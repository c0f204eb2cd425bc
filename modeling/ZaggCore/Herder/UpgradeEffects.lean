import Mathlib
import ZaggCore.Herder.Upgrades
import ZaggCore.Transactions.TransactionEffects

/-! # What upgrades move

An upgrade changes the header, and where it makes version 10 the current one or raises the reserve, offers
go that are no longer backed. Each is one entry less and one less on the count of its seller. -/

namespace ZaggCore.Transactions
set_option autoImplicit false
set_option maxHeartbeats 250000

open Foundations Numeric AbstractLedgerTxn

variable {X : Type} {w w' : World X}

/-- All entries stay but those under the keys of the offers. -/
def GrowsBut (offers : List OfferEntry) (ltx ltx' : AbstractLedgerTxn) : Prop :=
  ∀ k, (∀ o ∈ offers, k ≠ .offer o.sellerID o.offerID) → (ltx.getNewestVersion k).isSome →
    (ltx'.getNewestVersion k).isSome

theorem Grows.growsBut {ltx ltx' : AbstractLedgerTxn} (h : Grows ltx ltx') (offers : List OfferEntry) :
    GrowsBut offers ltx ltx' :=
  fun k _ => h k

theorem GrowsBut.trans {offers : List OfferEntry} {ltx ltx₁ ltx' : AbstractLedgerTxn}
    (h : GrowsBut offers ltx ltx₁) (h' : GrowsBut offers ltx₁ ltx') : GrowsBut offers ltx ltx' :=
  fun k hk hsome => h' k hk (h k hk hsome)

theorem GrowsBut.mono {offers offers' : List OfferEntry} {ltx ltx' : AbstractLedgerTxn}
    (h : GrowsBut offers ltx ltx') (hsub : ∀ o ∈ offers, o ∈ offers') : GrowsBut offers' ltx ltx' :=
  fun k hk => h k fun o ho => hk o (hsub o ho)

/-- The offers are in the ledger, each under its key. -/
structure Listed (ltx : AbstractLedgerTxn) (offers : List OfferEntry) : Prop where
  present : ∀ o ∈ offers, (ltx.getNewestVersion (.offer o.sellerID o.offerID)).isSome
  apart : offers.Pairwise fun o o' => LedgerKey.offer o.sellerID o.offerID ≠ .offer o'.sellerID o'.offerID

theorem listed_offers (ltx : AbstractLedgerTxn) : Listed ltx ltx.offers where
  present o ho := by
    rw [offer_eq_some.mp (mem_offers ho)]
    rfl
  apart := by
    unfold offers
    rw [List.pairwise_filterMap]
    have hkeys := List.nodupKeys_iff_pairwise.mp ltx.entries.nodupKeys
    refine hkeys.imp_of_mem fun {p p'} hp hp' hne o ho o' ho' heq => hne ?_
    obtain ⟨k, e⟩ := p
    obtain ⟨k', e'⟩ := p'
    have hkey := ltx.keyed k e ((List.mem_dlookup_iff ltx.entries.nodupKeys).mpr hp)
    have hkey' := ltx.keyed k' e' ((List.mem_dlookup_iff ltx.entries.nodupKeys).mpr hp')
    cases e with
    | offer o₁ =>
      cases e' with
      | offer o₂ =>
        obtain rfl := Option.some.inj ho
        obtain rfl := Option.some.inj ho'
        exact hkey.symm.trans (heq.trans hkey')
      | _ => cases ho'
    | _ => cases ho

theorem Listed.filter {ltx : AbstractLedgerTxn} {offers : List OfferEntry} (h : Listed ltx offers)
    (p : OfferEntry → Bool) : Listed ltx (offers.filter p) where
  present o ho := h.present o (List.mem_of_mem_filter ho)
  apart := h.apart.filter p

/-- What goes under other keys leaves the offers. -/
theorem Listed.after {ltx ltx' : AbstractLedgerTxn} {offers gone : List OfferEntry} (h : Listed ltx offers)
    (hg : GrowsBut gone ltx ltx')
    (hapart : ∀ o ∈ offers, ∀ o' ∈ gone, LedgerKey.offer o.sellerID o.offerID ≠ .offer o'.sellerID o'.offerID) :
    Listed ltx' offers where
  present o ho := hg _ (hapart o ho) (h.present o ho)
  apart := h.apart

namespace Upgrades

/-! ## One offer -/

theorem reads_loadTrustLineWithoutRecord (a : AccountID) (asset : Asset) :
    Reads (loadTrustLineWithoutRecord a asset : AppM X (Option TrustLineWrapper)) := by
  refine (Keeps.lift _).bind fun _ => (Keeps.lift _).bind fun issuer => .ite (fun _ => .pure _) fun _ => ?_
  exact Keeps.bind (fun _ _ => rfl) fun entry => .pure _

theorem reads_shouldDeleteOffer {asset : Asset} {effectiveBalance : ℤ} {liabilities : Totals}
    {getCap : Asset → ℤ → AppM X ℤ} (hcap : Reads (getCap asset effectiveBalance)) :
    Reads (shouldDeleteOffer asset effectiveBalance liabilities getCap) := by
  unfold shouldDeleteOffer
  split
  · exact .throw _
  · exact .pure _
  · exact hcap.bind fun _ => .pure _

theorem reads_getAvailableBalanceExcludingLiabilities (a : AccountID) (asset : Asset) (balance : ℤ) :
    Reads (getAvailableBalanceExcludingLiabilities a asset balance : AppM X ℤ) := by
  refine .ite (fun _ => .pure _) fun _ => .ite (fun _ => .pure _) fun _ => ?_
  refine (reads_loadTrustLineWithoutRecord a asset).bind fun line => ?_
  cases line <;> exact .pure _

theorem reads_getAvailableLimitExcludingLiabilities (a : AccountID) (asset : Asset) (balance : ℤ) :
    Reads (getAvailableLimitExcludingLiabilities a asset balance : AppM X ℤ) := by
  refine .ite (fun _ => .pure _) fun _ => .ite (fun _ => .pure _) fun _ => ?_
  refine Keeps.bind (fun _ _ => rfl) fun ltx => ?_
  split <;> exact .pure _

/-- Whether the offer went. -/
def UpdateOfferResult.gone (res : UpdateOfferResult) : Prop := res = .AdjustedToZero ∨ res = .Erased

instance (res : UpdateOfferResult) : Decidable res.gone := by
  unfold UpdateOfferResult.gone
  infer_instance

/-- An offer is written again, or goes. -/
structure OfferUpdated (offer : OfferEntry) (gone : Prop) [Decidable gone] (ltx ltx' : AbstractLedgerTxn) :
    Prop where
  moves : Moves (0, if gone then -Pi.single offer.sellerID 1 else 0) ltx ltx'
  grows : GrowsBut [offer] ltx ltx'
  account : ∀ a, ltx'.account a = ltx.account a

theorem offerUpdated_erase {offer : OfferEntry} {gone : Prop} [Decidable gone] (hgone : gone)
    (h : Transactions.erase (.offer offer.sellerID offer.offerID) w = .ok () w') :
    OfferUpdated offer gone w.ltx w'.ltx := by
  have hm := erase_moves (by simp) h
  obtain ⟨-, rfl⟩ := erase_ok.mp h
  refine ⟨hm.cast (by rw [if_pos hgone]; rfl), fun k hk hsome => ?_, account_erase_of_ne (by simp)⟩
  rw [World.ltx_setLtx, getNewestVersion_erase, if_neg (hk offer (List.mem_singleton_self offer))]
  exact hsome

theorem offerUpdated_keep {header : LedgerHeader} {offer : OfferEntry} {adjAmount : ℤ}
    {liabilities : LiabilitiesByAsset} {res : UpdateOfferResult × LiabilitiesByAsset}
    (hpresent : (w.ltx.getNewestVersion (.offer offer.sellerID offer.offerID)).isSome)
    (h : keepOffer header offer adjAmount liabilities w = .ok res w') :
    OfferUpdated offer res.1.gone w.ltx w'.ltx := by
  obtain ⟨_, w₁, h₁, h⟩ := bind_ok.mp h
  obtain ⟨hm, hg⟩ := store_moves (by simp [LedgerEntryData.key]) hpresent h₁
  obtain rfl := store_ok.mp h₁
  obtain ⟨_, w₂, h₂, h⟩ := bind_ok.mp h
  obtain ⟨-, rfl⟩ := lift_ok.mp h₂
  obtain ⟨_, w₂, h₂, h⟩ := bind_ok.mp h
  obtain ⟨-, rfl⟩ := lift_ok.mp h₂
  obtain ⟨_, w₂, h₂, h⟩ := bind_ok.mp h
  obtain ⟨-, rfl⟩ := lift_ok.mp h₂
  obtain ⟨_, w₂, h₂, h⟩ := bind_ok.mp h
  obtain ⟨-, rfl⟩ := lift_ok.mp h₂
  obtain ⟨rfl, rfl⟩ := pure_ok.mp h
  have hstays : ¬ UpdateOfferResult.gone (if adjAmount = offer.amount then .Unchanged else .Adjusted) := by
    split_ifs <;> simp [UpdateOfferResult.gone]
  exact ⟨hm.cast (by rw [if_neg hstays]; rfl), hg.growsBut _, account_put_of_ne (by simp)⟩

theorem updateOffer_updated {header : LedgerHeader} {offer : OfferEntry} {balance balanceAboveReserve : ℤ}
    {liabilities : LiabilitiesByAsset} {buying selling : Totals} {res : UpdateOfferResult × LiabilitiesByAsset}
    (hv : 8 ≤ w.ltx.header.ledgerVersion)
    (hpresent : (w.ltx.getNewestVersion (.offer offer.sellerID offer.offerID)).isSome)
    (h : updateOffer header offer balance balanceAboveReserve liabilities buying selling w = .ok res w') :
    OfferUpdated offer res.1.gone w.ltx w'.ltx := by
  obtain ⟨erased, w₁, h₁, h⟩ := bind_ok.mp h
  have hreads : w₁.ltx = w.ltx := by
    refine Reads.ltx ?_ hv h₁
    refine (reads_shouldDeleteOffer (reads_getAvailableBalanceExcludingLiabilities _ _ _)).bind fun _ => ?_
    refine .ite (fun _ => .pure _) fun _ => ?_
    exact reads_shouldDeleteOffer (reads_getAvailableLimitExcludingLiabilities _ _ _)
  rw [← hreads] at hpresent ⊢
  split at h
  · obtain ⟨_, w₂, h₂, h⟩ := bind_ok.mp h
    obtain ⟨rfl, rfl⟩ := pure_ok.mp h
    exact offerUpdated_erase (.inr rfl) h₂
  · obtain ⟨adjAmount, w₂, h₂, h⟩ := bind_ok.mp h
    obtain ⟨-, rfl⟩ := lift_ok.mp h₂
    split at h
    · obtain ⟨_, w₂, h₂, h⟩ := bind_ok.mp h
      obtain ⟨rfl, rfl⟩ := pure_ok.mp h
      exact offerUpdated_erase (.inl rfl) h₂
    · exact offerUpdated_keep hpresent h

/-! ## The offers of an account -/

/-- Nothing moved, the account is at hand, and of the entries only offers of the list went. -/
structure AccountUpdated (offers : List OfferEntry) (acc acc' : AccountEntry) (ltx ltx' : AbstractLedgerTxn) :
    Prop where
  moves : Moves 0 ltx ltx'
  held : Held ltx' acc'
  accountID : acc'.accountID = acc.accountID
  grows : GrowsBut offers ltx ltx'

theorem AccountUpdated.trans {offers : List OfferEntry} {acc acc₁ acc' : AccountEntry}
    {ltx ltx₁ ltx' : AbstractLedgerTxn} (h : AccountUpdated offers acc acc₁ ltx ltx₁)
    (h' : AccountUpdated offers acc₁ acc' ltx₁ ltx') : AccountUpdated offers acc acc' ltx ltx' where
  moves := (h.moves.trans h'.moves).cast (add_zero 0)
  held := h'.held
  accountID := h'.accountID.trans h.accountID
  grows := h.grows.trans h'.grows

theorem AccountUpdated.mono {offers offers' : List OfferEntry} {acc acc' : AccountEntry}
    {ltx ltx' : AbstractLedgerTxn} (h : AccountUpdated offers acc acc' ltx ltx')
    (hsub : ∀ o ∈ offers, o ∈ offers') : AccountUpdated offers' acc acc' ltx ltx' :=
  ⟨h.moves, h.held, h.accountID, h.grows.mono hsub⟩

theorem updateOffers_updated {header : LedgerHeader} {balance balanceAboveReserve : ℤ} {buying selling : Totals}
    (offers : List OfferEntry) {acc acc' : AccountEntry} {liabilities liabilities' : LiabilitiesByAsset}
    (hv : 8 ≤ w.ltx.header.ledgerVersion) (hheld : Held w.ltx acc)
    (hseller : ∀ o ∈ offers, o.sellerID = acc.accountID) (hlisted : Listed w.ltx offers)
    (h : updateOffers header balance balanceAboveReserve buying selling offers acc liabilities w
      = .ok (acc', liabilities') w') : AccountUpdated offers acc acc' w.ltx w'.ltx := by
  induction offers generalizing acc liabilities w with
  | nil =>
    obtain ⟨heq, rfl⟩ := pure_ok.mp h
    obtain ⟨rfl, -⟩ := Prod.mk.inj heq
    exact ⟨.refl _, hheld, rfl, (Grows.refl _).growsBut _⟩
  | cons offer offers ih =>
    obtain ⟨hseller₀, hseller⟩ := List.forall_mem_cons.mp hseller
    obtain ⟨⟨res, liabilities₁⟩, w₁, h₁, h⟩ := bind_ok.mp h
    have hupdated := updateOffer_updated hv (hlisted.present offer List.mem_cons_self) h₁
    have hv₁ : 8 ≤ w₁.ltx.header.ledgerVersion := by rwa [hupdated.moves.version]
    have hheld₁ : Held w₁.ltx acc := (hupdated.account _).trans hheld
    obtain ⟨acc₂, w₂, h₂, h⟩ := bind_ok.mp h
    have hstep : AccountUpdated [offer] acc acc₂ w.ltx w₂.ltx := by
      split at h₂
      case isTrue hgone =>
        obtain ⟨res', w₃, h₃, h₂⟩ := bind_ok.mp h₂
        obtain ⟨rfl, rfl⟩ := pure_ok.mp h₂
        obtain ⟨-, hcount, -⟩ | ⟨acc₃, rfl, hid, hheld₃, hltx, hm⟩ :=
          addNumEntries_moves assigns_storeAccount (.inr rfl) hv₁ hheld₁ h₃
        · omega
        · refine ⟨(hupdated.moves.trans hm).cast ?_, hheld₃, hid, hupdated.grows.trans ?_⟩
          · rw [if_pos (show UpdateOfferResult.gone res from hgone), hseller₀]
            simp
          · rw [hltx]
            exact (Grows.put _ _).growsBut _
      case isFalse hstays =>
        obtain ⟨rfl, rfl⟩ := pure_ok.mp h₂
        refine ⟨hupdated.moves.cast ?_, hheld₁, rfl, hupdated.grows⟩
        rw [if_neg (show ¬ UpdateOfferResult.gone res from hstays)]
        rfl
    obtain ⟨hapart, hrest⟩ := List.pairwise_cons.mp hlisted.apart
    have hlisted₂ : Listed w₂.ltx offers := by
      refine Listed.after ⟨fun o ho => hlisted.present o (List.mem_cons_of_mem _ ho), hrest⟩ hstep.grows ?_
      intro o ho o' ho'
      rw [List.mem_singleton.mp ho']
      exact (hapart o ho).symm
    have hv₂ : 8 ≤ w₂.ltx.header.ledgerVersion := by rwa [hstep.moves.version]
    have hrun := ih hv₂ hstep.held (fun o ho => (hseller o ho).trans hstep.accountID.symm) hlisted₂ h
    refine (hstep.mono fun o ho => ?_).trans (hrun.mono fun o ho => List.mem_cons_of_mem _ ho)
    rw [List.mem_singleton.mp ho]
    exact List.mem_cons_self

/-! ## The liabilities of an account -/

theorem updateAccount_updated {change : AccountEntry → Except Exception (Option AccountEntry)}
    (hchange : ∀ acc acc', change acc = .ok (some acc') → ∃ ext, acc' = { acc with ext := ext })
    {acc acc' : AccountEntry} (hv : 8 ≤ w.ltx.header.ledgerVersion) (hheld : Held w.ltx acc)
    (h : updateAccount storeAccount change acc w = .ok (some acc') w') :
    AccountUpdated [] acc acc' w.ltx w'.ltx := by
  obtain ⟨hnone, -⟩ | ⟨acc₁, hsome, hs, hltx, hheld', hm⟩ := updateAccount_moves assigns_storeAccount
    (fun acc' hc => by
      obtain ⟨ext, rfl⟩ := hchange acc acc' hc
      exact AccountStep.of_eq rfl le_rfl rfl rfl rfl) hv hheld h
  · cases hnone
  · obtain rfl := Option.some.inj hsome
    refine ⟨hm.cast (by simp), hheld', hs.accountID, ?_⟩
    rw [hltx]
    exact (Grows.put _ _).growsBut _

theorem updateLiabilities_updated {header : LedgerHeader} {a : AccountID} {asset : Asset} {liab : Liabilities}
    {acc acc' : AccountEntry} (hv : 8 ≤ w.ltx.header.ledgerVersion) (hheld : Held w.ltx acc)
    (h : updateLiabilities header a asset liab acc w = .ok acc' w') :
    AccountUpdated [] acc acc' w.ltx w'.ltx := by
  unfold updateLiabilities at h
  split at h
  · obtain ⟨res, w₁, h₁, h⟩ := bind_ok.mp h
    cases res with
    | none => exact absurd h throw_ok
    | some acc₁ =>
      have hsold := updateAccount_updated (fun _ _ hc => account_addSellingLiabilities_ok hc) hv hheld h₁
      have hv₁ : 8 ≤ w₁.ltx.header.ledgerVersion := by rwa [hsold.moves.version]
      obtain ⟨res, w₂, h₂, h⟩ := bind_ok.mp h
      cases res with
      | none => exact absurd h throw_ok
      | some acc₂ =>
        obtain ⟨rfl, rfl⟩ := pure_ok.mp h
        exact hsold.trans
          (updateAccount_updated (fun _ _ hc => account_addBuyingLiabilities_ok hc) hv₁ hsold.held h₂)
  · obtain ⟨res, w₁, h₁, h⟩ := bind_ok.mp h
    obtain ⟨hltx, hline⟩ := loadTrustLine_ok h₁
    rw [← hltx] at hline hheld ⊢
    cases res with
    | none =>
      obtain ⟨_, w₂, h₂, -⟩ := bind_ok.mp h
      exact absurd h₂ throw_ok
    | some line =>
      obtain ⟨line₁, w₂, h₂, h⟩ := bind_ok.mp h
      obtain ⟨rfl, rfl⟩ := pure_ok.mp h₂
      obtain ⟨res, w₂, h₂, h⟩ := bind_ok.mp h
      obtain ⟨hm₂, hg₂, hacc₂, hline₂⟩ := update_moves (fun tl tl' hc => by
        obtain ⟨ext, rfl⟩ := trustLine_addSellingLiabilities_ok hc
        exact ⟨rfl, rfl⟩) (hline line rfl) h₂
      cases res with
      | none => exact absurd h throw_ok
      | some line₂ =>
        obtain ⟨res, w₃, h₃, h⟩ := bind_ok.mp h
        obtain ⟨hm₃, hg₃, hacc₃, -⟩ := update_moves (fun tl tl' hc => by
          obtain ⟨ext, rfl⟩ := trustLine_addBuyingLiabilities_ok hc
          exact ⟨rfl, rfl⟩) (hline₂ line₂ rfl) h₃
        cases res with
        | none => exact absurd h throw_ok
        | some line₃ =>
          obtain ⟨rfl, rfl⟩ := pure_ok.mp h
          refine ⟨(hm₂.trans hm₃).cast (add_zero 0), ?_, rfl, (hg₂.trans hg₃).growsBut _⟩
          exact ((hacc₃ _).trans (hacc₂ _)).trans hheld

theorem updateAllLiabilities_updated {header : LedgerHeader} {a : AccountID} {liabilities : LiabilitiesByAsset}
    (assets : List Asset) {acc : AccountEntry} (hv : 8 ≤ w.ltx.header.ledgerVersion) (hheld : Held w.ltx acc)
    (h : updateAllLiabilities header a liabilities assets acc w = .ok () w') :
    Moves 0 w.ltx w'.ltx ∧ GrowsBut [] w.ltx w'.ltx := by
  induction assets generalizing acc w with
  | nil =>
    obtain ⟨-, rfl⟩ := pure_ok.mp h
    exact ⟨.refl _, (Grows.refl _).growsBut _⟩
  | cons asset assets ih =>
    obtain ⟨acc₁, w₁, h₁, h⟩ := bind_ok.mp h
    have hupdated := updateLiabilities_updated hv hheld h₁
    obtain ⟨hm, hg⟩ := ih (by rwa [hupdated.moves.version]) hupdated.held h
    exact ⟨(hupdated.moves.trans hm).cast (add_zero 0), hupdated.grows.trans hg⟩

/-! ## All accounts -/

theorem prepareAccount_moves {header : LedgerHeader} {a : AccountID} {offers : List OfferEntry}
    (hv : 8 ≤ w.ltx.header.ledgerVersion) (hseller : ∀ o ∈ offers, o.sellerID = a)
    (hlisted : Listed w.ltx offers) (h : prepareAccount header a offers w = .ok () w') :
    Moves 0 w.ltx w'.ltx ∧ GrowsBut offers w.ltx w'.ltx := by
  obtain ⟨buying, w₁, h₁, h⟩ := bind_ok.mp h
  obtain ⟨-, rfl⟩ := lift_ok.mp h₁
  obtain ⟨selling, w₁, h₁, h⟩ := bind_ok.mp h
  obtain ⟨-, rfl⟩ := lift_ok.mp h₁
  obtain ⟨res, w₁, h₁, h⟩ := bind_ok.mp h
  obtain ⟨hacc, rfl⟩ := loadAccount_ok.mp h₁
  have hltx := w.ltx_load (.account a)
  rw [← hltx] at hv hlisted hacc ⊢
  cases res with
  | none => exact absurd h throw_ok
  | some acc =>
    obtain ⟨⟨acc₁, liabilities⟩, w₁, h₁, h⟩ := bind_ok.mp h
    have hupdated := updateOffers_updated offers hv (held_of_account hacc)
      (fun o ho => (hseller o ho).trans (accountID_of_account hacc).symm) hlisted h₁
    obtain ⟨hm, hg⟩ := updateAllLiabilities_updated _ (by rwa [hupdated.moves.version]) hupdated.held h
    exact ⟨(hupdated.moves.trans hm).cast (add_zero 0),
      hupdated.grows.trans (hg.mono fun o ho => absurd ho List.not_mem_nil)⟩

theorem prepareAccounts_moves {header : LedgerHeader} {offers : List OfferEntry} (accounts : List AccountID)
    (hv : 8 ≤ w.ltx.header.ledgerVersion) (hnodup : accounts.Nodup)
    (hlisted : Listed w.ltx (offers.filter (·.sellerID ∈ accounts)))
    (h : prepareAccounts header offers accounts w = .ok () w') : Moves 0 w.ltx w'.ltx := by
  induction accounts generalizing w with
  | nil =>
    obtain ⟨-, rfl⟩ := pure_ok.mp h
    exact .refl _
  | cons a accounts ih =>
    obtain ⟨ha, hnodup⟩ := List.nodup_cons.mp hnodup
    obtain ⟨_, w₁, h₁, h⟩ := bind_ok.mp h
    -- the offers of this account, and those of the accounts to come
    have hsome : Listed w.ltx (offers.filter (·.sellerID = a)) := by
      have hfilter := hlisted.filter (·.sellerID = a)
      rw [List.filter_filter] at hfilter
      refine List.filter_congr (fun o _ => ?_) ▸ hfilter
      by_cases heq : o.sellerID = a <;> simp [heq]
    have hrest : Listed w.ltx (offers.filter (·.sellerID ∈ accounts)) := by
      have hfilter := hlisted.filter (·.sellerID ∈ accounts)
      rw [List.filter_filter] at hfilter
      refine List.filter_congr (fun o _ => ?_) ▸ hfilter
      by_cases hmem : o.sellerID ∈ accounts <;> simp [hmem]
    obtain ⟨hm, hg⟩ := prepareAccount_moves hv
      (fun o ho => of_decide_eq_true (List.mem_filter.mp ho).2) hsome h₁
    have hrest₁ : Listed w₁.ltx (offers.filter (·.sellerID ∈ accounts)) := by
      refine hrest.after hg fun o ho o' ho' heq => ha ?_
      have hmem : o.sellerID ∈ accounts := of_decide_eq_true (List.mem_filter.mp ho).2
      have hseller : o'.sellerID = a := of_decide_eq_true (List.mem_filter.mp ho').2
      obtain ⟨hsame, -⟩ := LedgerKey.offer.inj heq
      rwa [hsame, hseller] at hmem
    exact (hm.trans (ih (by rwa [hm.version]) hnodup hrest₁ h)).cast (add_zero 0)

/-- The lumens and the counts of all accounts are right again after the offers were gone through. -/
theorem prepareLiabilities_moves (hv : 8 ≤ w.ltx.header.ledgerVersion) (h : prepareLiabilities w = .ok () w') :
    Moves 0 w.ltx w'.ltx := by
  obtain ⟨ltx, w₁, h₁, h⟩ := bind_ok.mp h
  obtain ⟨rfl, rfl⟩ := getLedger_ok.mp h₁
  obtain ⟨_, w₁, h₁, h⟩ := bind_ok.mp h
  have hload : ∀ (offers : List OfferEntry) (w : World X),
      (offers.foldl (fun w o => w.load (.offer o.sellerID o.offerID)) w).ltx = w.ltx := by
    intro offers
    induction offers with
    | nil => exact fun _ => rfl
    | cons o offers ih => exact fun w => (ih _).trans (w.ltx_load _)
  have hltx : w₁.ltx = w.ltx := by
    rw [← modify_ok.mp h₁]
    exact hload _ _
  rw [← hltx] at hv h ⊢
  exact prepareAccounts_moves _ hv (Finset.sort_nodup _ _) ((listed_offers _).filter _) h

end Upgrades

/-! ## Upgrades -/

/-- From one ledger to the next nothing was moved, whatever the version. -/
structure Settled (ltx ltx' : AbstractLedgerTxn) : Prop where
  ledgerSeq : ltx'.header.ledgerSeq = ltx.header.ledgerSeq
  lumens : ltx.AmountsFit → ltx'.AmountsFit ∧ ltx'.lumens ≡ ltx.lumens [ZMOD 2 ^ 64]
  counts : ltx.CountsFit → ltx'.CountsFit ∧ ∀ a, ltx'.imbalance a = ltx.imbalance a
  floor : ltx.header.ledgerSeq < 2 ^ 31 → ∀ a, ltx.floor a ≤ ltx'.floor a

namespace Settled

variable {ltx ltx₁ ltx' : AbstractLedgerTxn}

protected theorem refl (ltx : AbstractLedgerTxn) : Settled ltx ltx :=
  ⟨rfl, fun h => ⟨h, rfl⟩, fun h => ⟨h, fun _ => rfl⟩, fun _ _ => le_rfl⟩

protected theorem trans (h : Settled ltx ltx₁) (h' : Settled ltx₁ ltx') : Settled ltx ltx' where
  ledgerSeq := h'.ledgerSeq.trans h.ledgerSeq
  lumens hfit := by
    obtain ⟨hfit₁, h₁⟩ := h.lumens hfit
    obtain ⟨hfit₂, h₂⟩ := h'.lumens hfit₁
    exact ⟨hfit₂, h₂.trans h₁⟩
  counts hfit := by
    obtain ⟨hfit₁, h₁⟩ := h.counts hfit
    obtain ⟨hfit₂, h₂⟩ := h'.counts hfit₁
    exact ⟨hfit₂, fun a => (h₂ a).trans (h₁ a)⟩
  floor hs a := (h.floor hs a).trans (h'.floor (by rwa [h.ledgerSeq]) a)

theorem of_moves (h : Moves 0 ltx ltx') (hv : 10 ≤ ltx.header.ledgerVersion) : Settled ltx ltx' where
  ledgerSeq := h.ledgerSeq
  lumens hfit := by simpa using h.lumens hfit
  counts hfit := by simpa using h.counts hfit
  floor := h.floor hv

/-- A change of the header alone, that leaves the fee pool and the total of coins. -/
theorem header {header : LedgerHeader} (hseq : header.ledgerSeq = ltx.header.ledgerSeq)
    (hpool : header.feePool = ltx.header.feePool) (htotal : header.totalCoins = ltx.header.totalCoins) :
    Settled ltx { ltx with header := header } where
  ledgerSeq := hseq
  lumens hfit := by
    refine ⟨⟨hfit.balances, hpool ▸ hfit.feePool, htotal ▸ hfit.totalCoins⟩, ?_⟩
    rw [AbstractLedgerTxn.lumens, AbstractLedgerTxn.lumens, hpool, htotal]
    rfl
  counts hfit := ⟨hfit, fun _ => rfl⟩
  floor _ a := by
    have heq : AbstractLedgerTxn.floor { ltx with header := header } a = ltx.floor a := by
      unfold AbstractLedgerTxn.floor
      rw [hseq]
      rfl
    rw [heq]

end Settled

/-- The version that an upgrade makes of this one. -/
def LedgerUpgrade.versionFrom (version : ℕ) : LedgerUpgrade → ℕ
  | .LEDGER_UPGRADE_VERSION newLedgerVersion => newLedgerVersion
  | _ => version

namespace Upgrades

theorem applyVersionUpgrade_settled {newVersion : ℕ} (h : applyVersionUpgrade newVersion w = .ok () w') :
    Settled w.ltx w'.ltx ∧ w'.ltx.header.ledgerVersion = newVersion := by
  obtain ⟨header, w₁, h₁, h⟩ := bind_ok.mp h
  obtain ⟨rfl, rfl⟩ := loadHeader_ok.mp h₁
  obtain ⟨_, w₁, h₁, h⟩ := bind_ok.mp h
  obtain rfl := storeHeader_ok.mp h₁
  have hstored : Settled w.ltx { w.ltx with header := { w.ltx.header with ledgerVersion := newVersion } } :=
    .header rfl rfl rfl
  split at h
  case isTrue hnew =>
    have hv : 8 ≤ newVersion := by omega
    have hm := prepareLiabilities_moves (by exact hv) h
    exact ⟨hstored.trans (.of_moves hm hnew.1), hm.version⟩
  case isFalse =>
    obtain ⟨-, rfl⟩ := pure_ok.mp h
    exact ⟨hstored, rfl⟩

theorem applyReserveUpgrade_settled {newReserve : ℕ} (h : applyReserveUpgrade newReserve w = .ok () w') :
    Settled w.ltx w'.ltx ∧ w'.ltx.header.ledgerVersion = w.ltx.header.ledgerVersion := by
  obtain ⟨header, w₁, h₁, h⟩ := bind_ok.mp h
  obtain ⟨rfl, rfl⟩ := loadHeader_ok.mp h₁
  obtain ⟨_, w₁, h₁, h⟩ := bind_ok.mp h
  obtain rfl := storeHeader_ok.mp h₁
  have hstored : Settled w.ltx { w.ltx with header := { w.ltx.header with baseReserve := newReserve } } :=
    .header rfl rfl rfl
  split at h
  case isTrue hnew =>
    have hv : 8 ≤ w.ltx.header.ledgerVersion := by omega
    have hm := prepareLiabilities_moves (by exact hv) h
    exact ⟨hstored.trans (.of_moves hm hnew.1), hm.version⟩
  case isFalse =>
    obtain ⟨-, rfl⟩ := pure_ok.mp h
    exact ⟨hstored, rfl⟩

theorem applyTo_settled {upgrade : LedgerUpgrade} (h : applyTo upgrade w = .ok () w') :
    Settled w.ltx w'.ltx ∧ w'.ltx.header.ledgerVersion = upgrade.versionFrom w.ltx.header.ledgerVersion := by
  obtain ⟨header, w₁, h₁, h⟩ := bind_ok.mp h
  obtain ⟨rfl, rfl⟩ := loadHeader_ok.mp h₁
  cases upgrade with
  | LEDGER_UPGRADE_VERSION newVersion => exact applyVersionUpgrade_settled h
  | LEDGER_UPGRADE_BASE_FEE newFee =>
    obtain rfl := storeHeader_ok.mp h
    exact ⟨.header rfl rfl rfl, rfl⟩
  | LEDGER_UPGRADE_MAX_TX_SET_SIZE newMax =>
    obtain rfl := storeHeader_ok.mp h
    exact ⟨.header rfl rfl rfl, rfl⟩
  | LEDGER_UPGRADE_BASE_RESERVE newReserve => exact applyReserveUpgrade_settled h

end Upgrades

end ZaggCore.Transactions
