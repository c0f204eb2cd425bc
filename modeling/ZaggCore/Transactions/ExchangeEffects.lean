import Mathlib
import ZaggCore.Transactions.Accounting
import ZaggCore.Transactions.OfferExchange

/-! # What crossing offers moves

Every function of the exchange and the loads and updates it is made of, with what it moves. From version
8 on. -/

namespace ZaggCore.Transactions
set_option autoImplicit false
set_option maxHeartbeats 250000

open Foundations Numeric AbstractLedgerTxn

variable {X Q : Type}

/-! ## Handles -/

/-- The value of a handle is the newest version of its account. -/
def Held (ltx : AbstractLedgerTxn) (acc : AccountEntry) : Prop :=
  ltx.account acc.accountID = some acc

theorem held_of_account {ltx : AbstractLedgerTxn} {a : AccountID} {acc : AccountEntry}
    (h : ltx.account a = some acc) : Held ltx acc := by
  rw [Held, accountID_of_account h, h]

/-- The keys that have an entry keep one. -/
def Grows (ltx ltx' : AbstractLedgerTxn) : Prop :=
  ∀ k, (ltx.getNewestVersion k).isSome → (ltx'.getNewestVersion k).isSome

theorem Grows.refl (ltx : AbstractLedgerTxn) : Grows ltx ltx := fun _ => id

theorem Grows.of_eq {ltx ltx' : AbstractLedgerTxn} (h : ltx' = ltx) : Grows ltx ltx' := h ▸ .refl ltx

theorem Grows.trans {ltx ltx₁ ltx₂ : AbstractLedgerTxn} (h₁ : Grows ltx ltx₁) (h₂ : Grows ltx₁ ltx₂) :
    Grows ltx ltx₂ :=
  fun k hk => h₂ k (h₁ k hk)

theorem Grows.put (ltx : AbstractLedgerTxn) (e : LedgerEntryData) : Grows ltx (ltx.put e) := by
  intro k hk
  rw [getNewestVersion_put]
  split_ifs
  · rfl
  · exact hk

/-- The entry behind a line is there. -/
def TrustLineWrapper.Held (ltx : AbstractLedgerTxn) : TrustLineWrapper → Prop
  | .NonIssuerImpl tl => (ltx.getNewestVersion (.trustLine tl.accountID tl.asset)).isSome
  | .IssuerImpl _ _ => True

theorem TrustLineWrapper.Held.grows {ltx ltx' : AbstractLedgerTxn} {line : TrustLineWrapper}
    (h : line.Held ltx) (hg : Grows ltx ltx') : line.Held ltx' := by
  cases line with
  | NonIssuerImpl tl => exact hg _ h
  | IssuerImpl a asset => trivial

theorem wrapTrustLine_ok {load : AccountID → Asset → AppM X (Option TrustLineEntry)}
    (hload : ∀ a asset w tl w', load a asset w = .ok tl w' → w.ltx.trustLine a asset = tl ∧ w'.ltx = w.ltx)
    {a : AccountID} {asset : Asset} {line : Option TrustLineWrapper} {w w' : World X}
    (h : wrapTrustLine load a asset w = .ok line w') :
    w'.ltx = w.ltx ∧ ∀ l ∈ line, l.Held w.ltx := by
  obtain ⟨_, w₁, h₁, h⟩ := bind_ok.mp h
  obtain ⟨-, rfl⟩ := lift_ok.mp h₁
  obtain ⟨issuer, w₁, h₁, h⟩ := bind_ok.mp h
  obtain ⟨-, rfl⟩ := lift_ok.mp h₁
  split at h
  · obtain ⟨rfl, rfl⟩ := pure_ok.mp h
    exact ⟨rfl, fun l hl => by rw [← Option.mem_some.mp hl]; trivial⟩
  · obtain ⟨entry, w₁, h₁, h⟩ := bind_ok.mp h
    obtain ⟨htl, hltx⟩ := hload _ _ _ _ _ h₁
    obtain ⟨rfl, rfl⟩ := pure_ok.mp h
    refine ⟨hltx, fun l hl => ?_⟩
    obtain ⟨tl, rfl, rfl⟩ := Option.map_eq_some_iff.mp hl
    obtain ⟨hid, hasset⟩ := key_of_trustLine htl
    change (w.ltx.getNewestVersion (.trustLine tl.accountID tl.asset)).isSome
    rw [hid, hasset, trustLine_eq_some.mp htl]
    rfl

theorem loadTrustLine_ok {a : AccountID} {asset : Asset} {line : Option TrustLineWrapper}
    {w w' : World X} (h : loadTrustLine a asset w = .ok line w') :
    w'.ltx = w.ltx ∧ ∀ l ∈ line, l.Held w.ltx := by
  refine wrapTrustLine_ok (fun a asset w tl w' h => ?_) h
  obtain ⟨rfl, rfl⟩ := loadTrustLineEntry_ok.mp h
  exact ⟨rfl, w.ltx_load _⟩

theorem loadTrustLineWithoutRecord_ok {a : AccountID} {asset : Asset} {line : Option TrustLineWrapper}
    {w w' : World X} (h : loadTrustLineWithoutRecord a asset w = .ok line w') :
    w'.ltx = w.ltx ∧ ∀ l ∈ line, l.Held w.ltx := by
  refine wrapTrustLine_ok (fun a asset w tl w' h => ?_) h
  obtain ⟨rfl, rfl⟩ : w.ltx.trustLine a asset = tl ∧ w = w' := by simpa using h
  exact ⟨rfl, rfl⟩

theorem loadTrustLineIfNotNative_ok {a : AccountID} {asset : Asset} {line : Option TrustLineWrapper}
    {w w' : World X} (h : loadTrustLineIfNotNative a asset w = .ok line w') :
    w'.ltx = w.ltx ∧ ∀ l ∈ line, l.Held w.ltx := by
  unfold loadTrustLineIfNotNative at h
  split at h
  · obtain ⟨rfl, rfl⟩ := pure_ok.mp h
    exact ⟨rfl, by simp⟩
  · exact loadTrustLine_ok h

theorem loadTrustLineWithoutRecordIfNotNative_ok {a : AccountID} {asset : Asset}
    {line : Option TrustLineWrapper} {w w' : World X}
    (h : loadTrustLineWithoutRecordIfNotNative a asset w = .ok line w') :
    w'.ltx = w.ltx ∧ ∀ l ∈ line, l.Held w.ltx := by
  unfold loadTrustLineWithoutRecordIfNotNative at h
  split at h
  · obtain ⟨rfl, rfl⟩ := pure_ok.mp h
    exact ⟨rfl, by simp⟩
  · exact loadTrustLineWithoutRecord_ok h

/-! ## Updates -/

/-- `assign` writes the account to the ledger and nothing else. -/
def Assigns (assign : AccountEntry → AppM X Unit) : Prop :=
  ∀ acc w w', 8 ≤ w.ltx.header.ledgerVersion → assign acc w = .ok () w' →
    w'.ltx = w.ltx.put (.account acc)

theorem assigns_storeAccount : Assigns (storeAccount (X := X)) := by
  intro acc w w' _ h
  rw [← store_ok.mp h]
  rfl

theorem assigns_storeCached : Assigns (storeCached (X := X)) := by
  intro acc w w' hv h
  rw [storeCached_eq hv] at h
  exact assigns_storeAccount acc w w' hv h

/-- An update of an account that is held: no value and no change, or a step of the account. -/
theorem updateAccount_moves {assign : AccountEntry → AppM X Unit} (hassign : Assigns assign)
    {change : AccountEntry → Except Exception (Option AccountEntry)} {acc : AccountEntry} {d : ℤ × ℤ}
    (hstep : ∀ acc', change acc = .ok (some acc') → AccountStep d acc acc') {w w' : World X}
    (hv : 8 ≤ w.ltx.header.ledgerVersion) (hheld : Held w.ltx acc) {res : Option AccountEntry}
    (h : updateAccount assign change acc w = .ok res w') :
    (res = none ∧ w'.ltx = w.ltx) ∨ ∃ acc', res = some acc' ∧ AccountStep d acc acc' ∧
      w'.ltx = w.ltx.put (.account acc') ∧ Held w'.ltx acc' ∧
      Moves (d.1, Pi.single acc.accountID d.2) w.ltx w'.ltx := by
  obtain ⟨res', w₁, h₁, h⟩ := bind_ok.mp h
  obtain ⟨hchange, rfl⟩ := lift_ok.mp h₁
  cases res' with
  | none =>
    obtain ⟨rfl, rfl⟩ := pure_ok.mp h
    exact .inl ⟨rfl, rfl⟩
  | some acc' =>
    obtain ⟨_, w₁, h₁, h⟩ := bind_ok.mp h
    obtain ⟨rfl, rfl⟩ := pure_ok.mp h
    have hltx := hassign _ _ _ hv h₁
    have hs := hstep acc' hchange
    refine .inr ⟨acc', rfl, hs, hltx, ?_, ?_⟩
    · rw [hltx, Held, account_put_account, if_pos rfl]
    · rw [hltx]
      exact .account hheld hs

/-- An update of a line that is held leaves the accounts alone. -/
theorem update_moves {change : TrustLineEntry → Except Exception (Option TrustLineEntry)}
    (hchange : ∀ tl tl', change tl = .ok (some tl') → tl'.accountID = tl.accountID ∧ tl'.asset = tl.asset)
    {line : TrustLineWrapper} {res : Option TrustLineWrapper} {w w' : World X}
    (hheld : line.Held w.ltx) (h : line.update change w = .ok res w') :
    Moves 0 w.ltx w'.ltx ∧ Grows w.ltx w'.ltx ∧ (∀ a, w'.ltx.account a = w.ltx.account a) ∧
      ∀ l ∈ res, l.Held w'.ltx := by
  cases line with
  | IssuerImpl a asset =>
    obtain ⟨rfl, rfl⟩ := pure_ok.mp h
    refine ⟨.refl _, .refl _, fun _ => rfl, fun l hl => ?_⟩
    rw [← Option.mem_some.mp hl]
    trivial
  | NonIssuerImpl tl =>
    obtain ⟨res', w₁, h₁, h⟩ := bind_ok.mp h
    obtain ⟨hc, rfl⟩ := lift_ok.mp h₁
    cases res' with
    | none =>
      obtain ⟨rfl, rfl⟩ := pure_ok.mp h
      exact ⟨.refl _, .refl _, fun _ => rfl, by simp⟩
    | some tl' =>
      obtain ⟨_, w₁, h₁, h⟩ := bind_ok.mp h
      obtain ⟨rfl, rfl⟩ := pure_ok.mp h
      obtain ⟨hid, hasset⟩ := hchange tl tl' hc
      have hltx : w₁.ltx = w.ltx.put (.trustLine tl') := by rw [← store_ok.mp h₁]; rfl
      have hpresent : (w.ltx.getNewestVersion (LedgerEntryData.trustLine tl').key).isSome := by
        rw [LedgerEntryData.key, hid, hasset]
        exact hheld
      rw [hltx]
      refine ⟨.put_of_present (by simp) hpresent, .put _ _, account_put_of_ne (by simp), fun l hl => ?_⟩
      rw [← Option.mem_some.mp hl]
      exact Grows.put _ _ _ hpresent

/-- `amount` of an asset, as lumens. -/
def native (asset : Asset) (amount : ℤ) : ℤ × (AccountID → ℤ) :=
  (if asset = .native then amount else 0, 0)

@[simp] theorem native_zero (asset : Asset) : native asset 0 = 0 := by
  simp [native]

theorem native_add (asset : Asset) (x y : ℤ) : native asset (x + y) = native asset x + (native asset y) := by
  unfold native
  split_ifs <;> simp

theorem native_neg (asset : Asset) (x : ℤ) : native asset (-x) = -native asset x := by
  unfold native
  split_ifs <;> simp

/-- Lumens added to an account that is held. -/
theorem addBalance_moves {assign : AccountEntry → AppM X Unit} (hassign : Assigns assign)
    {header : LedgerHeader} {delta : ℤ} {acc : AccountEntry} {w w' : World X}
    (hv : 8 ≤ w.ltx.header.ledgerVersion) (hheld : Held w.ltx acc) {res : Option AccountEntry}
    (h : updateAccount assign (AccountEntry.addBalance header · delta) acc w = .ok res w') :
    (res = none ∧ w'.ltx = w.ltx) ∨ ∃ acc', res = some acc' ∧ acc'.accountID = acc.accountID ∧
      Held w'.ltx acc' ∧ w'.ltx = w.ltx.put (.account acc') ∧ Moves (delta, 0) w.ltx w'.ltx := by
  obtain h | ⟨acc', rfl, hs, hltx, hheld', hm⟩ :=
    updateAccount_moves hassign (fun _ => AccountStep.addBalance) hv hheld h
  · exact .inl h
  · exact .inr ⟨acc', rfl, hs.accountID, hheld', hltx, hm.cast (by simp)⟩

/-- One entry more or less in the count of an account that is held. -/
theorem addNumEntries_moves {assign : AccountEntry → AppM X Unit} (hassign : Assigns assign)
    {header : LedgerHeader} {count : ℤ} (hcount : count = 1 ∨ count = -1) {acc : AccountEntry}
    {w w' : World X} (hv : 8 ≤ w.ltx.header.ledgerVersion) (hheld : Held w.ltx acc)
    {res : Option AccountEntry}
    (h : updateAccount assign (addNumEntries header · count) acc w = .ok res w') :
    (res = none ∧ count = 1 ∧ w'.ltx = w.ltx) ∨
      ∃ acc', res = some acc' ∧ acc'.accountID = acc.accountID ∧ Held w'.ltx acc' ∧
        w'.ltx = w.ltx.put (.account acc') ∧ Moves (0, Pi.single acc.accountID (-count)) w.ltx w'.ltx := by
  obtain ⟨rfl, hltx⟩ | ⟨acc', rfl, hs, hltx, hheld', hm⟩ :=
    updateAccount_moves hassign (fun _ => AccountStep.addNumEntries hcount) hv hheld h
  · refine .inl ⟨rfl, ?_, hltx⟩
    obtain ⟨res, w₁, h₁, h⟩ := bind_ok.mp h
    obtain ⟨hchange, rfl⟩ := lift_ok.mp h₁
    obtain ⟨-, ⟨-, hpos⟩ | rfl⟩ := addNumEntries_ok hchange
    · omega
    · obtain ⟨_, w₁, h₁, h⟩ := bind_ok.mp h
      cases (pure_ok.mp h).1
  · exact .inr ⟨acc', rfl, hs.accountID, hheld', hltx, hm⟩

theorem TrustLineWrapper.addBalance_moves {header : LedgerHeader} {delta : ℤ} {line : TrustLineWrapper}
    {res : Option TrustLineWrapper} {w w' : World X} (hheld : line.Held w.ltx)
    (h : line.addBalance header delta w = .ok res w') :
    Moves 0 w.ltx w'.ltx ∧ Grows w.ltx w'.ltx ∧ (∀ a, w'.ltx.account a = w.ltx.account a) ∧
      ∀ l ∈ res, l.Held w'.ltx := by
  refine update_moves (fun tl tl' h => ?_) hheld h
  rw [trustLine_addBalance_ok h]
  exact ⟨rfl, rfl⟩

/-! ## Liabilities -/

/-- A side of `acquireOrReleaseLiabilities`: it writes neither balances nor counts. -/
theorem changeLiabilities_moves {sellerID : AccountID} {asset : Asset} {what : String}
    {onAccount : AccountEntry → Except Exception (Option AccountEntry)}
    {onLine : TrustLineWrapper → AppM X (Option TrustLineWrapper)}
    (haccount : ∀ acc acc', onAccount acc = .ok (some acc') → ∃ ext, acc' = { acc with ext := ext })
    (hline : ∀ line res w w', line.Held w.ltx → onLine line w = .ok res w' →
      Moves 0 w.ltx w'.ltx ∧ Grows w.ltx w'.ltx)
    {w w' : World X} (hv : 8 ≤ w.ltx.header.ledgerVersion)
    (h : changeLiabilities sellerID asset what onAccount onLine w = .ok () w') :
    Moves 0 w.ltx w'.ltx ∧ Grows w.ltx w'.ltx := by
  unfold changeLiabilities at h
  split at h
  · obtain ⟨res, w₁, h₁, h⟩ := bind_ok.mp h
    obtain ⟨hacc, rfl⟩ := loadAccount_ok.mp h₁
    cases res with
    | none => exact absurd h throw_ok
    | some acc =>
      obtain ⟨res, w₁, h₁, h⟩ := bind_ok.mp h
      obtain ⟨rfl, -⟩ | ⟨acc', rfl, hs, hltx, -, hm⟩ := updateAccount_moves assigns_storeAccount
        (fun acc' hc => by
          obtain ⟨ext, rfl⟩ := haccount acc acc' hc
          exact .of_eq rfl le_rfl rfl rfl rfl)
        (by rwa [w.ltx_load]) (by rw [w.ltx_load]; exact held_of_account hacc) h₁
      · exact absurd h throw_ok
      · obtain ⟨-, rfl⟩ := pure_ok.mp h
        rw [w.ltx_load] at hltx hm
        exact ⟨hm.cast (by simp), by rw [hltx]; exact .put _ _⟩
  · obtain ⟨res, w₁, h₁, h⟩ := bind_ok.mp h
    obtain ⟨hltx, hheld⟩ := loadTrustLine_ok h₁
    cases res with
    | none => exact absurd h throw_ok
    | some line =>
      obtain ⟨res, w₂, h₂, h⟩ := bind_ok.mp h
      have hm := hline line res w₁ w₂ (by rw [hltx]; exact hheld line rfl) h₂
      rw [hltx] at hm
      cases res with
      | none => exact absurd h throw_ok
      | some line' =>
        obtain ⟨-, rfl⟩ := pure_ok.mp h
        exact hm

theorem acquireOrReleaseLiabilities_moves {header : LedgerHeader} {offer : OfferEntry} {isAcquire : Bool}
    {w w' : World X} (hv : 8 ≤ w.ltx.header.ledgerVersion)
    (h : acquireOrReleaseLiabilities header offer isAcquire w = .ok () w') :
    Moves 0 w.ltx w'.ltx ∧ Grows w.ltx w'.ltx := by
  obtain ⟨_, w₁, h₁, h⟩ := bind_ok.mp h
  obtain ⟨-, rfl⟩ := lift_ok.mp h₁
  obtain ⟨buying, w₁, h₁, h⟩ := bind_ok.mp h
  obtain ⟨-, rfl⟩ := lift_ok.mp h₁
  obtain ⟨_, w₁, h₁, h⟩ := bind_ok.mp h
  obtain ⟨hm₁, hg₁⟩ := changeLiabilities_moves
    (fun acc acc' hc => account_addBuyingLiabilities_ok hc)
    (fun line res w w' hheld hc => by
      obtain ⟨hm, hg, -⟩ := update_moves (fun tl tl' hc => by
        obtain ⟨ext, rfl⟩ := trustLine_addBuyingLiabilities_ok hc
        exact ⟨rfl, rfl⟩) hheld hc
      exact ⟨hm, hg⟩) hv h₁
  obtain ⟨selling, w₂, h₂, h⟩ := bind_ok.mp h
  obtain ⟨-, rfl⟩ := lift_ok.mp h₂
  obtain ⟨hm₂, hg₂⟩ := changeLiabilities_moves
    (fun acc acc' hc => account_addSellingLiabilities_ok hc)
    (fun line res w w' hheld hc => by
      obtain ⟨hm, hg, -⟩ := update_moves (fun tl tl' hc => by
        obtain ⟨ext, rfl⟩ := trustLine_addSellingLiabilities_ok hc
        exact ⟨rfl, rfl⟩) hheld hc
      exact ⟨hm, hg⟩) (by rwa [hm₁.version]) h
  exact ⟨(hm₁.trans hm₂).cast (add_zero 0), hg₁.trans hg₂⟩

end ZaggCore.Transactions
