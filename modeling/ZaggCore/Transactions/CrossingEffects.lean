import Mathlib
import ZaggCore.Transactions.ExchangeEffects

/-! # What crossing the book moves

Crossing offers brings the sheep that is sent into the ledger and takes the wheat that is received out of
it; what the taker pays and gets is settled by the operation. From version 8 on. -/

namespace ZaggCore.Transactions
set_option autoImplicit false
set_option maxHeartbeats 250000

open Foundations Numeric AbstractLedgerTxn

variable {X Q : Type}

/-! ## Reading -/

/-- Where cached handles are like any other the ledger stays as it is. -/
def LedgerKept (w w' : World X) : Prop := 8 ≤ w.ltx.header.ledgerVersion → w'.ltx = w.ltx

instance : Std.Refl (LedgerKept (X := X)) := ⟨fun _ _ => rfl⟩

instance : IsTrans (World X) LedgerKept where
  trans w w₁ w' h h' hv := by
    have heq := h hv
    exact (h' (by rwa [heq])).trans heq

/-- However the program ends, the ledger is the same. -/
abbrev Reads {α : Type} (x : AppM X α) : Prop := Keeps LedgerKept x

theorem Reads.ltx {α : Type} {x : AppM X α} (hx : Reads x) {w w' : World X} {a : α}
    (hv : 8 ≤ w.ltx.header.ledgerVersion) (h : x w = .ok a w') : w'.ltx = w.ltx :=
  hx.ok h hv

theorem reads_rolledBack {α : Type} (x : AppM X α) : Reads (rolledBack World.restore x) :=
  .rolledBack fun _ _ => rfl

theorem reads_loadAccountWithoutRecord (a : AccountID) :
    Reads (loadAccountWithoutRecord a : AppM X (Option AccountEntry)) := fun _ _ => rfl

theorem reads_current {α : Type} (entry : Option α) : Reads (current entry : AppM X α) := by
  cases entry <;> exact fun _ _ => rfl

theorem reads_canSellAtMost (header : LedgerHeader) (account : Option AccountEntry) (asset : Asset)
    (line : Option TrustLineWrapper) : Reads (canSellAtMost header account asset line : AppM X ℤ) := by
  unfold canSellAtMost
  refine .ite (fun _ => (reads_current _).bind fun _ => .pure _) fun _ => ?_
  cases line <;> exact .pure _

theorem reads_canBuyAtMost (header : LedgerHeader) (account : Option AccountEntry) (asset : Asset)
    (line : Option TrustLineWrapper) : Reads (canBuyAtMost header account asset line : AppM X ℤ) :=
  .ite (fun _ => (reads_current _).bind fun _ => .pure _) fun _ => .pure _

theorem reads_adjustOfferEntry (header : LedgerHeader) (offer : OfferEntry)
    (account : Option AccountEntry) (wheatLine sheepLine : Option TrustLineWrapper) :
    Reads (adjustOfferEntry header offer account wheatLine sheepLine : AppM X ℤ) := by
  refine (reads_canSellAtMost _ _ _ _).bind fun send => (reads_canBuyAtMost _ _ _ _).bind fun receive => ?_
  exact .lift _

theorem reads_performExchange (header : LedgerHeader) (offer : OfferEntry) (accountB : AccountEntry)
    (wheatLine sheepLine : Option TrustLineWrapper) (maxWheatReceived maxSheepSend : ℤ) :
    Reads (performExchange header offer accountB wheatLine sheepLine maxWheatReceived maxSheepSend :
      AppM X _) := by
  refine (Keeps.lift _).bind fun basedOnSheep => (reads_canSellAtMost _ _ _ _).bind fun atMost => ?_
  refine (Keeps.lift _).bind fun _ => (Keeps.lift _).bind fun exchangeResult => ?_
  cases exchangeResult.type <;> exact .pure _

/-! ## Entries that come and go -/

/-- Whose entry is under the key. -/
def LedgerKey.owner : LedgerKey → AccountID
  | .account a => a
  | .trustLine a _ => a
  | .offer a _ => a
  | .data a _ => a

/-- What is not an account is worth one entry of its owner. -/
theorem worth_of_key {e : LedgerEntryData} (h : ∀ a, e.key ≠ .account a) :
    worth e = (0, Pi.single (LedgerKey.owner e.key) 1) := by
  cases e with
  | account acc => exact absurd rfl (h acc.accountID)
  | trustLine => rfl
  | offer => rfl
  | data => rfl

theorem erase_moves {key : LedgerKey} (hkey : ∀ a, key ≠ .account a) {w w' : World X}
    (h : erase key w = .ok () w') : Moves (0, -Pi.single (LedgerKey.owner key) 1) w.ltx w'.ltx := by
  obtain ⟨hsome, rfl⟩ := erase_ok.mp h
  obtain ⟨e, he⟩ := Option.isSome_iff_exists.mp hsome
  obtain rfl := w.ltx.keyed key e he
  refine (Moves.erase (fun acc hacc => hkey acc.accountID (by rw [hacc]; rfl)) he).cast ?_
  rw [worth_of_key hkey]
  simp

theorem create_moves {e : LedgerEntryData} (he : ∀ a, e.key ≠ .account a) {w w' : World X}
    (h : create e w = .ok () w') :
    Moves (0, Pi.single (LedgerKey.owner e.key) 1) w.ltx w'.ltx ∧ Grows w.ltx w'.ltx := by
  obtain ⟨hnone, rfl⟩ := create_ok.mp h
  refine ⟨(Moves.put_of_absent (fun acc hacc => he acc.accountID (by rw [hacc]; rfl)) hnone).cast ?_, ?_⟩
  · exact worth_of_key he
  · exact Grows.put _ _

theorem store_moves {e : LedgerEntryData} (he : ∀ a, e.key ≠ .account a) {w w' : World X}
    (hsome : (w.ltx.getNewestVersion e.key).isSome) (h : store e w = .ok () w') :
    Moves 0 w.ltx w'.ltx ∧ Grows w.ltx w'.ltx := by
  rw [← store_ok.mp h]
  refine ⟨Moves.put_of_present (fun acc hacc => he acc.accountID (by rw [hacc]; rfl)) hsome, ?_⟩
  exact Grows.put _ _

theorem removeNumEntry_moves {header : LedgerHeader} {a : AccountID} {w w' : World X}
    (hv : 8 ≤ w.ltx.header.ledgerVersion) (h : removeNumEntry header a w = .ok () w') :
    Moves (0, Pi.single a 1) w.ltx w'.ltx ∧ Grows w.ltx w'.ltx := by
  obtain ⟨res, w₁, h₁, h⟩ := bind_ok.mp h
  obtain ⟨hacc, rfl⟩ := loadAccount_ok.mp h₁
  obtain ⟨acc, w₂, h₂, h⟩ := bind_ok.mp h
  obtain ⟨rfl, rfl⟩ := current_ok.mp h₂
  obtain ⟨res, w₃, h₃, h⟩ := bind_ok.mp h
  obtain ⟨-, rfl⟩ := pure_ok.mp h
  have hheld : Held (w.load (.account a)).ltx acc := by
    rw [World.ltx_load]
    exact held_of_account hacc
  obtain ⟨-, hcount, -⟩ | ⟨acc', -, -, -, hltx, hm⟩ :=
    addNumEntries_moves assigns_storeAccount (.inr rfl) (by rwa [World.ltx_load]) hheld h₃
  · omega
  · rw [World.ltx_load] at hltx hm
    rw [accountID_of_account hacc] at hm
    refine ⟨hm.cast (by simp), ?_⟩
    rw [hltx]
    exact Grows.put _ _

/-- An offer that goes is one entry less on its seller's count. -/
theorem takeEntry_moves {header : LedgerHeader} {a : AccountID} {i : ℕ} {w w' : World X}
    (hv : 8 ≤ w.ltx.header.ledgerVersion)
    (h : (do erase (.offer a i); removeNumEntry header a) w = .ok () w') : Moves 0 w.ltx w'.ltx := by
  obtain ⟨_, w₁, h₁, h⟩ := bind_ok.mp h
  have hm₁ := erase_moves (by simp) h₁
  obtain ⟨hm₂, -⟩ := removeNumEntry_moves (by rwa [hm₁.version]) h
  refine (hm₁.trans hm₂).cast ?_
  simp [LedgerKey.owner]

/-! ## Balances of the seller -/

theorem native_of_ne {asset : Asset} (h : asset ≠ .native) (amount : ℤ) : native asset amount = 0 := by
  unfold native
  rw [if_neg h]
  rfl

theorem addAssetBalance_moves {header : LedgerHeader} {a : AccountID} {asset : Asset} {delta : ℤ}
    {w w' : World X} (hv : 8 ≤ w.ltx.header.ledgerVersion)
    (h : addAssetBalance header a asset delta w = .ok true w') : Moves (native asset delta) w.ltx w'.ltx := by
  unfold addAssetBalance at h
  split at h
  case isTrue hasset =>
    obtain ⟨res, w₁, h₁, h⟩ := bind_ok.mp h
    obtain ⟨hacc, rfl⟩ := loadAccount_ok.mp h₁
    obtain ⟨acc, w₂, h₂, h⟩ := bind_ok.mp h
    obtain ⟨rfl, rfl⟩ := current_ok.mp h₂
    obtain ⟨res, w₃, h₃, h⟩ := bind_ok.mp h
    obtain ⟨hsome, rfl⟩ := pure_ok.mp h
    obtain ⟨rfl, -⟩ | ⟨acc', -, -, -, -, hm⟩ := addBalance_moves assigns_storeAccount
      (by rwa [World.ltx_load]) (by rw [World.ltx_load]; exact held_of_account hacc) h₃
    · cases hsome
    · rw [World.ltx_load] at hm
      refine hm.cast ?_
      simp [native, hasset]
  case isFalse hasset =>
    obtain ⟨res, w₁, h₁, h⟩ := bind_ok.mp h
    obtain ⟨hltx, hheld⟩ := loadTrustLine_ok h₁
    obtain ⟨line, w₂, h₂, h⟩ := bind_ok.mp h
    obtain ⟨rfl, rfl⟩ := getImpl_ok.mp h₂
    obtain ⟨res, w₃, h₃, h⟩ := bind_ok.mp h
    obtain ⟨-, rfl⟩ := pure_ok.mp h
    obtain ⟨hm, -⟩ := TrustLineWrapper.addBalance_moves (by rw [hltx]; exact hheld line rfl) h₃
    rw [hltx] at hm
    exact hm.cast (native_of_ne hasset delta).symm

theorem crossBalance_moves {header : LedgerHeader} {a : AccountID} {asset : Asset} {delta : ℤ}
    {w w' : World X} (hv : 8 ≤ w.ltx.header.ledgerVersion)
    (h : crossBalance header a asset delta w = .ok true w') : Moves (native asset delta) w.ltx w'.ltx := by
  unfold crossBalance at h
  split at h
  case isTrue hzero =>
    obtain ⟨-, rfl⟩ := pure_ok.mp h
    rw [hzero, native_zero]
    exact .refl _
  case isFalse =>
    obtain h | ⟨w₁, h, -⟩ := committedIf_ok.mp h
    · obtain ⟨res, w₁, h₁, h⟩ := bind_ok.mp h
      obtain ⟨heq, rfl⟩ := pure_ok.mp h
      obtain ⟨rfl, -⟩ := Prod.mk.inj heq
      exact addAssetBalance_moves hv h₁
    · obtain ⟨res, w₂, -, h⟩ := bind_ok.mp h
      have heq := (pure_ok.mp h).1
      cases (Prod.mk.inj heq).1.symm.trans (Prod.mk.inj heq).2

/-- The account and the line stay held. -/
theorem changeParty_moves {header : LedgerHeader} {accountB accountB' : Option AccountEntry}
    {line line' : Option TrustLineWrapper} {asset : Asset} {delta : ℤ} {what : String} {w w' : World X}
    (hv : 8 ≤ w.ltx.header.ledgerVersion) (hacc : ∀ acc ∈ accountB, Held w.ltx acc)
    (hline : ∀ l ∈ line, l.Held w.ltx)
    (h : changeParty header accountB line asset delta what w = .ok (accountB', line') w') :
    Moves (native asset delta) w.ltx w'.ltx ∧ Grows w.ltx w'.ltx ∧ ∀ acc ∈ accountB', Held w'.ltx acc := by
  unfold changeParty at h
  split at h
  case isTrue hzero =>
    obtain ⟨heq, rfl⟩ := pure_ok.mp h
    obtain ⟨rfl, rfl⟩ := Prod.mk.inj heq
    rw [hzero, native_zero]
    exact ⟨.refl _, .refl _, hacc⟩
  case isFalse =>
    split at h
    case isTrue hasset =>
      obtain ⟨acc, w₁, h₁, h⟩ := bind_ok.mp h
      obtain ⟨rfl, rfl⟩ := current_ok.mp h₁
      obtain ⟨res, w₂, h₂, h⟩ := bind_ok.mp h
      obtain ⟨rfl, -⟩ | ⟨acc', rfl, -, hheld, hltx, hm⟩ :=
        addBalance_moves assigns_storeAccount hv (hacc acc rfl) h₂
      · exact absurd h throw_ok
      · obtain ⟨heq, rfl⟩ := pure_ok.mp h
        obtain ⟨rfl, rfl⟩ := Prod.mk.inj heq
        refine ⟨hm.cast ?_, ?_, fun acc hacc' => ?_⟩
        · simp [native, hasset]
        · rw [hltx]
          exact Grows.put _ _
        · rwa [← Option.mem_some.mp hacc']
    case isFalse hasset =>
      obtain ⟨l, w₁, h₁, h⟩ := bind_ok.mp h
      obtain ⟨rfl, rfl⟩ := getImpl_ok.mp h₁
      obtain ⟨res, w₂, h₂, h⟩ := bind_ok.mp h
      obtain ⟨hm, hg, haccounts, -⟩ := TrustLineWrapper.addBalance_moves (hline l rfl) h₂
      cases res with
      | none => exact absurd h throw_ok
      | some l' =>
        obtain ⟨heq, rfl⟩ := pure_ok.mp h
        obtain ⟨rfl, rfl⟩ := Prod.mk.inj heq
        refine ⟨hm.cast (native_of_ne hasset delta).symm, hg, fun acc hacc' => ?_⟩
        rw [Held, haccounts]
        exact hacc acc hacc'

theorem loadParties_ok {a : AccountID} {wheat sheep : Asset} {p : Parties} {w w' : World X}
    (h : loadParties a wheat sheep w = .ok p w') :
    w'.ltx = w.ltx ∧ (∀ acc ∈ p.accountB, Held w.ltx acc) ∧ (∀ l ∈ p.sheepLineAccountB, l.Held w.ltx) ∧
      ∀ l ∈ p.wheatLineAccountB, l.Held w.ltx := by
  obtain ⟨accountB, w₁, h₁, h⟩ := bind_ok.mp h
  have hacc : w₁.ltx = w.ltx ∧ ∀ acc ∈ accountB, Held w.ltx acc := by
    split at h₁
    · obtain ⟨rfl, rfl⟩ := loadAccount_ok.mp h₁
      exact ⟨w.ltx_load _, fun acc hacc => held_of_account hacc⟩
    · obtain ⟨rfl, rfl⟩ := pure_ok.mp h₁
      exact ⟨rfl, by simp⟩
  obtain ⟨sheepLine, w₂, h₂, h⟩ := bind_ok.mp h
  obtain ⟨hltx₂, hsheep⟩ := loadTrustLineIfNotNative_ok h₂
  obtain ⟨wheatLine, w₃, h₃, h⟩ := bind_ok.mp h
  obtain ⟨hltx₃, hwheat⟩ := loadTrustLineIfNotNative_ok h₃
  obtain ⟨rfl, rfl⟩ := pure_ok.mp h
  rw [hltx₂, hacc.1] at hwheat hltx₃
  rw [hacc.1] at hsheep
  exact ⟨hltx₃, hacc.2, hsheep, hwheat⟩

/-! ## Crossing one offer -/

theorem takeOffer_moves {header : LedgerHeader} {offer : OfferEntry} {newAmount : ℤ} {w w' : World X}
    (hv : 8 ≤ w.ltx.header.ledgerVersion)
    (hoffer : w.ltx.offer offer.sellerID offer.offerID = some offer)
    (h : takeOffer header offer newAmount w = .ok () w') : Moves 0 w.ltx w'.ltx := by
  unfold takeOffer at h
  split at h
  · exact takeEntry_moves hv h
  · have hsome : (w.ltx.getNewestVersion (.offer offer.sellerID offer.offerID)).isSome := by
      rw [offer_eq_some.mp hoffer]
      rfl
    obtain ⟨hm, -⟩ := store_moves (e := .offer { offer with amount := newAmount }) (by simp [LedgerEntryData.key])
      hsome h
    exact hm

/-- Nothing is sent for nothing. -/
theorem performExchange_both {header : LedgerHeader} {offer : OfferEntry} {accountB : AccountEntry}
    {wheatLine sheepLine : Option TrustLineWrapper} {maxWheatReceived maxSheepSend : ℤ}
    {type : ExchangeResultType} {wheat sheep left : ℤ} {w w' : World X}
    (h : performExchange header offer accountB wheatLine sheepLine maxWheatReceived maxSheepSend w =
      .ok (type, wheat, sheep, left) w') (htype : type ≠ .REDUCED_TO_ZERO) (hwheat : wheat = 0) : sheep = 0 := by
  obtain ⟨basedOnSheep, w₁, -, h⟩ := bind_ok.mp h
  obtain ⟨atMost, w₂, -, h⟩ := bind_ok.mp h
  obtain ⟨_, w₃, -, h⟩ := bind_ok.mp h
  obtain ⟨r, w₄, -, h⟩ := bind_ok.mp h
  cases hr : r.type with
  | REDUCED_TO_ZERO =>
    rw [hr] at h
    cases (pure_ok.mp h).1
    exact absurd rfl htype
  | BOGUS =>
    rw [hr] at h
    cases (pure_ok.mp h).1
    rfl
  | NORMAL =>
    rw [hr] at h
    cases (pure_ok.mp h).1
    unfold ExchangeResult.type at hr
    rw [if_neg (by simp [hwheat])] at hr
    split at hr <;> cases hr

theorem exchangeV10_both {price : Price} {maxWheatSend maxWheatReceive maxSheepSend maxSheepReceive : ℤ}
    {isPathPayment : Bool} {r : ExchangeResultV10}
    (h : exchangeV10 price maxWheatSend maxWheatReceive maxSheepSend maxSheepReceive isPathPayment = .ok r)
    (hwheat : r.numWheatReceived = 0) : r.numSheepSend = 0 := by
  obtain ⟨before, -, h⟩ := except_bind_ok.mp h
  unfold applyPriceErrorThresholds at h
  split at h
  case isTrue hpos =>
    obtain ⟨wheatValue, -, h⟩ := except_bind_ok.mp h
    obtain ⟨sheepValue, -, h⟩ := except_bind_ok.mp h
    obtain ⟨_, -, h⟩ := except_bind_ok.mp h
    obtain ⟨_, -, h⟩ := except_bind_ok.mp h
    obtain ⟨inBound, -, h⟩ := except_bind_ok.mp h
    split at h
    · obtain ⟨_, -, h⟩ := except_bind_ok.mp h
      rw [← except_pure_ok.mp h]
    · rw [← except_pure_ok.mp h] at hwheat
      dsimp only at hwheat
      omega
  case isFalse =>
    rw [← except_pure_ok.mp h]

/-- Up to version 9: what was sent and received, unless the offer can not be converted. -/
theorem crossOffer_moves {offer : OfferEntry} {maxWheatReceived maxSheepSend : ℤ} {c : Crossed}
    {w w' : World X} (hv : 8 ≤ w.ltx.header.ledgerVersion)
    (hoffer : w.ltx.offer offer.sellerID offer.offerID = some offer)
    (h : crossOffer offer maxWheatReceived maxSheepSend w = .ok c w') (hc : c.cor ≠ .eOfferCantConvert) :
    Moves (native offer.buying c.numSheepSend + (native offer.selling (-c.numWheatReceived))) w.ltx w'.ltx ∧
      (c.numWheatReceived = 0 → c.numSheepSend = 0) := by
  obtain ⟨_, w₁, h₁, h⟩ := bind_ok.mp h
  obtain ⟨-, rfl⟩ := lift_ok.mp h₁
  obtain ⟨_, w₁, h₁, h⟩ := bind_ok.mp h
  obtain ⟨-, rfl⟩ := lift_ok.mp h₁
  obtain ⟨header, w₁, h₁, h⟩ := bind_ok.mp h
  obtain ⟨rfl, rfl⟩ := loadHeader_ok.mp h₁
  obtain ⟨res, w₁, h₁, h⟩ := bind_ok.mp h
  obtain ⟨-, rfl⟩ := loadAccountWithoutRecord_ok.mp h₁
  cases res with
  | none => exact absurd h throw_ok
  | some accountB =>
    obtain ⟨sheepLine, w₁, h₁, h⟩ := bind_ok.mp h
    obtain ⟨hltx₁, -⟩ := loadTrustLineWithoutRecordIfNotNative_ok h₁
    obtain ⟨wheatLine, w₂, h₂, h⟩ := bind_ok.mp h
    obtain ⟨hltx₂, -⟩ := loadTrustLineWithoutRecordIfNotNative_ok h₂
    obtain ⟨⟨exchangeResult, numWheatReceived, numSheepSend, newAmount⟩, w₃, h₃, h⟩ := bind_ok.mp h
    have hltx : w₃.ltx = w.ltx := by
      have hltx₃ := (reads_performExchange _ _ _ _ _ _ _).ltx (by rwa [hltx₂, hltx₁]) h₃
      rw [hltx₃, hltx₂, hltx₁]
    rw [← hltx] at hv hoffer ⊢
    dsimp only at h
    split at h
    case isTrue =>
      obtain ⟨rfl, -⟩ := pure_ok.mp h
      exact absurd rfl hc
    case isFalse htype =>
      obtain ⟨_, w₄, h₄, h⟩ := bind_ok.mp h
      have hm₄ := takeOffer_moves hv hoffer h₄
      obtain ⟨sheepOk, w₅, h₅, h⟩ := bind_ok.mp h
      cases sheepOk with
      | false =>
        obtain ⟨rfl, -⟩ := pure_ok.mp h
        exact absurd rfl hc
      | true =>
        have hm₅ := crossBalance_moves (by rwa [hm₄.version]) h₅
        obtain ⟨wheatOk, w₆, h₆, h⟩ := bind_ok.mp h
        cases wheatOk with
        | false =>
          obtain ⟨rfl, -⟩ := pure_ok.mp h
          exact absurd rfl hc
        | true =>
          have hm₆ := crossBalance_moves (by rwa [hm₅.version, hm₄.version]) h₆
          obtain ⟨rfl, rfl⟩ := pure_ok.mp h
          refine ⟨((hm₄.trans hm₅).trans hm₆).cast ?_, performExchange_both h₃ htype⟩
          rw [zero_add]

theorem leaveOffer_moves {header : LedgerHeader} {a : AccountID} {i : ℕ} {taken : Bool} {w w' : World X}
    (hv : 8 ≤ w.ltx.header.ledgerVersion) (h : leaveOffer header a i taken w = .ok () w') :
    Moves 0 w.ltx w'.ltx := by
  obtain ⟨res, w₁, h₁, h⟩ := bind_ok.mp (committed_ok.mp h)
  obtain ⟨-, rfl⟩ := loadOffer_ok.mp h₁
  obtain ⟨offer, w₂, h₂, h⟩ := bind_ok.mp h
  obtain ⟨-, rfl⟩ := current_ok.mp h₂
  have hv' : 8 ≤ (w.load (.offer a i)).ltx.header.ledgerVersion := by rwa [World.ltx_load]
  have hm : Moves 0 (w.load (.offer a i)).ltx w'.ltx := by
    split at h
    · exact takeEntry_moves hv' h
    · exact (acquireOrReleaseLiabilities_moves hv' h).1
  rwa [World.ltx_load] at hm

theorem crossOfferV10_moves {offer : OfferEntry} {maxWheatReceived maxSheepSend : ℤ} {isPathPayment : Bool}
    {c : Crossed} {w w' : World X} (hv : 8 ≤ w.ltx.header.ledgerVersion)
    (hoffer : w.ltx.offer offer.sellerID offer.offerID = some offer)
    (h : crossOfferV10 offer maxWheatReceived maxSheepSend isPathPayment w = .ok c w') :
    Moves (native offer.buying c.numSheepSend + (native offer.selling (-c.numWheatReceived))) w.ltx w'.ltx ∧
      (c.numWheatReceived = 0 → c.numSheepSend = 0) := by
  obtain ⟨_, w₁, h₁, h⟩ := bind_ok.mp h
  obtain ⟨-, rfl⟩ := lift_ok.mp h₁
  obtain ⟨_, w₁, h₁, h⟩ := bind_ok.mp h
  obtain ⟨-, rfl⟩ := lift_ok.mp h₁
  obtain ⟨header, w₁, h₁, h⟩ := bind_ok.mp h
  obtain ⟨rfl, rfl⟩ := loadHeader_ok.mp h₁
  obtain ⟨res, w₁, h₁, h⟩ := bind_ok.mp h
  obtain ⟨-, rfl⟩ := loadAccountWithoutRecord_ok.mp h₁
  obtain ⟨_, w₁, h₁, h⟩ := bind_ok.mp h
  obtain ⟨-, rfl⟩ := lift_ok.mp h₁
  obtain ⟨_, w₁, h₁, h⟩ := bind_ok.mp h
  obtain ⟨hm₁, hg₁⟩ := acquireOrReleaseLiabilities_moves hv h₁
  rw [← hm₁.version] at hv
  obtain ⟨p, w₂, h₂, h⟩ := bind_ok.mp h
  obtain ⟨hltx₂, hacc, hsheep, hwheat⟩ := loadParties_ok h₂
  obtain ⟨amount, w₃, h₃, h⟩ := bind_ok.mp h
  have hltx₃ := (reads_adjustOfferEntry _ _ _ _ _).ltx (by rwa [hltx₂]) h₃
  obtain ⟨canSell, w₄, h₄, h⟩ := bind_ok.mp h
  have hltx₄ := (reads_canSellAtMost _ _ _ _).ltx (by rwa [hltx₃, hltx₂]) h₄
  obtain ⟨canBuy, w₅, h₅, h⟩ := bind_ok.mp h
  have hltx₅ := (reads_canBuyAtMost _ _ _ _).ltx (by rwa [hltx₄, hltx₃, hltx₂]) h₅
  have hltx : w₅.ltx = w₁.ltx := by rw [hltx₅, hltx₄, hltx₃, hltx₂]
  rw [← hltx] at hv hacc hsheep hwheat hm₁ hg₁
  obtain ⟨r, w₆, h₆, h⟩ := bind_ok.mp h
  obtain ⟨hr, rfl⟩ := lift_ok.mp h₆
  obtain ⟨⟨accountB, sheepLine⟩, w₆, h₆, h⟩ := bind_ok.mp h
  obtain ⟨hm₆, hg₆, hacc₆⟩ := changeParty_moves hv hacc hsheep h₆
  rw [← hm₆.version] at hv
  obtain ⟨⟨accountB', wheatLine⟩, w₇, h₇, h⟩ := bind_ok.mp h
  obtain ⟨hm₇, hg₇, -⟩ := changeParty_moves hv hacc₆ (fun l hl => (hwheat l hl).grows hg₆) h₇
  rw [← hm₇.version] at hv
  obtain ⟨left, w₈, h₈, h⟩ := bind_ok.mp h
  have hltx₈ : w₈.ltx = w₇.ltx := by
    split at h₈
    · exact (reads_adjustOfferEntry _ _ _ _ _).ltx hv h₈
    · rw [(pure_ok.mp h₈).2]
  obtain ⟨_, w₉, h₉, h⟩ := bind_ok.mp h
  -- the offer is still there when its new amount is stored
  have hsome : (w₈.ltx.getNewestVersion (.offer offer.sellerID offer.offerID)).isSome := by
    rw [hltx₈]
    refine hg₇ _ (hg₆ _ (hg₁ _ ?_))
    rw [offer_eq_some.mp hoffer]
    rfl
  obtain ⟨hm₉, -⟩ := store_moves (e := .offer { offer with amount := left }) (by simp [LedgerEntryData.key])
    hsome h₉
  rw [hltx₈] at hm₉
  rw [← hm₉.version] at hv
  obtain ⟨_, w₁₀, h₁₀, h⟩ := bind_ok.mp h
  have hm₁₀ := leaveOffer_moves hv h₁₀
  obtain ⟨rfl, rfl⟩ := pure_ok.mp h
  refine ⟨((((hm₁.trans hm₆).trans hm₇).trans hm₉).trans hm₁₀).cast ?_, exchangeV10_both hr⟩
  simp

/-! ## Crossing the book -/

section

variable [LinearOrder Q] (app : Application X Q) {sheep wheat : Asset} {isPathPayment : Bool}
  {filter : OfferEntry → Except Exception OfferFilterResult}

/-- Amounts of sheep sent and wheat received, and what they move. -/
structure Exchanged (sheep wheat : Asset) (sheepSend wheatReceived : ℤ) (ltx ltx' : AbstractLedgerTxn) : Prop where
  moves : Moves (native sheep sheepSend + (native wheat (-wheatReceived))) ltx ltx'
  sheep_nonneg : 0 ≤ sheepSend
  wheat_nonneg : 0 ≤ wheatReceived
  both : wheatReceived = 0 → sheepSend = 0

theorem Exchanged.nothing (sheep wheat : Asset) (ltx : AbstractLedgerTxn) : Exchanged sheep wheat 0 0 ltx ltx where
  moves := (Moves.refl ltx).cast (by simp)
  sheep_nonneg := le_rfl
  wheat_nonneg := le_rfl
  both _ := rfl

theorem Exchanged.trans {s₁ s₂ w₁ w₂ : ℤ} {ltx ltx₁ ltx₂ : AbstractLedgerTxn}
    (h₁ : Exchanged sheep wheat s₁ w₁ ltx ltx₁) (h₂ : Exchanged sheep wheat s₂ w₂ ltx₁ ltx₂) :
    Exchanged sheep wheat (s₁ + s₂) (w₁ + w₂) ltx ltx₂ where
  moves := by
    refine (h₁.moves.trans h₂.moves).cast ?_
    rw [neg_add, native_add, native_add]
    abel
  sheep_nonneg := add_nonneg h₁.sheep_nonneg h₂.sheep_nonneg
  wheat_nonneg := add_nonneg h₁.wheat_nonneg h₂.wheat_nonneg
  both h := by
    have hw₁ := h₁.wheat_nonneg
    have hw₂ := h₂.wheat_nonneg
    rw [h₁.both (by omega), h₂.both (by omega), add_zero]

/-- A pass crosses an offer, or leaves the ledger as it is. -/
def Pass.Leaves (sheep wheat : Asset) (ltx ltx' : AbstractLedgerTxn) : Pass → Prop
  | .crossed c => if c.cor = .eOfferCantConvert then ltx' = ltx
      else Exchanged sheep wheat c.numSheepSend c.numWheatReceived ltx ltx'
  | _ => ltx' = ltx

theorem convertPass_leaves {maxSheepSend maxWheatReceive : ℤ} {p : Pass} {w w' : World X}
    (hv : 8 ≤ w.ltx.header.ledgerVersion)
    (h : convertPass app sheep maxSheepSend wheat maxWheatReceive isPathPayment filter w = .ok p w') :
    p.Leaves sheep wheat w.ltx w'.ltx := by
  obtain h | ⟨w₁, h, hw'⟩ := committedIf_ok.mp h
  · obtain ⟨ltx, w₁, h₁, h⟩ := bind_ok.mp h
    obtain ⟨rfl, rfl⟩ := getLedger_ok.mp h₁
    cases hbest : w.ltx.getBestOffer app.quotient sheep wheat with
    | none =>
      rw [hbest] at h
      cases (pure_ok.mp h).1
    | some offer =>
      rw [hbest] at h
      obtain ⟨hoffer, hbuying, hselling⟩ := getBestOffer_mem hbest
      obtain ⟨res, w₁, h₁, h⟩ := bind_ok.mp h
      obtain ⟨-, rfl⟩ := lift_ok.mp h₁
      cases res with
      | eStop => cases (pure_ok.mp h).1
      | eKeep =>
        obtain ⟨header, w₁, h₁, h⟩ := bind_ok.mp h
        obtain ⟨rfl, rfl⟩ := loadHeader_ok.mp h₁
        obtain ⟨c, w₁, h₁, h⟩ := bind_ok.mp h
        obtain ⟨_, w₂, h₂, h⟩ := bind_ok.mp h
        obtain ⟨hsheep, rfl⟩ := lift_ok.mp h₂
        obtain ⟨_, w₂, h₂, h⟩ := bind_ok.mp h
        obtain ⟨-, rfl⟩ := lift_ok.mp h₂
        obtain ⟨_, w₂, h₂, h⟩ := bind_ok.mp h
        obtain ⟨hwheat, rfl⟩ := lift_ok.mp h₂
        obtain ⟨_, w₂, h₂, h⟩ := bind_ok.mp h
        obtain ⟨-, rfl⟩ := lift_ok.mp h₂
        obtain ⟨heq, rfl⟩ := pure_ok.mp h
        obtain ⟨rfl, hcor⟩ := Prod.mk.inj heq
        have hcor : c.cor ≠ .eOfferCantConvert := by simpa using hcor
        rw [Pass.Leaves, if_neg hcor]
        have hcrossed : Moves (native sheep c.numSheepSend + (native wheat (-c.numWheatReceived)))
            w.ltx w₁.ltx ∧ (c.numWheatReceived = 0 → c.numSheepSend = 0) := by
          rw [← hbuying, ← hselling]
          split at h₁
          · exact crossOfferV10_moves hv hoffer h₁
          · exact crossOffer_moves hv hoffer h₁ hcor
        exact ⟨hcrossed.1, assert_ok.mp hsheep, assert_ok.mp hwheat, hcrossed.2⟩
  · have hltx : w'.ltx = w.ltx := by rw [← hw', World.ltx_restore]
    cases p with
    | noOffer => exact hltx
    | filterStop => exact hltx
    | crossed c =>
      obtain ⟨ltx, w₂, h₂, h⟩ := bind_ok.mp h
      obtain ⟨rfl, rfl⟩ := getLedger_ok.mp h₂
      cases hbest : w.ltx.getBestOffer app.quotient sheep wheat with
      | none =>
        rw [hbest] at h
        cases (pure_ok.mp h).1
      | some offer =>
        rw [hbest] at h
        obtain ⟨res, w₂, -, h⟩ := bind_ok.mp h
        cases res with
        | eStop => cases (pure_ok.mp h).1
        | eKeep =>
          obtain ⟨_, w₂, -, h⟩ := bind_ok.mp h
          obtain ⟨c', w₂, -, h⟩ := bind_ok.mp h
          obtain ⟨_, w₃, -, h⟩ := bind_ok.mp h
          obtain ⟨_, w₃, -, h⟩ := bind_ok.mp h
          obtain ⟨_, w₃, -, h⟩ := bind_ok.mp h
          obtain ⟨_, w₃, -, h⟩ := bind_ok.mp h
          obtain ⟨heq, hcor⟩ := Prod.mk.inj (pure_ok.mp h).1
          obtain rfl := Pass.crossed.inj heq
          rwa [Pass.Leaves, if_pos (by simpa using hcor)]

theorem convertLoop_exchanged (fuel : ℕ) {maxSheepSend sheepSend maxWheatReceive wheatReceived : ℤ}
    {r : ConvertResult} {sheepSend' wheatReceived' : ℤ} {w₀ : AbstractLedgerTxn} {w w' : World X}
    (hv : 8 ≤ w.ltx.header.ledgerVersion) (hsofar : Exchanged sheep wheat sheepSend wheatReceived w₀ w.ltx)
    (h : convertLoop app sheep wheat isPathPayment filter fuel maxSheepSend sheepSend maxWheatReceive
      wheatReceived w = .ok (r, sheepSend', wheatReceived') w') :
    Exchanged sheep wheat sheepSend' wheatReceived' w₀ w'.ltx := by
  induction fuel generalizing maxSheepSend sheepSend maxWheatReceive wheatReceived w with
  | zero => exact absurd h throw_ok
  | succ fuel ih =>
    obtain ⟨p, w₁, h₁, h⟩ := bind_ok.mp h
    have hpass := convertPass_leaves app hv h₁
    cases p with
    | noOffer =>
      obtain ⟨header, w₂, h₂, h⟩ := bind_ok.mp h
      obtain ⟨rfl, rfl⟩ := loadHeader_ok.mp h₂
      obtain ⟨heq, rfl⟩ := pure_ok.mp h
      cases heq
      rwa [hpass]
    | filterStop =>
      obtain ⟨heq, rfl⟩ := pure_ok.mp h
      cases heq
      rwa [hpass]
    | crossed c =>
      dsimp only at h
      split at h
      case isTrue hcor =>
        obtain ⟨heq, rfl⟩ := pure_ok.mp h
        cases heq
        rw [Pass.Leaves, if_pos hcor] at hpass
        rwa [hpass]
      case isFalse hcor =>
        rw [Pass.Leaves, if_neg hcor] at hpass
        have hnow := hsofar.trans hpass
        split at h
        · obtain ⟨heq, rfl⟩ := pure_ok.mp h
          cases heq
          exact hnow
        · split at h
          · obtain ⟨heq, rfl⟩ := pure_ok.mp h
            cases heq
            exact hnow
          · exact ih (by rwa [hpass.moves.version]) hnow h

theorem convertWithOffers_exchanged {maxSheepSend maxWheatReceive : ℤ} {r : ConvertResult}
    {sheepSend wheatReceived : ℤ} {w w' : World X} (hv : 8 ≤ w.ltx.header.ledgerVersion)
    (h : convertWithOffers app sheep maxSheepSend wheat maxWheatReceive isPathPayment filter w =
      .ok (r, sheepSend, wheatReceived) w') :
    Exchanged sheep wheat sheepSend wheatReceived w.ltx w'.ltx := by
  unfold convertWithOffers at h
  split at h
  · obtain ⟨ltx, w₁, h₁, h⟩ := bind_ok.mp h
    obtain ⟨rfl, rfl⟩ := getLedger_ok.mp h₁
    exact convertLoop_exchanged app _ hv (.nothing _ _ _) h
  · obtain ⟨heq, rfl⟩ := pure_ok.mp h
    cases heq
    exact .nothing _ _ _

end

end ZaggCore.Transactions
