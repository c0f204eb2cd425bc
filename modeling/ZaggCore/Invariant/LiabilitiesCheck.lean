import Mathlib
import ZaggCore.Invariant.LiabilitiesMatchOffers
import ZaggCore.Ledger.LedgerManagerImpl

/-! # What the check of liabilities catches

A ledger matches if the liabilities of every account in every asset are the sums over its offers. The
check compares what an operation did to both, and bounds balances where it looks; what it does not see
is said case by case. -/

namespace ZaggCore.Invariants
set_option autoImplicit false
set_option maxHeartbeats 250000

open Foundations Numeric Transactions Transactions.AbstractLedgerTxn

/-! ## Liabilities and offers of a ledger -/

/-- The liabilities of an offer on a side. -/
def backing (side : Side) (offer : OfferEntry) : ℤ := (getOfferLiabilities side offer).toOption.getD 0

section Ledgers

variable (ltx : AbstractLedgerTxn) (side : Side) (a : AccountID) (x : Asset)

/-- The liabilities of an account in an asset: its own for lumens, and those of its trust line. -/
def held : ℤ :=
  (if x = .native then (ltx.account a).elim 0 fun acc => side.of (liabilitiesOf acc.ext) else 0) +
    (ltx.trustLine a x).elim 0 fun tl => side.of (liabilitiesOf tl.ext)

/-- The liabilities that the offers of an account need in an asset. -/
def needed : ℤ :=
  ((ltx.offers.filter fun o => o.sellerID = a && side.asset o = x && needsLiabilities side o).map
    (backing side)).sum

/-- The liabilities of every account are the sums over its offers. -/
def Matches : Prop := ∀ side a x, held ltx side a x = needed ltx side a x

/-- What an account, a line and an offer add to the liabilities that are needed beyond those held. -/
def accountPart : LedgerEntryData → ℤ
  | .account acc => if acc.accountID = a ∧ .native = x then side.of (liabilitiesOf acc.ext) else 0
  | _ => 0

def linePart : LedgerEntryData → ℤ
  | .trustLine tl => if tl.accountID = a ∧ tl.asset = x then side.of (liabilitiesOf tl.ext) else 0
  | _ => 0

def offerPart : LedgerEntryData → ℤ
  | .offer o => if o.sellerID = a ∧ side.asset o = x ∧ needsLiabilities side o then backing side o else 0
  | _ => 0

def unmatched (e : LedgerEntryData) : ℤ :=
  offerPart side a x e - (accountPart side a x e + linePart side a x e)

theorem sum_accountPart : ltx.sum (accountPart side a x) =
    if x = .native then (ltx.account a).elim 0 fun acc => side.of (liabilitiesOf acc.ext) else 0 := by
  have hother : ∀ e : LedgerEntryData, e.key ≠ .account a → accountPart side a x e = 0 := by
    intro e hne
    cases e with
    | account acc => exact if_neg fun h => hne (congrArg LedgerKey.account h.1)
    | _ => rfl
  rw [sum_eq_share hother]
  cases hacc : ltx.account a with
  | none =>
    rw [share_of_none (account_eq_none.mp hacc)]
    exact (ite_self 0).symm
  | some acc =>
    rw [share_of_some (account_eq_some.mp hacc), accountPart]
    simp only [accountID_of_account hacc, true_and, Option.elim_some, eq_comm]

theorem sum_linePart : ltx.sum (linePart side a x) =
    (ltx.trustLine a x).elim 0 fun tl => side.of (liabilitiesOf tl.ext) := by
  have hother : ∀ e : LedgerEntryData, e.key ≠ .trustLine a x → linePart side a x e = 0 := by
    intro e hne
    cases e with
    | trustLine tl => exact if_neg fun h => hne (congrArg₂ LedgerKey.trustLine h.1 h.2)
    | _ => rfl
  rw [sum_eq_share hother]
  cases hline : ltx.trustLine a x with
  | none => exact share_of_none (trustLine_eq_none.mp hline)
  | some tl =>
    rw [share_of_some (trustLine_eq_some.mp hline)]
    exact if_pos (key_of_trustLine hline)

theorem sum_offerPart : ltx.sum (offerPart side a x) = needed ltx side a x := by
  unfold AbstractLedgerTxn.sum keyedSum needed AbstractLedgerTxn.offers
  induction ltx.entries.entries with
  | nil => rfl
  | cons p l ih =>
    obtain ⟨k, e⟩ := p
    rw [List.map_cons, List.sum_cons, ih, List.filterMap_cons]
    cases e with
    | offer o =>
      simp only [List.filter_cons, Bool.and_eq_true, decide_eq_true_eq, offerPart, and_assoc]
      split_ifs with h
      · rfl
      · exact zero_add _
    | _ => exact zero_add _

/-- The entries of a ledger that matches balance each other. -/
theorem sum_unmatched : ltx.sum (unmatched side a x) = needed ltx side a x - held ltx side a x := by
  have hparts : ltx.sum (offerPart side a x) =
      ltx.sum (unmatched side a x) + (ltx.sum (accountPart side a x) + ltx.sum (linePart side a x)) := by
    unfold AbstractLedgerTxn.sum keyedSum
    rw [← List.sum_map_add, ← List.sum_map_add]
    simp only [unmatched, sub_add_cancel]
  rw [← sum_offerPart, hparts, sum_accountPart, sum_linePart, ← held, add_sub_cancel_right]

end Ledgers

theorem matches_iff {ltx : AbstractLedgerTxn} :
    Matches ltx ↔ ∀ side a x, ltx.sum (unmatched side a x) = 0 := by
  simp only [Matches, sum_unmatched, sub_eq_zero]
  exact forall₃_congr fun side a x => eq_comm

/-! ## A delta and the ledger it changes -/

/-- An offer that the exchange can value. -/
def InRange (o : OfferEntry) : Prop :=
  (1 ≤ o.price.n ∧ o.price.n < 2 ^ 31) ∧ (1 ≤ o.price.d ∧ o.price.d < 2 ^ 31) ∧
    0 ≤ o.amount ∧ o.amount < 2 ^ 63

/-- The entry and its previous version under one key, and offers whose price and amount are in range. -/
structure LedgerTxnDelta.Of (before : AbstractLedgerTxn) (ltxDelta : LedgerTxnDelta) : Prop where
  previous : ∀ k e, ltxDelta.entry.lookup k = some e → e.previous = before.getNewestVersion k
  current : ∀ k e c, ltxDelta.entry.lookup k = some e → e.current = some c → c.key = k
  offers : ∀ k e o, ltxDelta.entry.lookup k = some e →
    e.current = some (.offer o) ∨ e.previous = some (.offer o) → InRange o

/-- One entry of a delta goes into the ledger. -/
def applyEntry (ltx : AbstractLedgerTxn) (p : Sigma fun _ : LedgerKey => EntryDelta) : AbstractLedgerTxn :=
  match p.2.current with
  | some c => ltx.put c
  | none => ltx.erase p.1

/-- The ledger after the operation. -/
def LedgerTxnDelta.applyTo (ltxDelta : LedgerTxnDelta) (before : AbstractLedgerTxn) : AbstractLedgerTxn :=
  ltxDelta.entry.entries.foldl applyEntry before

/-- By how much an entry changes a quantity. -/
def EntryDelta.change (f : LedgerEntryData → ℤ) (e : EntryDelta) : ℤ := e.current.elim 0 f - e.previous.elim 0 f

/-- The change of the liabilities that are needed beyond those held. -/
def LedgerTxnDelta.difference (ltxDelta : LedgerTxnDelta) (side : Side) (a : AccountID) (x : Asset) : ℤ :=
  (ltxDelta.entryDeltas.map (·.change (unmatched side a x))).sum

section Applied

variable {before ltx : AbstractLedgerTxn} {ltxDelta : LedgerTxnDelta} {f : LedgerEntryData → ℤ}
  {l : List (Sigma fun _ : LedgerKey => EntryDelta)}

theorem share_eq (k : LedgerKey) : ltx.share f k = (ltx.getNewestVersion k).elim 0 f := by
  cases h : ltx.getNewestVersion k with
  | none => exact share_of_none h
  | some e => exact share_of_some h

theorem sum_applyEntry {p : Sigma fun _ : LedgerKey => EntryDelta}
    (hprevious : p.2.previous = ltx.getNewestVersion p.1) (hcurrent : ∀ c, p.2.current = some c → c.key = p.1) :
    (applyEntry ltx p).sum f = ltx.sum f + p.2.change f := by
  unfold applyEntry EntryDelta.change
  rw [hprevious, ← share_eq]
  cases hc : p.2.current with
  | none =>
    simp only [Option.elim_none, zero_sub]
    rw [sum_erase, sub_eq_add_neg]
  | some c =>
    simp only [Option.elim_some]
    rw [sum_put, hcurrent c hc]
    abel

theorem getNewestVersion_applyEntry {p : Sigma fun _ : LedgerKey => EntryDelta} {k : LedgerKey}
    (hcurrent : ∀ c, p.2.current = some c → c.key = p.1) (hne : k ≠ p.1) :
    (applyEntry ltx p).getNewestVersion k = ltx.getNewestVersion k := by
  unfold applyEntry
  cases hc : p.2.current with
  | none =>
    simp only
    rw [getNewestVersion_erase, if_neg hne]
  | some c =>
    simp only
    rw [getNewestVersion_put, hcurrent c hc, if_neg hne]

theorem sum_foldl_applyEntry (hl : l.NodupKeys)
    (hprevious : ∀ p ∈ l, p.2.previous = ltx.getNewestVersion p.1)
    (hcurrent : ∀ p ∈ l, ∀ c, p.2.current = some c → c.key = p.1) :
    (l.foldl applyEntry ltx).sum f = ltx.sum f + (l.map fun p => p.2.change f).sum := by
  induction l generalizing ltx with
  | nil => exact (add_zero _).symm
  | cons p l ih =>
    obtain ⟨hnotin, hrest⟩ := List.nodupKeys_cons.mp hl
    have hc := hcurrent p List.mem_cons_self
    have hstep : (applyEntry ltx p).sum f = ltx.sum f + p.2.change f :=
      sum_applyEntry (hprevious p List.mem_cons_self) hc
    have hothers : ∀ q ∈ l, q.2.previous = (applyEntry ltx p).getNewestVersion q.1 := by
      intro q hq
      have hne : q.1 ≠ p.1 := fun h => hnotin (h ▸ List.mem_keys_of_mem hq)
      rw [getNewestVersion_applyEntry hc hne]
      exact hprevious q (List.mem_cons_of_mem p hq)
    rw [List.foldl_cons, ih hrest hothers fun q hq => hcurrent q (List.mem_cons_of_mem p hq), hstep,
      List.map_cons, List.sum_cons, add_assoc]

theorem LedgerTxnDelta.Of.sum_applyTo (h : ltxDelta.Of before) (side : Side) (a : AccountID) (x : Asset) :
    (ltxDelta.applyTo before).sum (unmatched side a x) =
      before.sum (unmatched side a x) + ltxDelta.difference side a x := by
  have hlookup : ∀ p ∈ ltxDelta.entry.entries, ltxDelta.entry.lookup p.1 = some p.2 := fun p hp =>
    AList.mem_lookup_iff.mpr hp
  refine (sum_foldl_applyEntry ltxDelta.entry.nodupKeys
    (fun p hp => h.previous p.1 p.2 (hlookup p hp)) fun p hp c => h.current p.1 p.2 c (hlookup p hp)).trans ?_
  rw [LedgerTxnDelta.difference, LedgerTxnDelta.entryDeltas, List.map_map]
  rfl

/-- A ledger that matched goes on to match if every difference is zero. -/
theorem LedgerTxnDelta.Of.matches_applyTo (h : ltxDelta.Of before) (hbefore : Matches before) :
    Matches (ltxDelta.applyTo before) ↔ ∀ side a x, ltxDelta.difference side a x = 0 := by
  rw [matches_iff] at hbefore ⊢
  simp only [h.sum_applyTo, hbefore, zero_add]

end Applied

/-! ## The sums of the check -/

section Accumulated

variable {m : DeltaLiabilities} {D : Side → AccountID → Asset → ℤ} {side : Side} {a : AccountID} {x : Asset}
  {amount : ℤ}

/-- The map holds the sums as 64 bits have them, and its other keys are zero. -/
structure Tracks (m : DeltaLiabilities) (D : Side → AccountID → Asset → ℤ) : Prop where
  liabilities : ∀ side a x, side.of (m.liabilities a x) = toInt64 (D side a x)
  keys : ∀ a x, toLex (a, x) ∉ m.keys → m.liabilities a x = ⟨0, 0⟩

theorem tracks_empty : Tracks .empty fun _ _ _ => 0 :=
  ⟨fun side _ _ => by cases side <;> rfl, fun _ _ _ => rfl⟩

theorem DeltaLiabilities.mem_keys_add (m : DeltaLiabilities) (side : Side) (a : AccountID) (x : Asset)
    (amount : ℤ) (k : AccountID ×ₗ Asset) :
    k ∈ (m.add side a x amount).keys ↔ k = toLex (a, x) ∨ k ∈ m.keys := by
  unfold DeltaLiabilities.add
  dsimp only
  split_ifs with hin
  · exact ⟨.inr, fun h => h.elim (fun h => h ▸ hin) id⟩
  · exact List.mem_orderedInsert (· ≤ ·)

theorem Tracks.add (h : Tracks m D) (side : Side) (a : AccountID) (x : Asset) (amount : ℤ) :
    Tracks (m.add side a x amount) fun side' a' x' =>
      D side' a' x' + if side = side' ∧ a = a' ∧ x = x' then amount else 0 := by
  constructor
  · intro side' a' x'
    have hold := h.liabilities side' a' x'
    unfold DeltaLiabilities.add
    by_cases hkey : a' = a ∧ x' = x
    · obtain ⟨rfl, rfl⟩ := hkey
      simp only [and_self, and_true, if_true]
      cases side <;> cases side' <;>
        simp only [Side.of, reduceCtorEq, if_true, if_false, add_zero] at hold ⊢ <;>
        rw [hold]
      · exact toInt64_add _ _
      · exact toInt64_add _ _
    · have hkey' : ¬ (side = side' ∧ a = a' ∧ x = x') := fun hk => hkey ⟨hk.2.1.symm, hk.2.2.symm⟩
      simp only [hkey, hkey', if_false, add_zero]
      exact hold
  · intro a' x' hnot
    have hmem := m.mem_keys_add side a x amount (toLex (a', x'))
    rw [hmem, not_or] at hnot
    have hkey : ¬ (a' = a ∧ x' = x) := fun hk => hnot.1 (by rw [hk.1, hk.2])
    unfold DeltaLiabilities.add
    simp only [hkey, if_false]
    exact h.keys a' x' hnot.2

theorem Tracks.congr {D' : Side → AccountID → Asset → ℤ} (h : Tracks m D)
    (hD : ∀ side a x, D side a x = D' side a x) : Tracks m D' := by
  obtain rfl : D = D' := funext fun side => funext fun a => funext fun x => hD side a x
  exact h

theorem getOfferLiabilities_eq {o : OfferEntry} (h : InRange o) (side : Side) :
    getOfferLiabilities side o = .ok (backing side o) := by
  obtain ⟨hn, hd, ha⟩ := h
  obtain ⟨r, hr⟩ := Ratio.exists_price hn hd
  lift o.amount to ℕ using ha.1 with amount hamount
  have hok : ∃ v, getOfferLiabilities side o = .ok v := by
    unfold getOfferLiabilities
    rw [← hr, ← hamount, INT64_MAX_eq,
      r.exchangeV10WithoutPriceErrorThresholds_eq (by omega) le_rfl]
    cases side <;> exact ⟨_, rfl⟩
  obtain ⟨v, hv⟩ := hok
  rw [backing, hv]
  rfl

/-- One side of an offer is added or subtracted. -/
theorem Tracks.addOffer (h : Tracks m D) {o : OfferEntry} (ho : InRange o) (side : Side) (sign : ℤ) :
    ∃ m', (if needsLiabilities side o then do
        let amount ← getOfferLiabilities side o
        return m.add side o.sellerID (side.asset o) (sign * amount)
      else return m : Except Exception DeltaLiabilities) = .ok m' ∧
      Tracks m' fun side' a x => D side' a x + if side = side' then sign * offerPart side a x (.offer o) else 0 := by
  rw [getOfferLiabilities_eq ho]
  split_ifs with hneeds
  · refine ⟨_, rfl, (h.add _ _ _ _).congr fun side' a x => ?_⟩
    simp only [offerPart, hneeds, and_true, ite_and, mul_ite, mul_zero]
  · refine ⟨m, rfl, h.congr fun side' a x => ?_⟩
    simp only [offerPart, hneeds, Bool.false_eq_true, and_false, if_false, mul_zero, ite_self, add_zero]

/-- An entry is added or subtracted. -/
theorem Tracks.addOrSubtract (h : Tracks m D) {entry : Option LedgerEntryData}
    (hoffer : ∀ o, entry = some (.offer o) → InRange o) (isAdd : Bool) :
    ∃ m', addOrSubtractLiabilities m entry isAdd = .ok m' ∧
      Tracks m' fun side a x =>
        D side a x + (if isAdd then 1 else -1) * entry.elim 0 (unmatched side a x) := by
  unfold addOrSubtractLiabilities
  obtain _ | (acc | tl | o | d) := entry
  · exact ⟨m, rfl, h.congr fun side a x => by simp⟩
  · refine ⟨_, rfl, ((h.add _ _ _ _).add _ _ _ _).congr fun side a x => ?_⟩
    cases side <;>
      simp only [unmatched, offerPart, accountPart, linePart, Side.of, reduceCtorEq, false_and, true_and,
        if_false, Option.elim_some] <;>
      split_ifs <;> ring
  · refine ⟨_, rfl, ((h.add _ _ _ _).add _ _ _ _).congr fun side a x => ?_⟩
    cases side <;>
      simp only [unmatched, offerPart, accountPart, linePart, Side.of, reduceCtorEq, false_and, true_and,
        if_false, Option.elim_some] <;>
      split_ifs <;> ring
  · obtain ⟨m₁, hsell, h₁⟩ := h.addOffer (hoffer o rfl) .selling (if isAdd then 1 else -1)
    obtain ⟨m₂, hbuy, h₂⟩ := h₁.addOffer (hoffer o rfl) .buying (if isAdd then 1 else -1)
    refine ⟨m₂, ?_, h₂.congr fun side a x => ?_⟩
    · exact (congrArg (· >>= _) hsell).trans hbuy
    · cases side <;> simp [unmatched, accountPart, linePart]
  · exact ⟨m, rfl, h.congr fun side a x => by simp [unmatched, offerPart, accountPart, linePart]⟩

/-- One entry of the delta. -/
theorem Tracks.accumulate (h : Tracks m D) {e : EntryDelta}
    (hoffer : ∀ o, e.current = some (.offer o) ∨ e.previous = some (.offer o) → InRange o) :
    ∃ m', accumulateLiabilities m e.current e.previous = .ok m' ∧
      Tracks m' fun side a x => D side a x + e.change (unmatched side a x) := by
  obtain ⟨m₁, hadd, h₁⟩ := h.addOrSubtract (fun o ho => hoffer o (.inl ho)) true
  obtain ⟨m₂, hsub, h₂⟩ := h₁.addOrSubtract (fun o ho => hoffer o (.inr ho)) false
  refine ⟨m₂, (congrArg (· >>= _) hadd).trans hsub, h₂.congr fun side a x => ?_⟩
  simp only [EntryDelta.change, if_true, Bool.false_eq_true, if_false]
  ring

end Accumulated

/-! ## Messages -/

theorem append_ne_empty {s t : String} (h : s ≠ "") : s ++ t ≠ "" := fun he =>
  h (String.append_eq_empty_iff.mp he).1

theorem firstMessage_eq_empty {msgs : List String} : firstMessage msgs = "" ↔ ∀ msg ∈ msgs, msg = "" := by
  induction msgs with
  | nil => exact iff_of_true rfl nofun
  | cons msg msgs ih =>
    unfold firstMessage
    split_ifs with h
    · exact iff_of_false h fun hall => h (hall msg List.mem_cons_self)
    · rw [ih, List.forall_mem_cons, and_iff_right (not_not.mp h)]

variable (str : XdrToString)

/-- A line that is not authorized has liabilities. -/
def EntryDelta.Unauthorized (e : EntryDelta) : Prop :=
  match e.current with
  | some (.trustLine tl) => isAuthorized tl = false ∧ ∃ side : Side, 0 < side.of (liabilitiesOf tl.ext)
  | _ => False

theorem exists_side {P : Side → Prop} : (∃ side, P side) ↔ P .selling ∨ P .buying :=
  ⟨fun ⟨side, h⟩ => by cases side <;> simp [h], fun h => h.elim (⟨_, ·⟩) (⟨_, ·⟩)⟩

theorem checkAuthorized_ne_empty (e : EntryDelta) :
    checkAuthorized str e.current ≠ "" ↔ e.Unauthorized := by
  unfold checkAuthorized EntryDelta.Unauthorized
  obtain ⟨_ | (acc | tl | o | d), previous⟩ := e
  · simp
  · simp
  · have hmessage := append_ne_empty (t := str.trustLine tl)
      (show "Unauthorized trust line has liabilities " ≠ "" by decide)
    simp only [exists_side, Side.of]
    cases isAuthorized tl
    · simp only [Bool.not_false, if_true, Bool.or_eq_true, decide_eq_true_eq, true_and]
      split_ifs with hpos
      · exact iff_of_true hmessage hpos
      · exact iff_of_false (fun h => h rfl) hpos
    · simp
  · simp
  · simp

theorem mismatchMessage_eq_empty (a : AccountID) (x : Asset) (liabilities : Liabilities) :
    mismatchMessage str a x liabilities = "" ↔ liabilities = ⟨0, 0⟩ := by
  unfold mismatchMessage
  split_ifs with hbuying hselling
  · refine iff_of_false (append_ne_empty (append_ne_empty ?_)) fun h => hbuying (by rw [h])
    decide
  · refine iff_of_false (append_ne_empty (append_ne_empty ?_)) fun h => hselling (by rw [h])
    decide
  · refine iff_of_true rfl ?_
    cases liabilities
    rw [not_not] at hbuying hselling
    exact congrArg₂ Liabilities.mk hbuying hselling

/-- The second loop finds every sum that is not zero in 64 bits. -/
theorem Tracks.checkDeltaLiabilities_eq_empty {m : DeltaLiabilities} {D : Side → AccountID → Asset → ℤ}
    (h : Tracks m D) : checkDeltaLiabilities str m = "" ↔ ∀ side a x, (2 ^ 64 : ℤ) ∣ D side a x := by
  have hzero : ∀ a x, m.liabilities a x = ⟨0, 0⟩ ↔ ∀ side, (2 ^ 64 : ℤ) ∣ D side a x := by
    intro a x
    have hdvd : ∀ side : Side, (2 ^ 64 : ℤ) ∣ D side a x ↔ side.of (m.liabilities a x) = 0 := by
      intro side
      rw [h.liabilities]
      exact Int.dvd_iff_bmod_eq_zero
    simp only [hdvd]
    refine ⟨fun hm side => ?_, fun hall => ?_⟩
    · rw [hm]
      cases side <;> rfl
    · exact congrArg₂ Liabilities.mk (hall .buying) (hall .selling)
  unfold checkDeltaLiabilities
  rw [firstMessage_eq_empty, List.forall_mem_map]
  simp only [mismatchMessage_eq_empty]
  refine ⟨fun hkeys side a x => ?_, fun hall k _ => (hzero _ _).mpr fun side => hall side _ _⟩
  by_cases hkey : toLex (a, x) ∈ m.keys
  · exact (hzero a x).mp (hkeys _ hkey) side
  · exact (hzero a x).mp (h.keys a x hkey) side

/-! ## The loops -/

/-- The first loop stops at an unauthorized line, or has added up all changes. -/
theorem Tracks.accumulateEntries {m : DeltaLiabilities} {D : Side → AccountID → Asset → ℤ} (h : Tracks m D)
    {l : List EntryDelta}
    (hoffer : ∀ e ∈ l, ∀ o, e.current = some (.offer o) ∨ e.previous = some (.offer o) → InRange o) :
    ((∃ e ∈ l, e.Unauthorized) ∧ ∃ msg ≠ "", accumulateEntries str l m = .ok (.error msg)) ∨
      (¬ ∃ e ∈ l, e.Unauthorized) ∧ ∃ m', accumulateEntries str l m = .ok (.ok m') ∧
        Tracks m' fun side a x => D side a x + (l.map (·.change (unmatched side a x))).sum := by
  induction l generalizing m D with
  | nil => exact .inr ⟨by simp, m, rfl, h.congr fun side a x => (add_zero _).symm⟩
  | cons e l ih =>
    rw [Invariants.accumulateEntries, List.exists_mem_cons_iff]
    by_cases hauth : e.Unauthorized
    · have hmessage := (checkAuthorized_ne_empty str e).mpr hauth
      rw [if_pos hmessage]
      exact .inl ⟨.inl hauth, _, hmessage, rfl⟩
    · rw [if_neg (mt (checkAuthorized_ne_empty str e).mp hauth)]
      obtain ⟨m₁, hrun, h₁⟩ := h.accumulate (hoffer e List.mem_cons_self)
      have hrest := ih h₁ fun e' he' => hoffer e' (List.mem_cons_of_mem e he')
      simp only [hauth, false_or]
      obtain ⟨hex, msg, hne, hmsg⟩ | ⟨hnone, m₂, hm₂, h₂⟩ := hrest
      · exact .inl ⟨hex, msg, hne, (congrArg (· >>= _) hrun).trans hmsg⟩
      · refine .inr ⟨hnone, m₂, (congrArg (· >>= _) hrun).trans hm₂, h₂.congr fun side a x => ?_⟩
        rw [List.map_cons, List.sum_cons, add_assoc]

/-- The accounts that the check looks at: those without a previous version, and those whose balance
fell. -/
def LooksAt (acc : AccountEntry) (previous : Option LedgerEntryData) : Prop :=
  ∀ prev, previous = some (.account prev) → acc.balance < prev.balance

/-- The comparison of liabilities never has it look at another account. -/
theorem shouldCheckAccount_iff (acc : AccountEntry) (previous : Option AccountEntry) (ledgerVersion : ℕ) :
    shouldCheckAccount acc previous ledgerVersion = true ↔
      ∀ prev, previous = some prev → acc.balance < prev.balance := by
  unfold shouldCheckAccount
  cases previous with
  | none => simp
  | some prev => split_ifs <;> simp

/-- The comparisons fail where the check makes them. -/
def EntryDelta.Fails (header : LedgerHeader) (e : EntryDelta) : Prop :=
  match e.current with
  | some (.account acc) => LooksAt acc e.previous ∧ accountFails header acc header.ledgerVersion = true
  | some (.trustLine tl) => trustLineFails tl header.ledgerVersion = true
  | _ => False

theorem accountArm_eq {k : LedgerKey} {acc : AccountEntry} {previous : Option LedgerEntryData}
    (hk : (LedgerEntryData.account acc).key = k) (hprevious : ∀ p, previous = some p → p.key = k) :
    ∃ prev, accountArm previous = .ok prev ∧ ∀ p, prev = some p ↔ previous = some (.account p) := by
  obtain _ | (p | p | p | p) := previous
  · exact ⟨none, rfl, fun p => by simp⟩
  · exact ⟨some p, rfl, fun q => by simp⟩
  all_goals
    have hkey := (hprevious _ rfl).trans hk.symm
    cases hkey

/-- The versions of an entry are under one key. -/
def EntryDelta.Keyed (e : EntryDelta) : Prop :=
  ∃ k, (∀ c, e.current = some c → c.key = k) ∧ ∀ p, e.previous = some p → p.key = k

theorem checkBalanceAndLimit_eq (header : LedgerHeader) {e : EntryDelta} (hkeyed : e.Keyed) :
    ∃ msg, checkBalanceAndLimit str header e.current e.previous header.ledgerVersion = .ok msg ∧
      (msg ≠ "" ↔ e.Fails header) := by
  obtain ⟨_ | (acc | tl | o | d), previous⟩ := e
  · exact ⟨"", rfl, by simp [EntryDelta.Fails]⟩
  · obtain ⟨k, hcurrent, hprevious⟩ := hkeyed
    obtain ⟨prev, harm, hprev⟩ := accountArm_eq (hcurrent _ rfl) hprevious
    have hlooks : shouldCheckAccount acc prev header.ledgerVersion = true ↔ LooksAt acc previous := by
      simp only [shouldCheckAccount_iff, LooksAt, hprev]
    have hmessage := append_ne_empty (t := str.account acc)
      (show "Balance not compatible with liabilities for account " ≠ "" by decide)
    unfold checkBalanceAndLimit EntryDelta.Fails
    simp only [harm, bind, Except.bind, ← hlooks]
    split_ifs with hlook hfails
    · exact ⟨_, rfl, iff_of_true hmessage ⟨hlook, hfails⟩⟩
    · exact ⟨_, rfl, iff_of_false (fun h => h rfl) fun h => hfails h.2⟩
    · exact ⟨_, rfl, iff_of_false (fun h => h rfl) fun h => hlook h.1⟩
  · have hmessage := append_ne_empty (t := str.trustLine tl)
      (show "Balance not compatible with liabilities for trustline " ≠ "" by decide)
    unfold checkBalanceAndLimit EntryDelta.Fails
    simp only
    split_ifs with hfails
    · exact ⟨_, rfl, iff_of_true hmessage hfails⟩
    · exact ⟨_, rfl, iff_of_false (fun h => h rfl) hfails⟩
  · exact ⟨"", rfl, by simp [EntryDelta.Fails]⟩
  · exact ⟨"", rfl, by simp [EntryDelta.Fails]⟩

theorem checkBalances_eq (header : LedgerHeader) {l : List EntryDelta} (hkeyed : ∀ e ∈ l, e.Keyed) :
    ∃ msg, checkBalances str header header.ledgerVersion l = .ok msg ∧
      (msg ≠ "" ↔ ∃ e ∈ l, e.Fails header) := by
  induction l with
  | nil => exact ⟨"", rfl, by simp⟩
  | cons e l ih =>
    obtain ⟨msg, hrun, hmsg⟩ := checkBalanceAndLimit_eq str header (hkeyed e List.mem_cons_self)
    obtain ⟨rest, hrest, hmsgs⟩ := ih fun e' he' => hkeyed e' (List.mem_cons_of_mem e he')
    unfold checkBalances
    rw [List.exists_mem_cons_iff, hrun]
    simp only [bind, Except.bind]
    split_ifs with hne
    · exact ⟨msg, rfl, iff_of_true hne (.inl (hmsg.mp hne))⟩
    · exact ⟨rest, hrest, by rw [hmsgs, or_iff_right (mt hmsg.mpr hne)]⟩

/-! ## What is reported -/

/-- What the check goes by: a line that is not authorized, a sum that is not zero in 64 bits, or a
comparison that fails where it is made. -/
def LedgerTxnDelta.Seen (ltxDelta : LedgerTxnDelta) : Prop :=
  (∃ e ∈ ltxDelta.entryDeltas, e.Unauthorized) ∨
    (∃ side a x, ¬ (2 ^ 64 : ℤ) ∣ ltxDelta.difference side a x) ∨
      ∃ e ∈ ltxDelta.entryDeltas, e.Fails ltxDelta.header.current

section Reported

variable {before : AbstractLedgerTxn} {ltxDelta : LedgerTxnDelta}

theorem LedgerTxnDelta.exists_lookup {e : EntryDelta} (he : e ∈ ltxDelta.entryDeltas) :
    ∃ k, ltxDelta.entry.lookup k = some e := by
  obtain ⟨⟨k, e⟩, hp, rfl⟩ := List.mem_map.mp he
  exact ⟨k, AList.mem_lookup_iff.mpr hp⟩

theorem LedgerTxnDelta.Of.keyed (h : ltxDelta.Of before) : ∀ e ∈ ltxDelta.entryDeltas, e.Keyed := by
  intro e he
  obtain ⟨k, hlookup⟩ := exists_lookup he
  refine ⟨k, fun c => h.current k e c hlookup, fun p hp => before.keyed k p ?_⟩
  exact (h.previous k e hlookup).symm.trans hp

theorem LedgerTxnDelta.Of.inRange (h : ltxDelta.Of before) : ∀ e ∈ ltxDelta.entryDeltas, ∀ o,
    e.current = some (.offer o) ∨ e.previous = some (.offer o) → InRange o := by
  intro e he o ho
  obtain ⟨k, hlookup⟩ := exists_lookup he
  exact h.offers k e o hlookup ho

/-- The check reports what it goes by, and nothing else. -/
theorem checkOnOperationApply_eq (h : ltxDelta.Of before)
    (hversion : 10 ≤ ltxDelta.header.current.ledgerVersion) :
    ∃ msg, checkOnOperationApply str ltxDelta = .ok msg ∧ (msg ≠ "" ↔ ltxDelta.Seen) := by
  unfold checkOnOperationApply LedgerTxnDelta.Seen
  simp only [if_pos hversion]
  obtain ⟨hauth, msg, hne, hrun⟩ | ⟨hauth, m, hrun, htracks⟩ :=
    tracks_empty.accumulateEntries str h.inRange
  · rw [hrun]
    exact ⟨msg, rfl, iff_of_true hne (.inl hauth)⟩
  · have hsums : checkDeltaLiabilities str m ≠ "" ↔
        ∃ side a x, ¬ (2 ^ 64 : ℤ) ∣ ltxDelta.difference side a x := by
      rw [ne_eq, htracks.checkDeltaLiabilities_eq_empty]
      simp only [zero_add, not_forall, LedgerTxnDelta.difference]
    rw [hrun, or_iff_right hauth, ← hsums]
    simp only [bind, Except.bind]
    split_ifs with hne
    · exact ⟨_, rfl, iff_of_true hne (.inl hne)⟩
    · obtain ⟨rest, hrest, hmsg⟩ := checkBalances_eq str ltxDelta.header.current h.keyed
      exact ⟨rest, hrest, by rw [hmsg, or_iff_right hne]⟩

end Reported

/-! ## What is wrong -/

/-- The balance of an account fell or its liabilities rose. -/
def Worse (acc : AccountEntry) (previous : Option LedgerEntryData) : Prop :=
  match previous with
  | some (.account prev) =>
    acc.balance < prev.balance ∨
      ∃ side : Side, side.of (liabilitiesOf prev.ext) < side.of (liabilitiesOf acc.ext)
  | _ => ∃ side : Side, 0 < side.of (liabilitiesOf acc.ext)

/-- The liabilities of an account exceed what it has above the reserve, or what it has room for. -/
def ExceedsBalance (header : LedgerHeader) (acc : AccountEntry) : Prop :=
  acc.balance - getMinBalance header acc.numSubEntries < (liabilitiesOf acc.ext).selling ∨
    INT64_MAX - acc.balance < (liabilitiesOf acc.ext).buying

/-- The liabilities of a trust line exceed its balance, or what is left of its limit. -/
def ExceedsLimit (tl : TrustLineEntry) : Prop :=
  tl.balance < (liabilitiesOf tl.ext).selling ∨ tl.limit - tl.balance < (liabilitiesOf tl.ext).buying

/-- An entry after the operation is out of its bounds. -/
def EntryDelta.Exceeds (header : LedgerHeader) (e : EntryDelta) : Prop :=
  match e.current with
  | some (.account acc) => Worse acc e.previous ∧ ExceedsBalance header acc
  | some (.trustLine tl) => ExceedsLimit tl
  | _ => False

/-- The operation took a ledger that matched to one that does not, or left an entry out of its bounds. -/
def LedgerTxnDelta.Wrong (before : AbstractLedgerTxn) (ltxDelta : LedgerTxnDelta) : Prop :=
  (Matches before ∧ ¬ Matches (ltxDelta.applyTo before)) ∨
    ∃ e ∈ ltxDelta.entryDeltas, e.Exceeds ltxDelta.header.current

/-- What is wrong is reported. -/
def Catches (before : AbstractLedgerTxn) (ltxDelta : LedgerTxnDelta) : Prop :=
  ltxDelta.Wrong before → ∃ msg, checkOnOperationApply str ltxDelta = .ok msg ∧ msg ≠ ""

/-! ## What is out of sight -/

/-- The liabilities of an account rose beyond its bounds, and its balance did not fall. -/
def OnlyLiabilitiesRose (header : LedgerHeader) (acc : AccountEntry) (previous : Option LedgerEntryData) : Prop :=
  ∃ prev, previous = some (.account prev) ∧ prev.balance ≤ acc.balance ∧
    (∃ side : Side, side.of (liabilitiesOf prev.ext) < side.of (liabilitiesOf acc.ext)) ∧
    ExceedsBalance header acc

/-- A comparison is of something that does not fit an `int64_t`. -/
def EntryDelta.Overflows (header : LedgerHeader) (e : EntryDelta) : Prop :=
  match e.current with
  | some (.account acc) =>
    let reserved := getMinBalance header acc.numSubEntries + (liabilitiesOf acc.ext).selling
    toInt64 reserved ≠ reserved ∨ toInt64 (INT64_MAX - acc.balance) ≠ INT64_MAX - acc.balance
  | some (.trustLine tl) => toInt64 (tl.limit - tl.balance) ≠ tl.limit - tl.balance
  | _ => False

/-- The liabilities of an account alone rose out of bounds, or 64 bits hide what is wrong. -/
def LedgerTxnDelta.OutOfSight (before : AbstractLedgerTxn) (ltxDelta : LedgerTxnDelta) : Prop :=
  (∃ e ∈ ltxDelta.entryDeltas, ∃ acc, e.current = some (.account acc) ∧
      OnlyLiabilitiesRose ltxDelta.header.current acc e.previous) ∨
    (∃ e ∈ ltxDelta.entryDeltas, e.Exceeds ltxDelta.header.current ∧ e.Overflows ltxDelta.header.current) ∨
    Matches before ∧ ∃ side a x, ltxDelta.difference side a x ≠ 0 ∧ (2 ^ 64 : ℤ) ∣ ltxDelta.difference side a x

section Caught

variable {before : AbstractLedgerTxn} {ltxDelta : LedgerTxnDelta} {header : LedgerHeader}

/-- Where the check looks and nothing overflows, it fails what is out of bounds. -/
theorem accountFails_of_exceeds {acc : AccountEntry} (hversion : 10 ≤ header.ledgerVersion)
    (h : ExceedsBalance header acc)
    (hreserved : toInt64 (getMinBalance header acc.numSubEntries + (liabilitiesOf acc.ext).selling) =
      getMinBalance header acc.numSubEntries + (liabilitiesOf acc.ext).selling)
    (hroom : toInt64 (INT64_MAX - acc.balance) = INT64_MAX - acc.balance) :
    accountFails header acc header.ledgerVersion = true := by
  unfold accountFails checkedLiabilities
  simp only [if_pos hversion, hreserved, hroom, Bool.or_eq_true, decide_eq_true_eq]
  exact h.imp (fun h => by omega) id

theorem trustLineFails_of_exceeds {tl : TrustLineEntry} (hversion : 10 ≤ header.ledgerVersion)
    (h : ExceedsLimit tl) (hroom : toInt64 (tl.limit - tl.balance) = tl.limit - tl.balance) :
    trustLineFails tl header.ledgerVersion = true := by
  unfold trustLineFails checkedLiabilities
  simp only [if_pos hversion, hroom, Bool.or_eq_true, decide_eq_true_eq]
  exact h

/-- Of an entry that is out of bounds, the check fails, or it is out of its sight. -/
theorem EntryDelta.Exceeds.seen {e : EntryDelta} (hversion : 10 ≤ header.ledgerVersion)
    (h : e.Exceeds header) : e.Fails header ∨ e.Overflows header ∨
      ∃ acc, e.current = some (.account acc) ∧ OnlyLiabilitiesRose header acc e.previous := by
  obtain ⟨_ | (acc | tl | o | d), previous⟩ := e
  · exact h.elim
  · obtain ⟨hworse, hexceeds⟩ := h
    by_cases hlook : LooksAt acc previous
    · by_cases hover : EntryDelta.Overflows header ⟨some (.account acc), previous⟩
      · exact .inr (.inl hover)
      · have hfits := not_or.mp hover
        exact .inl ⟨hlook, accountFails_of_exceeds hversion hexceeds (not_not.mp hfits.1) (not_not.mp hfits.2)⟩
    · simp only [LooksAt, not_forall, not_lt] at hlook
      obtain ⟨prev, rfl, hbalance⟩ := hlook
      exact .inr (.inr ⟨acc, rfl, prev, rfl, hbalance, hworse.resolve_left hbalance.not_gt, hexceeds⟩)
  · by_cases hover : EntryDelta.Overflows header ⟨some (.trustLine tl), previous⟩
    · exact .inr (.inl hover)
    · exact .inl (trustLineFails_of_exceeds hversion h (not_not.mp hover))
  · exact h.elim
  · exact h.elim

theorem OnlyLiabilitiesRose.exceeds {e : EntryDelta} {acc : AccountEntry} (hcurrent : e.current = some (.account acc))
    (h : OnlyLiabilitiesRose header acc e.previous) : e.Exceeds header := by
  obtain ⟨prev, hprevious, -, hrose, hexceeds⟩ := h
  unfold EntryDelta.Exceeds
  rw [hcurrent, hprevious]
  exact ⟨.inr hrose, hexceeds⟩

/-- **The check catches what is wrong** exactly if it goes by something in the delta, or nothing is out of
its sight. -/
theorem catches_iff (before : AbstractLedgerTxn) (ltxDelta : LedgerTxnDelta) (h : ltxDelta.Of before)
    (hversion : 10 ≤ ltxDelta.header.current.ledgerVersion) :
    Catches str before ltxDelta ↔ ltxDelta.Seen ∨ ¬ ltxDelta.OutOfSight before := by
  obtain ⟨msg, hrun, hmsg⟩ := checkOnOperationApply_eq str h hversion
  have hreports : (∃ msg, checkOnOperationApply str ltxDelta = .ok msg ∧ msg ≠ "") ↔ ltxDelta.Seen := by
    rw [← hmsg]
    exact ⟨fun ⟨msg', hrun', hne⟩ => Except.ok.inj (hrun'.symm.trans hrun) ▸ hne, fun hne => ⟨msg, hrun, hne⟩⟩
  unfold Catches
  rw [hreports]
  refine ⟨fun hcatches => ?_, fun hcond hwrong => hcond.elim id fun hsight => ?_⟩
  · refine or_iff_not_imp_left.mpr fun hseen hout => hseen (hcatches ?_)
    obtain ⟨e, he, acc, hcurrent, hrose⟩ | ⟨e, he, hexceeds, -⟩ | ⟨hbefore, side, a, x, hne, -⟩ := hout
    · exact .inr ⟨e, he, hrose.exceeds hcurrent⟩
    · exact .inr ⟨e, he, hexceeds⟩
    · exact .inl ⟨hbefore, fun hafter => hne ((h.matches_applyTo hbefore).mp hafter side a x)⟩
  · by_contra hseen
    refine hsight ?_
    obtain ⟨hbefore, hafter⟩ | ⟨e, he, hexceeds⟩ := hwrong
    · rw [h.matches_applyTo hbefore] at hafter
      simp only [not_forall] at hafter
      obtain ⟨side, a, x, hne⟩ := hafter
      refine .inr (.inr ⟨hbefore, side, a, x, hne, ?_⟩)
      by_contra hdvd
      exact hseen (.inr (.inl ⟨side, a, x, hdvd⟩))
    · obtain hfails | hover | ⟨acc, hcurrent, hrose⟩ := hexceeds.seen hversion
      · exact absurd (.inr (.inr ⟨e, he, hfails⟩)) hseen
      · exact .inr (.inl ⟨e, he, hexceeds, hover⟩)
      · exact .inl ⟨e, he, acc, hcurrent, hrose⟩

end Caught

/-! ## An account that offers its reserve -/

def credit : Asset := .alphaNum4 1431520256 2

def reserveHeader : LedgerHeader := { genesisLedger with ledgerVersion := 10 }

def seller (balance : ℤ) (numSubEntries : ℕ) (ext : Option Liabilities) : AccountEntry :=
  { rootAccount 1 reserveHeader with balance := balance, numSubEntries := numSubEntries, ext := ext }

def creditLine (ext : Option Liabilities) : TrustLineEntry := ⟨1, credit, 0, 1000000000, 1, ext⟩

/-- An account with a trust line, which with an offer is ten lumens above its reserve. -/
def beforeOffer : AbstractLedgerTxn :=
  ((emptyLedger reserveHeader).put (.account (seller 500000000 1 none))).put (.trustLine (creditLine none))

/-- It comes to offer twenty; its balance is the given one. -/
def overcommitted (balance : ℤ) : LedgerTxnDelta where
  entry := ⟨[⟨.account 1, some (.account (seller balance 2 (some ⟨0, 200000000⟩))),
        some (.account (seller 500000000 1 none))⟩,
      ⟨.trustLine 1 credit, some (.trustLine (creditLine (some ⟨200000000, 0⟩))),
        some (.trustLine (creditLine none))⟩,
      ⟨.offer 1 1, some (.offer ⟨1, 1, .native, credit, 200000000, ⟨1, 1⟩, 0⟩), none⟩], by
    show [LedgerKey.account 1, .trustLine 1 credit, .offer 1 1].Nodup
    decide⟩
  header := ⟨reserveHeader, reserveHeader⟩

theorem overcommitted_of (balance : ℤ) : (overcommitted balance).Of beforeOffer := by
  have hcases : ∀ k e, (overcommitted balance).entry.lookup k = some e →
      (⟨k, e⟩ : Sigma fun _ : LedgerKey => EntryDelta) ∈ (overcommitted balance).entry.entries :=
    fun k e h => AList.mem_lookup_iff.mp h
  refine ⟨fun k e h => ?_, fun k e c h => ?_, fun k e o h ho => ?_⟩ <;>
    have hmem := hcases k e h <;>
    simp only [overcommitted, List.mem_cons, List.not_mem_nil, or_false] at hmem
  · obtain hk | hk | hk := hmem <;> cases hk <;> rfl
  · obtain hk | hk | hk := hmem <;> cases hk <;> rintro ⟨⟩ <;> rfl
  · obtain hk | hk | hk := hmem <;> cases hk
    · obtain ho | ho := ho <;> cases ho
    · obtain ho | ho := ho <;> cases ho
    · obtain ho | ho := ho <;> cases ho
      unfold InRange
      decide

def noText : XdrToString := ⟨fun _ => "", fun _ => "", fun _ => "", fun _ => ""⟩

/-- The entry of the account. -/
def sellerDelta (balance : ℤ) : EntryDelta :=
  ⟨some (.account (seller balance 2 (some ⟨0, 200000000⟩))), some (.account (seller 500000000 1 none))⟩

/-- A balance that falls brings the account into sight. -/
theorem catches_iff_fallen : Catches noText beforeOffer (overcommitted 499999999) := by
  refine (catches_iff noText beforeOffer (overcommitted 499999999) (overcommitted_of _) (by decide)).mpr
    (.inl (.inr (.inr ⟨sellerDelta 499999999, List.mem_cons_self, fun prev hprev => ?_, ?_⟩)))
  · cases hprev
    decide
  · decide +kernel

/-- The balance stays, and the check reports nothing. -/
theorem not_catches_overcommitted :
    (overcommitted 500000000).Of beforeOffer ∧
      checkOnOperationApply noText (overcommitted 500000000) = .ok "" ∧
      ¬ Catches noText beforeOffer (overcommitted 500000000) := by
  have hrun : checkOnOperationApply noText (overcommitted 500000000) = .ok "" := by decide +kernel
  refine ⟨overcommitted_of _, hrun, fun hcatches => ?_⟩
  have hexceeds : (sellerDelta 500000000).Exceeds reserveHeader := by
    refine ⟨.inr ⟨.selling, ?_⟩, .inl ?_⟩
    · decide
    · decide +kernel
  obtain ⟨msg, hmsg, hne⟩ := hcatches (.inr ⟨sellerDelta 500000000, List.mem_cons_self, hexceeds⟩)
  rw [hrun] at hmsg
  exact hne (Except.ok.inj hmsg).symm

end ZaggCore.Invariants
