import ZaggCore.Util.Numeric
import ZaggCore.Xdr.Types

/-! # The skip list

The model of `snapshotLedger` and `calculateSkipValues` of `bucket/BucketManagerImpl.cpp`. Each header
starts with the skip list of the header before it, and a slot moves to the next one only where the
offset of the ledger from all the smaller steps is a multiple of the larger one. -/

namespace ZaggCore.Buckets
open Numeric
set_option autoImplicit false
set_option maxHeartbeats 250000

def SKIP_1 : ℕ := 50

def SKIP_2 : ℕ := 5000

def SKIP_3 : ℕ := 50000

def SKIP_4 : ℕ := 500000

/-- The fields of the header that `snapshotLedger` reads or writes. -/
structure SnapshotHeader where
  ledgerSeq : ℕ
  bucketListHash : Hash
  skipList : Fin 4 → Hash

/-- For the indices of the slots. -/
local instance neZero_slots : NeZero 4 := ⟨four_ne_zero⟩

namespace SnapshotHeader

def setSkip (header : SnapshotHeader) (i : Fin 4) (hash : Hash) : SnapshotHeader :=
  { header with skipList := Function.update header.skipList i hash }

/-- `int v`: the difference of `uint32_t` numbers, converted. -/
def offset (header : SnapshotHeader) (skipped : ℕ) : ℤ := toInt32 (header.ledgerSeq - skipped)

/-- The inner branches: the slots 3, 2 and 1. -/
def shiftSkipValues (currentHeader : SnapshotHeader) : SnapshotHeader :=
  if 0 < currentHeader.offset SKIP_1 ∧ currentHeader.offset SKIP_1 % SKIP_2 = 0 then
    let header :=
      if 0 < currentHeader.offset (SKIP_2 + SKIP_1) ∧
          currentHeader.offset (SKIP_2 + SKIP_1) % SKIP_3 = 0 then
        let header :=
          if 0 < currentHeader.offset (SKIP_3 + SKIP_2 + SKIP_1) ∧
              currentHeader.offset (SKIP_3 + SKIP_2 + SKIP_1) % SKIP_4 = 0 then
            currentHeader.setSkip 3 (currentHeader.skipList 2)
          else currentHeader
        header.setSkip 2 (header.skipList 1)
      else currentHeader
    header.setSkip 1 (header.skipList 0)
  else currentHeader

def calculateSkipValues (currentHeader : SnapshotHeader) : SnapshotHeader :=
  if currentHeader.ledgerSeq % SKIP_1 = 0 then
    currentHeader.shiftSkipValues.setSkip 0 currentHeader.bucketListHash
  else currentHeader

/-- With the hash of the bucket list. -/
def snapshotLedger (currentHeader : SnapshotHeader) (hash : Hash) : SnapshotHeader :=
  calculateSkipValues { currentHeader with bucketListHash := hash }

end SnapshotHeader

/-! ## The last ledger of a slot -/

/-- The last multiple of the period up to `n`, both counted from the offset. -/
def floorTo (period offset n : ℤ) : ℤ := period * ((n - offset) / period)

section Floor

variable {period offset n : ℤ}

theorem floorTo_of_dvd (h : period ∣ n - offset) : floorTo period offset n = n - offset :=
  Int.mul_ediv_cancel' h

/-- One ledger earlier it was one period less. -/
theorem floorTo_before_of_dvd (hpos : 0 < period) (h : period ∣ n + 1 - offset) :
    floorTo period offset n = n + 1 - offset - period := by
  obtain ⟨k, hk⟩ := h
  have hn : n - offset = (period - 1) + period * (k - 1) := by linarith
  have hrest : (period - 1) / period = 0 := Int.ediv_eq_zero_of_lt (by omega) (by omega)
  unfold floorTo
  rw [hn, Int.add_mul_ediv_left _ _ hpos.ne', hrest, hk]
  ring

theorem floorTo_succ_of_not_dvd (hpos : 0 < period) (h : ¬ period ∣ n + 1 - offset) :
    floorTo period offset (n + 1) = floorTo period offset n := by
  have hdiv := Int.mul_ediv_add_emod (n - offset) period
  have hlt := Int.emod_lt_of_pos (n - offset) hpos
  have hge := Int.emod_nonneg (n - offset) hpos.ne'
  have hne : (n - offset) % period + 1 ≠ period := by
    intro heq
    refine h ⟨(n - offset) / period + 1, ?_⟩
    linarith
  have hn : n + 1 - offset = ((n - offset) % period + 1) + period * ((n - offset) / period) := by linarith
  have hrest : ((n - offset) % period + 1) / period = 0 := Int.ediv_eq_zero_of_lt (by omega) (by omega)
  unfold floorTo
  rw [hn, Int.add_mul_ediv_left _ _ hpos.ne', hrest, zero_add]

theorem floorTo_le (hpos : 0 < period) : floorTo period offset n ≤ n - offset :=
  Int.mul_ediv_self_le hpos.ne'

end Floor

/-! ## One header -/

/-- The slot with this period and offset changes at the ledger `n`. -/
def Due (period offset n : ℤ) : Prop := 0 < n - offset ∧ period ∣ n - offset

instance (period offset n : ℤ) : Decidable (Due period offset n) := inferInstanceAs (Decidable (_ ∧ _))

namespace SnapshotHeader

variable {header : SnapshotHeader}

theorem due_iff {skipped : ℕ} (hseq : header.ledgerSeq < 2 ^ 31) (hskipped : skipped ≤ 2 ^ 31)
    (period : ℕ) :
    (0 < header.offset skipped ∧ header.offset skipped % period = 0) ↔
      Due period skipped header.ledgerSeq := by
  have hoffset : header.offset skipped = header.ledgerSeq - skipped := by
    unfold offset toInt32
    exact Int.bmod_eq_of_le (by omega) (by omega)
  rw [hoffset, Due, Int.dvd_iff_emod_eq_zero]

/-- What each slot is set to. -/
theorem calculateSkipValues_skipList (hseq : header.ledgerSeq < 2 ^ 31) (hpos : 0 < header.ledgerSeq) :
    (calculateSkipValues header).skipList = ![
      if Due 50 0 header.ledgerSeq then header.bucketListHash else header.skipList 0,
      if Due 5000 50 header.ledgerSeq then header.skipList 0 else header.skipList 1,
      if Due 50000 5050 header.ledgerSeq then header.skipList 1 else header.skipList 2,
      if Due 500000 55050 header.ledgerSeq then header.skipList 2 else header.skipList 3] := by
  have h0 : header.ledgerSeq % SKIP_1 = 0 ↔ Due 50 0 header.ledgerSeq := by
    unfold Due SKIP_1
    omega
  have h1 : (0 < header.offset SKIP_1 ∧ header.offset SKIP_1 % SKIP_2 = 0) ↔
      Due 5000 50 header.ledgerSeq := due_iff hseq (by decide) SKIP_2
  have h2 : (0 < header.offset (SKIP_2 + SKIP_1) ∧ header.offset (SKIP_2 + SKIP_1) % SKIP_3 = 0) ↔
      Due 50000 5050 header.ledgerSeq := due_iff hseq (by decide) SKIP_3
  have h3 : (0 < header.offset (SKIP_3 + SKIP_2 + SKIP_1) ∧
      header.offset (SKIP_3 + SKIP_2 + SKIP_1) % SKIP_4 = 0) ↔ Due 500000 55050 header.ledgerSeq :=
    due_iff hseq (by decide) SKIP_4
  -- each slot is due only where the smaller ones are
  have h10 : Due 5000 50 header.ledgerSeq → Due 50 0 header.ledgerSeq := by
    unfold Due
    omega
  have h21 : Due 50000 5050 header.ledgerSeq → Due 5000 50 header.ledgerSeq := by
    unfold Due
    omega
  have h32 : Due 500000 55050 header.ledgerSeq → Due 50000 5050 header.ledgerSeq := by
    unfold Due
    omega
  unfold calculateSkipValues shiftSkipValues
  simp only [h0, h1, h2, h3]
  funext i
  by_cases d0 : Due 50 0 header.ledgerSeq
  · by_cases d1 : Due 5000 50 header.ledgerSeq
    · by_cases d2 : Due 50000 5050 header.ledgerSeq
      · by_cases d3 : Due 500000 55050 header.ledgerSeq
        · simp only [d0, d1, d2, d3, if_true]
          fin_cases i <;> rfl
        · simp only [d0, d1, d2, d3, if_true, if_false]
          fin_cases i <;> rfl
      · have d3 := mt h32 d2
        simp only [d0, d1, d2, d3, if_true, if_false]
        fin_cases i <;> rfl
    · have d2 := mt h21 d1
      have d3 := mt h32 d2
      simp only [d0, d1, d2, d3, if_true, if_false]
      fin_cases i <;> rfl
  · have d1 := mt h10 d0
    have d2 := mt h21 d1
    have d3 := mt h32 d2
    simp only [d0, d1, d2, d3, if_false]
    fin_cases i <;> rfl

end SnapshotHeader

/-! ## The chain of headers -/

/-- The skip list of the header of the ledger `n`, from one without any hash on. -/
def skipListAt (hashes : ℕ → Hash) : ℕ → Fin 4 → Hash
  | 0 => fun _ => 0
  | n + 1 => (SnapshotHeader.snapshotLedger ⟨n + 1, 0, skipListAt hashes n⟩ (hashes (n + 1))).skipList

/-- The hash of a ledger; there is none of a ledger that is not positive. -/
def hashOf (hashes : ℕ → Hash) (ledger : ℤ) : Hash := if 0 < ledger then hashes ledger.toNat else 0

section Slots

variable {hashes : ℕ → Hash} {period offset n : ℤ}

theorem hashOf_of_nonpos (h : n ≤ 0) : hashOf hashes n = 0 := if_neg (not_lt.mpr h)

/-- A slot that is not due keeps its ledger. -/
theorem hashOf_floorTo_of_not_due (hpos : 0 < period) (h : ¬ Due period offset (n + 1)) :
    hashOf hashes (floorTo period offset (n + 1)) = hashOf hashes (floorTo period offset n) := by
  by_cases hdvd : period ∣ n + 1 - offset
  · have hle : n + 1 - offset ≤ 0 := not_lt.mp fun hlt => h ⟨hlt, hdvd⟩
    have h0 : floorTo period offset n ≤ n - offset := floorTo_le hpos
    have h1 : floorTo period offset (n + 1) ≤ n + 1 - offset := floorTo_le hpos
    rw [hashOf_of_nonpos (by omega), hashOf_of_nonpos (by omega)]
  · rw [floorTo_succ_of_not_dvd hpos hdvd]

/-- The first slot takes the hash of the ledger. -/
theorem first_slot_succ (hashes : ℕ → Hash) (ledger : ℕ) :
    (if Due 50 0 (ledger + 1 : ℕ) then hashes (ledger + 1) else hashOf hashes (floorTo 50 0 ledger)) =
      hashOf hashes (floorTo 50 0 (ledger + 1 : ℕ)) := by
  rw [Nat.cast_succ]
  split
  · next h =>
    rw [floorTo_of_dvd h.2, hashOf, if_pos h.1]
    congr 1
  · next h => rw [hashOf_floorTo_of_not_due (by decide) h]

/-- Another slot takes what the slot before it holds. -/
theorem next_slot_succ (hashes : ℕ → Hash) (ledger : ℕ) (offset smaller : ℤ) {period : ℤ}
    (hpos : 0 < period) (hsmaller : 0 < smaller) (hdvd : smaller ∣ period) :
    (if Due period (offset + smaller) (ledger + 1 : ℕ) then hashOf hashes (floorTo smaller offset ledger)
      else hashOf hashes (floorTo period (offset + smaller) ledger)) =
      hashOf hashes (floorTo period (offset + smaller) (ledger + 1 : ℕ)) := by
  rw [Nat.cast_succ]
  split
  · next h =>
    have hstep : smaller ∣ ledger + 1 - offset := by
      have hsplit : (ledger : ℤ) + 1 - offset = (ledger + 1 - (offset + smaller)) + smaller := by ring
      rw [hsplit]
      exact dvd_add (hdvd.trans h.2) dvd_rfl
    rw [floorTo_of_dvd h.2, floorTo_before_of_dvd hsmaller hstep]
    congr 1
    ring
  · next h => rw [hashOf_floorTo_of_not_due hpos h]

end Slots

/-- **What the skip list holds.** Each slot has the hash of the last ledger of its period, counted from
the sum of the smaller periods. -/
theorem skipListAt_eq (hashes : ℕ → Hash) {n : ℕ} (hn : n < 2 ^ 31) :
    skipListAt hashes n 0 = hashOf hashes (50 * (n / 50)) ∧
      skipListAt hashes n 1 = hashOf hashes (5000 * ((n - 50) / 5000)) ∧
      skipListAt hashes n 2 = hashOf hashes (50000 * ((n - 5050) / 50000)) ∧
      skipListAt hashes n 3 = hashOf hashes (500000 * ((n - 55050) / 500000)) := by
  suffices h : skipListAt hashes n = ![hashOf hashes (floorTo 50 0 n), hashOf hashes (floorTo 5000 50 n),
      hashOf hashes (floorTo 50000 5050 n), hashOf hashes (floorTo 500000 55050 n)] by
    rw [h]
    refine ⟨?_, rfl, rfl, rfl⟩
    show hashOf hashes (50 * ((n - 0) / 50)) = _
    rw [sub_zero]
  induction n with
  | zero =>
    funext i
    fin_cases i <;> rfl
  | succ n ih =>
    rw [skipListAt, SnapshotHeader.snapshotLedger,
      SnapshotHeader.calculateSkipValues_skipList hn (Nat.succ_pos n), ih (Nat.lt_of_succ_lt hn)]
    have h0 := first_slot_succ hashes n
    have h1 : (if Due 5000 50 (n + 1 : ℕ) then hashOf hashes (floorTo 50 0 n)
        else hashOf hashes (floorTo 5000 50 n)) = hashOf hashes (floorTo 5000 50 (n + 1 : ℕ)) :=
      next_slot_succ hashes n 0 50 (by decide) (by decide) (by decide)
    have h2 : (if Due 50000 5050 (n + 1 : ℕ) then hashOf hashes (floorTo 5000 50 n)
        else hashOf hashes (floorTo 50000 5050 n)) = hashOf hashes (floorTo 50000 5050 (n + 1 : ℕ)) :=
      next_slot_succ hashes n 50 5000 (by decide) (by decide) (by decide)
    have h3 : (if Due 500000 55050 (n + 1 : ℕ) then hashOf hashes (floorTo 50000 5050 n)
        else hashOf hashes (floorTo 500000 55050 n)) = hashOf hashes (floorTo 500000 55050 (n + 1 : ℕ)) :=
      next_slot_succ hashes n 5050 50000 (by decide) (by decide) (by decide)
    rw [← h0, ← h1, ← h2, ← h3]
    rfl

/-- At the ledger 5050 the first hash moves. -/
theorem skipListAt_eq_moved :
    skipListAt (fun n => Fin.ofNat _ n) 5050 0 = hashOf (fun n => Fin.ofNat _ n) (50 * ((5050 : ℕ) / 50)) ∧
      skipListAt (fun n => Fin.ofNat _ n) 5050 1 =
        hashOf (fun n => Fin.ofNat _ n) (5000 * (((5050 : ℕ) - 50) / 5000)) ∧
      skipListAt (fun n => Fin.ofNat _ n) 5050 2 =
        hashOf (fun n => Fin.ofNat _ n) (50000 * (((5050 : ℕ) - 5050) / 50000)) ∧
      skipListAt (fun n => Fin.ofNat _ n) 5050 3 =
        hashOf (fun n => Fin.ofNat _ n) (500000 * (((5050 : ℕ) - 55050) / 500000)) :=
  skipListAt_eq _ (by decide)

end ZaggCore.Buckets
