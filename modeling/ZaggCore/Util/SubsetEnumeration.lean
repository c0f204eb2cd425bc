import ZaggCore.Foundations.Checked
import ZaggCore.Util.BitsetEnumerator

/-! # The subsets of a given size

`PermutationEnumerator` with its assertions, and the loop over one: it gives the masks with `nSet` of
`nTotal` bits in increasing order, so each subset of that size once, and then stops. -/

namespace ZaggCore.Util
open Foundations Foundations.Checked
set_option autoImplicit false
set_option maxHeartbeats 250000

/-! ## The enumerator -/

/-- The bits that are set. -/
def members (bits : Bitset) : Finset ℕ := (Finset.range 64).filter fun i => bits.getLsbD i

/-- `count` of a bitset. -/
def count (bits : Bitset) : ℕ := (members bits).card

structure PermutationEnumerator where
  mCur : BitVec 64
  mSet : ℕ
  mTot : ℕ

namespace PermutationEnumerator

/-- The constructor. -/
def new (nSet nTotal : ℕ) : Checked PermutationEnumerator := do
  assert (nSet ≤ nTotal) "mSet <= mTot"
  assert (0 < nSet ∧ nSet ≤ 64) "mSet > 0 && mSet <= 64"
  assert (0 < nTotal ∧ nTotal ≤ 64) "mTot > 0 && mTot <= 64"
  return ⟨lowBits nSet, nSet, nTotal⟩

def toEnumerator (e : PermutationEnumerator) : BitsetEnumerator := .permutation e.mCur e.mSet e.mTot

def alive (e : PermutationEnumerator) : Bool := e.toEnumerator.alive

/-- `operator*`. -/
def deref (e : PermutationEnumerator) : Checked Bitset := do
  assert (count e.toEnumerator.deref = e.mSet) "bits.count() == mSet"
  return e.toEnumerator.deref

/-- `operator++`. -/
def next (e : PermutationEnumerator) : PermutationEnumerator := ⟨nextPermutation e.mCur, e.mSet, e.mTot⟩

def reset (e : PermutationEnumerator) : PermutationEnumerator := ⟨lowBits e.mSet, e.mSet, e.mTot⟩

end PermutationEnumerator

/-- The loop `for (; *e; ++*e)` looks at these bitsets. -/
inductive Yields : PermutationEnumerator → List Bitset → Prop where
  | stop {e : PermutationEnumerator} (h : e.alive = false) : Yields e []
  | step {e : PermutationEnumerator} {bits : Bitset} {rest : List Bitset} (h : e.alive = true)
      (hderef : e.deref = .ok bits) (hrest : Yields e.next rest) : Yields e (bits :: rest)

/-- The loop is the same every time. -/
theorem Yields.unique {e : PermutationEnumerator} {l l' : List Bitset} (h : Yields e l) (h' : Yields e l') :
    l = l' := by
  induction h generalizing l' with
  | stop hdead =>
    cases h' with
    | stop => rfl
    | step halive => exact absurd (hdead.symm.trans halive) (by decide)
  | step halive hderef hrest ih =>
    cases h' with
    | stop hdead => exact absurd (hdead.symm.trans halive) (by decide)
    | step _ hderef' hrest' =>
      have hbits := Except.ok.inj (hderef.symm.trans hderef')
      rw [hbits, ih hrest']

/-! ## Words as masks -/

theorem toNat_lowBits {nSet : ℕ} (h : nSet ≤ 64) : (lowBits nSet).toNat = 2 ^ nSet - 1 := by
  induction nSet with
  | zero => rfl
  | succ nSet ih =>
    have hpos := Nat.two_pow_pos nSet
    have hle : 2 ^ (nSet + 1) ≤ 2 ^ 64 := Nat.pow_le_pow_right (by decide) h
    have hpow : 2 ^ (nSet + 1) = 2 * 2 ^ nSet := pow_succ' 2 nSet
    have hor : 2 ^ 1 * (2 ^ nSet - 1) ||| 1 = 2 ^ 1 * (2 ^ nSet - 1) + 1 :=
      (Nat.two_pow_add_eq_or_of_lt (by decide) _).symm
    rw [lowBits, BitVec.toNat_or, BitVec.toNat_shiftLeft, ih (by omega), Nat.shiftLeft_eq,
      Nat.mod_eq_of_lt (by omega), Nat.mul_comm]
    show 2 ^ 1 * (2 ^ nSet - 1) ||| 1 = _
    omega

/-- The number of ones is the number of bits that are set. -/
theorem ones_eq_card (w : ℕ) {n : ℕ} (hn : n < 2 ^ w) :
    ones n = ((Finset.range w).filter fun i => n.testBit i).card := by
  simp only [Finset.card_filter]
  induction w generalizing n with
  | zero =>
    obtain rfl : n = 0 := by omega
    rw [ones_zero]
    rfl
  | succ w ih =>
    have hhalf : n / 2 < 2 ^ w := by
      rw [pow_succ] at hn
      omega
    have hlow : n % 2 = if n.testBit 0 then 1 else 0 := by
      rw [Nat.testBit_zero]
      rcases Nat.mod_two_eq_zero_or_one n with h | h
      · rw [h]
        rfl
      · rw [h]
        rfl
    rw [Finset.sum_range_succ', ones_eq, ih hhalf, hlow, add_comm]
    simp only [Nat.testBit_add_one]

theorem count_eq_ones (bits : Bitset) : count bits = ones bits.toNat :=
  (ones_eq_card 64 bits.isLt).symm

theorem mem_members {bits : Bitset} {i : ℕ} : i ∈ members bits ↔ bits.getLsbD i = true := by
  unfold members
  rw [Finset.mem_filter, Finset.mem_range]
  exact ⟨fun h => h.2, fun h => ⟨BitVec.lt_of_getLsbD h, h⟩⟩

theorem members_injective : Function.Injective members := by
  intro a b h
  refine BitVec.eq_of_getLsbD_eq fun i hi => ?_
  rw [Bool.eq_iff_iff, ← mem_members, ← mem_members, h]

/-- Every set of numbers below 64 is that of a bitset. -/
theorem exists_members {s : Finset ℕ} (hs : s ⊆ Finset.range 64) : ∃ bits, members bits = s := by
  refine ⟨BitVec.ofNat 64 (Nat.ofBits fun i : Fin 64 => decide (i.val ∈ s)), ?_⟩
  ext i
  rw [mem_members, BitVec.getLsbD_ofNat]
  by_cases hi : i < 64
  · simp [hi]
  · have hnot : i ∉ s := fun h => hi (Finset.mem_range.mp (hs h))
    simp [hi, hnot]

theorem members_subset_range {bits : Bitset} {total : ℕ} :
    members bits ⊆ Finset.range total ↔ bits.toNat < 2 ^ total := by
  constructor
  · intro h
    refine Nat.lt_pow_two_of_testBit _ fun i hi => ?_
    by_contra hbit
    have hmem : i ∈ members bits := mem_members.mpr (Bool.of_not_eq_false hbit)
    exact absurd (Finset.mem_range.mp (h hmem)) (by omega)
  · intro h i hi
    rw [mem_members] at hi
    rw [Finset.mem_range]
    by_contra hge
    have hfalse : bits.toNat.testBit i = false :=
      Nat.testBit_lt_two_pow (h.trans_le (Nat.pow_le_pow_right (by decide) (not_lt.mp hge)))
    rw [BitVec.getLsbD, hfalse] at hi
    cases hi

/-! ## One step -/

/-- `operator bool` looks whether the mask is below `2 ^ mTot`. -/
theorem alive_iff {e : PermutationEnumerator} (htot : e.mTot < 64) :
    e.alive = true ↔ e.mCur.toNat < 2 ^ e.mTot := by
  have hmask : ((1#64 <<< e.mTot) - 1).toNat = 2 ^ e.mTot - 1 := by
    have hpos := Nat.two_pow_pos e.mTot
    have hlt : 2 ^ e.mTot < 2 ^ 64 := Nat.pow_lt_pow_right (by decide) htot
    have hshift : (1#64 <<< e.mTot).toNat = 2 ^ e.mTot := by
      rw [BitVec.toNat_shiftLeft, Nat.shiftLeft_eq]
      show 1 * 2 ^ e.mTot % 2 ^ 64 = _
      rw [one_mul, Nat.mod_eq_of_lt hlt]
    rw [BitVec.toNat_sub_of_le, hshift]
    · rfl
    · rw [BitVec.le_def, hshift]
      exact hpos
  have hbit : ∀ i, ((1#64 <<< e.mTot) - 1).getLsbD i = decide (i < e.mTot) := fun i => by
    rw [BitVec.getLsbD, hmask, Nat.testBit_two_pow_sub_one]
  show (e.mCur &&& ~~~((1#64 <<< e.mTot) - 1) == 0) = true ↔ _
  rw [beq_iff_eq]
  constructor
  · intro h
    refine Nat.lt_pow_two_of_testBit _ fun i hi => ?_
    by_cases h64 : i < 64
    · have hzero : (e.mCur &&& ~~~((1#64 <<< e.mTot) - 1)).getLsbD i = false := by
        rw [h]
        exact BitVec.getLsbD_zero
      rw [BitVec.getLsbD_and, BitVec.getLsbD_not, hbit] at hzero
      simp only [h64, not_lt.mpr hi, decide_true, decide_false, Bool.not_false, Bool.and_true] at hzero
      exact hzero
    · have hle : 2 ^ 64 ≤ 2 ^ i := Nat.pow_le_pow_right (by decide) (not_lt.mp h64)
      exact Nat.testBit_lt_two_pow (e.mCur.isLt.trans_le hle)
  · intro h
    refine BitVec.eq_of_getLsbD_eq fun i hi => ?_
    rw [BitVec.getLsbD_and, BitVec.getLsbD_not, hbit]
    by_cases hlt : i < e.mTot
    · simp [hlt]
    · have hfalse : e.mCur.getLsbD i = false :=
        Nat.testBit_lt_two_pow (h.trans_le (Nat.pow_le_pow_right (by decide) (not_lt.mp hlt)))
      simp [hfalse]

/-- The step on words is the one on numbers, while the result is a word. -/
theorem toNat_nextPermutation {x : BitVec 64} {h j c : ℕ} (hx : Runs x.toNat h j c)
    (hlt : Runs.nextMask h j c < 2 ^ 64) : (nextPermutation x).toNat = Runs.nextMask h j c := by
  obtain ⟨hpow, hpow1, -, hle, hlec, hposj, hposc⟩ := Runs.powers j c
  have hnext := hx.nextMask_eq
  have hodd := hx.odd
  -- the lowest bit is added
  have ht : ((x ||| (x - 1)) + 1).toNat = x.toNat + 2 ^ j := by
    have hfill := or_sub_one_of_odd hodd
    have hpowj : 2 ^ (j + 1) = 2 * 2 ^ j := pow_succ' 2 j
    have hone : (1 : BitVec 64).toNat = 1 := rfl
    rw [BitVec.toNat_add]
    show ((x ||| (x - 1#64)).toNat + (1 : BitVec 64).toNat) % 2 ^ 64 = _
    rw [hfill, hone, Nat.mod_eq_of_lt (by omega)]
    omega
  have htodd : ((x ||| (x - 1)) + 1).toNat = 2 ^ (j + c + 1 + 1) * h + 2 ^ (j + c + 1) :=
    ht.trans hx.add_lowest
  have hquot : (((((x ||| (x - 1)) + 1) &&& uneg ((x ||| (x - 1)) + 1)) / (x &&& uneg x)) >>> 1).toNat =
      2 ^ c := by
    have h1 : (((x ||| (x - 1)) + 1) &&& uneg ((x ||| (x - 1)) + 1)).toNat = 2 ^ (j + c + 1) :=
      and_neg_of_odd htodd
    have h2 : (x &&& uneg x).toNat = 2 ^ j := and_neg_of_odd hodd
    have hsplit : 2 ^ (j + c + 1) = 2 ^ (c + 1) * 2 ^ j := by
      rw [← pow_add]
      congr 1
      omega
    rw [BitVec.toNat_ushiftRight, BitVec.toNat_udiv, h1, h2, hsplit, Nat.mul_div_cancel _ hposj,
      Nat.shiftRight_eq_div_pow, pow_one, pow_succ, Nat.mul_div_cancel _ (by decide)]
  have hlow : (((((x ||| (x - 1)) + 1) &&& uneg ((x ||| (x - 1)) + 1)) / (x &&& uneg x)) >>> 1 - 1).toNat =
      2 ^ c - 1 := by
    rw [BitVec.toNat_sub_of_le, hquot]
    · rfl
    · rw [BitVec.le_def, hquot]
      exact hposc
  show (((x ||| (x - 1)) + 1) ||| _).toNat = _
  rw [BitVec.toNat_or, hlow, htodd]
  have hdvd : 2 ^ (j + c + 1 + 1) * h + 2 ^ (j + c + 1) = 2 ^ (j + c + 1) * (2 * h + 1) := by ring
  rw [hdvd, ← Nat.two_pow_add_eq_or_of_lt (by omega), ← hdvd, ← htodd, ht, hnext]

/-- The step goes on to the next mask with as many bits. -/
theorem nextPermutation_spec {nSet nTotal : ℕ} (hset : 0 < nSet) (htot : nTotal < 64) {x : BitVec 64}
    (hx : ones x.toNat = nSet) (hlt : x.toNat < 2 ^ nTotal) :
    ones (nextPermutation x).toNat = nSet ∧ x.toNat < (nextPermutation x).toNat ∧
      masksFrom nTotal nSet x.toNat = x.toNat :: masksFrom nTotal nSet (nextPermutation x).toNat := by
  have hne : x.toNat ≠ 0 := by
    intro h0
    rw [h0, ones_zero] at hx
    omega
  obtain ⟨h, j, c, hruns⟩ := exists_runs hne
  have hgt := hruns.lt_nextMask
  have hword : Runs.nextMask h j c < 2 ^ 64 := by
    obtain ⟨hpow, hpow1, hrun, hlej, hlec, hposj, hposc⟩ := Runs.powers j c
    have hle : 2 ^ nTotal ≤ 2 ^ 63 := Nat.pow_le_pow_right (by decide) (by omega)
    have hxeq := hruns.eq
    have hnext := hruns.nextMask_eq
    rw [hrun] at hxeq
    -- the two powers are no more than their product and one
    have hsum : 2 ^ j + 2 ^ c ≤ 2 ^ (j + c) + 1 := by
      rw [pow_add]
      nlinarith
    omega
  have hstep := toNat_nextPermutation hruns hword
  have hcons := hruns.masksFrom_eq hlt
  rw [hx] at hcons
  rw [hstep]
  refine ⟨?_, hgt, hcons⟩
  rw [Runs.ones_nextMask, ← hruns.ones_eq, hx]

/-! ## The whole loop -/

/-- From a mask on, the loop gives the masks with as many bits that are not before it. -/
theorem yields_masksFrom {nSet nTotal : ℕ} (hset : 0 < nSet) (htot : nTotal < 64) {x : BitVec 64}
    (hx : ones x.toNat = nSet) :
    ∃ l, Yields ⟨x, nSet, nTotal⟩ l ∧ l.map BitVec.toNat = masksFrom nTotal nSet x.toNat := by
  induction hmeasure : 2 ^ nTotal - x.toNat using Nat.strong_induction_on generalizing x with
  | _ measure ih =>
    by_cases hlt : x.toNat < 2 ^ nTotal
    · obtain ⟨hones, hgt, hcons⟩ := nextPermutation_spec hset htot hx hlt
      obtain ⟨l, hl, hmap⟩ := ih (2 ^ nTotal - (nextPermutation x).toNat) (by omega) hones rfl
      have hderef : PermutationEnumerator.deref ⟨x, nSet, nTotal⟩ = .ok x := by
        unfold PermutationEnumerator.deref
        exact assert_bind (show count x = nSet by rw [count_eq_ones, hx]) _ _
      refine ⟨x :: l, .step ((alive_iff htot).mpr hlt) hderef hl, ?_⟩
      rw [List.map_cons, hmap, hcons]
    · refine ⟨[], .stop (Bool.eq_false_iff.mpr fun h => hlt ((alive_iff htot).mp h)), ?_⟩
      rw [masksFrom_of_le (not_lt.mp hlt)]
      rfl

theorem pairwise_masks (nTotal nSet : ℕ) : (masks nTotal nSet).Pairwise (· < ·) :=
  List.Pairwise.filter _ List.pairwise_lt_range'

/-- **The loop gives every subset once.** In increasing order of the words, and again after a reset,
however far the enumerator has gone. -/
theorem permutation_subsets {nSet nTotal : ℕ} (hset : 0 < nSet) (hle : nSet ≤ nTotal)
    (htot : nTotal < 64) :
    ∃ e l, PermutationEnumerator.new nSet nTotal = .ok e ∧ Yields e l ∧
      (l.map members).Nodup ∧
      (∀ s, s ∈ l.map members ↔ s ⊆ Finset.range nTotal ∧ s.card = nSet) ∧
      l.Pairwise (fun a b => a.toNat < b.toNat) ∧
      ∀ k, Yields (PermutationEnumerator.next^[k] e).reset l := by
  have hlow : (lowBits nSet).toNat = 2 ^ nSet - 1 := toNat_lowBits (by omega)
  have hones : ones (lowBits nSet).toNat = nSet := by rw [hlow, ones_two_pow_sub_one]
  obtain ⟨l, hl, hmap⟩ := yields_masksFrom hset htot hones
  rw [hlow, ← masks_eq] at hmap
  have hsorted : l.Pairwise (fun a b => a.toNat < b.toNat) :=
    List.pairwise_map.mp (hmap ▸ pairwise_masks nTotal nSet)
  have hmem : ∀ bits : Bitset, bits ∈ l ↔ bits.toNat < 2 ^ nTotal ∧ ones bits.toNat = nSet := by
    intro bits
    rw [← mem_masks, ← hmap, List.mem_map]
    constructor
    · intro h
      exact ⟨bits, h, rfl⟩
    · rintro ⟨bits', h, heq⟩
      rwa [← BitVec.eq_of_toNat_eq heq]
  refine ⟨⟨lowBits nSet, nSet, nTotal⟩, l, ?_, hl, ?_, fun s => ?_, hsorted, fun k => ?_⟩
  · unfold PermutationEnumerator.new
    rw [assert_bind hle, assert_bind ⟨hset, by omega⟩, assert_bind ⟨by omega, by omega⟩]
    rfl
  · refine List.Nodup.map members_injective (hsorted.imp fun hab heq => ?_)
    rw [heq] at hab
    exact lt_irrefl _ hab
  · rw [List.mem_map]
    constructor
    · rintro ⟨bits, hbits, rfl⟩
      obtain ⟨hlt, hcount⟩ := (hmem bits).mp hbits
      exact ⟨members_subset_range.mpr hlt, (count_eq_ones bits).trans hcount⟩
    · rintro ⟨hs, hcard⟩
      have h64 : s ⊆ Finset.range 64 := hs.trans (Finset.range_subset_range.mpr htot.le)
      obtain ⟨bits, rfl⟩ := exists_members h64
      have hones' : ones bits.toNat = nSet := (count_eq_ones bits).symm.trans hcard
      exact ⟨bits, (hmem bits).mpr ⟨members_subset_range.mp hs, hones'⟩, rfl⟩
  · -- the sizes never change
    suffices h : (PermutationEnumerator.next^[k] ⟨lowBits nSet, nSet, nTotal⟩).mSet = nSet ∧
        (PermutationEnumerator.next^[k] ⟨lowBits nSet, nSet, nTotal⟩).mTot = nTotal by
      unfold PermutationEnumerator.reset
      rw [h.1, h.2]
      exact hl
    induction k with
    | zero => exact ⟨rfl, rfl⟩
    | succ k ih =>
      rw [Function.iterate_succ_apply']
      exact ih

/-- The six pairs of four. -/
theorem permutation_subsets_pairs : ∃ e l, PermutationEnumerator.new 2 4 = .ok e ∧ Yields e l ∧
      (l.map members).Nodup ∧ (∀ s, s ∈ l.map members ↔ s ⊆ Finset.range 4 ∧ s.card = 2) ∧
      l.Pairwise (fun a b => a.toNat < b.toNat) ∧
      ∀ k, Yields (PermutationEnumerator.next^[k] e).reset l :=
  permutation_subsets (by decide) (by decide) (by decide)

end ZaggCore.Util
