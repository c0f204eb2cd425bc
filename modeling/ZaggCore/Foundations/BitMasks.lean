import Mathlib

/-! # Masks with a given number of bits

`masks n k` are the numbers below `2 ^ n` with `k` bits set, in increasing order. The next one after a
mask adds its lowest bit and puts back at the bottom, but for one, the ones that the addition cleared;
in 64-bit words that is two subtractions, an `or` and a division. -/

namespace ZaggCore.Foundations
set_option autoImplicit false
set_option maxHeartbeats 250000

/-! ## The number of ones -/

def ones (n : ℕ) : ℕ := if h : n = 0 then 0 else n % 2 + ones (n / 2)
  termination_by n

theorem ones_eq (n : ℕ) : ones n = n % 2 + ones (n / 2) := by
  rw [ones]
  split
  · next h =>
    subst h
    rw [Nat.zero_div, ones, dif_pos rfl]
  · rfl

theorem ones_zero : ones 0 = 0 := by
  rw [ones, dif_pos rfl]

theorem ones_mul_add (a j : ℕ) {b : ℕ} (hb : b < 2 ^ j) : ones (a * 2 ^ j + b) = ones a + ones b := by
  induction j generalizing b with
  | zero =>
    obtain rfl : b = 0 := by omega
    simp [ones_zero]
  | succ j ih =>
    have hdiv : (a * 2 ^ (j + 1) + b) / 2 = a * 2 ^ j + b / 2 := by
      rw [pow_succ, ← mul_assoc]
      omega
    have hmod : (a * 2 ^ (j + 1) + b) % 2 = b % 2 := by
      rw [pow_succ, ← mul_assoc]
      omega
    rw [pow_succ] at hb
    rw [ones_eq (a * 2 ^ (j + 1) + b), hdiv, hmod, ih (by omega), ones_eq b]
    omega

theorem ones_two_pow_sub_one (c : ℕ) : ones (2 ^ c - 1) = c := by
  induction c with
  | zero => exact ones_zero
  | succ c ih =>
    have hpos := Nat.two_pow_pos c
    have hdiv : (2 ^ (c + 1) - 1) / 2 = 2 ^ c - 1 := by
      rw [pow_succ]
      omega
    have hmod : (2 ^ (c + 1) - 1) % 2 = 1 := by
      rw [pow_succ]
      omega
    rw [ones_eq, hdiv, hmod, ih, add_comm]

/-- `2 ^ k - 1` is the least number with `k` ones. -/
theorem two_pow_ones_le (n : ℕ) : 2 ^ ones n ≤ n + 1 := by
  induction n using Nat.strong_induction_on with
  | _ n ih =>
    rcases Nat.eq_zero_or_pos n with rfl | hn
    · rw [ones_zero]
      decide
    · have := ih (n / 2) (by omega)
      rw [ones_eq, pow_add]
      rcases Nat.mod_two_eq_zero_or_one n with h | h
      · rw [h]
        omega
      · rw [h]
        omega

/-- The greatest number below `2 ^ N` with `k` ones has them at the top. -/
theorem add_two_pow_le (N : ℕ) {n : ℕ} (hn : n < 2 ^ N) :
    ones n ≤ N ∧ n + 2 ^ (N - ones n) ≤ 2 ^ N := by
  induction N generalizing n with
  | zero =>
    obtain rfl : n = 0 := by omega
    rw [ones_zero]
    exact ⟨le_rfl, by omega⟩
  | succ N ih =>
    rw [pow_succ] at hn
    obtain ⟨hle, htop⟩ := ih (n := n / 2) (by omega)
    have hpos := Nat.two_pow_pos (N - ones (n / 2))
    rw [ones_eq n]
    rcases Nat.mod_two_eq_zero_or_one n with h | h
    · rw [h]
      refine ⟨by omega, ?_⟩
      have hexp : N + 1 - (0 + ones (n / 2)) = (N - ones (n / 2)) + 1 := by omega
      rw [hexp, pow_succ, pow_succ]
      omega
    · rw [h]
      refine ⟨by omega, ?_⟩
      have hexp : N + 1 - (1 + ones (n / 2)) = N - ones (n / 2) := by omega
      rw [hexp, pow_succ]
      omega

/-! ## The next mask -/

/-- A mask whose lowest bit is `j`; adding it carries up to the bit `j + c + 1`. -/
structure Runs (x h j c : ℕ) : Prop where
  eq : x = h * 2 ^ (j + c + 2) + (2 ^ (c + 1) - 1) * 2 ^ j

/-- Every number but 0 has a lowest run of ones. -/
theorem exists_runs {x : ℕ} (hx : x ≠ 0) : ∃ h j c, Runs x h j c := by
  obtain ⟨j, m, ⟨a, rfl⟩, rfl⟩ := Nat.exists_eq_two_pow_mul_odd hx
  obtain ⟨c, m, ⟨h, rfl⟩, hc⟩ := Nat.exists_eq_two_pow_mul_odd (Nat.succ_ne_zero a)
  refine ⟨h, j, c, ⟨?_⟩⟩
  have hpos := Nat.two_pow_pos c
  have ha : 2 * a + 1 = h * 2 ^ (c + 2) + (2 ^ (c + 1) - 1) := by
    have h1 : a + 1 = 2 * (h * 2 ^ c) + 2 ^ c := hc.trans (by ring)
    have h2 : h * 2 ^ (c + 2) = 4 * (h * 2 ^ c) := by ring
    have h3 : 2 ^ (c + 1) = 2 * 2 ^ c := by ring
    rw [h2, h3]
    omega
  rw [ha]
  ring

namespace Runs

variable {x h j c : ℕ}

/-- The mask after one with these runs. -/
def nextMask (h j c : ℕ) : ℕ := h * 2 ^ (j + c + 2) + 2 ^ (j + c + 1) + (2 ^ c - 1)

theorem powers (j c : ℕ) : 2 ^ (j + c + 2) = 4 * 2 ^ (j + c) ∧ 2 ^ (j + c + 1) = 2 * 2 ^ (j + c) ∧
    (2 ^ (c + 1) - 1) * 2 ^ j = 2 * 2 ^ (j + c) - 2 ^ j ∧ 2 ^ j ≤ 2 ^ (j + c) ∧ 2 ^ c ≤ 2 ^ (j + c) ∧
    0 < 2 ^ j ∧ 0 < 2 ^ c := by
  refine ⟨by ring, by ring, ?_, Nat.pow_le_pow_right (by decide) (by omega),
    Nat.pow_le_pow_right (by decide) (by omega), Nat.two_pow_pos j, Nat.two_pow_pos c⟩
  rw [Nat.sub_mul, one_mul]
  congr 1
  ring

/-- Adding the lowest bit, and what is put back. -/
theorem nextMask_eq (hx : Runs x h j c) : nextMask h j c = x + 2 ^ j + (2 ^ c - 1) := by
  obtain ⟨-, h1, h2, hle, -, -, -⟩ := powers j c
  rw [hx.eq, nextMask, h1, h2]
  omega

theorem ones_eq (hx : Runs x h j c) : ones x = ones h + (c + 1) := by
  obtain ⟨h0, -, h2, hle, -, hj, -⟩ := powers j c
  have hlow : ones ((2 ^ (c + 1) - 1) * 2 ^ j) = c + 1 := by
    have := ones_mul_add (2 ^ (c + 1) - 1) j (Nat.two_pow_pos j)
    rwa [add_zero, ones_zero, add_zero, ones_two_pow_sub_one] at this
  rw [hx.eq, ones_mul_add h (j + c + 2) (by rw [h0, h2]; omega), hlow]

theorem ones_nextMask (h j c : ℕ) : ones (nextMask h j c) = ones h + (c + 1) := by
  obtain ⟨h0, h1, -, -, hle, -, hpos⟩ := powers j c
  have hlow : ones (2 ^ (j + c + 1) + (2 ^ c - 1)) = c + 1 := by
    have := ones_mul_add 1 (j + c + 1) (b := 2 ^ c - 1) (by rw [h1]; omega)
    rw [one_mul, ones_two_pow_sub_one] at this
    rw [this, Foundations.ones_eq 1]
    norm_num [ones_zero]
    omega
  rw [nextMask, add_assoc, ones_mul_add h (j + c + 2) (by rw [h0, h1]; omega), hlow]

/-- No number in between has as many ones. -/
theorem ones_ne_of_between (hx : Runs x h j c) {z : ℕ} (hxz : x < z) (hzy : z < nextMask h j c) :
    ones z ≠ ones x := by
  intro heq
  obtain ⟨h0, h1, h2, hle, hlec, hj, hc⟩ := powers j c
  rw [hx.eq, h2] at hxz
  rw [nextMask] at hzy
  -- it has the same bits above the run
  obtain ⟨w, rfl⟩ : ∃ w, z = h * 2 ^ (j + c + 2) + w := ⟨z - h * 2 ^ (j + c + 2), by omega⟩
  rw [hx.ones_eq, ones_mul_add h (j + c + 2) (by rw [h0]; omega)] at heq
  by_cases hw : w < 2 ^ (j + c + 1)
  · obtain ⟨-, htop⟩ := add_two_pow_le (j + c + 1) hw
    have hexp : j + c + 1 - ones w = j := by omega
    rw [hexp, h1] at htop
    omega
  · obtain ⟨u, rfl⟩ : ∃ u, w = 1 * 2 ^ (j + c + 1) + u := ⟨w - 2 ^ (j + c + 1), by omega⟩
    have hone : ones 1 = 1 := by rw [Foundations.ones_eq]; norm_num [ones_zero]
    rw [ones_mul_add 1 (j + c + 1) (by rw [h1]; omega), hone] at heq
    have hlow := two_pow_ones_le u
    have hexp : ones u = c := by omega
    rw [hexp] at hlow
    omega

theorem lt_nextMask (hx : Runs x h j c) : x < nextMask h j c := by
  have hpos := Nat.two_pow_pos j
  rw [hx.nextMask_eq]
  omega

end Runs

/-! ## The masks in order -/

/-- The masks of `n` bits with `k` ones, from `x` on. -/
def masksFrom (n k x : ℕ) : List ℕ := (List.range' x (2 ^ n - x)).filter fun z => ones z = k

def masks (n k : ℕ) : List ℕ := masksFrom n k 0

theorem mem_masksFrom {n k x z : ℕ} : z ∈ masksFrom n k x ↔ x ≤ z ∧ z < 2 ^ n ∧ ones z = k := by
  rw [masksFrom, List.mem_filter, List.mem_range', decide_eq_true_eq]
  constructor
  · intro ⟨⟨i, hi, hz⟩, hk⟩
    omega
  · intro ⟨hx, hz, hk⟩
    exact ⟨⟨z - x, by omega, by omega⟩, hk⟩

theorem mem_masks {n k z : ℕ} : z ∈ masks n k ↔ z < 2 ^ n ∧ ones z = k := by
  simp [masks, mem_masksFrom]

theorem masksFrom_of_le {n k x : ℕ} (h : 2 ^ n ≤ x) : masksFrom n k x = [] := by
  rw [masksFrom, Nat.sub_eq_zero_of_le h]
  rfl

theorem masksFrom_cons {n k x : ℕ} (hx : x < 2 ^ n) (hk : ones x = k) :
    masksFrom n k x = x :: masksFrom n k (x + 1) := by
  have hlen : 2 ^ n - x = (2 ^ n - (x + 1)) + 1 := by omega
  rw [masksFrom, hlen, List.range'_succ, List.filter_cons_of_pos (by simpa using hk)]
  rfl

/-- Numbers with another number of ones are passed over. -/
theorem masksFrom_skip {n k x y : ℕ} (hxy : x ≤ y) (h : ∀ z, x ≤ z → z < y → ones z ≠ k) :
    masksFrom n k x = masksFrom n k y := by
  induction y, hxy using Nat.le_induction with
  | base => rfl
  | succ y hxy ih =>
    rw [ih fun z hz hzy => h z hz (by omega)]
    by_cases hy : y < 2 ^ n
    · have hlen : 2 ^ n - y = (2 ^ n - (y + 1)) + 1 := by omega
      rw [masksFrom, hlen, List.range'_succ,
        List.filter_cons_of_neg (by simpa using h y hxy (Nat.lt_succ_self y))]
      rfl
    · rw [masksFrom_of_le (by omega), masksFrom_of_le (by omega)]

/-- The first mask is the one with all ones at the bottom. -/
theorem masks_eq (n k : ℕ) : masks n k = masksFrom n k (2 ^ k - 1) := by
  refine masksFrom_skip (Nat.zero_le _) fun z _ hz heq => ?_
  have hle := two_pow_ones_le z
  rw [heq] at hle
  omega

theorem Runs.masksFrom_eq {n x h j c : ℕ} (hx : Runs x h j c) (hn : x < 2 ^ n) :
    masksFrom n (ones x) x = x :: masksFrom n (ones x) (nextMask h j c) := by
  rw [masksFrom_cons hn rfl]
  congr 1
  refine masksFrom_skip hx.lt_nextMask fun z hz hzy => hx.ones_ne_of_between (by omega) hzy

theorem masks_ne_nil {n k : ℕ} (h : k ≤ n) : masks n k ≠ [] := by
  have hle : 2 ^ k ≤ 2 ^ n := Nat.pow_le_pow_right (by decide) h
  have hpos := Nat.two_pow_pos k
  exact List.ne_nil_of_mem (mem_masks.mpr ⟨by omega, ones_two_pow_sub_one k⟩)

/-! ## The step in words -/

section Words

variable {w : ℕ} {x : BitVec w} {a j : ℕ}

theorem lt_of_odd (h : x.toNat = 2 ^ (j + 1) * a + 2 ^ j) : j < w := by
  have hle : 2 ^ j < 2 ^ w := by
    have := x.isLt
    omega
  exact (Nat.pow_lt_pow_iff_right (by decide)).mp hle

theorem getLsbD_of_odd (h : x.toNat = 2 ^ (j + 1) * a + 2 ^ j) (i : ℕ) :
    x.getLsbD i = (if i < j + 1 then decide (j = i) else a.testBit (i - (j + 1))) ∧
      (x - 1#w).getLsbD i = (if i < j + 1 then decide (i < j) else a.testBit (i - (j + 1))) := by
  have hpos := Nat.two_pow_pos j
  have hx : x.toNat < 2 ^ w := x.isLt
  have hone : (1#w).toNat = 1 := by
    have hw := Nat.one_lt_two_pow (Nat.ne_zero_of_lt (lt_of_odd h))
    rw [BitVec.toNat_ofNat, Nat.mod_eq_of_lt hw]
  have hsub : (x - 1#w).toNat = 2 ^ (j + 1) * a + (2 ^ j - 1) := by
    rw [BitVec.toNat_sub_of_le, hone, h]
    · omega
    · rw [BitVec.le_def, hone]
      omega
  rw [BitVec.getLsbD, BitVec.getLsbD, h, hsub, Nat.testBit_two_pow_mul_add _ (by rw [pow_succ]; omega),
    Nat.testBit_two_pow_mul_add _ (by rw [pow_succ]; omega), Nat.testBit_two_pow, Nat.testBit_two_pow_sub_one]
  exact ⟨rfl, rfl⟩

/-- A number and its negative share the lowest bit only. -/
theorem and_neg_of_odd (h : x.toNat = 2 ^ (j + 1) * a + 2 ^ j) :
    (x &&& (~~~x + 1#w)).toNat = 2 ^ j := by
  have hjw := lt_of_odd h
  have htwo : x &&& (~~~x + 1#w) = BitVec.twoPow w j := by
    rw [← BitVec.not_sub_one_eq_not_add_one]
    refine BitVec.eq_of_getLsbD_eq fun i hi => ?_
    obtain ⟨hxi, hsub⟩ := getLsbD_of_odd h i
    rw [BitVec.getLsbD_and, BitVec.getLsbD_not, hxi, hsub, BitVec.getLsbD_twoPow]
    split_ifs with hij
    · by_cases hji : j = i
      · simp [hji, hi]
      · simp [hji]
    · have hji : j ≠ i := by omega
      cases a.testBit (i - (j + 1)) <;> simp [hji]
  rw [htwo, BitVec.toNat_twoPow_of_lt hjw]

/-- Filling up below the lowest bit. -/
theorem or_sub_one_of_odd (h : x.toNat = 2 ^ (j + 1) * a + 2 ^ j) :
    (x ||| (x - 1#w)).toNat = 2 ^ (j + 1) * a + (2 ^ (j + 1) - 1) := by
  have hpos := Nat.two_pow_pos (j + 1)
  refine Nat.eq_of_testBit_eq fun i => ?_
  obtain ⟨hxi, hsub⟩ := getLsbD_of_odd h i
  have hor : (x ||| (x - 1#w)).toNat.testBit i = (x.getLsbD i || (x - 1#w).getLsbD i) := BitVec.getLsbD_or
  rw [hor, hxi, hsub, Nat.testBit_two_pow_mul_add _ (by omega), Nat.testBit_two_pow_sub_one]
  split_ifs with hij
  · have hsplit : j = i ∨ i < j := by omega
    simpa [hij] using hsplit
  · exact Bool.or_self _

theorem Runs.odd {n h j c : ℕ} (hn : Runs n h j c) :
    n = 2 ^ (j + 1) * (h * 2 ^ (c + 1) + (2 ^ c - 1)) + 2 ^ j := by
  have hpos := Nat.two_pow_pos c
  have hlow : 2 ^ (c + 1) - 1 = 2 * (2 ^ c - 1) + 1 := by
    rw [pow_succ]
    omega
  rw [hn.eq, hlow]
  ring

/-- Adding the lowest bit of a mask. -/
theorem Runs.add_lowest {n h j c : ℕ} (hn : Runs n h j c) :
    n + 2 ^ j = 2 ^ (j + c + 1 + 1) * h + 2 ^ (j + c + 1) := by
  obtain ⟨-, h1, h2, hle, -, -, -⟩ := Runs.powers j c
  have hcomm : 2 ^ (j + c + 1 + 1) * h = h * 2 ^ (j + c + 2) := mul_comm _ _
  rw [hn.eq, hcomm, h1, h2]
  omega

end Words

end ZaggCore.Foundations
