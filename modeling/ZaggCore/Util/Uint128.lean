import ZaggCore.Util.Numeric

/-! # Numbers of two words

The model of the class `uint128_t` of `lib/util`, and that its operators are those of the natural
numbers modulo `2 ^ 128`. Multiplication goes by parts of 32 bits, and division shifts the divisor up to
the dividend and back down. -/

namespace ZaggCore.Numeric
set_option autoImplicit false
set_option maxHeartbeats 250000

structure Uint128 where
  UPPER : BitVec 64
  LOWER : BitVec 64
  deriving DecidableEq, Repr

/-- A `bool` in a sum. -/
def flag (b : Bool) : BitVec 64 := if b then 1 else 0

namespace Uint128

/-- The constructor from one word. -/
def ofWord (rhs : BitVec 64) : Uint128 := ⟨0, rhs⟩

def uint128_0 : Uint128 := ofWord 0

def uint128_1 : Uint128 := ofWord 1

instance : Complement Uint128 := ⟨fun x => ⟨~~~x.UPPER, ~~~x.LOWER⟩⟩

instance : OrOp Uint128 := ⟨fun x rhs => ⟨x.UPPER ||| rhs.UPPER, x.LOWER ||| rhs.LOWER⟩⟩

instance : Add Uint128 :=
  ⟨fun x rhs => ⟨x.UPPER + rhs.UPPER + flag (x.LOWER + rhs.LOWER < x.LOWER), x.LOWER + rhs.LOWER⟩⟩

instance : Sub Uint128 :=
  ⟨fun x rhs => ⟨x.UPPER - rhs.UPPER - flag (x.LOWER - rhs.LOWER > x.LOWER), x.LOWER - rhs.LOWER⟩⟩

/-- `operator-` with a number of one word. -/
def subWord (x : Uint128) (rhs : BitVec 64) : Uint128 :=
  ⟨x.UPPER - flag (x.LOWER - rhs > x.LOWER), x.LOWER - rhs⟩

def lt (x rhs : Uint128) : Bool :=
  if x.UPPER = rhs.UPPER then x.LOWER < rhs.LOWER else x.UPPER < rhs.UPPER

def gt (x rhs : Uint128) : Bool :=
  if x.UPPER = rhs.UPPER then x.LOWER > rhs.LOWER else x.UPPER > rhs.UPPER

def ge (x rhs : Uint128) : Bool := gt x rhs || x == rhs

/-- `operator<=` with a number of one word. -/
def leWord (x : Uint128) (rhs : BitVec 64) : Bool :=
  (if x.UPPER = 0 then x.LOWER < rhs else false) || (x.UPPER == 0 && x.LOWER == rhs)

/-- The part `i` of 32 bits of the lower word (0, 1) or the upper one (2, 3). -/
def part (x : Uint128) : Fin 4 → BitVec 64
  | 0 => x.LOWER &&& 0xffffffff
  | 1 => x.LOWER >>> 32
  | 2 => x.UPPER &&& 0xffffffff
  | 3 => x.UPPER >>> 32

/-- The lower and the upper half of a product of parts. -/
def low (x : BitVec 64) : BitVec 64 := x &&& 0xffffffff

def high (x : BitVec 64) : BitVec 64 := x >>> 32

instance : Mul Uint128 where
  mul x rhs :=
    let product (i j : Fin 4) := x.part i * rhs.part j
    let fourth32 := low (product 0 0)
    let third32 := low (product 0 1) + high (product 0 0)
    let second32 := low (product 0 2) + high (product 0 1)
    let first32 := low (product 0 3) + high (product 0 2)
    -- second row
    let third32 := third32 + low (product 1 0)
    let second32 := second32 + (low (product 1 1) + high (product 1 0))
    let first32 := first32 + (low (product 1 2) + high (product 1 1))
    -- third row
    let second32 := second32 + low (product 2 0)
    let first32 := first32 + (low (product 2 1) + high (product 2 0))
    -- fourth row
    let first32 := first32 + low (product 3 0)
    ⟨first32 <<< 32, 0⟩ + ⟨third32 >>> 32, third32 <<< 32⟩ + ⟨second32, 0⟩ + ofWord fourth32

/-- `operator<<` for a number of bits. -/
def shiftLeft (x : Uint128) (shift : ℕ) : Uint128 :=
  if 128 ≤ shift then uint128_0
  else if shift = 64 then ⟨x.LOWER, 0⟩
  else if shift = 0 then x
  else if shift < 64 then ⟨(x.UPPER <<< shift) + (x.LOWER >>> (64 - shift)), x.LOWER <<< shift⟩
  else ⟨x.LOWER <<< (shift - 64), 0⟩

/-- `operator>>` by `uint128_1`. -/
def shiftRightOne (x : Uint128) : Uint128 :=
  ⟨x.UPPER >>> 1, (x.UPPER <<< 63) + (x.LOWER >>> 1)⟩

/-- The loop that counts the bits of a word. -/
def wordBits : ℕ → BitVec 64 → ℕ
  | 0, _ => 0
  | fuel + 1, word => if word = 0 then 0 else wordBits fuel (word >>> 1) + 1

def bits (x : Uint128) : ℕ := if x.UPPER ≠ 0 then 64 + wordBits 65 x.UPPER else wordBits 65 x.LOWER

/-- The loop of `divmod`; no value stands for one that goes on after `fuel` rounds. -/
def divmodLoop (rhs : Uint128) :
    ℕ → Uint128 × Uint128 → Uint128 → Uint128 → Option (Uint128 × Uint128)
  | 0, _, _, _ => none
  | fuel + 1, qr, copyd, adder =>
    if qr.2.ge rhs then
      let qr := if qr.2.ge copyd then (qr.1 ||| adder, qr.2 - copyd) else qr
      divmodLoop rhs fuel qr copyd.shiftRightOne adder.shiftRightOne
    else some qr

def divmod (lhs rhs : Uint128) : Except Exception (Uint128 × Uint128) :=
  if rhs = uint128_0 then throw (.runtime_error "Error: division or modulus by 0")
  else if rhs = uint128_1 then return (lhs, uint128_0)
  else if lhs = rhs then return (uint128_1, uint128_0)
  else if lhs = uint128_0 ∨ lhs.lt rhs then return (uint128_0, lhs)
  else
    let copyd := rhs.shiftLeft (lhs.bits - rhs.bits)
    let adder := uint128_1.shiftLeft (lhs.bits - rhs.bits)
    let shifted := if copyd.gt lhs then (copyd.shiftRightOne, adder.shiftRightOne) else (copyd, adder)
    match divmodLoop rhs 129 (uint128_0, lhs) shifted.1 shifted.2 with
    | some qr => return qr
    | none => throw (.other "divmod does not return")

/-- `operator/`. -/
def divide (x rhs : Uint128) : Except Exception Uint128 := return (← divmod x rhs).1

/-! ## What the numbers stand for -/

def val (x : Uint128) : ℕ := 2 ^ 64 * x.UPPER.toNat + x.LOWER.toNat

theorem val_lt (x : Uint128) : x.val < 2 ^ 128 := by
  have hupper := x.UPPER.isLt
  have hlower := x.LOWER.isLt
  unfold val
  omega

theorem val_injective {x y : Uint128} (h : x.val = y.val) : x = y := by
  obtain ⟨xu, xl⟩ := x
  obtain ⟨yu, yl⟩ := y
  have hx := xl.isLt
  have hy := yl.isLt
  dsimp only [val] at h
  have hupper : xu = yu := BitVec.eq_of_toNat_eq (by omega)
  have hlower : xl = yl := BitVec.eq_of_toNat_eq (by omega)
  rw [hupper, hlower]

@[simp] theorem val_ofWord (rhs : BitVec 64) : (ofWord rhs).val = rhs.toNat := by
  show 2 ^ 64 * 0 + rhs.toNat = rhs.toNat
  omega

@[simp] theorem val_zero : uint128_0.val = 0 := rfl

@[simp] theorem val_one : uint128_1.val = 1 := rfl

theorem toNat_flag (b : Bool) : (flag b).toNat = if b then 1 else 0 := by
  cases b <;> rfl

theorem val_not (x : Uint128) : (~~~x).val = 2 ^ 128 - 1 - x.val := by
  have hupper := x.UPPER.isLt
  have hlower := x.LOWER.isLt
  show 2 ^ 64 * (~~~x.UPPER).toNat + (~~~x.LOWER).toNat = _
  rw [BitVec.toNat_not, BitVec.toNat_not, val]
  omega

theorem val_add (x y : Uint128) : (x + y).val = (x.val + y.val) % 2 ^ 128 := by
  have hxl := x.LOWER.isLt
  have hyl := y.LOWER.isLt
  show 2 ^ 64 * (x.UPPER + y.UPPER + flag (x.LOWER + y.LOWER < x.LOWER)).toNat +
    (x.LOWER + y.LOWER).toNat = _
  simp only [BitVec.toNat_add, toNat_flag, decide_eq_true_eq, BitVec.lt_def, val]
  split
  · omega
  · omega

theorem val_sub (x y : Uint128) : (x - y).val = (x.val + (2 ^ 128 - y.val)) % 2 ^ 128 := by
  have hxl := x.LOWER.isLt
  have hyl := y.LOWER.isLt
  have hyu := y.UPPER.isLt
  show 2 ^ 64 * (x.UPPER - y.UPPER - flag (x.LOWER - y.LOWER > x.LOWER)).toNat +
    (x.LOWER - y.LOWER).toNat = _
  simp only [BitVec.toNat_sub, toNat_flag, decide_eq_true_eq, gt_iff_lt, BitVec.lt_def, val]
  split
  · omega
  · omega

theorem val_subWord (x : Uint128) (rhs : BitVec 64) : x.subWord rhs = x - ofWord rhs := by
  have hzero : x.UPPER - 0 = x.UPPER := BitVec.sub_zero _
  show (⟨x.UPPER - flag _, _⟩ : Uint128) = ⟨x.UPPER - 0 - flag _, _⟩
  rw [hzero]
  rfl

theorem lt_iff (x y : Uint128) : x.lt y = true ↔ x.val < y.val := by
  have hxl := x.LOWER.isLt
  have hyl := y.LOWER.isLt
  unfold lt val
  split
  · next h =>
    rw [decide_eq_true_eq, BitVec.lt_def, h]
    omega
  · next h =>
    have hne : x.UPPER.toNat ≠ y.UPPER.toNat := fun h' => h (BitVec.eq_of_toNat_eq h')
    rw [decide_eq_true_eq, BitVec.lt_def]
    omega

theorem gt_iff (x y : Uint128) : x.gt y = true ↔ y.val < x.val := by
  have hsymm : x.gt y = y.lt x := by
    unfold gt lt
    by_cases h : x.UPPER = y.UPPER
    · rw [if_pos h, if_pos h.symm]
    · rw [if_neg h, if_neg (Ne.symm h)]
  rw [hsymm, lt_iff]

theorem ge_iff (x y : Uint128) : x.ge y = true ↔ y.val ≤ x.val := by
  unfold ge
  rw [Bool.or_eq_true, gt_iff, beq_iff_eq]
  constructor
  · rintro (h | rfl)
    · exact h.le
    · exact le_rfl
  · intro h
    rcases Nat.lt_or_eq_of_le h with h | h
    · exact .inl h
    · exact .inr (val_injective h.symm)

theorem leWord_iff (x : Uint128) (rhs : BitVec 64) : x.leWord rhs = true ↔ x.val ≤ rhs.toNat := by
  have hrhs := rhs.isLt
  unfold leWord val
  by_cases h : x.UPPER = 0
  · have hupper : x.UPPER.toNat = 0 := by rw [h]; rfl
    simp only [h, if_true, Bool.or_eq_true, decide_eq_true_eq, Bool.and_eq_true, beq_iff_eq, true_and,
      BitVec.lt_def]
    rw [← BitVec.toNat_inj]
    show _ ↔ 2 ^ 64 * 0 + x.LOWER.toNat ≤ rhs.toNat
    omega
  · have hupper : x.UPPER.toNat ≠ 0 := fun h' => h (BitVec.eq_of_toNat_eq h')
    simp only [h, if_false, Bool.false_or, Bool.and_eq_true, beq_iff_eq, false_and, false_iff]
    omega

/-! ## Multiplication -/

theorem toNat_low (x : BitVec 64) : (low x).toNat = x.toNat % 2 ^ 32 := by
  unfold low
  rw [BitVec.toNat_and]
  exact Nat.and_two_pow_sub_one_eq_mod x.toNat 32

theorem toNat_high (x : BitVec 64) : (high x).toNat = x.toNat / 2 ^ 32 := by
  unfold high
  rw [BitVec.toNat_ushiftRight, Nat.shiftRight_eq_div_pow]

theorem part_lt (x : Uint128) (i : Fin 4) : (x.part i).toNat < 2 ^ 32 := by
  have hupper := x.UPPER.isLt
  have hlower := x.LOWER.isLt
  fin_cases i
  · exact (toNat_low x.LOWER).trans_lt (Nat.mod_lt _ (by decide))
  · exact (toNat_high x.LOWER).trans_lt (by omega)
  · exact (toNat_low x.UPPER).trans_lt (Nat.mod_lt _ (by decide))
  · exact (toNat_high x.UPPER).trans_lt (by omega)

theorem val_eq_parts (x : Uint128) : x.val = (x.part 0).toNat + 2 ^ 32 * (x.part 1).toNat +
    2 ^ 64 * (x.part 2).toNat + 2 ^ 96 * (x.part 3).toNat := by
  have h0 : (x.part 0).toNat = x.LOWER.toNat % 2 ^ 32 := toNat_low x.LOWER
  have h1 : (x.part 1).toNat = x.LOWER.toNat / 2 ^ 32 := toNat_high x.LOWER
  have h2 : (x.part 2).toNat = x.UPPER.toNat % 2 ^ 32 := toNat_low x.UPPER
  have h3 : (x.part 3).toNat = x.UPPER.toNat / 2 ^ 32 := toNat_high x.UPPER
  unfold val
  omega

/-- A product of parts is a word. -/
theorem toNat_product (x y : Uint128) (i j : Fin 4) :
    (x.part i * y.part j).toNat = (x.part i).toNat * (y.part j).toNat := by
  have hlt : (x.part i).toNat * (y.part j).toNat < 2 ^ 32 * 2 ^ 32 :=
    Nat.mul_lt_mul'' (part_lt x i) (part_lt y j)
  rw [BitVec.toNat_mul, Nat.mod_eq_of_lt (by omega)]

theorem val_mul_parts (x y : Uint128) : ∃ rest,
    x.val * y.val = (x.part 0).toNat * (y.part 0).toNat +
      2 ^ 32 * ((x.part 0).toNat * (y.part 1).toNat + (x.part 1).toNat * (y.part 0).toNat) +
      2 ^ 64 * ((x.part 0).toNat * (y.part 2).toNat + (x.part 1).toNat * (y.part 1).toNat +
        (x.part 2).toNat * (y.part 0).toNat) +
      2 ^ 96 * ((x.part 0).toNat * (y.part 3).toNat + (x.part 1).toNat * (y.part 2).toNat +
        (x.part 2).toNat * (y.part 1).toNat + (x.part 3).toNat * (y.part 0).toNat) +
      2 ^ 128 * rest := by
  refine ⟨(x.part 1).toNat * (y.part 3).toNat + (x.part 2).toNat * (y.part 2).toNat +
    (x.part 3).toNat * (y.part 1).toNat + 2 ^ 32 * ((x.part 2).toNat * (y.part 3).toNat +
    (x.part 3).toNat * (y.part 2).toNat) + 2 ^ 64 * ((x.part 3).toNat * (y.part 3).toNat), ?_⟩
  rw [val_eq_parts x, val_eq_parts y]
  ring

/-- The four columns, put together. -/
theorem val_columns (first second third fourth : BitVec 64) :
    (⟨first <<< 32, 0⟩ + ⟨third >>> 32, third <<< 32⟩ + ⟨second, 0⟩ + ofWord fourth : Uint128).val =
      (2 ^ 96 * first.toNat + 2 ^ 32 * third.toNat + 2 ^ 64 * second.toNat + fourth.toNat) % 2 ^ 128 := by
  have hthird := third.isLt
  have h1 : (⟨first <<< 32, 0⟩ : Uint128).val = 2 ^ 96 * first.toNat % 2 ^ 128 := by
    show 2 ^ 64 * (first <<< 32).toNat + 0 = _
    rw [BitVec.toNat_shiftLeft, Nat.shiftLeft_eq]
    omega
  have h2 : (⟨third >>> 32, third <<< 32⟩ : Uint128).val = 2 ^ 32 * third.toNat := by
    show 2 ^ 64 * (third >>> 32).toNat + (third <<< 32).toNat = _
    rw [BitVec.toNat_shiftLeft, BitVec.toNat_ushiftRight, Nat.shiftLeft_eq, Nat.shiftRight_eq_div_pow]
    omega
  have h3 : (⟨second, 0⟩ : Uint128).val = 2 ^ 64 * second.toNat := rfl
  rw [val_add, val_add, val_add, h1, h2, h3, val_ofWord]
  omega

theorem val_mul (x y : Uint128) : (x * y).val = x.val * y.val % 2 ^ 128 := by
  obtain ⟨rest, hrest⟩ := val_mul_parts x y
  refine (val_columns _ _ _ _).trans ?_
  have hlow : ∀ i j, (low (x.part i * y.part j)).toNat =
      (x.part i).toNat * (y.part j).toNat % 2 ^ 32 := fun i j => by rw [toNat_low, toNat_product]
  have hhigh : ∀ i j, (high (x.part i * y.part j)).toNat =
      (x.part i).toNat * (y.part j).toNat / 2 ^ 32 := fun i j => by rw [toNat_high, toNat_product]
  have hlt : ∀ i j, (x.part i).toNat * (y.part j).toNat < 2 ^ 64 := fun i j => by
    rw [← toNat_product]
    exact BitVec.isLt _
  have h00 := hlt 0 0
  have h01 := hlt 0 1
  have h10 := hlt 1 0
  have h02 := hlt 0 2
  have h11 := hlt 1 1
  have h20 := hlt 2 0
  simp only [BitVec.toNat_add, hlow, hhigh]
  rw [hrest]
  omega

/-! ## Shifts -/

theorem val_shiftRightOne (x : Uint128) : x.shiftRightOne.val = x.val / 2 := by
  have hlower := x.LOWER.isLt
  show 2 ^ 64 * (x.UPPER >>> 1).toNat + ((x.UPPER <<< 63) + (x.LOWER >>> 1)).toNat = _
  rw [BitVec.toNat_add, BitVec.toNat_shiftLeft, BitVec.toNat_ushiftRight, BitVec.toNat_ushiftRight,
    Nat.shiftLeft_eq, Nat.shiftRight_eq_div_pow, Nat.shiftRight_eq_div_pow, val]
  omega

/-- The bits that a shifted word carries over. -/
theorem shiftLeft_word (word : BitVec 64) {shift : ℕ} (h : shift < 64) :
    2 ^ 64 * (word >>> (64 - shift)).toNat + (word <<< shift).toNat = word.toNat * 2 ^ shift := by
  have hpow : 2 ^ 64 = 2 ^ (64 - shift) * 2 ^ shift := by
    rw [← pow_add, Nat.sub_add_cancel h.le]
  have hdiv : word.toNat / 2 ^ (64 - shift) = word.toNat * 2 ^ shift / 2 ^ 64 := by
    rw [hpow, Nat.mul_div_mul_right _ _ (Nat.two_pow_pos shift)]
  rw [BitVec.toNat_shiftLeft, BitVec.toNat_ushiftRight, Nat.shiftLeft_eq, Nat.shiftRight_eq_div_pow, hdiv]
  exact Nat.div_add_mod _ _

theorem val_shiftLeft (x : Uint128) {shift : ℕ} (hlt : x.val * 2 ^ shift < 2 ^ 128) (hshift : shift < 128) :
    (x.shiftLeft shift).val = x.val * 2 ^ shift := by
  have hmul : x.val * 2 ^ shift = 2 ^ 64 * (x.UPPER.toNat * 2 ^ shift) + x.LOWER.toNat * 2 ^ shift := by
    unfold val
    ring
  unfold shiftLeft
  rw [if_neg (by omega)]
  split
  · next h64 =>
    subst h64
    show 2 ^ 64 * x.LOWER.toNat + 0 = _
    omega
  · next h64 =>
    split
    · next h0 =>
      subst h0
      rw [pow_zero, mul_one]
    · next h0 =>
      split
      · next hlow =>
        have hword := shiftLeft_word x.LOWER hlow
        show 2 ^ 64 * ((x.UPPER <<< shift) + (x.LOWER >>> (64 - shift))).toNat + (x.LOWER <<< shift).toNat = _
        have hupper : (x.UPPER <<< shift).toNat = x.UPPER.toNat * 2 ^ shift := by
          rw [BitVec.toNat_shiftLeft, Nat.shiftLeft_eq, Nat.mod_eq_of_lt (by omega)]
        rw [BitVec.toNat_add, hupper, Nat.mod_eq_of_lt (by omega)]
        omega
      · next hlow =>
        obtain ⟨k, rfl⟩ : ∃ k, shift = k + 64 := ⟨shift - 64, by omega⟩
        have hpow : 2 ^ (k + 64) = 2 ^ 64 * 2 ^ k := by rw [pow_add, mul_comm]
        have hlower : x.LOWER.toNat * 2 ^ (k + 64) = 2 ^ 64 * (x.LOWER.toNat * 2 ^ k) := by
          rw [hpow]
          ring
        have hzero : x.UPPER.toNat * 2 ^ (k + 64) = 0 := by
          have hpos := Nat.two_pow_pos k
          by_contra hne
          have hupper : 0 < x.UPPER.toNat := Nat.pos_of_ne_zero fun h => hne (by rw [h, zero_mul])
          have hle : 1 * (2 ^ 64 * 1) ≤ x.UPPER.toNat * (2 ^ 64 * 2 ^ k) :=
            Nat.mul_le_mul hupper (Nat.mul_le_mul_left _ hpos)
          rw [← hpow] at hle
          omega
        show 2 ^ 64 * (x.LOWER <<< (k + 64 - 64)).toNat + 0 = _
        rw [Nat.add_sub_cancel, BitVec.toNat_shiftLeft, Nat.shiftLeft_eq, Nat.mod_eq_of_lt (by omega)]
        omega

theorem wordBits_spec (fuel : ℕ) {word : BitVec 64} (h : word.toNat < 2 ^ fuel) :
    word.toNat < 2 ^ wordBits fuel word ∧ (word ≠ 0 → 2 ^ wordBits fuel word ≤ 2 * word.toNat) := by
  induction fuel generalizing word with
  | zero =>
    have hzero : word = 0 := BitVec.eq_of_toNat_eq (by simpa using h)
    exact ⟨h, fun hne => absurd hzero hne⟩
  | succ fuel ih =>
    have hhalf : (word >>> 1).toNat = word.toNat / 2 := by
      rw [BitVec.toNat_ushiftRight, Nat.shiftRight_eq_div_pow, pow_one]
    have hpow : 2 ^ (fuel + 1) = 2 * 2 ^ fuel := pow_succ' 2 fuel
    rw [wordBits]
    split
    · next hzero =>
      subst hzero
      exact ⟨by decide, fun hne => absurd rfl hne⟩
    · next hne =>
      have hpos : word.toNat ≠ 0 := fun h' => hne (BitVec.eq_of_toNat_eq h')
      obtain ⟨hlt, hle⟩ := ih (show (word >>> 1).toNat < 2 ^ fuel by omega)
      have hsucc : 2 ^ (wordBits fuel (word >>> 1) + 1) = 2 * 2 ^ wordBits fuel (word >>> 1) :=
        pow_succ' 2 _
      refine ⟨by omega, fun _ => ?_⟩
      by_cases hone : word >>> 1 = 0
      · have hbits : wordBits fuel (word >>> 1) = 0 := by
          rw [hone]
          cases fuel <;> rfl
        rw [hbits]
        omega
      · have := hle hone
        omega

theorem bits_spec {x : Uint128} (hx : x.val ≠ 0) : x.val < 2 ^ x.bits ∧ 2 ^ x.bits ≤ 2 * x.val := by
  have hupper := x.UPPER.isLt
  have hlower := x.LOWER.isLt
  have hlt : ∀ word : BitVec 64, word.toNat < 2 ^ 65 := fun word => word.isLt.trans (by decide)
  unfold bits
  split
  · next h =>
    obtain ⟨hbits, hle⟩ := wordBits_spec 65 (hlt x.UPPER)
    have hle := hle h
    rw [pow_add]
    unfold val
    omega
  · next h =>
    obtain ⟨hbits, hle⟩ := wordBits_spec 65 (hlt x.LOWER)
    have hzero : x.UPPER.toNat = 0 := by rw [not_not.mp h]; rfl
    have hne : x.LOWER ≠ 0 := by
      intro h0
      have : x.LOWER.toNat = 0 := by rw [h0]; rfl
      unfold val at hx
      omega
    have hle := hle hne
    unfold val
    omega

/-! ## Division -/

theorem val_or (x y : Uint128) : (x ||| y).val = x.val ||| y.val := by
  show 2 ^ 64 * (x.UPPER ||| y.UPPER).toNat + (x.LOWER ||| y.LOWER).toNat = _
  rw [BitVec.toNat_or, BitVec.toNat_or]
  refine Nat.eq_of_testBit_eq fun i => ?_
  have hor := Nat.or_lt_two_pow x.LOWER.isLt y.LOWER.isLt
  rw [Nat.testBit_or, val, val, Nat.testBit_two_pow_mul_add _ hor,
    Nat.testBit_two_pow_mul_add _ x.LOWER.isLt, Nat.testBit_two_pow_mul_add _ y.LOWER.isLt]
  split
  · rw [Nat.testBit_or]
  · rw [Nat.testBit_or]

/-- With the shift `k` the quotient has no bit up to `k` yet, and what is left is below the divisor
shifted once more. -/
structure Dividing (lhs rhs : Uint128) (k : ℕ) (qr : Uint128 × Uint128) (copyd adder : Uint128) :
    Prop where
  copyd_eq : copyd.val = rhs.val * 2 ^ k
  adder_eq : adder.val = 2 ^ k
  bits : ∃ q, qr.1.val = 2 ^ (k + 1) * q
  sum : qr.1.val * rhs.val + qr.2.val = lhs.val
  rest : qr.2.val < rhs.val * 2 ^ (k + 1)

/-- One round sets the bit `k` or finds it to be none of the quotient's. -/
theorem Dividing.round {lhs rhs copyd adder : Uint128} {k : ℕ} {qr : Uint128 × Uint128}
    (h : Dividing lhs rhs k qr copyd adder) {next : Uint128 × Uint128}
    (hnext : (if qr.2.ge copyd then (qr.1 ||| adder, qr.2 - copyd) else qr) = next) :
    (∃ q, next.1.val = 2 ^ k * q) ∧ next.1.val * rhs.val + next.2.val = lhs.val ∧
      next.2.val < rhs.val * 2 ^ k := by
  obtain ⟨q, hq⟩ := h.bits
  have hcopyd := copyd.val_lt
  have hrest := qr.2.val_lt
  have hpow : 2 ^ (k + 1) = 2 * 2 ^ k := pow_succ' 2 k
  have hlt := h.rest
  have hsum := h.sum
  subst hnext
  split
  · next hge =>
    rw [ge_iff, h.copyd_eq] at hge
    have hor : (qr.1 ||| adder).val = qr.1.val + 2 ^ k := by
      have hlow : 2 ^ k < 2 ^ (k + 1) := Nat.pow_lt_pow_right (by decide) (Nat.lt_succ_self k)
      rw [val_or, h.adder_eq, hq, ← Nat.two_pow_add_eq_or_of_lt hlow]
    have hsub : (qr.2 - copyd).val = qr.2.val - rhs.val * 2 ^ k := by
      rw [val_sub, h.copyd_eq]
      rw [h.copyd_eq] at hcopyd
      omega
    have hdouble : rhs.val * 2 ^ (k + 1) = 2 * (rhs.val * 2 ^ k) := by
      rw [hpow]
      ring
    refine ⟨⟨2 * q + 1, ?_⟩, ?_, ?_⟩
    · dsimp only
      rw [hor, hq, hpow]
      ring
    · dsimp only
      rw [hor, hsub, Nat.add_mul, Nat.mul_comm (2 ^ k)]
      omega
    · dsimp only
      rw [hsub]
      omega
  · next hge =>
    rw [ge_iff, h.copyd_eq] at hge
    refine ⟨⟨2 * q, ?_⟩, hsum, not_le.mp hge⟩
    rw [hq, hpow]
    ring

/-- The loop ends, with the quotient and the remainder. -/
theorem divmodLoop_spec {lhs rhs : Uint128} {fuel k : ℕ} (hfuel : k + 2 ≤ fuel)
    {qr : Uint128 × Uint128} {copyd adder : Uint128} (h : Dividing lhs rhs k qr copyd adder) :
    ∃ out, divmodLoop rhs fuel qr copyd adder = some out ∧
      out.1.val * rhs.val + out.2.val = lhs.val ∧ out.2.val < rhs.val := by
  induction k generalizing fuel qr copyd adder with
  | zero =>
    obtain ⟨fuel, rfl⟩ : ∃ f, fuel = f + 1 + 1 := ⟨fuel - 2, by omega⟩
    rw [divmodLoop]
    split
    · next hge =>
      obtain ⟨next, hnext⟩ : ∃ next,
        (if qr.2.ge copyd then (qr.1 ||| adder, qr.2 - copyd) else qr) = next := ⟨_, rfl⟩
      obtain ⟨-, hsum, hlt⟩ := h.round hnext
      rw [pow_zero, mul_one] at hlt
      have hdone : ¬ next.2.ge rhs = true := by
        rw [ge_iff]
        omega
      rw [hnext, divmodLoop, if_neg hdone]
      exact ⟨next, rfl, hsum, hlt⟩
    · next hge =>
      rw [ge_iff] at hge
      exact ⟨qr, rfl, h.sum, not_le.mp hge⟩
  | succ k ih =>
    obtain ⟨fuel, rfl⟩ : ∃ f, fuel = f + 1 := ⟨fuel - 1, by omega⟩
    rw [divmodLoop]
    split
    · next hge =>
      obtain ⟨next, hnext⟩ : ∃ next,
        (if qr.2.ge copyd then (qr.1 ||| adder, qr.2 - copyd) else qr) = next := ⟨_, rfl⟩
      obtain ⟨hbits, hsum, hlt⟩ := h.round hnext
      rw [hnext]
      refine ih (by omega) ⟨?_, ?_, hbits, hsum, hlt⟩
      · rw [val_shiftRightOne, h.copyd_eq, pow_succ, ← mul_assoc, Nat.mul_div_cancel _ (by decide)]
      · rw [val_shiftRightOne, h.adder_eq, pow_succ, Nat.mul_div_cancel _ (by decide)]
    · next hge =>
      rw [ge_iff] at hge
      exact ⟨qr, rfl, h.sum, not_le.mp hge⟩

/-- Where the loop starts. -/
theorem dividing_start {lhs rhs : Uint128} (hrhs : rhs.val ≠ 0) (hle : rhs.val ≤ lhs.val)
    {shift : ℕ} (hshift : lhs.bits - rhs.bits = shift) {shifted : Uint128 × Uint128}
    (hshifted : (if (rhs.shiftLeft shift).gt lhs then
      ((rhs.shiftLeft shift).shiftRightOne, (uint128_1.shiftLeft shift).shiftRightOne)
      else (rhs.shiftLeft shift, uint128_1.shiftLeft shift)) = shifted) :
    ∃ k, k + 2 ≤ 129 ∧ Dividing lhs rhs k (uint128_0, lhs) shifted.1 shifted.2 := by
  obtain ⟨hlhslt, hlhsle⟩ := bits_spec (x := lhs) (by omega)
  obtain ⟨hrhslt, hrhsle⟩ := bits_spec hrhs
  have hlhs128 := lhs.val_lt
  have hbits : rhs.bits ≤ lhs.bits := by
    by_contra hlt
    have hpow : 2 ^ (lhs.bits + 1) ≤ 2 ^ rhs.bits := Nat.pow_le_pow_right (by decide) (by omega)
    rw [pow_succ] at hpow
    omega
  have hbits128 : lhs.bits ≤ 128 := by
    by_contra hlt
    have hpow : 2 ^ 129 ≤ 2 ^ lhs.bits := Nat.pow_le_pow_right (by decide) (by omega)
    omega
  have hbits0 : rhs.bits ≠ 0 := by
    intro h0
    rw [h0] at hrhslt
    omega
  have hsplit : 2 ^ lhs.bits = 2 ^ rhs.bits * 2 ^ shift := by
    rw [← pow_add, ← hshift, Nat.add_sub_cancel' hbits]
  have hpos := Nat.two_pow_pos shift
  have hfits : rhs.val * 2 ^ shift < 2 ^ 128 := calc
    rhs.val * 2 ^ shift < 2 ^ rhs.bits * 2 ^ shift := Nat.mul_lt_mul_of_pos_right hrhslt hpos
    _ = 2 ^ lhs.bits := hsplit.symm
    _ ≤ 2 ^ 128 := Nat.pow_le_pow_right (by decide) hbits128
  have hone : uint128_1.val * 2 ^ shift < 2 ^ 128 := by
    refine lt_of_le_of_lt (Nat.mul_le_mul_right _ ?_) hfits
    exact Nat.one_le_iff_ne_zero.mpr hrhs
  have hcopyd := val_shiftLeft rhs hfits (by omega)
  have hadder := val_shiftLeft uint128_1 hone (by omega)
  rw [val_one, one_mul] at hadder
  have hrest : lhs.val < rhs.val * 2 ^ (shift + 1) := calc
    lhs.val < 2 ^ rhs.bits * 2 ^ shift := hsplit ▸ hlhslt
    _ ≤ 2 * rhs.val * 2 ^ shift := Nat.mul_le_mul_right _ hrhsle
    _ = rhs.val * 2 ^ (shift + 1) := by ring
  have hsum : uint128_0.val * rhs.val + lhs.val = lhs.val := by rw [val_zero, zero_mul, zero_add]
  subst hshifted
  split
  · next hgt =>
    rw [gt_iff, hcopyd] at hgt
    obtain ⟨k, rfl⟩ : ∃ k, shift = k + 1 := by
      refine Nat.exists_eq_succ_of_ne_zero fun h0 => ?_
      rw [h0, pow_zero, mul_one] at hgt
      omega
    refine ⟨k, by omega, ⟨?_, ?_, ⟨0, rfl⟩, hsum, hgt⟩⟩
    · rw [val_shiftRightOne, hcopyd, pow_succ, ← mul_assoc, Nat.mul_div_cancel _ (by decide)]
    · rw [val_shiftRightOne, hadder, pow_succ, Nat.mul_div_cancel _ (by decide)]
  · exact ⟨shift, by omega, ⟨hcopyd, hadder, ⟨0, rfl⟩, hsum, hrest⟩⟩

theorem divmod_spec (lhs : Uint128) {rhs : Uint128} (hrhs : rhs.val ≠ 0) :
    ∃ qr, divmod lhs rhs = .ok qr ∧ qr.1.val = lhs.val / rhs.val ∧ qr.2.val = lhs.val % rhs.val := by
  have hne : rhs ≠ uint128_0 := fun h => hrhs (by rw [h]; rfl)
  unfold divmod
  rw [if_neg hne]
  split
  · next h1 =>
    subst h1
    exact ⟨_, rfl, (Nat.div_one _).symm, (Nat.mod_one _).symm⟩
  · split
    · next heq =>
      subst heq
      exact ⟨_, rfl, (Nat.div_self (Nat.pos_of_ne_zero hrhs)).symm, (Nat.mod_self _).symm⟩
    · split
      · next hsmall =>
        have hlt : lhs.val < rhs.val := by
          rcases hsmall with rfl | hlt
          · exact Nat.pos_of_ne_zero hrhs
          · exact (lt_iff _ _).mp hlt
        exact ⟨_, rfl, (Nat.div_eq_of_lt hlt).symm, (Nat.mod_eq_of_lt hlt).symm⟩
      · next hsmall =>
        have hle : rhs.val ≤ lhs.val := not_lt.mp fun hlt => hsmall (.inr ((lt_iff _ _).mpr hlt))
        obtain ⟨k, hfuel, hstart⟩ := dividing_start hrhs hle rfl rfl
        obtain ⟨out, hout, hsum, hlt⟩ := divmodLoop_spec hfuel hstart
        dsimp only
        rw [hout]
        rw [add_comm, mul_comm] at hsum
        obtain ⟨hdiv, hmod⟩ := (Nat.div_mod_unique (Nat.pos_of_ne_zero hrhs)).mpr ⟨hsum, hlt⟩
        exact ⟨out, rfl, hdiv.symm, hmod.symm⟩

/-- Division by a number other than 0 returns the quotient. -/
theorem divide_spec {x rhs : Uint128} (hrhs : rhs.val ≠ 0) :
    ∃ q, divide x rhs = .ok q ∧ q.val = x.val / rhs.val := by
  obtain ⟨qr, hqr, hq, -⟩ := divmod_spec x hrhs
  refine ⟨qr.1, ?_, hq⟩
  unfold divide
  rw [hqr]
  rfl

end Uint128

end ZaggCore.Numeric
