import Mathlib

/-! # 64-bit amounts

The model of `util/numeric.cpp` and of `addBalance` of `util/types.cpp`, with the ways a call of the
transaction code can end other than by returning. An `int64_t` is an integer and an `uint128_t` a
natural number; the products and sums below stay in their range. -/

namespace ZaggCore.Numeric
set_option autoImplicit false
set_option maxHeartbeats 250000

/-- What is thrown. A failed `assert` and an `abort` end the process. -/
inductive Exception where
  | runtime_error (what : String)
  | InvariantDoesNotHold
  | other (what : String)
  | abort (condition : String)
  deriving DecidableEq, Repr

def INT64_MAX : ℤ := 2 ^ 63 - 1

/-- `assert` with the text of its condition. -/
def assert (p : Prop) [Decidable p] (condition : String) : Except Exception Unit :=
  if p then .ok () else .error (.abort condition)

/-- `if (p) throw e` -/
def throwIf (p : Prop) [Decidable p] (e : Exception) : Except Exception Unit :=
  if p then .error e else .ok ()

/-- The conversion to `int64_t`. -/
def toInt64 (x : ℤ) : ℤ := Int.bmod x (2 ^ 64)

/-- The conversion to `int`. -/
def toInt32 (x : ℤ) : ℤ := Int.bmod x (2 ^ 32)

inductive Rounding where
  | ROUND_DOWN
  | ROUND_UP
  deriving DecidableEq, Repr

/-- The quotient in the direction of the rounding. -/
def Rounding.divide (rounding : Rounding) (a b : ℕ) : ℕ :=
  match rounding with
  | .ROUND_DOWN => a / b
  | .ROUND_UP => (a + b - 1) / b

/-- The overloads that return whether the result fits; no value stands for `false`. -/
def bigDivideFits (A B C : ℤ) (rounding : Rounding) : Except Exception (Option ℤ) := do
  assert (0 ≤ A ∧ 0 ≤ B ∧ 0 < C) "(A >= 0) && (B >= 0) && (C > 0)"
  let x : ℤ := rounding.divide (A.toNat * B.toNat) C.toNat
  return if x ≤ INT64_MAX then some x else none

/-- The overload that throws. -/
def bigDivide (A B C : ℤ) (rounding : Rounding) : Except Exception ℤ := do
  match ← bigDivideFits A B C rounding with
  | some res => return res
  | none => throw (.runtime_error "overflow while performing bigDivide")

/-- The overload with a 128-bit dividend; rounding up gives up where `a + b - 1` would overflow. -/
def bigDivide128 (a : ℕ) (B : ℤ) (rounding : Rounding) : Except Exception ℤ := do
  assert (0 < B) "B > 0"
  let x : ℤ := rounding.divide a B.toNat
  throwIf ((rounding = .ROUND_UP ∧ 2 ^ 128 - 1 - (B.toNat - 1) < a) ∨ INT64_MAX < x)
    (.runtime_error "overflow while performing bigDivide")
  return x

def bigMultiply (a b : ℤ) : Except Exception ℕ := do
  assert (0 ≤ a ∧ 0 ≤ b) "(a >= 0) && (b >= 0)"
  return a.toNat * b.toNat

/-- `addBalance` of `util/types.cpp`: the new balance, or no value where the call returns `false`. -/
def addBalance (balance delta : ℤ) (maxBalance : ℤ) : Except Exception (Option ℤ) := do
  assert (0 ≤ balance) "balance >= 0"
  assert (0 ≤ maxBalance) "maxBalance >= 0"
  return if delta = 0 then some balance
    else if delta < -balance then none
    else if maxBalance - balance < delta then none
    else some (balance + delta)

theorem throwIf_ok {p : Prop} [Decidable p] {e : Exception} {u : Unit} :
    throwIf p e = .ok u ↔ ¬ p := by
  unfold throwIf
  split_ifs with h <;> simp [h]

theorem assert_ok {p : Prop} [Decidable p] {condition : String} {u : Unit} :
    assert p condition = .ok u ↔ p := by
  unfold assert
  split_ifs with h <;> simp [h]

/-! ## Sums in 64 bits -/

def FitsInt64 (x : ℤ) : Prop := -2 ^ 63 ≤ x ∧ x ≤ INT64_MAX

instance (x : ℤ) : Decidable (FitsInt64 x) := by
  unfold FitsInt64
  infer_instance

theorem fitsInt64_toInt64 (x : ℤ) : FitsInt64 (toInt64 x) := by
  have hlow : -((2 ^ 64 : ℕ) / 2 : ℤ) ≤ toInt64 x := Int.le_bmod (by decide)
  have hhigh : toInt64 x < ((2 ^ 64 : ℕ) + 1) / 2 := Int.bmod_lt (by decide)
  unfold FitsInt64 INT64_MAX
  omega

theorem toInt64_eq {x : ℤ} (h : FitsInt64 x) : toInt64 x = x := by
  unfold FitsInt64 INT64_MAX at h
  exact Int.bmod_eq_of_le (by omega) (by omega)

theorem toInt64_modEq (x : ℤ) : toInt64 x ≡ x [ZMOD 2 ^ 64] := Int.bmod_emod

theorem toInt64_congr {x y : ℤ} (h : x ≡ y [ZMOD 2 ^ 64]) : toInt64 x = toInt64 y := by
  unfold toInt64
  rw [← Int.emod_bmod, ← Int.emod_bmod (x := y)]
  exact congrArg (Int.bmod · (2 ^ 64)) h

theorem toInt64_add (y z : ℤ) : toInt64 (toInt64 y + z) = toInt64 (y + z) := Int.bmod_add_bmod

/-! ## Quotients and products of amounts that are not negative -/

theorem INT64_MAX_eq : INT64_MAX = ((2 ^ 63 - 1 : ℕ) : ℤ) := rfl

theorem Rounding.divide_le (rounding : Rounding) {a b c : ℕ} (hb : 0 < b) (h : a ≤ c * b) :
    rounding.divide a b ≤ c := by
  cases rounding with
  | ROUND_DOWN => exact Nat.div_le_of_le_mul (by rwa [Nat.mul_comm])
  | ROUND_UP =>
    show (a + b - 1) / b ≤ c
    rw [← Nat.ceilDiv_eq_add_pred_div, ceilDiv_le_iff_le_mul hb, Nat.mul_comm]
    exact h

theorem Rounding.divide_down_mul_le (a b : ℕ) : Rounding.ROUND_DOWN.divide a b * b ≤ a :=
  Nat.div_mul_le_self a b

theorem Rounding.lt_divide_down_mul (a : ℕ) {b : ℕ} (hb : 0 < b) :
    a < (Rounding.ROUND_DOWN.divide a b + 1) * b := by
  rw [Nat.mul_comm]
  exact Nat.lt_mul_div_succ a hb

theorem Rounding.le_divide_up_mul (a : ℕ) {b : ℕ} (hb : 0 < b) :
    a ≤ Rounding.ROUND_UP.divide a b * b := by
  rw [Nat.mul_comm]
  exact le_smul_ceilDiv hb

theorem Rounding.divide_up_pos {a b : ℕ} (ha : 0 < a) (hb : 0 < b) : 0 < Rounding.ROUND_UP.divide a b :=
  Nat.pos_of_mul_pos_right (ha.trans_le (Rounding.le_divide_up_mul a hb))

theorem Rounding.divide_up_mul_lt (a : ℕ) {b : ℕ} (hb : 0 < b) :
    Rounding.ROUND_UP.divide a b * b < a + b := by
  have h : (a + b - 1) / b * b ≤ a + b - 1 := Nat.div_mul_le_self _ _
  show (a + b - 1) / b * b < a + b
  omega

theorem bigMultiply_eq (a b : ℕ) : bigMultiply a b = .ok (a * b) := by
  unfold bigMultiply assert
  rw [if_pos ⟨Int.natCast_nonneg a, Int.natCast_nonneg b⟩]
  rfl

theorem bigDivide_eq {a b c : ℕ} {rounding : Rounding} (hc : 0 < c)
    (hfits : rounding.divide (a * b) c ≤ 2 ^ 63 - 1) :
    bigDivide a b c rounding = .ok (rounding.divide (a * b) c) := by
  have hle : ((rounding.divide (a * b) c : ℕ) : ℤ) ≤ INT64_MAX := Int.ofNat_le.mpr hfits
  unfold bigDivide bigDivideFits assert
  rw [if_pos ⟨Int.natCast_nonneg a, Int.natCast_nonneg b, Int.natCast_pos.mpr hc⟩]
  simp [bind, Except.bind, pure, Except.pure, hle]

theorem bigDivide128_down_eq {a b : ℕ} (hb : 0 < b) (hfits : a / b ≤ 2 ^ 63 - 1) :
    bigDivide128 a b .ROUND_DOWN = .ok (Rounding.ROUND_DOWN.divide a b) := by
  have hle : ¬ INT64_MAX < ((Rounding.ROUND_DOWN.divide a b : ℕ) : ℤ) :=
    not_lt.mpr (Int.ofNat_le.mpr hfits)
  unfold bigDivide128 assert
  rw [if_pos (Int.natCast_pos.mpr hb)]
  simp only [bind, Except.bind, Int.toNat_natCast, reduceCtorEq, false_and, false_or]
  rw [(throwIf_ok (u := ())).mpr hle]
  rfl

end ZaggCore.Numeric
