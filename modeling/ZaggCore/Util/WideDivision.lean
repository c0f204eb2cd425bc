import ZaggCore.Util.Uint128

/-! # `bigDivide` on words

The overloads of `bigDivide` of `util/numeric.cpp`, on 64-bit words and numbers of two words, each with
the 128-bit computations that it makes. They return the exact quotient, rounded, where it fits and
report failure otherwise; one sum wraps, where the subtraction after it wraps back. -/

namespace ZaggCore.Numeric
open Uint128
set_option autoImplicit false
set_option maxHeartbeats 250000

/-! ## Computations -/

/-- A 128-bit sum, difference or product, with its operands. -/
inductive Computation where
  | add (x rhs : Uint128)
  | sub (x rhs : Uint128)
  | mul (x rhs : Uint128)
  deriving DecidableEq, Repr

/-- The result is not that of the numbers. -/
def Computation.Wraps : Computation → Prop
  | .add x rhs => 2 ^ 128 ≤ x.val + rhs.val
  | .sub x rhs => x.val < rhs.val
  | .mul x rhs => 2 ^ 128 ≤ x.val * rhs.val

/-- A call, with the computations so far, the last one first. -/
abbrev Wide := StateT (List Computation) (Except Exception)

def plus (x rhs : Uint128) : Wide Uint128 := do
  modify (.add x rhs :: ·)
  return x + rhs

def minus (x rhs : Uint128) : Wide Uint128 := do
  modify (.sub x rhs :: ·)
  return x - rhs

/-- `- 1` -/
def minusOne (x : Uint128) : Wide Uint128 := do
  modify (.sub x uint128_1 :: ·)
  return x.subWord 1

def times (x rhs : Uint128) : Wide Uint128 := do
  modify (.mul x rhs :: ·)
  return x * rhs

/-! ## The overloads -/

def UINT64_MAX : BitVec 64 := ~~~0

/-- The `uint64_t` overload; no value stands for `false`. -/
def bigDivideUnsigned (A B C : BitVec 64) (rounding : Rounding) : Wide (Option (BitVec 64)) := do
  let a := ofWord A
  let b := ofWord B
  let c := ofWord C
  let x ←
    if rounding = .ROUND_DOWN then do
      let ab ← times a b
      divide ab c
    else do
      let ab ← times a b
      let abc ← plus ab c
      let dividend ← minusOne abc
      divide dividend c
  return if x.leWord UINT64_MAX then some x.LOWER else none

/-- The result of the unsigned overload, as an `int64_t`. -/
def signedResult : Option (BitVec 64) → Option (BitVec 64)
  | some r2 => if r2.toNat ≤ INT64_MAX then some r2 else none
  | none => none

/-- The `int64_t` overload. -/
def bigDivideSigned (A B C : BitVec 64) (rounding : Rounding) : Wide (Option (BitVec 64)) := do
  assert (0 ≤ A.toInt ∧ 0 ≤ B.toInt ∧ 0 < C.toInt) "(A >= 0) && (B >= 0) && (C > 0)"
  return signedResult (← bigDivideUnsigned A B C rounding)

/-- The `uint64_t` overload for a dividend of 128 bits. -/
def bigDivideUnsigned128 (a : Uint128) (B : BitVec 64) (rounding : Rounding) :
    Wide (Option (BitVec 64)) := do
  assert (B ≠ 0) "B != 0"
  let b := ofWord B
  let UINT128_MAX := ~~~uint128_0
  let overflows ←
    if rounding = .ROUND_UP then do
      let b1 ← minusOne b
      let limit ← minus UINT128_MAX b1
      pure (a.gt limit)
    else pure false
  if overflows then return none
  let x ←
    if rounding = .ROUND_DOWN then divide a b
    else do
      let ab ← plus a b
      let dividend ← minusOne ab
      divide dividend b
  return if x.leWord UINT64_MAX then some x.LOWER else none

/-- The `int64_t` overload for a dividend of 128 bits. -/
def bigDivideSigned128 (a : Uint128) (B : BitVec 64) (rounding : Rounding) :
    Wide (Option (BitVec 64)) := do
  assert (0 < B.toInt) "B > 0"
  return signedResult (← bigDivideUnsigned128 a B rounding)

/-- The overloads that return the result throw where there is none. -/
def orThrow (call : Wide (Option (BitVec 64))) : Wide (BitVec 64) := do
  match ← call with
  | some res => return res
  | none => throw (.runtime_error "overflow while performing bigDivide")

/-! ## The exact quotient -/

/-- The rational quotient, rounded. -/
def Rounding.exact (rounding : Rounding) (a b : ℕ) : ℕ :=
  match rounding with
  | .ROUND_DOWN => ⌊(a / b : ℚ)⌋₊
  | .ROUND_UP => ⌈(a / b : ℚ)⌉₊

theorem Rounding.divide_eq_exact (rounding : Rounding) (a : ℕ) {b : ℕ} (hb : 0 < b) :
    rounding.divide a b = rounding.exact a b := by
  cases rounding with
  | ROUND_DOWN => exact (Nat.floor_div_eq_div a b).symm
  | ROUND_UP =>
    have hpos : (0 : ℚ) < b := Nat.cast_pos.mpr hb
    refine eq_of_forall_ge_iff fun n => ?_
    show (a + b - 1) / b ≤ n ↔ ⌈(a / b : ℚ)⌉₊ ≤ n
    rw [← Nat.ceilDiv_eq_add_pred_div, ceilDiv_le_iff_le_mul hb, Nat.ceil_le, div_le_iff₀ hpos,
      ← Nat.cast_mul, Nat.cast_le, Nat.mul_comm]

/-- Success with the quotient where it is up to `max`, and failure otherwise. -/
def Reports (q max : ℕ) (res : Option (BitVec 64)) : Prop :=
  res.map BitVec.toNat = if q ≤ max then some q else none

/-- The call returns what it is to report, and its computations wrap only under the condition. -/
def Divides (call : Wide (Option (BitVec 64))) (q max : ℕ) (wraps : Prop) : Prop :=
  ∃ res log, call [] = .ok (res, log) ∧ Reports q max res ∧ ((∃ op ∈ log, op.Wraps) ↔ wraps)

theorem reports_word {x : Uint128} {q : ℕ} (hx : x.val = q) :
    Reports q (2 ^ 64 - 1) (if x.leWord UINT64_MAX then some x.LOWER else none) := by
  have hmax : UINT64_MAX.toNat = 2 ^ 64 - 1 := rfl
  have hlower := x.LOWER.isLt
  subst hx
  unfold Reports
  by_cases h : x.val ≤ 2 ^ 64 - 1
  · rw [if_pos ((leWord_iff x UINT64_MAX).mpr (hmax ▸ h)), if_pos h]
    unfold val at h
    rw [Option.map_some, val]
    congr 1
    omega
  · rw [if_neg (fun h' => h (hmax ▸ (leWord_iff x UINT64_MAX).mp h')), if_neg h]
    rfl

theorem Reports.signed {q : ℕ} {res : Option (BitVec 64)} (h : Reports q (2 ^ 64 - 1) res) :
    Reports q (2 ^ 63 - 1) (signedResult res) := by
  unfold Reports at h ⊢
  cases res with
  | none =>
    have hgt : ¬ q ≤ 2 ^ 64 - 1 := by
      intro hle
      rw [if_pos hle] at h
      cases h
    rw [if_neg (by omega)]
    rfl
  | some r2 =>
    have hle : q ≤ 2 ^ 64 - 1 := by
      by_contra hgt
      rw [if_neg hgt] at h
      cases h
    rw [if_pos hle, Option.map_some, Option.some_inj] at h
    subst h
    show Option.map BitVec.toNat (if (r2.toNat : ℤ) ≤ INT64_MAX then some r2 else none) = _
    rw [INT64_MAX_eq]
    by_cases hfits : r2.toNat ≤ 2 ^ 63 - 1
    · rw [if_pos hfits, if_pos (Int.ofNat_le.mpr hfits)]
      rfl
    · rw [if_neg hfits, if_neg (fun h => hfits (Int.ofNat_le.mp h))]
      rfl

/-! ## The calls -/

section Calls

variable {α β : Type}

/-- A statement that returns, and what comes after it. -/
theorem wide_bind {m : Wide α} {f : α → Wide β} {a : α} {log log' : List Computation}
    (h : m log = .ok (a, log')) : (m >>= f) log = f a log' := by
  show (m log >>= fun r => f r.1 r.2) = f a log'
  rw [h]
  rfl

theorem divide_run {x rhs q : Uint128} (log : List Computation) (h : divide x rhs = .ok q) :
    (liftM (divide x rhs) : Wide Uint128) log = .ok (q, log) := by
  rw [h]
  rfl

end Calls

theorem val_product (A B : BitVec 64) : (ofWord A * ofWord B).val = A.toNat * B.toNat ∧
    A.toNat * B.toNat + 2 ^ 64 ≤ 2 ^ 128 := by
  have hA := A.isLt
  have hB := B.isLt
  have hle : A.toNat * B.toNat ≤ (2 ^ 64 - 1) * (2 ^ 64 - 1) := Nat.mul_le_mul (by omega) (by omega)
  refine ⟨?_, by omega⟩
  rw [val_mul, val_ofWord, val_ofWord, Nat.mod_eq_of_lt (by omega)]

/-- What the subtraction of 1 gives, also after a sum that wrapped. -/
theorem val_add_subWord {x y : Uint128} (hpos : 0 < y.val) (hlt : x.val + (y.val - 1) < 2 ^ 128) :
    ((x + y).subWord 1).val = x.val + y.val - 1 := by
  rw [val_subWord, val_sub, val_add, val_ofWord]
  show ((x.val + y.val) % 2 ^ 128 + (2 ^ 128 - 1)) % 2 ^ 128 = _
  omega

theorem bigDivideUnsigned_divides (A B : BitVec 64) {C : BitVec 64} (hC : C ≠ 0) (rounding : Rounding) :
    Divides (bigDivideUnsigned A B C rounding) (rounding.exact (A.toNat * B.toNat) C.toNat) (2 ^ 64 - 1)
      False := by
  have hCpos : 0 < C.toNat := Nat.pos_of_ne_zero fun h => hC (BitVec.eq_of_toNat_eq h)
  have hCne : (ofWord C).val ≠ 0 := by
    rw [val_ofWord]
    exact hCpos.ne'
  obtain ⟨hprod, hfits⟩ := val_product A B
  have hClt := C.isLt
  rw [← Rounding.divide_eq_exact rounding _ hCpos]
  cases rounding with
  | ROUND_DOWN =>
    obtain ⟨q, hq, hval⟩ := divide_spec (x := ofWord A * ofWord B) hCne
    rw [hprod, val_ofWord] at hval
    refine ⟨_, [.mul (ofWord A) (ofWord B)], ?_, reports_word hval, ?_⟩
    · unfold bigDivideUnsigned
      dsimp only
      rw [if_pos rfl]
      exact (wide_bind rfl).trans ((wide_bind (divide_run _ hq)).trans rfl)
    · simp [Computation.Wraps]
      omega
  | ROUND_UP =>
    have hsum : (ofWord A * ofWord B + ofWord C).val = A.toNat * B.toNat + C.toNat := by
      rw [val_add, hprod, val_ofWord, Nat.mod_eq_of_lt (by omega)]
    have hdividend : ((ofWord A * ofWord B + ofWord C).subWord 1).val =
        A.toNat * B.toNat + C.toNat - 1 := by
      have hlt : (ofWord A * ofWord B).val + ((ofWord C).val - 1) < 2 ^ 128 := by
        rw [hprod, val_ofWord]
        omega
      rw [val_add_subWord (Nat.pos_of_ne_zero hCne) hlt, hprod, val_ofWord]
    obtain ⟨q, hq, hval⟩ := divide_spec (x := (ofWord A * ofWord B + ofWord C).subWord 1) hCne
    rw [hdividend, val_ofWord] at hval
    refine ⟨_, [.sub (ofWord A * ofWord B + ofWord C) uint128_1, .add (ofWord A * ofWord B) (ofWord C),
      .mul (ofWord A) (ofWord B)], ?_, reports_word hval, ?_⟩
    · unfold bigDivideUnsigned
      dsimp only
      rw [if_neg (by decide)]
      exact (wide_bind rfl).trans ((wide_bind rfl).trans ((wide_bind rfl).trans
        ((wide_bind (divide_run _ hq)).trans rfl)))
    · simp only [List.mem_cons, List.not_mem_nil, or_false, exists_eq_or_imp, exists_eq_left,
        Computation.Wraps, hsum, hprod, val_ofWord, val_one, iff_false]
      omega

theorem bigDivideSigned_divides {A B C : BitVec 64} (hA : 0 ≤ A.toInt) (hB : 0 ≤ B.toInt)
    (hC : 0 < C.toInt) (rounding : Rounding) :
    Divides (bigDivideSigned A B C rounding) (rounding.exact (A.toNat * B.toNat) C.toNat) (2 ^ 63 - 1)
      False := by
  have hCne : C ≠ 0 := by
    rintro rfl
    exact absurd hC (by decide)
  obtain ⟨res, log, hrun, hreports, hwraps⟩ := bigDivideUnsigned_divides A B hCne rounding
  refine ⟨signedResult res, log, ?_, hreports.signed, hwraps⟩
  unfold bigDivideSigned assert
  rw [if_pos ⟨hA, hB, hC⟩]
  exact (wide_bind rfl).trans ((wide_bind hrun).trans rfl)

/-- Rounding up gives up only where the quotient does not fit anyway. -/
theorem exact_gt_of_overflow {a b : ℕ} (hb : b < 2 ^ 64) (hpos : 0 < b) (h : 2 ^ 128 ≤ a + b) :
    2 ^ 64 - 1 < Rounding.ROUND_UP.exact a b := by
  rw [← Rounding.divide_eq_exact _ _ hpos]
  have hle := Rounding.le_divide_up_mul a hpos
  by_contra hgt
  have hmul : Rounding.ROUND_UP.divide a b * b ≤ (2 ^ 64 - 1) * (2 ^ 64 - 1) :=
    Nat.mul_le_mul (by omega) (by omega)
  omega

theorem bigDivideUnsigned128_divides (a : Uint128) {B : BitVec 64} (hB : B ≠ 0) (rounding : Rounding) :
    Divides (bigDivideUnsigned128 a B rounding) (rounding.exact a.val B.toNat) (2 ^ 64 - 1)
      (rounding = .ROUND_UP ∧ a.val + B.toNat = 2 ^ 128) := by
  have hBpos : 0 < B.toNat := Nat.pos_of_ne_zero fun h => hB (BitVec.eq_of_toNat_eq h)
  have hBne : (ofWord B).val ≠ 0 := by
    rw [val_ofWord]
    exact hBpos.ne'
  have hBlt := B.isLt
  have ha := a.val_lt
  unfold bigDivideUnsigned128 assert
  rw [if_pos hB]
  cases rounding with
  | ROUND_DOWN =>
    obtain ⟨q, hq, hval⟩ := divide_spec (x := a) hBne
    rw [val_ofWord] at hval
    rw [← Rounding.divide_eq_exact _ _ hBpos]
    refine ⟨_, [], ?_, reports_word hval, ?_⟩
    · dsimp only
      rw [if_neg (by decide), if_pos rfl]
      exact (wide_bind rfl).trans ((wide_bind rfl).trans ((wide_bind (divide_run _ hq)).trans rfl))
    · simp
  | ROUND_UP =>
    have hB1 : ((ofWord B).subWord 1).val = B.toNat - 1 := by
      rw [val_subWord, val_sub, val_ofWord, val_ofWord]
      show (B.toNat + (2 ^ 128 - 1)) % 2 ^ 128 = _
      omega
    have hmax : (~~~uint128_0).val = 2 ^ 128 - 1 := by rw [val_not, val_zero, Nat.sub_zero]
    have hlimit : (~~~uint128_0 - (ofWord B).subWord 1).val = 2 ^ 128 - B.toNat := by
      rw [val_sub, hmax, hB1]
      omega
    have hguard := gt_iff a (~~~uint128_0 - (ofWord B).subWord 1)
    rw [hlimit] at hguard
    dsimp only
    rw [if_pos rfl, if_neg (by decide)]
    by_cases hover : 2 ^ 128 - B.toNat < a.val
    · have hgt := exact_gt_of_overflow hBlt hBpos (show 2 ^ 128 ≤ a.val + B.toNat by omega)
      refine ⟨none, [.sub (~~~uint128_0) ((ofWord B).subWord 1), .sub (ofWord B) uint128_1], ?_, ?_, ?_⟩
      · refine (wide_bind rfl).trans ((wide_bind rfl).trans ?_)
        refine (wide_bind rfl).trans ((wide_bind rfl).trans ?_)
        rw [if_pos (hguard.mpr hover)]
        rfl
      · unfold Reports
        rw [if_neg (by omega)]
        rfl
      · simp only [List.mem_cons, List.not_mem_nil, or_false, exists_eq_or_imp, exists_eq_left,
          Computation.Wraps, hmax, hB1, val_ofWord, val_one, true_and]
        omega
    · have hsum : (a + ofWord B).val = (a.val + B.toNat) % 2 ^ 128 := by rw [val_add, val_ofWord]
      have hdividend : ((a + ofWord B).subWord 1).val = a.val + B.toNat - 1 := by
        have hlt : a.val + ((ofWord B).val - 1) < 2 ^ 128 := by
          rw [val_ofWord]
          omega
        rw [val_add_subWord (Nat.pos_of_ne_zero hBne) hlt, val_ofWord]
      obtain ⟨q, hq, hval⟩ := divide_spec (x := (a + ofWord B).subWord 1) hBne
      rw [hdividend, val_ofWord] at hval
      rw [← Rounding.divide_eq_exact _ _ hBpos]
      refine ⟨_, [.sub (a + ofWord B) uint128_1, .add a (ofWord B),
        .sub (~~~uint128_0) ((ofWord B).subWord 1), .sub (ofWord B) uint128_1], ?_, reports_word hval, ?_⟩
      · refine (wide_bind rfl).trans ((wide_bind rfl).trans ?_)
        refine (wide_bind rfl).trans ((wide_bind rfl).trans ?_)
        rw [if_neg (fun h => hover (hguard.mp h))]
        exact (wide_bind rfl).trans ((wide_bind rfl).trans ((wide_bind (divide_run _ hq)).trans rfl))
      · simp only [List.mem_cons, List.not_mem_nil, or_false, exists_eq_or_imp, exists_eq_left,
          Computation.Wraps, hsum, hmax, hB1, val_ofWord, val_one, true_and]
        omega

theorem bigDivideSigned128_divides (a : Uint128) {B : BitVec 64} (hB : 0 < B.toInt) (rounding : Rounding) :
    Divides (bigDivideSigned128 a B rounding) (rounding.exact a.val B.toNat) (2 ^ 63 - 1)
      (rounding = .ROUND_UP ∧ a.val + B.toNat = 2 ^ 128) := by
  have hBne : B ≠ 0 := by
    rintro rfl
    exact absurd hB (by decide)
  obtain ⟨res, log, hrun, hreports, hwraps⟩ := bigDivideUnsigned128_divides a hBne rounding
  refine ⟨signedResult res, log, ?_, hreports.signed, hwraps⟩
  unfold bigDivideSigned128 assert
  rw [if_pos hB]
  exact (wide_bind rfl).trans ((wide_bind hrun).trans rfl)

/-- The overloads that throw return the quotient where it is up to `max`. -/
def ReturnsOrThrows (call : Wide (BitVec 64)) (q max : ℕ) : Prop :=
  (q ≤ max → ∃ res log, call [] = .ok (res, log) ∧ res.toNat = q) ∧
    (max < q → call [] = .error (.runtime_error "overflow while performing bigDivide"))

theorem Divides.orThrow {call : Wide (Option (BitVec 64))} {q max : ℕ} {wraps : Prop}
    (h : Divides call q max wraps) : ReturnsOrThrows (Numeric.orThrow call) q max := by
  obtain ⟨res, log, hrun, hreports, -⟩ := h
  unfold Reports at hreports
  constructor
  · intro hle
    rw [if_pos hle, Option.map_eq_some_iff] at hreports
    obtain ⟨r, rfl, hr⟩ := hreports
    exact ⟨r, log, wide_bind hrun, hr⟩
  · intro hlt
    rw [if_neg (not_le.mpr hlt), Option.map_eq_none_iff] at hreports
    subst hreports
    exact wide_bind hrun

/-- **Wide division.** Every overload returns the exact quotient, rounded, where it fits its result and
reports failure otherwise. No 128-bit computation wraps, but for `a + b` and the `- 1` after it where the
dividend of 128 bits is rounded up and `a + b` is `2 ^ 128`. -/
theorem bigDivide_exact (rounding : Rounding) :
    (∀ A B C : BitVec 64, C ≠ 0 →
      Divides (bigDivideUnsigned A B C rounding) (rounding.exact (A.toNat * B.toNat) C.toNat)
        (2 ^ 64 - 1) False) ∧
    (∀ A B C : BitVec 64, 0 ≤ A.toInt → 0 ≤ B.toInt → 0 < C.toInt →
      Divides (bigDivideSigned A B C rounding) (rounding.exact (A.toNat * B.toNat) C.toNat)
        (2 ^ 63 - 1) False ∧
      ReturnsOrThrows (orThrow (bigDivideSigned A B C rounding))
        (rounding.exact (A.toNat * B.toNat) C.toNat) (2 ^ 63 - 1)) ∧
    (∀ (a : Uint128) (B : BitVec 64), B ≠ 0 →
      Divides (bigDivideUnsigned128 a B rounding) (rounding.exact a.val B.toNat) (2 ^ 64 - 1)
        (rounding = .ROUND_UP ∧ a.val + B.toNat = 2 ^ 128)) ∧
    (∀ (a : Uint128) (B : BitVec 64), 0 < B.toInt →
      Divides (bigDivideSigned128 a B rounding) (rounding.exact a.val B.toNat) (2 ^ 63 - 1)
        (rounding = .ROUND_UP ∧ a.val + B.toNat = 2 ^ 128) ∧
      ReturnsOrThrows (orThrow (bigDivideSigned128 a B rounding)) (rounding.exact a.val B.toNat)
        (2 ^ 63 - 1)) := by
  refine ⟨fun A B _ hC => bigDivideUnsigned_divides A B hC rounding, fun _ _ _ hA hB hC => ?_,
    fun a _ hB => bigDivideUnsigned128_divides a hB rounding, fun a _ hB => ?_⟩
  · have hdivides := bigDivideSigned_divides hA hB hC rounding
    exact ⟨hdivides, hdivides.orThrow⟩
  · have hdivides := bigDivideSigned128_divides a hB rounding
    exact ⟨hdivides, hdivides.orThrow⟩

/-- Seven halves, rounded up. -/
theorem bigDivide_exact_halves : Divides (bigDivideUnsigned 7 1 2 .ROUND_UP)
    (Rounding.ROUND_UP.exact ((7 : BitVec 64).toNat * (1 : BitVec 64).toNat) (2 : BitVec 64).toNat)
    (2 ^ 64 - 1) False :=
  (bigDivide_exact .ROUND_UP).1 7 1 2 (by decide)

/-- `a + b` wraps to 0 for the greatest dividend and the divisor 1. -/
theorem bigDivide_wraps : ¬ Divides (bigDivideUnsigned128 (~~~uint128_0) 1 .ROUND_UP)
    (Rounding.ROUND_UP.exact (~~~uint128_0).val 1) (2 ^ 64 - 1) False := by
  have hdivides := bigDivideUnsigned128_divides (~~~uint128_0) (B := 1) (by decide) .ROUND_UP
  rintro ⟨res, log, hrun, -, hwraps⟩
  obtain ⟨res', log', hrun', -, hwraps'⟩ := hdivides
  have heq := hrun.symm.trans hrun'
  rw [Except.ok.injEq, Prod.mk.injEq] at heq
  obtain ⟨-, rfl⟩ := heq
  refine hwraps.mp (hwraps'.mpr ⟨rfl, ?_⟩)
  decide

/-! ## The calls on integers -/

theorem toNat_of_toInt_nonneg {A : BitVec 64} (h : 0 ≤ A.toInt) :
    A.toInt.toNat = A.toNat ∧ A.toNat < 2 ^ 63 := by
  have hlt := A.isLt
  rw [BitVec.toInt_eq_toNat_cond] at h ⊢
  split at h
  · next hsmall =>
    rw [if_pos hsmall]
    omega
  · omega

/-- A result that is reported, read as an `int64_t`. -/
theorem Reports.toInt {q : ℕ} {res : Option (BitVec 64)} (h : Reports q (2 ^ 63 - 1) res) :
    res.map BitVec.toInt = if (q : ℤ) ≤ INT64_MAX then some (q : ℤ) else none := by
  unfold Reports at h
  rw [INT64_MAX_eq]
  split at h
  · next hle =>
    obtain ⟨r, rfl, rfl⟩ := Option.map_eq_some_iff.mp h
    rw [if_pos (Int.ofNat_le.mpr hle), Option.map_some, BitVec.toInt_eq_toNat_of_lt (by omega)]
  · next hgt =>
    rw [Option.map_eq_none_iff.mp h, if_neg (fun h' => hgt (Int.ofNat_le.mp h'))]
    rfl

/-- `bigDivideFits` is the signed overload on integers. -/
theorem bigDivideSigned_refines (A B C : BitVec 64) (rounding : Rounding) :
    (bigDivideSigned A B C rounding []).map (fun r => r.1.map BitVec.toInt) =
      bigDivideFits A.toInt B.toInt C.toInt rounding := by
  by_cases h : 0 ≤ A.toInt ∧ 0 ≤ B.toInt ∧ 0 < C.toInt
  · obtain ⟨hA, hB, hC⟩ := h
    obtain ⟨res, log, hrun, hreports, -⟩ := bigDivideSigned_divides hA hB hC rounding
    have hCpos : 0 < C.toNat := by
      have := (toNat_of_toInt_nonneg hC.le).1
      omega
    rw [← Rounding.divide_eq_exact _ _ hCpos] at hreports
    rw [hrun]
    unfold bigDivideFits assert
    rw [if_pos ⟨hA, hB, hC⟩, (toNat_of_toInt_nonneg hA).1, (toNat_of_toInt_nonneg hB).1,
      (toNat_of_toInt_nonneg hC.le).1]
    exact congrArg Except.ok hreports.toInt
  · unfold bigDivideSigned bigDivideFits assert
    rw [if_neg h]
    rfl

/-- `bigDivide128` is the throwing overload for a dividend of 128 bits on integers. -/
theorem bigDivideSigned128_refines (a : Uint128) (B : BitVec 64) (rounding : Rounding) :
    (orThrow (bigDivideSigned128 a B rounding) []).map (fun r => r.1.toInt) =
      bigDivide128 a.val B.toInt rounding := by
  by_cases hB : 0 < B.toInt
  · obtain ⟨hBnat, hBlt⟩ := toNat_of_toInt_nonneg hB.le
    have hBpos : 0 < B.toNat := by omega
    have hgives : ((rounding = .ROUND_UP ∧ 2 ^ 128 - 1 - (B.toNat - 1) < a.val) ∨
        INT64_MAX < (rounding.exact a.val B.toNat : ℕ)) ↔ 2 ^ 63 - 1 < rounding.exact a.val B.toNat := by
      rw [INT64_MAX_eq, Int.ofNat_lt]
      refine ⟨fun h => ?_, .inr⟩
      rcases h with ⟨rfl, hlt⟩ | h
      · have hsum : 2 ^ 128 ≤ a.val + B.toNat := by omega
        exact lt_trans (by decide) (exact_gt_of_overflow B.isLt hBpos hsum)
      · exact h
    obtain ⟨hreturns, hthrows⟩ := (bigDivideSigned128_divides a hB rounding).orThrow
    unfold bigDivide128 assert throwIf
    rw [if_pos hB]
    dsimp only [bind, Except.bind]
    rw [hBnat, Rounding.divide_eq_exact _ _ hBpos]
    by_cases hfits : rounding.exact a.val B.toNat ≤ 2 ^ 63 - 1
    · obtain ⟨res, log, hrun, hres⟩ := hreturns hfits
      rw [hrun, if_neg (fun h => not_lt.mpr hfits (hgives.mp h))]
      show Except.ok res.toInt = Except.ok _
      rw [BitVec.toInt_eq_toNat_of_lt (by omega), hres]
    · rw [hthrows (not_le.mp hfits), if_pos (hgives.mpr (not_le.mp hfits))]
      rfl
  · unfold orThrow bigDivideSigned128 bigDivide128 assert
    rw [if_neg hB]
    rfl

end ZaggCore.Numeric
