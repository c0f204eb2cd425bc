import Mathlib
import ZaggCore.Transactions.OfferExchange

/-! # The amounts of an exchange

`exchangeV10` at a price in its range and for limits that are amounts: the amounts stay within the
limits, rounding favours the side whose offer stays, and an offer that was adjusted once stays as it
is. -/

namespace ZaggCore.Transactions
set_option autoImplicit false
set_option maxHeartbeats 250000

open Numeric

/-! ## Prices and limits in range -/

/-- A price that `checkOfferValid` lets through. -/
structure Ratio where
  n : ℕ
  d : ℕ
  n_pos : 0 < n
  d_pos : 0 < d
  n_lt : n < 2 ^ 31
  d_lt : d < 2 ^ 31

namespace Ratio

def price (r : Ratio) : Price := ⟨r.n, r.d⟩

theorem exists_price {p : Price} (hn : 0 < p.n ∧ p.n < 2 ^ 31) (hd : 0 < p.d ∧ p.d < 2 ^ 31) :
    ∃ r : Ratio, r.price = p := by
  obtain ⟨n, hpn⟩ := Int.eq_ofNat_of_zero_le hn.1.le
  obtain ⟨d, hpd⟩ := Int.eq_ofNat_of_zero_le hd.1.le
  rw [hpn] at hn
  rw [hpd] at hd
  refine ⟨⟨n, d, by omega, by omega, by omega, by omega⟩, ?_⟩
  show (⟨n, d⟩ : Price) = p
  rw [← hpn, ← hpd]

variable (r : Ratio) {V U c : ℕ} {rounding : Rounding} {path : Bool}

/-! ## Amounts from values -/

/-- The wheat that a value buys, and the sheep for it. -/
def wheatFirst (value : ℕ) (rounding : Rounding) : ℕ × ℕ :=
  (Rounding.ROUND_DOWN.divide value r.n,
    rounding.divide (Rounding.ROUND_DOWN.divide value r.n * r.n) r.d)

/-- The sheep that a value buys, and the wheat for it. -/
def sheepFirst (value : ℕ) (rounding : Rounding) : ℕ × ℕ :=
  (rounding.divide (Rounding.ROUND_DOWN.divide value r.d * r.d) r.n,
    Rounding.ROUND_DOWN.divide value r.d)

/-- The wheat received and the sheep sent, as `exchangedAmounts` has them. -/
def amounts (wheatValue sheepValue : ℕ) (isPathPayment : Bool) : ℕ × ℕ :=
  if sheepValue < wheatValue then
    if r.d < r.n ∨ isPathPayment then r.wheatFirst sheepValue .ROUND_UP
    else r.sheepFirst sheepValue .ROUND_DOWN
  else
    if r.d < r.n then r.wheatFirst wheatValue .ROUND_DOWN
    else r.sheepFirst wheatValue .ROUND_UP

theorem wheatFirst_le (h : V ≤ c * r.n) : (r.wheatFirst V rounding).1 ≤ c :=
  Rounding.divide_le .ROUND_DOWN r.n_pos h

theorem wheatFirst_sheep_le (h : V ≤ c * r.d) : (r.wheatFirst V rounding).2 ≤ c :=
  Rounding.divide_le rounding r.d_pos ((Rounding.divide_down_mul_le V r.n).trans h)

theorem sheepFirst_le (h : V ≤ c * r.d) : (r.sheepFirst V rounding).2 ≤ c :=
  Rounding.divide_le .ROUND_DOWN r.d_pos h

theorem sheepFirst_wheat_le (h : V ≤ c * r.n) : (r.sheepFirst V rounding).1 ≤ c :=
  Rounding.divide_le rounding r.n_pos ((Rounding.divide_down_mul_le V r.d).trans h)

/-- The wheat fits every limit whose value is not below the smaller of the two values. -/
theorem amounts_wheat_le (path : Bool) (h : min V U ≤ c * r.n) :
    (r.amounts V U path).1 ≤ c := by
  unfold amounts
  split_ifs with hstays hwheat hwheat
  · exact r.wheatFirst_le (min_eq_right hstays.le ▸ h)
  · exact r.sheepFirst_wheat_le (min_eq_right hstays.le ▸ h)
  · exact r.wheatFirst_le (min_eq_left (not_lt.mp hstays) ▸ h)
  · exact r.sheepFirst_wheat_le (min_eq_left (not_lt.mp hstays) ▸ h)

/-- So does the sheep. -/
theorem amounts_sheep_le (path : Bool) (h : min V U ≤ c * r.d) :
    (r.amounts V U path).2 ≤ c := by
  unfold amounts
  split_ifs with hstays hwheat hwheat
  · exact r.wheatFirst_sheep_le (min_eq_right hstays.le ▸ h)
  · exact r.sheepFirst_le (min_eq_right hstays.le ▸ h)
  · exact r.wheatFirst_sheep_le (min_eq_left (not_lt.mp hstays) ▸ h)
  · exact r.sheepFirst_le (min_eq_left (not_lt.mp hstays) ▸ h)

/-- If wheat stays, what is sent is worth at least what is received. -/
theorem amounts_favour_wheat (hstays : U < V) :
    (r.amounts V U path).1 * r.n ≤
      (r.amounts V U path).2 * r.d := by
  unfold amounts
  rw [if_pos hstays]
  split_ifs
  · exact Rounding.le_divide_up_mul _ r.d_pos
  · exact Rounding.divide_down_mul_le _ _

/-- If sheep stays, it is worth at most that. -/
theorem amounts_favour_sheep (hstays : ¬ U < V) :
    (r.amounts V U path).2 * r.d ≤
      (r.amounts V U path).1 * r.n := by
  unfold amounts
  rw [if_neg hstays]
  split_ifs
  · exact Rounding.divide_down_mul_le _ _
  · exact Rounding.le_divide_up_mul _ r.n_pos

/-- If sheep stays, neither the sheep's value nor the kind of payment plays a part. -/
theorem amounts_of_sheep_stays {U' : ℕ} {path' : Bool}
    (h : ¬ U < V) (h' : ¬ U' < V) :
    r.amounts V U path = r.amounts V U' path' := by
  unfold amounts
  rw [if_neg h, if_neg h']

/-! ## The exchange -/

/-- The value of what the seller of wheat can send and receive. -/
def wheatValue (maxWheatSend maxSheepReceive : ℕ) : ℕ :=
  min (maxWheatSend * r.n) (maxSheepReceive * r.d)

/-- The value of what the seller of sheep can send and receive. -/
def sheepValue (maxSheepSend maxWheatReceive : ℕ) : ℕ :=
  min (maxSheepSend * r.d) (maxWheatReceive * r.n)

theorem calculateOfferValue_eq (n d send receive : ℕ) :
    calculateOfferValue n d send receive = .ok (min (send * n) (receive * d)) := by
  unfold calculateOfferValue
  rw [bigMultiply_eq, bigMultiply_eq]
  rfl

theorem wheatFirst_eq (hwheat : (r.wheatFirst V rounding).1 ≤ 2 ^ 63 - 1)
    (hsheep : (r.wheatFirst V rounding).2 ≤ 2 ^ 63 - 1) :
    (do
      let wheatReceive ← bigDivide128 V r.n .ROUND_DOWN
      let sheepSend ← bigDivide wheatReceive r.n r.d rounding
      return (wheatReceive, sheepSend) : Except Exception (ℤ × ℤ)) =
      .ok ((r.wheatFirst V rounding).1, (r.wheatFirst V rounding).2) := by
  unfold wheatFirst at hwheat hsheep ⊢
  rw [bigDivide128_down_eq r.n_pos hwheat]
  simp only [bind, Except.bind]
  rw [bigDivide_eq r.d_pos hsheep]
  rfl

theorem sheepFirst_eq (hwheat : (r.sheepFirst V rounding).1 ≤ 2 ^ 63 - 1)
    (hsheep : (r.sheepFirst V rounding).2 ≤ 2 ^ 63 - 1) :
    (do
      let sheepSend ← bigDivide128 V r.d .ROUND_DOWN
      let wheatReceive ← bigDivide sheepSend r.d r.n rounding
      return (wheatReceive, sheepSend) : Except Exception (ℤ × ℤ)) =
      .ok ((r.sheepFirst V rounding).1, (r.sheepFirst V rounding).2) := by
  unfold sheepFirst at hwheat hsheep ⊢
  rw [bigDivide128_down_eq r.d_pos hsheep]
  simp only [bind, Except.bind]
  rw [bigDivide_eq r.n_pos hwheat]
  rfl

theorem exchangedAmounts_eq (hwheat : min V U ≤ (2 ^ 63 - 1) * r.n)
    (hsheep : min V U ≤ (2 ^ 63 - 1) * r.d) :
    exchangedAmounts r.price V U path = .ok ((r.amounts V U path).1, (r.amounts V U path).2) := by
  have h1 := r.amounts_wheat_le path hwheat
  have h2 := r.amounts_sheep_le path hsheep
  unfold exchangedAmounts
  unfold amounts at h1 h2 ⊢
  simp only [price, Nat.cast_lt]
  split_ifs at h1 h2 ⊢
  · exact r.wheatFirst_eq h1 h2
  · exact r.sheepFirst_eq h1 h2
  · exact r.wheatFirst_eq h1 h2
  · exact r.sheepFirst_eq h1 h2

/-- The amounts that limits come to. -/
def exchanged (W R S T : ℕ) (path : Bool) : ℕ × ℕ :=
  r.amounts (r.wheatValue W T) (r.sheepValue S R) path

variable {W R S T w s : ℕ}

theorem exchanged_wheat_le (path : Bool) : (r.exchanged W R S T path).1 ≤ min R W :=
  le_min (r.amounts_wheat_le path ((min_le_right _ _).trans (min_le_right _ _)))
    (r.amounts_wheat_le path ((min_le_left _ _).trans (min_le_left _ _)))

theorem exchanged_sheep_le (path : Bool) : (r.exchanged W R S T path).2 ≤ min T S :=
  le_min (r.amounts_sheep_le path ((min_le_left _ _).trans (min_le_right _ _)))
    (r.amounts_sheep_le path ((min_le_right _ _).trans (min_le_left _ _)))

/-- None of the checks fails. -/
theorem exchangeV10WithoutPriceErrorThresholds_eq (hW : W ≤ 2 ^ 63 - 1) (hT : T ≤ 2 ^ 63 - 1)
    (path : Bool) :
    exchangeV10WithoutPriceErrorThresholds r.price W R S T path =
      .ok ⟨(r.exchanged W R S T path).1, (r.exchanged W R S T path).2,
        r.sheepValue S R < r.wheatValue W T⟩ := by
  have hwheat : min (r.wheatValue W T) (r.sheepValue S R) ≤ (2 ^ 63 - 1) * r.n :=
    (min_le_left _ _).trans ((min_le_left _ _).trans (Nat.mul_le_mul_right _ hW))
  have hsheep : min (r.wheatValue W T) (r.sheepValue S R) ≤ (2 ^ 63 - 1) * r.d :=
    (min_le_left _ _).trans ((min_le_right _ _).trans (Nat.mul_le_mul_right _ hT))
  have hw : ¬ (((r.exchanged W R S T path).1 : ℤ) < 0 ∨
      min (R : ℤ) W < (r.exchanged W R S T path).1) := by
    have := r.exchanged_wheat_le path (W := W) (R := R) (S := S) (T := T)
    omega
  have hs : ¬ (((r.exchanged W R S T path).2 : ℤ) < 0 ∨
      min (T : ℤ) S < (r.exchanged W R S T path).2) := by
    have := r.exchanged_sheep_le path (W := W) (R := R) (S := S) (T := T)
    omega
  unfold exchangeV10WithoutPriceErrorThresholds
  simp only [price, calculateOfferValue_eq, bind, Except.bind]
  rw [← price, ← wheatValue, ← sheepValue, r.exchangedAmounts_eq hwheat hsheep]
  simp only
  rw [← exchanged, (throwIf_ok (u := ())).mpr hw]
  simp only
  rw [(throwIf_ok (u := ())).mpr hs]
  rfl

/-! ## The price error -/

/-- The effective price is at most 1% off, as `checkPriceErrorBound` has it. -/
def Near (w s : ℕ) : Prop := |(100 * r.n * w : ℤ) - 100 * r.d * s| ≤ r.n * w

instance (w s : ℕ) : Decidable (r.Near w s) := inferInstanceAs (Decidable (_ ≤ _))

theorem near_iff (hw : 0 < w) :
    r.Near w s ↔ |(r.n / r.d : ℚ) - s / w| ≤ 1 / 100 * (r.n / r.d) := by
  have hd : (0 : ℚ) < r.d := Nat.cast_pos.mpr r.d_pos
  have hw' : (0 : ℚ) < w := Nat.cast_pos.mpr hw
  have hdiff : (r.n / r.d : ℚ) - s / w = (100 * r.n * w - 100 * r.d * s) / (100 * (r.d * w)) := by
    field_simp
  have hcap : 1 / 100 * (r.n / r.d : ℚ) = r.n * w / (100 * (r.d * w)) := by
    field_simp
  have hpos : (0 : ℚ) < 100 * (r.d * w) := by positivity
  rw [hdiff, hcap, abs_div, abs_of_pos hpos, div_le_div_iff_of_pos_right hpos]
  unfold Near
  exact_mod_cast Iff.rfl

theorem near_of_eq (h : w * r.n = s * r.d) : r.Near w s := by
  have hcast : (r.n * w : ℤ) = r.d * s := by
    rw [mul_comm (r.n : ℤ), mul_comm (r.d : ℤ)]
    exact_mod_cast h
  unfold Near
  rw [mul_assoc, mul_assoc, hcast, sub_self, abs_zero]
  positivity

theorem absDiff_le_iff (lhs rhs cap : ℕ) :
    (if rhs < lhs then lhs - rhs else rhs - lhs) ≤ cap ↔ |(lhs : ℤ) - rhs| ≤ cap := by
  rw [abs_le]
  split_ifs <;> omega

theorem checkPriceErrorBound_eq (w s : ℕ) (canFavorWheat : Bool) :
    checkPriceErrorBound r.price w s canFavorWheat =
      .ok ((canFavorWheat && decide (w * r.n < s * r.d)) || decide (r.Near w s)) := by
  have hn : (100 * r.n : ℤ) = ((100 * r.n : ℕ) : ℤ) := (Nat.cast_mul 100 r.n).symm
  have hd : (100 * r.d : ℤ) = ((100 * r.d : ℕ) : ℤ) := (Nat.cast_mul 100 r.d).symm
  have hlt : 100 * r.n * w < 100 * r.d * s ↔ w * r.n < s * r.d := by
    rw [Nat.mul_assoc, Nat.mul_assoc, Nat.mul_comm r.n, Nat.mul_comm r.d]
    omega
  have hnear : r.Near w s ↔ (if 100 * r.d * s < 100 * r.n * w then 100 * r.n * w - 100 * r.d * s
      else 100 * r.d * s - 100 * r.n * w) ≤ r.n * w := by
    rw [absDiff_le_iff, Near]
    push_cast
    rfl
  unfold checkPriceErrorBound
  simp only [price]
  rw [hn, hd, bigMultiply_eq, bigMultiply_eq, bigMultiply_eq]
  simp only [bind, Except.bind, pure, Except.pure]
  simp only [hlt, decide_eq_decide.mpr hnear]
  cases canFavorWheat && decide (w * r.n < s * r.d) <;> rfl

/-- What `applyPriceErrorThresholds` makes of amounts that favour the side whose offer stays. -/
theorem applyPriceErrorThresholds_eq {stays : Bool} (path : Bool)
    (hwheat : stays = true → w * r.n ≤ s * r.d) (hsheep : stays = false → s * r.d ≤ w * r.n) :
    applyPriceErrorThresholds r.price w s stays path =
      if 0 < w ∧ 0 < s then
        if (path && decide (w * r.n < s * r.d)) || decide (r.Near w s) then .ok ⟨w, s, stays⟩
        else if path then .error (.runtime_error "exceeded price error bound")
        else .ok ⟨0, 0, stays⟩
      else .ok ⟨0, 0, stays⟩ := by
  unfold applyPriceErrorThresholds
  simp only [Nat.cast_pos]
  by_cases hpos : 0 < w ∧ 0 < s
  · have hfavour : ¬ (stays && decide (s * r.d < w * r.n)) = true := by
      cases stays <;> simp_all
    have hfavour' : ¬ (!stays && decide (w * r.n < s * r.d)) = true := by
      cases stays <;> simp_all
    rw [if_pos hpos, if_pos hpos]
    simp only [price, bigMultiply_eq, bind, Except.bind]
    rw [(throwIf_ok (u := ())).mpr hfavour]
    simp only
    rw [(throwIf_ok (u := ())).mpr hfavour', ← price, r.checkPriceErrorBound_eq]
    simp only
    cases (path && decide (w * r.n < s * r.d)) || decide (r.Near w s) <;> cases path <;> rfl
  · rw [if_neg hpos, if_neg hpos]
    rfl

/-- What is left of amounts after the thresholds. -/
def kept (amounts : ℕ × ℕ) : ℕ × ℕ :=
  if (0 < amounts.1 ∧ 0 < amounts.2) ∧ r.Near amounts.1 amounts.2 then amounts else (0, 0)

theorem kept_cases (amounts : ℕ × ℕ) :
    r.kept amounts = (0, 0) ∨
      r.kept amounts = amounts ∧ 0 < amounts.1 ∧ 0 < amounts.2 ∧ r.Near amounts.1 amounts.2 := by
  unfold kept
  split_ifs with h
  · exact .inr ⟨rfl, h.1.1, h.1.2, h.2⟩
  · exact .inl rfl

theorem exchangeV10_eq (hW : W ≤ 2 ^ 63 - 1) (hT : T ≤ 2 ^ 63 - 1) (path : Bool) :
    exchangeV10 r.price W R S T path =
      applyPriceErrorThresholds r.price (r.exchanged W R S T path).1 (r.exchanged W R S T path).2
        (r.sheepValue S R < r.wheatValue W T) path := by
  unfold exchangeV10
  rw [r.exchangeV10WithoutPriceErrorThresholds_eq hW hT]
  rfl

/-- The side whose offer stays is favoured. -/
theorem exchanged_favours (W R S T : ℕ) (path : Bool) :
    (decide (r.sheepValue S R < r.wheatValue W T) = true →
      (r.exchanged W R S T path).1 * r.n ≤ (r.exchanged W R S T path).2 * r.d) ∧
    (decide (r.sheepValue S R < r.wheatValue W T) = false →
      (r.exchanged W R S T path).2 * r.d ≤ (r.exchanged W R S T path).1 * r.n) :=
  ⟨fun h => r.amounts_favour_wheat (of_decide_eq_true h),
    fun h => r.amounts_favour_sheep (of_decide_eq_false h)⟩

theorem exchangeV10_direct (hW : W ≤ 2 ^ 63 - 1) (hT : T ≤ 2 ^ 63 - 1) :
    exchangeV10 r.price W R S T false =
      .ok ⟨(r.kept (r.exchanged W R S T false)).1, (r.kept (r.exchanged W R S T false)).2,
        r.sheepValue S R < r.wheatValue W T⟩ := by
  have hfavours := r.exchanged_favours W R S T false
  rw [r.exchangeV10_eq hW hT, r.applyPriceErrorThresholds_eq false hfavours.1 hfavours.2, kept]
  simp only [Bool.false_and, Bool.false_or, decide_eq_true_eq, Bool.false_eq_true, if_false, ite_and]
  split_ifs <;> rfl

/-! ## Adjusting an offer -/

/-- The counterparty of `adjustOffer` never runs out. -/
theorem sheep_stays (hW : W ≤ 2 ^ 63 - 1) (hT : T ≤ 2 ^ 63 - 1) :
    ¬ r.sheepValue (2 ^ 63 - 1) (2 ^ 63 - 1) < r.wheatValue W T :=
  not_lt.mpr (le_min ((min_le_right _ _).trans (Nat.mul_le_mul_right _ hT))
    ((min_le_left _ _).trans (Nat.mul_le_mul_right _ hW)))

/-- The amounts that the whole of an offer comes to. -/
def whole (W T : ℕ) : ℕ × ℕ := r.exchanged W (2 ^ 63 - 1) (2 ^ 63 - 1) T false

theorem whole_le (W T : ℕ) :
    (r.whole W T).1 ≤ W ∧ (r.whole W T).2 ≤ T :=
  ⟨(r.exchanged_wheat_le false).trans (min_le_right _ _),
    (r.exchanged_sheep_le false).trans (min_le_left _ _)⟩

theorem whole_eq (hW : W ≤ 2 ^ 63 - 1) (hT : T ≤ 2 ^ 63 - 1) :
    r.whole W T = if r.d < r.n then r.wheatFirst (r.wheatValue W T) .ROUND_DOWN
      else r.sheepFirst (r.wheatValue W T) .ROUND_UP :=
  if_neg (r.sheep_stays hW hT)

/-- Where sheep stays, the offer is taken as a whole. -/
theorem exchanged_of_sheep_stays (hW : W ≤ 2 ^ 63 - 1) (hT : T ≤ 2 ^ 63 - 1) (path : Bool)
    (h : ¬ r.sheepValue S R < r.wheatValue W T) : r.exchanged W R S T path = r.whole W T :=
  r.amounts_of_sheep_stays h (r.sheep_stays hW hT)

theorem wheatFirst_mul : r.wheatFirst (R * r.n) rounding = (R, rounding.divide (R * r.n) r.d) := by
  have h : Rounding.ROUND_DOWN.divide (R * r.n) r.n = R := Nat.mul_div_cancel _ r.n_pos
  unfold wheatFirst
  rw [h]

theorem sheepFirst_again {V' : ℕ} (hle : (r.sheepFirst V rounding).2 * r.d ≤ V')
    (hlt : V' < ((r.sheepFirst V rounding).2 + 1) * r.d) :
    r.sheepFirst V' rounding = r.sheepFirst V rounding := by
  have h : Rounding.ROUND_DOWN.divide V' r.d = (r.sheepFirst V rounding).2 :=
    Nat.div_eq_of_lt_le hle hlt
  unfold sheepFirst at h ⊢
  rw [h]

/-- What an offer comes to as a whole comes to the same again, whatever more could be received. -/
theorem whole_again {T' : ℕ} (hW : W ≤ 2 ^ 63 - 1) (hT : T ≤ T') (hT' : T' ≤ 2 ^ 63 - 1) :
    r.whole (r.whole W T).1 T' = r.whole W T := by
  have hle := r.whole_le W T
  rw [r.whole_eq (hle.1.trans hW) hT']
  have hreceive : r.wheatValue W T ≤ T' * r.d :=
    (min_le_right _ _).trans (Nat.mul_le_mul_right _ hT)
  rw [r.whole_eq hW (hT.trans hT')] at hle ⊢
  split_ifs at hle ⊢ with hmore
  · have hvalue : r.wheatValue (r.wheatFirst (r.wheatValue W T) .ROUND_DOWN).1 T' =
        (r.wheatFirst (r.wheatValue W T) .ROUND_DOWN).1 * r.n :=
      min_eq_left ((Rounding.divide_down_mul_le _ _).trans hreceive)
    rw [hvalue]
    exact r.wheatFirst_mul
  · have hup := Rounding.le_divide_up_mul ((r.sheepFirst (r.wheatValue W T) .ROUND_UP).2 * r.d) r.n_pos
    have hsmall := Rounding.divide_up_mul_lt ((r.sheepFirst (r.wheatValue W T) .ROUND_UP).2 * r.d) r.n_pos
    refine r.sheepFirst_again (le_min hup (Nat.mul_le_mul_right _ (hle.2.trans hT)))
      ((min_le_left _ _).trans_lt ?_)
    rw [Nat.add_mul, Nat.one_mul]
    exact hsmall.trans_le (Nat.add_le_add_left (not_lt.mp hmore) _)

/-- What `adjustOffer` comes to. -/
def adjusted (W T : ℕ) : ℕ := (r.kept (r.whole W T)).1

theorem adjustOffer_eq (hW : W ≤ 2 ^ 63 - 1) (hT : T ≤ 2 ^ 63 - 1) :
    adjustOffer r.price W T = .ok (r.adjusted W T) := by
  unfold adjustOffer
  rw [INT64_MAX_eq, r.exchangeV10_direct hW hT]
  rfl

theorem adjusted_le (W T : ℕ) : r.adjusted W T ≤ W := by
  unfold adjusted
  obtain h | ⟨h, -⟩ := r.kept_cases (r.whole W T)
  · rw [h]
    exact Nat.zero_le W
  · rw [h]
    exact (r.whole_le W T).1

/-- Adjusting leaves nothing, or what the offer comes to as a whole. -/
theorem adjusted_cases (W T : ℕ) :
    r.adjusted W T = 0 ∨
      r.adjusted W T = (r.whole W T).1 ∧ 0 < (r.whole W T).1 ∧ 0 < (r.whole W T).2 ∧
        r.Near (r.whole W T).1 (r.whole W T).2 := by
  unfold adjusted
  obtain h | ⟨h, hrest⟩ := r.kept_cases (r.whole W T)
  · exact .inl (by rw [h])
  · exact .inr ⟨by rw [h], hrest⟩

theorem adjusted_again {T' : ℕ} (hW : W ≤ 2 ^ 63 - 1) (hT : T ≤ T') (hT' : T' ≤ 2 ^ 63 - 1) :
    r.adjusted (r.adjusted W T) T' = r.adjusted W T := by
  obtain h | ⟨h, hwheat, hsheep, hnear⟩ := r.adjusted_cases W T
  · rw [h]
    exact Nat.le_zero.mp (r.adjusted_le 0 T')
  · rw [h, adjusted, r.whole_again hW hT hT', kept, if_pos ⟨⟨hwheat, hsheep⟩, hnear⟩]

/-- A path payment takes no more of an adjusted offer than passes the price check. -/
theorem exchangeV10_path (hW : W ≤ 2 ^ 63 - 1) (hT : T ≤ 2 ^ 63 - 1) (hadjusted : r.adjusted W T = W) :
    exchangeV10 r.price W R S T true =
      .ok (if 0 < (r.exchanged W R S T true).1 ∧ 0 < (r.exchanged W R S T true).2 then
        ⟨(r.exchanged W R S T true).1, (r.exchanged W R S T true).2,
          r.sheepValue S R < r.wheatValue W T⟩
        else ⟨0, 0, r.sheepValue S R < r.wheatValue W T⟩) := by
  have hfavours := r.exchanged_favours W R S T true
  rw [r.exchangeV10_eq hW hT, r.applyPriceErrorThresholds_eq true hfavours.1 hfavours.2]
  by_cases hpos : 0 < (r.exchanged W R S T true).1 ∧ 0 < (r.exchanged W R S T true).2
  · rw [if_pos hpos, if_pos hpos, if_pos]
    rw [Bool.true_and, Bool.or_eq_true, decide_eq_true_eq, decide_eq_true_eq]
    by_cases hstays : r.sheepValue S R < r.wheatValue W T
    · obtain hlt | heq := (hfavours.1 (decide_eq_true hstays)).lt_or_eq
      · exact .inl hlt
      · exact .inr (r.near_of_eq heq)
    · -- the offer was adjusted to what is taken of it
      rw [r.exchanged_of_sheep_stays hW hT true hstays] at hpos ⊢
      obtain hzero | ⟨-, -, -, hnear⟩ := r.adjusted_cases W T
      · have hle := (r.whole_le W T).1
        omega
      · exact .inr hnear
  · rw [if_neg hpos, if_neg hpos]

/-! ## Taking from an adjusted offer -/

/-- An adjusted offer is taken for what it is worth to anyone. -/
theorem whole_of_adjusted (hW : W ≤ 2 ^ 63 - 1) (hT : T ≤ 2 ^ 63 - 1) (hpos : 0 < W)
    (hadjusted : r.adjusted W T = W) :
    r.whole W T = r.whole W (2 ^ 63 - 1) ∧ (r.whole W T).1 = W ∧ 0 < (r.whole W T).2 := by
  obtain hzero | ⟨hwhole, -, hsheep, -⟩ := r.adjusted_cases W T
  · omega
  · have hagain := r.whole_again hW hT le_rfl
    rw [hadjusted] at hwhole
    rw [← hwhole] at hagain
    exact ⟨hagain.symm, hwhole.symm, hsheep⟩

/-- One sheep more than it costs is worth more than the offer. -/
theorem wheatValue_lt (hW : W ≤ 2 ^ 63 - 1) (hT : T ≤ 2 ^ 63 - 1) (hpos : 0 < W)
    (hadjusted : r.adjusted W T = W) : r.wheatValue W T < ((r.whole W T).2 + 1) * r.d := by
  obtain ⟨-, hwheat, -⟩ := r.whole_of_adjusted hW hT hpos hadjusted
  rw [r.whole_eq hW hT] at hwheat ⊢
  split_ifs at hwheat ⊢
  · have hcost : (r.wheatFirst (r.wheatValue W T) .ROUND_DOWN).2 =
        (r.wheatFirst (r.wheatValue W T) .ROUND_DOWN).1 * r.n / r.d := rfl
    rw [hwheat] at hcost
    rw [hcost]
    exact (min_le_left _ _).trans_lt (Rounding.lt_divide_down_mul _ r.d_pos)
  · exact Rounding.lt_divide_down_mul _ r.d_pos

/-- A path payment takes an adjusted offer as a whole, or as much of it as the sheep or the wheat that is
wanted comes to. -/
theorem exchangeV10_path_cases (hW : W ≤ 2 ^ 63 - 1) (hT : T ≤ 2 ^ 63 - 1) (hpos : 0 < W)
    (hadjusted : r.adjusted W T = W) (hR : 0 < R) :
    (exchangeV10 r.price W R S T true = .ok ⟨W, (r.whole W T).2, false⟩ ∧ W ≤ R ∧
      (r.whole W T).2 ≤ S ∧ (r.whole W T).2 ≤ T) ∨
    ∃ w s : ℕ, exchangeV10 r.price W R S T true = .ok ⟨w, s, true⟩ ∧ w ≤ R ∧ w ≤ W ∧ s ≤ S ∧ s ≤ T ∧
      (R * r.n ≤ S * r.d → w = R) ∧ (W < R → S ≤ (r.whole W T).2) := by
  obtain ⟨-, hwheat, hsheep⟩ := r.whole_of_adjusted hW hT hpos hadjusted
  have hrun := r.exchangeV10_path (R := R) (S := S) hW hT hadjusted
  have hle := r.exchanged_wheat_le true (W := W) (R := R) (S := S) (T := T)
  have hle' := r.exchanged_sheep_le true (W := W) (R := R) (S := S) (T := T)
  by_cases hstays : r.sheepValue S R < r.wheatValue W T
  · refine .inr ?_
    have hall : R * r.n ≤ S * r.d → r.exchanged W R S T true = r.wheatFirst (R * r.n) .ROUND_UP := by
      intro h
      unfold exchanged amounts
      rw [if_pos hstays, if_pos (.inr rfl), sheepValue, min_eq_right h]
    have hwant : W < R → S ≤ (r.whole W T).2 := by
      intro hlt
      have hvalue := r.wheatValue_lt hW hT hpos hadjusted
      have hmore : W * r.n < R * r.n := Nat.mul_lt_mul_of_pos_right hlt r.n_pos
      have hleft : r.wheatValue W T ≤ W * r.n := min_le_left _ _
      have hsmall : S * r.d < ((r.whole W T).2 + 1) * r.d := by
        unfold sheepValue at hstays
        omega
      exact Nat.lt_succ_iff.mp (Nat.lt_of_mul_lt_mul_right hsmall)
    by_cases htaken : 0 < (r.exchanged W R S T true).1 ∧ 0 < (r.exchanged W R S T true).2
    · rw [if_pos htaken, decide_eq_true hstays] at hrun
      refine ⟨_, _, hrun, by omega, by omega, by omega, by omega, fun h => ?_, hwant⟩
      rw [hall h, r.wheatFirst_mul]
    · rw [if_neg htaken, decide_eq_true hstays] at hrun
      refine ⟨0, 0, hrun, by omega, by omega, by omega, by omega, fun h => ?_, hwant⟩
      rw [hall h, r.wheatFirst_mul] at htaken
      exact absurd ⟨hR, Rounding.divide_up_pos (Nat.mul_pos hR r.n_pos) r.d_pos⟩ htaken
  · have hwhole := r.exchanged_of_sheep_stays hW hT true hstays
    rw [hwhole] at hrun hle hle'
    rw [if_pos ⟨lt_of_lt_of_eq hpos hwheat.symm, hsheep⟩, hwheat, decide_eq_false hstays] at hrun
    exact .inl ⟨hrun, by omega, by omega, by omega⟩

end Ratio

/-! ## Every exchange -/

/-- The 128-bit values that an exchange forms, the dividends of the divisions that round up included. -/
def formedValues (price : Price) (maxWheatSend maxWheatReceive maxSheepSend maxSheepReceive : ℤ)
    (res : ExchangeResultV10) : List ℤ :=
  [maxWheatSend * price.n, maxSheepReceive * price.d, maxSheepSend * price.d,
    maxWheatReceive * price.n, res.numWheatReceived * price.n + price.d - 1,
    res.numSheepSend * price.d + price.n - 1, 100 * price.n * res.numWheatReceived,
    100 * price.d * res.numSheepSend]

theorem mul_lt_of_lt {x y : ℤ} (hx : 0 ≤ x ∧ x < 2 ^ 63) (hy : 0 ≤ y ∧ y < 2 ^ 40) :
    0 ≤ x * y ∧ x * y < 2 ^ 103 := by
  refine ⟨mul_nonneg hx.1 hy.1, ?_⟩
  calc x * y < 2 ^ 63 * 2 ^ 40 := mul_lt_mul'' hx.2 hy.2 hx.1 hy.1
    _ = 2 ^ 103 := by norm_num

theorem Ratio.formedValues_lt (r : Ratio) {W R S T : ℤ} {res : ExchangeResultV10}
    (hW : 0 ≤ W ∧ W < 2 ^ 63) (hR : 0 ≤ R ∧ R < 2 ^ 63) (hS : 0 ≤ S ∧ S < 2 ^ 63)
    (hT : 0 ≤ T ∧ T < 2 ^ 63) (hwheat : 0 ≤ res.numWheatReceived ∧ res.numWheatReceived ≤ W)
    (hsheep : 0 ≤ res.numSheepSend ∧ res.numSheepSend ≤ S) :
    ∀ x ∈ formedValues r.price W R S T res, 0 ≤ x ∧ x < 2 ^ 128 := by
  have hn := r.n_lt
  have hd := r.d_lt
  have hn' := r.n_pos
  have hd' := r.d_pos
  have hwheat' : 0 ≤ res.numWheatReceived ∧ res.numWheatReceived < 2 ^ 63 := by omega
  have hsheep' : 0 ≤ res.numSheepSend ∧ res.numSheepSend < 2 ^ 63 := by omega
  have hnn : 0 ≤ (r.n : ℤ) ∧ (r.n : ℤ) < 2 ^ 40 := by omega
  have hdd : 0 ≤ (r.d : ℤ) ∧ (r.d : ℤ) < 2 ^ 40 := by omega
  have h1 := mul_lt_of_lt hW hnn
  have h2 := mul_lt_of_lt hT hdd
  have h3 := mul_lt_of_lt hS hdd
  have h4 := mul_lt_of_lt hR hnn
  have h5 := mul_lt_of_lt hwheat' hnn
  have h6 := mul_lt_of_lt hsheep' hdd
  have h7 : 0 ≤ res.numWheatReceived * (100 * r.n) ∧ res.numWheatReceived * (100 * r.n) < 2 ^ 103 :=
    mul_lt_of_lt hwheat' (by omega)
  have h8 : 0 ≤ res.numSheepSend * (100 * r.d) ∧ res.numSheepSend * (100 * r.d) < 2 ^ 103 :=
    mul_lt_of_lt hsheep' (by omega)
  rw [mul_comm] at h7 h8
  intro x hx
  simp only [formedValues, price, List.mem_cons, List.not_mem_nil, or_false] at hx
  omega

/-- **Exchanges are total and honest.** -/
theorem exchangeV10_total (price : Price) (maxWheatSend maxWheatReceive maxSheepSend maxSheepReceive : ℤ)
    (isPathPayment : Bool) (hn : 1 ≤ price.n ∧ price.n < 2 ^ 31) (hd : 1 ≤ price.d ∧ price.d < 2 ^ 31)
    (hwheatSend : 0 ≤ maxWheatSend ∧ maxWheatSend < 2 ^ 63)
    (hwheatReceive : 0 ≤ maxWheatReceive ∧ maxWheatReceive < 2 ^ 63)
    (hsheepSend : 0 ≤ maxSheepSend ∧ maxSheepSend < 2 ^ 63)
    (hsheepReceive : 0 ≤ maxSheepReceive ∧ maxSheepReceive < 2 ^ 63) :
    (∃ res, exchangeV10WithoutPriceErrorThresholds price maxWheatSend maxWheatReceive maxSheepSend
        maxSheepReceive isPathPayment = .ok res ∧
      (∀ x ∈ formedValues price maxWheatSend maxWheatReceive maxSheepSend maxSheepReceive res,
        0 ≤ x ∧ x < 2 ^ 128) ∧
      (0 ≤ res.numWheatReceived ∧ res.numWheatReceived ≤ maxWheatSend ∧
        res.numWheatReceived ≤ maxWheatReceive) ∧
      (0 ≤ res.numSheepSend ∧ res.numSheepSend ≤ maxSheepSend ∧ res.numSheepSend ≤ maxSheepReceive) ∧
      (res.wheatStays = true → res.numWheatReceived * price.n ≤ res.numSheepSend * price.d) ∧
      (res.wheatStays = false → res.numSheepSend * price.d ≤ res.numWheatReceived * price.n)) ∧
    (∃ res, exchangeV10 price maxWheatSend maxWheatReceive maxSheepSend maxSheepReceive false = .ok res ∧
      (res.numWheatReceived = 0 ∧ res.numSheepSend = 0 ∨
        0 < res.numWheatReceived ∧ 0 < res.numSheepSend ∧
          |(price.n / price.d : ℚ) - res.numSheepSend / res.numWheatReceived|
            ≤ 1 / 100 * (price.n / price.d))) ∧
    (adjustOffer price maxWheatSend maxSheepReceive = .ok maxWheatSend →
      ∃ res, exchangeV10 price maxWheatSend maxWheatReceive maxSheepSend maxSheepReceive true =
        .ok res) := by
  obtain ⟨r, rfl⟩ := Ratio.exists_price ⟨hn.1, hn.2⟩ ⟨hd.1, hd.2⟩
  lift maxWheatSend to ℕ using hwheatSend.1 with W
  lift maxWheatReceive to ℕ using hwheatReceive.1 with R
  lift maxSheepSend to ℕ using hsheepSend.1 with S
  lift maxSheepReceive to ℕ using hsheepReceive.1 with T
  have hW : W ≤ 2 ^ 63 - 1 := by omega
  have hT : T ≤ 2 ^ 63 - 1 := by omega
  refine ⟨?_, ?_, fun hfixed => ?_⟩
  · have hwheat : (r.exchanged W R S T isPathPayment).1 ≤ min R W := r.exchanged_wheat_le isPathPayment
    have hsheep : (r.exchanged W R S T isPathPayment).2 ≤ min T S := r.exchanged_sheep_le isPathPayment
    have hwheat' : (0 : ℤ) ≤ (r.exchanged W R S T isPathPayment).1 ∧
        ((r.exchanged W R S T isPathPayment).1 : ℤ) ≤ W ∧
        ((r.exchanged W R S T isPathPayment).1 : ℤ) ≤ R := by omega
    have hsheep' : (0 : ℤ) ≤ (r.exchanged W R S T isPathPayment).2 ∧
        ((r.exchanged W R S T isPathPayment).2 : ℤ) ≤ S ∧
        ((r.exchanged W R S T isPathPayment).2 : ℤ) ≤ T := by omega
    have hfavours := r.exchanged_favours W R S T isPathPayment
    refine ⟨_, r.exchangeV10WithoutPriceErrorThresholds_eq hW hT isPathPayment, ?_, hwheat', hsheep',
      fun h => ?_, fun h => ?_⟩
    · exact r.formedValues_lt hwheatSend hwheatReceive hsheepSend hsheepReceive
        ⟨hwheat'.1, hwheat'.2.1⟩ ⟨hsheep'.1, hsheep'.2.1⟩
    · show ((r.exchanged W R S T isPathPayment).1 : ℤ) * r.n ≤ (r.exchanged W R S T isPathPayment).2 * r.d
      exact_mod_cast hfavours.1 h
    · show ((r.exchanged W R S T isPathPayment).2 : ℤ) * r.d ≤ (r.exchanged W R S T isPathPayment).1 * r.n
      exact_mod_cast hfavours.2 h
  · refine ⟨_, r.exchangeV10_direct hW hT, ?_⟩
    obtain h | ⟨h, hwheat, hsheep, hnear⟩ := r.kept_cases (r.exchanged W R S T false)
    · exact .inl (by rw [h]; exact ⟨rfl, rfl⟩)
    · rw [h]
      refine .inr ⟨Int.natCast_pos.mpr hwheat, Int.natCast_pos.mpr hsheep, ?_⟩
      simpa only [Ratio.price, Int.cast_natCast] using (r.near_iff hwheat).mp hnear
  · rw [r.adjustOffer_eq hW hT] at hfixed
    have hadjusted : r.adjusted W T = W := Int.ofNat_inj.mp (Except.ok.inj hfixed)
    exact ⟨_, r.exchangeV10_path hW hT hadjusted⟩

/-- A price next to zero, with nothing to bound the amounts. -/
theorem exchangeV10_total_extreme :
    ∃ res, exchangeV10WithoutPriceErrorThresholds ⟨1, 2 ^ 31 - 1⟩ (2 ^ 63 - 1) (2 ^ 63 - 1) (2 ^ 63 - 1)
        1 true = .ok res ∧
      0 ≤ res.numSheepSend ∧ res.numSheepSend ≤ 1 := by
  obtain ⟨⟨res, hrun, -, -, hsheep, -⟩, -⟩ := exchangeV10_total ⟨1, 2 ^ 31 - 1⟩ (2 ^ 63 - 1) (2 ^ 63 - 1)
    (2 ^ 63 - 1) 1 true (by decide) (by decide) (by decide) (by decide) (by decide) (by decide)
  exact ⟨res, hrun, hsheep.1, hsheep.2.2⟩

/-! ## Adjusting an offer -/

/-- The liabilities of an offer are what it comes to as a whole. -/
theorem Ratio.offerLiabilities_eq (r : Ratio) {header : LedgerHeader} {offer : OfferEntry} {a : ℕ}
    (hversion : 10 ≤ header.ledgerVersion) (hprice : offer.price = r.price) (hamount : offer.amount = a)
    (ha : a ≤ 2 ^ 63 - 1) :
    ∃ stays, offerLiabilities header offer =
      .ok ⟨(r.whole a (2 ^ 63 - 1)).1, (r.whole a (2 ^ 63 - 1)).2, stays⟩ := by
  unfold offerLiabilities
  rw [(throwIf_ok (u := ())).mpr (not_lt.mpr hversion), hprice, hamount, INT64_MAX_eq,
    r.exchangeV10WithoutPriceErrorThresholds_eq ha le_rfl]
  exact ⟨_, rfl⟩

/-- **An adjusted offer stays as it is**, and its liabilities fit the limits it was adjusted to. -/
theorem adjustOffer_stable (price : Price) (maxWheatSend maxSheepReceive : ℤ)
    (hn : 1 ≤ price.n ∧ price.n < 2 ^ 31) (hd : 1 ≤ price.d ∧ price.d < 2 ^ 31)
    (hsend : 0 ≤ maxWheatSend ∧ maxWheatSend < 2 ^ 63)
    (hreceive : 0 ≤ maxSheepReceive ∧ maxSheepReceive < 2 ^ 63) :
    ∃ amount, adjustOffer price maxWheatSend maxSheepReceive = .ok amount ∧
      0 ≤ amount ∧ amount ≤ maxWheatSend ∧
      (∀ maxSheepReceive', maxSheepReceive ≤ maxSheepReceive' → maxSheepReceive' < 2 ^ 63 →
        adjustOffer price amount maxSheepReceive' = .ok amount) ∧
      (0 < amount → ∀ (header : LedgerHeader) (offer : OfferEntry), 10 ≤ header.ledgerVersion →
        offer.price = price → offer.amount = amount →
        getOfferSellingLiabilities header offer = .ok amount ∧
        ∃ buying, getOfferBuyingLiabilities header offer = .ok buying ∧
          0 < buying ∧ buying ≤ maxSheepReceive) := by
  obtain ⟨r, rfl⟩ := Ratio.exists_price ⟨hn.1, hn.2⟩ ⟨hd.1, hd.2⟩
  lift maxWheatSend to ℕ using hsend.1 with W
  lift maxSheepReceive to ℕ using hreceive.1 with T
  have hW : W ≤ 2 ^ 63 - 1 := by omega
  have hT : T ≤ 2 ^ 63 - 1 := by omega
  refine ⟨r.adjusted W T, r.adjustOffer_eq hW hT, Int.natCast_nonneg _,
    Int.ofNat_le.mpr (r.adjusted_le W T), fun T' hle hT' => ?_, fun hpos header offer hversion hprice hamount => ?_⟩
  · lift T' to ℕ using by omega
    rw [r.adjustOffer_eq ((r.adjusted_le W T).trans hW) (by omega),
      r.adjusted_again hW (by omega) (by omega)]
  · obtain hzero | ⟨hwhole, hwheat, hsheep, -⟩ := r.adjusted_cases W T
    · omega
    have hagain := r.whole_again hW hT le_rfl
    obtain ⟨stays, hliabilities⟩ := r.offerLiabilities_eq hversion hprice hamount
      ((r.adjusted_le W T).trans hW)
    rw [hwhole, hagain] at hliabilities
    unfold getOfferSellingLiabilities getOfferBuyingLiabilities
    rw [hliabilities, hwhole]
    exact ⟨rfl, _, rfl, Int.natCast_pos.mpr hsheep, Int.ofNat_le.mpr (r.whole_le W T).2⟩

/-- An offer at three sevenths. -/
theorem adjustOffer_stable_sevenths : ∃ amount,
    adjustOffer ⟨3, 7⟩ 1000 400 = .ok amount ∧ adjustOffer ⟨3, 7⟩ amount (2 ^ 63 - 1) = .ok amount := by
  obtain ⟨amount, hadjust, -, -, hagain, -⟩ := adjustOffer_stable ⟨3, 7⟩ 1000 400 (by decide) (by decide)
    (by decide) (by decide)
  exact ⟨amount, hadjust, hagain _ (by decide) (by decide)⟩

end ZaggCore.Transactions
