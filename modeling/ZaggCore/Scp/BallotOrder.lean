import ZaggCore.Scp.BallotProtocol

/-! # The orders of ballots and statements

`compareBallots` compares in the lexicographic order of counter and value, and `isNewerStatement` in the
lexicographic order of (type, b, p, p', h). -/

namespace ZaggCore.Scp
set_option autoImplicit false
set_option maxHeartbeats 250000

variable {Value : Type} [LinearOrder Value]

namespace SCPBallot

/-- The ballot as a pair in lexicographic order. -/
def toPair (b : SCPBallot Value) : Uint32 ×ₗ Value := toLex (b.counter, b.value)

instance : LinearOrder (SCPBallot Value) := LinearOrder.lift' toPair (by
  rintro ⟨n, v⟩ ⟨m, w⟩ h
  cases h
  rfl)

theorem lt_iff (b1 b2 : SCPBallot Value) :
    b1 < b2 ↔ b1.counter < b2.counter ∨ b1.counter = b2.counter ∧ b1.value < b2.value :=
  Prod.Lex.lt_iff

theorem counter_le {b1 b2 : SCPBallot Value} (h : b1 ≤ b2) : b1.counter ≤ b2.counter := by
  obtain hlt | heq := (Prod.Lex.le_iff (x := b1.toPair) (y := b2.toPair)).mp h
  · exact hlt.le
  · exact heq.1.le

/-- Between ballots of one value the counters decide. -/
theorem le_iff_counter {b1 b2 : SCPBallot Value} (h : b1.value = b2.value) :
    b1 ≤ b2 ↔ b1.counter ≤ b2.counter := by
  rw [← not_lt, ← not_lt, lt_iff, h]
  simp

end SCPBallot

namespace BallotProtocol

theorem compareBallots_lt (b1 b2 : SCPBallot Value) : compareBallots b1 b2 < 0 ↔ b1 < b2 := by
  rw [SCPBallot.lt_iff]
  unfold compareBallots
  split_ifs with h1 h2 h3 h4 <;> simp [h1] <;> grind

theorem compareBallots_eq (b1 b2 : SCPBallot Value) : compareBallots b1 b2 = 0 ↔ b1 = b2 := by
  obtain ⟨n, v⟩ := b1
  obtain ⟨m, w⟩ := b2
  unfold compareBallots
  split_ifs with h1 h2 h3 h4 <;> simp <;> grind

theorem compareBallots_le (b1 b2 : SCPBallot Value) : compareBallots b1 b2 ≤ 0 ↔ b1 ≤ b2 := by
  rw [le_iff_lt_or_eq, le_iff_lt_or_eq, compareBallots_lt, compareBallots_eq]

theorem compareBallots_gt (b1 b2 : SCPBallot Value) : compareBallots b1 b2 > 0 ↔ b2 < b1 := by
  rw [gt_iff_lt, ← not_le, ← not_le, compareBallots_le]

theorem compareBallots_ge (b1 b2 : SCPBallot Value) : compareBallots b1 b2 ≥ 0 ↔ b2 ≤ b1 := by
  rw [ge_iff_le, ← not_lt, ← not_lt, compareBallots_lt]

theorem areBallotsCompatible_iff (b1 b2 : SCPBallot Value) :
    areBallotsCompatible b1 b2 = true ↔ b1.value = b2.value := by
  simp [areBallotsCompatible]

theorem areBallotsLessAndCompatible_iff (b1 b2 : SCPBallot Value) :
    areBallotsLessAndCompatible b1 b2 = true ↔ b1 ≤ b2 ∧ b1.value = b2.value := by
  simp [areBallotsLessAndCompatible, areBallotsCompatible, compareBallots_le]

theorem areBallotsLessAndIncompatible_iff (b1 b2 : SCPBallot Value) :
    areBallotsLessAndIncompatible b1 b2 = true ↔ b1 ≤ b2 ∧ b1.value ≠ b2.value := by
  simp [areBallotsLessAndIncompatible, areBallotsCompatible, compareBallots_le]

/-- A pointer as an element of the order with a least element. -/
abbrev ptr (b : Option (SCPBallot Value)) : WithBot (SCPBallot Value) := b

theorem compareBallotPtrs_lt (b1 b2 : Option (SCPBallot Value)) :
    compareBallotPtrs b1 b2 < 0 ↔ ptr b1 < ptr b2 := by
  cases b1 with
  | none =>
    cases b2 with
    | none => simp [compareBallotPtrs]
    | some b2 => exact iff_of_true (by decide : (-1 : ℤ) < 0) (WithBot.bot_lt_coe b2)
  | some b1 =>
    cases b2 with
    | none => simp [compareBallotPtrs, WithBot.none_eq_bot]
    | some b2 => exact (compareBallots_lt b1 b2).trans WithBot.coe_lt_coe.symm

theorem compareBallotPtrs_eq (b1 b2 : Option (SCPBallot Value)) :
    compareBallotPtrs b1 b2 = 0 ↔ ptr b1 = ptr b2 := by
  cases b1 with
  | none =>
    cases b2 with
    | none => exact iff_of_true rfl rfl
    | some b2 => exact iff_of_false (by decide : (-1 : ℤ) ≠ 0) nofun
  | some b1 =>
    cases b2 with
    | none => simp [compareBallotPtrs, ptr]
    | some b2 => exact (compareBallots_eq b1 b2).trans (Option.some_inj (a := b1) (b := b2)).symm

/-! ## Statements -/

/-- What statements are compared by. -/
abbrev Key (Value : Type) [LinearOrder Value] :=
  ℕ ×ₗ WithBot (SCPBallot Value) ×ₗ WithBot (SCPBallot Value) ×ₗ WithBot (SCPBallot Value) ×ₗ Uint32

/-- `p'` is not there in a CONFIRM, and nothing is compared between two EXTERNALIZE statements. -/
def key : BallotPledges Value → Key Value
  | .prepare _ ballot prepared preparedPrime _ nH =>
    toLex (0, toLex (ptr (some ballot), toLex (ptr prepared, toLex (ptr preparedPrime, nH))))
  | .confirm ballot nPrepared _ nH _ =>
    toLex (1, toLex (ptr (some ballot),
      toLex (ptr (some ⟨nPrepared, ballot.value⟩), toLex (⊥, nH))))
  | .externalize .. => toLex (2, toLex (⊥, toLex (⊥, toLex (⊥, 0))))

theorem isNewerStatement_iff (oldst st : BallotPledges Value) :
    isNewerStatement oldst st = true ↔ key oldst < key st := by
  cases oldst with
  | prepare _ b p p' _ nH =>
    cases st with
    | prepare _ b₁ p₁ p₁' _ nH₁ =>
      have hb : ptr (some b) < ptr (some b₁) ↔ b < b₁ := WithBot.coe_lt_coe
      have hb' : ptr (some b) = ptr (some b₁) ↔ b = b₁ := WithBot.coe_inj
      simp only [key, Prod.Lex.toLex_lt_toLex, lt_irrefl, false_or, true_and, hb, hb',
        ← compareBallotPtrs_lt, ← compareBallotPtrs_eq, ← compareBallots_lt, ← compareBallots_eq]
      dsimp only [isNewerStatement]
      split_ifs <;> grind
    | confirm => simp [key, isNewerStatement, BallotPledges.type, Prod.Lex.toLex_lt_toLex]
    | externalize => simp [key, isNewerStatement, BallotPledges.type, Prod.Lex.toLex_lt_toLex]
  | confirm b nPrepared _ nH _ =>
    cases st with
    | prepare => simp [key, isNewerStatement, BallotPledges.type, Prod.Lex.toLex_lt_toLex]
    | confirm b₁ nPrepared₁ _ nH₁ _ =>
      have hb : ptr (some b) < ptr (some b₁) ↔ b < b₁ := WithBot.coe_lt_coe
      have hb' : ptr (some b) = ptr (some b₁) ↔ b = b₁ := WithBot.coe_inj
      have hp : ∀ n m : Uint32, ptr (some ⟨n, b.value⟩) < ptr (some ⟨m, b.value⟩) ↔ n < m := by
        intro n m
        rw [show ptr (some ⟨n, b.value⟩) < ptr (some ⟨m, b.value⟩) ↔ _ from WithBot.coe_lt_coe,
          SCPBallot.lt_iff]
        simp
      simp only [key, Prod.Lex.toLex_lt_toLex, lt_irrefl, false_or, true_and, hb, hb',
        ← compareBallots_lt, ← compareBallots_eq]
      dsimp only [isNewerStatement]
      by_cases heq : b = b₁
      · subst heq
        have h0 : compareBallots b b = 0 := (compareBallots_eq b b).mpr rfl
        have hp' : ptr (some ⟨nPrepared, b.value⟩) = ptr (some ⟨nPrepared₁, b.value⟩) ↔
            nPrepared = nPrepared₁ := by
          rw [show ptr (some ⟨nPrepared, b.value⟩) = ptr (some ⟨nPrepared₁, b.value⟩) ↔ _
            from WithBot.coe_inj]
          simp
        simp only [h0, hp, hp', lt_irrefl, false_or, true_and, if_false, if_true]
        split_ifs with h <;> simp [h]
      · have h0 : compareBallots b b₁ ≠ 0 := fun h => heq ((compareBallots_eq b b₁).mp h)
        simp [h0]
    | externalize => simp [key, isNewerStatement, BallotPledges.type, Prod.Lex.toLex_lt_toLex]
  | externalize =>
    cases st <;> simp [key, isNewerStatement, BallotPledges.type, Prod.Lex.toLex_lt_toLex]

theorem isNewerStatement_irrefl (st : BallotPledges Value) : ¬ isNewerStatement st st = true := by
  rw [isNewerStatement_iff]
  exact lt_irrefl _

theorem isNewerStatement_asymm {a b : BallotPledges Value} (h : isNewerStatement a b = true) :
    ¬ isNewerStatement b a = true := by
  rw [isNewerStatement_iff] at h ⊢
  exact lt_asymm h

theorem isNewerStatement_trans {a b c : BallotPledges Value} (hab : isNewerStatement a b = true)
    (hbc : isNewerStatement b c = true) : isNewerStatement a c = true := by
  rw [isNewerStatement_iff] at hab hbc ⊢
  exact hab.trans hbc

end BallotProtocol

end ZaggCore.Scp
