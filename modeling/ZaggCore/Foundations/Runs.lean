import Mathlib

/-! # Runs of a step function

A run takes a step for each event of a list. `Throughout` speaks of every state of a run, `EachStep` of
every step of it; the rules go from one to the other by an invariant. -/

namespace ZaggCore.Foundations
set_option autoImplicit false
set_option maxHeartbeats 250000

section Runs

variable {σ ε : Type*} (step : σ → ε → σ)

/-- Every state of the run, the first one included, has the property. -/
def Throughout (P : σ → Prop) : σ → List ε → Prop
  | s, [] => P s
  | s, e :: es => P s ∧ Throughout P (step s e) es

/-- Every event of the run satisfies the condition in the state it meets. -/
def EachStep (C : σ → ε → Prop) : σ → List ε → Prop
  | _, [] => True
  | s, e :: es => C s e ∧ EachStep C (step s e) es

instance decidableEachStep (C : σ → ε → Prop) [∀ s e, Decidable (C s e)] :
    ∀ (s : σ) (es : List ε), Decidable (EachStep step C s es)
  | _, [] => isTrue trivial
  | s, e :: es => by
    unfold EachStep
    have := decidableEachStep C (step s e) es
    infer_instance

variable {step} {I P Q : σ → Prop} {C : σ → ε → Prop} {s : σ} {es : List ε}

theorem Throughout.head (h : Throughout step P s es) : P s := by
  cases es with
  | nil => exact h
  | cons e es => exact h.1

/-- The property holds of the state after any part of the run. -/
theorem Throughout.of_append {before after : List ε} (h : Throughout step P s (before ++ after)) :
    P (before.foldl step s) := by
  induction before generalizing s with
  | nil => exact h.head
  | cons e before ih => exact ih h.2

theorem Throughout.mono (h : Throughout step P s es) (hPQ : ∀ s, P s → Q s) :
    Throughout step Q s es := by
  induction es generalizing s with
  | nil => exact hPQ s h
  | cons e es ih => exact ⟨hPQ s h.1, ih h.2⟩

/-- An invariant that every step under the condition keeps holds throughout. -/
theorem throughout_of_eachStep (hstep : ∀ s e, I s → C s e → I (step s e)) (hs : I s)
    (h : EachStep step C s es) : Throughout step I s es := by
  induction es generalizing s with
  | nil => exact hs
  | cons e es ih => exact ⟨hs, ih (hstep s e hs h.1) h.2⟩

/-- An invariant that every step keeps holds throughout. -/
theorem throughout_of_step (hstep : ∀ s e, I s → I (step s e)) (hs : I s) (es : List ε) :
    Throughout step I s es := by
  induction es generalizing s with
  | nil => exact hs
  | cons e es ih => exact ⟨hs, ih (hstep s e hs)⟩

/-- A condition that follows from the states before and after a step holds of each step. -/
theorem eachStep_of_throughout (hstep : ∀ s e, P s → P (step s e) → C s e)
    (h : Throughout step P s es) : EachStep step C s es := by
  induction es generalizing s with
  | nil => trivial
  | cons e es ih => exact ⟨hstep s e h.1 h.2.head, ih h.2⟩

/-- The same with an invariant that the condition of each step keeps. -/
theorem eachStep_of_throughout_of_inv (hstep : ∀ s e, I s → P (step s e) → C s e)
    (hkeep : ∀ s e, I s → C s e → I (step s e)) (hs : I s) (h : Throughout step P s es) :
    EachStep step C s es := by
  induction es generalizing s with
  | nil => trivial
  | cons e es ih =>
    have hC := hstep s e hs h.2.head
    exact ⟨hC, ih (hkeep s e hs hC) h.2⟩

/-- What an invariant and the condition of a step give for the step holds of each step. -/
theorem eachStep_of_inv {D : σ → ε → Prop} (hkeep : ∀ s e, I s → C s e → I (step s e))
    (hstep : ∀ s e, I s → C s e → D s e) (hs : I s) (h : EachStep step C s es) :
    EachStep step D s es := by
  induction es generalizing s with
  | nil => trivial
  | cons e es ih => exact ⟨hstep s e hs h.1, ih (hkeep s e hs h.1) h.2⟩

end Runs

end ZaggCore.Foundations
