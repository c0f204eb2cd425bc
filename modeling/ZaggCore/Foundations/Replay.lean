import Mathlib
import ZaggCore.Foundations.Nested

/-! # Programs that are run again

A state has an outside part, which programs consult and no transaction brings back. A program is
`Inert` if it neither reads nor changes that part; it `Replays` its good results if, started again with
an outside part that knows all the run has left there, it ends the same way. -/

namespace ZaggCore.Foundations
set_option autoImplicit false
set_option maxHeartbeats 250000

/-- A part of the states of `σ`, with what makes it one. -/
structure Part (σ X : Type) where
  get : σ → X
  set : σ → X → σ
  get_set : ∀ s e, get (set s e) = e
  set_get : ∀ s, set s (get s) = s
  set_set : ∀ s e e', set (set s e) e' = set s e'

attribute [simp] Part.get_set Part.set_get Part.set_set

variable {ε σ X α β : Type} (P : Part σ X)

/-- The same run, seen with another outside part. -/
def Part.onResult (e : X) : EStateM.Result ε σ α → EStateM.Result ε σ α
  | .ok a s => .ok a (P.set s e)
  | .error err s => .error err (P.set s e)

/-- The program neither reads nor changes the outside part. -/
def Inert (x : EStateM ε σ α) : Prop := ∀ s e, x (P.set s e) = P.onResult e (x s)

section Inert

variable {P} {x : EStateM ε σ α} {f : α → EStateM ε σ β}

theorem Inert.pure (a : α) : Inert P (Pure.pure a : EStateM ε σ α) := fun _ _ => rfl

theorem Inert.bind (hx : Inert P x) (hf : ∀ a, Inert P (f a)) : Inert P (x >>= f) := by
  intro s e
  change EStateM.bind x f (P.set s e) = P.onResult e (EStateM.bind x f s)
  unfold EStateM.bind
  rw [hx s e]
  cases x s with
  | ok a s' => exact hf a s' e
  | error err s' => rfl

theorem Inert.ite {c : Prop} [Decidable c] {y : EStateM ε σ α} (hx : Inert P x) (hy : Inert P y) :
    Inert P (if c then x else y) := by
  split_ifs
  · exact hx
  · exact hy

theorem Inert.rolledBack {restore : σ → σ → σ}
    (hr : ∀ s s' e, restore (P.set s e) (P.set s' e) = P.set (restore s s') e) (hx : Inert P x) :
    Inert P (rolledBack restore x) := by
  intro s e
  unfold Foundations.rolledBack
  rw [hx s e]
  cases x s with
  | ok a s' => exact congrArg (EStateM.Result.ok a) (hr s s' e)
  | error err s' => exact congrArg (EStateM.Result.error err) (hr s s' e)

/-- What is inert leaves the outside part as it was. -/
theorem Inert.get_ok (hx : Inert P x) {s s' : σ} {a : α} (h : x s = .ok a s') :
    P.get s' = P.get s := by
  have heq := hx s (P.get s)
  rw [P.set_get, h] at heq
  have hs := congrArg (fun r : EStateM.Result ε σ α => P.get (after r)) heq
  simpa [after, Part.onResult] using hs

end Inert

section Replays

variable (le : X → X → Prop)

/-- A run that ends in `a` with `good a` goes the same way from any outside part that is beyond the one it
left, and leaves that one behind with more in it still. -/
def Replays (good : α → Prop) (x : EStateM ε σ α) : Prop :=
  ∀ s a s', x s = .ok a s' → good a →
    le (P.get s) (P.get s') ∧
      ∀ e, le (P.get s') e → ∃ e', le e e' ∧ x (P.set s e) = .ok a (P.set s' e')

variable {P le} {x : EStateM ε σ α} {f : α → EStateM ε σ β} {good : α → Prop} {good' : β → Prop}

theorem Inert.replays [Std.Refl le] (hx : Inert P x) : Replays P le good x := by
  intro s a s' h _
  rw [hx.get_ok h]
  refine ⟨refl_of le _, fun e _ => ⟨e, refl_of le e, ?_⟩⟩
  rw [hx s e, h]
  rfl

/-- A good end of the whole comes from a good end of the first part. -/
theorem Replays.bind [IsTrans X le] (hx : Replays P le good x) (hf : ∀ a, Replays P le good' (f a))
    (hgood : ∀ a s b s', f a s = .ok b s' → good' b → good a) :
    Replays P le good' (x >>= f) := by
  intro s b s₂ h hb
  obtain ⟨a, s₁, h₁, h₂⟩ := bind_ok.mp h
  obtain ⟨hle₁, again₁⟩ := hx s a s₁ h₁ (hgood a s₁ b s₂ h₂ hb)
  obtain ⟨hle₂, again₂⟩ := hf a s₁ b s₂ h₂ hb
  refine ⟨trans_of le hle₁ hle₂, fun e he => ?_⟩
  obtain ⟨e₁, he₁, hr₁⟩ := again₁ e (trans_of le hle₂ he)
  obtain ⟨e₂, he₂, hr₂⟩ := again₂ e₁ (trans_of le he he₁)
  exact ⟨e₂, trans_of le he₁ he₂, bind_ok.mpr ⟨a, P.set s₁ e₁, hr₁, hr₂⟩⟩

/-- In front of a program that replays, one that is inert makes no difference. -/
theorem Inert.bind_replays [Std.Refl le] [IsTrans X le] (hx : Inert P x)
    (hf : ∀ a, Replays P le good' (f a)) : Replays P le good' (x >>= f) :=
  hx.replays.bind hf fun _ _ _ _ _ _ => trivial

theorem Replays.pure [Std.Refl le] (a : α) : Replays P le good (Pure.pure a : EStateM ε σ α) :=
  (Inert.pure a).replays

theorem Replays.rolledBack {restore : σ → σ → σ}
    (hr : ∀ s s' e e', restore (P.set s e) (P.set s' e') = P.set (restore s s') e')
    (hget : ∀ s s', P.get (restore s s') = P.get s') (hx : Replays P le good x) :
    Replays P le good (rolledBack restore x) := by
  intro s a s' h ha
  obtain ⟨s₁, h₁, rfl⟩ := rolledBack_ok.mp h
  obtain ⟨hle, again⟩ := hx s a s₁ h₁ ha
  rw [hget]
  refine ⟨hle, fun e he => ?_⟩
  obtain ⟨e', he', hrun⟩ := again e he
  exact ⟨e', he', rolledBack_ok.mpr ⟨P.set s₁ e', hrun, hr s s₁ e e'⟩⟩

end Replays

end ZaggCore.Foundations
