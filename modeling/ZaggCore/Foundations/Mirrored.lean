import ZaggCore.Foundations.Triples

/-! # Mirrored programs

One program mirrors another if it does the same on a state that carries something more. The rules follow
the shape of the program. -/

namespace ZaggCore.Foundations
set_option autoImplicit false
set_option maxHeartbeats 250000

variable {ε σ τ α β : Type} {f : σ → τ}

/-- The same end, with what the state carries forgotten. -/
def mapState (f : σ → τ) : EStateM.Result ε σ α → EStateM.Result ε τ α
  | .ok a s => .ok a (f s)
  | .error e s => .error e (f s)

theorem after_mapState (r : EStateM.Result ε σ α) : after (mapState f r) = f (after r) := by
  cases r <;> rfl

/-- `x` does what `y` does on the forgetful state. -/
def Mirrors (f : σ → τ) (x : EStateM ε σ α) (y : EStateM ε τ α) : Prop := ∀ s, mapState f (x s) = y (f s)

namespace Mirrors

variable {x : EStateM ε σ α} {y : EStateM ε τ α}

theorem pure (a : α) : Mirrors f (Pure.pure a : EStateM ε σ α) (Pure.pure a) := fun _ => rfl

theorem throw (e : ε) : Mirrors f (throw e : EStateM ε σ α) (throw e) := fun _ => rfl

theorem modify {g : σ → σ} {h : τ → τ} (heq : ∀ s, f (g s) = h (f s)) :
    Mirrors f (modify g : EStateM ε σ PUnit) (modify h) := by
  intro s
  exact congrArg (EStateM.Result.ok PUnit.unit) (heq s)

theorem bind {x' : α → EStateM ε σ β} {y' : α → EStateM ε τ β} (hx : Mirrors f x y)
    (hx' : ∀ a, Mirrors f (x' a) (y' a)) : Mirrors f (x >>= x') (y >>= y') := by
  intro s
  have hs := hx s
  change mapState f (EStateM.bind x x' s) = EStateM.bind y y' (f s)
  unfold EStateM.bind
  cases h : x s with
  | ok a s' =>
    rw [h] at hs
    rw [← hs]
    exact hx' a s'
  | error e s' =>
    rw [h] at hs
    rw [← hs]
    rfl

theorem map (g : α → β) (hx : Mirrors f x y) : Mirrors f (g <$> x) (g <$> y) := by
  intro s
  have hs := hx s
  change mapState f (EStateM.map g x s) = EStateM.map g y (f s)
  unfold EStateM.map
  rw [← hs]
  cases x s <;> rfl

/-- Two programs that begin by looking at their states. -/
theorem get_bind {x' : σ → EStateM ε σ β} {y' : τ → EStateM ε τ β}
    (h : ∀ s, Mirrors f (x' s) (y' (f s))) : Mirrors f (get >>= x') (get >>= y') :=
  fun s => h s s

theorem ite {c : Prop} [Decidable c] {x' : EStateM ε σ α} {y' : EStateM ε τ α} (hx : Mirrors f x y)
    (hx' : Mirrors f x' y') : Mirrors f (if c then x else x') (if c then y else y') := by
  split_ifs
  · exact hx
  · exact hx'

theorem onlyIf {c : Prop} [Decidable c] {x : EStateM ε σ Unit} {y : EStateM ε τ Unit}
    (hx : Mirrors f x y) : Mirrors f (Foundations.onlyIf c x) (Foundations.onlyIf c y) :=
  hx.ite (pure ())

/-- A part of the state that is itself mirrored. -/
theorem zoom {ε' ρ ρ' : Type} {get : σ → ρ} {set : ρ → σ → σ} {get' : τ → ρ'} {set' : ρ' → τ → τ}
    {wrap : ε' → ε} {g : ρ → ρ'} {x : EStateM ε' ρ α} {y : EStateM ε' ρ' α} (hx : Mirrors g x y)
    (hget : ∀ s, get' (f s) = g (get s)) (hset : ∀ r s, f (set r s) = set' (g r) (f s)) :
    Mirrors f (Foundations.zoom get set wrap x) (Foundations.zoom get' set' wrap y) := by
  intro s
  unfold Foundations.zoom
  rw [hget, ← hx (get s)]
  cases x (get s) with
  | ok a r => exact congrArg (EStateM.Result.ok a) (hset r s)
  | error e r => exact congrArg (EStateM.Result.error (wrap e)) (hset r s)

theorem forM {x : α → EStateM ε σ PUnit} {y : α → EStateM ε τ PUnit} (hx : ∀ a, Mirrors f (x a) (y a))
    (l : List α) : Mirrors f (l.forM x) (l.forM y) := by
  induction l with
  | nil => exact pure _
  | cons a l ih =>
    change Mirrors f (x a >>= fun _ => l.forM x) (y a >>= fun _ => l.forM y)
    exact (hx a).bind fun _ => ih

theorem foldlM {x : β → α → EStateM ε σ β} {y : β → α → EStateM ε τ β}
    (hx : ∀ b a, Mirrors f (x b a) (y b a)) (l : List α) (b : β) :
    Mirrors f (l.foldlM x b) (l.foldlM y b) := by
  induction l generalizing b with
  | nil => exact pure _
  | cons a l ih =>
    rw [List.foldlM_cons, List.foldlM_cons]
    exact (hx b a).bind ih

end Mirrors

end ZaggCore.Foundations
