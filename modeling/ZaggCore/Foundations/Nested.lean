import Mathlib

/-! # Programs over a store with nested transactions

A program runs on a state, may throw, and leaves a state behind however it ends. `committed` and
`rolledBack` run it in a nested transaction: what `restore` takes back from the old state is the store,
the rest of the state is outside of every transaction and stays as the program left it. The lemmas take
a run that ended well apart into the runs of its parts. -/

namespace ZaggCore.Foundations
set_option autoImplicit false
set_option maxHeartbeats 250000

variable {ε σ α β : Type}

/-! ## Runs and their parts -/

theorem bind_ok {x : EStateM ε σ α} {f : α → EStateM ε σ β} {s s'' : σ} {b : β} :
    (x >>= f) s = .ok b s'' ↔ ∃ a s', x s = .ok a s' ∧ f a s' = .ok b s'' := by
  change EStateM.bind x f s = _ ↔ _
  unfold EStateM.bind
  cases x s <;> simp

theorem bind_error {x : EStateM ε σ α} {f : α → EStateM ε σ β} {s s'' : σ} {e : ε} :
    (x >>= f) s = .error e s'' ↔
      x s = .error e s'' ∨ ∃ a s', x s = .ok a s' ∧ f a s' = .error e s'' := by
  change EStateM.bind x f s = _ ↔ _
  unfold EStateM.bind
  cases x s <;> simp

theorem map_ok {g : α → β} {x : EStateM ε σ α} {s s' : σ} {b : β} :
    (g <$> x) s = .ok b s' ↔ ∃ a, x s = .ok a s' ∧ g a = b := by
  change EStateM.map g x s = _ ↔ _
  unfold EStateM.map
  cases x s <;> simp [and_comm]

theorem pure_ok {a b : α} {s s' : σ} :
    (pure a : EStateM ε σ α) s = .ok b s' ↔ a = b ∧ s = s' := by
  change EStateM.Result.ok a s = _ ↔ _
  simp

theorem pure_error {a : α} {e : ε} {s s' : σ} :
    ¬ (pure a : EStateM ε σ α) s = .error e s' := by
  change ¬ EStateM.Result.ok a s = _
  simp

theorem throw_ok {e : ε} {b : α} {s s' : σ} :
    ¬ (throw e : EStateM ε σ α) s = .ok b s' := by
  change ¬ EStateM.Result.error e s = _
  simp

theorem get_ok {s s' b : σ} : (get : EStateM ε σ σ) s = .ok b s' ↔ s = b ∧ s = s' := by
  change EStateM.Result.ok s s = _ ↔ _
  simp

theorem modify_ok {g : σ → σ} {s s' : σ} {u : PUnit} :
    (modify g : EStateM ε σ PUnit) s = .ok u s' ↔ g s = s' := by
  change EStateM.Result.ok PUnit.unit (g s) = _ ↔ _
  simp

theorem except_bind_ok {x : Except ε α} {f : α → Except ε β} {b : β} :
    (x >>= f) = .ok b ↔ ∃ a, x = .ok a ∧ f a = .ok b := by
  cases x <;> simp [bind, Except.bind]

theorem except_pure_ok {a b : α} : (pure a : Except ε α) = .ok b ↔ a = b := by
  simp [pure, Except.pure]

/-- A computation on no state, as a part of a program. -/
def lift (x : Except ε α) : EStateM ε σ α := fun s =>
  match x with
  | .ok a => .ok a s
  | .error e => .error e s

instance liftExcept : MonadLift (Except ε) (EStateM ε σ) := ⟨lift⟩

theorem lift_ok {x : Except ε α} {s s' : σ} {a : α} :
    (liftM x : EStateM ε σ α) s = .ok a s' ↔ x = .ok a ∧ s = s' := by
  change lift x s = _ ↔ _
  cases x <;> simp [lift]

/-! ## Nested transactions -/

section Nested

variable (restore : σ → σ → σ)

/-- `x` in a nested transaction that is committed unless `x` throws. -/
def committed (x : EStateM ε σ α) : EStateM ε σ α := fun s =>
  match x s with
  | .ok a s' => .ok a s'
  | .error e s' => .error e (restore s s')

/-- `x` in a nested transaction that is always rolled back. -/
def rolledBack (x : EStateM ε σ α) : EStateM ε σ α := fun s =>
  match x s with
  | .ok a s' => .ok a (restore s s')
  | .error e s' => .error e (restore s s')

/-- `x` in a nested transaction that is committed if `x` says so beside its result. -/
def committedIf (x : EStateM ε σ (α × Bool)) : EStateM ε σ α := fun s =>
  match x s with
  | .ok (a, true) s' => .ok a s'
  | .ok (a, false) s' => .ok a (restore s s')
  | .error e s' => .error e (restore s s')

variable {restore}

theorem committed_ok {x : EStateM ε σ α} {s s' : σ} {a : α} :
    committed restore x s = .ok a s' ↔ x s = .ok a s' := by
  unfold committed
  cases x s <;> simp

theorem committed_error {x : EStateM ε σ α} {s s' : σ} {e : ε} :
    committed restore x s = .error e s' ↔ ∃ s₁, x s = .error e s₁ ∧ restore s s₁ = s' := by
  unfold committed
  cases x s <;> simp

theorem rolledBack_ok {x : EStateM ε σ α} {s s' : σ} {a : α} :
    rolledBack restore x s = .ok a s' ↔ ∃ s₁, x s = .ok a s₁ ∧ restore s s₁ = s' := by
  unfold rolledBack
  cases x s <;> simp

theorem committedIf_ok {x : EStateM ε σ (α × Bool)} {s s' : σ} {a : α} :
    committedIf restore x s = .ok a s' ↔
      x s = .ok (a, true) s' ∨ ∃ s₁, x s = .ok (a, false) s₁ ∧ restore s s₁ = s' := by
  unfold committedIf
  rcases x s with ⟨⟨b, _ | _⟩, s₁⟩ | ⟨e, s₁⟩ <;> simp

theorem committedIf_error {x : EStateM ε σ (α × Bool)} {s s' : σ} {e : ε} :
    committedIf restore x s = .error e s' ↔ ∃ s₁, x s = .error e s₁ ∧ restore s s₁ = s' := by
  unfold committedIf
  rcases x s with ⟨⟨b, _ | _⟩, s₁⟩ | ⟨e, s₁⟩ <;> simp

end Nested

/-! ## What every end of a run keeps -/

/-- The state a run ends in, well or not. -/
def after : EStateM.Result ε σ α → σ
  | .ok _ s => s
  | .error _ s => s

/-- What a run returns. -/
def result? : EStateM.Result ε σ α → Option α
  | .ok a _ => some a
  | .error _ _ => none

theorem eq_ok_of_result? {r : EStateM.Result ε σ α} {a : α} (h : result? r = some a) :
    r = .ok a (after r) := by
  cases r with
  | ok b s => rw [← Option.some.inj h]; rfl
  | error e s => cases h

/-- What a run throws. -/
def thrown? : EStateM.Result ε σ α → Option ε
  | .ok _ _ => none
  | .error e _ => some e

theorem eq_error_of_thrown? {r : EStateM.Result ε σ α} {e : ε} (h : thrown? r = some e) :
    r = .error e (after r) := by
  cases r with
  | ok a s => cases h
  | error e' s => rw [← Option.some.inj h]; rfl

theorem after_bind_of_ok {x : EStateM ε σ α} {f : α → EStateM ε σ β} {s s' : σ} {a : α}
    (h : x s = .ok a s') : after ((x >>= f) s) = after (f a s') := by
  change after (EStateM.bind x f s) = _
  rw [EStateM.bind, h]

/-- However a run ends, its end is related to its start. -/
def Keeps (R : σ → σ → Prop) (x : EStateM ε σ α) : Prop := ∀ s, R s (after (x s))

section Keeps

variable {R : σ → σ → Prop} {x : EStateM ε σ α} {f : α → EStateM ε σ β}

theorem Keeps.ok (h : Keeps R x) {s s' : σ} {a : α} (hx : x s = .ok a s') : R s s' := by
  have := h s
  rwa [hx] at this

theorem Keeps.error (h : Keeps R x) {s s' : σ} {e : ε} (hx : x s = .error e s') : R s s' := by
  have := h s
  rwa [hx] at this

theorem Keeps.mono {R' : σ → σ → Prop} (h : Keeps R x) (hR : ∀ s s', R s s' → R' s s') :
    Keeps R' x :=
  fun s => hR _ _ (h s)

theorem Keeps.pure [Std.Refl R] (a : α) : Keeps R (Pure.pure a : EStateM ε σ α) :=
  fun s => refl_of R s

theorem Keeps.throw [Std.Refl R] (e : ε) : Keeps R (throw e : EStateM ε σ α) :=
  fun s => refl_of R s

theorem Keeps.get [Std.Refl R] : Keeps R (get : EStateM ε σ σ) := fun s => refl_of R s

theorem Keeps.modify {g : σ → σ} (h : ∀ s, R s (g s)) : Keeps R (modify g : EStateM ε σ PUnit) := h

theorem Keeps.lift [Std.Refl R] (y : Except ε α) : Keeps R (liftM y : EStateM ε σ α) := by
  cases y <;> exact fun s => refl_of R s

theorem Keeps.bind [IsTrans σ R] (hx : Keeps R x) (hf : ∀ a, Keeps R (f a)) : Keeps R (x >>= f) := by
  intro s
  change R s (after (EStateM.bind x f s))
  unfold EStateM.bind
  cases h : x s with
  | ok a s' => exact trans_of R (hx.ok h) (hf a s')
  | error e s' => exact hx.error h

theorem Keeps.map (g : α → β) (hx : Keeps R x) : Keeps R (g <$> x) := by
  intro s
  change R s (after (EStateM.map g x s))
  unfold EStateM.map
  cases h : x s with
  | ok a s' => exact hx.ok h
  | error e s' => exact hx.error h

theorem Keeps.ite {c : Prop} [Decidable c] {y : EStateM ε σ α} (hx : c → Keeps R x)
    (hy : ¬ c → Keeps R y) : Keeps R (if c then x else y) := by
  split_ifs with h
  · exact hx h
  · exact hy h

variable {restore : σ → σ → σ}

/-- A rolled back program may change only what is outside of the store. -/
theorem Keeps.rolledBack (h : ∀ s, R s (restore s (after (x s)))) :
    Keeps R (rolledBack restore x) := by
  intro s
  have := h s
  unfold Foundations.rolledBack
  cases hx : x s <;> rwa [hx] at this

theorem Keeps.committed (hx : Keeps R x) (h : ∀ s, R s (restore s (after (x s)))) :
    Keeps R (committed restore x) := by
  intro s
  have := h s
  unfold Foundations.committed
  cases hs : x s with
  | ok a s' => exact hx.ok hs
  | error e s' => rwa [hs] at this

theorem Keeps.committedIf {y : EStateM ε σ (α × Bool)} (hy : Keeps R y)
    (h : ∀ s, R s (restore s (after (y s)))) : Keeps R (committedIf restore y) := by
  intro s
  have := h s
  unfold Foundations.committedIf
  rcases hs : y s with ⟨⟨a, _ | _⟩, s'⟩ | ⟨e, s'⟩
  · rwa [hs] at this
  · exact hy.ok hs
  · rwa [hs] at this

end Keeps

end ZaggCore.Foundations
