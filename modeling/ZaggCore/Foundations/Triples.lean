import ZaggCore.Foundations.Nested

/-! # Triples

A triple says what holds however a run ends: one condition for the runs that return and one for those
that throw. The rules follow the shape of the program. -/

namespace ZaggCore.Foundations
set_option autoImplicit false
set_option maxHeartbeats 250000

variable {ε σ α β : Type}

/-- What holds of the end of a run. -/
def Ends (Q : α → σ → Prop) (E : ε → σ → Prop) : EStateM.Result ε σ α → Prop
  | .ok a s => Q a s
  | .error e s => E e s

/-- From a state under `P` the program returns under `Q` or throws under `E`. -/
def Triple (P : σ → Prop) (x : EStateM ε σ α) (Q : α → σ → Prop) (E : ε → σ → Prop) : Prop :=
  ∀ s, P s → Ends Q E (x s)

/-- A triple that says nothing of the runs that throw. -/
abbrev Partial (P : σ → Prop) (x : EStateM ε σ α) (Q : α → σ → Prop) : Prop :=
  Triple P x Q fun _ _ => True

variable {P P' : σ → Prop} {x : EStateM ε σ α} {f : α → EStateM ε σ β} {Q Q' : α → σ → Prop}
  {R : β → σ → Prop} {E E' : ε → σ → Prop}

theorem Ends.imp {r : EStateM.Result ε σ α} (h : Ends Q E r) (hQ : ∀ a s, Q a s → Q' a s)
    (hE : ∀ e s, E e s → E' e s) : Ends Q' E' r := by
  cases r with
  | ok a s => exact hQ a s h
  | error e s => exact hE e s h

theorem Ends.and {r : EStateM.Result ε σ α} (h : Ends Q E r) (h' : Ends Q' E' r) :
    Ends (fun a s => Q a s ∧ Q' a s) (fun e s => E e s ∧ E' e s) r := by
  cases r with
  | ok a s => exact ⟨h, h'⟩
  | error e s => exact ⟨h, h'⟩

theorem ends_bind_of_ok {s s' : σ} {a : α} (h : x s = .ok a s') :
    Ends R E ((x >>= f) s) ↔ Ends R E (f a s') := by
  change Ends R E (EStateM.bind x f s) ↔ _
  rw [EStateM.bind, h]

theorem ends_bind_of_error {s s' : σ} {e : ε} (h : x s = .error e s') :
    Ends R E ((x >>= f) s) ↔ E e s' := by
  change Ends R E (EStateM.bind x f s) ↔ _
  rw [EStateM.bind, h]
  rfl

/-- A run under `Q` goes on from where it is. -/
theorem Ends.bind {s : σ} (hx : Ends Q E (x s)) (hf : ∀ a s', Q a s' → Ends R E (f a s')) :
    Ends R E ((x >>= f) s) := by
  cases h : x s with
  | ok a s' =>
    rw [h] at hx
    exact (ends_bind_of_ok h).mpr (hf a s' hx)
  | error e s' =>
    rw [h] at hx
    exact (ends_bind_of_error h).mpr hx

/-- The run returns under `Q`. -/
abbrev Returns (Q : α → σ → Prop) (r : EStateM.Result ε σ α) : Prop := Ends Q (fun _ _ => False) r

theorem Returns.exists_ok {r : EStateM.Result ε σ α} (h : Returns Q r) : ∃ a s, r = .ok a s ∧ Q a s := by
  cases r with
  | ok a s => exact ⟨a, s, rfl, h⟩
  | error e s => exact h.elim

theorem Returns.of_ok {r : EStateM.Result ε σ α} {a : α} {s : σ} (h : r = .ok a s) (hQ : Q a s) :
    Returns Q r := by
  rw [h]
  exact hQ

theorem Returns.committed {restore : σ → σ → σ} {s : σ} (h : Returns Q (x s)) :
    Returns Q (Foundations.committed restore x s) := by
  obtain ⟨a, s', hx, hq⟩ := h.exists_ok
  exact .of_ok (committed_ok.mpr hx) hq

theorem Returns.rolledBack {restore : σ → σ → σ} {s : σ} (h : Returns (fun a s' => Q a (restore s s')) (x s)) :
    Returns Q (Foundations.rolledBack restore x s) := by
  obtain ⟨a, s', hx, hq⟩ := h.exists_ok
  exact .of_ok (rolledBack_ok.mpr ⟨s', hx, rfl⟩) hq

/-- A nested transaction that the program wants committed. -/
theorem Returns.committedIf {restore : σ → σ → σ} {y : EStateM ε σ (α × Bool)} {s : σ}
    (h : Returns (fun a s' => a.2 = true ∧ Q a.1 s') (y s)) :
    Returns Q (Foundations.committedIf restore y s) := by
  obtain ⟨⟨a, b⟩, s', hy, rfl, hq⟩ := h.exists_ok
  exact .of_ok (committedIf_ok.mpr (.inl hy)) hq

theorem Ends.after {I : σ → Prop} {r : EStateM.Result ε σ α} (h : Ends Q E r)
    (hQ : ∀ a s, Q a s → I s) (hE : ∀ e s, E e s → I s) : I (Foundations.after r) := by
  cases r with
  | ok a s => exact hQ a s h
  | error e s => exact hE e s h

theorem Triple.pre (h : Triple P x Q E) (hP : ∀ s, P' s → P s) : Triple P' x Q E :=
  fun s hs => h s (hP s hs)

theorem Triple.post (h : Triple P x Q E) (hQ : ∀ a s, Q a s → Q' a s) : Triple P x Q' E :=
  fun s hs => (h s hs).imp hQ fun _ _ he => he

theorem Triple.error (h : Triple P x Q E) (hE : ∀ e s, E e s → E' e s) : Triple P x Q E' :=
  fun s hs => (h s hs).imp (fun _ _ hq => hq) hE

theorem Partial.ok (h : Partial P x Q) {s s' : σ} {a : α} (hs : P s) (hx : x s = .ok a s') : Q a s' := by
  have hr := h s hs
  rwa [hx] at hr

/-- Two triples of one program hold together. -/
theorem Triple.and (h : Triple P x Q E) (h' : Triple P' x Q' E') :
    Triple (fun s => P s ∧ P' s) x (fun a s => Q a s ∧ Q' a s) fun e s => E e s ∧ E' e s :=
  fun s hs => (h s hs.1).and (h' s hs.2)

/-- What the precondition says of no state is a hypothesis. -/
theorem Triple.assume {p : Prop} (h : p → Triple P x Q E) : Triple (fun s => P s ∧ p) x Q E :=
  fun s hs => h hs.2 s hs.1

theorem Triple.pure {a : α} (h : ∀ s, P s → Q a s) : Triple P (Pure.pure a) Q E := h

theorem Triple.throw {e : ε} (h : ∀ s, P s → E e s) : Triple P (throw e : EStateM ε σ α) Q E := h

theorem Partial.throw {e : ε} : Partial P (throw e : EStateM ε σ α) Q := fun _ _ => trivial

/-- Nothing is asked of the run. -/
theorem Triple.any : Partial P x fun _ _ => True := by
  intro s _
  cases x s <;> trivial

theorem Triple.modify {g : σ → σ} {Q : PUnit → σ → Prop} (h : ∀ s, P s → Q ⟨⟩ (g s)) :
    Triple P (modify g : EStateM ε σ PUnit) Q E := h

theorem Triple.bind (hx : Triple P x Q E) (hf : ∀ a, Triple (Q a) (f a) R E) :
    Triple P (x >>= f) R E := by
  intro s hs
  have hr := hx s hs
  change Ends R E (EStateM.bind x f s)
  unfold EStateM.bind
  cases h : x s with
  | ok a s' =>
    rw [h] at hr
    exact hf a s' hr
  | error e s' =>
    rw [h] at hr
    exact hr

theorem Triple.map (g : α → β) (h : Triple P x (fun a s => R (g a) s) E) :
    Triple P (g <$> x) R E := by
  intro s hs
  have hr := h s hs
  change Ends R E (EStateM.map g x s)
  unfold EStateM.map
  cases hx : x s <;> rwa [hx] at hr

/-- A computation on no state. -/
theorem Triple.lift {y : Except ε α} (hok : ∀ a s, y = .ok a → P s → Q a s)
    (herror : ∀ e s, y = .error e → P s → E e s) : Triple P (liftM y : EStateM ε σ α) Q E := by
  intro s hs
  change Ends Q E (Foundations.lift y s)
  cases y with
  | ok a => exact hok a s rfl hs
  | error e => exact herror e s rfl hs

/-- A program that begins by looking at its state goes on from that very state. -/
theorem Triple.get_bind {f : σ → EStateM ε σ β} (h : ∀ s, P s → Triple (· = s) (f s) R E) :
    Triple P (get >>= f) R E :=
  fun s hs => h s hs s rfl

theorem Triple.ite {c : Prop} [Decidable c] {y : EStateM ε σ α} (hx : c → Triple P x Q E)
    (hy : ¬ c → Triple P y Q E) : Triple P (if c then x else y) Q E := by
  split_ifs with h
  · exact hx h
  · exact hy h

/-- `if (c) { x }` -/
def onlyIf (c : Prop) [Decidable c] (x : EStateM ε σ Unit) : EStateM ε σ Unit :=
  if c then x else Pure.pure ()

theorem Triple.onlyIf {c : Prop} [Decidable c] {x : EStateM ε σ Unit} {Q : Unit → σ → Prop}
    (hx : c → Triple P x Q E) (h : ¬ c → ∀ s, P s → Q () s) :
    Triple P (Foundations.onlyIf c x) Q E :=
  Triple.ite hx fun hc => Triple.pure (h hc)

/-- A program on a part of the state; what it throws is wrapped. -/
def zoom {ε' τ : Type} (get : σ → τ) (set : τ → σ → σ) (wrap : ε' → ε) (x : EStateM ε' τ α) :
    EStateM ε σ α := fun s =>
  match x (get s) with
  | .ok a t => .ok a (set t s)
  | .error e t => .error (wrap e) (set t s)

/-- A program on a part of the state keeps what does not depend on that part. -/
theorem Triple.zoom {ε' τ : Type} {get : σ → τ} {set : τ → σ → σ} {wrap : ε' → ε}
    {x : EStateM ε' τ α} (hQ : ∀ a t s, P s → Q a (set t s)) (hE : ∀ e t s, P s → E (wrap e) (set t s)) :
    Triple P (Foundations.zoom get set wrap x) Q E := by
  intro s hs
  unfold Foundations.zoom
  cases x (get s) with
  | ok a t => exact hQ a t s hs
  | error e t => exact hE e t s hs

/-- A loop without an accumulator. -/
theorem Triple.forM {f : α → EStateM ε σ PUnit} {l : List α} {I : σ → Prop}
    (h : ∀ a ∈ l, Triple I (f a) (fun _ => I) E) : Triple I (l.forM f) (fun _ => I) E := by
  induction l with
  | nil => exact Triple.pure fun _ hs => hs
  | cons a l ih =>
    change Triple I (f a >>= fun _ => l.forM f) (fun _ => I) E
    exact Triple.bind (h a List.mem_cons_self) fun _ =>
      ih fun a ha => h a (List.mem_cons_of_mem _ ha)

/-- A loop whose body keeps the invariant at every element of the list. -/
theorem Triple.foldlM {step : β → α → EStateM ε σ β} {l : List α} {I : β → σ → Prop}
    (h : ∀ b, ∀ a ∈ l, Triple (I b) (step b a) I E) (b : β) : Triple (I b) (l.foldlM step b) I E := by
  induction l generalizing b with
  | nil => exact Triple.pure fun _ hs => hs
  | cons a l ih =>
    rw [List.foldlM_cons]
    exact Triple.bind (h b a List.mem_cons_self) fun b' =>
      ih (fun b a ha => h b a (List.mem_cons_of_mem _ ha)) b'

end ZaggCore.Foundations
