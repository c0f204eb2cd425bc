import Mathlib

/-! # Enumerations, and an odometer whose carry does not reset

A machine tracks a list when it is alive until it has given all the elements in turn, goes on showing
the last one after that, and starts over on a reset. An odometer of such machines advances the first
one; when that is exhausted it advances the others in turn until one stays alive, and then resets the
first one only. What it shows is `visited`: while one wheel carries, those between it and the first are
at their ends, for good. -/

namespace ZaggCore.Foundations
set_option autoImplicit false
set_option maxHeartbeats 250000

variable {σ β γ : Type*}

/-! ## Machines -/

/-- A machine that shows values one after the other. -/
structure Machine (σ β : Type*) where
  alive : σ → Bool
  deref : σ → β
  next : σ → σ
  reset : σ → σ

/-- The value shown with `rem` of the list still to come: its head, and at the end the last one. -/
def current [Inhabited β] (full rem : List β) : β := rem.headD (full.getLastD default)

namespace Machine

variable (M : Machine σ β)

/-- The state `s` has `rem` of the list `full` still to show; with `after` this includes that it stays at
the end. -/
def Lists (after : Prop) (full rem : List β) (s : σ) : Prop :=
  ∃ R : List β → σ → Prop, R rem s ∧ ∀ rem s, R rem s →
    M.alive s = !rem.isEmpty ∧ (∀ x rest, rem = x :: rest → M.deref s = x) ∧
      (after ∨ rem ≠ [] → R rem.tail (M.next s)) ∧ R full (M.reset s)

variable {M} {full rem : List β} {s : σ} {after : Prop}

theorem Lists.alive (h : M.Lists after full rem s) : M.alive s = !rem.isEmpty := by
  obtain ⟨R, hs, hR⟩ := h
  exact (hR rem s hs).1

theorem Lists.deref {x : β} {rest : List β} (h : M.Lists after full (x :: rest) s) : M.deref s = x := by
  obtain ⟨R, hs, hR⟩ := h
  exact (hR _ s hs).2.1 x rest rfl

theorem Lists.next (h : M.Lists after full rem s) (hrem : after ∨ rem ≠ []) :
    M.Lists after full rem.tail (M.next s) := by
  obtain ⟨R, hs, hR⟩ := h
  exact ⟨R, (hR rem s hs).2.2.1 hrem, hR⟩

theorem Lists.reset (h : M.Lists after full rem s) : M.Lists after full full (M.reset s) := by
  obtain ⟨R, hs, hR⟩ := h
  exact ⟨R, (hR rem s hs).2.2.2, hR⟩

variable [Inhabited β] (M)

/-- As `Lists`, and at the end the last value goes on being shown. -/
def Tracks (full rem : List β) (s : σ) : Prop :=
  ∃ R : List β → σ → Prop, R rem s ∧ ∀ rem s, R rem s →
    M.alive s = !rem.isEmpty ∧ M.deref s = current full rem ∧ R rem.tail (M.next s) ∧ R full (M.reset s)

variable {M}

theorem Tracks.alive (h : M.Tracks full rem s) : M.alive s = !rem.isEmpty := by
  obtain ⟨R, hs, hR⟩ := h
  exact (hR rem s hs).1

theorem Tracks.deref (h : M.Tracks full rem s) : M.deref s = current full rem := by
  obtain ⟨R, hs, hR⟩ := h
  exact (hR rem s hs).2.1

theorem Tracks.next (h : M.Tracks full rem s) : M.Tracks full rem.tail (M.next s) := by
  obtain ⟨R, hs, hR⟩ := h
  exact ⟨R, (hR rem s hs).2.2.1, hR⟩

theorem Tracks.reset (h : M.Tracks full rem s) : M.Tracks full full (M.reset s) := by
  obtain ⟨R, hs, hR⟩ := h
  exact ⟨R, (hR rem s hs).2.2.2, hR⟩

end Machine

/-! ## The odometer on cursors -/

/-- A list and what is left of it. -/
structure Cursor (β : Type*) where
  full : List β
  rem : List β

namespace Cursor

variable [Inhabited β]

def alive (c : Cursor β) : Bool := !c.rem.isEmpty

def shown (c : Cursor β) : β := current c.full c.rem

def next (c : Cursor β) : Cursor β := ⟨c.full, c.rem.tail⟩

def reset (c : Cursor β) : Cursor β := ⟨c.full, c.full⟩

/-- A cursor at the start of its list. -/
def fresh (l : List β) : Cursor β := ⟨l, l⟩

end Cursor

section Odometer

variable [Inhabited β]

/-- Advance wheels in turn until one stays alive, and say whether one did. -/
def carry : List (Cursor β) → List (Cursor β) × Bool
  | [] => ([], false)
  | c :: cs =>
    if c.next.alive then (c.next :: cs, true)
    else
      match carry cs with
      | (cs', carried) => (c.next :: cs', carried)

/-- Advance the first wheel that is alive; when that exhausts it, carry, and reset it if a wheel took
the carry. -/
def advance : List (Cursor β) → List (Cursor β)
  | [] => []
  | c :: cs =>
    if !c.alive then c :: advance cs
    else if c.next.alive then c.next :: cs
    else
      match carry cs with
      | (cs', true) => c.next.reset :: cs'
      | (cs', false) => c.next :: cs'

/-- The tuples the wheels after the first one show in turn. -/
def carried : List (List β) → List (List β)
  | [] => [[]]
  | l :: ls =>
    (l.map (· :: ls.map fun l => l.headD default)) ++ (carried ls).tail.map (l.getLastD default :: ·)

/-- The tuples the odometer shows in turn. -/
def visited : List (List β) → List (List β)
  | [] => []
  | l :: ls => (carried ls).flatMap fun t => l.map (· :: t)

/-- The tuples the carries have still to show, the current one included. -/
def carriedRem : List (Cursor β) → List (List β)
  | [] => [[]]
  | c :: cs =>
    if c.rem = [] then (carriedRem cs).map (c.shown :: ·)
    else c.rem.map (· :: cs.map Cursor.shown) ++ (carriedRem cs).tail.map (c.full.getLastD default :: ·)

/-- The tuples the odometer has still to show. -/
def visitedRem : List (Cursor β) → List (List β)
  | [] => []
  | c :: cs =>
    if c.rem = [] then []
    else c.rem.map (· :: cs.map Cursor.shown)
      ++ (carriedRem cs).tail.flatMap fun t => c.full.map (· :: t)

namespace Cursor

theorem shown_of_rem {c : Cursor β} {x : β} {r : List β} (h : c.rem = x :: r) : c.shown = x := by
  rw [shown, h]
  rfl

theorem shown_of_end {c : Cursor β} (h : c.rem = []) : c.shown = c.full.getLastD default := by
  rw [shown, h]
  rfl

theorem shown_fresh {l : List β} (h : l ≠ []) : (fresh l).shown = l.headD default := by
  obtain ⟨x, r, rfl⟩ := List.exists_cons_of_ne_nil h
  rfl

omit [Inhabited β] in
theorem alive_iff {c : Cursor β} : c.alive = true ↔ c.rem ≠ [] := by simp [alive]

end Cursor

/-- The current tuple comes first. -/
theorem carriedRem_head (cs : List (Cursor β)) :
    ∃ rest, carriedRem cs = cs.map Cursor.shown :: rest := by
  induction cs with
  | nil => exact ⟨[], rfl⟩
  | cons c cs ih =>
    obtain ⟨rest, hrest⟩ := ih
    rw [carriedRem]
    cases hrem : c.rem with
    | nil => exact ⟨_, by rw [if_pos rfl, hrest]; rfl⟩
    | cons x r =>
      refine ⟨r.map (· :: cs.map Cursor.shown) ++ (carriedRem cs).tail.map (c.full.getLastD default :: ·), ?_⟩
      rw [if_neg (List.cons_ne_nil _ _), List.map_cons, List.map_cons, Cursor.shown_of_rem hrem]
      rfl

/-- A carry goes on to the next tuple, and fails at the last one, all wheels being exhausted. -/
theorem carry_spec (cs : List (Cursor β)) :
    (carry cs).1.map Cursor.full = cs.map Cursor.full ∧
      ((carry cs).2 = true → carriedRem (carry cs).1 = (carriedRem cs).tail) ∧
      ((carry cs).2 = false → (carriedRem cs).tail = [] ∧ ∀ c ∈ (carry cs).1, c.rem = []) := by
  induction cs with
  | nil => exact ⟨rfl, fun h => Bool.noConfusion h, fun _ => ⟨rfl, fun c hc => absurd hc List.not_mem_nil⟩⟩
  | cons c cs ih =>
    obtain ⟨hfull, hcarried, hfailed⟩ := ih
    rw [carry]
    by_cases halive : c.next.alive
    · rw [if_pos halive]
      refine ⟨rfl, fun _ => ?_, fun h => nomatch h⟩
      have htail : c.rem.tail ≠ [] := Cursor.alive_iff.mp halive
      obtain ⟨x, r, hrem⟩ : ∃ x r, c.rem = x :: r :=
        List.exists_cons_of_ne_nil fun h => htail (by rw [h]; rfl)
      rw [hrem, List.tail_cons] at htail
      have hnext : c.next.rem = r := by rw [Cursor.next, hrem]; rfl
      rw [carriedRem, carriedRem, hnext, hrem, if_neg htail, if_neg (List.cons_ne_nil _ _)]
      rfl
    · rw [if_neg halive]
      have hend : c.next.rem = [] := by
        by_contra hne
        exact halive (Cursor.alive_iff.mpr hne)
      -- the wheel itself is at its last value, or was already
      have htail : (carriedRem (c :: cs)).tail = (carriedRem cs).tail.map (c.full.getLastD default :: ·) := by
        rw [carriedRem]
        cases hrem : c.rem with
        | nil => rw [if_pos rfl, Cursor.shown_of_end hrem, List.map_tail]
        | cons x r =>
          obtain rfl : r = [] := by rw [Cursor.next, hrem] at hend; exact hend
          rw [if_neg (List.cons_ne_nil _ _)]
          rfl
      refine ⟨by rw [List.map_cons, List.map_cons, hfull]; rfl, fun hok => ?_, fun hno => ?_⟩
      · rw [carriedRem, if_pos hend, Cursor.shown_of_end hend, hcarried hok, htail]
        rfl
      · obtain ⟨hlast, hdead⟩ := hfailed hno
        exact ⟨by rw [htail, hlast]; rfl, List.forall_mem_cons.mpr ⟨hend, hdead⟩⟩

/-- Once the first wheel is exhausted, so are the others; no list is empty. -/
structure Running (cs : List (Cursor β)) : Prop where
  nonempty : ∀ c ∈ cs, c.full ≠ []
  exhausted : ∀ c cs', cs = c :: cs' → c.rem = [] → ∀ d ∈ cs', d.rem = []

theorem visitedRem_dead {cs : List (Cursor β)} (h : ∀ c ∈ cs, c.rem = []) :
    visitedRem cs = [] ∧ advance cs = cs := by
  induction cs with
  | nil => exact ⟨rfl, rfl⟩
  | cons c cs ih =>
    obtain ⟨hc, hcs⟩ := List.forall_mem_cons.mp h
    have hdead : c.alive = false := by simp [Cursor.alive, hc]
    exact ⟨by rw [visitedRem, if_pos hc], by rw [advance, hdead, (ih hcs).2]; rfl⟩

theorem advance_full (cs : List (Cursor β)) : (advance cs).map Cursor.full = cs.map Cursor.full := by
  induction cs with
  | nil => rfl
  | cons c cs ih =>
    have hcarry := (carry_spec cs).1
    rw [advance]
    split_ifs
    · rw [List.map_cons, List.map_cons, ih]
    · rfl
    · split
      · next heq =>
        rw [heq] at hcarry
        rw [List.map_cons, List.map_cons, ← hcarry]
        rfl
      · next heq =>
        rw [heq] at hcarry
        rw [List.map_cons, List.map_cons, ← hcarry]
        rfl

/-- Advancing goes on to the next tuple. -/
theorem advance_spec {cs : List (Cursor β)} (h : Running cs) :
    visitedRem (advance cs) = (visitedRem cs).tail ∧ Running (advance cs) := by
  have hne : ∀ c ∈ advance cs, c.full ≠ [] := by
    intro c hc
    have hmem : c.full ∈ cs.map Cursor.full := advance_full cs ▸ List.mem_map_of_mem hc
    obtain ⟨d, hd, hfull⟩ := List.mem_map.mp hmem
    exact hfull ▸ h.nonempty d hd
  cases cs with
  | nil => exact ⟨rfl, h⟩
  | cons c cs =>
    cases hrem : c.rem with
    | nil =>
      have hdead : ∀ d ∈ c :: cs, d.rem = [] := List.forall_mem_cons.mpr ⟨hrem, h.exhausted c cs rfl hrem⟩
      obtain ⟨hvisited, hadvance⟩ := visitedRem_dead hdead
      rw [hadvance, hvisited]
      exact ⟨rfl, h⟩
    | cons x r =>
      have halive : c.alive = true := Cursor.alive_iff.mpr (by rw [hrem]; exact List.cons_ne_nil _ _)
      have hnext : c.next.rem = r := by rw [Cursor.next, hrem]; rfl
      have htail : (visitedRem (c :: cs)).tail = r.map (· :: cs.map Cursor.shown)
          ++ (carriedRem cs).tail.flatMap fun t => c.full.map (· :: t) := by
        rw [visitedRem, hrem, if_neg (List.cons_ne_nil _ _)]
        rfl
      obtain ⟨-, hok, hno⟩ := carry_spec cs
      rw [htail]
      rw [advance, halive, Bool.not_true, if_neg Bool.false_ne_true] at hne ⊢
      cases r with
      | cons y r =>
        have hne' : c.next.rem ≠ [] := by rw [hnext]; exact List.cons_ne_nil _ _
        rw [if_pos (Cursor.alive_iff.mpr hne')] at hne ⊢
        refine ⟨by rw [visitedRem, if_neg hne', hnext]; rfl, hne, ?_⟩
        rintro _ _ ⟨⟩ hend
        exact absurd hend hne'
      | nil =>
        have hdead : ¬ c.next.alive = true := fun hal => Cursor.alive_iff.mp hal hnext
        rw [if_neg hdead] at hne ⊢
        rw [List.map_nil, List.nil_append]
        generalize carry cs = r at hok hno hne ⊢
        obtain ⟨cs', carriedOn⟩ := r
        cases carriedOn with
        | true =>
          have hfull : c.full ≠ [] := h.nonempty c List.mem_cons_self
          obtain ⟨rest, hrest⟩ := carriedRem_head cs'
          refine ⟨?_, hne, ?_⟩
          · have hreset : c.next.reset.rem ≠ [] := hfull
            rw [← hok rfl, hrest, visitedRem, if_neg hreset, hrest]
            rfl
          · rintro _ _ ⟨⟩ hend
            exact absurd hend hfull
        | false =>
          obtain ⟨hlast, hall⟩ := hno rfl
          refine ⟨by rw [visitedRem, if_pos hnext, hlast]; rfl, hne, ?_⟩
          rintro _ _ ⟨⟩ -
          exact hall

theorem any_alive {cs : List (Cursor β)} (h : Running cs) :
    cs.any Cursor.alive = !(visitedRem cs).isEmpty := by
  cases cs with
  | nil => rfl
  | cons c cs =>
    cases hrem : c.rem with
    | nil =>
      have hall : ∀ d ∈ c :: cs, d.rem = [] := List.forall_mem_cons.mpr ⟨hrem, h.exhausted c cs rfl hrem⟩
      rw [(visitedRem_dead hall).1, List.any_eq_false.mpr]
      · rfl
      · intro d hd
        rw [Cursor.alive_iff, not_not]
        exact hall d hd
    | cons x r =>
      have halive : c.alive = true := Cursor.alive_iff.mpr (by rw [hrem]; exact List.cons_ne_nil _ _)
      rw [List.any_cons, halive, visitedRem, hrem, if_neg (List.cons_ne_nil _ _)]
      rfl

theorem carriedRem_fresh {ls : List (List β)} (h : ∀ l ∈ ls, l ≠ []) :
    carriedRem (ls.map Cursor.fresh) = carried ls ∧
      (ls.map Cursor.fresh).map Cursor.shown = ls.map fun l => l.headD default := by
  induction ls with
  | nil => exact ⟨rfl, rfl⟩
  | cons l ls ih =>
    obtain ⟨hl, hls⟩ := List.forall_mem_cons.mp h
    obtain ⟨hcarried, hshown⟩ := ih hls
    refine ⟨?_, by rw [List.map_cons, List.map_cons, hshown, Cursor.shown_fresh hl]; rfl⟩
    have hrem : (Cursor.fresh l).rem = l := rfl
    rw [List.map_cons, carriedRem, hrem, if_neg hl, hcarried, hshown, carried]
    rfl

/-- From the start, all the tuples are still to show. -/
theorem visitedRem_fresh {ls : List (List β)} (h : ∀ l ∈ ls, l ≠ []) :
    visitedRem (ls.map Cursor.fresh) = visited ls ∧ Running (ls.map Cursor.fresh) := by
  have hne : ∀ c ∈ ls.map Cursor.fresh, c.full ≠ [] := by
    intro c hc
    obtain ⟨l, hl, rfl⟩ := List.mem_map.mp hc
    exact h l hl
  cases ls with
  | nil => exact ⟨rfl, hne, fun c cs h => nomatch h⟩
  | cons l ls =>
    obtain ⟨hl, hls⟩ := List.forall_mem_cons.mp h
    obtain ⟨hcarried, hshown⟩ := carriedRem_fresh hls
    obtain ⟨rest, hrest⟩ := carriedRem_head (ls.map Cursor.fresh)
    have hrem : (Cursor.fresh l).rem = l := rfl
    refine ⟨?_, hne, ?_⟩
    · rw [List.map_cons, visitedRem, hrem, if_neg hl, visited, ← hcarried, hrest]
      rfl
    · rintro _ _ ⟨⟩ hend
      exact absurd hend hl

theorem getLastD_map {f : β → γ} {l : List β} (h : l ≠ []) (d : γ) :
    (l.map f).getLastD d = f (l.getLastD default) := by
  rw [List.getLastD_eq_getLast?, List.getLastD_eq_getLast?, List.getLast?_map,
    List.getLast?_eq_some_getLast h]
  rfl

omit [Inhabited β] in
theorem getLastD_append {l l' : List β} (h : l' ≠ []) (d : β) : (l ++ l').getLastD d = l'.getLastD d := by
  rw [List.getLastD_eq_getLast?, List.getLastD_eq_getLast?, List.getLast?_append,
    List.getLast?_eq_some_getLast h]
  rfl

theorem getLastD_flatMap {f : β → List γ} {l : List β} (h : l ≠ [])
    (hf : f (l.getLastD default) ≠ []) (d : γ) :
    (l.flatMap f).getLastD d = (f (l.getLastD default)).getLastD d := by
  have hlast : l.getLastD default = l.getLast h := by
    rw [List.getLastD_eq_getLast?, List.getLast?_eq_some_getLast h]
    rfl
  have happ : l.flatMap f = l.dropLast.flatMap f ++ f (l.getLastD default) := by
    conv_lhs => rw [← List.dropLast_append_getLast h]
    rw [List.flatMap_append, List.flatMap_singleton, hlast]
  rw [happ, getLastD_append hf]

/-- The carries begin with all first values and end with all last ones. -/
theorem carried_ends {ls : List (List β)} (h : ∀ l ∈ ls, l ≠ []) :
    (∃ rest, carried ls = (ls.map fun l => l.headD default) :: rest) ∧
      (carried ls).getLastD default = ls.map fun l => l.getLastD default := by
  obtain ⟨hcarried, hshown⟩ := carriedRem_fresh h
  obtain ⟨rest, hrest⟩ := carriedRem_head (ls.map Cursor.fresh)
  rw [hcarried, hshown] at hrest
  refine ⟨⟨rest, hrest⟩, ?_⟩
  clear hcarried hshown hrest rest
  induction ls with
  | nil => rfl
  | cons l ls ih =>
    obtain ⟨hl, hls⟩ := List.forall_mem_cons.mp h
    obtain ⟨hcarried, hshown⟩ := carriedRem_fresh hls
    obtain ⟨rest, hrest⟩ := carriedRem_head (ls.map Cursor.fresh)
    rw [hcarried, hshown] at hrest
    have hlast := ih hls
    rw [hrest] at hlast
    rw [carried, hrest, List.tail_cons]
    cases rest with
    | nil =>
      -- a single tuple: first and last values coincide
      have hsame : (ls.map fun l => l.headD default) = ls.map fun l => l.getLastD default := hlast
      rw [List.map_nil, List.append_nil, getLastD_map hl, hsame, List.map_cons]
    | cons t rest =>
      rw [getLastD_append (by simp), getLastD_map (List.cons_ne_nil t rest), List.map_cons]
      exact congrArg _ hlast

/-- What the odometer shows is the next tuple, and at the end the last one. -/
theorem shown_spec {cs : List (Cursor β)} (h : Running cs) :
    cs.map Cursor.shown = current (visited (cs.map Cursor.full)) (visitedRem cs) := by
  cases cs with
  | nil => rfl
  | cons c cs =>
    cases hrem : c.rem with
    | cons x r =>
      rw [visitedRem, hrem, if_neg (List.cons_ne_nil _ _), List.map_cons, Cursor.shown_of_rem hrem]
      rfl
    | nil =>
      have hall : ∀ d ∈ c :: cs, d.rem = [] := List.forall_mem_cons.mpr ⟨hrem, h.exhausted c cs rfl hrem⟩
      have hne : ∀ l ∈ cs.map Cursor.full, l ≠ [] := by
        intro l hl
        obtain ⟨d, hd, rfl⟩ := List.mem_map.mp hl
        exact h.nonempty d (List.mem_cons_of_mem _ hd)
      obtain ⟨⟨rest, hrest⟩, hlast⟩ := carried_ends hne
      have hshown : (c :: cs).map Cursor.shown = (c :: cs).map fun d => d.full.getLastD default :=
        List.map_congr_left fun d hd => Cursor.shown_of_end (hall d hd)
      have hfull : c.full ≠ [] := h.nonempty c List.mem_cons_self
      have hcarried : carried (cs.map Cursor.full) ≠ [] := by rw [hrest]; exact List.cons_ne_nil _ _
      rw [(visitedRem_dead hall).1, hshown, current, List.headD_nil, List.map_cons, List.map_cons, visited,
        getLastD_flatMap hcarried (by simpa using hfull), hlast, getLastD_map hfull, List.map_map]
      rfl

/-! ## Visited tuples -/

theorem mem_carried {ls : List (List β)} (h : ∀ l ∈ ls, l ≠ []) {t : List β} (ht : t ∈ carried ls) :
    List.Forall₂ (fun x l => x ∈ l) t ls := by
  induction ls generalizing t with
  | nil =>
    obtain rfl := List.mem_singleton.mp ht
    exact .nil
  | cons l ls ih =>
    obtain ⟨hl, hls⟩ := List.forall_mem_cons.mp h
    rw [carried, List.mem_append] at ht
    obtain ht | ht := ht
    · obtain ⟨x, hx, rfl⟩ := List.mem_map.mp ht
      refine .cons hx (ih hls ?_)
      obtain ⟨⟨rest, hrest⟩, -⟩ := carried_ends hls
      rw [hrest]
      exact List.mem_cons_self
    · obtain ⟨t', ht', rfl⟩ := List.mem_map.mp ht
      refine .cons ?_ (ih hls (List.mem_of_mem_tail ht'))
      rw [List.getLastD_eq_getLast?, List.getLast?_eq_some_getLast hl]
      exact List.getLast_mem hl

/-- A visited tuple has a value of each list. -/
theorem mem_visited {ls : List (List β)} (h : ∀ l ∈ ls, l ≠ []) {t : List β} (ht : t ∈ visited ls) :
    List.Forall₂ (fun x l => x ∈ l) t ls := by
  cases ls with
  | nil => exact absurd ht List.not_mem_nil
  | cons l ls =>
    obtain ⟨t', ht', hmem⟩ := List.mem_flatMap.mp ht
    obtain ⟨x, hx, rfl⟩ := List.mem_map.mp hmem
    exact .cons hx (mem_carried (List.forall_mem_cons.mp h).2 ht')

theorem visited_ne_nil {ls : List (List β)} (hls : ls ≠ []) (h : ∀ l ∈ ls, l ≠ []) : visited ls ≠ [] := by
  obtain ⟨l, ls, rfl⟩ := List.exists_cons_of_ne_nil hls
  obtain ⟨hl, hls⟩ := List.forall_mem_cons.mp h
  obtain ⟨⟨rest, hrest⟩, -⟩ := carried_ends hls
  rw [visited, hrest, List.flatMap_cons]
  simp [hl]

theorem headD_map [Inhabited γ] (f : β → γ) {l : List β} (h : l ≠ []) :
    (l.map f).headD default = f (l.headD default) := by
  obtain ⟨x, l, rfl⟩ := List.exists_cons_of_ne_nil h
  rfl

theorem carried_map [Inhabited γ] (f : β → γ) {ls : List (List β)} (h : ∀ l ∈ ls, l ≠ []) :
    carried (ls.map (List.map f)) = (carried ls).map (List.map f) := by
  induction ls with
  | nil => rfl
  | cons l ls ih =>
    obtain ⟨hl, hls⟩ := List.forall_mem_cons.mp h
    have hheads : (ls.map (List.map f)).map (fun l => l.headD default) =
        (ls.map fun l => l.headD default).map f := by
      rw [List.map_map, List.map_map]
      exact List.map_congr_left fun l hl => headD_map f (hls l hl)
    rw [List.map_cons, carried, carried, ih hls, hheads, getLastD_map hl, List.map_append, ← List.map_tail]
    simp only [List.map_map, Function.comp_def, List.map_cons]

/-- The order of the tuples does not depend on the values. -/
theorem visited_map [Inhabited γ] (f : β → γ) {ls : List (List β)} (h : ∀ l ∈ ls, l ≠ []) :
    visited (ls.map (List.map f)) = (visited ls).map (List.map f) := by
  cases ls with
  | nil => rfl
  | cons l ls =>
    rw [List.map_cons, visited, visited, carried_map f (List.forall_mem_cons.mp h).2, List.flatMap_map,
      List.map_flatMap]
    simp only [List.map_map]
    rfl

end Odometer

end ZaggCore.Foundations
