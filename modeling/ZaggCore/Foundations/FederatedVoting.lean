import Mathlib

/-! # Federated voting

Nodes that trust sets of nodes of their own choice, some of which are honest. What the honest nodes have said
is a record of statements, the latest first; the other nodes may be heard to say anything, to anyone. A node
accepts a statement when a set that blocks it accepted it, or when a set that is enough for it, and for those
in it, voted for it or accepted it; it confirms what such a set accepted. A node that has said something
final is taken to be satisfied by itself. -/

namespace ZaggCore.Foundations
set_option autoImplicit false
set_option maxHeartbeats 250000

/-! ## Records -/

section Records

variable {α : Type} {l : List α}

/-- Of the entries of a kind one was made first. -/
theorem exists_first {p : α → Prop} (h : ∃ a ∈ l, p a) :
    ∃ a earlier, a :: earlier <:+ l ∧ p a ∧ ∀ a' ∈ earlier, ¬ p a' := by
  induction l with
  | nil => simp at h
  | cons b l ih =>
    by_cases hl : ∃ a ∈ l, p a
    · obtain ⟨a, earlier, hsuffix, hp, hnone⟩ := ih hl
      exact ⟨a, earlier, hsuffix.trans (List.suffix_cons b l), hp, hnone⟩
    · push Not at hl
      obtain ⟨a, ha, hp⟩ := h
      obtain rfl | ha := List.mem_cons.mp ha
      · exact ⟨a, l, List.suffix_rfl, hp, hl⟩
      · exact absurd hp (hl a ha)

/-- Every entry was made after some others. -/
theorem exists_earlier {a : α} (ha : a ∈ l) : ∃ earlier, a :: earlier <:+ l := by
  obtain ⟨later, earlier, rfl⟩ := List.append_of_mem ha
  exact ⟨earlier, List.suffix_append later _⟩

/-- Of two entries one was made before the other. -/
theorem eq_or_earlier_or_later {a b : α} {earlier : List α} (ha : a ∈ l) (hb : b :: earlier <:+ l) :
    a = b ∨ a ∈ earlier ∨ ∃ earlier', a :: earlier' <:+ l ∧ b ∈ earlier' := by
  obtain ⟨later, rfl⟩ := hb
  rcases List.mem_append.mp ha with ha | ha
  · obtain ⟨first, rest, rfl⟩ := List.append_of_mem ha
    refine .inr (.inr ⟨rest ++ b :: earlier, ?_, by simp⟩)
    rw [List.append_assoc, List.cons_append]
    exact List.suffix_append first _
  · obtain rfl | ha := List.mem_cons.mp ha
    · exact .inl rfl
    · exact .inr (.inl ha)

theorem suffix_of_cons_suffix_cons {a b : α} {l' : List α} (h : a :: l' <:+ b :: l) : l' <:+ l := by
  obtain heq | h := List.suffix_cons_iff.mp h
  · obtain ⟨-, rfl⟩ := List.cons.inj heq
    exact List.suffix_rfl
  · exact (List.suffix_cons a l').trans h

end Records

/-! ## Trust -/

/-- Which nodes are honest, and which sets of nodes are enough for a node. -/
structure Trust (Node : Type) where
  honest : Set Node
  satisfied : Node → Set Node → Prop
  mono : ∀ {n : Node} {U V : Set Node}, U ⊆ V → satisfied n U → satisfied n V

namespace Trust

variable {Node St : Type} (T : Trust Node)

/-- The set is enough for each honest node in it. -/
def Supports (U : Set Node) : Prop := ∀ n ∈ U, n ∈ T.honest → T.satisfied n U

/-- A set that supports itself and is enough for some honest node. -/
def Quorum (U : Set Node) : Prop := (∃ n ∈ T.honest, T.satisfied n U) ∧ T.Supports U

/-- Every set that is enough for the node meets this one. -/
def Blocks (n : Node) (U : Set Node) : Prop := ∀ V, T.satisfied n V → ∃ m ∈ U, m ∈ V

/-- Despite the nodes that are not honest any two quorums share an honest node, and the honest nodes are
enough for each of them. -/
structure Sound : Prop where
  intersect : ∀ U V, T.Quorum U → T.Quorum V → ∃ n ∈ T.honest, n ∈ U ∧ n ∈ V
  available : ∀ n ∈ T.honest, T.satisfied n T.honest

/-! ## What was heard -/

/-- Every honest node of the set has said something of the kind. -/
def Heard (log : List (Node × St)) (φ : St → Prop) (U : Set Node) : Prop :=
  ∀ m ∈ U, m ∈ T.honest → ∃ st, (m, st) ∈ log ∧ φ st

/-- The set is enough for the node and for the honest nodes in it, but for those that said something final. -/
structure Backs (log : List (Node × St)) (final φ : St → Prop) (n : Node) (U : Set Node) : Prop where
  satisfied : T.satisfied n U
  heard : ∀ m ∈ U, m ∈ T.honest → ∃ st, (m, st) ∈ log ∧ φ st ∧ (¬ final st → T.satisfied m U)

def Accepts (log : List (Node × St)) (final voted accepted : St → Prop) (n : Node) : Prop :=
  (∃ U, T.Blocks n U ∧ T.Heard log accepted U) ∨
    ∃ U, T.Backs log final (fun st => voted st ∨ accepted st) n U

def Ratifies (log : List (Node × St)) (final voted : St → Prop) (n : Node) : Prop :=
  ∃ U, T.Backs log final voted n U

/-- What the honest nodes said in the one record they said in the other. -/
def Covers (log log' : List (Node × St)) : Prop :=
  ∀ m ∈ T.honest, ∀ st, (m, st) ∈ log → (m, st) ∈ log'

variable {T} {log log' : List (Node × St)} {final φ ψ voted accepted : St → Prop} {n : Node} {U : Set Node}

theorem covers_of_subset (h : log ⊆ log') : T.Covers log log' := fun _ _ _ hst => h hst

theorem Heard.mono (h : T.Heard log φ U) (hlog : T.Covers log log') : T.Heard log' φ U := by
  intro m hm hhonest
  obtain ⟨st, hst, hφ⟩ := h m hm hhonest
  exact ⟨st, hlog m hhonest st hst, hφ⟩

theorem Backs.mono (h : T.Backs log final φ n U) (hlog : T.Covers log log') :
    T.Backs log' final φ n U where
  satisfied := h.satisfied
  heard m hm hhonest := by
    obtain ⟨st, hst, hφ⟩ := h.heard m hm hhonest
    exact ⟨st, hlog m hhonest st hst, hφ⟩

theorem Accepts.mono (h : T.Accepts log final voted accepted n) (hlog : T.Covers log log') :
    T.Accepts log' final voted accepted n := by
  obtain ⟨U, hblocks, hheard⟩ | ⟨U, hbacks⟩ := h
  · exact .inl ⟨U, hblocks, hheard.mono hlog⟩
  · exact .inr ⟨U, hbacks.mono hlog⟩

theorem Ratifies.mono (h : T.Ratifies log final voted n) (hlog : T.Covers log log') :
    T.Ratifies log' final voted n := by
  obtain ⟨U, hbacks⟩ := h
  exact ⟨U, hbacks.mono hlog⟩

/-! ## What follows from it -/

/-- If what is final is itself backed, what backs a node is part of a quorum. -/
theorem Backs.exists_quorum (h : T.Backs log final φ n U)
    (hfinal : ∀ m ∈ T.honest, ∀ st, (m, st) ∈ log → final st → φ st →
      ∃ V, T.satisfied m V ∧ T.Supports V ∧ T.Heard log ψ V) :
    ∃ V, T.satisfied n V ∧ T.Supports V ∧ T.Heard log (fun st => φ st ∨ ψ st) V := by
  -- add to the set whatever backs one of its nodes
  refine ⟨U ∪ {k | ∃ m ∈ U, ∃ V, T.satisfied m V ∧ T.Supports V ∧ T.Heard log ψ V ∧ k ∈ V}, ?_, ?_, ?_⟩
  · exact T.mono Set.subset_union_left h.satisfied
  · rintro k (hk | ⟨m, hm, V, hsat, hsup, hheard, hk⟩) hhonest
    · obtain ⟨st, hst, hφ, hsatisfied⟩ := h.heard k hk hhonest
      by_cases hf : final st
      · obtain ⟨V, hsat, hsup, hheard⟩ := hfinal k hhonest st hst hf hφ
        exact T.mono (fun j hj => .inr ⟨k, hk, V, hsat, hsup, hheard, hj⟩) hsat
      · exact T.mono Set.subset_union_left (hsatisfied hf)
    · exact T.mono (fun j hj => .inr ⟨m, hm, V, hsat, hsup, hheard, hj⟩) (hsup k hk hhonest)
  · rintro k (hk | ⟨m, hm, V, hsat, hsup, hheard, hk⟩) hhonest
    · obtain ⟨st, hst, hφ, -⟩ := h.heard k hk hhonest
      exact ⟨st, hst, .inl hφ⟩
    · obtain ⟨st, hst, hψ⟩ := hheard k hk hhonest
      exact ⟨st, hst, .inr hψ⟩

section Sound

variable (hT : T.Sound) (hn : n ∈ T.honest)

include hT hn

/-- A set that blocks an honest node has an honest node in it. -/
theorem Blocks.exists_honest (h : T.Blocks n U) : ∃ m ∈ T.honest, m ∈ U := by
  obtain ⟨m, hm, hhonest⟩ := h T.honest (hT.available n hn)
  exact ⟨m, hhonest, hm⟩

/-- What backs an honest node was said by an honest node. -/
theorem Backs.exists_said (h : T.Backs log final φ n U) :
    ∃ m ∈ T.honest, m ∈ U ∧ ∃ st, (m, st) ∈ log ∧ φ st := by
  by_cases hfinal : ∃ m ∈ T.honest, m ∈ U
  · obtain ⟨m, hm, hU⟩ := hfinal
    obtain ⟨st, hst, hφ, -⟩ := h.heard m hU hm
    exact ⟨m, hm, hU, st, hst, hφ⟩
  -- without honest nodes the set supports itself
  · push Not at hfinal
    have hquorum : T.Quorum U := ⟨⟨n, hn, h.satisfied⟩, fun m hm hhonest => absurd hm (hfinal m hhonest)⟩
    obtain ⟨m, hm, hU, -⟩ := hT.intersect U U hquorum hquorum
    exact absurd hU (hfinal m hm)

/-- Where nothing of the kind was accepted yet, it was voted for by a set that backs the node. -/
theorem Accepts.first (h : T.Accepts log final voted accepted n)
    (hnone : ∀ m ∈ T.honest, ∀ st, (m, st) ∈ log → ¬ accepted st) :
    ∃ U, T.Backs log final voted n U := by
  obtain ⟨U, hblocks, hheard⟩ | ⟨U, hbacks⟩ := h
  · obtain ⟨m, hm, hU⟩ := hblocks.exists_honest hT hn
    obtain ⟨st, hst, haccepted⟩ := hheard m hU hm
    exact absurd haccepted (hnone m hm st hst)
  · refine ⟨U, hbacks.satisfied, fun m hm hhonest => ?_⟩
    obtain ⟨st, hst, hφ, hsatisfied⟩ := hbacks.heard m hm hhonest
    exact ⟨st, hst, hφ.resolve_right (hnone m hhonest st hst), hsatisfied⟩

end Sound

/-- Any two quorums share an honest node, which has said something of both kinds. -/
theorem Sound.exists_common (hT : T.Sound) {V : Set Node} (hU : T.Quorum U) (hV : T.Quorum V)
    (hφ : T.Heard log φ U) (hψ : T.Heard log' ψ V) :
    ∃ m ∈ T.honest, (∃ st, (m, st) ∈ log ∧ φ st) ∧ ∃ st, (m, st) ∈ log' ∧ ψ st := by
  obtain ⟨m, hm, hmU, hmV⟩ := hT.intersect U V hU hV
  exact ⟨m, hm, hφ m hmU hm, hψ m hmV hm⟩

end Trust

end ZaggCore.Foundations
