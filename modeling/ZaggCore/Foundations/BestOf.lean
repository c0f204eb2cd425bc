import Mathlib

/-! # The best element of a set

`BestOf rank S o` says that `o` is an element of least rank of `S`, or nothing when `S` is empty. Ties
may go either way. The lemmas follow how such an element is computed: one at a time, from two parts,
or as the first hit in a sorted list. -/

namespace ZaggCore.Foundations
set_option autoImplicit false
set_option maxHeartbeats 250000

variable {α ρ : Type*} [LinearOrder ρ] (rank : α → ρ)

def BestOf (S : Set α) : Option α → Prop
  | none => S = ∅
  | some a => a ∈ S ∧ ∀ b ∈ S, rank a ≤ rank b

/-- The better of two candidates; the second one on a tie. -/
def better : Option α → Option α → Option α
  | some a, some b => some (if rank a < rank b then a else b)
  | some a, none => some a
  | none, o => o

theorem bestOf_option (o : Option α) : BestOf rank {a | o = some a} o := by
  cases o with
  | none => simp [BestOf]
  | some a =>
    refine ⟨rfl, fun b hb => ?_⟩
    rw [Option.some.inj hb]

theorem BestOf.union {S T : Set α} {o p : Option α} (hS : BestOf rank S o) (hT : BestOf rank T p) :
    BestOf rank (S ∪ T) (better rank o p) := by
  cases o with
  | none =>
    obtain rfl : S = ∅ := hS
    rw [Set.empty_union]
    exact hT
  | some a =>
    cases p with
    | none =>
      obtain rfl : T = ∅ := hT
      rw [Set.union_empty]
      exact hS
    | some b =>
      by_cases hlt : rank a < rank b
      · simp only [better, if_pos hlt]
        exact ⟨.inl hS.1, fun c hc => hc.elim (hS.2 c) fun h => hlt.le.trans (hT.2 c h)⟩
      · simp only [better, if_neg hlt]
        exact ⟨.inr hT.1, fun c hc => hc.elim (fun h => (not_lt.mp hlt).trans (hS.2 c h)) (hT.2 c)⟩

/-- The first element of a sorted list that passes a test. -/
theorem bestOf_find {l : List α} (hl : l.Pairwise fun a b => rank a ≤ rank b) (p : α → Bool) :
    BestOf rank {a | a ∈ l ∧ p a = true} (l.find? p) := by
  induction l with
  | nil => simp [BestOf]
  | cons a l ih =>
    obtain ⟨hhead, htail⟩ := List.pairwise_cons.mp hl
    by_cases hp : p a = true
    · rw [List.find?_cons_of_pos hp]
      refine ⟨⟨List.mem_cons_self, hp⟩, fun b ⟨hb, _⟩ => ?_⟩
      rcases List.mem_cons.mp hb with rfl | hb
      · exact le_rfl
      · exact hhead b hb
    · rw [List.find?_cons_of_neg hp]
      have hset : {b | b ∈ a :: l ∧ p b = true} = {b | b ∈ l ∧ p b = true} := by
        ext b
        simp only [List.mem_cons, Set.mem_ofPred_eq]
        constructor
        · rintro ⟨rfl | hb, hpb⟩
          · exact absurd hpb hp
          · exact ⟨hb, hpb⟩
        · rintro ⟨hb, hpb⟩
          exact ⟨.inr hb, hpb⟩
      rw [hset]
      exact ih htail

end ZaggCore.Foundations
