import ZaggCore.Foundations.SortedKeys

/-! # Sorted maps

A finite map as the list of its entries, whose keys increase. What is done to a map is known by what its
lookups answer. -/

namespace ZaggCore.Foundations
open SortedKeys
set_option autoImplicit false
set_option maxHeartbeats 250000

structure SortedMap (κ τ : Type*) [LinearOrder κ] where
  items : List (κ × τ)
  sorted : SortedBy Prod.fst items

namespace SortedMap

variable {κ τ : Type*} [LinearOrder κ]

def empty : SortedMap κ τ := ⟨[], List.Pairwise.nil⟩

def get? (m : SortedMap κ τ) (k : κ) : Option τ := (lookup Prod.fst m.items k).map Prod.snd

def insert (m : SortedMap κ τ) (k : κ) (v : τ) : SortedMap κ τ :=
  ⟨insertOrAssign Prod.fst (k, v) m.items, sortedBy_insertOrAssign Prod.fst m.sorted (k, v)⟩

def erase (m : SortedMap κ τ) (k : κ) : SortedMap κ τ :=
  ⟨m.items.filter fun i => i.1 ≠ k, m.sorted.filter Prod.fst _⟩

/-- Drop the entries in front while their keys are below `k`. -/
def eraseBelow (m : SortedMap κ τ) (k : κ) : SortedMap κ τ :=
  ⟨m.items.dropWhile fun i => i.1 < k, List.Pairwise.sublist (List.dropWhile_sublist _) m.sorted⟩

variable {m : SortedMap κ τ}

theorem get?_eq_some_iff {k : κ} {v : τ} : m.get? k = some v ↔ (k, v) ∈ m.items := by
  unfold get?
  rw [Option.map_eq_some_iff]
  constructor
  · rintro ⟨i, hi, rfl⟩
    obtain ⟨hmem, rfl⟩ := mem_of_lookup Prod.fst hi
    exact hmem
  · intro hmem
    exact ⟨(k, v), (lookup_eq_some_iff Prod.fst m.sorted k _).mpr ⟨hmem, rfl⟩, rfl⟩

theorem get?_insert (k : κ) (v : τ) (k' : κ) :
    (m.insert k v).get? k' = if k = k' then some v else m.get? k' := by
  unfold get? insert
  rw [lookup_insertOrAssign Prod.fst m.sorted]
  split <;> rfl

theorem get?_erase (k k' : κ) : (m.erase k).get? k' = if k' = k then none else m.get? k' := by
  ext v
  rw [get?_eq_some_iff]
  unfold erase
  rw [List.mem_filter, ← get?_eq_some_iff]
  by_cases hk : k' = k <;> simp [hk]

theorem le_of_mem_dropWhile {k : κ} {items : List (κ × τ)} (h : SortedBy Prod.fst items) {i : κ × τ}
    (hi : i ∈ items.dropWhile fun i => i.1 < k) : k ≤ i.1 := by
  induction items with
  | nil => cases hi
  | cons j items ih =>
    obtain ⟨hlt, hitems⟩ := List.pairwise_cons.mp h
    rw [List.dropWhile_cons] at hi
    split at hi
    case isTrue => exact ih hitems hi
    case isFalse hj =>
      have hle : k ≤ j.1 := not_lt.mp fun hlt => hj (decide_eq_true hlt)
      rcases List.mem_cons.mp hi with rfl | hi
      · exact hle
      · exact hle.trans (hlt i hi).le

theorem get?_eraseBelow (k k' : κ) : (m.eraseBelow k).get? k' = if k' < k then none else m.get? k' := by
  by_cases hk : k' < k
  · have hnone : lookup Prod.fst (m.eraseBelow k).items k' = none :=
      (lookup_eq_none_iff Prod.fst _ k').mpr fun i hi hkey =>
        not_lt.mpr (hkey ▸ le_of_mem_dropWhile m.sorted hi) hk
    rw [if_pos hk]
    unfold get?
    rw [hnone]
    rfl
  · rw [if_neg hk]
    unfold get? eraseBelow
    rw [lookup_dropWhile]
    intro i _ hi hkey
    exact hk (hkey ▸ of_decide_eq_true hi)

end SortedMap

end ZaggCore.Foundations
