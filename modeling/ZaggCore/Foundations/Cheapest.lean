import Mathlib

/-! # The cheapest choice

A multiset ordered by size. The first elements of a sorted list of costs cost no more than as many others of
it. -/

namespace ZaggCore.Foundations
set_option autoImplicit false
set_option maxHeartbeats 250000

/-! ## Ordered by size -/

section Sorted

variable {α β : Type} {size : α → ℕ} {size' : β → ℕ} {v : α} {l l' : List α}

/-- `std::multiset::emplace` under an order by size: equal ones stay in their order. -/
def emplaceBy (size : α → ℕ) (v : α) : List α → List α
  | [] => [v]
  | w :: l => if size v < size w then v :: w :: l else w :: emplaceBy size v l

/-- One after the other, into a multiset that has some already. -/
def emplaceAll (size : α → ℕ) (l l' : List α) : List α := l'.foldl (fun l v => emplaceBy size v l) l

theorem emplaceBy_perm (size : α → ℕ) (v : α) (l : List α) : (emplaceBy size v l).Perm (v :: l) := by
  induction l with
  | nil => exact List.Perm.refl _
  | cons w l ih =>
    unfold emplaceBy
    split_ifs
    · exact List.Perm.refl _
    · exact (ih.cons w).trans (List.Perm.swap _ _ _)

theorem sorted_emplaceBy (v : α) (h : l.Pairwise fun v w => size v ≤ size w) :
    (emplaceBy size v l).Pairwise fun v w => size v ≤ size w := by
  induction l with
  | nil => exact List.pairwise_singleton _ _
  | cons w l ih =>
    obtain ⟨hle, hl⟩ := List.pairwise_cons.mp h
    unfold emplaceBy
    split_ifs with hlt
    · refine List.pairwise_cons.mpr ⟨fun u hu => ?_, h⟩
      obtain rfl | hu := List.mem_cons.mp hu
      · exact hlt.le
      · exact hlt.le.trans (hle u hu)
    · refine List.pairwise_cons.mpr ⟨fun u hu => ?_, ih hl⟩
      obtain rfl | hu := List.mem_cons.mp ((emplaceBy_perm size v l).mem_iff.mp hu)
      · exact not_lt.mp hlt
      · exact hle u hu

theorem map_emplaceBy {f : α → β} (v : α) (l : List α) (h : ∀ w ∈ v :: l, size' (f w) = size w) :
    (emplaceBy size v l).map f = emplaceBy size' (f v) (l.map f) := by
  induction l with
  | nil => rfl
  | cons w l ih =>
    have hv := h v List.mem_cons_self
    have hw := h w (List.mem_cons_of_mem _ List.mem_cons_self)
    have hrest := ih fun u hu => h u ((List.cons_subset_cons v (List.subset_cons_self w l)) hu)
    unfold emplaceBy
    rw [List.map_cons]
    dsimp only
    rw [hv, hw]
    split_ifs
    · rfl
    · rw [List.map_cons, hrest]

theorem emplaceAll_perm (size : α → ℕ) (l l' : List α) : (emplaceAll size l l').Perm (l ++ l') := by
  induction l' generalizing l with
  | nil => simp [emplaceAll]
  | cons v l' ih =>
    refine (ih (emplaceBy size v l)).trans ?_
    exact ((emplaceBy_perm size v l).append_right l').trans List.perm_middle.symm

theorem sorted_emplaceAll (l' : List α) (h : l.Pairwise fun v w => size v ≤ size w) :
    (emplaceAll size l l').Pairwise fun v w => size v ≤ size w := by
  induction l' generalizing l with
  | nil => exact h
  | cons v l' ih => exact ih (sorted_emplaceBy v h)

theorem map_emplaceAll {f : α → β} (l l' : List α) (h : ∀ w ∈ l ++ l', size' (f w) = size w) :
    (emplaceAll size l l').map f = emplaceAll size' (l.map f) (l'.map f) := by
  induction l' generalizing l with
  | nil => rfl
  | cons v l' ih =>
    have hv : ∀ w ∈ v :: l, size' (f w) = size w := by
      intro w hw
      apply h w
      obtain rfl | hw := List.mem_cons.mp hw
      · exact List.mem_append_right _ List.mem_cons_self
      · exact List.mem_append_left _ hw
    have hrest := ih (emplaceBy size v l) fun w hw => by
      refine h w (List.perm_middle.mem_iff.mpr ?_)
      exact (((emplaceBy_perm size v l).append_right l').mem_iff).mp hw
    unfold emplaceAll at hrest ⊢
    rw [List.map_cons, List.foldl_cons, List.foldl_cons, hrest, map_emplaceBy v l hv]

/-- What the cheapest of some prices cost together; all of them where there are too few. -/
def cheapest (k : ℕ) (prices : List ℕ) : ℕ := ((emplaceAll id [] prices).take k).sum

theorem cheapest_eq {k : ℕ} {prices sorted : List ℕ} (hperm : sorted.Perm prices)
    (hsorted : sorted.Pairwise (· ≤ ·)) : cheapest k prices = (sorted.take k).sum := by
  have hall : (emplaceAll id [] prices).Pairwise (· ≤ ·) := sorted_emplaceAll prices List.Pairwise.nil
  rw [cheapest, ((emplaceAll_perm id [] prices).trans hperm.symm).eq_of_pairwise' hall hsorted]

end Sorted

/-! ## Sums and counts -/

theorem add_sum_take_le {a : ℕ} {l : List ℕ} (hsorted : (a :: l).Pairwise (· ≤ ·)) {m : ℕ}
    (hm : m < l.length) : a + (l.take m).sum ≤ (l.take (m + 1)).sum := by
  have hle : a ≤ l[m] := (List.pairwise_cons.mp hsorted).1 _ (List.getElem_mem hm)
  rw [List.take_succ_eq_append_getElem hm, List.sum_append, List.sum_singleton]
  omega

theorem sum_take_le_of_sublist {l l' : List ℕ} (hsorted : l.Pairwise (· ≤ ·)) (hsub : l'.Sublist l) {m : ℕ}
    (hm : m ≤ l'.length) : (l.take m).sum ≤ l'.sum := by
  induction hsub generalizing m with
  | slnil => simp
  | @cons l₁ l₂ a hsub ih =>
    have hl := (List.pairwise_cons.mp hsorted).2
    cases m with
    | zero => simp
    | succ m =>
      have hlt : m < l₂.length := lt_of_lt_of_le hm hsub.length_le
      rw [List.take_succ_cons, List.sum_cons]
      exact (add_sum_take_le hsorted hlt).trans (ih hl hm)
  | @cons_cons l₁ l₂ a hsub ih =>
    have hl := (List.pairwise_cons.mp hsorted).2
    cases m with
    | zero => simp
    | succ m =>
      rw [List.take_succ_cons, List.sum_cons, List.sum_cons]
      have := ih hl (Nat.le_of_succ_le_succ hm)
      omega

theorem sum_take_le {l l' : List ℕ} (hsorted : l.Pairwise (· ≤ ·)) (hsub : l'.Subperm l) {m : ℕ}
    (hm : m ≤ l'.length) : (l.take m).sum ≤ l'.sum := by
  obtain ⟨l'', hperm, hsublist⟩ := hsub
  rw [← hperm.sum_eq]
  exact sum_take_le_of_sublist hsorted hsublist (hm.trans_eq hperm.length_eq.symm)

/-- What two predicates that exclude each other count, a weaker one counts too. -/
theorem countP_add_countP_le {α : Type} {p q r : α → Bool} {l : List α}
    (hpq : ∀ a ∈ l, p a = true → q a = false) (hp : ∀ a ∈ l, p a = true → r a = true)
    (hq : ∀ a ∈ l, q a = true → r a = true) : l.countP p + l.countP q ≤ l.countP r := by
  induction l with
  | nil => simp
  | cons a l ih =>
    have hrest := ih (fun a ha => hpq a (List.mem_cons_of_mem _ ha))
      (fun a ha => hp a (List.mem_cons_of_mem _ ha)) fun a ha => hq a (List.mem_cons_of_mem _ ha)
    rw [List.countP_cons, List.countP_cons, List.countP_cons]
    cases hpa : p a with
    | true =>
      rw [hpq a List.mem_cons_self hpa, hp a List.mem_cons_self hpa]
      simp only [if_true, Bool.false_eq_true, if_false]
      omega
    | false =>
      cases hqa : q a with
      | true =>
        rw [hq a List.mem_cons_self hqa]
        simp only [if_true, Bool.false_eq_true, if_false]
        omega
      | false =>
        simp only [Bool.false_eq_true, if_false]
        omega

/-- What a predicate counts, two that cover it count together. -/
theorem countP_le_countP_add {α : Type} {p q r : α → Bool} {l : List α}
    (h : ∀ a ∈ l, r a = true → p a = true ∨ q a = true) : l.countP r ≤ l.countP p + l.countP q := by
  induction l with
  | nil => simp
  | cons a l ih =>
    have hrest := ih fun a ha => h a (List.mem_cons_of_mem _ ha)
    rw [List.countP_cons, List.countP_cons, List.countP_cons]
    cases hra : r a with
    | true =>
      obtain hpa | hqa := h a List.mem_cons_self hra
      · rw [hpa]
        simp only [if_true]
        omega
      · rw [hqa]
        simp only [if_true]
        omega
    | false =>
      simp only [Bool.false_eq_true, if_false]
      omega

/-- What disjoint lists take of a list they take together. -/
theorem sum_countP_le {α ι : Type} [DecidableEq α] {f : ι → List α} {is : List ι} (l : List α)
    (hnodup : (is.flatMap f).Nodup) :
    (is.map fun i => l.countP fun a => decide (a ∈ f i)).sum ≤
      l.countP fun a => decide (a ∈ is.flatMap f) := by
  induction is with
  | nil => simp
  | cons i is ih =>
    rw [List.flatMap_cons] at hnodup
    obtain ⟨-, hrest, hdisjoint⟩ := List.nodup_append.mp hnodup
    have hadd : l.countP (fun a => decide (a ∈ f i)) + l.countP (fun a => decide (a ∈ is.flatMap f)) ≤
        l.countP fun a => decide (a ∈ (i :: is).flatMap f) := by
      apply countP_add_countP_le
      · intro a _ ha
        exact decide_eq_false fun his => hdisjoint a (of_decide_eq_true ha) a his rfl
      · intro a _ ha
        exact decide_eq_true (List.mem_append_left _ (of_decide_eq_true ha))
      · intro a _ ha
        exact decide_eq_true (List.mem_append_right _ (of_decide_eq_true ha))
    rw [List.map_cons, List.sum_cons]
    have := ih hrest
    omega

end ZaggCore.Foundations
