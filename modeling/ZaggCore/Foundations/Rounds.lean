import Mathlib

/-! # Dealing in rounds

A list is dealt into rounds by a key: the `n`-th element of a key goes into round `n`. A sort that is not
stable is known by its contract only. -/

namespace ZaggCore.Foundations
set_option autoImplicit false
set_option maxHeartbeats 250000

/-! ## Sorting -/

/-- What a comparison has to be for `std::sort`. -/
structure StrictWeak {α : Type} (lt : α → α → Bool) : Prop where
  asymm : ∀ a b, lt a b = true → lt b a = false
  trans : ∀ a b c, lt b a = false → lt c b = false → lt c a = false

theorem strictWeak_of_key {α β : Type} [LinearOrder β] (f : α → β) :
    StrictWeak fun a b => decide (f a < f b) where
  asymm a b h := by
    have hlt := of_decide_eq_true h
    simpa using hlt.le
  trans a b c hab hbc := by
    have h1 := of_decide_eq_false hab
    have h2 := of_decide_eq_false hbc
    simpa using (not_lt.mp h1).trans (not_lt.mp h2)

/-- `std::sort`, of which no more is known than its contract. -/
structure StdSort where
  sort : {α : Type} → (α → α → Bool) → List α → List α
  perm : ∀ {α : Type} (lt : α → α → Bool) (l : List α), (sort lt l).Perm l
  sorted : ∀ {α : Type} (lt : α → α → Bool) (l : List α), StrictWeak lt →
    (sort lt l).Pairwise fun a b => lt b a = false

/-- A merge sort meets the contract. -/
def StdSort.merge : StdSort where
  sort lt l := l.mergeSort fun a b => !lt b a
  perm lt l := List.mergeSort_perm l _
  sorted lt l h := by
    refine (List.pairwise_mergeSort (fun a b c hab hbc => ?_) (fun a b => ?_) l).imp fun hab => ?_
    · simp only [Bool.not_eq_true'] at hab hbc ⊢
      exact h.trans a b c hab hbc
    · cases hab : lt a b with
      | false => simp
      | true => simp [h.asymm a b hab]
    · simpa using hab

/-- Sorting by a key that tells the elements apart gives one list, whatever the order before. -/
theorem StdSort.sort_eq {α β : Type} [LinearOrder β] {f : α → β} {sort sort' : StdSort} {l l' : List α}
    (hperm : l.Perm l') (hinj : ∀ a ∈ l, ∀ b ∈ l, f a = f b → a = b) :
    sort.sort (fun a b => decide (f a < f b)) l = sort'.sort (fun a b => decide (f a < f b)) l' := by
  have hweak := strictWeak_of_key f
  have hmem : ∀ a, a ∈ sort.sort (fun a b => decide (f a < f b)) l → a ∈ l :=
    fun a => (sort.perm _ l).mem_iff.mp
  have hmem' : ∀ a, a ∈ sort'.sort (fun a b => decide (f a < f b)) l' → a ∈ l :=
    fun a ha => hperm.mem_iff.mpr ((sort'.perm _ l').mem_iff.mp ha)
  refine List.Perm.eq_of_pairwise (fun a b ha hb hab hba => ?_) (sort.sorted _ l hweak)
    (sort'.sorted _ l' hweak) ((sort.perm _ l).trans (hperm.trans (sort'.perm _ l').symm))
  have hle : f a ≤ f b := by simpa using hab
  have hge : f b ≤ f a := by simpa using hba
  exact hinj a (hmem a ha) b (hmem' b hb) (le_antisymm hle hge)

/-! ## Rounds -/

section Rounds

variable {α κ β : Type} [DecidableEq κ] [LinearOrder β] (key : α → κ) (ord : α → β)

/-- Every element with how many of its key came before it, from what was seen already. -/
def numbered : (κ → ℕ) → List α → List (ℕ × α)
  | _, [] => []
  | seen, a :: l =>
    (seen (key a), a) :: numbered (Function.update seen (key a) (seen (key a) + 1)) l

/-- How many elements of its key are below an element. -/
def rank (l : List α) (a : α) : ℕ := l.countP fun b => decide (key b = key a) && decide (ord b < ord a)

/-- No two elements of one key are alike. -/
def DistinctIn (l : List α) : Prop := l.Pairwise fun a b => ¬ (key a = key b ∧ ord a = ord b)

variable {key ord} {l l' : List α}

omit [LinearOrder β] [DecidableEq κ] in
theorem DistinctIn.perm (h : DistinctIn key ord l) (hperm : l.Perm l') : DistinctIn key ord l' :=
  List.Pairwise.perm h hperm fun hab hba => hab ⟨hba.1.symm, hba.2.symm⟩

omit [LinearOrder β] [DecidableEq κ] in
theorem DistinctIn.nodup (h : DistinctIn key ord l) : l.Nodup :=
  h.imp fun hne heq => hne ⟨congrArg key heq, congrArg ord heq⟩

omit [LinearOrder β] [DecidableEq κ] in
theorem DistinctIn.eq (h : DistinctIn key ord l) {a b : α} (ha : a ∈ l) (hb : b ∈ l) (hkey : key a = key b)
    (hord : ord a = ord b) : a = b := by
  have hsymm : Std.Symm fun a b => ¬ (key a = key b ∧ ord a = ord b) :=
    ⟨fun a b hab hba => hab ⟨hba.1.symm, hba.2.symm⟩⟩
  by_contra hne
  exact List.Pairwise.forall h ha hb hne ⟨hkey, hord⟩

theorem rank_perm (h : l.Perm l') (a : α) : rank key ord l a = rank key ord l' a := h.countP_eq _

/-- The rank grows with the order. -/
theorem rank_lt {a b : α} (ha : a ∈ l) (hkey : key a = key b) (hlt : ord a < ord b) :
    rank key ord l a < rank key ord l b := by
  have hself : 0 < l.countP fun c => decide (key c = key a) && decide (ord c = ord a) :=
    List.countP_pos_iff.mpr ⟨a, ha, by simp⟩
  have hsum : rank key ord l a + l.countP (fun c => decide (key c = key a) && decide (ord c = ord a)) ≤
      rank key ord l b := by
    unfold rank
    clear hself ha
    induction l with
    | nil => exact le_rfl
    | cons c l ih =>
      rw [List.countP_cons, List.countP_cons, List.countP_cons]
      by_cases hc : key c = key b
      · obtain hca | hca | hca := lt_trichotomy (ord c) (ord a)
        · simp [hkey, hc, hca, hca.ne, hca.trans hlt] at ih ⊢
          omega
        · simp [hkey, hc, hca, hlt] at ih ⊢
          omega
        · simp [hkey, hc, hca.not_gt, hca.ne'] at ih ⊢
          omega
      · simp [hkey, hc] at ih ⊢
        omega
  omega

/-- Two elements of one key are ordered as their ranks are. -/
theorem DistinctIn.compare_rank (h : DistinctIn key ord l) {a b : α} (ha : a ∈ l) (hb : b ∈ l)
    (hkey : key a = key b) :
    (ord a < ord b ∧ rank key ord l a < rank key ord l b) ∨ a = b ∨
      (ord b < ord a ∧ rank key ord l b < rank key ord l a) := by
  obtain hlt | heq | hgt := lt_trichotomy (ord a) (ord b)
  · exact .inl ⟨hlt, rank_lt ha hkey hlt⟩
  · exact .inr (.inl (h.eq ha hb hkey heq))
  · exact .inr (.inr ⟨hgt, rank_lt hb hkey.symm hgt⟩)

/-- In a sorted list the number of an element is its rank. -/
theorem numbered_eq (seen : κ → ℕ) (hsorted : l.Pairwise fun a b => ord a ≤ ord b)
    (hdistinct : DistinctIn key ord l) :
    numbered key seen l = l.map fun a => (seen (key a) + rank key ord l a, a) := by
  induction l generalizing seen with
  | nil => rfl
  | cons a l ih =>
    obtain ⟨hle, hsorted'⟩ := List.pairwise_cons.mp hsorted
    obtain ⟨hne, hdistinct'⟩ := List.pairwise_cons.mp hdistinct
    have hfirst : rank key ord (a :: l) a = 0 := by
      refine List.countP_eq_zero.mpr fun b hb => ?_
      obtain rfl | hb := List.mem_cons.mp hb
      · simp
      · simp [(hle b hb).not_gt]
    unfold numbered
    rw [ih _ hsorted' hdistinct', List.map_cons, hfirst]
    congr 1
    apply List.map_congr_left
    intro b hb
    have hcons : rank key ord (a :: l) b =
        rank key ord l b + if key a = key b then 1 else 0 := by
      unfold rank
      rw [List.countP_cons]
      congr 1
      by_cases hkey : key a = key b
      · have hlt : ord a < ord b := lt_of_le_of_ne (hle b hb) fun heq => hne b hb ⟨hkey, heq⟩
        simp [hkey, hlt]
      · simp [hkey]
    rw [hcons]
    by_cases hkey : key a = key b
    · simp [hkey]
      omega
    · simp [hkey, Function.update_of_ne (Ne.symm hkey)]

end Rounds

/-! ## Putting the rounds together -/

section Together

variable {α : Type} {r : α → ℕ} {l : List α}

theorem flatMap_range_eq {K N : ℕ} {h : ℕ → List α} (hle : K ≤ N) (hnil : ∀ k, K ≤ k → h k = []) :
    (List.range N).flatMap h = (List.range K).flatMap h := by
  induction N, hle using Nat.le_induction with
  | base => rfl
  | succ N hle ih => rw [List.range_succ, List.flatMap_append, ih, List.flatMap_singleton, hnil N hle,
      List.append_nil]

theorem flatMap_getD (L : List (List α)) (g : List α → List α) :
    L.flatMap g = (List.range L.length).flatMap fun k => g (L.getD k []) := by
  induction L with
  | nil => rfl
  | cons a L ih =>
    rw [List.flatMap_cons, List.length_cons, List.range_succ_eq_map, List.flatMap_cons, List.flatMap_map, ih]
    rfl

theorem rounds_perm_filter (r : α → ℕ) (l : List α) (N : ℕ) :
    ((List.range N).flatMap fun k => l.filter fun a => decide (r a = k)).Perm
      (l.filter fun a => decide (r a < N)) := by
  induction N with
  | zero => simp
  | succ N ih =>
    rw [List.range_succ, List.flatMap_append, List.flatMap_singleton]
    refine (ih.append_right _).trans ?_
    have hsplit := List.filter_append_perm (fun a => decide (r a < N)) (l.filter fun a => decide (r a < N + 1))
    rw [List.filter_filter, List.filter_filter] at hsplit
    convert hsplit using 3
    · funext a
      rw [Bool.eq_iff_iff]
      simp
      omega
    · funext a
      rw [Bool.eq_iff_iff]
      simp
      omega

/-- All rounds together are the list. -/
theorem rounds_perm {g : List α → List α} (hg : ∀ l, (g l).Perm l) {N : ℕ} (hN : ∀ a ∈ l, r a < N) :
    ((List.range N).flatMap fun k => g (l.filter fun a => decide (r a = k))).Perm l := by
  have hall : (l.filter fun a => decide (r a < N)) = l :=
    List.filter_eq_self.mpr fun a ha => decide_eq_true (hN a ha)
  refine (List.Perm.flatMap_left _ fun k _ => hg _).trans ?_
  refine (rounds_perm_filter r l N).trans ?_
  rw [hall]

/-- What holds within a round and from a round to a later one holds along the whole list. -/
theorem rounds_pairwise {g : List α → List α} (hg : ∀ l, (g l).Perm l) {R : α → α → Prop}
    (hnodup : l.Nodup) (hsame : ∀ a ∈ l, ∀ b ∈ l, a ≠ b → r a = r b → R a b)
    (hlt : ∀ a ∈ l, ∀ b ∈ l, r a < r b → R a b) (N : ℕ) :
    ((List.range N).flatMap fun k => g (l.filter fun a => decide (r a = k))).Pairwise R := by
  have hmem : ∀ k a, a ∈ g (l.filter fun a => decide (r a = k)) → a ∈ l ∧ r a = k := by
    intro k a ha
    have hfilter := List.mem_filter.mp ((hg _).mem_iff.mp ha)
    exact ⟨hfilter.1, of_decide_eq_true hfilter.2⟩
  rw [List.pairwise_flatMap]
  constructor
  · intro k _
    have hround : (g (l.filter fun a => decide (r a = k))).Nodup :=
      (hg _).nodup_iff.mpr (hnodup.filter _)
    refine List.Pairwise.imp_of_mem (fun ha hb hne => ?_) hround
    obtain ⟨hal, hak⟩ := hmem k _ ha
    obtain ⟨hbl, hbk⟩ := hmem k _ hb
    exact hsame _ hal _ hbl hne (hak.trans hbk.symm)
  · refine List.pairwise_lt_range.imp fun hlt' a ha b hb => ?_
    obtain ⟨hal, hak⟩ := hmem _ _ ha
    obtain ⟨hbl, hbk⟩ := hmem _ _ hb
    refine hlt a hal b hbl ?_
    rwa [hak, hbk]

end Together

end ZaggCore.Foundations
