import Mathlib

/-! # Lists sorted by a key

A list whose keys increase strictly is a finite map. This module has its lookup, the merge in which a
newer list wins over an older one, and what filtering and sorting do to lookups. -/

namespace ZaggCore.SortedKeys
set_option autoImplicit false
set_option maxHeartbeats 250000

variable {α κ : Type*} [LinearOrder κ] (key : α → κ)

/-- The keys increase strictly. -/
abbrev SortedBy (l : List α) : Prop := l.Pairwise fun a b => key a < key b

/-- The element with the given key. -/
def lookup (l : List α) (k : κ) : Option α := l.find? fun a => key a = k

theorem lookup_eq_none_iff (l : List α) (k : κ) : lookup key l k = none ↔ ∀ a ∈ l, key a ≠ k := by
  simp [lookup]

theorem lookup_isSome_iff (l : List α) (k : κ) : (lookup key l k).isSome ↔ ∃ a ∈ l, key a = k := by
  simp [lookup]

theorem mem_of_lookup {l : List α} {k : κ} {a : α} (h : lookup key l k = some a) : a ∈ l ∧ key a = k :=
  ⟨List.mem_of_find?_eq_some h, by simpa using List.find?_some h⟩

theorem lookup_cons (a : α) (l : List α) (k : κ) :
    lookup key (a :: l) k = if key a = k then some a else lookup key l k := by
  by_cases h : key a = k <;> simp [lookup, h]

theorem SortedBy.eq_of_key {l : List α} (h : SortedBy key l) {a b : α} (ha : a ∈ l) (hb : b ∈ l)
    (hk : key a = key b) : a = b := by
  induction h with
  | nil => cases ha
  | cons hlt _ ih =>
    rw [List.mem_cons] at ha hb
    obtain rfl | ha := ha
    · obtain rfl | hb := hb
      · rfl
      · exact absurd hk (hlt b hb).ne
    · obtain rfl | hb := hb
      · exact absurd hk.symm (hlt a ha).ne
      · exact ih ha hb

theorem lookup_eq_some_iff {l : List α} (h : SortedBy key l) (k : κ) (a : α) :
    lookup key l k = some a ↔ a ∈ l ∧ key a = k := by
  refine ⟨mem_of_lookup key, fun ⟨ha, hk⟩ => ?_⟩
  obtain ⟨b, hb⟩ := Option.isSome_iff_exists.mp ((lookup_isSome_iff key l k).mpr ⟨a, ha, hk⟩)
  obtain ⟨hbl, hbk⟩ := mem_of_lookup key hb
  rw [hb, h.eq_of_key key hbl ha (hbk.trans hk.symm)]

/-- The keys under the first one of a sorted list are not in it. -/
theorem lookup_eq_none_of_lt {a : α} {l : List α} {k : κ} (h : SortedBy key (a :: l))
    (hk : k < key a) : lookup key (a :: l) k = none := by
  rw [lookup_eq_none_iff]
  intro b hb
  rcases List.mem_cons.mp hb with rfl | hb
  · exact hk.ne'
  · exact (hk.trans (List.rel_of_pairwise_cons h hb)).ne'

theorem SortedBy.filter {l : List α} (h : SortedBy key l) (p : α → Bool) :
    SortedBy key (l.filter p) :=
  List.Pairwise.filter p h

theorem lookup_filter {l : List α} (h : SortedBy key l) (p : α → Bool) (k : κ) :
    lookup key (l.filter p) k = (lookup key l k).filter p := by
  ext a
  rw [lookup_eq_some_iff key (h.filter key p), Option.filter_eq_some_iff, lookup_eq_some_iff key h,
    List.mem_filter]
  tauto

/-- Dropping elements of other keys from the front does not change a lookup. -/
theorem lookup_dropWhile {l : List α} {p : α → Bool} {k : κ} (h : ∀ a ∈ l, p a = true → key a ≠ k) :
    lookup key (l.dropWhile p) k = lookup key l k := by
  induction l with
  | nil => rfl
  | cons a l ih =>
    by_cases hp : p a = true
    · rw [List.dropWhile_cons_of_pos hp, lookup_cons, if_neg (h a List.mem_cons_self hp)]
      exact ih fun b hb => h b (List.mem_cons_of_mem _ hb)
    · rw [List.dropWhile_cons_of_neg hp]

/-! ## Merging -/

/-- Merge two sorted lists; on equal keys the newer list's element is kept. -/
def mergeNewer : List α → List α → List α
  | [], new => new
  | old, [] => old
  | o :: old, n :: new =>
    if key o < key n then o :: mergeNewer old (n :: new)
    else if key n < key o then n :: mergeNewer (o :: old) new
    else n :: mergeNewer old new
  termination_by old new => old.length + new.length

theorem mem_mergeNewer {old new : List α} {a : α} (h : a ∈ mergeNewer key old new) :
    a ∈ old ∨ a ∈ new := by
  fun_induction mergeNewer key old new with
  | case1 => exact .inr h
  | case2 => exact .inl h
  | case3 o old n new hlt ih => grind
  | case4 o old n new hlt hgt ih => grind
  | case5 o old n new hlt hgt ih => grind

theorem sortedBy_mergeNewer {old new : List α} (ho : SortedBy key old) (hn : SortedBy key new) :
    SortedBy key (mergeNewer key old new) := by
  fun_induction mergeNewer key old new with
  | case1 => exact hn
  | case2 => exact ho
  | case3 o old n new hlt ih =>
    refine List.pairwise_cons.mpr ⟨fun a ha => ?_, ih (List.pairwise_cons.mp ho).2 hn⟩
    rcases mem_mergeNewer key ha with ha | ha
    · exact List.rel_of_pairwise_cons ho ha
    · rcases List.mem_cons.mp ha with rfl | ha
      · exact hlt
      · exact hlt.trans (List.rel_of_pairwise_cons hn ha)
  | case4 o old n new hlt hgt ih =>
    refine List.pairwise_cons.mpr ⟨fun a ha => ?_, ih ho (List.pairwise_cons.mp hn).2⟩
    rcases mem_mergeNewer key ha with ha | ha
    · rcases List.mem_cons.mp ha with rfl | ha
      · exact hgt
      · exact hgt.trans (List.rel_of_pairwise_cons ho ha)
    · exact List.rel_of_pairwise_cons hn ha
  | case5 o old n new hlt hgt ih =>
    have heq : key o = key n := le_antisymm (not_lt.mp hgt) (not_lt.mp hlt)
    refine List.pairwise_cons.mpr
      ⟨fun a ha => ?_, ih (List.pairwise_cons.mp ho).2 (List.pairwise_cons.mp hn).2⟩
    rcases mem_mergeNewer key ha with ha | ha
    · exact heq ▸ List.rel_of_pairwise_cons ho ha
    · exact List.rel_of_pairwise_cons hn ha

/-- A merge answers from the newer list first. -/
theorem lookup_mergeNewer {old new : List α} (ho : SortedBy key old) (hn : SortedBy key new) (k : κ) :
    lookup key (mergeNewer key old new) k = (lookup key new k).or (lookup key old k) := by
  fun_induction mergeNewer key old new with
  | case1 => simp [lookup]
  | case2 => simp [lookup]
  | case3 o old n new hlt ih =>
    rw [lookup_cons, ih (List.pairwise_cons.mp ho).2 hn, lookup_cons key o]
    by_cases hk : key o = k
    · rw [if_pos hk, if_pos hk, lookup_eq_none_of_lt key hn (hk ▸ hlt), Option.none_or]
    · rw [if_neg hk, if_neg hk]
  | case4 o old n new hlt hgt ih =>
    rw [lookup_cons, ih ho (List.pairwise_cons.mp hn).2, lookup_cons key n]
    by_cases hk : key n = k <;> simp [hk]
  | case5 o old n new hlt hgt ih =>
    have heq : key o = key n := le_antisymm (not_lt.mp hgt) (not_lt.mp hlt)
    rw [lookup_cons, ih (List.pairwise_cons.mp ho).2 (List.pairwise_cons.mp hn).2, lookup_cons key n,
      lookup_cons key o, heq]
    by_cases hk : key n = k <;> simp [hk]

/-! ## One new element -/

/-- Insert an element, or put it in the place of the one with its key. -/
def insertOrAssign (a : α) : List α → List α
  | [] => [a]
  | b :: l =>
    if key b < key a then b :: insertOrAssign a l
    else if key a < key b then a :: b :: l
    else a :: l

theorem insertOrAssign_eq (a : α) (l : List α) : insertOrAssign key a l = mergeNewer key l [a] := by
  induction l with
  | nil => simp [insertOrAssign, mergeNewer]
  | cons b l ih =>
    rw [insertOrAssign, mergeNewer, ih]
    cases l <;> simp [mergeNewer]

theorem sortedBy_insertOrAssign {l : List α} (h : SortedBy key l) (a : α) :
    SortedBy key (insertOrAssign key a l) := by
  rw [insertOrAssign_eq]
  exact sortedBy_mergeNewer key h (List.pairwise_singleton _ a)

theorem lookup_insertOrAssign {l : List α} (h : SortedBy key l) (a : α) (k : κ) :
    lookup key (insertOrAssign key a l) k = if key a = k then some a else lookup key l k := by
  rw [insertOrAssign_eq, lookup_mergeNewer key h (List.pairwise_singleton _ a), lookup_cons]
  split_ifs <;> rfl

theorem mem_insertOrAssign {l : List α} (h : SortedBy key l) {a b : α} :
    b ∈ insertOrAssign key a l ↔ b = a ∨ b ∈ l ∧ key b ≠ key a := by
  have hmem := lookup_eq_some_iff key (sortedBy_insertOrAssign key h a) (key b) b
  rw [lookup_insertOrAssign key h, and_iff_left rfl] at hmem
  rw [← hmem]
  split_ifs with hk
  · rw [Option.some.injEq]
    constructor
    · rintro rfl
      exact .inl rfl
    · rintro (rfl | ⟨-, hne⟩)
      · rfl
      · exact absurd hk.symm hne
  · rw [lookup_eq_some_iff key h, and_iff_left rfl]
    constructor
    · intro hb
      exact .inr ⟨hb, fun heq => hk heq.symm⟩
    · rintro (rfl | ⟨hb, -⟩)
      · exact absurd rfl hk
      · exact hb

/-- An element takes the place of one that was inserted with its key. -/
theorem insertOrAssign_insertOrAssign {a a' : α} (h : key a = key a') (l : List α) :
    insertOrAssign key a' (insertOrAssign key a l) = insertOrAssign key a' l := by
  induction l with
  | nil => simp [insertOrAssign, h]
  | cons b l ih =>
    rcases lt_trichotomy (key b) (key a') with hlt | heq | hgt
    · simp [insertOrAssign, h, hlt, ih]
    · simp [insertOrAssign, h, heq]
    · simp [insertOrAssign, h, hgt, hgt.not_gt]

theorem insertOrAssign_of_lookup {l : List α} (h : SortedBy key l) {a : α}
    (ha : lookup key l (key a) = some a) : insertOrAssign key a l = l := by
  induction l with
  | nil => exact absurd ha (by simp [lookup])
  | cons b l ih =>
    obtain ⟨hb, hl⟩ := List.pairwise_cons.mp h
    rw [lookup_cons] at ha
    rw [insertOrAssign]
    split_ifs at ha with hk
    · obtain rfl := Option.some.inj ha
      simp
    · rw [if_pos (hb a (mem_of_lookup key ha).1), ih hl ha]

/-- A function that keeps the keys goes through an insertion. -/
theorem map_insertOrAssign {β : Type*} {key' : β → κ} {f : α → β} (hf : ∀ a, key' (f a) = key a) (a : α)
    (l : List α) : (insertOrAssign key a l).map f = insertOrAssign key' (f a) (l.map f) := by
  induction l with
  | nil => rfl
  | cons b l ih =>
    rw [List.map_cons, insertOrAssign, insertOrAssign, hf, hf]
    split_ifs
    · rw [List.map_cons, ih]
    · rfl
    · rfl

end ZaggCore.SortedKeys
