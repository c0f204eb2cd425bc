import Mathlib

/-! # `lru_cache`

The model of `lib/util/lrucache.hpp`: the list of items with the most recently used one in front. -/

namespace ZaggCore.Util
set_option autoImplicit false
set_option maxHeartbeats 250000

structure LruCache (κ ν : Type*) where
  maxSize : ℕ
  items : List (κ × ν)

namespace LruCache

variable {κ ν : Type*} [DecidableEq κ]

def new (maxSize : ℕ) : LruCache κ ν := ⟨maxSize, []⟩

def clear (c : LruCache κ ν) : LruCache κ ν := ⟨c.maxSize, []⟩

/-- The value under a key, without touching the order. -/
def find? (c : LruCache κ ν) (key : κ) : Option ν :=
  (c.items.find? fun i => i.1 = key).map Prod.snd

def exists? (c : LruCache κ ν) (key : κ) : Bool := (c.find? key).isSome

/-- The new item goes to the front, and the last one is dropped when there are too many. -/
def put (c : LruCache κ ν) (key : κ) (value : ν) : LruCache κ ν :=
  let items := (key, value) :: c.items.filter fun i => i.1 ≠ key
  if c.maxSize < items.length then ⟨c.maxSize, items.dropLast⟩ else ⟨c.maxSize, items⟩

/-- `get` splices the item to the front. -/
def touch (c : LruCache κ ν) (key : κ) : LruCache κ ν :=
  ⟨c.maxSize, (c.items.filter fun i => i.1 = key) ++ c.items.filter fun i => i.1 ≠ key⟩

/-- Replace the value under a key, as the code does through the reference that `get` returns. -/
def set (c : LruCache κ ν) (key : κ) (value : ν) : LruCache κ ν :=
  ⟨c.maxSize, c.items.map fun i => if i.1 = key then (key, value) else i⟩

/-- Erase the items whose value satisfies `f`. -/
def eraseIf (c : LruCache κ ν) (f : ν → Bool) : LruCache κ ν :=
  ⟨c.maxSize, c.items.filter fun i => !f i.2⟩

/-- A `put` of the key drops no item. -/
def Room (c : LruCache κ ν) (key : κ) : Prop := (c.items.filter fun i => i.1 ≠ key).length < c.maxSize

instance (c : LruCache κ ν) (key : κ) : Decidable (c.Room key) :=
  inferInstanceAs (Decidable (_ < _))

/-- No two items have the same key. -/
def Keyed (c : LruCache κ ν) : Prop := (c.items.map Prod.fst).Nodup

/-- Every item of the cache satisfies `P`. -/
def All (c : LruCache κ ν) (P : κ → ν → Prop) : Prop := ∀ i ∈ c.items, P i.1 i.2

theorem All.find? {c : LruCache κ ν} {P : κ → ν → Prop} (h : c.All P) {key : κ} {value : ν}
    (hf : c.find? key = some value) : P key value := by
  obtain ⟨i, hi, rfl⟩ := Option.map_eq_some_iff.mp hf
  have hkey : i.1 = key := by simpa using List.find?_some hi
  exact hkey ▸ h i (List.mem_of_find?_eq_some hi)

omit [DecidableEq κ] in
theorem all_clear (c : LruCache κ ν) (P : κ → ν → Prop) : c.clear.All P := by
  intro i hi
  cases hi

theorem All.put {c : LruCache κ ν} {P : κ → ν → Prop} (h : c.All P) {key : κ} {value : ν}
    (hv : P key value) : (c.put key value).All P := by
  have hall : ∀ i ∈ (key, value) :: c.items.filter (fun i => i.1 ≠ key), P i.1 i.2 :=
    List.forall_mem_cons.mpr ⟨hv, fun i hi => h i (List.mem_of_mem_filter hi)⟩
  intro i hi
  unfold LruCache.put at hi
  dsimp only at hi
  split at hi
  · exact hall i (List.mem_of_mem_dropLast hi)
  · exact hall i hi

theorem All.touch {c : LruCache κ ν} {P : κ → ν → Prop} (h : c.All P) (key : κ) :
    (c.touch key).All P := by
  intro i hi
  rcases List.mem_append.mp hi with hi | hi <;> exact h i (List.mem_of_mem_filter hi)

theorem All.set {c : LruCache κ ν} {P : κ → ν → Prop} (h : c.All P) {key : κ} {value : ν}
    (hv : P key value) : (c.set key value).All P := by
  intro i hi
  obtain ⟨j, hj, rfl⟩ := List.mem_map.mp hi
  split
  · exact hv
  · exact h j hj

/-! ## Lookups -/

section Lookups

variable {c : LruCache κ ν}

omit [DecidableEq κ] in
theorem find?_filter_of_imp {l : List (κ × ν)} {p q : κ × ν → Bool} (h : ∀ i, q i = true → p i = true) :
    (l.filter p).find? q = l.find? q := by
  rw [List.find?_filter]
  congr 1
  funext i
  by_cases hq : q i = true
  · simp [hq, h i hq]
  · simp [hq]

omit [DecidableEq κ] in
theorem find?_filter_of_imp_not {l : List (κ × ν)} {p q : κ × ν → Bool}
    (h : ∀ i, q i = true → p i = false) : (l.filter p).find? q = none := by
  refine List.find?_eq_none.mpr fun i hi hq => ?_
  have hp : p i = true := (List.mem_filter.mp hi).2
  exact Bool.false_ne_true ((h i hq).symm.trans hp)

theorem find?_put {key : κ} (h : c.Room key) (value : ν) (k : κ) :
    (c.put key value).find? k = if k = key then some value else c.find? k := by
  have hroom : ¬ c.maxSize < ((key, value) :: c.items.filter fun i => i.1 ≠ key).length :=
    not_lt.mpr h
  unfold LruCache.put LruCache.find?
  rw [if_neg hroom]
  by_cases hk : k = key
  · simp [hk]
  · have hrest : (c.items.filter fun i => i.1 ≠ key).find? (fun i => i.1 = k)
        = c.items.find? fun i => i.1 = k := by
      refine find?_filter_of_imp fun i hi => ?_
      simpa [of_decide_eq_true hi] using hk
    rw [if_neg hk, List.find?_cons_of_neg (by simpa using Ne.symm hk), hrest]

@[simp] theorem find?_touch (key k : κ) : (c.touch key).find? k = c.find? k := by
  unfold LruCache.touch LruCache.find?
  rw [List.find?_append]
  by_cases hk : k = key
  · have hfirst : (c.items.filter fun i => i.1 = key).find? (fun i => i.1 = k)
        = c.items.find? fun i => i.1 = k :=
      find?_filter_of_imp fun i hi => by simpa [hk] using hi
    have hrest : (c.items.filter fun i => i.1 ≠ key).find? (fun i => i.1 = k) = none :=
      find?_filter_of_imp_not fun i hi => by simpa [hk] using hi
    rw [hfirst, hrest, Option.or_none]
  · have hfirst : (c.items.filter fun i => i.1 = key).find? (fun i => i.1 = k) = none :=
      find?_filter_of_imp_not fun i hi => by simpa [of_decide_eq_true hi] using hk
    have hrest : (c.items.filter fun i => i.1 ≠ key).find? (fun i => i.1 = k)
        = c.items.find? fun i => i.1 = k :=
      find?_filter_of_imp fun i hi => by simpa [of_decide_eq_true hi] using hk
    rw [hfirst, hrest, Option.none_or]

theorem find?_set (key : κ) (value : ν) (k : κ) :
    (c.set key value).find? k = if k = key then (c.find? k).map fun _ => value else c.find? k := by
  obtain ⟨maxSize, items⟩ := c
  unfold LruCache.set LruCache.find?
  induction items with
  | nil => simp
  | cons i items ih =>
    by_cases hi : i.1 = key <;> by_cases hk : i.1 = k <;> grind

/-- Of a key there is one item at most, and `find?` finds it. -/
theorem find?_eq_some_iff (h : c.Keyed) {key : κ} {value : ν} :
    c.find? key = some value ↔ (key, value) ∈ c.items := by
  refine ⟨fun hfind => ?_, fun hmem => ?_⟩
  · obtain ⟨i, hi, rfl⟩ := Option.map_eq_some_iff.mp hfind
    have hkey : i.1 = key := by simpa using List.find?_some hi
    exact hkey ▸ List.mem_of_find?_eq_some hi
  · obtain ⟨i, hi⟩ : ∃ i, c.items.find? (fun i => i.1 = key) = some i :=
      Option.isSome_iff_exists.mp (List.find?_isSome.mpr ⟨_, hmem, decide_eq_true rfl⟩)
    have hkey : i.1 = key := by simpa using List.find?_some hi
    have heq : i = (key, value) :=
      List.inj_on_of_nodup_map h (List.mem_of_find?_eq_some hi) hmem hkey
    unfold LruCache.find?
    rw [hi, heq]
    rfl

omit [DecidableEq κ] in
theorem Keyed.eraseIf (h : c.Keyed) (f : ν → Bool) : (c.eraseIf f).Keyed :=
  List.Nodup.sublist (List.Sublist.map _ List.filter_sublist) h

theorem find?_eraseIf (h : c.Keyed) (f : ν → Bool) (k : κ) :
    (c.eraseIf f).find? k = (c.find? k).filter fun v => !f v := by
  ext value
  rw [find?_eq_some_iff (h.eraseIf f), Option.filter_eq_some_iff, find?_eq_some_iff h]
  exact List.mem_filter

theorem exists?_eq (key : κ) : c.exists? key = true ↔ ∃ value, c.find? key = some value :=
  Option.isSome_iff_exists

omit [DecidableEq κ] in
theorem keyed_new (maxSize : ℕ) : (new maxSize : LruCache κ ν).Keyed := List.nodup_nil

theorem Keyed.put (h : c.Keyed) (key : κ) (value : ν) : (c.put key value).Keyed := by
  have hnodup : (((key, value) :: c.items.filter fun i => i.1 ≠ key).map Prod.fst).Nodup := by
    rw [List.map_cons, List.nodup_cons]
    refine ⟨fun hmem => ?_, List.Nodup.sublist (List.Sublist.map _ List.filter_sublist) h⟩
    obtain ⟨i, hi, hkey⟩ := List.mem_map.mp hmem
    simp [hkey] at hi
  unfold LruCache.put Keyed
  dsimp only
  split
  · rw [List.map_dropLast]
    exact List.Nodup.sublist (List.dropLast_sublist _) hnodup
  · exact hnodup

theorem Keyed.touch (h : c.Keyed) (key : κ) : (c.touch key).Keyed := by
  have hperm : (c.touch key).items.Perm c.items := by
    unfold LruCache.touch
    simpa using List.filter_append_perm (fun i : κ × ν => decide (i.1 = key)) c.items
  exact (hperm.map Prod.fst).nodup_iff.mpr h

theorem Keyed.set (h : c.Keyed) (key : κ) (value : ν) : (c.set key value).Keyed := by
  have hkeys : (c.set key value).items.map Prod.fst = c.items.map Prod.fst := by
    unfold LruCache.set
    rw [List.map_map]
    refine List.map_congr_left fun i _ => ?_
    by_cases hi : i.1 = key <;> simp [hi]
  unfold Keyed
  rwa [hkeys]

end Lookups

end LruCache

end ZaggCore.Util
