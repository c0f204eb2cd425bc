import ZaggCore.Foundations.Odometer
import ZaggCore.Util.SubsetEnumeration

/-! # What the enumerators give

A product goes through its enumerators as the odometer goes through its wheels, and a selection lets the
product run for each mask of its index. With that every enumerator has a list that it gives. -/

namespace ZaggCore.Util
open Foundations
set_option autoImplicit false
set_option maxHeartbeats 250000

def enumerators : Machine BitsetEnumerator Bitset where
  alive := BitsetEnumerator.alive
  deref := BitsetEnumerator.deref
  next := BitsetEnumerator.next
  reset := BitsetEnumerator.reset

/-- All the bits of some bitsets. -/
def union (l : List Bitset) : Bitset := l.foldr (· ||| ·) 0

/-- The elements whose numbers, from `i` on, are in the mask. -/
def chosen {α : Type} (bits : Bitset) : ℕ → List α → List α
  | _, [] => []
  | i, a :: l => if bits.getLsbD i then a :: chosen bits (i + 1) l else chosen bits (i + 1) l

/-! ## Choices -/

section Choices

variable {α β : Type} (bits : Bitset) (i : ℕ) (l : List α)

theorem chosen_map (f : α → β) : chosen bits i (l.map f) = (chosen bits i l).map f := by
  induction l generalizing i with
  | nil => rfl
  | cons a l ih =>
    rw [List.map_cons, chosen, chosen, ih]
    split_ifs
    · rfl
    · rfl

theorem chosen_sublist : (chosen bits i l).Sublist l := by
  induction l generalizing i with
  | nil => exact .slnil
  | cons a l ih =>
    unfold chosen
    split_ifs
    · exact (ih (i + 1)).cons_cons a
    · exact (ih (i + 1)).cons a

theorem length_chosen_from :
    (chosen bits i l).length = ((Finset.range l.length).filter fun k => bits.getLsbD (i + k)).card := by
  simp only [Finset.card_filter]
  induction l generalizing i with
  | nil => rfl
  | cons a l ih =>
    have hrest : (chosen bits (i + 1) l).length =
        ∑ k ∈ Finset.range l.length, if bits.getLsbD (i + (k + 1)) = true then 1 else 0 := by
      rw [ih]
      exact Finset.sum_congr rfl fun k _ => by rw [show i + 1 + k = i + (k + 1) by omega]
    rw [List.length_cons, Finset.sum_range_succ', ← hrest, chosen, add_zero]
    split_ifs
    · rw [List.length_cons]
    · rfl

variable {bits l}

/-- A mask chooses as many elements as it has ones. -/
theorem length_chosen (h : bits.toNat < 2 ^ l.length) : (chosen bits 0 l).length = ones bits.toNat := by
  have hmembers : ((Finset.range l.length).filter fun k => bits.getLsbD (0 + k)) = members bits := by
    ext k
    rw [Finset.mem_filter, zero_add, ← mem_members]
    exact ⟨fun hk => hk.2, fun hk => ⟨members_subset_range.mpr h hk, hk⟩⟩
  rw [length_chosen_from, hmembers, ← count_eq_ones]
  rfl

/-- Every part of a list is chosen by a mask. -/
theorem exists_chosen {part : List α} (h : part.Sublist l) (hl : l.length ≤ 64) :
    ∃ bits : Bitset, bits.toNat < 2 ^ l.length ∧ chosen bits 0 l = part := by
  have hpattern : ∀ i, ∃ p : ℕ → Bool, ∀ bits : Bitset, (∀ k < l.length, bits.getLsbD (i + k) = p k) →
      chosen bits i l = part := by
    clear hl
    induction h with
    | slnil => exact fun i => ⟨fun _ => false, fun _ _ => rfl⟩
    | @cons part l a h ih =>
      intro i
      obtain ⟨p, hp⟩ := ih (i + 1)
      refine ⟨fun k => if k = 0 then false else p (k - 1), fun bits hbits => ?_⟩
      have hhead : bits.getLsbD i = false := hbits 0 (Nat.succ_pos _)
      rw [chosen, hhead, if_neg Bool.false_ne_true]
      refine hp bits fun k hk => ?_
      rw [show i + 1 + k = i + (k + 1) by omega, hbits (k + 1) (Nat.succ_lt_succ hk)]
      rfl
    | @cons_cons part l a h ih =>
      intro i
      obtain ⟨p, hp⟩ := ih (i + 1)
      refine ⟨fun k => if k = 0 then true else p (k - 1), fun bits hbits => ?_⟩
      have hhead : bits.getLsbD i = true := hbits 0 (Nat.succ_pos _)
      rw [chosen, hhead, if_pos rfl, hp bits fun k hk => ?_]
      rw [show i + 1 + k = i + (k + 1) by omega, hbits (k + 1) (Nat.succ_lt_succ hk)]
      rfl
  obtain ⟨p, hp⟩ := hpattern 0
  have hsub : (Finset.range l.length).filter (fun k => p k) ⊆ Finset.range l.length :=
    Finset.filter_subset _ _
  obtain ⟨bits, hbits⟩ := exists_members (hsub.trans (Finset.range_subset_range.mpr hl))
  refine ⟨bits, members_subset_range.mp (hbits ▸ hsub), hp bits fun k hk => ?_⟩
  rw [zero_add, Bool.eq_iff_iff, ← mem_members, hbits, Finset.mem_filter, Finset.mem_range]
  exact and_iff_right hk

end Choices

/-! ## Enumerators and cursors -/

/-- Each enumerator gives the list of its cursor; the flag says whether the product has it. -/
inductive Matches : InnerEnums → List (Bool × Cursor Bitset) → Prop where
  | nil : Matches .nil []
  | cons {inProduct : Bool} {e : BitsetEnumerator} {rest : InnerEnums} {c : Cursor Bitset}
      {cs : List (Bool × Cursor Bitset)} (head : enumerators.Tracks c.full c.rem e)
      (tail : Matches rest cs) : Matches (.cons inProduct e rest) ((inProduct, c) :: cs)

/-- The cursors of the product. -/
def picked (cs : List (Bool × Cursor Bitset)) : List (Cursor Bitset) := (cs.filter Prod.fst).map Prod.snd

/-- The lists of all the cursors. -/
def fulls (cs : List (Bool × Cursor Bitset)) : List (List Bitset) := cs.map fun p => p.2.full

variable {enums : InnerEnums} {cs : List (Bool × Cursor Bitset)} {c : Cursor Bitset}

theorem picked_in : picked ((true, c) :: cs) = c :: picked cs := rfl

theorem Matches.alive (h : Matches enums cs) : enums.alive = (picked cs).any Cursor.alive := by
  induction h with
  | nil => rfl
  | @cons inProduct e rest c cs head tail ih =>
    have halive : e.alive = c.alive := head.alive
    rw [InnerEnums.alive, ih, halive]
    cases inProduct with
    | false => rfl
    | true => rw [picked_in, List.any_cons, Bool.true_and]

theorem Matches.deref (h : Matches enums cs) : enums.deref = union ((picked cs).map Cursor.shown) := by
  induction h with
  | nil => rfl
  | @cons inProduct e rest c cs head tail ih =>
    have hderef : e.deref = c.shown := head.deref
    rw [InnerEnums.deref, ih, hderef]
    cases inProduct with
    | false => exact BitVec.zero_or
    | true => rfl

theorem Matches.carry (h : Matches enums cs) : ∃ cs', Matches enums.carry.1 cs' ∧
    (picked cs', enums.carry.2) = Foundations.carry (picked cs) ∧ fulls cs' = fulls cs := by
  induction h with
  | nil => exact ⟨[], .nil, rfl, rfl⟩
  | @cons inProduct e rest c cs head tail ih =>
    obtain ⟨cs', hmatches, hcarry, hfulls⟩ := ih
    have hfulls' : ∀ c' : Cursor Bitset, c'.full = c.full →
        fulls ((inProduct, c') :: cs') = fulls ((inProduct, c) :: cs) := by
      intro c' hc'
      unfold fulls at hfulls ⊢
      rw [List.map_cons, List.map_cons, hfulls, hc']
    rw [InnerEnums.carry]
    cases inProduct with
    | false => exact ⟨(false, c) :: cs', .cons head hmatches, hcarry, hfulls' c rfl⟩
    | true =>
      have hnext : enumerators.Tracks c.next.full c.next.rem e.next := head.next
      have halive : e.next.alive = c.next.alive := hnext.alive
      rw [picked_in, Foundations.carry, ← hcarry, halive]
      cases hc : c.next.alive with
      | true => exact ⟨(true, c.next) :: cs, .cons hnext tail, rfl, rfl⟩
      | false => exact ⟨(true, c.next) :: cs', .cons hnext hmatches, rfl, hfulls' c.next rfl⟩

theorem Matches.next (h : Matches enums cs) : ∃ cs', Matches enums.next cs' ∧
    picked cs' = advance (picked cs) ∧ fulls cs' = fulls cs := by
  induction h with
  | nil => exact ⟨[], .nil, rfl, rfl⟩
  | @cons inProduct e rest c cs head tail ih =>
    obtain ⟨cs', hmatches, hadvance, hfulls⟩ := ih
    have hfulls' : ∀ cs'' : List (Bool × Cursor Bitset), fulls cs'' = fulls cs → ∀ c' : Cursor Bitset,
        c'.full = c.full → fulls ((inProduct, c') :: cs'') = fulls ((inProduct, c) :: cs) := by
      intro cs'' hcs'' c' hc'
      unfold fulls at hcs'' ⊢
      rw [List.map_cons, List.map_cons, hcs'', hc']
    have halive : e.alive = c.alive := head.alive
    rw [InnerEnums.next, halive]
    cases inProduct with
    | false => exact ⟨(false, c) :: cs', .cons head hmatches, hadvance, hfulls' cs' hfulls c rfl⟩
    | true =>
      rw [picked_in, advance, Bool.true_and]
      cases hc : c.alive with
      | false =>
        exact ⟨(true, c) :: cs', .cons head hmatches, congrArg (c :: ·) hadvance, hfulls' cs' hfulls c rfl⟩
      | true =>
        have hnext : enumerators.Tracks c.next.full c.next.rem e.next := head.next
        have hnalive : e.next.alive = c.next.alive := hnext.alive
        rw [hnalive]
        cases hn : c.next.alive with
        | true => exact ⟨(true, c.next) :: cs, .cons hnext tail, rfl, rfl⟩
        | false =>
          obtain ⟨cs'', hmatches', hcarry, hfulls''⟩ := tail.carry
          generalize rest.carry = r at hmatches' hcarry ⊢
          rw [← hcarry]
          obtain ⟨rest', carried⟩ := r
          cases carried with
          | true =>
            have hreset : enumerators.Tracks c.next.reset.full c.next.reset.rem e.next.reset := hnext.reset
            exact ⟨(true, c.next.reset) :: cs'', .cons hreset hmatches', rfl, hfulls' cs'' hfulls'' _ rfl⟩
          | false => exact ⟨(true, c.next) :: cs'', .cons hnext hmatches', rfl, hfulls' cs'' hfulls'' _ rfl⟩

/-- A new product has the enumerators that the mask chooses, at their starts. -/
theorem Matches.select (h : Matches enums cs) (bits : Bitset) (i : ℕ) : ∃ cs', Matches (enums.select bits i) cs' ∧
    picked cs' = (chosen bits i (fulls cs)).map Cursor.fresh ∧ fulls cs' = fulls cs := by
  induction h generalizing i with
  | nil => exact ⟨[], .nil, rfl, rfl⟩
  | @cons inProduct e rest c cs head tail ih =>
    obtain ⟨cs', hmatches, hpicked, hfulls⟩ := ih (i + 1)
    have hfulls' : fulls ((inProduct, c) :: cs) = c.full :: fulls cs := rfl
    rw [InnerEnums.select, hfulls', chosen]
    cases hbit : bits.getLsbD i with
    | true =>
      exact ⟨(true, c.reset) :: cs', .cons head.reset hmatches, congrArg (c.reset :: ·) hpicked,
        congrArg (c.full :: ·) hfulls⟩
    | false => exact ⟨(false, c) :: cs', .cons head hmatches, hpicked, congrArg (c.full :: ·) hfulls⟩

/-- The reset of a new selection goes over all enumerators. -/
theorem Matches.resetAll (h : Matches enums cs) (hfresh : ∀ c ∈ picked cs, c.rem = c.full) : ∃ cs',
    Matches enums.resetAll cs' ∧ picked cs' = picked cs ∧ fulls cs' = fulls cs := by
  induction h with
  | nil => exact ⟨[], .nil, rfl, rfl⟩
  | @cons inProduct e rest c cs head tail ih =>
    cases inProduct with
    | false =>
      obtain ⟨cs', hmatches, hpicked, hfulls⟩ := ih hfresh
      exact ⟨(false, c.reset) :: cs', .cons head.reset hmatches, hpicked, congrArg (c.full :: ·) hfulls⟩
    | true =>
      obtain ⟨hc, hcs⟩ := List.forall_mem_cons.mp hfresh
      obtain ⟨cs', hmatches, hpicked, hfulls⟩ := ih hcs
      have hsame : c.reset = c := by
        obtain ⟨full, rem⟩ := c
        exact congrArg (Cursor.mk full) hc.symm
      refine ⟨(true, c.reset) :: cs', .cons head.reset hmatches, ?_, congrArg (c.full :: ·) hfulls⟩
      rw [picked_in, picked_in, hpicked, hsame]

/-! ## Selections -/

/-- What a selection gives: for each mask, the tuples of the chosen lists that the odometer visits. -/
def selections (ls : List (List Bitset)) (masks : List Bitset) : List Bitset :=
  masks.flatMap fun m => (visited (chosen m 0 ls)).map union

/-- A selection from the lists `ls`, with what it has still to give. -/
inductive Selecting (after : Prop) (ls : List (List Bitset)) (masks : List Bitset) :
    List Bitset → BitsetEnumerator → Prop where
  | running {m : Bitset} {before ms : List Bitset} {index : BitsetEnumerator} {enums : InnerEnums}
      {cs : List (Bool × Cursor Bitset)} (index_lists : enumerators.Lists after masks (m :: ms) index)
      (masks_eq : masks = before ++ m :: ms) (enums_match : Matches enums cs) (fulls_eq : fulls cs = ls)
      (picked_eq : (picked cs).map Cursor.full = chosen m 0 ls) (runs : Running (picked cs))
      (more : visitedRem (picked cs) ≠ []) :
      Selecting after ls masks ((visitedRem (picked cs)).map union ++ selections ls ms)
        (.selection enums index)
  | done {index : BitsetEnumerator} {enums : InnerEnums} {cs : List (Bool × Cursor Bitset)}
      (index_lists : enumerators.Lists after masks [] index) (enums_match : Matches enums cs)
      (fulls_eq : fulls cs = ls) (picked_eq : (picked cs).map Cursor.full = chosen (masks.getLastD default) 0 ls)
      (runs : Running (picked cs)) (no_more : visitedRem (picked cs) = []) :
      Selecting after ls masks [] (.selection enums index)

section Selecting

variable {after : Prop} {ls : List (List Bitset)} {masks rem : List Bitset} {s : BitsetEnumerator}

section Step

variable (hls : ∀ l ∈ ls, l ≠ []) (hchosen : ∀ m ∈ masks, chosen m 0 ls ≠ [])

include hls hchosen

/-- With the product for the next mask the selection runs. -/
theorem selecting_picked {m : Bitset} {before ms : List Bitset} {index : BitsetEnumerator}
    (hindex : enumerators.Lists after masks (m :: ms) index) (hmasks : masks = before ++ m :: ms)
    (henums : Matches enums cs) (hfulls : fulls cs = ls)
    (hpicked : picked cs = (chosen m 0 ls).map Cursor.fresh) :
    Selecting after ls masks (selections ls (m :: ms)) (.selection enums index) := by
  have hne : ∀ l ∈ chosen m 0 ls, l ≠ [] := fun l hl => hls l ((chosen_sublist m 0 ls).subset hl)
  have hm : m ∈ masks := by
    rw [hmasks]
    exact List.mem_append_right _ List.mem_cons_self
  obtain ⟨hvisited, hrun⟩ := visitedRem_fresh hne
  rw [← hpicked] at hvisited hrun
  have hfull : (picked cs).map Cursor.full = chosen m 0 ls := by
    rw [hpicked, List.map_map]
    exact List.map_id _
  have hmore : visitedRem (picked cs) ≠ [] := by
    rw [hvisited]
    exact visited_ne_nil (hchosen m hm) hne
  have hgives : selections ls (m :: ms) = (visitedRem (picked cs)).map union ++ selections ls ms := by
    rw [hvisited]
    exact List.flatMap_cons
  rw [hgives]
  exact .running hindex hmasks henums hfulls hfull hrun hmore

theorem selecting_select {m : Bitset} {before ms : List Bitset} {index : BitsetEnumerator}
    (hindex : enumerators.Lists after masks (m :: ms) index) (hmasks : masks = before ++ m :: ms)
    (henums : Matches enums cs) (hfulls : fulls cs = ls) :
    Selecting after ls masks (selections ls (m :: ms)) (.selection (enums.select index.deref 0) index) := by
  have hderef : index.deref = m := hindex.deref
  obtain ⟨cs', hmatches, hpicked, hfulls'⟩ := henums.select m 0
  rw [hfulls] at hpicked hfulls'
  rw [hderef]
  exact selecting_picked hls hchosen hindex hmasks hmatches hfulls' hpicked

theorem Selecting.next (h : Selecting after ls masks rem s) (hrem : after ∨ rem ≠ []) :
    Selecting after ls masks rem.tail s.next := by
  cases h with
  | @running m before ms index enums cs index_lists masks_eq enums_match fulls_eq picked_eq runs more =>
    have halive : enums.alive = true := by
      rw [enums_match.alive, any_alive runs]
      simpa using more
    obtain ⟨cs', hmatches, hadvance, hfulls⟩ := enums_match.next
    obtain ⟨htail, hruns⟩ := advance_spec runs
    rw [← hadvance] at htail hruns
    have hfull : (picked cs').map Cursor.full = chosen m 0 ls := by
      rw [hadvance, advance_full, picked_eq]
    have hstep : ((visitedRem (picked cs)).map union ++ selections ls ms).tail =
        (visitedRem (picked cs')).map union ++ selections ls ms := by
      obtain ⟨t, rest, ht⟩ := List.exists_cons_of_ne_nil more
      rw [htail, ht]
      rfl
    have hnalive : enums.next.alive = !(visitedRem (picked cs')).isEmpty := by
      rw [hmatches.alive, any_alive hruns]
    rw [hstep, BitsetEnumerator.next, if_pos halive, hnalive]
    by_cases hmore : visitedRem (picked cs') = []
    · -- the product is exhausted
      rw [hmore]
      have hindex : enumerators.Lists after masks ms index.next :=
        index_lists.next (.inr (List.cons_ne_nil m ms))
      have hialive : index.next.alive = !ms.isEmpty := hindex.alive
      rw [hialive]
      cases ms with
      | nil =>
        have hlast : masks.getLastD default = m := by
          rw [masks_eq, List.getLastD_eq_getLast?, List.getLast?_append]
          rfl
        exact .done hindex hmatches (hfulls.trans fulls_eq) (hlast ▸ hfull) hruns hmore
      | cons m' ms =>
        have hmasks : masks = (before ++ [m]) ++ m' :: ms := by
          rw [masks_eq, List.append_assoc]
          rfl
        exact selecting_select hls hchosen hindex hmasks hmatches (hfulls.trans fulls_eq)
    · have hsome : (!(visitedRem (picked cs')).isEmpty) = true := by simpa using hmore
      rw [if_pos hsome]
      exact .running index_lists masks_eq hmatches (hfulls.trans fulls_eq) hfull hruns hmore
  | @done index enums cs index_lists enums_match fulls_eq picked_eq runs no_more =>
    have hafter : after := hrem.resolve_right fun h => h rfl
    have hdead : enums.alive = false := by
      rw [enums_match.alive, any_alive runs, no_more]
      rfl
    have hindex : enumerators.Lists after masks [] index.next := index_lists.next (.inl hafter)
    have hidead : index.next.alive = false := hindex.alive
    rw [BitsetEnumerator.next, hdead, if_neg Bool.false_ne_true, hdead, if_neg Bool.false_ne_true, hidead,
      if_neg Bool.false_ne_true]
    exact .done hindex enums_match fulls_eq picked_eq runs no_more

theorem Selecting.reset (h : Selecting after ls masks rem s) (hmasks : masks ≠ []) :
    Selecting after ls masks (selections ls masks) s.reset := by
  obtain ⟨m, ms, rfl⟩ := List.exists_cons_of_ne_nil hmasks
  cases h with
  | running index_lists masks_eq enums_match fulls_eq picked_eq runs more =>
    exact selecting_select hls hchosen index_lists.reset (List.nil_append _).symm enums_match fulls_eq
  | done index_lists enums_match fulls_eq picked_eq runs no_more =>
    exact selecting_select hls hchosen index_lists.reset (List.nil_append _).symm enums_match fulls_eq

theorem Selecting.deref (h : Selecting after ls masks rem s) (hmasks : masks ≠ []) :
    s.deref = current (selections ls masks) rem := by
  cases h with
  | @running m before ms index enums cs index_lists masks_eq enums_match fulls_eq picked_eq runs more =>
    obtain ⟨t, rest, ht⟩ := List.exists_cons_of_ne_nil more
    rw [BitsetEnumerator.deref, enums_match.deref, shown_spec runs, ht]
    rfl
  | @done index enums cs index_lists enums_match fulls_eq picked_eq runs no_more =>
    have hlast : masks.getLastD default ∈ masks := by
      rw [List.getLastD_eq_getLast?, List.getLast?_eq_some_getLast hmasks]
      exact List.getLast_mem hmasks
    have hne : ∀ l ∈ chosen (masks.getLastD default) 0 ls, l ≠ [] := fun l hl =>
      hls l ((chosen_sublist _ 0 ls).subset hl)
    have hvisited := visited_ne_nil (hchosen _ hlast) hne
    have hgives : (selections ls masks).getLastD default =
        ((visited (chosen (masks.getLastD default) 0 ls)).map union).getLastD default :=
      getLastD_flatMap hmasks (fun h => hvisited (List.map_eq_nil_iff.mp h)) default
    rw [BitsetEnumerator.deref, enums_match.deref, shown_spec runs, no_more, picked_eq, current, current,
      List.headD_nil, List.headD_nil, hgives, getLastD_map hvisited]

end Step

theorem Selecting.alive (h : Selecting after ls masks rem s) : s.alive = !rem.isEmpty := by
  cases h with
  | @running m before ms index enums cs index_lists masks_eq enums_match fulls_eq picked_eq runs more =>
    obtain ⟨t, rest, ht⟩ := List.exists_cons_of_ne_nil more
    rw [BitsetEnumerator.alive, enums_match.alive, any_alive runs, ht]
    rfl
  | @done index enums cs index_lists enums_match fulls_eq picked_eq runs no_more =>
    have hidead : index.alive = false := index_lists.alive
    rw [BitsetEnumerator.alive, enums_match.alive, any_alive runs, no_more, hidead]
    rfl

end Selecting

/-! ## The enumerators of the source -/

/-- Each enumerator gives its list, from the start. -/
def Gives (es : List BitsetEnumerator) (ls : List (List Bitset)) : Prop :=
  List.Forall₂ (fun e l => enumerators.Tracks l l e) es ls

theorem Gives.matches {es : List BitsetEnumerator} {ls : List (List Bitset)} (h : Gives es ls) :
    ∃ cs, Matches (.ofList es) cs ∧ picked cs = ls.map Cursor.fresh ∧ fulls cs = ls := by
  induction h with
  | nil => exact ⟨[], .nil, rfl, rfl⟩
  | @cons e l es ls head tail ih =>
    obtain ⟨cs, hmatches, hpicked, hfulls⟩ := ih
    exact ⟨(true, Cursor.fresh l) :: cs, .cons head hmatches, congrArg (Cursor.fresh l :: ·) hpicked,
      congrArg (l :: ·) hfulls⟩

theorem tracks_constant (bits : Bitset) : enumerators.Tracks [bits] [bits] (.constant bits false) := by
  refine ⟨fun rem s => (rem = [bits] ∧ s = .constant bits false) ∨ (rem = [] ∧ s = .constant bits true),
    .inl ⟨rfl, rfl⟩, fun rem s hs => ?_⟩
  obtain ⟨rfl, rfl⟩ | ⟨rfl, rfl⟩ := hs
  · exact ⟨rfl, rfl, .inr ⟨rfl, rfl⟩, .inl ⟨rfl, rfl⟩⟩
  · exact ⟨rfl, rfl, .inr ⟨rfl, rfl⟩, .inl ⟨rfl, rfl⟩⟩

section New

variable {after : Prop} {ls : List (List Bitset)} {masks : List Bitset} {index : BitsetEnumerator}
  {es : List BitsetEnumerator}

theorem selecting_new (hls : ∀ l ∈ ls, l ≠ []) (hchosen : ∀ m ∈ masks, chosen m 0 ls ≠ [])
    (hmasks : masks ≠ []) (hindex : enumerators.Lists after masks masks index) (hes : Gives es ls) :
    Selecting after ls masks (selections ls masks) (newSelection index es) := by
  obtain ⟨m, ms, rfl⟩ := List.exists_cons_of_ne_nil hmasks
  have hderef : index.deref = m := hindex.deref
  obtain ⟨cs, hmatches, -, hfulls⟩ := hes.matches
  obtain ⟨cs', hmatches', hpicked', hfulls'⟩ := hmatches.select m 0
  rw [hfulls] at hpicked' hfulls'
  have hfresh : ∀ c ∈ picked cs', c.rem = c.full := by
    intro c hc
    rw [hpicked'] at hc
    obtain ⟨l, -, rfl⟩ := List.mem_map.mp hc
    rfl
  obtain ⟨cs'', hmatches'', hpicked'', hfulls''⟩ := hmatches'.resetAll hfresh
  rw [newSelection, hderef]
  exact selecting_picked hls hchosen hindex (List.nil_append _).symm hmatches'' (hfulls''.trans hfulls')
    (hpicked''.trans hpicked')

/-- An index that stays at its end makes a selection that does. -/
theorem tracks_newSelection (hls : ∀ l ∈ ls, l ≠ []) (hchosen : ∀ m ∈ masks, chosen m 0 ls ≠ [])
    (hmasks : masks ≠ []) (hindex : enumerators.Lists True masks masks index) (hes : Gives es ls) :
    enumerators.Tracks (selections ls masks) (selections ls masks) (newSelection index es) :=
  ⟨Selecting True ls masks, selecting_new hls hchosen hmasks hindex hes, fun _ _ h =>
    ⟨h.alive, h.deref hls hchosen hmasks, h.next hls hchosen (.inl trivial), h.reset hls hchosen hmasks⟩⟩

theorem lists_newSelection (hls : ∀ l ∈ ls, l ≠ []) (hchosen : ∀ m ∈ masks, chosen m 0 ls ≠ [])
    (hmasks : masks ≠ []) (hindex : enumerators.Lists after masks masks index) (hes : Gives es ls) :
    enumerators.Lists after (selections ls masks) (selections ls masks) (newSelection index es) := by
  refine ⟨Selecting after ls masks, selecting_new hls hchosen hmasks hindex hes, fun rem s h =>
    ⟨h.alive, fun x rest hrem => ?_, h.next hls hchosen, h.reset hls hchosen hmasks⟩⟩
  have hderef : s.deref = current (selections ls masks) rem := h.deref hls hchosen hmasks
  rw [hrem] at hderef
  exact hderef

/-- A product gives the tuples that the odometer visits. -/
theorem lists_newCartesianProduct (hls : ∀ l ∈ ls, l ≠ []) (hes : Gives es ls) :
    enumerators.Lists True ((visited ls).map union) ((visited ls).map union) (newCartesianProduct es) := by
  have hreset : ∀ {enums cs}, Matches enums cs → ∃ cs', Matches enums.reset cs' ∧
      picked cs' = (picked cs).map Cursor.reset := by
    intro enums cs h
    induction h with
    | nil => exact ⟨[], .nil, rfl⟩
    | @cons inProduct e rest c cs head tail ih =>
      obtain ⟨cs', hmatches, hpicked⟩ := ih
      cases inProduct with
      | false => exact ⟨(false, c) :: cs', .cons head hmatches, hpicked⟩
      | true => exact ⟨(true, c.reset) :: cs', .cons head.reset hmatches, congrArg (c.reset :: ·) hpicked⟩
  obtain ⟨hvisited, hrun⟩ := visitedRem_fresh hls
  have hfresh : ∀ cs : List (Cursor Bitset), cs.map Cursor.full = ls →
      cs.map Cursor.reset = ls.map Cursor.fresh := by
    intro cs hcs
    rw [← hcs, List.map_map]
    rfl
  refine ⟨fun rem s => ∃ enums cs, s = .cartesianProduct enums ∧ Matches enums cs ∧
    (picked cs).map Cursor.full = ls ∧ Running (picked cs) ∧ rem = (visitedRem (picked cs)).map union, ?_, ?_⟩
  · obtain ⟨cs, hmatches, hpicked, -⟩ := hes.matches
    obtain ⟨cs', hmatches', hpicked'⟩ := hreset hmatches
    have hfull : (picked cs).map Cursor.full = ls := by
      rw [hpicked, List.map_map]
      exact List.map_id _
    rw [hfresh _ hfull] at hpicked'
    refine ⟨_, cs', rfl, hmatches', ?_, hpicked' ▸ hrun, ?_⟩
    · rw [hpicked', List.map_map]
      exact List.map_id _
    · rw [hpicked', hvisited]
  · rintro rem s ⟨enums, cs, rfl, hmatches, hfull, hruns, rfl⟩
    refine ⟨?_, fun x rest hrem => ?_, fun _ => ?_, ?_⟩
    · show enums.alive = _
      rw [hmatches.alive, any_alive hruns, List.isEmpty_map]
    · show enums.deref = x
      rw [hmatches.deref, shown_spec hruns]
      obtain ⟨t, ts, ht, rfl, -⟩ := List.map_eq_cons_iff.mp hrem
      rw [ht]
      rfl
    · obtain ⟨cs', hmatches', hadvance, -⟩ := hmatches.next
      obtain ⟨htail, hruns'⟩ := advance_spec hruns
      rw [← hadvance] at htail hruns'
      refine ⟨enums.next, cs', rfl, hmatches', ?_, hruns', ?_⟩
      · rw [hadvance, advance_full, hfull]
      · rw [htail, List.map_tail]
    · obtain ⟨cs', hmatches', hpicked'⟩ := hreset hmatches
      rw [hfresh _ hfull] at hpicked'
      refine ⟨enums.reset, cs', rfl, hmatches', ?_, hpicked' ▸ hrun, ?_⟩
      · rw [hpicked', List.map_map]
        exact List.map_id _
      · rw [hpicked', hvisited]

end New

/-! ## Indices -/

/-- An exhausted permutation stays exhausted. -/
theorem le_nextPermutation {n : ℕ} (hn : n < 64) {x : BitVec 64} (h : 2 ^ n ≤ x.toNat) :
    2 ^ n ≤ (nextPermutation x).toNat := by
  have hor : x.toNat ≤ (x ||| (x - 1)).toNat := by
    rw [BitVec.toNat_or]
    exact Nat.left_le_or
  have hone : (1 : BitVec 64).toNat = 1 := rfl
  by_cases hover : (x ||| (x - 1)).toNat + 1 < 2 ^ 64
  · have ht : ((x ||| (x - 1)) + 1).toNat = (x ||| (x - 1)).toNat + 1 := by
      rw [BitVec.toNat_add, hone, Nat.mod_eq_of_lt hover]
    have hle : ((x ||| (x - 1)) + 1).toNat ≤ (nextPermutation x).toNat := by
      unfold nextPermutation
      rw [BitVec.toNat_or]
      exact Nat.left_le_or
    omega
  · -- the addition overflows, and all the bits are set
    have ht : (x ||| (x - 1)) + 1 = 0 := by
      apply BitVec.eq_of_toNat_eq
      have hlt := (x ||| (x - 1)).isLt
      rw [BitVec.toNat_add, hone, show (x ||| (x - 1)).toNat + 1 = 2 ^ 64 by omega]
      rfl
    have hall : nextPermutation x = BitVec.allOnes 64 := by
      unfold nextPermutation
      rw [ht]
      have hzero : ((0 : BitVec 64) &&& uneg 0) / (x &&& uneg x) = 0 := by
        rw [show ((0 : BitVec 64) &&& uneg 0) = 0 from rfl]
        exact BitVec.zero_udiv
      show (0 : BitVec 64) ||| ((((0 : BitVec 64) &&& uneg 0) / (x &&& uneg x)) >>> 1 - 1) = _
      rw [hzero]
      rfl
    have hpow : 2 ^ n ≤ 2 ^ 63 := Nat.pow_le_pow_right (by decide) (by omega)
    rw [hall, BitVec.toNat_allOnes]
    omega

/-- The masks as words. -/
def words (l : List ℕ) : List Bitset := l.map (BitVec.ofNat 64)

theorem lists_newPermutation {nSet nTotal : ℕ} (hset : 0 < nSet) (hle : nSet ≤ nTotal) (htot : nTotal < 64) :
    enumerators.Lists True (words (masks nTotal nSet)) (words (masks nTotal nSet))
      (newPermutation nSet nTotal) := by
  have hlow : (lowBits nSet).toNat = 2 ^ nSet - 1 := toNat_lowBits (by omega)
  have hones : ones (lowBits nSet).toNat = nSet := by rw [hlow, ones_two_pow_sub_one]
  have hmasks : masksFrom nTotal nSet (lowBits nSet).toNat = masks nTotal nSet := by rw [hlow, ← masks_eq]
  refine ⟨fun rem s => ∃ x, s = .permutation x nSet nTotal ∧
    (x.toNat < 2 ^ nTotal → ones x.toNat = nSet) ∧ rem = words (masksFrom nTotal nSet x.toNat),
    ⟨_, rfl, fun _ => hones, by rw [hmasks]⟩, ?_⟩
  rintro rem s ⟨x, rfl, hx, rfl⟩
  refine ⟨?_, fun b rest hrem => ?_, fun _ => ?_, ⟨_, rfl, fun _ => hones, by rw [hmasks]⟩⟩
  · show PermutationEnumerator.alive ⟨x, nSet, nTotal⟩ = _
    by_cases hlt : x.toNat < 2 ^ nTotal
    · rw [(alive_iff htot).mpr hlt, (nextPermutation_spec hset htot (hx hlt) hlt).2.2]
      rfl
    · rw [Bool.eq_false_iff.mpr fun h => hlt ((alive_iff htot).mp h), masksFrom_of_le (not_lt.mp hlt)]
      rfl
  · have hlt : x.toNat < 2 ^ nTotal := by
      by_contra hge
      rw [masksFrom_of_le (not_lt.mp hge)] at hrem
      cases hrem
    rw [(nextPermutation_spec hset htot (hx hlt) hlt).2.2] at hrem
    have hhead := (List.cons.inj hrem).1
    rw [BitVec.ofNat_toNat, BitVec.setWidth_eq] at hhead
    exact hhead
  · refine ⟨nextPermutation x, rfl, fun hlt' => ?_, ?_⟩
    · by_cases hlt : x.toNat < 2 ^ nTotal
      · exact (nextPermutation_spec hset htot (hx hlt) hlt).1
      · exact absurd hlt' (not_lt.mpr (le_nextPermutation htot (not_lt.mp hlt)))
    · by_cases hlt : x.toNat < 2 ^ nTotal
      · rw [(nextPermutation_spec hset htot (hx hlt) hlt).2.2]
        rfl
      · rw [masksFrom_of_le (not_lt.mp hlt), masksFrom_of_le (le_nextPermutation htot (not_lt.mp hlt))]
        rfl

theorem lists_newPowerset {nBits : ℕ} (hbits : nBits < 64) :
    enumerators.Lists False (words (List.range' 1 (2 ^ nBits - 1))) (words (List.range' 1 (2 ^ nBits - 1)))
      (newPowerset nBits) := by
  have hpow : 2 ^ nBits ≤ 2 ^ 63 := Nat.pow_le_pow_right (by decide) (by omega)
  have hlim : (1#64 <<< nBits).toNat = 2 ^ nBits := by
    rw [BitVec.toNat_shiftLeft, Nat.shiftLeft_eq]
    show 1 * 2 ^ nBits % 2 ^ 64 = _
    rw [one_mul, Nat.mod_eq_of_lt (by omega)]
  refine ⟨fun rem s => ∃ x : BitVec 64, s = .powerset x (1#64 <<< nBits) ∧
    rem = words (List.range' x.toNat (2 ^ nBits - x.toNat)), ⟨1, rfl, rfl⟩, ?_⟩
  have hcons : ∀ x : BitVec 64, x.toNat < 2 ^ nBits → List.range' x.toNat (2 ^ nBits - x.toNat) =
      x.toNat :: List.range' (x + 1).toNat (2 ^ nBits - (x + 1).toNat) := by
    intro x hlt
    have hnext : (x + 1).toNat = x.toNat + 1 := by
      rw [BitVec.toNat_add]
      show (x.toNat + 1) % 2 ^ 64 = _
      rw [Nat.mod_eq_of_lt (by omega)]
    have hlen : 2 ^ nBits - x.toNat = (2 ^ nBits - (x.toNat + 1)) + 1 := by omega
    rw [hnext, hlen, List.range'_succ]
  have hnil : ∀ x : BitVec 64, ¬ x.toNat < 2 ^ nBits → List.range' x.toNat (2 ^ nBits - x.toNat) = [] := by
    intro x hge
    rw [Nat.sub_eq_zero_of_le (not_lt.mp hge)]
    rfl
  rintro rem s ⟨x, rfl, rfl⟩
  have hlt_iff : x < 1#64 <<< nBits ↔ x.toNat < 2 ^ nBits := by rw [BitVec.lt_def, hlim]
  refine ⟨?_, fun b rest hrem => ?_, fun hrem => ?_, ⟨1, rfl, rfl⟩⟩
  · show decide (x < 1#64 <<< nBits) = _
    by_cases hlt : x.toNat < 2 ^ nBits
    · rw [hcons x hlt, decide_eq_true (hlt_iff.mpr hlt)]
      rfl
    · rw [hnil x hlt, decide_eq_false fun h => hlt (hlt_iff.mp h)]
      rfl
  · by_cases hlt : x.toNat < 2 ^ nBits
    · rw [hcons x hlt] at hrem
      have hhead := (List.cons.inj hrem).1
      rw [BitVec.ofNat_toNat, BitVec.setWidth_eq] at hhead
      exact hhead
    · rw [hnil x hlt] at hrem
      cases hrem
  · have hmore : words (List.range' x.toNat (2 ^ nBits - x.toNat)) ≠ [] := hrem.resolve_left fun h => h
    by_cases hlt : x.toNat < 2 ^ nBits
    · refine ⟨x + 1, rfl, ?_⟩
      rw [hcons x hlt]
      rfl
    · rw [hnil x hlt] at hmore
      exact absurd rfl hmore

end ZaggCore.Util
