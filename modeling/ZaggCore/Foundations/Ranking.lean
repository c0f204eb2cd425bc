import Mathlib

/-! # Ranking by votes, and ranking again after the votes changed

Candidates rank by votes, ties by name, the greater one first. `top` is the first `M` candidates that
have at least `m` votes. The second half is about working `top` out after the votes changed, from an
old prefix that is longer by the number of candidates whose votes changed: this finds the new `top`
exactly if every candidate of it that rose from some votes was within the old prefix. -/

namespace ZaggCore.Foundations
set_option autoImplicit false
set_option maxHeartbeats 250000

open Finset

variable {α N : Type*} (name : α → N)

/-- What a candidate ranks by. -/
def standing (votes : α → ℤ) (a : α) : ℤ ×ₗ N := toLex (votes a, name a)

variable {name} in
theorem standing_congr {votes votes' : α → ℤ} {a : α} (h : votes a = votes' a) :
    standing name votes a = standing name votes' a :=
  congrArg (fun v => toLex (v, name a)) h

variable [LinearOrder N]

/-- The candidates that rank before `a`. -/
def ahead (D : Finset α) (votes : α → ℤ) (a : α) : Finset α :=
  {b ∈ D | standing name votes a < standing name votes b}

/-- The first `M` candidates with at least `m` votes. -/
def top (D : Finset α) (votes : α → ℤ) (M : ℕ) (m : ℤ) : Finset α :=
  {a ∈ D | m ≤ votes a ∧ #(ahead name D votes a) < M}

variable {name} {D : Finset α} {votes : α → ℤ} {M : ℕ} {m : ℤ} {a b : α}

theorem mem_ahead : b ∈ ahead name D votes a ↔ b ∈ D ∧ standing name votes a < standing name votes b :=
  mem_filter

theorem mem_top : a ∈ top name D votes M m ↔ a ∈ D ∧ m ≤ votes a ∧ #(ahead name D votes a) < M :=
  mem_filter

theorem votes_le_of_standing {votes' : α → ℤ} (h : standing name votes a < standing name votes' b) :
    votes a ≤ votes' b := by
  rcases Prod.Lex.toLex_lt_toLex.mp h with h | ⟨h, -⟩
  · exact h.le
  · exact h.le

theorem standing_mono {votes' : α → ℤ} (h : votes a ≤ votes' a) :
    standing name votes a ≤ standing name votes' a := by
  rcases h.lt_or_eq with h | h
  · exact (Prod.Lex.toLex_lt_toLex.mpr (.inl h)).le
  · exact (congrArg (fun v => toLex (v, name a)) h).le

/-- Of a finite set of candidates, at least `M` have fewer than `M` others before them, if there are
that many. -/
theorem card_first (S : Finset α) (hM : M ≤ #S) :
    M ≤ #{b ∈ S | #(ahead name S votes b) < M} := by
  classical
  induction S using Finset.induction_on_min_value (standing name votes) with
  | empty => simpa using hM
  | insert a S haS hmin ih =>
    -- the candidate taken away ranks last, so it stands before nobody
    have hlast : ∀ b ∈ S, ahead name (insert a S) votes b = ahead name S votes b := by
      intro b hb
      rw [ahead, filter_insert, if_neg (hmin b hb).not_gt, ahead]
    by_cases hS : M ≤ #S
    · refine (ih hS).trans (card_le_card fun b hb => ?_)
      obtain ⟨hbS, hb⟩ := mem_filter.mp hb
      exact mem_filter.mpr ⟨mem_insert_of_mem hbS, by rwa [hlast b hbS]⟩
    · -- there is room for everyone
      refine hM.trans (card_le_card fun b hb => mem_filter.mpr ⟨hb, ?_⟩)
      have hsub : ahead name (insert a S) votes b ⊆ S := by
        intro c hc
        obtain ⟨hc, hlt⟩ := mem_ahead.mp hc
        rcases mem_insert.mp hc with rfl | hc
        · rcases mem_insert.mp hb with rfl | hb
          · exact absurd hlt (lt_irrefl _)
          · exact absurd hlt (hmin b hb).not_gt
        · exact hc
      have := card_le_card hsub
      omega

/-- A candidate with `M` others before it has `M` of the top before it. -/
theorem card_top_ahead (hm : m ≤ votes a)
    (hM : M ≤ #(ahead name D votes a)) :
    M ≤ #{b ∈ top name D votes M m | standing name votes a < standing name votes b} := by
  have hfirst := @card_first α N name _ votes M (ahead name D votes a) hM
  refine hfirst.trans (card_le_card fun b hb => ?_)
  obtain ⟨hb, hcard⟩ := mem_filter.mp hb
  obtain ⟨hbD, hab⟩ := mem_ahead.mp hb
  have hsame : ahead name (ahead name D votes a) votes b = ahead name D votes b := by
    ext c
    rw [mem_ahead, mem_ahead, mem_ahead]
    constructor
    · rintro ⟨⟨hc, -⟩, hbc⟩
      exact ⟨hc, hbc⟩
    · rintro ⟨hc, hbc⟩
      exact ⟨⟨hc, hab.trans hbc⟩, hbc⟩
  rw [hsame] at hcard
  exact mem_filter.mpr ⟨mem_top.mpr ⟨hbD, hm.trans (votes_le_of_standing hab), hcard⟩, hab⟩

/-- The top is full if there are enough candidates. -/
theorem card_top (hM : M ≤ #{b ∈ D | m ≤ votes b}) : M ≤ #(top name D votes M m) := by
  have hfirst := @card_first α N name _ votes M {b ∈ D | m ≤ votes b} hM
  refine hfirst.trans (card_le_card fun b hb => ?_)
  obtain ⟨hb, hcard⟩ := mem_filter.mp hb
  obtain ⟨hbD, hm⟩ := mem_filter.mp hb
  have hsame : ahead name {b ∈ D | m ≤ votes b} votes b = ahead name D votes b := by
    ext c
    rw [mem_ahead, mem_ahead, mem_filter]
    exact ⟨fun h => ⟨h.1.1, h.2⟩, fun h => ⟨⟨h.1, hm.trans (votes_le_of_standing h.2)⟩, h.2⟩⟩
  rw [hsame] at hcard
  exact mem_top.mpr ⟨hbD, hm, hcard⟩

/-! ## Sorted lists -/

variable (name) in
/-- What an entry ranks by. -/
def entryStanding (x : α × ℤ) : ℤ ×ₗ N := toLex (x.2, name x.1)

variable (name) in
/-- Greater standings come first. -/
def RanksBefore (x y : α × ℤ) : Prop := entryStanding name y ≤ entryStanding name x

instance : DecidableRel (RanksBefore name) := fun x y =>
  inferInstanceAs (Decidable (entryStanding name y ≤ entryStanding name x))

instance : Std.Total (RanksBefore name) := ⟨fun x y => le_total (entryStanding name y) (entryStanding name x)⟩

instance : IsTrans (α × ℤ) (RanksBefore name) := ⟨fun _ _ _ h h' => h'.trans h⟩

variable (name) in
/-- The first `M` entries with at least `m` votes, in order. -/
def ranking (entries : List (α × ℤ)) (M : ℕ) (m : ℤ) : List (α × ℤ) :=
  ((entries.filter fun x => m ≤ x.2).insertionSort (RanksBefore name)).take M

variable {entries : List (α × ℤ)}

theorem pairwise_sorted (hname : Function.Injective name) (hnd : (entries.map Prod.fst).Nodup) :
    (entries.insertionSort (RanksBefore name)).Pairwise
      fun x y => entryStanding name y < entryStanding name x := by
  have hsorted := List.pairwise_insertionSort (RanksBefore name) entries
  have hperm := List.perm_insertionSort (RanksBefore name) entries
  have hdistinct : (entries.insertionSort (RanksBefore name)).Pairwise fun x y => x.1 ≠ y.1 :=
    List.pairwise_map.mp ((hperm.map Prod.fst).nodup_iff.mpr hnd)
  refine (hsorted.and hdistinct).imp fun {x y} h => lt_of_le_of_ne h.1 fun heq => h.2 ?_
  exact (hname (congrArg (fun k => (ofLex k).2) heq)).symm

/-- In a sorted list, the first `M` are those with fewer than `M` before them. -/
theorem mem_take_sorted {l : List (α × ℤ)}
    (h : l.Pairwise fun x y => entryStanding name y < entryStanding name x) (M : ℕ) (x : α × ℤ) :
    x ∈ l.take M ↔ x ∈ l ∧ l.countP (fun y => entryStanding name x < entryStanding name y) < M := by
  induction l generalizing M with
  | nil => simp
  | cons y l ih =>
    obtain ⟨hy, hl⟩ := List.pairwise_cons.mp h
    cases M with
    | zero => simp
    | succ M =>
      rw [List.take_succ_cons, List.mem_cons, List.mem_cons, ih hl, List.countP_cons]
      by_cases hx : x ∈ l
      · have hlt := hy x hx
        simp only [hx, hlt, decide_true, if_true, or_true, true_and]
        constructor
        · rintro (rfl | hcount)
          · exact absurd hlt (lt_irrefl _)
          · omega
        · intro hcount
          exact .inr (by omega)
      · simp only [hx, or_false, false_and]
        constructor
        · rintro rfl
          have hzero : l.countP (fun y => entryStanding name x < entryStanding name y) = 0 :=
            List.countP_eq_zero.mpr fun z hz => by simpa using (hy z hz).le
          simp [hzero]
        · exact fun h => h.1

theorem card_ahead_entries {v : α → ℤ} [DecidableEq α] (hnd : (entries.map Prod.fst).Nodup)
    (hv : ∀ x ∈ entries, v x.1 = x.2) (a : α) :
    #(ahead name (entries.map Prod.fst).toFinset v a)
      = entries.countP fun y => standing name v a < entryStanding name y := by
  have hstanding : ∀ x ∈ entries, standing name v x.1 = entryStanding name x := fun x hx =>
    congrArg (fun w => toLex (w, name x.1)) (hv x hx)
  have heq : ahead name (entries.map Prod.fst).toFinset v a
      = ((entries.filter fun y => standing name v a < entryStanding name y).map Prod.fst).toFinset := by
    ext b
    simp only [mem_ahead, List.mem_toFinset, List.mem_map, List.mem_filter, decide_eq_true_eq]
    constructor
    · rintro ⟨⟨x, hx, rfl⟩, hlt⟩
      exact ⟨x, ⟨hx, hstanding x hx ▸ hlt⟩, rfl⟩
    · rintro ⟨x, ⟨hx, hlt⟩, rfl⟩
      exact ⟨⟨x, hx, rfl⟩, hstanding x hx ▸ hlt⟩
  have hsub := (@List.filter_sublist _ (fun y => decide (standing name v a < entryStanding name y)) entries).map Prod.fst
  rw [heq, List.toFinset_card_of_nodup (hnd.sublist hsub), List.length_map, List.countP_eq_length_filter]

/-- The members of a ranking are the top. -/
theorem mem_ranking [DecidableEq α] (hname : Function.Injective name)
    (hnd : (entries.map Prod.fst).Nodup) {v : α → ℤ} (hv : ∀ x ∈ entries, v x.1 = x.2) (x : α × ℤ) :
    x ∈ ranking name entries M m ↔ x.1 ∈ top name (entries.map Prod.fst).toFinset v M m ∧ x.2 = v x.1 := by
  have hnd' := hnd.sublist ((@List.filter_sublist _ (fun x => decide (m ≤ x.2)) entries).map _)
  have hmem : x ∈ ranking name entries M m ↔ (x ∈ entries ∧ m ≤ x.2) ∧
      entries.countP (fun y => entryStanding name x < entryStanding name y) < M := by
    rw [ranking, mem_take_sorted (pairwise_sorted hname hnd'), List.mem_insertionSort,
      (List.perm_insertionSort _ _).countP_eq, List.countP_filter, List.mem_filter, decide_eq_true_eq]
    refine and_congr_right fun hx => ?_
    -- who ranks before an entry over the bound is over the bound too
    rw [List.countP_congr fun y _ => ?_]
    simp only [Bool.and_eq_true, decide_eq_true_eq, and_iff_left_iff_imp]
    intro hlt
    rcases Prod.Lex.toLex_lt_toLex.mp hlt with h | ⟨h, -⟩ <;> omega
  have hstanding : x.2 = v x.1 → standing name v x.1 = entryStanding name x := fun h =>
    congrArg (fun w => toLex (w, name x.1)) h.symm
  rw [hmem, mem_top, List.mem_toFinset, List.mem_map, card_ahead_entries hnd hv]
  constructor
  · rintro ⟨⟨hx, hm⟩, hrank⟩
    have hvotes := hv x hx
    rw [hstanding hvotes.symm]
    exact ⟨⟨⟨x, hx, rfl⟩, hvotes ▸ hm, hrank⟩, hvotes.symm⟩
  · rintro ⟨⟨⟨y, hy, hyx⟩, hm, hrank⟩, hvotes⟩
    obtain rfl : y = x := Prod.ext hyx (by rw [← hv y hy, hyx, hvotes])
    rw [hstanding hvotes] at hrank
    exact ⟨⟨hy, hvotes ▸ hm⟩, hrank⟩

theorem pairwise_ranking (hname : Function.Injective name) (hnd : (entries.map Prod.fst).Nodup) :
    (ranking name entries M m).Pairwise fun x y => entryStanding name y < entryStanding name x := by
  have hnd' := hnd.sublist ((@List.filter_sublist _ (fun x => decide (m ≤ x.2)) entries).map _)
  exact (pairwise_sorted hname hnd').sublist (List.take_sublist _ _)

/-- Sorted lists with the same members are equal. -/
theorem eq_of_sorted {l l' : List (α × ℤ)}
    (h : l.Pairwise fun x y => entryStanding name y < entryStanding name x)
    (h' : l'.Pairwise fun x y => entryStanding name y < entryStanding name x)
    (hmem : ∀ x, x ∈ l ↔ x ∈ l') : l = l' := by
  have : Std.Irrefl fun x y : α × ℤ => entryStanding name y < entryStanding name x := ⟨fun _ => lt_irrefl _⟩
  have : Std.Antisymm fun x y : α × ℤ => entryStanding name y < entryStanding name x :=
    ⟨fun _ _ hxy hyx => absurd hxy hyx.not_gt⟩
  exact h.eq_of_mem_iff h' hmem

/-- Cutting a ranking where the votes get too few is ranking with a bound. -/
theorem takeWhile_ranking [DecidableEq α] (hname : Function.Injective name)
    (hnd : (entries.map Prod.fst).Nodup) {m₀ : ℤ} (h₀ : ∀ x ∈ entries, m₀ ≤ x.2) :
    (ranking name entries M m₀).takeWhile (fun x => m ≤ x.2) = ranking name entries M m := by
  have hsorted := @pairwise_ranking α N name _ M m₀ entries hname hnd
  have hfilter : (ranking name entries M m₀).takeWhile (fun x => m ≤ x.2)
      = (ranking name entries M m₀).filter fun x => m ≤ x.2 := by
    generalize ranking name entries M m₀ = l at hsorted
    induction l with
    | nil => rfl
    | cons x l ih =>
      obtain ⟨hx, hl⟩ := List.pairwise_cons.mp hsorted
      rw [List.takeWhile_cons, List.filter_cons, ih hl]
      split_ifs with hm
      · rfl
      · refine (List.filter_eq_nil_iff.mpr fun y hy => ?_).symm
        simp only [decide_eq_true_eq, not_le] at hm ⊢
        rcases Prod.Lex.toLex_lt_toLex.mp (hx y hy) with h | ⟨h, -⟩
        · exact lt_trans h hm
        · exact lt_of_eq_of_lt h hm
  obtain ⟨v, hv⟩ : ∃ v : α → ℤ, ∀ x ∈ entries, v x.1 = x.2 := by
    refine ⟨fun a => ((entries.find? fun y => y.1 = a).map Prod.snd).getD 0, fun x hx => ?_⟩
    dsimp only
    cases hfind : entries.find? fun y => y.1 = x.1 with
    | none => exact absurd (List.find?_eq_none.mp hfind x hx) (by simp)
    | some y =>
      have hy : y.1 = x.1 := by simpa using List.find?_some hfind
      rw [List.inj_on_of_nodup_map hnd (List.mem_of_find?_eq_some hfind) hx hy]
      rfl
  rw [hfilter]
  refine eq_of_sorted (hsorted.filter _) (pairwise_ranking hname hnd) fun x => ?_
  rw [List.mem_filter, mem_ranking hname hnd hv, mem_ranking hname hnd hv, mem_top, mem_top,
    decide_eq_true_eq]
  constructor
  · rintro ⟨⟨⟨hx, -, hrank⟩, hvotes⟩, hm⟩
    exact ⟨⟨hx, hvotes ▸ hm, hrank⟩, hvotes⟩
  · rintro ⟨⟨hx, hm, hrank⟩, hvotes⟩
    obtain ⟨y, hy, hyx⟩ := List.mem_map.mp (List.mem_toFinset.mp hx)
    have hbound := h₀ y hy
    rw [← hv y hy, hyx] at hbound
    exact ⟨⟨⟨hx, hbound, hrank⟩, hvotes⟩, hvotes ▸ hm⟩

/-! ## After a change -/

section Changed

variable [Fintype α]

/-- Only those with votes can be ahead of one with votes. -/
theorem mem_top_voted (hD : ∀ a, a ∈ D ↔ 0 < votes a) :
    a ∈ top name D votes M m ↔ 0 < votes a ∧ a ∈ top name univ votes M m := by
  rw [mem_top, mem_top, hD]
  have hahead : 0 < votes a → ahead name D votes a = ahead name univ votes a := by
    intro ha
    ext b
    rw [mem_ahead, mem_ahead, hD]
    exact ⟨fun h => ⟨mem_univ b, h.2⟩, fun h => ⟨ha.trans_le (votes_le_of_standing h.2), h.2⟩⟩
  constructor
  · rintro ⟨ha, hm, hrank⟩
    exact ⟨ha, mem_univ a, hm, hahead ha ▸ hrank⟩
  · rintro ⟨ha, -, hm, hrank⟩
    exact ⟨ha, hm, (hahead ha).symm ▸ hrank⟩

variable [DecidableEq α] (name)

/-- The candidates `A` answer for the first `M` with at least `m` of the votes `P`: those among them
that have votes are the top, and `v` gives the votes of every one. -/
structure Answers (A : Finset α) (v P : α → ℤ) (M : ℕ) (m : ℤ) : Prop where
  top : ∀ a, 0 < P a → (a ∈ A ↔ a ∈ top name univ P M m)
  votes : ∀ a ∈ A, v a = P a

/-- The votes `F` came out of the votes `P` by changes among `B`, and `A` answers for a prefix of `P`
that is longer than `M` by the number of changes, with a bound below `m` by their largest increase. -/
structure Reranking (P F : α → ℤ) (A B : Finset α) (M : ℕ) (m inc : ℤ) : Prop where
  nonneg_before : ∀ a, 0 ≤ P a
  nonneg_after : ∀ a, 0 ≤ F a
  same : ∀ a ∉ B, F a = P a
  nonneg_increase : 0 ≤ inc
  increase : ∀ a, F a - P a ≤ inc
  answers : Answers name A P P (M + #{a ∈ B | F a ≠ P a}) (if inc < m then m - inc else 0)

variable {name}

/-- The candidates that are ranked again: those answered for, and those whose increase alone is
enough. -/
def reranked (P F : α → ℤ) (A B : Finset α) (m : ℤ) : Finset α := A ∪ {a ∈ B | m ≤ F a - P a}

/-- The votes they are ranked by: without an answer, the increase alone. -/
def rerankVotes (P F : α → ℤ) (A : Finset α) (a : α) : ℤ := if a ∈ A then F a else F a - P a

namespace Reranking

variable {P F : α → ℤ} {A B : Finset α} {inc : ℤ}

theorem rerankVotes_le (h : Reranking name P F A B M m inc) (a : α) : rerankVotes P F A a ≤ F a := by
  have := h.nonneg_before a
  unfold rerankVotes
  split <;> omega

/-- Behind the prefix there are `M` unchanged candidates of the prefix before a candidate. -/
theorem unchanged_ahead (h : Reranking name P F A B M m inc) (ha : 0 < P a)
    (hm : (if inc < m then m - inc else 0) ≤ P a)
    (hM : M + #{a ∈ B | F a ≠ P a} ≤ #(ahead name univ P a)) :
    M ≤ #{b ∈ A | F b = P b ∧ standing name P a < standing name P b} := by
  set T := top name univ P (M + #{a ∈ B | F a ≠ P a}) (if inc < m then m - inc else 0) with hT
  have hcard := card_top_ahead hm hM
  rw [← hT] at hcard
  have hsub : {b ∈ T | standing name P a < standing name P b} \ {a ∈ B | F a ≠ P a}
      ⊆ {b ∈ A | F b = P b ∧ standing name P a < standing name P b} := by
    intro b hb
    obtain ⟨hbT, hbC⟩ := mem_sdiff.mp hb
    obtain ⟨hbT, hab⟩ := mem_filter.mp hbT
    have hbA : b ∈ A := (h.answers.top b (ha.trans_le (votes_le_of_standing hab))).mpr hbT
    refine mem_filter.mpr ⟨hbA, ?_, hab⟩
    by_contra hne
    by_cases hB : b ∈ B
    · exact hbC (mem_filter.mpr ⟨hB, hne⟩)
    · exact hne (h.same b hB)
  have hdiff := le_card_sdiff {a ∈ B | F a ≠ P a} {b ∈ T | standing name P a < standing name P b}
  have := card_le_card hsub
  omega

omit [LinearOrder N] [Fintype α] in
/-- Unchanged candidates of the prefix keep their standing. -/
theorem standing_unchanged (hb : b ∈ A) (hsame : F b = P b) :
    standing name (rerankVotes P F A) b = standing name P b := by
  refine standing_congr ?_
  rw [rerankVotes, if_pos hb, hsame]

/-- A candidate of the new top has its votes in the ranking, if it was within the prefix in case it
rose. -/
theorem rerankVotes_top (h : Reranking name P F A B M m inc) (ha : a ∈ top name univ F M m)
    (hpos : 0 < F a)
    (hrise : 0 < P a → P a < F a → #(ahead name univ P a) < M + #{a ∈ B | F a ≠ P a}) :
    a ∈ reranked P F A B m ∧ rerankVotes P F A a = F a := by
  obtain ⟨-, hm, hrank⟩ := mem_top.mp ha
  by_cases hA : a ∈ A
  · exact ⟨mem_union_left _ hA, if_pos hA⟩
  · have hinc := h.increase a
    rcases (h.nonneg_before a).lt_or_eq with hP | hP
    · -- votes before, so the prefix was too short for it
      exfalso
      have hbound : (if inc < m then m - inc else 0) ≤ P a := by split <;> omega
      have hlong : M + #{a ∈ B | F a ≠ P a} ≤ #(ahead name univ P a) := by
        by_contra hlt
        exact hA ((h.answers.top a hP).mpr (mem_top.mpr ⟨mem_univ a, hbound, by omega⟩))
      have hfall : F a ≤ P a := by
        by_contra hlt
        have := hrise hP (by omega)
        omega
      have hunchanged := h.unchanged_ahead hP hbound hlong
      have hbefore : {b ∈ A | F b = P b ∧ standing name P a < standing name P b}
          ⊆ ahead name univ F a := by
        intro b hb
        obtain ⟨-, hsame, hab⟩ := mem_filter.mp hb
        refine mem_ahead.mpr ⟨mem_univ b, ?_⟩
        rw [standing_congr hsame]
        exact (standing_mono hfall).trans_lt hab
      have := card_le_card hbefore
      omega
    · -- no votes before, so its votes are the increase
      have hB : a ∈ B := by
        by_contra hB
        have := h.same a hB
        omega
      refine ⟨mem_union_right _ (mem_filter.mpr ⟨hB, by omega⟩), ?_⟩
      rw [rerankVotes, if_neg hA]
      omega

/-- Ranked by their votes, fewer are before a candidate than there are before it in truth. -/
theorem ahead_subset (h : Reranking name P F A B M m inc) (ha : rerankVotes P F A a = F a) :
    ahead name (reranked P F A B m) (rerankVotes P F A) a ⊆ ahead name univ F a := by
  intro b hb
  obtain ⟨-, hab⟩ := mem_ahead.mp hb
  rw [standing_congr ha] at hab
  exact mem_ahead.mpr ⟨mem_univ b, hab.trans_le (standing_mono (h.rerankVotes_le b))⟩

/-- A candidate that had votes and is missing from the prefix, without enough votes by its increase
alone, is behind `M` of those that are ranked. -/
theorem behind_of_missing (h : Reranking name P F A B M m inc) (hm : m ≤ 0) (hA : a ∉ A) (ha : 0 < P a) :
    M ≤ #{b ∈ A | F b = P b ∧ standing name P a < standing name P b} := by
  have hinc := h.nonneg_increase
  have hbound : (if inc < m then m - inc else 0) ≤ P a := by split <;> omega
  refine h.unchanged_ahead ha hbound ?_
  by_contra hlt
  exact hA ((h.answers.top a ha).mpr (mem_top.mpr ⟨mem_univ a, hbound, by omega⟩))

/-- **Ranking again.** It finds the new top, with its votes, exactly if every candidate of the new top
that rose from some votes was within the prefix. -/
theorem answers_iff (h : Reranking name P F A B M m inc) :
    Answers name (top name (reranked P F A B m) (rerankVotes P F A) M m) (rerankVotes P F A) F M m ↔
      ∀ a ∈ top name univ F M m, 0 < P a → P a < F a →
        #(ahead name univ P a) < M + #{a ∈ B | F a ≠ P a} := by
  constructor
  · intro hans a ha hP hrise
    have hmem := (hans.top a (hP.trans hrise)).mpr ha
    have hvotes := hans.votes a hmem
    by_cases hA : a ∈ A
    · exact (mem_top.mp ((h.answers.top a hP).mp hA)).2.2
    · rw [rerankVotes, if_neg hA] at hvotes
      omega
  · intro hrise
    have htop : ∀ a, 0 < F a → a ∈ top name univ F M m →
        a ∈ reranked P F A B m ∧ rerankVotes P F A a = F a := fun a hpos ha =>
      h.rerankVotes_top ha hpos fun hP hlt => hrise a ha hP hlt
    have hiff : ∀ a, 0 < F a → (a ∈ top name (reranked P F A B m) (rerankVotes P F A) M m ↔
        a ∈ top name univ F M m) := by
      intro a hpos
      constructor
      · intro ha
        obtain ⟨-, hm, hrank⟩ := mem_top.mp ha
        have hm' := hm.trans (h.rerankVotes_le a)
        refine mem_top.mpr ⟨mem_univ a, hm', ?_⟩
        by_contra hlong
        -- the top is ahead of it, and is ranked by its votes
        have hcard := card_top_ahead hm' (not_lt.mp hlong)
        have hsub : {b ∈ top name univ F M m | standing name F a < standing name F b}
            ⊆ ahead name (reranked P F A B m) (rerankVotes P F A) a := by
          intro b hb
          obtain ⟨hb, hab⟩ := mem_filter.mp hb
          obtain ⟨hbD, hbF⟩ := htop b (hpos.trans_le (votes_le_of_standing hab)) hb
          refine mem_ahead.mpr ⟨hbD, ?_⟩
          rw [standing_congr hbF]
          exact (standing_mono (h.rerankVotes_le a)).trans_lt hab
        have := card_le_card hsub
        omega
      · intro ha
        obtain ⟨-, hm, hrank⟩ := mem_top.mp ha
        obtain ⟨haD, haF⟩ := htop a hpos ha
        have := card_le_card (h.ahead_subset haF)
        exact mem_top.mpr ⟨haD, haF ▸ hm, by omega⟩
    refine ⟨hiff, fun a ha => ?_⟩
    rcases (h.nonneg_after a).lt_or_eq with hpos | hzero
    · exact (htop a hpos ((hiff a hpos).mp ha)).2
    · -- without votes now, it was within the prefix or never had any
      by_cases hA : a ∈ A
      · exact if_pos hA
      · obtain ⟨-, hm, hrank⟩ := mem_top.mp ha
        have hvotes : rerankVotes P F A a = F a - P a := if_neg hA
        rcases (h.nonneg_before a).lt_or_eq with hP | hP
        · have hbehind := h.behind_of_missing (by omega) hA hP
          have hsub : {b ∈ A | F b = P b ∧ standing name P a < standing name P b}
              ⊆ ahead name (reranked P F A B m) (rerankVotes P F A) a := by
            intro b hb
            obtain ⟨hbA, hsame, hab⟩ := mem_filter.mp hb
            refine mem_ahead.mpr ⟨mem_union_left _ hbA, ?_⟩
            rw [standing_unchanged hbA hsame]
            exact (standing_mono (by omega)).trans_lt hab
          have := card_le_card hsub
          omega
        · omega

/-- Who is listed without votes was so in the prefix, or its votes were touched. -/
theorem idle_of_mem (h : Reranking name P F A B M m inc) {Z : Finset α} (hZ : ∀ a ∈ A, P a = 0 → a ∈ Z)
    (ha : a ∈ top name (reranked P F A B m) (rerankVotes P F A) M m) (hzero : F a = 0) : a ∈ Z ∪ B := by
  obtain ⟨haD, -⟩ := mem_top.mp ha
  rcases mem_union.mp haD with hA | hB
  · by_cases hB : a ∈ B
    · exact mem_union_right _ hB
    · exact mem_union_left _ (hZ a hA (by rw [← h.same a hB, hzero]))
  · exact mem_union_right _ (mem_filter.mp hB).1

/-- With a bound that admits them, those without votes are listed as long as there is room. -/
theorem idle_mem (h : Reranking name P F A B M m inc) (hm : m ≤ 0) {Z : Finset α}
    (hZ : ∀ a ∈ Z, P a = 0 → a ∈ A ∨ M + #{a ∈ B | F a ≠ P a} ≤ #A) (ha : a ∈ Z ∪ B)
    (hzero : F a = 0) :
    a ∈ top name (reranked P F A B m) (rerankVotes P F A) M m ∨
      M ≤ #(top name (reranked P F A B m) (rerankVotes P F A) M m) := by
  have hroom : a ∈ reranked P F A B m → rerankVotes P F A a = 0 →
      a ∈ top name (reranked P F A B m) (rerankVotes P F A) M m ∨
        M ≤ #(top name (reranked P F A B m) (rerankVotes P F A) M m) := by
    intro haD hvotes
    by_cases hrank : #(ahead name (reranked P F A B m) (rerankVotes P F A) a) < M
    · exact .inl (mem_top.mpr ⟨haD, by omega, hrank⟩)
    · have hcard := @card_top_ahead α N name _ _ _ M m a (by omega) (not_lt.mp hrank)
      exact .inr (hcard.trans (card_filter_le _ _))
  have hfull : ∀ S ⊆ A, (∀ b ∈ S, F b = P b) → M ≤ #S →
      M ≤ #(top name (reranked P F A B m) (rerankVotes P F A) M m) := by
    intro S hS hsame hM
    refine card_top (hM.trans (card_le_card fun b hb => mem_filter.mpr ⟨mem_union_left _ (hS hb), ?_⟩))
    have := h.nonneg_after b
    rw [rerankVotes, if_pos (hS hb)]
    omega
  by_cases hA : a ∈ A
  · exact hroom (mem_union_left _ hA) ((if_pos hA).trans hzero)
  · by_cases hB : a ∈ B
    · rcases (h.nonneg_before a).lt_or_eq with hP | hP
      · exact .inr (hfull _ (filter_subset _ _) (fun b hb => (mem_filter.mp hb).2.1)
          (h.behind_of_missing hm hA hP))
      · refine hroom (mem_union_right _ (mem_filter.mpr ⟨hB, by omega⟩)) ?_
        rw [rerankVotes, if_neg hA]
        omega
    · have hsame := h.same a hB
      have haZ : a ∈ Z := (mem_union.mp ha).resolve_right hB
      have hlong := (hZ a haZ (by omega)).resolve_left hA
      refine .inr (hfull {b ∈ A | F b = P b} (filter_subset _ _) (fun b hb => (mem_filter.mp hb).2) ?_)
      have hsub : A \ {a ∈ B | F a ≠ P a} ⊆ {b ∈ A | F b = P b} := by
        intro b hb
        obtain ⟨hbA, hbC⟩ := mem_sdiff.mp hb
        refine mem_filter.mpr ⟨hbA, ?_⟩
        by_contra hne
        by_cases hbB : b ∈ B
        · exact hbC (mem_filter.mpr ⟨hbB, hne⟩)
        · exact hne (h.same b hbB)
      have hdiff := le_card_sdiff {a ∈ B | F a ≠ P a} A
      have := card_le_card hsub
      omega

/-- When nobody is listed without votes. -/
theorem all_voted_iff (h : Reranking name P F A B M m inc)
    (hans : Answers name (top name (reranked P F A B m) (rerankVotes P F A) M m) (rerankVotes P F A) F M m)
    {Z : Finset α} (hZ : ∀ a ∈ A, P a = 0 → a ∈ Z)
    (hZ' : m ≤ 0 → ∀ a ∈ Z, P a = 0 → a ∈ A ∨ M + #{a ∈ B | F a ≠ P a} ≤ #A) :
    (∀ a ∈ top name (reranked P F A B m) (rerankVotes P F A) M m, 0 < F a) ↔
      0 < m ∨ M ≤ #{a | 0 < F a} ∨ ∀ a ∈ Z ∪ B, 0 < F a := by
  constructor
  · intro hall
    by_contra hcon
    rw [not_or, not_or, not_lt, not_le] at hcon
    obtain ⟨hm, hfew, hidle⟩ := hcon
    push Not at hidle
    obtain ⟨a, ha, hF⟩ := hidle
    have hzero : F a = 0 := le_antisymm hF (h.nonneg_after a)
    rcases h.idle_mem hm (hZ' hm) ha hzero with hmem | hfull
    · exact (hall a hmem).ne' hzero
    · have hsub : top name (reranked P F A B m) (rerankVotes P F A) M m ⊆ ({a | 0 < F a} : Finset α) :=
        fun b hb => mem_filter.mpr ⟨mem_univ b, hall b hb⟩
      have := card_le_card hsub
      omega
  · intro hcases a ha
    have hvotes := hans.votes a ha
    obtain ⟨-, hm, hrank⟩ := mem_top.mp ha
    by_contra hF
    have hzero : F a = 0 := le_antisymm (not_lt.mp hF) (h.nonneg_after a)
    rcases hcases with hpos | hmany | hidle
    · omega
    · -- the first of those with votes fill the list
      have hfirst := @card_first α N name _ F M {a | 0 < F a} hmany
      have hsub : {b ∈ ({a | 0 < F a} : Finset α) | #(ahead name {a | 0 < F a} F b) < M}
          ⊆ ahead name (reranked P F A B m) (rerankVotes P F A) a := by
        intro b hb
        obtain ⟨hb, hcard⟩ := mem_filter.mp hb
        have hbF : 0 < F b := (mem_filter.mp hb).2
        have hsame : ahead name univ F b ⊆ ahead name {a | 0 < F a} F b := by
          intro c hc
          obtain ⟨-, hbc⟩ := mem_ahead.mp hc
          exact mem_ahead.mpr ⟨mem_filter.mpr ⟨mem_univ c, hbF.trans_le (votes_le_of_standing hbc)⟩, hbc⟩
        have hle := card_le_card hsame
        have hbtop := (hans.top b hbF).mpr (mem_top.mpr ⟨mem_univ b, by omega, by omega⟩)
        refine mem_ahead.mpr ⟨(mem_top.mp hbtop).1, Prod.Lex.toLex_lt_toLex.mpr (.inl ?_)⟩
        rw [hvotes, hans.votes b hbtop]
        omega
      have := card_le_card hsub
      omega
    · exact (hidle a (h.idle_of_mem hZ ha hzero)).ne' hzero

end Reranking

end Changed

end ZaggCore.Foundations
