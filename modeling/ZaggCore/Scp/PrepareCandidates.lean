import ZaggCore.Scp.OwnStatement

/-! # Candidates for a prepared ballot

The candidates that `getPrepareCandidates` offers, what the node's own statement says of them, and what
`setPrepared` changes of the ballots above a given one. -/

namespace ZaggCore.Scp
open BallotProtocol
set_option autoImplicit false
set_option maxHeartbeats 250000

variable {X Value : Type} [LinearOrder Value]

omit [LinearOrder Value] in
theorem SCPBallot.mk_counter {b : SCPBallot Value} {v : Value} (h : b.value = v) :
    (⟨b.counter, v⟩ : SCPBallot Value) = b := by
  subst h
  rfl

/-! ## Sets of ballots -/

namespace BallotProtocol

section Ballots

variable {b c t x : SCPBallot Value} {set l : List (SCPBallot Value)} {pledges : BallotPledges Value}

theorem mem_insertBallot : c ∈ insertBallot b set ↔ c = b ∨ c ∈ set := by
  induction set with
  | nil => simp [insertBallot]
  | cons a set ih =>
    rw [insertBallot]
    split_ifs with hgt heq
    · exact List.mem_cons
    · rw [(compareBallots_eq b a).mp heq]
      simp
    · rw [List.mem_cons, List.mem_cons, ih]
      exact or_left_comm

theorem sorted_insertBallot (h : set.Pairwise (· > ·)) : (insertBallot b set).Pairwise (· > ·) := by
  induction set with
  | nil => exact List.pairwise_singleton _ _
  | cons a set ih =>
    obtain ⟨ha, hset⟩ := List.pairwise_cons.mp h
    rw [insertBallot]
    split_ifs with hgt heq
    · have hlt : a < b := (compareBallots_gt b a).mp hgt
      refine List.pairwise_cons.mpr ⟨fun c hc => ?_, h⟩
      obtain rfl | hc := List.mem_cons.mp hc
      · exact hlt
      · exact (ha c hc).trans hlt
    · exact h
    · refine List.pairwise_cons.mpr ⟨fun c hc => ?_, ih hset⟩
      obtain rfl | hc := mem_insertBallot.mp hc
      · rw [compareBallots_gt, not_lt] at hgt
        rw [compareBallots_eq] at heq
        exact lt_of_le_of_ne hgt heq
      · exact ha c hc

theorem mem_foldr_insertBallot : c ∈ l.foldr insertBallot [] ↔ c ∈ l := by
  induction l with
  | nil => rfl
  | cons b l ih => rw [List.foldr_cons, mem_insertBallot, List.mem_cons, ih]

theorem sorted_foldr_insertBallot (l : List (SCPBallot Value)) :
    (l.foldr insertBallot []).Pairwise (· > ·) := by
  induction l with
  | nil => exact List.Pairwise.nil
  | cons b l ih => exact sorted_insertBallot ih

theorem mem_getPrepareCandidates {s : BallotProtocol X Value} {hint : BallotPledges Value} :
    x ∈ s.getPrepareCandidates hint ↔
      ∃ t ∈ hintBallots hint, ∃ e ∈ s.mLatestEnvelopes, x ∈ candidatesOf t e.statement.pledges := by
  unfold getPrepareCandidates
  rw [mem_foldr_insertBallot, List.mem_flatMap]
  simp only [mem_foldr_insertBallot, List.mem_flatMap]

theorem sorted_getPrepareCandidates (s : BallotProtocol X Value) (hint : BallotPledges Value) :
    (s.getPrepareCandidates hint).Pairwise (· > ·) :=
  sorted_foldr_insertBallot _

/-- A candidate is less than and compatible with the vote it is found for. -/
theorem candidatesOf_le (h : x ∈ candidatesOf t pledges) : x ≤ t ∧ x.value = t.value := by
  cases pledges with
  | prepare _ b p p' nC nH =>
    exact (areBallotsLessAndCompatible_iff x t).mp (List.mem_filter.mp h).2
  | confirm b nPrepared nC nH _ =>
    dsimp only [candidatesOf] at h
    split_ifs at h with hc hlt
    · obtain rfl | h := List.mem_cons.mp h
      · exact ⟨le_rfl, rfl⟩
      · obtain rfl := List.mem_singleton.mp h
        exact ⟨((SCPBallot.lt_iff _ _).mpr (.inl hlt)).le, rfl⟩
    · obtain rfl := List.mem_singleton.mp h
      exact ⟨le_rfl, rfl⟩
    · cases h
  | externalize c nH _ =>
    dsimp only [candidatesOf] at h
    split_ifs at h
    · obtain rfl := List.mem_singleton.mp h
      exact ⟨le_rfl, rfl⟩
    · cases h

end Ballots

end BallotProtocol

/-! ## The prepared ballots of a position -/

namespace Position

variable {r : Position Value} {q t x b : SCPBallot Value}

/-- One of `p` and `p'`. -/
def Top (r : Position Value) (t : SCPBallot Value) : Prop :=
  r.prepared = some t ∨ r.preparedPrime = some t

/-- What `attemptPreparedAccept` takes for already prepared. -/
def Prepared (r : Position Value) (x : SCPBallot Value) : Prop :=
  (∃ p', r.preparedPrime = some p' ∧ x ≤ p') ∨ ∃ p, r.prepared = some p ∧ x ≤ p ∧ x.value = p.value

theorem Top.prepared (h : r.Top t) (hx : x ≤ t) (hv : x.value = t.value) : r.Prepared x :=
  h.elim (fun hp => .inr ⟨t, hp, hx, hv⟩) fun hp' => .inl ⟨t, hp', hx⟩

theorem Prepared.mono (h : r.Prepared q) (hx : x ≤ q) (hv : x.value = q.value) : r.Prepared x := by
  obtain ⟨p', hp', hle⟩ | ⟨p, hp, hle, hqv⟩ := h
  · exact .inl ⟨p', hp', hx.trans hle⟩
  · exact .inr ⟨p, hp, hx.trans hle, hv.trans hqv⟩

/-- What `setPrepared` does with a ballot that is not prepared. -/
theorem prepare_cases (hq : ¬ r.Prepared q) :
    (r.prepared = none ∧ r.prepare q = ({ r with prepared := some q }, true)) ∨
      (∃ p, r.prepared = some p ∧ p < q ∧ r.prepare q = ({ r with
        preparedPrime := if areBallotsCompatible p q then r.preparedPrime else some p
        prepared := some q }, true)) ∨
      ∃ p, r.prepared = some p ∧ q < p ∧ (∀ p', r.preparedPrime = some p' → p' < q) ∧
        r.prepare q = ({ r with preparedPrime := some q }, true) := by
  unfold prepare
  cases hp : r.prepared with
  | none => exact .inl ⟨rfl, rfl⟩
  | some p =>
    right
    rcases lt_trichotomy p q with hlt | rfl | hgt
    · left
      refine ⟨p, rfl, hlt, ?_⟩
      dsimp only
      rw [if_pos ((compareBallots_lt p q).mpr hlt)]
    · exact absurd (.inr ⟨p, hp, le_rfl, rfl⟩) hq
    · right
      have hprime : ∀ p', r.preparedPrime = some p' → p' < q := by
        intro p' hp'
        by_contra hle
        exact hq (.inl ⟨p', hp', not_lt.mp hle⟩)
      refine ⟨p, rfl, hgt, hprime, ?_⟩
      have hge : ¬ compareBallots p q < 0 := by
        rw [compareBallots_lt]
        exact hgt.not_gt
      have hall : r.preparedPrime.all (fun p' => decide (compareBallots p' q < 0)) = true := by
        rw [Option.all_eq_true]
        intro p' hp'
        exact decide_eq_true ((compareBallots_lt p' q).mpr (hprime p' hp'))
      dsimp only
      rw [if_neg hge, if_pos ⟨(compareBallots_gt p q).mpr hgt, hall⟩]

theorem prepare_worked (hq : ¬ r.Prepared q) : (r.prepare q).2 = true := by
  obtain ⟨-, h⟩ | ⟨p, -, -, h⟩ | ⟨p, -, -, -, h⟩ := prepare_cases hq <;> rw [h]

theorem prepare_phase (hq : ¬ r.Prepared q) :
    (r.prepare q).1.phase = r.phase ∧ (r.prepare q).1.current = r.current ∧
      (r.prepare q).1.high = r.high := by
  obtain ⟨-, h⟩ | ⟨p, -, -, h⟩ | ⟨p, -, -, -, h⟩ := prepare_cases hq <;> rw [h] <;> exact ⟨rfl, rfl, rfl⟩

theorem Top.of_prepare (hq : ¬ r.Prepared q) (h : (r.prepare q).1.Top t) : r.Top t ∨ t = q := by
  obtain ⟨-, heq⟩ | ⟨p, hp, -, heq⟩ | ⟨p, hp, -, -, heq⟩ := prepare_cases hq
  · rw [heq] at h
    exact h.elim (fun hq => .inr (Option.some.inj hq).symm) fun hp' => .inl (.inr hp')
  · rw [heq] at h
    obtain hq | hp' := h
    · exact .inr (Option.some.inj hq).symm
    · dsimp only at hp'
      split_ifs at hp'
      · exact .inl (.inr hp')
      · exact .inl (.inl (hp.trans hp'))
  · rw [heq] at h
    exact h.elim (fun hp => .inl (.inl hp)) fun hq => .inr (Option.some.inj hq).symm

theorem prepared_prepare_self (hq : ¬ r.Prepared q) : (r.prepare q).1.Prepared q := by
  obtain ⟨-, h⟩ | ⟨p, -, -, h⟩ | ⟨p, -, -, -, h⟩ := prepare_cases hq
  · rw [h]
    exact .inr ⟨q, rfl, le_rfl, rfl⟩
  · rw [h]
    exact .inr ⟨q, rfl, le_rfl, rfl⟩
  · rw [h]
    exact .inl ⟨q, rfl, le_rfl⟩

/-- What is prepared stays prepared. -/
theorem Prepared.prepare (hr : r.Good) (hq : ¬ r.Prepared q) (hx : r.Prepared x) :
    (r.prepare q).1.Prepared x := by
  obtain ⟨hnone, h⟩ | ⟨p, hp, hlt, h⟩ | ⟨p, hp, hgt, hprime, h⟩ := prepare_cases hq
  · obtain ⟨p', hp', -⟩ | ⟨p, hp, -⟩ := hx
    · obtain ⟨p, hp, -⟩ := hr.prime p' hp'
      cases hnone.symm.trans hp
    · cases hnone.symm.trans hp
  · rw [h]
    by_cases hc : areBallotsCompatible p q = true
    · have hv := (areBallotsCompatible_iff p q).mp hc
      obtain ⟨p', hp', hle⟩ | ⟨p₀, hp₀, hle, hxv⟩ := hx
      · exact .inl ⟨p', (if_pos hc).trans hp', hle⟩
      · obtain rfl := Option.some.inj (hp.symm.trans hp₀)
        exact .inr ⟨q, rfl, hle.trans hlt.le, hxv.trans hv⟩
    · obtain ⟨p', hp', hle⟩ | ⟨p₀, hp₀, hle, -⟩ := hx
      · obtain ⟨p₀, hp₀, hle', -⟩ := hr.prime p' hp'
        obtain rfl := Option.some.inj (hp.symm.trans hp₀)
        exact .inl ⟨p, if_neg hc, hle.trans hle'⟩
      · obtain rfl := Option.some.inj (hp.symm.trans hp₀)
        exact .inl ⟨p, if_neg hc, hle⟩
  · rw [h]
    obtain ⟨p', hp', hle⟩ | hx := hx
    · exact .inl ⟨q, rfl, hle.trans (hprime p' hp').le⟩
    · exact .inr hx

/-- Above a ballot that is not below the new one the prepared ballots stay as they are. -/
theorem top_prepare_iff (hr : r.Good) (hq : ¬ r.Prepared q) (hle : q ≤ b) (hlt : b < t) :
    (r.prepare q).1.Top t ↔ r.Top t := by
  have hne : t ≠ q := (hle.trans_lt hlt).ne'
  refine ⟨fun h => (Top.of_prepare hq h).resolve_right hne, fun ht => ?_⟩
  obtain ⟨hnone, h⟩ | ⟨p, hp, hpq, h⟩ | ⟨p, hp, hgt, hprime, h⟩ := prepare_cases hq
  · obtain hp | hp' := ht
    · cases hnone.symm.trans hp
    · obtain ⟨p, hp, -⟩ := hr.prime t hp'
      cases hnone.symm.trans hp
  · have htp : t ≤ p := by
      obtain hp₀ | hp' := ht
      · exact (Option.some.inj (hp₀.symm.trans hp)).le
      · obtain ⟨p₀, hp₀, hle', -⟩ := hr.prime t hp'
        exact hle'.trans (Option.some.inj (hp₀.symm.trans hp)).le
    exact absurd (htp.trans (hpq.le.trans hle)) hlt.not_ge
  · rw [h]
    obtain hp | hp' := ht
    · exact .inl hp
    · exact absurd ((hprime t hp').le.trans hle) hlt.not_ge

end Position

end ZaggCore.Scp
