import ZaggCore.Scp.BallotRecord
import ZaggCore.Scp.AdvanceSteps

/-! # Positions and the record

What the ballots of a position are based on, and how the position goes on from what the node said. From the
two it follows that what the node says next may be said; each assignment of the protocol keeps them. -/

namespace ZaggCore.Scp
open Foundations BallotProtocol
set_option autoImplicit false
set_option maxHeartbeats 250000

variable {X Value : Type} [LinearOrder Value]

/-! ## Grounds -/

section Grounds

variable {T : Trust NodeID} {log log' : BallotRecord Value} {n : NodeID} {b b' : SCPBallot Value}
  {interval : Uint32 × Uint32}

/-- Of a ballot to commit only the value matters. -/
theorem AcceptsCommit.congr (h : AcceptsCommit T log n b interval) (hv : b.value = b'.value) :
    AcceptsCommit T log n b' interval := by
  unfold AcceptsCommit at h ⊢
  rwa [← votesToCommit_congr hv interval, ← commitPredicate_congr hv interval]

theorem ConfirmsCommit.congr (h : ConfirmsCommit T log n b interval) (hv : b.value = b'.value) :
    ConfirmsCommit T log n b' interval := by
  unfold ConfirmsCommit at h ⊢
  rwa [← commitPredicate_congr hv interval]

end Grounds

theorem Conflicts.of_le {b b' q : SCPBallot Value} (h : Conflicts b' q) (hle : b ≤ b')
    (hv : b.value = b'.value) : Conflicts b q :=
  ⟨hle.trans_lt h.1, hv ▸ h.2⟩

theorem conflicts_of_areBallotsLessAndIncompatible {b q : SCPBallot Value}
    (h : areBallotsLessAndIncompatible b q = true) : Conflicts b q := by
  rw [areBallotsLessAndIncompatible_iff] at h
  refine ⟨lt_of_le_of_ne h.1 fun heq => h.2 (congrArg SCPBallot.value heq), fun hv => h.2 hv.symm⟩

/-- The ballot was aborted by what the node said. -/
def Aborted (said : List (BallotPledges Value)) (b : SCPBallot Value) : Prop :=
  ∃ e ∈ said, ∃ q, hasPreparedBallot q e = true ∧ Conflicts b q

theorem Aborted.mono {said said' : List (BallotPledges Value)} {b : SCPBallot Value} (h : Aborted said b)
    (hsub : said ⊆ said') : Aborted said' b := by
  obtain ⟨e, he, h⟩ := h
  exact ⟨e, hsub he, h⟩

namespace Position

/-! ## Positions -/

/-- What the ballots of the position are based on. -/
structure Backed (T : Trust NodeID) (log : BallotRecord Value) (n : NodeID) (r : Position Value) : Prop where
  prepared : r.phase = .SCP_PHASE_PREPARE → ∀ q, r.Top q → AcceptsPrepared T log n q
  high : r.phase = .SCP_PHASE_PREPARE → ∀ h, r.high = some h → ConfirmsPrepared T log n h
  accepted : r.phase = .SCP_PHASE_CONFIRM → ∀ c h, r.commit = some c → r.high = some h →
    AcceptsCommit T log n c (c.counter, h.counter)
  confirmed : r.phase = .SCP_PHASE_EXTERNALIZE → ∀ c h, r.commit = some c → r.high = some h →
    ConfirmsCommit T log n c (c.counter, h.counter)

/-- The ballot is between `c` and `h`, or was voted to commit before them. -/
def Holds (r : Position Value) (b : SCPBallot Value) : Prop :=
  r.commit.isSome ∧ ∃ h, r.high = some h ∧ b ≤ h ∧ b.value = h.value

/-- In the PREPARE phase, after what the node said: it did not commit, its ballots are not above the current
one, `c` is above those of other values, and what it voted to commit it holds or aborted. While an emission is
pending, what it accepted in between counts as said. -/
structure Voting (pending : Prop) (said : List (BallotPledges Value)) (r : Position Value) : Prop where
  phase : ∀ e ∈ said, committed e = none
  current : ∀ e ∈ said, (getWorkingBallot e).counter = 0 ∨ ptr (some (getWorkingBallot e)) ≤ ptr r.current
  commit : ∀ c, r.commit = some c → ∀ e ∈ said, (getWorkingBallot e).value ≠ c.value →
    getWorkingBallot e ≤ c
  votes : ∀ e ∈ said, ∀ b, VotesCommit b e →
    r.Holds b ∨ Aborted said b ∨ pending ∧ ∃ q, r.Top q ∧ Conflicts b q

/-- From CONFIRM on the node said what it commits to, unless an emission is pending. -/
structure Continues (pending : Prop) (said : List (BallotPledges Value)) (r : Position Value) : Prop where
  voting : r.phase = .SCP_PHASE_PREPARE → Voting pending said r
  decided : r.phase ≠ .SCP_PHASE_PREPARE → pending ∨ ∃ e ∈ said, committed e = r.commit.map SCPBallot.value

section Backed

variable {T : Trust NodeID} {log log' : BallotRecord Value} {n : NodeID} {r : Position Value}

theorem Backed.mono (h : r.Backed T log n) (hlog : T.Covers log log') : r.Backed T log' n where
  prepared hphase q hq := (h.prepared hphase q hq).mono hlog
  high hphase b hb := (h.high hphase b hb).mono hlog
  accepted hphase c b hc hb := (h.accepted hphase c b hc hb).mono hlog
  confirmed hphase c b hc hb := (h.confirmed hphase c b hc hb).mono hlog

theorem Backed.setOverride (h : r.Backed T log n) (o : Option Value) :
    Backed T log n { r with override := o } :=
  ⟨h.prepared, h.high, h.accepted, h.confirmed⟩

/-- What the node says at the position is based on what it heard. -/
theorem Backed.grounded [Inhabited Value] (h : r.Backed T log n) (hr : r.Good) (d : BallotDriver X Value) :
    Grounded T log n (pledgesAt d r) := by
  cases hphase : r.phase with
  | SCP_PHASE_PREPARE =>
    rw [pledgesAt_prepare hphase]
    refine ⟨fun q hq => h.prepared hphase q hq, fun h0 => ?_⟩
    cases hc : r.commit with
    | none => simp [hc] at h0
    | some c =>
      obtain ⟨high, b, hh, hb, -, hhb, -, hhv⟩ := hr.compatible hc
      rw [hh, hb]
      refine ⟨SCPBallot.counter_le hhb, ?_⟩
      have heq : (⟨high.counter, b.value⟩ : SCPBallot Value) = high := SCPBallot.mk_counter hhv
      show ConfirmsPrepared T log n ⟨high.counter, b.value⟩
      rw [heq]
      exact h.high hphase high hh
  | SCP_PHASE_CONFIRM =>
    obtain ⟨c, hc⟩ := Option.isSome_iff_exists.mp (hr.phase (by simp [hphase]))
    obtain ⟨high, b, hh, hb, hch, -, hcv, hhv⟩ := hr.compatible hc
    rw [pledgesAt_confirm hphase, hc, hh, hb]
    exact ⟨SCPBallot.counter_le hch, (h.accepted hphase c high hc hh).congr (hcv.trans hhv)⟩
  | SCP_PHASE_EXTERNALIZE =>
    obtain ⟨c, hc⟩ := Option.isSome_iff_exists.mp (hr.phase (by simp [hphase]))
    obtain ⟨high, -, hh, -⟩ := hr.compatible hc
    simp only [pledgesAt, hphase, hc, hh]
    exact h.confirmed hphase c high hc hh

end Backed

/-! ## What the node says at a position -/

section Continues

variable {pending : Prop} {said said' : List (BallotPledges Value)} {r : Position Value}

theorem Continues.pend (h : Continues pending said r) : Continues True said r where
  voting hphase := by
    obtain ⟨hnone, hcurrent, hcommit, hvotes⟩ := h.voting hphase
    refine ⟨hnone, hcurrent, hcommit, fun e he b hb => ?_⟩
    obtain hholds | haborted | ⟨-, haccepted⟩ := hvotes e he b hb
    · exact .inl hholds
    · exact .inr (.inl haborted)
    · exact .inr (.inr ⟨trivial, haccepted⟩)
  decided _ := .inl trivial

theorem Continues.of_phase (h : r.phase ≠ .SCP_PHASE_PREPARE) : Continues True said r :=
  ⟨fun hphase => absurd hphase h, fun _ => .inl trivial⟩

theorem Continues.setOverride (h : Continues pending said r) (o : Option Value) :
    Continues pending said { r with override := o } where
  voting hphase := by
    obtain ⟨hnone, hcurrent, hcommit, hvotes⟩ := h.voting hphase
    exact ⟨hnone, hcurrent, hcommit, hvotes⟩
  decided := h.decided

theorem continues_start : Continues False [] (start : Position Value) where
  voting _ := ⟨by simp, by simp, by simp, by simp⟩
  decided h := absurd rfl h

variable [Inhabited Value] {d : BallotDriver X Value}

theorem committed_pledgesAt (hr : r.Good) (hphase : r.phase ≠ .SCP_PHASE_PREPARE) :
    committed (pledgesAt d r) = r.commit.map SCPBallot.value := by
  obtain ⟨c, hc⟩ := Option.isSome_iff_exists.mp (hr.phase hphase)
  obtain ⟨high, b, hh, hb, hch, -, hcv, hhv⟩ := hr.compatible hc
  cases hp : r.phase with
  | SCP_PHASE_PREPARE => exact absurd hp hphase
  | SCP_PHASE_CONFIRM => simp [pledgesAt_confirm hp, hb, hc, committed, hcv, hhv]
  | SCP_PHASE_EXTERNALIZE => simp [pledgesAt, hp, hc, committed]

omit [LinearOrder Value] in
theorem phase_of_committed (h : committed (pledgesAt d r) = none) : r.phase = .SCP_PHASE_PREPARE := by
  cases hp : r.phase with
  | SCP_PHASE_PREPARE => rfl
  | SCP_PHASE_CONFIRM => simp [pledgesAt_confirm hp, committed] at h
  | SCP_PHASE_EXTERNALIZE => simp [pledgesAt, hp, committed] at h

/-- A vote to commit is for a ballot of the interval from `c` to `h`. -/
theorem votesCommit_pledgesAt {b : SCPBallot Value} (hr : r.Good) (h : VotesCommit b (pledgesAt d r)) :
    r.phase = .SCP_PHASE_PREPARE ∧ ∃ c high, r.commit = some c ∧ r.high = some high ∧
      c ≤ b ∧ b ≤ high ∧ c.value = b.value ∧ high.value = b.value := by
  have hphase := phase_of_committed h.committed_eq_none
  refine ⟨hphase, ?_⟩
  rw [pledgesAt_prepare hphase] at h
  obtain ⟨h0, hv, hC, hH⟩ := h
  cases hc : r.commit with
  | none => simp [hc] at h0
  | some c =>
    obtain ⟨high, current, hh, hb, -, -, hcv, hhv⟩ := hr.compatible hc
    rw [hc] at hC
    rw [hh] at hH
    rw [hb] at hv
    have hhb : high.value = b.value := hhv.trans hv
    refine ⟨c, high, rfl, hh, ?_, ?_, hcv.trans hhb, hhb⟩
    · exact (SCPBallot.le_iff_counter (hcv.trans hhb)).mpr hC
    · exact (SCPBallot.le_iff_counter hhb.symm).mpr hH

theorem hasPrepared_pledgesAt {q : SCPBallot Value} (hphase : r.phase = .SCP_PHASE_PREPARE) (hq : r.Top q) :
    hasPreparedBallot q (pledgesAt d r) = true := by
  rw [pledgesAt_prepare hphase]
  simp only [hasPreparedBallot, Bool.or_eq_true, Option.any_eq_true, areBallotsLessAndCompatible_iff]
  obtain hp | hp := hq
  · exact .inl ⟨q, hp, le_rfl, rfl⟩
  · exact .inr ⟨q, hp, le_rfl, rfl⟩

omit [Inhabited Value] in
theorem votesToPrepare_iff {q : SCPBallot Value} {e : BallotPledges Value} (he : committed e = none) :
    votesToPrepare q e = true ↔ q ≤ getWorkingBallot e ∧ q.value = (getWorkingBallot e).value := by
  cases e with
  | prepare => exact areBallotsLessAndCompatible_iff _ _
  | confirm => cases he
  | externalize => cases he

omit [LinearOrder Value] in
theorem getWorkingBallot_pledgesAt (hphase : r.phase = .SCP_PHASE_PREPARE) :
    getWorkingBallot (pledgesAt d r) = r.current.getD ⟨0, default⟩ := by
  rw [pledgesAt_prepare hphase]
  rfl

/-- What the node says at the position follows what it said before. -/
theorem Continues.follows (h : Continues True said r) (hr : r.Good) : Follows (pledgesAt d r) said where
  phase hnone := (h.voting (phase_of_committed hnone)).phase
  aborts hnone e he b q hvote hq hne := by
    have hphase := phase_of_committed hnone
    rw [votesToPrepare_iff hnone, getWorkingBallot_pledgesAt hphase] at hq
    obtain ⟨hcommit, high, hh, -, hv⟩ | ⟨e', he', haborted⟩ | ⟨-, t, ht, hconflicts⟩ :=
      (h.voting hphase).votes e he b hvote
    -- what is held is on the value of the current ballot
    · obtain ⟨current, hb, -, hhv⟩ := hr.high high hh
      rw [hb] at hq
      exact absurd (hq.2.trans (hhv.symm.trans hv.symm)) hne
    · exact ⟨e', List.mem_cons_of_mem _ he', haborted⟩
    · exact ⟨_, List.mem_cons_self, t, hasPrepared_pledgesAt hphase ht, hconflicts⟩
  above b hvote e he q hq hne := by
    obtain ⟨hphase, c, high, hc, hh, hcb, -, hcv, -⟩ := votesCommit_pledgesAt hr hvote
    have hvoting := h.voting hphase
    rw [votesToPrepare_iff (hvoting.phase e he)] at hq
    have hle := hvoting.commit c hc e he (by rw [← hq.2, hcv]; exact hne)
    exact lt_of_le_of_ne (hq.1.trans (hle.trans hcb)) fun heq => hne (congrArg SCPBallot.value heq)

/-- Once the node said it, nothing is pending. -/
theorem Continues.settle (h : Continues True said r) (hr : r.Good) (hsaid : pledgesAt d r ∈ said')
    (hsub : said ⊆ said') (hnew : ∀ e ∈ said', e ∈ said ∨ e = pledgesAt d r) : Continues False said' r where
  voting hphase := by
    obtain ⟨hnone, hcurrent, hcommit, hvotes⟩ := h.voting hphase
    refine ⟨fun e he => ?_, fun e he => ?_, fun c hc e he hne => ?_, fun e he b hvote => ?_⟩
    · obtain he | rfl := hnew e he
      · exact hnone e he
      · rw [pledgesAt_prepare hphase]
        rfl
    · obtain he | rfl := hnew e he
      · exact hcurrent e he
      · rw [getWorkingBallot_pledgesAt hphase]
        cases r.current with
        | none => exact .inl rfl
        | some b => exact .inr le_rfl
    · obtain he | rfl := hnew e he
      · exact hcommit c hc e he hne
      · obtain ⟨high, b, -, hb, -, -, hcv, hhv⟩ := hr.compatible hc
        rw [getWorkingBallot_pledgesAt hphase, hb] at hne
        exact absurd (hcv.trans hhv).symm hne
    · obtain he | rfl := hnew e he
      · obtain hholds | haborted | ⟨-, t, ht, hconflicts⟩ := hvotes e he b hvote
        · exact .inl hholds
        · exact .inr (.inl (haborted.mono hsub))
        · exact .inr (.inl ⟨_, hsaid, t, hasPrepared_pledgesAt hphase ht, hconflicts⟩)
      · obtain ⟨-, c, high, hc, hh, -, hle, -, hv⟩ := votesCommit_pledgesAt hr hvote
        exact .inl ⟨by simp [hc], high, hh, hle, hv.symm⟩
  decided hphase := .inr ⟨_, hsaid, committed_pledgesAt hr hphase⟩

end Continues

/-! ## Moves -/

section Moves

variable {T : Trust NodeID} {log : BallotRecord Value} {n : NodeID} {r : Position Value}
  {pending : Prop} {said : List (BallotPledges Value)}

theorem Backed.bump (h : r.Backed T log n) (ballot : SCPBallot Value) : (r.bump ballot).Backed T log n where
  prepared := h.prepared
  high hphase b hb := h.high hphase b (bump_high.mp hb).1
  accepted hphase c b hc hb := h.accepted hphase c b hc (bump_high.mp hb).1
  confirmed hphase c b hc hb := h.confirmed hphase c b hc (bump_high.mp hb).1

/-- Moving the current ballot up, on the value of `c`. -/
theorem Continues.bump (h : Continues pending said r) (hr : r.Good) {ballot : SCPBallot Value}
    (hlt : ptr r.current < ptr (some ballot)) (hvalue : ∀ c, r.commit = some c → c.value = ballot.value) :
    Continues pending said (r.bump ballot) where
  voting hphase := by
    obtain ⟨hnone, hcurrent, hcommit, hvotes⟩ := h.voting hphase
    refine ⟨hnone, fun e he => (hcurrent e he).imp id fun hle => hle.trans hlt.le, hcommit,
      fun e he b hvote => ?_⟩
    obtain ⟨hsome, high, hh, hle, hv⟩ | hrest := hvotes e he b hvote
    · obtain ⟨c, hc⟩ := Option.isSome_iff_exists.mp hsome
      obtain ⟨high', -, hh', -, -, -, hcv, -⟩ := hr.compatible hc
      obtain rfl := Option.some.inj (hh.symm.trans hh')
      exact .inl ⟨hsome, high, bump_high.mpr ⟨hh, (hvalue c hc).symm.trans hcv⟩, hle, hv⟩
    · exact .inr hrest
  decided := h.decided

section Accept

variable {q : SCPBallot Value} {c : Option (SCPBallot Value)} (hq : ¬ r.Prepared q)

include hq

theorem Backed.accept (h : r.Backed T log n) (hc : c = none ∨ c = r.commit)
    (haccepted : AcceptsPrepared T log n q) : (r.accept q c).Backed T log n := by
  obtain ⟨hphase, -, hhigh⟩ := prepare_phase hq
  have hcommit : ∀ b, (r.accept q c).commit = some b → r.commit = some b := by
    intro b hb
    obtain rfl | rfl := hc
    · cases hb
    · exact hb
  refine ⟨fun hp t ht => ?_, fun hp b hb => ?_, fun hp b b' hb hb' => ?_, fun hp b b' hb hb' => ?_⟩
  · obtain ht | rfl := Top.of_prepare hq ht
    · exact h.prepared (hphase.symm.trans hp) t ht
    · exact haccepted
  · exact h.high (hphase.symm.trans hp) b (hhigh.symm.trans hb)
  · exact h.accepted (hphase.symm.trans hp) b b' (hcommit b hb) (hhigh.symm.trans hb')
  · exact h.confirmed (hphase.symm.trans hp) b b' (hcommit b hb) (hhigh.symm.trans hb')

/-- Accepting a ballot as prepared: `c` is cleared only if `h` is aborted by what was accepted. -/
theorem Continues.accept (h : Continues False said r)
    (hc : c = r.commit ∨ c = none ∧ ∃ high t, r.high = some high ∧ (r.accept q c).Top t ∧ Conflicts high t) :
    Continues True said (r.accept q c) where
  voting hp := by
    obtain ⟨hphase, hcurrent', hhigh⟩ := prepare_phase hq
    obtain ⟨hnone, hcurrent, hcommit, hvotes⟩ := h.voting (hphase.symm.trans hp)
    refine ⟨hnone, fun e he => ?_, fun b hb => ?_, fun e he b hvote => ?_⟩
    · rw [show (r.accept q c).current = r.current from hcurrent']
      exact hcurrent e he
    · obtain rfl | ⟨rfl, -⟩ := hc
      · exact hcommit b hb
      · cases hb
    · obtain ⟨hsome, high, hh, hle, hv⟩ | haborted | ⟨hfalse, -⟩ := hvotes e he b hvote
      · obtain rfl | ⟨rfl, high', t, hh', ht, hconflicts⟩ := hc
        · exact .inl ⟨hsome, high, hhigh.trans hh, hle, hv⟩
        · obtain rfl := Option.some.inj (hh.symm.trans hh')
          exact .inr (.inr ⟨trivial, t, ht, hconflicts.of_le hle hv⟩)
      · exact .inr (.inl haborted)
      · exact hfalse.elim
  decided _ := .inl trivial

end Accept

theorem Backed.bumpIfNeeded (h : r.Backed T log n) (b : SCPBallot Value) :
    (r.bumpIfNeeded b).1.Backed T log n := by
  unfold Position.bumpIfNeeded
  split_ifs
  · exact h.bump b
  · exact h

theorem bumpIfNeeded_commit (r : Position Value) (b : SCPBallot Value) :
    (r.bumpIfNeeded b).1.commit = r.commit := by
  unfold Position.bumpIfNeeded
  split_ifs <;> rfl

theorem bumpIfNeeded_high {b : SCPBallot Value} (h : r.high = some b) :
    (r.bumpIfNeeded b).1.high = some b := by
  unfold Position.bumpIfNeeded
  split_ifs
  · exact bump_high.mpr ⟨h, rfl⟩
  · exact h

section ConfirmPrepared

variable {newC newH : SCPBallot Value} (hhigh : ∀ h, r.high = some h → h < newH)

include hhigh

theorem Backed.confirmPrepared (hphase : r.phase = .SCP_PHASE_PREPARE) (h : r.Backed T log n) (hconfirmed : ConfirmsPrepared T log n newH) :
    (r.confirmPrepared newC newH).1.Backed T log n := by
  by_cases hcurrent : ∀ b, r.current = some b → b.value = newH.value
  · rw [confirmPrepared_of_compatible hhigh hcurrent]
    refine Backed.bumpIfNeeded (r := { r with
      override := some newH.value, high := some newH,
      commit := if newC.counter ≠ 0 then some newC else r.commit })
      ⟨h.prepared, fun _ b hb => ?_, fun hp => ?_, fun hp => ?_⟩ newH
    · obtain rfl := Option.some.inj hb
      exact hconfirmed
    · exact nomatch hphase.symm.trans hp
    · exact nomatch hphase.symm.trans hp
  · push Not at hcurrent
    obtain ⟨b, hb, hv⟩ := hcurrent
    rw [confirmPrepared_of_incompatible hb hv]
    exact Backed.bumpIfNeeded (h.setOverride _) newH

/-- Where the current ballot leaves the value of `c` the position is broken. -/
theorem confirmPrepared_changes (hr : r.Good) (hgood : (r.confirmPrepared newC newH).1.Good) :
    ((r.confirmPrepared newC newH).1.commit = (if newC.counter ≠ 0 then some newC else r.commit) ∧
        (r.confirmPrepared newC newH).1.high = some newH ∧
        ∀ high, r.high = some high → high.value = newH.value) ∨
      (r.confirmPrepared newC newH).1.commit = r.commit ∧
        (r.commit = none ∨ (r.confirmPrepared newC newH).1.high = r.high) := by
  by_cases hcurrent : ∀ b, r.current = some b → b.value = newH.value
  · rw [confirmPrepared_of_compatible hhigh hcurrent]
    refine .inl ⟨bumpIfNeeded_commit _ newH, bumpIfNeeded_high rfl, fun high hh => ?_⟩
    obtain ⟨b, hb, -, hhv⟩ := hr.high high hh
    exact hhv.trans (hcurrent b hb)
  · push Not at hcurrent
    obtain ⟨b, hb, hv⟩ := hcurrent
    rw [confirmPrepared_of_incompatible hb hv] at hgood ⊢
    refine .inr ⟨bumpIfNeeded_commit _ newH, ?_⟩
    rcases lt_or_ge (ptr r.current) (ptr (some newH)) with hlt | hle
    · rw [bumpIfNeeded_of_lt (r := { r with override := some newH.value }) hlt] at hgood
      by_contra hne
      push Not at hne
      obtain ⟨c, hc⟩ := Option.ne_none_iff_exists'.mp hne.1
      obtain ⟨-, high, hh, -⟩ := hgood.commit c hc
      obtain ⟨hh, hhv⟩ := bump_high.mp hh
      obtain ⟨b', hb', -, hbv⟩ := hr.high high hh
      obtain rfl := Option.some.inj (hb.symm.trans hb')
      exact hv (hbv.symm.trans hhv.symm)
    · obtain ⟨-, -, -, heq⟩ := bumpIfNeeded_of_le (r := { r with override := some newH.value }) hle
      rw [heq]
      exact .inr rfl

/-- Confirming a ballot as prepared, with a new `c` that is not below the current ballot. -/
theorem Continues.confirmPrepared (hphase : r.phase = .SCP_PHASE_PREPARE) (h : Continues False said r) (hr : r.Good)
    (hnewC : newC.counter ≠ 0 → ∀ b, r.current = some b → b ≤ newC)
    (hgood : (r.confirmPrepared newC newH).1.Good) :
    Continues True said (r.confirmPrepared newC newH).1 := by
  obtain ⟨hnone, hcurrent, hcommit, hvotes⟩ := h.voting hphase
  have hadvances : r.Advances (r.confirmPrepared newC newH).1 := Advances.confirmPrepared hphase hhigh
  have hp := (confirmPrepared_same r newC newH).1
  have hchanges := confirmPrepared_changes hhigh hr hgood
  refine ⟨fun hp' => ⟨hnone, fun e he => ?_, fun c hc e he hne => ?_, fun e he b hvote => ?_⟩,
    fun hne => absurd (hp.trans hphase) hne⟩
  · exact (hcurrent e he).imp id fun hle => hle.trans (hadvances.current hp.symm)
  · obtain ⟨hcommit', -, -⟩ | ⟨hcommit', -⟩ := hchanges
    · rw [hcommit'] at hc
      split_ifs at hc with h0
      · obtain rfl := Option.some.inj hc
        obtain hzero | hle := hcurrent e he
        · refine ((SCPBallot.lt_iff _ _).mpr (.inl ?_)).le
          rw [hzero]
          exact pos_iff_ne_zero.mpr h0
        · cases hb : r.current with
          | none =>
            rw [hb] at hle
            exact absurd hle (not_le_of_gt (WithBot.bot_lt_coe _))
          | some b =>
            rw [hb] at hle
            exact (WithBot.coe_le_coe.mp hle).trans (hnewC h0 b hb)
      · exact hcommit c hc e he hne
    · exact hcommit c (hcommit'.symm.trans hc) e he hne
  · obtain ⟨hsome, high, hh, hle, hv⟩ | haborted | ⟨hfalse, -⟩ := hvotes e he b hvote
    · obtain ⟨hcommit', hhigh', hvalue⟩ | ⟨hcommit', hnone | hhigh'⟩ := hchanges
      · refine .inl ⟨?_, newH, hhigh', hle.trans (hhigh high hh).le, hv.trans (hvalue high hh)⟩
        rw [hcommit']
        split_ifs
        · rfl
        · exact hsome
      · simp [hnone] at hsome
      · exact .inl ⟨hcommit' ▸ hsome, high, hhigh'.trans hh, hle, hv⟩
    · exact .inr (.inl haborted)
    · exact hfalse.elim

end ConfirmPrepared

/-! A commit that is accepted ends the PREPARE phase; so does one that is confirmed. -/

section Commit

variable {c h : SCPBallot Value}

theorem acceptCommit_commit (r : Position Value) (c h : SCPBallot Value) :
    (r.acceptCommit c h).commit = some c := by
  unfold Position.acceptCommit
  rw [bumpIfNeeded_commit]
  unfold Position.enterConfirm
  split_ifs <;> rfl

theorem acceptCommit_high (r : Position Value) (c h : SCPBallot Value) :
    (r.acceptCommit c h).high = some h :=
  bumpIfNeeded_high (enterConfirm_high rfl)

theorem Backed.acceptCommit (hphase : r.phase ≠ .SCP_PHASE_EXTERNALIZE)
    (haccepted : AcceptsCommit T log n c (c.counter, h.counter)) :
    (r.acceptCommit c h).Backed T log n := by
  have hconfirm := acceptCommit_phase c h hphase
  refine ⟨fun hp => ?_, fun hp => ?_, fun _ c' h' hc' hh' => ?_, fun hp => ?_⟩
  · exact nomatch hp.symm.trans hconfirm
  · exact nomatch hp.symm.trans hconfirm
  · obtain rfl := Option.some.inj ((acceptCommit_commit r c h).symm.trans hc')
    obtain rfl := Option.some.inj ((acceptCommit_high r c h).symm.trans hh')
    exact haccepted
  · exact nomatch hp.symm.trans hconfirm

theorem Backed.confirmCommit (hconfirmed : ConfirmsCommit T log n c (c.counter, h.counter)) :
    (r.confirmCommit c h).Backed T log n := by
  refine ⟨fun hp => ?_, fun hp => ?_, fun hp => ?_, fun _ c' h' hc' hh' => ?_⟩
  · cases hp
  · cases hp
  · cases hp
  · have hcommit : (r.confirmCommit c h).commit = some c := bumpIfNeeded_commit _ h
    have hhigh : (r.confirmCommit c h).high = some h := bumpIfNeeded_high rfl
    obtain rfl := Option.some.inj (hcommit.symm.trans hc')
    obtain rfl := Option.some.inj (hhigh.symm.trans hh')
    exact hconfirmed

end Commit

end Moves

end Position

end ZaggCore.Scp
