import ZaggCore.Scp.AttemptSpecs

/-! # Settled states

In a settled state the node has recorded what it says at its position. What the attempts find there is
what the position and the statements of the other nodes allow. -/

namespace ZaggCore.Scp.BallotProtocol
open Foundations
set_option autoImplicit false
set_option maxHeartbeats 250000

variable {X Value : Type}

theorem getQuorumSetFromStatement_congr {d : BallotDriver X Value} {x x' : X}
    (h : d.getQSet x = d.getQSet x') :
    getQuorumSetFromStatement d x = getQuorumSetFromStatement d x' := by
  funext st
  unfold getQuorumSetFromStatement
  rw [h]

variable [LinearOrder Value] [Inhabited Value]

/-- Only the node's own statement was recorded since, and the last of it is that of its position. -/
structure Settled (d : BallotDriver X Value) (w : Peers X Value) (level : ℕ)
    (s : BallotProtocol X Value) : Prop where
  level : s.mCurrentMessageLevel = level
  qsets : s.mPhase ≠ .SCP_PHASE_EXTERNALIZE → d.getQSet s.outside = d.getQSet w.outside
  latest : ∃ env, s.mLatestEnvelopes = LocalNode.insertOrAssign w.latest env ∧
    env.statement = statementAt d s.position

section Settled

variable {d : BallotDriver X Value} {w : Peers X Value} {level : ℕ} {s : BallotProtocol X Value}
  (h : Settled d w level s)

include h

omit [LinearOrder Value] in
theorem Settled.statements :
    s.mLatestEnvelopes.map SCPEnvelope.statement = (w.heard d s.position).map SCPEnvelope.statement := by
  obtain ⟨env, hlatest, hown⟩ := h.latest
  rw [hlatest, Peers.heard, LocalNode.map_insertOrAssign, LocalNode.map_insertOrAssign, hown]

omit [LinearOrder Value] in
theorem Settled.exists_envelope_iff (p : SCPStatement (BallotPledges Value) → Prop) :
    (∃ e ∈ s.mLatestEnvelopes, p e.statement) ↔ ∃ e ∈ w.heard d s.position, p e.statement := by
  have hmap : ∀ l : List (SCPEnvelope (BallotPledges Value)),
      (∃ e ∈ l, p e.statement) ↔ ∃ st ∈ l.map SCPEnvelope.statement, p st := by simp
  rw [hmap, hmap, h.statements]

theorem Settled.mem_getPrepareCandidates_iff (hint : BallotPledges Value) (x : SCPBallot Value) :
    x ∈ s.getPrepareCandidates hint ↔ w.Candidate d hint s.position x := by
  rw [mem_getPrepareCandidates]
  refine exists_congr fun t => and_congr_right fun _ => ?_
  rw [h.exists_envelope_iff fun st => x ∈ candidatesOf t st.pledges]
  constructor
  · rintro ⟨e, he, hx⟩
    obtain rfl | ⟨he, hne⟩ := Peers.mem_heard.mp he
    · exact .inr hx
    · exact .inl ⟨e, he, hne, hx⟩
  · rintro (⟨e, he, hne, hx⟩ | hx)
    · exact ⟨e, Peers.mem_heard.mpr (.inr ⟨he, hne⟩), hx⟩
    · exact ⟨_, Peers.mem_heard.mpr (.inl rfl), hx⟩

theorem Settled.mem_getCommitBoundaries_iff (ballot : SCPBallot Value) (n : Uint32) :
    n ∈ s.getCommitBoundariesFromStatements ballot ↔
      ∃ e ∈ w.heard d s.position, n ∈ commitBoundaries ballot e.statement.pledges := by
  unfold getCommitBoundariesFromStatements
  rw [mem_foldr_insertCounter, List.mem_flatMap]
  exact h.exists_envelope_iff fun st => n ∈ commitBoundaries ballot st.pledges

variable (hphase : s.mPhase ≠ .SCP_PHASE_EXTERNALIZE)

include hphase

omit [LinearOrder Value] in
theorem Settled.federatedAccept_iff (voted accepted : BallotPledges Value → Bool) :
    s.federatedAccept d voted accepted = true ↔ w.Accepts d s.position voted accepted := by
  unfold federatedAccept Peers.Accepts
  rw [getQuorumSetFromStatement_congr (h.qsets hphase), Slot.federatedAccept_congr h.statements]

omit [LinearOrder Value] in
theorem Settled.federatedRatify_iff (voted : BallotPledges Value → Bool) :
    s.federatedRatify d voted = true ↔ w.Ratifies d s.position voted := by
  unfold federatedRatify Peers.Ratifies
  rw [getQuorumSetFromStatement_congr (h.qsets hphase), Slot.federatedRatify_congr h.statements]

/-- What `attemptPreparedAccept` takes with the node's own statement as the hint. -/
theorem Settled.preparable_iff (x : SCPBallot Value) :
    x ∈ s.getPrepareCandidates (pledgesAt d s.position) ∧ Takes d s x ↔
      w.Preparable d s.position x := by
  rw [h.mem_getPrepareCandidates_iff]
  constructor
  · rintro ⟨hcandidate, hraises, hun, haccepted⟩
    exact ⟨hcandidate, hraises, hun, (h.federatedAccept_iff hphase _ _).mp haccepted⟩
  · rintro ⟨hcandidate, hraises, hun, haccepted⟩
    exact ⟨hcandidate, hraises, hun, (h.federatedAccept_iff hphase _ _).mpr haccepted⟩

theorem Settled.raisable_iff (hint : BallotPledges Value) (x : SCPBallot Value) :
    x ∈ s.getPrepareCandidates hint ∧ Confirms d s x ↔ w.Raisable d hint s.position x := by
  rw [h.mem_getPrepareCandidates_iff]
  constructor
  · rintro ⟨hcandidate, habove, hratified⟩
    exact ⟨hcandidate, habove, (h.federatedRatify_iff hphase _).mp hratified⟩
  · rintro ⟨hcandidate, habove, hratified⟩
    exact ⟨hcandidate, habove, (h.federatedRatify_iff hphase _).mpr hratified⟩

/-- The high end of the interval that `attemptAcceptCommit` finds. -/
theorem Settled.committable_isGreatest {ballot high : SCPBallot Value} {lo hi : Uint32}
    (hinterval : AcceptedInterval d s ballot lo hi) (hv : ballot.value = high.value)
    (habove : high.counter < hi) : IsGreatest {n | w.Committable d s.position high n} hi := by
  have hpred : ∀ n, s.federatedAccept d (votesToCommit ballot (n, n)) (commitPredicate ballot (n, n)) =
      true ↔ w.Accepts d s.position (votesToCommit high (n, n)) (commitPredicate high (n, n)) := by
    intro n
    rw [h.federatedAccept_iff hphase, votesToCommit_congr hv, commitPredicate_congr hv]
  have hboundary : ∀ n, n ∈ s.getCommitBoundariesFromStatements ballot ↔
      ∃ e ∈ w.heard d s.position, n ∈ commitBoundaries high e.statement.pledges := by
    intro n
    rw [h.mem_getCommitBoundaries_iff]
    exact exists_congr fun e => and_congr_right fun _ => by rw [commitBoundaries_congr hv]
  refine ⟨⟨(hboundary hi).mp hinterval.hi_mem, habove, (hpred hi).mp hinterval.hi_pred⟩, ?_⟩
  intro n hn
  exact hinterval.hi_max n ((hboundary n).mpr hn.boundary) ((hpred n).mpr hn.accepted)

end Settled

end ZaggCore.Scp.BallotProtocol
