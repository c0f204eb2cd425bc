import ZaggCore.Scp.AdvanceFrames

/-! # The attempts of `advanceSlot`

Each attempt either leaves the ballots as they are or moves to a position from which it emits. What holds
after the emission is a parameter. -/

namespace ZaggCore.Scp.BallotProtocol
open Foundations
set_option autoImplicit false
set_option maxHeartbeats 250000

variable {X Value : Type} [LinearOrder Value]

/-! ## Moves -/

/-- Since `s₀` only the position changed. -/
structure Moved (d : BallotDriver X Value) (s₀ : BallotProtocol X Value) (r : Position Value)
    (s : BallotProtocol X Value) : Prop where
  location : At r s₀.messages s
  frame : Frame d True s₀.mCurrentMessageLevel (d.getQSet s₀.outside) s

section Moved

variable {α : Type} {d : BallotDriver X Value} {enough : Prop} {s₀ s : BallotProtocol X Value}
  {r ρ : Position Value} {x : Ballot X Value α}

omit [LinearOrder Value] in
theorem Moved.of_eq (s₀ s : BallotProtocol X Value) (h : s = s₀) : Moved d s₀ s₀.position s := by
  subst h
  exact ⟨⟨rfl, rfl⟩, rfl, fun _ => rfl⟩

omit [LinearOrder Value] in
theorem Framed.moves {r' : α → Position Value} {p : α → Prop} (hframed : Framed d enough True x)
    (hx : Partial (At r s₀.messages) x fun a s => At (r' a) s₀.messages s ∧ p a) :
    Triple (Moved d s₀ r) x (fun a s => Moved d s₀ (r' a) s ∧ p a) fun e _ => Tolerated enough e :=
  (((hx.and (hframed s₀.mCurrentMessageLevel (d.getQSet s₀.outside))).pre
    fun _ h => ⟨h.location, h.frame⟩).post fun _ _ h => ⟨⟨h.1.1, h.2⟩, h.1.2⟩).error fun _ _ h => h.2

omit [LinearOrder Value] in
theorem Framed.stays (hframed : Framed d enough True x) (hx : Neutral x) (r : Position Value) :
    Triple (Moved d s₀ r) x (fun _ => Moved d s₀ r) fun e _ => Tolerated enough e :=
  (hframed.moves (p := fun _ => True) ((hx.returns r s₀.messages).post fun _ _ h => ⟨h, trivial⟩)).post
    fun _ _ h => h.1

theorem Sound.moved (hs : Sound d ρ s₀) (hr : r.Good ∧ s₀.position.Advances r ∨ r.Broken)
    (h : Moved d s₀ r s) : Pending d ρ true s := by
  obtain ⟨hgood, hadvances⟩ | hbroken := hr
  · exact .inl (hs.move h.location hgood hadvances)
  · refine .inr ⟨rfl, ?_, s₀.position, ?_⟩
    · rw [h.location.1]
      exact hbroken
    · rw [h.location.2]
      exact hs.sent

end Moved

/-! ## Prepared ballots -/

section Prepared

variable {d : BallotDriver X Value} {enough : Prop} {s s₀ : BallotProtocol X Value}
  {ρ : Position Value} {q : SCPBallot Value}

theorem alreadyPrepared_iff (s : BallotProtocol X Value) (x : SCPBallot Value) :
    s.alreadyPrepared x = true ↔ s.position.Prepared x := by
  unfold alreadyPrepared Position.Prepared
  rw [Bool.or_eq_true, Option.any_eq_true, Option.any_eq_true]
  simp only [decide_eq_true_eq, compareBallots_le, areBallotsLessAndCompatible_iff]
  exact Iff.rfl

/-- In the CONFIRM phase the ballot raises `p`. -/
def Raises (s : BallotProtocol X Value) (x : SCPBallot Value) : Prop :=
  s.mPhase = .SCP_PHASE_CONFIRM → ∃ p, s.mPrepared = some p ∧ p ≤ x ∧ p.value = x.value

/-- The loop of `attemptPreparedAccept` stops at the ballot. -/
structure Takes (d : BallotDriver X Value) (s : BallotProtocol X Value) (x : SCPBallot Value) : Prop where
  raises : s.Raises x
  unprepared : ¬ s.position.Prepared x
  accepted : s.federatedAccept d (votesToPrepare x) (hasPreparedBallot x) = true

theorem triple_cannotRaisePrepared (x : SCPBallot Value) :
    Triple (· = s) (cannotRaisePrepared d x) (fun skip s' => s' = s ∧ (skip = true ↔ ¬ s.Raises x))
      fun e _ => Tolerated enough e := by
  refine Triple.get_bind fun s' hs' => ?_
  subst hs'
  refine Triple.ite (fun hphase => ?_) fun hphase => ?_
  · cases hp : s'.mPrepared with
    | none => exact Triple.throw fun _ _ => tolerated_nullDereference
    | some p =>
      refine Triple.bind (Q := fun a s => s = s' ∧ a = p) (Triple.pure fun _ h => ⟨h, rfl⟩) fun a => ?_
      refine Triple.assume fun ha => ?_
      subst ha
      have hraises : s'.Raises x ↔ areBallotsLessAndCompatible a x = true := by
        rw [areBallotsLessAndCompatible_iff]
        constructor
        · intro h
          obtain ⟨p, hp', hle⟩ := h hphase
          exact Option.some.inj (hp.symm.trans hp') ▸ hle
        · exact fun h _ => ⟨a, hp, h⟩
      refine Triple.ite (fun hc => Triple.pure fun _ h => ⟨h, ?_⟩) fun hc => ?_
      · rw [hraises]
        simpa using hc
      · refine Triple.bind (Q := fun _ => (· = s')) ?_ fun _ => Triple.pure fun _ h => ⟨h, ?_⟩
        · refine Triple.ite (fun _ => Triple.pure fun _ h => h) fun _ => ?_
          cases s'.mCommit with
          | none => exact Triple.throw fun _ _ => tolerated_nullDereference
          | some c =>
            dsimp only [Option.map_some]
            cases areBallotsCompatible c x with
            | true => exact Triple.pure fun _ h => h
            | false => exact Triple.throw fun _ _ => ⟨by simp, fun _ => by simp⟩
        · rw [hraises]
          simpa using hc
  · refine Triple.pure fun _ h => ⟨h, ?_⟩
    exact iff_of_false (by decide) (not_not.mpr fun h => absurd h hphase)

theorem triple_clearCommit_at {r : Position Value} {m : Messages Value} :
    Partial (At r m) (clearCommit d) fun cleared s =>
      At { r with commit := if cleared then none else r.commit } m s ∧ True := by
  refine Triple.get_bind fun s hs => Triple.pre (P := At r m) ?_ fun _ h => h ▸ hs
  refine Triple.ite (fun _ => ?_) fun _ => Triple.pure fun _ h => ⟨h, trivial⟩
  refine ((neutral_dbgAssert d _ _).returns r m).bind fun _ => ?_
  refine Triple.bind (Triple.modify fun s hs => ?_) fun _ => Triple.pure fun _ h => ⟨h, trivial⟩
  exact ⟨congrArg (fun r : Position Value => { r with commit := none }) hs.1, hs.2⟩

variable [Inhabited Value]
  {process : SCPEnvelope (BallotPledges Value) → Bool → Ballot X Value EnvelopeState}
  {Q : BallotProtocol X Value → Prop}

theorem spec_setPreparedAccept (hd : KeepsQuorumSets d) (hs : Sound d ρ s)
    (hq : ¬ s.position.Prepared q)
    (hemit : ∀ c, c = none ∨ c = s.position.commit →
      Triple (fun s' => Moved d s (s.position.accept q c) s' ∧ Pending d ρ true s')
        (emitCurrentStateStatement d process) (fun _ => Q) fun e _ => Tolerated enough e) :
    Triple (· = s) (setPreparedAccept d process q) (fun _ => Q) fun e _ => Tolerated enough e := by
  have hprepare : Triple (Moved d s s.position) (setPrepared q : Ballot X Value Bool)
      (fun didWork s' => Moved d s (s.position.prepare q).1 s' ∧ didWork = true)
      fun e _ => Tolerated enough e := by
    refine (framed_setPrepared q).moves ((triple_setPrepared q).post fun _ _ h => ⟨h.1, ?_⟩)
    rw [h.2, Position.prepare_worked hq]
  refine Triple.bind (hprepare.pre (Moved.of_eq s)) fun prepared => ?_
  refine Triple.assume fun hworked => ?_
  subst hworked
  refine Triple.bind (framed_clearCommit.moves triple_clearCommit_at) fun cleared => ?_
  refine Triple.bind (Q := fun _ => Q) ?_ fun _ => Triple.pure fun _ h => h
  refine Triple.onlyIf (fun _ => ?_) fun h => absurd rfl h
  have hc : (if cleared then none else (s.position.prepare q).1.commit) = none ∨
      (if cleared then none else (s.position.prepare q).1.commit) = s.position.commit := by
    split_ifs
    · exact .inl rfl
    · exact .inr (Position.prepare_commit _ q)
  refine Triple.bind (Q := fun _ => Moved d s (s.position.accept q
    (if cleared then none else (s.position.prepare q).1.commit))) ?_ fun _ => ?_
  · exact ((framed_call fun _ x _ x' => hd.acceptedBallotPrepared q x x').stays (neutral_call _) _).pre
      fun _ h => h.1
  · exact (hemit _ hc).pre fun s' hs' => ⟨hs', hs.moved (hs.good.accept hq hc) hs'⟩

theorem spec_acceptPrepared {candidates : List (SCPBallot Value)}
    (hsorted : candidates.Pairwise (· > ·)) (hstay : Q s)
    (hwork : ∀ q, IsGreatest {x | x ∈ candidates ∧ Takes d s x} q →
      Triple (· = s) (setPreparedAccept d process q) (fun _ => Q) fun e _ => Tolerated enough e) :
    Triple (· = s) (acceptPrepared d process candidates) (fun _ => Q) fun e _ => Tolerated enough e := by
  induction candidates with
  | nil => exact Triple.pure fun s' hs' => hs' ▸ hstay
  | cons x candidates ih =>
    obtain ⟨hlt, hsorted⟩ := List.pairwise_cons.mp hsorted
    -- past a ballot that is not taken the loop is as it would be without it
    have hrest : ¬ Takes d s x → Triple (· = s) (acceptPrepared d process candidates) (fun _ => Q)
        fun e _ => Tolerated enough e := by
      intro hx
      refine ih hsorted fun q hq => hwork q ?_
      have hset : {y | y ∈ x :: candidates ∧ Takes d s y} = {y | y ∈ candidates ∧ Takes d s y} := by
        ext y
        constructor
        · rintro ⟨hy, htakes⟩
          obtain rfl | hy := List.mem_cons.mp hy
          · exact absurd htakes hx
          · exact ⟨hy, htakes⟩
        · rintro ⟨hy, htakes⟩
          exact ⟨List.mem_cons_of_mem _ hy, htakes⟩
      rw [hset]
      exact hq
    refine (triple_cannotRaisePrepared x).bind fun skip => Triple.assume fun hskip => ?_
    refine Triple.get_bind fun s' hs' => ?_
    subst hs'
    refine Triple.ite (fun hc => ?_) fun hc => Triple.ite (fun haccept => ?_) fun haccept => ?_
    · refine hrest fun htakes => hc.elim (fun h => hskip.mp h htakes.raises) fun h => ?_
      exact htakes.unprepared ((alreadyPrepared_iff s' x).mp h)
    · obtain ⟨hraises, hun⟩ := not_or.mp hc
      rw [alreadyPrepared_iff] at hun
      have htakes : Takes d s' x := ⟨not_not.mp fun h => hraises (hskip.mpr h), hun, haccept⟩
      refine hwork x ⟨⟨List.mem_cons_self, htakes⟩, fun y hy => ?_⟩
      obtain rfl | hy := List.mem_cons.mp hy.1
      · exact le_rfl
      · exact (hlt y hy).le
    · exact hrest fun htakes => haccept htakes.accepted

theorem spec_attemptPreparedAccept (hd : KeepsQuorumSets d) (hs : Sound d ρ s)
    (hint : BallotPledges Value) (hstay : Q s)
    (hemit : s.mPhase ≠ .SCP_PHASE_EXTERNALIZE → ∀ q c,
      IsGreatest {x | x ∈ s.getPrepareCandidates hint ∧ Takes d s x} q →
      (c = none ∨ c = s.position.commit) →
      Triple (fun s' => Moved d s (s.position.accept q c) s' ∧ Pending d ρ true s')
        (emitCurrentStateStatement d process) (fun _ => Q) fun e _ => Tolerated enough e) :
    Triple (· = s) (attemptPreparedAccept d process hint) (fun _ => Q)
      fun e _ => Tolerated enough e := by
  refine Triple.get_bind fun s' hs' => ?_
  subst hs'
  refine Triple.ite (fun _ => Triple.pure fun s'' hs'' => hs'' ▸ hstay) fun hphase => ?_
  refine spec_acceptPrepared (sorted_getPrepareCandidates _ _) hstay fun q hq => ?_
  exact spec_setPreparedAccept hd hs hq.1.2.unprepared fun c hc => hemit hphase q c hq hc

end Prepared

/-! ## Confirmed prepared ballots -/

section Confirmed

variable {d : BallotDriver X Value} {enough : Prop} {s : BallotProtocol X Value} {ρ : Position Value}
  {newC newH : SCPBallot Value}

/-- The ballot is above `h` and confirmed as prepared. -/
structure Confirms (d : BallotDriver X Value) (s : BallotProtocol X Value) (x : SCPBallot Value) :
    Prop where
  above : ∀ h, s.mHighBallot = some h → h < x
  ratified : s.federatedRatify d (hasPreparedBallot x) = true

/-- The first loop of `attemptPreparedConfirmed` finds the highest ballot that is confirmed. -/
theorem findNewH_isGreatest {candidates rest : List (SCPBallot Value)}
    (hsorted : candidates.Pairwise (· > ·))
    (hfind : s.findNewH d candidates = some (newH, rest)) :
    IsGreatest {x | x ∈ candidates ∧ Confirms d s x} newH := by
  induction candidates with
  | nil => cases hfind
  | cons x candidates ih =>
    obtain ⟨hlt, hsorted⟩ := List.pairwise_cons.mp hsorted
    rw [findNewH] at hfind
    split_ifs at hfind with hhigh hratified
    · obtain rfl : x = newH := congrArg Prod.fst (Option.some.inj hfind)
      have habove : ∀ h, s.mHighBallot = some h → h < x := by
        intro h hh
        rw [hh] at hhigh
        simpa [compareBallots_ge] using hhigh
      refine ⟨⟨List.mem_cons_self, habove, hratified⟩, fun y hy => ?_⟩
      obtain rfl | hy := List.mem_cons.mp hy.1
      · exact le_rfl
      · exact (hlt y hy).le
    · obtain ⟨⟨hmem, hconfirms⟩, hmax⟩ := ih hsorted hfind
      refine ⟨⟨List.mem_cons_of_mem _ hmem, hconfirms⟩, fun y hy => ?_⟩
      obtain rfl | hmem' := List.mem_cons.mp hy.1
      · exact absurd hy.2.ratified hratified
      · exact hmax ⟨hmem', hy.2⟩

variable [Inhabited Value]
  {process : SCPEnvelope (BallotPledges Value) → Bool → Ballot X Value EnvelopeState}
  {Q : BallotProtocol X Value → Prop}

theorem spec_setPreparedConfirmed (hd : KeepsQuorumSets d) (hs : Sound d ρ s)
    (hphase : s.mPhase = .SCP_PHASE_PREPARE) (hhigh : ∀ h, s.mHighBallot = some h → h < newH)
    (hnewC : newC.counter ≠ 0 → newC ≤ newH ∧ newC.value = newH.value)
    (hstay : (s.position.confirmPrepared newC newH).2 = false →
      ∀ s', Moved d s (s.position.confirmPrepared newC newH).1 s' → Q s')
    (hemit : (s.position.confirmPrepared newC newH).2 = true →
      Triple (fun s' => Moved d s (s.position.confirmPrepared newC newH).1 s' ∧ Pending d ρ true s')
        (emitCurrentStateStatement d process) (fun _ => Q) fun e _ => Tolerated enough e) :
    Triple (· = s) (setPreparedConfirmed d process newC newH) (fun _ => Q)
      fun e _ => Tolerated enough e := by
  refine Triple.bind (Q := fun _ => Moved d s { s.position with override := some newH.value })
    (Triple.modify fun s' hs' => ?_) fun _ => ?_
  · subst hs'
    exact ⟨⟨rfl, rfl⟩, rfl, fun _ => rfl⟩
  refine Triple.bind ((framed_raiseHigh hd newC newH).moves (triple_raiseHigh newC newH)) fun raised => ?_
  refine Triple.assume fun hraised => ?_
  refine Triple.bind ((framed_updateCurrentIfNeeded hd newH).moves (triple_updateCurrentIfNeeded d newH))
    fun bumped => Triple.assume fun hbumped => ?_
  have hwork : (bumped || raised) = (s.position.confirmPrepared newC newH).2 := by
    rw [hbumped, hraised]
    rfl
  refine Triple.bind (Q := fun _ => Q) ?_ fun _ => Triple.pure fun _ h => h
  refine Triple.onlyIf (fun htrue => ?_) fun hfalse s' hs' => ?_
  · refine (hemit (hwork.symm.trans htrue)).pre fun s' hs' => ⟨hs', hs.moved ?_ hs'⟩
    obtain hgood | ⟨hbroken, -⟩ := hs.good.confirmPrepared hphase hhigh hnewC
    · exact .inl ⟨hgood, .confirmPrepared hphase hhigh⟩
    · exact .inr hbroken
  · exact hstay (hwork.symm.trans (Bool.eq_false_iff.mpr hfalse)) s' hs'

theorem spec_attemptPreparedConfirmed (hd : KeepsQuorumSets d) (hs : Sound d ρ s)
    (hint : BallotPledges Value) (hstay : ∀ o s', Moved d s { s.position with override := o } s' → Q s')
    (hemit : s.mPhase = .SCP_PHASE_PREPARE → ∀ newC newH,
      IsGreatest {x | x ∈ s.getPrepareCandidates hint ∧ Confirms d s x} newH →
      (s.position.confirmPrepared newC newH).2 = true →
      Triple (fun s' => Moved d s (s.position.confirmPrepared newC newH).1 s' ∧ Pending d ρ true s')
        (emitCurrentStateStatement d process) (fun _ => Q) fun e _ => Tolerated enough e) :
    Triple (· = s) (attemptPreparedConfirmed d process hint) (fun _ => Q)
      fun e _ => Tolerated enough e := by
  have hsame : ∀ s', s' = s → Q s' := fun s' hs' => hstay s.mValueOverride s' (Moved.of_eq s s' hs')
  refine Triple.get_bind fun s' hs' => ?_
  subst hs'
  refine Triple.ite (fun _ => Triple.pure hsame) fun hc => ?_
  push Not at hc
  cases hfind : s'.findNewH d (s'.getPrepareCandidates hint) with
  | none => exact Triple.pure hsame
  | some found =>
    obtain ⟨newH, candidates⟩ := found
    have hgreatest := findNewH_isGreatest (sorted_getPrepareCandidates s' hint) hfind
    refine spec_setPreparedConfirmed hd hs hc.1 hgreatest.1.2.above ?_ (fun hfalse s'' hs'' => ?_)
      (hemit hc.1 _ newH hgreatest)
    · split_ifs
      · exact findNewC_le s' _ newH _ candidates fun h0 => absurd rfl h0
      · exact fun h0 => absurd rfl h0
    · obtain ⟨-, htrue, -⟩ | ⟨b, -, -, htrue, -⟩ | heq :=
        Position.confirmPrepared_cases (r := s'.position) _ hgreatest.1.2.above
      · cases hfalse.symm.trans htrue
      · cases hfalse.symm.trans htrue
      · rw [heq] at hs''
        exact hstay _ s'' hs''

end Confirmed

/-! ## Commits -/

section Commit

variable {d : BallotDriver X Value} {enough : Prop} {s : BallotProtocol X Value} {ρ : Position Value}
  {c h : SCPBallot Value} [Inhabited Value]
  {process : SCPEnvelope (BallotPledges Value) → Bool → Ballot X Value EnvelopeState}
  {Q Q' : BallotProtocol X Value → Prop}

theorem spec_setAcceptCommit (hd : KeepsQuorumSets d) (hs : Sound d ρ s) (hc : c.counter ≠ 0)
    (hch : c ≤ h) (hcv : c.value = h.value)
    (hhigh : s.mPhase ≠ .SCP_PHASE_PREPARE → ∀ h', s.mHighBallot = some h' → h'.value = h.value)
    (hstay : ∀ o s', Moved d s { s.position with override := o } s' → Q s')
    (hemit : Triple (fun s' => Moved d s (s.position.acceptCommit c h) s' ∧ Pending d ρ true s')
      (emitCurrentStateStatement d process) (fun _ => Q) fun e _ => Tolerated enough e) :
    Triple (· = s) (setAcceptCommit d process c h) (fun _ => Q) fun e _ => Tolerated enough e := by
  refine Triple.bind (Q := fun _ => Moved d s { s.position with override := some h.value })
    (Triple.modify fun s' hs' => ?_) fun _ => ?_
  · subst hs'
    exact ⟨⟨rfl, rfl⟩, rfl, fun _ => rfl⟩
  refine Triple.bind ((framed_assignCommit c h).moves (triple_assignCommit c h)) fun assigned => ?_
  refine Triple.assume fun hassigned => ?_
  refine Triple.bind ((framed_enterConfirm hd h).moves (triple_enterConfirm h)) fun entered => ?_
  refine Triple.assume fun hentered => ?_
  refine Triple.bind (Q := fun _ => Q) ?_ fun _ => Triple.pure fun _ h => h
  refine Triple.onlyIf (fun _ => ?_) fun hwork s' hs' => ?_
  · refine Triple.get_bind fun s₁ hs₁ => ?_
    have hhigh₁ : s₁.mHighBallot = some h :=
      (congrArg Position.high hs₁.location.1).trans (enterConfirm_high rfl)
    rw [hhigh₁]
    refine Triple.bind (Q := fun a s' => s' = s₁ ∧ a = h) (Triple.pure fun _ h => ⟨h, rfl⟩) fun high => ?_
    refine Triple.assume fun hderef => ?_
    subst hderef
    refine Triple.pre (P := Moved d s _) ?_ fun s' hs' => hs' ▸ hs₁
    refine Triple.bind ((framed_updateCurrentIfNeeded hd high).moves
      (triple_updateCurrentIfNeeded d high)) fun _ => ?_
    refine Triple.bind (Q := fun _ => Moved d s (s.position.acceptCommit c high)) ?_ fun _ => ?_
    · exact ((framed_call fun _ x _ x' => hd.acceptedCommit high x x').stays (neutral_call _) _).pre
        fun _ h => h.1
    · refine hemit.pre fun s' hs' => ⟨hs', hs.moved (.inl ?_) hs'⟩
      exact ⟨hs.good.acceptCommit hc hch hcv hhigh, .acceptCommit hs.good hcv hhigh⟩
  · obtain ⟨hnone, hnot⟩ : assigned = false ∧ entered = false := by simpa using hwork
    obtain ⟨hcommit, hhigh⟩ := hassigned hnone
    rw [enterConfirm_of_false (hentered.symm.trans hnot), ← hcommit, ← hhigh] at hs'
    exact hstay _ s' hs'

/-- The interval that was found for a ballot of the value. -/
def AcceptedInterval (d : BallotDriver X Value) (s : BallotProtocol X Value) (ballot : SCPBallot Value)
    (lo hi : Uint32) : Prop :=
  Extended (fun cur => s.federatedAccept d (votesToCommit ballot cur) (commitPredicate ballot cur))
    (s.getCommitBoundariesFromStatements ballot) lo hi

theorem spec_attemptAcceptCommit (hd : KeepsQuorumSets d) (hs : Sound d ρ s)
    (hint : BallotPledges Value) (hstay : ∀ o s', Moved d s { s.position with override := o } s' → Q s')
    (hemit : s.mPhase ≠ .SCP_PHASE_EXTERNALIZE → ∀ (ballot : SCPBallot Value) lo hi,
      AcceptedInterval d s ballot lo hi →
      (s.mPhase = .SCP_PHASE_CONFIRM → ∃ h, s.mHighBallot = some h ∧ ballot.value = h.value ∧
        h.counter < hi) →
      Triple (fun s' => Moved d s (s.position.acceptCommit ⟨lo, ballot.value⟩ ⟨hi, ballot.value⟩) s' ∧
          Pending d ρ true s')
        (emitCurrentStateStatement d process) (fun _ => Q) fun e _ => Tolerated enough e) :
    Triple (· = s) (attemptAcceptCommit d process hint) (fun _ => Q) fun e _ => Tolerated enough e := by
  have hsame : ∀ s', s' = s → Q s' := fun s' hs' => hstay s.mValueOverride s' (Moved.of_eq s s' hs')
  refine Triple.get_bind fun s' hs' => ?_
  subst hs'
  refine Triple.ite (fun _ => Triple.pure hsame) fun hphase => ?_
  cases hintToAcceptCommit hint with
  | none => exact Triple.pure hsame
  | some ballot =>
    refine Triple.bind (Q := fun mayRaise s => s = s' ∧ (mayRaise = true →
      s'.mPhase = .SCP_PHASE_CONFIRM → ∃ h, s'.mHighBallot = some h ∧ ballot.value = h.value)) ?_
      fun mayRaise => Triple.assume fun hmay => Triple.ite (fun htrue => ?_) fun _ => Triple.pure hsame
    · refine Triple.get_bind fun s hs => ?_
      subst hs
      refine Triple.ite (fun hc => ?_) fun hc => Triple.pure fun _ h => ⟨h, fun _ h => absurd h hc⟩
      cases hh : s.mHighBallot with
      | none => exact Triple.throw fun _ _ => tolerated_nullDereference
      | some h =>
        refine Triple.pure fun _ hs => ⟨hs, fun hcompatible _ => ⟨h, rfl, ?_⟩⟩
        exact (areBallotsCompatible_iff ballot h).mp hcompatible
    · refine Triple.get_bind fun s hs => ?_
      subst hs
      refine Triple.ite (fun hc => ?_) fun _ => Triple.pure hsame
      obtain ⟨hzero, -⟩ | ⟨lo, hi, hfind, hextended⟩ := findExtendedInterval_cases
        (fun cur => s.federatedAccept d (votesToCommit ballot cur) (commitPredicate ballot cur))
        (sorted_foldr_insertCounter _)
      · exact absurd (congrArg Prod.fst hzero) hc.1
      · rw [show s.intervalToAccept d ballot = (lo, hi) from hfind] at hc ⊢
        refine spec_setAcceptCommit hd hs hc.1 (ballot_le ballot.value hextended.lo_le) rfl
          (fun hne h' hh' => ?_) hstay (hemit hphase ballot lo hi hextended fun hconfirm => ?_)
        · have hconfirm : s.mPhase = .SCP_PHASE_CONFIRM := by
            cases hp : s.mPhase with
            | SCP_PHASE_PREPARE => exact absurd hp hne
            | SCP_PHASE_CONFIRM => rfl
            | SCP_PHASE_EXTERNALIZE => exact absurd hp hphase
          obtain ⟨h, hh, hv⟩ := hmay htrue hconfirm
          obtain rfl := Option.some.inj (hh.symm.trans hh')
          exact hv.symm
        · obtain ⟨h, hh, hv⟩ := hmay htrue hconfirm
          refine ⟨h, hh, hv, ?_⟩
          have hany := hc.2.resolve_left fun h => h hconfirm
          rw [hh] at hany
          exact of_decide_eq_true hany

/-- The condition held before the state outside changed. -/
def BeforeOutside (P : BallotProtocol X Value → Prop) (s : BallotProtocol X Value) : Prop :=
  ∃ s' x, P s' ∧ s = { s' with outside := x }

omit [LinearOrder Value] [Inhabited Value] in
theorem spec_call {α : Type} (P : BallotProtocol X Value → Prop) (f : EStateM Numeric.Exception X α) :
    Triple (BeforeOutside P) (call f : Ballot X Value α) (fun _ => BeforeOutside P)
      fun e _ => Tolerated enough e := by
  rintro s ⟨s', x, hs', rfl⟩
  unfold call zoom
  dsimp only
  cases f x with
  | ok a x' => exact ⟨s', x', hs', rfl⟩
  | error e x' => exact ⟨by simp, fun _ => by simp⟩

theorem spec_setConfirmCommit (hd : KeepsQuorumSets d) (hs : Sound d ρ s)
    (hphase : s.mPhase = .SCP_PHASE_CONFIRM) (hc : c.counter ≠ 0) (hch : c ≤ h)
    (hcv : c.value = h.value) (hhigh : ∀ h', s.mHighBallot = some h' → h'.value = h.value)
    (houtside : ∀ s' x, Q' s' → Q { s' with outside := x })
    (hemit : Triple (fun s' => Moved d s (s.position.confirmCommit c h) s' ∧ Pending d ρ true s')
      (emitCurrentStateStatement d process) (fun _ => Q') fun e _ => Tolerated enough e) :
    Triple (· = s) (setConfirmCommit d process c h) (fun _ => Q) fun e _ => Tolerated enough e := by
  refine Triple.bind (Q := fun _ => Moved d s { s.position with commit := some c, high := some h })
    (Triple.modify fun s' hs' => ?_) fun _ => ?_
  · subst hs'
    exact ⟨⟨rfl, rfl⟩, rfl, fun _ => rfl⟩
  refine Triple.bind ((framed_updateCurrentIfNeeded hd h).moves (triple_updateCurrentIfNeeded d h))
    fun _ => ?_
  refine Triple.bind (Q := fun _ => Moved d s (s.position.confirmCommit c h))
    (Triple.modify fun s' hs' => ?_) fun _ => ?_
  · obtain ⟨⟨hr, hm⟩, hframe⟩ := hs'.1
    exact ⟨⟨congrArg (fun r : Position Value => { r with phase := .SCP_PHASE_EXTERNALIZE }) hr, hm⟩,
      hframe⟩
  have hne : s.position.phase ≠ .SCP_PHASE_PREPARE := by
    rw [show s.position.phase = .SCP_PHASE_CONFIRM from hphase]
    decide
  refine Triple.bind (hemit.pre fun s' hs' => ⟨hs', hs.moved (.inl ?_) hs'⟩) fun _ => ?_
  · exact ⟨hs.good.confirmCommit hne hc hch hcv hhigh, .confirmCommit hs.good hphase hcv hhigh⟩
  refine Triple.bind ((spec_call Q' d.stopNomination).pre fun s' hs' => ⟨s', s'.outside, hs', rfl⟩)
    fun _ => Triple.get_bind fun s' hs' => ?_
  cases s'.mCommit with
  | none => exact Triple.throw fun _ _ => tolerated_nullDereference
  | some c' =>
    refine Triple.bind (Q := fun a s'' => s'' = s' ∧ a = c') (Triple.pure fun _ h => ⟨h, rfl⟩) fun a => ?_
    refine Triple.bind ((spec_call Q' (d.valueExternalized a.value)).pre fun s'' hs'' => ?_) fun _ =>
      Triple.pure fun s'' hs'' => ?_
    · rw [hs''.1]
      exact hs'
    · obtain ⟨s₁, x, hs₁, rfl⟩ := hs''
      exact houtside s₁ x hs₁

theorem spec_attemptConfirmCommit (hd : KeepsQuorumSets d) (hs : Sound d ρ s)
    (hint : BallotPledges Value) (hstay : Q s) (houtside : ∀ s' x, Q' s' → Q { s' with outside := x })
    (hemit : s.mPhase = .SCP_PHASE_CONFIRM → ∀ c h : SCPBallot Value,
      Triple (fun s' => Moved d s (s.position.confirmCommit c h) s' ∧ Pending d ρ true s')
        (emitCurrentStateStatement d process) (fun _ => Q') fun e _ => Tolerated enough e) :
    Triple (· = s) (attemptConfirmCommit d process hint) (fun _ => Q) fun e _ => Tolerated enough e := by
  have hsame : ∀ s', s' = s → Q s' := fun s' hs' => hs' ▸ hstay
  refine Triple.get_bind fun s' hs' => ?_
  subst hs'
  refine Triple.ite (fun _ => Triple.pure hsame) fun hc => ?_
  push Not at hc
  cases hintToConfirmCommit hint with
  | none => exact Triple.pure hsame
  | some ballot =>
    refine Triple.ite (fun hfound => ?_) fun _ => Triple.pure hsame
    refine spec_setConfirmCommit hd hs hc.1 hfound.2
      (ballot_le ballot.value (findExtendedInterval_le _ _ _ le_rfl)) rfl (fun h' hh' => ?_) houtside
      (hemit hc.1 _ _)
    obtain ⟨c, hcommit, hcompatible⟩ := (Option.any_eq_true _ _).mp hfound.1
    obtain ⟨h, -, hh, -, -, -, hcv, -⟩ := hs.good.compatible hcommit
    obtain rfl : h = h' := Option.some.inj (hh.symm.trans hh')
    exact hcv.symm.trans ((areBallotsCompatible_iff ballot c).mp hcompatible).symm

end Commit

end ZaggCore.Scp.BallotProtocol
