import ZaggCore.Scp.SettledStates

/-! # The depth of the advance

The statement that an attempt emits is processed one level further down, where less is left to do than
above. So the levels that `advanceSlot` can reach are bounded by what is left to do at the first one. -/

namespace ZaggCore.Scp.BallotProtocol
open Foundations SortedKeys
set_option autoImplicit false
set_option maxHeartbeats 250000

variable {X Value : Type} [LinearOrder Value] [Inhabited Value]

/-! ## Emission -/

/-- The node's own statement takes the same place in what is recorded as in what the peers said. -/
def SamePeers (d : BallotDriver X Value) (w : Peers X Value) (s : BallotProtocol X Value) : Prop :=
  ∀ env : SCPEnvelope (BallotPledges Value), env.statement.nodeID = d.localNodeID →
    LocalNode.insertOrAssign s.mLatestEnvelopes env = LocalNode.insertOrAssign w.latest env

/-- What a statement of the node leads to: a settled state, further on, with no more to do. -/
structure Reached (d : BallotDriver X Value) (w : Peers X Value) (level : ℕ) (r : Position Value)
    (s : BallotProtocol X Value) : Prop where
  settled : Settled d w level s
  later : r.Later s.position
  potential_le : w.potential d s.position ≤ w.potential d r

/-- The node's own statement is processed from the level with at most so much left to do. -/
structure DepthSpec (d : BallotDriver X Value) (enough : Prop) (level bound : ℕ)
    (process : SCPEnvelope (BallotPledges Value) → Bool → Ballot X Value EnvelopeState) : Prop where
  runs : ∀ (w : Peers X Value) (r : Position Value) (envelope : SCPEnvelope (BallotPledges Value)),
    w.potential d r ≤ bound → envelope.statement = statementAt d r →
    Triple (fun s => Sound d r s ∧ At r s.messages s ∧ SamePeers d w s ∧
        Frame d True level (d.getQSet w.outside) s)
      (process envelope true)
      (fun result s => result = .VALID → Reached d w level r s) fun e _ => Tolerated enough e
  insane : ∀ envelope, isPledgesSane true envelope.statement.pledges = false →
    ∀ P : BallotProtocol X Value → Prop,
      Triple P (process envelope true) (fun result _ => result = .INVALID) fun e _ => Tolerated enough e

section Emit

variable {d : BallotDriver X Value} {enough : Prop} {level bound : ℕ} {w : Peers X Value}
  {r ρ : Position Value}
  {process : SCPEnvelope (BallotPledges Value) → Bool → Ballot X Value EnvelopeState}

omit [LinearOrder Value] [Inhabited Value] in
theorem SamePeers.of_messages {s s' : BallotProtocol X Value} (h : SamePeers d w s)
    (hm : s'.messages = s.messages) : SamePeers d w s' := by
  intro env henv
  rw [show s'.mLatestEnvelopes = s.mLatestEnvelopes from congrArg Messages.latest hm]
  exact h env henv

/-- Below the first level nothing is sent. -/
theorem reached_sendLatestEnvelope (hlevel : level ≠ 0) :
    Triple (Reached d w level r) (sendLatestEnvelope d) (fun _ => Reached d w level r)
      fun e _ => Tolerated enough e := by
  refine Triple.get_bind fun s hs => ?_
  cases s.mLastEnvelope with
  | none => exact Triple.pure fun _ h => h ▸ hs
  | some env =>
    refine Triple.onlyIf (fun hc => ?_) fun _ _ h => h ▸ hs
    exact absurd (hs.settled.level.symm.trans hc.1) hlevel

theorem reached_updateLastEnvelope (hlevel : level ≠ 0) (canEmit : Bool)
    (envelope : SCPEnvelope (BallotPledges Value)) :
    Triple (Reached d w level r) (updateLastEnvelope d canEmit envelope) (fun _ => Reached d w level r)
      fun e _ => Tolerated enough e := by
  refine Triple.get_bind fun s hs => Triple.onlyIf (fun _ => ?_) fun _ s' hs' => hs' ▸ hs
  refine Triple.bind (Q := fun _ => Reached d w level r) (Triple.modify fun s' hs' => ?_) fun _ =>
    reached_sendLatestEnvelope hlevel
  subst hs'
  exact ⟨⟨hs.settled.level, hs.settled.qsets, hs.settled.latest⟩, hs.later, hs.potential_le⟩

/-- The emission processes the node's statement, or leaves the state as it is where the statement is
recorded already. -/
theorem spec_emit (hd : KeepsQuorumSets d) {s : BallotProtocol X Value} {Q : BallotProtocol X Value → Prop}
    (hpending : Pending d ρ true s)
    (hruns : Sound d ρ s → ∀ envelope : SCPEnvelope (BallotPledges Value),
      envelope.statement = statementAt d s.position → Triple (Moved d s s.position)
        (process envelope true) (fun result s' => result = .VALID → Q s') fun e _ => Tolerated enough e)
    (hinsane : ∀ envelope, isPledgesSane true envelope.statement.pledges = false →
      Triple (Moved d s s.position) (process envelope true) (fun result _ => result = .INVALID)
        fun e _ => Tolerated enough e)
    (hlast : ∀ canEmit envelope, Triple Q (updateLastEnvelope d canEmit envelope) (fun _ => Q)
      fun e _ => Tolerated enough e)
    (hfound : ∀ envelope : SCPEnvelope (BallotPledges Value), envelope.statement = statementAt d s.position →
      LocalNode.find s.mLatestEnvelopes d.localNodeID = some envelope →
      ∀ s', Moved d s s.position s' → Q s') :
    Triple (· = s) (emitCurrentStateStatement d process) (fun _ => Q) fun e _ => Tolerated enough e := by
  refine Triple.get_bind fun s₁ hs₁ => ?_
  subst hs₁
  refine Triple.bind ((framed_createStatement s₁.mPhase).moves (p := Describes d s₁.position)
    (triple_createStatement d s₁.position s₁.messages) |>.pre (Moved.of_eq s₁)) fun st => ?_
  refine Triple.assume fun hdescribes => ?_
  have hst := hdescribes.eq
  refine Triple.bind (Q := fun envelope s' => Moved d s₁ s₁.position s' ∧ envelope.statement = st) ?_
    fun envelope => Triple.assume fun henv => ?_
  · refine (framed_createEnvelope hd st).moves ?_
    exact ((neutral_call _).returns s₁.position s₁.messages).bind fun _ => Triple.pure fun _ h => ⟨h, rfl⟩
  subst henv
  refine Triple.onlyIf (fun _ => ?_) fun hfind s' hs' => ?_
  · refine Triple.bind (Q := fun result s' => result = .VALID → Q s') ?_ fun result => ?_
    · obtain hsound | ⟨-, hbroken, -⟩ := hpending
      · exact hruns hsound envelope hst
      · refine (hinsane envelope (hdescribes.pledges.insane hbroken)).post ?_
        intro result _ hinvalid hvalid
        cases hinvalid.symm.trans hvalid
    · refine Triple.ite (fun hvalid => ?_) fun _ => Triple.throw fun _ _ => ⟨by simp, fun _ => by simp⟩
      exact (hlast _ envelope).pre fun _ h => h hvalid
  · exact hfound envelope hst (not_not.mp hfind) s' hs'

omit [Inhabited Value] in
theorem Pending.sorted {s : BallotProtocol X Value} (h : Pending d ρ true s) :
    SortedBy (fun it : SCPEnvelope (BallotPledges Value) => it.statement.nodeID) s.mLatestEnvelopes := by
  obtain hsound | ⟨-, -, r, hsent⟩ := h
  · exact hsound.sent.sorted
  · exact hsent.sorted

/-- An emission from a position at which there is no more to do than the bound. -/
theorem depth_emit (hd : KeepsQuorumSets d) (hdepth : DepthSpec d enough level bound process)
    (hlevel : level ≠ 0) (hbound : w.potential d r ≤ bound) :
    Triple (fun s => s.position = r ∧ SamePeers d w s ∧ Frame d True level (d.getQSet w.outside) s ∧
        Pending d ρ true s)
      (emitCurrentStateStatement d process) (fun _ => Reached d w level r)
      fun e _ => Tolerated enough e := by
  intro s hs
  obtain ⟨rfl, hpeers, hframe, hpending⟩ := hs
  have hframe' : ∀ s', Moved d s s.position s' → Frame d True level (d.getQSet w.outside) s' := by
    intro s' hs'
    exact ⟨hs'.frame.1.trans hframe.1, fun _ => (hs'.frame.2 trivial).trans (hframe.2 trivial)⟩
  refine spec_emit hd hpending (fun hsound envelope hst => ?_)
    (fun envelope hinsane => hdepth.insane envelope hinsane _)
    (reached_updateLastEnvelope hlevel) (fun envelope hst hfind s' hs' => ?_) s rfl
  · refine (hdepth.runs w s.position envelope hbound hst).pre fun s' hs' => ?_
    exact ⟨hsound.refl.stay hs'.location, ⟨hs'.location.1, rfl⟩, hpeers.of_messages hs'.location.2,
      hframe' s' hs'⟩
  · have hown : envelope.statement.nodeID = d.localNodeID := congrArg SCPStatement.nodeID hst
    have hlatest : s.mLatestEnvelopes = LocalNode.insertOrAssign w.latest envelope := by
      rw [← hpeers envelope hown]
      refine (insertOrAssign_of_lookup _ hpending.sorted ?_).symm
      rw [hown]
      exact hfind
    obtain ⟨⟨hr, hm⟩, hframe₀⟩ := hs'
    have hframe₁ := hframe' s' ⟨⟨hr, hm⟩, hframe₀⟩
    refine ⟨⟨hframe₁.1, fun _ => hframe₁.2 trivial, envelope, ?_, ?_⟩, ?_, ?_⟩
    · rw [show s'.mLatestEnvelopes = s.mLatestEnvelopes from congrArg Messages.latest hm]
      exact hlatest
    · rw [hr]
      exact hst
    · rw [hr]
      exact Position.Later.override s.position s.position.override
    · rw [hr]

end Emit

/-! ## The attempts at one level -/

/-- The state is settled and there is less to do than at the position of the hint, unless nothing was done
yet. -/
structure Ready (d : BallotDriver X Value) (w : Peers X Value) (level : ℕ) (r₀ : Position Value)
    (s : BallotProtocol X Value) : Prop where
  settled : Settled d w level s
  later : r₀.Later s.position
  progress : w.Progress d r₀ s.position

section Attempts

variable {d : BallotDriver X Value} {enough : Prop} {level bound : ℕ} {w : Peers X Value}
  {r r₀ ρ : Position Value} {s s' : BallotProtocol X Value}
  {process : SCPEnvelope (BallotPledges Value) → Bool → Ballot X Value EnvelopeState}

theorem Ready.override (h : Ready d w level r₀ s) {o : Option Value}
    (hs' : Moved d s { s.position with override := o } s') : Ready d w level r₀ s' := by
  obtain ⟨⟨hr, hm⟩, hlevel, hqsets⟩ := hs'
  have hphase : s'.mPhase = s.mPhase := congrArg Position.phase hr
  refine ⟨⟨hlevel.trans h.settled.level, fun hne => ?_, ?_⟩, ?_, ?_⟩
  · exact (hqsets trivial).trans (h.settled.qsets (hphase ▸ hne))
  · obtain ⟨env, hlatest, hown⟩ := h.settled.latest
    refine ⟨env, ?_, ?_⟩
    · rw [show s'.mLatestEnvelopes = s.mLatestEnvelopes from congrArg Messages.latest hm]
      exact hlatest
    · rw [hr]
      exact hown
  · rw [hr]
    exact h.later.trans (.override _ o)
  · rw [hr]
    obtain ⟨o', ho'⟩ | hlt := h.progress
    · rw [ho']
      exact .inl ⟨o, rfl⟩
    · right
      rwa [Peers.potential_override]

theorem Ready.samePeers (h : Ready d w level r₀ s) : SamePeers d w s := by
  intro env henv
  obtain ⟨own, hlatest, hown⟩ := h.settled.latest
  rw [hlatest]
  refine insertOrAssign_insertOrAssign _ ?_ w.latest
  rw [hown, henv]
  rfl

theorem phase_of_potential (h : w.potential d r = 0) : r.phase = .SCP_PHASE_EXTERNALIZE := by
  cases hphase : r.phase with
  | SCP_PHASE_PREPARE =>
    rw [Peers.potential_of_prepare hphase] at h
    omega
  | SCP_PHASE_CONFIRM =>
    rw [Peers.potential_of_confirm hphase] at h
    omega
  | SCP_PHASE_EXTERNALIZE => rfl

variable (hd : KeepsQuorumSets d) (hdepth : DepthSpec d enough level bound process) (hlevel : level ≠ 0)
  (hbound : w.potential d r₀ ≤ bound + 1)

include hd hdepth hlevel hbound

/-- An emission after a step that leaves less to do. -/
theorem reached_emit (hready : Ready d w level r₀ s) (hphase : s.mPhase ≠ .SCP_PHASE_EXTERNALIZE)
    (hlt : w.potential d r < w.potential d r₀) :
    Triple (fun s' => Moved d s r s' ∧ Pending d ρ true s') (emitCurrentStateStatement d process)
      (fun _ => Reached d w level r) fun e _ => Tolerated enough e := by
  have hpotential : w.potential d r ≤ bound := by omega
  refine (depth_emit (ρ := ρ) hd hdepth hlevel hpotential).pre fun s' hs' => ?_
  obtain ⟨⟨⟨hr, hm⟩, hframe⟩, hpending⟩ := hs'
  refine ⟨hr, hready.samePeers.of_messages hm, ⟨hframe.1.trans hready.settled.level, fun _ => ?_⟩, hpending⟩
  exact (hframe.2 trivial).trans (hready.settled.qsets hphase)

theorem ready_emit (hready : Ready d w level r₀ s) (hphase : s.mPhase ≠ .SCP_PHASE_EXTERNALIZE)
    (hlater : s.position.Later r) (hlt : w.potential d r < w.potential d r₀) :
    Triple (fun s' => Moved d s r s' ∧ Pending d ρ true s') (emitCurrentStateStatement d process)
      (fun _ => Ready d w level r₀) fun e _ => Tolerated enough e := by
  refine (reached_emit hd hdepth hlevel hbound hready hphase hlt).post fun _ s' hs' => ?_
  exact ⟨hs'.settled, (hready.later.trans hlater).trans hs'.later, .inr (hs'.potential_le.trans_lt hlt)⟩

theorem ready_attemptPreparedAccept (hs : Sound d ρ s) (hready : Ready d w level r₀ s)
    (hr : s.position = r₀) :
    Triple (· = s) (attemptPreparedAccept d process (pledgesAt d r₀)) (fun _ => Ready d w level r₀)
      fun e _ => Tolerated enough e := by
  subst hr
  refine spec_attemptPreparedAccept hd hs _ hready fun hphase q c hq hc => ?_
  have hset := Set.ext (hready.settled.preparable_iff hphase)
  rw [show {x | x ∈ s.getPrepareCandidates (pledgesAt d s.position) ∧ Takes d s x} =
    {x | w.Preparable d s.position x} from hset] at hq
  have hmax : ∀ x, w.Preparable d s.position x → x ≤ q := fun x hx => hq.2 hx
  refine ready_emit hd hdepth hlevel hbound hready hphase (Peers.later_accept hs.good hq.1) ?_
  exact Peers.potential_accept hs.good hphase hq.1 hmax hc

theorem ready_attemptPreparedConfirmed (hs : Sound d ρ s) (hready : Ready d w level r₀ s) :
    Triple (· = s) (attemptPreparedConfirmed d process (pledgesAt d r₀)) (fun _ => Ready d w level r₀)
      fun e _ => Tolerated enough e := by
  refine spec_attemptPreparedConfirmed hd hs _ (fun _ _ => hready.override)
    fun hphase newC newH hnewH hwork => ?_
  have hne : s.mPhase ≠ .SCP_PHASE_EXTERNALIZE := by
    rw [hphase]
    decide
  have hset := Set.ext (hready.settled.raisable_iff hne (pledgesAt d r₀))
  rw [show {x | x ∈ s.getPrepareCandidates (pledgesAt d r₀) ∧ Confirms d s x} =
    {x | w.Raisable d (pledgesAt d r₀) s.position x} from hset] at hnewH
  refine ready_emit hd hdepth hlevel hbound hready hne (.confirmPrepared newC hnewH.1.above) ?_
  exact Peers.potential_confirmPrepared hphase hready.later hnewH hs.good hwork hready.progress

theorem ready_attemptAcceptCommit (hs : Sound d ρ s) (hready : Ready d w level r₀ s)
    (hint : BallotPledges Value) :
    Triple (· = s) (attemptAcceptCommit d process hint) (fun _ => Ready d w level r₀)
      fun e _ => Tolerated enough e := by
  refine spec_attemptAcceptCommit hd hs _ (fun _ _ => hready.override)
    fun hphase ballot lo hi hinterval hconfirm => ?_
  refine ready_emit hd hdepth hlevel hbound hready hphase (.of_phase ?_) (hready.progress.lt ?_)
  · rw [Position.acceptCommit_phase _ _ hphase]
    decide
  · cases hcase : s.mPhase with
    | SCP_PHASE_PREPARE => exact Peers.potential_acceptCommit_prepare hcase
    | SCP_PHASE_CONFIRM =>
      obtain ⟨high, hhigh, hv, habove⟩ := hconfirm hcase
      exact Peers.potential_acceptCommit_confirm hs.good hcase hhigh hv hinterval.lo_le
        (hready.settled.committable_isGreatest hphase hinterval hv habove)
    | SCP_PHASE_EXTERNALIZE => exact absurd hcase hphase

theorem ready_attemptConfirmCommit (hs : Sound d ρ s) (hready : Ready d w level r₀ s)
    (hint : BallotPledges Value) :
    Triple (· = s) (attemptConfirmCommit d process hint) (fun _ => Ready d w level r₀)
      fun e _ => Tolerated enough e := by
  have houtside : ∀ s' x, Ready d w level r₀ s' ∧ s'.mPhase = .SCP_PHASE_EXTERNALIZE →
      Ready d w level r₀ { s' with outside := x } := by
    rintro s' x ⟨⟨hsettled, hlater, hprogress⟩, hphase⟩
    exact ⟨⟨hsettled.level, fun hne => absurd hphase hne, hsettled.latest⟩, hlater, hprogress⟩
  refine spec_attemptConfirmCommit hd hs hint hready houtside fun hphase c h => ?_
  have hne : s.mPhase ≠ .SCP_PHASE_EXTERNALIZE := by
    rw [hphase]
    decide
  have hlt : w.potential d (s.position.confirmCommit c h) < w.potential d r₀ :=
    hready.progress.lt (Peers.potential_confirmCommit hphase)
  have hlater : s.position.Later (s.position.confirmCommit c h) := .of_phase fun h => by cases h
  refine (reached_emit hd hdepth hlevel hbound hready hne hlt).post fun _ s' hs' => ?_
  refine ⟨⟨hs'.settled, (hready.later.trans hlater).trans hs'.later, ?_⟩, ?_⟩
  · exact .inr (hs'.potential_le.trans_lt hlt)
  · have hzero : w.potential d (s.position.confirmCommit c h) = 0 := Peers.potential_of_externalize rfl
    exact phase_of_potential (Nat.le_zero.mp (hzero ▸ hs'.potential_le))

end Attempts

/-! ## All levels -/

section Levels

variable {α : Type} {d : BallotDriver X Value} {enough : Prop} {level bound : ℕ} {w : Peers X Value}
  {r r₀ ρ : Position Value} {s s' : BallotProtocol X Value}
  {process : SCPEnvelope (BallotPledges Value) → Bool → Ballot X Value EnvelopeState}

/-- An attempt that keeps sound states goes from one ready state to the next. -/
theorem Keeps.ready {x : Ballot X Value α} (hx : Keeps d x) {P : BallotProtocol X Value → Prop}
    (hready : ∀ s, Sound d ρ s → P s → Triple (· = s) x (fun _ => Ready d w level r₀)
      fun e _ => Tolerated enough e) :
    Triple (fun s => Sound d ρ s ∧ P s) x (fun _ s => Sound d ρ s ∧ Ready d w level r₀ s)
      fun e _ => Tolerated enough e :=
  fun s hs => ((hx ρ s hs.1).and (hready s hs.1 hs.2 s rfl)).imp (fun _ _ h => h) fun _ _ h => h.2

/-- Below the first level `advanceSlot` runs on the statement of its own position. -/
theorem depth_advanceSlot (hd : KeepsQuorumSets d) (hprocess : ProcessSpec d process)
    (hdepth : DepthSpec d enough (level + 1) bound process) (hlevel : level ≠ 0)
    (hmax : level + 1 < MAX_ADVANCE_SLOT_RECURSION) (hbound : w.potential d r₀ ≤ bound + 1) (fuel : ℕ) :
    Triple (fun s => Sound d ρ s ∧ s.position = r₀ ∧ Settled d w level s)
      (advanceSlot d process fuel (pledgesAt d r₀)) (fun _ => Reached d w level r₀)
      fun e _ => Tolerated enough e := by
  have hsucc : level + 1 ≠ 0 := Nat.succ_ne_zero level
  refine Triple.bind (Q := fun _ s => Sound d ρ s ∧ s.position = r₀ ∧ Settled d w (level + 1) s)
    (Triple.modify fun s hs => ?_) fun _ => Triple.get_bind fun s hs => ?_
  · obtain ⟨hsound, hr, hsettled⟩ := hs
    exact ⟨⟨hsound.good, hsound.advances, hsound.sent⟩, hr, congrArg (· + 1) hsettled.level,
      hsettled.qsets, hsettled.latest⟩
  refine Triple.bind (Q := fun _ s => Sound d ρ s ∧ s.position = r₀ ∧ Settled d w (level + 1) s) ?_
    fun _ => ?_
  · refine Triple.onlyIf (fun hc => ?_) fun _ _ h => h ▸ hs
    exact absurd (hs.2.2.level ▸ hc) (not_le.mpr hmax)
  have hstart : ∀ s, s.position = r₀ ∧ Settled d w (level + 1) s → Ready d w (level + 1) r₀ s := by
    rintro s ⟨rfl, hsettled⟩
    exact ⟨hsettled, .override s.position s.position.override, .inl ⟨s.position.override, rfl⟩⟩
  have hprepare := (keeps_attemptPreparedAccept hprocess (pledgesAt d r₀)).ready (ρ := ρ)
    fun s hsound hs => ready_attemptPreparedAccept hd hdepth hsucc hbound hsound (hstart s hs) hs.1
  have hraise := (keeps_attemptPreparedConfirmed hprocess (pledgesAt d r₀)).ready (ρ := ρ)
    fun s hsound hs => ready_attemptPreparedConfirmed hd hdepth hsucc hbound hsound hs
  have haccept := (keeps_attemptAcceptCommit hprocess (pledgesAt d r₀)).ready (ρ := ρ)
    fun s hsound hs => ready_attemptAcceptCommit hd hdepth hsucc hbound hsound hs _
  have hconfirm := (keeps_attemptConfirmCommit hprocess (pledgesAt d r₀)).ready (ρ := ρ)
    fun s hsound hs => ready_attemptConfirmCommit hd hdepth hsucc hbound hsound hs _
  refine hprepare.bind fun _ => hraise.bind fun _ => haccept.bind fun _ => hconfirm.bind fun _ => ?_
  refine Triple.bind (Q := fun _ => Ready d w (level + 1) r₀) ?_ fun _ => ?_
  · refine Triple.get_bind fun s hs => Triple.ite (fun hc => ?_) fun _ => Triple.pure fun _ h => h ▸ hs.2
    exact absurd (Nat.succ.inj (hs.2.settled.level.symm.trans hc)) hlevel
  refine Triple.bind (Q := fun _ => Reached d w level r₀) (Triple.modify fun s hs => ?_) fun _ => ?_
  · refine ⟨⟨?_, hs.settled.qsets, hs.settled.latest⟩, hs.later, hs.progress.potential_le⟩
    exact Nat.sub_eq_of_eq_add hs.settled.level
  · exact Triple.onlyIf (fun _ => reached_sendLatestEnvelope hlevel) fun _ _ h => h

omit [Inhabited Value] in
theorem tolerated_outOfFuel (h : ¬ enough) : Tolerated enough .outOfFuel :=
  ⟨fun he => (by cases he), fun he => absurd he h⟩

/-- Since `s` only the envelope was recorded. -/
structure Recorded (d : BallotDriver X Value) (ρ : Position Value) (s : BallotProtocol X Value)
    (envelope : SCPEnvelope (BallotPledges Value)) (s' : BallotProtocol X Value) : Prop where
  sound : Sound d ρ s'
  position : s'.position = s.position
  frame : Frame d True s.mCurrentMessageLevel (d.getQSet s.outside) s'
  latest : s'.mLatestEnvelopes = LocalNode.insertOrAssign s.mLatestEnvelopes envelope

/-- `processEnvelope` leaves the state as it is, or records the envelope and, before the node has
externalized, advances. -/
theorem spec_processEnvelope {fuel : ℕ} {envelope : SCPEnvelope (BallotPledges Value)} {self : Bool}
    {Q : EnvelopeState → BallotProtocol X Value → Prop} (hd : KeepsQuorumSets d) (hs : Sound d ρ s)
    (hself : envelope.statement.nodeID = d.localNodeID → self = true)
    (hinvalid : ∀ s', Moved d s s.position s' → Q .INVALID s')
    (hexternalized : s.mPhase = .SCP_PHASE_EXTERNALIZE → ∀ s', Recorded d ρ s envelope s' → Q .VALID s')
    (hadvance : s.mPhase ≠ .SCP_PHASE_EXTERNALIZE → Triple (Recorded d ρ s envelope)
      (advanceSlot d (processEnvelope d fuel) fuel envelope.statement.pledges) (fun _ => Q .VALID)
      fun e _ => Tolerated enough e) :
    Triple (· = s) (processEnvelope d (fuel + 1) envelope self) Q fun e _ => Tolerated enough e := by
  refine Triple.get_bind fun s₁ hs₁ => ?_
  subst hs₁
  refine Triple.ite (fun hc => ?_) fun _ => Triple.pure fun s' hs' => hinvalid s' (Moved.of_eq s₁ s' hs')
  have hrecordable : Recordable d.localNodeID s₁.messages.latest envelope := by
    refine ⟨fun hown => ?_, (Option.all_eq_true _ _).mp hc.2⟩
    have hsane := (Bool.and_eq_true_iff.mp hc.1).2
    rwa [hself hown] at hsane
  have hrecord : Triple (Moved d s₁ s₁.position) (recordEnvelope envelope : Ballot X Value Unit)
      (fun _ => Recorded d ρ s₁ envelope) fun e _ => Tolerated enough e := by
    refine Triple.modify fun s' hs' => ?_
    refine ⟨triple_recordEnvelope hs hrecordable s' hs'.location, hs'.location.1, hs'.frame, ?_⟩
    have hlatest : s'.mLatestEnvelopes = s₁.mLatestEnvelopes := congrArg Messages.latest hs'.location.2
    show LocalNode.insertOrAssign s'.mLatestEnvelopes envelope = _
    rw [hlatest]
  refine Triple.bind (((framed_validateValues hd _).stays (neutral_validateValues _) s₁.position).pre
    (Moved.of_eq s₁)) fun validationRes => ?_
  refine Triple.ite (fun _ => Triple.pure hinvalid) fun _ => Triple.ite (fun hphase => ?_) fun hphase => ?_
  · refine Triple.bind (Q := fun _ => Moved d s₁ s₁.position) ?_ fun _ => hrecord.bind fun _ => ?_
    · refine Triple.onlyIf (fun _ => Triple.modify fun s' hs' => ?_) fun _ _ h => h
      exact ⟨hs'.location, hs'.frame⟩
    · exact (hadvance hphase).bind fun _ => Triple.pure fun _ h => h
  · refine Triple.get_bind fun s' hs' => ?_
    cases s'.mCommit with
    | none => exact Triple.throw fun _ _ => tolerated_nullDereference
    | some c =>
      refine Triple.bind (Q := fun _ => Moved d s₁ s₁.position) (Triple.pure fun _ h => h ▸ hs') fun _ => ?_
      refine Triple.ite (fun _ => ?_) fun _ => Triple.pure hinvalid
      exact hrecord.bind fun _ => Triple.pure (hexternalized (not_not.mp hphase))

theorem insane_processEnvelope (fuel : ℕ) {envelope : SCPEnvelope (BallotPledges Value)}
    (hinsane : isPledgesSane true envelope.statement.pledges = false) (hfuel : enough → fuel ≠ 0)
    (P : BallotProtocol X Value → Prop) :
    Triple P (processEnvelope d fuel envelope true) (fun result _ => result = .INVALID)
      fun e _ => Tolerated enough e := by
  cases fuel with
  | zero => exact Triple.throw fun _ _ => tolerated_outOfFuel fun h => hfuel h rfl
  | succ fuel =>
    refine Triple.get_bind fun s hs => Triple.ite (fun hc => ?_) fun _ => Triple.pure fun _ _ => rfl
    cases hinsane.symm.trans (Bool.and_eq_true_iff.mp hc.1).2

/-- The node's own statement is what the settled state has recorded. -/
theorem Recorded.settled {envelope : SCPEnvelope (BallotPledges Value)} (h : Recorded d ρ s envelope s')
    (hpeers : SamePeers d w s) (hframe : Frame d True level (d.getQSet w.outside) s)
    (hst : envelope.statement = statementAt d s.position) : Settled d w level s' := by
  refine ⟨h.frame.1.trans hframe.1, fun _ => (h.frame.2 trivial).trans (hframe.2 trivial), envelope, ?_, ?_⟩
  · rw [h.latest]
    exact hpeers envelope (congrArg SCPStatement.nodeID hst)
  · rw [h.position]
    exact hst

/-- **The depth of the advance.** With as much fuel as there is to do, and with as many levels left, the
node's own statement is processed. -/
theorem depthSpec (hd : KeepsQuorumSets d) (fuel level bound : ℕ) (hlevel : level ≠ 0)
    (hmax : level + bound < MAX_ADVANCE_SLOT_RECURSION) :
    DepthSpec d (bound < fuel) level bound (processEnvelope d fuel) := by
  refine ⟨?_, fun envelope hinsane => insane_processEnvelope fuel hinsane fun h => (Nat.zero_lt_of_lt h).ne'⟩
  induction fuel generalizing level bound with
  | zero => exact fun _ _ _ _ _ => Triple.throw fun _ _ => tolerated_outOfFuel (Nat.not_lt_zero bound)
  | succ fuel ih =>
    intro w r envelope hpotential hst s hs
    obtain ⟨hsound, ⟨rfl, -⟩, hpeers, hframe⟩ := hs
    refine spec_processEnvelope hd hsound (fun _ => rfl) (fun s' _ hv => ?_) (fun hphase s' hs' _ => ?_)
      (fun hphase => ?_) s rfl
    · cases hv
    · refine ⟨hs'.settled hpeers hframe hst, ?_, (congrArg (w.potential d) hs'.position).le⟩
      rw [hs'.position]
      exact .override s.position s.position.override
    · -- what is left to do is not nothing, so one level of it can be taken away
      have hpos : w.potential d s.position ≠ 0 := fun h0 => hphase (phase_of_potential h0)
      have hne : bound ≠ 0 := fun h0 => hpos (Nat.le_zero.mp (h0 ▸ hpotential))
      obtain ⟨bound, rfl⟩ := Nat.exists_eq_succ_of_ne_zero hne
      have hdepth : DepthSpec d (bound + 1 < fuel + 1) (level + 1) bound (processEnvelope d fuel) := by
        rw [Nat.succ_lt_succ_iff]
        refine ⟨ih (level + 1) bound (Nat.succ_ne_zero level) (by omega), fun envelope hinsane => ?_⟩
        exact insane_processEnvelope fuel hinsane fun h => (Nat.zero_lt_of_lt h).ne'
      have hlt : level + 1 < MAX_ADVANCE_SLOT_RECURSION := by omega
      rw [hst]
      have hadvance := depth_advanceSlot (ρ := s.position) hd (processSpec fuel) hdepth hlevel hlt hpotential fuel
      refine (hadvance.pre fun s' hs' => ?_).post fun _ _ h _ => h
      exact ⟨hs'.sound, hs'.position, hs'.settled hpeers hframe hst⟩

end Levels

end ZaggCore.Scp.BallotProtocol
