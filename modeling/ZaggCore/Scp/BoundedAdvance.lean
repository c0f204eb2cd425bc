import ZaggCore.Scp.AdvanceDepth

/-! # The advance is bounded

At the first level the attempts run on any hint, and the loop over `attemptBump` runs. Each of its rounds
raises the counter of the current ballot or ends a phase. So no call gets to the limit of `advanceSlot`,
and with enough fuel every call ends. -/

namespace ZaggCore.Scp
open Foundations
set_option autoImplicit false
set_option maxHeartbeats 250000

variable {X Value : Type}

/-! ## Rounds of the loop -/

namespace Position

/-- The counter of the current ballot. -/
def counter (r : Position Value) : ℕ := r.current.elim 0 fun b => b.counter

/-- How many rounds of the loop can still bump. -/
def rounds (r : Position Value) : ℕ := (2 - r.phase.toInt) * 2 ^ 32 + (2 ^ 32 - 1 - r.counter)

variable {r r' : Position Value}

theorem rounds_lt (r : Position Value) : r.rounds < 3 * 2 ^ 32 := by
  unfold rounds
  have hle : 2 - r.phase.toInt ≤ 2 := Nat.sub_le 2 _
  have hmul := Nat.mul_le_mul_right (2 ^ 32) hle
  omega

variable [LinearOrder Value]

theorem Advances.counter_le (h : r.Advances r') (hphase : r.phase = r'.phase) : r.counter ≤ r'.counter := by
  have hcurrent := h.current hphase
  unfold counter
  cases hb : r.current with
  | none => exact Nat.zero_le _
  | some b =>
    rw [hb] at hcurrent
    cases hb' : r'.current with
    | none =>
      rw [hb'] at hcurrent
      exact absurd hcurrent (WithBot.not_coe_le_bot b)
    | some b' =>
      rw [hb'] at hcurrent
      exact SCPBallot.counter_le (WithBot.coe_le_coe.mp hcurrent)

theorem Advances.rounds_le (h : r.Advances r') : r'.rounds ≤ r.rounds := by
  unfold rounds
  rcases h.phase.eq_or_lt with heq | hlt
  · have hphase := SCPPhase.toInt_inj heq
    have hcounter := h.counter_le hphase
    rw [hphase]
    omega
  · have hmul : (2 - r'.phase.toInt + 1) * 2 ^ 32 ≤ (2 - r.phase.toInt) * 2 ^ 32 := by
      refine Nat.mul_le_mul_right _ ?_
      cases hp : r'.phase <;> cases hq : r.phase <;> simp_all [SCPPhase.toInt]
    omega

theorem rounds_bump {ballot : SCPBallot Value} (h : r.counter < ballot.counter) :
    (r.bump ballot).rounds < r.rounds := by
  have hlt : (ballot.counter : ℕ) < 2 ^ 32 := ballot.counter.isLt
  show (2 - r.phase.toInt) * 2 ^ 32 + (2 ^ 32 - 1 - ballot.counter) <
    (2 - r.phase.toInt) * 2 ^ 32 + (2 ^ 32 - 1 - r.counter)
  omega

end Position

namespace BallotProtocol

/-! ## The bump -/

section Bump

variable [LinearOrder Value] {d : BallotDriver X Value} {r : Position Value} {m : Messages Value}

theorem at_updateCurrentValue (ballot : SCPBallot Value) :
    Partial (At r m) (updateCurrentValue d ballot) fun updated s =>
      At (if updated then r.bump ballot else r) m s := by
  have hcheck : ∀ (updated : Bool) (r' : Position Value), Partial (At r' m)
      (do checkInvariants d; return updated) fun b s => At r' m s ∧ b = updated := by
    intro updated r'
    exact ((neutral_checkInvariants d).returns r' m).bind fun _ => Triple.pure fun _ h => ⟨h, rfl⟩
  have hbump : Partial (At r m) (do bumpToBallot d ballot true; checkInvariants d; return true)
      fun updated s => At (if updated then r.bump ballot else r) m s := by
    refine (triple_bumpToBallot d ballot true).bind fun _ => (hcheck true _).post fun b s hs => ?_
    rw [hs.2]
    exact hs.1
  refine Triple.get_bind fun s hs => Triple.pre (P := At r m) ?_ fun _ h => h ▸ hs
  refine Triple.ite (fun _ => Triple.pure fun _ h => h) fun _ => ?_
  cases s.mCurrentBallot with
  | none => exact hbump
  | some b =>
    refine Triple.get_bind fun s' hs' => Triple.pre (P := At r m) ?_ fun _ h => h ▸ hs'
    refine Triple.bind ((neutral_dbgAssert d _ _).returns r m) fun _ => ?_
    refine Triple.ite (fun _ => Triple.pure fun _ h => h) fun _ => Triple.ite (fun _ => hbump) fun _ => ?_
    refine Triple.ite (fun _ => Triple.pure fun _ h => h) fun _ => (hcheck false r).post fun b s hs => ?_
    rw [hs.2]
    exact hs.1

theorem at_bumpBallot (value : Value) (n : Uint32) :
    Partial (At r m) (bumpBallot d value n) fun updated s =>
      At (if updated then r.bump ⟨n, r.override.getD value⟩ else r) m s := by
  refine Triple.get_bind fun s hs => Triple.pre (P := At r m) ?_ fun _ h => h ▸ hs
  refine Triple.ite (fun _ => Triple.pure fun _ h => h) fun _ => ?_
  have hoverride : s.mValueOverride = r.override := congrArg Position.override hs.1
  rw [hoverride]
  exact at_updateCurrentValue _

omit [LinearOrder Value] in
/-- The loop over the counters finds one above the current ballot. -/
theorem findBump_gt {s : BallotProtocol X Value} {targetCounter n : Uint32} {counters : List Uint32}
    (h : findBump d s targetCounter counters = some n) : targetCounter < n := by
  induction counters with
  | nil => cases h
  | cons m counters ih =>
    rw [findBump] at h
    dsimp only at h
    split_ifs at h with hlt heq
    · exact ih h
    · exact ih h
    · obtain rfl := Option.some.inj h
      exact lt_of_le_of_ne (not_lt.mp hlt) (Ne.symm heq)

end Bump

/-! ## Levels above the depth -/

theorem Tolerated.mono {enough enough' : Prop} {e : Failure} (h : Tolerated enough e)
    (himp : enough' → enough) : Tolerated enough' e :=
  ⟨h.1, fun h' => h.2 (himp h')⟩

section Top

variable [LinearOrder Value]

theorem framed_sendLatestEnvelope {d : BallotDriver X Value} {enough : Prop} :
    Framed d enough False (sendLatestEnvelope d) := by
  refine Framed.get_bind fun s => ?_
  cases s.mLastEnvelope with
  | none => exact framed_pure ()
  | some env =>
    refine Framed.onlyIf (Framed.bind (framed_modify (fun _ => rfl) fun _ h => h.elim) fun _ => ?_)
    exact framed_call False.elim

/-- A sound state at a level of `advanceSlot`. -/
structure AtLevel (d : BallotDriver X Value) (ρ : Position Value) (level : ℕ)
    (s : BallotProtocol X Value) : Prop where
  sound : Sound d ρ s
  level : s.mCurrentMessageLevel = level

variable {α : Type} {d : BallotDriver X Value} {enough : Prop} {level : ℕ} {ρ : Position Value}
  {s : BallotProtocol X Value} {x : Ballot X Value α}

/-- A program that keeps sound states and comes back to the level. -/
theorem Keeps.atLevel (hx : Keeps d x) (hlevel : ∀ s, AtLevel d ρ level s →
      Triple (· = s) x (fun _ s' => s'.mCurrentMessageLevel = level) fun e _ => Tolerated enough e) :
    Triple (AtLevel d ρ level) x (fun _ => AtLevel d ρ level) fun e _ => Tolerated enough e :=
  fun s hs => ((hx ρ s hs.sound).and (hlevel s hs s rfl)).imp (fun _ _ h => ⟨h.1, h.2⟩) fun _ _ h => h.2

/-- A program that does not touch the ballots stays where it is. -/
theorem Framed.atLevel (hframed : Framed d enough False x) (hx : Neutral x) (p : Position Value → Prop) :
    Triple (fun s => AtLevel d ρ level s ∧ p s.position) x (fun _ s => AtLevel d ρ level s ∧ p s.position)
      fun e _ => Tolerated enough e := by
  intro s hs
  have hat := hx.returns s.position s.messages s ⟨rfl, rfl⟩
  have hlevel := hframed level (fun _ => none) s ⟨hs.1.level, False.elim⟩
  refine (hat.and hlevel).imp (fun _ s' h => ?_) fun _ _ h => h.2
  refine ⟨⟨hs.1.sound.stay h.1, h.2.1⟩, ?_⟩
  rw [h.1.1]
  exact hs.2

variable [Inhabited Value]
  {process : SCPEnvelope (BallotPledges Value) → Bool → Ballot X Value EnvelopeState}

/-- The emission comes back to the level. -/
def Emits (d : BallotDriver X Value) (enough : Prop) (level : ℕ)
    (process : SCPEnvelope (BallotPledges Value) → Bool → Ballot X Value EnvelopeState) : Prop :=
  ∀ ρ, Triple (fun s => s.mCurrentMessageLevel = level ∧ Pending d ρ true s)
    (emitCurrentStateStatement d process) (fun _ s => s.mCurrentMessageLevel = level)
    fun e _ => Tolerated enough e

/-- No more is ever left to do than the bound. -/
theorem emits_of_depthSpec (hd : KeepsQuorumSets d) (hdepth : DepthSpec d enough level 15 process)
    (hlevel : level ≠ 0) : Emits d enough level process := by
  intro ρ s hs
  let w : Peers X Value := ⟨s.outside, s.mLatestEnvelopes, hs.2.sorted⟩
  have hemit := depth_emit (ρ := ρ) (w := w) hd hdepth hlevel (Peers.potential_le s.position)
  refine (hemit s ⟨rfl, fun _ _ => rfl, ⟨hs.1, fun _ => rfl⟩, hs.2⟩).imp (fun _ s' hs' => ?_) fun _ _ h => h
  exact hs'.settled.level

section Calls

variable (hd : KeepsQuorumSets d) (hprocess : ProcessSpec d process) (hemits : Emits d enough level process)

include hd hprocess hemits

omit hd hprocess in
theorem emits_moved (hs : AtLevel d ρ level s) (r : Position Value) :
    Triple (fun s' => Moved d s r s' ∧ Pending d ρ true s') (emitCurrentStateStatement d process)
      (fun _ s' => s'.mCurrentMessageLevel = level) fun e _ => Tolerated enough e :=
  (hemits ρ).pre fun _ hs' => ⟨hs'.1.frame.1.trans hs.level, hs'.2⟩

theorem atLevel_attemptPreparedAccept (hint : BallotPledges Value) :
    Triple (AtLevel d ρ level) (attemptPreparedAccept d process hint) (fun _ => AtLevel d ρ level)
      fun e _ => Tolerated enough e := by
  refine (keeps_attemptPreparedAccept hprocess hint).atLevel fun s hs => ?_
  exact spec_attemptPreparedAccept hd hs.sound hint hs.level fun _ _ _ _ _ => emits_moved hemits hs _

theorem atLevel_attemptPreparedConfirmed (hint : BallotPledges Value) :
    Triple (AtLevel d ρ level) (attemptPreparedConfirmed d process hint) (fun _ => AtLevel d ρ level)
      fun e _ => Tolerated enough e := by
  refine (keeps_attemptPreparedConfirmed hprocess hint).atLevel fun s hs => ?_
  exact spec_attemptPreparedConfirmed hd hs.sound hint (fun _ _ h => h.frame.1.trans hs.level)
    fun _ _ _ _ _ => emits_moved hemits hs _

theorem atLevel_attemptAcceptCommit (hint : BallotPledges Value) :
    Triple (AtLevel d ρ level) (attemptAcceptCommit d process hint) (fun _ => AtLevel d ρ level)
      fun e _ => Tolerated enough e := by
  refine (keeps_attemptAcceptCommit hprocess hint).atLevel fun s hs => ?_
  exact spec_attemptAcceptCommit hd hs.sound hint (fun _ _ h => h.frame.1.trans hs.level)
    fun _ _ _ _ _ _ => emits_moved hemits hs _

theorem atLevel_attemptConfirmCommit (hint : BallotPledges Value) :
    Triple (AtLevel d ρ level) (attemptConfirmCommit d process hint) (fun _ => AtLevel d ρ level)
      fun e _ => Tolerated enough e := by
  refine (keeps_attemptConfirmCommit hprocess hint).atLevel fun s hs => ?_
  exact spec_attemptConfirmCommit hd hs.sound hint hs.level (fun _ _ h => h)
    fun _ _ _ => emits_moved hemits hs _

/-- If the ballot moves, no more rounds are left than at the new ballot. -/
theorem atLevel_bumpStateTo (value : Value) (n : Uint32) (hs : AtLevel d ρ level s)
    (hn : s.mCurrentBallot = none → n ≠ 0) :
    Triple (· = s) (bumpStateTo d process value n) (fun updated s' => AtLevel d ρ level s' ∧
        (updated = true → s'.position.rounds ≤
          (s.position.bump ⟨n, s.position.override.getD value⟩).rounds))
      fun e _ => Tolerated enough e := by
  -- the ballot after the assignments, and that the state is sound there
  have hbump : Triple (· = s) (bumpBallot d value n) (fun updated s' => AtLevel d ρ level s' ∧
      (updated = true → s'.position = s.position.bump ⟨n, s.position.override.getD value⟩))
      fun e _ => Tolerated enough e := by
    rintro s' rfl
    have hat := at_bumpBallot (d := d) (r := s'.position) (m := s'.messages) value n s' ⟨rfl, rfl⟩
    have hsound := triple_bumpBallot (d := d) value n ρ s' ⟨hs.sound, hn⟩
    have hframed : Framed d enough False (bumpBallot d value n) := framed_bumpBallot hd value n
    have hframed := hframed level (fun _ => none) s' ⟨hs.level, False.elim⟩
    refine ((hat.and hsound).and hframed).imp (fun updated s'' h => ?_) fun _ _ h => h.2
    refine ⟨⟨h.1.2, h.2.1⟩, fun htrue => ?_⟩
    rw [h.1.1.1, if_pos htrue]
  refine hbump.bind fun updated => ?_
  refine Triple.bind (Q := fun _ s' => AtLevel d ρ level s' ∧ (updated = true → s'.position.rounds ≤
    (s.position.bump ⟨n, s.position.override.getD value⟩).rounds)) ?_ fun _ => Triple.pure fun _ h => h
  refine Triple.onlyIf (fun htrue => ?_) fun hfalse s' hs' => ⟨hs'.1, fun h => absurd h hfalse⟩
  intro s' hs'
  have hemit : Triple (fun s'' => s'' = s') (emitCurrentStateStatement d process)
      (fun _ s'' => AtLevel d ρ level s'' ∧ s'.position.Advances s''.position)
      fun e _ => Tolerated enough e := by
    rintro s'' rfl
    have hkeeps := keeps_emit hprocess s''.position s'' hs'.1.sound.refl
    have hlevel := hemits s''.position s'' ⟨hs'.1.level, .inl hs'.1.sound.refl⟩
    refine (hkeeps.and hlevel).imp (fun _ s₁ h => ?_) fun _ _ h => h.2
    exact ⟨⟨hs'.1.sound.trans h.1, h.2⟩, h.1.advances⟩
  have hrounds := (congrArg Position.rounds (hs'.2 htrue)).le
  have hafter : Triple (fun s'' => s'' = s') (emitCurrentStateStatement d process)
      (fun _ s'' => AtLevel d ρ level s'' ∧ (updated = true → s''.position.rounds ≤
        (s.position.bump ⟨n, s.position.override.getD value⟩).rounds)) fun e _ => Tolerated enough e :=
    hemit.post fun _ s'' h => ⟨h.1, fun _ => h.2.rounds_le.trans hrounds⟩
  exact (hafter.bind fun _ => framed_checkHeardFromQuorum.atLevel (neutral_checkHeardFromQuorum d) fun r =>
    updated = true → r.rounds ≤ (s.position.bump ⟨n, s.position.override.getD value⟩).rounds) s' rfl

/-- A bump of the loop leaves fewer rounds. -/
theorem atLevel_attemptBump (hs : AtLevel d ρ level s) :
    Triple (· = s) (attemptBump d process) (fun didBump s' => AtLevel d ρ level s' ∧
      (didBump = true → s'.position.rounds < s.position.rounds)) fun e _ => Tolerated enough e := by
  have hsame : ∀ s', s' = s → AtLevel d ρ level s' ∧ (false = true → s'.position.rounds < s.position.rounds) :=
    fun s' hs' => ⟨hs' ▸ hs, fun h => by cases h⟩
  refine Triple.get_bind fun s' hs' => ?_
  subst hs'
  refine Triple.ite (fun _ => Triple.pure hsame) fun _ => ?_
  dsimp only
  cases hfind : findBump d s' (s'.mCurrentBallot.elim 0 SCPBallot.counter)
    (insertCounter (s'.mCurrentBallot.elim 0 SCPBallot.counter)
      ((s'.mLatestEnvelopes.map fun e => bumpCounter e.statement.pledges).foldr insertCounter [])).reverse with
  | none => exact Triple.pure hsame
  | some n =>
    have hgt := findBump_gt hfind
    have hn : n ≠ 0 := (lt_of_le_of_lt (Fin.zero_le _) hgt).ne'
    have hcounter : s'.position.counter < (n : ℕ) := by
      have hval : s'.position.counter = (s'.mCurrentBallot.elim 0 SCPBallot.counter : Uint32) := by
        show s'.mCurrentBallot.elim 0 _ = _
        cases s'.mCurrentBallot with
        | none => rfl
        | some b => rfl
      rw [hval]
      exact hgt
    refine Triple.get_bind fun s₁ hs₁ => ?_
    subst hs₁
    refine Triple.ite (fun _ => Triple.pure hsame) fun _ => ?_
    refine Triple.ite (fun h0 => absurd h0 hn) fun _ => ?_
    refine (atLevel_bumpStateTo hd hprocess hemits _ n hs fun _ => hn).post fun didBump s'' hs'' => ?_
    exact ⟨hs''.1, fun htrue => (hs''.2 htrue).trans_lt (Position.rounds_bump hcounter)⟩

theorem atLevel_bumpAll (fuel : ℕ) (ρ : Position Value) :
    Triple (fun s => AtLevel d ρ level s ∧ (enough → s.position.rounds < fuel)) (bumpAll d process fuel)
      (fun _ => AtLevel d ρ level) fun e _ => Tolerated enough e := by
  induction fuel with
  | zero => exact Triple.throw fun s hs => tolerated_outOfFuel fun h => Nat.not_lt_zero _ (hs.2 h)
  | succ fuel ih =>
    intro s hs
    refine Triple.bind (atLevel_attemptBump hd hprocess hemits hs.1) (fun didBump => ?_) s rfl
    refine Triple.ite (fun htrue => ?_) fun _ => Triple.pure fun _ h => h.1
    refine Triple.bind (ih.pre fun s' hs' => ⟨hs'.1, fun h => ?_⟩) fun _ => Triple.pure fun _ h => h
    exact (hs'.2 htrue).trans_le (Nat.lt_succ_iff.mp (hs.2 h))

end Calls

/-- The first level: the loop may run as often as there are rounds. -/
theorem atLevel_advanceSlot (hd : KeepsQuorumSets d) (hprocess : ProcessSpec d process)
    (hemits : Emits d enough 1 process) {fuel : ℕ} (hfuel : enough → 3 * 2 ^ 32 ≤ fuel)
    (hint : BallotPledges Value) :
    Triple (AtLevel d ρ 0) (advanceSlot d process fuel hint) (fun _ => AtLevel d ρ 0)
      fun e _ => Tolerated enough e := by
  refine Triple.bind (Q := fun _ => AtLevel d ρ 1) (Triple.modify fun s hs => ?_) fun _ =>
    Triple.get_bind fun s hs => ?_
  · exact ⟨⟨hs.sound.good, hs.sound.advances, hs.sound.sent⟩, congrArg (· + 1) hs.level⟩
  refine Triple.bind (Q := fun _ => AtLevel d ρ 1) ?_ fun _ => ?_
  · refine Triple.onlyIf (fun hc => ?_) fun _ _ h => h ▸ hs
    rw [hs.level] at hc
    exact absurd hc (by decide)
  refine (atLevel_attemptPreparedAccept hd hprocess hemits hint).bind fun _ => ?_
  refine (atLevel_attemptPreparedConfirmed hd hprocess hemits hint).bind fun _ => ?_
  refine (atLevel_attemptAcceptCommit hd hprocess hemits hint).bind fun _ => ?_
  refine (atLevel_attemptConfirmCommit hd hprocess hemits hint).bind fun _ => ?_
  refine Triple.bind (Q := fun _ => AtLevel d ρ 1) (Triple.get_bind fun s hs => ?_) fun _ => ?_
  · refine Triple.ite (fun _ => ?_) fun _ => Triple.pure fun _ h => h ▸ hs
    refine Triple.bind ((atLevel_bumpAll hd hprocess hemits fuel ρ).pre fun s' hs' => ?_) fun _ => ?_
    · subst hs'
      exact ⟨hs, fun h => (Position.rounds_lt _).trans_le (hfuel h)⟩
    · refine Triple.bind ?_ fun _ => Triple.pure fun _ h => h
      exact ((framed_checkHeardFromQuorum.atLevel (neutral_checkHeardFromQuorum d) fun _ => True).pre
        fun _ h => ⟨h, trivial⟩).post fun _ _ h => h.1
  refine Triple.bind (Q := fun _ => AtLevel d ρ 0) (Triple.modify fun s hs => ?_) fun _ => ?_
  · exact ⟨⟨hs.sound.good, hs.sound.advances, hs.sound.sent⟩, congrArg (· - 1) hs.level⟩
  refine Triple.onlyIf (fun _ => ?_) fun _ _ h => h
  refine (keeps_sendLatestEnvelope d).atLevel fun s hs => ?_
  exact ((framed_sendLatestEnvelope 0 fun _ => none).pre fun _ h => h ▸ ⟨hs.level, False.elim⟩).post
    fun _ _ h => h.1

/-! ## Calls from outside -/

theorem emits_one (hd : KeepsQuorumSets d) (fuel : ℕ) :
    Emits d (15 < fuel) 1 (processEnvelope d fuel) :=
  emits_of_depthSpec hd (depthSpec hd fuel 1 15 one_ne_zero (by decide)) one_ne_zero

theorem Emits.mono {enough' : Prop} (h : Emits d enough level process) (himp : enough' → enough) :
    Emits d enough' level process :=
  fun ρ => (h ρ).error fun _ _ he => he.mono himp

theorem atLevel_processEnvelope (hd : KeepsQuorumSets d) (fuel : ℕ)
    (envelope : SCPEnvelope (BallotPledges Value)) {self : Bool}
    (hself : envelope.statement.nodeID = d.localNodeID → self = true) :
    Triple (AtLevel d ρ 0) (processEnvelope d fuel envelope self) (fun _ => AtLevel d ρ 0)
      fun e _ => Tolerated (3 * 2 ^ 32 < fuel) e := by
  cases fuel with
  | zero => exact Triple.throw fun _ _ => tolerated_outOfFuel (Nat.not_lt_zero _)
  | succ fuel =>
    intro s hs
    refine spec_processEnvelope hd hs.sound hself (fun s' hs' => ?_) (fun _ s' hs' => ?_) (fun _ => ?_) s rfl
    · exact ⟨hs.sound.stay hs'.location, hs'.frame.1.trans hs.level⟩
    · exact ⟨hs'.sound, hs'.frame.1.trans hs.level⟩
    · have hemits : Emits d (3 * 2 ^ 32 < fuel + 1) 1 (processEnvelope d fuel) :=
        (emits_one hd fuel).mono fun h => by omega
      refine (atLevel_advanceSlot hd (processSpec fuel) hemits (fun h => Nat.lt_succ_iff.mp h) _).pre ?_
      exact fun s' hs' => ⟨hs'.sound, hs'.frame.1.trans hs.level⟩

omit [Inhabited Value] in
theorem framed_updateLastEnvelope (canEmit : Bool) (envelope : SCPEnvelope (BallotPledges Value)) :
    Framed d enough False (updateLastEnvelope d canEmit envelope) := by
  refine Framed.get_bind fun s => Framed.onlyIf ?_
  exact Framed.bind (framed_modify (fun _ => rfl) fun _ h => h.elim) fun _ => framed_sendLatestEnvelope

/-- The emission of a call from outside. -/
theorem emits_zero (hd : KeepsQuorumSets d) (fuel : ℕ) :
    Emits d (3 * 2 ^ 32 < fuel) 0 (processEnvelope d fuel) := by
  intro ρ s hs
  refine spec_emit hd hs.2 (fun hsound envelope _ => ?_) (fun envelope hinsane => ?_)
    (fun canEmit envelope => ?_) (fun _ _ _ s' hs' => hs'.frame.1.trans hs.1) s rfl
  · have hruns := atLevel_processEnvelope (ρ := ρ) hd fuel envelope fun _ => rfl
    refine (hruns.pre fun s' hs' => ?_).post fun _ _ h _ => h.level
    exact ⟨hsound.stay hs'.location, hs'.frame.1.trans hs.1⟩
  · exact insane_processEnvelope fuel hinsane (fun h => (Nat.zero_lt_of_lt h).ne') _
  · exact ((framed_updateLastEnvelope canEmit envelope 0 fun _ => none).pre fun _ h => ⟨h, False.elim⟩).post
      fun _ _ h => h.1

theorem atLevel_bumpState (hd : KeepsQuorumSets d) (fuel : ℕ) (value : Value) (force : Bool) :
    Triple (AtLevel d ρ 0) (bumpState d (processEnvelope d fuel) value force) (fun _ => AtLevel d ρ 0)
      fun e _ => Tolerated (3 * 2 ^ 32 < fuel) e := by
  have hbump : ∀ s n, AtLevel d ρ 0 s → (s.mCurrentBallot = none → n ≠ 0) →
      Triple (· = s) (bumpStateTo d (processEnvelope d fuel) value n) (fun _ => AtLevel d ρ 0)
        fun e _ => Tolerated (3 * 2 ^ 32 < fuel) e := fun s n hs hn =>
    (atLevel_bumpStateTo hd (processSpec fuel) (emits_zero hd fuel) value n hs hn).post fun _ _ h => h.1
  refine Triple.get_bind fun s hs => ?_
  cases hb : s.mCurrentBallot with
  | none => exact hbump s 1 hs fun _ => by decide
  | some b =>
    refine Triple.ite (fun _ => hbump s _ hs fun hnone => ?_) fun _ => Triple.pure fun _ h => h ▸ hs
    cases hb.symm.trans hnone

/-- What happens to the protocol leads to no failure that is not tolerated. -/
theorem atLevel_handle (hd : KeepsQuorumSets d) (fuel : ℕ) (event : Event X Value) :
    Triple (AtLevel d ρ 0) (handle d fuel event) (fun _ => AtLevel d ρ 0)
      fun e _ => Tolerated (3 * 2 ^ 32 < fuel) e := by
  cases event with
  | bumpState value force => exact Triple.map _ (atLevel_bumpState hd fuel value force)
  | ballotProtocolTimerExpired =>
    refine Triple.map _ (Triple.get_bind fun s hs => Triple.ite (fun _ => ?_) fun _ => ?_)
    · exact Triple.pure fun _ h => h ▸ hs
    · exact (atLevel_bumpState hd fuel _ true).pre fun _ h => h ▸ hs
  | recvSCPEnvelope envelope =>
    refine Triple.onlyIf (fun hne => Triple.map _ ?_) fun _ _ h => h
    exact atLevel_processEnvelope hd fuel envelope fun hown => absurd hown hne
  | outside x =>
    exact Triple.modify fun s hs => ⟨⟨hs.sound.good, hs.sound.advances, hs.sound.sent⟩, hs.level⟩

end Top

/-! ## Runs -/

variable [LinearOrder Value] [Inhabited Value] (d : BallotDriver X Value)

/-- No event gets to the limit of `advanceSlot`, and with enough fuel every event ends. -/
structure Bounded (s : BallotProtocol X Value) : Prop where
  below : ∀ fuel event s', handle d fuel event s ≠
    .error (.runtime_error "maximum number of transitions reached in advanceSlot") s'
  ends : ∀ fuel event s', 3 * 2 ^ 32 < fuel → handle d fuel event s ≠ .error .outOfFuel s'

variable {d} {ρ : Position Value} {s : BallotProtocol X Value}

theorem AtLevel.bounded (hd : KeepsQuorumSets d) (hs : AtLevel d ρ 0 s) : Bounded d s := by
  refine ⟨fun fuel event s' herror => ?_, fun fuel event s' hfuel herror => ?_⟩
  · have hends := atLevel_handle hd fuel event s hs
    rw [herror] at hends
    exact hends.1 rfl
  · have hends := atLevel_handle hd fuel event s hs
    rw [herror] at hends
    exact hends.2 hfuel rfl

theorem AtLevel.step (hd : KeepsQuorumSets d) (hs : AtLevel d ρ 0 s) {fuel : ℕ} {event : Event X Value}
    (hreturns : Returns d fuel s event) : AtLevel d ρ 0 (step d fuel s event) := by
  have hends := atLevel_handle hd fuel event s hs
  rwa [hreturns] at hends

variable (d)

/-- **The advance is bounded.** In every state of a run in which no step throws, whatever the fuel of each
step, no call of the protocol reaches the limit of `advanceSlot`, and the loop over `attemptBump` ends. -/
theorem advance_bounded (hd : KeepsQuorumSets d) (outside : X) (events : List (ℕ × Event X Value))
    (hreturns : EachStep (fun s event => step d event.1 s event.2)
      (fun s event => Returns d event.1 s event.2) (new d outside) events) :
    Throughout (fun s event => step d event.1 s event.2) (Bounded d) (new d outside) events := by
  have hlevel : Throughout (fun s event => step d event.1 s event.2) (AtLevel d .start 0) (new d outside)
      events :=
    throughout_of_eachStep (fun _ _ hs hret => hs.step hd hret) ⟨sound_new d outside, rfl⟩ hreturns
  exact hlevel.mono fun _ hs => hs.bounded hd

theorem keepsQuorumSets_twoNodes : KeepsQuorumSets twoNodes :=
  ⟨fun _ _ _ _ _ => rfl, fun _ _ _ _ _ => rfl, fun _ _ => rfl, fun _ _ _ _ => rfl, fun _ _ _ _ => rfl,
    fun _ _ _ _ => rfl⟩

theorem advance_bounded_twoNodes :
    Throughout (fun s event => step twoNodes event.1 s event.2) (Bounded twoNodes) (new twoNodes ())
      (twoNodesEvents.map fun event => (6, event)) :=
  advance_bounded twoNodes keepsQuorumSets_twoNodes () _ (by decide +kernel)

end BallotProtocol

end ZaggCore.Scp
