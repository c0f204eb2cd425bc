import ZaggCore.Scp.BallotRuns

/-! # Restarts of the ballot protocol

A node that restarts restores its state from the last envelope that it emitted. The statement has the
ballots of the position but not the value override, without which the restarted node bumps with whatever
value it is given. -/

namespace ZaggCore.Scp
open Foundations
set_option autoImplicit false
set_option maxHeartbeats 250000

/-- The driver with that composite candidate. -/
def BallotDriver.withComposite {X Value : Type} (d : BallotDriver X Value) (composite : Value) :
    BallotDriver X Value :=
  { d with getLatestCompositeCandidate := fun _ => composite }

/-- What `checkInvariants` checks. -/
structure Position.Checked {Value : Type} [LinearOrder Value] (r : Position Value) : Prop where
  counter : ∀ b, r.current = some b → b.counter ≠ 0
  prime : ∀ p', r.preparedPrime = some p' → ∃ p, r.prepared = some p ∧ p' ≤ p ∧ p'.value ≠ p.value
  high : ∀ h, r.high = some h → ∃ b, r.current = some b ∧ h ≤ b ∧ h.value = b.value
  commit : ∀ c, r.commit = some c → ∃ h, r.high = some h ∧ c ≤ h ∧ c.value = h.value
  phase : r.phase ≠ .SCP_PHASE_PREPARE → r.commit.isSome

namespace BallotProtocol

variable {X Value : Type} [LinearOrder Value]

/-! ## Checks that pass -/

section Checks

variable (d : BallotDriver X Value)

omit [LinearOrder Value] in
theorem dbgAssert_true (expression : String) :
    (dbgAssert d (some true) expression : Ballot X Value Unit) = pure () := by
  unfold dbgAssert
  split_ifs <;> rfl

omit [LinearOrder Value] in
theorem triple_dbgAssert_true (P : BallotProtocol X Value → Prop)
    {E : Failure → BallotProtocol X Value → Prop} {c : Option Bool} (hc : c = some true)
    (expression : String) : Triple P (dbgAssert d c expression) (fun _ => P) E := by
  rw [hc, dbgAssert_true]
  exact Triple.pure fun _ h => h

theorem checkInvariants_of_true {s : BallotProtocol X Value}
    (h : ∀ invariant ∈ s.invariants, invariant.1 = some true) : checkInvariants d s = .ok () s := by
  have hall : ∀ l : List (Option Bool × String), (∀ invariant ∈ l, invariant.1 = some true) →
      (l.forM fun invariant => dbgAssert d invariant.1 invariant.2 : Ballot X Value Unit) s =
        .ok () s := by
    intro l hl
    induction l with
    | nil => rfl
    | cons invariant l ih =>
      change (dbgAssert d invariant.1 invariant.2 >>= fun _ => _) s = _
      rw [hl invariant List.mem_cons_self, dbgAssert_true]
      exact ih fun i hi => hl i (List.mem_cons_of_mem _ hi)
  exact hall s.invariants h

theorem invariants_of_checked {s : BallotProtocol X Value} (hs : s.position.Checked) :
    ∀ invariant ∈ s.invariants, invariant.1 = some true := by
  obtain ⟨hcounter, hprime, hhigh, hcommit, hphase⟩ := hs
  dsimp only [position] at hcounter hprime hhigh hcommit hphase
  have hcb : ∀ c, s.mCommit = some c → ∃ h b, s.mHighBallot = some h ∧ s.mCurrentBallot = some b ∧
      c ≤ h ∧ c.value = h.value ∧ h ≤ b ∧ h.value = b.value := by
    intro c hc
    obtain ⟨h, hh, hch⟩ := hcommit c hc
    obtain ⟨b, hb, hhb⟩ := hhigh h hh
    exact ⟨h, b, hh, hb, hch.1, hch.2, hhb⟩
  unfold invariants
  simp only [List.forall_mem_cons, List.not_mem_nil, false_imp_iff, implies_true, and_true]
  refine ⟨?_, ?_, ?_, ?_, ?_, ?_, ?_, ?_, ?_⟩
  · cases hb : s.mCurrentBallot with
    | none => rfl
    | some b => simpa using hcounter b hb
  · cases hp' : s.mPreparedPrime with
    | none => cases s.mPrepared <;> rfl
    | some p' =>
      obtain ⟨p, hp, hle, hne⟩ := hprime p' hp'
      rw [hp]
      exact congrArg some ((areBallotsLessAndIncompatible_iff p' p).mpr ⟨hle, hne⟩)
  · cases hh : s.mHighBallot with
    | none => rfl
    | some h =>
      obtain ⟨b, hb, -⟩ := hhigh h hh
      simp [hb]
  · cases hh : s.mHighBallot with
    | none => rfl
    | some h =>
      obtain ⟨b, hb, hhb⟩ := hhigh h hh
      simpa [hb] using (areBallotsLessAndCompatible_iff h b).mpr hhb
  · cases hc : s.mCommit with
    | none => rfl
    | some c =>
      obtain ⟨h, b, -, hb, -⟩ := hcb c hc
      simp [hb]
  · cases hc : s.mCommit with
    | none => rfl
    | some c =>
      obtain ⟨h, hh, hch⟩ := hcommit c hc
      simpa [hh] using (areBallotsLessAndCompatible_iff c h).mpr hch
  · cases hc : s.mCommit with
    | none => rfl
    | some c =>
      obtain ⟨h, b, hh, hb, -, -, hhb⟩ := hcb c hc
      simpa [hh, hb] using (areBallotsLessAndCompatible_iff h b).mpr hhb
  · by_cases hp : s.mPhase = .SCP_PHASE_PREPARE
    · simp [hp]
    · simp [hphase hp]
  · by_cases hp : s.mPhase = .SCP_PHASE_EXTERNALIZE
    · obtain ⟨c, hc⟩ := Option.isSome_iff_exists.mp (hphase (by rw [hp]; exact nofun))
      obtain ⟨h, hh, -⟩ := hcommit c hc
      simp [hh]
    · simp [hp]

theorem bumpToBallot_ok {s : BallotProtocol X Value} {ballot : SCPBallot Value}
    (hphase : s.mPhase ≠ .SCP_PHASE_EXTERNALIZE)
    (hle : ∀ b, s.mCurrentBallot = some b → b ≤ ballot) (check : Bool) :
    bumpToBallot d ballot check s = .ok () (bumped d ballot s) := by
  have hge : (!check || s.mCurrentBallot.all fun b => decide (compareBallots ballot b ≥ 0)) = true := by
    rw [Bool.or_eq_true]
    refine .inr ((Option.all_eq_true _ _).mpr fun b hb => ?_)
    exact decide_eq_true ((compareBallots_ge ballot b).mpr (hle b hb))
  change (dbgAssert d (some (decide (s.mPhase ≠ .SCP_PHASE_EXTERNALIZE))) _ >>= fun _ =>
    dbgAssert d (some _) _ >>= fun _ => modify (bumped d ballot)) s = _
  rw [decide_eq_true hphase, hge, dbgAssert_true, dbgAssert_true]
  rfl

end Checks

end BallotProtocol

namespace Position
open BallotProtocol

variable {Value : Type} [LinearOrder Value] {r : Position Value}

/-! ## The ballot that is moved to -/

/-- Whether `updateCurrentValue` moves to the ballot. -/
def allows (r : Position Value) (ballot : SCPBallot Value) : Bool :=
  decide (r.phase ≠ .SCP_PHASE_EXTERNALIZE) && r.current.all fun b =>
    r.commit.all (fun c => areBallotsCompatible c ballot) && decide (b < ballot)

def targetAt (r : Position Value) (value : Value) (n : Uint32) : Option (SCPBallot Value) :=
  if r.allows ⟨n, r.override.getD value⟩ then some ⟨n, r.override.getD value⟩ else none

/-- The ballot that `bumpState` moves to. -/
def target (r : Position Value) (value : Value) (force : Bool) : Option (SCPBallot Value) :=
  match r.current with
  | none => r.targetAt value 1
  | some b => if force then r.targetAt value (b.counter + 1) else none

/-- The ballot that the timer moves to. -/
def timerTarget [Inhabited Value] (r : Position Value) (composite : Value) :
    Option (SCPBallot Value) :=
  let v := if composite = default then r.current.elim composite SCPBallot.value else composite
  if v = default then none else r.target v true

theorem allows_iff (ballot : SCPBallot Value) : r.allows ballot = true ↔
    r.phase ≠ .SCP_PHASE_EXTERNALIZE ∧ ∀ b, r.current = some b →
      (∀ c, r.commit = some c → c.value = ballot.value) ∧ b < ballot := by
  simp [allows, Option.all_eq_true, areBallotsCompatible]

theorem targetAt_ne {value : Value} {n : Uint32} {ballot : SCPBallot Value}
    (h : r.targetAt value n = some ballot) : r.current ≠ some ballot := by
  unfold targetAt at h
  split_ifs at h with hallows
  obtain rfl := Option.some.inj h
  exact fun hb => lt_irrefl _ (((allows_iff _).mp hallows).2 _ hb).2

theorem target_of_none (h : r.current = none) (value : Value) (force : Bool) :
    r.target value force = r.targetAt value 1 := by
  simp only [target, h]

theorem target_of_some {b : SCPBallot Value} (h : r.current = some b) (value : Value) (force : Bool) :
    r.target value force = if force then r.targetAt value (b.counter + 1) else none := by
  simp only [target, h]

theorem target_ne {value : Value} {force : Bool} {ballot : SCPBallot Value}
    (h : r.target value force = some ballot) : r.current ≠ some ballot := by
  unfold target at h
  split at h
  · exact targetAt_ne h
  · split_ifs at h
    exact targetAt_ne h

end Position

namespace BallotProtocol

variable {X Value : Type} [LinearOrder Value]

/-- A state whose current ballot is that one. -/
def CurrentIs (current : Option (SCPBallot Value)) (s : BallotProtocol X Value) : Prop :=
  s.mCurrentBallot = current

omit [LinearOrder Value] in
theorem Neutral.current {α : Type} {x : Ballot X Value α} (hx : Neutral x)
    (current : Option (SCPBallot Value)) :
    Triple (CurrentIs current) x (fun _ => CurrentIs current) fun _ => CurrentIs current := by
  intro s hs
  refine (hx s.position s.messages s ⟨rfl, rfl⟩).imp (fun _ s' hs' => ?_) fun _ s' hs' => ?_
  · exact (congrArg Position.current hs'.1).trans hs
  · exact (congrArg Position.current hs'.1).trans hs

section Moves

variable (d : BallotDriver X Value)

theorem current_bumpToBallot {ballot : SCPBallot Value} {s : BallotProtocol X Value}
    (hphase : s.mPhase ≠ .SCP_PHASE_EXTERNALIZE)
    (hle : ∀ b, s.mCurrentBallot = some b → b ≤ ballot) (updated : Bool) :
    Triple (· = s) (do bumpToBallot d ballot true; checkInvariants d; return updated)
      (fun _ => CurrentIs (some ballot)) fun _ => CurrentIs (some ballot) := by
  refine Triple.bind (Q := fun _ => CurrentIs (some ballot)) (fun s' hs' => ?_) fun _ =>
    (((neutral_checkInvariants d).bind fun _ => neutral_pure updated).current (some ballot))
  subst hs'
  rw [bumpToBallot_ok d hphase hle]
  rfl

theorem current_updateCurrentValue (ballot : SCPBallot Value) (s : BallotProtocol X Value) :
    Triple (· = s) (updateCurrentValue d ballot)
      (fun _ => CurrentIs (if s.position.allows ballot then some ballot else s.mCurrentBallot))
      fun _ => CurrentIs (if s.position.allows ballot then some ballot else s.mCurrentBallot) := by
  have hstay : ¬ s.position.allows ballot = true → ∀ s' : BallotProtocol X Value, s' = s →
      CurrentIs (if s.position.allows ballot then some ballot else s.mCurrentBallot) s' := by
    intro hnot s' hs'
    rw [if_neg hnot, hs']
    rfl
  refine Triple.get_bind fun s' hs' => ?_
  obtain rfl : s' = s := hs'
  refine Triple.ite (fun hphase => Triple.pure (hstay ?_)) fun hphase => ?_
  · exact fun h => ((Position.allows_iff ballot).mp h).1 hphase
  cases hb : s'.mCurrentBallot with
  | none =>
    have hallows : s'.position.allows ballot = true :=
      (Position.allows_iff ballot).mpr ⟨hphase, fun b hb' => nomatch hb.symm.trans hb'⟩
    rw [if_pos hallows]
    exact current_bumpToBallot d hphase (fun b hb' => nomatch hb.symm.trans hb') true
  | some b =>
    rw [hb] at hstay
    refine Triple.get_bind fun s₁ hs₁ => ?_
    obtain rfl : s₁ = s' := hs₁
    by_cases hallows : s₁.position.allows ballot = true
    · obtain ⟨-, hall⟩ := (Position.allows_iff ballot).mp hallows
      obtain ⟨hcommit, hlt⟩ := hall b hb
      rw [if_pos hallows]
      have hle : some (decide (compareBallots b ballot ≤ 0)) = some true :=
        congrArg some (decide_eq_true ((compareBallots_le b ballot).mpr hlt.le))
      have hany : ¬ s₁.mCommit.any (fun c => !areBallotsCompatible c ballot) = true := by
        rw [Option.any_eq_true]
        rintro ⟨c, hc, hne⟩
        simp [areBallotsCompatible, hcommit c hc] at hne
      refine Triple.bind (triple_dbgAssert_true d (· = s₁) hle _) fun _ => ?_
      refine Triple.ite (fun h => absurd h hany) fun _ => Triple.ite (fun _ => ?_) fun hge => ?_
      · exact current_bumpToBallot d hphase (fun b' hb' => Option.some.inj (hb.symm.trans hb') ▸ hlt.le)
          true
      · exact absurd ((compareBallots_lt b ballot).mpr hlt) hge
    · have hstay := hstay hallows
      refine Triple.bind (Q := fun _ => (· = s₁))
        ((triple_dbgAssert d (· = s₁) _ _).error fun _ => hstay) fun _ => ?_
      refine Triple.ite (fun _ => Triple.pure hstay) fun hany => Triple.ite (fun hlt => ?_) fun _ => ?_
      · refine absurd ((Position.allows_iff ballot).mpr ⟨hphase, fun b' hb' => ?_⟩) hallows
        obtain rfl : b = b' := Option.some.inj (hb.symm.trans hb')
        refine ⟨fun c hc => ?_, (compareBallots_lt b ballot).mp hlt⟩
        by_contra hne
        exact hany ((Option.any_eq_true _ _).mpr ⟨c, hc, by simpa [areBallotsCompatible] using hne⟩)
      · refine Triple.ite (fun _ => Triple.pure hstay) fun _ => ?_
        exact (((neutral_checkInvariants d).bind fun _ => neutral_pure false).current _).pre hstay

variable [Inhabited Value]

omit [LinearOrder Value] in
theorem neutral_createPledges (s : BallotProtocol X Value) (phase : SCPPhase) :
    Neutral (createPledges d s phase) := by
  cases phase with
  | SCP_PHASE_PREPARE => exact neutral_pure _
  | SCP_PHASE_CONFIRM =>
    exact (neutral_deref _).bind fun _ => (neutral_deref _).bind fun _ =>
      (neutral_deref _).bind fun _ => (neutral_deref _).bind fun _ => neutral_pure _
  | SCP_PHASE_EXTERNALIZE =>
    exact (neutral_deref _).bind fun _ => (neutral_deref _).bind fun _ => neutral_pure _

theorem neutral_createStatement (type : SCPPhase) : Neutral (createStatement d type) :=
  (neutral_checkInvariants d).bind fun _ => Neutral.get_bind fun s =>
    (neutral_createPledges d s type).bind fun _ => neutral_pure _

/-- Without fuel an emission ends where the statement is processed. -/
theorem neutral_emit : Neutral (emitCurrentStateStatement d (processEnvelope d 0)) := by
  refine Neutral.get_bind fun s => (neutral_createStatement d _).bind fun st => ?_
  refine Neutral.bind ((neutral_call _).bind fun _ => neutral_pure _) fun envelope => ?_
  refine Neutral.onlyIf fun r m => ?_
  exact Triple.bind (Q := fun _ _ => False) (Triple.throw fun _ h => h) fun _ _ h => h.elim

theorem current_bumpStateTo (value : Value) (n : Uint32) (s : BallotProtocol X Value) :
    Triple (· = s) (bumpStateTo d (processEnvelope d 0) value n)
      (fun _ => CurrentIs ((s.position.targetAt value n).or s.mCurrentBallot))
      fun _ => CurrentIs ((s.position.targetAt value n).or s.mCurrentBallot) := by
  refine Triple.bind (Q := fun _ => CurrentIs ((s.position.targetAt value n).or s.mCurrentBallot)) ?_
    fun updated => Neutral.current (Neutral.bind (Neutral.onlyIf ((neutral_emit d).bind fun _ =>
      neutral_checkHeardFromQuorum d)) fun _ => neutral_pure updated) _
  refine Triple.get_bind fun s' hs' => ?_
  obtain rfl : s' = s := hs'
  refine Triple.ite (fun hphase => Triple.pure ?_) fun _ => ?_
  · have hnot : ¬ s'.position.allows ⟨n, s'.position.override.getD value⟩ = true :=
      fun h => ((Position.allows_iff _).mp h).1 hphase
    intro s₁ hs₁
    obtain rfl : s₁ = s' := hs₁
    unfold Position.targetAt
    rw [if_neg hnot]
    rfl
  · have h := current_updateCurrentValue d ⟨n, s'.position.override.getD value⟩ s'
    unfold Position.targetAt
    split_ifs at h ⊢
    · exact h
    · exact h

theorem current_bumpState (value : Value) (force : Bool) (s : BallotProtocol X Value) :
    Triple (· = s) (bumpState d (processEnvelope d 0) value force)
      (fun _ => CurrentIs ((s.position.target value force).or s.mCurrentBallot))
      fun _ => CurrentIs ((s.position.target value force).or s.mCurrentBallot) := by
  refine Triple.get_bind fun s' hs' => ?_
  obtain rfl : s' = s := hs'
  cases hb : s'.mCurrentBallot with
  | none =>
    rw [Position.target_of_none hb]
    have h := current_bumpStateTo d value 1 s'
    rwa [hb] at h
  | some b =>
    rw [Position.target_of_some hb]
    refine Triple.ite (fun hforce => ?_) fun hforce => ?_
    · have h := current_bumpStateTo d value (b.counter + 1) s'
      rw [if_pos hforce]
      rwa [hb] at h
    · rw [if_neg hforce]
      refine Triple.pure fun s₁ hs₁ => ?_
      obtain rfl : s₁ = s' := hs₁
      exact hb

/-- The ballot that an event moves to, if any. Without fuel the event stops where the statement of the
new ballot is processed. -/
def movesTo (s : BallotProtocol X Value) (event : Event X Value) : Option (SCPBallot Value) :=
  let s' := step d 0 s event
  if s'.mCurrentBallot = s.mCurrentBallot then none else s'.mCurrentBallot

omit [LinearOrder Value] [Inhabited Value] in
theorem after_discard {α : Type} (x : Ballot X Value α) (s : BallotProtocol X Value) :
    after (discard x s) = after (x s) := by
  change after (EStateM.map _ x s) = _
  unfold EStateM.map
  cases x s <;> rfl

theorem movesTo_of_current {s : BallotProtocol X Value} {event : Event X Value}
    {target : Option (SCPBallot Value)} (h : (step d 0 s event).mCurrentBallot = target.or s.mCurrentBallot)
    (hne : ∀ ballot, target = some ballot → s.mCurrentBallot ≠ some ballot) :
    movesTo d s event = target := by
  unfold movesTo
  dsimp only
  rw [h]
  cases target with
  | none => exact if_pos rfl
  | some ballot => exact if_neg (Ne.symm (hne ballot rfl))

theorem movesTo_bumpState (s : BallotProtocol X Value) (value : Value) (force : Bool) :
    movesTo d s (.bumpState value force) = s.position.target value force := by
  refine movesTo_of_current d ?_ fun _ h => Position.target_ne h
  have h := (current_bumpState d value force s s rfl).after (I := CurrentIs _) (fun _ _ h => h)
    fun _ _ h => h
  exact (congrArg mCurrentBallot (after_discard _ s)).trans h

theorem movesTo_timer (s : BallotProtocol X Value) (composite : Value) :
    movesTo (d.withComposite composite) s .ballotProtocolTimerExpired =
      s.position.timerTarget composite := by
  have hne : ∀ ballot, s.position.timerTarget composite = some ballot →
      s.mCurrentBallot ≠ some ballot := by
    intro ballot h
    unfold Position.timerTarget at h
    dsimp only at h
    split_ifs at h <;> exact Position.target_ne h
  refine movesTo_of_current _ ?_ hne
  refine (congrArg mCurrentBallot (after_discard _ s)).trans ?_
  have hvalue : s.abandonValue (d.withComposite composite) =
      if composite = default then s.position.current.elim composite SCPBallot.value else composite := rfl
  have h : Triple (· = s)
      (abandonBallot (d.withComposite composite) (processEnvelope (d.withComposite composite) 0) 0)
      (fun _ => CurrentIs ((s.position.timerTarget composite).or s.mCurrentBallot))
      fun _ => CurrentIs ((s.position.timerTarget composite).or s.mCurrentBallot) := by
    refine Triple.get_bind fun s' hs' => ?_
    obtain rfl : s' = s := hs'
    unfold Position.timerTarget
    rw [← hvalue]
    refine Triple.ite (fun h0 => ?_) fun h0 => ?_
    · dsimp only
      rw [if_pos h0]
      refine Triple.pure fun s₁ hs₁ => ?_
      obtain rfl : s₁ = s' := hs₁
      rfl
    · dsimp only
      rw [if_neg h0, if_pos rfl]
      exact current_bumpState _ _ true s'
  exact (h s rfl).after (I := CurrentIs _) (fun _ _ h => h) fun _ _ h => h

end Moves

/-! ## Restored positions -/

/-- The position that a statement restores. -/
def restoredPosition : BallotPledges Value → Position Value
  | .prepare _ b p p' nC nH =>
    ⟨.SCP_PHASE_PREPARE, some b, p, p', if nH ≠ 0 then some ⟨nH, b.value⟩ else none,
      if nC ≠ 0 then some ⟨nC, b.value⟩ else none, none⟩
  | .confirm b nPrepared nC nH _ =>
    ⟨.SCP_PHASE_CONFIRM, some b, some ⟨nPrepared, b.value⟩, none, some ⟨nH, b.value⟩,
      some ⟨nC, b.value⟩, none⟩
  | .externalize c nH _ =>
    ⟨.SCP_PHASE_EXTERNALIZE, some ⟨UINT32_MAX, c.value⟩, some ⟨UINT32_MAX, c.value⟩, none,
      some ⟨nH, c.value⟩, some c, none⟩

section Restored

variable (d : BallotDriver X Value)

theorem setStateFromEnvelope_ok (e : SCPEnvelope (BallotPledges Value)) (outside : X) :
    ∃ r, setStateFromEnvelope d e (new d outside) = .ok () r ∧
      r.position = restoredPosition e.statement.pledges := by
  let s : BallotProtocol X Value := { new d outside with
    mLatestEnvelopes := LocalNode.insertOrAssign [] e
    mStatementsHistory := [e.statement]
    mLastEnvelope := some e
    mLastEnvelopeEmit := some e }
  have hbump : bumpToBallot d (restoredBallot e.statement.pledges) true s =
      .ok () (bumped d (restoredBallot e.statement.pledges) s) :=
    bumpToBallot_ok d (fun h => SCPPhase.noConfusion h) (fun b hb => by cases hb) true
  refine ⟨(bumped d (restoredBallot e.statement.pledges) s).restored e.statement.pledges, ?_, ?_⟩
  · change ((bumpToBallot d (restoredBallot e.statement.pledges) true >>= fun _ =>
      modify fun s => s.restored e.statement.pledges) : Ballot X Value Unit) s = _
    change EStateM.bind _ _ s = _
    unfold EStateM.bind
    rw [hbump]
    rfl
  · cases e.statement.pledges with
    | prepare _ b p p' nC nH => simp [restored, position, restoredPosition, bumped, s, new, restoredBallot]
    | confirm => rfl
    | externalize => rfl

variable {d} {e : SCPEnvelope (BallotPledges Value)} {r : BallotProtocol X Value}

omit [LinearOrder Value] in
theorem createPledges_of_position [Inhabited Value] {pledges : BallotPledges Value}
    (hhash : getCompanionQuorumSetHashFromStatement pledges = d.quorumSetHash)
    (hr : r.position = restoredPosition pledges) : createPledges d r r.mPhase r = .ok pledges r := by
  have hphase : r.mPhase = (restoredPosition pledges).phase := congrArg Position.phase hr
  have hb : r.mCurrentBallot = (restoredPosition pledges).current := congrArg Position.current hr
  have hp : r.mPrepared = (restoredPosition pledges).prepared := congrArg Position.prepared hr
  have hp' : r.mPreparedPrime = (restoredPosition pledges).preparedPrime :=
    congrArg Position.preparedPrime hr
  have hh : r.mHighBallot = (restoredPosition pledges).high := congrArg Position.high hr
  have hc : r.mCommit = (restoredPosition pledges).commit := congrArg Position.commit hr
  rw [hphase]
  cases pledges with
  | prepare quorumSetHash b p p' nC nH =>
    obtain rfl : quorumSetHash = d.quorumSetHash := hhash
    change EStateM.Result.ok (BallotPledges.prepare _ _ _ _ _ _) r = _
    rw [hb, hp, hp', hh, hc]
    simp only [restoredPosition, Option.getD_some]
    split_ifs <;> simp_all
  | confirm b nPrepared nC nH quorumSetHash =>
    obtain rfl : quorumSetHash = d.quorumSetHash := hhash
    simp only [restoredPosition, createPledges, hb, hp, hh, hc]
    rfl
  | externalize c nH quorumSetHash =>
    obtain rfl : quorumSetHash = d.quorumSetHash := hhash
    simp only [restoredPosition, createPledges, hh, hc]
    rfl

/-- What is restored makes the statement again. -/
theorem restored_statement [Inhabited Value] {rp : Position Value} (hfits : Fits d rp e.statement)
    (hr : r.position = restoredPosition e.statement.pledges)
    (hinvariants : ∀ invariant ∈ r.invariants, invariant.1 = some true) :
    createStatement d r.mPhase r = .ok e.statement r := by
  have hcheck := checkInvariants_of_true d hinvariants
  have hpledges := createPledges_of_position hfits.quorumSetHash hr
  refine bind_ok.mpr ⟨(), r, hcheck, bind_ok.mpr ⟨r, r, rfl, bind_ok.mpr ⟨_, r, hpledges, ?_⟩⟩⟩
  rw [← hfits.nodeID, ← hfits.slotIndex]
  rfl

theorem le_UINT32_MAX (n : Uint32) : n ≤ UINT32_MAX := by
  have hlt := n.isLt
  change n.val ≤ 2 ^ 32 - 1
  omega

omit [LinearOrder Value] in
theorem restoredPosition_current (pledges : BallotPledges Value) :
    (restoredPosition pledges).current = some (restoredBallot pledges) := by
  cases pledges <;> rfl

theorem restoredPosition_checked {pledges : BallotPledges Value} (hwell : WellFormed pledges)
    (hcounter : (restoredBallot pledges).counter ≠ 0) : (restoredPosition pledges).Checked := by
  have hcurrent : ∀ b, (restoredPosition pledges).current = some b → b.counter ≠ 0 := by
    intro b hb
    rw [restoredPosition_current] at hb
    exact Option.some.inj hb ▸ hcounter
  cases pledges with
  | prepare _ b p p' nC nH =>
    obtain ⟨hprime, hnH, hnC⟩ := hwell
    refine ⟨hcurrent, hprime, fun h hh => ⟨b, rfl, ?_⟩, fun c hc => ?_, fun hne => absurd rfl hne⟩
    · dsimp only [restoredPosition] at hh
      split_ifs at hh with h0
      obtain rfl := Option.some.inj hh
      exact ⟨ballot_le b.value hnH, rfl⟩
    · dsimp only [restoredPosition] at hc ⊢
      split_ifs at hc with h0
      obtain rfl := Option.some.inj hc
      have hH : nH ≠ 0 := by
        rintro rfl
        exact h0 (nonpos_iff_eq_zero.mp hnC)
      exact ⟨⟨nH, b.value⟩, if_pos hH, ballot_le b.value hnC, rfl⟩
  | confirm b nPrepared nC nH _ =>
    obtain ⟨-, hnC, hnH⟩ := hwell
    refine ⟨hcurrent, nofun, fun h hh => ⟨b, rfl, ?_⟩, fun c hc => ⟨⟨nH, b.value⟩, rfl, ?_⟩, fun _ => rfl⟩
    · obtain rfl := Option.some.inj hh
      exact ⟨ballot_le b.value hnH, rfl⟩
    · obtain rfl := Option.some.inj hc
      exact ⟨ballot_le b.value hnC, rfl⟩
  | externalize c nH _ =>
    refine ⟨hcurrent, nofun, fun h hh => ⟨⟨UINT32_MAX, c.value⟩, rfl, ?_⟩,
      fun c' hc => ⟨⟨nH, c.value⟩, rfl, ?_⟩, fun _ => rfl⟩
    · obtain rfl := Option.some.inj hh
      exact ⟨ballot_le c.value (le_UINT32_MAX nH), rfl⟩
    · obtain rfl := Option.some.inj hc
      exact ⟨ballot_le c.value hwell.2, rfl⟩

end Restored

end BallotProtocol

/-! ## When a restart is faithful -/

namespace Position
open BallotProtocol

variable {Value : Type} [LinearOrder Value] {r : Position Value} {b : SCPBallot Value}

theorem lt_bump_iff (b : SCPBallot Value) (v : Value) :
    b < ⟨b.counter + 1, v⟩ ↔ b.counter ≠ UINT32_MAX := by
  have hlt := b.counter.isLt
  have hval : (b.counter + 1).val = (b.counter.val + 1) % 2 ^ 32 := Fin.val_add b.counter 1
  have hmax : UINT32_MAX.val = 2 ^ 32 - 1 := rfl
  rw [SCPBallot.lt_iff, Ne, Fin.ext_iff, Fin.lt_def, Fin.ext_iff]
  dsimp only
  rw [hval, hmax]
  omega

/-- No call moves a node at the position. -/
def Stuck (r : Position Value) : Prop :=
  r.phase = .SCP_PHASE_EXTERNALIZE ∨ (∃ b, r.current = some b ∧ b.counter = UINT32_MAX) ∨
    ∃ c v, r.commit = some c ∧ r.override = some v ∧ c.value ≠ v

theorem target_of_moves (hb : r.current = some b) {v : Value} (hphase : r.phase ≠ .SCP_PHASE_EXTERNALIZE)
    (hcommit : ∀ c, r.commit = some c → c.value = r.override.getD v) (hcounter : b.counter ≠ UINT32_MAX) :
    r.target v true = some ⟨b.counter + 1, r.override.getD v⟩ := by
  rw [target_of_some hb, if_pos rfl]
  unfold targetAt
  rw [if_pos]
  refine (allows_iff _).mpr ⟨hphase, fun b' hb' => ?_⟩
  obtain rfl := Option.some.inj (hb.symm.trans hb')
  exact ⟨hcommit, (lt_bump_iff b _).mpr hcounter⟩

/-- What is moved to has the value that is given or overridden. -/
theorem eq_of_target (hb : r.current = some b) {v : Value} {ballot : SCPBallot Value}
    (h : r.target v true = some ballot) : ballot = ⟨b.counter + 1, r.override.getD v⟩ := by
  rw [target_of_some hb, if_pos rfl] at h
  unfold targetAt at h
  split_ifs at h
  exact (Option.some.inj h).symm

theorem target_of_stuck (hb : r.current = some b) (h : r.Stuck) (v : Value) (force : Bool) :
    r.target v force = none := by
  rw [target_of_some hb]
  split_ifs
  · unfold targetAt
    rw [if_neg]
    intro hallows
    obtain ⟨hphase, hall⟩ := (allows_iff _).mp hallows
    obtain ⟨hcommit, hlt⟩ := hall b hb
    obtain hext | ⟨b', hb', hmax⟩ | ⟨c, w, hc, hw, hne⟩ := h
    · exact hphase hext
    · obtain rfl := Option.some.inj (hb.symm.trans hb')
      exact (lt_bump_iff b _).mp hlt hmax
    · refine hne ((hcommit c hc).trans ?_)
      rw [hw]
      rfl
  · rfl

theorem timerTarget_of_stuck [Inhabited Value] (hb : r.current = some b) (h : r.Stuck) (w : Value) :
    r.timerTarget w = none := by
  unfold timerTarget
  dsimp only
  rw [target_of_stuck hb h, ite_self]

theorem timerTarget_default [Inhabited Value] (hb : r.current = some b) :
    r.timerTarget default = if b.value = default then none else r.target b.value true := by
  unfold timerTarget
  simp only [hb, if_true, Option.elim_some]

/-- A node that is not stuck bumps whatever value it is given, to the value that overrides it if there
is one. -/
theorem Good.target_of_not_stuck (hr : Good r) (hb : r.current = some b) (h : ¬ r.Stuck) (v : Value) :
    r.target v true = some ⟨b.counter + 1, r.override.getD v⟩ := by
  refine target_of_moves hb (fun hext => h (.inl hext)) (fun c hc => ?_)
    fun hmax => h (.inr (.inl ⟨b, hb, hmax⟩))
  cases hw : r.override with
  | none => exact nomatch hc.symm.trans (hr.free hw).2.2.1
  | some w =>
    by_contra hne
    exact h (.inr (.inr ⟨c, w, hc, hw, hne⟩))

/-- A node that is not stuck moves without being forced if it has no current ballot. -/
theorem Good.target_of_none (hr : Good r) (hb : r.current = none) (v : Value) :
    r.target v false ≠ none := by
  rw [Position.target_of_none hb]
  have hphase : r.phase = .SCP_PHASE_PREPARE := by
    by_contra hne
    obtain ⟨c, hc⟩ := Option.isSome_iff_exists.mp (hr.phase hne)
    obtain ⟨-, b, -, hb', -⟩ := hr.compatible hc
    exact nomatch hb.symm.trans hb'
  unfold targetAt
  rw [if_pos]
  · exact nofun
  · exact (allows_iff _).mpr ⟨by rw [hphase]; exact nofun, fun b hb' => nomatch hb.symm.trans hb'⟩

/-- A node that cannot move has a current ballot. -/
theorem Good.current_of_stuck (hr : Good r) (h : r.Stuck) : ∃ b, r.current = some b := by
  have hcommit : ∀ c, r.commit = some c → ∃ b, r.current = some b := by
    intro c hc
    obtain ⟨-, b, -, hb, -⟩ := hr.compatible hc
    exact ⟨b, hb⟩
  obtain hext | ⟨b, hb, -⟩ | ⟨c, -, hc, -⟩ := h
  · obtain ⟨c, hc⟩ := Option.isSome_iff_exists.mp (hr.phase (by rw [hext]; exact nofun))
    exact hcommit c hc
  · exact ⟨b, hb⟩
  · exact hcommit c hc

/-- Positions that agree on what a bump looks at move alike. -/
theorem target_congr {r' : Position Value} (hphase : r.phase = r'.phase)
    (hcurrent : r.current = r'.current) (hcommit : r.commit = r'.commit)
    (hoverride : r.override = r'.override) : r.target = r'.target := by
  funext v force
  unfold target targetAt allows
  rw [hphase, hcurrent, hcommit, hoverride]

end Position

namespace BallotProtocol

variable {X Value : Type} [LinearOrder Value] {r : Position Value} {pledges : BallotPledges Value}

omit [LinearOrder Value] in
theorem restored_stuck (hcounter : (restoredBallot pledges).counter = UINT32_MAX) :
    (restoredPosition pledges).Stuck :=
  .inr (.inl ⟨_, restoredPosition_current pledges, hcounter⟩)

omit [LinearOrder Value] in
theorem restoredPosition_override (pledges : BallotPledges Value) :
    (restoredPosition pledges).override = none := by
  cases pledges <;> rfl

/-- A restored node that can bump bumps with the value of its ballot. -/
theorem restored_target (hcounter : (restoredBallot pledges).counter ≠ UINT32_MAX) :
    (restoredPosition pledges).target (restoredBallot pledges).value true =
      some ⟨(restoredBallot pledges).counter + 1, (restoredBallot pledges).value⟩ := by
  have h := Position.target_of_moves (v := (restoredBallot pledges).value)
    (restoredPosition_current pledges) ?_ ?_ hcounter
  · rwa [restoredPosition_override] at h
  · cases pledges with
    | prepare => exact nofun
    | confirm => exact nofun
    | externalize => exact absurd rfl hcounter
  · intro c hc
    rw [restoredPosition_override]
    cases pledges with
    | prepare _ b p p' nC nH =>
      dsimp only [restoredPosition] at hc
      split_ifs at hc
      obtain rfl := Option.some.inj hc
      rfl
    | confirm b nPrepared nC nH _ =>
      obtain rfl := Option.some.inj hc
      rfl
    | externalize => exact absurd rfl hcounter

/-- The moves of the restored node are those of the node itself exactly if neither can move, or nothing
overrides the value and the current ballot is restored. -/
theorem restored_moves_iff [Inhabited Value] [Nontrivial Value] (hr : r.Good)
    (hfree : r.override = none → CommitsNothing pledges) :
    ((∀ v force, (restoredPosition pledges).target v force = r.target v force) ∧
      ∀ w, (restoredPosition pledges).timerTarget w = r.timerTarget w) ↔
      (r.Stuck ∧ (restoredBallot pledges).counter = UINT32_MAX) ∨
        (r.override = none ∧ r.current = some (restoredBallot pledges)) := by
  have hrestored := restoredPosition_current pledges
  constructor
  · rintro ⟨hbump, htimer⟩
    by_cases hstuck : r.Stuck
    · -- the restored node would bump with the value of its own ballot
      refine .inl ⟨hstuck, ?_⟩
      by_contra hcounter
      obtain ⟨b, hb⟩ := hr.current_of_stuck hstuck
      have hmoves := restored_target hcounter
      rw [hbump, Position.target_of_stuck hb hstuck] at hmoves
      exact nomatch hmoves
    obtain ⟨b, hb⟩ : ∃ b, r.current = some b := by
      by_contra hnone
      rw [← Option.ne_none_iff_exists', not_not] at hnone
      refine hr.target_of_none hnone default ?_
      rw [← hbump, Position.target_of_some hrestored, if_neg Bool.false_ne_true]
    have hmoves := hr.target_of_not_stuck hb hstuck
    have hsame : ∀ v, (⟨b.counter + 1, r.override.getD v⟩ : SCPBallot Value) =
        ⟨(restoredBallot pledges).counter + 1, v⟩ := by
      intro v
      have h := Position.eq_of_target hrestored ((hbump v true).trans (hmoves v))
      rwa [restoredPosition_override] at h
    have hoverride : r.override = none := by
      by_contra hne
      obtain ⟨w, hw⟩ := Option.ne_none_iff_exists'.mp hne
      obtain ⟨v, hv⟩ := exists_ne w
      have hvalue := congrArg SCPBallot.value (hsame v)
      rw [hw] at hvalue
      exact hv hvalue.symm
    refine .inr ⟨hoverride, hb.trans (congrArg some ?_)⟩
    have hcounter : b.counter = (restoredBallot pledges).counter :=
      add_right_cancel (congrArg SCPBallot.counter (hsame default))
    have hvalue : b.value = (restoredBallot pledges).value := by
      -- with an empty candidate the timer bumps with the value of the current ballot
      have hdefault := htimer default
      rw [Position.timerTarget_default hrestored, Position.timerTarget_default hb, hbump, hmoves, hmoves,
        hoverride] at hdefault
      split_ifs at hdefault with h h'
      · exact h'.trans h.symm
      · exact (congrArg SCPBallot.value (Option.some.inj hdefault)).symm
    exact congrArg₂ SCPBallot.mk hcounter hvalue
  · rintro (⟨hstuck, hcounter⟩ | ⟨hoverride, hcurrent⟩)
    · obtain ⟨b, hb⟩ := hr.current_of_stuck hstuck
      have hstuck' := restored_stuck hcounter
      refine ⟨fun v force => ?_, fun w => ?_⟩
      · rw [Position.target_of_stuck hrestored hstuck', Position.target_of_stuck hb hstuck]
      · rw [Position.timerTarget_of_stuck hrestored hstuck', Position.timerTarget_of_stuck hb hstuck]
    · obtain ⟨hphase, -, hcommit, -⟩ := hr.free hoverride
      have heq : (restoredPosition pledges).target = r.target := by
        have hnothing := hfree hoverride
        cases pledges with
        | prepare _ b p p' nC nH =>
          have hnC : nC = 0 := hnothing
          refine Position.target_congr hphase.symm hcurrent.symm ?_ hoverride.symm
          rw [hcommit]
          exact if_neg (not_not.mpr hnC)
        | confirm => exact hnothing.elim
        | externalize => exact hnothing.elim
      refine ⟨fun v force => by rw [heq], fun w => ?_⟩
      unfold Position.timerTarget
      rw [heq, hrestored, hcurrent]

/-! ## Restart fidelity -/

section Faithful

variable [Inhabited Value] (d : BallotDriver X Value)

/-- The restarted node `r` builds the statement that was emitted and passes the checks, and `bumpState`
and the timer move it to the ballot that they move the node `s` to. -/
structure FaithfulTo (s : BallotProtocol X Value) (e : SCPEnvelope (BallotPledges Value))
    (r : BallotProtocol X Value) : Prop where
  statement : createStatement d r.mPhase r = .ok e.statement r
  invariants : ∀ invariant ∈ r.invariants, invariant.1 = some true
  bumpState : ∀ value force,
    movesTo d r (.bumpState value force) = movesTo d s (.bumpState value force)
  timer : ∀ composite, movesTo (d.withComposite composite) r .ballotProtocolTimerExpired =
    movesTo (d.withComposite composite) s .ballotProtocolTimerExpired

/-- Neither the node nor its last statement can bump, or nothing overrides the value of the node and the
statement has its current ballot. -/
def Restorable (s : BallotProtocol X Value) (e : SCPEnvelope (BallotPledges Value)) : Prop :=
  (s.position.Stuck ∧ (restoredBallot e.statement.pledges).counter = UINT32_MAX) ∨
    (s.mValueOverride = none ∧ s.mCurrentBallot = some (restoredBallot e.statement.pledges))

variable {d}

theorem faithfulTo_iff [Nontrivial Value] {s r : BallotProtocol X Value} {r₀ : Position Value}
    {e : SCPEnvelope (BallotPledges Value)} (hs : Sound d r₀ s) (he : s.mLastEnvelopeEmit = some e)
    (hr : r.position = restoredPosition e.statement.pledges) : FaithfulTo d s e r ↔ Restorable s e := by
  have hfits : Fits d s.position e.statement := hs.sent.fits e (.inr he)
  have hmoves := restored_moves_iff hs.good hfits.free
  rw [← hr] at hmoves
  constructor
  · refine fun h => hmoves.mp ⟨fun v force => ?_, fun w => ?_⟩
    · rw [← movesTo_bumpState d, ← movesTo_bumpState d]
      exact h.bumpState v force
    · rw [← movesTo_timer d, ← movesTo_timer d]
      exact h.timer w
  · intro h
    have hcounter : (restoredBallot e.statement.pledges).counter ≠ 0 := by
      obtain ⟨-, hmax⟩ | ⟨hoverride, hcurrent⟩ := h
      · rw [hmax]
        decide
      · exact (hs.good.free hoverride).2.2.2 _ hcurrent
    have hchecked := restoredPosition_checked hfits.wellFormed hcounter
    rw [← hr] at hchecked
    have hinvariants := invariants_of_checked hchecked
    obtain ⟨hbump, htimer⟩ := hmoves.mpr h
    refine ⟨restored_statement hfits hr hinvariants, hinvariants, fun v force => ?_, fun w => ?_⟩
    · rw [movesTo_bumpState, movesTo_bumpState]
      exact hbump v force
    · rw [movesTo_timer, movesTo_timer]
      exact htimer w

variable (d)

/-- In every state of a run in which no step throws, a restart from the last envelope that was emitted is
faithful exactly if the state is restorable from it. -/
theorem restart_run [Nontrivial Value] (fuel : ℕ) (outside : X) (events : List (Event X Value))
    (hreturns : EachStep (step d fuel) (Returns d fuel) (new d outside) events) :
    Throughout (step d fuel) (fun s => ∀ e, s.mLastEnvelopeEmit = some e → ∀ fresh,
      ∃ r, setStateFromEnvelope d e (new d fresh) = .ok () r ∧ (FaithfulTo d s e r ↔ Restorable s e))
      (new d outside) events := by
  refine (throughout_of_eachStep (fun _ _ => sound_step d) (sound_new d outside) hreturns).mono ?_
  intro s hs e he fresh
  obtain ⟨r, hrestore, hr⟩ := setStateFromEnvelope_ok d e fresh
  exact ⟨r, hrestore, faithfulTo_iff hs he hr⟩

end Faithful

theorem restart_run_twoNodes :
    Throughout (step twoNodes 6) (fun s => ∀ e, s.mLastEnvelopeEmit = some e → ∀ fresh,
      ∃ r, setStateFromEnvelope twoNodes e (new twoNodes fresh) = .ok () r ∧
        (FaithfulTo twoNodes s e r ↔ Restorable s e)) (new twoNodes ()) twoNodesEvents :=
  restart_run twoNodes 6 () twoNodesEvents (by decide +kernel)

/-- Node 1 once its first ballot is confirmed prepared. -/
def twoNodesPrepared : BallotProtocol Unit (List (Fin 256)) :=
  (twoNodesEvents.take 2).foldl (step twoNodes 6) (new twoNodes ())

/-- What node 1 last emitted then. -/
def twoNodesEnvelope : SCPEnvelope (BallotPledges (List (Fin 256))) :=
  ⟨⟨1, 1, .prepare 7 ⟨1, [5]⟩ (some ⟨1, [5]⟩) none 1 1⟩, []⟩

/-- The node after the restart. -/
def twoNodesRestarted : BallotProtocol Unit (List (Fin 256)) :=
  after (setStateFromEnvelope twoNodes twoNodesEnvelope (new twoNodes ()))

/-- The timer moves the node on to its second ballot, and leaves the restarted node where it is. -/
theorem restart_stalls :
    EachStep (step twoNodes 6) (Returns twoNodes 6) (new twoNodes ()) (twoNodesEvents.take 2) ∧
      twoNodesPrepared.mLastEnvelopeEmit = some twoNodesEnvelope ∧
      movesTo (twoNodes.withComposite [9]) twoNodesPrepared .ballotProtocolTimerExpired =
        some ⟨2, [5]⟩ ∧
      movesTo (twoNodes.withComposite [9]) twoNodesRestarted .ballotProtocolTimerExpired = none ∧
      ¬ FaithfulTo twoNodes twoNodesPrepared twoNodesEnvelope twoNodesRestarted := by
  have hreturns : EachStep (step twoNodes 6) (Returns twoNodes 6) (new twoNodes ())
      (twoNodesEvents.take 2) := by decide +kernel
  have hemitted : twoNodesPrepared.mLastEnvelopeEmit = some twoNodesEnvelope := by decide +kernel
  have hmoves : movesTo (twoNodes.withComposite [9]) twoNodesPrepared .ballotProtocolTimerExpired =
      some ⟨2, [5]⟩ := by decide +kernel
  have hstays : movesTo (twoNodes.withComposite [9]) twoNodesRestarted .ballotProtocolTimerExpired =
      none := by decide +kernel
  refine ⟨hreturns, hemitted, hmoves, hstays, fun h => ?_⟩
  have htimer := h.timer [9]
  rw [hmoves, hstays] at htimer
  exact nomatch htimer

end BallotProtocol

end ZaggCore.Scp
