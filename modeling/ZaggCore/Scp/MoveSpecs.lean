import ZaggCore.Scp.GroundedPositions
import ZaggCore.Scp.AttemptSpecs

/-! # Moves between emissions

Until it emits, a function of the protocol changes no message, however it ends. So each attempt is specified
by the position from which it emits, and by what it found before it moved there; what holds after the
emission, and where the function throws, are parameters. -/

namespace ZaggCore.Scp.BallotProtocol
open Foundations
set_option autoImplicit false
set_option maxHeartbeats 250000

variable {X Value : Type}

/-! ## Programs that change no message -/

/-- Also where the program throws. -/
def Silent {α : Type} (x : Ballot X Value α) : Prop :=
  ∀ m, Triple (fun s => s.messages = m) x (fun _ s => s.messages = m) fun _ s => s.messages = m

section Silent

variable {α β : Type} {x : Ballot X Value α}

theorem Neutral.silent (hx : Neutral x) : Silent x := by
  intro m s hs
  exact (hx s.position m s ⟨rfl, hs⟩).imp (fun _ _ h => h.2) fun _ _ h => h.2

theorem silent_pure (a : α) : Silent (pure a : Ballot X Value α) :=
  fun _ => Triple.pure fun _ h => h

theorem Silent.bind {f : α → Ballot X Value β} (hx : Silent x) (hf : ∀ a, Silent (f a)) :
    Silent (x >>= f) :=
  fun m => (hx m).bind fun a => hf a m

theorem Silent.get_bind {f : BallotProtocol X Value → Ballot X Value α} (hf : ∀ s, Silent (f s)) :
    Silent (get >>= f) :=
  fun m => Triple.get_bind fun s hs => (hf s m).pre fun _ h => h ▸ hs

theorem Silent.ite {c : Prop} [Decidable c] {y : Ballot X Value α} (hx : Silent x) (hy : Silent y) :
    Silent (if c then x else y) :=
  fun m => Triple.ite (fun _ => hx m) fun _ => hy m

theorem Silent.onlyIf {c : Prop} [Decidable c] {x : Ballot X Value Unit} (hx : Silent x) :
    Silent (onlyIf c x) :=
  Silent.ite hx (silent_pure ())

theorem silent_modify {f : BallotProtocol X Value → BallotProtocol X Value}
    (hf : ∀ s, (f s).messages = s.messages) : Silent (modify f : Ballot X Value PUnit) :=
  fun _ => Triple.modify fun s hs => (hf s).trans hs

/-- What is known of the runs that return, with what a silent program leaves where it throws. -/
theorem Silent.at {r : Position Value} {m : Messages Value} {Q : α → BallotProtocol X Value → Prop}
    {E : Failure → BallotProtocol X Value → Prop} (hx : Silent x) (h : Partial (At r m) x Q)
    (hE : ∀ e s, s.messages = m → E e s) : Triple (At r m) x Q E :=
  (((hx m).and h).pre fun _ hs => ⟨hs.2, hs⟩).post (fun _ _ hs => hs.2) |>.error fun e s hs => hE e s hs.1

end Silent

section Functions

variable [LinearOrder Value] {d : BallotDriver X Value}

theorem silent_bumpToBallot (ballot : SCPBallot Value) (check : Bool) :
    Silent (bumpToBallot d ballot check) :=
  Silent.get_bind fun _ => (neutral_dbgAssert d _ _).silent.bind fun _ =>
    (neutral_dbgAssert d _ _).silent.bind fun _ => silent_modify fun _ => rfl

theorem silent_updateCurrentIfNeeded (h : SCPBallot Value) : Silent (updateCurrentIfNeeded d h) :=
  Silent.get_bind fun _ =>
    Silent.ite ((silent_bumpToBallot h true).bind fun _ => silent_pure true) (silent_pure false)

theorem silent_setPrepared (ballot : SCPBallot Value) : Silent (setPrepared ballot : Ballot X Value Bool) := by
  refine Silent.get_bind fun s => ?_
  cases s.mPrepared with
  | none => exact (silent_modify fun _ => rfl).bind fun _ => silent_pure true
  | some p =>
    refine Silent.ite ?_ (Silent.ite ?_ (silent_pure false))
    · exact (silent_modify fun _ => rfl).bind fun _ => silent_pure true
    · exact (silent_modify fun _ => rfl).bind fun _ => silent_pure true

theorem silent_clearCommit : Silent (clearCommit d) := by
  refine Silent.get_bind fun s => Silent.ite ?_ (silent_pure false)
  refine (neutral_dbgAssert d _ _).silent.bind fun _ => ?_
  exact (silent_modify fun _ => rfl).bind fun _ => silent_pure true

theorem silent_raiseHigh (newC newH : SCPBallot Value) : Silent (raiseHigh d newC newH) := by
  refine Silent.get_bind fun s => Silent.ite ?_ (silent_pure false)
  refine Silent.bind (silent_modify fun _ => rfl) fun _ => Silent.bind (Silent.onlyIf ?_) fun _ => ?_
  · exact (neutral_dbgAssert d _ _).silent.bind fun _ => silent_modify fun _ => rfl
  · exact (Silent.onlyIf (neutral_call _).silent).bind fun _ => silent_pure _

theorem silent_assignCommit (c h : SCPBallot Value) : Silent (assignCommit c h : Ballot X Value Bool) := by
  refine Silent.get_bind fun s => Silent.ite ?_ (silent_pure false)
  exact (silent_modify fun _ => rfl).bind fun _ => silent_pure true

theorem silent_enterConfirm (h : SCPBallot Value) : Silent (enterConfirm d h) := by
  refine Silent.get_bind fun s => Silent.ite ?_ (silent_pure false)
  refine Silent.bind (silent_modify fun _ => rfl) fun _ => ?_
  refine Silent.bind (Silent.onlyIf (silent_bumpToBallot h false)) fun _ => ?_
  exact (silent_modify fun _ => rfl).bind fun _ => silent_pure true

theorem silent_createStatement [Inhabited Value] (type : SCPPhase) : Silent (createStatement d type) := by
  refine (neutral_checkInvariants d).silent.bind fun _ => Silent.get_bind fun s => Silent.bind ?_ fun _ =>
    silent_pure _
  cases type with
  | SCP_PHASE_PREPARE => exact silent_pure _
  | SCP_PHASE_CONFIRM =>
    exact (neutral_deref _).silent.bind fun _ => (neutral_deref _).silent.bind fun _ =>
      (neutral_deref _).silent.bind fun _ => (neutral_deref _).silent.bind fun _ => silent_pure _
  | SCP_PHASE_EXTERNALIZE =>
    exact (neutral_deref _).silent.bind fun _ => (neutral_deref _).silent.bind fun _ => silent_pure _

end Functions

/-! ## The attempts -/

section Attempts

variable [LinearOrder Value] [Inhabited Value] {d : BallotDriver X Value}
  {process : SCPEnvelope (BallotPledges Value) → Bool → Ballot X Value EnvelopeState}
  {s : BallotProtocol X Value} {Q : BallotProtocol X Value → Prop}
  {E : Failure → BallotProtocol X Value → Prop} (hE : ∀ e s', s'.messages = s.messages → E e s')

/-- Why `c` may be cleared: `h` is less than and incompatible with a prepared ballot. -/
def MayClear (r : Position Value) (c : Option (SCPBallot Value)) : Prop :=
  c = r.commit ∨ c = none ∧ ∃ h t, r.high = some h ∧ r.Top t ∧ Conflicts h t

omit [Inhabited Value] in
theorem triple_clearCommit_mayClear {r : Position Value} {m : Messages Value} :
    Partial (At r m) (clearCommit d) fun _ s => ∃ c, MayClear r c ∧ At { r with commit := c } m s := by
  refine Triple.get_bind fun s hs => Triple.pre (P := At r m) ?_ fun _ h => h ▸ hs
  obtain ⟨rfl, rfl⟩ := hs
  refine Triple.ite (fun hmust => ?_) fun _ => Triple.pure fun _ h => ⟨_, .inl rfl, h⟩
  have hclear : MayClear s.position none := by
    obtain ⟨-, hany⟩ := (Bool.and_eq_true _ _).mp hmust
    obtain ⟨h, hh, hany⟩ := (Option.any_eq_true _ _).mp hany
    obtain hp | hp := (Bool.or_eq_true _ _).mp hany
    · obtain ⟨t, ht, hless⟩ := (Option.any_eq_true _ _).mp hp
      exact .inr ⟨rfl, h, t, hh, .inl ht, conflicts_of_areBallotsLessAndIncompatible hless⟩
    · obtain ⟨t, ht, hless⟩ := (Option.any_eq_true _ _).mp hp
      exact .inr ⟨rfl, h, t, hh, .inr ht, conflicts_of_areBallotsLessAndIncompatible hless⟩
  refine ((neutral_dbgAssert d _ _).returns _ _).bind fun _ => ?_
  refine Triple.bind (Triple.modify fun s' hs' => ?_) fun _ => Triple.pure fun _ h => h
  exact ⟨none, hclear, congrArg (fun r : Position Value => { r with commit := none }) hs'.1, hs'.2⟩

include hE

theorem move_setPreparedAccept {q : SCPBallot Value} (hq : ¬ s.position.Prepared q)
    (hemit : ∀ c, MayClear (s.position.prepare q).1 c →
      Triple (At (s.position.accept q c) s.messages) (emitCurrentStateStatement d process) (fun _ => Q) E) :
    Triple (· = s) (setPreparedAccept d process q) (fun _ => Q) E := by
  refine Triple.pre (P := At s.position s.messages) ?_ fun _ h => h ▸ ⟨rfl, rfl⟩
  refine ((silent_setPrepared q).at (triple_setPrepared q) hE).bind fun prepared => ?_
  refine Triple.assume fun hprepared => ?_
  rw [Position.prepare_worked hq] at hprepared
  subst hprepared
  refine (silent_clearCommit.at triple_clearCommit_mayClear hE).bind fun cleared => ?_
  refine Triple.bind (Q := fun _ => Q) ?_ fun _ => Triple.pure fun _ h => h
  refine Triple.onlyIf (fun _ => ?_) fun h => absurd rfl h
  rintro s' ⟨c, hc, hs'⟩
  exact Triple.bind ((neutral_call _).silent.at ((neutral_call _).returns _ _) hE) (fun _ => hemit c hc) s' hs'

omit [Inhabited Value] in
theorem triple_cannotRaisePrepared_eq (q : SCPBallot Value) :
    Triple (· = s) (cannotRaisePrepared d q) (fun _ s' => s' = s) E := by
  refine (Triple.error (E := fun _ s' => s' = s) ?_ fun e s' hs' => hE e s' (hs' ▸ rfl))
  refine Triple.get_bind fun s' hs' => ?_
  subst hs'
  refine Triple.ite (fun _ => ?_) fun _ => Triple.pure fun _ h => h
  cases s'.mPrepared with
  | none => exact Triple.throw fun _ h => h
  | some p =>
    refine Triple.bind (Q := fun _ s => s = s') (Triple.pure fun _ h => h) fun p => ?_
    refine Triple.ite (fun _ => Triple.pure fun _ h => h) fun _ => ?_
    exact (triple_dbgAssert d _ _ _).bind fun _ => Triple.pure fun _ h => h

theorem move_attemptPreparedAccept (hint : BallotPledges Value) (hstay : Q s)
    (hemit : s.mPhase ≠ .SCP_PHASE_EXTERNALIZE → ∀ q c, ¬ s.position.Prepared q →
      s.federatedAccept d (votesToPrepare q) (hasPreparedBallot q) = true →
      MayClear (s.position.prepare q).1 c →
      Triple (At (s.position.accept q c) s.messages) (emitCurrentStateStatement d process) (fun _ => Q) E) :
    Triple (· = s) (attemptPreparedAccept d process hint) (fun _ => Q) E := by
  refine Triple.get_bind fun s' hs' => ?_
  subst hs'
  refine Triple.ite (fun _ => Triple.pure fun s hs => hs ▸ hstay) fun hphase => ?_
  generalize s'.getPrepareCandidates hint = candidates
  induction candidates with
  | nil => exact Triple.pure fun s hs => hs ▸ hstay
  | cons q candidates ih =>
    refine (triple_cannotRaisePrepared_eq hE q).bind fun skip => Triple.get_bind fun s hs => ?_
    subst hs
    refine Triple.ite (fun _ => ih) fun hc => Triple.ite (fun haccept => ?_) fun _ => ih
    have hq : ¬ s.position.Prepared q := fun h => hc (.inr ((alreadyPrepared_iff s q).mpr h))
    exact move_setPreparedAccept hE hq fun c => hemit hphase q c hq haccept

omit hE [Inhabited Value] in
/-- A new commit ballot is not below the current one. -/
theorem findNewC_ge (s : BallotProtocol X Value) (b newH newC : SCPBallot Value)
    (candidates : List (SCPBallot Value)) (hnewC : newC.counter ≠ 0 → b ≤ newC) :
    (s.findNewC d b newH newC candidates).counter ≠ 0 → b ≤ s.findNewC d b newH newC candidates := by
  induction candidates generalizing newC with
  | nil => exact hnewC
  | cons ballot candidates ih =>
    rw [findNewC]
    split_ifs with hlt
    · exact hnewC
    · exact ih newC hnewC
    · exact ih ballot fun _ => not_lt.mp fun h => hlt ((compareBallots_lt ballot b).mpr h)
    · exact hnewC

omit hE [Inhabited Value] in
theorem findNewH_ratified {candidates rest : List (SCPBallot Value)} {newH : SCPBallot Value}
    (hfind : s.findNewH d candidates = some (newH, rest)) :
    s.federatedRatify d (hasPreparedBallot newH) = true := by
  induction candidates with
  | nil => cases hfind
  | cons ballot candidates ih =>
    rw [findNewH] at hfind
    split_ifs at hfind with hhigh hratify
    · obtain rfl : ballot = newH := congrArg Prod.fst (Option.some.inj hfind)
      exact hratify
    · exact ih hfind

/-- What `attemptPreparedConfirmed` finds: `h` is confirmed as prepared and above the old one, `c` is between
the current ballot and `h`. -/
structure Raisable (d : BallotDriver X Value) (s : BallotProtocol X Value) (newC newH : SCPBallot Value) :
    Prop where
  above : ∀ h, s.mHighBallot = some h → h < newH
  ratified : s.federatedRatify d (hasPreparedBallot newH) = true
  le : newC.counter ≠ 0 → newC ≤ newH ∧ newC.value = newH.value
  ge : newC.counter ≠ 0 → ∀ b, s.mCurrentBallot = some b → b ≤ newC

theorem move_attemptPreparedConfirmed (hint : BallotPledges Value)
    (hstay : ∀ o s', At { s.position with override := o } s.messages s' → Q s')
    (hemit : s.mPhase = .SCP_PHASE_PREPARE → ∀ newC newH, Raisable d s newC newH →
      Triple (At (s.position.confirmPrepared newC newH).1 s.messages) (emitCurrentStateStatement d process)
        (fun _ => Q) E) :
    Triple (· = s) (attemptPreparedConfirmed d process hint) (fun _ => Q) E := by
  have hsame : ∀ s', s' = s → Q s' := fun s' hs' => hstay s.mValueOverride s' (hs' ▸ ⟨rfl, rfl⟩)
  refine Triple.get_bind fun s' hs' => ?_
  subst hs'
  refine Triple.ite (fun _ => Triple.pure hsame) fun hc => ?_
  push Not at hc
  cases hfind : s'.findNewH d (s'.getPrepareCandidates hint) with
  | none => exact Triple.pure hsame
  | some found =>
    obtain ⟨newH, candidates⟩ := found
    dsimp only
    generalize hnewC : (if s'.mayRaiseCommit newH then findNewC d s' (s'.mCurrentBallot.getD ⟨0, default⟩) newH
      ⟨0, default⟩ candidates else ⟨0, default⟩) = newC
    have hraisable : Raisable d s' newC newH := by
      refine ⟨findNewH_gt hfind, findNewH_ratified hfind, fun h0 => ?_, fun h0 b hb => ?_⟩
      · subst hnewC
        split_ifs at h0 ⊢
        · exact findNewC_le s' _ newH _ candidates (fun h => absurd rfl h) h0
        · exact absurd rfl h0
      · subst hnewC
        split_ifs at h0 ⊢
        · rw [hb] at h0 ⊢
          exact findNewC_ge s' b newH _ candidates (fun h => absurd rfl h) h0
        · exact absurd rfl h0
    refine Triple.bind (Q := fun _ => At { s'.position with override := some newH.value } s'.messages)
      (Triple.modify fun s hs => ?_) fun _ => ?_
    · subst hs
      exact ⟨rfl, rfl⟩
    refine ((silent_raiseHigh newC newH).at (triple_raiseHigh newC newH) hE).bind fun raised => ?_
    refine Triple.assume fun hraised => ?_
    refine ((silent_updateCurrentIfNeeded newH).at (triple_updateCurrentIfNeeded d newH) hE).bind fun bumped => ?_
    refine Triple.assume fun hbumped => ?_
    have hwork : (bumped || raised) = (s'.position.confirmPrepared newC newH).2 := by
      rw [hbumped, hraised]
      rfl
    refine Triple.bind (Q := fun _ => Q) ?_ fun _ => Triple.pure fun _ h => h
    refine Triple.onlyIf (fun _ => hemit hc.1 newC newH hraisable) fun hfalse s hs => ?_
    obtain ⟨-, htrue, -⟩ | ⟨b, -, -, htrue, -⟩ | heq :=
      Position.confirmPrepared_cases (r := s'.position) newC hraisable.above
    · exact absurd (hwork.trans htrue) hfalse
    · exact absurd (hwork.trans htrue) hfalse
    · have hs : At (s'.position.confirmPrepared newC newH).1 s'.messages s := hs
      rw [heq] at hs
      exact hstay (some newH.value) s hs

omit hE [LinearOrder Value] [Inhabited Value] in
theorem findExtendedInterval_pred (pred : Uint32 × Uint32 → Bool) {candidate : Uint32 × Uint32}
    (boundaries : List Uint32) (h : candidate.1 ≠ 0 → pred candidate = true) :
    (findExtendedInterval pred candidate boundaries).1 ≠ 0 →
      pred (findExtendedInterval pred candidate boundaries) = true := by
  induction boundaries generalizing candidate with
  | nil => exact h
  | cons b boundaries ih =>
    rw [findExtendedInterval]
    split_ifs with h0 hpred hgt hpred
    · exact ih fun _ => hpred
    · exact ih h
    · exact ih h
    · exact ih fun _ => hpred
    · exact h

/-- An interval of counters at which a ballot of the value is accepted as committed, on the value of the high
ballot in the CONFIRM phase. -/
structure Acceptable (d : BallotDriver X Value) (s : BallotProtocol X Value) (c h : SCPBallot Value) : Prop where
  counter : c.counter ≠ 0
  le : c ≤ h
  value : c.value = h.value
  accepted : s.federatedAccept d (votesToCommit c (c.counter, h.counter))
    (commitPredicate c (c.counter, h.counter)) = true
  high : s.mPhase ≠ .SCP_PHASE_PREPARE → ∀ h', s.mHighBallot = some h' → h'.value = h.value

theorem move_setAcceptCommit (c h : SCPBallot Value)
    (hstay : ∀ o s', At { s.position with override := o } s.messages s' → Q s')
    (hemit : Triple (At (s.position.acceptCommit c h) s.messages) (emitCurrentStateStatement d process)
      (fun _ => Q) E) :
    Triple (· = s) (setAcceptCommit d process c h) (fun _ => Q) E := by
  refine Triple.bind (Q := fun _ => At { s.position with override := some h.value } s.messages)
    (Triple.modify fun s' hs' => ?_) fun _ => ?_
  · subst hs'
    exact ⟨rfl, rfl⟩
  refine ((silent_assignCommit c h).at (triple_assignCommit c h) hE).bind fun assigned => ?_
  refine Triple.assume fun hassigned => ?_
  refine ((silent_enterConfirm h).at (triple_enterConfirm h) hE).bind fun entered => ?_
  refine Triple.assume fun hentered => ?_
  refine Triple.bind (Q := fun _ => Q) ?_ fun _ => Triple.pure fun _ h => h
  refine Triple.onlyIf (fun _ => ?_) fun hwork s' hs' => ?_
  · refine Triple.get_bind fun s₁ hs₁ => Triple.pre (P := At _ s.messages) ?_ fun _ h => h ▸ hs₁
    refine Triple.bind ((neutral_deref s₁.mHighBallot).silent.at (triple_deref _ s₁.mHighBallot) hE)
      fun high => Triple.assume fun hderef => ?_
    have hhigh₁ : s₁.mHighBallot = some h := (congrArg Position.high hs₁.1).trans (enterConfirm_high rfl)
    obtain rfl : high = h := Option.some.inj (hderef.symm.trans hhigh₁)
    refine ((silent_updateCurrentIfNeeded high).at (triple_updateCurrentIfNeeded d high) hE).bind fun _ => ?_
    refine Triple.bind (Q := fun _ => At (s.position.acceptCommit c high) s.messages) ?_ fun _ => hemit
    refine Triple.pre (P := At (s.position.acceptCommit c high) s.messages) ?_ fun _ hs => hs.1
    exact (neutral_call _).silent.at ((neutral_call _).returns _ _) hE
  · obtain ⟨hnone, hnot⟩ : assigned = false ∧ entered = false := by simpa using hwork
    obtain ⟨hcommit, hhigh⟩ := hassigned hnone
    rw [enterConfirm_of_false (hentered.symm.trans hnot), ← hcommit, ← hhigh] at hs'
    exact hstay _ s' hs'

omit [Inhabited Value] in
theorem triple_mayRaiseConfirm_eq (ballot : SCPBallot Value) :
    Triple (· = s) (mayRaiseConfirm ballot : Ballot X Value Bool) (fun mayRaise s' => s' = s ∧
      (mayRaise = true → s.mPhase = .SCP_PHASE_CONFIRM →
        ∀ h, s.mHighBallot = some h → h.value = ballot.value)) E := by
  refine Triple.get_bind fun s' hs' => ?_
  subst hs'
  refine Triple.ite (fun _ => ?_) fun hphase => Triple.pure fun _ h => ⟨h, fun _ hc => absurd hc hphase⟩
  cases hh : s'.mHighBallot with
  | none => exact Triple.throw fun s hs => hE _ s (hs ▸ rfl)
  | some h =>
    refine Triple.bind (Q := fun a s => s = s' ∧ a = h) (Triple.pure fun _ hs => ⟨hs, rfl⟩) fun a => ?_
    refine Triple.assume fun ha => Triple.pure fun s hs => ⟨hs, fun hcompatible _ h' hh' => ?_⟩
    subst ha
    obtain rfl := Option.some.inj hh'
    exact ((areBallotsCompatible_iff ballot a).mp hcompatible).symm

theorem move_attemptAcceptCommit (hint : BallotPledges Value)
    (hstay : ∀ o s', At { s.position with override := o } s.messages s' → Q s')
    (hemit : s.mPhase ≠ .SCP_PHASE_EXTERNALIZE → ∀ c h, Acceptable d s c h →
      Triple (At (s.position.acceptCommit c h) s.messages) (emitCurrentStateStatement d process)
        (fun _ => Q) E) :
    Triple (· = s) (attemptAcceptCommit d process hint) (fun _ => Q) E := by
  have hsame : ∀ s', s' = s → Q s' := fun s' hs' => hstay s.mValueOverride s' (hs' ▸ ⟨rfl, rfl⟩)
  refine Triple.get_bind fun s' hs' => ?_
  subst hs'
  refine Triple.ite (fun _ => Triple.pure hsame) fun hphase => ?_
  cases hintToAcceptCommit hint with
  | none => exact Triple.pure hsame
  | some ballot =>
    refine (triple_mayRaiseConfirm_eq hE ballot).bind fun mayRaise => Triple.assume fun hmay => ?_
    refine Triple.ite (fun htrue => ?_) fun _ => Triple.pure hsame
    refine Triple.get_bind fun s hs => ?_
    subst hs
    refine Triple.ite (fun hc => ?_) fun _ => Triple.pure hsame
    refine move_setAcceptCommit hE _ _ hstay (hemit hphase _ _ ?_)
    refine ⟨hc.1, ballot_le ballot.value (findExtendedInterval_le _ _ _ le_rfl), rfl, ?_, fun hne => ?_⟩
    · have hpred := findExtendedInterval_pred
        (fun cur => s.federatedAccept d (votesToCommit ballot cur) (commitPredicate ballot cur))
        (s.getCommitBoundariesFromStatements ballot) (fun h => absurd rfl h) hc.1
      have hv : (⟨(s.intervalToAccept d ballot).1, ballot.value⟩ : SCPBallot Value).value = ballot.value := rfl
      rw [votesToCommit_congr hv, commitPredicate_congr hv]
      exact hpred
    · refine hmay htrue ?_
      cases hp : s.mPhase with
      | SCP_PHASE_PREPARE => exact absurd hp hne
      | SCP_PHASE_CONFIRM => rfl
      | SCP_PHASE_EXTERNALIZE => exact absurd hp hphase

/-- An interval of counters at which a commit of the value of the high ballot is confirmed. -/
structure Confirmable (d : BallotDriver X Value) (s : BallotProtocol X Value) (c h : SCPBallot Value) : Prop where
  counter : c.counter ≠ 0
  le : c ≤ h
  value : c.value = h.value
  high : ∀ h', s.mHighBallot = some h' → h'.value = h.value
  ratified : s.federatedRatify d (commitPredicate c (c.counter, h.counter)) = true

theorem move_attemptConfirmCommit (hgood : s.position.Good) (hint : BallotPledges Value) (hstay : Q s)
    (hneutral : ∀ {α : Type} (x : Ballot X Value α), Neutral x → Triple Q x (fun _ => Q) E)
    (hemit : s.mPhase = .SCP_PHASE_CONFIRM → ∀ c h, Confirmable d s c h →
      Triple (At (s.position.confirmCommit c h) s.messages) (emitCurrentStateStatement d process)
        (fun _ => Q) E) :
    Triple (· = s) (attemptConfirmCommit d process hint) (fun _ => Q) E := by
  have hsame : ∀ s', s' = s → Q s' := fun s' hs' => hs' ▸ hstay
  refine Triple.get_bind fun s' hs' => ?_
  subst hs'
  refine Triple.ite (fun _ => Triple.pure hsame) fun hc => ?_
  push Not at hc
  cases hintToConfirmCommit hint with
  | none => exact Triple.pure hsame
  | some ballot =>
    refine Triple.ite (fun hfound => ?_) fun _ => Triple.pure hsame
    have hconfirmable : Confirmable d s' ⟨(s'.intervalToConfirm d ballot).1, ballot.value⟩
        ⟨(s'.intervalToConfirm d ballot).2, ballot.value⟩ := by
      have hpred := findExtendedInterval_pred (fun cur => s'.federatedRatify d (commitPredicate ballot cur))
        (s'.getCommitBoundariesFromStatements ballot) (fun h => absurd rfl h) hfound.2
      have hv : (⟨(s'.intervalToConfirm d ballot).1, ballot.value⟩ : SCPBallot Value).value = ballot.value := rfl
      refine ⟨hfound.2, ballot_le ballot.value (findExtendedInterval_le _ _ _ le_rfl), rfl, fun h' hh' => ?_, ?_⟩
      · obtain ⟨c, hcommit, hcompatible⟩ := (Option.any_eq_true _ _).mp hfound.1
        obtain ⟨h, -, hh, -, -, -, hcv, -⟩ := hgood.compatible hcommit
        obtain rfl : h = h' := Option.some.inj (hh.symm.trans hh')
        exact hcv.symm.trans ((areBallotsCompatible_iff ballot c).mp hcompatible).symm
      · rw [commitPredicate_congr hv]
        exact hpred
    refine Triple.bind (Q := fun _ => At { s'.position with
      commit := some ⟨(s'.intervalToConfirm d ballot).1, ballot.value⟩,
      high := some ⟨(s'.intervalToConfirm d ballot).2, ballot.value⟩ } s'.messages)
      (Triple.modify fun s hs => ?_) fun _ => ?_
    · subst hs
      exact ⟨rfl, rfl⟩
    refine ((silent_updateCurrentIfNeeded _).at (triple_updateCurrentIfNeeded d _) hE).bind fun _ => ?_
    refine Triple.bind (Q := fun _ => At (s'.position.confirmCommit
      ⟨(s'.intervalToConfirm d ballot).1, ballot.value⟩
      ⟨(s'.intervalToConfirm d ballot).2, ballot.value⟩) s'.messages) (Triple.modify fun s hs => ?_) fun _ => ?_
    · exact ⟨congrArg (fun r : Position Value => { r with phase := .SCP_PHASE_EXTERNALIZE }) hs.1.1, hs.1.2⟩
    refine (hemit hc.1 _ _ hconfirmable).bind fun _ => hneutral _ ?_
    refine (neutral_call _).bind fun _ => Neutral.get_bind fun s => ?_
    exact (neutral_deref _).bind fun c => (neutral_call _).bind fun _ => neutral_pure true

omit [Inhabited Value] in
/-- The current ballot only moves to a higher one that is compatible with `c`. -/
theorem move_bumpBallot (hgood : s.position.Good) (value : Value) (n : Uint32)
    (hstay : ∀ s', At s.position s.messages s' → Q s')
    (hbump : ∀ ballot, ptr s.mCurrentBallot < ptr (some ballot) →
      (∀ c, s.mCommit = some c → c.value = ballot.value) → ∀ s', At (s.position.bump ballot) s.messages s' → Q s') :
    Triple (· = s) (bumpBallot d value n) (fun _ => Q) E := by
  have hsame : ∀ s', s' = s → Q s' := fun s' hs' => hstay s' (hs' ▸ ⟨rfl, rfl⟩)
  have hcheck : ∀ ballot, ptr s.mCurrentBallot < ptr (some ballot) →
      (∀ c, s.mCommit = some c → c.value = ballot.value) → Triple (At s.position s.messages)
        (do bumpToBallot d ballot true; checkInvariants d; return true) (fun _ => Q) E := by
    intro ballot hlt hvalue
    refine ((silent_bumpToBallot ballot true).at (triple_bumpToBallot d ballot true) hE).bind fun _ => ?_
    refine ((neutral_checkInvariants d).silent.at ((neutral_checkInvariants d).returns _ _) hE).bind fun _ => ?_
    exact Triple.pure (hbump ballot hlt hvalue)
  refine Triple.get_bind fun s' hs' => ?_
  subst hs'
  refine Triple.ite (fun _ => Triple.pure hsame) fun hphase => Triple.get_bind fun s hs => ?_
  subst hs
  generalize (⟨n, s.mValueOverride.getD value⟩ : SCPBallot Value) = ballot
  refine Triple.ite (fun _ => Triple.pure hsame) fun _ => ?_
  refine Triple.pre (P := At s.position s.messages) ?_ fun _ h => h ▸ ⟨rfl, rfl⟩
  cases hb : s.mCurrentBallot with
  | none =>
    refine hcheck ballot ?_ fun c hc => ?_
    · rw [hb]
      exact WithBot.bot_lt_coe ballot
    · obtain ⟨-, b, -, hb', -⟩ := hgood.compatible hc
      exact nomatch hb.symm.trans hb'
  | some b =>
    refine Triple.get_bind fun s' hs' => ?_
    have hcommit : s'.mCommit = s.mCommit := congrArg Position.commit hs'.1
    rw [hcommit]
    refine Triple.pre (P := At s.position s.messages) ?_ fun _ h => h ▸ hs'
    refine ((neutral_dbgAssert d _ _).silent.at ((neutral_dbgAssert d _ _).returns _ _) hE).bind fun _ => ?_
    refine Triple.ite (fun _ => Triple.pure hstay) fun hany => Triple.ite (fun hlt => ?_) fun _ => ?_
    · refine hcheck ballot ?_ fun c hc => ?_
      · rw [hb]
        exact WithBot.coe_lt_coe.mpr ((compareBallots_lt b ballot).mp hlt)
      · by_contra hne
        exact hany ((Option.any_eq_true _ _).mpr ⟨c, hc, by simpa [areBallotsCompatible] using hne⟩)
    · refine Triple.ite (fun _ => Triple.pure hstay) fun _ => ?_
      refine ((neutral_checkInvariants d).silent.at ((neutral_checkInvariants d).returns _ _) hE).bind fun _ => ?_
      exact Triple.pure hstay

end Attempts

end ZaggCore.Scp.BallotProtocol
