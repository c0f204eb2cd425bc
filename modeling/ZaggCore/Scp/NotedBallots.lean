import Mathlib
import ZaggCore.Foundations.Mirrored
import ZaggCore.Scp.BallotRuns

/-! # The ballots passed to `setPrepared`

A driver that also notes the ballots that it is told are accepted as prepared. The protocol does the same
under it, and while it is in the PREPARE phase `p` and `p'` are what the noted ballots say. -/

namespace ZaggCore.Scp.BallotProtocol
open Foundations Numeric
set_option autoImplicit false
set_option maxHeartbeats 250000

variable {X Value : Type}

/-! ## The noting driver -/

/-- A call that does not look at the notes. -/
def unnoted {α : Type} (f : EStateM Exception X α) : EStateM Exception (X × List (SCPBallot Value)) α :=
  zoom Prod.fst (fun x noted => (x, noted.2)) id f

/-- The driver with notes of the ballots for which `acceptedBallotPrepared` is called, the latest first. -/
def noting (d : BallotDriver X Value) : BallotDriver (X × List (SCPBallot Value)) Value where
  NDEBUG := d.NDEBUG
  slotIndex := d.slotIndex
  localNodeID := d.localNodeID
  isValidator := d.isValidator
  quorumSet := d.quorumSet
  quorumSetHash := d.quorumSetHash
  getQSet x := d.getQSet x.1
  getLatestCompositeCandidate x := d.getLatestCompositeCandidate x.1
  signEnvelope st := unnoted (d.signEnvelope st)
  emitEnvelope env := unnoted (d.emitEnvelope env)
  validateValue v := unnoted (d.validateValue v)
  computeTimeout n := unnoted (d.computeTimeout n)
  setupTimer timeout := unnoted (d.setupTimer timeout)
  stopNomination := unnoted d.stopNomination
  startedBallotProtocol b x := (d.startedBallotProtocol b x.1, x.2)
  acceptedBallotPrepared b := do
    modify fun x => (x.1, b :: x.2)
    unnoted (d.acceptedBallotPrepared b)
  confirmedBallotPrepared b := unnoted (d.confirmedBallotPrepared b)
  acceptedCommit b := unnoted (d.acceptedCommit b)
  ballotDidHearFromQuorum b := unnoted (d.ballotDidHearFromQuorum b)
  valueExternalized v := unnoted (d.valueExternalized v)

/-- The state without the notes. -/
def unnote (s : BallotProtocol (X × List (SCPBallot Value)) Value) : BallotProtocol X Value where
  mHeardFromQuorum := s.mHeardFromQuorum
  mCurrentBallot := s.mCurrentBallot
  mPrepared := s.mPrepared
  mPreparedPrime := s.mPreparedPrime
  mHighBallot := s.mHighBallot
  mCommit := s.mCommit
  mLatestEnvelopes := s.mLatestEnvelopes
  mPhase := s.mPhase
  mValueOverride := s.mValueOverride
  mCurrentMessageLevel := s.mCurrentMessageLevel
  mLastEnvelope := s.mLastEnvelope
  mLastEnvelopeEmit := s.mLastEnvelopeEmit
  mFullyValidated := s.mFullyValidated
  mStatementsHistory := s.mStatementsHistory
  outside := s.outside.1
  emitted := s.emitted

/-! ## What the notes say -/

variable [LinearOrder Value]

/-- `p` is the greatest of the ballots and `p'` the greatest of those that are less than and incompatible
with `p`; each is unset only if there is none. -/
structure TracksPrepared (noted : List (SCPBallot Value)) (p p' : Option (SCPBallot Value)) : Prop where
  prepared : ∀ q, p = some q → IsGreatest {b | b ∈ noted} q
  unprepared : p = none → noted = [] ∧ p' = none
  prime : ∀ q q', p = some q → p' = some q' →
    IsGreatest {b | b ∈ noted ∧ areBallotsLessAndIncompatible b q = true} q'
  unprimed : ∀ q, p = some q → p' = none → ∀ b ∈ noted, ¬ areBallotsLessAndIncompatible b q = true

/-- While the protocol prepares, `p` and `p'` are what the notes say. -/
def Tracked (s : BallotProtocol (X × List (SCPBallot Value)) Value) : Prop :=
  s.mPhase = .SCP_PHASE_PREPARE → TracksPrepared s.outside.2 s.mPrepared s.mPreparedPrime

/-- A program under the noting driver that mirrors one under the driver and keeps track. -/
structure Notes {α : Type} (x : Ballot (X × List (SCPBallot Value)) Value α) (y : Ballot X Value α) :
    Prop where
  mirrors : Mirrors unnote x y
  tracked : Triple Tracked x (fun _ => Tracked) fun _ => Tracked

namespace Notes

variable {α β : Type} {x : Ballot (X × List (SCPBallot Value)) Value α} {y : Ballot X Value α}

theorem pure (a : α) : Notes (Pure.pure a : Ballot (X × List (SCPBallot Value)) Value α) (Pure.pure a) :=
  ⟨.pure a, Triple.pure fun _ h => h⟩

theorem throw (e : Failure) :
    Notes (throw e : Ballot (X × List (SCPBallot Value)) Value α) (throw e) :=
  ⟨.throw e, Triple.throw fun _ h => h⟩

theorem modify {g : BallotProtocol (X × List (SCPBallot Value)) Value → _}
    {h : BallotProtocol X Value → BallotProtocol X Value} (heq : ∀ s, unnote (g s) = h (unnote s))
    (hg : ∀ s, Tracked s → Tracked (g s)) :
    Notes (modify g : Ballot (X × List (SCPBallot Value)) Value PUnit) (modify h) :=
  ⟨.modify heq, Triple.modify hg⟩

theorem bind {x' : α → Ballot (X × List (SCPBallot Value)) Value β} {y' : α → Ballot X Value β}
    (hx : Notes x y) (hx' : ∀ a, Notes (x' a) (y' a)) : Notes (x >>= x') (y >>= y') :=
  ⟨hx.mirrors.bind fun a => (hx' a).mirrors, hx.tracked.bind fun a => (hx' a).tracked⟩

theorem discard (hx : Notes x y) : Notes (discard x) (discard y) :=
  ⟨hx.mirrors.map _, Triple.map _ hx.tracked⟩

theorem get_bind {x' : BallotProtocol (X × List (SCPBallot Value)) Value → _}
    {y' : BallotProtocol X Value → Ballot X Value β} (h : ∀ s, Notes (x' s) (y' (unnote s))) :
    Notes (get >>= x') (get >>= y') :=
  ⟨.get_bind fun s => (h s).mirrors,
    Triple.get_bind fun s hs => (h s).tracked.pre fun _ heq => heq ▸ hs⟩

theorem ite {c : Prop} [Decidable c] {x' : Ballot (X × List (SCPBallot Value)) Value α}
    {y' : Ballot X Value α} (hx : Notes x y) (hx' : Notes x' y') :
    Notes (if c then x else x') (if c then y else y') :=
  ⟨hx.mirrors.ite hx'.mirrors, Triple.ite (fun _ => hx.tracked) fun _ => hx'.tracked⟩

theorem onlyIf {c : Prop} [Decidable c] {x : Ballot (X × List (SCPBallot Value)) Value Unit}
    {y : Ballot X Value Unit} (hx : Notes x y) : Notes (onlyIf c x) (onlyIf c y) :=
  hx.ite (pure ())

end Notes

section Programs

variable {α : Type} {d : BallotDriver X Value}

omit [LinearOrder Value] in
theorem mirrors_unnoted (f : EStateM Exception X α) :
    Mirrors Prod.fst (unnoted f : EStateM Exception (X × List (SCPBallot Value)) α) f := by
  intro x
  unfold unnoted zoom mapState
  cases f x.1 <;> rfl

omit [LinearOrder Value] in
theorem mirrors_call {f : EStateM Exception (X × List (SCPBallot Value)) α} {g : EStateM Exception X α}
    (h : Mirrors Prod.fst f g) : Mirrors unnote (call f : Ballot _ Value α) (call g) :=
  h.zoom (fun _ => rfl) fun _ _ => rfl

theorem notes_call (f : EStateM Exception X α) :
    Notes (call (unnoted f) : Ballot (X × List (SCPBallot Value)) Value α) (call f) := by
  refine ⟨mirrors_call (mirrors_unnoted f), fun s hs => ?_⟩
  unfold call zoom unnoted zoom
  cases f s.outside.1 with
  | ok a x => exact hs
  | error e x => exact hs

theorem notes_deref (p : Option α) :
    Notes (deref p : Ballot (X × List (SCPBallot Value)) Value α) (deref p) := by
  cases p with
  | none => exact .throw _
  | some a => exact .pure a

theorem notes_dbgAssert (c : Option Bool) (expression : String) :
    Notes (dbgAssert (noting d) c expression) (dbgAssert d c expression) := by
  refine .ite (.pure ()) ?_
  cases c with
  | none => exact .throw _
  | some c =>
    cases c with
    | false => exact .throw _
    | true => exact .pure ()

theorem notes_forM {ι : Type} {x : ι → Ballot (X × List (SCPBallot Value)) Value PUnit}
    {y : ι → Ballot X Value PUnit} (h : ∀ i, Notes (x i) (y i)) (l : List ι) :
    Notes (l.forM x) (l.forM y) :=
  ⟨.forM (fun i => (h i).mirrors) l, Triple.forM fun i _ => (h i).tracked⟩

theorem notes_checkInvariants : Notes (checkInvariants (noting d)) (checkInvariants d) :=
  .get_bind fun s => notes_forM (fun invariant => notes_dbgAssert invariant.1 invariant.2) s.invariants

theorem notes_recordEnvelope (env : SCPEnvelope (BallotPledges Value)) :
    Notes (recordEnvelope env : Ballot (X × List (SCPBallot Value)) Value Unit) (recordEnvelope env) :=
  .modify (fun _ => rfl) fun _ h => h

theorem notes_sendLatestEnvelope : Notes (sendLatestEnvelope (noting d)) (sendLatestEnvelope d) := by
  refine .get_bind fun s => ?_
  dsimp only [unnote]
  cases s.mLastEnvelope with
  | none => exact .pure ()
  | some env =>
    refine .onlyIf (.bind (.modify (fun _ => rfl) fun _ h => h) fun _ => ?_)
    exact notes_call (d.emitEnvelope env)

/-! ## Emission -/

variable [Inhabited Value]

theorem notes_createPledges (s : BallotProtocol (X × List (SCPBallot Value)) Value) (type : SCPPhase) :
    Notes (createPledges (noting d) s type) (createPledges d (unnote s) type) := by
  cases type with
  | SCP_PHASE_PREPARE => exact .pure _
  | SCP_PHASE_CONFIRM =>
    refine (notes_deref s.mCurrentBallot).bind fun b => (notes_deref s.mPrepared).bind fun p => ?_
    exact (notes_deref s.mCommit).bind fun c => (notes_deref s.mHighBallot).bind fun h => .pure _
  | SCP_PHASE_EXTERNALIZE =>
    exact (notes_deref s.mCommit).bind fun c => (notes_deref s.mHighBallot).bind fun h => .pure _

theorem notes_createStatement (type : SCPPhase) :
    Notes (createStatement (noting d) type) (createStatement d type) := by
  refine notes_checkInvariants.bind fun _ => .get_bind fun s => ?_
  exact (notes_createPledges s type).bind fun pledges => .pure _

omit [Inhabited Value] in
theorem notes_createEnvelope (statement : SCPStatement (BallotPledges Value)) :
    Notes (createEnvelope (noting d) statement) (createEnvelope d statement) :=
  (notes_call (d.signEnvelope statement)).bind fun _ => .pure _

omit [Inhabited Value] in
theorem notes_updateLastEnvelope (canEmit : Bool) (envelope : SCPEnvelope (BallotPledges Value)) :
    Notes (updateLastEnvelope (noting d) canEmit envelope) (updateLastEnvelope d canEmit envelope) := by
  refine .get_bind fun s => .onlyIf (.bind (.modify (fun _ => rfl) fun _ h => h) fun _ => ?_)
  exact notes_sendLatestEnvelope

/-- What the functions that emit may rely on. -/
def NotesProcess
    (process' : SCPEnvelope (BallotPledges Value) → Bool →
      Ballot (X × List (SCPBallot Value)) Value EnvelopeState)
    (process : SCPEnvelope (BallotPledges Value) → Bool → Ballot X Value EnvelopeState) : Prop :=
  ∀ envelope self, Notes (process' envelope self) (process envelope self)

variable {process' : SCPEnvelope (BallotPledges Value) → Bool →
    Ballot (X × List (SCPBallot Value)) Value EnvelopeState}
  {process : SCPEnvelope (BallotPledges Value) → Bool → Ballot X Value EnvelopeState}

theorem notes_emit (hprocess : NotesProcess process' process) :
    Notes (emitCurrentStateStatement (noting d) process') (emitCurrentStateStatement d process) := by
  refine .get_bind fun s => (notes_createStatement s.mPhase).bind fun statement => ?_
  refine (notes_createEnvelope statement).bind fun envelope => .onlyIf ?_
  refine (hprocess envelope true).bind fun result => .ite ?_ (.throw _)
  exact notes_updateLastEnvelope s.mCurrentBallot.isSome envelope

/-! ## The current ballot -/

omit [Inhabited Value] in
theorem notes_bumpToBallot (ballot : SCPBallot Value) (check : Bool) :
    Notes (bumpToBallot (noting d) ballot check) (bumpToBallot d ballot check) := by
  refine .get_bind fun s => (notes_dbgAssert _ _).bind fun _ => (notes_dbgAssert _ _).bind fun _ => ?_
  refine .modify (fun s => ?_) fun s hs => ?_
  · unfold bumped unnote noting
    by_cases hnone : s.mCurrentBallot.isNone = true
    · simp [hnone]
    · simp [hnone]
  · intro hphase
    have h := hs hphase
    by_cases hnone : s.mCurrentBallot.isNone = true
    · simpa [bumped, hnone, noting] using h
    · simpa [bumped, hnone] using h

omit [Inhabited Value] in
theorem notes_updateCurrentFrom (b ballot : SCPBallot Value) :
    Notes (updateCurrentFrom (noting d) b ballot) (updateCurrentFrom d b ballot) := by
  refine .get_bind fun s => (notes_dbgAssert _ _).bind fun _ => .ite (.pure _) (.ite ?_ (.ite (.pure _) ?_))
  · exact (notes_bumpToBallot ballot true).bind fun _ => notes_checkInvariants.bind fun _ => .pure _
  · exact notes_checkInvariants.bind fun _ => .pure _

omit [Inhabited Value] in
theorem notes_updateCurrentValue (ballot : SCPBallot Value) :
    Notes (updateCurrentValue (noting d) ballot) (updateCurrentValue d ballot) := by
  refine .get_bind fun s => .ite (.pure _) ?_
  dsimp only [unnote]
  cases s.mCurrentBallot with
  | none => exact (notes_bumpToBallot ballot true).bind fun _ => notes_checkInvariants.bind fun _ => .pure _
  | some b => exact notes_updateCurrentFrom b ballot

omit [Inhabited Value] in
theorem notes_updateCurrentIfNeeded (h : SCPBallot Value) :
    Notes (updateCurrentIfNeeded (noting d) h) (updateCurrentIfNeeded d h) :=
  .get_bind fun _ => .ite ((notes_bumpToBallot h true).bind fun _ => .pure _) (.pure _)

/-! ## Heard from a quorum -/

omit [Inhabited Value] in
theorem notes_startBallotProtocolTimer (b : SCPBallot Value) :
    Notes (startBallotProtocolTimer (noting d) b) (startBallotProtocolTimer d b) :=
  (notes_call (d.computeTimeout b.counter)).bind fun timeout => notes_call (d.setupTimer timeout)

omit [Inhabited Value] in
theorem notes_hearFromQuorum (b : SCPBallot Value) :
    Notes (hearFromQuorum (noting d) b) (hearFromQuorum d b) := by
  refine .get_bind fun s => .bind (.modify (fun _ => rfl) fun _ h => h) fun _ => .bind ?_ fun _ => ?_
  · refine .onlyIf ((notes_call (d.ballotDidHearFromQuorum b)).bind fun _ => ?_)
    exact .onlyIf (notes_startBallotProtocolTimer b)
  · exact .onlyIf (notes_call (d.setupTimer 0))

omit [Inhabited Value] in
theorem notes_checkHeardFromQuorum :
    Notes (checkHeardFromQuorum (noting d)) (checkHeardFromQuorum d) := by
  refine .get_bind fun s => ?_
  dsimp only [unnote]
  cases s.mCurrentBallot with
  | none => exact .pure ()
  | some b =>
    refine .ite (notes_hearFromQuorum b) (.bind (.modify (fun _ => rfl) fun _ h => h) fun _ => ?_)
    exact notes_call (d.setupTimer 0)

/-! ## Bumping -/

omit [Inhabited Value] in
theorem notes_bumpBallot (value : Value) (n : Uint32) :
    Notes (bumpBallot (noting d) value n) (bumpBallot d value n) :=
  .get_bind fun s => .ite (.pure _) (notes_updateCurrentValue ⟨n, s.mValueOverride.getD value⟩)

theorem notes_bumpStateTo (hprocess : NotesProcess process' process) (value : Value) (n : Uint32) :
    Notes (bumpStateTo (noting d) process' value n) (bumpStateTo d process value n) := by
  refine (notes_bumpBallot value n).bind fun updated => .bind (.onlyIf ?_) fun _ => .pure _
  exact (notes_emit hprocess).bind fun _ => notes_checkHeardFromQuorum

theorem notes_bumpState (hprocess : NotesProcess process' process) (value : Value) (force : Bool) :
    Notes (bumpState (noting d) process' value force) (bumpState d process value force) := by
  refine .get_bind fun s => ?_
  dsimp only [unnote]
  cases s.mCurrentBallot with
  | none => exact notes_bumpStateTo hprocess value 1
  | some b => exact .ite (notes_bumpStateTo hprocess value (b.counter + 1)) (.pure _)

theorem notes_abandonBallot (hprocess : NotesProcess process' process) (n : Uint32) :
    Notes (abandonBallot (noting d) process' n) (abandonBallot d process n) := by
  refine .get_bind fun s => .ite (.pure _) (.ite ?_ ?_)
  · exact notes_bumpState hprocess _ true
  · exact notes_bumpStateTo hprocess _ n

omit [LinearOrder Value] [Inhabited Value] in
theorem findBump_unnote (s : BallotProtocol (X × List (SCPBallot Value)) Value) (targetCounter : Uint32)
    (l : List Uint32) :
    findBump (noting d) s targetCounter l = findBump d (unnote s) targetCounter l := by
  induction l with
  | nil => rfl
  | cons n l ih =>
    unfold findBump
    rw [ih]
    rfl

theorem notes_attemptBump (hprocess : NotesProcess process' process) :
    Notes (attemptBump (noting d) process') (attemptBump d process) := by
  refine .get_bind fun s => .ite (.pure _) ?_
  dsimp only
  rw [findBump_unnote]
  dsimp only [unnote]
  split
  · exact .pure _
  · exact notes_abandonBallot hprocess _

/-! ## Prepared ballots -/

section Tracks

variable {noted : List (SCPBallot Value)} {p p' : Option (SCPBallot Value)} {b q : SCPBallot Value}

omit [Inhabited Value] in
theorem lt_of_lessAndIncompatible (h : areBallotsLessAndIncompatible b q = true) : b < q := by
  obtain ⟨hle, hne⟩ := (areBallotsLessAndIncompatible_iff b q).mp h
  exact lt_of_le_of_ne hle fun heq => hne (congrArg SCPBallot.value heq)

omit [Inhabited Value] in
/-- The first ballot. -/
theorem TracksPrepared.first (h : TracksPrepared noted none p') (b : SCPBallot Value) :
    TracksPrepared (b :: noted) (some b) p' := by
  obtain ⟨rfl, rfl⟩ := h.unprepared rfl
  have hself : ∀ c ∈ [b], c = b := fun c hc => List.mem_singleton.mp hc
  refine ⟨fun q hq => ?_, (fun hq => by cases hq), (fun _ _ _ hq' => by cases hq'), fun q hq _ c hc hless => ?_⟩
  · obtain rfl := Option.some.inj hq
    exact ⟨List.mem_singleton_self _, fun c hc => (hself c hc).le⟩
  · obtain rfl := Option.some.inj hq
    rw [hself c hc] at hless
    exact absurd (lt_of_lessAndIncompatible hless) (lt_irrefl _)

omit [Inhabited Value] in
/-- A greater ballot becomes `p`; an old `p` that is incompatible with it becomes `p'`. -/
theorem TracksPrepared.raise (h : TracksPrepared noted (some q) p') (hlt : q < b) :
    TracksPrepared (b :: noted) (some b) (if areBallotsCompatible q b then p' else some q) := by
  obtain ⟨hq, hgreatest⟩ := h.prepared q rfl
  have hself : ¬ areBallotsLessAndIncompatible b b = true :=
    fun hless => lt_irrefl b (lt_of_lessAndIncompatible hless)
  refine ⟨fun c hc => ?_, (fun hc => by cases hc), fun c c' hc hc' => ?_, fun c hc hnone c' hc' hless => ?_⟩
  · obtain rfl := Option.some.inj hc
    refine ⟨List.mem_cons_self, fun c hc => ?_⟩
    obtain rfl | hmem := List.mem_cons.mp hc
    · exact le_rfl
    · exact (hgreatest hmem).trans hlt.le
  · obtain rfl := Option.some.inj hc
    by_cases hvalue : q.value = b.value
    · rw [if_pos ((areBallotsCompatible_iff q b).mpr hvalue)] at hc'
      obtain ⟨⟨hmem, hless⟩, hmax⟩ := h.prime q c' rfl hc'
      obtain ⟨hle, hne⟩ := (areBallotsLessAndIncompatible_iff c' q).mp hless
      refine ⟨⟨List.mem_cons_of_mem _ hmem, ?_⟩, fun e he => ?_⟩
      · exact (areBallotsLessAndIncompatible_iff c' b).mpr ⟨hle.trans hlt.le, hvalue ▸ hne⟩
      · obtain ⟨he, hless'⟩ := he
        obtain rfl | he := List.mem_cons.mp he
        · exact absurd hless' hself
        · have hne' := ((areBallotsLessAndIncompatible_iff e b).mp hless').2
          exact hmax ⟨he, (areBallotsLessAndIncompatible_iff e q).mpr ⟨hgreatest he, hvalue ▸ hne'⟩⟩
    · rw [if_neg fun hc => hvalue ((areBallotsCompatible_iff q b).mp hc)] at hc'
      obtain rfl := Option.some.inj hc'
      refine ⟨⟨List.mem_cons_of_mem _ hq, ?_⟩, fun e he => ?_⟩
      · exact (areBallotsLessAndIncompatible_iff q b).mpr ⟨hlt.le, hvalue⟩
      · obtain ⟨he, hless'⟩ := he
        obtain rfl | he := List.mem_cons.mp he
        · exact absurd hless' hself
        · exact hgreatest he
  · obtain rfl := Option.some.inj hc
    obtain rfl | hmem := List.mem_cons.mp hc'
    · exact hself hless
    · by_cases hvalue : q.value = b.value
      · rw [if_pos ((areBallotsCompatible_iff q b).mpr hvalue)] at hnone
        have hne := ((areBallotsLessAndIncompatible_iff c' b).mp hless).2
        refine h.unprimed q rfl hnone c' hmem ?_
        exact (areBallotsLessAndIncompatible_iff c' q).mpr ⟨hgreatest hmem, hvalue ▸ hne⟩
      · rw [if_neg fun hc => hvalue ((areBallotsCompatible_iff q b).mp hc)] at hnone
        cases hnone

omit [Inhabited Value] in
/-- A ballot between `p'` and `p` that is incompatible with `p` becomes `p'`. -/
theorem TracksPrepared.raisePrime (h : TracksPrepared noted (some q) p') (hlt : b < q)
    (hvalue : b.value ≠ q.value) (hprime : ∀ c, p' = some c → c < b) :
    TracksPrepared (b :: noted) (some q) (some b) := by
  obtain ⟨hq, hgreatest⟩ := h.prepared q rfl
  refine ⟨fun c hc => ?_, (fun hc => by cases hc), fun c c' hc hc' => ?_, (fun _ _ hc' => by cases hc')⟩
  · obtain rfl := Option.some.inj hc
    refine ⟨List.mem_cons_of_mem _ hq, fun c hc => ?_⟩
    obtain rfl | hmem := List.mem_cons.mp hc
    · exact hlt.le
    · exact hgreatest hmem
  · obtain rfl := Option.some.inj hc
    obtain rfl := Option.some.inj hc'
    refine ⟨⟨List.mem_cons_self, ?_⟩, fun e he => ?_⟩
    · exact (areBallotsLessAndIncompatible_iff b q).mpr ⟨hlt.le, hvalue⟩
    · obtain ⟨he, hless⟩ := he
      obtain rfl | he := List.mem_cons.mp he
      · exact le_rfl
      · cases hp' : p' with
        | none => exact absurd hless (h.unprimed q rfl hp' e he)
        | some c => exact ((h.prime q c rfl hp').2 ⟨he, hless⟩).trans (hprime c hp').le

end Tracks

omit [Inhabited Value] in
/-- A ballot that is not prepared already makes `setPrepared` work, and is then tracked. -/
theorem setPrepared_ok {s : BallotProtocol X Value} {ballot : SCPBallot Value}
    (hready : ¬ s.alreadyPrepared ballot = true) :
    ∃ p p', setPrepared ballot s = .ok true { s with mPrepared := p, mPreparedPrime := p' } ∧
      ∀ noted, TracksPrepared noted s.mPrepared s.mPreparedPrime →
        TracksPrepared (ballot :: noted) p p' := by
  simp only [alreadyPrepared, Bool.or_eq_true, not_or] at hready
  obtain ⟨hprime, hcovered⟩ := hready
  have hprime' : ∀ c, s.mPreparedPrime = some c → c < ballot := by
    intro c hc
    rw [hc] at hprime
    simpa [compareBallots_le] using hprime
  unfold setPrepared
  cases hp : s.mPrepared with
  | none =>
    refine ⟨some ballot, s.mPreparedPrime, bind_ok.mpr ⟨s, s, rfl, ?_⟩, fun noted h => h.first ballot⟩
    rw [hp]
    rfl
  | some q =>
    rw [hp] at hcovered
    by_cases hlt : compareBallots q ballot < 0
    · refine ⟨some ballot, if areBallotsCompatible q ballot then s.mPreparedPrime else some q,
        bind_ok.mpr ⟨s, s, rfl, ?_⟩, fun noted h => h.raise ((compareBallots_lt q ballot).mp hlt)⟩
      rw [hp]
      dsimp only
      rw [if_pos hlt]
      rfl
    · have hle : ballot ≤ q := not_lt.mp fun h => hlt ((compareBallots_lt q ballot).mpr h)
      -- the ballot is not `p` itself, which covers it
      have hvalue : ballot.value ≠ q.value := by
        intro heq
        apply hcovered
        simpa using (areBallotsLessAndCompatible_iff ballot q).mpr ⟨hle, heq⟩
      have hbelow : ballot < q := lt_of_le_of_ne hle fun heq => hvalue (congrArg SCPBallot.value heq)
      have hall : s.mPreparedPrime.all (fun p' => decide (compareBallots p' ballot < 0)) = true :=
        (Option.all_eq_true _ _).mpr fun c hc => decide_eq_true ((compareBallots_lt c ballot).mpr (hprime' c hc))
      refine ⟨some q, some ballot, bind_ok.mpr ⟨s, s, rfl, ?_⟩,
        fun noted h => h.raisePrime hbelow hvalue hprime'⟩
      rw [hp]
      dsimp only
      rw [if_neg hlt, if_pos ⟨(compareBallots_gt q ballot).mpr hbelow, hall⟩, ← hp]
      rfl

omit [Inhabited Value] in
theorem mirrors_setPrepared (ballot : SCPBallot Value) :
    Mirrors unnote (setPrepared ballot : Ballot (X × List (SCPBallot Value)) Value Bool)
      (setPrepared ballot) := by
  refine .get_bind fun s => ?_
  dsimp only [unnote]
  cases s.mPrepared with
  | none => exact .bind (.modify fun _ => rfl) fun _ => .pure _
  | some p =>
    refine .ite (.bind (.modify fun s' => rfl) fun _ => .pure _) (.ite ?_ (.pure _))
    exact .bind (.modify fun _ => rfl) fun _ => .pure _

omit [Inhabited Value] in
theorem mirrors_clearCommit : Mirrors unnote (clearCommit (noting d)) (clearCommit d) := by
  refine .get_bind fun s => .ite (.bind (notes_dbgAssert _ _).mirrors fun _ => ?_) (.pure _)
  exact .bind (.modify fun _ => rfl) fun _ => .pure _

/-- The ballot is tracked, and its note is still to be made. -/
def Unnoted (ballot : SCPBallot Value) (prepared : Bool)
    (s : BallotProtocol (X × List (SCPBallot Value)) Value) : Prop :=
  s.mPhase = .SCP_PHASE_PREPARE →
    prepared = true ∧ TracksPrepared (ballot :: s.outside.2) s.mPrepared s.mPreparedPrime

omit [Inhabited Value] in
theorem tracked_clearCommit (ballot : SCPBallot Value) (prepared : Bool) :
    Triple (Unnoted ballot prepared) (clearCommit (noting d)) (fun _ => Unnoted ballot prepared)
      fun _ => Tracked := by
  refine Triple.get_bind fun s hs => Triple.ite (fun _ => ?_) fun _ => Triple.pure fun _ h => h ▸ hs
  refine Triple.bind (Q := fun _ s' => s' = s) ?_ fun _ =>
    Triple.bind (Q := fun _ => Unnoted ballot prepared) (Triple.modify fun s' hs' => ?_) fun _ =>
      Triple.pure fun _ h => h
  · -- an assertion that fails does so outside of the PREPARE phase
    by_cases hphase : s.mPhase = .SCP_PHASE_PREPARE
    · rw [decide_eq_true hphase]
      exact Triple.ite (fun _ => Triple.pure fun _ h => h) fun _ => Triple.pure fun _ h => h
    · refine (triple_dbgAssert (noting d) (· = s) _ _).error fun _ s' hs' hphase' => ?_
      subst hs'
      exact absurd hphase' hphase
  · subst hs'
    exact hs

omit [Inhabited Value] in
theorem tracked_acceptedBallotPrepared (ballot : SCPBallot Value) (prepared : Bool) :
    Triple (Unnoted ballot prepared) (call ((noting d).acceptedBallotPrepared ballot))
      (fun _ => Tracked) fun _ => Tracked := by
  intro s hs
  have heq : call ((noting d).acceptedBallotPrepared ballot) s =
      call (unnoted (d.acceptedBallotPrepared ballot))
        { s with outside := (s.outside.1, ballot :: s.outside.2) } := rfl
  rw [heq]
  exact (notes_call (d.acceptedBallotPrepared ballot)).tracked _ fun hphase => (hs hphase).2

omit [LinearOrder Value] [Inhabited Value] in
theorem mirrors_acceptedBallotPrepared (ballot : SCPBallot Value) :
    Mirrors unnote (call ((noting d).acceptedBallotPrepared ballot) : Ballot _ Value Unit)
      (call (d.acceptedBallotPrepared ballot)) := by
  apply mirrors_call
  intro x
  exact mirrors_unnoted (d.acceptedBallotPrepared ballot) (x.1, ballot :: x.2)

theorem mirrors_setPreparedAccept (hprocess : NotesProcess process' process) (ballot : SCPBallot Value) :
    Mirrors unnote (setPreparedAccept (noting d) process' ballot) (setPreparedAccept d process ballot) := by
  refine (mirrors_setPrepared ballot).bind fun prepared => mirrors_clearCommit.bind fun cleared => ?_
  refine .bind (.onlyIf ?_) fun _ => .pure _
  exact (mirrors_acceptedBallotPrepared ballot).bind fun _ => (notes_emit hprocess).mirrors

theorem tracked_setPreparedAccept (hprocess : NotesProcess process' process) (ballot : SCPBallot Value)
    {s₀ : BallotProtocol (X × List (SCPBallot Value)) Value}
    (hready : ¬ s₀.alreadyPrepared ballot = true) (hs₀ : Tracked s₀) :
    Triple (· = s₀) (setPreparedAccept (noting d) process' ballot) (fun _ => Tracked) fun _ => Tracked := by
  refine Triple.bind (Q := Unnoted ballot) ?_ fun prepared =>
    (tracked_clearCommit ballot prepared).bind fun cleared => ?_
  · rintro s rfl
    obtain ⟨p, p', heq, htracks⟩ := setPrepared_ok hready
    rw [heq]
    exact fun hphase => ⟨rfl, htracks _ (hs₀ hphase)⟩
  refine Triple.bind (Q := fun _ => Tracked) (Triple.onlyIf (fun _ => ?_) fun hno s hs hphase => ?_)
    fun _ => Triple.pure fun _ h => h
  · exact (tracked_acceptedBallotPrepared ballot prepared).bind fun _ => (notes_emit hprocess).tracked
  · rw [(hs hphase).1] at hno
    exact absurd rfl hno

omit [Inhabited Value] in
theorem notes_cannotRaisePrepared (ballot : SCPBallot Value) :
    Notes (cannotRaisePrepared (noting d) ballot) (cannotRaisePrepared d ballot) := by
  refine .get_bind fun s => .ite ((notes_deref s.mPrepared).bind fun p => ?_) (.pure _)
  exact .ite (.pure _) ((notes_dbgAssert _ _).bind fun _ => .pure _)

theorem notes_acceptPrepared (hprocess : NotesProcess process' process)
    (candidates : List (SCPBallot Value)) :
    Notes (acceptPrepared (noting d) process' candidates) (acceptPrepared d process candidates) := by
  induction candidates with
  | nil => exact .pure _
  | cons ballot candidates ih =>
    constructor
    · refine (notes_cannotRaisePrepared ballot).mirrors.bind fun skip => .get_bind fun s => ?_
      exact .ite ih.mirrors (.ite (mirrors_setPreparedAccept hprocess ballot) ih.mirrors)
    · refine (notes_cannotRaisePrepared ballot).tracked.bind fun skip => Triple.get_bind fun s hs => ?_
      refine Triple.ite (fun _ => ih.tracked.pre fun _ h => h ▸ hs) fun hno => ?_
      refine Triple.ite (fun _ => ?_) fun _ => ih.tracked.pre fun _ h => h ▸ hs
      exact tracked_setPreparedAccept hprocess ballot (fun h => hno (.inr h)) hs

theorem notes_attemptPreparedAccept (hprocess : NotesProcess process' process)
    (hint : BallotPledges Value) :
    Notes (attemptPreparedAccept (noting d) process' hint) (attemptPreparedAccept d process hint) :=
  .get_bind fun s => .ite (.pure _) (notes_acceptPrepared hprocess (s.getPrepareCandidates hint))

/-! ## Confirmed prepared ballots -/

omit [Inhabited Value] in
theorem findNewH_unnote (s : BallotProtocol (X × List (SCPBallot Value)) Value)
    (l : List (SCPBallot Value)) : findNewH (noting d) s l = findNewH d (unnote s) l := by
  induction l with
  | nil => rfl
  | cons ballot l ih =>
    unfold findNewH
    rw [ih]
    rfl

omit [Inhabited Value] in
theorem findNewC_unnote (s : BallotProtocol (X × List (SCPBallot Value)) Value)
    (b newH newC : SCPBallot Value) (l : List (SCPBallot Value)) :
    findNewC (noting d) s b newH newC l = findNewC d (unnote s) b newH newC l := by
  induction l generalizing newC with
  | nil => rfl
  | cons ballot l ih =>
    unfold findNewC
    rw [ih, ih]
    rfl

omit [Inhabited Value] in
theorem notes_raiseHigh (newC newH : SCPBallot Value) :
    Notes (raiseHigh (noting d) newC newH) (raiseHigh d newC newH) := by
  refine .get_bind fun s => .ite (.bind (.modify (fun _ => rfl) fun _ h => h) fun _ => ?_) (.pure _)
  refine .bind (.onlyIf ((notes_dbgAssert _ _).bind fun _ => .modify (fun _ => rfl) fun _ h => h)) fun _ => ?_
  exact .bind (.onlyIf (notes_call (d.confirmedBallotPrepared newH))) fun _ => .pure _

theorem notes_setPreparedConfirmed (hprocess : NotesProcess process' process)
    (newC newH : SCPBallot Value) :
    Notes (setPreparedConfirmed (noting d) process' newC newH)
      (setPreparedConfirmed d process newC newH) := by
  refine .bind (.modify (fun _ => rfl) fun _ h => h) fun _ => (notes_raiseHigh newC newH).bind fun raised => ?_
  refine (notes_updateCurrentIfNeeded newH).bind fun bumped => .bind (.onlyIf ?_) fun _ => .pure _
  exact notes_emit hprocess

theorem notes_attemptPreparedConfirmed (hprocess : NotesProcess process' process)
    (hint : BallotPledges Value) :
    Notes (attemptPreparedConfirmed (noting d) process' hint)
      (attemptPreparedConfirmed d process hint) := by
  refine .get_bind fun s => .ite (.pure _) ?_
  have hcandidates : (unnote s).getPrepareCandidates hint = s.getPrepareCandidates hint := rfl
  rw [hcandidates, findNewH_unnote]
  cases findNewH d (unnote s) (s.getPrepareCandidates hint) with
  | none => exact .pure _
  | some found =>
    obtain ⟨newH, candidates⟩ := found
    dsimp only
    rw [findNewC_unnote]
    exact notes_setPreparedConfirmed hprocess _ newH

/-! ## Commits -/

omit [Inhabited Value] in
theorem notes_assignCommit (c h : SCPBallot Value) :
    Notes (assignCommit c h : Ballot (X × List (SCPBallot Value)) Value Bool) (assignCommit c h) :=
  .get_bind fun _ => .ite (.bind (.modify (fun _ => rfl) fun _ h => h) fun _ => .pure _) (.pure _)

omit [Inhabited Value] in
/-- From the CONFIRM phase on nothing is tracked. -/
theorem notes_enterConfirm (h : SCPBallot Value) :
    Notes (enterConfirm (noting d) h) (enterConfirm d h) := by
  constructor
  · refine .get_bind fun s => .ite (.bind (.modify fun _ => rfl) fun _ => ?_) (.pure _)
    refine .bind (.onlyIf (notes_bumpToBallot h false).mirrors) fun _ => ?_
    exact .bind (.modify fun _ => rfl) fun _ => .pure _
  · refine Triple.get_bind fun s hs => Triple.ite (fun _ => ?_) fun _ => Triple.pure fun _ h => h ▸ hs
    have hconfirm : ∀ s : BallotProtocol (X × List (SCPBallot Value)) Value,
        s.mPhase = .SCP_PHASE_CONFIRM → Tracked s := by
      intro s hconfirm hphase
      rw [hconfirm] at hphase
      cases hphase
    refine Triple.bind (Q := fun _ s => s.mPhase = .SCP_PHASE_CONFIRM) (Triple.modify fun _ _ => rfl)
      fun _ => ?_
    refine Triple.bind (Q := fun _ s => s.mPhase = .SCP_PHASE_CONFIRM) (Triple.onlyIf (fun _ => ?_)
      fun _ _ h => h) fun _ => Triple.bind (Q := fun _ s => s.mPhase = .SCP_PHASE_CONFIRM)
        (Triple.modify fun _ h => h) fun _ => Triple.pure hconfirm
    refine Triple.get_bind fun s hs => ?_
    refine ((triple_dbgAssert _ _ _ _).error fun _ s' hs' => ?_).bind fun _ =>
      ((triple_dbgAssert _ _ _ _).error fun _ s' hs' => ?_).bind fun _ => Triple.modify fun s' hs' => ?_
    · exact hconfirm s' (hs' ▸ hs)
    · exact hconfirm s' (hs' ▸ hs)
    · exact hs' ▸ hs

theorem notes_setAcceptCommit (hprocess : NotesProcess process' process) (c h : SCPBallot Value) :
    Notes (setAcceptCommit (noting d) process' c h) (setAcceptCommit d process c h) := by
  refine .bind (.modify (fun _ => rfl) fun _ h => h) fun _ => (notes_assignCommit c h).bind fun assigned => ?_
  refine (notes_enterConfirm h).bind fun entered => .bind (.onlyIf ?_) fun _ => .pure _
  refine .get_bind fun s => (notes_deref s.mHighBallot).bind fun high => ?_
  refine (notes_updateCurrentIfNeeded high).bind fun _ => (notes_call (d.acceptedCommit h)).bind fun _ => ?_
  exact notes_emit hprocess

omit [Inhabited Value] in
theorem notes_mayRaiseConfirm (ballot : SCPBallot Value) :
    Notes (mayRaiseConfirm ballot : Ballot (X × List (SCPBallot Value)) Value Bool)
      (mayRaiseConfirm ballot) :=
  .get_bind fun s => .ite ((notes_deref s.mHighBallot).bind fun _ => .pure _) (.pure _)

theorem notes_acceptInterval (hprocess : NotesProcess process' process) (ballot : SCPBallot Value)
    (candidate : Uint32 × Uint32) :
    Notes (acceptInterval (noting d) process' ballot candidate)
      (acceptInterval d process ballot candidate) :=
  .get_bind fun _ => .ite (notes_setAcceptCommit hprocess _ _) (.pure _)

theorem notes_attemptAcceptCommit (hprocess : NotesProcess process' process)
    (hint : BallotPledges Value) :
    Notes (attemptAcceptCommit (noting d) process' hint) (attemptAcceptCommit d process hint) := by
  refine .get_bind fun s => .ite (.pure _) ?_
  cases hintToAcceptCommit hint with
  | none => exact .pure _
  | some ballot =>
    refine (notes_mayRaiseConfirm ballot).bind fun may => .ite ?_ (.pure _)
    exact notes_acceptInterval hprocess ballot (s.intervalToAccept (noting d) ballot)

theorem notes_setConfirmCommit (hprocess : NotesProcess process' process) (c h : SCPBallot Value) :
    Notes (setConfirmCommit (noting d) process' c h) (setConfirmCommit d process c h) := by
  refine .bind (.modify (fun _ => rfl) fun _ h => h) fun _ => (notes_updateCurrentIfNeeded h).bind fun _ => ?_
  refine .bind (.modify (fun _ => rfl) fun _ _ hphase => by cases hphase) fun _ => ?_
  refine (notes_emit hprocess).bind fun _ => (notes_call d.stopNomination).bind fun _ => ?_
  refine .get_bind fun s => (notes_deref s.mCommit).bind fun c => ?_
  exact (notes_call (d.valueExternalized c.value)).bind fun _ => .pure _

theorem notes_attemptConfirmCommit (hprocess : NotesProcess process' process)
    (hint : BallotPledges Value) :
    Notes (attemptConfirmCommit (noting d) process' hint) (attemptConfirmCommit d process hint) := by
  refine .get_bind fun s => .ite (.pure _) ?_
  cases hintToConfirmCommit hint with
  | none => exact .pure _
  | some ballot => exact .ite (notes_setConfirmCommit hprocess _ _) (.pure _)

/-! ## Advancing -/

theorem notes_bumpAll (hprocess : NotesProcess process' process) (fuel : ℕ) :
    Notes (bumpAll (noting d) process' fuel) (bumpAll d process fuel) := by
  induction fuel with
  | zero => exact .throw _
  | succ fuel ih =>
    exact (notes_attemptBump hprocess).bind fun didBump => .ite (ih.bind fun _ => .pure _) (.pure _)

theorem notes_bumpAtTop (hprocess : NotesProcess process' process) (fuel : ℕ) :
    Notes (bumpAtTop (noting d) process' fuel) (bumpAtTop d process fuel) := by
  refine .get_bind fun s => .ite ((notes_bumpAll hprocess fuel).bind fun didBump => ?_) (.pure _)
  exact notes_checkHeardFromQuorum.bind fun _ => .pure _

theorem notes_advanceSlot (hprocess : NotesProcess process' process) (fuel : ℕ)
    (hint : BallotPledges Value) :
    Notes (advanceSlot (noting d) process' fuel hint) (advanceSlot d process fuel hint) := by
  refine .bind (.modify (fun _ => rfl) fun _ h => h) fun _ => .get_bind fun s => ?_
  refine .bind (.onlyIf (.throw _)) fun _ => (notes_attemptPreparedAccept hprocess hint).bind fun _ => ?_
  refine (notes_attemptPreparedConfirmed hprocess hint).bind fun _ => ?_
  refine (notes_attemptAcceptCommit hprocess hint).bind fun _ => ?_
  refine (notes_attemptConfirmCommit hprocess hint).bind fun _ => (notes_bumpAtTop hprocess fuel).bind fun _ => ?_
  exact .bind (.modify (fun _ => rfl) fun _ h => h) fun _ => .onlyIf notes_sendLatestEnvelope

/-! ## Received envelopes -/

omit [Inhabited Value] in
theorem notes_validateValues (st : BallotPledges Value) :
    Notes (validateValues (noting d) st) (validateValues d st) := by
  have hnext : ∀ res v, Notes (validateNext (noting d) res v) (validateNext d res v) :=
    fun res v => (notes_call (d.validateValue v)).bind fun _ => .pure _
  exact ⟨.foldlM (fun res v => (hnext res v).mirrors) _ _, Triple.foldlM (fun res v _ => (hnext res v).tracked) _⟩

theorem notes_processEnvelope (fuel : ℕ) :
    NotesProcess (processEnvelope (noting d) fuel) (processEnvelope d fuel) := by
  induction fuel with
  | zero => exact fun _ _ => .throw _
  | succ fuel ih =>
    intro envelope self
    refine .get_bind fun s => .ite ((notes_validateValues _).bind fun validationRes => ?_) (.pure _)
    refine .ite (.pure _) (.ite ?_ ?_)
    · refine .bind (.onlyIf (.modify (fun _ => rfl) fun _ h => h)) fun _ => ?_
      refine (notes_recordEnvelope envelope).bind fun _ => ?_
      exact (notes_advanceSlot ih fuel envelope.statement.pledges).bind fun _ => .pure _
    · refine .get_bind fun s => (notes_deref s.mCommit).bind fun c => .ite ?_ (.pure _)
      exact (notes_recordEnvelope envelope).bind fun _ => .pure _

end Programs

/-! ## Runs -/

variable [Inhabited Value]

/-- `handle` under the noting driver; what changes outside leaves the notes. -/
def handleNoting (d : BallotDriver X Value) (fuel : ℕ) :
    Event X Value → Ballot (X × List (SCPBallot Value)) Value Unit
  | .bumpState value force => discard (bumpState (noting d) (processEnvelope (noting d) fuel) value force)
  | .ballotProtocolTimerExpired => ballotProtocolTimerExpired (noting d) (processEnvelope (noting d) fuel)
  | .recvSCPEnvelope envelope => recvSCPEnvelope (noting d) fuel envelope
  | .outside x => modify fun s => { s with outside := (x, s.outside.2) }

def stepNoting (d : BallotDriver X Value) (fuel : ℕ)
    (s : BallotProtocol (X × List (SCPBallot Value)) Value) (event : Event X Value) :
    BallotProtocol (X × List (SCPBallot Value)) Value :=
  after (handleNoting d fuel event s)

/-- The run of the slot under the noting driver. -/
def notingRun (d : BallotDriver X Value) (fuel : ℕ) (outside : X) (events : List (Event X Value)) :
    BallotProtocol (X × List (SCPBallot Value)) Value :=
  events.foldl (stepNoting d fuel) (new (noting d) (outside, []))

/-- The ballots that were passed to `setPrepared` in the run, the latest first. -/
def passedToSetPrepared (d : BallotDriver X Value) (fuel : ℕ) (outside : X)
    (events : List (Event X Value)) : List (SCPBallot Value) :=
  (notingRun d fuel outside events).outside.2

variable (d : BallotDriver X Value)

theorem notes_handle (fuel : ℕ) (event : Event X Value) :
    Notes (handleNoting d fuel event) (handle d fuel event) := by
  have hprocess := notes_processEnvelope (d := d) fuel
  cases event with
  | bumpState value force => exact (notes_bumpState hprocess value force).discard
  | ballotProtocolTimerExpired => exact (notes_abandonBallot hprocess 0).discard
  | recvSCPEnvelope envelope => exact .onlyIf (hprocess envelope false).discard
  | outside x => exact .modify (fun _ => rfl) fun _ h => h

theorem notingRun_unnote (fuel : ℕ) (outside : X) (events : List (Event X Value)) :
    unnote (notingRun d fuel outside events) = events.foldl (step d fuel) (new d outside) := by
  have hfold : ∀ (events : List (Event X Value)) s,
      unnote (events.foldl (stepNoting d fuel) s) = events.foldl (step d fuel) (unnote s) := by
    intro events
    induction events with
    | nil => exact fun _ => rfl
    | cons event events ih =>
      intro s
      have hstep : unnote (stepNoting d fuel s event) = step d fuel (unnote s) event := by
        have hmirrors := (notes_handle d fuel event).mirrors s
        exact (after_mapState _).symm.trans (congrArg after hmirrors)
      rw [List.foldl_cons, List.foldl_cons, ih, hstep]
  exact hfold events (new (noting d) (outside, []))

theorem tracked_notingRun (fuel : ℕ) (outside : X) (events : List (Event X Value)) :
    Tracked (notingRun d fuel outside events) := by
  have hfold : ∀ (events : List (Event X Value)) s, Tracked s →
      Tracked (events.foldl (stepNoting d fuel) s) := by
    intro events
    induction events with
    | nil => exact fun _ h => h
    | cons event events ih =>
      intro s hs
      have hstep : Tracked (stepNoting d fuel s event) :=
        ((notes_handle d fuel event).tracked s hs).after (fun _ _ h => h) fun _ _ h => h
      exact ih _ hstep
  refine hfold events _ fun _ => ⟨?_, fun _ => ⟨rfl, rfl⟩, ?_, ?_⟩
  · intro q hq
    cases hq
  · intro q q' hq
    cases hq
  · intro q hq
    cases hq

/-- **`p` and `p'` are what was passed to `setPrepared`.** Each call of it does work and is noted, and in the
PREPARE phase, after any run from a fresh slot, `p` is the greatest ballot noted and `p'` the greatest of
those that are less than and incompatible with it. -/
theorem tracks_prepared (fuel : ℕ) (outside : X) (events : List (Event X Value)) :
    (∀ (s : BallotProtocol X Value) (ballot : SCPBallot Value), ¬ s.alreadyPrepared ballot = true →
        ∃ s', setPrepared ballot s = .ok true s') ∧
      ((events.foldl (step d fuel) (new d outside)).mPhase = .SCP_PHASE_PREPARE →
        TracksPrepared (passedToSetPrepared d fuel outside events)
          (events.foldl (step d fuel) (new d outside)).mPrepared
          (events.foldl (step d fuel) (new d outside)).mPreparedPrime) := by
  constructor
  · intro s ballot hready
    obtain ⟨p, p', heq, -⟩ := setPrepared_ok hready
    exact ⟨_, heq⟩
  · intro hphase
    rw [← notingRun_unnote] at hphase ⊢
    exact tracked_notingRun d fuel outside events hphase

/-- Node 2 accepts one value as prepared, and then another one. -/
def twoPrepared : List (Event Unit (List (Fin 256))) :=
  [.bumpState [5] false,
    .recvSCPEnvelope ⟨⟨2, 1, .prepare 7 ⟨1, [5]⟩ (some ⟨1, [5]⟩) none 0 0⟩, []⟩,
    .recvSCPEnvelope ⟨⟨2, 1, .prepare 7 ⟨2, [8]⟩ (some ⟨2, [8]⟩) (some ⟨1, [5]⟩) 0 0⟩, []⟩]

theorem tracks_prepared_two :
    passedToSetPrepared twoNodes 6 () twoPrepared = [⟨2, [8]⟩, ⟨1, [5]⟩] ∧
      TracksPrepared [⟨2, [8]⟩, ⟨1, [5]⟩] (some ⟨2, [8]⟩) (some ⟨1, ([5] : List (Fin 256))⟩) := by
  have hnoted : passedToSetPrepared twoNodes 6 () twoPrepared = [⟨2, [8]⟩, ⟨1, [5]⟩] := by
    decide +kernel
  have hp : (twoPrepared.foldl (step twoNodes 6) (new twoNodes ())).mPrepared = some ⟨2, [8]⟩ := by
    decide +kernel
  have hp' : (twoPrepared.foldl (step twoNodes 6) (new twoNodes ())).mPreparedPrime = some ⟨1, [5]⟩ := by
    decide +kernel
  have htracks := (tracks_prepared twoNodes 6 () twoPrepared).2 (by decide +kernel)
  rw [hnoted, hp, hp'] at htracks
  exact ⟨hnoted, htracks⟩

end ZaggCore.Scp.BallotProtocol
