import ZaggCore.Scp.SCPDriver
import ZaggCore.Scp.LocalNode

/-! # `BallotProtocol`

The model of `scp/BallotProtocol.cpp`. A null pointer is `none`, and following one throws; `dbgAssert`
does nothing in a release build. A `std::set` is a list in the order in which the code runs through it.
The functions that emit take `process`, which stands for `Slot::processEnvelope`: `processEnvelope` ties
the knot with fuel, which also bounds the loop of `advanceSlot`. -/

namespace ZaggCore.Scp
open Foundations Numeric
set_option autoImplicit false
set_option maxHeartbeats 250000

/-- The virtual functions of `SCPDriver` that the ballot protocol calls, at the slot, with what the slot
and the local node know of themselves. -/
structure BallotDriver (X Value : Type) where
  /-- Whether the build is a release one, in which `dbgAssert` does nothing. -/
  NDEBUG : Bool
  slotIndex : ℕ
  localNodeID : NodeID
  isValidator : Bool
  quorumSet : SCPQuorumSet
  quorumSetHash : Hash
  getQSet : X → Hash → Option SCPQuorumSet
  getLatestCompositeCandidate : X → Value
  signEnvelope : SCPStatement (BallotPledges Value) → EStateM Exception X Signature
  emitEnvelope : SCPEnvelope (BallotPledges Value) → EStateM Exception X Unit
  validateValue : Value → EStateM Exception X ValidationLevel
  computeTimeout : Uint32 → EStateM Exception X ℕ
  setupTimer : ℕ → EStateM Exception X Unit
  stopNomination : EStateM Exception X Unit
  startedBallotProtocol : SCPBallot Value → X → X
  acceptedBallotPrepared : SCPBallot Value → EStateM Exception X Unit
  confirmedBallotPrepared : SCPBallot Value → EStateM Exception X Unit
  acceptedCommit : SCPBallot Value → EStateM Exception X Unit
  ballotDidHearFromQuorum : SCPBallot Value → EStateM Exception X Unit
  valueExternalized : Value → EStateM Exception X Unit

inductive SCPPhase where
  | SCP_PHASE_PREPARE
  | SCP_PHASE_CONFIRM
  | SCP_PHASE_EXTERNALIZE
  deriving DecidableEq, Repr

/-- The fields of the class, those of the slot that it changes, the state outside and the envelopes
handed to `emitEnvelope`, the latest first as in `mStatementsHistory`. An envelope is only replaced by a
newer one, so that the pointers `mLastEnvelope` and `mLastEnvelopeEmit` are compared by what they point
to. -/
structure BallotProtocol (X Value : Type) where
  mHeardFromQuorum : Bool
  mCurrentBallot : Option (SCPBallot Value)
  mPrepared : Option (SCPBallot Value)
  mPreparedPrime : Option (SCPBallot Value)
  mHighBallot : Option (SCPBallot Value)
  mCommit : Option (SCPBallot Value)
  mLatestEnvelopes : List (SCPEnvelope (BallotPledges Value))
  mPhase : SCPPhase
  mValueOverride : Option Value
  mCurrentMessageLevel : ℕ
  mLastEnvelope : Option (SCPEnvelope (BallotPledges Value))
  mLastEnvelopeEmit : Option (SCPEnvelope (BallotPledges Value))
  mFullyValidated : Bool
  mStatementsHistory : List (SCPStatement (BallotPledges Value))
  outside : X
  emitted : List (SCPEnvelope (BallotPledges Value))

namespace BallotProtocol

variable {X Value : Type}

/-- The protocol of a fresh slot. -/
def new (d : BallotDriver X Value) (outside : X) : BallotProtocol X Value where
  mHeardFromQuorum := false
  mCurrentBallot := none
  mPrepared := none
  mPreparedPrime := none
  mHighBallot := none
  mCommit := none
  mLatestEnvelopes := []
  mPhase := .SCP_PHASE_PREPARE
  mValueOverride := none
  mCurrentMessageLevel := 0
  mLastEnvelope := none
  mLastEnvelopeEmit := none
  mFullyValidated := d.isValidator
  mStatementsHistory := []
  outside := outside
  emitted := []

/-! ## Ballots -/

section Ballots

variable [LinearOrder Value]

def compareBallots (b1 b2 : SCPBallot Value) : ℤ :=
  if b1.counter < b2.counter then -1
  else if b2.counter < b1.counter then 1
  else if b1.value < b2.value then -1
  else if b2.value < b1.value then 1
  else 0

/-- The overload on pointers. -/
def compareBallotPtrs : Option (SCPBallot Value) → Option (SCPBallot Value) → ℤ
  | some b1, some b2 => compareBallots b1 b2
  | some _, none => 1
  | none, some _ => -1
  | none, none => 0

def areBallotsCompatible (b1 b2 : SCPBallot Value) : Bool := decide (b1.value = b2.value)

def areBallotsLessAndIncompatible (b1 b2 : SCPBallot Value) : Bool :=
  decide (compareBallots b1 b2 ≤ 0) && !areBallotsCompatible b1 b2

def areBallotsLessAndCompatible (b1 b2 : SCPBallot Value) : Bool :=
  decide (compareBallots b1 b2 ≤ 0) && areBallotsCompatible b1 b2

/-- Insert into a `std::set` of ballots that is run through from its end. -/
def insertBallot (b : SCPBallot Value) : List (SCPBallot Value) → List (SCPBallot Value)
  | [] => [b]
  | c :: set =>
    if compareBallots b c > 0 then b :: c :: set
    else if compareBallots b c = 0 then c :: set
    else c :: insertBallot b set

end Ballots

/-- Insert into a `std::set<uint32>` that is run through from its end. -/
def insertCounter (n : Uint32) : List Uint32 → List Uint32
  | [] => [n]
  | m :: set => if n > m then n :: m :: set else if n = m then m :: set else m :: insertCounter n set

/-! ## Statements -/

section Statements

variable [LinearOrder Value]

/-- "total ordering described in SCP paper" -/
def isNewerStatement (oldst st : BallotPledges Value) : Bool :=
  match oldst, st with
  | .externalize .., .externalize .. => false
  | .confirm oldBallot oldNPrepared _ oldNH _, .confirm ballot nPrepared _ nH _ =>
    let compBallot := compareBallots oldBallot ballot
    if compBallot < 0 then true
    else if compBallot = 0 then
      if oldNPrepared = nPrepared then decide (oldNH < nH) else decide (oldNPrepared < nPrepared)
    else false
  | .prepare _ oldBallot oldPrepared oldPreparedPrime _ oldNH,
      .prepare _ ballot prepared preparedPrime _ nH =>
    let compBallot := compareBallots oldBallot ballot
    if compBallot < 0 then true
    else if compBallot = 0 then
      let compBallot := compareBallotPtrs oldPrepared prepared
      if compBallot < 0 then true
      else if compBallot = 0 then
        let compBallot := compareBallotPtrs oldPreparedPrime preparedPrime
        if compBallot < 0 then true
        else if compBallot = 0 then decide (oldNH < nH)
        else false
      else false
    else false
  | oldst, st => decide (oldst.type < st.type)

/-- The part of `isStatementSane` after the check of the quorum set. -/
def isPledgesSane (self : Bool) : BallotPledges Value → Bool
  | .prepare _ ballot prepared preparedPrime nC nH =>
    -- "self is allowed to have b = 0 (as long as it never gets emitted)"
    (self || decide (ballot.counter > 0)) &&
      (match preparedPrime, prepared with
        | some preparedPrime, some prepared => areBallotsLessAndIncompatible preparedPrime prepared
        | _, _ => true) &&
      (decide (nH = 0) || prepared.any fun prepared => decide (nH ≤ prepared.counter)) &&
      -- "c != 0 -> c <= h <= b"
      (decide (nC = 0) || (decide (nH ≠ 0) && decide (ballot.counter ≥ nH) && decide (nH ≥ nC)))
  | .confirm ballot _ nCommit nH _ =>
    decide (ballot.counter > 0) && decide (nH ≤ ballot.counter) && decide (nCommit ≤ nH)
  | .externalize commit nH _ => decide (commit.counter > 0) && decide (nH ≥ commit.counter)

def getWorkingBallot : BallotPledges Value → SCPBallot Value
  | .prepare _ ballot .. => ballot
  | .confirm ballot _ nCommit .. => ⟨nCommit, ballot.value⟩
  | .externalize commit .. => commit

/-- The values that `validateValues` validates, in ascending order. -/
def statementValues : BallotPledges Value → List Value
  | .prepare _ ballot prepared .. =>
    let values := (if ballot.counter ≠ 0 then [ballot.value] else []) ++
      (prepared.map SCPBallot.value).toList
    match values with
    | [v, w] => if v < w then [v, w] else if w < v then [w, v] else [v]
    | _ => values
  | .confirm ballot .. => [ballot.value]
  | .externalize commit .. => [commit.value]

def hasPreparedBallot (ballot : SCPBallot Value) : BallotPledges Value → Bool
  | .prepare _ _ prepared preparedPrime .. =>
    prepared.any (areBallotsLessAndCompatible ballot) ||
      preparedPrime.any (areBallotsLessAndCompatible ballot)
  | .confirm b nPrepared .. => areBallotsLessAndCompatible ballot ⟨nPrepared, b.value⟩
  | .externalize commit .. => areBallotsCompatible ballot commit

/-- "checks if any node is voting for this ballot" -/
def votesToPrepare (ballot : SCPBallot Value) : BallotPledges Value → Bool
  | .prepare _ b .. => areBallotsLessAndCompatible ballot b
  | .confirm b .. => areBallotsCompatible ballot b
  | .externalize commit .. => areBallotsCompatible ballot commit

def commitPredicate (ballot : SCPBallot Value) (check : Uint32 × Uint32) :
    BallotPledges Value → Bool
  | .prepare .. => false
  | .confirm b _ nCommit nH _ =>
    areBallotsCompatible ballot b && decide (nCommit ≤ check.1) && decide (check.2 ≤ nH)
  | .externalize commit .. =>
    areBallotsCompatible ballot commit && decide (commit.counter ≤ check.1)

/-- The statements that vote to commit the interval. -/
def votesToCommit (ballot : SCPBallot Value) (cur : Uint32 × Uint32) : BallotPledges Value → Bool
  | .prepare _ b _ _ nC nH =>
    areBallotsCompatible ballot b && decide (nC ≠ 0) && decide (nC ≤ cur.1) && decide (cur.2 ≤ nH)
  | .confirm b _ nCommit .. => areBallotsCompatible ballot b && decide (nCommit ≤ cur.1)
  | .externalize commit .. => areBallotsCompatible ballot commit && decide (commit.counter ≤ cur.1)

/-- The ballots that `getPrepareCandidates` takes from the hint. -/
def hintBallots : BallotPledges Value → List (SCPBallot Value)
  | .prepare _ ballot prepared preparedPrime .. => ballot :: prepared.toList ++ preparedPrime.toList
  | .confirm ballot nPrepared .. => [⟨nPrepared, ballot.value⟩, ⟨UINT32_MAX, ballot.value⟩]
  | .externalize commit .. => [⟨UINT32_MAX, commit.value⟩]

/-- "find candidates that may have been prepared" -/
def candidatesOf (topVote : SCPBallot Value) : BallotPledges Value → List (SCPBallot Value)
  | .prepare _ ballot prepared preparedPrime .. =>
    (ballot :: prepared.toList ++ preparedPrime.toList).filter
      fun b => areBallotsLessAndCompatible b topVote
  | .confirm ballot nPrepared .. =>
    if areBallotsCompatible topVote ballot then
      topVote :: if nPrepared < topVote.counter then [⟨nPrepared, topVote.value⟩] else []
    else []
  | .externalize commit .. => if areBallotsCompatible topVote commit then [topVote] else []

/-- The counters at which what a statement says of a commit ballot changes. -/
def commitBoundaries (ballot : SCPBallot Value) : BallotPledges Value → List Uint32
  | .prepare _ b _ _ nC nH => if areBallotsCompatible ballot b ∧ nC ≠ 0 then [nC, nH] else []
  | .confirm b _ nCommit nH _ => if areBallotsCompatible ballot b then [nCommit, nH] else []
  | .externalize commit nH _ =>
    if areBallotsCompatible ballot commit then [commit.counter, nH, UINT32_MAX] else []

/-- The ballot that `attemptAcceptCommit` takes from the hint. -/
def hintToAcceptCommit : BallotPledges Value → Option (SCPBallot Value)
  | .prepare _ ballot _ _ nC nH => if nC ≠ 0 then some ⟨nH, ballot.value⟩ else none
  | .confirm ballot _ _ nH _ => some ⟨nH, ballot.value⟩
  | .externalize commit nH _ => some ⟨nH, commit.value⟩

/-- The ballot that `attemptConfirmCommit` takes from the hint. -/
def hintToConfirmCommit : BallotPledges Value → Option (SCPBallot Value)
  | .prepare .. => none
  | .confirm ballot _ _ nH _ => some ⟨nH, ballot.value⟩
  | .externalize commit nH _ => some ⟨nH, commit.value⟩

/-- The counter that a statement is at in `attemptBump`. -/
def bumpCounter : BallotPledges Value → Uint32
  | .prepare _ ballot .. => ballot.counter
  | .confirm ballot .. => ballot.counter
  | .externalize .. => UINT32_MAX

/-- Whether a statement is ahead of a counter. -/
def isAhead (n : Uint32) : BallotPledges Value → Bool
  | .prepare _ ballot .. => decide (n < ballot.counter)
  | .confirm ballot .. => decide (n < ballot.counter)
  | .externalize .. => decide (n ≠ UINT32_MAX)

/-- Whether a statement counts as heard from at a counter. -/
def isAtCounter (n : Uint32) : BallotPledges Value → Bool
  | .prepare _ ballot .. => decide (n ≤ ballot.counter)
  | _ => true

/-- The loop of `findExtendedInterval` over the boundaries from the top. -/
def findExtendedInterval (pred : Uint32 × Uint32 → Bool) (candidate : Uint32 × Uint32) :
    List Uint32 → Uint32 × Uint32
  | [] => candidate
  | b :: boundaries =>
    if candidate.1 = 0 then
      if pred (b, b) then findExtendedInterval pred (b, b) boundaries
      else findExtendedInterval pred candidate boundaries
    else if b > candidate.2 then findExtendedInterval pred candidate boundaries
    else if pred (b, candidate.2) then findExtendedInterval pred (b, candidate.2) boundaries
    else candidate

end Statements

/-! ## Calls -/

abbrev Ballot (X Value : Type) := EStateM Failure (BallotProtocol X Value)

/-- A call of the driver. -/
def call {α : Type} (f : EStateM Exception X α) : Ballot X Value α :=
  zoom outside (fun x s => { s with outside := x }) .driver f

/-- `*p` -/
def deref {α : Type} : Option α → Ballot X Value α
  | some a => return a
  | none => throw .nullDereference

variable (d : BallotDriver X Value)

/-- A condition that follows a null pointer has no value. -/
def dbgAssert (c : Option Bool) (expression : String) : Ballot X Value Unit :=
  if d.NDEBUG then pure ()
  else match c with
    | none => throw .nullDereference
    | some true => pure ()
    | some false => throw (.dbgAssert expression)

def getQuorumSetFromStatement (x : X) (st : SCPStatement (BallotPledges Value)) :
    Option SCPQuorumSet :=
  match st.pledges with
  | .prepare quorumSetHash .. => d.getQSet x quorumSetHash
  | .confirm _ _ _ _ quorumSetHash => d.getQSet x quorumSetHash
  | .externalize .. => some (.mk 1 [st.nodeID] [])

def federatedAccept (s : BallotProtocol X Value) (voted accepted : BallotPledges Value → Bool) : Bool :=
  Slot.federatedAccept d.quorumSet (getQuorumSetFromStatement d s.outside)
    (fun st => voted st.pledges) (fun st => accepted st.pledges) s.mLatestEnvelopes

def federatedRatify (s : BallotProtocol X Value) (voted : BallotPledges Value → Bool) : Bool :=
  Slot.federatedRatify d.quorumSet (getQuorumSetFromStatement d s.outside)
    (fun st => voted st.pledges) s.mLatestEnvelopes

section Functions

variable [LinearOrder Value]

/-! ## Invariants and statements -/

/-- The conditions of `checkInvariants`, in order. -/
def invariants (s : BallotProtocol X Value) : List (Option Bool × String) :=
  [(some (s.mCurrentBallot.all fun b => decide (b.counter ≠ 0)), "mCurrentBallot->counter != 0"),
    (some (match s.mPrepared, s.mPreparedPrime with
      | some p, some p' => areBallotsLessAndIncompatible p' p
      | _, _ => true), "areBallotsLessAndIncompatible(*mPreparedPrime, *mPrepared)"),
    (some (s.mHighBallot.isNone || s.mCurrentBallot.isSome), "mCurrentBallot"),
    (match s.mHighBallot with
      | none => some true
      | some h => s.mCurrentBallot.map (areBallotsLessAndCompatible h),
      "areBallotsLessAndCompatible(*mHighBallot, *mCurrentBallot)"),
    (some (s.mCommit.isNone || s.mCurrentBallot.isSome), "mCurrentBallot"),
    (match s.mCommit with
      | none => some true
      | some c => s.mHighBallot.map (areBallotsLessAndCompatible c),
      "areBallotsLessAndCompatible(*mCommit, *mHighBallot)"),
    (if s.mCommit.isNone then some true
      else s.mHighBallot.bind fun h => s.mCurrentBallot.map (areBallotsLessAndCompatible h),
      "areBallotsLessAndCompatible(*mHighBallot, *mCurrentBallot)"),
    (some (decide (s.mPhase = .SCP_PHASE_PREPARE) || s.mCommit.isSome), "mCommit"),
    (some (decide (s.mPhase ≠ .SCP_PHASE_EXTERNALIZE) || s.mHighBallot.isSome), "mHighBallot")]

def checkInvariants : Ballot X Value Unit := do
  let s ← get
  s.invariants.forM fun invariant => dbgAssert d invariant.1 invariant.2

/-- The pledges of `createStatement`: a ballot that is not set leaves the zeros of the XDR type. -/
def createPledges [Inhabited Value] (s : BallotProtocol X Value) :
    SCPPhase → Ballot X Value (BallotPledges Value)
  | .SCP_PHASE_PREPARE =>
    return .prepare d.quorumSetHash (s.mCurrentBallot.getD ⟨0, default⟩) s.mPrepared s.mPreparedPrime
      (s.mCommit.elim 0 SCPBallot.counter) (s.mHighBallot.elim 0 SCPBallot.counter)
  | .SCP_PHASE_CONFIRM => do
    let b ← deref s.mCurrentBallot
    let p ← deref s.mPrepared
    let c ← deref s.mCommit
    let h ← deref s.mHighBallot
    return .confirm b p.counter c.counter h.counter d.quorumSetHash
  | .SCP_PHASE_EXTERNALIZE => do
    let c ← deref s.mCommit
    let h ← deref s.mHighBallot
    return .externalize c h.counter d.quorumSetHash

/-- The statement type that belongs to a phase has its name. -/
def createStatement [Inhabited Value] (type : SCPPhase) :
    Ballot X Value (SCPStatement (BallotPledges Value)) := do
  checkInvariants d
  let s ← get
  let pledges ← createPledges d s type
  return { nodeID := d.localNodeID, slotIndex := d.slotIndex, pledges := pledges }

def createEnvelope (statement : SCPStatement (BallotPledges Value)) :
    Ballot X Value (SCPEnvelope (BallotPledges Value)) := do
  let signature ← call (d.signEnvelope statement)
  return { statement := statement, signature := signature }

def recordEnvelope (env : SCPEnvelope (BallotPledges Value)) : Ballot X Value Unit :=
  modify fun s => { s with
    mLatestEnvelopes := LocalNode.insertOrAssign s.mLatestEnvelopes env
    mStatementsHistory := env.statement :: s.mStatementsHistory }

/-- "emit current envelope if needed" -/
def sendLatestEnvelope : Ballot X Value Unit := do
  let s ← get
  match s.mLastEnvelope with
  | none => return
  | some env =>
    onlyIf (s.mCurrentMessageLevel = 0 ∧ s.mFullyValidated ∧ s.mLastEnvelopeEmit ≠ some env) do
      modify fun s => { s with mLastEnvelopeEmit := some env, emitted := env :: s.emitted }
      call (d.emitEnvelope env)

variable [Inhabited Value]
  (process : SCPEnvelope (BallotPledges Value) → Bool → Ballot X Value EnvelopeState)

/-- The envelope becomes the last one and is sent unless `advanceSlot` will send it. -/
def updateLastEnvelope (canEmit : Bool) (envelope : SCPEnvelope (BallotPledges Value)) :
    Ballot X Value Unit := do
  let s ← get
  onlyIf (canEmit ∧ s.mLastEnvelope.all fun last =>
      isNewerStatement last.statement.pledges envelope.statement.pledges) do
    modify fun s => { s with mLastEnvelope := some envelope }
    sendLatestEnvelope d

def emitCurrentStateStatement : Ballot X Value Unit := do
  let s ← get
  let statement ← createStatement d s.mPhase
  let envelope ← createEnvelope d statement
  -- "if we generate the same envelope, don't process it again"
  onlyIf (LocalNode.find s.mLatestEnvelopes d.localNodeID ≠ some envelope) do
    if (← process envelope true) = .VALID then
      updateLastEnvelope d s.mCurrentBallot.isSome envelope
    else throw (.runtime_error "moved to a bad state (ballot protocol)")

/-! ## The current ballot -/

/-- The assignments of `bumpToBallot`. -/
def bumped (ballot : SCPBallot Value) (s : BallotProtocol X Value) : BallotProtocol X Value :=
  { s with
    outside := if s.mCurrentBallot.isNone then d.startedBallotProtocol ballot s.outside else s.outside
    mCurrentBallot := some ballot
    -- "invariant: h.value = b.value"
    mHighBallot := s.mHighBallot.filter fun h => areBallotsCompatible ballot h
    mHeardFromQuorum :=
      if s.mCurrentBallot.all fun b => b.counter ≠ ballot.counter then false else s.mHeardFromQuorum }

def bumpToBallot (ballot : SCPBallot Value) (check : Bool) : Ballot X Value Unit := do
  let s ← get
  dbgAssert d (some (decide (s.mPhase ≠ .SCP_PHASE_EXTERNALIZE))) "mPhase != SCP_PHASE_EXTERNALIZE"
  dbgAssert d
    (some (!check || s.mCurrentBallot.all fun b => decide (compareBallots ballot b ≥ 0)))
    "!mCurrentBallot || compareBallots(ballot, *mCurrentBallot) >= 0"
  modify (bumped d ballot)

/-- The branches of `updateCurrentValue` once there is a current ballot. -/
def updateCurrentFrom (mCurrentBallot ballot : SCPBallot Value) : Ballot X Value Bool := do
  let s ← get
  dbgAssert d (some (decide (compareBallots mCurrentBallot ballot ≤ 0)))
    "compareBallots(*mCurrentBallot, ballot) <= 0"
  if s.mCommit.any fun c => !areBallotsCompatible c ballot then return false
  else if compareBallots mCurrentBallot ballot < 0 then
    bumpToBallot d ballot true
    checkInvariants d
    return true
  else if compareBallots mCurrentBallot ballot > 0 then return false
  else
    checkInvariants d
    return false

/-- "enforcing invariants" -/
def updateCurrentValue (ballot : SCPBallot Value) : Ballot X Value Bool := do
  let s ← get
  if s.mPhase = .SCP_PHASE_EXTERNALIZE then return false
  else match s.mCurrentBallot with
    | none =>
      bumpToBallot d ballot true
      checkInvariants d
      return true
    | some b => updateCurrentFrom d b ballot

def updateCurrentIfNeeded (h : SCPBallot Value) : Ballot X Value Bool := do
  let s ← get
  if s.mCurrentBallot.all fun b => decide (compareBallots b h < 0) then
    bumpToBallot d h true
    return true
  else return false

/-! ## Heard from a quorum -/

def startBallotProtocolTimer (b : SCPBallot Value) : Ballot X Value Unit := do
  let timeout ← call (d.computeTimeout b.counter)
  call (d.setupTimer timeout)

def stopBallotProtocolTimer : Ballot X Value Unit := call (d.setupTimer 0)

/-- The branch of `checkHeardFromQuorum` in which a quorum was heard. -/
def hearFromQuorum (b : SCPBallot Value) : Ballot X Value Unit := do
  let s ← get
  modify fun s => { s with mHeardFromQuorum := true }
  onlyIf (¬ s.mHeardFromQuorum) do
    call (d.ballotDidHearFromQuorum b)
    onlyIf (s.mPhase ≠ .SCP_PHASE_EXTERNALIZE) (startBallotProtocolTimer d b)
  onlyIf (s.mPhase = .SCP_PHASE_EXTERNALIZE) (stopBallotProtocolTimer d)

def checkHeardFromQuorum : Ballot X Value Unit := do
  let s ← get
  match s.mCurrentBallot with
  | none => return
  | some b =>
    if LocalNode.isQuorum d.quorumSet s.mLatestEnvelopes (getQuorumSetFromStatement d s.outside)
        fun st => isAtCounter b.counter st.pledges then
      hearFromQuorum d b
    else
      modify fun s => { s with mHeardFromQuorum := false }
      stopBallotProtocolTimer d

/-! ## Bumping -/

/-- The part of `bumpState` that moves to the ballot, without the emission. -/
def bumpBallot (value : Value) (n : Uint32) : Ballot X Value Bool := do
  let s ← get
  if s.mPhase = .SCP_PHASE_EXTERNALIZE then return false
  -- "we use the value that we saw confirmed prepared or that we at least voted to commit to"
  else updateCurrentValue d ⟨n, s.mValueOverride.getD value⟩

/-- The "flavor that takes the actual desired counter value". -/
def bumpStateTo (value : Value) (n : Uint32) : Ballot X Value Bool := do
  let updated ← bumpBallot d value n
  onlyIf updated do
    emitCurrentStateStatement d process
    checkHeardFromQuorum d
  return updated

def bumpState (value : Value) (force : Bool) : Ballot X Value Bool := do
  let s ← get
  match s.mCurrentBallot with
  | none => bumpStateTo d process value 1
  | some b => if force then bumpStateTo d process value (b.counter + 1) else return false

/-- The value that `abandonBallot` bumps with. -/
def abandonValue (s : BallotProtocol X Value) : Value :=
  let v := d.getLatestCompositeCandidate s.outside
  if v = default then s.mCurrentBallot.elim v SCPBallot.value else v

/-- "move to a new ballot at counter `n` (or, if n == 0, increment current counter)" -/
def abandonBallot (n : Uint32) : Ballot X Value Bool := do
  let s ← get
  let v := s.abandonValue d
  if v = default then return false
  else if n = 0 then bumpState d process v true
  else bumpStateTo d process v n

def ballotProtocolTimerExpired : Ballot X Value Unit := discard (abandonBallot d process 0)

/-- "find the smallest not v-blocking" -/
def findBump (s : BallotProtocol X Value) (targetCounter : Uint32) : List Uint32 → Option Uint32
  | [] => none
  | n :: allCounters =>
    if n < targetCounter then none
    else
      let vBlocking := LocalNode.isVBlocking d.quorumSet s.mLatestEnvelopes fun st => isAhead n st.pledges
      if n = targetCounter then if vBlocking then findBump s targetCounter allCounters else none
      else if vBlocking then findBump s targetCounter allCounters
      else some n

def attemptBump : Ballot X Value Bool := do
  let s ← get
  if s.mPhase = .SCP_PHASE_EXTERNALIZE then return false
  else
    let targetCounter := s.mCurrentBallot.elim 0 SCPBallot.counter
    let allCounters := insertCounter targetCounter
      ((s.mLatestEnvelopes.map fun e => bumpCounter e.statement.pledges).foldr insertCounter [])
    match findBump d s targetCounter allCounters.reverse with
    | none => return false
    | some n => abandonBallot d process n

/-! ## Prepared ballots -/

/-- The candidates from the highest to the lowest. -/
def getPrepareCandidates (s : BallotProtocol X Value) (hint : BallotPledges Value) :
    List (SCPBallot Value) :=
  let topVotes := (hintBallots hint).foldr insertBallot []
  (topVotes.flatMap fun topVote =>
    s.mLatestEnvelopes.flatMap fun e => candidatesOf topVote e.statement.pledges).foldr insertBallot []

/-- "attempts to update p to ballot (updating p' if needed)" -/
def setPrepared (ballot : SCPBallot Value) : Ballot X Value Bool := do
  let s ← get
  match s.mPrepared with
  | none =>
    modify fun s => { s with mPrepared := some ballot }
    return true
  | some p =>
    let comp := compareBallots p ballot
    if comp < 0 then
      modify fun s => { s with
        mPreparedPrime := if areBallotsCompatible p ballot then s.mPreparedPrime else some p
        mPrepared := some ballot }
      return true
    else if comp > 0 ∧ s.mPreparedPrime.all fun p' => decide (compareBallots p' ballot < 0) then
      modify fun s => { s with mPreparedPrime := some ballot }
      return true
    else return false

/-- Whether `setPreparedAccept` has "to clear 'c'". -/
def mustClearCommit (s : BallotProtocol X Value) : Bool :=
  s.mCommit.isSome && s.mHighBallot.any fun h =>
    s.mPrepared.any (areBallotsLessAndIncompatible h) ||
      s.mPreparedPrime.any (areBallotsLessAndIncompatible h)

def clearCommit : Ballot X Value Bool := do
  let s ← get
  if s.mustClearCommit then
    dbgAssert d (some (decide (s.mPhase = .SCP_PHASE_PREPARE))) "mPhase == SCP_PHASE_PREPARE"
    modify fun s => { s with mCommit := none }
    return true
  else return false

def setPreparedAccept (ballot : SCPBallot Value) : Ballot X Value Bool := do
  let prepared ← setPrepared ballot
  let cleared ← clearCommit d
  let didWork := prepared || cleared
  onlyIf didWork do
    call (d.acceptedBallotPrepared ballot)
    emitCurrentStateStatement d process
  return didWork

/-- The check at the head of the loop in the CONFIRM phase: whether to `continue`. -/
def cannotRaisePrepared (ballot : SCPBallot Value) : Ballot X Value Bool := do
  let s ← get
  if s.mPhase = .SCP_PHASE_CONFIRM then
    let p ← deref s.mPrepared
    if !areBallotsLessAndCompatible p ballot then return true
    else
      dbgAssert d (s.mCommit.map fun c => areBallotsCompatible c ballot)
        "areBallotsCompatible(*mCommit, ballot)"
      return false
  else return false

/-- "if we already prepared this ballot, don't bother checking again" -/
def alreadyPrepared (s : BallotProtocol X Value) (ballot : SCPBallot Value) : Bool :=
  s.mPreparedPrime.any (fun p' => decide (compareBallots ballot p' ≤ 0)) ||
    s.mPrepared.any (areBallotsLessAndCompatible ballot)

/-- The loop of `attemptPreparedAccept`, "starting with the highest". -/
def acceptPrepared : List (SCPBallot Value) → Ballot X Value Bool
  | [] => return false
  | ballot :: candidates => do
    let skip ← cannotRaisePrepared d ballot
    let s ← get
    if skip ∨ s.alreadyPrepared ballot then acceptPrepared candidates
    else if s.federatedAccept d (votesToPrepare ballot) (hasPreparedBallot ballot) then
      setPreparedAccept d process ballot
    else acceptPrepared candidates

def attemptPreparedAccept (hint : BallotPledges Value) : Ballot X Value Bool := do
  let s ← get
  if s.mPhase = .SCP_PHASE_EXTERNALIZE then return false
  else acceptPrepared d process (s.getPrepareCandidates hint)

/-! ## Confirmed prepared ballots -/

/-- The first loop of `attemptPreparedConfirmed`: the candidates from the new `h` on. -/
def findNewH (s : BallotProtocol X Value) :
    List (SCPBallot Value) → Option (SCPBallot Value × List (SCPBallot Value))
  | [] => none
  | ballot :: candidates =>
    -- "only consider it if we can potentially raise h"
    if s.mHighBallot.any fun h => decide (compareBallots h ballot ≥ 0) then none
    else if s.federatedRatify d (hasPreparedBallot ballot) then some (ballot, ballot :: candidates)
    else findNewH s candidates

/-- The second loop: "continue where we left off". -/
def findNewC (s : BallotProtocol X Value) (b newH newC : SCPBallot Value) :
    List (SCPBallot Value) → SCPBallot Value
  | [] => newC
  | ballot :: candidates =>
    if compareBallots ballot b < 0 then newC
    -- "c and h must be compatible"
    else if !areBallotsLessAndCompatible ballot newH then findNewC s b newH newC candidates
    else if s.federatedRatify d (hasPreparedBallot ballot) then findNewC s b newH ballot candidates
    else newC

/-- Whether a new `c` may be looked for: "step (3) from the paper". -/
def mayRaiseCommit (s : BallotProtocol X Value) (newH : SCPBallot Value) : Bool :=
  s.mCommit.isNone && s.mPrepared.all (fun p => !areBallotsLessAndIncompatible newH p) &&
    s.mPreparedPrime.all fun p' => !areBallotsLessAndIncompatible newH p'

/-- The assignments of `setPreparedConfirmed` to `c` and `h`. -/
def raiseHigh (newC newH : SCPBallot Value) : Ballot X Value Bool := do
  let s ← get
  -- "we don't set c/h if we're not on a compatible ballot"
  if s.mCurrentBallot.all fun b => areBallotsCompatible b newH then
    let raised := s.mHighBallot.all fun h => decide (compareBallots newH h > 0)
    modify fun s => { s with mHighBallot := if raised then some newH else s.mHighBallot }
    onlyIf (newC.counter ≠ 0) do
      dbgAssert d (some s.mCommit.isNone) "!mCommit"
      modify fun s => { s with mCommit := some newC }
    let didWork := raised || decide (newC.counter ≠ 0)
    onlyIf didWork (call (d.confirmedBallotPrepared newH))
    return didWork
  else return false

def setPreparedConfirmed (newC newH : SCPBallot Value) : Ballot X Value Bool := do
  -- "remember newH's value"
  modify fun s => { s with mValueOverride := some newH.value }
  let raised ← raiseHigh d newC newH
  -- "always perform step (8) with the computed value of h"
  let bumped ← updateCurrentIfNeeded d newH
  let didWork := bumped || raised
  onlyIf didWork (emitCurrentStateStatement d process)
  return didWork

def attemptPreparedConfirmed (hint : BallotPledges Value) : Ballot X Value Bool := do
  let s ← get
  if s.mPhase ≠ .SCP_PHASE_PREPARE ∨ s.mPrepared.isNone then return false
  else match findNewH d s (s.getPrepareCandidates hint) with
    | none => return false
    | some (newH, candidates) =>
      let b := s.mCurrentBallot.getD ⟨0, default⟩
      let newC := if s.mayRaiseCommit newH then findNewC d s b newH ⟨0, default⟩ candidates
        else ⟨0, default⟩
      setPreparedConfirmed d process newC newH

/-! ## Commits -/

/-- The counters of `getCommitBoundariesFromStatements` from the top. -/
def getCommitBoundariesFromStatements (s : BallotProtocol X Value) (ballot : SCPBallot Value) :
    List Uint32 :=
  (s.mLatestEnvelopes.flatMap fun env => commitBoundaries ballot env.statement.pledges).foldr
    insertCounter []

/-- The assignment of `setAcceptCommit` to `c` and `h`. -/
def assignCommit (c h : SCPBallot Value) : Ballot X Value Bool := do
  let s ← get
  if (s.mHighBallot.all fun h' => decide (compareBallots h' h ≠ 0)) ∨
      s.mCommit.all fun c' => decide (compareBallots c' c ≠ 0) then
    modify fun s => { s with mCommit := some c, mHighBallot := some h }
    return true
  else return false

/-- The move of `setAcceptCommit` to the CONFIRM phase. -/
def enterConfirm (h : SCPBallot Value) : Ballot X Value Bool := do
  let s ← get
  if s.mPhase = .SCP_PHASE_PREPARE then
    modify fun s => { s with mPhase := .SCP_PHASE_CONFIRM }
    onlyIf (s.mCurrentBallot.any fun b => !areBallotsLessAndCompatible h b) (bumpToBallot d h false)
    modify fun s => { s with mPreparedPrime := none }
    return true
  else return false

def setAcceptCommit (c h : SCPBallot Value) : Ballot X Value Bool := do
  -- "remember h's value"
  modify fun s => { s with mValueOverride := some h.value }
  let assigned ← assignCommit c h
  let entered ← enterConfirm d h
  let didWork := assigned || entered
  onlyIf didWork do
    let s ← get
    let high ← deref s.mHighBallot
    let _ ← updateCurrentIfNeeded d high
    call (d.acceptedCommit h)
    emitCurrentStateStatement d process
  return didWork

/-- The interval that `attemptAcceptCommit` finds. -/
def intervalToAccept (s : BallotProtocol X Value) (ballot : SCPBallot Value) : Uint32 × Uint32 :=
  findExtendedInterval
    (fun cur => s.federatedAccept d (votesToCommit ballot cur) (commitPredicate ballot cur)) (0, 0)
    (s.getCommitBoundariesFromStatements ballot)

/-- Whether the ballot may be accepted as committed in the CONFIRM phase. -/
def mayRaiseConfirm (ballot : SCPBallot Value) : Ballot X Value Bool := do
  let s ← get
  if s.mPhase = .SCP_PHASE_CONFIRM then
    let h ← deref s.mHighBallot
    return areBallotsCompatible ballot h
  else return true

/-- The end of `attemptAcceptCommit`, with the interval that was found. -/
def acceptInterval (ballot : SCPBallot Value) (candidate : Uint32 × Uint32) : Ballot X Value Bool := do
  let s ← get
  if candidate.1 ≠ 0 ∧ (s.mPhase ≠ .SCP_PHASE_CONFIRM ∨
      s.mHighBallot.any fun h => decide (candidate.2 > h.counter)) then
    setAcceptCommit d process ⟨candidate.1, ballot.value⟩ ⟨candidate.2, ballot.value⟩
  else return false

def attemptAcceptCommit (hint : BallotPledges Value) : Ballot X Value Bool := do
  let s ← get
  if s.mPhase = .SCP_PHASE_EXTERNALIZE then return false
  else match hintToAcceptCommit hint with
    | none => return false
    | some ballot =>
      if ← mayRaiseConfirm ballot then acceptInterval d process ballot (s.intervalToAccept d ballot)
      else return false

def setConfirmCommit (c h : SCPBallot Value) : Ballot X Value Bool := do
  modify fun s => { s with mCommit := some c, mHighBallot := some h }
  let _ ← updateCurrentIfNeeded d h
  modify fun s => { s with mPhase := .SCP_PHASE_EXTERNALIZE }
  emitCurrentStateStatement d process
  call d.stopNomination
  let s ← get
  let c ← deref s.mCommit
  call (d.valueExternalized c.value)
  return true

/-- The interval that `attemptConfirmCommit` finds. -/
def intervalToConfirm (s : BallotProtocol X Value) (ballot : SCPBallot Value) : Uint32 × Uint32 :=
  findExtendedInterval (fun cur => s.federatedRatify d (commitPredicate ballot cur)) (0, 0)
    (s.getCommitBoundariesFromStatements ballot)

def attemptConfirmCommit (hint : BallotPledges Value) : Ballot X Value Bool := do
  let s ← get
  if s.mPhase ≠ .SCP_PHASE_CONFIRM ∨ s.mHighBallot.isNone then return false
  else match hintToConfirmCommit hint with
    | none => return false
    | some ballot =>
      let candidate := s.intervalToConfirm d ballot
      if (s.mCommit.any (areBallotsCompatible ballot)) ∧ candidate.1 ≠ 0 then
        setConfirmCommit d process ⟨candidate.1, ballot.value⟩ ⟨candidate.2, ballot.value⟩
      else return false

/-! ## Advancing -/

def MAX_ADVANCE_SLOT_RECURSION : ℕ := 50

/-- The `do`-`while` loop over `attemptBump`. -/
def bumpAll : ℕ → Ballot X Value Bool
  | 0 => throw .outOfFuel
  | fuel + 1 => do
    let didBump ← attemptBump d process
    if didBump then
      let _ ← bumpAll fuel
      return true
    else return false

/-- "only bump after we're done with everything else" -/
def bumpAtTop (fuel : ℕ) : Ballot X Value Bool := do
  let s ← get
  if s.mCurrentMessageLevel = 1 then
    let didBump ← bumpAll d process fuel
    checkHeardFromQuorum d
    return didBump
  else return false

def advanceSlot (fuel : ℕ) (hint : BallotPledges Value) : Ballot X Value Unit := do
  modify fun s => { s with mCurrentMessageLevel := s.mCurrentMessageLevel + 1 }
  let s ← get
  onlyIf (s.mCurrentMessageLevel ≥ MAX_ADVANCE_SLOT_RECURSION)
    (throw (.runtime_error "maximum number of transitions reached in advanceSlot"))
  let acceptedPrepared ← attemptPreparedAccept d process hint
  let confirmedPrepared ← attemptPreparedConfirmed d process hint
  let acceptedCommit ← attemptAcceptCommit d process hint
  let confirmedCommit ← attemptConfirmCommit d process hint
  let didBump ← bumpAtTop d process fuel
  modify fun s => { s with mCurrentMessageLevel := s.mCurrentMessageLevel - 1 }
  onlyIf (acceptedPrepared || confirmedPrepared || acceptedCommit || confirmedCommit || didBump)
    (sendLatestEnvelope d)

/-! ## Received envelopes -/

def isStatementSane (x : X) (st : SCPStatement (BallotPledges Value)) (self : Bool) : Bool :=
  ((getQuorumSetFromStatement d x st).any fun qSet => isQuorumSetSane qSet false) &&
    isPledgesSane self st.pledges

/-- The body of the loop of `validateValues`. -/
def validateNext (res : ValidationLevel) (v : Value) : Ballot X Value ValidationLevel := do
  let tr ← call (d.validateValue v)
  return match tr with
    | .kFullyValidatedValue => res
    | .kInvalidValue => .kInvalidValue
    | .kMaybeValidValue => .kMaybeValidValue

def validateValues (st : BallotPledges Value) : Ballot X Value ValidationLevel :=
  (statementValues st).foldlM (validateNext d) .kFullyValidatedValue

/-- The branch of `processEnvelope` for a valid statement before externalizing. -/
def processValid (fuel : ℕ) (envelope : SCPEnvelope (BallotPledges Value))
    (validationRes : ValidationLevel) : Ballot X Value EnvelopeState := do
  onlyIf (validationRes = .kMaybeValidValue) (modify fun s => { s with mFullyValidated := false })
  recordEnvelope envelope
  advanceSlot d process fuel envelope.statement.pledges
  return .VALID

/-- The same once a value is externalized. -/
def processExternalized (envelope : SCPEnvelope (BallotPledges Value)) :
    Ballot X Value EnvelopeState := do
  let s ← get
  let c ← deref s.mCommit
  if c.value = (getWorkingBallot envelope.statement.pledges).value then
    recordEnvelope envelope
    return .VALID
  else return .INVALID

/-- Whether nothing of the node is recorded or `st` is newer than what is. -/
def isNewer (s : BallotProtocol X Value) (st : SCPStatement (BallotPledges Value)) : Bool :=
  (LocalNode.find s.mLatestEnvelopes st.nodeID).all fun oldp =>
    isNewerStatement oldp.statement.pledges st.pledges

omit process in
def processEnvelope : ℕ → SCPEnvelope (BallotPledges Value) → Bool → Ballot X Value EnvelopeState
  | 0, _, _ => throw .outOfFuel
  | fuel + 1, envelope, self => do
    let s ← get
    if isStatementSane d s.outside envelope.statement self ∧ s.isNewer envelope.statement then
      let validationRes ← validateValues d envelope.statement.pledges
      if validationRes = .kInvalidValue then return .INVALID
      else if s.mPhase ≠ .SCP_PHASE_EXTERNALIZE then
        processValid d (processEnvelope fuel) fuel envelope validationRes
      else processExternalized envelope
    else return .INVALID

omit process

/-! ## Restoring -/

/-- The assignments of `setStateFromEnvelope` after those of `bumpToBallot`. -/
def restored (s : BallotProtocol X Value) : BallotPledges Value → BallotProtocol X Value
  | .prepare _ b prepared preparedPrime nC nH =>
    { s with
      mPrepared := prepared.or s.mPrepared
      mPreparedPrime := preparedPrime.or s.mPreparedPrime
      mHighBallot := if nH ≠ 0 then some ⟨nH, b.value⟩ else s.mHighBallot
      mCommit := if nC ≠ 0 then some ⟨nC, b.value⟩ else s.mCommit
      mPhase := .SCP_PHASE_PREPARE }
  | .confirm ballot nPrepared nCommit nH _ =>
    { s with
      mPrepared := some ⟨nPrepared, ballot.value⟩
      mHighBallot := some ⟨nH, ballot.value⟩
      mCommit := some ⟨nCommit, ballot.value⟩
      mPhase := .SCP_PHASE_CONFIRM }
  | .externalize commit nH _ =>
    { s with
      mPrepared := some ⟨UINT32_MAX, commit.value⟩
      mHighBallot := some ⟨nH, commit.value⟩
      mCommit := some commit
      mPhase := .SCP_PHASE_EXTERNALIZE }

/-- The ballot that `setStateFromEnvelope` bumps to. -/
def restoredBallot : BallotPledges Value → SCPBallot Value
  | .prepare _ ballot .. => ballot
  | .confirm ballot .. => ballot
  | .externalize commit .. => ⟨UINT32_MAX, commit.value⟩

def setStateFromEnvelope (e : SCPEnvelope (BallotPledges Value)) : Ballot X Value Unit := do
  let s ← get
  if s.mCurrentBallot.isSome then
    throw (.runtime_error "Cannot set state after starting ballot protocol")
  else
    recordEnvelope e
    modify fun s => { s with mLastEnvelope := some e, mLastEnvelopeEmit := some e }
    bumpToBallot d (restoredBallot e.statement.pledges) true
    modify fun s => s.restored e.statement.pledges

/-! ## Runs -/

/-- What happens to the protocol: a call of `bumpState`, the timer, an envelope that the herder received,
or anything that changes the state outside. -/
inductive Event (X Value : Type) where
  | bumpState (value : Value) (force : Bool)
  | ballotProtocolTimerExpired
  | recvSCPEnvelope (envelope : SCPEnvelope (BallotPledges Value))
  | outside (x : X)

/-- `HerderImpl::recvSCPEnvelope` skips the node's own messages. -/
def recvSCPEnvelope (fuel : ℕ) (envelope : SCPEnvelope (BallotPledges Value)) : Ballot X Value Unit :=
  onlyIf (envelope.statement.nodeID ≠ d.localNodeID)
    (discard (processEnvelope d fuel envelope false))

def handle (fuel : ℕ) : Event X Value → Ballot X Value Unit
  | .bumpState value force => discard (bumpState d (processEnvelope d fuel) value force)
  | .ballotProtocolTimerExpired => ballotProtocolTimerExpired d (processEnvelope d fuel)
  | .recvSCPEnvelope envelope => recvSCPEnvelope d fuel envelope
  | .outside x => modify fun s => { s with outside := x }

/-- The state after an event. -/
def step (fuel : ℕ) (s : BallotProtocol X Value) (event : Event X Value) : BallotProtocol X Value :=
  after (handle d fuel event s)

/-- The event throws nothing. -/
def Returns (fuel : ℕ) (s : BallotProtocol X Value) (event : Event X Value) : Prop :=
  handle d fuel event s = .ok () (step d fuel s event)

instance (fuel : ℕ) (s : BallotProtocol X Value) (event : Event X Value) :
    Decidable (Returns d fuel s event) :=
  match h : handle d fuel event s with
  | .ok () s' => isTrue (by simp [Returns, step, h, after])
  | .error _ _ => isFalse (by simp [Returns, h])

end Functions

end BallotProtocol

end ZaggCore.Scp
