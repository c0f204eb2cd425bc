import ZaggCore.Scp.SCPDriver
import ZaggCore.Scp.LocalNode

/-! # `NominationProtocol`

The model of `scp/NominationProtocol.cpp`. The driver, the ballot protocol and the local node's quorum set
make up the state `X` outside of the protocol: a call of the driver may change it in any way and throw.
A `std::set` is a `Finset`, run through in ascending order. `emitNomination` hands the node's own statement
to `processEnvelope`, which may emit again: the recursion has fuel, and a run that uses it up throws. -/

namespace ZaggCore.Scp
open Foundations Numeric
set_option autoImplicit false
set_option maxHeartbeats 250000

/-- The virtual functions of `SCPDriver` that nomination calls, at the slot, and what the slot knows of
itself. The ballot protocol's `bumpState` may stop the nomination: it is given `mNominationStarted` as
well. -/
structure NominationDriver (X Value : Type) where
  /-- Whether the build is a release one, in which `dbgAssert` does nothing. -/
  NDEBUG : Bool
  slotIndex : ℕ
  localNodeID : NodeID
  getQuorumSet : X → SCPQuorumSet
  getQuorumSetHash : X → Hash
  getQSet : X → Hash → Option SCPQuorumSet
  isFullyValidated : X → Bool
  signEnvelope : SCPStatement (SCPNomination Value) → EStateM Exception X Signature
  emitEnvelope : SCPEnvelope (SCPNomination Value) → EStateM Exception X Unit
  validateValue : Value → EStateM Exception X ValidationLevel
  extractValidValue : Value → EStateM Exception X Value
  computeHashNode : Value → Bool → ℕ → NodeID → EStateM Exception X ℕ
  computeValueHash : Value → ℕ → Value → EStateM Exception X ℕ
  combineCandidates : Finset Value → EStateM Exception X Value
  computeTimeout : ℕ → EStateM Exception X ℕ
  setupTimer : ℕ → EStateM Exception X Unit
  nominatingValue : Value → EStateM Exception X Unit
  updatedCandidateValue : Value → EStateM Exception X Unit
  bumpState : Value → EStateM Exception (X × Bool) Unit

/-- The fields of the class, the state outside, and the envelopes handed to `emitEnvelope`, the latest
first. -/
structure NominationProtocol (X Value : Type) where
  mRoundNumber : ℕ
  mVotes : Finset Value
  mAccepted : Finset Value
  mCandidates : Finset Value
  mLatestNominations : List (SCPEnvelope (SCPNomination Value))
  mLastEnvelope : Option (SCPEnvelope (SCPNomination Value))
  mRoundLeaders : Finset NodeID
  mNominationStarted : Bool
  mLatestCompositeCandidate : Value
  mPreviousValue : Value
  outside : X
  emitted : List (SCPEnvelope (SCPNomination Value))

namespace NominationProtocol

variable {X Value : Type} [LinearOrder Value] [Inhabited Value]

/-- The protocol of a fresh slot. -/
def new (outside : X) : NominationProtocol X Value where
  mRoundNumber := 0
  mVotes := ∅
  mAccepted := ∅
  mCandidates := ∅
  mLatestNominations := []
  mLastEnvelope := none
  mRoundLeaders := ∅
  mNominationStarted := false
  mLatestCompositeCandidate := default
  mPreviousValue := default
  outside := outside
  emitted := []

/-! ## Statements -/

/-- `std::includes(v.begin(), v.end(), p.begin(), p.end())` -/
def includes : List Value → List Value → Bool
  | _, [] => true
  | [], _ :: _ => false
  | x :: v, y :: p =>
    if y < x then false
    else if x < y then includes v (y :: p)
    else includes v p

/-- The result and `notEqual`. -/
def isSubsetHelper (p v : List Value) : Bool × Bool :=
  if p.length ≤ v.length then
    if includes v p then (true, p.length != v.length) else (false, true)
  else (false, true)

/-- "true only if one of the sets grew" -/
def isNewerStatement (oldst st : SCPNomination Value) : Bool :=
  let (res, grows) := isSubsetHelper oldst.votes st.votes
  let (res', g) := isSubsetHelper oldst.accepted st.accepted
  res && res' && (grows || g)

/-- No two values next to each other are out of order or equal. -/
def ascending : List Value → Bool
  | [] => true
  | [_] => true
  | l :: r :: rest => decide (l < r) && ascending (r :: rest)

def isSane (nom : SCPNomination Value) : Bool :=
  (nom.votes.length + nom.accepted.length != 0) && ascending nom.votes && ascending nom.accepted

def acceptPredicate (v : Value) (st : SCPStatement (SCPNomination Value)) : Bool :=
  decide (v ∈ st.pledges.accepted)

def votePredicate (v : Value) (st : SCPStatement (SCPNomination Value)) : Bool :=
  decide (v ∈ st.pledges.votes)

/-- The values that `applyAll` goes through. -/
def values (nom : SCPNomination Value) : List Value := nom.votes ++ nom.accepted

/-! ## Calls -/

abbrev Nomination (X Value : Type) := EStateM Failure (NominationProtocol X Value)

/-- A call of the driver. -/
def call {α : Type} (f : EStateM Exception X α) : Nomination X Value α :=
  zoom outside (fun x s => { s with outside := x }) .driver f

variable (d : NominationDriver X Value)

def dbgAssert (p : Prop) [Decidable p] (expression : String) : Nomination X Value Unit :=
  if d.NDEBUG then pure () else if p then pure () else throw (.dbgAssert expression)

/-- `mSlot.bumpState(value, false)` -/
def bumpState (value : Value) : Nomination X Value Unit :=
  zoom (fun s => (s.outside, s.mNominationStarted))
    (fun x s => { s with outside := x.1, mNominationStarted := x.2 }) .driver (d.bumpState value)

/-- The quorum set of a statement of this protocol. -/
def getQuorumSetFromStatement (x : X) (st : SCPStatement (SCPNomination Value)) : Option SCPQuorumSet :=
  d.getQSet x st.pledges.quorumSetHash

def recordEnvelope (env : SCPEnvelope (SCPNomination Value)) : Nomination X Value Unit :=
  modify fun s => { s with mLatestNominations := LocalNode.insertOrAssign s.mLatestNominations env }

/-- The node's own statement of its votes. -/
def statement (s : NominationProtocol X Value) : SCPStatement (SCPNomination Value) where
  nodeID := d.localNodeID
  slotIndex := d.slotIndex
  pledges :=
    { quorumSetHash := d.getQuorumSetHash s.outside
      votes := s.mVotes.sort
      accepted := s.mAccepted.sort }

def createEnvelope (st : SCPStatement (SCPNomination Value)) :
    Nomination X Value (SCPEnvelope (SCPNomination Value)) := do
  let signature ← call (d.signEnvelope st)
  return { statement := st, signature := signature }

/-- `process` is `processEnvelope`. -/
def emitNomination (process : SCPEnvelope (SCPNomination Value) → Nomination X Value EnvelopeState) :
    Nomination X Value Unit := do
  let s ← get
  let st := s.statement d
  let envelope ← createEnvelope d st
  if (← process envelope) = .VALID then
    let s ← get
    if s.mLastEnvelope.all fun last => isNewerStatement last.statement.pledges st.pledges then
      modify fun s => { s with mLastEnvelope := some envelope }
      let s ← get
      onlyIf (d.isFullyValidated s.outside) do
        modify fun s => { s with emitted := envelope :: s.emitted }
        call (d.emitEnvelope envelope)
  else
    throw (.runtime_error "moved to a bad state (nomination)")

/-! ## Leaders -/

def hashNode (isPriority : Bool) (nodeID : NodeID) : Nomination X Value ℕ := do
  let s ← get
  dbgAssert d (s.mPreviousValue ≠ default) "!mPreviousValue.empty()"
  call (d.computeHashNode s.mPreviousValue isPriority s.mRoundNumber nodeID)

def hashValue (value : Value) : Nomination X Value ℕ := do
  let s ← get
  dbgAssert d (s.mPreviousValue ≠ default) "!mPreviousValue.empty()"
  call (d.computeValueHash s.mPreviousValue s.mRoundNumber value)

def getNodePriority (nodeID : NodeID) (qset : SCPQuorumSet) : Nomination X Value ℕ := do
  let w := if nodeID = d.localNodeID then UINT64_MAX else LocalNode.getNodeWeight nodeID qset
  if (← hashNode d false nodeID) < w then hashNode d true nodeID else return 0

/-- The body of the loop over the nodes of the quorum set. -/
def considerLeader (qset : SCPQuorumSet) (topPriority : ℕ) (cur : NodeID) : Nomination X Value ℕ := do
  let w ← getNodePriority d cur qset
  onlyIf (w > topPriority) do
    modify fun s => { s with mRoundLeaders := ∅ }
  onlyIf (w = max topPriority w ∧ w > 0) do
    modify fun s => { s with mRoundLeaders := insert cur s.mRoundLeaders }
  return max topPriority w

def updateRoundLeaders : Nomination X Value Unit := do
  let s ← get
  let localID := d.localNodeID
  let myQSet := normalizeQSet (some localID) (d.getQuorumSet s.outside)
  modify fun s => { s with mRoundLeaders := {localID} }
  let topPriority ← getNodePriority d localID myQSet
  let _ ← (LocalNode.allNodes myQSet).foldlM (considerLeader d myQSet) topPriority

/-! ## New votes -/

/-- The value itself if it is valid for sure, else what can be extracted from it. -/
def getValueToNominate (value : Value) : Nomination X Value Value := do
  let vl ← call (d.validateValue value)
  if vl = .kFullyValidatedValue then return value else call (d.extractValidValue value)

/-- The body of the loop over the values of a leader: the best new vote so far, with its hash. -/
def considerValue (best : Value × ℕ) (value : Value) : Nomination X Value (Value × ℕ) := do
  let valueToNominate ← getValueToNominate d value
  let s ← get
  if valueToNominate ≠ default ∧ valueToNominate ∉ s.mVotes then
    let curHash ← hashValue d valueToNominate
    return if curHash ≥ best.2 then (valueToNominate, curHash) else best
  else return best

/-- "pick the highest value we don't have from the leader sorted using hashValue" -/
def getNewValueFromNomination (nom : SCPNomination Value) : Nomination X Value Value := do
  let best ← (values nom).foldlM (considerValue d) (default, 0)
  return best.1

/-! ## Received envelopes -/

/-- The body of the loop that "attempts to promote some of the votes to accepted". -/
def promoteVote (modified : Bool) (v : Value) : Nomination X Value Bool := do
  let s ← get
  if v ∈ s.mAccepted then return modified
  else if Slot.federatedAccept (d.getQuorumSet s.outside) (getQuorumSetFromStatement d s.outside)
      (votePredicate v) (acceptPredicate v) s.mLatestNominations then
    let vl ← call (d.validateValue v)
    if vl = .kFullyValidatedValue then
      modify fun s => { s with mAccepted := insert v s.mAccepted, mVotes := insert v s.mVotes }
      return true
    else
      -- "see if we can vote for a variation that we consider valid"
      let toVote ← call (d.extractValidValue v)
      let s ← get
      if toVote ≠ default ∧ toVote ∉ s.mVotes then
        modify fun s => { s with mVotes := insert toVote s.mVotes }
        return true
      else return modified
  else return modified

/-- The body of the loop that "attempts to promote accepted values to candidates". -/
def promoteAccepted (newCandidates : Bool) (a : Value) : Nomination X Value Bool := do
  let s ← get
  if a ∈ s.mCandidates then return newCandidates
  else if Slot.federatedRatify (d.getQuorumSet s.outside) (getQuorumSetFromStatement d s.outside)
      (acceptPredicate a) s.mLatestNominations then
    modify fun s => { s with mCandidates := insert a s.mCandidates }
    return true
  else return newCandidates

/-- "only take round leader votes if we're still looking for candidates" -/
def takeLeaderVote (modified : Bool) (st : SCPStatement (SCPNomination Value)) :
    Nomination X Value Bool := do
  let s ← get
  if s.mCandidates = ∅ ∧ st.nodeID ∈ s.mRoundLeaders then
    let newVote ← getNewValueFromNomination d st.pledges
    if newVote ≠ default then
      modify fun s => { s with mVotes := insert newVote s.mVotes }
      call (d.nominatingValue newVote)
      return true
    else return modified
  else return modified

def announceCandidates : Nomination X Value Unit := do
  let s ← get
  let candidate ← call (d.combineCandidates s.mCandidates)
  modify fun s => { s with mLatestCompositeCandidate := candidate }
  call (d.updatedCandidateValue candidate)
  bumpState d candidate

/-- The part of `processEnvelope` for a recorded envelope once nomination has started. -/
def advance (process : SCPEnvelope (SCPNomination Value) → Nomination X Value EnvelopeState)
    (st : SCPStatement (SCPNomination Value)) : Nomination X Value Unit := do
  let modified ← st.pledges.votes.foldlM (promoteVote d) false
  let s ← get
  let newCandidates ← s.mAccepted.sort.foldlM (promoteAccepted d) false
  let modified ← takeLeaderVote d modified st
  onlyIf modified (emitNomination d process)
  onlyIf newCandidates (announceCandidates d)

/-- Whether nothing of the node is recorded or `st` is newer than what is. -/
def isNewer (s : NominationProtocol X Value) (st : SCPStatement (SCPNomination Value)) : Bool :=
  (LocalNode.find s.mLatestNominations st.nodeID).all fun oldp =>
    isNewerStatement oldp.statement.pledges st.pledges

def processEnvelope : ℕ → SCPEnvelope (SCPNomination Value) → Nomination X Value EnvelopeState
  | 0, _ => throw .outOfFuel
  | fuel + 1, envelope => do
    let s ← get
    if s.isNewer envelope.statement ∧ isSane envelope.statement.pledges then
      recordEnvelope envelope
      onlyIf s.mNominationStarted (advance d (processEnvelope fuel) envelope.statement)
      return .VALID
    else return .INVALID

/-! ## Nominating -/

/-- The body of the loop over the leaders; the pair is `nominatingValue` and `updated`. -/
def voteWithLeader (acc : Value × Bool) (leader : NodeID) : Nomination X Value (Value × Bool) := do
  let s ← get
  match LocalNode.find s.mLatestNominations leader with
  | none => return acc
  | some it =>
    let nominatingValue ← getNewValueFromNomination d it.statement.pledges
    if nominatingValue ≠ default then
      modify fun s => { s with mVotes := insert nominatingValue s.mVotes }
      return (nominatingValue, true)
    else return (nominatingValue, acc.2)

/-- The votes that a round of nomination adds. -/
def chooseVotes (value : Value) : Nomination X Value (Value × Bool) := do
  let s ← get
  if d.localNodeID ∈ s.mRoundLeaders then
    modify fun s => { s with mVotes := insert value s.mVotes }
    return (value, decide (value ∉ s.mVotes))
  else s.mRoundLeaders.sort.foldlM (voteWithLeader d) (default, false)

/-- "attempts to nominate a value for consensus" -/
def nominate (fuel : ℕ) (value previousValue : Value) (timedout : Bool) : Nomination X Value Bool := do
  let s ← get
  if timedout ∧ ¬ s.mNominationStarted then return false
  else
    modify fun s => { s with
      mNominationStarted := true, mPreviousValue := previousValue, mRoundNumber := s.mRoundNumber + 1 }
    updateRoundLeaders d
    let (nominatingValue, updated) ← chooseVotes d value
    let s ← get
    let timeout ← call (d.computeTimeout s.mRoundNumber)
    call (d.nominatingValue nominatingValue)
    call (d.setupTimer timeout)
    onlyIf updated (emitNomination d (processEnvelope d fuel))
    return updated

def stopNomination : Nomination X Value Unit :=
  modify fun s => { s with mNominationStarted := false }

/-- What happens to the protocol: a call of `nominate`, by the herder or by the timer, an envelope that
the herder received, the end of nomination, or anything that changes the state outside. -/
inductive Event (X Value : Type) where
  | nominate (value previousValue : Value) (timedout : Bool)
  | recvSCPEnvelope (envelope : SCPEnvelope (SCPNomination Value))
  | stopNomination
  | outside (x : X)

/-- `HerderImpl::recvSCPEnvelope` skips the node's own messages. -/
def recvSCPEnvelope (fuel : ℕ) (envelope : SCPEnvelope (SCPNomination Value)) :
    Nomination X Value Unit :=
  onlyIf (envelope.statement.nodeID ≠ d.localNodeID) (discard (processEnvelope d fuel envelope))

def handle (fuel : ℕ) : Event X Value → Nomination X Value Unit
  | .nominate value previousValue timedout => discard (nominate d fuel value previousValue timedout)
  | .recvSCPEnvelope envelope => recvSCPEnvelope d fuel envelope
  | .stopNomination => stopNomination
  | .outside x => modify fun s => { s with outside := x }

/-- The state after an event, whether or not something was thrown. -/
def step (fuel : ℕ) (s : NominationProtocol X Value) (event : Event X Value) :
    NominationProtocol X Value :=
  after (handle d fuel event s)

end NominationProtocol

end ZaggCore.Scp
