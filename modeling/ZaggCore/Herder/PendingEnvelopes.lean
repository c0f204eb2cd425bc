import ZaggCore.Foundations.SortedMap
import ZaggCore.Herder.HerderSCPDriver
import ZaggCore.Overlay.WaitingEnvelopes
import ZaggCore.Scp.BallotMessages
import ZaggCore.Scp.NominationProtocol
import ZaggCore.Util.LruCache

/-! # `PendingEnvelopes`

The model of `herder/PendingEnvelopes.cpp`, with the front of `HerderImpl::recvSCPEnvelope` that the
fetchers call. An envelope is handed on from inside `ItemFetcher::recv`, and what the herder does then
comes in between two turns of that loop: a turn is an event of its own. The metrics, the broadcast of an
envelope that is ready and the cache of `isNodeInQuorum` are left out. -/

namespace ZaggCore.Herder.Staging
set_option autoImplicit false
set_option maxHeartbeats 250000

open Foundations Overlay Util

/-- An `SCPEnvelope` but for its slot. -/
structure Contents where
  nodeID : NodeID
  pledges : Scp.SCPNomination Value ⊕ Scp.BallotPledges Value
  signature : Signature
  deriving DecidableEq

abbrev Envelope := Overlay.SCPEnvelope Contents

def QSET_CACHE_SIZE : ℕ := 10000

def TXSET_CACHE_SIZE : ℕ := 10000

def MAX_SLOTS_TO_REMEMBER : ℕ := 12

def LEDGER_VALIDITY_BRACKET : ℕ := 100

inductive EnvelopeStatus where
  | ENVELOPE_STATUS_DISCARDED
  | ENVELOPE_STATUS_FETCHING
  | ENVELOPE_STATUS_PROCESSED
  | ENVELOPE_STATUS_READY
  deriving DecidableEq

/-! ## What an envelope needs -/

/-- `Slot::getCompanionQuorumSetHashFromStatement` -/
def getCompanionQuorumSetHash (envelope : Envelope) : Hash :=
  match envelope.content.pledges with
  | .inl nominate => nominate.quorumSetHash
  | .inr pledges => Scp.BallotProtocol.getCompanionQuorumSetHashFromStatement pledges

/-- `Slot::getStatementValues` -/
def getStatementValues (envelope : Envelope) : List Value :=
  match envelope.content.pledges with
  | .inl nominate => Scp.NominationProtocol.values nominate
  | .inr pledges => [(Scp.BallotProtocol.getWorkingBallot pledges).value]

/-- Nothing where `xdr_from_opaque`, which is `fromOpaque`, throws. -/
def getTxSetHashes (fromOpaque : Value → Option StellarValue) (envelope : Envelope) :
    Option (List Hash) :=
  (getStatementValues envelope).mapM fun v => (fromOpaque v).map (·.txSetHash)

/-! ## The state -/

structure SlotEnvelopes where
  mProcessedEnvelopes : List Envelope
  mDiscardedEnvelopes : Finset Envelope
  mFetchingEnvelopes : Finset Envelope
  mReadyEnvelopes : List Envelope

def SlotEnvelopes.empty : SlotEnvelopes := ⟨[], ∅, ∅, []⟩

structure PendingEnvelopes (Peer : Type) where
  mEnvelopes : SortedMap ℕ SlotEnvelopes
  mQsetCache : LruCache Hash Scp.SCPQuorumSet
  mTxSetFetcher : ItemFetcher Peer Contents
  mQuorumSetFetcher : ItemFetcher Peer Contents
  mTxSetCache : LruCache Hash (ℕ × TxSetFrame)

/-- What the herder looks at before it takes an envelope. -/
structure View where
  MANUAL_CLOSE : Bool
  localNodeID : NodeID
  getCurrentLedgerSeq : ℕ
  /-- `nextConsensusLedgerIndex`, while `trackingSCP`. -/
  nextConsensusLedgerIndex : Option ℕ
  isNodeInQuorum : NodeID → Bool
  /-- The first ledger has the number 1. -/
  current_pos : 0 < getCurrentLedgerSeq

namespace View

def minLedgerSeq (view : View) : ℕ :=
  if view.getCurrentLedgerSeq > MAX_SLOTS_TO_REMEMBER then view.getCurrentLedgerSeq - MAX_SLOTS_TO_REMEMBER
  else view.getCurrentLedgerSeq

/-- `uint32`, as is the sum. -/
def maxLedgerSeq (view : View) : ℕ :=
  match view.nextConsensusLedgerIndex with
  | none => 2 ^ 32 - 1
  | some next => (next + LEDGER_VALIDITY_BRACKET) % 2 ^ 32

/-- The envelope is not skipped by `HerderImpl::recvSCPEnvelope`. -/
def inRange (view : View) (envelope : Envelope) : Bool :=
  !view.MANUAL_CLOSE && decide (envelope.content.nodeID ≠ view.localNodeID) &&
    decide (envelope.slotIndex ≤ view.maxLedgerSeq ∧ view.minLedgerSeq ≤ envelope.slotIndex)

end View

namespace PendingEnvelopes

variable {Peer : Type}

def new : PendingEnvelopes Peer :=
  ⟨.empty, .new QSET_CACHE_SIZE, .new, .new, .new TXSET_CACHE_SIZE⟩

/-- `mEnvelopes[slotIndex]`, where an entry that is missing is empty. -/
def slot (s : PendingEnvelopes Peer) (slotIndex : ℕ) : SlotEnvelopes :=
  (s.mEnvelopes.get? slotIndex).getD .empty

def setSlot (s : PendingEnvelopes Peer) (slotIndex : ℕ) (v : SlotEnvelopes) : PendingEnvelopes Peer :=
  { s with mEnvelopes := s.mEnvelopes.insert slotIndex v }

def isDiscarded (s : PendingEnvelopes Peer) (envelope : Envelope) : Bool :=
  decide (envelope ∈ (s.slot envelope.slotIndex).mDiscardedEnvelopes)

section Calls

variable [DecidableEq Peer] (messageHash : Envelope → Hash) (fromOpaque : Value → Option StellarValue)

/-! ## Fetching -/

def touchTxSet (slotIndex : ℕ) (cache : LruCache Hash (ℕ × TxSetFrame)) (h : Hash) :
    LruCache Hash (ℕ × TxSetFrame) :=
  match cache.find? h with
  | none => cache
  | some item => (cache.touch h).set h (max item.1 slotIndex, item.2)

def touchFetchCache (s : PendingEnvelopes Peer) (envelope : Envelope) : PendingEnvelopes Peer :=
  let qsetHash := getCompanionQuorumSetHash envelope
  let s := if s.mQsetCache.exists? qsetHash then { s with mQsetCache := s.mQsetCache.touch qsetHash } else s
  match getTxSetHashes fromOpaque envelope with
  | none => s
  | some txSetHashes =>
    { s with mTxSetCache := txSetHashes.foldl (touchTxSet envelope.slotIndex) s.mTxSetCache }

def isFullyFetched (s : PendingEnvelopes Peer) (envelope : Envelope) : Bool :=
  s.mQsetCache.exists? (getCompanionQuorumSetHash envelope) &&
    match getTxSetHashes fromOpaque envelope with
    | none => false
    | some txSetHashes => txSetHashes.all s.mTxSetCache.exists?

def fetchTxSet (cache : LruCache Hash (ℕ × TxSetFrame)) (envelope : Envelope) (peers : Peers Peer)
    (fetcher : ItemFetcher Peer Contents) (h2 : Hash) : ItemFetcher Peer Contents :=
  if cache.exists? h2 then fetcher else fetcher.fetch messageHash h2 envelope peers

def startFetch (s : PendingEnvelopes Peer) (envelope : Envelope) (peers : Peers Peer) :
    PendingEnvelopes Peer :=
  let h := getCompanionQuorumSetHash envelope
  let s := if s.mQsetCache.exists? h then s
    else { s with mQuorumSetFetcher := s.mQuorumSetFetcher.fetch messageHash h envelope peers }
  match getTxSetHashes fromOpaque envelope with
  | none => s
  | some txSetHashes =>
    { s with mTxSetFetcher :=
        txSetHashes.foldl (fetchTxSet messageHash s.mTxSetCache envelope peers) s.mTxSetFetcher }

def stopFetch (s : PendingEnvelopes Peer) (envelope : Envelope) : PendingEnvelopes Peer :=
  let h := getCompanionQuorumSetHash envelope
  let s := { s with mQuorumSetFetcher := s.mQuorumSetFetcher.stopFetch h envelope }
  match getTxSetHashes fromOpaque envelope with
  | none => s
  | some txSetHashes =>
    { s with mTxSetFetcher :=
        txSetHashes.foldl (fun fetcher h2 => fetcher.stopFetch h2 envelope) s.mTxSetFetcher }

/-! ## Envelopes -/

def insertFetching (s : PendingEnvelopes Peer) (envelope : Envelope) : PendingEnvelopes Peer :=
  let v := s.slot envelope.slotIndex
  s.setSlot envelope.slotIndex { v with mFetchingEnvelopes := insert envelope v.mFetchingEnvelopes }

/-- Move an envelope that was fetched from the fetching ones to the processed ones, with `envelopeReady`. -/
def envelopeReady (s : PendingEnvelopes Peer) (envelope : Envelope) : PendingEnvelopes Peer :=
  let v := s.slot envelope.slotIndex
  s.setSlot envelope.slotIndex { v with
    mProcessedEnvelopes := v.mProcessedEnvelopes ++ [envelope]
    mFetchingEnvelopes := v.mFetchingEnvelopes.erase envelope
    mReadyEnvelopes := v.mReadyEnvelopes ++ [envelope] }

def checkFetched (s : PendingEnvelopes Peer) (envelope : Envelope) : PendingEnvelopes Peer × EnvelopeStatus :=
  if s.isFullyFetched fromOpaque envelope then (s.envelopeReady envelope, .ENVELOPE_STATUS_READY)
  else (s, .ENVELOPE_STATUS_FETCHING)

/-- An envelope whose values cannot be read throws in `touchFetchCache`. -/
def recvSCPEnvelope (s : PendingEnvelopes Peer) (envelope : Envelope) (isNodeInQuorum : NodeID → Bool)
    (peers : Peers Peer) : PendingEnvelopes Peer × EnvelopeStatus :=
  if !isNodeInQuorum envelope.content.nodeID then (s, .ENVELOPE_STATUS_DISCARDED)
  else if s.isDiscarded envelope then (s, .ENVELOPE_STATUS_DISCARDED)
  else
    let s := s.touchFetchCache fromOpaque envelope
    if (getTxSetHashes fromOpaque envelope).isNone then (s, .ENVELOPE_STATUS_DISCARDED)
    else if envelope ∈ (s.slot envelope.slotIndex).mFetchingEnvelopes then s.checkFetched fromOpaque envelope
    else if envelope ∈ (s.slot envelope.slotIndex).mProcessedEnvelopes then
      (s, .ENVELOPE_STATUS_PROCESSED)
    else ((s.insertFetching envelope).startFetch messageHash fromOpaque envelope peers).checkFetched
      fromOpaque envelope

/-- `HerderImpl::recvSCPEnvelope`; the queue that it processes when an envelope is ready is processed by
the events that follow. -/
def herderRecvSCPEnvelope (s : PendingEnvelopes Peer) (envelope : Envelope) (view : View)
    (peers : Peers Peer) : PendingEnvelopes Peer × EnvelopeStatus :=
  if view.inRange envelope then
    s.recvSCPEnvelope messageHash fromOpaque envelope view.isNodeInQuorum peers
  else (s, .ENVELOPE_STATUS_DISCARDED)

def discardSCPEnvelope (s : PendingEnvelopes Peer) (envelope : Envelope) : PendingEnvelopes Peer :=
  if s.isDiscarded envelope then s
  else
    let v := s.slot envelope.slotIndex
    (s.setSlot envelope.slotIndex { v with
      mDiscardedEnvelopes := insert envelope v.mDiscardedEnvelopes
      mFetchingEnvelopes := v.mFetchingEnvelopes.erase envelope }).stopFetch fromOpaque envelope

/-! ## Items -/

/-- The `assert` that the set is sane comes first. -/
def addSCPQuorumSet (s : PendingEnvelopes Peer) (hash : Hash) (q : Scp.SCPQuorumSet) :
    PendingEnvelopes Peer :=
  { s with mQsetCache := s.mQsetCache.put hash q, mQuorumSetFetcher := s.mQuorumSetFetcher.recv hash }

def discardSCPEnvelopesWithQSet (s : PendingEnvelopes Peer) (hash : Hash) : PendingEnvelopes Peer :=
  (s.mQuorumSetFetcher.fetchingFor hash).foldl (discardSCPEnvelope fromOpaque) s

def recvSCPQuorumSet (s : PendingEnvelopes Peer) (hash : Hash) (q : Scp.SCPQuorumSet) :
    PendingEnvelopes Peer × Bool :=
  let lastSeenSlotIndex := s.mQuorumSetFetcher.getLastSeenSlotIndex hash
  if lastSeenSlotIndex ≤ 0 then (s, false)
  else if Scp.isQuorumSetSane q false then (s.addSCPQuorumSet hash q, true)
  else (s.discardSCPEnvelopesWithQSet fromOpaque hash, false)

def addTxSet (s : PendingEnvelopes Peer) (hash : Hash) (lastSeenSlotIndex : ℕ) (txset : TxSetFrame) :
    PendingEnvelopes Peer :=
  { s with
    mTxSetCache := s.mTxSetCache.put hash (lastSeenSlotIndex, txset)
    mTxSetFetcher := s.mTxSetFetcher.recv hash }

def recvTxSet (s : PendingEnvelopes Peer) (hash : Hash) (txset : TxSetFrame) : PendingEnvelopes Peer × Bool :=
  let lastSeenSlotIndex := s.mTxSetFetcher.getLastSeenSlotIndex hash
  if lastSeenSlotIndex = 0 then (s, false) else (s.addTxSet hash lastSeenSlotIndex txset, true)

inductive MessageType where
  | TX_SET
  | SCP_QUORUMSET
  | other

def peerDoesntHave (s : PendingEnvelopes Peer) (type : MessageType) (itemID : Hash) (peer : Peer)
    (peers : Peers Peer) : PendingEnvelopes Peer :=
  match type with
  | .TX_SET => { s with mTxSetFetcher := s.mTxSetFetcher.doesntHave itemID peer peers }
  | .SCP_QUORUMSET => { s with mQuorumSetFetcher := s.mQuorumSetFetcher.doesntHave itemID peer peers }
  | .other => s

/-! ## Slots -/

/-- The first slot up to `slotIndex` with an envelope that is ready. -/
def firstReady (s : PendingEnvelopes Peer) (slotIndex : ℕ) : Option (ℕ × SlotEnvelopes) :=
  (s.mEnvelopes.items.takeWhile fun it => it.1 ≤ slotIndex).find? fun it => !it.2.mReadyEnvelopes.isEmpty

def pop (s : PendingEnvelopes Peer) (slotIndex : ℕ) : PendingEnvelopes Peer × Option Envelope :=
  match s.firstReady slotIndex with
  | none => (s, none)
  | some (it, v) =>
    (s.setSlot it { v with mReadyEnvelopes := v.mReadyEnvelopes.dropLast }, v.mReadyEnvelopes.getLast?)

/-- "0 is special mark for data that we do not know the slot index" -/
def eraseBelow (s : PendingEnvelopes Peer) (slotIndex : ℕ) : PendingEnvelopes Peer :=
  { s with
    mEnvelopes := s.mEnvelopes.eraseBelow slotIndex
    mTxSetCache := s.mTxSetCache.eraseIf fun i => i.1 ≠ 0 && i.1 < slotIndex }

/-- "stop processing envelopes & downloads for the slot falling off the window" -/
def slotClosed (s : PendingEnvelopes Peer) (slotIndex : ℕ) : PendingEnvelopes Peer :=
  if slotIndex > MAX_SLOTS_TO_REMEMBER then
    let slotIndex := slotIndex - MAX_SLOTS_TO_REMEMBER
    { s with
      mEnvelopes := s.mEnvelopes.erase slotIndex
      mTxSetFetcher := s.mTxSetFetcher.stopFetchingBelow (slotIndex + 1)
      mQuorumSetFetcher := s.mQuorumSetFetcher.stopFetchingBelow (slotIndex + 1)
      mTxSetCache := s.mTxSetCache.eraseIf fun i => decide (i.1 = slotIndex) }
  else s

/-! ## Runs -/

/-- The loop of the innermost `mTxSetFetcher.recv` takes a turn. -/
def txSetNext (s : PendingEnvelopes Peer) (view : View) (peers : Peers Peer) : PendingEnvelopes Peer :=
  let s' := { s with mTxSetFetcher := s.mTxSetFetcher.recvNext }
  match s.mTxSetFetcher.popped with
  | none => s'
  | some envelope => (s'.herderRecvSCPEnvelope messageHash fromOpaque envelope view peers).1

/-- The loop of the innermost `mQuorumSetFetcher.recv` takes a turn. -/
def quorumSetNext (s : PendingEnvelopes Peer) (view : View) (peers : Peers Peer) : PendingEnvelopes Peer :=
  let s' := { s with mQuorumSetFetcher := s.mQuorumSetFetcher.recvNext }
  match s.mQuorumSetFetcher.popped with
  | none => s'
  | some envelope => (s'.herderRecvSCPEnvelope messageHash fromOpaque envelope view peers).1

inductive Event (Peer : Type) where
  | recvSCPEnvelope (envelope : Envelope) (view : View) (peers : Peers Peer)
  | recvTxSet (hash : Hash) (txset : TxSetFrame)
  | recvSCPQuorumSet (hash : Hash) (q : Scp.SCPQuorumSet)
  | addTxSet (hash : Hash) (lastSeenSlotIndex : ℕ) (txset : TxSetFrame)
  | addSCPQuorumSet (hash : Hash) (q : Scp.SCPQuorumSet)
  | peerDoesntHave (type : MessageType) (itemID : Hash) (peer : Peer) (peers : Peers Peer)
  | pop (slotIndex : ℕ)
  | eraseBelow (slotIndex : ℕ)
  | slotClosed (slotIndex : ℕ)
  | txSetNext (view : View) (peers : Peers Peer)
  | quorumSetNext (view : View) (peers : Peers Peer)
  | txSetPosted
  | quorumSetPosted
  | txSetTimer (itemHash : Hash) (peers : Peers Peer)
  | quorumSetTimer (itemHash : Hash) (peers : Peers Peer)

def step (s : PendingEnvelopes Peer) : Event Peer → PendingEnvelopes Peer
  | .recvSCPEnvelope envelope view peers =>
    (s.herderRecvSCPEnvelope messageHash fromOpaque envelope view peers).1
  | .recvTxSet hash txset => (s.recvTxSet hash txset).1
  | .recvSCPQuorumSet hash q => (s.recvSCPQuorumSet fromOpaque hash q).1
  | .addTxSet hash lastSeenSlotIndex txset => s.addTxSet hash lastSeenSlotIndex txset
  | .addSCPQuorumSet hash q => s.addSCPQuorumSet hash q
  | .peerDoesntHave type itemID peer peers => s.peerDoesntHave type itemID peer peers
  | .pop slotIndex => (s.pop slotIndex).1
  | .eraseBelow slotIndex => s.eraseBelow slotIndex
  | .slotClosed slotIndex => s.slotClosed slotIndex
  | .txSetNext view peers => s.txSetNext messageHash fromOpaque view peers
  | .quorumSetNext view peers => s.quorumSetNext messageHash fromOpaque view peers
  | .txSetPosted => { s with mTxSetFetcher := s.mTxSetFetcher.runPosted }
  | .quorumSetPosted => { s with mQuorumSetFetcher := s.mQuorumSetFetcher.runPosted }
  | .txSetTimer itemHash peers => { s with mTxSetFetcher := s.mTxSetFetcher.timerExpired itemHash peers }
  | .quorumSetTimer itemHash peers =>
    { s with mQuorumSetFetcher := s.mQuorumSetFetcher.timerExpired itemHash peers }

end Calls

end PendingEnvelopes

end ZaggCore.Herder.Staging
