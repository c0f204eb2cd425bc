import Mathlib
import ZaggCore.Xdr.Types
import ZaggCore.Foundations.Runs

/-! # Connections and the overlay manager

The model of the parts of `overlay/Peer.cpp`, `overlay/TCPPeer.cpp` and `overlay/OverlayManagerImpl.cpp`
that a connection lives and dies by. A connection is known by its number, the pointer of the source. What
comes from the network and the system is an event: a knock at the door, the completion of
`async_connect`, a message that was read, the expiry of the idle timer or any other reason to drop. The
keys and nonces that HELLO sets and the messages that are sent are left out. -/

namespace ZaggCore.Overlay
open Foundations
set_option autoImplicit false
set_option maxHeartbeats 250000

structure PeerBareAddress where
  mIP : String
  mPort : ℕ
  deriving DecidableEq, Repr

inductive PeerState where
  | CONNECTING
  | CONNECTED
  | GOT_HELLO
  | GOT_AUTH
  | CLOSING
  deriving DecidableEq, Repr

inductive PeerRole where
  | REMOTE_CALLED_US
  | WE_CALLED_REMOTE
  deriving DecidableEq, Repr

/-- A connection. `connecting` says that `async_connect` has not completed, `reading` that `startRead` was
called; the empty address is none. -/
structure Peer where
  mRole : PeerRole
  mState : PeerState
  mPeerID : NodeID
  mAddress : Option PeerBareAddress
  connecting : Bool
  reading : Bool
  deriving DecidableEq, Repr

/-- The fields of `struct Hello` that are checked; of the certificate, whether it is verified. -/
structure Hello where
  overlayVersion : ℕ
  overlayMinVersion : ℕ
  networkID : Hash
  listeningPort : ℤ
  peerID : NodeID
  certVerified : Bool
  deriving DecidableEq, Repr

inductive StellarMessage where
  | ERROR_MSG
  | HELLO (elo : Hello)
  | AUTH
  | other
  deriving DecidableEq, Repr

structure Config where
  MAX_PENDING_CONNECTIONS : ℕ
  MAX_PEER_CONNECTIONS : ℕ
  PREFERRED_PEERS_ONLY : Bool
  PREFERRED_PEER_KEYS : List NodeID
  mPreferredPeers : List PeerBareAddress
  OVERLAY_PROTOCOL_MIN_VERSION : ℕ
  OVERLAY_PROTOCOL_VERSION : ℕ
  NODE_ID : NodeID
  networkID : Hash

/-- Connections below `created` have been made. `admitted` are those that `addPendingPeer` let in. -/
structure OverlayManager where
  peers : ℕ → Peer
  created : ℕ
  admitted : List ℕ
  mPendingPeers : List ℕ
  mAuthenticatedPeers : AList fun _ : NodeID => ℕ

inductive Event where
  /-- `PeerDoor::handleKnock` -/
  | handleKnock
  | connectTo (address : PeerBareAddress)
  | connectHandler (peer : ℕ) (error : Bool)
  /-- A message with what its MAC and sequence number, the ban list and the socket answer. -/
  | recvMessage (peer : ℕ) (msg : StellarMessage) (macVerified isBanned : Bool) (remoteIP : Option String)
  /-- The idle timer, a read or write error, corrupt XDR, load shedding, an operator. -/
  | drop (peer : ℕ)

namespace OverlayManager

/-- A pointer that no connection has: nothing happens to it. -/
def noPeer : Peer := ⟨.REMOTE_CALLED_US, .CLOSING, 0, none, false, false⟩

def new : OverlayManager := ⟨fun _ => noPeer, 0, [], [], ∅⟩

variable (cfg : Config)

/-- Assignments to the fields of a connection. -/
def setPeer (om : OverlayManager) (peer : ℕ) (change : Peer → Peer) : OverlayManager :=
  { om with peers := Function.update om.peers peer (change (om.peers peer)) }

/-! ## `OverlayManagerImpl` -/

def getPendingPeersCount (om : OverlayManager) : ℕ := om.mPendingPeers.length

def getAuthenticatedPeersCount (om : OverlayManager) : ℕ := om.mAuthenticatedPeers.keys.length

/-- The connections of `mAuthenticatedPeers` in the order of the map. -/
def authenticatedPeers (om : OverlayManager) : List ℕ :=
  (om.mAuthenticatedPeers.keys.mergeSort (· ≤ ·)).filterMap om.mAuthenticatedPeers.lookup

def getConnectedPeer (om : OverlayManager) (address : PeerBareAddress) : Option ℕ :=
  (om.mPendingPeers ++ om.authenticatedPeers).find? fun p => (om.peers p).mAddress = some address

def dropPeer (om : OverlayManager) (peer : ℕ) : OverlayManager :=
  if peer ∈ om.mPendingPeers then { om with mPendingPeers := om.mPendingPeers.erase peer }
  else { om with mAuthenticatedPeers := om.mAuthenticatedPeers.erase (om.peers peer).mPeerID }

/-- `TCPPeer::drop` -/
def drop (om : OverlayManager) (peer : ℕ) : OverlayManager :=
  if (om.peers peer).mState = .CLOSING then om
  else (om.setPeer peer fun p => { p with mState := .CLOSING }).dropPeer peer

def addPendingPeer (om : OverlayManager) (peer : ℕ) : OverlayManager :=
  if cfg.MAX_PENDING_CONNECTIONS ≤ om.getPendingPeersCount then om.drop peer
  else { om with mPendingPeers := om.mPendingPeers ++ [peer], admitted := om.admitted ++ [peer] }

/-- A new connection, and its pointer. -/
def create (om : OverlayManager) (p : Peer) : OverlayManager × ℕ :=
  ({ om with peers := Function.update om.peers om.created p, created := om.created + 1 }, om.created)

/-- `TCPPeer::accept` and `addPendingPeer` -/
def handleKnock (om : OverlayManager) : OverlayManager :=
  let (om, peer) := om.create ⟨.REMOTE_CALLED_US, .CONNECTED, 0, none, false, true⟩
  om.addPendingPeer cfg peer

/-- `connectTo` with `TCPPeer::initiate` -/
def connectTo (om : OverlayManager) (address : PeerBareAddress) : OverlayManager :=
  if (om.getConnectedPeer address).isSome then om
  else if om.getPendingPeersCount < cfg.MAX_PENDING_CONNECTIONS then
    let (om, peer) := om.create ⟨.WE_CALLED_REMOTE, .CONNECTING, 0, some address, true, false⟩
    om.addPendingPeer cfg peer
  else om

def isPreferred (om : OverlayManager) (peer : ℕ) : Bool :=
  let p := om.peers peer
  p.mAddress.any (· ∈ cfg.mPreferredPeers) ||
    (p.mState = .GOT_AUTH && p.mPeerID ∈ cfg.PREFERRED_PEER_KEYS)

def moveToAuthenticated (om : OverlayManager) (peer : ℕ) : OverlayManager × Bool :=
  let peerID := (om.peers peer).mPeerID
  if peer ∉ om.mPendingPeers then (om, false)
  else if (om.mAuthenticatedPeers.lookup peerID).isSome then (om, false)
  else ({ om with
    mPendingPeers := om.mPendingPeers.erase peer
    mAuthenticatedPeers := om.mAuthenticatedPeers.insert peerID peer }, true)

/-- The connection that `acceptAuthenticatedPeer` evicts. -/
def victim (om : OverlayManager) : Option ℕ :=
  om.authenticatedPeers.find? fun p => !om.isPreferred cfg p

def acceptAuthenticatedPeer (om : OverlayManager) (peer : ℕ) : OverlayManager × Bool :=
  let room : Bool := om.getAuthenticatedPeersCount < cfg.MAX_PEER_CONNECTIONS
  let unpreferred := if !cfg.PREFERRED_PEERS_ONLY && room then om.moveToAuthenticated peer else (om, false)
  if om.isPreferred cfg peer then
    if room then om.moveToAuthenticated peer
    else
      match om.victim cfg with
      | some victim => (om.dropPeer victim).moveToAuthenticated peer
      | none => unpreferred
  else unpreferred

/-! ## `Peer` -/

def connectHandler (om : OverlayManager) (peer : ℕ) (error : Bool) : OverlayManager :=
  let om := om.setPeer peer fun p => { p with connecting := false }
  if error then om.drop peer
  else om.setPeer peer fun p =>
    -- connected() starts to read unless the connection is closing
    { p with reading := p.mState ≠ .CLOSING, mState := .CONNECTED }

def makeAddress (remoteIP : Option String) (remoteListeningPort : ℤ) : Option PeerBareAddress :=
  if remoteListeningPort ≤ 0 ∨ 65535 < remoteListeningPort then none
  else remoteIP.map fun ip => ⟨ip, remoteListeningPort.toNat⟩

/-- "connection from already-connected peerID" -/
def alreadyConnected (om : OverlayManager) (peer : ℕ) : Bool :=
  let peerID := (om.peers peer).mPeerID
  (om.mAuthenticatedPeers.lookup peerID).any (· ≠ peer) ||
    om.mPendingPeers.any fun p => p ≠ peer && (om.peers p).mPeerID = peerID

def incompatible (elo : Hello) : Bool :=
  elo.overlayVersion < elo.overlayMinVersion || elo.overlayVersion < cfg.OVERLAY_PROTOCOL_MIN_VERSION ||
    cfg.OVERLAY_PROTOCOL_VERSION < elo.overlayMinVersion

def recvHello (om : OverlayManager) (peer : ℕ) (elo : Hello) (isBanned : Bool)
    (remoteIP : Option String) : OverlayManager :=
  let state := (om.peers peer).mState
  if state = .GOT_HELLO ∨ state = .GOT_AUTH ∨ state = .CLOSING then om.drop peer
  else if !elo.certVerified then om.drop peer
  else if isBanned then om.drop peer
  else
    let om := om.setPeer peer fun p => { p with mPeerID := elo.peerID, mState := .GOT_HELLO }
    if incompatible cfg elo then om.drop peer
    else if elo.peerID = cfg.NODE_ID then om.drop peer
    else if elo.networkID ≠ cfg.networkID then om.drop peer
    else if om.alreadyConnected peer then om.drop peer
    else
      let om := om.setPeer peer fun p => { p with mAddress := makeAddress remoteIP elo.listeningPort }
      if (om.peers peer).mAddress.isNone then om.drop peer else om

def recvAuth (om : OverlayManager) (peer : ℕ) : OverlayManager :=
  if (om.peers peer).mState ≠ .GOT_HELLO then om.drop peer
  else
    let om := om.setPeer peer fun p => { p with mState := .GOT_AUTH }
    let (om, accepted) := om.acceptAuthenticatedPeer cfg peer
    if !accepted then om.drop peer
    -- noteHandshakeSuccessInPeerRecord
    else if (om.peers peer).mAddress.isNone then om.drop peer
    else om

/-- `recvMessage`; a connection reads from `startRead` on, until it is closing. -/
def recvMessage (om : OverlayManager) (peer : ℕ) (msg : StellarMessage) (macVerified isBanned : Bool)
    (remoteIP : Option String) : OverlayManager :=
  let p := om.peers peer
  if !p.reading ∨ p.mState = .CLOSING then om
  else if (p.mState = .GOT_HELLO ∨ p.mState = .GOT_AUTH) ∧ msg ≠ .ERROR_MSG ∧ !macVerified then
    om.drop peer
  else
    match msg with
    | .ERROR_MSG => om.drop peer
    | .HELLO elo => om.recvHello cfg peer elo isBanned remoteIP
    | .AUTH => om.recvAuth cfg peer
    | .other => if p.mState = .GOT_AUTH then om else om.drop peer

end OverlayManager

open OverlayManager in
/-- One event, before overlay shutdown. -/
def overlayStep (cfg : Config) (om : OverlayManager) : Event → OverlayManager
  | .handleKnock => om.handleKnock cfg
  | .connectTo address => om.connectTo cfg address
  | .connectHandler peer error =>
    if (om.peers peer).connecting then om.connectHandler peer error else om
  | .recvMessage peer msg macVerified isBanned remoteIP =>
    om.recvMessage cfg peer msg macVerified isBanned remoteIP
  | .drop peer => om.drop peer

end ZaggCore.Overlay
