import ZaggCore.Xdr.Types
import ZaggCore.Foundations.Runs

/-! # Fetching items from peers

The model of `overlay/Tracker.cpp` and `overlay/ItemFetcher.cpp`. `recv` hands the envelopes back to the
herder one by one, and the herder may call the fetcher again from there: the items being received are a
stack of the state, and the calls made meanwhile are events like all others. Times are in milliseconds. -/

namespace ZaggCore.Overlay
open Foundations
set_option autoImplicit false
set_option maxHeartbeats 250000

def MS_TO_WAIT_FOR_FETCH_REPLY : ℕ := 1500

def MAX_REBUILD_FETCH_LIST : ℕ := 1000

/-- `SCPEnvelope`: its slot, and the rest of it. -/
structure SCPEnvelope (α : Type) where
  slotIndex : ℕ
  content : α
  deriving DecidableEq

/-- What a tracker learns from the overlay manager, and whether a peer is authenticated. -/
structure Peers (Peer : Type) where
  getPeersKnows : Hash → List Peer
  getRandomAuthenticatedPeers : List Peer
  isAuthenticated : Peer → Bool

/-- `mPeersToAsk` is the deque from its back, where peers are taken from; `mTimer` is the time that the
retry timer was armed for. -/
structure Tracker (Peer α : Type) where
  mLastAskedPeer : Option Peer
  mNumListRebuild : ℕ
  mPeersToAsk : List Peer
  mTimer : Option ℕ
  mWaitingEnvelopes : List (Hash × SCPEnvelope α)
  mLastSeenSlotIndex : ℕ

namespace Tracker

variable {Peer α : Type} [DecidableEq Peer] [DecidableEq α]

def new : Tracker Peer α := ⟨none, 0, [], none, [], 0⟩

def empty (t : Tracker Peer α) : Bool := t.mWaitingEnvelopes.isEmpty

/-- The peers that have the envelope go to the back, to be processed first. -/
def rebuildList (peers : Peers Peer) (t : Tracker Peer α) : Tracker Peer α :=
  let peersWithEnvelope := t.mWaitingEnvelopes.flatMap fun e => peers.getPeersKnows e.1
  let mPeersToAsk := peers.getRandomAuthenticatedPeers.foldl
    (fun deque p => if p ∈ peersWithEnvelope then p :: deque else deque ++ [p]) t.mPeersToAsk
  { t with mPeersToAsk := mPeersToAsk, mNumListRebuild := t.mNumListRebuild + 1 }

/-- The first peer that is still authenticated, and the peers behind it. -/
def nextPeer (isAuthenticated : Peer → Bool) : List Peer → Option Peer × List Peer
  | [] => (none, [])
  | p :: deque => if isAuthenticated p then (some p, deque) else nextPeer isAuthenticated deque

/-- The peer is the one that is asked. -/
def tryNextPeer (peers : Peers Peer) (t : Tracker Peer α) : Tracker Peer α × Option Peer :=
  let t := if t.mPeersToAsk.isEmpty && t.mLastAskedPeer.isNone then t.rebuildList peers else t
  let (peer, mPeersToAsk) := nextPeer peers.isAuthenticated t.mPeersToAsk
  let nextTry := match peer with
    | none => MS_TO_WAIT_FOR_FETCH_REPLY *
        (if t.mNumListRebuild > MAX_REBUILD_FETCH_LIST then MAX_REBUILD_FETCH_LIST
          else t.mNumListRebuild)
    | some _ => MS_TO_WAIT_FOR_FETCH_REPLY
  ({ t with mLastAskedPeer := peer, mPeersToAsk := mPeersToAsk, mTimer := some nextTry }, peer)

/-- `messageHash` is the hash of the message that carries the envelope. -/
def listen (messageHash : SCPEnvelope α → Hash) (env : SCPEnvelope α) (t : Tracker Peer α) :
    Tracker Peer α :=
  { t with
    mLastSeenSlotIndex := max env.slotIndex t.mLastSeenSlotIndex
    mWaitingEnvelopes := t.mWaitingEnvelopes ++ [(messageHash env, env)] }

def pop (t : Tracker Peer α) : Tracker Peer α :=
  { t with mWaitingEnvelopes := t.mWaitingEnvelopes.dropLast }

def discard (env : SCPEnvelope α) (t : Tracker Peer α) : Tracker Peer α :=
  { t with mWaitingEnvelopes := t.mWaitingEnvelopes.filter fun x => x.2 ≠ env }

def cancel (t : Tracker Peer α) : Tracker Peer α :=
  { t with mTimer := none, mLastSeenSlotIndex := 0 }

def resetLastSeenSlotIndex (t : Tracker Peer α) : Tracker Peer α := { t with mLastSeenSlotIndex := 0 }

/-- "returns false if no one cares about this guy anymore" -/
def clearEnvelopesBelow (slotIndex : ℕ) (t : Tracker Peer α) : Tracker Peer α × Bool :=
  let t := { t with mWaitingEnvelopes := t.mWaitingEnvelopes.filter fun x => slotIndex ≤ x.2.slotIndex }
  if t.empty then ({ t with mTimer := none, mLastAskedPeer := none }, false) else (t, true)

end Tracker

/-! ## The fetcher -/

structure ItemFetcher (Peer α : Type) where
  mTrackers : Hash → Option (Tracker Peer α)
  /-- The calls of `stopFetchingBelowInternal` posted to the main thread. -/
  posted : List ℕ
  /-- The items whose `recv` has not returned, the innermost first. -/
  receiving : List Hash
  /-- Whom `mAskPeer` was called for, the latest first. -/
  asked : List (Peer × Hash)

namespace ItemFetcher

variable {Peer α : Type} [DecidableEq Peer] [DecidableEq α]

def new : ItemFetcher Peer α := ⟨fun _ => none, [], [], []⟩

def set (s : ItemFetcher Peer α) (itemHash : Hash) (t : Option (Tracker Peer α)) : ItemFetcher Peer α :=
  { s with mTrackers := Function.update s.mTrackers itemHash t }

def tryNextPeer (s : ItemFetcher Peer α) (itemHash : Hash) (peers : Peers Peer) (t : Tracker Peer α) :
    ItemFetcher Peer α :=
  let (t, peer) := t.tryNextPeer peers
  { s.set itemHash (some t) with asked := peer.toList.map (·, itemHash) ++ s.asked }

def fetch (messageHash : SCPEnvelope α → Hash) (s : ItemFetcher Peer α) (itemHash : Hash)
    (envelope : SCPEnvelope α) (peers : Peers Peer) : ItemFetcher Peer α :=
  match s.mTrackers itemHash with
  | none => s.tryNextPeer itemHash peers (Tracker.new.listen messageHash envelope)
  | some tracker => s.set itemHash (some (tracker.listen messageHash envelope))

def stopFetch (s : ItemFetcher Peer α) (itemHash : Hash) (envelope : SCPEnvelope α) :
    ItemFetcher Peer α :=
  match s.mTrackers itemHash with
  | none => s
  | some tracker =>
    let tracker := tracker.discard envelope
    s.set itemHash (some (if tracker.empty then tracker.cancel else tracker))

def getLastSeenSlotIndex (s : ItemFetcher Peer α) (itemHash : Hash) : ℕ :=
  match s.mTrackers itemHash with
  | none => 0
  | some tracker => tracker.mLastSeenSlotIndex

def fetchingFor (s : ItemFetcher Peer α) (itemHash : Hash) : List (SCPEnvelope α) :=
  match s.mTrackers itemHash with
  | none => []
  | some tracker => tracker.mWaitingEnvelopes.map (·.2)

def stopFetchingBelow (s : ItemFetcher Peer α) (slotIndex : ℕ) : ItemFetcher Peer α :=
  { s with posted := s.posted ++ [slotIndex] }

def stopFetchingBelowInternal (s : ItemFetcher Peer α) (slotIndex : ℕ) : ItemFetcher Peer α :=
  { s with mTrackers := fun itemHash =>
      ((s.mTrackers itemHash).map (Tracker.clearEnvelopesBelow slotIndex)).bind fun (t, kept) =>
        if kept then some t else none }

def doesntHave (s : ItemFetcher Peer α) (itemHash : Hash) (peer : Peer) (peers : Peers Peer) :
    ItemFetcher Peer α :=
  match s.mTrackers itemHash with
  | none => s
  | some tracker =>
    if tracker.mLastAskedPeer = some peer then s.tryNextPeer itemHash peers tracker else s

def recv (s : ItemFetcher Peer α) (itemHash : Hash) : ItemFetcher Peer α :=
  match s.mTrackers itemHash with
  | none => s
  | some _ => { s with receiving := itemHash :: s.receiving }

/-- The herder has returned, or was not called yet: the loop of the innermost `recv` pops an envelope,
or ends. -/
def recvNext (s : ItemFetcher Peer α) : ItemFetcher Peer α :=
  match s.receiving with
  | [] => s
  | itemHash :: receiving =>
    match s.mTrackers itemHash with
    | none => { s with receiving := receiving }
    | some tracker =>
      if tracker.empty then
        { s.set itemHash (some tracker.resetLastSeenSlotIndex.cancel) with receiving := receiving }
      else s.set itemHash (some tracker.pop)

/-! ## Runs -/

inductive Event (Peer α : Type) where
  | fetch (itemHash : Hash) (envelope : SCPEnvelope α) (peers : Peers Peer)
  | stopFetch (itemHash : Hash) (envelope : SCPEnvelope α)
  | stopFetchingBelow (slotIndex : ℕ)
  | doesntHave (itemHash : Hash) (peer : Peer) (peers : Peers Peer)
  | recv (itemHash : Hash)
  | recvNext
  | posted
  | timer (itemHash : Hash) (peers : Peers Peer)

/-- The main loop runs the first posted call, which it does not from inside a `recv`. -/
def runPosted (s : ItemFetcher Peer α) : ItemFetcher Peer α :=
  match s.receiving, s.posted with
  | [], slotIndex :: posted => { s with posted := posted }.stopFetchingBelowInternal slotIndex
  | _, _ => s

/-- An armed timer expires, which it does not from inside a `recv`. -/
def timerExpired (s : ItemFetcher Peer α) (itemHash : Hash) (peers : Peers Peer) : ItemFetcher Peer α :=
  match s.receiving, s.mTrackers itemHash with
  | [], some tracker =>
    if tracker.mTimer.isSome then s.tryNextPeer itemHash peers { tracker with mTimer := none } else s
  | _, _ => s

def step (messageHash : SCPEnvelope α → Hash) (s : ItemFetcher Peer α) :
    Event Peer α → ItemFetcher Peer α
  | .fetch itemHash envelope peers => s.fetch messageHash itemHash envelope peers
  | .stopFetch itemHash envelope => s.stopFetch itemHash envelope
  | .stopFetchingBelow slotIndex => s.stopFetchingBelow slotIndex
  | .doesntHave itemHash peer peers => s.doesntHave itemHash peer peers
  | .recv itemHash => s.recv itemHash
  | .recvNext => s.recvNext
  | .posted => s.runPosted
  | .timer itemHash peers => s.timerExpired itemHash peers

/-! ## No stall -/

/-- Every tracker with a waiting envelope has its retry timer armed; of an item being received the
envelopes are about to be popped. -/
def Armed (s : ItemFetcher Peer α) : Prop :=
  ∀ itemHash, itemHash ∉ s.receiving → ∀ tracker, s.mTrackers itemHash = some tracker →
    tracker.mWaitingEnvelopes ≠ [] → tracker.mTimer.isSome

/-- A fetch finds no tracker of the item, or one whose timer is armed, or one that `recv` is about to
empty. -/
def Live (s : ItemFetcher Peer α) : Event Peer α → Prop
  | .fetch itemHash _ _ => itemHash ∉ s.receiving → ∀ tracker, s.mTrackers itemHash = some tracker →
      tracker.mTimer.isSome
  | _ => True

end ItemFetcher

section NoStall

open ItemFetcher

variable {Peer α : Type} {s : ItemFetcher Peer α}

theorem ItemFetcher.armed_new : Armed (new : ItemFetcher Peer α) := by
  intro itemHash _ tracker h
  cases h

/-- An item other than the one whose tracker is replaced keeps its own. -/
theorem ItemFetcher.Armed.set (h : Armed s) {itemHash : Hash} {tracker : Tracker Peer α}
    (harmed : itemHash ∉ s.receiving → tracker.mWaitingEnvelopes ≠ [] → tracker.mTimer.isSome) :
    Armed (s.set itemHash (some tracker)) := by
  intro other hother t ht hwaiting
  by_cases heq : other = itemHash
  · subst heq
    have htracker : some tracker = some t := by simpa [ItemFetcher.set] using ht
    obtain rfl := Option.some.inj htracker
    exact harmed hother hwaiting
  · exact h other hother t (by simpa [ItemFetcher.set, Function.update_of_ne heq] using ht) hwaiting

theorem ItemFetcher.Armed.recv (h : Armed s) (itemHash : Hash) : Armed (s.recv itemHash) := by
  unfold ItemFetcher.recv
  split
  · exact h
  · exact fun other hother => h other fun hin => hother (List.mem_cons_of_mem _ hin)

/-- The item leaves the stack only when no envelope of it waits. -/
theorem ItemFetcher.Armed.recvNext (h : Armed s) : Armed s.recvNext := by
  unfold ItemFetcher.recvNext
  split
  case h_1 => exact h
  case h_2 itemHash receiving hstack =>
    have hpopped : ∀ other ∉ receiving, other ≠ itemHash → other ∉ s.receiving := by
      intro other hother hne
      rw [hstack]
      simp [hother, hne]
    split
    case h_1 hnone =>
      intro other hother tracker htracker
      refine h other (hpopped other hother ?_) tracker htracker
      rintro rfl
      cases hnone.symm.trans htracker
    case h_2 tracker htracker =>
      split
      case isTrue hempty =>
        intro other hother t ht hwaiting
        by_cases heq : other = itemHash
        · subst heq
          have hself : some tracker.resetLastSeenSlotIndex.cancel = some t := by
            simpa [ItemFetcher.set] using ht
          obtain rfl := Option.some.inj hself
          exact absurd (List.isEmpty_iff.mp hempty) hwaiting
        · refine h other (hpopped other hother heq) t ?_ hwaiting
          simpa [ItemFetcher.set, Function.update_of_ne heq] using ht
      case isFalse =>
        exact h.set fun hout => absurd (hstack ▸ List.mem_cons_self) hout

theorem ItemFetcher.Armed.stopFetchingBelowInternal (h : Armed s) (slotIndex : ℕ) :
    Armed (s.stopFetchingBelowInternal slotIndex) := by
  intro itemHash hout t ht hwaiting
  obtain ⟨⟨t', kept⟩, hmap, hkept⟩ := Option.bind_eq_some_iff.mp ht
  obtain ⟨tracker, htracker, hclear⟩ := Option.map_eq_some_iff.mp hmap
  simp only [Tracker.clearEnvelopesBelow] at hclear
  split at hclear <;> cases hclear
  · cases hkept
  · obtain rfl := Option.some.inj hkept
    refine h itemHash hout tracker htracker fun hnil => hwaiting ?_
    simp [hnil]

theorem ItemFetcher.Armed.runPosted (h : Armed s) : Armed s.runPosted := by
  unfold ItemFetcher.runPosted
  split
  case h_1 slotIndex posted _ _ =>
    exact Armed.stopFetchingBelowInternal (s := { s with posted := posted }) h slotIndex
  case h_2 => exact h

variable [DecidableEq Peer]

theorem ItemFetcher.Armed.tryNextPeer (h : Armed s) (itemHash : Hash) (peers : Peers Peer) (t : Tracker Peer α) :
    Armed (s.tryNextPeer itemHash peers t) :=
  h.set fun _ _ => rfl

theorem ItemFetcher.Armed.fetch {messageHash : SCPEnvelope α → Hash} (h : Armed s) {itemHash : Hash}
    {envelope : SCPEnvelope α} {peers : Peers Peer} (hlive : Live s (.fetch itemHash envelope peers)) :
    Armed (s.fetch messageHash itemHash envelope peers) := by
  unfold ItemFetcher.fetch
  split
  case h_1 => exact h.tryNextPeer _ _ _
  case h_2 tracker htracker => exact h.set fun hout _ => hlive hout tracker htracker

theorem ItemFetcher.Armed.doesntHave (h : Armed s) (itemHash : Hash) (peer : Peer) (peers : Peers Peer) :
    Armed (s.doesntHave itemHash peer peers) := by
  unfold ItemFetcher.doesntHave
  split
  · exact h
  · split
    · exact h.tryNextPeer _ _ _
    · exact h

theorem ItemFetcher.Armed.timerExpired (h : Armed s) (itemHash : Hash) (peers : Peers Peer) :
    Armed (s.timerExpired itemHash peers) := by
  unfold ItemFetcher.timerExpired
  split
  · split
    · exact h.tryNextPeer _ _ _
    · exact h
  · exact h

/-! A retry that finds nobody to ask starts over with a new list. -/

variable [DecidableEq α]

omit [DecidableEq Peer] in
theorem ItemFetcher.Armed.stopFetch (h : Armed s) (itemHash : Hash) (envelope : SCPEnvelope α) :
    Armed (s.stopFetch itemHash envelope) := by
  unfold ItemFetcher.stopFetch
  split
  case h_1 => exact h
  case h_2 tracker htracker =>
    refine h.set fun hout hwaiting => ?_
    by_cases hempty : (tracker.discard envelope).empty = true
    · rw [if_pos hempty] at hwaiting
      exact absurd (List.isEmpty_iff.mp hempty) hwaiting
    · rw [if_neg hempty] at hwaiting ⊢
      refine h itemHash hout tracker htracker fun hnil => hwaiting ?_
      simp [Tracker.discard, hnil]

variable {messageHash : SCPEnvelope α → Hash}

theorem ItemFetcher.Armed.step (h : Armed s) (e : Event Peer α) (hlive : Live s e) :
    Armed (step messageHash s e) := by
  cases e with
  | fetch itemHash envelope peers => exact h.fetch hlive
  | stopFetch itemHash envelope => exact h.stopFetch itemHash envelope
  | stopFetchingBelow slotIndex => exact h
  | doesntHave itemHash peer peers => exact h.doesntHave itemHash peer peers
  | recv itemHash => exact h.recv itemHash
  | recvNext => exact h.recvNext
  | posted => exact h.runPosted
  | timer itemHash peers => exact h.timerExpired itemHash peers

/-- An envelope that joins a tracker without a timer is stalled at once. -/
theorem ItemFetcher.live_of_armed {e : Event Peer α} (h : Armed (step messageHash s e)) : Live s e := by
  cases e with
  | fetch itemHash envelope peers =>
    intro hout tracker htracker
    have hstep : step messageHash s (.fetch itemHash envelope peers)
        = s.set itemHash (some (tracker.listen messageHash envelope)) := by
      simp [step, ItemFetcher.fetch, htracker]
    rw [hstep] at h
    exact h itemHash hout (tracker.listen messageHash envelope) (by simp [ItemFetcher.set])
      (by simp [Tracker.listen])
  | _ => trivial

/-- **Fetching.** In every state of a run the trackers with waiting envelopes have armed timers, if and
only if no fetch joins a tracker that was left without a timer. -/
theorem ItemFetcher.throughout_armed_iff (messageHash : SCPEnvelope α → Hash) (es : List (Event Peer α)) :
    Throughout (step messageHash) Armed new es ↔ EachStep (step messageHash) Live new es :=
  ⟨eachStep_of_throughout fun _ _ _ h => live_of_armed h,
    throughout_of_eachStep (fun _ e h hlive => h.step e hlive) armed_new⟩

/-- An envelope is discarded, which leaves its tracker without a timer, and another one comes to wait
for the same item. -/
theorem ItemFetcher.not_throughout_armed :
    ¬ ∀ es : List (Event ℕ ℕ), Throughout (step fun _ => 0) Armed new es := by
  intro h
  have harmed := (h [.fetch 1 ⟨5, 1⟩ ⟨fun _ => [], [], fun _ => true⟩, .stopFetch 1 ⟨5, 1⟩,
    .fetch 1 ⟨5, 2⟩ ⟨fun _ => [], [], fun _ => true⟩]).2.2.2
  have htimer := harmed 1 (by decide) _ rfl (by decide)
  cases htimer

end NoStall

end ZaggCore.Overlay
