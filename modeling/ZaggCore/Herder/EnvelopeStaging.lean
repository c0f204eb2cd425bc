import ZaggCore.Foundations.Runs
import ZaggCore.Herder.WatchedEnvelopes

/-! # Staging of envelopes

Over whole runs: an envelope is popped once, when its items were cached, and while it is being fetched it
waits for every item that is not cached, as long as no cached transaction set expires under it. -/

namespace ZaggCore.Herder.Staging
set_option autoImplicit false
set_option maxHeartbeats 250000

open Foundations Overlay Util

namespace PendingEnvelopes

variable {Peer : Type} [DecidableEq Peer] {messageHash : Envelope → Hash}
  {fromOpaque : Value → Option StellarValue} {s : PendingEnvelopes Peer} {envelope e : Envelope}
  {peers : Peers Peer}

/-! ## Runs -/

def Admits (view : View) (envelope : Envelope) : Prop :=
  view.inRange envelope = true ∧ view.isNodeInQuorum envelope.content.nodeID = true

/-- What is assumed of the calls: the sender stays in the quorum and the slot in range, and the caches
have room. A quorum set that is added is sane, as is asserted. -/
def Assumed (s : PendingEnvelopes Peer) : Event Peer → Prop
  | .recvSCPEnvelope envelope view _ => Admits view envelope
  | .recvTxSet hash _ => s.mTxSetCache.Room hash
  | .recvSCPQuorumSet hash _ => s.mQsetCache.Room hash
  | .addTxSet hash _ _ => s.mTxSetCache.Room hash
  | .addSCPQuorumSet hash q => s.mQsetCache.Room hash ∧ Scp.isQuorumSetSane q false = true
  | .txSetNext view _ => ∀ e ∈ s.mTxSetFetcher.popped, Admits view e
  | .quorumSetNext view _ => ∀ e ∈ s.mQuorumSetFetcher.popped, Admits view e
  | _ => True

instance (view : View) (envelope : Envelope) : Decidable (Admits view envelope) :=
  inferInstanceAs (Decidable (_ ∧ _))

instance (s : PendingEnvelopes Peer) : ∀ ev : Event Peer, Decidable (Assumed s ev)
  | .recvSCPEnvelope envelope view _ => inferInstanceAs (Decidable (Admits view envelope))
  | .recvTxSet hash _ => inferInstanceAs (Decidable (s.mTxSetCache.Room hash))
  | .recvSCPQuorumSet hash _ => inferInstanceAs (Decidable (s.mQsetCache.Room hash))
  | .addTxSet hash _ _ => inferInstanceAs (Decidable (s.mTxSetCache.Room hash))
  | .addSCPQuorumSet _ _ => inferInstanceAs (Decidable (_ ∧ _))
  | .txSetNext view _ => inferInstanceAs (Decidable (∀ e ∈ s.mTxSetFetcher.popped, Admits view e))
  | .quorumSetNext view _ => inferInstanceAs (Decidable (∀ e ∈ s.mQuorumSetFetcher.popped, Admits view e))
  | .peerDoesntHave .. | .pop _ | .eraseBelow _ | .slotClosed _ | .txSetPosted | .quorumSetPosted
  | .txSetTimer .. | .quorumSetTimer .. => isTrue trivial

/-- The steps under which no envelope is forgotten by a tracker. -/
def Keeps (fromOpaque : Value → Option StellarValue) (s : PendingEnvelopes Peer) : Event Peer → Prop
  | .recvTxSet hash _ => hash ∈ s.mTxSetFetcher.receiving →
      Replaces fromOpaque s hash (s.mTxSetFetcher.getLastSeenSlotIndex hash)
  | .recvSCPQuorumSet hash q => Scp.isQuorumSetSane q false = false → s.mQsetCache.exists? hash = false
  | .addTxSet hash lastSeenSlotIndex _ => Replaces fromOpaque s hash lastSeenSlotIndex
  | .eraseBelow slotIndex => s.ReceivedAll fun mark => mark = 0 ∨ slotIndex ≤ mark
  | .slotClosed slotIndex => MAX_SLOTS_TO_REMEMBER < slotIndex →
      (s.FetchingAll fun e => slotIndex - MAX_SLOTS_TO_REMEMBER ≤ e.slotIndex) ∧
        s.ReceivedAll fun mark => mark ≠ slotIndex - MAX_SLOTS_TO_REMEMBER
  | .txSetPosted => s.mTxSetFetcher.receiving = [] →
      ∀ slotIndex ∈ s.mTxSetFetcher.posted.head?, s.FetchingAll fun e => slotIndex ≤ e.slotIndex
  | .quorumSetPosted => s.mQuorumSetFetcher.receiving = [] →
      ∀ slotIndex ∈ s.mQuorumSetFetcher.posted.head?, s.FetchingAll fun e => slotIndex ≤ e.slotIndex
  | _ => True

instance (s : PendingEnvelopes Peer) (P : Envelope → Prop) [DecidablePred P] : Decidable (s.FetchingAll P) :=
  inferInstanceAs (Decidable (∀ it ∈ s.mEnvelopes.items, ∀ e ∈ it.2.mFetchingEnvelopes, P e))

instance (s : PendingEnvelopes Peer) (P : ℕ → Prop) [DecidablePred P] : Decidable (s.ReceivedAll P) :=
  List.decidableBAll (fun h => ∀ item ∈ s.mTxSetCache.find? h, P item.1) s.mTxSetFetcher.receiving

instance (fromOpaque : Value → Option StellarValue) (s : PendingEnvelopes Peer) (hash : Hash)
    (lastSeenSlotIndex : ℕ) : Decidable (Replaces fromOpaque s hash lastSeenSlotIndex) :=
  inferInstanceAs (Decidable (_ → FetchingAll s _))

instance (fromOpaque : Value → Option StellarValue) (s : PendingEnvelopes Peer) :
    ∀ ev : Event Peer, Decidable (Keeps fromOpaque s ev)
  | .recvTxSet .. | .recvSCPQuorumSet .. | .txSetPosted | .quorumSetPosted | .slotClosed _ =>
    inferInstanceAs (Decidable (_ → _))
  | .addTxSet .. => inferInstanceAs (Decidable (Replaces ..))
  | .eraseBelow slotIndex => inferInstanceAs (Decidable (s.ReceivedAll fun mark => mark = 0 ∨ slotIndex ≤ mark))
  | .recvSCPEnvelope .. | .addSCPQuorumSet .. | .peerDoesntHave .. | .pop _ | .txSetNext .. | .quorumSetNext ..
  | .txSetTimer .. | .quorumSetTimer .. => isTrue trivial

/-! ## Every step keeps the envelopes watched -/

theorem Watched.herderRecvSCPEnvelope (h : Watched fromOpaque (· = envelope) s)
    (hsound : (s.slot envelope.slotIndex).Sound envelope.slotIndex) {view : View} (hadmits : Admits view envelope) :
    Watched fromOpaque (fun _ => False)
      (s.herderRecvSCPEnvelope messageHash fromOpaque envelope view peers).1 := by
  have hpos : 0 < envelope.slotIndex := by
    have hrange := hadmits.1
    unfold View.inRange at hrange
    have hmin : 0 < view.minLedgerSeq := by
      have hcurrent := view.current_pos
      unfold View.minLedgerSeq
      split <;> omega
    simp only [Bool.and_eq_true, decide_eq_true_eq] at hrange
    omega
  unfold PendingEnvelopes.herderRecvSCPEnvelope
  rw [if_pos hadmits.1]
  exact h.recvSCPEnvelope hsound hpos hadmits.2

theorem Watched.step (h : Watched fromOpaque (fun _ => False) s) (hsound : ∀ i, (s.slot i).Sound i)
    {ev : Event Peer} (hassumed : Assumed s ev) (hkeeps : Keeps fromOpaque s ev) :
    Watched fromOpaque (fun _ => False) (PendingEnvelopes.step messageHash fromOpaque s ev) := by
  cases ev with
  | recvSCPEnvelope envelope view peers =>
    exact (h.late_mono fun _ => False.elim).herderRecvSCPEnvelope (hsound _) hassumed
  | recvTxSet hash txset =>
    simp only [PendingEnvelopes.step, PendingEnvelopes.recvTxSet]
    split
    case isTrue => exact h
    case isFalse hseen =>
      refine h.addTxSet hassumed fun hc => ?_
      by_cases hreceiving : hash ∈ s.mTxSetFetcher.receiving
      · exact hkeeps hreceiving hc
      · exact absurd (h.tx.idle hash hc hreceiving) hseen
  | recvSCPQuorumSet hash q =>
    simp only [PendingEnvelopes.step, PendingEnvelopes.recvSCPQuorumSet]
    split
    · exact h
    · split
      · exact h.addSCPQuorumSet hassumed
      · exact h.discardAll _
  | addTxSet hash lastSeenSlotIndex txset => exact h.addTxSet hassumed hkeeps
  | addSCPQuorumSet hash q => exact h.addSCPQuorumSet hassumed.1
  | peerDoesntHave type itemID peer peers =>
    cases type with
    | TX_SET => exact h.sameTxSetFetcher (ItemFetcher.sameWaiting_doesntHave _ _)
    | SCP_QUORUMSET => exact h.sameQuorumSetFetcher (ItemFetcher.sameWaiting_doesntHave _ _)
    | other => exact h
  | pop slotIndex =>
    simp only [PendingEnvelopes.step, PendingEnvelopes.pop]
    split
    case h_1 => exact h
    case h_2 it v hfirst =>
      refine h.setSlot ?_
      rw [slot_of_firstReady hfirst]
  | eraseBelow slotIndex => exact h.eraseBelow hkeeps
  | slotClosed slotIndex => exact h.slotClosed (fun hslot => (hkeeps hslot).1) fun hslot => (hkeeps hslot).2
  | txSetNext view peers =>
    have hturn := h.txSetTurn
    simp only [PendingEnvelopes.step, PendingEnvelopes.txSetNext]
    split
    case h_1 hpopped =>
      refine hturn.late_mono fun e he => ?_
      rw [hpopped] at he
      cases he
    case h_2 envelope hpopped =>
      refine (hturn.late_mono fun e he => ?_).herderRecvSCPEnvelope (hsound _) (hassumed envelope hpopped)
      exact (Option.some.inj (hpopped.symm.trans he)).symm
  | quorumSetNext view peers =>
    have hturn := h.quorumSetTurn
    simp only [PendingEnvelopes.step, PendingEnvelopes.quorumSetNext]
    split
    case h_1 => exact hturn
    case h_2 envelope hpopped =>
      exact (hturn.late_mono fun _ => False.elim).herderRecvSCPEnvelope (hsound _)
        (hassumed envelope hpopped)
  | txSetPosted =>
    simp only [PendingEnvelopes.step, ItemFetcher.runPosted]
    split
    case h_1 slotIndex posted hreceiving hposted =>
      exact h.txSetCleanUp (hkeeps hreceiving slotIndex (by simp [hposted]))
    case h_2 => exact h
  | quorumSetPosted =>
    simp only [PendingEnvelopes.step, ItemFetcher.runPosted]
    split
    case h_1 slotIndex posted hreceiving hposted =>
      exact h.quorumSetCleanUp (hkeeps hreceiving slotIndex (by simp [hposted]))
    case h_2 => exact h
  | txSetTimer itemHash peers => exact h.sameTxSetFetcher (ItemFetcher.sameWaiting_timerExpired _)
  | quorumSetTimer itemHash peers => exact h.sameQuorumSetFetcher (ItemFetcher.sameWaiting_timerExpired _)

/-! ## Every step keeps the lists apart -/

theorem mQsetCache_recvSCPEnvelope (isNodeInQuorum : NodeID → Bool) (h : Hash) :
    (s.recvSCPEnvelope messageHash fromOpaque envelope isNodeInQuorum peers).1.mQsetCache.exists? h
      = s.mQsetCache.exists? h := by
  have hu : (((s.touchFetchCache fromOpaque envelope).insertFetching envelope).startFetch messageHash fromOpaque
      envelope peers).mQsetCache.exists? h = s.mQsetCache.exists? h := by
    rw [mQsetCache_startFetch]
    exact exists?_mQsetCache_touchFetchCache h
  rcases recvSCPEnvelope_cases messageHash fromOpaque s envelope isNodeInQuorum peers with
    ⟨hs', -⟩ | ⟨-, ⟨hs', -⟩ | ⟨hs', -, -⟩ | ⟨-, -, -, hs' | ⟨hs', -⟩⟩⟩
  · rw [hs']
  · rw [hs']
    exact exists?_mQsetCache_touchFetchCache h
  · rw [hs']
    exact exists?_mQsetCache_touchFetchCache h
  · rw [hs']
    exact hu
  · rw [hs']
    exact hu

theorem mQsetCache_herderRecvSCPEnvelope (view : View) (h : Hash) :
    (s.herderRecvSCPEnvelope messageHash fromOpaque envelope view peers).1.mQsetCache.exists? h
      = s.mQsetCache.exists? h := by
  unfold herderRecvSCPEnvelope
  split
  · exact mQsetCache_recvSCPEnvelope _ h
  · rfl

/-- A quorum set stays cached. -/
theorem mQsetCache_step {ev : Event Peer} (hassumed : Assumed s ev) {h : Hash}
    (hc : s.mQsetCache.exists? h = true) :
    (step messageHash fromOpaque s ev).mQsetCache.exists? h = true := by
  have hput : ∀ hash q, s.mQsetCache.Room hash → (s.mQsetCache.put hash q).exists? h = true := by
    intro hash q hroom
    unfold LruCache.exists?
    rw [LruCache.find?_put hroom]
    split
    · rfl
    · exact hc
  cases ev with
  | recvSCPEnvelope envelope view peers => exact (mQsetCache_herderRecvSCPEnvelope view h).trans hc
  | recvTxSet hash txset =>
    simp only [step, recvTxSet]
    split <;> exact hc
  | recvSCPQuorumSet hash q =>
    simp only [step, recvSCPQuorumSet]
    split
    · exact hc
    · split
      · exact hput hash q hassumed
      · exact (congrArg (·.exists? h) (mQsetCache_discardAll _)).trans hc
  | addSCPQuorumSet hash q => exact hput hash q hassumed.1
  | peerDoesntHave type itemID peer peers => cases type <;> exact hc
  | pop slotIndex =>
    simp only [step, pop]
    split <;> exact hc
  | slotClosed slotIndex =>
    simp only [step, slotClosed]
    split <;> exact hc
  | txSetNext view peers =>
    simp only [step, txSetNext]
    split
    · exact hc
    · exact (mQsetCache_herderRecvSCPEnvelope view h).trans hc
  | quorumSetNext view peers =>
    simp only [step, quorumSetNext]
    split
    · exact hc
    · exact (mQsetCache_herderRecvSCPEnvelope view h).trans hc
  | _ => exact hc

/-- What is rejected waits for a quorum set that is not cached. -/
theorem not_cached_of_rejects (h : Watched fromOpaque (fun _ => False) s) {ev : Event Peer}
    (hkeeps : Keeps fromOpaque s ev) (hrejects : Rejects s ev e) :
    ¬ (step messageHash fromOpaque s ev).mQsetCache.exists? (getCompanionQuorumSetHash e) = true := by
  cases ev with
  | recvSCPQuorumSet hash q =>
    obtain ⟨hsane, hwaits⟩ := hrejects
    have hnone : s.mQsetCache.exists? (getCompanionQuorumSetHash e) = false :=
      (h.quorum.waits hash e hwaits).1 ▸ hkeeps hsane
    have hsame : (step messageHash fromOpaque s (.recvSCPQuorumSet hash q)).mQsetCache = s.mQsetCache := by
      simp only [step, recvSCPQuorumSet, hsane]
      split
      · rfl
      · exact mQsetCache_discardAll _
    rw [hsame, hnone]
    exact Bool.false_ne_true
  | _ => exact hrejects.elim

/-- What holds of every state of a run. -/
structure Staged (fromOpaque : Value → Option StellarValue) (s : PendingEnvelopes Peer) : Prop where
  sound : ∀ i, (s.slot i).Sound i
  filed : ∀ i, (s.slot i).Filed fun e => s.mQsetCache.exists? (getCompanionQuorumSetHash e) = true
  watched : Watched fromOpaque (fun _ => False) s

omit [DecidableEq Peer] in
theorem staged_new : Staged fromOpaque (new : PendingEnvelopes Peer) where
  sound i := SlotEnvelopes.sound_empty i
  filed i e he := by cases he
  watched := by
    refine ⟨⟨?_, ?_, ItemFetcher.seen_new⟩, ⟨LruCache.keyed_new _, ?_, ?_, ItemFetcher.seen_new, ?_⟩, ?_⟩
    · intro h e he
      cases he
    · intro h hh
      cases hh
    · intro h e he
      cases he
    · intro h hh
      cases hh
    · intro h hh
      cases hh
    · intro e he
      cases he

theorem Staged.step (h : Staged fromOpaque s) {ev : Event Peer} (hassumed : Assumed s ev)
    (hkeeps : Keeps fromOpaque s ev) : Staged fromOpaque (step messageHash fromOpaque s ev) where
  sound := sound_step h.sound ev
  filed i := by
    rcases slot_step messageHash fromOpaque s ev i with ⟨-, hempty⟩ | hmoves
    · rw [hempty]
      intro e he
      cases he
    · refine SlotEnvelopes.Filed.moves (fun e he => ?_) (h.sound i) (fun e hfull => ?_)
        (fun e hrejects => not_cached_of_rejects h.watched hkeeps hrejects) hmoves
      · obtain ⟨hc, hdiscarded⟩ := h.filed i e he
        exact ⟨mQsetCache_step hassumed hc, hdiscarded⟩
      · exact (Bool.and_eq_true_iff.mp hfull).1
  watched := h.watched.step h.sound hassumed hkeeps

/-! ## Where an envelope is -/

/-- The envelope waits for the item, and the item was seen with a slot, so that its arrival is not
ignored. -/
def Awaits (fetcher : ItemFetcher Peer Contents) (h : Hash) (e : Envelope) : Prop :=
  e ∈ fetcher.fetchingFor h ∧ 0 < fetcher.getLastSeenSlotIndex h

structure Placed (fromOpaque : Value → Option StellarValue) (s : PendingEnvelopes Peer) (e : Envelope) :
    Prop where
  fetching : e ∈ (s.slot e.slotIndex).mFetchingEnvelopes →
    e ∉ (s.slot e.slotIndex).mProcessedEnvelopes ∧ e ∉ (s.slot e.slotIndex).mDiscardedEnvelopes
  processed : e ∈ (s.slot e.slotIndex).mProcessedEnvelopes →
    e ∉ (s.slot e.slotIndex).mDiscardedEnvelopes
  qset : Fetching s e → s.mQsetCache.exists? (getCompanionQuorumSetHash e) = true ∨
    Awaits s.mQuorumSetFetcher (getCompanionQuorumSetHash e) e
  txSets : Fetching s e → ∀ hashes, getTxSetHashes fromOpaque e = some hashes → ∀ h ∈ hashes,
    s.mTxSetCache.exists? h = true ∨ Awaits s.mTxSetFetcher h e

omit [DecidableEq Peer] in
theorem Staged.placed (h : Staged fromOpaque s) (e : Envelope) : Placed fromOpaque s e where
  fetching he := (h.sound e.slotIndex).fetching e he
  processed he := (h.filed e.slotIndex e he).2
  qset he := by
    refine (h.watched.supplied e he).qset.imp_right fun hw => ⟨hw, ?_⟩
    exact (h.watched.quorum.waits _ e hw).2.trans_le (h.watched.quorum.seen _ e hw)
  txSets he hashes hhashes k hk := by
    rcases (h.watched.supplied e he).txSets hashes hhashes k hk with hm | hw | ⟨hl, -⟩
    · exact .inl hm.exists?
    · exact .inr ⟨hw, (h.watched.tx.positive k e hw).trans_le (h.watched.tx.seen k e hw)⟩
    · exact hl.elim

/-! ## An item that arrives -/

/-- What waits goes on waiting, for items that are received still. -/
structure GoesOn (f f' : ItemFetcher Peer Contents) : Prop where
  waits : ∀ h, f.fetchingFor h ⊆ f'.fetchingFor h
  receiving : f.receiving ⊆ f'.receiving

omit [DecidableEq Peer] in
theorem GoesOn.refl (f : ItemFetcher Peer Contents) : GoesOn f f :=
  ⟨fun _ => List.Subset.refl _, List.Subset.refl _⟩

omit [DecidableEq Peer] in
theorem GoesOn.trans {f f' f'' : ItemFetcher Peer Contents} (h : GoesOn f f') (h' : GoesOn f' f'') : GoesOn f f'' :=
  ⟨fun k => List.Subset.trans (h.waits k) (h'.waits k), List.Subset.trans h.receiving h'.receiving⟩

omit [DecidableEq Peer] in
theorem GoesOn.of_same {f f' : ItemFetcher Peer Contents} (h : f'.SameWaiting f) : GoesOn f f' where
  waits k := (h.fetchingFor k).symm ▸ List.Subset.refl _
  receiving := h.receiving.symm ▸ List.Subset.refl _

omit [DecidableEq Peer] in
theorem goesOn_recv (f : ItemFetcher Peer Contents) (h : Hash) : GoesOn f (f.recv h) where
  waits k := (ItemFetcher.fetchingFor_recv h k).symm ▸ List.Subset.refl _
  receiving := ItemFetcher.receiving_subset_recv h

theorem goesOn_startFetch :
    GoesOn s.mTxSetFetcher (s.startFetch messageHash fromOpaque envelope peers).mTxSetFetcher ∧
      GoesOn s.mQuorumSetFetcher (s.startFetch messageHash fromOpaque envelope peers).mQuorumSetFetcher := by
  constructor
  · cases hhashes : getTxSetHashes fromOpaque envelope with
    | none =>
      have hsame : (s.startFetch messageHash fromOpaque envelope peers).mTxSetFetcher = s.mTxSetFetcher := by
        unfold startFetch
        rw [hhashes]
        dsimp only
        split <;> rfl
      rw [hsame]
      exact .refl _
    | some hashes =>
      rw [mTxSetFetcher_startFetch hhashes]
      refine ⟨fun k e he => mem_fetchTxSets.mpr (.inl he), ?_⟩
      rw [receiving_fetchTxSets]
      exact List.Subset.refl _
  · rw [mQuorumSetFetcher_startFetch]
    split
    · exact .refl _
    · refine ⟨fun k e he => ItemFetcher.mem_fetchingFor_fetch.mpr (.inl he), ?_⟩
      rw [ItemFetcher.receiving_fetch]
      exact List.Subset.refl _

theorem goesOn_herderRecvSCPEnvelope (s : PendingEnvelopes Peer) (envelope : Envelope) (view : View)
    (peers : Peers Peer) :
    let s' := (s.herderRecvSCPEnvelope messageHash fromOpaque envelope view peers).1
    GoesOn s.mTxSetFetcher s'.mTxSetFetcher ∧ GoesOn s.mQuorumSetFetcher s'.mQuorumSetFetcher := by
  intro s'
  have ht : GoesOn s.mTxSetFetcher (s.touchFetchCache fromOpaque envelope).mTxSetFetcher ∧
      GoesOn s.mQuorumSetFetcher (s.touchFetchCache fromOpaque envelope).mQuorumSetFetcher := by
    rw [mTxSetFetcher_touchFetchCache, mQuorumSetFetcher_touchFetchCache]
    exact ⟨.refl _, .refl _⟩
  have hstart : ∀ t : PendingEnvelopes Peer,
      GoesOn t.mTxSetFetcher (t.startFetch messageHash fromOpaque envelope peers).mTxSetFetcher ∧
        GoesOn t.mQuorumSetFetcher (t.startFetch messageHash fromOpaque envelope peers).mQuorumSetFetcher :=
    fun _ => goesOn_startFetch
  have hu : GoesOn s.mTxSetFetcher (((s.touchFetchCache fromOpaque envelope).insertFetching envelope).startFetch
        messageHash fromOpaque envelope peers).mTxSetFetcher ∧
      GoesOn s.mQuorumSetFetcher (((s.touchFetchCache fromOpaque envelope).insertFetching envelope).startFetch
        messageHash fromOpaque envelope peers).mQuorumSetFetcher :=
    have h := hstart ((s.touchFetchCache fromOpaque envelope).insertFetching envelope)
    ⟨ht.1.trans h.1, ht.2.trans h.2⟩
  simp only [s', herderRecvSCPEnvelope]
  split
  case isFalse => exact ⟨.refl _, .refl _⟩
  case isTrue =>
    rcases recvSCPEnvelope_cases messageHash fromOpaque s envelope view.isNodeInQuorum peers with
      ⟨hs', -⟩ | ⟨-, ⟨hs', -⟩ | ⟨hs', -, -⟩ | ⟨-, -, -, hs' | ⟨hs', -⟩⟩⟩
    · rw [hs']
      exact ⟨.refl _, .refl _⟩
    · rw [hs']
      exact ht
    · rw [hs']
      exact ht
    · rw [hs']
      exact hu
    · rw [hs']
      exact hu

section Discarded

omit [DecidableEq Peer]

theorem fetching_discardSCPEnvelope (h : Fetching (s.discardSCPEnvelope fromOpaque envelope) e) :
    Fetching s e ∧ (s.discardSCPEnvelope fromOpaque envelope = s ∨ e ≠ envelope) := by
  unfold discardSCPEnvelope at h ⊢
  split at h
  case isTrue hdiscarded =>
    rw [if_pos hdiscarded]
    exact ⟨h, .inl rfl⟩
  case isFalse =>
    unfold Fetching at h ⊢
    rw [slot_congr mEnvelopes_stopFetch, slot_setSlot] at h
    split at h
    case isTrue hslot =>
      obtain ⟨hne, h⟩ := Finset.mem_erase.mp h
      exact ⟨hslot ▸ h, .inr hne⟩
    case isFalse hslot => exact ⟨h, .inr fun heq => hslot (heq ▸ rfl)⟩

/-- The envelopes that are not discarded go on waiting. -/
theorem waits_discardAll {envelopes : List Envelope}
    (h : Fetching (envelopes.foldl (discardSCPEnvelope fromOpaque) s) e) :
    let s' := envelopes.foldl (discardSCPEnvelope fromOpaque) s
    Fetching s e ∧
      (∀ k, e ∈ s.mTxSetFetcher.fetchingFor k → e ∈ s'.mTxSetFetcher.fetchingFor k) ∧
      (∀ k, e ∈ s.mQuorumSetFetcher.fetchingFor k → e ∈ s'.mQuorumSetFetcher.fetchingFor k) ∧
      s'.mTxSetFetcher.receiving = s.mTxSetFetcher.receiving ∧
      s'.mQuorumSetFetcher.receiving = s.mQuorumSetFetcher.receiving := by
  induction envelopes generalizing s with
  | nil => exact ⟨h, fun _ hk => hk, fun _ hk => hk, rfl, rfl⟩
  | cons envelope envelopes ih =>
    obtain ⟨hfetching, htx, hq, hrtx, hrq⟩ := ih h
    obtain ⟨hs, hcase⟩ := fetching_discardSCPEnvelope hfetching
    refine ⟨hs, ?_⟩
    rcases hcase with hsame | hne
    · rw [hsame] at htx hq hrtx hrq
      rw [List.foldl_cons, hsame]
      exact ⟨htx, hq, hrtx, hrq⟩
    · have hstep : (s.discardSCPEnvelope fromOpaque envelope).mTxSetFetcher.receiving
            = s.mTxSetFetcher.receiving ∧
          (s.discardSCPEnvelope fromOpaque envelope).mQuorumSetFetcher.receiving
            = s.mQuorumSetFetcher.receiving ∧
          (∀ k, e ∈ s.mTxSetFetcher.fetchingFor k →
            e ∈ (s.discardSCPEnvelope fromOpaque envelope).mTxSetFetcher.fetchingFor k) ∧
          ∀ k, e ∈ s.mQuorumSetFetcher.fetchingFor k →
            e ∈ (s.discardSCPEnvelope fromOpaque envelope).mQuorumSetFetcher.fetchingFor k := by
        unfold discardSCPEnvelope
        split
        · exact ⟨rfl, rfl, fun _ hk => hk, fun _ hk => hk⟩
        · rw [mTxSetFetcher_stopFetch, mQuorumSetFetcher_stopFetch]
          refine ⟨receiving_stopFetchAll, ItemFetcher.receiving_stopFetch _ _, fun k hk => ?_, fun k hk => ?_⟩
          · exact mem_stopFetchAll.mpr ⟨hk, fun heq => hne heq.2⟩
          · exact ItemFetcher.mem_fetchingFor_stopFetch.mpr ⟨hk, fun heq => hne heq.2⟩
      obtain ⟨hrtx', hrq', htx', hq'⟩ := hstep
      exact ⟨fun k hk => htx k (htx' k hk), fun k hk => hq k (hq' k hk), hrtx.trans hrtx', hrq.trans hrq'⟩

end Discarded

section Arrival

variable (messageHash fromOpaque)

/-- The loop that receives the item hands the envelope on, unless the envelope is no longer fetched; or
the run ends while the item is still received. -/
def HandedOn (fetcher : PendingEnvelopes Peer → ItemFetcher Peer Contents) (turn : Event Peer → Prop)
    (h : Hash) (e : Envelope) : PendingEnvelopes Peer → List (Event Peer) → Prop
  | s, [] => h ∈ (fetcher s).receiving
  | s, ev :: es => turn ev ∧ (fetcher s).popped = some e ∨ ¬ Fetching (step messageHash fromOpaque s ev) e ∨
      HandedOn fetcher turn h e (step messageHash fromOpaque s ev) es

variable {messageHash fromOpaque}

def IsTxSetTurn : Event Peer → Prop
  | .txSetNext .. => True
  | _ => False

def IsQuorumSetTurn : Event Peer → Prop
  | .quorumSetNext .. => True
  | _ => False

def TxSetArrives : Event Peer → Hash → Prop
  | .recvTxSet hash _, h => hash = h
  | .addTxSet hash _ _, h => hash = h
  | _, _ => False

def QuorumSetArrives : Event Peer → Hash → Prop
  | .recvSCPQuorumSet hash q, h => hash = h ∧ Scp.isQuorumSetSane q false = true
  | .addSCPQuorumSet hash _, h => hash = h
  | _, _ => False

variable {h : Hash} {fetcher : PendingEnvelopes Peer → ItemFetcher Peer Contents} {turn : Event Peer → Prop}

/-- The item is being received, and the envelope waits for it. -/
def Receiving (f : ItemFetcher Peer Contents) (h : Hash) (e : Envelope) : Prop :=
  h ∈ f.receiving ∧ e ∈ f.fetchingFor h

omit [DecidableEq Peer] in
theorem GoesOn.receiving_of {f f' : ItemFetcher Peer Contents} (hgoes : GoesOn f f') (hf : Receiving f h e) :
    Receiving f' h e :=
  ⟨hgoes.receiving hf.1, hgoes.waits h hf.2⟩

omit [DecidableEq Peer] in
/-- A turn of the loop pops the envelope, or the envelope waits on. -/
theorem receiving_recvNext {f : ItemFetcher Peer Contents} (hf : Receiving f h e) :
    f.popped = some e ∨ Receiving f.recvNext h e := by
  have hin : h ∈ f.recvNext.receiving := by
    by_contra hout
    have hwaits := hf.2
    rw [(ItemFetcher.left_recvNext hf.1 hout).2.2.1] at hwaits
    cases hwaits
  rcases ItemFetcher.mem_fetchingFor_recvNext hf.2 with hwaits | ⟨hpopped, -⟩
  · exact .inr ⟨hin, hwaits⟩
  · exact .inl hpopped

omit [DecidableEq Peer] in
/-- A clean-up waits until nothing is received. -/
theorem runPosted_of_receiving {f : ItemFetcher Peer Contents} (hf : Receiving f h e) : f.runPosted = f := by
  unfold ItemFetcher.runPosted
  split
  case h_1 hnil _ =>
    have hreceiving := hf.1
    rw [hnil] at hreceiving
    cases hreceiving
  case h_2 => rfl

/-- An envelope that waits for an item that is received is handed on, when each step that does not hand it
on lets it wait, or ends its fetching. -/
theorem handedOn_of_step
    (hstep : ∀ s ev, Receiving (fetcher s) h e →
      turn ev ∧ (fetcher s).popped = some e ∨ ¬ Fetching (step messageHash fromOpaque s ev) e ∨
        Receiving (fetcher (step messageHash fromOpaque s ev)) h e)
    (hs : Receiving (fetcher s) h e) (es : List (Event Peer)) :
    HandedOn messageHash fromOpaque fetcher turn h e s es := by
  induction es generalizing s with
  | nil => exact hs.1
  | cons ev es ih =>
    rcases hstep s ev hs with hturn | hout | hs
    · exact .inl hturn
    · exact .inr (.inl hout)
    · exact .inr (.inr (ih hs))

theorem txSet_step (s : PendingEnvelopes Peer) (ev : Event Peer) (hs : Receiving s.mTxSetFetcher h e) :
    IsTxSetTurn ev ∧ s.mTxSetFetcher.popped = some e ∨ ¬ Fetching (step messageHash fromOpaque s ev) e ∨
      Receiving (step messageHash fromOpaque s ev).mTxSetFetcher h e := by
  cases ev with
  | recvSCPEnvelope envelope view peers =>
    exact .inr (.inr ((goesOn_herderRecvSCPEnvelope s envelope view peers).1.receiving_of hs))
  | recvTxSet hash txset =>
    right
    right
    simp only [step, recvTxSet]
    split
    · exact hs
    · exact (goesOn_recv _ hash).receiving_of hs
  | recvSCPQuorumSet hash q =>
    right
    simp only [step, recvSCPQuorumSet]
    split
    · exact .inr hs
    · split
      · exact .inr hs
      · refine or_iff_not_imp_left.mpr fun hfetching => ?_
        obtain ⟨-, htx, -, hr, -⟩ := waits_discardAll (not_not.mp hfetching)
        exact ⟨hr.symm ▸ hs.1, htx h hs.2⟩
  | addTxSet hash lastSeenSlotIndex txset => exact .inr (.inr ((goesOn_recv _ hash).receiving_of hs))
  | peerDoesntHave type itemID peer peers =>
    right
    right
    cases type with
    | TX_SET => exact GoesOn.receiving_of (.of_same (ItemFetcher.sameWaiting_doesntHave _ _)) hs
    | _ => exact hs
  | pop slotIndex =>
    right
    right
    simp only [step, pop]
    split <;> exact hs
  | slotClosed slotIndex =>
    right
    right
    simp only [step, slotClosed]
    split <;> exact hs
  | txSetNext view peers =>
    rcases receiving_recvNext hs with hpopped | hs
    · exact .inl ⟨trivial, hpopped⟩
    · right
      right
      simp only [step, txSetNext]
      split
      · exact hs
      · exact (goesOn_herderRecvSCPEnvelope _ _ view peers).1.receiving_of hs
  | quorumSetNext view peers =>
    right
    right
    simp only [step, quorumSetNext]
    split
    · exact hs
    · exact (goesOn_herderRecvSCPEnvelope { s with mQuorumSetFetcher := s.mQuorumSetFetcher.recvNext } _ view
        peers).1.receiving_of hs
  | txSetPosted =>
    right
    right
    simp only [step, runPosted_of_receiving hs]
    exact hs
  | txSetTimer itemHash peers =>
    exact .inr (.inr (GoesOn.receiving_of (.of_same (ItemFetcher.sameWaiting_timerExpired _)) hs))
  | _ => exact .inr (.inr hs)

theorem quorumSet_step (s : PendingEnvelopes Peer) (ev : Event Peer) (hs : Receiving s.mQuorumSetFetcher h e) :
    IsQuorumSetTurn ev ∧ s.mQuorumSetFetcher.popped = some e ∨
      ¬ Fetching (step messageHash fromOpaque s ev) e ∨
      Receiving (step messageHash fromOpaque s ev).mQuorumSetFetcher h e := by
  cases ev with
  | recvSCPEnvelope envelope view peers =>
    exact .inr (.inr ((goesOn_herderRecvSCPEnvelope s envelope view peers).2.receiving_of hs))
  | recvTxSet hash txset =>
    right
    right
    simp only [step, recvTxSet]
    split <;> exact hs
  | recvSCPQuorumSet hash q =>
    right
    simp only [step, recvSCPQuorumSet]
    split
    · exact .inr hs
    · split
      · exact .inr ((goesOn_recv _ hash).receiving_of hs)
      · refine or_iff_not_imp_left.mpr fun hfetching => ?_
        obtain ⟨-, -, hq, -, hr⟩ := waits_discardAll (not_not.mp hfetching)
        exact ⟨hr.symm ▸ hs.1, hq h hs.2⟩
  | addSCPQuorumSet hash q => exact .inr (.inr ((goesOn_recv _ hash).receiving_of hs))
  | peerDoesntHave type itemID peer peers =>
    right
    right
    cases type with
    | SCP_QUORUMSET => exact GoesOn.receiving_of (.of_same (ItemFetcher.sameWaiting_doesntHave _ _)) hs
    | _ => exact hs
  | pop slotIndex =>
    right
    right
    simp only [step, pop]
    split <;> exact hs
  | slotClosed slotIndex =>
    right
    right
    simp only [step, slotClosed]
    split <;> exact hs
  | txSetNext view peers =>
    right
    right
    simp only [step, txSetNext]
    split
    · exact hs
    · exact (goesOn_herderRecvSCPEnvelope { s with mTxSetFetcher := s.mTxSetFetcher.recvNext } _ view
        peers).2.receiving_of hs
  | quorumSetNext view peers =>
    rcases receiving_recvNext hs with hpopped | hs
    · exact .inl ⟨trivial, hpopped⟩
    · right
      right
      simp only [step, quorumSetNext]
      split
      · exact hs
      · exact (goesOn_herderRecvSCPEnvelope _ _ view peers).2.receiving_of hs
  | quorumSetPosted =>
    right
    right
    simp only [step, runPosted_of_receiving hs]
    exact hs
  | quorumSetTimer itemHash peers =>
    exact .inr (.inr (GoesOn.receiving_of (.of_same (ItemFetcher.sameWaiting_timerExpired _)) hs))
  | _ => exact .inr (.inr hs)

/-- An item that arrives is received, for the envelopes that wait for it. -/
theorem receiving_txSetArrives {ev : Event Peer} (harrives : TxSetArrives ev h) (hw : Awaits s.mTxSetFetcher h e) :
    Receiving (step messageHash fromOpaque s ev).mTxSetFetcher h e := by
  have hrecv : Receiving (s.mTxSetFetcher.recv h) h e :=
    ⟨ItemFetcher.mem_receiving_recv_self hw.1, (ItemFetcher.fetchingFor_recv h h).symm ▸ hw.1⟩
  cases ev with
  | recvTxSet hash txset =>
    obtain rfl := harrives
    simp only [step, recvTxSet, if_neg hw.2.ne']
    exact hrecv
  | addTxSet hash lastSeenSlotIndex txset =>
    obtain rfl := harrives
    exact hrecv
  | _ => exact harrives.elim

theorem receiving_quorumSetArrives {ev : Event Peer} (harrives : QuorumSetArrives ev h)
    (hw : Awaits s.mQuorumSetFetcher h e) :
    Receiving (step messageHash fromOpaque s ev).mQuorumSetFetcher h e := by
  have hrecv : Receiving (s.mQuorumSetFetcher.recv h) h e :=
    ⟨ItemFetcher.mem_receiving_recv_self hw.1, (ItemFetcher.fetchingFor_recv h h).symm ▸ hw.1⟩
  cases ev with
  | recvSCPQuorumSet hash q =>
    obtain ⟨rfl, hsane⟩ := harrives
    simp only [step, recvSCPQuorumSet, if_neg (not_le.mpr hw.2), hsane, if_true]
    exact hrecv
  | addSCPQuorumSet hash q =>
    obtain rfl := harrives
    exact hrecv
  | _ => exact harrives.elim

end Arrival

/-! ## Whole runs -/

section Whole

variable (messageHash fromOpaque)

/-- What a run does to envelopes, as long as their slots are not forgotten. -/
structure StagedRun (es : List (Event Peer)) : Prop where
  popsOnce : ∀ before slotIndex between slotIndex' after e,
    es = before ++ .pop slotIndex :: between ++ .pop slotIndex' :: after →
    ((run Peer messageHash fromOpaque before).pop slotIndex).2 = some e →
    ((run Peer messageHash fromOpaque (before ++ .pop slotIndex :: between)).pop slotIndex').2 = some e →
    ∃ ev ∈ between, Forgets ev e.slotIndex
  popsFetched : ∀ before slotIndex after e, es = before ++ .pop slotIndex :: after →
    ((run Peer messageHash fromOpaque before).pop slotIndex).2 = some e →
    ∃ earlier ev later, before = earlier ++ ev :: later ∧
      e ∉ ((run Peer messageHash fromOpaque earlier).slot e.slotIndex).mReadyEnvelopes ∧
      e ∈ ((run Peer messageHash fromOpaque (earlier ++ [ev])).slot e.slotIndex).mReadyEnvelopes ∧
      (run Peer messageHash fromOpaque (earlier ++ [ev])).isFullyFetched fromOpaque e = true ∧
      ∀ ev' ∈ later, ¬ Forgets ev' e.slotIndex
  placed : Throughout (step messageHash fromOpaque) (fun s => ∀ e, Placed fromOpaque s e) new es
  txSetHandsOn : ∀ before ev after e hashes h, es = before ++ ev :: after →
    Fetching (run Peer messageHash fromOpaque before) e → getTxSetHashes fromOpaque e = some hashes →
    h ∈ hashes → (run Peer messageHash fromOpaque before).mTxSetCache.exists? h = false →
    TxSetArrives ev h → HandedOn messageHash fromOpaque mTxSetFetcher IsTxSetTurn h e
      (run Peer messageHash fromOpaque (before ++ [ev])) after
  quorumSetHandsOn : ∀ before ev after e, es = before ++ ev :: after →
    Fetching (run Peer messageHash fromOpaque before) e →
    (run Peer messageHash fromOpaque before).mQsetCache.exists? (getCompanionQuorumSetHash e) = false →
    QuorumSetArrives ev (getCompanionQuorumSetHash e) →
    HandedOn messageHash fromOpaque mQuorumSetFetcher IsQuorumSetTurn (getCompanionQuorumSetHash e) e
      (run Peer messageHash fromOpaque (before ++ [ev])) after

/-- **Staging.** In a run whose steps keep the marks of cached transaction sets high enough, an envelope is
popped once, when its items were cached; it is in one place at most; and an item that it needs hands it on
when it arrives. -/
theorem staged_run (es : List (Event Peer))
    (h : EachStep (step messageHash fromOpaque) (fun s ev => Assumed s ev ∧ Keeps fromOpaque s ev) new es) :
    StagedRun messageHash fromOpaque es := by
  have hstaged : Throughout (step messageHash fromOpaque) (Staged fromOpaque) new es :=
    throughout_of_eachStep (fun _ _ hs hev => hs.step hev.1 hev.2) staged_new h
  have hplaced := hstaged.mono fun _ hs e => hs.placed e
  constructor
  · intro before slotIndex between slotIndex' after e _ hfirst hsecond
    exact pop_once hfirst hsecond
  · intro before slotIndex after e _ hpop
    exact ready_run (pop_eq_some (sound_run before) hpop).1
  · exact hplaced
  · intro before ev after e hashes k hes hfetching hhashes hk hcached harrives
    subst hes
    have hbefore : Placed fromOpaque (run Peer messageHash fromOpaque before) e := hplaced.of_append e
    have hw : Awaits (run Peer messageHash fromOpaque before).mTxSetFetcher k e := by
      rcases hbefore.txSets hfetching hashes hhashes k hk with hc | hw
      · rw [hcached] at hc
        cases hc
      · exact hw
    refine handedOn_of_step txSet_step ?_ after
    rw [run_append]
    exact receiving_txSetArrives harrives hw
  · intro before ev after e hes hfetching hcached harrives
    subst hes
    have hbefore : Placed fromOpaque (run Peer messageHash fromOpaque before) e := hplaced.of_append e
    have hw : Awaits (run Peer messageHash fromOpaque before).mQuorumSetFetcher
        (getCompanionQuorumSetHash e) e := by
      rcases hbefore.qset hfetching with hc | hw
      · rw [hcached] at hc
        cases hc
      · exact hw
    refine handedOn_of_step quorumSet_step ?_ after
    rw [run_append]
    exact receiving_quorumSetArrives harrives hw

end Whole

/-! ## A run that stages, and one that does not -/

section Runs

/-- A nomination for slot 10 of node 1, with quorum set 3 and a value of transaction set 7. -/
def nomination : Envelope := ⟨10, ⟨1, .inl ⟨3, [[]], []⟩, []⟩⟩

def anyView : View := ⟨false, 0, 1, none, fun _ => true, Nat.one_pos⟩

def nobody : Peers ℕ := ⟨fun _ => [], [], fun _ => true⟩

def decodeSeven : Value → Option StellarValue := fun _ => some ⟨7, 0, []⟩

/-- The two items of the envelope arrive one after the other, and it is popped. -/
def arrivals : List (Event ℕ) :=
  [.recvSCPEnvelope nomination anyView nobody, .recvTxSet 7 ⟨0, []⟩, .txSetNext anyView nobody,
    .txSetNext anyView nobody, .recvSCPQuorumSet 3 (.mk 1 [1] []), .quorumSetNext anyView nobody,
    .quorumSetNext anyView nobody, .pop 10, .slotClosed 22, .txSetPosted, .quorumSetPosted]

theorem staged_run_arrivals :
    ((run ℕ (fun _ => 0) decodeSeven (arrivals.take 7)).pop 10).2 = some nomination ∧
      StagedRun (fun _ => 0) decodeSeven arrivals :=
  ⟨by decide +kernel, staged_run (fun _ => 0) decodeSeven arrivals (by decide +kernel)⟩

/-- Transaction set 7 is known, and touched for the envelope, which waits for its quorum set; it is put
again for slot 5, and expires. -/
def expiry : List (Event ℕ) :=
  [.addTxSet 7 10 ⟨0, []⟩, .recvSCPEnvelope nomination anyView nobody, .addTxSet 7 5 ⟨0, []⟩, .eraseBelow 6]

/-- The envelope is being fetched, while its transaction set is neither cached nor waited for. -/
theorem not_staged_expiry : ¬ ∀ es : List (Event ℕ),
    EachStep (step (fun _ => 0) decodeSeven) Assumed new es → StagedRun (fun _ => 0) decodeSeven es := by
  intro h
  have hplaced : Placed decodeSeven (run ℕ (fun _ => 0) decodeSeven expiry) nomination :=
    (h (expiry ++ []) (by decide +kernel)).placed.of_append nomination
  have hfetching : nomination ∈ ((run ℕ (fun _ => 0) decodeSeven expiry).slot 10).mFetchingEnvelopes := by
    decide +kernel
  rcases hplaced.txSets hfetching [7] (by decide +kernel) 7 (by decide) with hcached | hwaits
  · exact absurd hcached (by decide +kernel)
  · exact absurd hwaits.1 (by decide +kernel)

end Runs

end PendingEnvelopes

end ZaggCore.Herder.Staging
