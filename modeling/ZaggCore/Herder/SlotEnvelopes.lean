import ZaggCore.Herder.PendingEnvelopes

/-! # The life of an envelope in its slot

What may happen to the envelopes of one slot, and that nothing else does: an envelope is fetched, ready
and popped once each, and one that is discarded is not fetched again. -/

namespace ZaggCore.Herder.Staging
set_option autoImplicit false
set_option maxHeartbeats 250000

open Foundations Overlay Util Relation

namespace SlotEnvelopes

/-- What happens to the envelopes of slot `i`, where the envelopes with `C` may get ready and those with
`D` may be discarded. -/
inductive Move (C D : Envelope → Prop) (i : ℕ) (v : SlotEnvelopes) : SlotEnvelopes → Prop
  | fetch (e : Envelope) (hslot : e.slotIndex = i) (hprocessed : e ∉ v.mProcessedEnvelopes)
      (hdiscarded : e ∉ v.mDiscardedEnvelopes) :
      Move C D i v { v with mFetchingEnvelopes := insert e v.mFetchingEnvelopes }
  | ready (e : Envelope) (hslot : e.slotIndex = i) (hfetching : e ∈ v.mFetchingEnvelopes) (hC : C e) :
      Move C D i v { v with
        mProcessedEnvelopes := v.mProcessedEnvelopes ++ [e]
        mFetchingEnvelopes := v.mFetchingEnvelopes.erase e
        mReadyEnvelopes := v.mReadyEnvelopes ++ [e] }
  | discard (e : Envelope) (hslot : e.slotIndex = i) (hD : D e) :
      Move C D i v { v with
        mDiscardedEnvelopes := insert e v.mDiscardedEnvelopes
        mFetchingEnvelopes := v.mFetchingEnvelopes.erase e }
  | pop : Move C D i v { v with mReadyEnvelopes := v.mReadyEnvelopes.dropLast }

abbrev Moves (C D : Envelope → Prop) (i : ℕ) : SlotEnvelopes → SlotEnvelopes → Prop :=
  ReflTransGen (Move C D i)

/-- What holds of the envelopes of slot `i`. -/
structure Sound (v : SlotEnvelopes) (i : ℕ) : Prop where
  slotIndex : ∀ e ∈ v.mReadyEnvelopes, e.slotIndex = i
  ready : ∀ e ∈ v.mReadyEnvelopes, e ∈ v.mProcessedEnvelopes
  nodup : v.mReadyEnvelopes.Nodup
  fetching : ∀ e ∈ v.mFetchingEnvelopes, e ∉ v.mProcessedEnvelopes ∧ e ∉ v.mDiscardedEnvelopes

/-- The envelope was processed and popped. -/
def Spent (v : SlotEnvelopes) (e : Envelope) : Prop :=
  e ∈ v.mProcessedEnvelopes ∧ e ∉ v.mReadyEnvelopes

theorem sound_empty (i : ℕ) : empty.Sound i := by
  constructor <;> simp [empty]

variable {C D : Envelope → Prop} {i : ℕ} {v v' : SlotEnvelopes} {e : Envelope}

theorem Sound.move (h : v.Sound i) (hmove : Move C D i v v') : v'.Sound i := by
  cases hmove with
  | fetch e' _ hprocessed hdiscarded =>
    refine ⟨h.slotIndex, h.ready, h.nodup, fun e he => ?_⟩
    rcases Finset.mem_insert.mp he with rfl | he
    · exact ⟨hprocessed, hdiscarded⟩
    · exact h.fetching e he
  | ready e' hslot hfetching _ =>
    obtain ⟨hprocessed, hdiscarded⟩ := h.fetching e' hfetching
    constructor
    · intro e he
      rcases List.mem_append.mp he with he | he
      · exact h.slotIndex e he
      · exact List.mem_singleton.mp he ▸ hslot
    · intro e he
      rcases List.mem_append.mp he with he | he
      · exact List.mem_append_left _ (h.ready e he)
      · exact List.mem_append_right _ he
    · refine List.nodup_append.mpr ⟨h.nodup, List.nodup_singleton _, ?_⟩
      rintro e he _ he' rfl
      exact hprocessed (List.mem_singleton.mp he' ▸ h.ready e he)
    · intro e he
      obtain ⟨hne, he⟩ := Finset.mem_erase.mp he
      refine ⟨fun hmem => ?_, (h.fetching e he).2⟩
      rcases List.mem_append.mp hmem with hmem | hmem
      · exact (h.fetching e he).1 hmem
      · exact hne (List.mem_singleton.mp hmem)
  | discard e' _ _ =>
    refine ⟨h.slotIndex, h.ready, h.nodup, fun e he => ?_⟩
    obtain ⟨hne, he⟩ := Finset.mem_erase.mp he
    refine ⟨(h.fetching e he).1, fun hmem => ?_⟩
    rcases Finset.mem_insert.mp hmem with hmem | hmem
    · exact hne hmem
    · exact (h.fetching e he).2 hmem
  | pop =>
    exact ⟨fun e he => h.slotIndex e (List.mem_of_mem_dropLast he),
      fun e he => h.ready e (List.mem_of_mem_dropLast he),
      List.Nodup.sublist (List.dropLast_sublist _) h.nodup, h.fetching⟩

/-- An envelope that was popped is not fetched again, so it does not get ready again. -/
theorem Spent.move (h : v.Spent e) (hv : v.Sound i) (hmove : Move C D i v v') : v'.Spent e := by
  cases hmove with
  | fetch => exact h
  | ready e' _ hfetching _ =>
    have hne : e ≠ e' := fun heq => (hv.fetching e' hfetching).1 (heq ▸ h.1)
    refine ⟨List.mem_append_left _ h.1, fun hmem => ?_⟩
    rcases List.mem_append.mp hmem with hmem | hmem
    · exact h.2 hmem
    · exact hne (List.mem_singleton.mp hmem)
  | discard => exact h
  | pop => exact ⟨h.1, fun hmem => h.2 (List.mem_of_mem_dropLast hmem)⟩

theorem ready_of_move (hmove : Move C D i v v') (he : e ∈ v'.mReadyEnvelopes) :
    e ∈ v.mReadyEnvelopes ∨ C e := by
  cases hmove with
  | fetch => exact .inl he
  | ready e' _ _ hC =>
    rcases List.mem_append.mp he with he | he
    · exact .inl he
    · exact .inr (List.mem_singleton.mp he ▸ hC)
  | discard => exact .inl he
  | pop => exact .inl (List.mem_of_mem_dropLast he)

theorem Sound.moves (h : v.Sound i) (hmoves : Moves C D i v v') : v'.Sound i := by
  induction hmoves with
  | refl => exact h
  | tail _ hmove ih => exact ih.move hmove

theorem Spent.moves (h : v.Spent e) (hv : v.Sound i) (hmoves : Moves C D i v v') : v'.Spent e := by
  induction hmoves with
  | refl => exact h
  | tail hmoves hmove ih => exact ih.move (hv.moves hmoves) hmove

theorem ready_of_moves (hmoves : Moves C D i v v') (he : e ∈ v'.mReadyEnvelopes) :
    e ∈ v.mReadyEnvelopes ∨ C e := by
  induction hmoves with
  | refl => exact .inl he
  | tail _ hmove ih =>
    rcases ready_of_move hmove he with he | hC
    · exact ih he
    · exact .inr hC

/-- Every envelope that was processed has `K` and was not discarded. -/
def Filed (K : Envelope → Prop) (v : SlotEnvelopes) : Prop :=
  ∀ e ∈ v.mProcessedEnvelopes, K e ∧ e ∉ v.mDiscardedEnvelopes

theorem Filed.moves {K : Envelope → Prop} (h : v.Filed K) (hv : v.Sound i) (hC : ∀ e, C e → K e)
    (hD : ∀ e, D e → ¬ K e) (hmoves : Moves C D i v v') : v'.Filed K := by
  induction hmoves with
  | refl => exact h
  | @tail w w' hmoves hmove ih =>
    cases hmove with
    | fetch => exact ih
    | ready e' _ hfetching hCe =>
      intro e he
      rcases List.mem_append.mp he with he | he
      · exact ih e he
      · obtain rfl := List.mem_singleton.mp he
        exact ⟨hC e hCe, ((hv.moves hmoves).fetching e hfetching).2⟩
    | discard e' _ hDe =>
      intro e he
      obtain ⟨hK, hdiscarded⟩ := ih e he
      refine ⟨hK, fun hmem => ?_⟩
      rcases Finset.mem_insert.mp hmem with rfl | hmem
      · exact hD e hDe hK
      · exact hdiscarded hmem
    | pop => exact ih

/-- The last envelope that is ready is popped, and it was the only one of its kind. -/
theorem Sound.spent_pop (h : v.Sound i) (he : v.mReadyEnvelopes.getLast? = some e) :
    Spent { v with mReadyEnvelopes := v.mReadyEnvelopes.dropLast } e := by
  have hsplit : v.mReadyEnvelopes.dropLast ++ [e] = v.mReadyEnvelopes := List.dropLast_append_getLast? e he
  refine ⟨h.ready e (List.mem_of_getLast? he), fun hmem => ?_⟩
  have hnodup := hsplit ▸ h.nodup
  exact (List.nodup_append.mp hnodup).2.2 e hmem e (List.mem_singleton_self e) rfl

end SlotEnvelopes

namespace PendingEnvelopes

variable {Peer : Type} [DecidableEq Peer] {messageHash : Envelope → Hash}
  {fromOpaque : Value → Option StellarValue} {s : PendingEnvelopes Peer} {envelope e : Envelope}
  {peers : Peers Peer}

/-- The slot is erased from `mEnvelopes`. -/
def Forgets : Event Peer → ℕ → Prop
  | .eraseBelow slotIndex, i => i < slotIndex
  | .slotClosed slotIndex, i => MAX_SLOTS_TO_REMEMBER < slotIndex ∧ i = slotIndex - MAX_SLOTS_TO_REMEMBER
  | _, _ => False

/-- The envelope waits for a quorum set that arrives and is not sane. -/
def Rejects (s : PendingEnvelopes Peer) : Event Peer → Envelope → Prop
  | .recvSCPQuorumSet hash q, e =>
    Scp.isQuorumSetSane q false = false ∧ e ∈ s.mQuorumSetFetcher.fetchingFor hash
  | _, _ => False

/-! ## Slots -/

omit [DecidableEq Peer] in
theorem slot_congr {s' : PendingEnvelopes Peer} (h : s'.mEnvelopes = s.mEnvelopes) (i : ℕ) :
    s'.slot i = s.slot i := by
  unfold slot
  rw [h]

omit [DecidableEq Peer] in
theorem slot_setSlot (i : ℕ) (v : SlotEnvelopes) (j : ℕ) :
    (s.setSlot i v).slot j = if i = j then v else s.slot j := by
  unfold slot setSlot
  rw [SortedMap.get?_insert]
  split <;> rfl

omit [DecidableEq Peer] in
@[simp] theorem mEnvelopes_touchFetchCache :
    (s.touchFetchCache fromOpaque envelope).mEnvelopes = s.mEnvelopes := by
  unfold touchFetchCache
  dsimp only
  split <;> split <;> rfl

@[simp] theorem mEnvelopes_startFetch :
    (s.startFetch messageHash fromOpaque envelope peers).mEnvelopes = s.mEnvelopes := by
  unfold startFetch
  dsimp only
  split <;> split <;> rfl

omit [DecidableEq Peer] in
@[simp] theorem mEnvelopes_stopFetch : (s.stopFetch fromOpaque envelope).mEnvelopes = s.mEnvelopes := by
  unfold stopFetch
  dsimp only
  split <;> rfl

omit [DecidableEq Peer] in
@[simp] theorem isFullyFetched_envelopeReady :
    (s.envelopeReady envelope).isFullyFetched fromOpaque e = s.isFullyFetched fromOpaque e := rfl

/-- An envelope that is received: it changes nothing but the caches, or it was fetched and gets ready, or
it is new. -/
theorem recvSCPEnvelope_cases (messageHash : Envelope → Hash) (fromOpaque : Value → Option StellarValue)
    (s : PendingEnvelopes Peer) (envelope : Envelope) (isNodeInQuorum : NodeID → Bool) (peers : Peers Peer) :
    let s' := (s.recvSCPEnvelope messageHash fromOpaque envelope isNodeInQuorum peers).1
    let t := s.touchFetchCache fromOpaque envelope
    let u := (t.insertFetching envelope).startFetch messageHash fromOpaque envelope peers
    let v := s.slot envelope.slotIndex
    s' = s ∧ (isNodeInQuorum envelope.content.nodeID = false ∨ s.isDiscarded envelope = true) ∨
    s.isDiscarded envelope = false ∧
      (s' = t ∧ (getTxSetHashes fromOpaque envelope = none ∨ envelope ∈ v.mFetchingEnvelopes ∨
          envelope ∈ v.mProcessedEnvelopes) ∨
        s' = t.envelopeReady envelope ∧ envelope ∈ v.mFetchingEnvelopes ∧
          t.isFullyFetched fromOpaque envelope = true ∨
        (getTxSetHashes fromOpaque envelope).isSome ∧ envelope ∉ v.mFetchingEnvelopes ∧
          envelope ∉ v.mProcessedEnvelopes ∧
          (s' = u ∨ s' = u.envelopeReady envelope ∧ u.isFullyFetched fromOpaque envelope = true)) := by
  intro s' t u v
  have hslot : t.slot envelope.slotIndex = v := slot_congr mEnvelopes_touchFetchCache _
  by_cases hquorum : isNodeInQuorum envelope.content.nodeID = true
  case neg =>
    left
    exact ⟨by simp [s', recvSCPEnvelope, hquorum], .inl (Bool.eq_false_iff.mpr hquorum)⟩
  cases hdiscarded : s.isDiscarded envelope with
  | true =>
    left
    exact ⟨by simp [s', recvSCPEnvelope, hquorum, hdiscarded], .inr rfl⟩
  | false =>
    refine .inr ⟨rfl, ?_⟩
    cases hhashes : getTxSetHashes fromOpaque envelope with
    | none =>
      refine .inl ⟨?_, .inl rfl⟩
      simp [s', t, recvSCPEnvelope, hquorum, hdiscarded, hhashes]
    | some txSetHashes =>
      have hs' : s' = (if envelope ∈ v.mFetchingEnvelopes then t.checkFetched fromOpaque envelope
          else if envelope ∈ v.mProcessedEnvelopes then (t, .ENVELOPE_STATUS_PROCESSED)
          else u.checkFetched fromOpaque envelope).1 := by
        rw [← hslot]
        simp [s', t, u, recvSCPEnvelope, hquorum, hdiscarded, hhashes]
      by_cases hfetching : envelope ∈ v.mFetchingEnvelopes
      · rw [if_pos hfetching, checkFetched] at hs'
        by_cases hfull : t.isFullyFetched fromOpaque envelope = true
        · rw [if_pos hfull] at hs'
          exact .inr (.inl ⟨hs', hfetching, hfull⟩)
        · rw [if_neg hfull] at hs'
          exact .inl ⟨hs', .inr (.inl hfetching)⟩
      · rw [if_neg hfetching] at hs'
        by_cases hprocessed : envelope ∈ v.mProcessedEnvelopes
        · rw [if_pos hprocessed] at hs'
          exact .inl ⟨hs', .inr (.inr hprocessed)⟩
        · rw [if_neg hprocessed, checkFetched] at hs'
          refine .inr (.inr ⟨rfl, hfetching, hprocessed, ?_⟩)
          by_cases hfull : u.isFullyFetched fromOpaque envelope = true
          · rw [if_pos hfull] at hs'
            exact .inr ⟨hs', hfull⟩
          · rw [if_neg hfull] at hs'
            exact .inl hs'

/-! ## Each call moves the envelopes of a slot -/

section Moves

variable {C D : Envelope → Prop} {i : ℕ}

omit [DecidableEq Peer] in
theorem moves_insertFetching (hprocessed : envelope ∉ (s.slot envelope.slotIndex).mProcessedEnvelopes)
    (hdiscarded : envelope ∉ (s.slot envelope.slotIndex).mDiscardedEnvelopes) :
    SlotEnvelopes.Moves C D i (s.slot i) ((s.insertFetching envelope).slot i) := by
  unfold insertFetching
  rw [slot_setSlot]
  by_cases hi : envelope.slotIndex = i
  · subst hi
    rw [if_pos rfl]
    exact .single (.fetch envelope rfl hprocessed hdiscarded)
  · rw [if_neg hi]

omit [DecidableEq Peer] in
theorem moves_envelopeReady (hfetching : envelope ∈ (s.slot envelope.slotIndex).mFetchingEnvelopes)
    (hC : C envelope) : SlotEnvelopes.Moves C D i (s.slot i) ((s.envelopeReady envelope).slot i) := by
  unfold envelopeReady
  rw [slot_setSlot]
  by_cases hi : envelope.slotIndex = i
  · subst hi
    rw [if_pos rfl]
    exact .single (.ready envelope rfl hfetching hC)
  · rw [if_neg hi]

omit [DecidableEq Peer] in
theorem slot_insertFetching_self :
    envelope ∈ ((s.insertFetching envelope).slot envelope.slotIndex).mFetchingEnvelopes := by
  unfold insertFetching
  rw [slot_setSlot, if_pos rfl]
  exact Finset.mem_insert_self _ _

theorem moves_recvSCPEnvelope (isNodeInQuorum : NodeID → Bool)
    (hC : ∀ e, (s.recvSCPEnvelope messageHash fromOpaque envelope isNodeInQuorum peers).1.isFullyFetched
      fromOpaque e = true → C e) :
    SlotEnvelopes.Moves C D i (s.slot i)
      ((s.recvSCPEnvelope messageHash fromOpaque envelope isNodeInQuorum peers).1.slot i) := by
  have ht : ∀ j, (s.touchFetchCache fromOpaque envelope).slot j = s.slot j :=
    slot_congr mEnvelopes_touchFetchCache
  rcases recvSCPEnvelope_cases messageHash fromOpaque s envelope isNodeInQuorum peers with
    ⟨hs', -⟩ | ⟨hdiscarded, ⟨hs', -⟩ | ⟨hs', hfetching, hfull⟩ | ⟨-, -, hprocessed, hnew⟩⟩
  · rw [hs']
  · rw [hs', ht]
  · rw [hs', ← ht i]
    refine moves_envelopeReady ((ht _).symm ▸ hfetching) (hC envelope ?_)
    rwa [hs', isFullyFetched_envelopeReady]
  · have hinsert : SlotEnvelopes.Moves C D i (s.slot i)
        (((s.touchFetchCache fromOpaque envelope).insertFetching envelope).slot i) := by
      rw [← ht i]
      refine moves_insertFetching ((ht _).symm ▸ hprocessed) ?_
      rw [ht]
      exact of_decide_eq_false hdiscarded
    have hstart : ∀ j, ((((s.touchFetchCache fromOpaque envelope).insertFetching envelope).startFetch
        messageHash fromOpaque envelope peers).slot j)
        = ((s.touchFetchCache fromOpaque envelope).insertFetching envelope).slot j :=
      slot_congr mEnvelopes_startFetch
    rcases hnew with hs' | ⟨hs', hfull⟩
    · rwa [hs', hstart]
    · rw [hs']
      refine hinsert.trans ?_
      rw [← hstart i]
      refine moves_envelopeReady ?_ (hC envelope ?_)
      · rw [hstart]
        exact slot_insertFetching_self
      · rwa [hs', isFullyFetched_envelopeReady]

theorem moves_herderRecvSCPEnvelope (view : View)
    (hC : ∀ e, (s.herderRecvSCPEnvelope messageHash fromOpaque envelope view peers).1.isFullyFetched
      fromOpaque e = true → C e) :
    SlotEnvelopes.Moves C D i (s.slot i)
      ((s.herderRecvSCPEnvelope messageHash fromOpaque envelope view peers).1.slot i) := by
  unfold herderRecvSCPEnvelope at hC ⊢
  split at hC
  case isTrue h =>
    rw [if_pos h]
    exact moves_recvSCPEnvelope _ hC
  case isFalse h => rw [if_neg h]

omit [DecidableEq Peer] in
theorem moves_discardSCPEnvelope (hD : D envelope) :
    SlotEnvelopes.Moves C D i (s.slot i) ((s.discardSCPEnvelope fromOpaque envelope).slot i) := by
  unfold discardSCPEnvelope
  split
  · exact .refl
  · rw [slot_congr mEnvelopes_stopFetch, slot_setSlot]
    by_cases hi : envelope.slotIndex = i
    · subst hi
      rw [if_pos rfl]
      exact .single (.discard envelope rfl hD)
    · rw [if_neg hi]

omit [DecidableEq Peer] in
theorem moves_discardAll {envelopes : List Envelope} (hD : ∀ e ∈ envelopes, D e) :
    SlotEnvelopes.Moves C D i (s.slot i) ((envelopes.foldl (discardSCPEnvelope fromOpaque) s).slot i) := by
  induction envelopes generalizing s with
  | nil => exact .refl
  | cons e envelopes ih =>
    obtain ⟨he, hrest⟩ := List.forall_mem_cons.mp hD
    exact (moves_discardSCPEnvelope he).trans (ih hrest)

omit [DecidableEq Peer] in
/-- The envelopes that `pop` takes from are those of their slot. -/
theorem slot_of_firstReady {slotIndex i : ℕ} {v : SlotEnvelopes} (h : s.firstReady slotIndex = some (i, v)) :
    s.slot i = v := by
  have hmem : (i, v) ∈ s.mEnvelopes.items :=
    (List.takeWhile_sublist _).subset (List.mem_of_find?_eq_some h)
  unfold slot
  rw [SortedMap.get?_eq_some_iff.mpr hmem]
  rfl

omit [DecidableEq Peer] in
theorem moves_pop (slotIndex : ℕ) : SlotEnvelopes.Moves C D i (s.slot i) ((s.pop slotIndex).1.slot i) := by
  unfold pop
  split
  case h_1 => exact .refl
  case h_2 j v hfirst =>
    dsimp only
    rw [slot_setSlot]
    by_cases hi : j = i
    · subst hi
      rw [if_pos rfl, ← slot_of_firstReady hfirst]
      exact .single .pop
    · rw [if_neg hi]

end Moves

theorem slot_of_forgets {ev : Event Peer} {i : ℕ} (h : Forgets ev i) :
    (step messageHash fromOpaque s ev).slot i = .empty := by
  cases ev with
  | eraseBelow slotIndex =>
    have hi : i < slotIndex := h
    simp [step, eraseBelow, slot, SortedMap.get?_eraseBelow, hi]
  | slotClosed slotIndex =>
    obtain ⟨hslot, rfl⟩ := h
    have hclosed : slotIndex > MAX_SLOTS_TO_REMEMBER := hslot
    simp [step, slotClosed, slot, hclosed, SortedMap.get?_erase]
  | _ => cases h

/-- **Slots.** A step forgets a slot or moves its envelopes; those that get ready have all their items
cached, and those that are discarded wait for a quorum set that is not sane. -/
theorem slot_step (messageHash : Envelope → Hash) (fromOpaque : Value → Option StellarValue)
    (s : PendingEnvelopes Peer) (ev : Event Peer) (i : ℕ) :
    Forgets ev i ∧ (step messageHash fromOpaque s ev).slot i = .empty ∨
      SlotEnvelopes.Moves (fun e => (step messageHash fromOpaque s ev).isFullyFetched fromOpaque e = true)
        (Rejects s ev) i (s.slot i) ((step messageHash fromOpaque s ev).slot i) := by
  cases ev with
  | recvSCPEnvelope envelope view peers => exact .inr (moves_herderRecvSCPEnvelope view fun e he => he)
  | recvTxSet hash txset =>
    right
    simp only [step, recvTxSet]
    split <;> exact .refl
  | recvSCPQuorumSet hash q =>
    right
    by_cases hseen : s.mQuorumSetFetcher.getLastSeenSlotIndex hash ≤ 0
    · simp only [step, recvSCPQuorumSet, if_pos hseen]
      exact .refl
    · cases hsane : Scp.isQuorumSetSane q false with
      | true =>
        simp only [step, recvSCPQuorumSet, if_neg hseen, hsane, if_true]
        exact .refl
      | false =>
        have hstep : step messageHash fromOpaque s (.recvSCPQuorumSet hash q)
            = s.discardSCPEnvelopesWithQSet fromOpaque hash := by
          simp only [step, recvSCPQuorumSet, if_neg hseen, hsane, Bool.false_eq_true, if_false]
        rw [hstep]
        exact moves_discardAll fun e he => ⟨hsane, he⟩
  | addTxSet => exact .inr .refl
  | addSCPQuorumSet => exact .inr .refl
  | peerDoesntHave type itemID peer peers =>
    right
    cases type <;> exact .refl
  | pop slotIndex => exact .inr (moves_pop slotIndex)
  | eraseBelow slotIndex =>
    by_cases hi : i < slotIndex
    · exact .inl ⟨hi, slot_of_forgets hi⟩
    · right
      have hslot : (s.eraseBelow slotIndex).slot i = s.slot i := by
        simp [eraseBelow, slot, SortedMap.get?_eraseBelow, hi]
      rw [step, hslot]
  | slotClosed slotIndex =>
    by_cases hslot : slotIndex > MAX_SLOTS_TO_REMEMBER
    · by_cases hi : i = slotIndex - MAX_SLOTS_TO_REMEMBER
      · exact .inl ⟨⟨hslot, hi⟩, slot_of_forgets ⟨hslot, hi⟩⟩
      · right
        have hsame : (s.slotClosed slotIndex).slot i = s.slot i := by
          simp [slotClosed, slot, hslot, SortedMap.get?_erase, hi]
        rw [step, hsame]
    · right
      simp only [step, slotClosed, if_neg hslot]
      exact .refl
  | txSetNext view peers =>
    right
    cases hpopped : s.mTxSetFetcher.popped with
    | none =>
      simp only [step, txSetNext, hpopped]
      exact .refl
    | some envelope =>
      simp only [step, txSetNext, hpopped]
      exact moves_herderRecvSCPEnvelope (s := { s with mTxSetFetcher := s.mTxSetFetcher.recvNext }) view
        fun e he => he
  | quorumSetNext view peers =>
    right
    cases hpopped : s.mQuorumSetFetcher.popped with
    | none =>
      simp only [step, quorumSetNext, hpopped]
      exact .refl
    | some envelope =>
      simp only [step, quorumSetNext, hpopped]
      exact moves_herderRecvSCPEnvelope (s := { s with mQuorumSetFetcher := s.mQuorumSetFetcher.recvNext }) view
        fun e he => he
  | txSetPosted => exact .inr .refl
  | quorumSetPosted => exact .inr .refl
  | txSetTimer => exact .inr .refl
  | quorumSetTimer => exact .inr .refl

/-! ## Runs -/

section Runs

variable (messageHash fromOpaque) (Peer)

def run (es : List (Event Peer)) : PendingEnvelopes Peer := es.foldl (step messageHash fromOpaque) new

variable {messageHash fromOpaque Peer}

theorem run_append (es : List (Event Peer)) (ev : Event Peer) :
    run Peer messageHash fromOpaque (es ++ [ev])
      = step messageHash fromOpaque (run Peer messageHash fromOpaque es) ev := by
  simp [run]

theorem sound_step (h : ∀ i, (s.slot i).Sound i) (ev : Event Peer) (i : ℕ) :
    ((step messageHash fromOpaque s ev).slot i).Sound i := by
  rcases slot_step messageHash fromOpaque s ev i with ⟨-, hempty⟩ | hmoves
  · rw [hempty]
    exact SlotEnvelopes.sound_empty i
  · exact (h i).moves hmoves

theorem sound_run (es : List (Event Peer)) (i : ℕ) :
    ((run Peer messageHash fromOpaque es).slot i).Sound i := by
  induction es using List.reverseRecOn generalizing i with
  | nil => exact SlotEnvelopes.sound_empty i
  | append_singleton es ev ih =>
    rw [run_append]
    exact sound_step ih ev i

omit [DecidableEq Peer] in
/-- What `pop` hands out is ready in its slot, and is spent then. -/
theorem pop_eq_some (h : ∀ i, (s.slot i).Sound i) {slotIndex : ℕ} (he : (s.pop slotIndex).2 = some e) :
    e ∈ (s.slot e.slotIndex).mReadyEnvelopes ∧ ((s.pop slotIndex).1.slot e.slotIndex).Spent e := by
  unfold pop at he ⊢
  cases hfirst : s.firstReady slotIndex with
  | none =>
    rw [hfirst] at he
    cases he
  | some it =>
    obtain ⟨i, v⟩ := it
    rw [hfirst] at he
    dsimp only at he ⊢
    have hv : s.slot i = v := slot_of_firstReady hfirst
    have hsound : v.Sound i := hv ▸ h i
    have hready : e ∈ v.mReadyEnvelopes := List.mem_of_getLast? he
    have hi : e.slotIndex = i := hsound.slotIndex e hready
    rw [hi, hv, slot_setSlot, if_pos rfl]
    exact ⟨hready, hsound.spent_pop he⟩

/-- An envelope that was popped stays spent until its slot is forgotten. -/
theorem spent_steps (h : ∀ i, (s.slot i).Sound i) (hspent : (s.slot e.slotIndex).Spent e)
    {es : List (Event Peer)} (hkept : ∀ ev ∈ es, ¬ Forgets ev e.slotIndex) :
    ((es.foldl (step messageHash fromOpaque) s).slot e.slotIndex).Spent e := by
  induction es generalizing s with
  | nil => exact hspent
  | cons ev es ih =>
    obtain ⟨hev, hes⟩ := List.forall_mem_cons.mp hkept
    refine ih (sound_step h ev) ?_ hes
    rcases slot_step messageHash fromOpaque s ev e.slotIndex with
      ⟨hforgets, -⟩ | hmoves
    · exact absurd hforgets hev
    · exact hspent.moves (h _) hmoves

/-- An envelope that is popped twice was forgotten in between. -/
theorem pop_once {before between : List (Event Peer)} {slotIndex slotIndex' : ℕ}
    (hfirst : ((run Peer messageHash fromOpaque before).pop slotIndex).2 = some e)
    (hsecond : ((run Peer messageHash fromOpaque (before ++ .pop slotIndex :: between)).pop slotIndex').2
      = some e) : ∃ ev ∈ between, Forgets ev e.slotIndex := by
  by_contra hkept
  push Not at hkept
  have hspent := (pop_eq_some (sound_run before) hfirst).2
  have hready := (pop_eq_some (sound_run _) hsecond).1
  rw [run, List.foldl_append, List.foldl_cons] at hready
  exact (spent_steps (sound_step (sound_run before) (.pop slotIndex)) hspent hkept).2 hready

/-- An envelope that is ready got ready in one step of the run, with all its items cached, and its slot
was not forgotten since. -/
theorem ready_run {es : List (Event Peer)}
    (h : e ∈ ((run Peer messageHash fromOpaque es).slot e.slotIndex).mReadyEnvelopes) :
    ∃ before ev after, es = before ++ ev :: after ∧
      e ∉ ((run Peer messageHash fromOpaque before).slot e.slotIndex).mReadyEnvelopes ∧
      e ∈ ((run Peer messageHash fromOpaque (before ++ [ev])).slot e.slotIndex).mReadyEnvelopes ∧
      (run Peer messageHash fromOpaque (before ++ [ev])).isFullyFetched fromOpaque e = true ∧
      ∀ ev' ∈ after, ¬ Forgets ev' e.slotIndex := by
  induction es using List.reverseRecOn with
  | nil => cases h
  | append_singleton es ev ih =>
    by_cases hready : e ∈ ((run Peer messageHash fromOpaque es).slot e.slotIndex).mReadyEnvelopes
    · obtain ⟨before, ev', after, rfl, hbefore, hafter, hfull, hkept⟩ := ih hready
      refine ⟨before, ev', after ++ [ev], by simp, hbefore, hafter, hfull, fun ev'' hev'' => ?_⟩
      rcases List.mem_append.mp hev'' with hev'' | hev''
      · exact hkept ev'' hev''
      · obtain rfl := List.mem_singleton.mp hev''
        intro hforgets
        rw [run_append, slot_of_forgets hforgets] at h
        cases h
    · refine ⟨es, ev, [], rfl, hready, h, ?_, by simp⟩
      rw [run_append] at h ⊢
      rcases slot_step messageHash fromOpaque _ ev e.slotIndex with
        ⟨-, hempty⟩ | hmoves
      · rw [hempty] at h
        cases h
      · rcases SlotEnvelopes.ready_of_moves hmoves h with h | hfull
        · exact absurd h hready
        · exact hfull

end Runs

end PendingEnvelopes

end ZaggCore.Herder.Staging
