import ZaggCore.Overlay.ItemFetcher

/-! # Waiting envelopes

What each call of the fetcher does to the envelopes that wait for an item, and to the slot index that the
item was last seen with. -/

namespace ZaggCore.Overlay
set_option autoImplicit false
set_option maxHeartbeats 250000

variable {Peer α : Type}

namespace Tracker

variable [DecidableEq Peer] (peers : Peers Peer) (t : Tracker Peer α)

@[simp] theorem mWaitingEnvelopes_tryNextPeer :
    (t.tryNextPeer peers).1.mWaitingEnvelopes = t.mWaitingEnvelopes := by
  unfold tryNextPeer
  dsimp only
  split <;> rfl

@[simp] theorem mLastSeenSlotIndex_tryNextPeer :
    (t.tryNextPeer peers).1.mLastSeenSlotIndex = t.mLastSeenSlotIndex := by
  unfold tryNextPeer
  dsimp only
  split <;> rfl

end Tracker

namespace ItemFetcher

/-- The envelope that `recvNext` pops. -/
def popped (s : ItemFetcher Peer α) : Option (SCPEnvelope α) :=
  s.receiving.head?.bind fun itemHash => (s.fetchingFor itemHash).getLast?

/-- An envelope that waits for an item was seen with it. -/
def Seen (s : ItemFetcher Peer α) : Prop :=
  ∀ itemHash, ∀ e ∈ s.fetchingFor itemHash, e.slotIndex ≤ s.getLastSeenSlotIndex itemHash

/-- The same envelopes wait, for items last seen with the same slots. -/
structure SameWaiting (s' s : ItemFetcher Peer α) : Prop where
  fetchingFor : ∀ itemHash, s'.fetchingFor itemHash = s.fetchingFor itemHash
  getLastSeenSlotIndex : ∀ itemHash, s'.getLastSeenSlotIndex itemHash = s.getLastSeenSlotIndex itemHash
  receiving : s'.receiving = s.receiving

theorem SameWaiting.refl (s : ItemFetcher Peer α) : SameWaiting s s := ⟨fun _ => rfl, fun _ => rfl, rfl⟩

variable {s : ItemFetcher Peer α}

theorem seen_new : Seen (new : ItemFetcher Peer α) := by
  intro itemHash e he
  cases he

/-! ## Replacing a tracker -/

theorem fetchingFor_of_some {itemHash : Hash} {t : Tracker Peer α} (h : s.mTrackers itemHash = some t) :
    s.fetchingFor itemHash = t.mWaitingEnvelopes.map (·.2) := by
  simp only [fetchingFor, h]

theorem fetchingFor_of_none {itemHash : Hash} (h : s.mTrackers itemHash = none) :
    s.fetchingFor itemHash = [] := by
  simp only [fetchingFor, h]

theorem getLastSeenSlotIndex_of_some {itemHash : Hash} {t : Tracker Peer α}
    (h : s.mTrackers itemHash = some t) : s.getLastSeenSlotIndex itemHash = t.mLastSeenSlotIndex := by
  simp only [getLastSeenSlotIndex, h]

theorem getLastSeenSlotIndex_of_none {itemHash : Hash} (h : s.mTrackers itemHash = none) :
    s.getLastSeenSlotIndex itemHash = 0 := by
  simp only [getLastSeenSlotIndex, h]

theorem fetchingFor_set (itemHash : Hash) (t : Tracker Peer α) (other : Hash) :
    (s.set itemHash (some t)).fetchingFor other
      = if other = itemHash then t.mWaitingEnvelopes.map (·.2) else s.fetchingFor other := by
  by_cases h : other = itemHash
  · simp [fetchingFor, ItemFetcher.set, h]
  · simp [fetchingFor, ItemFetcher.set, h]

theorem getLastSeenSlotIndex_set (itemHash : Hash) (t : Tracker Peer α) (other : Hash) :
    (s.set itemHash (some t)).getLastSeenSlotIndex other
      = if other = itemHash then t.mLastSeenSlotIndex else s.getLastSeenSlotIndex other := by
  by_cases h : other = itemHash
  · simp [getLastSeenSlotIndex, ItemFetcher.set, h]
  · simp [getLastSeenSlotIndex, ItemFetcher.set, h]

/-- A new tracker whose envelopes were seen with its item keeps the others as they are. -/
theorem Seen.set (h : Seen s) {itemHash : Hash} {t : Tracker Peer α}
    (ht : ∀ x ∈ t.mWaitingEnvelopes, x.2.slotIndex ≤ t.mLastSeenSlotIndex) :
    Seen (s.set itemHash (some t)) := by
  intro other e he
  rw [fetchingFor_set] at he
  rw [getLastSeenSlotIndex_set]
  by_cases hother : other = itemHash
  · rw [if_pos hother] at he ⊢
    obtain ⟨x, hx, rfl⟩ := List.mem_map.mp he
    exact ht x hx
  · rw [if_neg hother] at he ⊢
    exact h other e he

theorem Seen.of_some (h : Seen s) {itemHash : Hash} {t : Tracker Peer α}
    (ht : s.mTrackers itemHash = some t) (x : Hash × SCPEnvelope α) (hx : x ∈ t.mWaitingEnvelopes) :
    x.2.slotIndex ≤ t.mLastSeenSlotIndex := by
  have hseen := h itemHash x.2 (by
    rw [fetchingFor_of_some ht]
    exact List.mem_map_of_mem hx)
  rwa [getLastSeenSlotIndex_of_some ht] at hseen

/-! ## The calls -/

section Calls

variable [DecidableEq Peer] {messageHash : SCPEnvelope α → Hash} {peers : Peers Peer}

/-- A retry does not touch what waits. -/
theorem fetchingFor_tryNextPeer {itemHash : Hash} {t : Tracker Peer α} (other : Hash) :
    (s.tryNextPeer itemHash peers t).fetchingFor other
      = if other = itemHash then t.mWaitingEnvelopes.map (·.2) else s.fetchingFor other := by
  have h := fetchingFor_set (s := s) itemHash (t.tryNextPeer peers).1 other
  rw [Tracker.mWaitingEnvelopes_tryNextPeer] at h
  exact h

theorem getLastSeenSlotIndex_tryNextPeer {itemHash : Hash} {t : Tracker Peer α} (other : Hash) :
    (s.tryNextPeer itemHash peers t).getLastSeenSlotIndex other
      = if other = itemHash then t.mLastSeenSlotIndex else s.getLastSeenSlotIndex other := by
  have h := getLastSeenSlotIndex_set (s := s) itemHash (t.tryNextPeer peers).1 other
  rw [Tracker.mLastSeenSlotIndex_tryNextPeer] at h
  exact h

theorem mem_fetchingFor_fetch {itemHash other : Hash} {envelope e : SCPEnvelope α} :
    e ∈ (s.fetch messageHash itemHash envelope peers).fetchingFor other
      ↔ e ∈ s.fetchingFor other ∨ other = itemHash ∧ e = envelope := by
  unfold ItemFetcher.fetch
  split
  case h_1 hnone =>
    rw [fetchingFor_tryNextPeer]
    by_cases hother : other = itemHash
    · rw [if_pos hother, hother, fetchingFor_of_none hnone]
      simp [Tracker.listen, Tracker.new]
    · simp [hother]
  case h_2 t ht =>
    rw [fetchingFor_set]
    by_cases hother : other = itemHash
    · rw [if_pos hother, hother, fetchingFor_of_some ht]
      simp [Tracker.listen]
    · simp [hother]

theorem getLastSeenSlotIndex_fetch (itemHash other : Hash) (envelope : SCPEnvelope α) :
    (s.fetch messageHash itemHash envelope peers).getLastSeenSlotIndex other
      = if other = itemHash then max envelope.slotIndex (s.getLastSeenSlotIndex itemHash)
        else s.getLastSeenSlotIndex other := by
  unfold ItemFetcher.fetch
  split
  case h_1 hnone =>
    rw [getLastSeenSlotIndex_tryNextPeer, getLastSeenSlotIndex_of_none hnone]
    rfl
  case h_2 t ht =>
    rw [getLastSeenSlotIndex_set, getLastSeenSlotIndex_of_some ht]
    rfl

@[simp] theorem receiving_fetch (itemHash : Hash) (envelope : SCPEnvelope α) :
    (s.fetch messageHash itemHash envelope peers).receiving = s.receiving := by
  unfold ItemFetcher.fetch
  split <;> rfl

theorem Seen.fetch (h : Seen s) (itemHash : Hash) (envelope : SCPEnvelope α) :
    Seen (s.fetch messageHash itemHash envelope peers) := by
  intro other e he
  rw [getLastSeenSlotIndex_fetch]
  rcases mem_fetchingFor_fetch.mp he with he | ⟨rfl, rfl⟩
  · have hseen := h other e he
    split
    case isTrue hother =>
      subst hother
      exact hseen.trans (le_max_right _ _)
    case isFalse => exact hseen
  · rw [if_pos rfl]
    exact le_max_left _ _

theorem SameWaiting.tryNextPeer {itemHash : Hash} {t t' : Tracker Peer α} (ht : s.mTrackers itemHash = some t)
    (hwaiting : t'.mWaitingEnvelopes = t.mWaitingEnvelopes)
    (hseen : t'.mLastSeenSlotIndex = t.mLastSeenSlotIndex) :
    SameWaiting (s.tryNextPeer itemHash peers t') s where
  fetchingFor other := by
    rw [fetchingFor_tryNextPeer, hwaiting]
    split
    case isTrue hother => rw [hother, fetchingFor_of_some ht]
    case isFalse => rfl
  getLastSeenSlotIndex other := by
    rw [getLastSeenSlotIndex_tryNextPeer, hseen]
    split
    case isTrue hother => rw [hother, getLastSeenSlotIndex_of_some ht]
    case isFalse => rfl
  receiving := rfl

theorem sameWaiting_doesntHave (itemHash : Hash) (peer : Peer) :
    SameWaiting (s.doesntHave itemHash peer peers) s := by
  unfold ItemFetcher.doesntHave
  split
  case h_1 => exact .refl s
  case h_2 t ht =>
    split
    · exact .tryNextPeer ht rfl rfl
    · exact .refl s

theorem sameWaiting_timerExpired (itemHash : Hash) : SameWaiting (s.timerExpired itemHash peers) s := by
  unfold ItemFetcher.timerExpired
  split
  case h_2 => exact .refl s
  case h_1 t _ ht =>
    split
    · exact .tryNextPeer ht rfl rfl
    · exact .refl s

end Calls

section StopFetch

variable [DecidableEq α]

theorem mem_fetchingFor_stopFetch {itemHash other : Hash} {envelope e : SCPEnvelope α} :
    e ∈ (s.stopFetch itemHash envelope).fetchingFor other
      ↔ e ∈ s.fetchingFor other ∧ ¬ (other = itemHash ∧ e = envelope) := by
  unfold ItemFetcher.stopFetch
  split
  case h_1 hnone =>
    refine ⟨fun he => ⟨he, ?_⟩, And.left⟩
    rintro ⟨rfl, rfl⟩
    rw [fetchingFor_of_none hnone] at he
    cases he
  case h_2 t ht =>
    have hwaiting : (if (t.discard envelope).empty then (t.discard envelope).cancel
        else t.discard envelope).mWaitingEnvelopes = (t.discard envelope).mWaitingEnvelopes := by
      split <;> rfl
    rw [fetchingFor_set, hwaiting]
    by_cases hother : other = itemHash
    · rw [if_pos hother, hother, fetchingFor_of_some ht]
      simp only [Tracker.discard, List.mem_map, List.mem_filter, decide_eq_true_eq, true_and]
      constructor
      · rintro ⟨x, ⟨hx, hne⟩, rfl⟩
        exact ⟨⟨x, hx, rfl⟩, hne⟩
      · rintro ⟨⟨x, hx, rfl⟩, hne⟩
        exact ⟨x, ⟨hx, hne⟩, rfl⟩
    · simp [hother]

theorem getLastSeenSlotIndex_stopFetch_le (itemHash other : Hash) (envelope : SCPEnvelope α) :
    (s.stopFetch itemHash envelope).getLastSeenSlotIndex other ≤ s.getLastSeenSlotIndex other := by
  unfold ItemFetcher.stopFetch
  split
  case h_1 => exact le_rfl
  case h_2 t ht =>
    rw [getLastSeenSlotIndex_set]
    split
    case isFalse => exact le_rfl
    case isTrue hother =>
      rw [hother, getLastSeenSlotIndex_of_some ht]
      split
      · exact Nat.zero_le _
      · exact le_rfl

@[simp] theorem receiving_stopFetch (itemHash : Hash) (envelope : SCPEnvelope α) :
    (s.stopFetch itemHash envelope).receiving = s.receiving := by
  unfold ItemFetcher.stopFetch
  split <;> rfl

theorem Seen.stopFetch (h : Seen s) (itemHash : Hash) (envelope : SCPEnvelope α) :
    Seen (s.stopFetch itemHash envelope) := by
  unfold ItemFetcher.stopFetch
  split
  case h_1 => exact h
  case h_2 t ht =>
    refine h.set fun x hx => ?_
    by_cases hempty : (t.discard envelope).empty = true
    · rw [if_pos hempty] at hx
      have hnil : (t.discard envelope).mWaitingEnvelopes = [] := List.isEmpty_iff.mp hempty
      rw [show (t.discard envelope).cancel.mWaitingEnvelopes = [] from hnil] at hx
      cases hx
    · rw [if_neg hempty] at hx ⊢
      exact h.of_some ht x (List.mem_of_mem_filter hx)

end StopFetch

/-! ## The clean-up -/

/-- What the clean-up leaves of a tracker. -/
theorem mTrackers_stopFetchingBelowInternal (slotIndex : ℕ) (itemHash : Hash) :
    (s.stopFetchingBelowInternal slotIndex).mTrackers itemHash = none ∧
        (∀ e ∈ s.fetchingFor itemHash, e.slotIndex < slotIndex) ∨
      ∃ t, s.mTrackers itemHash = some t ∧
        (s.stopFetchingBelowInternal slotIndex).mTrackers itemHash = some { t with
          mWaitingEnvelopes := t.mWaitingEnvelopes.filter fun x => slotIndex ≤ x.2.slotIndex } := by
  cases ht : s.mTrackers itemHash with
  | none =>
    left
    simp [ItemFetcher.stopFetchingBelowInternal, ht, fetchingFor_of_none ht]
  | some t =>
    by_cases hempty : t.mWaitingEnvelopes.filter (fun x => decide (slotIndex ≤ x.2.slotIndex)) = []
    · left
      constructor
      · simp [ItemFetcher.stopFetchingBelowInternal, ht, Tracker.clearEnvelopesBelow, Tracker.empty, hempty]
      · intro e he
        rw [fetchingFor_of_some ht] at he
        obtain ⟨x, hx, rfl⟩ := List.mem_map.mp he
        simpa using List.filter_eq_nil_iff.mp hempty x hx
    · right
      refine ⟨t, rfl, ?_⟩
      simp [ItemFetcher.stopFetchingBelowInternal, ht, Tracker.clearEnvelopesBelow, Tracker.empty, hempty]

/-- The clean-up drops the envelopes of lower slots. -/
theorem mem_fetchingFor_stopFetchingBelowInternal {slotIndex : ℕ} {itemHash : Hash} {e : SCPEnvelope α} :
    e ∈ (s.stopFetchingBelowInternal slotIndex).fetchingFor itemHash
      ↔ e ∈ s.fetchingFor itemHash ∧ slotIndex ≤ e.slotIndex := by
  rcases mTrackers_stopFetchingBelowInternal (s := s) slotIndex itemHash with ⟨hnone, hbelow⟩ | ⟨t, ht, hsome⟩
  · rw [fetchingFor_of_none hnone]
    refine iff_of_false List.not_mem_nil ?_
    rintro ⟨he, hle⟩
    exact not_lt.mpr hle (hbelow e he)
  · rw [fetchingFor_of_some hsome, fetchingFor_of_some ht]
    simp only [List.mem_map, List.mem_filter, decide_eq_true_eq]
    constructor
    · rintro ⟨x, ⟨hx, hle⟩, rfl⟩
      exact ⟨⟨x, hx, rfl⟩, hle⟩
    · rintro ⟨⟨x, hx, rfl⟩, hle⟩
      exact ⟨x, ⟨hx, hle⟩, rfl⟩

theorem getLastSeenSlotIndex_stopFetchingBelowInternal_le (slotIndex : ℕ) (itemHash : Hash) :
    (s.stopFetchingBelowInternal slotIndex).getLastSeenSlotIndex itemHash
      ≤ s.getLastSeenSlotIndex itemHash := by
  rcases mTrackers_stopFetchingBelowInternal (s := s) slotIndex itemHash with ⟨hnone, -⟩ | ⟨t, ht, hsome⟩
  · rw [getLastSeenSlotIndex_of_none hnone]
    exact Nat.zero_le _
  · rw [getLastSeenSlotIndex_of_some hsome, getLastSeenSlotIndex_of_some ht]

theorem Seen.stopFetchingBelowInternal (h : Seen s) (slotIndex : ℕ) :
    Seen (s.stopFetchingBelowInternal slotIndex) := by
  intro itemHash e he
  have hseen := h itemHash e (mem_fetchingFor_stopFetchingBelowInternal.mp he).1
  rcases mTrackers_stopFetchingBelowInternal (s := s) slotIndex itemHash with ⟨hnone, -⟩ | ⟨t, ht, hsome⟩
  · rw [fetchingFor_of_none hnone] at he
    cases he
  · rwa [getLastSeenSlotIndex_of_some hsome, ← getLastSeenSlotIndex_of_some ht]

/-! ## The arrival of an item -/

@[simp] theorem fetchingFor_recv (itemHash other : Hash) :
    (s.recv itemHash).fetchingFor other = s.fetchingFor other := by
  unfold ItemFetcher.recv
  split <;> rfl

@[simp] theorem getLastSeenSlotIndex_recv (itemHash other : Hash) :
    (s.recv itemHash).getLastSeenSlotIndex other = s.getLastSeenSlotIndex other := by
  unfold ItemFetcher.recv
  split <;> rfl

theorem mem_receiving_recv {itemHash other : Hash} (h : other ∈ (s.recv itemHash).receiving) :
    other = itemHash ∨ other ∈ s.receiving := by
  unfold ItemFetcher.recv at h
  split at h
  · exact .inr h
  · exact List.mem_cons.mp h

theorem receiving_subset_recv (itemHash : Hash) : s.receiving ⊆ (s.recv itemHash).receiving := by
  unfold ItemFetcher.recv
  split
  · exact List.Subset.refl _
  · exact List.subset_cons_self _ _

/-- An item that is tracked is received. -/
theorem getLastSeenSlotIndex_of_not_recv {itemHash : Hash} (h : itemHash ∉ (s.recv itemHash).receiving) :
    s.getLastSeenSlotIndex itemHash = 0 := by
  unfold ItemFetcher.recv at h
  split at h
  case h_1 hnone => exact getLastSeenSlotIndex_of_none hnone
  case h_2 => exact absurd List.mem_cons_self h

/-- An item that an envelope waits for is received, last of all. -/
theorem mem_receiving_recv_self {itemHash : Hash} {e : SCPEnvelope α} (h : e ∈ s.fetchingFor itemHash) :
    itemHash ∈ (s.recv itemHash).receiving := by
  unfold ItemFetcher.recv
  split
  case h_1 hnone =>
    rw [fetchingFor_of_none hnone] at h
    cases h
  case h_2 => exact List.mem_cons_self

theorem Seen.recv (h : Seen s) (itemHash : Hash) : Seen (s.recv itemHash) := by
  intro other e he
  rw [fetchingFor_recv] at he
  rw [getLastSeenSlotIndex_recv]
  exact h other e he

/-- The loop of the innermost `recv` ends, when no envelope waits for its item. -/
theorem recvNext_of_popped_none (h : s.popped = none) :
    (∀ other, s.recvNext.fetchingFor other = s.fetchingFor other) ∧
      (∀ other, s.recvNext.getLastSeenSlotIndex other
        = if s.receiving.head? = some other then 0 else s.getLastSeenSlotIndex other) ∧
      s.recvNext.receiving = s.receiving.tail := by
  unfold popped at h
  unfold ItemFetcher.recvNext
  split
  case h_1 hnil => simp [hnil]
  case h_2 itemHash receiving hstack =>
    rw [hstack, List.head?_cons, Option.bind_some, List.getLast?_eq_none_iff] at h
    split
    case h_1 hnone =>
      refine ⟨fun _ => rfl, fun other => ?_, by simp [hstack]⟩
      by_cases hother : itemHash = other
      · subst hother
        rw [if_pos (by simp [hstack])]
        exact getLastSeenSlotIndex_of_none hnone
      · rw [if_neg (by simpa [hstack] using hother)]
        rfl
    case h_2 t ht =>
      rw [fetchingFor_of_some ht, List.map_eq_nil_iff] at h
      have hempty : t.empty = true := List.isEmpty_iff.mpr h
      rw [if_pos hempty]
      refine ⟨fun other => ?_, fun other => ?_, by simp [hstack]⟩
      · refine (fetchingFor_set itemHash t.resetLastSeenSlotIndex.cancel other).trans ?_
        split
        case isTrue hother => rw [hother, fetchingFor_of_some ht]; rfl
        case isFalse => rfl
      · refine (getLastSeenSlotIndex_set itemHash t.resetLastSeenSlotIndex.cancel other).trans ?_
        by_cases hother : other = itemHash
        · rw [if_pos hother, if_pos (by simp [hstack, hother])]
          rfl
        · rw [if_neg hother, if_neg (by simpa [hstack] using Ne.symm hother)]

/-- The loop of the innermost `recv` pops the last envelope that waits for its item. -/
theorem recvNext_of_popped {e : SCPEnvelope α} (h : s.popped = some e) :
    ∃ itemHash ∈ s.receiving, s.fetchingFor itemHash = s.recvNext.fetchingFor itemHash ++ [e] ∧
      (∀ other, other ≠ itemHash → s.recvNext.fetchingFor other = s.fetchingFor other) ∧
      (∀ other, s.recvNext.getLastSeenSlotIndex other = s.getLastSeenSlotIndex other) ∧
      s.recvNext.receiving = s.receiving := by
  obtain ⟨itemHash, hhead, hlast⟩ := Option.bind_eq_some_iff.mp h
  obtain ⟨receiving, hstack⟩ := List.head?_eq_some_iff.mp hhead
  cases ht : s.mTrackers itemHash with
  | none =>
    rw [fetchingFor_of_none ht] at hlast
    cases hlast
  | some t =>
    have hwaiting := fetchingFor_of_some ht
    have hempty : ¬ t.empty = true := by
      intro hempty
      rw [hwaiting, List.isEmpty_iff.mp hempty] at hlast
      cases hlast
    have hnext : s.recvNext = s.set itemHash (some t.pop) := by
      simp only [ItemFetcher.recvNext, hstack, ht, if_neg hempty]
    refine ⟨itemHash, hstack ▸ List.mem_cons_self, ?_, fun other hother => ?_, fun other => ?_, ?_⟩
    · rw [hnext, fetchingFor_set, if_pos rfl, Tracker.pop, List.map_dropLast, ← hwaiting]
      exact (List.dropLast_append_getLast? e hlast).symm
    · rw [hnext, fetchingFor_set, if_neg hother]
    · rw [hnext, getLastSeenSlotIndex_set]
      split
      case isTrue hother => rw [hother, getLastSeenSlotIndex_of_some ht, Tracker.pop]
      case isFalse => rfl
    · rw [hnext]
      rfl

/-- Popping loses no envelope but the one that is popped. -/
theorem mem_fetchingFor_recvNext {itemHash : Hash} {e : SCPEnvelope α} (h : e ∈ s.fetchingFor itemHash) :
    e ∈ s.recvNext.fetchingFor itemHash ∨ s.popped = some e ∧ itemHash ∈ s.receiving := by
  cases hpopped : s.popped with
  | none => exact .inl (((recvNext_of_popped_none hpopped).1 itemHash).symm ▸ h)
  | some e' =>
    obtain ⟨itemHash', hreceiving, hwaiting, hother, -⟩ := recvNext_of_popped hpopped
    by_cases heq : itemHash = itemHash'
    · subst heq
      rw [hwaiting, List.mem_append, List.mem_singleton] at h
      rcases h with h | rfl
      · exact .inl h
      · exact .inr ⟨rfl, hreceiving⟩
    · exact .inl ((hother itemHash heq).symm ▸ h)

theorem fetchingFor_recvNext_subset (itemHash : Hash) :
    s.recvNext.fetchingFor itemHash ⊆ s.fetchingFor itemHash := by
  cases hpopped : s.popped with
  | none =>
    rw [(recvNext_of_popped_none hpopped).1 itemHash]
    exact List.Subset.refl _
  | some e =>
    obtain ⟨itemHash', -, hwaiting, hother, -⟩ := recvNext_of_popped hpopped
    by_cases heq : itemHash = itemHash'
    · rw [heq, hwaiting]
      exact List.subset_append_left _ _
    · rw [hother itemHash heq]
      exact List.Subset.refl _

theorem getLastSeenSlotIndex_recvNext_le (itemHash : Hash) :
    s.recvNext.getLastSeenSlotIndex itemHash ≤ s.getLastSeenSlotIndex itemHash := by
  cases hpopped : s.popped with
  | none =>
    rw [(recvNext_of_popped_none hpopped).2.1 itemHash]
    split
    · exact Nat.zero_le _
    · exact le_rfl
  | some e =>
    obtain ⟨itemHash', -, -, -, hseen, -⟩ := recvNext_of_popped hpopped
    exact (hseen itemHash).le

theorem Seen.recvNext (h : Seen s) : Seen s.recvNext := by
  intro itemHash e he
  have hseen := h itemHash e (fetchingFor_recvNext_subset itemHash he)
  cases hpopped : s.popped with
  | none =>
    rw [(recvNext_of_popped_none hpopped).1 itemHash] at he
    rw [(recvNext_of_popped_none hpopped).2.1 itemHash]
    split
    case isFalse => exact hseen
    case isTrue hhead =>
      -- the loop ends, so nothing waits for the item
      unfold popped at hpopped
      rw [hhead, Option.bind_some, List.getLast?_eq_none_iff] at hpopped
      rw [hpopped] at he
      cases he
  | some e' =>
    obtain ⟨itemHash', -, -, -, hlast, -⟩ := recvNext_of_popped hpopped
    rwa [hlast itemHash]

/-- An item that leaves the stack, which nothing waits for then, was last seen with no slot. -/
theorem left_recvNext {itemHash : Hash} (hin : itemHash ∈ s.receiving) (hout : itemHash ∉ s.recvNext.receiving) :
    s.popped = none ∧ s.receiving.head? = some itemHash ∧ s.fetchingFor itemHash = [] ∧
      s.recvNext.getLastSeenSlotIndex itemHash = 0 := by
  cases hpopped : s.popped with
  | some e =>
    obtain ⟨-, -, -, -, -, hsame⟩ := recvNext_of_popped hpopped
    exact absurd (hsame ▸ hin) hout
  | none =>
    obtain ⟨-, hseen, htail⟩ := recvNext_of_popped_none hpopped
    rw [htail] at hout
    have hhead : s.receiving.head? = some itemHash := by
      cases hstack : s.receiving with
      | nil => rw [hstack] at hin; cases hin
      | cons other rest =>
        rw [hstack] at hin hout
        rcases List.mem_cons.mp hin with rfl | hin
        · rfl
        · exact absurd hin hout
    have hwaiting := hpopped
    unfold popped at hwaiting
    rw [hhead, Option.bind_some, List.getLast?_eq_none_iff] at hwaiting
    refine ⟨rfl, hhead, hwaiting, ?_⟩
    rw [hseen, if_pos hhead]

theorem receiving_recvNext_subset : s.recvNext.receiving ⊆ s.receiving := by
  cases hpopped : s.popped with
  | none =>
    rw [(recvNext_of_popped_none hpopped).2.2]
    exact List.tail_subset _
  | some e =>
    obtain ⟨-, -, -, -, -, hsame⟩ := recvNext_of_popped hpopped
    rw [hsame]
    exact List.Subset.refl _

end ItemFetcher

end ZaggCore.Overlay
