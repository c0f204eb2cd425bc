import ZaggCore.Herder.SlotEnvelopes

/-! # Watched envelopes

An envelope that is being fetched waits for every item it needs that is not cached. What each call does to
that: the caches are touched for an envelope that comes in, and an item that arrives hands on what waits
for it. -/

namespace ZaggCore.Herder.Staging
set_option autoImplicit false
set_option maxHeartbeats 250000

open Foundations Overlay Util

/-! ## The cache of transaction sets -/

/-- A transaction set is cached, for slot `n` or a later one. -/
def Marked (cache : LruCache Hash (ℕ × TxSetFrame)) (h : Hash) (n : ℕ) : Prop :=
  ∃ item, cache.find? h = some item ∧ n ≤ item.1

section Cache

variable {cache : LruCache Hash (ℕ × TxSetFrame)} {h k : Hash} {n m : ℕ}

theorem Marked.exists? (hm : Marked cache h n) : cache.exists? h = true := by
  obtain ⟨item, hitem, -⟩ := hm
  exact (LruCache.exists?_eq h).mpr ⟨item, hitem⟩

namespace PendingEnvelopes

theorem find?_touchTxSet : (touchTxSet n cache h).find? k
    = if k = h then (cache.find? k).map fun item => (max item.1 n, item.2) else cache.find? k := by
  unfold touchTxSet
  split
  case h_1 hnone =>
    split
    case isTrue hk => rw [hk, hnone]; rfl
    case isFalse => rfl
  case h_2 item hitem =>
    rw [LruCache.find?_set, LruCache.find?_touch]
    split
    case isTrue hk => rw [hk, hitem]; rfl
    case isFalse => rfl

theorem keyed_touchTxSet (hc : cache.Keyed) : (touchTxSet n cache h).Keyed := by
  unfold touchTxSet
  split
  · exact hc
  · exact (hc.touch h).set h _

theorem exists?_touchTxSet : (touchTxSet n cache h).exists? k = cache.exists? k := by
  unfold LruCache.exists?
  rw [find?_touchTxSet]
  split <;> simp

theorem marked_touchTxSet (hm : Marked cache k m) : Marked (touchTxSet n cache h) k m := by
  obtain ⟨item, hitem, hle⟩ := hm
  unfold Marked
  rw [find?_touchTxSet, hitem]
  split
  · exact ⟨_, rfl, hle.trans (le_max_left _ _)⟩
  · exact ⟨item, rfl, hle⟩

theorem marked_touchTxSet_self (hc : cache.exists? h = true) : Marked (touchTxSet n cache h) h n := by
  obtain ⟨item, hitem⟩ := (LruCache.exists?_eq h).mp hc
  unfold Marked
  rw [find?_touchTxSet, if_pos rfl, hitem]
  exact ⟨_, rfl, le_max_right _ _⟩

variable {hashes : List Hash}

theorem keyed_touchTxSets (hc : cache.Keyed) : (hashes.foldl (touchTxSet n) cache).Keyed := by
  induction hashes generalizing cache with
  | nil => exact hc
  | cons h hashes ih => exact ih (keyed_touchTxSet hc)

theorem exists?_touchTxSets : (hashes.foldl (touchTxSet n) cache).exists? k = cache.exists? k := by
  induction hashes generalizing cache with
  | nil => rfl
  | cons h hashes ih => rw [List.foldl_cons, ih, exists?_touchTxSet]

theorem marked_touchTxSets (hm : Marked cache k m) : Marked (hashes.foldl (touchTxSet n) cache) k m := by
  induction hashes generalizing cache with
  | nil => exact hm
  | cons h hashes ih => exact ih (marked_touchTxSet hm)

/-- A cached transaction set that an envelope needs lives as long as the slot of the envelope. -/
theorem marked_touchTxSets_of_mem (hk : k ∈ hashes) (hc : cache.exists? k = true) :
    Marked (hashes.foldl (touchTxSet n) cache) k n := by
  induction hashes generalizing cache with
  | nil => cases hk
  | cons h hashes ih =>
    rcases List.mem_cons.mp hk with rfl | hk
    · rw [List.foldl_cons]
      exact marked_touchTxSets (marked_touchTxSet_self hc)
    · exact ih hk (by rwa [exists?_touchTxSet])

end PendingEnvelopes

end Cache

namespace PendingEnvelopes

variable {Peer : Type} [DecidableEq Peer] {messageHash : Envelope → Hash}
  {fromOpaque : Value → Option StellarValue} {envelope e : Envelope} {peers : Peers Peer}

/-! ## Fetching the transaction sets -/

section FetchTxSets

variable {cache : LruCache Hash (ℕ × TxSetFrame)} {fetcher : ItemFetcher Peer Contents}
  {hashes : List Hash} {h : Hash}

theorem mem_fetchTxSets :
    e ∈ (hashes.foldl (fetchTxSet messageHash cache envelope peers) fetcher).fetchingFor h ↔
      e ∈ fetcher.fetchingFor h ∨ e = envelope ∧ h ∈ hashes ∧ cache.exists? h = false := by
  induction hashes generalizing fetcher with
  | nil => simp
  | cons h' hashes ih =>
    rw [List.foldl_cons, ih, fetchTxSet]
    by_cases hc : cache.exists? h' = true
    · rw [if_pos hc, List.mem_cons]
      constructor
      · rintro (he | ⟨he, hmem, hnone⟩)
        · exact .inl he
        · exact .inr ⟨he, .inr hmem, hnone⟩
      · rintro (he | ⟨he, rfl | hmem, hnone⟩)
        · exact .inl he
        · rw [hc] at hnone
          cases hnone
        · exact .inr ⟨he, hmem, hnone⟩
    · rw [if_neg hc, ItemFetcher.mem_fetchingFor_fetch, List.mem_cons]
      constructor
      · rintro ((he | ⟨rfl, he⟩) | ⟨he, hmem, hnone⟩)
        · exact .inl he
        · exact .inr ⟨he, .inl rfl, Bool.eq_false_iff.mpr hc⟩
        · exact .inr ⟨he, .inr hmem, hnone⟩
      · rintro (he | ⟨he, rfl | hmem, hnone⟩)
        · exact .inl (.inl he)
        · exact .inl (.inr ⟨rfl, he⟩)
        · exact .inr ⟨he, hmem, hnone⟩

theorem receiving_fetchTxSets :
    (hashes.foldl (fetchTxSet messageHash cache envelope peers) fetcher).receiving = fetcher.receiving := by
  induction hashes generalizing fetcher with
  | nil => rfl
  | cons h' hashes ih =>
    rw [List.foldl_cons, ih, fetchTxSet]
    split
    · rfl
    · exact ItemFetcher.receiving_fetch _ _

theorem seen_fetchTxSets (hseen : fetcher.Seen) :
    (hashes.foldl (fetchTxSet messageHash cache envelope peers) fetcher).Seen := by
  induction hashes generalizing fetcher with
  | nil => exact hseen
  | cons h' hashes ih =>
    refine ih ?_
    unfold fetchTxSet
    split
    · exact hseen
    · exact hseen.fetch _ _

/-- What is cached is not asked for. -/
theorem getLastSeenSlotIndex_fetchTxSets (hc : cache.exists? h = true) :
    (hashes.foldl (fetchTxSet messageHash cache envelope peers) fetcher).getLastSeenSlotIndex h
      = fetcher.getLastSeenSlotIndex h := by
  induction hashes generalizing fetcher with
  | nil => rfl
  | cons h' hashes ih =>
    rw [List.foldl_cons, ih, fetchTxSet]
    split
    · rfl
    · rename_i hc'
      rw [ItemFetcher.getLastSeenSlotIndex_fetch, if_neg]
      rintro rfl
      exact hc' hc

variable {envelopes : List Envelope}

omit [DecidableEq Peer] in
theorem mem_stopFetchAll :
    e ∈ (hashes.foldl (fun fetcher h2 => fetcher.stopFetch h2 envelope) fetcher).fetchingFor h ↔
      e ∈ fetcher.fetchingFor h ∧ ¬ (h ∈ hashes ∧ e = envelope) := by
  induction hashes generalizing fetcher with
  | nil => simp
  | cons h' hashes ih =>
    rw [List.foldl_cons, ih, ItemFetcher.mem_fetchingFor_stopFetch, List.mem_cons]
    tauto

omit [DecidableEq Peer] in
theorem receiving_stopFetchAll :
    (hashes.foldl (fun fetcher h2 => fetcher.stopFetch h2 envelope) fetcher).receiving
      = fetcher.receiving := by
  induction hashes generalizing fetcher with
  | nil => rfl
  | cons h' hashes ih => rw [List.foldl_cons, ih, ItemFetcher.receiving_stopFetch]

omit [DecidableEq Peer] in
theorem seen_stopFetchAll (hseen : fetcher.Seen) :
    (hashes.foldl (fun fetcher h2 => fetcher.stopFetch h2 envelope) fetcher).Seen := by
  induction hashes generalizing fetcher with
  | nil => exact hseen
  | cons h' hashes ih => exact ih (hseen.stopFetch _ _)

omit [DecidableEq Peer] in
theorem getLastSeenSlotIndex_stopFetchAll_le :
    (hashes.foldl (fun fetcher h2 => fetcher.stopFetch h2 envelope) fetcher).getLastSeenSlotIndex h
      ≤ fetcher.getLastSeenSlotIndex h := by
  induction hashes generalizing fetcher with
  | nil => exact le_rfl
  | cons h' hashes ih =>
    exact ih.trans (ItemFetcher.getLastSeenSlotIndex_stopFetch_le h' h envelope)

end FetchTxSets

/-! ## What waits for an item -/

variable {s s' : PendingEnvelopes Peer} {late late' : Envelope → Prop}

def Fetching (s : PendingEnvelopes Peer) (e : Envelope) : Prop :=
  e ∈ (s.slot e.slotIndex).mFetchingEnvelopes

/-- The items of an envelope are cached for as long as it needs them, or the envelope waits for them. A
late envelope has just been taken from its tracker. -/
structure Supplied (fromOpaque : Value → Option StellarValue) (late : Envelope → Prop)
    (s : PendingEnvelopes Peer) (e : Envelope) : Prop where
  qset : s.mQsetCache.exists? (getCompanionQuorumSetHash e) = true ∨
    e ∈ s.mQuorumSetFetcher.fetchingFor (getCompanionQuorumSetHash e)
  txSets : ∀ hashes, getTxSetHashes fromOpaque e = some hashes → ∀ h ∈ hashes,
    Marked s.mTxSetCache h e.slotIndex ∨ e ∈ s.mTxSetFetcher.fetchingFor h ∨
      late e ∧ s.mTxSetCache.exists? h = true

/-- The quorum sets that are received are cached, and only envelopes that need a set wait for it. -/
structure QuorumSide (s : PendingEnvelopes Peer) : Prop where
  waits : ∀ h, ∀ e ∈ s.mQuorumSetFetcher.fetchingFor h, getCompanionQuorumSetHash e = h ∧ 0 < e.slotIndex
  receiving : ∀ h ∈ s.mQuorumSetFetcher.receiving, s.mQsetCache.exists? h = true
  seen : s.mQuorumSetFetcher.Seen

/-- The transaction sets that are received are cached, and a set that is cached is not asked for. -/
structure TxSetSide (s : PendingEnvelopes Peer) : Prop where
  keyed : s.mTxSetCache.Keyed
  positive : ∀ h, ∀ e ∈ s.mTxSetFetcher.fetchingFor h, 0 < e.slotIndex
  receiving : ∀ h ∈ s.mTxSetFetcher.receiving, s.mTxSetCache.exists? h = true
  seen : s.mTxSetFetcher.Seen
  idle : ∀ h, s.mTxSetCache.exists? h = true → h ∉ s.mTxSetFetcher.receiving →
    s.mTxSetFetcher.getLastSeenSlotIndex h = 0

structure Watched (fromOpaque : Value → Option StellarValue) (late : Envelope → Prop)
    (s : PendingEnvelopes Peer) : Prop where
  quorum : QuorumSide s
  tx : TxSetSide s
  supplied : ∀ e, Fetching s e → Supplied fromOpaque late s e

omit [DecidableEq Peer] in
theorem Supplied.mono (h : Supplied fromOpaque late s e)
    (hcache : ∀ h, s.mQsetCache.exists? h = true → s'.mQsetCache.exists? h = true)
    (hquorum : e ∈ s.mQuorumSetFetcher.fetchingFor (getCompanionQuorumSetHash e) →
      s'.mQsetCache.exists? (getCompanionQuorumSetHash e) = true ∨
        e ∈ s'.mQuorumSetFetcher.fetchingFor (getCompanionQuorumSetHash e))
    (hmarked : ∀ h, Marked s.mTxSetCache h e.slotIndex → Marked s'.mTxSetCache h e.slotIndex)
    (htx : ∀ h, e ∈ s.mTxSetFetcher.fetchingFor h → e ∈ s'.mTxSetFetcher.fetchingFor h ∨
      late' e ∧ s'.mTxSetCache.exists? h = true)
    (hlate : late e → late' e ∧ ∀ h, s.mTxSetCache.exists? h = true → s'.mTxSetCache.exists? h = true) :
    Supplied fromOpaque late' s' e where
  qset := by
    rcases h.qset with hc | hw
    · exact .inl (hcache _ hc)
    · exact hquorum hw
  txSets hashes hhashes k hk := by
    rcases h.txSets hashes hhashes k hk with hm | hw | ⟨hl, hc⟩
    · exact .inl (hmarked k hm)
    · exact .inr (htx k hw)
    · exact .inr (.inr ⟨(hlate hl).1, (hlate hl).2 k hc⟩)

/-! ## Touching the caches -/

section Touch

omit [DecidableEq Peer]

@[simp] theorem mTxSetFetcher_touchFetchCache :
    (s.touchFetchCache fromOpaque envelope).mTxSetFetcher = s.mTxSetFetcher := by
  unfold touchFetchCache
  dsimp only
  split <;> split <;> rfl

@[simp] theorem mQuorumSetFetcher_touchFetchCache :
    (s.touchFetchCache fromOpaque envelope).mQuorumSetFetcher = s.mQuorumSetFetcher := by
  unfold touchFetchCache
  dsimp only
  split <;> split <;> rfl

@[simp] theorem exists?_mQsetCache_touchFetchCache (h : Hash) :
    (s.touchFetchCache fromOpaque envelope).mQsetCache.exists? h = s.mQsetCache.exists? h := by
  unfold touchFetchCache LruCache.exists?
  dsimp only
  split <;> split <;> simp

theorem mTxSetCache_touchFetchCache {hashes : List Hash} (h : getTxSetHashes fromOpaque envelope = some hashes) :
    (s.touchFetchCache fromOpaque envelope).mTxSetCache
      = hashes.foldl (touchTxSet envelope.slotIndex) s.mTxSetCache := by
  unfold touchFetchCache
  rw [h]
  dsimp only
  split <;> rfl

theorem mTxSetCache_touchFetchCache_none (h : getTxSetHashes fromOpaque envelope = none) :
    (s.touchFetchCache fromOpaque envelope).mTxSetCache = s.mTxSetCache := by
  unfold touchFetchCache
  rw [h]
  dsimp only
  split <;> rfl

@[simp] theorem exists?_mTxSetCache_touchFetchCache (h : Hash) :
    (s.touchFetchCache fromOpaque envelope).mTxSetCache.exists? h = s.mTxSetCache.exists? h := by
  cases hhashes : getTxSetHashes fromOpaque envelope with
  | none => rw [mTxSetCache_touchFetchCache_none hhashes]
  | some hashes => rw [mTxSetCache_touchFetchCache hhashes, exists?_touchTxSets]

theorem marked_touchFetchCache {h : Hash} {n : ℕ} (hm : Marked s.mTxSetCache h n) :
    Marked (s.touchFetchCache fromOpaque envelope).mTxSetCache h n := by
  cases hhashes : getTxSetHashes fromOpaque envelope with
  | none => rwa [mTxSetCache_touchFetchCache_none hhashes]
  | some hashes =>
    rw [mTxSetCache_touchFetchCache hhashes]
    exact marked_touchTxSets hm

theorem keyed_touchFetchCache (h : s.mTxSetCache.Keyed) :
    (s.touchFetchCache fromOpaque envelope).mTxSetCache.Keyed := by
  cases hhashes : getTxSetHashes fromOpaque envelope with
  | none => rwa [mTxSetCache_touchFetchCache_none hhashes]
  | some hashes =>
    rw [mTxSetCache_touchFetchCache hhashes]
    exact keyed_touchTxSets h

/-- Touching the caches for an envelope that is late keeps its transaction sets for it. -/
theorem Watched.touchFetchCache (h : Watched fromOpaque (· = envelope) s) :
    Watched fromOpaque (fun _ => False) (s.touchFetchCache fromOpaque envelope) where
  quorum := by
    constructor
    · simpa using h.quorum.waits
    · simpa using h.quorum.receiving
    · simpa using h.quorum.seen
  tx := by
    constructor
    · exact keyed_touchFetchCache h.tx.keyed
    · simpa using h.tx.positive
    · simpa using h.tx.receiving
    · simpa using h.tx.seen
    · simpa using h.tx.idle
  supplied e he := by
    have hs := h.supplied e (by
      unfold Fetching at he
      rwa [slot_congr mEnvelopes_touchFetchCache] at he)
    constructor
    · simpa using hs.qset
    · intro hashes hhashes k hk
      rcases hs.txSets hashes hhashes k hk with hm | hw | ⟨rfl, hc⟩
      · exact .inl (marked_touchFetchCache hm)
      · exact .inr (.inl (by simpa using hw))
      · left
        rw [mTxSetCache_touchFetchCache hhashes]
        exact marked_touchTxSets_of_mem hk hc

end Touch

/-! ## Starting to fetch -/

section StartFetch

variable {hashes : List Hash}

@[simp] theorem mQsetCache_startFetch :
    (s.startFetch messageHash fromOpaque envelope peers).mQsetCache = s.mQsetCache := by
  unfold startFetch
  dsimp only
  split <;> split <;> rfl

@[simp] theorem mTxSetCache_startFetch :
    (s.startFetch messageHash fromOpaque envelope peers).mTxSetCache = s.mTxSetCache := by
  unfold startFetch
  dsimp only
  split <;> split <;> rfl

theorem mQuorumSetFetcher_startFetch :
    (s.startFetch messageHash fromOpaque envelope peers).mQuorumSetFetcher
      = if s.mQsetCache.exists? (getCompanionQuorumSetHash envelope) then s.mQuorumSetFetcher
        else s.mQuorumSetFetcher.fetch messageHash (getCompanionQuorumSetHash envelope) envelope peers := by
  unfold startFetch
  dsimp only
  split <;> split <;> rfl

theorem mTxSetFetcher_startFetch (h : getTxSetHashes fromOpaque envelope = some hashes) :
    (s.startFetch messageHash fromOpaque envelope peers).mTxSetFetcher
      = hashes.foldl (fetchTxSet messageHash s.mTxSetCache envelope peers) s.mTxSetFetcher := by
  unfold startFetch
  rw [h]
  dsimp only
  split <;> rfl

theorem QuorumSide.startFetch (h : QuorumSide s) (hpos : 0 < envelope.slotIndex) :
    QuorumSide (s.startFetch messageHash fromOpaque envelope peers) := by
  constructor
  · intro k e he
    rw [mQuorumSetFetcher_startFetch] at he
    split at he
    · exact h.waits k e he
    · rcases ItemFetcher.mem_fetchingFor_fetch.mp he with he | ⟨rfl, rfl⟩
      · exact h.waits k e he
      · exact ⟨rfl, hpos⟩
  · intro k hk
    rw [mQsetCache_startFetch]
    rw [mQuorumSetFetcher_startFetch] at hk
    refine h.receiving k ?_
    split at hk
    · exact hk
    · rwa [ItemFetcher.receiving_fetch] at hk
  · rw [mQuorumSetFetcher_startFetch]
    split
    · exact h.seen
    · exact h.seen.fetch _ _

theorem TxSetSide.startFetch (h : TxSetSide s) (hhashes : getTxSetHashes fromOpaque envelope = some hashes)
    (hpos : 0 < envelope.slotIndex) :
    TxSetSide (s.startFetch messageHash fromOpaque envelope peers) := by
  constructor
  · rw [mTxSetCache_startFetch]
    exact h.keyed
  · intro k e he
    rw [mTxSetFetcher_startFetch hhashes, mem_fetchTxSets] at he
    rcases he with he | ⟨rfl, -, -⟩
    · exact h.positive k e he
    · exact hpos
  · intro k hk
    rw [mTxSetFetcher_startFetch hhashes, receiving_fetchTxSets] at hk
    rw [mTxSetCache_startFetch]
    exact h.receiving k hk
  · rw [mTxSetFetcher_startFetch hhashes]
    exact seen_fetchTxSets h.seen
  · intro k hk hout
    rw [mTxSetCache_startFetch] at hk
    rw [mTxSetFetcher_startFetch hhashes] at hout ⊢
    rw [receiving_fetchTxSets] at hout
    rw [getLastSeenSlotIndex_fetchTxSets hk]
    exact h.idle k hk hout

/-- What waits goes on waiting. -/
theorem Supplied.startFetch (h : Supplied fromOpaque late s e)
    (hhashes : getTxSetHashes fromOpaque envelope = some hashes) :
    Supplied fromOpaque late (s.startFetch messageHash fromOpaque envelope peers) e := by
  refine h.mono (fun k hk => ?_) (fun hw => .inr ?_) (fun k hk => ?_) (fun k hw => .inl ?_)
    fun hl => ⟨hl, fun k hk => ?_⟩
  · rwa [mQsetCache_startFetch]
  · rw [mQuorumSetFetcher_startFetch]
    split
    · exact hw
    · exact ItemFetcher.mem_fetchingFor_fetch.mpr (.inl hw)
  · rwa [mTxSetCache_startFetch]
  · rw [mTxSetFetcher_startFetch hhashes]
    exact mem_fetchTxSets.mpr (.inl hw)
  · rwa [mTxSetCache_startFetch]

/-- A new envelope waits for whatever is not cached; what is cached was touched for it. -/
theorem supplied_startFetch (hhashes : getTxSetHashes fromOpaque envelope = some hashes)
    (htouched : ∀ h ∈ hashes, s.mTxSetCache.exists? h = true → Marked s.mTxSetCache h envelope.slotIndex) :
    Supplied fromOpaque late (s.startFetch messageHash fromOpaque envelope peers) envelope where
  qset := by
    rw [mQsetCache_startFetch, mQuorumSetFetcher_startFetch]
    by_cases hc : s.mQsetCache.exists? (getCompanionQuorumSetHash envelope) = true
    · exact .inl hc
    · rw [if_neg hc]
      exact .inr (ItemFetcher.mem_fetchingFor_fetch.mpr (.inr ⟨rfl, rfl⟩))
  txSets hashes' hhashes' h hh := by
    obtain rfl := Option.some.inj (hhashes.symm.trans hhashes')
    rw [mTxSetCache_startFetch, mTxSetFetcher_startFetch hhashes, mem_fetchTxSets]
    cases hc : s.mTxSetCache.exists? h with
    | true => exact .inl (htouched h hh hc)
    | false => exact .inr (.inl (.inr ⟨rfl, hh, rfl⟩))

end StartFetch

/-! ## Receiving an envelope -/

omit [DecidableEq Peer] in
theorem fetching_insertFetching (h : Fetching (s.insertFetching envelope) e) :
    Fetching s e ∨ e = envelope := by
  unfold Fetching insertFetching at h
  rw [slot_setSlot] at h
  split at h
  case isTrue hslot =>
    rcases Finset.mem_insert.mp h with he | he
    · exact .inr he
    · left
      unfold Fetching
      rwa [← hslot]
  case isFalse => exact .inl h

omit [DecidableEq Peer] in
theorem fetching_envelopeReady (h : Fetching (s.envelopeReady envelope) e) : Fetching s e := by
  unfold Fetching envelopeReady at h
  rw [slot_setSlot] at h
  split at h
  case isTrue hslot =>
    unfold Fetching
    rw [← hslot]
    exact Finset.mem_of_mem_erase h
  case isFalse => exact h

omit [DecidableEq Peer] in
/-- The envelopes that are ready are no longer fetched, and nothing else changes. -/
theorem Watched.envelopeReady (h : Watched fromOpaque late s) :
    Watched fromOpaque late (s.envelopeReady envelope) where
  quorum := ⟨h.quorum.waits, h.quorum.receiving, h.quorum.seen⟩
  tx := ⟨h.tx.keyed, h.tx.positive, h.tx.receiving, h.tx.seen, h.tx.idle⟩
  supplied e he :=
    have hs := h.supplied e (fetching_envelopeReady he)
    ⟨hs.qset, hs.txSets⟩

theorem Watched.recvSCPEnvelope (h : Watched fromOpaque (· = envelope) s)
    (hsound : (s.slot envelope.slotIndex).Sound envelope.slotIndex) (hpos : 0 < envelope.slotIndex)
    {isNodeInQuorum : NodeID → Bool} (hquorum : isNodeInQuorum envelope.content.nodeID = true) :
    Watched fromOpaque (fun _ => False)
      (s.recvSCPEnvelope messageHash fromOpaque envelope isNodeInQuorum peers).1 := by
  have htouch := h.touchFetchCache
  rcases recvSCPEnvelope_cases messageHash fromOpaque s envelope isNodeInQuorum peers with
    ⟨hs', hout⟩ | ⟨-, ⟨hs', -⟩ | ⟨hs', -, -⟩ | ⟨hhashes, -, -, hnew⟩⟩
  · have hdiscarded : s.isDiscarded envelope = true := by
      rcases hout with hout | hout
      · rw [hquorum] at hout
        cases hout
      · exact hout
    -- what is discarded is not fetched, so that it cannot be late
    rw [hs']
    refine ⟨h.quorum, h.tx, fun e he => (h.supplied e he).mono (fun _ hk => hk) .inr (fun _ hk => hk)
      (fun _ hw => .inl hw) ?_⟩
    rintro rfl
    exact absurd (of_decide_eq_true hdiscarded) (hsound.fetching e he).2
  · rwa [hs']
  · rw [hs']
    exact htouch.envelopeReady
  · obtain ⟨hashes, hhashes⟩ := Option.isSome_iff_exists.mp hhashes
    have hu : Watched fromOpaque (fun _ => False)
        (((s.touchFetchCache fromOpaque envelope).insertFetching envelope).startFetch messageHash fromOpaque
          envelope peers) := by
      have hquorum' : QuorumSide ((s.touchFetchCache fromOpaque envelope).insertFetching envelope) :=
        ⟨htouch.quorum.waits, htouch.quorum.receiving, htouch.quorum.seen⟩
      have htx : TxSetSide ((s.touchFetchCache fromOpaque envelope).insertFetching envelope) :=
        ⟨htouch.tx.keyed, htouch.tx.positive, htouch.tx.receiving, htouch.tx.seen, htouch.tx.idle⟩
      refine ⟨hquorum'.startFetch hpos, htx.startFetch hhashes hpos, fun e he => ?_⟩
      unfold Fetching at he
      rw [slot_congr mEnvelopes_startFetch] at he
      rcases fetching_insertFetching he with he | rfl
      · have hs := htouch.supplied e he
        have hs' : Supplied fromOpaque (fun _ => False)
            ((s.touchFetchCache fromOpaque envelope).insertFetching envelope) e := ⟨hs.qset, hs.txSets⟩
        exact hs'.startFetch hhashes
      · refine supplied_startFetch hhashes fun k hk hc => ?_
        have hcached : s.mTxSetCache.exists? k = true :=
          (exists?_mTxSetCache_touchFetchCache k).symm.trans hc
        show Marked (s.touchFetchCache fromOpaque e).mTxSetCache k e.slotIndex
        rw [mTxSetCache_touchFetchCache hhashes]
        exact marked_touchTxSets_of_mem hk hcached
    rcases hnew with hs' | ⟨hs', -⟩
    · rwa [hs']
    · rw [hs']
      exact hu.envelopeReady

/-! ## Items that arrive -/

/-- Every envelope that is being fetched has `P`. -/
def FetchingAll (s : PendingEnvelopes Peer) (P : Envelope → Prop) : Prop :=
  ∀ it ∈ s.mEnvelopes.items, ∀ e ∈ it.2.mFetchingEnvelopes, P e

omit [DecidableEq Peer] in
theorem FetchingAll.of {P : Envelope → Prop} (h : FetchingAll s P) (he : Fetching s e) : P e := by
  unfold Fetching slot at he
  cases hget : s.mEnvelopes.get? e.slotIndex with
  | none =>
    rw [hget] at he
    cases he
  | some v =>
    rw [hget] at he
    exact h _ (SortedMap.get?_eq_some_iff.mp hget) e he

/-- A transaction set that is put again is not put for a slot before that of an envelope that needs it. -/
def Replaces (fromOpaque : Value → Option StellarValue) (s : PendingEnvelopes Peer) (hash : Hash)
    (lastSeenSlotIndex : ℕ) : Prop :=
  s.mTxSetCache.exists? hash = true → FetchingAll s fun e =>
    hash ∈ (getTxSetHashes fromOpaque e).getD [] → e.slotIndex ≤ lastSeenSlotIndex

omit [DecidableEq Peer] in
theorem Watched.addTxSet (h : Watched fromOpaque (fun _ => False) s) {hash : Hash} {lastSeenSlotIndex : ℕ}
    {txset : TxSetFrame} (hroom : s.mTxSetCache.Room hash) (hreplaces : Replaces fromOpaque s hash lastSeenSlotIndex) :
    Watched fromOpaque (fun _ => False) (s.addTxSet hash lastSeenSlotIndex txset) := by
  have hfind := LruCache.find?_put hroom (lastSeenSlotIndex, txset)
  have hexists : ∀ k, (s.mTxSetCache.put hash (lastSeenSlotIndex, txset)).exists? k = true ↔
      k = hash ∨ s.mTxSetCache.exists? k = true := by
    intro k
    unfold LruCache.exists?
    rw [hfind]
    by_cases hk : k = hash <;> simp [hk]
  refine ⟨⟨h.quorum.waits, h.quorum.receiving, h.quorum.seen⟩, ?_, fun e he => ?_⟩
  · constructor
    · exact h.tx.keyed.put _ _
    · intro k e he
      exact h.tx.positive k e ((ItemFetcher.fetchingFor_recv hash k) ▸ he)
    · intro k hk
      refine (hexists k).mpr ((ItemFetcher.mem_receiving_recv hk).imp_right fun hk => ?_)
      exact h.tx.receiving k hk
    · exact h.tx.seen.recv hash
    · intro k hk hout
      refine (ItemFetcher.getLastSeenSlotIndex_recv hash k).trans ?_
      rcases (hexists k).mp hk with rfl | hk
      · exact ItemFetcher.getLastSeenSlotIndex_of_not_recv hout
      · exact h.tx.idle k hk fun hin => hout (ItemFetcher.receiving_subset_recv hash hin)
  · have hs := h.supplied e he
    refine ⟨hs.qset, fun hashes hhashes k hk => ?_⟩
    rcases hs.txSets hashes hhashes k hk with hm | hw | ⟨hl, -⟩
    · left
      obtain ⟨item, hitem, hle⟩ := id hm
      unfold Marked
      rw [show (s.addTxSet hash lastSeenSlotIndex txset).mTxSetCache.find? k = _ from hfind k]
      by_cases heq : k = hash
      · rw [if_pos heq]
        refine ⟨_, rfl, (hreplaces (heq ▸ hm.exists?)).of he ?_⟩
        rwa [hhashes, Option.getD_some, ← heq]
      · rw [if_neg heq]
        exact ⟨item, hitem, hle⟩
    · right
      left
      exact (ItemFetcher.fetchingFor_recv hash k).symm ▸ hw
    · exact hl.elim

omit [DecidableEq Peer] in
theorem Watched.addSCPQuorumSet (h : Watched fromOpaque (fun _ => False) s) {hash : Hash}
    {q : Scp.SCPQuorumSet} (hroom : s.mQsetCache.Room hash) :
    Watched fromOpaque (fun _ => False) (s.addSCPQuorumSet hash q) := by
  have hexists : ∀ k, (s.mQsetCache.put hash q).exists? k = true ↔ k = hash ∨ s.mQsetCache.exists? k = true := by
    intro k
    unfold LruCache.exists?
    rw [LruCache.find?_put hroom]
    by_cases hk : k = hash <;> simp [hk]
  refine ⟨?_, ⟨h.tx.keyed, h.tx.positive, h.tx.receiving, h.tx.seen, h.tx.idle⟩, fun e he => ?_⟩
  · constructor
    · intro k e he
      exact h.quorum.waits k e ((ItemFetcher.fetchingFor_recv hash k) ▸ he)
    · intro k hk
      refine (hexists k).mpr ((ItemFetcher.mem_receiving_recv hk).imp_right fun hk => ?_)
      exact h.quorum.receiving k hk
    · exact h.quorum.seen.recv hash
  · have hs := h.supplied e he
    refine ⟨?_, hs.txSets⟩
    rcases hs.qset with hc | hw
    · exact .inl ((hexists _).mpr (.inr hc))
    · exact .inr ((ItemFetcher.fetchingFor_recv hash _).symm ▸ hw)

/-! ## Envelopes that are discarded -/

section Discard

omit [DecidableEq Peer]

theorem mTxSetCache_stopFetch : (s.stopFetch fromOpaque envelope).mTxSetCache = s.mTxSetCache := by
  unfold stopFetch
  dsimp only
  split <;> rfl

theorem mQsetCache_stopFetch : (s.stopFetch fromOpaque envelope).mQsetCache = s.mQsetCache := by
  unfold stopFetch
  dsimp only
  split <;> rfl

theorem mQuorumSetFetcher_stopFetch : (s.stopFetch fromOpaque envelope).mQuorumSetFetcher
    = s.mQuorumSetFetcher.stopFetch (getCompanionQuorumSetHash envelope) envelope := by
  unfold stopFetch
  dsimp only
  split <;> rfl

theorem mTxSetFetcher_stopFetch : (s.stopFetch fromOpaque envelope).mTxSetFetcher
    = ((getTxSetHashes fromOpaque envelope).getD []).foldl (fun fetcher h2 => fetcher.stopFetch h2 envelope)
        s.mTxSetFetcher := by
  unfold stopFetch
  dsimp only
  cases getTxSetHashes fromOpaque envelope <;> rfl

theorem Watched.stopFetch (h : Watched fromOpaque (fun _ => False) s) (hout : ¬ Fetching s envelope) :
    Watched fromOpaque (fun _ => False) (s.stopFetch fromOpaque envelope) := by
  refine ⟨?_, ?_, fun e he => ?_⟩
  · constructor
    · intro k e he
      rw [mQuorumSetFetcher_stopFetch, ItemFetcher.mem_fetchingFor_stopFetch] at he
      exact h.quorum.waits k e he.1
    · intro k hk
      rw [mQuorumSetFetcher_stopFetch, ItemFetcher.receiving_stopFetch] at hk
      rw [mQsetCache_stopFetch]
      exact h.quorum.receiving k hk
    · rw [mQuorumSetFetcher_stopFetch]
      exact h.quorum.seen.stopFetch _ _
  · constructor
    · rw [mTxSetCache_stopFetch]
      exact h.tx.keyed
    · intro k e he
      rw [mTxSetFetcher_stopFetch, mem_stopFetchAll] at he
      exact h.tx.positive k e he.1
    · intro k hk
      rw [mTxSetFetcher_stopFetch, receiving_stopFetchAll] at hk
      rw [mTxSetCache_stopFetch]
      exact h.tx.receiving k hk
    · rw [mTxSetFetcher_stopFetch]
      exact seen_stopFetchAll h.tx.seen
    · intro k hk hidle
      rw [mTxSetCache_stopFetch] at hk
      rw [mTxSetFetcher_stopFetch] at hidle ⊢
      rw [receiving_stopFetchAll] at hidle
      have hzero := h.tx.idle k hk hidle
      exact Nat.le_zero.mp (hzero ▸ getLastSeenSlotIndex_stopFetchAll_le)
  · unfold Fetching at he
    rw [slot_congr mEnvelopes_stopFetch] at he
    have hne : e ≠ envelope := fun heq => hout (heq ▸ he)
    refine (h.supplied e he).mono (fun k hk => ?_) (fun hw => .inr ?_) (fun k hk => ?_)
      (fun k hw => .inl ?_) False.elim
    · rwa [mQsetCache_stopFetch]
    · rw [mQuorumSetFetcher_stopFetch]
      exact ItemFetcher.mem_fetchingFor_stopFetch.mpr ⟨hw, fun heq => hne heq.2⟩
    · rwa [mTxSetCache_stopFetch]
    · rw [mTxSetFetcher_stopFetch]
      exact mem_stopFetchAll.mpr ⟨hw, fun heq => hne heq.2⟩

/-- With fewer envelopes being fetched there is less to supply. -/
theorem Watched.setSlot (h : Watched fromOpaque late s) {i : ℕ} {v : SlotEnvelopes}
    (hv : v.mFetchingEnvelopes ⊆ (s.slot i).mFetchingEnvelopes) :
    Watched fromOpaque late (s.setSlot i v) where
  quorum := ⟨h.quorum.waits, h.quorum.receiving, h.quorum.seen⟩
  tx := ⟨h.tx.keyed, h.tx.positive, h.tx.receiving, h.tx.seen, h.tx.idle⟩
  supplied e he := by
    have hs : Supplied fromOpaque late s e := by
      refine h.supplied e ?_
      unfold Fetching at he ⊢
      rw [slot_setSlot] at he
      split at he
      case isTrue hi => exact hi ▸ hv he
      case isFalse => exact he
    exact ⟨hs.qset, hs.txSets⟩

theorem Watched.discardSCPEnvelope (h : Watched fromOpaque (fun _ => False) s) :
    Watched fromOpaque (fun _ => False) (s.discardSCPEnvelope fromOpaque envelope) := by
  unfold PendingEnvelopes.discardSCPEnvelope
  split
  · exact h
  · refine (h.setSlot (Finset.erase_subset _ _)).stopFetch ?_
    unfold Fetching
    rw [slot_setSlot, if_pos rfl]
    exact Finset.notMem_erase _ _

theorem Watched.discardAll (h : Watched fromOpaque (fun _ => False) s) (envelopes : List Envelope) :
    Watched fromOpaque (fun _ => False)
      (envelopes.foldl (PendingEnvelopes.discardSCPEnvelope fromOpaque) s) := by
  induction envelopes generalizing s with
  | nil => exact h
  | cons e envelopes ih => exact ih h.discardSCPEnvelope

theorem mQsetCache_discardAll (envelopes : List Envelope) :
    (envelopes.foldl (PendingEnvelopes.discardSCPEnvelope fromOpaque) s).mQsetCache = s.mQsetCache := by
  induction envelopes generalizing s with
  | nil => rfl
  | cons e envelopes ih =>
    rw [List.foldl_cons, ih]
    unfold PendingEnvelopes.discardSCPEnvelope
    split
    · rfl
    · exact mQsetCache_stopFetch

end Discard

/-! ## Slots that are forgotten -/

section Forget

omit [DecidableEq Peer]

/-- Every transaction set that is being received has `P` in the cache. -/
def ReceivedAll (s : PendingEnvelopes Peer) (P : ℕ → Prop) : Prop :=
  ∀ h ∈ s.mTxSetFetcher.receiving, ∀ item ∈ s.mTxSetCache.find? h, P item.1

/-- Transaction sets expire, but none that is being received, and none that a fetched envelope of a slot
that stays needs. -/
theorem Watched.expire (h : Watched fromOpaque (fun _ => False) s) (expired : ℕ → Bool)
    (mEnvelopes : SortedMap ℕ SlotEnvelopes)
    (hreceived : s.ReceivedAll fun mark => expired mark = false)
    (hfetching : ∀ e, Fetching { s with mEnvelopes := mEnvelopes } e →
      Fetching s e ∧ ∀ mark, e.slotIndex ≤ mark → expired mark = false) :
    Watched fromOpaque (fun _ => False) { s with
      mEnvelopes := mEnvelopes
      mTxSetCache := s.mTxSetCache.eraseIf fun i => expired i.1 } := by
  have hfind := LruCache.find?_eraseIf h.tx.keyed fun i : ℕ × TxSetFrame => expired i.1
  refine ⟨⟨h.quorum.waits, h.quorum.receiving, h.quorum.seen⟩, ?_, fun e he => ?_⟩
  · refine ⟨h.tx.keyed.eraseIf _, h.tx.positive, fun k hk => ?_, h.tx.seen, fun k hk hout => ?_⟩
    · obtain ⟨item, hitem⟩ := (LruCache.exists?_eq k).mp (h.tx.receiving k hk)
      refine (LruCache.exists?_eq k).mpr ⟨item, ?_⟩
      rw [hfind, hitem]
      exact Option.filter_eq_some_iff.mpr ⟨rfl, by simp [hreceived k hk item hitem]⟩
    · obtain ⟨item, hitem⟩ := (LruCache.exists?_eq k).mp hk
      rw [hfind] at hitem
      exact h.tx.idle k ((LruCache.exists?_eq k).mpr ⟨item, (Option.filter_eq_some_iff.mp hitem).1⟩) hout
  · obtain ⟨he, hlater⟩ := hfetching e he
    have hs := h.supplied e he
    refine ⟨hs.qset, fun hashes hhashes k hk => ?_⟩
    rcases hs.txSets hashes hhashes k hk with ⟨item, hitem, hle⟩ | hw | ⟨hl, -⟩
    · refine .inl ⟨item, ?_, hle⟩
      rw [hfind, hitem]
      exact Option.filter_eq_some_iff.mpr ⟨rfl, by simp [hlater item.1 hle]⟩
    · exact .inr (.inl hw)
    · exact hl.elim

theorem Watched.eraseBelow (h : Watched fromOpaque (fun _ => False) s) {slotIndex : ℕ}
    (hreceived : s.ReceivedAll fun mark => mark = 0 ∨ slotIndex ≤ mark) :
    Watched fromOpaque (fun _ => False) (s.eraseBelow slotIndex) := by
  refine h.expire (fun mark => mark ≠ 0 && mark < slotIndex) _ (fun k hk item hitem => ?_) fun e he => ?_
  · rcases hreceived k hk item hitem with hzero | hle
    · simp [hzero]
    · simp [not_lt.mpr hle]
  · unfold Fetching slot at he
    dsimp only at he
    rw [SortedMap.get?_eraseBelow] at he
    split at he
    case isTrue => cases he
    case isFalse hslot =>
      refine ⟨he, fun mark hle => ?_⟩
      simp [not_lt.mpr ((not_lt.mp hslot).trans hle)]

theorem Watched.slotClosed (h : Watched fromOpaque (fun _ => False) s) {slotIndex : ℕ}
    (hfetched : MAX_SLOTS_TO_REMEMBER < slotIndex →
      s.FetchingAll fun e => slotIndex - MAX_SLOTS_TO_REMEMBER ≤ e.slotIndex)
    (hreceived : MAX_SLOTS_TO_REMEMBER < slotIndex →
      s.ReceivedAll fun mark => mark ≠ slotIndex - MAX_SLOTS_TO_REMEMBER) :
    Watched fromOpaque (fun _ => False) (s.slotClosed slotIndex) := by
  unfold PendingEnvelopes.slotClosed
  split
  case isFalse => exact h
  case isTrue hslot =>
    have hexpired := h.expire (fun mark => decide (mark = slotIndex - MAX_SLOTS_TO_REMEMBER))
      (s.mEnvelopes.erase (slotIndex - MAX_SLOTS_TO_REMEMBER))
      (fun k hk item hitem => by simpa using hreceived hslot k hk item hitem) fun e he => by
        unfold Fetching slot at he
        dsimp only at he
        rw [SortedMap.get?_erase] at he
        split at he
        case isTrue => cases he
        case isFalse hne =>
          have hle : slotIndex - MAX_SLOTS_TO_REMEMBER ≤ e.slotIndex := (hfetched hslot).of he
          refine ⟨he, fun mark hmark => ?_⟩
          have hlt := lt_of_le_of_ne hle (Ne.symm hne)
          simpa using (hlt.trans_le hmark).ne'
    exact ⟨⟨hexpired.quorum.waits, hexpired.quorum.receiving, hexpired.quorum.seen⟩,
      ⟨hexpired.tx.keyed, hexpired.tx.positive, hexpired.tx.receiving, hexpired.tx.seen, hexpired.tx.idle⟩,
      fun e he => ⟨(hexpired.supplied e he).qset, (hexpired.supplied e he).txSets⟩⟩

end Forget

/-! ## The fetchers on their own -/

section Fetchers

omit [DecidableEq Peer]

variable {fetcher : ItemFetcher Peer Contents}

theorem Watched.sameTxSetFetcher (h : Watched fromOpaque late s) (hsame : fetcher.SameWaiting s.mTxSetFetcher) :
    Watched fromOpaque late { s with mTxSetFetcher := fetcher } where
  quorum := ⟨h.quorum.waits, h.quorum.receiving, h.quorum.seen⟩
  tx := by
    refine ⟨h.tx.keyed, fun k e he => ?_, fun k hk => ?_, fun k e he => ?_, fun k hk hout => ?_⟩
    · exact h.tx.positive k e (hsame.fetchingFor k ▸ he)
    · exact h.tx.receiving k (hsame.receiving ▸ hk)
    · rw [hsame.getLastSeenSlotIndex k]
      exact h.tx.seen k e (hsame.fetchingFor k ▸ he)
    · refine (hsame.getLastSeenSlotIndex k).trans (h.tx.idle k hk ?_)
      exact fun hin => hout (hsame.receiving.symm ▸ hin)
  supplied e he := by
    have hs := h.supplied e he
    refine ⟨hs.qset, fun hashes hhashes k hk => ?_⟩
    rw [hsame.fetchingFor k]
    exact hs.txSets hashes hhashes k hk

theorem Watched.sameQuorumSetFetcher (h : Watched fromOpaque late s)
    (hsame : fetcher.SameWaiting s.mQuorumSetFetcher) :
    Watched fromOpaque late { s with mQuorumSetFetcher := fetcher } where
  quorum := by
    refine ⟨fun k e he => ?_, fun k hk => ?_, fun k e he => ?_⟩
    · exact h.quorum.waits k e (hsame.fetchingFor k ▸ he)
    · exact h.quorum.receiving k (hsame.receiving ▸ hk)
    · rw [hsame.getLastSeenSlotIndex k]
      exact h.quorum.seen k e (hsame.fetchingFor k ▸ he)
  tx := ⟨h.tx.keyed, h.tx.positive, h.tx.receiving, h.tx.seen, h.tx.idle⟩
  supplied e he := by
    have hs := h.supplied e he
    refine ⟨?_, hs.txSets⟩
    rw [hsame.fetchingFor]
    exact hs.qset

/-- A clean-up below `slotIndex`, when no envelope below is being fetched. -/
theorem Watched.txSetCleanUp (h : Watched fromOpaque (fun _ => False) s) {slotIndex : ℕ} {posted : List ℕ}
    (hfetched : s.FetchingAll fun e => slotIndex ≤ e.slotIndex) :
    Watched fromOpaque (fun _ => False) { s with mTxSetFetcher :=
      { s.mTxSetFetcher with posted := posted }.stopFetchingBelowInternal slotIndex } where
  quorum := ⟨h.quorum.waits, h.quorum.receiving, h.quorum.seen⟩
  tx := by
    refine ⟨h.tx.keyed, fun k e he => ?_, h.tx.receiving, ?_, fun k hk hout => ?_⟩
    · exact h.tx.positive k e (ItemFetcher.mem_fetchingFor_stopFetchingBelowInternal.mp he).1
    · exact ItemFetcher.Seen.stopFetchingBelowInternal (s := { s.mTxSetFetcher with posted := posted })
        h.tx.seen slotIndex
    · have hzero : ItemFetcher.getLastSeenSlotIndex { s.mTxSetFetcher with posted := posted } k = 0 :=
        h.tx.idle k hk hout
      exact Nat.le_zero.mp (hzero ▸ ItemFetcher.getLastSeenSlotIndex_stopFetchingBelowInternal_le _ k)
  supplied e he := by
    refine (h.supplied e he).mono (fun _ hk => hk) .inr (fun _ hk => hk) (fun k hw => .inl ?_) False.elim
    exact ItemFetcher.mem_fetchingFor_stopFetchingBelowInternal.mpr ⟨hw, hfetched.of he⟩

theorem Watched.quorumSetCleanUp (h : Watched fromOpaque (fun _ => False) s) {slotIndex : ℕ}
    {posted : List ℕ} (hfetched : s.FetchingAll fun e => slotIndex ≤ e.slotIndex) :
    Watched fromOpaque (fun _ => False) { s with mQuorumSetFetcher :=
      { s.mQuorumSetFetcher with posted := posted }.stopFetchingBelowInternal slotIndex } where
  quorum := by
    refine ⟨fun k e he => ?_, h.quorum.receiving, ?_⟩
    · exact h.quorum.waits k e (ItemFetcher.mem_fetchingFor_stopFetchingBelowInternal.mp he).1
    · exact ItemFetcher.Seen.stopFetchingBelowInternal (s := { s.mQuorumSetFetcher with posted := posted })
        h.quorum.seen slotIndex
  tx := ⟨h.tx.keyed, h.tx.positive, h.tx.receiving, h.tx.seen, h.tx.idle⟩
  supplied e he := by
    refine (h.supplied e he).mono (fun _ hk => hk) (fun hw => .inr ?_) (fun _ hk => hk) (fun _ hw => .inl hw)
      False.elim
    exact ItemFetcher.mem_fetchingFor_stopFetchingBelowInternal.mpr ⟨hw, hfetched.of he⟩

/-- A turn of the loop makes the envelope late that it takes from its tracker. -/
theorem Watched.txSetTurn (h : Watched fromOpaque (fun _ => False) s) :
    Watched fromOpaque (fun e => s.mTxSetFetcher.popped = some e)
      { s with mTxSetFetcher := s.mTxSetFetcher.recvNext } where
  quorum := ⟨h.quorum.waits, h.quorum.receiving, h.quorum.seen⟩
  tx := by
    refine ⟨h.tx.keyed, fun k e he => ?_, fun k hk => ?_, h.tx.seen.recvNext, fun k hk hout => ?_⟩
    · exact h.tx.positive k e (ItemFetcher.fetchingFor_recvNext_subset k he)
    · exact h.tx.receiving k (ItemFetcher.receiving_recvNext_subset hk)
    · by_cases hin : k ∈ s.mTxSetFetcher.receiving
      · exact (ItemFetcher.left_recvNext hin hout).2.2.2
      · exact Nat.le_zero.mp (h.tx.idle k hk hin ▸ ItemFetcher.getLastSeenSlotIndex_recvNext_le k)
  supplied e he := by
    refine (h.supplied e he).mono (fun _ hk => hk) .inr (fun _ hk => hk) (fun k hw => ?_) False.elim
    rcases ItemFetcher.mem_fetchingFor_recvNext hw with hw | ⟨hpopped, hreceiving⟩
    · exact .inl hw
    · exact .inr ⟨hpopped, h.tx.receiving k hreceiving⟩

/-- The quorum set of the envelope that is taken from its tracker is cached. -/
theorem Watched.quorumSetTurn (h : Watched fromOpaque (fun _ => False) s) :
    Watched fromOpaque (fun _ => False) { s with mQuorumSetFetcher := s.mQuorumSetFetcher.recvNext } where
  quorum := by
    refine ⟨fun k e he => ?_, fun k hk => ?_, h.quorum.seen.recvNext⟩
    · exact h.quorum.waits k e (ItemFetcher.fetchingFor_recvNext_subset k he)
    · exact h.quorum.receiving k (ItemFetcher.receiving_recvNext_subset hk)
  tx := ⟨h.tx.keyed, h.tx.positive, h.tx.receiving, h.tx.seen, h.tx.idle⟩
  supplied e he := by
    refine (h.supplied e he).mono (fun _ hk => hk) (fun hw => ?_) (fun _ hk => hk) (fun _ hw => .inl hw)
      False.elim
    rcases ItemFetcher.mem_fetchingFor_recvNext hw with hw | ⟨-, hreceiving⟩
    · exact .inr hw
    · exact .inl (h.quorum.receiving _ hreceiving)

theorem Watched.late_mono (h : Watched fromOpaque late s) (hlate : ∀ e, late e → late' e) :
    Watched fromOpaque late' s :=
  ⟨h.quorum, h.tx, fun e he => (h.supplied e he).mono (fun _ hk => hk) .inr (fun _ hk => hk)
    (fun _ hw => .inl hw) fun hl => ⟨hlate e hl, fun _ hk => hk⟩⟩

end Fetchers

end PendingEnvelopes

end ZaggCore.Herder.Staging
