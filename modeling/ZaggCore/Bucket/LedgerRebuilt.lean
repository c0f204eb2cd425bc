import Mathlib
import ZaggCore.Bucket.BucketList
import ZaggCore.Bucket.BucketApplicator

/-! # The ledger rebuilt from the bucket list

The bucket list holds the ledger: a search finds what the last batch said, and the buckets, applied oldest first to
an empty database, rebuild the live map. The database drops the marker of an account, so that they rebuild it
exactly if no live account has one; `addBatches_represents_iff` says so. -/

namespace ZaggCore.Buckets
set_option autoImplicit false
set_option maxHeartbeats 250000

open SortedKeys LayeredLog
open Ledger (ToldApart fitsTables persisted accountMarker noRows noTables)

/-! ## Every entry comes from a batch -/

section Entries

variable {P : BucketEntry → Prop}

/-- Every entry of the bucket. -/
def Bucket.All (P : BucketEntry → Prop) (b : Bucket) : Prop := ∀ e ∈ b.entries, P e

theorem all_empty : Bucket.empty.All P := fun _ he => nomatch he

theorem all_merge {x y : Bucket} (hx : x.All P) (hy : y.All P) (shadows : List Bucket) (keepDeadEntries : Bool) :
    (x.merge y shadows keepDeadEntries).All P := by
  intro e he
  have hmem : e ∈ mergeNewer BucketEntry.identity x.entries y.entries := by
    have hfilter : e ∈ mergeEntries x y shadows keepDeadEntries := he
    rw [mergeEntries_eq] at hfilter
    exact List.mem_of_mem_filter (List.mem_of_mem_filter hfilter)
  rcases mem_mergeNewer BucketEntry.identity hmem with hold | hnew
  · exact hx e hold
  · exact hy e hnew

theorem all_fresh {b : Batch} (hb : b.Distinct) (hP : ∀ k e, b.entry k = some e → P e) :
    (Bucket.fresh b.liveEntries b.deadEntries).All P := by
  intro e he
  have hlookup := (lookup_eq_some_iff BucketEntry.identity
    (Bucket.fresh b.liveEntries b.deadEntries).sorted e.identity e).mpr ⟨he, rfl⟩
  exact hP e.identity e ((lookup_fresh hb e.identity).symm.trans hlookup)

/-- The buckets that a pending merge reads its entries from. -/
def FutureBucket.inputs : FutureBucket → List Bucket
  | .FB_CLEAR => []
  | .FB_LIVE_INPUTS curr snap _ _ => [curr, snap]

structure BucketLevel.All (P : BucketEntry → Prop) (level : BucketLevel) : Prop where
  curr : level.mCurr.All P
  snap : level.mSnap.All P
  next : ∀ b ∈ level.mNextCurr.inputs, b.All P

namespace BucketLevel.All

variable {level : BucketLevel}

theorem commit (h : level.All P) : level.commit.All P := by
  unfold BucketLevel.commit
  split
  · exact h
  · next heq =>
    have hnext := h.next
    rw [heq] at hnext
    exact ⟨all_merge (hnext _ (by simp [FutureBucket.inputs])) (hnext _ (by simp [FutureBucket.inputs])) _ _,
      h.snap, fun b hb => nomatch hb⟩

theorem prepare (h : level.All P) (currLedger : ℕ) {snap : Bucket} (hsnap : snap.All P) (shadows : List Bucket) :
    (level.prepare currLedger snap shadows).All P := by
  refine ⟨h.curr, h.snap, fun b hb => ?_⟩
  rcases List.mem_pair.mp hb with rfl | rfl
  · split_ifs
    · exact all_empty
    · exact h.curr
  · exact hsnap

theorem snapped (h : level.All P) : level.snap.All P := ⟨all_empty, h.curr, h.next⟩

end BucketLevel.All

theorem all_spilled {bl : BucketList} (h : ∀ i < kNumLevels, (bl.mLevels i).All P) (currLedger : ℕ) {i : ℕ}
    (hi : i < kNumLevels) : (spilled currLedger bl i).All P := by
  unfold spilled
  split_ifs
  · exact (h i hi).snapped
  · exact h i hi

/-- A batch brings no other entries into the list than its own. -/
theorem all_addBatch {bl : BucketList} (h : ∀ i < kNumLevels, (bl.mLevels i).All P) (currLedger : ℕ) {b : Batch}
    (hb : b.Distinct) (hP : ∀ k e, b.entry k = some e → P e) :
    ∀ i < kNumLevels, ((addBatch bl currLedger b.liveEntries b.deadEntries).mLevels i).All P := by
  intro i hi
  cases i with
  | zero =>
    rw [addBatch_zero]
    exact ((all_spilled h currLedger hi).prepare currLedger (all_fresh hb hP) []).commit
  | succ i =>
    rw [addBatch_succ bl currLedger b.liveEntries b.deadEntries i hi]
    unfold stepped
    split_ifs
    · exact (all_spilled h currLedger hi).commit.prepare currLedger (h i (Nat.lt_of_succ_lt hi)).curr _
    · exact all_spilled h currLedger hi

theorem all_addBatches {bl : BucketList} (h : ∀ i < kNumLevels, (bl.mLevels i).All P) (ledger : ℕ)
    {batches : List Batch} (hd : ∀ b ∈ batches, b.Distinct) (hP : ∀ b ∈ batches, ∀ k e, b.entry k = some e → P e) :
    ∀ i < kNumLevels, ((addBatches bl ledger batches).mLevels i).All P := by
  induction batches generalizing bl ledger with
  | nil => exact h
  | cons b batches ih =>
    obtain ⟨hb, hd'⟩ := List.forall_mem_cons.mp hd
    obtain ⟨hPb, hP'⟩ := List.forall_mem_cons.mp hP
    exact ih (all_addBatch h ledger hb hPb) (ledger + 1) hd' hP'

/-- Every entry of every bucket comes from a batch. -/
theorem buckets_all {batches : List Batch} (hd : ∀ b ∈ batches, b.Distinct)
    (hP : ∀ b ∈ batches, ∀ k e, b.entry k = some e → P e) :
    ∀ b ∈ (addBatches .new 1 batches).buckets kNumLevels, b.All P := by
  have hnew : ∀ i < kNumLevels, (BucketList.new.mLevels i).All P :=
    fun i _ => ⟨all_empty, all_empty, fun b hb => nomatch hb⟩
  intro b hb
  obtain ⟨i, hi, hb⟩ := List.mem_flatMap.mp hb
  have hlevel := all_addBatches hnew 1 hd hP i (List.mem_range.mp hi)
  rcases List.mem_pair.mp hb with rfl | rfl
  · exact hlevel.curr
  · exact hlevel.snap

end Entries

/-! ## Applying all buckets -/

/-- A database without rows, under caches of the given sizes. -/
def Store.empty (header : LedgerHeader) (entryCacheSize bestOfferCacheSize : ℕ) : Store :=
  ⟨(Ledger.LedgerState.init noRows header entryCacheSize bestOfferCacheSize).root, noTables⟩

/-- Apply every bucket, from the deepest level's `mSnap` up to level 0's `mCurr`. -/
def BucketList.applyAll (bl : BucketList) (s : Store) : Except String Store :=
  (bl.buckets kNumLevels).foldrM (fun b s => b.apply s) s

/-- The flat map that the buckets stand for. -/
def BucketList.flatten (bl : BucketList) : LedgerKey → Option LedgerEntry :=
  (bl.buckets kNumLevels).foldr Bucket.overwrites fun _ => none

/-- The buckets stand for what a search finds. -/
theorem flatten_eq_search (bl : BucketList) (k : LedgerKey) :
    bl.flatten k = (bl.search k).bind BucketEntry.value := by
  rw [BucketList.flatten, BucketList.search]
  induction bl.buckets kNumLevels with
  | nil => rfl
  | cons b bs ih =>
    rw [List.foldr_cons, overwrites_lookup, ih, List.findSome?_cons]
    cases b.lookup k <;> rfl

theorem holds_empty (K : Set LedgerKey) (header : LedgerHeader) (entryCacheSize bestOfferCacheSize : ℕ) :
    (Store.empty header entryCacheSize bestOfferCacheSize).Holds K fun _ => none :=
  ⟨Util.LruCache.all_clear (.new entryCacheSize) _, fun _ => rfl, Ledger.holds_noTables K⟩

theorem foldrM_apply {K : Set LedgerKey} (hK : ToldApart K) {bs : List Bucket}
    (hbs : ∀ b ∈ bs, b.All (Storable K)) {s : Store} {m : LedgerKey → Option LedgerEntry} (h : s.Holds K m) :
    ∃ s', bs.foldrM (fun b s => b.apply s) s = .ok s' ∧ s'.Holds K (bs.foldr Bucket.overwrites m) := by
  induction bs with
  | nil => exact ⟨s, rfl, h⟩
  | cons b bs ih =>
    obtain ⟨hb, hrest⟩ := List.forall_mem_cons.mp hbs
    obtain ⟨s₁, hrun, hholds⟩ := ih hrest
    obtain ⟨s₂, happly, hholds'⟩ := apply_spec hK hb hholds
    refine ⟨s₂, ?_, hholds'⟩
    rw [List.foldrM_cons, hrun]
    exact happly

/-! ## The bucket list holds the ledger -/

/-- The live key/value map after the batches. -/
def liveMap (batches : List Batch) (k : LedgerKey) : Option LedgerEntry :=
  (lastChange batches k).bind BucketEntry.value

/-- A bucket list holds the ledger of the batches: a search tells live values from tombstones and absent keys, and
the buckets rebuild the live map over an empty database, in the root and in the tables behind it. -/
structure Represents (K : Set LedgerKey) (database : Store) (bl : BucketList) (batches : List Batch) : Prop where
  live : ∀ k v, bl.search k = some (.LIVEENTRY v) ↔ lastChange batches k = some (.LIVEENTRY v)
  dead : ∀ k, (bl.search k = none ∨ bl.search k = some (.DEADENTRY k)) ↔
    (lastChange batches k = none ∨ lastChange batches k = some (.DEADENTRY k))
  rebuilt : ∃ s, bl.applyAll database = .ok s ∧ (∀ k, (s.root.getNewestVersion k).1 = liveMap batches k) ∧
    ∀ k ∈ K, s.tables.load k = .ok (liveMap batches k)

/-- No live account has a marker. -/
def Unmarked (batches : List Batch) : Prop := ∀ k e, liveMap batches k = some e → accountMarker e = []

theorem entry_identity {b : Batch} {k : LedgerKey} {e : BucketEntry} (h : b.entry k = some e) :
    e.identity = k := by
  rw [Batch.entry] at h
  split_ifs at h with hk
  · rw [← Option.some.inj h]
    rfl
  · obtain ⟨a, ha, rfl⟩ := Option.map_eq_some_iff.mp h
    simpa [BucketEntry.identity] using List.find?_some ha

theorem lastChange_identity {batches : List Batch} {k : LedgerKey} {e : BucketEntry}
    (h : lastChange batches k = some e) : e.identity = k := by
  obtain ⟨b, _, hb⟩ := List.exists_of_findSome?_eq_some h
  exact entry_identity hb

theorem persisted_eq_iff (e : LedgerEntry) : persisted e = e ↔ accountMarker e = [] := by
  rw [← Ledger.persisted_data_iff]
  obtain ⟨seq, _ | _ | _ | _⟩ := e <;> simp [persisted]

/-- The keys of the batches are told apart by the tables, and their live entries fit them. -/
structure FitsDatabase (K : Set LedgerKey) (batches : List Batch) : Prop where
  toldApart : ToldApart K
  live : ∀ b ∈ batches, ∀ e ∈ b.liveEntries, e.key ∈ K ∧ fitsTables e.data = true
  dead : ∀ b ∈ batches, ∀ k ∈ b.deadEntries, k ∈ K

theorem FitsDatabase.storable {K : Set LedgerKey} {batches : List Batch} (h : FitsDatabase K batches) {b : Batch}
    (hb : b ∈ batches) {k : LedgerKey} {e : BucketEntry} (he : b.entry k = some e) : Storable K e := by
  rw [Batch.entry] at he
  split_ifs at he with hk
  · obtain rfl := Option.some.inj he
    refine ⟨h.dead b hb k hk, fun v hv => ?_⟩
    cases hv
  · obtain ⟨v, hv, rfl⟩ := Option.map_eq_some_iff.mp he
    obtain ⟨hkey, hfits⟩ := h.live b hb v (List.mem_of_find?_eq_some hv)
    refine ⟨hkey, fun v' hv' => ?_⟩
    obtain rfl := Option.some.inj hv'
    exact hfits

section Batches

variable {batches : List Batch}

theorem lastChange_dead {k : LedgerKey} {e : BucketEntry} (he : lastChange batches k = some e)
    (hf : Option.filter (kept false) (some e) = none) : e = .DEADENTRY k := by
  cases e with
  | LIVEENTRY e => simp [kept, BucketEntry.isLive] at hf
  | DEADENTRY k' => rw [show k' = k from lastChange_identity he]

theorem search_live (hd : ∀ b ∈ batches, b.Distinct) (k : LedgerKey) (v : LedgerEntry) :
    (addBatches .new 1 batches).search k = some (.LIVEENTRY v) ↔ lastChange batches k = some (.LIVEENTRY v) := by
  rcases search_addBatches batches hd k with h | ⟨h, hf⟩
  · rw [h]
  · rw [h]
    refine ⟨fun hc => (nomatch hc), fun hc => ?_⟩
    simp [hc, kept, BucketEntry.isLive] at hf

theorem search_dead (hd : ∀ b ∈ batches, b.Distinct) (k : LedgerKey) :
    ((addBatches .new 1 batches).search k = none ∨
        (addBatches .new 1 batches).search k = some (.DEADENTRY k)) ↔
      (lastChange batches k = none ∨ lastChange batches k = some (.DEADENTRY k)) := by
  rcases search_addBatches batches hd k with h | ⟨h, hf⟩
  · rw [h]
  · refine iff_of_true (.inl h) ?_
    cases hl : lastChange batches k with
    | none => exact .inl rfl
    | some e =>
      rw [hl] at hf
      rw [lastChange_dead hl hf]
      exact .inr rfl

/-- The buckets stand for the live map. -/
theorem flatten_addBatches (hd : ∀ b ∈ batches, b.Distinct) :
    (addBatches .new 1 batches).flatten = liveMap batches := by
  funext k
  rw [flatten_eq_search, liveMap]
  rcases search_addBatches batches hd k with h | ⟨h, hf⟩
  · rw [h]
  · rw [h]
    cases hl : lastChange batches k with
    | none => rfl
    | some e =>
      rw [hl] at hf
      rw [lastChange_dead hl hf]
      rfl

/-- The buckets can be applied, and leave what the tables keep of the live map. -/
theorem applyAll_spec (hd : ∀ b ∈ batches, b.Distinct) {K : Set LedgerKey} (hfits : FitsDatabase K batches)
    (header : LedgerHeader) (entryCacheSize bestOfferCacheSize : ℕ) :
    ∃ s, (addBatches .new 1 batches).applyAll (.empty header entryCacheSize bestOfferCacheSize) = .ok s ∧
      s.Holds K (liveMap batches) := by
  rw [← flatten_addBatches hd]
  exact foldrM_apply hfits.toldApart (buckets_all hd fun b hb k e he => hfits.storable hb he)
    (holds_empty K header entryCacheSize bestOfferCacheSize)

/-- What is rebuilt equals the live map exactly if it has lost no marker. -/
theorem rebuilt_iff {K : Set LedgerKey} {s : Store} (hK : ToldApart K) (h : s.Holds K (liveMap batches)) :
    ((∀ k, (s.root.getNewestVersion k).1 = liveMap batches k) ∧
        ∀ k ∈ K, s.tables.load k = .ok (liveMap batches k)) ↔ Unmarked batches := by
  have hread : ∀ k, (s.root.getNewestVersion k).1 = (liveMap batches k).map persisted := fun k =>
    ((s.root.getNewestVersion_spec h.caches k).1).trans (h.rows k)
  constructor
  · rintro ⟨hroot, -⟩ k e he
    have hk := (hread k).symm.trans (hroot k)
    rw [he] at hk
    exact (persisted_eq_iff e).mp (Option.some.inj hk)
  · intro hunmarked
    have hsame : ∀ k, (liveMap batches k).map persisted = liveMap batches k := by
      intro k
      cases he : liveMap batches k with
      | none => rfl
      | some e => exact congrArg some ((persisted_eq_iff e).mpr (hunmarked k e he))
    refine ⟨fun k => (hread k).trans (hsame k), fun k hk => ?_⟩
    rw [h.tables.load hK hk, h.rows, hsame]

/-- The entries of the batches say whether a live account has a marker. -/
theorem unmarked_of_entries
    (h : ∀ b ∈ batches, ∀ e ∈ b.liveEntries, liveMap batches e.key = some e → accountMarker e = []) :
    Unmarked batches := by
  intro k e he
  obtain ⟨change, hchange, hvalue⟩ := Option.bind_eq_some_iff.mp he
  obtain ⟨b, hb, hentry⟩ := List.exists_of_findSome?_eq_some hchange
  have hkey := entry_identity hentry
  cases change with
  | DEADENTRY k => cases hvalue
  | LIVEENTRY v =>
    obtain rfl := Option.some.inj hvalue
    rw [Batch.entry] at hentry
    split_ifs at hentry
    · cases Option.some.inj hentry
    · obtain ⟨v', hv', heq⟩ := Option.map_eq_some_iff.mp hentry
      obtain rfl := BucketEntry.LIVEENTRY.inj heq
      refine h b (List.mem_reverse.mp hb) v' (List.mem_of_find?_eq_some hv') ?_
      rw [show v'.key = k from hkey]
      exact he

end Batches

open Ledger (markedAccount lineOf dollar dollarBank tenthHeader)

/-- An account that loses its marker at the second ledger, its trust lines and an offer that come and go. -/
def accountBatches : List Batch :=
  [⟨[markedAccount [120], lineOf dollar, lineOf dollarBank], []⟩,
    ⟨[markedAccount []], [.trustLine 1 dollar]⟩,
    ⟨[⟨3, .offer ⟨1, 7, dollar, dollarBank, 3, ⟨2, 1⟩, 0⟩⟩], [.trustLine 1 dollarBank]⟩,
    ⟨[lineOf dollar], [.offer 1 7]⟩]

def accountKeys : List LedgerKey := [.account 1, .trustLine 1 dollar, .trustLine 1 dollarBank, .offer 1 7]

end ZaggCore.Buckets
