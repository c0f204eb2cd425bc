import Mathlib
import ZaggCore.Xdr.LedgerEntries
import ZaggCore.Foundations.SortedKeys

/-! # Buckets and their merge

The model of `bucket/Bucket.cpp` with its input and output iterators. A bucket is the list of entries
its file holds, strictly sorted by identity; the input iterator over a file is the list of entries it
has yet to yield. Hashes, temporary files and timers are left out. `Bucket.lookup_merge` is the one
fact about merging that the bucket list uses. -/

namespace ZaggCore.Buckets
set_option autoImplicit false
set_option maxHeartbeats 250000

open SortedKeys

/-- `union BucketEntry`. -/
inductive BucketEntry where
  | LIVEENTRY (liveEntry : LedgerEntry)
  | DEADENTRY (deadEntry : LedgerKey)
  deriving DecidableEq, Repr

/-- What `LedgerEntryIdCmp` compares of an entry. -/
def BucketEntry.identity : BucketEntry → LedgerKey
  | .LIVEENTRY e => e.key
  | .DEADENTRY k => k

def BucketEntry.isLive : BucketEntry → Bool
  | .LIVEENTRY _ => true
  | .DEADENTRY _ => false

/-- `BucketEntryIdCmp`. -/
def bucketEntryIdCmp (a b : BucketEntry) : Bool := a.identity < b.identity

@[simp] theorem bucketEntryIdCmp_iff (a b : BucketEntry) :
    bucketEntryIdCmp a b = true ↔ a.identity < b.identity := by
  simp [bucketEntryIdCmp]

/-! ## The output iterator -/

structure BucketOutputIterator where
  mKeepDeadEntries : Bool
  mOut : List BucketEntry
  mBuf : Option BucketEntry

def BucketOutputIterator.new (keepDeadEntries : Bool) : BucketOutputIterator :=
  ⟨keepDeadEntries, [], none⟩

/-- The buffered entry is flushed by an entry of greater identity and replaced by one of the same. -/
def BucketOutputIterator.put (out : BucketOutputIterator) (e : BucketEntry) : BucketOutputIterator :=
  if !out.mKeepDeadEntries && !e.isLive then out
  else
    match out.mBuf with
    | some b =>
      if bucketEntryIdCmp b e then { out with mOut := out.mOut ++ [b], mBuf := some e }
      else { out with mBuf := some e }
    | none => { out with mBuf := some e }

/-- The entries of the file that `getBucket` adopts. -/
def BucketOutputIterator.written (out : BucketOutputIterator) : List BucketEntry :=
  out.mOut ++ out.mBuf.toList

/-- Whether an iterator that keeps dead entries or not writes an entry at all. -/
def kept (keepDeadEntries : Bool) (e : BucketEntry) : Bool := keepDeadEntries || e.isLive

/-- The iterator can take an entry of identity `k`: what it was given so far is in order and does not
come after `k`. -/
structure BucketOutputIterator.Before (out : BucketOutputIterator) (k : LedgerKey) : Prop where
  sorted : SortedBy BucketEntry.identity out.written
  flushed : out.mBuf = none → out.mOut = []
  buffered : ∀ b, out.mBuf = some b → b.identity ≤ k

theorem before_new (keepDeadEntries : Bool) (k : LedgerKey) :
    (BucketOutputIterator.new keepDeadEntries).Before k := by
  constructor <;> simp [BucketOutputIterator.new, BucketOutputIterator.written]

theorem BucketOutputIterator.Before.mono {out : BucketOutputIterator} {k k' : LedgerKey}
    (h : out.Before k) (hk : k ≤ k') : out.Before k' :=
  ⟨h.sorted, h.flushed, fun b hb => (h.buffered b hb).trans hk⟩

@[simp] theorem put_keep (out : BucketOutputIterator) (e : BucketEntry) :
    (out.put e).mKeepDeadEntries = out.mKeepDeadEntries := by
  unfold BucketOutputIterator.put
  repeat' split
  all_goals rfl

/-- Entries put in order leave a sorted file, so the assertion of `put` holds. -/
theorem put_before {out : BucketOutputIterator} {e : BucketEntry} (h : out.Before e.identity) :
    (out.put e).Before e.identity := by
  obtain ⟨hs, hf, hb⟩ := h
  unfold BucketOutputIterator.put
  split
  · exact ⟨hs, hf, hb⟩
  · cases hbuf : out.mBuf with
    | none =>
      have hout := hf hbuf
      constructor <;> simp [BucketOutputIterator.written, hout]
    | some b =>
      have hle := hb b hbuf
      simp only [BucketOutputIterator.written, hbuf, Option.toList_some, List.pairwise_append,
        List.mem_singleton, forall_eq, List.pairwise_singleton, true_and] at hs
      obtain ⟨hout, hlast⟩ := hs
      by_cases hlt : b.identity < e.identity
      · constructor
        · simp only [BucketOutputIterator.written, bucketEntryIdCmp_iff, hlt, if_true,
            Option.toList_some, List.pairwise_append, List.mem_append, List.mem_singleton, forall_eq,
            List.pairwise_singleton, true_and]
          refine ⟨⟨hout, hlast⟩, ?_⟩
          rintro a (ha | rfl)
          · exact (hlast a ha).trans hlt
          · exact hlt
        · simp [hlt]
        · simp [hlt]
      · have heq : b.identity = e.identity := le_antisymm hle (not_lt.mp hlt)
        constructor
        · simp only [BucketOutputIterator.written, bucketEntryIdCmp_iff, hlt, if_false,
            Option.toList_some, List.pairwise_append, List.mem_singleton, forall_eq,
            List.pairwise_singleton, true_and]
          exact ⟨hout, fun a ha => heq ▸ hlast a ha⟩
        · simp [hlt]
        · simp [hlt]

/-- The iterator after a list of entries. -/
def BucketOutputIterator.putAll (out : BucketOutputIterator) (l : List BucketEntry) :
    BucketOutputIterator :=
  l.foldl BucketOutputIterator.put out

theorem putAll_sorted {out : BucketOutputIterator} {l : List BucketEntry}
    (hl : l.Pairwise fun a b => a.identity ≤ b.identity) (h : ∀ e ∈ l, out.Before e.identity)
    (hs : SortedBy BucketEntry.identity out.written) :
    SortedBy BucketEntry.identity (out.putAll l).written := by
  induction l generalizing out with
  | nil => exact hs
  | cons e l ih =>
    have hput := put_before (h e List.mem_cons_self)
    exact ih (List.pairwise_cons.mp hl).2
      (fun e' he' => hput.mono (List.rel_of_pairwise_cons hl he')) hput.sorted

/-- Entries of strictly increasing identity are written as they are, the dead ones possibly left
out. -/
theorem written_putAll {out : BucketOutputIterator} {l : List BucketEntry}
    (hl : SortedBy BucketEntry.identity l) (h : ∀ e ∈ l, ∀ b, out.mBuf = some b → b.identity < e.identity)
    (hf : out.mBuf = none → out.mOut = []) :
    (out.putAll l).written = out.written ++ l.filter (kept out.mKeepDeadEntries) := by
  induction l generalizing out with
  | nil => simp [BucketOutputIterator.putAll]
  | cons e l ih =>
    obtain ⟨hhead, htail⟩ := List.pairwise_cons.mp hl
    by_cases hk : kept out.mKeepDeadEntries e = true
    · have hdrop : (!out.mKeepDeadEntries && !e.isLive) = false := by
        rw [← Bool.not_or, show (out.mKeepDeadEntries || e.isLive) = true from hk]
        rfl
      have hput : (out.put e).written = out.written ++ [e] ∧ (out.put e).mBuf = some e := by
        unfold BucketOutputIterator.put
        rw [hdrop]
        cases hbuf : out.mBuf with
        | none => simp [BucketOutputIterator.written, hf hbuf, hbuf]
        | some b =>
          have hlt := h e List.mem_cons_self b hbuf
          simp [BucketOutputIterator.written, hbuf, hlt]
      have hrest := @ih (out.put e) htail
        (fun e' he' b hb => by
          obtain rfl : e = b := by simpa [hput.2] using hb
          exact hhead e' he')
        (fun hnone => by simp [hput.2] at hnone)
      rw [put_keep, hput.1] at hrest
      rw [List.filter_cons_of_pos hk, BucketOutputIterator.putAll, List.foldl_cons]
      simpa [BucketOutputIterator.putAll] using hrest
    · have hput : out.put e = out := by
        unfold BucketOutputIterator.put
        rw [← Bool.not_or, if_pos]
        simpa [kept] using hk
      rw [List.filter_cons_of_neg hk, BucketOutputIterator.putAll, List.foldl_cons, hput]
      exact ih htail (fun e' he' => h e' (List.mem_cons_of_mem _ he')) hf

/-! ## Buckets -/

structure Bucket where
  entries : List BucketEntry
  sorted : SortedBy BucketEntry.identity entries

/-- `std::make_shared<Bucket>()`. -/
def Bucket.empty : Bucket := ⟨[], List.Pairwise.nil⟩

/-- The entry that a search of the bucket finds for a key. -/
def Bucket.lookup (b : Bucket) (k : LedgerKey) : Option BucketEntry :=
  SortedKeys.lookup BucketEntry.identity b.entries k

@[simp] theorem lookup_empty (k : LedgerKey) : Bucket.empty.lookup k = none := rfl

/-! ## Merging -/

/-- `maybePut`: each shadow iterator is advanced to the entry, and the entry is put unless one of them
stands at its identity; the iterators behind that one are left where they are. -/
def maybePut (out : BucketOutputIterator) (entry : BucketEntry) :
    List (List BucketEntry) → BucketOutputIterator × List (List BucketEntry)
  | [] => (out.put entry, [])
  | si :: shadowIterators =>
    match si.dropWhile fun e => bucketEntryIdCmp e entry with
    | [] =>
      let r := maybePut out entry shadowIterators
      (r.1, [] :: r.2)
    | e :: si =>
      if !bucketEntryIdCmp entry e then (out, (e :: si) :: shadowIterators)
      else
        let r := maybePut out entry shadowIterators
        (r.1, (e :: si) :: r.2)

/-- The loop of `Bucket::merge` over the old, the new and the shadow iterators. -/
def mergeLoop : List BucketEntry → List BucketEntry → BucketOutputIterator × List (List BucketEntry) →
    BucketOutputIterator × List (List BucketEntry)
  | [], [], r => r
  | o :: oi, [], r => mergeLoop oi [] (maybePut r.1 o r.2)
  | [], n :: ni, r => mergeLoop [] ni (maybePut r.1 n r.2)
  | o :: oi, n :: ni, r =>
    if bucketEntryIdCmp o n then mergeLoop oi (n :: ni) (maybePut r.1 o r.2)
    else if bucketEntryIdCmp n o then mergeLoop (o :: oi) ni (maybePut r.1 n r.2)
    else mergeLoop oi ni (maybePut r.1 n r.2)
  termination_by oi ni => oi.length + ni.length

theorem mergeLoop_eq (oi ni : List BucketEntry) (r : BucketOutputIterator × List (List BucketEntry)) :
    mergeLoop oi ni r
      = (mergeNewer BucketEntry.identity oi ni).foldl (fun r e => maybePut r.1 e r.2) r := by
  fun_induction mergeLoop oi ni r with
  | case1 r => simp [mergeNewer]
  | case2 o oi r ih => rw [ih]; cases oi <;> simp [mergeNewer]
  | case3 n ni r ih => rw [ih]; simp [mergeNewer]
  | case4 o oi n ni r hlt ih => rw [ih, mergeNewer, if_pos (by simpa using hlt)]; rfl
  | case5 o oi n ni r hlt hgt ih =>
    rw [ih, mergeNewer, if_neg (by simpa using hlt), if_pos (by simpa using hgt)]
    rfl
  | case6 o oi n ni r hlt hgt ih =>
    rw [ih, mergeNewer, if_neg (by simpa using hlt), if_neg (by simpa using hgt)]
    rfl

/-- Some shadow holds the key. -/
def shadowed (shadows : List (List BucketEntry)) (k : LedgerKey) : Bool :=
  shadows.any fun si => (lookup BucketEntry.identity si k).isSome

theorem shadowed_cons (si : List BucketEntry) (shadows : List (List BucketEntry)) (k : LedgerKey) :
    shadowed (si :: shadows) k = ((lookup BucketEntry.identity si k).isSome || shadowed shadows k) :=
  rfl

/-- What one `maybePut` does, and that the shadow iterators it leaves still tell for every later
key. -/
theorem maybePut_spec (out : BucketOutputIterator) (entry : BucketEntry)
    (shadows : List (List BucketEntry)) (hs : ∀ si ∈ shadows, SortedBy BucketEntry.identity si) :
    (maybePut out entry shadows).1 = (if shadowed shadows entry.identity then out else out.put entry) ∧
      (∀ si ∈ (maybePut out entry shadows).2, SortedBy BucketEntry.identity si) ∧
      ∀ k, entry.identity < k → shadowed (maybePut out entry shadows).2 k = shadowed shadows k := by
  induction shadows with
  | nil => simp [maybePut, shadowed]
  | cons si shadows ih =>
    rw [List.forall_mem_cons] at hs
    obtain ⟨hout, hsorted, hlater⟩ := ih hs.2
    -- The advanced iterator answers as before for every key that does not come before the entry.
    have hdrop : ∀ k, entry.identity ≤ k →
        lookup BucketEntry.identity (si.dropWhile fun e => bucketEntryIdCmp e entry) k
          = lookup BucketEntry.identity si k := by
      intro k hk
      refine lookup_dropWhile _ fun a _ ha => ?_
      exact ((bucketEntryIdCmp_iff a entry).mp ha).trans_le hk |>.ne
    have hsi : SortedBy BucketEntry.identity (si.dropWhile fun e => bucketEntryIdCmp e entry) :=
      hs.1.sublist (List.dropWhile_sublist _)
    have hhead := List.head?_dropWhile_not (fun e => bucketEntryIdCmp e entry) si
    rw [maybePut]
    split
    · next hnil =>
      rw [hnil] at hdrop
      refine ⟨?_, ?_, fun k hk => ?_⟩
      · rw [shadowed_cons, ← hdrop _ le_rfl]
        simpa [SortedKeys.lookup] using hout
      · simpa using hsorted
      · rw [shadowed_cons, shadowed_cons, ← hdrop k hk.le, hlater k hk]
    · next e si' hcons =>
      rw [hcons] at hdrop hsi hhead
      have hge : entry.identity ≤ e.identity := by simpa [bucketEntryIdCmp] using hhead
      by_cases hlt : entry.identity < e.identity
      · have hmiss : lookup BucketEntry.identity (e :: si') entry.identity = none :=
          lookup_eq_none_of_lt _ hsi hlt
        simp only [bucketEntryIdCmp, hlt, decide_true, Bool.not_true, Bool.false_eq_true, if_false]
        refine ⟨?_, ?_, fun k hk => ?_⟩
        · rw [shadowed_cons, ← hdrop _ le_rfl, hmiss]
          simpa using hout
        · exact List.forall_mem_cons.mpr ⟨hsi, hsorted⟩
        · rw [shadowed_cons, shadowed_cons, ← hdrop k hk.le, hlater k hk]
      · have heq : e.identity = entry.identity := le_antisymm (not_lt.mp hlt) hge
        simp only [bucketEntryIdCmp, hlt, decide_false, Bool.not_false, if_true]
        refine ⟨?_, ?_, fun k hk => ?_⟩
        · rw [shadowed_cons, ← hdrop _ le_rfl, lookup_cons, if_pos heq]
          rfl
        · exact List.forall_mem_cons.mpr ⟨hsi, hs.2⟩
        · rw [shadowed_cons, shadowed_cons, ← hdrop k hk.le]

/-- Offering sorted entries one by one to `maybePut` puts those that no shadow holds. -/
theorem foldl_maybePut (l : List BucketEntry) (hl : SortedBy BucketEntry.identity l)
    (out : BucketOutputIterator) (shadows : List (List BucketEntry))
    (hs : ∀ si ∈ shadows, SortedBy BucketEntry.identity si) :
    (l.foldl (fun r e => maybePut r.1 e r.2) (out, shadows)).1
      = out.putAll (l.filter fun e => !shadowed shadows e.identity) := by
  induction l generalizing out shadows with
  | nil => rfl
  | cons e l ih =>
    obtain ⟨hhead, htail⟩ := List.pairwise_cons.mp hl
    obtain ⟨hout, hsorted, hlater⟩ := maybePut_spec out e shadows hs
    rw [List.foldl_cons]
    refine (ih htail _ _ hsorted).trans ?_
    have hfilter : (l.filter fun a => !shadowed (maybePut out e shadows).2 a.identity)
        = l.filter fun a => !shadowed shadows a.identity :=
      List.filter_congr fun a ha => by rw [hlater _ (hhead a ha)]
    rw [hfilter, hout]
    by_cases hsh : shadowed shadows e.identity = true
    · rw [if_pos hsh, List.filter_cons_of_neg (by simpa using hsh)]
    · rw [if_neg hsh, List.filter_cons_of_pos (by simpa using hsh)]
      rfl

/-- The entries that `Bucket::merge` writes. -/
def mergeEntries (oldBucket newBucket : Bucket) (shadows : List Bucket) (keepDeadEntries : Bool) :
    List BucketEntry :=
  (mergeLoop oldBucket.entries newBucket.entries
    (BucketOutputIterator.new keepDeadEntries, shadows.map Bucket.entries)).1.written

theorem mergeEntries_eq (oldBucket newBucket : Bucket) (shadows : List Bucket)
    (keepDeadEntries : Bool) :
    mergeEntries oldBucket newBucket shadows keepDeadEntries
      = ((mergeNewer BucketEntry.identity oldBucket.entries newBucket.entries).filter fun e =>
          !shadowed (shadows.map Bucket.entries) e.identity).filter (kept keepDeadEntries) := by
  have hmerge := sortedBy_mergeNewer _ oldBucket.sorted newBucket.sorted
  rw [mergeEntries, mergeLoop_eq, foldl_maybePut _ hmerge, written_putAll]
  · simp [BucketOutputIterator.written, BucketOutputIterator.new]
  · exact hmerge.filter _ _
  · simp [BucketOutputIterator.new]
  · simp [BucketOutputIterator.new]
  · intro si hsi
    obtain ⟨b, _, rfl⟩ := List.mem_map.mp hsi
    exact b.sorted

theorem mergeEntries_sorted (oldBucket newBucket : Bucket) (shadows : List Bucket)
    (keepDeadEntries : Bool) :
    SortedBy BucketEntry.identity (mergeEntries oldBucket newBucket shadows keepDeadEntries) := by
  rw [mergeEntries_eq]
  exact ((sortedBy_mergeNewer _ oldBucket.sorted newBucket.sorted).filter _ _).filter _ _

/-- `Bucket::merge`. -/
def Bucket.merge (oldBucket newBucket : Bucket) (shadows : List Bucket) (keepDeadEntries : Bool) :
    Bucket :=
  ⟨mergeEntries oldBucket newBucket shadows keepDeadEntries, mergeEntries_sorted _ _ _ _⟩

/-- **Lookups in a merge.** The new bucket answers before the old one, shadowed keys are gone, and a
merge that does not keep dead entries has none. -/
theorem lookup_merge (oldBucket newBucket : Bucket) (shadows : List Bucket) (keepDeadEntries : Bool)
    (k : LedgerKey) :
    (oldBucket.merge newBucket shadows keepDeadEntries).lookup k
      = if ∃ b ∈ shadows, (b.lookup k).isSome then none
        else ((newBucket.lookup k).or (oldBucket.lookup k)).filter (kept keepDeadEntries) := by
  have hsort := sortedBy_mergeNewer _ oldBucket.sorted newBucket.sorted
  have hshadow : shadowed (shadows.map Bucket.entries) k = true ↔ ∃ b ∈ shadows, (b.lookup k).isSome := by
    simp [shadowed, Bucket.lookup]
  change lookup _ (mergeEntries oldBucket newBucket shadows keepDeadEntries) k = _
  rw [mergeEntries_eq, lookup_filter _ (hsort.filter _ _), lookup_filter _ hsort,
    lookup_mergeNewer _ oldBucket.sorted newBucket.sorted]
  change Option.filter _ (Option.filter _ ((newBucket.lookup k).or (oldBucket.lookup k))) = _
  have hkey : ∀ e, (newBucket.lookup k).or (oldBucket.lookup k) = some e → e.identity = k := by
    intro e he
    rcases Option.or_eq_some_iff.mp he with h | ⟨_, h⟩ <;> exact (mem_of_lookup _ h).2
  cases hl : (newBucket.lookup k).or (oldBucket.lookup k) with
  | none => simp
  | some e =>
    obtain rfl := hkey e hl
    simp only [← hshadow]
    by_cases hsh : shadowed (shadows.map Bucket.entries) e.identity = true
    · simp [hsh]
    · simp [Option.filter_some, hsh]

/-! ## Fresh buckets -/

/-- `convertToBucketEntry`: the entries sorted by identity. -/
def convertToBucketEntry (l : List BucketEntry) : List BucketEntry :=
  l.mergeSort fun a b => !bucketEntryIdCmp b a

theorem convertToBucketEntry_pairwise (l : List BucketEntry) :
    (convertToBucketEntry l).Pairwise fun a b => a.identity ≤ b.identity := by
  have h : (convertToBucketEntry l).Pairwise fun a b => !bucketEntryIdCmp b a := List.pairwise_mergeSort
    (fun a b c => by simpa [bucketEntryIdCmp] using fun h₁ h₂ => le_trans h₁ h₂)
    (fun a b => by simpa [bucketEntryIdCmp] using le_total a.identity b.identity) l
  exact h.imp fun h => by simpa [bucketEntryIdCmp] using h

/-- The bucket of an output iterator that is given the sorted entries. -/
def Bucket.ofEntries (l : List BucketEntry) : Bucket where
  entries := ((BucketOutputIterator.new true).putAll (convertToBucketEntry l)).written
  sorted := putAll_sorted (convertToBucketEntry_pairwise l) (fun e _ => before_new true e.identity)
    (before_new true (.account 0)).sorted

/-- `Bucket::fresh`. -/
def Bucket.fresh (liveEntries : List LedgerEntry) (deadEntries : List LedgerKey) : Bucket :=
  (Bucket.ofEntries (liveEntries.map .LIVEENTRY)).merge (Bucket.ofEntries (deadEntries.map .DEADENTRY))
    [] true

theorem lookup_ofEntries {l : List BucketEntry} (hl : (l.map BucketEntry.identity).Nodup)
    (k : LedgerKey) (e : BucketEntry) :
    (Bucket.ofEntries l).lookup k = some e ↔ e ∈ l ∧ e.identity = k := by
  have hperm : (convertToBucketEntry l).Perm l := List.mergeSort_perm l _
  have hnd : (convertToBucketEntry l).Pairwise fun a b => a.identity ≠ b.identity :=
    List.pairwise_map.mp ((hperm.map BucketEntry.identity).nodup_iff.mpr hl)
  have hsorted : SortedBy BucketEntry.identity (convertToBucketEntry l) :=
    (convertToBucketEntry_pairwise l).imp₂ (fun _ _ h₁ h₂ => lt_of_le_of_ne h₁ h₂) hnd
  have hentries : (Bucket.ofEntries l).entries = convertToBucketEntry l := by
    change ((BucketOutputIterator.new true).putAll (convertToBucketEntry l)).written = _
    rw [written_putAll hsorted]
    · simp [BucketOutputIterator.new, BucketOutputIterator.written, kept]
    · simp [BucketOutputIterator.new]
    · simp [BucketOutputIterator.new]
  rw [Bucket.lookup, hentries, lookup_eq_some_iff _ hsorted, hperm.mem_iff]

/-- One call's worth of changes: the live entries and the dead keys of a ledger. -/
structure Batch where
  liveEntries : List LedgerEntry
  deadEntries : List LedgerKey

/-- No key in both lists, none twice in one. -/
structure Batch.Distinct (b : Batch) : Prop where
  live : (b.liveEntries.map LedgerEntry.key).Nodup
  dead : b.deadEntries.Nodup
  disjoint : ∀ e ∈ b.liveEntries, e.key ∉ b.deadEntries

/-- What a batch says about a key. -/
def Batch.entry (b : Batch) (k : LedgerKey) : Option BucketEntry :=
  if k ∈ b.deadEntries then some (.DEADENTRY k)
  else (b.liveEntries.find? fun e => e.key = k).map .LIVEENTRY

theorem lookup_fresh {b : Batch} (hb : b.Distinct) (k : LedgerKey) :
    (Bucket.fresh b.liveEntries b.deadEntries).lookup k = b.entry k := by
  have hlive : ((b.liveEntries.map BucketEntry.LIVEENTRY).map BucketEntry.identity).Nodup := by
    simpa [Function.comp_def, BucketEntry.identity] using hb.live
  have hdead : ((b.deadEntries.map BucketEntry.DEADENTRY).map BucketEntry.identity).Nodup := by
    simpa [Function.comp_def, BucketEntry.identity] using hb.dead
  have hfilter : ∀ o : Option BucketEntry, o.filter (kept true) = o := by rintro (_ | e) <;> rfl
  rw [Bucket.fresh, lookup_merge, if_neg (by simp), hfilter, Batch.entry]
  by_cases hk : k ∈ b.deadEntries
  · rw [if_pos hk, (lookup_ofEntries hdead k (.DEADENTRY k)).mpr ⟨List.mem_map_of_mem hk, rfl⟩]
    rfl
  · have hnone : (Bucket.ofEntries (b.deadEntries.map .DEADENTRY)).lookup k = none := by
      rw [Option.eq_none_iff_forall_ne_some]
      intro e he
      obtain ⟨hmem, hid⟩ := (lookup_ofEntries hdead k e).mp he
      obtain ⟨k', hk', rfl⟩ := List.mem_map.mp hmem
      obtain rfl : k' = k := hid
      exact hk hk'
    rw [if_neg hk, hnone, Option.none_or]
    cases hfind : b.liveEntries.find? fun e => e.key = k with
    | some e =>
      refine (lookup_ofEntries hlive k (.LIVEENTRY e)).mpr ⟨?_, ?_⟩
      · exact List.mem_map_of_mem (List.mem_of_find?_eq_some hfind)
      · simpa [BucketEntry.identity] using List.find?_some hfind
    | none =>
      rw [Option.map_none, Option.eq_none_iff_forall_ne_some]
      intro e he
      obtain ⟨hmem, hid⟩ := (lookup_ofEntries hlive k e).mp he
      obtain ⟨a, ha, rfl⟩ := List.mem_map.mp hmem
      exact (List.find?_eq_none.mp hfind a ha) (by simpa [BucketEntry.identity] using hid)

end ZaggCore.Buckets
