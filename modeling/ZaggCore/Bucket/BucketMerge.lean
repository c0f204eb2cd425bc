import Mathlib
import ZaggCore.Bucket.Bucket

/-! # What a merge writes

The entries of a merged bucket, one by one, with the comparison of `bucket/LedgerCmp.h` spelled out and
the assertion of `BucketOutputIterator::put` made: an abort is `none`. -/

namespace ZaggCore.Buckets
set_option autoImplicit false
set_option maxHeartbeats 250000

open SortedKeys

/-! ## The comparison -/

/-- The discriminant of a key, which is that of its entry. -/
def ledgerKeyType : LedgerKey → ℕ
  | .account _ => 0
  | .trustLine _ _ => 1
  | .offer _ _ => 2
  | .data _ _ => 3

/-- `LedgerEntryIdCmp`, which reads the same fields of an entry as of a key. -/
def ledgerEntryIdCmp (a b : LedgerKey) : Bool :=
  if ledgerKeyType a < ledgerKeyType b then true
  else if ledgerKeyType b < ledgerKeyType a then false
  else
    match a, b with
    | .account a, .account b => a < b
    | .trustLine a aAsset, .trustLine b bAsset =>
      if a < b then true else if b < a then false else aAsset < bAsset
    | .offer a aID, .offer b bID => if a < b then true else if b < a then false else aID < bID
    | .data a aName, .data b bName => if a < b then true else if b < a then false else aName < bName
    | _, _ => false

/-- The comparison is the order of the keys. -/
theorem ledgerEntryIdCmp_iff (a b : LedgerKey) : ledgerEntryIdCmp a b = true ↔ a < b := by
  change _ ↔ a.fields < b.fields
  cases a <;> cases b <;>
    simp only [ledgerEntryIdCmp, ledgerKeyType, LedgerKey.fields, Prod.Lex.toLex_lt_toLex,
      Nat.reduceLT, Fin.val_fin_lt] <;> grind

theorem bucketEntryIdCmp_eq (a b : BucketEntry) :
    bucketEntryIdCmp a b = ledgerEntryIdCmp a.identity b.identity := by
  rw [Bool.eq_iff_iff, bucketEntryIdCmp_iff, ledgerEntryIdCmp_iff]

/-! ## The merge with its assertion -/

/-- `put`, with the assertion that the entry does not come before the buffered one. -/
def BucketOutputIterator.putAsserted (out : BucketOutputIterator) (e : BucketEntry) :
    Option BucketOutputIterator :=
  if kept out.mKeepDeadEntries e && out.mBuf.any (fun b => bucketEntryIdCmp e b) then none
  else some (out.put e)

/-- `maybePut` over the asserting `put`. -/
def maybePutAsserted (out : BucketOutputIterator) (entry : BucketEntry) :
    List (List BucketEntry) → Option (BucketOutputIterator × List (List BucketEntry))
  | [] => (out.putAsserted entry).map fun out => (out, [])
  | si :: shadowIterators =>
    match si.dropWhile fun e => bucketEntryIdCmp e entry with
    | [] => (maybePutAsserted out entry shadowIterators).map fun r => (r.1, [] :: r.2)
    | e :: si =>
      if !bucketEntryIdCmp entry e then some (out, (e :: si) :: shadowIterators)
      else (maybePutAsserted out entry shadowIterators).map fun r => (r.1, (e :: si) :: r.2)

/-- The loop of `Bucket::merge` over the asserting `maybePut`. -/
def mergeLoopAsserted : List BucketEntry → List BucketEntry →
    BucketOutputIterator × List (List BucketEntry) →
    Option (BucketOutputIterator × List (List BucketEntry))
  | [], [], r => some r
  | o :: oi, [], r => (maybePutAsserted r.1 o r.2).bind fun r => mergeLoopAsserted oi [] r
  | [], n :: ni, r => (maybePutAsserted r.1 n r.2).bind fun r => mergeLoopAsserted [] ni r
  | o :: oi, n :: ni, r =>
    if bucketEntryIdCmp o n then
      (maybePutAsserted r.1 o r.2).bind fun r => mergeLoopAsserted oi (n :: ni) r
    else if bucketEntryIdCmp n o then
      (maybePutAsserted r.1 n r.2).bind fun r => mergeLoopAsserted (o :: oi) ni r
    else (maybePutAsserted r.1 n r.2).bind fun r => mergeLoopAsserted oi ni r
  termination_by oi ni => oi.length + ni.length

theorem putAsserted_eq {out : BucketOutputIterator} {e : BucketEntry} (h : out.Before e.identity) :
    out.putAsserted e = some (out.put e) := by
  unfold BucketOutputIterator.putAsserted
  rw [if_neg]
  intro hfail
  cases hbuf : out.mBuf with
  | none => simp [hbuf] at hfail
  | some b =>
    have hlt : e.identity < b.identity := by
      rw [hbuf, Option.any_some, Bool.and_eq_true, bucketEntryIdCmp_iff] at hfail
      exact hfail.2
    exact absurd hlt (h.buffered b hbuf).not_gt

theorem maybePutAsserted_eq {out : BucketOutputIterator} {entry : BucketEntry}
    (h : out.Before entry.identity) (shadows : List (List BucketEntry)) :
    maybePutAsserted out entry shadows = some (maybePut out entry shadows) := by
  induction shadows with
  | nil => simp [maybePutAsserted, maybePut, putAsserted_eq h]
  | cons si shadows ih =>
    rw [maybePutAsserted, maybePut, ih]
    cases hdrop : si.dropWhile fun e => bucketEntryIdCmp e entry with
    | nil => simp
    | cons e si =>
      by_cases hcmp : bucketEntryIdCmp entry e = true <;> simp [hcmp]

theorem maybePut_before {out : BucketOutputIterator} {entry : BucketEntry}
    (h : out.Before entry.identity) (shadows : List (List BucketEntry)) :
    (maybePut out entry shadows).1.Before entry.identity := by
  induction shadows with
  | nil => exact put_before h
  | cons si shadows ih =>
    rw [maybePut]
    cases hdrop : si.dropWhile fun e => bucketEntryIdCmp e entry with
    | nil => exact ih
    | cons e si =>
      by_cases hcmp : bucketEntryIdCmp entry e = true
      · simpa [hcmp] using ih
      · simpa [hcmp] using h

theorem le_of_mem_sorted {e e' : BucketEntry} {l : List BucketEntry}
    (h : SortedBy BucketEntry.identity (e :: l)) (he' : e' ∈ e :: l) : e.identity ≤ e'.identity := by
  obtain rfl | he' := List.mem_cons.mp he'
  · exact le_rfl
  · exact (List.rel_of_pairwise_cons h he').le

/-- While the two inputs are sorted, every entry the loop has yet to take comes no earlier than what was
put. -/
theorem mergeLoopAsserted_eq {oi ni : List BucketEntry} (ho : SortedBy BucketEntry.identity oi)
    (hn : SortedBy BucketEntry.identity ni) (r : BucketOutputIterator × List (List BucketEntry))
    (hold : ∀ e ∈ oi, r.1.Before e.identity) (hnew : ∀ e ∈ ni, r.1.Before e.identity) :
    mergeLoopAsserted oi ni r = some (mergeLoop oi ni r) := by
  fun_induction mergeLoop oi ni r with
  | case1 r => rw [mergeLoopAsserted]
  | case2 o oi r ih =>
    obtain ⟨hhead, htail⟩ := List.pairwise_cons.mp ho
    have hput := hold o List.mem_cons_self
    rw [mergeLoopAsserted, maybePutAsserted_eq hput, Option.bind_some]
    refine ih htail hn (fun e he => ?_) (by simp)
    exact (maybePut_before hput r.2).mono (hhead e he).le
  | case3 n ni r ih =>
    obtain ⟨hhead, htail⟩ := List.pairwise_cons.mp hn
    have hput := hnew n List.mem_cons_self
    rw [mergeLoopAsserted, maybePutAsserted_eq hput, Option.bind_some]
    refine ih ho htail (by simp) (fun e he => ?_)
    exact (maybePut_before hput r.2).mono (hhead e he).le
  | case4 o oi n ni r hlt ih =>
    obtain ⟨hhead, htail⟩ := List.pairwise_cons.mp ho
    have hput := hold o List.mem_cons_self
    have hle : o.identity ≤ n.identity := ((bucketEntryIdCmp_iff o n).mp hlt).le
    rw [mergeLoopAsserted, if_pos hlt, maybePutAsserted_eq hput, Option.bind_some]
    refine ih htail hn (fun e he => ?_) (fun e he => ?_)
    · exact (maybePut_before hput r.2).mono (hhead e he).le
    · exact (maybePut_before hput r.2).mono (hle.trans (le_of_mem_sorted hn he))
  | case5 o oi n ni r hlt hgt ih =>
    obtain ⟨hhead, htail⟩ := List.pairwise_cons.mp hn
    have hput := hnew n List.mem_cons_self
    have hle : n.identity ≤ o.identity := ((bucketEntryIdCmp_iff n o).mp hgt).le
    rw [mergeLoopAsserted, if_neg hlt, if_pos hgt, maybePutAsserted_eq hput, Option.bind_some]
    refine ih ho htail (fun e he => ?_) (fun e he => ?_)
    · exact (maybePut_before hput r.2).mono (hle.trans (le_of_mem_sorted ho he))
    · exact (maybePut_before hput r.2).mono (hhead e he).le
  | case6 o oi n ni r hlt hgt ih =>
    obtain ⟨hheadOld, htailOld⟩ := List.pairwise_cons.mp ho
    obtain ⟨hhead, htail⟩ := List.pairwise_cons.mp hn
    have hput := hnew n List.mem_cons_self
    have hle : n.identity ≤ o.identity := by simpa [bucketEntryIdCmp] using hlt
    rw [mergeLoopAsserted, if_neg hlt, if_neg hgt, maybePutAsserted_eq hput, Option.bind_some]
    refine ih htailOld htail (fun e he => ?_) (fun e he => ?_)
    · exact (maybePut_before hput r.2).mono (hle.trans (hheadOld e he).le)
    · exact (maybePut_before hput r.2).mono (hhead e he).le

/-- The file that `Bucket::merge` leaves; `none` if an assertion fails. -/
def mergeAsserted (oldBucket newBucket : Bucket) (shadows : List Bucket) (keepDeadEntries : Bool) :
    Option (List BucketEntry) :=
  (mergeLoopAsserted oldBucket.entries newBucket.entries
    (BucketOutputIterator.new keepDeadEntries, shadows.map Bucket.entries)).map fun r => r.1.written

theorem mergeAsserted_eq (oldBucket newBucket : Bucket) (shadows : List Bucket)
    (keepDeadEntries : Bool) :
    mergeAsserted oldBucket newBucket shadows keepDeadEntries
      = some (oldBucket.merge newBucket shadows keepDeadEntries).entries := by
  have hnew := before_new keepDeadEntries
  rw [mergeAsserted, mergeLoopAsserted_eq oldBucket.sorted newBucket.sorted _
    (fun e _ => hnew e.identity) (fun e _ => hnew e.identity)]
  rfl

/-! ## The entries of a merge -/

theorem mem_entries_iff (b : Bucket) (e : BucketEntry) :
    e ∈ b.entries ↔ b.lookup e.identity = some e := by
  rw [Bucket.lookup, lookup_eq_some_iff _ b.sorted]
  simp

theorem lookup_isSome_iff (b : Bucket) (k : LedgerKey) :
    (b.lookup k).isSome ↔ ∃ e ∈ b.entries, e.identity = k :=
  SortedKeys.lookup_isSome_iff _ b.entries k

/-- The entry that the two inputs together have for a key: the new bucket's if it has one, the old one's
otherwise. -/
def newerEntry (oldBucket newBucket : Bucket) (e : BucketEntry) : Prop :=
  e ∈ newBucket.entries ∨ (e ∈ oldBucket.entries ∧ ∀ n ∈ newBucket.entries, n.identity ≠ e.identity)

theorem newerEntry_iff (oldBucket newBucket : Bucket) (e : BucketEntry) :
    newerEntry oldBucket newBucket e
      ↔ (newBucket.lookup e.identity).or (oldBucket.lookup e.identity) = some e := by
  have hmiss : newBucket.lookup e.identity = none
      ↔ ∀ n ∈ newBucket.entries, n.identity ≠ e.identity :=
    lookup_eq_none_iff _ newBucket.entries e.identity
  rw [newerEntry, Option.or_eq_some_iff, mem_entries_iff, mem_entries_iff, ← hmiss, and_comm]

/-- **Merging.** No assertion fails, and the file holds, in strictly increasing order of identity,
exactly the newer entry for every key that no shadow holds, dead entries only if they are kept. -/
theorem merge_exact (oldBucket newBucket : Bucket) (shadows : List Bucket) (keepDeadEntries : Bool) :
    ∃ entries, mergeAsserted oldBucket newBucket shadows keepDeadEntries = some entries ∧
      entries = (oldBucket.merge newBucket shadows keepDeadEntries).entries ∧
      (entries.Pairwise fun a b => ledgerEntryIdCmp a.identity b.identity = true) ∧
      (entries.map BucketEntry.identity).Nodup ∧
      ∀ e, e ∈ entries ↔ newerEntry oldBucket newBucket e ∧
        (∀ b ∈ shadows, ∀ s ∈ b.entries, s.identity ≠ e.identity) ∧
        (keepDeadEntries = false → e.isLive = true) := by
  have hsorted := (oldBucket.merge newBucket shadows keepDeadEntries).sorted
  refine ⟨_, mergeAsserted_eq oldBucket newBucket shadows keepDeadEntries, rfl, ?_, ?_, fun e => ?_⟩
  · refine hsorted.imp fun {a b} h => ?_
    rw [← bucketEntryIdCmp_eq, bucketEntryIdCmp_iff]
    exact h
  · exact List.pairwise_map.mpr (hsorted.imp fun h => h.ne)
  · have hshadow : (∃ b ∈ shadows, (b.lookup e.identity).isSome)
        ↔ ¬∀ b ∈ shadows, ∀ s ∈ b.entries, s.identity ≠ e.identity := by
      simp [lookup_isSome_iff]
    rw [mem_entries_iff, lookup_merge, newerEntry_iff]
    by_cases hs : ∀ b ∈ shadows, ∀ s ∈ b.entries, s.identity ≠ e.identity
    · rw [if_neg (fun h => hshadow.mp h hs), Option.filter_eq_some_iff]
      cases keepDeadEntries <;> simp [kept, and_iff_right hs]
    · rw [if_pos (hshadow.mpr hs)]
      simp [hs]

end ZaggCore.Buckets
