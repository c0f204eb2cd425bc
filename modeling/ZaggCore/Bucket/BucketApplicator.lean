import Mathlib
import ZaggCore.Bucket.Bucket
import ZaggCore.Ledger.FaithfulRuns

/-! # Applying buckets to the database

The model of `bucket/BucketApplicator.cpp`. `advance` writes up to 255 entries through a ledger transaction over
the root and commits it; it leaves its iterator on the last of them, which the next call handles again. What a
bucket leaves in the database is the flat map overwritten by its entries, as far as the tables have columns for
it; `apply_spec` says so, and that no load and no statement on the way fails. -/

namespace ZaggCore.Buckets
set_option autoImplicit false
set_option maxHeartbeats 250000

open SortedKeys
open Ledger (LedgerTxn LedgerTxnRoot SqlTables EntryMap Outcome Result ToldApart fitsTables persisted view
  getNewestVersion_spec)

/-! ## The applicator -/

/-- A call that returned goes on with the next one; an exception ends the whole. -/
def andThen (o : Outcome) (next : Result → LedgerTxn → LedgerTxnRoot → Outcome) : Outcome :=
  match o with
  | (.ok res, t, root) => next res t root
  | (.error what, t, root) => (.error what, t, root)

/-- One round of the loop of `advance`. A handle that goes out of scope is deactivated. -/
def applyEntry (t : LedgerTxn) (root : LedgerTxnRoot) : BucketEntry → Outcome
  | .LIVEENTRY bucketEntry =>
    andThen (Ledger.load t [] root bucketEntry.key) fun entry t root =>
      match entry with
      | .entry (some _) =>
        andThen (Ledger.modify t root bucketEntry) fun _ t root => Ledger.deactivate t root bucketEntry.key
      | _ =>
        andThen (Ledger.create t [] root bucketEntry) fun _ t root => Ledger.deactivate t root bucketEntry.key
  | .DEADENTRY deadEntry =>
    andThen (Ledger.load t [] root deadEntry) fun entry t root =>
      match entry with
      | .entry (some _) => Ledger.erase t [] root deadEntry
      | _ => (.ok .done, t, root)

/-- The loop of `advance` with its counter: where it leaves the iterator, and the transaction. -/
def advanceLoop : ℕ → List BucketEntry → LedgerTxn → LedgerTxnRoot →
    Except String (List BucketEntry × LedgerTxn × LedgerTxnRoot)
  | _, [], t, root => .ok ([], t, root)
  | count, e :: es, t, root =>
    match applyEntry t root e with
    | (.error what, _, _) => .error what
    | (.ok _, t, root) =>
      if (count + 1) &&& 0xff = 0xff then .ok (e :: es, t, root) else advanceLoop (count + 1) es t root

/-- The root that `getLedgerTxnRoot` gives, and the tables that its commits write to. -/
structure Store where
  root : LedgerTxnRoot
  tables : SqlTables

/-- `BucketApplicator::advance`. -/
def advance (es : List BucketEntry) (s : Store) : Except String (List BucketEntry × Store) := do
  let (es, t, root) ← advanceLoop 0 es (LedgerTxn.new s.root.mHeader false) s.root
  let root ← root.commitChild t.sealed
  let tables ← SqlTables.storeAll t.sealed.mEntry.entries s.tables
  return (es, ⟨root, tables⟩)

theorem advanceLoop_suffix {count : ℕ} {es es' : List BucketEntry} {t t' : LedgerTxn} {root root' : LedgerTxnRoot}
    (h : advanceLoop count es t root = .ok (es', t', root')) : es' <:+ es := by
  induction es generalizing count t root with
  | nil =>
    obtain ⟨rfl, -⟩ := Prod.mk.inj (Except.ok.inj h)
    exact List.suffix_rfl
  | cons e es ih =>
    rw [advanceLoop] at h
    split at h
    · cases h
    · split_ifs at h
      · obtain ⟨rfl, -⟩ := Prod.mk.inj (Except.ok.inj h)
        exact List.suffix_rfl
      · exact (ih h).trans (List.suffix_cons e es)

/-- The loop handles at least one entry for good. -/
theorem advanceLoop_zero_suffix {e : BucketEntry} {es es' : List BucketEntry} {t t' : LedgerTxn}
    {root root' : LedgerTxnRoot} (h : advanceLoop 0 (e :: es) t root = .ok (es', t', root')) : es' <:+ es := by
  rw [advanceLoop] at h
  split at h
  · cases h
  · exact advanceLoop_suffix h

theorem advance_suffix {e : BucketEntry} {es es' : List BucketEntry} {s s' : Store}
    (h : advance (e :: es) s = .ok (es', s')) : es' <:+ es := by
  unfold advance at h
  cases hloop : advanceLoop 0 (e :: es) (LedgerTxn.new s.root.mHeader false) s.root with
  | error what =>
    rw [hloop] at h
    cases h
  | ok r =>
    obtain ⟨left, t, root⟩ := r
    have hsuffix := advanceLoop_zero_suffix hloop
    rw [hloop] at h
    simp only [bind, Except.bind] at h
    split at h
    · cases h
    · split at h
      · cases h
      · obtain ⟨rfl, -⟩ := Prod.mk.inj (Except.ok.inj h)
        exact hsuffix

/-- The loop of `Bucket::apply`. -/
def applyLoop : List BucketEntry → Store → Except String Store
  | [], s => .ok s
  | e :: es, s =>
    match _h : advance (e :: es) s with
    | .error what => .error what
    | .ok (es', s') => applyLoop es' s'
  termination_by es => es.length
  decreasing_by exact Nat.lt_succ_of_le (advance_suffix _h).length_le

/-- `Bucket::apply`. -/
def Bucket.apply (b : Bucket) (s : Store) : Except String Store := applyLoop b.entries s

/-! ## The flat map -/

/-- The value a bucket entry leaves under its key. -/
def BucketEntry.value : BucketEntry → Option LedgerEntry
  | .LIVEENTRY e => some e
  | .DEADENTRY _ => none

/-- The map after an entry. -/
def overwrite (m : LedgerKey → Option LedgerEntry) (e : BucketEntry) : LedgerKey → Option LedgerEntry :=
  Function.update m e.identity e.value

theorem overwrite_twice (m : LedgerKey → Option LedgerEntry) (e : BucketEntry) :
    overwrite (overwrite m e) e = overwrite m e := by
  simp [overwrite]

theorem foldl_overwrite {es : List BucketEntry} (hs : SortedBy BucketEntry.identity es)
    (m : LedgerKey → Option LedgerEntry) (k : LedgerKey) :
    es.foldl overwrite m k = (lookup BucketEntry.identity es k).elim (m k) BucketEntry.value := by
  induction es generalizing m with
  | nil => rfl
  | cons e es ih =>
    obtain ⟨hhead, htail⟩ := List.pairwise_cons.mp hs
    rw [List.foldl_cons, ih htail, lookup_cons, overwrite]
    rcases eq_or_ne e.identity k with rfl | hk
    · have hnone : lookup BucketEntry.identity es e.identity = none :=
        (lookup_eq_none_iff _ es _).mpr fun a ha => (hhead a ha).ne'
      rw [hnone, if_pos rfl, Option.elim_none, Option.elim_some, Function.update_self]
    · rw [if_neg hk, Function.update_of_ne hk.symm]

/-- The map after a bucket. -/
def Bucket.overwrites (b : Bucket) (m : LedgerKey → Option LedgerEntry) : LedgerKey → Option LedgerEntry :=
  b.entries.foldl overwrite m

/-- A bucket overwrites the keys it has entries for. -/
theorem overwrites_lookup (b : Bucket) (m : LedgerKey → Option LedgerEntry) (k : LedgerKey) :
    b.overwrites m k = (b.lookup k).elim (m k) BucketEntry.value :=
  foldl_overwrite b.sorted m k

/-- Maps that are stored alike are stored alike after the same entries. -/
theorem persisted_foldl_overwrite {m m' : LedgerKey → Option LedgerEntry}
    (h : ∀ k, (m k).map persisted = (m' k).map persisted) (es : List BucketEntry) (k : LedgerKey) :
    (es.foldl overwrite m k).map persisted = (es.foldl overwrite m' k).map persisted := by
  induction es generalizing m m' with
  | nil => exact h k
  | cons e es ih =>
    refine ih fun k => ?_
    unfold overwrite
    rcases eq_or_ne k e.identity with rfl | hk
    · rw [Function.update_self, Function.update_self]
    · rw [Function.update_of_ne hk, Function.update_of_ne hk]
      exact h k

/-! ## One entry -/

section Entries

variable {K : Set LedgerKey}

/-- The tables can take the entry. -/
structure Storable (K : Set LedgerKey) (e : BucketEntry) : Prop where
  key : e.identity ∈ K
  fits : ∀ v ∈ e.value, fitsTables v.data = true

/-- The transaction of `advance` over the root stands for the map; no handle is active between two rounds. -/
structure Applying (K : Set LedgerKey) (t : LedgerTxn) (root : LedgerTxnRoot)
    (m : LedgerKey → Option LedgerEntry) : Prop where
  caches : root.CacheOK
  notSealed : t.mIsSealed = false
  notUpdating : t.mShouldUpdateLastModified = false
  inactive : ∀ k, k ∉ t.mActive
  keyed : t.Keyed
  erased : ∀ k, t.mEntry.lookup k = some none → (root.mDatabase.load k).isSome
  keys : ∀ k ∈ t.mEntry, k ∈ K
  fits : ∀ k e, t.mEntry.lookup k = some (some e) → fitsTables e.data = true
  values : ∀ k, view [t] root.mDatabase k = m k

/-- The transaction with a key loaded for writing. -/
def recorded (t : LedgerTxn) (key : LedgerKey) (e : LedgerEntry) : LedgerTxn :=
  { t with
    mActive := t.mActive.insert key .LedgerTxnEntry
    mEntry := t.mEntry.insert key (some e) }

theorem view_single (t : LedgerTxn) (db : Ledger.Database) : view [t] db = Ledger.overlay t.mEntry db.load := rfl

section Calls

variable {t : LedgerTxn} {root : LedgerTxnRoot} {key : LedgerKey}

theorem load_none (hroot : root.CacheOK) (hopen : t.mIsSealed = false) (hinactive : key ∉ t.mActive)
    (hview : view [t] root.mDatabase key = none) :
    ∃ root', root.ReadTo root' ∧ Ledger.load t [] root key = (.ok (.entry none), t, root') := by
  obtain ⟨hnewest, hread⟩ := getNewestVersion_spec [t] hroot key
  refine ⟨_, hread, ?_⟩
  unfold Ledger.load
  rw [if_neg (ne_true_of_eq_false hopen), if_neg hinactive]
  rw [hview] at hnewest
  split
  · next heq => rw [heq]
  · next heq =>
    rw [heq] at hnewest
    cases hnewest

theorem load_some (hroot : root.CacheOK) (hopen : t.mIsSealed = false) (hinactive : key ∉ t.mActive)
    {e : LedgerEntry} (hview : view [t] root.mDatabase key = some e) :
    ∃ root', root.ReadTo root' ∧
      Ledger.load t [] root key = (.ok (.entry (some e)), recorded t key e, root') := by
  obtain ⟨hnewest, hread⟩ := getNewestVersion_spec [t] hroot key
  refine ⟨_, hread, ?_⟩
  unfold Ledger.load
  rw [if_neg (ne_true_of_eq_false hopen), if_neg hinactive]
  rw [hview] at hnewest
  split
  · next heq =>
    rw [heq] at hnewest
    cases hnewest
  · next heq =>
    rw [heq] at hnewest ⊢
    rw [Option.some.inj hnewest]
    rfl

theorem create_of_none (hroot : root.CacheOK) (hopen : t.mIsSealed = false) {e : LedgerEntry}
    (hview : view [t] root.mDatabase e.key = none) :
    ∃ root', root.ReadTo root' ∧
      Ledger.create t [] root e = (.ok (.entry (some e)), recorded t e.key e, root') := by
  obtain ⟨hnewest, hread⟩ := getNewestVersion_spec [t] hroot e.key
  refine ⟨_, hread, ?_⟩
  unfold Ledger.create
  rw [if_neg (ne_true_of_eq_false hopen)]
  rw [hview] at hnewest
  split
  · next heq =>
    rw [heq] at hnewest
    cases hnewest
  · next heq =>
    rw [heq]
    rfl

/-- The transaction without a key that it has an entry of. -/
def erased (t : LedgerTxn) (db : Ledger.Database) (key : LedgerKey) : LedgerTxn :=
  { t with
    mEntry := if (db.load key).isSome then t.mEntry.insert key none else t.mEntry.erase key
    mActive := t.mActive.erase key }

theorem erase_recorded (hroot : root.CacheOK) (hopen : t.mIsSealed = false) (e : LedgerEntry) :
    ∃ root', root.ReadTo root' ∧ Ledger.erase (recorded t key e) [] root key
      = (.ok .done, erased (recorded t key e) root.mDatabase key, root') := by
  obtain ⟨hrow, hread⟩ := root.getNewestVersion_spec hroot key
  have hnewest : Ledger.getNewestVersion [recorded t key e] root key = (some e, root) := by
    simp [Ledger.getNewestVersion, recorded]
  refine ⟨_, hread, ?_⟩
  unfold Ledger.erase
  have hnot : ¬ (recorded t key e).mIsSealed = true := ne_true_of_eq_false hopen
  rw [if_neg hnot, hnewest, erased, ← hrow]
  dsimp only [Ledger.getNewestVersion]
  split
  · next heq => rw [heq, if_neg (by simp)]
  · next heq => rw [heq, if_pos (by simp)]

end Calls

/-- A round that leaves the transaction with what it had for the other keys. -/
theorem Applying.write {t t' : LedgerTxn} {root root' : LedgerTxnRoot} {m : LedgerKey → Option LedgerEntry}
    (h : Applying K t root m) (hread : root.ReadTo root') {e : BucketEntry} (he : Storable K e)
    (hsame : t'.mIsSealed = t.mIsSealed ∧ t'.mShouldUpdateLastModified = t.mShouldUpdateLastModified)
    (hinactive : ∀ k, k ∉ t'.mActive)
    (hother : ∀ k, k ≠ e.identity → t'.mEntry.lookup k = t.mEntry.lookup k)
    (hown : t'.mEntry.lookup e.identity = some e.value ∧ (e.value = none → (root.mDatabase.load e.identity).isSome) ∨
      t'.mEntry.lookup e.identity = none ∧ root.mDatabase.load e.identity = e.value) :
    Applying K t' root' (overwrite m e) := by
  have hlook : ∀ {k o}, t'.mEntry.lookup k = some o → k = e.identity ∧ o = e.value ∨ t.mEntry.lookup k = some o := by
    intro k o hl
    rcases eq_or_ne k e.identity with rfl | hk
    · rcases hown with ⟨hsome, -⟩ | ⟨hnone, -⟩
      · exact .inl ⟨rfl, Option.some.inj (hl.symm.trans hsome)⟩
      · rw [hnone] at hl
        cases hl
    · exact .inr ((hother k hk).symm.trans hl)
  refine
    { caches := hread.1
      notSealed := hsame.1.trans h.notSealed
      notUpdating := hsame.2.trans h.notUpdating
      inactive := hinactive
      keyed := fun k v hl => ?_
      erased := fun k hl => ?_
      keys := fun k hk => ?_
      fits := fun k v hl => ?_
      values := fun k => ?_ }
  · rcases hlook hl with ⟨rfl, hv⟩ | hl
    · cases e with
      | LIVEENTRY v' =>
        obtain rfl := Option.some.inj hv
        rfl
      | DEADENTRY k => cases hv
    · exact h.keyed k v hl
  · rw [hread.db]
    rcases hlook hl with ⟨rfl, hv⟩ | hl
    · rcases hown with ⟨-, hdead⟩ | ⟨hnone, -⟩
      · exact hdead hv.symm
      · rw [hnone] at hl
        cases hl
    · exact h.erased k hl
  · obtain ⟨o, hl⟩ := Option.isSome_iff_exists.mp (AList.lookup_isSome.mpr hk)
    rcases hlook hl with ⟨rfl, -⟩ | hl
    · exact he.key
    · exact h.keys k (AList.lookup_isSome.mp (Option.isSome_of_eq_some hl))
  · rcases hlook hl with ⟨-, hv⟩ | hl
    · exact he.fits v hv.symm
    · exact h.fits k v hl
  · rw [view_single, hread.db, overwrite, Ledger.overlay]
    rcases eq_or_ne k e.identity with rfl | hk
    · rw [Function.update_self]
      rcases hown with ⟨hsome, -⟩ | ⟨hnone, hload⟩
      · rw [hsome]
      · rw [hnone]
        exact hload
    · rw [hother k hk, Function.update_of_ne hk]
      exact h.values k

section Rounds

variable {t : LedgerTxn} {root : LedgerTxnRoot} {m : LedgerKey → Option LedgerEntry}

/-- The recorded key is the only active one. -/
theorem Applying.inactive_recorded (h : Applying K t root m) {key k : LedgerKey} {e : LedgerEntry} (hk : k ≠ key) :
    k ∉ (recorded t key e).mActive := by
  rw [recorded, AList.mem_insert, not_or]
  exact ⟨hk, h.inactive k⟩

theorem Applying.released (h : Applying K t root m) (key k : LedgerKey) (e : LedgerEntry) :
    k ∉ (recorded t key e).mActive.erase key := by
  intro hk
  obtain ⟨hne, hmem⟩ := AList.mem_erase.mp hk
  exact h.inactive_recorded hne hmem

/-- The transaction after a write, with the handle of the written entry released. -/
def written (t : LedgerTxn) (v : LedgerEntry) : LedgerTxn :=
  { recorded t v.key v with mActive := (recorded t v.key v).mActive.erase v.key }

theorem Applying.wrote (h : Applying K t root m) {root' : LedgerTxnRoot} (hread : root.ReadTo root')
    {v : LedgerEntry} (hv : Storable K (.LIVEENTRY v)) :
    Applying K (written t v) root' (overwrite m (.LIVEENTRY v)) := by
  have hown : (written t v).mEntry.lookup v.key = some (some v) := AList.lookup_insert _
  have hother : ∀ k, k ≠ v.key → (written t v).mEntry.lookup k = t.mEntry.lookup k :=
    fun k hk => AList.lookup_insert_ne hk
  exact h.write hread hv ⟨rfl, rfl⟩ (fun k => h.released v.key k v) hother
    (.inl ⟨hown, fun hnone => nomatch hnone⟩)

theorem deactivate_recorded (t : LedgerTxn) (root : LedgerTxnRoot) (v : LedgerEntry) :
    Ledger.deactivate (recorded t v.key v) root v.key = (.ok .done, written t v, root) := by
  have hactive : v.key ∈ (recorded t v.key v).mActive := (AList.mem_insert _).mpr (.inl rfl)
  exact if_pos hactive

/-- A loaded entry that is overwritten is written over what the load recorded. -/
theorem modify_recorded (t : LedgerTxn) (root : LedgerTxnRoot) (old v : LedgerEntry) :
    Ledger.modify (recorded t v.key old) root v = (.ok .done, recorded t v.key v, root) := by
  have hactive : (recorded t v.key old).mActive.lookup v.key = some .LedgerTxnEntry := AList.lookup_insert _
  rw [Ledger.modify, if_pos hactive]
  simp only [recorded, AList.insert_insert]

theorem applyEntry_live (h : Applying K t root m) {v : LedgerEntry} (hv : Storable K (.LIVEENTRY v)) :
    ∃ res t' root', applyEntry t root (.LIVEENTRY v) = (.ok res, t', root') ∧ root.ReadTo root' ∧
      Applying K t' root' (overwrite m (.LIVEENTRY v)) := by
  cases hview : view [t] root.mDatabase v.key with
  | none =>
    obtain ⟨root₁, hread₁, hload⟩ := load_none h.caches h.notSealed (h.inactive v.key) hview
    rw [← hread₁.db] at hview
    obtain ⟨root₂, hread₂, hcreate⟩ := create_of_none hread₁.1 h.notSealed hview
    have hread := hread₁.trans hread₂
    refine ⟨.done, written t v, root₂, ?_, hread, h.wrote hread hv⟩
    simp only [applyEntry, hload, andThen, hcreate, deactivate_recorded]
  | some old =>
    obtain ⟨root₁, hread, hload⟩ := load_some h.caches h.notSealed (h.inactive v.key) hview
    refine ⟨.done, written t v, root₁, ?_, hread, h.wrote hread hv⟩
    simp only [applyEntry, hload, andThen, modify_recorded, deactivate_recorded]

theorem applyEntry_dead (h : Applying K t root m) {key : LedgerKey} (hkey : Storable K (.DEADENTRY key)) :
    ∃ res t' root', applyEntry t root (.DEADENTRY key) = (.ok res, t', root') ∧ root.ReadTo root' ∧
      Applying K t' root' (overwrite m (.DEADENTRY key)) := by
  cases hview : view [t] root.mDatabase key with
  | none =>
    obtain ⟨root₁, hread, hload⟩ := load_none h.caches h.notSealed (h.inactive key) hview
    have hown : t.mEntry.lookup key = some none ∨ t.mEntry.lookup key = none ∧ root.mDatabase.load key = none := by
      rw [view_single, Ledger.overlay] at hview
      split at hview
      · next o hl => exact .inl (hl.trans (congrArg some hview))
      · next hl => exact .inr ⟨hl, hview⟩
    refine ⟨.done, t, root₁, ?_, hread, h.write hread hkey ⟨rfl, rfl⟩ h.inactive (fun _ _ => rfl)
      (hown.imp_left fun hl => ⟨hl, fun _ => h.erased key hl⟩)⟩
    simp only [applyEntry, hload, andThen]
  | some old =>
    obtain ⟨root₁, hread₁, hload⟩ := load_some h.caches h.notSealed (h.inactive key) hview
    obtain ⟨root₂, hread₂, herase⟩ := @erase_recorded t root₁ key hread₁.1 h.notSealed old
    have hread := hread₁.trans hread₂
    refine ⟨.done, erased (recorded t key old) root₁.mDatabase key, root₂, ?_, hread,
      h.write hread hkey ⟨rfl, rfl⟩ (fun k => h.released key k old) (fun k hk => ?_) ?_⟩
    · simp only [applyEntry, hload, andThen, herase]
    · rw [erased]
      split_ifs
      · exact (AList.lookup_insert_ne hk).trans (AList.lookup_insert_ne hk)
      · exact (AList.lookup_erase_ne hk).trans (AList.lookup_insert_ne hk)
    · rw [erased, hread₁.db]
      split_ifs with hrow
      · exact .inl ⟨AList.lookup_insert _, fun _ => hrow⟩
      · exact .inr ⟨AList.lookup_erase _ _, Option.not_isSome_iff_eq_none.mp hrow⟩

/-- **One round.** It does not fail, and the transaction goes on standing for the map. -/
theorem applyEntry_spec (h : Applying K t root m) {e : BucketEntry} (he : Storable K e) :
    ∃ res t' root', applyEntry t root e = (.ok res, t', root') ∧ root.ReadTo root' ∧
      Applying K t' root' (overwrite m e) := by
  cases e with
  | LIVEENTRY v => exact applyEntry_live h he
  | DEADENTRY key => exact applyEntry_dead h he

/-- Whatever the loop leaves, handling that in its transaction's map ends as handling everything at once. -/
theorem advanceLoop_spec (count : ℕ) {es : List BucketEntry} (hes : ∀ e ∈ es, Storable K e)
    (h : Applying K t root m) :
    ∃ es' t' root' m', advanceLoop count es t root = .ok (es', t', root') ∧ root.ReadTo root' ∧
      Applying K t' root' m' ∧ es'.foldl overwrite m' = es.foldl overwrite m := by
  induction es generalizing count t root m with
  | nil => exact ⟨[], t, root, m, rfl, h.caches.readTo, h, rfl⟩
  | cons e es ih =>
    obtain ⟨he, hrest⟩ := List.forall_mem_cons.mp hes
    obtain ⟨res, t₁, root₁, hround, hread, h₁⟩ := applyEntry_spec h he
    rw [advanceLoop, hround]
    dsimp only
    split_ifs
    · refine ⟨e :: es, t₁, root₁, overwrite m e, rfl, hread, h₁, ?_⟩
      rw [List.foldl_cons, overwrite_twice, List.foldl_cons]
    · obtain ⟨es', t', root', m', hloop, hread', h', hfold⟩ := ih (count + 1) hrest h₁
      exact ⟨es', t', root', m', hloop, hread.trans hread', h', hfold⟩

end Rounds

/-! ## Whole buckets -/

/-- The store has the map, as far as the tables have columns for it. -/
structure Store.Holds (s : Store) (K : Set LedgerKey) (m : LedgerKey → Option LedgerEntry) : Prop where
  caches : s.root.CacheOK
  rows : ∀ k, s.root.mDatabase.load k = (m k).map persisted
  tables : s.tables.Holds K s.root.mDatabase.load

/-- Only what is stored of the map matters. -/
theorem Store.Holds.congr {s : Store} {m m' : LedgerKey → Option LedgerEntry} (h : s.Holds K m)
    (hm : ∀ k, (m k).map persisted = (m' k).map persisted) : s.Holds K m' :=
  ⟨h.caches, fun k => (h.rows k).trans (hm k), h.tables⟩

theorem persisted_load (db : Ledger.Database) (k : LedgerKey) : (db.load k).map persisted = db.load k := by
  cases hl : db.load k with
  | none => rfl
  | some e => exact congrArg some (db.stored k e hl).2

/-- Sealing changes nothing where the ledger of last modification is not updated. -/
theorem lookup_sealed_notUpdating {t : LedgerTxn} (h : t.mShouldUpdateLastModified = false) (k : LedgerKey) :
    t.sealed.mEntry.lookup k = t.mEntry.lookup k := by
  have hstamp : t.stamp = id := by
    funext e
    exact if_neg (ne_true_of_eq_false h)
  unfold LedgerTxn.sealed
  split
  · rfl
  · rw [Ledger.lookup_maybeUpdateLastModified, hstamp]
    simp

theorem applying_new {root : LedgerTxnRoot} (hroot : root.CacheOK) :
    Applying K (LedgerTxn.new root.mHeader false) root root.mDatabase.load where
  caches := hroot
  notSealed := rfl
  notUpdating := rfl
  inactive _ := AList.notMem_empty _
  keyed _ _ h := nomatch h
  erased _ h := nomatch h
  keys k h := absurd h (AList.notMem_empty k)
  fits _ _ h := nomatch h
  values _ := rfl

/-- The commit of `advance` stores what the transaction stands for, in the root and in the tables. -/
theorem Applying.commit (hK : ToldApart K) {t : LedgerTxn} {root : LedgerTxnRoot} {tables : SqlTables}
    {m : LedgerKey → Option LedgerEntry} (h : Applying K t root m) (htables : tables.Holds K root.mDatabase.load) :
    ∃ root' tables', root.commitChild t.sealed = .ok root' ∧
      SqlTables.storeAll t.sealed.mEntry.entries tables = .ok tables' ∧ (Store.mk root' tables').Holds K m := by
  have hlook : ∀ k, t.sealed.mEntry.entries.dlookup k = t.mEntry.lookup k := lookup_sealed_notUpdating h.notUpdating
  obtain ⟨root', hstore, hload⟩ := Ledger.storeEntries_spec t.sealed.mEntry.entries t.sealed.mEntry.nodupKeys
    (fun k e he => h.keyed k e ((hlook k).symm.trans he)) (fun k hk => h.erased k ((hlook k).symm.trans hk))
    fun i hi _ => h.caches i hi
  obtain ⟨tables', hrun, hholds⟩ := htables.storeAll hK t.sealed.mEntry.entries t.sealed.mEntry.nodupKeys
    (fun k hk => by
      obtain ⟨o, ho⟩ := Option.isSome_iff_exists.mp (List.dlookup_isSome.mpr hk)
      exact h.keys k (AList.lookup_isSome.mp (Option.isSome_of_eq_some ((hlook k).symm.trans ho))))
    (fun k e he => ⟨h.keyed k e ((hlook k).symm.trans he), h.fits k e ((hlook k).symm.trans he)⟩)
    fun k hk => h.erased k ((hlook k).symm.trans hk)
  have hrows : root'.mDatabase.load = Ledger.storedOver t.sealed.mEntry.entries root.mDatabase.load := funext hload
  refine ⟨{ root' with
      mHeader := t.sealed.mHeader
      mEntryCache := root'.mEntryCache.clear
      mBestOffersCache := root'.mBestOffersCache.clear }, tables', by rw [LedgerTxnRoot.commitChild, hstore], hrun,
    Util.LruCache.all_clear _ _, fun k => ?_, by rw [← hrows] at hholds; exact hholds⟩
  change root'.mDatabase.load k = _
  rw [hrows, Ledger.storedOver, hlook, ← h.values k, view_single, Ledger.overlay]
  cases t.mEntry.lookup k with
  | some o => rfl
  | none => exact (persisted_load root.mDatabase k).symm

/-- **One call of `advance`.** It does not fail, and handling what it leaves ends as handling everything at
once. -/
theorem advance_spec (hK : ToldApart K) {es : List BucketEntry} (hes : ∀ e ∈ es, Storable K e) {s : Store}
    {m : LedgerKey → Option LedgerEntry} (h : s.Holds K m) :
    ∃ es' s' m', advance es s = .ok (es', s') ∧ s'.Holds K m' ∧
      ∀ k, (es'.foldl overwrite m' k).map persisted = (es.foldl overwrite m k).map persisted := by
  obtain ⟨es', t, root, m', hloop, hread, happlying, hfold⟩ := advanceLoop_spec 0 hes (applying_new h.caches)
  have htables : s.tables.Holds K root.mDatabase.load := by
    rw [hread.db]
    exact h.tables
  obtain ⟨root', tables', hcommit, hstore, hholds⟩ := happlying.commit hK htables
  refine ⟨es', ⟨root', tables'⟩, m', ?_, hholds, fun k => ?_⟩
  · simp only [advance, hloop, bind, Except.bind, hcommit, hstore]
    rfl
  · rw [hfold]
    refine persisted_foldl_overwrite (fun k => ?_) es k
    rw [persisted_load, h.rows]

theorem applyLoop_spec (hK : ToldApart K) {es : List BucketEntry} (hes : ∀ e ∈ es, Storable K e) {s : Store}
    {m : LedgerKey → Option LedgerEntry} (h : s.Holds K m) :
    ∃ s', applyLoop es s = .ok s' ∧ s'.Holds K (es.foldl overwrite m) := by
  fun_induction applyLoop es s generalizing m with
  | case1 s => exact ⟨s, rfl, h⟩
  | case2 s e es what hfail =>
    obtain ⟨es', s', m', hadvance, -, -⟩ := advance_spec hK hes h
    cases hfail.symm.trans hadvance
  | case3 s e es es' s' hadvance ih =>
    obtain ⟨es'', s'', m', hadvance', hholds, hfold⟩ := advance_spec hK hes h
    obtain ⟨rfl, rfl⟩ := Prod.mk.inj (Except.ok.inj (hadvance.symm.trans hadvance'))
    have hrest : ∀ e ∈ es', Storable K e := fun e he =>
      hes _ (List.mem_cons_of_mem _ ((advance_suffix hadvance).subset he))
    obtain ⟨s₂, hrun, hholds₂⟩ := ih hrest hholds
    exact ⟨s₂, hrun, hholds₂.congr hfold⟩

/-- **Applying a bucket** overwrites the map that the store holds. -/
theorem apply_spec (hK : ToldApart K) {b : Bucket} (hb : ∀ e ∈ b.entries, Storable K e) {s : Store}
    {m : LedgerKey → Option LedgerEntry} (h : s.Holds K m) :
    ∃ s', b.apply s = .ok s' ∧ s'.Holds K (b.overwrites m) :=
  applyLoop_spec hK hb h

end Entries

end ZaggCore.Buckets
