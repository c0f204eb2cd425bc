import Mathlib
import ZaggCore.Xdr.LedgerEntries
import ZaggCore.Util.LruCache

/-! # Nested ledger transactions

The model of `ledger/LedgerTxn.cpp`: a root over the SQL tables and a stack of `LedgerTxn`, innermost
first, of which every one but the innermost has its `mChild` set. The root's caches are `mutable`, so
everything that reads through to the root returns it.

The tables are one finite map of rows by ledger key; the keys that the statements find rows by are coarser, and
`SqlTables.lean` says over which ledger keys they come to the same. A row holds what the `INSERT` and `UPDATE`
statements write: every field of the entry except `accountMarker`, for which the accounts table has no column.
The double that a price `n / d` evaluates to is a parameter, `quotient`. An error is the text of the exception;
those of `printErrorAndAbort` end the process. -/

namespace ZaggCore.Ledger
set_option autoImplicit false
set_option maxHeartbeats 250000

open Util

/-! ## The tables -/

/-- What the tables give back of an entry written to them. -/
def persisted (e : LedgerEntry) : LedgerEntry :=
  match e.data with
  | .account a => { e with data := .account { a with accountMarker := [] } }
  | _ => e

@[simp] theorem key_persisted (e : LedgerEntry) : (persisted e).key = e.key := by
  obtain ⟨seq, _ | _ | _ | _⟩ := e <;> rfl

@[simp] theorem persisted_persisted (e : LedgerEntry) : persisted (persisted e) = persisted e := by
  obtain ⟨seq, _ | _ | _ | _⟩ := e <;> rfl

/-- The rows of the four tables. -/
structure Database where
  rows : AList fun _ : LedgerKey => LedgerEntry
  stored : ∀ k e, rows.lookup k = some e → e.key = k ∧ persisted e = e

/-- `loadAccount`, `loadTrustLine`, `loadOffer`, `loadData`. -/
def Database.load (db : Database) (key : LedgerKey) : Option LedgerEntry := db.rows.lookup key

theorem lookup_insert_cases {β : LedgerKey → Type} {m : AList β} {k k' : LedgerKey} {b : β k}
    {b' : β k'} (h : (m.insert k b).lookup k' = some b') :
    (∃ hk : k = k', hk ▸ b = b') ∨ k' ≠ k ∧ m.lookup k' = some b' := by
  by_cases hk : k = k'
  · subst hk
    rw [AList.lookup_insert] at h
    exact .inl ⟨rfl, Option.some.inj h⟩
  · rw [AList.lookup_insert_ne (Ne.symm hk)] at h
    exact .inr ⟨Ne.symm hk, h⟩

theorem Database.keyed (db : Database) (k : LedgerKey) (e : LedgerEntry) (h : db.load k = some e) :
    e.key = k :=
  (db.stored k e h).1

/-- An `INSERT` needs the key to be free, an `UPDATE` a row of that key. -/
def Database.insertOrUpdate (db : Database) (entry : LedgerEntry) (isInsert : Bool) :
    Except String Database :=
  if (db.load entry.key).isNone = isInsert then
    .ok ⟨db.rows.insert entry.key (persisted entry), fun k e h => by
      rcases lookup_insert_cases h with ⟨rfl, rfl⟩ | ⟨_, h⟩
      · exact ⟨key_persisted entry, persisted_persisted entry⟩
      · exact db.stored k e h⟩
  else .error "could not update SQL"

/-- A `DELETE` has to affect one row. -/
def Database.delete (db : Database) (key : LedgerKey) : Except String Database :=
  if (db.load key).isSome then
    .ok ⟨db.rows.erase key, fun k e h => by
      by_cases hk : k = key
      · rw [hk, AList.lookup_erase] at h
        cases h
      · exact db.stored k e (by rwa [AList.lookup_erase_ne hk] at h)⟩
  else .error "Could not update data in SQL"

/-! ## The root -/

structure BestOffersCacheEntry where
  bestOffers : List LedgerEntry
  allLoaded : Bool

structure LedgerTxnRoot where
  mDatabase : Database
  mHeader : LedgerHeader
  mEntryCache : LruCache LedgerKey (Option LedgerEntry)
  mBestOffersCache : LruCache (Asset × Asset) BestOffersCacheEntry

def LedgerTxnRoot.getNewestVersion (root : LedgerTxnRoot) (key : LedgerKey) :
    Option LedgerEntry × LedgerTxnRoot :=
  match root.mEntryCache.find? key with
  | some entry => (entry, { root with mEntryCache := root.mEntryCache.touch key })
  | none =>
    let entry := root.mDatabase.load key
    (entry, { root with mEntryCache := root.mEntryCache.put key entry })

/-! ## Transactions -/

/-- Which handle is active for a key. -/
inductive EntryImpl where
  | LedgerTxnEntry
  | ConstLedgerTxnEntry
  deriving DecidableEq

/-- Entries by key; `none` is the null pointer of an erased entry. -/
abbrev EntryMap := AList fun _ : LedgerKey => Option LedgerEntry

/-- The entries an iterator over an entry map has yet to yield. -/
abbrev EntryIterator := List (Sigma fun _ : LedgerKey => Option LedgerEntry)

structure LedgerTxn where
  mHeader : LedgerHeader
  mActiveHeader : Bool
  mEntry : EntryMap
  mActive : AList fun _ : LedgerKey => EntryImpl
  mShouldUpdateLastModified : Bool
  mIsSealed : Bool

/-- `LedgerTxn::Impl::getNewestVersion` of the first transaction, with its parents and the root. -/
def getNewestVersion : List LedgerTxn → LedgerTxnRoot → LedgerKey → Option LedgerEntry × LedgerTxnRoot
  | [], root, key => root.getNewestVersion key
  | t :: parents, root, key =>
    match t.mEntry.lookup key with
    | some entry => (entry, root)
    | none => getNewestVersion parents root key

/-- `getHeader` of the first transaction or of the root. -/
def getHeader : List LedgerTxn → LedgerTxnRoot → LedgerHeader
  | [], root => root.mHeader
  | t :: _, _ => t.mHeader

def LedgerTxn.stamp (t : LedgerTxn) (e : LedgerEntry) : LedgerEntry :=
  if t.mShouldUpdateLastModified then { e with lastModifiedLedgerSeq := t.mHeader.ledgerSeq } else e

/-- `maybeUpdateLastModified`: stamp every entry with the ledger of the header. -/
def LedgerTxn.maybeUpdateLastModified (t : LedgerTxn) : EntryMap where
  entries := t.mEntry.entries.map (Sigma.map id fun _ e => e.map t.stamp)
  nodupKeys := t.mEntry.nodupKeys.map₂ _

/-- `maybeUpdateLastModifiedThenInvokeThenSeal`: the transaction that the invoked function sees. -/
def LedgerTxn.sealed (t : LedgerTxn) : LedgerTxn :=
  if t.mIsSealed then t
  else { t with mEntry := t.maybeUpdateLastModified, mActive := ∅, mActiveHeader := false, mIsSealed := true }

/-- `addChild` and the constructor of the child. -/
def LedgerTxn.addChild (t : LedgerTxn) : LedgerTxn := { t with mActive := ∅, mActiveHeader := false }

def LedgerTxn.new (header : LedgerHeader) (shouldUpdateLastModified : Bool) : LedgerTxn where
  mHeader := header
  mActiveHeader := false
  mEntry := ∅
  mActive := ∅
  mShouldUpdateLastModified := shouldUpdateLastModified
  mIsSealed := false

/-! ### Committing -/

/-- The loop of `LedgerTxn::Impl::commitChild` over the child's entries, into `mEntry`. -/
def commitEntries (parents : List LedgerTxn) : EntryIterator →
    LedgerTxnRoot → EntryMap → EntryMap × LedgerTxnRoot
  | [], root, mEntry => (mEntry, root)
  | ⟨key, some e⟩ :: iter, root, mEntry => commitEntries parents iter root (mEntry.insert key (some e))
  | ⟨key, none⟩ :: iter, root, mEntry =>
    match getNewestVersion parents root key with
    | (none, root) => commitEntries parents iter root (mEntry.erase key)
    | (some _, root) => commitEntries parents iter root (mEntry.insert key none)

/-- `storeAccount`, `storeData`, `storeOffer`, `storeTrustLine`. -/
def LedgerTxnRoot.store (root : LedgerTxnRoot) (key : LedgerKey) :
    Option LedgerEntry → Except String LedgerTxnRoot
  | some entry => do
    let (previous, root) := root.getNewestVersion key
    let db ← root.mDatabase.insertOrUpdate entry previous.isNone
    return { root with mDatabase := db }
  | none => do
    let db ← root.mDatabase.delete key
    return { root with mDatabase := db }

/-- The loop of `LedgerTxnRoot::Impl::commitChild`. -/
def storeEntries : EntryIterator → LedgerTxnRoot →
    Except String LedgerTxnRoot
  | [], root => .ok root
  | kv :: iter, root => do
    let root ← root.store kv.1 kv.2
    storeEntries iter root

/-- `LedgerTxnRoot::Impl::commitChild`; the caches are cleared. -/
def LedgerTxnRoot.commitChild (root : LedgerTxnRoot) (child : LedgerTxn) : Except String LedgerTxnRoot :=
  match storeEntries child.mEntry.entries root with
  | .error _ => .error "fatal error during commit to LedgerTxnRoot: "
  | .ok root =>
    .ok { root with
      mHeader := child.mHeader
      mEntryCache := root.mEntryCache.clear
      mBestOffersCache := root.mBestOffersCache.clear }

/-! ### What changed -/

inductive LedgerEntryChange where
  | LEDGER_ENTRY_STATE (state : LedgerEntry)
  | LEDGER_ENTRY_UPDATED (updated : LedgerEntry)
  | LEDGER_ENTRY_REMOVED (removed : LedgerKey)
  | LEDGER_ENTRY_CREATED (created : LedgerEntry)
  deriving DecidableEq

structure EntryDelta where
  key : LedgerKey
  current : Option LedgerEntry
  previous : Option LedgerEntry

/-- The loop of `getDelta`. -/
def deltaEntries (parents : List LedgerTxn) : EntryIterator →
    LedgerTxnRoot → List EntryDelta × LedgerTxnRoot
  | [], root => ([], root)
  | kv :: entries, root =>
    let (previous, root) := getNewestVersion parents root kv.1
    let (rest, root) := deltaEntries parents entries root
    (⟨kv.1, kv.2, previous⟩ :: rest, root)

/-- One round of the loop of `getChanges`. -/
def EntryDelta.changes (d : EntryDelta) : Except String (List LedgerEntryChange) :=
  match d.previous, d.current with
  | some previous, some entry => .ok [.LEDGER_ENTRY_STATE previous, .LEDGER_ENTRY_UPDATED entry]
  | some previous, none => .ok [.LEDGER_ENTRY_STATE previous, .LEDGER_ENTRY_REMOVED d.key]
  | none, some entry => .ok [.LEDGER_ENTRY_CREATED entry]
  | none, none => .error "assert(entry)"

/-- The loop of `getChanges`. -/
def changesOf : List EntryDelta → Except String (List LedgerEntryChange)
  | [] => .ok []
  | d :: ds => do
    let changes ← d.changes
    let rest ← changesOf ds
    return changes ++ rest

/-- The loop of `getLiveEntries`. -/
def liveEntries (entries : EntryIterator) : List LedgerEntry :=
  entries.filterMap Sigma.snd

/-- The loop of `getDeadEntries`. -/
def deadEntries (entries : EntryIterator) : List LedgerKey :=
  (entries.filter fun kv => kv.2.isNone).map Sigma.fst

/-! ## The ledger that a stack of transactions stands for -/

/-- The newest version of a key: the entry of the innermost transaction that has one, else the row. -/
def view : List LedgerTxn → Database → LedgerKey → Option LedgerEntry
  | [], db, key => db.load key
  | t :: parents, db, key =>
    match t.mEntry.lookup key with
    | some entry => entry
    | none => view parents db key

/-- Every entry of the map is under its own key. -/
def LedgerTxn.Keyed (t : LedgerTxn) : Prop := ∀ k e, t.mEntry.lookup k = some (some e) → e.key = k

theorem view_key {txns : List LedgerTxn} (hkeyed : ∀ t ∈ txns, t.Keyed) {db : Database} {k : LedgerKey}
    {e : LedgerEntry} (h : view txns db k = some e) : e.key = k := by
  induction txns with
  | nil => exact db.keyed k e h
  | cons t parents ih =>
    rw [view] at h
    split at h
    · next entry hl => exact hkeyed t List.mem_cons_self k e (hl.trans (congrArg some h))
    · exact ih (fun t' ht' => hkeyed t' (List.mem_cons_of_mem _ ht')) h

/-- The entry cache agrees with the tables. -/
def LedgerTxnRoot.CacheOK (root : LedgerTxnRoot) : Prop :=
  root.mEntryCache.All fun key entry => entry = root.mDatabase.load key

/-- `root'` is `root` after some reads: only the entry cache may differ, and it is still right. -/
def LedgerTxnRoot.ReadTo (root root' : LedgerTxnRoot) : Prop :=
  root'.CacheOK ∧ ∃ cache, root' = { root with mEntryCache := cache }

theorem LedgerTxnRoot.CacheOK.readTo {root : LedgerTxnRoot} (h : root.CacheOK) : root.ReadTo root :=
  ⟨h, root.mEntryCache, rfl⟩

theorem LedgerTxnRoot.ReadTo.trans {root root' root'' : LedgerTxnRoot} (h₁ : root.ReadTo root')
    (h₂ : root'.ReadTo root'') : root.ReadTo root'' := by
  obtain ⟨_, c, rfl⟩ := h₁
  obtain ⟨hok, c', rfl⟩ := h₂
  exact ⟨hok, c', rfl⟩

theorem LedgerTxnRoot.ReadTo.db {root root' : LedgerTxnRoot} (h : root.ReadTo root') :
    root'.mDatabase = root.mDatabase := by
  obtain ⟨_, _, rfl⟩ := h
  rfl

theorem LedgerTxnRoot.getNewestVersion_spec {root : LedgerTxnRoot} (h : root.CacheOK) (key : LedgerKey) :
    (root.getNewestVersion key).1 = root.mDatabase.load key ∧ root.ReadTo (root.getNewestVersion key).2 := by
  unfold LedgerTxnRoot.getNewestVersion
  cases hf : root.mEntryCache.find? key with
  | some entry => exact ⟨LruCache.All.find? h hf, LruCache.All.touch h key, _, rfl⟩
  | none => exact ⟨rfl, LruCache.All.put h rfl, _, rfl⟩

/-- A read through the stack gives the newest version. -/
theorem getNewestVersion_spec (txns : List LedgerTxn) {root : LedgerTxnRoot} (h : root.CacheOK)
    (key : LedgerKey) :
    (getNewestVersion txns root key).1 = view txns root.mDatabase key ∧
      root.ReadTo (getNewestVersion txns root key).2 := by
  induction txns with
  | nil => exact root.getNewestVersion_spec h key
  | cons t parents ih =>
    rw [getNewestVersion, view]
    cases t.mEntry.lookup key with
    | some entry => exact ⟨rfl, h.readTo⟩
    | none => exact ih

@[simp] theorem lookup_maybeUpdateLastModified (t : LedgerTxn) (key : LedgerKey) :
    t.maybeUpdateLastModified.lookup key = (t.mEntry.lookup key).map fun e => e.map t.stamp :=
  List.dlookup_map₂ (l := t.mEntry.entries) (f := fun _ (e : Option LedgerEntry) => e.map t.stamp) key

theorem lookup_sealed (t : LedgerTxn) (key : LedgerKey) : ∃ f : LedgerEntry → LedgerEntry,
    (∀ e, (f e).data = e.data) ∧ t.sealed.mEntry.lookup key = (t.mEntry.lookup key).map (Option.map f) := by
  unfold LedgerTxn.sealed
  split
  · exact ⟨id, fun _ => rfl, by simp⟩
  · refine ⟨t.stamp, fun e => ?_, lookup_maybeUpdateLastModified t key⟩
    unfold LedgerTxn.stamp
    split <;> rfl

/-! ## What commits do -/

theorem dlookup_cons_of_ne {kv : Sigma fun _ : LedgerKey => Option LedgerEntry} {iter : EntryIterator}
    {k : LedgerKey} (h : k ≠ kv.1) : List.dlookup k (kv :: iter) = List.dlookup k iter :=
  List.dlookup_cons_ne iter kv h

/-- The entry a parent has after a commit that has `entry` for the key. -/
def mergedEntry (older : Option LedgerEntry) : Option LedgerEntry → Option (Option LedgerEntry)
  | some e => some (some e)
  | none => if older.isSome then some none else none

theorem commitEntries_spec (parents : List LedgerTxn)
    (iter : EntryIterator) (hnd : iter.NodupKeys)
    {root : LedgerTxnRoot} (hroot : root.CacheOK) (m : EntryMap) :
    root.ReadTo (commitEntries parents iter root m).2 ∧
      ∀ k, (commitEntries parents iter root m).1.lookup k
        = match iter.dlookup k with
          | some entry => mergedEntry (view parents root.mDatabase k) entry
          | none => m.lookup k := by
  induction iter generalizing root m with
  | nil => exact ⟨hroot.readTo, fun _ => rfl⟩
  | cons kv iter ih =>
    obtain ⟨key, entry⟩ := kv
    obtain ⟨hkey, hnd'⟩ := List.nodupKeys_cons.mp hnd
    have hiter : iter.dlookup key = none := List.dlookup_eq_none.mpr hkey
    cases entry with
    | some e =>
      rw [commitEntries]
      obtain ⟨hread, hlook⟩ := ih hnd' hroot (m.insert key (some e))
      refine ⟨hread, fun k => ?_⟩
      rw [hlook k]
      rcases eq_or_ne k key with rfl | hk
      · rw [hiter, List.dlookup_cons_eq]
        simp [mergedEntry]
      · rw [dlookup_cons_of_ne hk, AList.lookup_insert_ne hk]
    | none =>
      rw [commitEntries]
      obtain ⟨hnewest, hread⟩ := getNewestVersion_spec parents hroot key
      generalize getNewestVersion parents root key = r at hnewest hread
      obtain ⟨newest, root'⟩ := r
      dsimp only at hnewest hread
      have hdb := hread.db
      cases newest with
      | none =>
        obtain ⟨hread', hlook⟩ := ih hnd' hread.1 (m.erase key)
        refine ⟨hread.trans hread', fun k => ?_⟩
        dsimp only
        rw [hlook k, hdb]
        rcases eq_or_ne k key with rfl | hk
        · rw [hiter, List.dlookup_cons_eq]
          simp [mergedEntry, ← hnewest]
        · rw [dlookup_cons_of_ne hk, AList.lookup_erase_ne hk]
      | some e =>
        obtain ⟨hread', hlook⟩ := ih hnd' hread.1 (m.insert key none)
        refine ⟨hread.trans hread', fun k => ?_⟩
        dsimp only
        rw [hlook k, hdb]
        rcases eq_or_ne k key with rfl | hk
        · rw [hiter, List.dlookup_cons_eq]
          simp [mergedEntry, ← hnewest]
        · rw [dlookup_cons_of_ne hk, AList.lookup_insert_ne hk]

theorem insertOrUpdate_spec (db : Database) (entry : LedgerEntry) :
    ∃ db', db.insertOrUpdate entry (db.load entry.key).isNone = .ok db' ∧
      ∀ k, db'.load k = if k = entry.key then some (persisted entry) else db.load k := by
  refine ⟨_, if_pos rfl, fun k => ?_⟩
  unfold Database.load
  split_ifs with hk
  · subst hk
    exact AList.lookup_insert _
  · exact AList.lookup_insert_ne hk

theorem delete_spec (db : Database) (key : LedgerKey) (h : (db.load key).isSome) :
    ∃ db', db.delete key = .ok db' ∧ ∀ k, db'.load k = if k = key then none else db.load k := by
  refine ⟨_, if_pos h, fun k => ?_⟩
  unfold Database.load
  split_ifs with hk
  · subst hk
    exact AList.lookup_erase _ _
  · exact AList.lookup_erase_ne hk

/-- Storing an entry under its own key, or erasing a row that exists, affects that row. -/
theorem store_spec {root : LedgerTxnRoot} {key : LedgerKey} {entry : Option LedgerEntry}
    (hkeyed : ∀ e, entry = some e → e.key = key)
    (herased : entry = none → (root.mDatabase.load key).isSome)
    (hcache : root.mEntryCache.All fun k v => k = key → v = root.mDatabase.load k) :
    ∃ root', root.store key entry = .ok root' ∧
      (∀ k, root'.mDatabase.load k = if k = key then entry.map persisted else root.mDatabase.load k) ∧
      ∀ P : LedgerKey → Option LedgerEntry → Prop, (∀ v, P key v) → root.mEntryCache.All P →
        root'.mEntryCache.All P := by
  cases entry with
  | none =>
    obtain ⟨db', hdel, hload⟩ := delete_spec root.mDatabase key (herased rfl)
    refine ⟨{ root with mDatabase := db' }, ?_, hload, fun P _ hP => hP⟩
    simp [LedgerTxnRoot.store, hdel]
  | some e =>
    have hkey := hkeyed e rfl
    have hread : (root.getNewestVersion key).1 = root.mDatabase.load key ∧
        (root.getNewestVersion key).2.mDatabase = root.mDatabase ∧
        ∀ P : LedgerKey → Option LedgerEntry → Prop, (∀ v, P key v) → root.mEntryCache.All P →
          (root.getNewestVersion key).2.mEntryCache.All P := by
      unfold LedgerTxnRoot.getNewestVersion
      cases hf : root.mEntryCache.find? key with
      | some entry => exact ⟨LruCache.All.find? hcache hf rfl, rfl, fun P _ hP => hP.touch key⟩
      | none => exact ⟨rfl, rfl, fun P hkeyP hP => hP.put (hkeyP _)⟩
    obtain ⟨hprev, hdb, hcacheP⟩ := hread
    obtain ⟨db', hput, hload⟩ := insertOrUpdate_spec root.mDatabase e
    rw [hkey] at hput hload
    refine ⟨{ (root.getNewestVersion key).2 with mDatabase := db' }, ?_, hload, hcacheP⟩
    simp [LedgerTxnRoot.store, hprev, hdb, hput]

/-- Entries under their own keys, and erased ones only for rows that exist, are all stored. -/
theorem storeEntries_spec (iter : EntryIterator) (hnd : iter.NodupKeys)
    (hkeyed : ∀ k e, iter.dlookup k = some (some e) → e.key = k) {root : LedgerTxnRoot}
    (herased : ∀ k, iter.dlookup k = some none → (root.mDatabase.load k).isSome)
    (hcache : root.mEntryCache.All fun k v => k ∈ iter.keys → v = root.mDatabase.load k) :
    ∃ root', storeEntries iter root = .ok root' ∧
      ∀ k, root'.mDatabase.load k = match iter.dlookup k with
        | some entry => entry.map persisted
        | none => root.mDatabase.load k := by
  induction iter generalizing root with
  | nil => exact ⟨root, rfl, fun _ => rfl⟩
  | cons kv iter ih =>
    obtain ⟨key, entry⟩ := kv
    obtain ⟨hkey, hnd'⟩ := List.nodupKeys_cons.mp hnd
    have hhead : List.dlookup key (⟨key, entry⟩ :: iter : EntryIterator) = some entry :=
      List.dlookup_cons_eq _ _ _
    have htail : ∀ {k}, k ∈ iter.keys → k ≠ key := fun hk heq => hkey (heq ▸ hk)
    have hlook : ∀ {k entry'}, iter.dlookup k = some entry' →
        k ≠ key ∧ List.dlookup k (⟨key, entry⟩ :: iter : EntryIterator) = some entry' := by
      intro k entry' h
      have hk : k ≠ key := htail (List.dlookup_isSome.mp (Option.isSome_of_eq_some h))
      exact ⟨hk, (dlookup_cons_of_ne hk).trans h⟩
    obtain ⟨root₁, hstore, hload, hcache₁⟩ := @store_spec root key entry
      (fun e he => hkeyed key e (he ▸ hhead)) (fun he => herased key (he ▸ hhead))
      (fun i hi hk => hcache i hi (by simp [hk]))
    obtain ⟨root₂, hrest, hload₂⟩ := @ih hnd'
      (fun k e h => hkeyed k e (hlook h).2) root₁
      (fun k h => by
        rw [hload, if_neg (hlook h).1]
        exact herased k (hlook h).2)
      (hcache₁ _ (fun v hk => absurd rfl (htail hk)) fun i hi hk => by
        rw [hload, if_neg (htail hk)]
        exact hcache i hi (by simp [hk]))
    refine ⟨root₂, by rw [storeEntries, hstore]; exact hrest, fun k => ?_⟩
    rw [hload₂]
    rcases eq_or_ne k key with rfl | hk
    · rw [List.dlookup_eq_none.mpr hkey, hhead]
      exact (hload k).trans (if_pos rfl)
    · rw [dlookup_cons_of_ne hk, hload, if_neg hk]

/-- A read of the entries against the older versions. -/
theorem deltaEntries_spec (parents : List LedgerTxn) (entries : EntryIterator) {root : LedgerTxnRoot}
    (hroot : root.CacheOK) :
    root.ReadTo (deltaEntries parents entries root).2 ∧ (deltaEntries parents entries root).1
      = entries.map fun kv => ⟨kv.1, kv.2, view parents root.mDatabase kv.1⟩ := by
  induction entries generalizing root with
  | nil => exact ⟨hroot.readTo, rfl⟩
  | cons kv entries ih =>
    obtain ⟨hnewest, hread⟩ := getNewestVersion_spec parents hroot kv.1
    obtain ⟨hread', heq⟩ := ih hread.1
    rw [deltaEntries, List.map_cons]
    dsimp only
    rw [heq, hread.db, hnewest]
    exact ⟨hread.trans hread', rfl⟩

end ZaggCore.Ledger
