import Mathlib
import ZaggCore.Ledger.LedgerRuns
import ZaggCore.Ledger.SqlTables

/-! # Runs that answer as a flat map

A run of calls, the flat map that the accepted calls make, and the SQL tables that the outermost commits write to,
side by side. Over keys that the tables tell apart the tables hold what the root is taken to hold, and along a run
whose commits into the root lose nothing every call answers as the map says. -/

namespace ZaggCore.Ledger
set_option autoImplicit false
set_option maxHeartbeats 250000

open Util Foundations

variable {Q : Type} [LinearOrder Q] (quotient : Price → Q)

/-! ## What the calls answer -/

/-- What `getChanges` lists for a key that is not absent at both times. -/
def EntryDelta.listed (d : EntryDelta) : List LedgerEntryChange :=
  match d.previous, d.current with
  | some previous, some entry => [.LEDGER_ENTRY_STATE previous, .LEDGER_ENTRY_UPDATED entry]
  | some previous, none => [.LEDGER_ENTRY_STATE previous, .LEDGER_ENTRY_REMOVED d.key]
  | none, some entry => [.LEDGER_ENTRY_CREATED entry]
  | none, none => []

/-- A list of deltas covers the change from one flat map to another. -/
structure Covers (deltas : List EntryDelta) (opening now : LedgerKey → Option LedgerEntryData) :
    Prop where
  nodup : (deltas.map EntryDelta.key).Nodup
  previous : ∀ d ∈ deltas, value d.previous = opening d.key
  current : ∀ d ∈ deltas, value d.current = now d.key
  present : ∀ d ∈ deltas, d.previous.isSome ∨ d.current.isSome
  every : ∀ k, opening k ≠ now k → ∃ d ∈ deltas, d.key = k

/-- The deltas of a transaction that stands for a map over the map at its opening. -/
theorem LedgerTxn.Holds.covers {t : LedgerTxn} {older : LedgerKey → Option LedgerEntry}
    {opening now : LedgerKey → Option LedgerEntryData} {header : LedgerHeader}
    (h : t.Holds older now header) (hopening : ∀ k, value (older k) = opening k) :
    Covers (t.mEntry.entries.map fun kv => ⟨kv.1, kv.2, older kv.1⟩) opening now := by
  have hlook : ∀ kv ∈ t.mEntry.entries, t.mEntry.lookup kv.1 = some kv.2 := fun kv hkv =>
    List.mem_dlookup t.mEntry.nodupKeys hkv
  refine ⟨?_, ?_, ?_, ?_, ?_⟩
  · rw [List.map_map]
    exact t.mEntry.nodupKeys
  · intro d hd
    obtain ⟨kv, -, rfl⟩ := List.mem_map.mp hd
    exact hopening kv.1
  · intro d hd
    obtain ⟨kv, hkv, rfl⟩ := List.mem_map.mp hd
    rw [← h.values kv.1, overlay, hlook kv hkv]
  · intro d hd
    obtain ⟨⟨k, entry⟩, hkv, rfl⟩ := List.mem_map.mp hd
    cases entry with
    | some e => exact .inr rfl
    | none => exact .inl (h.erased k (hlook _ hkv))
  · intro k hne
    cases hl : t.mEntry.lookup k with
    | none =>
      have hsame : value (overlay t.mEntry older k) = value (older k) := by rw [overlay, hl]
      exact absurd (by rw [← hopening, ← h.values, hsame]) hne
    | some entry =>
      have hmem : (⟨k, entry⟩ : Sigma fun _ : LedgerKey => Option LedgerEntry) ∈ t.mEntry.entries :=
        List.of_mem_dlookup hl
      exact ⟨_, List.mem_map_of_mem hmem, rfl⟩

/-- The assert of `getChanges` holds. -/
theorem Covers.changesOf {deltas : List EntryDelta} {opening now : LedgerKey → Option LedgerEntryData}
    (h : Covers deltas opening now) : changesOf deltas = .ok (deltas.flatMap EntryDelta.listed) := by
  have hpresent := h.present
  clear h
  induction deltas with
  | nil => rfl
  | cons d ds ih =>
    obtain ⟨hd, hds⟩ := List.forall_mem_cons.mp hpresent
    have hchanges : d.changes = .ok d.listed := by
      obtain ⟨key, current, previous⟩ := d
      cases previous <;> cases current <;> first | rfl | simp at hd
    rw [Ledger.changesOf, hchanges, ih hds]
    rfl

/-! ## The tables along a run -/

/-- The keys that a call names. -/
def Call.keys : Call → List LedgerKey
  | .create entry | .modify entry => [entry.key]
  | .load key | .loadWithoutRecord key | .deactivate key | .erase key | .getNewestVersion key => [key]
  | _ => []

/-- The entry that a call writes. -/
def Call.entry : Call → Option LedgerEntry
  | .create entry | .modify entry => some entry
  | _ => none

/-- The tables are written when the outermost transaction is committed. -/
def stepTables (s : LedgerState) (tables : Except String SqlTables) (depth : ℕ) (call : Call) :
    Except String SqlTables :=
  match s.txns, depth, call with
  | [t], 0, .commit => tables >>= SqlTables.storeAll t.sealed.mEntry.entries
  | _, _, _ => tables

/-- The tables tell the keys of the rows and of the calls apart, and the entries fit them. -/
structure WellFormed (K : Set LedgerKey) (db : Database) (calls : List (ℕ × Call)) : Prop where
  toldApart : ToldApart K
  keys : ∀ c ∈ calls, ∀ k ∈ c.2.keys, k ∈ K
  entries : ∀ c ∈ calls, ∀ e ∈ c.2.entry, fitsTables e.data = true
  rows : ∀ k e, db.load k = some e → k ∈ K ∧ fitsTables e.data = true

/-- The entries of a flat map have keys that are told apart, and fit the tables. -/
def Known (K : Set LedgerKey) (m : LedgerKey → Option LedgerEntryData) : Prop :=
  ∀ k d, m k = some d → k ∈ K ∧ fitsTables d = true

theorem Known.update {K : Set LedgerKey} {m : LedgerKey → Option LedgerEntryData} (h : Known K m) {key : LedgerKey}
    {entry : Option LedgerEntryData} (hentry : ∀ d ∈ entry, key ∈ K ∧ fitsTables d = true) :
    Known K (Function.update m key entry) := by
  intro k d hd
  rcases eq_or_ne k key with rfl | hne
  · rw [Function.update_self] at hd
    exact hentry d hd
  · rw [Function.update_of_ne hne] at hd
    exact h k d hd

/-- The same for the map and those that are saved. -/
def Flat.Known (K : Set LedgerKey) (f : Flat) : Prop :=
  Ledger.Known K f.now ∧ ∀ saved ∈ f.saved, Ledger.Known K saved.1

theorem Flat.Known.exec {K : Set LedgerKey} {f : Flat} (h : f.Known K) (depth : ℕ) {call : Call}
    (hkeys : ∀ k ∈ call.keys, k ∈ K) (hentry : ∀ e ∈ call.entry, fitsTables e.data = true) :
    (f.exec depth call).Known K := by
  obtain ⟨hnow, hsaved⟩ := h
  have hwritten : ∀ e ∈ call.entry, e.key ∈ call.keys → Ledger.Known K (Function.update f.now e.key (some e.data)) := by
    intro e he hkey
    refine hnow.update fun d hd => ?_
    obtain rfl := Option.some.inj hd
    exact ⟨hkeys _ hkey, hentry e he⟩
  cases call with
  | create entry => exact ⟨hwritten entry rfl (by simp [Call.keys]), hsaved⟩
  | modify entry => exact ⟨hwritten entry rfl (by simp [Call.keys]), hsaved⟩
  | erase key => exact ⟨hnow.update (fun d hd => nomatch hd), hsaved⟩
  | openChild _ => exact ⟨hnow, List.forall_mem_cons.mpr ⟨hnow, hsaved⟩⟩
  | commit => exact ⟨hnow, fun saved hs => hsaved saved (List.mem_of_mem_tail hs)⟩
  | rollback =>
    unfold Flat.exec
    dsimp only
    split
    · next now header saved hdrop =>
      have hmem : ∀ p ∈ (now, header) :: saved, p ∈ f.saved := fun p hp =>
        List.mem_of_mem_drop (hdrop ▸ hp)
      exact ⟨hsaved _ (hmem _ List.mem_cons_self), fun p hp => hsaved p (hmem p (List.mem_cons_of_mem _ hp))⟩
    · exact ⟨hnow, hsaved⟩
  | _ => exact ⟨hnow, hsaved⟩

/-- The state, the flat map and the tables stand for one ledger. -/
structure InStep (K : Set LedgerKey) (s : LedgerState) (f : Flat) (tables : Except String SqlTables) : Prop where
  caches : CachesOK quotient s.root
  stack : Matches s.txns s.root.mDatabase s.root.mHeader f
  known : f.Known K
  tables : ∃ T, tables = .ok T ∧ T.Holds K s.root.mDatabase.load

section Tables

variable {K : Set LedgerKey} {s : LedgerState} {f : Flat} {tables : Except String SqlTables}

/-- The rows are changed by a commit of the outermost transaction and by nothing else. -/
theorem exec_database (hc : CachesOK quotient s.root)
    (hm : Matches s.txns s.root.mDatabase s.root.mHeader f) (depth : ℕ) (call : Call)
    (hnot : ∀ t, s.txns = [t] → depth = 0 → call ≠ .commit) :
    (exec quotient s depth call).2.root.mDatabase = s.root.mDatabase := by
  have htxn : call ≠ .rollback → (execTxn s depth call).2.root.mDatabase = s.root.mDatabase := by
    intro hcall
    unfold execTxn
    split
    · split
      · split <;> rfl
      · rfl
    · next t parents hdrop =>
      split
      · next hdepth =>
        subst hdepth
        have htxns : s.txns = t :: parents := hdrop
        have hkey := fun k e => @view_key s.txns hm.keyed s.root.mDatabase k e
        rw [htxns] at hm hkey
        obtain ⟨_, _, _, -, ht, -⟩ := hm
        unfold execInnermost
        split
        · split <;> rfl
        · cases parents with
          | nil => exact absurd rfl (hnot t htxns rfl)
          | cons p grandparents =>
            obtain ⟨hread, -⟩ := commitEntries_spec grandparents t.sealed.mEntry.entries
              t.sealed.mEntry.nodupKeys hc.entries p.mEntry
            exact hread.db
        · obtain ⟨hread, -⟩ := callTxn_refines hc.entries ht hkey call hcall
          exact hread.db
      · rfl
  cases call with
  | getNewestVersion key =>
    obtain ⟨-, hread⟩ := getNewestVersion_spec (s.txns.drop depth) hc.entries key
    exact hread.db
  | getBestOffer buying selling exclude =>
    obtain ⟨-, cache, hroot⟩ := getBestOffer_root quotient buying selling (s.txns.drop depth) hc.offers exclude
    unfold exec
    dsimp only
    rw [hroot]
  | rollback =>
    unfold exec rollback
    dsimp only
    split <;> rfl
  | _ => exact htxn (by simp)

/-- The rows after the commit of the outermost transaction. -/
theorem load_commit (hc : CachesOK quotient s.root) (hm : Matches s.txns s.root.mDatabase s.root.mHeader f)
    {t : LedgerTxn} (htxns : s.txns = [t]) :
    (exec quotient s 0 .commit).2.root.mDatabase.load =
      storedOver t.sealed.mEntry.entries s.root.mDatabase.load := by
  rw [htxns] at hm
  obtain ⟨_, _, _, -, ht, -⟩ := hm
  obtain ⟨root', hstore, hload⟩ := storeEntries_spec t.sealed.mEntry.entries t.sealed.mEntry.nodupKeys
    ht.sealed.keyed ht.sealed.erased fun i hi _ => hc.entries i hi
  rw [exec_commit quotient htxns]
  unfold commit
  simp only [LedgerTxnRoot.commitChild, hstore]
  exact funext hload

/-- What the outermost transaction writes and erases has keys that are told apart, and fits. -/
theorem InStep.entries (h : InStep quotient K s f tables) {t : LedgerTxn} (htxns : s.txns = [t]) :
    (∀ k e, t.sealed.mEntry.lookup k = some (some e) → k ∈ K ∧ e.key = k ∧ fitsTables e.data = true ∧
      f.now k = some e.data) ∧
    ∀ k, t.sealed.mEntry.lookup k = some none → k ∈ K ∧ (s.root.mDatabase.load k).isSome := by
  have hm := h.stack
  rw [htxns] at hm
  obtain ⟨now₀, header₀, saved, hsaved, ht, -, hvalues, -⟩ := hm
  constructor
  · intro k e he
    have hnow : f.now k = some e.data := by
      rw [← ht.sealed.values k, overlay, he]
      rfl
    obtain ⟨hk, hfits⟩ := h.known.1 k _ hnow
    exact ⟨hk, ht.sealed.keyed k e he, hfits, hnow⟩
  · intro k hk
    have hsome := ht.sealed.erased k hk
    obtain ⟨e, he⟩ := Option.isSome_iff_exists.mp hsome
    have hnow₀ : now₀ k = some e.data := (hvalues k).symm.trans (congrArg value he)
    exact ⟨(h.known.2 _ (hsaved ▸ List.mem_cons_self) k _ hnow₀).1, hsome⟩

/-- A call leaves the tables with the rows that it leaves the root with. -/
theorem InStep.tables_step (h : InStep quotient K s f tables) (hK : ToldApart K) (depth : ℕ) (call : Call) :
    ∃ T, stepTables s tables depth call = .ok T ∧
      T.Holds K (exec quotient s depth call).2.root.mDatabase.load := by
  obtain ⟨T, rfl, hholds⟩ := h.tables
  by_cases hcommit : ∃ t, s.txns = [t] ∧ depth = 0 ∧ call = .commit
  · obtain ⟨t, htxns, rfl, rfl⟩ := hcommit
    obtain ⟨hwritten, herased⟩ := h.entries quotient htxns
    have hmem : ∀ k ∈ t.sealed.mEntry.entries.keys, k ∈ K := by
      intro k hk
      obtain ⟨entry, hentry⟩ := Option.isSome_iff_exists.mp (List.dlookup_isSome.mpr hk)
      cases entry with
      | none => exact (herased k hentry).1
      | some e => exact (hwritten k e hentry).1
    obtain ⟨T', hrun, hholds'⟩ := hholds.storeAll hK t.sealed.mEntry.entries t.sealed.mEntry.nodupKeys hmem
      (fun k e he => ⟨(hwritten k e he).2.1, (hwritten k e he).2.2.1⟩) fun k hk => (herased k hk).2
    refine ⟨T', ?_, ?_⟩
    · unfold stepTables
      rw [htxns]
      exact hrun
    · rw [load_commit quotient h.caches h.stack htxns]
      exact hholds'
  · have hnot : ∀ t, s.txns = [t] → depth = 0 → call ≠ .commit := fun t ht hd hc => hcommit ⟨t, ht, hd, hc⟩
    refine ⟨T, ?_, ?_⟩
    · unfold stepTables
      split
      · next t htxns => exact absurd ⟨t, htxns, rfl, rfl⟩ hcommit
      · rfl
    · rw [exec_database quotient h.caches h.stack depth call hnot]
      exact hholds

end Tables

/-! ## What the calls answer over the tables -/

/-- Every call on the innermost transaction answers as the flat map says, and the tables have what the root
reads. -/
structure Faithful (K : Set LedgerKey) (s : LedgerState) (f : Flat) (tables : Except String SqlTables) :
    Prop where
  load : ∀ t parents, s.txns = t :: parents → ∀ key ∈ K, t.mIsSealed = false → key ∉ t.mActive →
    ∃ o, (exec quotient s 0 (.load key)).1 = .ok (.entry o) ∧ value o = f.now key
  loadWithoutRecord : ∀ t parents, s.txns = t :: parents → ∀ key ∈ K, t.mIsSealed = false →
    key ∉ t.mActive →
    ∃ o, (exec quotient s 0 (.loadWithoutRecord key)).1 = .ok (.entry o) ∧ value o = f.now key
  loadHeader : ∀ t parents, s.txns = t :: parents → t.mIsSealed = false → t.mActiveHeader = false →
    (exec quotient s 0 .loadHeader).1 = .ok (.header f.header)
  create : ∀ t parents, s.txns = t :: parents → ∀ entry, entry.key ∈ K → t.mIsSealed = false →
    ((exec quotient s 0 (.create entry)).1.isOk ↔ f.now entry.key = none)
  erase : ∀ t parents, s.txns = t :: parents → ∀ key ∈ K, t.mIsSealed = false →
    ((exec quotient s 0 (.erase key)).1.isOk ↔ f.now key ≠ none)
  commit : s.txns ≠ [] →
    (exec quotient s 0 .commit).1 = .ok .done ∧ ∃ T, stepTables s tables 0 .commit = .ok T
  rows : ∃ T, tables = .ok T ∧ ∀ key ∈ K, T.load key = .ok (s.root.mDatabase.load key)
  rootStore : s.txns = [] →
    (∀ key ∈ K, ∃ o, (tables >>= fun T : SqlTables => T.load key) = .ok o ∧ value o = f.now key) ∧
      s.root.mHeader = f.header
  getDelta : ∀ opening header saved, f.saved = (opening, header) :: saved →
    ∃ deltas, (exec quotient s 0 .getDelta).1 = .ok (.delta deltas f.header header) ∧
      Covers deltas opening f.now
  getChanges : ∀ opening header saved, f.saved = (opening, header) :: saved →
    ∃ deltas, (exec quotient s 0 .getChanges).1 = .ok (.changes (deltas.flatMap EntryDelta.listed)) ∧
      Covers deltas opening f.now
  getLiveEntries : ∀ opening header saved, f.saved = (opening, header) :: saved →
    ∃ deltas, (exec quotient s 0 .getLiveEntries).1 = .ok (.live (deltas.filterMap EntryDelta.current)) ∧
      Covers deltas opening f.now
  getDeadEntries : ∀ opening header saved, f.saved = (opening, header) :: saved →
    ∃ deltas, (exec quotient s 0 .getDeadEntries).1
        = .ok (.dead ((deltas.filter fun d => d.current.isNone).map EntryDelta.key)) ∧
      Covers deltas opening f.now

section Answers

variable {K : Set LedgerKey} {s : LedgerState} {f : Flat} {tables : Except String SqlTables} {t : LedgerTxn}
  {parents : List LedgerTxn}

theorem load_answer (hroot : s.root.CacheOK) (key : LedgerKey) (hsealed : t.mIsSealed = false)
    (hactive : key ∉ t.mActive) :
    (load t parents s.root key).1 = .ok (.entry (view (t :: parents) s.root.mDatabase key)) ∧
      (loadWithoutRecord t parents s.root key).1
        = .ok (.entry (view (t :: parents) s.root.mDatabase key)) := by
  obtain ⟨hnewest, -⟩ := getNewestVersion_spec (t :: parents) hroot key
  unfold load loadWithoutRecord
  rw [hsealed, if_neg Bool.false_ne_true, if_neg hactive, if_neg Bool.false_ne_true, if_neg hactive]
  constructor
  all_goals
    split
    all_goals
      next heq =>
      rw [heq] at hnewest
      rw [← hnewest]

theorem create_answer (hroot : s.root.CacheOK) (entry : LedgerEntry) (hsealed : t.mIsSealed = false) :
    (create t parents s.root entry).1.isOk ↔ view (t :: parents) s.root.mDatabase entry.key = none := by
  obtain ⟨hnewest, -⟩ := getNewestVersion_spec (t :: parents) hroot entry.key
  unfold create
  rw [hsealed, if_neg Bool.false_ne_true]
  split
  all_goals
    next heq =>
    rw [heq] at hnewest
    rw [← hnewest]
    simp [Except.isOk, Except.toBool]

theorem erase_answer (hroot : s.root.CacheOK) (key : LedgerKey) (hsealed : t.mIsSealed = false) :
    (erase t parents s.root key).1.isOk ↔ view (t :: parents) s.root.mDatabase key ≠ none := by
  obtain ⟨hnewest, -⟩ := getNewestVersion_spec (t :: parents) hroot key
  unfold erase
  rw [hsealed, if_neg Bool.false_ne_true]
  split
  · next heq =>
    rw [heq] at hnewest
    rw [← hnewest]
    simp [Except.isOk, Except.toBool]
  · next heq =>
    rw [heq] at hnewest
    rw [← hnewest]
    split <;> simp [Except.isOk, Except.toBool]

/-- The header of the parents is the one at the opening. -/
theorem Matches.getHeader {root : LedgerTxnRoot}
    (h : Matches parents root.mDatabase root.mHeader f) : getHeader parents root = f.header := by
  cases parents with
  | nil => exact h.2.2
  | cons p grandparents =>
    obtain ⟨-, -, -, -, hp, -⟩ := h
    exact hp.sameHeader

theorem getHeader_readTo {root root' : LedgerTxnRoot} (h : root.ReadTo root') :
    Ledger.getHeader parents root' = Ledger.getHeader parents root := by
  obtain ⟨-, cache, rfl⟩ := h
  cases parents <;> rfl

/-- A state that stands for a flat map answers as the map says. -/
theorem InStep.faithful (h : InStep quotient K s f tables) (hK : ToldApart K) :
    Faithful quotient K s f tables := by
  have hc := h.caches
  have hm := h.stack
  have hvalues := hm.values
  have hopen : ∀ opening header saved, f.saved = (opening, header) :: saved →
      ∃ t parents, s.txns = t :: parents ∧ t.sealed.mHeader = f.header ∧ t.mHeader = f.header ∧
        getHeader parents s.root = header ∧
        Covers (t.sealed.mEntry.entries.map fun kv => ⟨kv.1, kv.2, view parents s.root.mDatabase kv.1⟩)
          opening f.now := by
    intro opening header saved hsaved
    cases htxns : s.txns with
    | nil =>
      rw [htxns] at hm
      rw [hm.1] at hsaved
      cases hsaved
    | cons t parents =>
      rw [htxns] at hm
      obtain ⟨now₀, header₀, saved', hsaved', ht, hp⟩ := hm
      rw [hsaved] at hsaved'
      cases hsaved'
      exact ⟨t, parents, rfl, ht.sealed.sameHeader, ht.sameHeader, hp.getHeader,
        ht.sealed.covers hp.values⟩
  refine ⟨?_, ?_, ?_, ?_, ?_, ?_, ?_, ?_, ?_, ?_, ?_, ?_⟩
  · intro t parents htxns key _ hsealed hactive
    refine ⟨_, (exec_answer quotient htxns rfl rfl).trans (load_answer hc.entries key hsealed hactive).1, ?_⟩
    rw [← htxns, hvalues]
  · intro t parents htxns key _ hsealed hactive
    refine ⟨_, (exec_answer quotient htxns rfl rfl).trans (load_answer hc.entries key hsealed hactive).2, ?_⟩
    rw [← htxns, hvalues]
  · intro t parents htxns hsealed hactive
    rw [htxns] at hm
    obtain ⟨-, -, -, -, ht, -⟩ := hm
    rw [exec_answer quotient htxns rfl rfl, ← ht.sameHeader]
    simp [callTxn, loadHeader, hsealed, hactive]
  · intro t parents htxns entry _ hsealed
    rw [exec_answer quotient htxns rfl rfl, ← hvalues, htxns]
    exact (create_answer hc.entries entry hsealed).trans Option.map_eq_none_iff.symm
  · intro t parents htxns key _ hsealed
    rw [exec_answer quotient htxns rfl rfl, ← hvalues, htxns]
    exact (erase_answer hc.entries key hsealed).trans (not_congr Option.map_eq_none_iff.symm)
  · intro hne
    obtain ⟨t, parents, htxns⟩ := List.exists_cons_of_ne_nil hne
    obtain ⟨T, hT, -⟩ := h.tables_step quotient hK 0 .commit
    rw [exec_commit quotient htxns]
    exact ⟨(commit_matches quotient hc htxns hm).1, T, hT⟩
  · obtain ⟨T, rfl, hholds⟩ := h.tables
    exact ⟨T, rfl, fun key hkey => hholds.load hK hkey⟩
  · intro htxns
    rw [htxns] at hm
    obtain ⟨T, rfl, hholds⟩ := h.tables
    exact ⟨fun key hkey => ⟨_, hholds.load hK hkey, hm.2.1 key⟩, hm.2.2⟩
  · intro opening header saved hsaved
    obtain ⟨t, parents, htxns, -, hheader, hprevious, hcovers⟩ := hopen opening header saved hsaved
    refine ⟨_, ?_, hcovers⟩
    rw [exec_answer quotient htxns rfl rfl]
    simp only [callTxn, getDelta]
    obtain ⟨hread, hdeltas⟩ := deltaEntries_spec parents t.sealed.mEntry.entries hc.entries
    rw [hdeltas, hheader, getHeader_readTo hread, hprevious]
  · intro opening header saved hsaved
    obtain ⟨t, parents, htxns, -, -, -, hcovers⟩ := hopen opening header saved hsaved
    refine ⟨_, ?_, hcovers⟩
    rw [exec_answer quotient htxns rfl rfl]
    simp only [callTxn, getChanges]
    rw [(deltaEntries_spec parents t.sealed.mEntry.entries hc.entries).2, hcovers.changesOf]
    rfl
  · intro opening header saved hsaved
    obtain ⟨t, parents, htxns, -, -, -, hcovers⟩ := hopen opening header saved hsaved
    refine ⟨_, ?_, hcovers⟩
    rw [exec_answer quotient htxns rfl rfl]
    simp only [callTxn, getLiveEntries, liveEntries, List.filterMap_map]
    rfl
  · intro opening header saved hsaved
    obtain ⟨t, parents, htxns, -, -, -, hcovers⟩ := hopen opening header saved hsaved
    refine ⟨_, ?_, hcovers⟩
    rw [exec_answer quotient htxns rfl rfl]
    simp only [callTxn, getDeadEntries, deadEntries, List.filter_map, List.map_map]
    rfl

/-- A call that is no commit of a marker into the root keeps the three in step. -/
theorem InStep.exec (h : InStep quotient K s f tables) (hK : ToldApart K) {depth : ℕ} {call : Call}
    (hkeys : ∀ k ∈ call.keys, k ∈ K) (hentry : ∀ e ∈ call.entry, fitsTables e.data = true)
    (hplain : PlainCommit s depth call) :
    InStep quotient K (stepBoth quotient (s, f) depth call).1 (stepBoth quotient (s, f) depth call).2
      (stepTables s tables depth call) := by
  obtain ⟨hc', hmatch⟩ := exec_matches quotient h.caches h.stack depth call
  refine ⟨hc', hmatch hplain, ?_, h.tables_step quotient hK depth call⟩
  unfold stepBoth
  dsimp only
  cases (Ledger.exec quotient s depth call).1 with
  | ok _ => exact h.known.exec depth hkeys hentry
  | error _ => exact h.known

/-- A commit into the root after which the tables equal the map stored no marker. -/
theorem InStep.plain (h : InStep quotient K s f tables) {depth : ℕ} {call : Call}
    (hfaithful : Faithful quotient K (stepBoth quotient (s, f) depth call).1
      (stepBoth quotient (s, f) depth call).2 (stepTables s tables depth call)) : PlainCommit s depth call := by
  rintro t htxns rfl rfl
  obtain ⟨hwritten, -⟩ := h.entries quotient htxns
  obtain ⟨hok, -, -, hclosed⟩ := commit_matches quotient h.caches htxns h.stack
  have hexec := exec_commit quotient htxns
  have hnow : (stepBoth quotient (s, f) 0 .commit).2.now = f.now := by
    unfold stepBoth
    dsimp only
    rw [hexec, hok]
    rfl
  have hopen : (stepBoth quotient (s, f) 0 .commit).1.txns = [] := by
    unfold stepBoth
    rw [hexec]
    exact hclosed rfl
  obtain ⟨T, hT, hload⟩ := hfaithful.rows
  refine (unmarked_sealed t).mp fun k e he => (persisted_data_iff e).mp ?_
  obtain ⟨hk, -, -, hvalue⟩ := hwritten k e he
  obtain ⟨o, ho, hmap⟩ := (hfaithful.rootStore hopen).1 k hk
  have hread : o = storedOver t.sealed.mEntry.entries s.root.mDatabase.load k := by
    rw [hT] at ho
    have hrow := Except.ok.inj (ho.symm.trans (hload k hk))
    rwa [← load_commit quotient h.caches h.stack htxns]
  have hstored : storedOver t.sealed.mEntry.entries s.root.mDatabase.load k = some (persisted e) := by
    have hlook : t.sealed.mEntry.entries.dlookup k = some (some e) := he
    rw [storedOver, hlook]
    rfl
  rw [hread, hstored, hnow, hvalue] at hmap
  exact Option.some.inj hmap

end Answers

/-! ## The flat map along a run -/

/-- No commit of the run into the root stores a marker. -/
def PlainRun : LedgerState → List (ℕ × Call) → Prop
  | _, [] => True
  | s, (depth, call) :: calls => PlainCommit s depth call ∧ PlainRun (exec quotient s depth call).2 calls

/-- In every state of the run, its start included, the calls answer as the flat map says. -/
def FaithfulRun (K : Set LedgerKey) : LedgerState × Flat → Except String SqlTables → List (ℕ × Call) → Prop
  | sf, tables, [] => Faithful quotient K sf.1 sf.2 tables
  | sf, tables, (depth, call) :: calls =>
    Faithful quotient K sf.1 sf.2 tables ∧
      FaithfulRun K (stepBoth quotient sf depth call) (stepTables sf.1 tables depth call) calls

section Runs

variable {K : Set LedgerKey}

theorem FaithfulRun.start {sf : LedgerState × Flat} {tables : Except String SqlTables} {calls : List (ℕ × Call)}
    (h : FaithfulRun quotient K sf tables calls) : Faithful quotient K sf.1 sf.2 tables := by
  cases calls with
  | nil => exact h
  | cons c calls => exact h.1

theorem faithfulRun_iff (hK : ToldApart K) {s : LedgerState} {f : Flat} {tables : Except String SqlTables}
    (h : InStep quotient K s f tables) (calls : List (ℕ × Call)) (hkeys : ∀ c ∈ calls, ∀ k ∈ c.2.keys, k ∈ K)
    (hentries : ∀ c ∈ calls, ∀ e ∈ c.2.entry, fitsTables e.data = true) :
    FaithfulRun quotient K (s, f) tables calls ↔ PlainRun quotient s calls := by
  induction calls generalizing s f tables with
  | nil => exact iff_of_true (h.faithful quotient hK) trivial
  | cons c calls ih =>
    obtain ⟨depth, call⟩ := c
    obtain ⟨hkeys₁, hkeys₂⟩ := List.forall_mem_cons.mp hkeys
    obtain ⟨hentries₁, hentries₂⟩ := List.forall_mem_cons.mp hentries
    have hrest : PlainCommit s depth call →
        (FaithfulRun quotient K (stepBoth quotient (s, f) depth call) (stepTables s tables depth call) calls ↔
          PlainRun quotient (exec quotient s depth call).2 calls) :=
      fun hplain => ih (h.exec quotient hK hkeys₁ hentries₁ hplain) hkeys₂ hentries₂
    constructor
    · intro hrun
      have hplain := h.plain quotient hrun.2.start
      exact ⟨hplain, (hrest hplain).mp hrun.2⟩
    · intro hrun
      exact ⟨h.faithful quotient hK, (hrest hrun.1).mpr hrun.2⟩

end Runs

/-- The entries of the transaction say whether one has a marker. -/
theorem unmarked_iff (t : LedgerTxn) :
    t.Unmarked ↔ ∀ kv ∈ t.mEntry.entries, ∀ e ∈ kv.2, accountMarker e = [] := by
  constructor
  · rintro h ⟨k, entry⟩ hkv e rfl
    exact h k e (List.mem_dlookup t.mEntry.nodupKeys hkv)
  · intro h k e he
    exact h ⟨k, some e⟩ (List.of_mem_dlookup he) e rfl

/-! ## Empty tables -/

theorem stored_empty (k : LedgerKey) (e : LedgerEntry)
    (h : (∅ : AList fun _ : LedgerKey => LedgerEntry).lookup k = some e) : e.key = k ∧ persisted e = e := by
  rw [AList.lookup_empty] at h
  cases h

/-- No rows. -/
def noRows : Database := ⟨∅, stored_empty⟩

def noTables : SqlTables := ⟨∅⟩

theorem holds_noTables (K : Set LedgerKey) : noTables.Holds K noRows.load :=
  ⟨fun _ _ => rfl, fun _ _ _ h => (nomatch h), fun _ _ _ h => (nomatch h)⟩

def tenthHeader : LedgerHeader := ⟨10, 5, 0, 0, 0, 0, 100, 5000000, 100⟩

/-- An account with a balance of ten and this marker. -/
def markedAccount (accountMarker : List (Fin 256)) : LedgerEntry :=
  ⟨0, .account
    { accountID := 1
      balance := 10
      seqNum := 0
      accountMarker := accountMarker
      numSubEntries := 0
      inflationDest := none
      flags := 0
      homeDomain := []
      thresholds := ⟨1, 0, 0, 0⟩
      signers := []
      ext := none }⟩

def lineOf (asset : Asset) : LedgerEntry := ⟨0, .trustLine ⟨1, asset, 5, 100, 1, none⟩⟩

def dollar : Asset := .alphaNum4 0x55534400 9

def dollarBank : Asset := .alphaNum12 0x55534442414e4b0000000000 9

/-- An account with trust lines of both kinds and an offer, committed and loaded again. -/
def lineCalls : List (ℕ × Call) :=
  [(0, .openChild true), (0, .create (markedAccount [])), (0, .create (lineOf dollar)),
    (0, .create (lineOf dollarBank)), (0, .create ⟨0, .offer ⟨1, 7, dollar, dollarBank, 3, ⟨2, 1⟩, 0⟩⟩),
    (0, .commit), (0, .openChild true), (0, .erase (.trustLine 1 dollar)), (0, .load (.trustLine 1 dollarBank))]

/-- The keys of the calls, and another account's offer. -/
def lineKeys : List LedgerKey :=
  [.account 1, .trustLine 1 dollar, .trustLine 1 dollarBank, .offer 1 7, .offer 2 8]

theorem wellFormed_lineCalls : WellFormed {k | k ∈ lineKeys} noRows lineCalls where
  toldApart :=
    ⟨(by decide +kernel : ∀ k ∈ lineKeys, mayExist k = true),
      (by decide +kernel : ∀ k ∈ lineKeys, ∀ k' ∈ lineKeys, sameOffer k k' = true → k = k')⟩
  keys := by decide +kernel
  entries := by decide +kernel
  rows _ _ h := nomatch h

end ZaggCore.Ledger
