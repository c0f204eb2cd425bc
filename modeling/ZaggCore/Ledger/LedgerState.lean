import Mathlib
import ZaggCore.Ledger.BestOffer
import ZaggCore.Ledger.WinnersRanking

/-! # Runs of nested ledger transactions

The calls that the API of `ledger/LedgerTxn.h` offers, as one step function on the root and the stack
of open transactions, and beside it the flat map from keys to entries that the stack stands for. A call
names its transaction by depth: 0 is the innermost one, the root comes after the outermost.

`Wf` is the invariant of the stack alone. `Matches` ties it to the flat map; a commit into the root
keeps it as long as the tables hold everything the committed entries have, which is every field but
`accountMarker`. -/

namespace ZaggCore.Ledger
set_option autoImplicit false
set_option maxHeartbeats 250000

open Util Foundations

variable {Q : Type} [LinearOrder Q] (quotient : Price → Q)

/-! ## Calls -/

/-- A call on a transaction. `modify e` assigns `e` through the handle of its key. -/
inductive Call where
  | create (entry : LedgerEntry)
  | load (key : LedgerKey)
  | loadWithoutRecord (key : LedgerKey)
  | modify (entry : LedgerEntry)
  | deactivate (key : LedgerKey)
  | erase (key : LedgerKey)
  | loadHeader
  | modifyHeader (header : LedgerHeader)
  | deactivateHeader
  | unsealHeader (header : LedgerHeader)
  | openChild (shouldUpdateLastModified : Bool)
  | commit
  | rollback
  | getChanges
  | getDelta
  | getLiveEntries
  | getDeadEntries
  | queryInflationWinners (maxWinners : ℕ) (minVotes : ℤ)
  | getNewestVersion (key : LedgerKey)
  | getBestOffer (buying selling : Asset) (exclude : Finset LedgerKey)

inductive Result where
  | done
  | entry (entry : Option LedgerEntry)
  | header (header : LedgerHeader)
  | changes (changes : List LedgerEntryChange)
  | delta (entry : List EntryDelta) (current previous : LedgerHeader)
  | live (entries : List LedgerEntry)
  | dead (keys : List LedgerKey)
  | winners (winners : List InflationWinner)

structure LedgerState where
  root : LedgerTxnRoot
  txns : List LedgerTxn

/-- What a call on one transaction gives: its result, the transaction and the root. -/
abbrev Outcome := Except String Result × LedgerTxn × LedgerTxnRoot

section Txn

variable (t : LedgerTxn) (parents : List LedgerTxn) (root : LedgerTxnRoot)

def create (entry : LedgerEntry) : Outcome :=
  if t.mIsSealed then (.error "LedgerTxn is sealed", t, root)
  else
    match getNewestVersion (t :: parents) root entry.key with
    | (some _, root) => (.error "Key already exists", t, root)
    | (none, root) =>
      (.ok (.entry (some entry)), { t with
        mActive := t.mActive.insert entry.key .LedgerTxnEntry
        mEntry := t.mEntry.insert entry.key (some entry) }, root)

def load (key : LedgerKey) : Outcome :=
  if t.mIsSealed then (.error "LedgerTxn is sealed", t, root)
  else if key ∈ t.mActive then (.error "Key is active", t, root)
  else
    match getNewestVersion (t :: parents) root key with
    | (none, root) => (.ok (.entry none), t, root)
    | (some e, root) =>
      (.ok (.entry (some e)), { t with
        mActive := t.mActive.insert key .LedgerTxnEntry
        mEntry := t.mEntry.insert key (some e) }, root)

def loadWithoutRecord (key : LedgerKey) : Outcome :=
  if t.mIsSealed then (.error "LedgerTxn is sealed", t, root)
  else if key ∈ t.mActive then (.error "Key is active", t, root)
  else
    match getNewestVersion (t :: parents) root key with
    | (none, root) => (.ok (.entry none), t, root)
    | (some e, root) =>
      (.ok (.entry (some e)), { t with mActive := t.mActive.insert key .ConstLedgerTxnEntry }, root)

def modify (entry : LedgerEntry) : Outcome :=
  if t.mActive.lookup entry.key = some .LedgerTxnEntry then
    (.ok .done, { t with mEntry := t.mEntry.insert entry.key (some entry) }, root)
  else (.error "LedgerTxnEntry not active", t, root)

def deactivate (key : LedgerKey) : Outcome :=
  if key ∈ t.mActive then (.ok .done, { t with mActive := t.mActive.erase key }, root)
  else (.error "Key is not active", t, root)

def erase (key : LedgerKey) : Outcome :=
  if t.mIsSealed then (.error "LedgerTxn is sealed", t, root)
  else
    match getNewestVersion (t :: parents) root key with
    | (none, root) => (.error "Key does not exist", t, root)
    | (some _, root) =>
      match getNewestVersion parents root key with
      | (none, root) =>
        (.ok .done, { t with mEntry := t.mEntry.erase key, mActive := t.mActive.erase key }, root)
      | (some _, root) =>
        (.ok .done, { t with mEntry := t.mEntry.insert key none, mActive := t.mActive.erase key }, root)

def loadHeader : Outcome :=
  if t.mIsSealed then (.error "LedgerTxn is sealed", t, root)
  else if t.mActiveHeader then (.error "LedgerTxnHeader is active", t, root)
  else (.ok (.header t.mHeader), { t with mActiveHeader := true }, root)

def modifyHeader (header : LedgerHeader) : Outcome :=
  if t.mActiveHeader then (.ok .done, { t with mHeader := header }, root)
  else (.error "LedgerTxnHeader not active", t, root)

def deactivateHeader : Outcome :=
  if t.mActiveHeader then (.ok .done, { t with mActiveHeader := false }, root)
  else (.error "LedgerTxnHeader is not active", t, root)

def unsealHeader (header : LedgerHeader) : Outcome :=
  if !t.mIsSealed then (.error "LedgerTxn is not sealed", t, root)
  else if t.mActiveHeader then (.error "LedgerTxnHeader is active", t, root)
  else (.ok .done, { t with mHeader := header }, root)

def getChanges : Outcome :=
  match deltaEntries parents t.sealed.mEntry.entries root with
  | (deltas, root) => ((changesOf deltas).map .changes, t.sealed, root)

def getDelta : Outcome :=
  match deltaEntries parents t.sealed.mEntry.entries root with
  | (deltas, root) => (.ok (.delta deltas t.mHeader (getHeader parents root)), t.sealed, root)

def getLiveEntries : Outcome :=
  (.ok (.live (liveEntries t.sealed.mEntry.entries)), t.sealed, root)

def getDeadEntries : Outcome :=
  (.ok (.dead (deadEntries t.sealed.mEntry.entries)), t.sealed, root)

def queryInflationWinners (maxWinners : ℕ) (minVotes : ℤ) : Outcome :=
  if t.mIsSealed then (.error "LedgerTxn is sealed", t, root)
  else
    match getInflationWinners (t :: parents) root maxWinners minVotes with
    | (.ok winners, root) => (.ok (.winners winners), t, root)
    | (.error what, root) => (.error what, t, root)

/-- The calls that leave the stack as deep as it is. -/
def callTxn : Call → Outcome
  | .create entry => create t parents root entry
  | .load key => load t parents root key
  | .loadWithoutRecord key => loadWithoutRecord t parents root key
  | .modify entry => modify t root entry
  | .deactivate key => deactivate t root key
  | .erase key => erase t parents root key
  | .loadHeader => loadHeader t root
  | .modifyHeader header => modifyHeader t root header
  | .deactivateHeader => deactivateHeader t root
  | .unsealHeader header => unsealHeader t root header
  | .getChanges => getChanges t parents root
  | .getDelta => getDelta t parents root
  | .getLiveEntries => getLiveEntries t root
  | .getDeadEntries => getDeadEntries t root
  | .queryInflationWinners maxWinners minVotes => queryInflationWinners t parents root maxWinners minVotes
  | _ => (.ok .done, t, root)

/-- `commit` of the innermost transaction into its parent. -/
def commit : Except String Result × LedgerState :=
  match parents with
  | [] =>
    match root.commitChild t.sealed with
    | .ok root => (.ok .done, ⟨root, []⟩)
    | .error what => (.error what, ⟨root, [t]⟩)
  | p :: grandparents =>
    match commitEntries grandparents t.sealed.mEntry.entries root p.mEntry with
    | (mEntry, root) => (.ok .done, ⟨root, { p with mEntry := mEntry, mHeader := t.mHeader } :: grandparents⟩)

end Txn

/-- What a call on a transaction with a child throws; opening the child deactivated the handles. -/
def Call.childError : Call → String
  | .modify _ => "LedgerTxnEntry not active"
  | .deactivate _ => "Key is not active"
  | .modifyHeader _ => "LedgerTxnHeader not active"
  | .deactivateHeader => "LedgerTxnHeader is not active"
  | .unsealHeader _ => "LedgerTxn is not sealed"
  | _ => "LedgerTxn has child"

/-- A call on the innermost transaction. -/
def execInnermost (t : LedgerTxn) (parents : List LedgerTxn) (s : LedgerState) :
    Call → Except String Result × LedgerState
  | .openChild shouldUpdateLastModified =>
    if t.mIsSealed then (.error "LedgerTxn is sealed", s)
    else
      (.ok .done, { s with
        txns := LedgerTxn.new t.mHeader shouldUpdateLastModified :: t.addChild :: parents })
  | .commit => commit t parents s.root
  | call =>
    match callTxn t parents s.root call with
    | (res, t, root) => (res, ⟨root, t :: parents⟩)

/-- A call that a transaction with a child throws at. -/
def execTxn (s : LedgerState) (depth : ℕ) (call : Call) : Except String Result × LedgerState :=
  match s.txns.drop depth with
  | [] =>
    match call with
    | .openChild shouldUpdateLastModified =>
      if s.txns.isEmpty then
        (.ok .done, { s with txns := [LedgerTxn.new s.root.mHeader shouldUpdateLastModified] })
      else (.error "LedgerTxnRoot already has child", s)
    | _ => (.error "LedgerTxnEntry was handled", s)
  | t :: parents =>
    if depth = 0 then execInnermost t parents s call else (.error call.childError, s)

/-- `rollback` of a transaction, with all its descendants. -/
def rollback (s : LedgerState) (depth : ℕ) : Except String Result × LedgerState :=
  match s.txns.drop depth with
  | [] => (.error "LedgerTxnEntry was handled", s)
  | _ :: parents => (.ok .done, { s with txns := parents })

/-- A call on the transaction at a depth. -/
def exec (s : LedgerState) (depth : ℕ) : Call → Except String Result × LedgerState
  | .getNewestVersion key =>
    match getNewestVersion (s.txns.drop depth) s.root key with
    | (newest, root) => (.ok (.entry newest), { s with root := root })
  | .getBestOffer buying selling exclude =>
    match getBestOffer quotient buying selling (s.txns.drop depth) s.root exclude with
    | (best, root) => (.ok (.entry best), { s with root := root })
  | .rollback => rollback s depth
  | call => execTxn s depth call

/-! ## The flat map -/

/-- The current map and header, and those at the opening of every open transaction, innermost first.
An entry stands without the ledger it was last modified in. -/
structure Flat where
  now : LedgerKey → Option LedgerEntryData
  header : LedgerHeader
  saved : List ((LedgerKey → Option LedgerEntryData) × LedgerHeader)

/-- What an accepted call does to the flat map. -/
def Flat.exec (f : Flat) (depth : ℕ) : Call → Flat
  | .create entry => { f with now := Function.update f.now entry.key (some entry.data) }
  | .modify entry => { f with now := Function.update f.now entry.key (some entry.data) }
  | .erase key => { f with now := Function.update f.now key none }
  | .modifyHeader header => { f with header := header }
  | .unsealHeader header => { f with header := header }
  | .openChild _ => { f with saved := (f.now, f.header) :: f.saved }
  | .commit => { f with saved := f.saved.tail }
  | .rollback =>
    match f.saved.drop depth with
    | (now, header) :: saved => ⟨now, header, saved⟩
    | [] => f
  | _ => f

/-! ## One transaction over the older versions -/

/-- The version of a key that an entry map over older versions stands for. -/
def overlay (m : EntryMap) (older : LedgerKey → Option LedgerEntry) (k : LedgerKey) :
    Option LedgerEntry :=
  match m.lookup k with
  | some entry => entry
  | none => older k

theorem overlay_insert (m : EntryMap) (older : LedgerKey → Option LedgerEntry) (key k : LedgerKey)
    (entry : Option LedgerEntry) :
    overlay (m.insert key entry) older k = if k = key then entry else overlay m older k := by
  unfold overlay
  split_ifs with hk
  · rw [hk, AList.lookup_insert]
  · rw [AList.lookup_insert_ne hk]

theorem overlay_erase (m : EntryMap) (older : LedgerKey → Option LedgerEntry) (key k : LedgerKey) :
    overlay (m.erase key) older k = if k = key then older k else overlay m older k := by
  unfold overlay
  split_ifs with hk
  · rw [hk, AList.lookup_erase]
  · rw [AList.lookup_erase_ne hk]

/-- A value of the flat map: the entry without the ledger it was last modified in. -/
abbrev value (o : Option LedgerEntry) : Option LedgerEntryData := o.map LedgerEntry.data

/-- A transaction over older versions stands for a map and a header: its entries are under their own
keys, it has null pointers only for keys that exist in the older versions, and reading its entries
before the older versions gives the map. -/
structure LedgerTxn.Holds (t : LedgerTxn) (older : LedgerKey → Option LedgerEntry)
    (now : LedgerKey → Option LedgerEntryData) (header : LedgerHeader) : Prop where
  keyed : t.Keyed
  erased : ∀ k, t.mEntry.lookup k = some none → (older k).isSome
  values : ∀ k, value (overlay t.mEntry older k) = now k
  sameHeader : t.mHeader = header

namespace LedgerTxn.Holds

variable {t : LedgerTxn} {older : LedgerKey → Option LedgerEntry}
  {now : LedgerKey → Option LedgerEntryData} {header : LedgerHeader}

/-- Only the entries and the header matter. -/
theorem of_eq {t' : LedgerTxn} (h : t.Holds older now header) (hentry : t'.mEntry = t.mEntry)
    (hheader : t'.mHeader = t.mHeader) : t'.Holds older now header := by
  obtain ⟨h1, h2, h3, h4⟩ := h
  refine ⟨?_, ?_, ?_, hheader.trans h4⟩
  · simpa only [LedgerTxn.Keyed, hentry] using h1
  · simpa only [hentry] using h2
  · simpa only [hentry] using h3

theorem setEntry (h : t.Holds older now header) {t' : LedgerTxn} {e : LedgerEntry}
    (hentry : t'.mEntry = t.mEntry.insert e.key (some e)) (hheader : t'.mHeader = t.mHeader) :
    t'.Holds older (Function.update now e.key (some e.data)) header := by
  refine ⟨fun k e' hl => ?_, fun k hl => ?_, fun k => ?_, hheader.trans h.sameHeader⟩
  · rw [hentry] at hl
    rcases eq_or_ne k e.key with rfl | hk
    · rw [AList.lookup_insert] at hl
      rw [← Option.some.inj (Option.some.inj hl)]
    · rw [AList.lookup_insert_ne hk] at hl
      exact h.keyed k e' hl
  · rw [hentry] at hl
    rcases eq_or_ne k e.key with rfl | hk
    · rw [AList.lookup_insert] at hl
      cases Option.some.inj hl
    · rw [AList.lookup_insert_ne hk] at hl
      exact h.erased k hl
  · rw [hentry, overlay_insert]
    split_ifs with hk
    · rw [hk, Function.update_self]
      rfl
    · rw [Function.update_of_ne hk, h.values]

/-- Recording a version that is there already. -/
theorem record (h : t.Holds older now header) {t' : LedgerTxn} {e : LedgerEntry}
    (hentry : t'.mEntry = t.mEntry.insert e.key (some e)) (hheader : t'.mHeader = t.mHeader)
    (hnow : now e.key = some e.data) : t'.Holds older now header := by
  have hset := h.setEntry hentry hheader
  rwa [← hnow, Function.update_eq_self] at hset

theorem eraseOwn (h : t.Holds older now header) {t' : LedgerTxn} {key : LedgerKey}
    (hentry : t'.mEntry = t.mEntry.erase key) (hheader : t'.mHeader = t.mHeader)
    (hnone : older key = none) : t'.Holds older (Function.update now key none) header := by
  have hlook : ∀ {k o}, t'.mEntry.lookup k = some o → t.mEntry.lookup k = some o := by
    intro k o hl
    rw [hentry] at hl
    rcases eq_or_ne k key with rfl | hk
    · rw [AList.lookup_erase] at hl
      cases hl
    · rwa [AList.lookup_erase_ne hk] at hl
  refine ⟨fun k e hl => h.keyed k e (hlook hl), fun k hl => h.erased k (hlook hl), fun k => ?_,
    hheader.trans h.sameHeader⟩
  rw [hentry, overlay_erase]
  split_ifs with hk
  · rw [hk, hnone, Function.update_self]
    rfl
  · rw [Function.update_of_ne hk, h.values]

theorem eraseOlder (h : t.Holds older now header) {t' : LedgerTxn} {key : LedgerKey}
    (hentry : t'.mEntry = t.mEntry.insert key none) (hheader : t'.mHeader = t.mHeader)
    (hsome : (older key).isSome) : t'.Holds older (Function.update now key none) header := by
  refine ⟨fun k e hl => ?_, fun k hl => ?_, fun k => ?_, hheader.trans h.sameHeader⟩
  · rw [hentry] at hl
    rcases eq_or_ne k key with rfl | hk
    · rw [AList.lookup_insert] at hl
      cases Option.some.inj hl
    · rw [AList.lookup_insert_ne hk] at hl
      exact h.keyed k e hl
  · rw [hentry] at hl
    rcases eq_or_ne k key with rfl | hk
    · exact hsome
    · rw [AList.lookup_insert_ne hk] at hl
      exact h.erased k hl
  · rw [hentry, overlay_insert]
    split_ifs with hk
    · rw [hk, Function.update_self]
      rfl
    · rw [Function.update_of_ne hk, h.values]

theorem overlay_value (h : t.Holds older now header) {k : LedgerKey} {o : Option LedgerEntry}
    (ho : o = overlay t.mEntry older k) : value o = now k := by
  rw [ho, h.values]

/-- Sealing changes only the ledgers of last modification. -/
theorem sealed (h : t.Holds older now header) : t.sealed.Holds older now header := by
  have hheader : t.sealed.mHeader = t.mHeader := by
    unfold LedgerTxn.sealed
    split <;> rfl
  refine ⟨fun k e hl => ?_, fun k hl => ?_, fun k => ?_, hheader.trans h.sameHeader⟩
  · obtain ⟨f, hf, hlook⟩ := lookup_sealed t k
    rw [hlook] at hl
    obtain ⟨o, ho, hfo⟩ := Option.map_eq_some_iff.mp hl
    obtain ⟨e', rfl, rfl⟩ := Option.map_eq_some_iff.mp hfo
    rw [LedgerEntry.key, hf]
    exact h.keyed k e' ho
  · obtain ⟨f, hf, hlook⟩ := lookup_sealed t k
    rw [hlook] at hl
    obtain ⟨o, ho, hfo⟩ := Option.map_eq_some_iff.mp hl
    rw [Option.map_eq_none_iff] at hfo
    exact h.erased k (hfo ▸ ho)
  · obtain ⟨f, hf, hlook⟩ := lookup_sealed t k
    rw [← h.values]
    unfold overlay
    rw [hlook]
    cases t.mEntry.lookup k with
    | none => rfl
    | some o => cases o <;> simp [value, hf]

end LedgerTxn.Holds

/-! ## One call on one transaction -/

/-- The outcome of a call refines a change of the flat map from `f` to `f'`: a call that throws leaves
the transaction for what it stood for. -/
def Outcome.Refines (o : Outcome) (parents : List LedgerTxn) (root : LedgerTxnRoot) (f f' : Flat) :
    Prop :=
  root.ReadTo o.2.2 ∧
    match o.1 with
    | .ok _ => o.2.1.Holds (view parents root.mDatabase) f'.now f'.header
    | .error _ => o.2.1.Holds (view parents root.mDatabase) f.now f.header

section Calls

variable {t : LedgerTxn} {parents : List LedgerTxn} {root : LedgerTxnRoot} {f : Flat}

theorem refines_error {f' : Flat} {what : String} {root' : LedgerTxnRoot} (hread : root.ReadTo root')
    (h : t.Holds (view parents root.mDatabase) f.now f.header) :
    Outcome.Refines (.error what, t, root') parents root f f' :=
  ⟨hread, h⟩

theorem create_refines (hroot : root.CacheOK) (h : t.Holds (view parents root.mDatabase) f.now f.header)
    (entry : LedgerEntry) :
    (create t parents root entry).Refines parents root f (f.exec 0 (.create entry)) := by
  obtain ⟨-, hread⟩ := getNewestVersion_spec (t :: parents) hroot entry.key
  unfold create
  split
  · exact refines_error hroot.readTo h
  · split
    · next heq => exact refines_error (by rwa [heq] at hread) h
    · next heq => exact ⟨by rwa [heq] at hread, h.setEntry rfl rfl⟩

theorem load_refines (hroot : root.CacheOK) (h : t.Holds (view parents root.mDatabase) f.now f.header)
    (hkey : ∀ k e, view (t :: parents) root.mDatabase k = some e → e.key = k) (key : LedgerKey) :
    (load t parents root key).Refines parents root f (f.exec 0 (.load key)) := by
  obtain ⟨hnewest, hread⟩ := getNewestVersion_spec (t :: parents) hroot key
  unfold load
  split
  · exact refines_error hroot.readTo h
  · split
    · exact refines_error hroot.readTo h
    · split
      · next heq => exact ⟨by rwa [heq] at hread, h⟩
      · next e root' heq =>
        rw [heq] at hread hnewest
        obtain rfl := hkey key e hnewest.symm
        exact ⟨hread, h.record rfl rfl (h.overlay_value hnewest).symm⟩

theorem loadWithoutRecord_refines (hroot : root.CacheOK)
    (h : t.Holds (view parents root.mDatabase) f.now f.header) (key : LedgerKey) :
    (loadWithoutRecord t parents root key).Refines parents root f (f.exec 0 (.loadWithoutRecord key)) := by
  obtain ⟨-, hread⟩ := getNewestVersion_spec (t :: parents) hroot key
  unfold loadWithoutRecord
  split
  · exact refines_error hroot.readTo h
  · split
    · exact refines_error hroot.readTo h
    · split
      · next heq => exact ⟨by rwa [heq] at hread, h⟩
      · next heq => exact ⟨by rwa [heq] at hread, h.of_eq rfl rfl⟩

theorem modify_refines (hroot : root.CacheOK) (h : t.Holds (view parents root.mDatabase) f.now f.header)
    (entry : LedgerEntry) :
    (modify t root entry).Refines parents root f (f.exec 0 (.modify entry)) := by
  unfold modify
  split
  · exact ⟨hroot.readTo, h.setEntry rfl rfl⟩
  · exact refines_error hroot.readTo h

theorem erase_refines (hroot : root.CacheOK) (h : t.Holds (view parents root.mDatabase) f.now f.header)
    (key : LedgerKey) : (erase t parents root key).Refines parents root f (f.exec 0 (.erase key)) := by
  obtain ⟨-, hread⟩ := getNewestVersion_spec (t :: parents) hroot key
  unfold erase
  split
  · exact refines_error hroot.readTo h
  · split
    · next heq => exact refines_error (by rwa [heq] at hread) h
    · next e root' heq =>
      rw [heq] at hread
      obtain ⟨holder, hread'⟩ := getNewestVersion_spec parents hread.1 key
      rw [hread.db] at holder
      split
      · next heq' =>
        rw [heq'] at holder hread'
        exact ⟨hread.trans hread', h.eraseOwn rfl rfl holder.symm⟩
      · next heq' =>
        rw [heq'] at holder hread'
        exact ⟨hread.trans hread', h.eraseOlder rfl rfl (by rw [← holder]; rfl)⟩

theorem deactivate_refines (hroot : root.CacheOK)
    (h : t.Holds (view parents root.mDatabase) f.now f.header) (key : LedgerKey) :
    (deactivate t root key).Refines parents root f f := by
  unfold deactivate
  split
  · exact ⟨hroot.readTo, h.of_eq rfl rfl⟩
  · exact refines_error hroot.readTo h

theorem loadHeader_refines (hroot : root.CacheOK)
    (h : t.Holds (view parents root.mDatabase) f.now f.header) :
    (loadHeader t root).Refines parents root f f := by
  unfold loadHeader
  split
  · exact refines_error hroot.readTo h
  · split
    · exact refines_error hroot.readTo h
    · exact ⟨hroot.readTo, h.of_eq rfl rfl⟩

theorem deactivateHeader_refines (hroot : root.CacheOK)
    (h : t.Holds (view parents root.mDatabase) f.now f.header) :
    (deactivateHeader t root).Refines parents root f f := by
  unfold deactivateHeader
  split
  · exact ⟨hroot.readTo, h.of_eq rfl rfl⟩
  · exact refines_error hroot.readTo h

theorem modifyHeader_refines (hroot : root.CacheOK)
    (h : t.Holds (view parents root.mDatabase) f.now f.header) (header : LedgerHeader) :
    (modifyHeader t root header).Refines parents root f (f.exec 0 (.modifyHeader header)) := by
  unfold modifyHeader
  split
  · exact ⟨hroot.readTo, ⟨h.keyed, h.erased, h.values, rfl⟩⟩
  · exact refines_error hroot.readTo h

theorem unsealHeader_refines (hroot : root.CacheOK)
    (h : t.Holds (view parents root.mDatabase) f.now f.header) (header : LedgerHeader) :
    (unsealHeader t root header).Refines parents root f (f.exec 0 (.unsealHeader header)) := by
  unfold unsealHeader
  split
  · exact refines_error hroot.readTo h
  · split
    · exact refines_error hroot.readTo h
    · exact ⟨hroot.readTo, ⟨h.keyed, h.erased, h.values, rfl⟩⟩

theorem getChanges_refines (hroot : root.CacheOK)
    (h : t.Holds (view parents root.mDatabase) f.now f.header) :
    (getChanges t parents root).Refines parents root f f := by
  obtain ⟨hread, -⟩ := deltaEntries_spec parents t.sealed.mEntry.entries hroot
  unfold getChanges
  refine ⟨hread, ?_⟩
  split <;> exact h.sealed

theorem getDelta_refines (hroot : root.CacheOK)
    (h : t.Holds (view parents root.mDatabase) f.now f.header) :
    (getDelta t parents root).Refines parents root f f :=
  ⟨(deltaEntries_spec parents t.sealed.mEntry.entries hroot).1, h.sealed⟩

theorem queryInflationWinners_refines (hroot : root.CacheOK)
    (h : t.Holds (view parents root.mDatabase) f.now f.header) (maxWinners : ℕ) (minVotes : ℤ) :
    (queryInflationWinners t parents root maxWinners minVotes).Refines parents root f f := by
  obtain ⟨-, hread⟩ := getInflationWinners_eq (t :: parents) hroot maxWinners minVotes
  unfold queryInflationWinners
  split
  · exact refines_error hroot.readTo h
  · split
    · next heq => exact ⟨by rwa [heq] at hread, h⟩
    · next heq => exact refines_error (by rwa [heq] at hread) h

/-- What every call that leaves the stack as deep as it is does to its transaction. -/
theorem callTxn_refines (hroot : root.CacheOK)
    (h : t.Holds (view parents root.mDatabase) f.now f.header)
    (hkey : ∀ k e, view (t :: parents) root.mDatabase k = some e → e.key = k) (call : Call)
    (hcall : call ≠ .rollback) :
    (callTxn t parents root call).Refines parents root f (f.exec 0 call) := by
  cases call with
  | create entry => exact create_refines hroot h entry
  | load key => exact load_refines hroot h hkey key
  | loadWithoutRecord key => exact loadWithoutRecord_refines hroot h key
  | modify entry => exact modify_refines hroot h entry
  | deactivate key => exact deactivate_refines hroot h key
  | erase key => exact erase_refines hroot h key
  | loadHeader => exact loadHeader_refines hroot h
  | modifyHeader header => exact modifyHeader_refines hroot h header
  | deactivateHeader => exact deactivateHeader_refines hroot h
  | unsealHeader header => exact unsealHeader_refines hroot h header
  | getChanges => exact getChanges_refines hroot h
  | getDelta => exact getDelta_refines hroot h
  | getLiveEntries => exact ⟨hroot.readTo, h.sealed⟩
  | getDeadEntries => exact ⟨hroot.readTo, h.sealed⟩
  | queryInflationWinners maxWinners minVotes =>
    exact queryInflationWinners_refines hroot h maxWinners minVotes
  | rollback => exact absurd rfl hcall
  | openChild | commit | getNewestVersion | getBestOffer => exact ⟨hroot.readTo, h⟩

end Calls

/-! ## The whole stack -/

/-- The stack over the tables stands for the flat map, and so does every outer transaction for the map
saved when the next inner one was opened. -/
def Matches : List LedgerTxn → Database → LedgerHeader → Flat → Prop
  | [], db, header, f => f.saved = [] ∧ (∀ k, value (db.load k) = f.now k) ∧ header = f.header
  | t :: parents, db, header, f => ∃ now₀ header₀ saved, f.saved = (now₀, header₀) :: saved ∧
      t.Holds (view parents db) f.now f.header ∧ Matches parents db header ⟨now₀, header₀, saved⟩

/-- The root's caches agree with its tables. -/
structure CachesOK (root : LedgerTxnRoot) : Prop where
  entries : root.CacheOK
  offers : root.BestOffersOK quotient

theorem Matches.keyed {txns : List LedgerTxn} {db : Database} {header : LedgerHeader} {f : Flat}
    (h : Matches txns db header f) : ∀ t ∈ txns, t.Keyed := by
  induction txns generalizing f with
  | nil => simp
  | cons t parents ih =>
    obtain ⟨now₀, header₀, saved, -, ht, hp⟩ := h
    exact List.forall_mem_cons.mpr ⟨ht.keyed, ih hp⟩

theorem Matches.values {txns : List LedgerTxn} {db : Database} {header : LedgerHeader} {f : Flat}
    (h : Matches txns db header f) (k : LedgerKey) : value (view txns db k) = f.now k := by
  cases txns with
  | nil => exact h.2.1 k
  | cons t parents =>
    obtain ⟨now₀, header₀, saved, -, ht, -⟩ := h
    exact ht.values k

/-- The transactions from a depth on match the map saved at that depth. -/
theorem Matches.drop {txns : List LedgerTxn} {db : Database} {header : LedgerHeader} {f : Flat}
    (h : Matches txns db header f) {depth : ℕ} {t : LedgerTxn} {parents : List LedgerTxn}
    (hdrop : txns.drop depth = t :: parents) :
    ∃ now₀ header₀ saved, f.saved.drop depth = (now₀, header₀) :: saved ∧
      Matches parents db header ⟨now₀, header₀, saved⟩ := by
  induction txns generalizing f depth with
  | nil => simp at hdrop
  | cons t' txns ih =>
    obtain ⟨now₀, header₀, saved, hsaved, -, hp⟩ := h
    cases depth with
    | zero =>
      cases hdrop
      exact ⟨now₀, header₀, saved, hsaved, hp⟩
    | succ depth =>
      rw [List.drop_succ_cons] at hdrop
      rw [hsaved, List.drop_succ_cons]
      exact ih hp hdrop

/-- The invariant of a state: the caches are right, and the stack stands for some flat map. -/
structure LedgerState.Wf (s : LedgerState) : Prop where
  caches : CachesOK quotient s.root
  stack : ∃ f, Matches s.txns s.root.mDatabase s.root.mHeader f

/-- The account marker of an entry; only accounts have one. -/
def accountMarker (e : LedgerEntry) : List (Fin 256) :=
  match e.data with
  | .account a => a.accountMarker
  | _ => []

theorem persisted_data_iff (e : LedgerEntry) : (persisted e).data = e.data ↔ accountMarker e = [] := by
  obtain ⟨seq, a | _ | _ | _⟩ := e
  · obtain ⟨id, balance, seqNum, marker, rest⟩ := a
    simp [persisted, accountMarker, eq_comm]
  all_goals simp [persisted, accountMarker]

/-- No account that the transaction would store has a marker. -/
def LedgerTxn.Unmarked (t : LedgerTxn) : Prop :=
  ∀ k e, t.mEntry.lookup k = some (some e) → accountMarker e = []

theorem unmarked_sealed (t : LedgerTxn) : t.sealed.Unmarked ↔ t.Unmarked := by
  constructor
  · intro h k e hl
    obtain ⟨f, hf, hlook⟩ := lookup_sealed t k
    rw [hl] at hlook
    have hmarker := h k (f e) hlook
    rwa [accountMarker, hf] at hmarker
  · intro h k e hl
    obtain ⟨f, hf, hlook⟩ := lookup_sealed t k
    rw [hlook] at hl
    obtain ⟨o, ho, hfo⟩ := Option.map_eq_some_iff.mp hl
    obtain ⟨e', rfl, rfl⟩ := Option.map_eq_some_iff.mp hfo
    rw [accountMarker, hf]
    exact h k e' ho

theorem cachesOK_readTo {root root' : LedgerTxnRoot} (h : CachesOK quotient root)
    (hread : root.ReadTo root') : CachesOK quotient root' := by
  obtain ⟨hcache, c, rfl⟩ := hread
  exact ⟨hcache, h.offers⟩

/-- A commit into the root clears the caches; it stores what the transaction stands for exactly when
no marker is lost. -/
theorem commitChild_spec {root : LedgerTxnRoot} (hroot : root.CacheOK) {t : LedgerTxn}
    {now : LedgerKey → Option LedgerEntryData} {header : LedgerHeader}
    (h : t.Holds root.mDatabase.load now header) :
    ∃ root', root.commitChild t = .ok root' ∧ CachesOK quotient root' ∧ root'.mHeader = header ∧
      ((∀ k, value (root'.mDatabase.load k) = now k) ↔ t.Unmarked) := by
  obtain ⟨root', hstore, hload⟩ := @storeEntries_spec t.mEntry.entries t.mEntry.nodupKeys h.keyed
    root h.erased fun i hi _ => hroot i hi
  have hlook : ∀ k, t.mEntry.entries.dlookup k = t.mEntry.lookup k := fun _ => rfl
  refine ⟨{ root' with
      mHeader := t.mHeader
      mEntryCache := root'.mEntryCache.clear
      mBestOffersCache := root'.mBestOffersCache.clear }, by rw [LedgerTxnRoot.commitChild, hstore],
    ⟨LruCache.all_clear _ _, LruCache.all_clear _ _⟩, h.sameHeader, ?_⟩
  change (∀ k, value (root'.mDatabase.load k) = _) ↔ _
  constructor
  · intro hvalues k e hl
    have hk := hvalues k
    rw [hload, ← h.values, overlay, hlook, hl] at hk
    exact (persisted_data_iff e).mp (Option.some.inj hk)
  · intro hplain k
    rw [hload, ← h.values, overlay, hlook]
    cases hl : t.mEntry.lookup k with
    | none => rfl
    | some entry =>
      cases entry with
      | none => rfl
      | some e => exact congrArg some ((persisted_data_iff e).mpr (hplain k e hl))

/-- A commit into a parent transaction leaves the parent standing for what the child stood for. -/
theorem holds_commitEntries {root : LedgerTxnRoot} (hroot : root.CacheOK) {grandparents : List LedgerTxn}
    {p t : LedgerTxn} {now now₀ : LedgerKey → Option LedgerEntryData} {header header₀ : LedgerHeader}
    (hp : p.Holds (view grandparents root.mDatabase) now₀ header₀)
    (ht : t.Holds (view (p :: grandparents) root.mDatabase) now header) {p' : LedgerTxn}
    (hentry : p'.mEntry = (commitEntries grandparents t.mEntry.entries root p.mEntry).1)
    (hheader : p'.mHeader = t.mHeader) :
    p'.Holds (view grandparents root.mDatabase) now header := by
  obtain ⟨-, hlook⟩ := commitEntries_spec grandparents t.mEntry.entries t.mEntry.nodupKeys hroot p.mEntry
  have hlook' : ∀ k, p'.mEntry.lookup k = match t.mEntry.lookup k with
      | some entry => mergedEntry (view grandparents root.mDatabase k) entry
      | none => p.mEntry.lookup k := by
    intro k
    rw [hentry]
    exact hlook k
  refine ⟨fun k e hl => ?_, fun k hl => ?_, fun k => ?_, hheader.trans ht.sameHeader⟩
  · rw [hlook'] at hl
    split at hl
    · next entry hentry =>
      cases entry with
      | none =>
        rw [mergedEntry] at hl
        split_ifs at hl
        cases Option.some.inj hl
      | some e' =>
        obtain rfl : e' = e := Option.some.inj (Option.some.inj hl)
        exact ht.keyed k e' hentry
    · exact hp.keyed k e hl
  · rw [hlook'] at hl
    split at hl
    · next entry hentry =>
      cases entry with
      | none =>
        rw [mergedEntry] at hl
        split_ifs at hl with hsome
        exact hsome
      | some e' => cases Option.some.inj hl
    · exact hp.erased k hl
  · rw [← ht.values, overlay, overlay, hlook']
    cases hl : t.mEntry.lookup k with
    | none => rfl
    | some entry =>
      cases entry with
      | some e => rfl
      | none =>
        dsimp only
        rw [mergedEntry]
        cases hv : view grandparents root.mDatabase k <;> rfl

theorem holds_new {older : LedgerKey → Option LedgerEntry} {now : LedgerKey → Option LedgerEntryData}
    {header : LedgerHeader} (hvalues : ∀ k, value (older k) = now k) (shouldUpdateLastModified : Bool) :
    (LedgerTxn.new header shouldUpdateLastModified).Holds older now header :=
  ⟨fun _ _ h => (nomatch h), fun _ h => (nomatch h), hvalues, rfl⟩

/-- A commit of the outermost transaction into the tables is plain when it stores no marker. -/
def PlainCommit (s : LedgerState) (depth : ℕ) (call : Call) : Prop :=
  ∀ t, s.txns = [t] → depth = 0 → call = .commit → t.Unmarked

theorem commit_matches {s : LedgerState} {f : Flat} {t : LedgerTxn} {parents : List LedgerTxn}
    (hc : CachesOK quotient s.root) (htxns : s.txns = t :: parents)
    (hm : Matches s.txns s.root.mDatabase s.root.mHeader f) :
    (commit t parents s.root).1 = .ok .done ∧ CachesOK quotient (commit t parents s.root).2.root ∧
      (PlainCommit s 0 .commit → Matches (commit t parents s.root).2.txns
        (commit t parents s.root).2.root.mDatabase (commit t parents s.root).2.root.mHeader
        (f.exec 0 .commit)) ∧
      (parents = [] → (commit t parents s.root).2.txns = []) := by
  rw [htxns] at hm
  obtain ⟨now₀, header₀, saved, hsaved, ht, hp⟩ := hm
  cases parents with
  | nil =>
    obtain ⟨root', hcommit, hcaches, hheader, hload⟩ := commitChild_spec quotient hc.entries ht.sealed
    simp only [commit, hcommit]
    refine ⟨trivial, hcaches, fun hplain => ?_, fun _ => trivial⟩
    refine ⟨?_, hload.mpr ((unmarked_sealed t).mpr (hplain t htxns rfl rfl)), hheader⟩
    rw [Flat.exec, hsaved]
    exact hp.1
  | cons p grandparents =>
    obtain ⟨now₁, header₁, saved₁, hsaved₁, hp', hgp⟩ := hp
    obtain ⟨hread, -⟩ := commitEntries_spec grandparents t.sealed.mEntry.entries
      t.sealed.mEntry.nodupKeys hc.entries p.mEntry
    have hholds := @holds_commitEntries s.root hc.entries grandparents p t.sealed _ _ _ _ hp' ht.sealed
      { p with
        mEntry := (commitEntries grandparents t.sealed.mEntry.entries s.root p.mEntry).1
        mHeader := t.mHeader } rfl (ht.sameHeader.trans ht.sealed.sameHeader.symm)
    refine ⟨rfl, cachesOK_readTo quotient hc hread, fun _ => ?_, fun h => (nomatch h)⟩
    simp only [commit]
    rw [hread.db]
    obtain ⟨-, c, hc'⟩ := hread
    rw [hc']
    refine ⟨now₁, header₁, saved₁, ?_, hholds, hgp⟩
    rw [Flat.exec, hsaved]
    exact hsaved₁

section Exec

variable {s : LedgerState} {f : Flat}

/-- What a call keeps, seen from its outcome. -/
def Keeps (f : Flat) (depth : ℕ) (call : Call) (o : Except String Result × LedgerState) : Prop :=
  Matches o.2.txns o.2.root.mDatabase o.2.root.mHeader
    (match o.1 with
      | .ok _ => f.exec depth call
      | .error _ => f)

theorem execInnermost_matches (hc : CachesOK quotient s.root)
    (hm : Matches s.txns s.root.mDatabase s.root.mHeader f) {t : LedgerTxn} {parents : List LedgerTxn}
    (htxns : s.txns = t :: parents) (call : Call) (hcall : call ≠ .rollback) :
    CachesOK quotient (execInnermost t parents s call).2.root ∧
      (PlainCommit s 0 call → Keeps f 0 call (execInnermost t parents s call)) := by
  have hkey := fun k e => @view_key s.txns hm.keyed s.root.mDatabase k e
  have hvalues := hm.values
  have hm' := hm
  rw [htxns] at hm hkey hvalues
  obtain ⟨now₀, header₀, saved, hsaved, ht, hp⟩ := hm
  unfold execInnermost
  split
  · split
    · exact ⟨hc, fun _ => hm'⟩
    · refine ⟨hc, fun _ => ⟨f.now, f.header, f.saved, rfl, ?_, now₀, header₀, saved, hsaved,
        ht.of_eq rfl rfl, hp⟩⟩
      rw [ht.sameHeader]
      exact holds_new hvalues _
  · obtain ⟨hok, hcaches, hmatch, -⟩ := commit_matches quotient hc htxns hm'
    rw [Keeps, hok]
    exact ⟨hcaches, hmatch⟩
  · next hopen hcommit =>
    obtain ⟨hread, hres⟩ := callTxn_refines hc.entries ht hkey call hcall
    refine ⟨cachesOK_readTo quotient hc hread, fun _ => ?_⟩
    have hsaved' : (f.exec 0 call).saved = (now₀, header₀) :: saved := by
      cases call <;> first | exact hsaved | contradiction | simp_all
    obtain ⟨-, c, hroot⟩ := hread
    unfold Keeps
    dsimp only
    rw [hroot]
    revert hres
    cases (callTxn t parents s.root call).1 with
    | ok _ => exact fun hres => ⟨now₀, header₀, saved, hsaved', hres, hp⟩
    | error _ => exact fun hres => ⟨now₀, header₀, saved, hsaved, hres, hp⟩

theorem execTxn_matches (hc : CachesOK quotient s.root)
    (hm : Matches s.txns s.root.mDatabase s.root.mHeader f) (depth : ℕ) (call : Call)
    (hcall : call ≠ .rollback) :
    CachesOK quotient (execTxn s depth call).2.root ∧
      (PlainCommit s depth call → Keeps f depth call (execTxn s depth call)) := by
  unfold execTxn
  split
  · split
    · split
      · next hempty =>
        have htxns : s.txns = [] := List.isEmpty_iff.mp hempty
        rw [htxns] at hm
        obtain ⟨hsaved, hvalues, hheader⟩ := hm
        refine ⟨hc, fun _ => ⟨f.now, f.header, [], ?_, ?_, rfl, hvalues, hheader⟩⟩
        · rw [Flat.exec, hsaved]
        · rw [hheader]
          exact holds_new hvalues _
      · exact ⟨hc, fun _ => hm⟩
    · exact ⟨hc, fun _ => hm⟩
  · next t parents hdrop =>
    split
    · next hdepth =>
      subst hdepth
      exact execInnermost_matches quotient hc hm hdrop call hcall
    · exact ⟨hc, fun _ => hm⟩

theorem rollback_matches (hc : CachesOK quotient s.root)
    (hm : Matches s.txns s.root.mDatabase s.root.mHeader f) (depth : ℕ) :
    CachesOK quotient (rollback s depth).2.root ∧ Keeps f depth .rollback (rollback s depth) := by
  unfold rollback
  split
  · exact ⟨hc, hm⟩
  · next hdrop =>
    obtain ⟨now₀, header₀, saved, hsaved, hp⟩ := hm.drop hdrop
    refine ⟨hc, ?_⟩
    unfold Keeps
    dsimp only
    rw [Flat.exec, hsaved]
    exact hp

/-- **One call.** It keeps the caches right, and the stack goes on standing for the flat map, changed
if the call was accepted. -/
theorem exec_matches (hc : CachesOK quotient s.root)
    (hm : Matches s.txns s.root.mDatabase s.root.mHeader f) (depth : ℕ) (call : Call) :
    CachesOK quotient (exec quotient s depth call).2.root ∧
      (PlainCommit s depth call → Keeps f depth call (exec quotient s depth call)) := by
  cases call with
  | getNewestVersion key =>
    obtain ⟨-, hread⟩ := getNewestVersion_spec (s.txns.drop depth) hc.entries key
    refine ⟨cachesOK_readTo quotient hc hread, fun _ => ?_⟩
    obtain ⟨-, c, hroot⟩ := hread
    unfold Keeps exec
    dsimp only
    rw [hroot]
    exact hm
  | getBestOffer buying selling exclude =>
    obtain ⟨hoffers, c, hroot⟩ := getBestOffer_root quotient buying selling (s.txns.drop depth) hc.offers
      exclude
    unfold Keeps exec
    dsimp only
    rw [hroot] at hoffers ⊢
    exact ⟨⟨hc.entries, hoffers⟩, fun _ => hm⟩
  | rollback => exact (rollback_matches quotient hc hm depth).imp_right fun h _ => h
  | _ => exact execTxn_matches quotient hc hm depth _ (by simp)

end Exec

end ZaggCore.Ledger
