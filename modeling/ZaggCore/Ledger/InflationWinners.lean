import Mathlib
import ZaggCore.Ledger.LedgerTxn
import ZaggCore.Crypto.StrKey
import ZaggCore.Foundations.Ranking
import ZaggCore.Util.Numeric

/-! # Inflation winners

`getInflationWinners` of `LedgerTxn` and `LedgerTxnRoot`. A transaction adds up how its own entries
change the votes, asks its parent for a longer list with a lower bound, and ranks again what comes back.
The sums are those of `int64_t`: they are exact where the votes of every account have 64 bits, in the tables
and in what each transaction makes of them. -/

namespace ZaggCore.Ledger
set_option autoImplicit false
set_option maxHeartbeats 250000

open Util Foundations Crypto Numeric

/-! ## The model -/

def MIN_VOTES_TO_INCLUDE : ℤ := 1000000000

/-- `std::numeric_limits<size_t>::max()`. -/
def SIZE_MAX : ℕ := 2 ^ 64 - 1

/-- `struct InflationWinner`: the account and its votes. -/
abbrev InflationWinner := AccountID × ℤ

abbrev VoteMap := AList fun _ : AccountID => ℤ

/-- Whom an entry votes for, and with what balance. -/
def vote (e : LedgerEntry) : Option (AccountID × ℤ) :=
  match e.data with
  | .account acc => if acc.balance ≥ MIN_VOTES_TO_INCLUDE then acc.inflationDest.map (·, acc.balance) else none
  | _ => none

def isAccountKey : LedgerKey → Bool
  | .account _ => true
  | _ => false

/-- `votes[accountID] += v`. -/
def VoteMap.add (votes : VoteMap) (accountID : AccountID) (v : ℤ) : VoteMap :=
  votes.insert accountID (toInt64 ((votes.lookup accountID).getD 0 + v))

/-- Count the vote of an entry, if it has one. -/
def VoteMap.count (votes : VoteMap) (sign : ℤ) (entry : Option LedgerEntry) : VoteMap :=
  match entry.bind vote with
  | some (dest, balance) => votes.add dest (sign * balance)
  | none => votes

/-- The loop of `getDeltaVotes`. -/
def getDeltaVotes (parents : List LedgerTxn) : EntryIterator → LedgerTxnRoot → VoteMap →
    VoteMap × LedgerTxnRoot
  | [], root, deltaVotes => (deltaVotes, root)
  | ⟨key, entry⟩ :: iter, root, deltaVotes =>
    if !isAccountKey key then getDeltaVotes parents iter root deltaVotes
    else
      let (previous, root) := getNewestVersion parents root key
      getDeltaVotes parents iter root ((deltaVotes.count 1 entry).count (-1) previous)

/-- `getTotalVotes`. -/
def getTotalVotes (parentWinners : List InflationWinner) (deltaVotes : VoteMap) (minVotes : ℤ) : VoteMap :=
  let emplaced := parentWinners.foldl
    (fun (total : VoteMap) w => if w.1 ∈ total then total else total.insert w.1 w.2) ∅
  deltaVotes.entries.foldl
    (fun (total : VoteMap) delta =>
      if delta.1 ∈ total ∨ delta.2 ≥ minVotes then total.add delta.1 delta.2 else total) emplaced

/-- The comparison of `enumerateInflationWinners`. -/
def winsBefore (lhs rhs : InflationWinner) : Bool :=
  if lhs.2 = rhs.2 then toStrKey lhs.1 > toStrKey rhs.1 else lhs.2 > rhs.2

/-- `enumerateInflationWinners`; the order is total, so every sort gives the same list. -/
def enumerateInflationWinners (totalVotes : VoteMap) (maxWinners : ℕ) (minVotes : ℤ) :
    List InflationWinner :=
  let winners := (totalVotes.entries.map fun total => (total.1, total.2)).filter fun w => w.2 ≥ minVotes
  (winners.insertionSort fun lhs rhs => !winsBefore rhs lhs).take maxWinners

def numChanged (deltaVotes : VoteMap) : ℕ := deltaVotes.entries.countP fun delta => delta.2 ≠ 0

/-- The largest increase, or 0. -/
def maxIncrease (deltaVotes : VoteMap) : ℤ := (deltaVotes.entries.map Sigma.snd).foldr max 0

def newMinVotes (deltaVotes : VoteMap) (minVotes : ℤ) : ℤ :=
  if minVotes > maxIncrease deltaVotes then minVotes - maxIncrease deltaVotes else 0

/-- The sum of the balances that vote for an account. -/
def votesOf (rows : AList fun _ : LedgerKey => LedgerEntry) (dest : AccountID) : ℤ :=
  ((rows.entries.filterMap fun kv => vote kv.2).map fun v => if v.1 = dest then v.2 else 0).sum

/-- The groups of the query: every account that is voted for, with its votes. -/
def tally (rows : AList fun _ : LedgerKey => LedgerEntry) : List InflationWinner :=
  ((rows.entries.filterMap fun kv => vote kv.2).map Prod.fst).dedup.map fun dest => (dest, votesOf rows dest)

/-- `loadInflationWinners`: the query sorts and limits, and the loop stops at too few votes. -/
def Database.loadInflationWinners (db : Database) (maxWinners : ℕ) (minBalance : ℤ) :
    List InflationWinner :=
  (((tally db.rows).insertionSort (RanksBefore toStrKey)).take maxWinners).takeWhile
    fun w => !decide (w.2 < minBalance)

/-- `getInflationWinners` of the first transaction, with its parents and the root. -/
def getInflationWinners : List LedgerTxn → LedgerTxnRoot → ℕ → ℤ →
    Except String (List InflationWinner) × LedgerTxnRoot
  | [], root, maxWinners, minVotes => (.ok (root.mDatabase.loadInflationWinners maxWinners minVotes), root)
  | t :: parents, root, maxWinners, minVotes =>
    let (deltaVotes, root) := getDeltaVotes parents t.mEntry.entries root ∅
    if SIZE_MAX - numChanged deltaVotes < maxWinners then (.error "max winners overflowed", root)
    else
      match getInflationWinners parents root (maxWinners + numChanged deltaVotes)
          (newMinVotes deltaVotes minVotes) with
      | (.error what, root) => (.error what, root)
      | (.ok parentWinners, root) =>
        (.ok (enumerateInflationWinners (getTotalVotes parentWinners deltaVotes minVotes) maxWinners
          minVotes), root)

/-! ## The flattened ledger -/

/-- The rows with the entries of a transaction written over them. -/
def overwriteRows : EntryIterator → (AList fun _ : LedgerKey => LedgerEntry) →
    AList fun _ : LedgerKey => LedgerEntry
  | [], rows => rows
  | ⟨key, some e⟩ :: iter, rows => overwriteRows iter (rows.insert key e)
  | ⟨key, none⟩ :: iter, rows => overwriteRows iter (rows.erase key)

/-- The rows that a stack of transactions stands for. -/
def flattened : List LedgerTxn → Database → AList fun _ : LedgerKey => LedgerEntry
  | [], db => db.rows
  | t :: parents, db => overwriteRows t.mEntry.entries (flattened parents db)

/-- The first `maxWinners` of the flattened ledger's tally with at least `minVotes`. -/
def winners (txns : List LedgerTxn) (db : Database) (maxWinners : ℕ) (minVotes : ℤ) :
    List InflationWinner :=
  ranking toStrKey (tally (flattened txns db)) maxWinners minVotes

/-- No account has more votes than 64 bits can say, in the tables and after each of the transactions. -/
def VotesFit (txns : List LedgerTxn) (db : Database) : Prop :=
  ∀ level ∈ txns.tails, ∀ w ∈ tally (flattened level db), w.2 ≤ INT64_MAX

instance (txns : List LedgerTxn) (db : Database) : Decidable (VotesFit txns db) := by
  unfold VotesFit
  infer_instance

/-! ## Votes of the flattened ledger -/

/-- The votes an entry gives to an account. -/
def votesFor (dest : AccountID) (entry : Option LedgerEntry) : ℤ :=
  match entry.bind vote with
  | some v => if v.1 = dest then v.2 else 0
  | none => 0

theorem votesOf_eq (rows : AList fun _ : LedgerKey => LedgerEntry) (dest : AccountID) :
    votesOf rows dest = (rows.entries.map fun kv => votesFor dest (some kv.2)).sum := by
  unfold votesOf
  induction rows.entries with
  | nil => rfl
  | cons kv l ih =>
    rw [List.filterMap_cons, List.map_cons, List.sum_cons, ← ih]
    cases hvote : vote kv.2 with
    | none => simp [votesFor, hvote]
    | some v => simp [votesFor, hvote]

theorem sum_kerase (dest : AccountID) (key : LedgerKey) {l : List (Sigma fun _ : LedgerKey => LedgerEntry)}
    (hnd : l.NodupKeys) :
    (l.map fun kv => votesFor dest (some kv.2)).sum
      = votesFor dest (l.dlookup key) + ((l.kerase key).map fun kv => votesFor dest (some kv.2)).sum := by
  induction l with
  | nil => rfl
  | cons kv l ih =>
    obtain ⟨hkv, hnd'⟩ := List.nodupKeys_cons.mp hnd
    rcases eq_or_ne key kv.1 with rfl | hk
    · rw [List.kerase_cons_eq rfl, List.dlookup_cons_eq, List.map_cons, List.sum_cons]
    · rw [List.kerase_cons_ne hk, List.dlookup_cons_ne _ _ hk, List.map_cons, List.sum_cons, ih hnd',
        List.map_cons, List.sum_cons]
      ring

theorem votesOf_erase (rows : AList fun _ : LedgerKey => LedgerEntry) (key : LedgerKey)
    (dest : AccountID) :
    votesOf (rows.erase key) dest = votesOf rows dest - votesFor dest (rows.lookup key) := by
  have hsum := sum_kerase dest key rows.nodupKeys
  rw [votesOf_eq, votesOf_eq, hsum]
  exact (add_sub_cancel_left _ _).symm

theorem votesOf_insert (rows : AList fun _ : LedgerKey => LedgerEntry) (key : LedgerKey)
    (e : LedgerEntry) (dest : AccountID) :
    votesOf (rows.insert key e) dest
      = votesOf rows dest - votesFor dest (rows.lookup key) + votesFor dest (some e) := by
  rw [← votesOf_erase, votesOf_eq, votesOf_eq, AList.entries_insert, List.map_cons, List.sum_cons, add_comm]
  rfl

/-- Entries written over rows change the votes entry by entry. -/
theorem overwriteRows_spec (iter : EntryIterator) (hnd : iter.NodupKeys)
    (rows : AList fun _ : LedgerKey => LedgerEntry) :
    (∀ key, (overwriteRows iter rows).lookup key = match iter.dlookup key with
      | some entry => entry
      | none => rows.lookup key) ∧
    ∀ dest, votesOf (overwriteRows iter rows) dest = votesOf rows dest
      + (iter.map fun kv => votesFor dest kv.2 - votesFor dest (rows.lookup kv.1)).sum := by
  induction iter generalizing rows with
  | nil => exact ⟨fun _ => rfl, fun _ => (add_zero _).symm⟩
  | cons kv iter ih =>
    obtain ⟨key, entry⟩ := kv
    obtain ⟨hkey, hnd'⟩ := List.nodupKeys_cons.mp hnd
    have hiter : iter.dlookup key = none := List.dlookup_eq_none.mpr hkey
    -- the rest of the iterator reads other keys
    have hrest : ∀ (rows' : AList fun _ : LedgerKey => LedgerEntry) (dest : AccountID),
        (∀ k ≠ key, rows'.lookup k = rows.lookup k) →
        (iter.map fun kv => votesFor dest kv.2 - votesFor dest (rows'.lookup kv.1))
          = iter.map fun kv => votesFor dest kv.2 - votesFor dest (rows.lookup kv.1) := by
      intro rows' dest hrows
      refine List.map_congr_left fun kv hkv => ?_
      have hmem : kv.1 ∈ iter.keys := List.mem_map_of_mem hkv
      rw [hrows _ fun heq => hkey (heq ▸ hmem)]
    cases entry with
    | some e =>
      obtain ⟨hlook, hvotes⟩ := ih hnd' (rows.insert key e)
      refine ⟨fun k => ?_, fun dest => ?_⟩
      · rw [overwriteRows, hlook]
        rcases eq_or_ne k key with rfl | hk
        · rw [hiter, List.dlookup_cons_eq]
          exact AList.lookup_insert _
        · rw [dlookup_cons_of_ne hk, AList.lookup_insert_ne hk]
      · rw [overwriteRows, hvotes, hrest _ _ fun k hk => AList.lookup_insert_ne hk, votesOf_insert,
          List.map_cons, List.sum_cons]
        ring
    | none =>
      obtain ⟨hlook, hvotes⟩ := ih hnd' (rows.erase key)
      refine ⟨fun k => ?_, fun dest => ?_⟩
      · rw [overwriteRows, hlook]
        rcases eq_or_ne k key with rfl | hk
        · rw [hiter, List.dlookup_cons_eq]
          exact AList.lookup_erase _ _
        · rw [dlookup_cons_of_ne hk, AList.lookup_erase_ne hk]
      · have hnone : votesFor dest none = 0 := rfl
        rw [overwriteRows, hvotes, hrest _ _ fun k hk => AList.lookup_erase_ne hk, votesOf_erase,
          List.map_cons, List.sum_cons, hnone]
        ring

theorem lookup_flattened (txns : List LedgerTxn) (db : Database) (key : LedgerKey) :
    (flattened txns db).lookup key = view txns db key := by
  induction txns with
  | nil => rfl
  | cons t parents ih =>
    rw [flattened, (overwriteRows_spec _ t.mEntry.nodupKeys _).1, ih]
    rfl

theorem vote_pos {e : LedgerEntry} {v : AccountID × ℤ} (h : vote e = some v) : 0 < v.2 := by
  unfold vote at h
  split at h
  · split_ifs at h with hbalance
    obtain ⟨_, -, rfl⟩ := Option.map_eq_some_iff.mp h
    exact lt_of_lt_of_le (by decide) hbalance
  · cases h

theorem votesOf_nonneg (rows : AList fun _ : LedgerKey => LedgerEntry) (dest : AccountID) :
    0 ≤ votesOf rows dest := by
  refine List.sum_nonneg fun x hx => ?_
  obtain ⟨v, hv, rfl⟩ := List.mem_map.mp hx
  obtain ⟨kv, -, hvote⟩ := List.mem_filterMap.mp hv
  split
  · exact (vote_pos hvote).le
  · exact le_rfl

/-- The groups of the tally are the accounts that have votes. -/
theorem votesOf_pos (rows : AList fun _ : LedgerKey => LedgerEntry) (dest : AccountID) :
    0 < votesOf rows dest ↔ dest ∈ (rows.entries.filterMap fun kv => vote kv.2).map Prod.fst := by
  unfold votesOf
  have hpos : ∀ v ∈ rows.entries.filterMap fun kv => vote kv.2, 0 < v.2 := by
    intro v hv
    obtain ⟨kv, -, hvote⟩ := List.mem_filterMap.mp hv
    exact vote_pos hvote
  generalize rows.entries.filterMap (fun kv => vote kv.2) = ballots at hpos ⊢
  induction ballots with
  | nil => simp
  | cons v l ih =>
    obtain ⟨hv, hl⟩ := List.forall_mem_cons.mp hpos
    have hnonneg : 0 ≤ (l.map fun v => if v.1 = dest then v.2 else 0).sum := by
      refine List.sum_nonneg fun x hx => ?_
      obtain ⟨w, hw, rfl⟩ := List.mem_map.mp hx
      split
      · exact (hl w hw).le
      · exact le_rfl
    rw [List.map_cons, List.sum_cons, List.map_cons, List.mem_cons]
    by_cases hd : v.1 = dest
    · rw [if_pos hd]
      exact iff_of_true (by omega) (.inl hd.symm)
    · rw [if_neg hd, zero_add, or_iff_right (Ne.symm hd)]
      exact ih hl

theorem VotesFit.le {txns : List LedgerTxn} {db : Database} (h : VotesFit txns db) (dest : AccountID) :
    votesOf (flattened txns db) dest ≤ INT64_MAX := by
  by_cases hpos : 0 < votesOf (flattened txns db) dest
  · refine h txns ((List.mem_tails _ _).mpr List.suffix_rfl) (dest, _) ?_
    exact List.mem_map.mpr ⟨dest, List.mem_dedup.mpr ((votesOf_pos _ dest).mp hpos), rfl⟩
  · unfold INT64_MAX
    omega

theorem VotesFit.parents {t : LedgerTxn} {parents : List LedgerTxn} {db : Database}
    (h : VotesFit (t :: parents) db) : VotesFit parents db := fun level hlevel =>
  h level ((List.mem_tails _ _).mpr (((List.mem_tails _ _).mp hlevel).trans (List.suffix_cons t parents)))

theorem VotesFit.fits {txns : List LedgerTxn} {db : Database} (h : VotesFit txns db) (dest : AccountID) :
    FitsInt64 (votesOf (flattened txns db) dest) :=
  ⟨le_trans (by decide) (votesOf_nonneg _ dest), h.le dest⟩

theorem VotesFit.fits_sub {t : LedgerTxn} {parents : List LedgerTxn} {db : Database}
    (h : VotesFit (t :: parents) db) (dest : AccountID) :
    FitsInt64 (votesOf (flattened (t :: parents) db) dest - votesOf (flattened parents db) dest) := by
  have hafter := h.le dest
  have hbefore := h.parents.le dest
  have hafter' := votesOf_nonneg (flattened (t :: parents) db) dest
  have hbefore' := votesOf_nonneg (flattened parents db) dest
  unfold INT64_MAX at hafter hbefore
  unfold FitsInt64 INT64_MAX
  omega

/-! ## The deltas of one transaction -/

/-- The votes under an account, 0 when it has no entry in the map. -/
def VoteMap.votes (m : VoteMap) (dest : AccountID) : ℤ := (m.lookup dest).getD 0

theorem VoteMap.lookup_add (m : VoteMap) (dest : AccountID) (v : ℤ) (a : AccountID) :
    (m.add dest v).lookup a = if a = dest then some (toInt64 (m.votes dest + v)) else m.lookup a := by
  unfold VoteMap.add VoteMap.votes
  split_ifs with h
  · rw [h, AList.lookup_insert]
  · rw [AList.lookup_insert_ne h]

/-- Every number of a map has 64 bits. -/
def VoteMap.Fits (m : VoteMap) : Prop := ∀ a, FitsInt64 (m.votes a)

theorem VoteMap.fits_empty : VoteMap.Fits ∅ := by
  intro a
  have hzero : VoteMap.votes ∅ a = 0 := rfl
  rw [hzero]
  decide

theorem VoteMap.Fits.add {m : VoteMap} (h : m.Fits) (dest : AccountID) (v : ℤ) : (m.add dest v).Fits := by
  intro a
  rw [VoteMap.votes, VoteMap.lookup_add]
  split_ifs
  · exact fitsInt64_toInt64 _
  · exact h a

theorem VoteMap.Fits.count {m : VoteMap} (h : m.Fits) (sign : ℤ) (entry : Option LedgerEntry) :
    (m.count sign entry).Fits := by
  unfold VoteMap.count
  cases entry.bind vote with
  | none => exact h
  | some v => exact h.add _ _

theorem VoteMap.votes_count (m : VoteMap) (sign : ℤ) (entry : Option LedgerEntry) (a : AccountID) :
    (m.count sign entry).votes a ≡ m.votes a + sign * votesFor a entry [ZMOD 2 ^ 64] := by
  unfold VoteMap.count votesFor
  cases entry.bind vote with
  | none => simp
  | some v =>
    dsimp only
    rw [VoteMap.votes, VoteMap.lookup_add]
    rcases eq_or_ne a v.1 with rfl | h
    · rw [if_pos rfl, if_pos rfl]
      exact toInt64_modEq _
    · rw [if_neg h, if_neg (Ne.symm h), mul_zero, add_zero]
      rfl

/-- `getDeltaVotes` over given older versions. -/
def countDeltas (older : LedgerKey → Option LedgerEntry) : EntryIterator → VoteMap → VoteMap
  | [], deltaVotes => deltaVotes
  | ⟨key, entry⟩ :: iter, deltaVotes =>
    if !isAccountKey key then countDeltas older iter deltaVotes
    else countDeltas older iter ((deltaVotes.count 1 entry).count (-1) (older key))

/-- How the entries of a transaction change the votes. -/
def deltaVotes (t : LedgerTxn) (parents : List LedgerTxn) (db : Database) : VoteMap :=
  countDeltas (view parents db) t.mEntry.entries ∅

theorem getDeltaVotes_spec (parents : List LedgerTxn) (iter : EntryIterator) {root : LedgerTxnRoot}
    (hroot : root.CacheOK) (m : VoteMap) :
    (getDeltaVotes parents iter root m).1 = countDeltas (view parents root.mDatabase) iter m ∧
      root.ReadTo (getDeltaVotes parents iter root m).2 := by
  induction iter generalizing root m with
  | nil => exact ⟨rfl, hroot.readTo⟩
  | cons kv iter ih =>
    obtain ⟨key, entry⟩ := kv
    rw [getDeltaVotes, countDeltas]
    split
    · exact ih hroot m
    · obtain ⟨hnewest, hread⟩ := getNewestVersion_spec parents hroot key
      obtain ⟨hcount, hread'⟩ := ih hread.1
        ((m.count 1 entry).count (-1) (getNewestVersion parents root key).1)
      rw [hread.db] at hcount
      exact ⟨hcount.trans (by rw [hnewest]), hread.trans hread'⟩

/-- Entries under keys of other types do not vote. -/
theorem votesFor_eq_zero {key : LedgerKey} (hkey : isAccountKey key = false) {entry : Option LedgerEntry}
    (hkeyed : ∀ e, entry = some e → e.key = key) (dest : AccountID) : votesFor dest entry = 0 := by
  cases entry with
  | none => rfl
  | some e =>
    obtain ⟨seq, _ | _ | _ | _⟩ := e
    · have := hkeyed _ rfl
      rw [← this] at hkey
      cases hkey
    all_goals rfl

theorem fits_countDeltas (older : LedgerKey → Option LedgerEntry) (iter : EntryIterator) {m : VoteMap}
    (h : m.Fits) : (countDeltas older iter m).Fits := by
  induction iter generalizing m with
  | nil => exact h
  | cons kv iter ih =>
    rw [countDeltas]
    split
    · exact ih h
    · exact ih ((h.count _ _).count _ _)

theorem votes_countDeltas (older : LedgerKey → Option LedgerEntry) (iter : EntryIterator) (m : VoteMap)
    (hkeyed : ∀ kv ∈ iter, ∀ e, kv.2 = some e → e.key = kv.1)
    (holder : ∀ k e, older k = some e → e.key = k) (dest : AccountID) :
    (countDeltas older iter m).votes dest ≡ m.votes dest
      + (iter.map fun kv => votesFor dest kv.2 - votesFor dest (older kv.1)).sum [ZMOD 2 ^ 64] := by
  induction iter generalizing m with
  | nil =>
    rw [List.map_nil, List.sum_nil, add_zero]
    rfl
  | cons kv iter ih =>
    obtain ⟨key, entry⟩ := kv
    obtain ⟨hkv, hiter⟩ := List.forall_mem_cons.mp hkeyed
    rw [countDeltas, List.map_cons, List.sum_cons]
    cases hkey : isAccountKey key with
    | false =>
      rw [Bool.not_false, if_pos rfl, votesFor_eq_zero hkey hkv,
        votesFor_eq_zero hkey fun e he => holder key e he, sub_zero, zero_add]
      exact ih m hiter
    | true =>
      rw [Bool.not_true, if_neg Bool.false_ne_true]
      refine (ih _ hiter).trans ?_
      have hnewer := m.votes_count 1 entry dest
      have holder' := (m.count 1 entry).votes_count (-1) (older key) dest
      refine ((holder'.trans (hnewer.add_right _)).add_right _).trans ?_
      refine congrArg (· % 2 ^ 64) ?_
      ring

/-- The deltas lead from the votes in the parents' ledger to those in the transaction's. -/
theorem votes_deltaVotes {t : LedgerTxn} {parents : List LedgerTxn} {db : Database}
    (hkeyed : ∀ t' ∈ t :: parents, t'.Keyed) (hfits : VotesFit (t :: parents) db) (dest : AccountID) :
    (deltaVotes t parents db).votes dest
      = votesOf (flattened (t :: parents) db) dest - votesOf (flattened parents db) dest := by
  have hentries : ∀ kv ∈ t.mEntry.entries, ∀ e, kv.2 = some e → e.key = kv.1 := by
    intro kv hkv e he
    refine hkeyed t List.mem_cons_self kv.1 e ?_
    rw [← he]
    exact List.mem_dlookup t.mEntry.nodupKeys hkv
  have holder : ∀ k e, view parents db k = some e → e.key = k := fun _ _ h =>
    view_key (fun t' ht' => hkeyed t' (List.mem_cons_of_mem _ ht')) h
  have hzero : VoteMap.votes ∅ dest = 0 := rfl
  have hsum : votesOf (flattened (t :: parents) db) dest - votesOf (flattened parents db) dest
      = (t.mEntry.entries.map fun kv =>
          votesFor dest kv.2 - votesFor dest (view parents db kv.1)).sum := by
    rw [flattened, (overwriteRows_spec _ t.mEntry.nodupKeys _).2, add_sub_cancel_left]
    simp only [lookup_flattened]
  have hcount := votes_countDeltas (view parents db) t.mEntry.entries ∅ hentries holder dest
  rw [hzero, zero_add, ← hsum] at hcount
  -- what the two sides have in common has 64 bits on both
  rw [← toInt64_eq (hfits.fits_sub dest), ← toInt64_congr hcount]
  exact (toInt64_eq (fits_countDeltas _ _ VoteMap.fits_empty dest)).symm

/-! ## The totals and their ranking -/

theorem lookup_emplaced (winners : List InflationWinner) (m : VoteMap) (a : AccountID) :
    (winners.foldl (fun (total : VoteMap) w => if w.1 ∈ total then total else total.insert w.1 w.2) m).lookup a
      = (m.lookup a).or ((winners.find? fun w => w.1 = a).map Prod.snd) := by
  induction winners generalizing m with
  | nil => simp
  | cons w winners ih =>
    rw [List.foldl_cons, ih, List.find?_cons]
    by_cases hw : w.1 ∈ m
    · rw [if_pos hw]
      rcases eq_or_ne w.1 a with rfl | hne
      · obtain ⟨v, hv⟩ := Option.isSome_iff_exists.mp (AList.lookup_isSome.mpr hw)
        simp [hv]
      · simp [hne]
    · rw [if_neg hw]
      rcases eq_or_ne w.1 a with rfl | hne
      · have hnone : m.lookup w.1 = none := AList.lookup_eq_none.mpr hw
        simp [hnone]
      · simp [hne, AList.lookup_insert_ne hne.symm]

theorem lookup_addDeltas (minVotes : ℤ) (deltas : List (Sigma fun _ : AccountID => ℤ))
    (hnd : deltas.NodupKeys) (m : VoteMap) (a : AccountID) :
    (deltas.foldl (fun (total : VoteMap) delta =>
        if delta.1 ∈ total ∨ delta.2 ≥ minVotes then total.add delta.1 delta.2 else total) m).lookup a
      = match deltas.dlookup a with
        | some v => if a ∈ m ∨ v ≥ minVotes then some (toInt64 (m.votes a + v)) else none
        | none => m.lookup a := by
  induction deltas generalizing m with
  | nil => rfl
  | cons delta deltas ih =>
    obtain ⟨hdelta, hnd'⟩ := List.nodupKeys_cons.mp hnd
    rw [List.foldl_cons, ih hnd']
    rcases eq_or_ne a delta.1 with rfl | hne
    · rw [List.dlookup_eq_none.mpr hdelta, List.dlookup_cons_eq]
      dsimp only
      split_ifs with h
      · rw [VoteMap.lookup_add, if_pos rfl]
      · exact AList.lookup_eq_none.mpr fun hmem => h (.inl hmem)
    · have hother : ∀ total : VoteMap, total = m ∨ total = m.add delta.1 delta.2 →
          total.lookup a = m.lookup a ∧ total.votes a = m.votes a ∧ (a ∈ total ↔ a ∈ m) := by
        rintro total (rfl | rfl)
        · exact ⟨rfl, rfl, Iff.rfl⟩
        · have hlook : (m.add delta.1 delta.2).lookup a = m.lookup a := by
            rw [VoteMap.lookup_add, if_neg hne]
          refine ⟨hlook, by rw [VoteMap.votes, hlook]; rfl, ?_⟩
          rw [← AList.lookup_isSome, hlook, AList.lookup_isSome]
      have hstep := hother (if delta.1 ∈ m ∨ delta.2 ≥ minVotes then m.add delta.1 delta.2 else m) (by
        split
        · exact .inr rfl
        · exact .inl rfl)
      rw [List.dlookup_cons_ne _ _ hne, hstep.1, hstep.2.1]
      simp only [hstep.2.2]

/-- The total of an account: with the parent's answer its votes there and the delta, without it the
delta alone if that is enough. -/
theorem lookup_getTotalVotes {parentWinners : List InflationWinner} {P : AccountID → ℤ}
    (hP : ∀ w ∈ parentWinners, w.2 = P w.1) {deltaVotes : VoteMap} (hdelta : deltaVotes.Fits)
    (hsum : ∀ a, FitsInt64 (P a + deltaVotes.votes a)) (minVotes : ℤ) (a : AccountID) :
    (getTotalVotes parentWinners deltaVotes minVotes).lookup a
      = if a ∈ parentWinners.map Prod.fst then some (P a + deltaVotes.votes a)
        else if a ∈ deltaVotes ∧ minVotes ≤ deltaVotes.votes a then some (deltaVotes.votes a)
        else none := by
  have hemplaced : (parentWinners.foldl (fun (total : VoteMap) w =>
      if w.1 ∈ total then total else total.insert w.1 w.2) ∅).lookup a
      = if a ∈ parentWinners.map Prod.fst then some (P a) else none := by
    rw [lookup_emplaced, AList.lookup_empty, Option.none_or]
    split_ifs with hmem
    · obtain ⟨w, hw, rfl⟩ := List.mem_map.mp hmem
      cases hfind : parentWinners.find? fun w' => w'.1 = w.1 with
      | none => exact absurd (List.find?_eq_none.mp hfind w hw) (by simp)
      | some w' =>
        have hw' : w'.1 = w.1 := by simpa using List.find?_some hfind
        rw [Option.map_some, hP w' (List.mem_of_find?_eq_some hfind), hw']
    · rw [Option.map_eq_none_iff, List.find?_eq_none]
      intro w hw heq
      exact hmem (List.mem_map.mpr ⟨w, hw, by simpa using heq⟩)
  have hlook : deltaVotes.entries.dlookup a = deltaVotes.lookup a := rfl
  rw [getTotalVotes, lookup_addDeltas _ _ deltaVotes.nodupKeys, hlook]
  generalize parentWinners.foldl (fun (total : VoteMap) w =>
    if w.1 ∈ total then total else total.insert w.1 w.2) ∅ = emplaced at hemplaced ⊢
  have hsum := hsum a
  have hdelta := hdelta a
  simp only [← AList.lookup_isSome, VoteMap.votes, hemplaced] at hsum hdelta ⊢
  cases hd : deltaVotes.lookup a with
  | none => split_ifs <;> simp_all
  | some v =>
    rw [hd, Option.getD_some] at hsum hdelta
    split_ifs <;> simp_all [toInt64_eq]

end ZaggCore.Ledger
