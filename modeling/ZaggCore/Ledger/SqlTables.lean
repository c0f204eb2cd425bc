import Mathlib
import ZaggCore.Ledger.LedgerTxn
import ZaggCore.Transactions.TransactionUtils

/-! # The SQL tables

The statements of the `ledger/LedgerTxn*SQL.cpp` files. They do not find a row by the whole ledger key: a trust
line is found by its account, its issuer and the text of its asset code, whatever type its asset has, and an
offer is written by its number alone. Over keys that they tell apart, the tables hold what `Database` holds, and
no statement fails. -/

namespace ZaggCore.Ledger
set_option autoImplicit false
set_option maxHeartbeats 250000

open Transactions (codeBytes codeLength isAssetValid getIssuer)

/-! ## Asset codes as texts -/

/-- The characters before the first zero. -/
def assetCodeToStr (size code : ℕ) : List ℕ := (codeBytes size code).takeWhile (· ≠ 0)

/-- The big-endian number of the bytes. -/
def ofBytes (bytes : List ℕ) : ℕ := bytes.foldl (fun code b => code * 256 + b) 0

/-- The array is filled with zeros before the characters are copied. -/
def strToAssetCode (size : ℕ) (str : List ℕ) : ℕ := ofBytes ((str ++ List.replicate size 0).take size)

theorem codeBytes_succ (size code : ℕ) :
    codeBytes (size + 1) code = codeBytes size (code / 256) ++ [code % 256] := by
  unfold codeBytes
  rw [List.range_succ, List.map_append, List.map_singleton]
  congr 1
  · refine List.map_congr_left fun i hi => ?_
    have hexp : size + 1 - 1 - i = size - 1 - i + 1 := by
      have := List.mem_range.mp hi
      omega
    rw [hexp, pow_succ', Nat.div_div_eq_div_mul]
  · simp

theorem length_codeBytes (size code : ℕ) : (codeBytes size code).length = size := by
  simp [codeBytes]

theorem ofBytes_codeBytes {size code : ℕ} (h : code < 256 ^ size) : ofBytes (codeBytes size code) = code := by
  induction size generalizing code with
  | zero =>
    rw [pow_zero] at h
    obtain rfl : code = 0 := by omega
    rfl
  | succ size ih =>
    have hdiv : code / 256 < 256 ^ size := by
      rw [pow_succ] at h
      exact Nat.div_lt_of_lt_mul (by omega)
    have hprefix : ofBytes (codeBytes size (code / 256)) = code / 256 := ih hdiv
    rw [codeBytes_succ, ofBytes, List.foldl_append, ← ofBytes, hprefix, List.foldl_cons, List.foldl_nil]
    omega

/-- Behind a zero there are only zeros. -/
theorem zeros_of_codeLength {bytes : List ℕ} {count n : ℕ} (h : codeLength bytes true count = some n) :
    bytes = List.replicate bytes.length 0 ∧ n = count := by
  induction bytes with
  | nil => exact ⟨rfl, (Option.some.inj h).symm⟩
  | cons b bytes ih =>
    rw [codeLength] at h
    by_cases hb : b = 0
    · rw [if_pos hb] at h
      obtain ⟨hzeros, hn⟩ := ih h
      rw [List.length_cons, List.replicate_succ, ← hzeros, hb]
      exact ⟨rfl, hn⟩
    · rw [if_neg hb, if_pos rfl] at h
      cases h

/-- What `isAssetValid` scans: the characters, and zeros behind them. -/
theorem codeLength_spec {bytes : List ℕ} {count n : ℕ} (h : codeLength bytes false count = some n) :
    bytes = bytes.takeWhile (· ≠ 0) ++
        List.replicate (bytes.length - (bytes.takeWhile (· ≠ 0)).length) 0 ∧
      n = count + (bytes.takeWhile (· ≠ 0)).length := by
  induction bytes generalizing count with
  | nil =>
    obtain rfl := Option.some.inj h
    exact ⟨rfl, rfl⟩
  | cons b bytes ih =>
    rw [codeLength] at h
    by_cases hb : b = 0
    · rw [if_pos hb] at h
      obtain ⟨hzeros, hn⟩ := zeros_of_codeLength h
      rw [List.takeWhile_cons_of_neg (by simpa using hb), List.nil_append, List.length_nil, Nat.sub_zero,
        List.length_cons, List.replicate_succ, ← hzeros, hb]
      exact ⟨rfl, hn⟩
    · rw [if_neg hb, if_neg Bool.false_ne_true] at h
      split_ifs at h
      obtain ⟨hbytes, hn⟩ := ih h
      rw [List.takeWhile_cons_of_pos (by simpa using hb)]
      refine ⟨?_, ?_⟩
      · rw [List.length_cons, List.length_cons, Nat.add_sub_add_right, List.cons_append, ← hbytes]
      · rw [List.length_cons, hn]
        omega

/-- A code that `isAssetValid` scans to its end is read back as it was written. -/
theorem strToAssetCode_assetCodeToStr {size code n : ℕ} (hcode : code < 256 ^ size)
    (h : codeLength (codeBytes size code) false 0 = some n) :
    strToAssetCode size (assetCodeToStr size code) = code := by
  obtain ⟨hbytes, -⟩ := codeLength_spec h
  have hle : (assetCodeToStr size code).length ≤ size := by
    have := (List.takeWhile_sublist (fun b => decide (b ≠ 0)) (l := codeBytes size code)).length_le
    rwa [length_codeBytes] at this
  unfold strToAssetCode
  rw [List.take_append, List.take_of_length_le hle, List.take_replicate, min_eq_left (Nat.sub_le _ _)]
  rw [length_codeBytes] at hbytes
  change ofBytes (_ ++ List.replicate (size - (assetCodeToStr size code).length) 0) = code
  rw [assetCodeToStr, ← hbytes, ofBytes_codeBytes hcode]

/-- The text of such a code has as many characters as are counted. -/
theorem length_assetCodeToStr {size code n : ℕ} (h : codeLength (codeBytes size code) false 0 = some n) :
    (assetCodeToStr size code).length = n := by
  rw [(codeLength_spec h).2, Nat.zero_add]
  rfl

/-- What is written of an asset to the columns of an offer, and read back by `processAsset`. -/
def processAsset : Asset → Asset
  | .native => .native
  | .alphaNum4 code issuer => .alphaNum4 (Fin.ofNat _ (strToAssetCode 4 (assetCodeToStr 4 code.val))) issuer
  | .alphaNum12 code issuer => .alphaNum12 (Fin.ofNat _ (strToAssetCode 12 (assetCodeToStr 12 code.val))) issuer

theorem processAsset_of_valid {asset : Asset} (h : isAssetValid asset = true) : processAsset asset = asset := by
  cases asset with
  | native => rfl
  | alphaNum4 code issuer =>
    obtain ⟨n, hn, -⟩ := (Option.any_eq_true _ _).mp h
    rw [processAsset, strToAssetCode_assetCodeToStr code.isLt hn, Fin.ofNat_val_eq_self]
  | alphaNum12 code issuer =>
    obtain ⟨n, hn, -⟩ := (Option.any_eq_true _ _).mp h
    rw [processAsset, strToAssetCode_assetCodeToStr code.isLt hn, Fin.ofNat_val_eq_self]

/-! ## Keys -/

/-- What the statements find a row by; the texts of a native asset are empty. -/
inductive PrimaryKey where
  | accounts (accountid : AccountID)
  | trustlines (accountid : AccountID) (issuer : Option AccountID) (assetcode : List ℕ)
  | offers (offerid : ℕ)
  | accountdata (accountid : AccountID) (dataname : String64)
  deriving DecidableEq

def primaryKey : LedgerKey → PrimaryKey
  | .account accountID => .accounts accountID
  | .trustLine accountID .native => .trustlines accountID none []
  | .trustLine accountID (.alphaNum4 code issuer) =>
    .trustlines accountID (some issuer) (assetCodeToStr 4 code.val)
  | .trustLine accountID (.alphaNum12 code issuer) =>
    .trustlines accountID (some issuer) (assetCodeToStr 12 code.val)
  | .offer _ offerID => .offers offerID
  | .data accountID dataName => .accountdata accountID dataName

/-- A trust line is one that may be there: its asset is valid, and issued by another account. -/
def mayExist : LedgerKey → Bool
  | .trustLine _ .native => false
  | .trustLine accountID (.alphaNum4 code issuer) =>
    isAssetValid (.alphaNum4 code issuer) && accountID ≠ issuer
  | .trustLine accountID (.alphaNum12 code issuer) =>
    isAssetValid (.alphaNum12 code issuer) && accountID ≠ issuer
  | _ => true

/-- Two keys of offers with one number. -/
def sameOffer : LedgerKey → LedgerKey → Bool
  | .offer _ offerID, .offer _ offerID' => offerID = offerID'
  | _, _ => false

/-- Keys that the tables tell apart: its trust lines may exist, and an offer has one seller. -/
structure ToldApart (K : Set LedgerKey) : Prop where
  mayExist : ∀ k ∈ K, mayExist k = true
  sellers : ∀ k ∈ K, ∀ k' ∈ K, sameOffer k k' = true → k = k'

/-- The asset of a trust line, from its columns: a code of up to four characters is of the first kind. -/
def assetOf (issuer : Option AccountID) (assetcode : List ℕ) : Asset :=
  match issuer with
  | none => .native
  | some issuer =>
    if assetcode.length ≤ 4 then .alphaNum4 (Fin.ofNat _ (strToAssetCode 4 assetcode)) issuer
    else .alphaNum12 (Fin.ofNat _ (strToAssetCode 12 assetcode)) issuer

theorem assetOf_text {accountID : AccountID} {asset : Asset} (h : mayExist (.trustLine accountID asset) = true) :
    ∃ issuer assetcode, primaryKey (.trustLine accountID asset) = .trustlines accountID issuer assetcode ∧
      assetOf issuer assetcode = asset := by
  cases asset with
  | native => exact ⟨none, [], rfl, rfl⟩
  | alphaNum4 code issuer =>
    obtain ⟨hvalid, -⟩ := Bool.and_eq_true_iff.mp h
    obtain ⟨n, hn, -⟩ := (Option.any_eq_true _ _).mp hvalid
    have hle : (assetCodeToStr 4 code.val).length ≤ 4 := by
      have := (List.takeWhile_sublist (fun b => decide (b ≠ 0)) (l := codeBytes 4 code.val)).length_le
      rwa [length_codeBytes] at this
    refine ⟨some issuer, _, rfl, ?_⟩
    rw [assetOf, if_pos hle, strToAssetCode_assetCodeToStr code.isLt hn, Fin.ofNat_val_eq_self]
  | alphaNum12 code issuer =>
    obtain ⟨hvalid, -⟩ := Bool.and_eq_true_iff.mp h
    obtain ⟨n, hn, hlong⟩ := (Option.any_eq_true _ _).mp hvalid
    have hlt : ¬ (assetCodeToStr 12 code.val).length ≤ 4 := by
      rw [length_assetCodeToStr hn]
      exact not_le.mpr (of_decide_eq_true hlong)
    refine ⟨some issuer, _, rfl, ?_⟩
    rw [assetOf, if_neg hlt, strToAssetCode_assetCodeToStr code.isLt hn, Fin.ofNat_val_eq_self]

/-- Keys that are told apart have rows of their own. -/
theorem ToldApart.eq_of_primaryKey {K : Set LedgerKey} (h : ToldApart K) {k k' : LedgerKey} (hk : k ∈ K)
    (hk' : k' ∈ K) (heq : primaryKey k = primaryKey k') : k = k' := by
  have hexists := h.mayExist k hk
  have hexists' := h.mayExist k' hk'
  cases k with
  | account accountID =>
    cases k' with
    | account accountID' => exact congrArg LedgerKey.account (PrimaryKey.accounts.inj heq)
    | trustLine accountID' asset' =>
      obtain ⟨_, _, htext, -⟩ := assetOf_text hexists'
      exact nomatch heq.trans htext
    | offer _ _ | data _ _ => exact nomatch heq
  | trustLine accountID asset =>
    obtain ⟨issuer, assetcode, htext, hasset⟩ := assetOf_text hexists
    have hrow := htext.symm.trans heq
    cases k' with
    | trustLine accountID' asset' =>
      obtain ⟨issuer', assetcode', htext', hasset'⟩ := assetOf_text hexists'
      obtain ⟨rfl, rfl, rfl⟩ := PrimaryKey.trustlines.inj (hrow.trans htext')
      rw [← hasset, ← hasset']
    | account _ | offer _ _ | data _ _ => exact nomatch hrow
  | offer sellerID offerID =>
    cases k' with
    | offer sellerID' offerID' =>
      exact h.sellers _ hk _ hk' (decide_eq_true (PrimaryKey.offers.inj heq))
    | trustLine accountID' asset' =>
      obtain ⟨_, _, htext, -⟩ := assetOf_text hexists'
      exact nomatch heq.trans htext
    | account _ | data _ _ => exact nomatch heq
  | data accountID dataName =>
    cases k' with
    | data accountID' dataName' =>
      obtain ⟨rfl, rfl⟩ := PrimaryKey.accountdata.inj heq
      rfl
    | trustLine accountID' asset' =>
      obtain ⟨_, _, htext, -⟩ := assetOf_text hexists'
      exact nomatch heq.trans htext
    | account _ | offer _ _ => exact nomatch heq

/-! ## The tables -/

/-- The rows of the four tables. The asset columns of an offer are as they were written; `load` reads them. -/
structure SqlTables where
  rows : AList fun _ : PrimaryKey => LedgerEntry

/-- The `CHECK` constraints; a `uint32` from 2^31 on and a `uint64` from 2^63 on is negative in its column. -/
def meetsChecks : LedgerEntryData → Bool
  | .account a => 0 ≤ a.balance && a.numSubEntries < 2 ^ 31
  | .trustLine tl => 0 < tl.limit && 0 ≤ tl.balance
  | .offer o => o.offerID < 2 ^ 63 && 0 ≤ o.amount
  | .data _ => true

/-- The assertion of `loadAccount`: each signer is before the next one. -/
def signersInOrder (a : AccountEntry) : Bool := a.signers.Pairwise fun s s' => s.key < s'.key

/-- The entry that a row of the table of the key is read back as; the rows of other sellers are not found. -/
def readRow (key : LedgerKey) (row : LedgerEntry) : Except String (Option LedgerEntry) :=
  match key, row.data with
  | .account accountID, .account a =>
    if signersInOrder a then .ok (some { row with data := .account { a with accountID := accountID } })
    else .error "assert"
  | .trustLine accountID asset, .trustLine tl =>
    .ok (some { row with data := .trustLine { tl with accountID := accountID, asset := asset } })
  | .offer sellerID _, .offer o =>
    if o.sellerID = sellerID then
      let offer := { o with selling := processAsset o.selling, buying := processAsset o.buying }
      .ok (some { row with data := .offer offer })
    else .ok none
  | .data accountID dataName, .data d =>
    .ok (some { row with data := .data { d with accountID := accountID, dataName := dataName } })
  | _, _ => .error "bad database state"

namespace SqlTables

/-- `loadAccount`, `loadTrustLine`, `loadOffer`, `loadData`. -/
def load (T : SqlTables) (key : LedgerKey) : Except String (Option LedgerEntry) :=
  match key with
  | .trustLine _ .native => .error "XLM TrustLine?"
  | .trustLine accountID (.alphaNum4 _ issuer) =>
    if accountID = issuer then .error "TrustLine accountID is issuer" else find
  | .trustLine accountID (.alphaNum12 _ issuer) =>
    if accountID = issuer then .error "TrustLine accountID is issuer" else find
  | _ => find
where
  find : Except String (Option LedgerEntry) :=
    match T.rows.lookup (primaryKey key) with
    | none => .ok none
    | some row => readRow key row

/-- The trust line of an issuer is not written. -/
def issuersOwn : LedgerKey → Bool
  | .trustLine accountID (.alphaNum4 _ issuer) => accountID = issuer
  | .trustLine accountID (.alphaNum12 _ issuer) => accountID = issuer
  | _ => false

/-- The row after an `UPDATE`, which leaves the seller of an offer as it was. -/
def updatedRow (row entry : LedgerEntry) : LedgerEntry :=
  match row.data, entry.data with
  | .offer old, .offer o => { entry with data := .offer { o with sellerID := old.sellerID } }
  | _, _ => persisted entry

/-- An `INSERT` needs the primary key to be free, an `UPDATE` has to affect a row. -/
def insertOrUpdate (T : SqlTables) (entry : LedgerEntry) (isInsert : Bool) : Except String SqlTables :=
  if issuersOwn entry.key then
    .error "Issuer's own trustline should not be used outside of OperationFrame"
  else if !meetsChecks entry.data then .error "CHECK constraint failed"
  else
    match T.rows.lookup (primaryKey entry.key), isInsert with
    | none, true => .ok ⟨T.rows.insert (primaryKey entry.key) (persisted entry)⟩
    | some _, true => .error "UNIQUE constraint failed"
    | none, false => .error "Could not update data in SQL"
    | some row, false => .ok ⟨T.rows.insert (primaryKey entry.key) (updatedRow row entry)⟩

/-- A `DELETE` has to affect one row. -/
def delete (T : SqlTables) (key : LedgerKey) : Except String SqlTables :=
  if issuersOwn key then .error "Issuer's own trustline should not be used outside of OperationFrame"
  else if (T.rows.lookup (primaryKey key)).isSome then .ok ⟨T.rows.erase (primaryKey key)⟩
  else .error "Could not update data in SQL"

/-- `storeAccount`, `storeData`, `storeOffer`, `storeTrustLine`; the cache that they read agrees with the
tables. -/
def store (T : SqlTables) (key : LedgerKey) : Option LedgerEntry → Except String SqlTables
  | some entry => do
    let previous ← T.load key
    T.insertOrUpdate entry previous.isNone
  | none => T.delete key

/-- The loop of `LedgerTxnRoot::Impl::commitChild`. -/
def storeAll : EntryIterator → SqlTables → Except String SqlTables
  | [], T => .ok T
  | kv :: iter, T => do
    let T ← T.store kv.1 kv.2
    storeAll iter T

end SqlTables

/-! ## What the tables hold -/

/-- The entry passes the constraints and is read back as it was written, the marker of an account apart. -/
def fitsTables (d : LedgerEntryData) : Bool :=
  meetsChecks d && match d with
    | .account a => signersInOrder a
    | .offer o => isAssetValid o.selling && isAssetValid o.buying
    | _ => true

/-- Over these keys the rows are the entries of the map. -/
structure SqlTables.Holds (T : SqlTables) (K : Set LedgerKey) (m : LedgerKey → Option LedgerEntry) : Prop where
  rows : ∀ k ∈ K, T.rows.lookup (primaryKey k) = m k
  key : ∀ k ∈ K, ∀ e, m k = some e → e.key = k
  fits : ∀ k ∈ K, ∀ e, m k = some e → fitsTables e.data = true

theorem fitsTables_persisted (e : LedgerEntry) : fitsTables (persisted e).data = fitsTables e.data := by
  obtain ⟨seq, _ | _ | _ | _⟩ := e <;> rfl

theorem issuersOwn_of_mayExist {k : LedgerKey} (h : mayExist k = true) : SqlTables.issuersOwn k = false := by
  cases k with
  | trustLine accountID asset =>
    cases asset with
    | native => rfl
    | alphaNum4 code issuer => exact decide_eq_false (by simpa using (Bool.and_eq_true_iff.mp h).2)
    | alphaNum12 code issuer => exact decide_eq_false (by simpa using (Bool.and_eq_true_iff.mp h).2)
  | _ => rfl

theorem readRow_of_fits {e : LedgerEntry} (h : fitsTables e.data = true) : readRow e.key e = .ok (some e) := by
  obtain ⟨seq, d⟩ := e
  have hread := (Bool.and_eq_true_iff.mp h).2
  cases d with
  | account a => exact if_pos hread
  | trustLine tl => rfl
  | offer o =>
    obtain ⟨hselling, hbuying⟩ := Bool.and_eq_true_iff.mp hread
    refine (if_pos rfl).trans ?_
    rw [processAsset_of_valid hselling, processAsset_of_valid hbuying]
  | data d => rfl

/-- An update of the row of its own key leaves what an insertion would. -/
theorem updatedRow_of_key {row e : LedgerEntry} (h : row.key = e.key) :
    SqlTables.updatedRow row e = persisted e := by
  obtain ⟨seq, d⟩ := row
  obtain ⟨seq', d'⟩ := e
  cases d with
  | offer old =>
    cases d' with
    | offer o =>
      obtain ⟨hseller, -⟩ := LedgerKey.offer.inj h
      change (⟨seq', .offer { o with sellerID := old.sellerID }⟩ : LedgerEntry) = _
      rw [hseller]
      rfl
    | _ => rfl
  | _ => rfl

namespace SqlTables.Holds

variable {T : SqlTables} {K : Set LedgerKey} {m : LedgerKey → Option LedgerEntry}

/-- A key of the map is read as the map has it. -/
theorem load (h : T.Holds K m) (hK : ToldApart K) {k : LedgerKey} (hk : k ∈ K) : T.load k = .ok (m k) := by
  have hexists := hK.mayExist k hk
  have hfind : SqlTables.load.find T k = .ok (m k) := by
    unfold SqlTables.load.find
    rw [h.rows k hk]
    cases hm : m k with
    | none => rfl
    | some e =>
      have hread := readRow_of_fits (h.fits k hk e hm)
      rwa [h.key k hk e hm] at hread
  cases k with
  | trustLine accountID asset =>
    cases asset with
    | native => cases hexists
    | alphaNum4 code issuer =>
      have hne : accountID ≠ issuer := by simpa using (Bool.and_eq_true_iff.mp hexists).2
      exact (if_neg hne).trans hfind
    | alphaNum12 code issuer =>
      have hne : accountID ≠ issuer := by simpa using (Bool.and_eq_true_iff.mp hexists).2
      exact (if_neg hne).trans hfind
  | _ => exact hfind

/-- A row that is written is that of its key alone. -/
theorem insert (h : T.Holds K m) (hK : ToldApart K) {e : LedgerEntry} (hk : e.key ∈ K)
    (hfits : fitsTables e.data = true) :
    (SqlTables.mk (T.rows.insert (primaryKey e.key) (persisted e))).Holds K
      (Function.update m e.key (some (persisted e))) := by
  refine ⟨fun k hk' => ?_, fun k hk' e' he' => ?_, fun k hk' e' he' => ?_⟩ <;> rcases eq_or_ne k e.key with rfl | hne
  · rw [AList.lookup_insert, Function.update_self]
  · rw [AList.lookup_insert_ne fun heq => hne (hK.eq_of_primaryKey hk' hk heq), Function.update_of_ne hne]
    exact h.rows k hk'
  · rw [Function.update_self] at he'
    rw [← Option.some.inj he', key_persisted]
  · rw [Function.update_of_ne hne] at he'
    exact h.key k hk' e' he'
  · rw [Function.update_self] at he'
    rw [← Option.some.inj he', fitsTables_persisted]
    exact hfits
  · rw [Function.update_of_ne hne] at he'
    exact h.fits k hk' e' he'

theorem insertOrUpdate (h : T.Holds K m) (hK : ToldApart K) {e : LedgerEntry} (hk : e.key ∈ K)
    (hfits : fitsTables e.data = true) :
    ∃ T', T.insertOrUpdate e (m e.key).isNone = .ok T' ∧
      T'.Holds K (Function.update m e.key (some (persisted e))) := by
  refine ⟨_, ?_, h.insert hK hk hfits⟩
  have hchecks := (Bool.and_eq_true_iff.mp hfits).1
  unfold SqlTables.insertOrUpdate
  rw [issuersOwn_of_mayExist (hK.mayExist _ hk), if_neg Bool.false_ne_true, hchecks, if_neg (by decide),
    h.rows _ hk]
  cases hm : m e.key with
  | none => rfl
  | some row =>
    dsimp only [Option.isNone_some]
    rw [updatedRow_of_key (h.key _ hk row hm)]

theorem delete (h : T.Holds K m) (hK : ToldApart K) {key : LedgerKey} (hk : key ∈ K)
    (hsome : (m key).isSome) :
    ∃ T', T.delete key = .ok T' ∧ T'.Holds K (Function.update m key none) := by
  refine ⟨⟨T.rows.erase (primaryKey key)⟩, ?_, fun k hk' => ?_, fun k hk' e' he' => ?_, fun k hk' e' he' => ?_⟩
  · unfold SqlTables.delete
    rw [issuersOwn_of_mayExist (hK.mayExist _ hk), if_neg Bool.false_ne_true, h.rows _ hk, if_pos hsome]
  all_goals rcases eq_or_ne k key with rfl | hne
  · rw [AList.lookup_erase, Function.update_self]
  · rw [AList.lookup_erase_ne fun heq => hne (hK.eq_of_primaryKey hk' hk heq), Function.update_of_ne hne]
    exact h.rows k hk'
  · rw [Function.update_self] at he'
    cases he'
  · rw [Function.update_of_ne hne] at he'
    exact h.key k hk' e' he'
  · rw [Function.update_self] at he'
    cases he'
  · rw [Function.update_of_ne hne] at he'
    exact h.fits k hk' e' he'

/-- An entry is stored under its key, or erased where there is one. -/
theorem store (h : T.Holds K m) (hK : ToldApart K) {key : LedgerKey} {entry : Option LedgerEntry} (hk : key ∈ K)
    (hentry : ∀ e ∈ entry, e.key = key ∧ fitsTables e.data = true) (herased : entry = none → (m key).isSome) :
    ∃ T', T.store key entry = .ok T' ∧ T'.Holds K (Function.update m key (entry.map persisted)) := by
  cases entry with
  | none => exact h.delete hK hk (herased rfl)
  | some e =>
    obtain ⟨rfl, hfits⟩ := hentry e rfl
    obtain ⟨T', hput, hholds⟩ := h.insertOrUpdate hK hk hfits
    refine ⟨T', ?_, hholds⟩
    simp only [SqlTables.store, h.load hK hk]
    exact hput

end SqlTables.Holds

/-- The map after the entries of an iterator were stored. -/
def storedOver (iter : EntryIterator) (m : LedgerKey → Option LedgerEntry) (k : LedgerKey) : Option LedgerEntry :=
  match iter.dlookup k with
  | some entry => entry.map persisted
  | none => m k

theorem storedOver_cons {key : LedgerKey} {entry : Option LedgerEntry} {iter : EntryIterator}
    (hkey : key ∉ iter.keys) (m : LedgerKey → Option LedgerEntry) :
    storedOver (⟨key, entry⟩ :: iter) m = storedOver iter (Function.update m key (entry.map persisted)) := by
  funext k
  unfold storedOver
  rcases eq_or_ne k key with rfl | hne
  · rw [List.dlookup_cons_eq, List.dlookup_eq_none.mpr hkey, Function.update_self]
  · rw [dlookup_cons_of_ne hne, Function.update_of_ne hne]

/-- A transaction is stored entry by entry, in whatever order. -/
theorem SqlTables.Holds.storeAll {K : Set LedgerKey} (hK : ToldApart K) (iter : EntryIterator)
    (hnd : iter.NodupKeys) {T : SqlTables} {m : LedgerKey → Option LedgerEntry} (h : T.Holds K m)
    (hmem : ∀ k ∈ iter.keys, k ∈ K)
    (hentry : ∀ k e, iter.dlookup k = some (some e) → e.key = k ∧ fitsTables e.data = true)
    (herased : ∀ k, iter.dlookup k = some none → (m k).isSome) :
    ∃ T', SqlTables.storeAll iter T = .ok T' ∧ T'.Holds K (storedOver iter m) := by
  induction iter generalizing T m with
  | nil => exact ⟨T, rfl, h⟩
  | cons kv iter ih =>
    obtain ⟨key, entry⟩ := kv
    obtain ⟨hkey, hnd'⟩ := List.nodupKeys_cons.mp hnd
    have hhead : List.dlookup key (⟨key, entry⟩ :: iter : EntryIterator) = some entry :=
      List.dlookup_cons_eq _ _ _
    have hlook : ∀ {k entry'}, iter.dlookup k = some entry' →
        k ≠ key ∧ List.dlookup k (⟨key, entry⟩ :: iter : EntryIterator) = some entry' := by
      intro k entry' h
      have hk : k ≠ key := by
        rintro rfl
        exact hkey (List.dlookup_isSome.mp (Option.isSome_of_eq_some h))
      exact ⟨hk, (dlookup_cons_of_ne hk).trans h⟩
    obtain ⟨T₁, hstore, h₁⟩ := h.store hK (hmem key (by simp))
      (fun e he => hentry key e (he ▸ hhead)) (fun he => herased key (he ▸ hhead))
    obtain ⟨T₂, hrest, h₂⟩ := ih hnd' h₁ (fun k hk => hmem k (List.mem_cons_of_mem _ hk))
      (fun k e he => hentry k e (hlook he).2) (fun k he => by
        rw [Function.update_of_ne (hlook he).1]
        exact herased k (hlook he).2)
    refine ⟨T₂, ?_, ?_⟩
    · rw [SqlTables.storeAll, hstore]
      exact hrest
    · rw [storedOver_cons hkey]
      exact h₂

end ZaggCore.Ledger
