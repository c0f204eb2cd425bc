import Mathlib
import ZaggCore.Xdr.LedgerEntries
import ZaggCore.Foundations.KeyedSum

/-! # The ledger under a transaction

The innermost `AbstractLedgerTxn` as the transaction code sees it: one map from keys to entries and a
header. That a stack of nested transactions stands for such a map is the subject of
`Ledger.LedgerRuns`; here a nested transaction is the map itself, rolled back by going back to the old
one. Handles that are active are not part of it. -/

namespace ZaggCore.Transactions
set_option autoImplicit false
set_option maxHeartbeats 250000

open Foundations

/-- Every entry is under its own key. `closeTime` is the one of the header's `scpValue`. -/
structure AbstractLedgerTxn where
  header : LedgerHeader
  closeTime : ℕ
  entries : AList fun _ : LedgerKey => LedgerEntryData
  keyed : ∀ k e, entries.lookup k = some e → e.key = k

namespace AbstractLedgerTxn

variable (ltx : AbstractLedgerTxn)

def getNewestVersion (key : LedgerKey) : Option LedgerEntryData := ltx.entries.lookup key

/-- The entry becomes the newest version of its key. -/
def put (e : LedgerEntryData) : AbstractLedgerTxn where
  header := ltx.header
  closeTime := ltx.closeTime
  entries := ltx.entries.insert e.key e
  keyed k e' h := by
    by_cases hk : k = e.key
    · subst hk
      rw [AList.lookup_insert] at h
      rw [← Option.some.inj h]
    · rw [AList.lookup_insert_ne hk] at h
      exact ltx.keyed k e' h

def erase (key : LedgerKey) : AbstractLedgerTxn where
  header := ltx.header
  closeTime := ltx.closeTime
  entries := ltx.entries.erase key
  keyed k e' h := by
    by_cases hk : k = key
    · subst hk
      rw [AList.lookup_erase] at h
      cases h
    · rw [AList.lookup_erase_ne hk] at h
      exact ltx.keyed k e' h

def account (accountID : AccountID) : Option AccountEntry :=
  match ltx.getNewestVersion (.account accountID) with
  | some (.account a) => some a
  | _ => none

def trustLine (accountID : AccountID) (asset : Asset) : Option TrustLineEntry :=
  match ltx.getNewestVersion (.trustLine accountID asset) with
  | some (.trustLine tl) => some tl
  | _ => none

def offer (sellerID : AccountID) (offerID : ℕ) : Option OfferEntry :=
  match ltx.getNewestVersion (.offer sellerID offerID) with
  | some (.offer o) => some o
  | _ => none

def data (accountID : AccountID) (dataName : String64) : Option DataEntry :=
  match ltx.getNewestVersion (.data accountID dataName) with
  | some (.data d) => some d
  | _ => none

/-- The offers among the entries. -/
def offers : List OfferEntry :=
  ltx.entries.entries.filterMap fun p =>
    match p.2 with
    | .offer o => some o
    | _ => none

/-- `getBestOffer`: the least price, as the double `quotient` of it, and the least offer ID. -/
def getBestOffer {Q : Type} [LinearOrder Q] (quotient : Price → Q) (buying selling : Asset) :
    Option OfferEntry :=
  (ltx.offers.filter fun o => o.buying = buying && o.selling = selling).argmin
    fun o => (toLex (quotient o.price, o.offerID) : Q ×ₗ ℕ)

/-- `getOffersByAccountAndAsset`. -/
def getOffersByAccountAndAsset (account : AccountID) (asset : Asset) : List OfferEntry :=
  ltx.offers.filter fun o => o.sellerID = account && (o.selling = asset || o.buying = asset)

/-! ## Reading after writing -/

variable {ltx}

@[simp] theorem header_put (e : LedgerEntryData) : (ltx.put e).header = ltx.header := rfl

@[simp] theorem header_erase (k : LedgerKey) : (ltx.erase k).header = ltx.header := rfl

theorem getNewestVersion_put (e : LedgerEntryData) (k : LedgerKey) :
    (ltx.put e).getNewestVersion k = if k = e.key then some e else ltx.getNewestVersion k := by
  unfold getNewestVersion put
  split_ifs with hk
  · rw [hk, AList.lookup_insert]
  · exact AList.lookup_insert_ne hk

theorem getNewestVersion_erase (k k' : LedgerKey) :
    (ltx.erase k).getNewestVersion k' = if k' = k then none else ltx.getNewestVersion k' := by
  unfold getNewestVersion erase
  split_ifs with hk
  · rw [hk, AList.lookup_erase]
  · exact AList.lookup_erase_ne hk

theorem account_eq_some {a : AccountID} {acc : AccountEntry} :
    ltx.account a = some acc ↔ ltx.getNewestVersion (.account a) = some (.account acc) := by
  unfold account
  split <;> simp_all

theorem account_eq_none {a : AccountID} :
    ltx.account a = none ↔ ltx.getNewestVersion (.account a) = none := by
  unfold account
  split
  · simp_all
  · next h =>
    refine ⟨fun _ => ?_, fun _ => rfl⟩
    cases hv : ltx.getNewestVersion (.account a) with
    | none => rfl
    | some e =>
      have hk := ltx.keyed _ e hv
      cases e with
      | account acc => exact absurd hv (h acc)
      | _ => cases hk

theorem accountID_of_account {a : AccountID} {acc : AccountEntry} (h : ltx.account a = some acc) :
    acc.accountID = a := by
  have := ltx.keyed _ _ (account_eq_some.mp h)
  simpa [LedgerEntryData.key] using this

theorem trustLine_eq_some {a : AccountID} {asset : Asset} {tl : TrustLineEntry} :
    ltx.trustLine a asset = some tl ↔
      ltx.getNewestVersion (.trustLine a asset) = some (.trustLine tl) := by
  unfold trustLine
  split <;> simp_all

theorem trustLine_eq_none {a : AccountID} {asset : Asset} :
    ltx.trustLine a asset = none ↔ ltx.getNewestVersion (.trustLine a asset) = none := by
  unfold trustLine
  split
  · simp_all
  · next h =>
    refine ⟨fun _ => ?_, fun _ => rfl⟩
    cases hv : ltx.getNewestVersion (.trustLine a asset) with
    | none => rfl
    | some e =>
      have hk := ltx.keyed _ e hv
      cases e with
      | trustLine tl => exact absurd hv (h tl)
      | _ => cases hk

theorem key_of_trustLine {a : AccountID} {asset : Asset} {tl : TrustLineEntry}
    (h : ltx.trustLine a asset = some tl) : tl.accountID = a ∧ tl.asset = asset := by
  have := ltx.keyed _ _ (trustLine_eq_some.mp h)
  simpa [LedgerEntryData.key] using this

theorem offer_eq_some {a : AccountID} {i : ℕ} {o : OfferEntry} :
    ltx.offer a i = some o ↔ ltx.getNewestVersion (.offer a i) = some (.offer o) := by
  unfold offer
  split <;> simp_all

theorem data_eq_some {a : AccountID} {n : String64} {d : DataEntry} :
    ltx.data a n = some d ↔ ltx.getNewestVersion (.data a n) = some (.data d) := by
  unfold data
  split <;> simp_all

theorem account_put_account (acc : AccountEntry) (a : AccountID) :
    (ltx.put (.account acc)).account a = if a = acc.accountID then some acc else ltx.account a := by
  unfold account
  rw [getNewestVersion_put]
  by_cases h : a = acc.accountID <;> simp [h, LedgerEntryData.key]

/-- Writing anything else leaves the accounts alone. -/
theorem account_put_of_ne {e : LedgerEntryData} (h : ∀ acc, e ≠ .account acc) (a : AccountID) :
    (ltx.put e).account a = ltx.account a := by
  unfold account
  rw [getNewestVersion_put, if_neg]
  cases e with
  | account acc => exact absurd rfl (h acc)
  | _ => simp [LedgerEntryData.key]

theorem account_erase_account (b a : AccountID) :
    (ltx.erase (.account b)).account a = if a = b then none else ltx.account a := by
  unfold account
  rw [getNewestVersion_erase]
  by_cases h : a = b <;> simp [h]

theorem account_erase_of_ne {k : LedgerKey} (h : ∀ b, k ≠ .account b) (a : AccountID) :
    (ltx.erase k).account a = ltx.account a := by
  unfold account
  rw [getNewestVersion_erase, if_neg]
  exact fun hk => h a hk.symm

theorem mem_offers {o : OfferEntry} (h : o ∈ ltx.offers) : ltx.offer o.sellerID o.offerID = some o := by
  obtain ⟨⟨k, e⟩, hmem, he⟩ := List.mem_filterMap.mp h
  cases e with
  | offer o' =>
    obtain rfl : o' = o := by simpa using he
    have hl : ltx.entries.lookup k = some (.offer o') :=
      (List.mem_dlookup_iff ltx.entries.nodupKeys).mpr hmem
    obtain rfl : _ = k := ltx.keyed _ _ hl
    exact offer_eq_some.mpr hl
  | _ => simp at he

theorem getBestOffer_mem {Q : Type} [LinearOrder Q] {quotient : Price → Q} {buying selling : Asset}
    {o : OfferEntry} (h : ltx.getBestOffer quotient buying selling = some o) :
    ltx.offer o.sellerID o.offerID = some o ∧ o.buying = buying ∧ o.selling = selling := by
  obtain ⟨hmem, hpair⟩ := List.mem_filter.mp (List.argmin_mem h)
  exact ⟨mem_offers hmem, by simpa using hpair⟩

/-! ## Sums over the entries -/

section Sums

variable {M : Type} [AddCommGroup M]

/-- `f` added up over all entries. -/
def sum (f : LedgerEntryData → M) (ltx : AbstractLedgerTxn) : M :=
  keyedSum (fun _ e => f e) ltx.entries

/-- What the entry at a key adds to the sum. -/
def share (f : LedgerEntryData → M) (ltx : AbstractLedgerTxn) (k : LedgerKey) : M :=
  Foundations.share (fun _ e => f e) ltx.entries k

theorem sum_put (f : LedgerEntryData → M) (e : LedgerEntryData) :
    (ltx.put e).sum f = ltx.sum f - ltx.share f e.key + f e :=
  keyedSum_insert _ _ _ _

theorem sum_erase (f : LedgerEntryData → M) (k : LedgerKey) :
    (ltx.erase k).sum f = ltx.sum f - ltx.share f k :=
  keyedSum_erase _ _ _

theorem share_of_some {f : LedgerEntryData → M} {k : LedgerKey} {e : LedgerEntryData}
    (h : ltx.getNewestVersion k = some e) : ltx.share f k = f e := by
  unfold share Foundations.share
  rw [show ltx.entries.lookup k = some e from h]

theorem share_of_none {f : LedgerEntryData → M} {k : LedgerKey}
    (h : ltx.getNewestVersion k = none) : ltx.share f k = 0 := by
  unfold share Foundations.share
  rw [show ltx.entries.lookup k = none from h]

/-- Where entries under other keys count for nothing, the sum is what one key adds to it. -/
theorem sum_eq_share {f : LedgerEntryData → M} {k : LedgerKey} (h : ∀ e, e.key ≠ k → f e = 0) :
    ltx.sum f = ltx.share f k :=
  keyedSum_eq_share _ _ _ fun k' e hlookup hne => h e fun hk => hne ((ltx.keyed k' e hlookup).symm.trans hk)

end Sums

end AbstractLedgerTxn

end ZaggCore.Transactions
