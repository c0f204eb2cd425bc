import Mathlib
import ZaggCore.Transactions.AbstractLedgerTxn
import ZaggCore.Transactions.ExchangeBounds

/-! # The check of liabilities

The model of `invariant/LiabilitiesMatchOffers.cpp`: the check of what an operation did to the ledger.
Sums of `int64_t` wrap around. `getBuyingLiabilities` and `getSellingLiabilities` of an account or a line
are `liabilitiesOf`. `xdr_to_string` is library code; its texts only go into messages. -/

namespace ZaggCore.Invariants
set_option autoImplicit false
set_option maxHeartbeats 250000

open Numeric Transactions

/-! ## The delta of an operation -/

/-- `LedgerTxnDelta::EntryDelta` -/
structure EntryDelta where
  current : Option LedgerEntryData
  previous : Option LedgerEntryData
  deriving DecidableEq, Repr

structure HeaderDelta where
  current : LedgerHeader
  previous : LedgerHeader
  deriving DecidableEq, Repr

/-- The map iterates over its entries in an order of its own. -/
structure LedgerTxnDelta where
  entry : AList fun _ : LedgerKey => EntryDelta
  header : HeaderDelta

/-- The overloads of `xdr_to_string` that the messages use. -/
structure XdrToString where
  trustLine : TrustLineEntry → String
  account : AccountEntry → String
  accountID : AccountID → String
  asset : Asset → String

/-! ## Liabilities -/

/-- The two fields of `Liabilities`. -/
inductive Side where
  | buying
  | selling
  deriving DecidableEq, Repr

def Side.of (side : Side) (liabilities : Liabilities) : ℤ :=
  match side with
  | .buying => liabilities.buying
  | .selling => liabilities.selling

/-- What an offer trades on a side. -/
def Side.asset (side : Side) (offer : OfferEntry) : Asset :=
  match side with
  | .buying => offer.buying
  | .selling => offer.selling

/-- The file's own `getMinBalance`: the sum wraps as a `uint32_t`, up to version 8 the product as well. -/
def getMinBalance (header : LedgerHeader) (ownerCount : ℕ) : ℤ :=
  let count := (2 + ownerCount) % 2 ^ 32
  if header.ledgerVersion ≤ 8 then ((count * header.baseReserve % 2 ^ 32 : ℕ) : ℤ)
  else toInt64 (count * header.baseReserve : ℕ)

/-- `getOfferBuyingLiabilities` and `getOfferSellingLiabilities` of the file, which do not look at the
version. -/
def getOfferLiabilities (side : Side) (offer : OfferEntry) : Except Exception ℤ := do
  let res ← exchangeV10WithoutPriceErrorThresholds offer.price offer.amount INT64_MAX INT64_MAX INT64_MAX
    false
  match side with
  | .buying => return res.numSheepSend
  | .selling => return res.numWheatReceived

variable (str : XdrToString)

/-- The message of a violation, empty if there is none. -/
def checkAuthorized : Option LedgerEntryData → String
  | some (.trustLine trust) =>
    if !isAuthorized trust then
      if 0 < (liabilitiesOf trust.ext).selling || 0 < (liabilitiesOf trust.ext).buying then
        "Unauthorized trust line has liabilities " ++ str.trustLine trust
      else ""
    else ""
  | _ => ""

/-- `std::map<AccountID, std::map<Asset, Liabilities>>`: the keys that are there, in order, and their
values. -/
structure DeltaLiabilities where
  keys : List (AccountID ×ₗ Asset)
  liabilities : AccountID → Asset → Liabilities

/-- An empty map; `operator[]` starts at zero. -/
def DeltaLiabilities.empty : DeltaLiabilities := ⟨[], fun _ _ => ⟨0, 0⟩⟩

/-- `deltaLiabilities[accountID][asset].side += amount` -/
def DeltaLiabilities.add (m : DeltaLiabilities) (side : Side) (accountID : AccountID) (asset : Asset)
    (amount : ℤ) : DeltaLiabilities where
  keys :=
    if toLex (accountID, asset) ∈ m.keys then m.keys
    else m.keys.orderedInsert (· ≤ ·) (toLex (accountID, asset))
  liabilities a x :=
    let old := m.liabilities a x
    if a = accountID ∧ x = asset then
      match side with
      | .buying => { old with buying := toInt64 (old.buying + amount) }
      | .selling => { old with selling := toInt64 (old.selling + amount) }
    else old

/-- Whether liabilities back a side of an offer: the issuer of an asset needs none. -/
def needsLiabilities (side : Side) (offer : OfferEntry) : Bool :=
  match getIssuer (side.asset offer) with
  | .ok issuer => issuer ≠ offer.sellerID
  | .error _ => true

def addOrSubtractLiabilities (deltaLiabilities : DeltaLiabilities) (entry : Option LedgerEntryData)
    (isAdd : Bool) : Except Exception DeltaLiabilities :=
  let sign : ℤ := if isAdd then 1 else -1
  match entry with
  | some (.account account) => do
    let liabilities := liabilitiesOf account.ext
    let m := deltaLiabilities.add .selling account.accountID .native (-(sign * liabilities.selling))
    return m.add .buying account.accountID .native (-(sign * liabilities.buying))
  | some (.trustLine trust) => do
    let liabilities := liabilitiesOf trust.ext
    let m := deltaLiabilities.add .selling trust.accountID trust.asset (-(sign * liabilities.selling))
    return m.add .buying trust.accountID trust.asset (-(sign * liabilities.buying))
  | some (.offer offer) => do
    let m ← (if needsLiabilities .selling offer then do
        let amount ← getOfferLiabilities .selling offer
        return deltaLiabilities.add .selling offer.sellerID offer.selling (sign * amount)
      else return deltaLiabilities)
    if needsLiabilities .buying offer then do
      let amount ← getOfferLiabilities .buying offer
      return m.add .buying offer.sellerID offer.buying (sign * amount)
    else return m
  | some (.data _) | none => return deltaLiabilities

def accumulateLiabilities (deltaLiabilities : DeltaLiabilities) (current previous : Option LedgerEntryData) :
    Except Exception DeltaLiabilities := do
  let m ← addOrSubtractLiabilities deltaLiabilities current true
  addOrSubtractLiabilities m previous false

/-! ## Balances -/

/-- Both comparisons of liabilities are of the current entry with itself. -/
def shouldCheckAccount (current : AccountEntry) (previous : Option AccountEntry) (ledgerVersion : ℕ) :
    Bool :=
  match previous with
  | none => true
  | some prev =>
    let didBalanceDecrease := current.balance < prev.balance
    if 10 ≤ ledgerVersion then
      let sellingLiabilitiesInc := (liabilitiesOf current.ext).selling < (liabilitiesOf current.ext).selling
      let buyingLiabilitiesInc := (liabilitiesOf current.ext).buying < (liabilitiesOf current.ext).buying
      didBalanceDecrease || (sellingLiabilitiesInc || buyingLiabilitiesInc)
    else didBalanceDecrease

/-- The `account()` of an entry that is there: an access to another arm throws. -/
def accountArm : Option LedgerEntryData → Except Exception (Option AccountEntry)
  | none => return none
  | some (.account acc) => return some acc
  | some _ => throw (.other "xdr_wrong_union")

/-- The liabilities that balances are compared with. -/
def checkedLiabilities (ledgerVersion : ℕ) (ext : Option Liabilities) : Liabilities :=
  if 10 ≤ ledgerVersion then liabilitiesOf ext else ⟨0, 0⟩

/-- The comparisons for an account. -/
def accountFails (header : LedgerHeader) (account : AccountEntry) (ledgerVersion : ℕ) : Bool :=
  let liabilities := checkedLiabilities ledgerVersion account.ext
  let minBalance := getMinBalance header account.numSubEntries
  account.balance < toInt64 (minBalance + liabilities.selling) ||
    toInt64 (INT64_MAX - account.balance) < liabilities.buying

/-- The comparisons for a trust line. -/
def trustLineFails (trust : TrustLineEntry) (ledgerVersion : ℕ) : Bool :=
  let liabilities := checkedLiabilities ledgerVersion trust.ext
  trust.balance < liabilities.selling || toInt64 (trust.limit - trust.balance) < liabilities.buying

def checkBalanceAndLimit (header : LedgerHeader) (current previous : Option LedgerEntryData)
    (ledgerVersion : ℕ) : Except Exception String :=
  match current with
  | some (.account account) => do
    if shouldCheckAccount account (← accountArm previous) ledgerVersion then
      if accountFails header account ledgerVersion then
        return "Balance not compatible with liabilities for account " ++ str.account account
    return ""
  | some (.trustLine trust) =>
    if trustLineFails trust ledgerVersion then
      return "Balance not compatible with liabilities for trustline " ++ str.trustLine trust
    else return ""
  | _ => return ""

/-! ## The check -/

/-- The first loop; an unauthorized line ends it with its message. -/
def accumulateEntries : List EntryDelta → DeltaLiabilities → Except Exception (Except String DeltaLiabilities)
  | [], deltaLiabilities => return .ok deltaLiabilities
  | entryDelta :: entries, deltaLiabilities => do
    let checkAuthStr := checkAuthorized str entryDelta.current
    if checkAuthStr ≠ "" then
      return .error checkAuthStr
    let m ← accumulateLiabilities deltaLiabilities entryDelta.current entryDelta.previous
    accumulateEntries entries m

/-- The message about one account and asset. -/
def mismatchMessage (accountID : AccountID) (asset : Asset) (liabilities : Liabilities) : String :=
  let place := " for account " ++ str.accountID accountID ++ " in asset " ++ str.asset asset
  if liabilities.buying ≠ 0 then
    "Change in buying liabilities differed from change in total buying liabilities of offers by " ++
      toString liabilities.buying ++ place
  else if liabilities.selling ≠ 0 then
    "Change in selling liabilities differed from change in total selling liabilities of offers by " ++
      toString liabilities.selling ++ place
  else ""

/-- The loops that return the first message that is not empty. -/
def firstMessage : List String → String
  | [] => ""
  | msg :: msgs => if msg ≠ "" then msg else firstMessage msgs

/-- The second loop, over accounts and over assets. -/
def checkDeltaLiabilities (deltaLiabilities : DeltaLiabilities) : String :=
  firstMessage (deltaLiabilities.keys.map fun k =>
    let (accountID, asset) := ofLex k
    mismatchMessage str accountID asset (deltaLiabilities.liabilities accountID asset))

/-- The third loop. -/
def checkBalances (header : LedgerHeader) (ledgerVersion : ℕ) :
    List EntryDelta → Except Exception String
  | [] => return ""
  | entryDelta :: entries => do
    let msg ← checkBalanceAndLimit str header entryDelta.current entryDelta.previous ledgerVersion
    if msg ≠ "" then
      return msg
    checkBalances header ledgerVersion entries

def LedgerTxnDelta.entryDeltas (ltxDelta : LedgerTxnDelta) : List EntryDelta :=
  ltxDelta.entry.entries.map Sigma.snd

/-- `checkOnOperationApply`; it does not look at the operation or at its result. -/
def checkOnOperationApply (ltxDelta : LedgerTxnDelta) : Except Exception String := do
  let header := ltxDelta.header.current
  let ledgerVersion := header.ledgerVersion
  if 10 ≤ ledgerVersion then
    match ← accumulateEntries str ltxDelta.entryDeltas .empty with
    | .error checkAuthStr => return checkAuthStr
    | .ok deltaLiabilities =>
      let msg := checkDeltaLiabilities str deltaLiabilities
      if msg ≠ "" then
        return msg
  checkBalances str header ledgerVersion ltxDelta.entryDeltas

end ZaggCore.Invariants
