import Mathlib
import ZaggCore.Transactions.OfferExchange

/-! # `Upgrades`

The part of `herder/Upgrades.cpp` that changes a ledger: `applyTo` with what version 10 and higher
reserves do to the offers, and the check of an upgrade outside of nomination. The maps by asset are
keyed lists; loops over them go through the assets in order. -/

namespace ZaggCore.Transactions
set_option autoImplicit false
set_option maxHeartbeats 250000

open Foundations Numeric

variable {X : Type}

inductive LedgerUpgrade where
  | LEDGER_UPGRADE_VERSION (newLedgerVersion : ℕ)
  | LEDGER_UPGRADE_BASE_FEE (newBaseFee : ℕ)
  | LEDGER_UPGRADE_MAX_TX_SET_SIZE (newMaxTxSetSize : ℕ)
  | LEDGER_UPGRADE_BASE_RESERVE (newBaseReserve : ℕ)
  deriving DecidableEq, Repr

namespace Upgrades

/-- No number stands for a total beyond `INT64_MAX`. -/
abbrev Totals := AList fun _ : Asset => Option ℤ

abbrev LiabilitiesByAsset := AList fun _ : Asset => Liabilities

def isIssuer (accountID : AccountID) (asset : Asset) : Bool :=
  match getIssuer asset with
  | .ok issuer => accountID = issuer
  | .error _ => false

def addLiabilities (liabilities : Totals) (accountID : AccountID) (asset : Asset) (delta : ℤ) :
    Except Exception Totals := do
  let total := (liabilities.lookup asset).getD (some 0)
  let liabilities := liabilities.insert asset total
  if isIssuer accountID asset then
    return liabilities
  match total with
  | some total => return liabilities.insert asset (← Numeric.addBalance total delta INT64_MAX)
  | none => return liabilities

def getAvailableBalanceExcludingLiabilities (accountID : AccountID) (asset : Asset)
    (balanceAboveReserve : ℤ) : AppM X ℤ := do
  if asset = .native then
    return balanceAboveReserve
  if isIssuer accountID asset then
    return INT64_MAX
  match ← loadTrustLineWithoutRecord accountID asset with
  | some trust => return if trust.isAuthorized then trust.getBalance else 0
  | none => return 0

def getAvailableLimitExcludingLiabilities (accountID : AccountID) (asset : Asset) (balance : ℤ) :
    AppM X ℤ := do
  if asset = .native then
    return INT64_MAX - balance
  if isIssuer accountID asset then
    return INT64_MAX
  match (← getLedger).trustLine accountID asset with
  | some tl => return if isAuthorized tl then tl.limit - tl.balance else 0
  | none => return 0

def shouldDeleteOffer (asset : Asset) (effectiveBalance : ℤ) (liabilities : Totals)
    (getCap : Asset → ℤ → AppM X ℤ) : AppM X Bool := do
  match liabilities.lookup asset with
  | none => throw (.runtime_error "liabilities were not calculated")
  | some none => return true
  | some (some total) => return (← getCap asset effectiveBalance) < total

inductive UpdateOfferResult where
  | Unchanged
  | Adjusted
  | AdjustedToZero
  | Erased
  deriving DecidableEq, Repr

/-- One of the two additions at the end of `updateOffer`, to a field of the asset's liabilities. -/
def addToField (liabilities : LiabilitiesByAsset) (sellerID : AccountID) (asset : Asset) (delta : ℤ)
    (get : Liabilities → ℤ) (set : ℤ → Liabilities → Liabilities) (what : String) :
    Except Exception LiabilitiesByAsset := do
  if isIssuer sellerID asset then
    return liabilities
  let old := (liabilities.lookup asset).getD ⟨0, 0⟩
  match ← Numeric.addBalance (get old) delta INT64_MAX with
  | some new => return liabilities.insert asset (set new old)
  | none => throw (.runtime_error what)

/-- The end of `updateOffer` for an offer that stays with `adjAmount`. -/
def keepOffer (header : LedgerHeader) (offer : OfferEntry) (adjAmount : ℤ)
    (liabilities : LiabilitiesByAsset) : AppM X (UpdateOfferResult × LiabilitiesByAsset) := do
  let adjusted := { offer with amount := adjAmount }
  store (.offer adjusted)
  let liabilities ← addToField liabilities offer.sellerID offer.buying
    (← getOfferBuyingLiabilities header adjusted) (·.buying) (fun b l => { l with buying := b })
    "could not add buying liabilities"
  let liabilities ← addToField liabilities offer.sellerID offer.selling
    (← getOfferSellingLiabilities header adjusted) (·.selling) (fun s l => { l with selling := s })
    "could not add selling liabilities"
  return (if adjAmount = offer.amount then .Unchanged else .Adjusted, liabilities)

def updateOffer (header : LedgerHeader) (offer : OfferEntry) (balance balanceAboveReserve : ℤ)
    (liabilities : LiabilitiesByAsset) (initialBuyingLiabilities initialSellingLiabilities : Totals) :
    AppM X (UpdateOfferResult × LiabilitiesByAsset) := do
  let erased ← (do
    if ← shouldDeleteOffer offer.selling balanceAboveReserve initialSellingLiabilities
        (getAvailableBalanceExcludingLiabilities offer.sellerID) then
      return true
    shouldDeleteOffer offer.buying balance initialBuyingLiabilities
      (getAvailableLimitExcludingLiabilities offer.sellerID))
  if erased then
    Transactions.erase (.offer offer.sellerID offer.offerID)
    return (.Erased, liabilities)
  -- If erase == false then we know that the total buying liabilities
  -- of the buying asset do not exceed its available limit, and the
  -- total selling liabilities of the selling asset do not exceed its
  -- available balance.
  let adjAmount ← adjustOffer offer.price offer.amount INT64_MAX
  if adjAmount = 0 then
    Transactions.erase (.offer offer.sellerID offer.offerID)
    return (.AdjustedToZero, liabilities)
  keepOffer header offer adjAmount liabilities

/-- The loop over the offers of an account: the account, and the liabilities of the offers left. -/
def updateOffers (header : LedgerHeader) (balance balanceAboveReserve : ℤ)
    (initialBuyingLiabilities initialSellingLiabilities : Totals) :
    List OfferEntry → AccountEntry → LiabilitiesByAsset → AppM X (AccountEntry × LiabilitiesByAsset)
  | [], account, liabilities => return (account, liabilities)
  | offer :: offers, account, liabilities => do
    let (res, liabilities) ← updateOffer header offer balance balanceAboveReserve liabilities
      initialBuyingLiabilities initialSellingLiabilities
    let account ← (if res = .AdjustedToZero ∨ res = .Erased then do
        return (← updateAccount storeAccount (addNumEntries header · (-1)) account).getD account
      else return account)
    updateOffers header balance balanceAboveReserve initialBuyingLiabilities initialSellingLiabilities
      offers account liabilities

/-- The body of the loop over the assets that offers are left of. -/
def updateLiabilities (header : LedgerHeader) (accountID : AccountID) (asset : Asset)
    (liab : Liabilities) (account : AccountEntry) : AppM X AccountEntry := do
  if asset = .native then
    let deltaSelling := liab.selling - (liabilitiesOf account.ext).selling
    let deltaBuying := liab.buying - (liabilitiesOf account.ext).buying
    match ← updateAccount storeAccount (AccountEntry.addSellingLiabilities header · deltaSelling)
        account with
    | none => throw (.runtime_error "invalid selling liabilities during upgrade")
    | some account =>
      match ← updateAccount storeAccount (AccountEntry.addBuyingLiabilities header · deltaBuying)
          account with
      | none => throw (.runtime_error "invalid buying liabilities during upgrade")
      | some account => return account
  else
    let trustEntry ← getImpl (← loadTrustLine accountID asset)
    let deltaSelling := liab.selling - trustEntry.getSellingLiabilities
    let deltaBuying := liab.buying - trustEntry.getBuyingLiabilities
    match ← trustEntry.addSellingLiabilities header deltaSelling with
    | none => throw (.runtime_error "invalid selling liabilities during upgrade")
    | some trustEntry =>
      match ← trustEntry.addBuyingLiabilities header deltaBuying with
      | none => throw (.runtime_error "invalid buying liabilities during upgrade")
      | some _ => return account

def updateAllLiabilities (header : LedgerHeader) (accountID : AccountID)
    (liabilities : LiabilitiesByAsset) : List Asset → AccountEntry → AppM X Unit
  | [], _ => return ()
  | asset :: assets, account => do
    let account ← updateLiabilities header accountID asset
      ((liabilities.lookup asset).getD ⟨0, 0⟩) account
    updateAllLiabilities header accountID liabilities assets account

/-- One of the two totals of an account's offers. -/
def initialLiabilities (asset : OfferEntry → Asset) (amount : OfferEntry → Except Exception ℤ) :
    List OfferEntry → Totals → Except Exception Totals
  | [], liabilities => .ok liabilities
  | offer :: offers, liabilities => do
    let liabilities ← addLiabilities liabilities offer.sellerID (asset offer) (← amount offer)
    initialLiabilities asset amount offers liabilities

/-- The body of the loop over the accounts with offers. -/
def prepareAccount (header : LedgerHeader) (accountID : AccountID) (offers : List OfferEntry) :
    AppM X Unit := do
  let initialBuyingLiabilities ←
    initialLiabilities (·.buying) (getOfferBuyingLiabilities header) offers ∅
  let initialSellingLiabilities ←
    initialLiabilities (·.selling) (getOfferSellingLiabilities header) offers ∅
  match ← loadAccount accountID with
  | none => throw (.runtime_error "account does not exist")
  | some acc =>
    -- balanceAboveReserve must exclude native selling liabilities, since
    -- these are in the process of being recalculated from scratch.
    let balanceAboveReserve := acc.balance - getMinBalance header acc.numSubEntries
    let (acc, liabilities) ← updateOffers header acc.balance balanceAboveReserve
      initialBuyingLiabilities initialSellingLiabilities offers acc ∅
    updateAllLiabilities header accountID liabilities (liabilities.keys.mergeSort (· ≤ ·)) acc

def prepareAccounts (header : LedgerHeader) (offers : List OfferEntry) :
    List AccountID → AppM X Unit
  | [] => return ()
  | accountID :: accounts => do
    prepareAccount header accountID (offers.filter (·.sellerID = accountID))
    prepareAccounts header offers accounts

/-- "This function is used to bring offers and liabilities into a valid state." -/
def prepareLiabilities : AppM X Unit := do
  let ltx ← getLedger
  modify fun w => ltx.offers.foldl (fun w o => w.load (.offer o.sellerID o.offerID)) w
  prepareAccounts ltx.header ltx.offers ((ltx.offers.map (·.sellerID)).toFinset.sort (· ≤ ·))

def applyVersionUpgrade (newVersion : ℕ) : AppM X Unit := do
  let header ← loadHeader
  storeHeader { header with ledgerVersion := newVersion }
  if 10 ≤ newVersion ∧ header.ledgerVersion < 10 then prepareLiabilities else return ()

def applyReserveUpgrade (newReserve : ℕ) : AppM X Unit := do
  let header ← loadHeader
  storeHeader { header with baseReserve := newReserve }
  if 10 ≤ header.ledgerVersion ∧ header.baseReserve < newReserve then prepareLiabilities else return ()

def applyTo (upgrade : LedgerUpgrade) : AppM X Unit := do
  let header ← loadHeader
  match upgrade with
  | .LEDGER_UPGRADE_VERSION newLedgerVersion => applyVersionUpgrade newLedgerVersion
  | .LEDGER_UPGRADE_BASE_FEE newBaseFee => storeHeader { header with baseFee := newBaseFee }
  | .LEDGER_UPGRADE_MAX_TX_SET_SIZE newMaxTxSetSize =>
    storeHeader { header with maxTxSetSize := newMaxTxSetSize }
  | .LEDGER_UPGRADE_BASE_RESERVE newBaseReserve => applyReserveUpgrade newBaseReserve

/-- `isValid` outside of nomination, for an upgrade that is well formed. -/
def isValid (LEDGER_PROTOCOL_VERSION : ℕ) (header : LedgerHeader) : LedgerUpgrade → Bool
  | .LEDGER_UPGRADE_VERSION newVersion =>
    newVersion ≤ LEDGER_PROTOCOL_VERSION && header.ledgerVersion < newVersion
  | .LEDGER_UPGRADE_BASE_FEE newFee => newFee ≠ 0
  | .LEDGER_UPGRADE_MAX_TX_SET_SIZE newMax => newMax ≠ 0
  | .LEDGER_UPGRADE_BASE_RESERVE newReserve => newReserve ≠ 0

end Upgrades

end ZaggCore.Transactions
