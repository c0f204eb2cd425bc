import Mathlib
import ZaggCore.Transactions.OperationFrame

/-! # Crossing offers

The model of `transactions/OfferExchange.cpp`, and of the liabilities of an offer that
`transactions/TransactionUtils.cpp` computes with it. "Wheat" is what the offer on the book sells and
"sheep" what it buys. The trail of claimed offers goes into results only and is left out. -/

namespace ZaggCore.Transactions
set_option autoImplicit false
set_option maxHeartbeats 250000

open Foundations Numeric

variable {X Q : Type}

/-! ## Amounts -/

inductive ExchangeResultType where
  | NORMAL
  | REDUCED_TO_ZERO
  | BOGUS
  deriving DecidableEq, Repr

structure ExchangeResult where
  numWheatReceived : ℤ
  numSheepSend : ℤ
  reduced : Bool
  deriving DecidableEq, Repr

def ExchangeResult.type (r : ExchangeResult) : ExchangeResultType :=
  if r.numWheatReceived ≠ 0 ∧ r.numSheepSend ≠ 0 then .NORMAL
  else if r.reduced then .REDUCED_TO_ZERO else .BOGUS

structure ExchangeResultV10 where
  numWheatReceived : ℤ
  numSheepSend : ℤ
  wheatStays : Bool
  deriving DecidableEq, Repr

def exchangeV2 (wheatReceived : ℤ) (price : Price) (maxWheatReceive maxSheepSend : ℤ) :
    Except Exception ExchangeResult := do
  let reduced := maxWheatReceive < wheatReceived
  let wheatReceived := min wheatReceived maxWheatReceive
  -- this guy can get X wheat to you. How many sheep does that get him?
  let numSheepSend := (← bigDivideFits wheatReceived price.n price.d .ROUND_DOWN).getD INT64_MAX
  let reduced := reduced || maxSheepSend < numSheepSend
  let numSheepSend := min numSheepSend maxSheepSend
  -- bias towards seller (this cannot overflow at this point)
  let numWheatReceived ← bigDivide numSheepSend price.d price.n .ROUND_DOWN
  return ⟨numWheatReceived, numSheepSend, reduced⟩

def exchangeV3 (wheatReceived : ℤ) (price : Price) (maxWheatReceive maxSheepSend : ℤ) :
    Except Exception ExchangeResult := do
  let reduced := decide (maxWheatReceive < wheatReceived)
  let numWheatReceived := min wheatReceived maxWheatReceive
  -- this guy can get X wheat to you. How many sheep does that get him?
  -- bias towards seller
  let fits ← bigDivideFits numWheatReceived price.n price.d .ROUND_UP
  let reduced := reduced || fits.isNone
  let numSheepSend := fits.getD INT64_MAX
  let reduced := reduced || maxSheepSend < numSheepSend
  let numSheepSend := min numSheepSend maxSheepSend
  let newWheatReceived := (← bigDivideFits numSheepSend price.d price.n .ROUND_DOWN).getD INT64_MAX
  return ⟨min numWheatReceived newWheatReceived, numSheepSend, reduced⟩

/-- "Check that the relative error between the price and the effective price does not exceed 1%." -/
def checkPriceErrorBound (price : Price) (wheatReceive sheepSend : ℤ) (canFavorWheat : Bool) :
    Except Exception Bool := do
  let lhs ← bigMultiply (100 * price.n) wheatReceive
  let rhs ← bigMultiply (100 * price.d) sheepSend
  if canFavorWheat && lhs < rhs then
    return true
  let absDiff := if rhs < lhs then lhs - rhs else rhs - lhs
  let cap ← bigMultiply price.n wheatReceive
  return absDiff ≤ cap

def calculateOfferValue (priceN priceD maxSend maxReceive : ℤ) : Except Exception ℕ := do
  let sendValue ← bigMultiply maxSend priceN
  let receiveValue ← bigMultiply maxReceive priceD
  return min sendValue receiveValue

/-- The wheat received and the sheep sent for the smaller of the two values, before any check. -/
def exchangedAmounts (price : Price) (wheatValue sheepValue : ℕ) (isPathPayment : Bool) :
    Except Exception (ℤ × ℤ) :=
  if sheepValue < wheatValue then
    if price.d < price.n ∨ isPathPayment then do -- Wheat is more valuable
      let wheatReceive ← bigDivide128 sheepValue price.n .ROUND_DOWN
      let sheepSend ← bigDivide wheatReceive price.n price.d .ROUND_UP
      return (wheatReceive, sheepSend)
    else do -- Sheep is more valuable
      let sheepSend ← bigDivide128 sheepValue price.d .ROUND_DOWN
      let wheatReceive ← bigDivide sheepSend price.d price.n .ROUND_DOWN
      return (wheatReceive, sheepSend)
  else
    if price.d < price.n then do -- Wheat is more valuable
      let wheatReceive ← bigDivide128 wheatValue price.n .ROUND_DOWN
      let sheepSend ← bigDivide wheatReceive price.n price.d .ROUND_DOWN
      return (wheatReceive, sheepSend)
    else do -- Sheep is more valuable
      let sheepSend ← bigDivide128 wheatValue price.d .ROUND_DOWN
      let wheatReceive ← bigDivide sheepSend price.d price.n .ROUND_UP
      return (wheatReceive, sheepSend)

def exchangeV10WithoutPriceErrorThresholds (price : Price) (maxWheatSend maxWheatReceive maxSheepSend
    maxSheepReceive : ℤ) (isPathPayment : Bool) : Except Exception ExchangeResultV10 := do
  let wheatValue ← calculateOfferValue price.n price.d maxWheatSend maxSheepReceive
  let sheepValue ← calculateOfferValue price.d price.n maxSheepSend maxWheatReceive
  let (wheatReceive, sheepSend) ← exchangedAmounts price wheatValue sheepValue isPathPayment
  -- Neither of these should ever throw.
  throwIf (wheatReceive < 0 ∨ min maxWheatReceive maxWheatSend < wheatReceive)
    (.runtime_error "wheatReceive out of bounds")
  throwIf (sheepSend < 0 ∨ min maxSheepReceive maxSheepSend < sheepSend)
    (.runtime_error "sheepSend out of bounds")
  return ⟨wheatReceive, sheepSend, sheepValue < wheatValue⟩

def applyPriceErrorThresholds (price : Price) (wheatReceive sheepSend : ℤ)
    (wheatStays isPathPayment : Bool) : Except Exception ExchangeResultV10 := do
  if 0 < wheatReceive ∧ 0 < sheepSend then
    let wheatReceiveValue ← bigMultiply wheatReceive price.n
    let sheepSendValue ← bigMultiply sheepSend price.d
    -- ExchangeV10 guarantees that if wheat stays then the wheat seller
    -- must be favored. Similarly, if sheep stays then the sheep seller
    -- must be favored.
    throwIf (wheatStays && sheepSendValue < wheatReceiveValue)
      (.runtime_error "favored sheep when wheat stays")
    throwIf (!wheatStays && wheatReceiveValue < sheepSendValue)
      (.runtime_error "favored wheat when sheep stays")
    let inBound ← checkPriceErrorBound price wheatReceive sheepSend isPathPayment
    if !inBound then
      throwIf (isPathPayment) (.runtime_error "exceeded price error bound")
      return ⟨0, 0, wheatStays⟩
    return ⟨wheatReceive, sheepSend, wheatStays⟩
  else
    return ⟨0, 0, wheatStays⟩

def exchangeV10 (price : Price) (maxWheatSend maxWheatReceive maxSheepSend maxSheepReceive : ℤ)
    (isPathPayment : Bool) : Except Exception ExchangeResultV10 := do
  let beforeThresholds ← exchangeV10WithoutPriceErrorThresholds price maxWheatSend maxWheatReceive
    maxSheepSend maxSheepReceive isPathPayment
  applyPriceErrorThresholds price beforeThresholds.numWheatReceived beforeThresholds.numSheepSend
    beforeThresholds.wheatStays isPathPayment

/-- The `adjustOffer` over amounts. -/
def adjustOffer (price : Price) (maxWheatSend maxSheepReceive : ℤ) : Except Exception ℤ := do
  let res ← exchangeV10 price maxWheatSend INT64_MAX INT64_MAX maxSheepReceive false
  return res.numWheatReceived

/-! ## Limits of an account -/

/-- A method of a line that may be empty, `otherwise` if it is. -/
def lineOr (otherwise : ℤ) (line : Option TrustLineWrapper) (f : TrustLineWrapper → ℤ) : ℤ :=
  line.elim otherwise f

def canSellAtMostBasedOnSheep (header : LedgerHeader) (sheep : Asset)
    (sheepLine : Option TrustLineWrapper) (wheatPrice : Price) : Except Exception ℤ := do
  if sheep = .native then
    return INT64_MAX
  -- compute value based on what the account can receive
  let sellerMaxSheep := lineOr 0 sheepLine (·.getMaxAmountReceive header)
  return (← bigDivideFits sellerMaxSheep wheatPrice.d wheatPrice.n .ROUND_DOWN).getD INT64_MAX

def canSellAtMost (header : LedgerHeader) (account : Option AccountEntry) (asset : Asset)
    (trustLine : Option TrustLineWrapper) : AppM X ℤ := do
  if asset = .native then
    -- can only send above the minimum balance
    return max (AccountEntry.getAvailableBalance header (← current account)) 0
  match trustLine with
  | some line => return if line.isAuthorized then max (line.getAvailableBalance header) 0 else 0
  | none => return 0

def canBuyAtMost (header : LedgerHeader) (account : Option AccountEntry) (asset : Asset)
    (trustLine : Option TrustLineWrapper) : AppM X ℤ := do
  if asset = .native then
    return max (AccountEntry.getMaxAmountReceive header (← current account)) 0
  return lineOr 0 trustLine fun line => max (line.getMaxAmountReceive header) 0

/-! ## The liabilities of an offer -/

def offerLiabilities (header : LedgerHeader) (offer : OfferEntry) :
    Except Exception ExchangeResultV10 := do
  throwIf (header.ledgerVersion < 10)
    (.runtime_error "Offer liabilities calculated before version 10")
  exchangeV10WithoutPriceErrorThresholds offer.price offer.amount INT64_MAX INT64_MAX INT64_MAX false

def getOfferBuyingLiabilities (header : LedgerHeader) (offer : OfferEntry) : Except Exception ℤ := do
  return (← offerLiabilities header offer).numSheepSend

def getOfferSellingLiabilities (header : LedgerHeader) (offer : OfferEntry) : Except Exception ℤ := do
  return (← offerLiabilities header offer).numWheatReceived

/-- One side of `acquireOrReleaseLiabilities`: `onAccount` for a native asset, `onLine` for others. -/
def changeLiabilities (sellerID : AccountID) (asset : Asset) (what : String)
    (onAccount : AccountEntry → Except Exception (Option AccountEntry))
    (onLine : TrustLineWrapper → AppM X (Option TrustLineWrapper)) : AppM X Unit := do
  if asset = .native then
    match ← loadAccount sellerID with
    | none => throw (.runtime_error "account does not exist")
    | some account =>
      match ← updateAccount storeAccount onAccount account with
      | none => throw (.runtime_error what)
      | some _ => return ()
  else
    match ← loadTrustLine sellerID asset with
    | none => throw (.runtime_error "trustline does not exist")
    | some trust =>
      match ← onLine trust with
      | none => throw (.runtime_error what)
      | some _ => return ()

def acquireOrReleaseLiabilities (header : LedgerHeader) (offer : OfferEntry) (isAcquire : Bool) :
    AppM X Unit := do
  -- This should never happen
  throwIf (offer.buying = offer.selling) (.runtime_error "buying and selling same asset")
  let sign : ℤ := if isAcquire then 1 else -1
  let buyingLiabilities := sign * (← getOfferBuyingLiabilities header offer)
  changeLiabilities offer.sellerID offer.buying "could not add buying liabilities"
    (fun account => AccountEntry.addBuyingLiabilities header account buyingLiabilities)
    (fun trust => trust.addBuyingLiabilities header buyingLiabilities)
  let sellingLiabilities := sign * (← getOfferSellingLiabilities header offer)
  changeLiabilities offer.sellerID offer.selling "could not add selling liabilities"
    (fun account => AccountEntry.addSellingLiabilities header account sellingLiabilities)
    (fun trust => trust.addSellingLiabilities header sellingLiabilities)

def acquireLiabilities (header : LedgerHeader) (offer : OfferEntry) : AppM X Unit :=
  acquireOrReleaseLiabilities header offer true

def releaseLiabilities (header : LedgerHeader) (offer : OfferEntry) : AppM X Unit :=
  acquireOrReleaseLiabilities header offer false

/-! ## Crossing one offer -/

inductive CrossOfferResult where
  | eOfferPartial
  | eOfferTaken
  | eOfferCantConvert
  deriving DecidableEq, Repr

/-- What crossing one offer gives back. -/
structure Crossed where
  cor : CrossOfferResult
  numWheatReceived : ℤ
  numSheepSend : ℤ
  wheatStays : Bool
  deriving DecidableEq, Repr

/-- `performExchange`: the type of the exchange, both amounts and what stays of the offer. -/
def performExchange (header : LedgerHeader) (offer : OfferEntry) (accountB : AccountEntry)
    (wheatLineAccountB sheepLineAccountB : Option TrustLineWrapper) (maxWheatReceived maxSheepSend : ℤ) :
    AppM X (ExchangeResultType × ℤ × ℤ × ℤ) := do
  let basedOnSheep ← canSellAtMostBasedOnSheep header offer.buying sheepLineAccountB offer.price
  let atMost ← canSellAtMost header (some accountB) offer.selling wheatLineAccountB
  let numWheatReceived := min (min basedOnSheep atMost) offer.amount
  assert (0 ≤ numWheatReceived) "numWheatReceived >= 0"
  let exchangeResult ← (if header.ledgerVersion < 3 then exchangeV2 else exchangeV3)
    numWheatReceived offer.price maxWheatReceived maxSheepSend
  match exchangeResult.type with
  | .REDUCED_TO_ZERO =>
    return (.REDUCED_TO_ZERO, exchangeResult.numWheatReceived, exchangeResult.numSheepSend,
      numWheatReceived)
  | .BOGUS =>
    -- force delete the offer as it represents a bogus offer
    return (.NORMAL, 0, 0, 0)
  | .NORMAL =>
    let newAmount :=
      if offer.amount ≤ exchangeResult.numWheatReceived then 0
      else numWheatReceived - exchangeResult.numWheatReceived
    return (.NORMAL, exchangeResult.numWheatReceived, exchangeResult.numSheepSend, newAmount)

/-- `addBalance` on the account or on the trust line of `accountID`; whether it succeeded. -/
def addAssetBalance (header : LedgerHeader) (accountID : AccountID) (asset : Asset) (delta : ℤ) :
    AppM X Bool := do
  if asset = .native then
    let account ← current (← loadAccount accountID)
    return (← updateAccount storeAccount (AccountEntry.addBalance header · delta) account).isSome
  else
    let line ← getImpl (← loadTrustLine accountID asset)
    return (← line.addBalance header delta).isSome

/-- `addNumEntries(header, account, -1)` for an account that is loaded for it. -/
def removeNumEntry (header : LedgerHeader) (accountID : AccountID) : AppM X Unit := do
  let account ← current (← loadAccount accountID)
  let _ ← updateAccount storeAccount (addNumEntries header · (-1)) account

/-- One of the balance changes of `crossOffer`, in a nested transaction of its own. -/
def crossBalance (header : LedgerHeader) (accountID : AccountID) (asset : Asset) (delta : ℤ) :
    AppM X Bool :=
  if delta = 0 then return true
  else committedIf World.restore do
    let res ← addAssetBalance header accountID asset delta
    return (res, res)

/-- An offer of which `newAmount` stays after it was crossed before version 10. -/
def takeOffer (header : LedgerHeader) (offer : OfferEntry) (newAmount : ℤ) : AppM X Unit :=
  if newAmount = 0 then do -- entire offer is taken
    erase (.offer offer.sellerID offer.offerID)
    removeNumEntry header offer.sellerID
  else store (.offer { offer with amount := newAmount })

def crossOffer (sellingWheatOffer : OfferEntry) (maxWheatReceived maxSheepSend : ℤ) :
    AppM X Crossed := do
  assert (0 < maxWheatReceived) "maxWheatReceived > 0"
  assert (0 < maxSheepSend) "maxSheepSend > 0"
  let sheep := sellingWheatOffer.buying
  let wheat := sellingWheatOffer.selling
  let accountBID := sellingWheatOffer.sellerID
  let header ← loadHeader
  match ← loadAccountWithoutRecord accountBID with
  | none =>
    throw (.runtime_error "invalid database state: offer must have matching account")
  | some accountB =>
    let sheepLineAccountB ← loadTrustLineWithoutRecordIfNotNative accountBID sheep
    let wheatLineAccountB ← loadTrustLineWithoutRecordIfNotNative accountBID wheat
    let (exchangeResult, numWheatReceived, numSheepSend, newAmount) ←
      performExchange header sellingWheatOffer accountB wheatLineAccountB sheepLineAccountB
        maxWheatReceived maxSheepSend
    let cantConvert : Crossed := ⟨.eOfferCantConvert, numWheatReceived, numSheepSend, false⟩
    if exchangeResult = .REDUCED_TO_ZERO then
      return cantConvert
    -- Note: No changes have been stored before this point.
    takeOffer header sellingWheatOffer newAmount
    -- Adjust balances
    if !(← crossBalance header accountBID sheep numSheepSend) then
      return cantConvert
    if !(← crossBalance header accountBID wheat (-numWheatReceived)) then
      return cantConvert
    return ⟨if newAmount = 0 then .eOfferTaken else .eOfferPartial, numWheatReceived, numSheepSend,
      false⟩

/-- `adjustOffer` over the entries: the amount of the offer after it. -/
def adjustOfferEntry (header : LedgerHeader) (offer : OfferEntry) (account : Option AccountEntry)
    (wheatLine sheepLine : Option TrustLineWrapper) : AppM X ℤ := do
  let maxWheatSend := min offer.amount (← canSellAtMost header account offer.selling wheatLine)
  let maxSheepReceive ← canBuyAtMost header account offer.buying sheepLine
  adjustOffer offer.price maxWheatSend maxSheepReceive

/-- The account and the two lines that `crossOfferV10` holds on to. -/
structure Parties where
  accountB : Option AccountEntry
  sheepLineAccountB : Option TrustLineWrapper
  wheatLineAccountB : Option TrustLineWrapper

/-- One of the balance changes of `crossOfferV10`, for the account or for a line. -/
def changeParty (header : LedgerHeader) (accountB : Option AccountEntry)
    (line : Option TrustLineWrapper) (asset : Asset) (delta : ℤ) (what : String) :
    AppM X (Option AccountEntry × Option TrustLineWrapper) := do
  if delta = 0 then
    return (accountB, line)
  if asset = .native then
    match ← updateAccount storeAccount (AccountEntry.addBalance header · delta) (← current accountB) with
    | some account => return (some account, line)
    | none => throw (.runtime_error what)
  else
    match ← (← getImpl line).addBalance header delta with
    | some line => return (accountB, some line)
    | none => throw (.runtime_error what)

/-- The accounts and lines loaded after `releaseLiabilities`. -/
def loadParties (accountBID : AccountID) (wheat sheep : Asset) : AppM X Parties := do
  let accountB ← (if wheat = .native ∨ sheep = .native then loadAccount accountBID else return none)
  let sheepLineAccountB ← loadTrustLineIfNotNative accountBID sheep
  let wheatLineAccountB ← loadTrustLineIfNotNative accountBID wheat
  return ⟨accountB, sheepLineAccountB, wheatLineAccountB⟩

/-- The last step of `crossOfferV10`: an offer that was taken goes, any other is backed again. -/
def leaveOffer (header : LedgerHeader) (sellerID : AccountID) (offerID : ℕ) (taken : Bool) :
    AppM X Unit :=
  committed World.restore do
    let offer ← current (← loadOffer sellerID offerID)
    if taken then
      erase (.offer sellerID offerID)
      removeNumEntry header sellerID
    else acquireLiabilities header offer

def crossOfferV10 (sellingWheatOffer : OfferEntry) (maxWheatReceived maxSheepSend : ℤ)
    (isPathPayment : Bool) : AppM X Crossed := do
  assert (0 < maxWheatReceived) "maxWheatReceived > 0"
  assert (0 < maxSheepSend) "maxSheepSend > 0"
  let header ← loadHeader
  let sheep := sellingWheatOffer.buying
  let wheat := sellingWheatOffer.selling
  let accountBID := sellingWheatOffer.sellerID
  throwIf ((← loadAccountWithoutRecord accountBID).isNone)
    (.runtime_error "invalid database state: offer must have matching account")
  -- Remove liabilities associated with the offer being crossed.
  releaseLiabilities header sellingWheatOffer
  let parties ← loadParties accountBID wheat sheep
  -- As of the protocol version 10, this call to adjustOffer should have no
  -- effect. We leave it here only as a preventative measure.
  let amount ← adjustOfferEntry header sellingWheatOffer parties.accountB parties.wheatLineAccountB
    parties.sheepLineAccountB
  let maxWheatSend := min amount (← canSellAtMost header parties.accountB wheat parties.wheatLineAccountB)
  let maxSheepReceive ← canBuyAtMost header parties.accountB sheep parties.sheepLineAccountB
  let exchangeResult ← exchangeV10 sellingWheatOffer.price maxWheatSend maxWheatReceived maxSheepSend
    maxSheepReceive isPathPayment
  let numWheatReceived := exchangeResult.numWheatReceived
  let numSheepSend := exchangeResult.numSheepSend
  let wheatStays := exchangeResult.wheatStays
  -- Adjust balances
  let (accountB, sheepLineAccountB) ← changeParty header parties.accountB parties.sheepLineAccountB sheep
    numSheepSend "overflowed sheep balance"
  let (accountB, wheatLineAccountB) ← changeParty header accountB parties.wheatLineAccountB wheat
    (-numWheatReceived) "overflowed wheat balance"
  let amount ← (if wheatStays then
      adjustOfferEntry header { sellingWheatOffer with amount := amount - numWheatReceived } accountB
        wheatLineAccountB sheepLineAccountB
    else return 0)
  store (.offer { sellingWheatOffer with amount := amount })
  leaveOffer header accountBID sellingWheatOffer.offerID (amount = 0)
  return ⟨if amount = 0 then .eOfferTaken else .eOfferPartial, numWheatReceived, numSheepSend,
    wheatStays⟩

/-! ## Crossing the book -/

/-- `eStop` comes with whether the offer is the taker's own. -/
inductive OfferFilterResult where
  | eKeep
  | eStop (crossSelf : Bool)
  deriving DecidableEq, Repr

inductive ConvertResult where
  | eOK
  | ePartial
  | eFilterStop (crossSelf : Bool)
  deriving DecidableEq, Repr

/-- What one pass of the loop of `convertWithOffers` comes to. -/
inductive Pass where
  | noOffer
  | filterStop (crossSelf : Bool)
  | crossed (c : Crossed)

section

variable [LinearOrder Q] (app : Application X Q)

/-- One pass of the loop, in a nested transaction that is committed if the offer was crossed. -/
def convertPass (sheep : Asset) (maxSheepSend : ℤ) (wheat : Asset) (maxWheatReceive : ℤ)
    (isPathPayment : Bool) (filter : OfferEntry → Except Exception OfferFilterResult) :
    AppM X Pass :=
  committedIf World.restore do
    match (← getLedger).getBestOffer app.quotient sheep wheat with
    | none => return (.noOffer, false)
    | some wheatOffer =>
      match ← filter wheatOffer with
      | .eStop crossSelf => return (.filterStop crossSelf, false)
      | .eKeep =>
        let header ← loadHeader
        let c ← (if 10 ≤ header.ledgerVersion then
            crossOfferV10 wheatOffer maxWheatReceive maxSheepSend isPathPayment
          else crossOffer wheatOffer maxWheatReceive maxSheepSend)
        assert (0 ≤ c.numSheepSend) "numSheepSend >= 0"
        assert (c.numSheepSend ≤ maxSheepSend) "numSheepSend <= maxSheepSend"
        assert (0 ≤ c.numWheatReceived) "numWheatReceived >= 0"
        assert (c.numWheatReceived ≤ maxWheatReceive) "numWheatReceived <= maxWheatReceive"
        return (.crossed c, c.cor ≠ .eOfferCantConvert)

/-- The loop, with the amounts so far; it crosses at most `fuel` offers. Every pass but the last one
takes an offer off the book. -/
def convertLoop (sheep wheat : Asset) (isPathPayment : Bool)
    (filter : OfferEntry → Except Exception OfferFilterResult) :
    ℕ → ℤ → ℤ → ℤ → ℤ → AppM X (ConvertResult × ℤ × ℤ)
  | 0, _, _, _, _ => throw (.other "out of fuel")
  | fuel + 1, maxSheepSend, sheepSend, maxWheatReceive, wheatReceived => do
    match ← convertPass app sheep maxSheepSend wheat maxWheatReceive isPathPayment filter with
    | .noOffer =>
      let header ← loadHeader
      return (if header.ledgerVersion < 10 then .eOK else .ePartial, sheepSend, wheatReceived)
    | .filterStop crossSelf => return (.eFilterStop crossSelf, sheepSend, wheatReceived)
    | .crossed c =>
      if c.cor = .eOfferCantConvert then
        return (.ePartial, sheepSend, wheatReceived)
      let sheepSend := sheepSend + c.numSheepSend
      let maxSheepSend := maxSheepSend - c.numSheepSend
      let wheatReceived := wheatReceived + c.numWheatReceived
      let maxWheatReceive := maxWheatReceive - c.numWheatReceived
      let needMore := !c.wheatStays && (0 < maxWheatReceive && 0 < maxSheepSend)
      if !needMore then
        return (.eOK, sheepSend, wheatReceived)
      if c.cor = .eOfferPartial then
        return (.ePartial, sheepSend, wheatReceived)
      convertLoop sheep wheat isPathPayment filter fuel maxSheepSend sheepSend maxWheatReceive
        wheatReceived

/-- `convertWithOffers`: buys wheat with sheep, crossing as many offers as necessary. The result, the
sheep sent and the wheat received. -/
def convertWithOffers (sheep : Asset) (maxSheepSend : ℤ) (wheat : Asset) (maxWheatReceive : ℤ)
    (isPathPayment : Bool) (filter : OfferEntry → Except Exception OfferFilterResult) :
    AppM X (ConvertResult × ℤ × ℤ) := do
  let needMore := 0 < maxWheatReceive ∧ 0 < maxSheepSend
  if needMore then
    let ltx ← getLedger
    convertLoop app sheep wheat isPathPayment filter (ltx.offers.length + 1) maxSheepSend 0
      maxWheatReceive 0
  else return (.eOK, 0, 0)

end

end ZaggCore.Transactions
