import Mathlib
import ZaggCore.Transactions.AccountOperations

/-! # The operations on the order book

Payments and offers, and `makeHelper`, which picks the frame of an operation. -/

namespace ZaggCore.Transactions
set_option autoImplicit false
set_option maxHeartbeats 250000

open Foundations Numeric

variable {X Q : Type}

/-! ## `PathPaymentOpFrame` -/

namespace PathPaymentOpFrame

/-- The result so far: a code to fail with, or the values to go on with. -/
abbrev Step (α : Type) := PathPaymentResultCode ⊕ α

/-- "If the payment doesn't involve intermediate accounts and the destination is the issuer we don't
bother checking if the destination account even exist". -/
def bypassIssuerCheck (op : PathPaymentOp) : Bool :=
  op.path.isEmpty && op.sendAsset = op.destAsset &&
    match getIssuer op.destAsset with
    | .ok issuer => issuer = op.destination
    | .error _ => false

/-- One of the checks for an issuer; `none` when it is there or need not be. -/
def checkIssuer (bypass : Bool) (asset : Asset) : AppM X (Option PathPaymentResultCode) := do
  if bypass then
    return none
  if (← loadAccountWithoutRecord (← getIssuer asset)).isNone then
    return some (.PATH_PAYMENT_NO_ISSUER asset)
  return none

/-- Update last balance in the chain. -/
def creditDestination (op : PathPaymentOp) (bypass : Bool) : AppM X (Option PathPaymentResultCode) := do
  if !bypass && (← loadAccountWithoutRecord op.destination).isNone then
    return some .PATH_PAYMENT_NO_DESTINATION
  let header ← loadHeader
  if op.destAsset = .native then
    let destination ← current (← loadAccount op.destination)
    if (← updateAccount storeAccount (AccountEntry.addBalance header · op.destAmount)
        destination).isNone then
      return some .PATH_PAYMENT_MALFORMED
    return none
  match ← checkIssuer bypass op.destAsset with
  | some code => return some code
  | none =>
    match ← loadTrustLine op.destination op.destAsset with
    | none => return some .PATH_PAYMENT_NO_TRUST
    | some destLine =>
      if !destLine.isAuthorized then
        return some .PATH_PAYMENT_NOT_AUTHORIZED
      if (← destLine.addBalance header op.destAmount).isNone then
        return some .PATH_PAYMENT_LINE_FULL
      return none

section

variable [LinearOrder Q] (app : Application X Q)

/-- The filter of the crossing: "we are crossing our own offer". -/
def filter (sourceID : AccountID) (offer : OfferEntry) : Except Exception OfferFilterResult :=
  return if offer.sellerID = sourceID then .eStop true else .eKeep

/-- One step back along the path: `curBReceived` of `curB` are bought with `curA`. -/
def convert (sourceID : AccountID) (curA curB : Asset) (curBReceived : ℤ) : AppM X (Step ℤ) := do
  let noIssuer ← checkIssuer (curA = .native) curA
  match noIssuer with
  | some code => return .inl code
  | none =>
    let (r, curASent, actualCurBReceived) ←
      convertWithOffers app curA INT64_MAX curB curBReceived true (filter sourceID)
    assert (0 ≤ curASent) "curASent >= 0"
    match r with
    | .eFilterStop _ => return .inl .PATH_PAYMENT_OFFER_CROSS_SELF
    | .ePartial => return .inl .PATH_PAYMENT_TOO_FEW_OFFERS
    | .eOK =>
      if curBReceived = actualCurBReceived then
        return .inr curASent
      return .inl .PATH_PAYMENT_TOO_FEW_OFFERS

/-- Walk the path backwards, over the assets from the last one to `sendAsset`. -/
def walk (sourceID : AccountID) : List Asset → Asset → ℤ → AppM X (Step (Asset × ℤ))
  | [], curB, curBReceived => return .inr (curB, curBReceived)
  | curA :: path, curB, curBReceived => do
    if curA = curB then
      walk sourceID path curB curBReceived
    else
      match ← convert app sourceID curA curB curBReceived with
      | .inl code => return .inl code
      | .inr curASent => walk sourceID path curA curASent

/-- The source account that pays in lumens. -/
def loadPayer (header : LedgerHeader) (sourceID : AccountID) : AppM X (Option AccountEntry) :=
  if 7 < header.ledgerVersion then loadAccount sourceID
  else do
    return some (← current (← loadAccountCached sourceID))

/-- Last step: we've reached the first account in the chain, update its balance. -/
def debitSource (sourceID : AccountID) (bypass doesSourceAccountExist : Bool) (curB : Asset)
    (curBSent : ℤ) : AppM X PathPaymentResultCode := do
  let header ← loadHeader
  if curB = .native then
    match ← loadPayer header sourceID with
    | none => return .PATH_PAYMENT_MALFORMED
    | some sourceAccount =>
      if AccountEntry.getAvailableBalance header sourceAccount < curBSent then
        -- they don't have enough to send
        return .PATH_PAYMENT_UNDERFUNDED
      throwIf (!doesSourceAccountExist) (.runtime_error "modifying account that does not exist")
      let ok ← updateAccount (if 7 < header.ledgerVersion then storeAccount else storeCached)
        (AccountEntry.addBalance header · (-curBSent)) sourceAccount
      assert (ok.isSome) "ok"
      return .PATH_PAYMENT_SUCCESS
  match ← checkIssuer bypass curB with
  | some code => return code
  | none =>
    match ← loadTrustLine sourceID curB with
    | none => return .PATH_PAYMENT_SRC_NO_TRUST
    | some sourceLine =>
      if !sourceLine.isAuthorized then
        return .PATH_PAYMENT_SRC_NOT_AUTHORIZED
      if (← sourceLine.addBalance header (-curBSent)).isNone then
        return .PATH_PAYMENT_UNDERFUNDED
      return .PATH_PAYMENT_SUCCESS

def doApply (sourceID : AccountID) (op : PathPaymentOp) : AppM X PathPaymentResultCode := do
  let header ← loadHeader
  let bypass := bypassIssuerCheck op
  let doesSourceAccountExist :=
    8 ≤ header.ledgerVersion || (← loadAccountWithoutRecord sourceID).isSome
  match ← creditDestination op bypass with
  | some code => return code
  | none =>
    match ← walk app sourceID (op.sendAsset :: op.path).reverse op.destAsset op.destAmount with
    | .inl code => return code
    | .inr (curB, curBSent) =>
      if op.sendMax < curBSent then -- make sure not over the max
        return .PATH_PAYMENT_OVER_SENDMAX
      debitSource sourceID bypass doesSourceAccountExist curB curBSent

end

def doCheckValid (op : PathPaymentOp) : Option PathPaymentResultCode :=
  if op.destAmount ≤ 0 ∨ op.sendMax ≤ 0 then some .PATH_PAYMENT_MALFORMED
  else if !isAssetValid op.sendAsset || !isAssetValid op.destAsset then some .PATH_PAYMENT_MALFORMED
  else if !op.path.all isAssetValid then some .PATH_PAYMENT_MALFORMED
  else none

end PathPaymentOpFrame

/-! ## `PaymentOpFrame` -/

namespace PaymentOpFrame

/-- The code of a payment for the code of its path payment. -/
def fromPathPayment : PathPaymentResultCode → Except Exception PaymentResultCode
  | .PATH_PAYMENT_SUCCESS => .ok .PAYMENT_SUCCESS
  | .PATH_PAYMENT_UNDERFUNDED => .ok .PAYMENT_UNDERFUNDED
  | .PATH_PAYMENT_SRC_NOT_AUTHORIZED => .ok .PAYMENT_SRC_NOT_AUTHORIZED
  | .PATH_PAYMENT_SRC_NO_TRUST => .ok .PAYMENT_SRC_NO_TRUST
  | .PATH_PAYMENT_NO_DESTINATION => .ok .PAYMENT_NO_DESTINATION
  | .PATH_PAYMENT_NO_TRUST => .ok .PAYMENT_NO_TRUST
  | .PATH_PAYMENT_NOT_AUTHORIZED => .ok .PAYMENT_NOT_AUTHORIZED
  | .PATH_PAYMENT_LINE_FULL => .ok .PAYMENT_LINE_FULL
  | .PATH_PAYMENT_NO_ISSUER _ => .ok .PAYMENT_NO_ISSUER
  | _ => .error (.runtime_error "Unexpected error code from pathPayment")

/-- The path payment that a payment is carried out as. -/
def pathPaymentOp (destination : AccountID) (asset : Asset) (amount : ℤ) : PathPaymentOp where
  sendAsset := asset
  sendMax := amount
  destination := destination
  destAsset := asset
  destAmount := amount
  path := []

def doApply [LinearOrder Q] (app : Application X Q) (sourceID destination : AccountID) (asset : Asset)
    (amount : ℤ) : AppM X PaymentResultCode := do
  let header ← loadHeader
  -- if sending to self XLM directly, just mark as success, else we need at
  -- least to check trustlines
  -- in ledger version 2 it would work for any asset type
  if destination = sourceID ∧ (header.ledgerVersion ≤ 2 ∨ asset = .native) then
    return .PAYMENT_SUCCESS
  let op := pathPaymentOp destination asset amount
  match PathPaymentOpFrame.doCheckValid op with
  | some code => fromPathPayment code
  | none => fromPathPayment (← PathPaymentOpFrame.doApply app sourceID op)

def doCheckValid (asset : Asset) (amount : ℤ) : Option PaymentResultCode :=
  if amount ≤ 0 then some .PAYMENT_MALFORMED
  else if !isAssetValid asset then some .PAYMENT_MALFORMED
  else none

end PaymentOpFrame

/-! ## `ManageOfferOpFrame` -/

namespace ManageOfferOpFrame

/-- The checks of the line that the seller sells from. -/
def checkSheepLine (sourceID : AccountID) (sheep : Asset) : AppM X (Option ManageOfferResultCode) := do
  if sheep = .native then
    return none
  let sheepLineA ← loadTrustLine sourceID sheep
  if (← loadAccount (← getIssuer sheep)).isNone then
    return some .MANAGE_OFFER_SELL_NO_ISSUER
  match sheepLineA with
  | none => return some .MANAGE_OFFER_SELL_NO_TRUST -- we don't have what we are trying to sell
  | some sheepLineA =>
    if sheepLineA.getBalance = 0 then
      return some .MANAGE_OFFER_UNDERFUNDED
    if !sheepLineA.isAuthorized then
      return some .MANAGE_OFFER_SELL_NOT_AUTHORIZED -- we are not authorized to sell
    return none

/-- The checks of the line that the seller buys into. -/
def checkWheatLine (sourceID : AccountID) (wheat : Asset) : AppM X (Option ManageOfferResultCode) := do
  if wheat = .native then
    return none
  let wheatLineA ← loadTrustLine sourceID wheat
  if (← loadAccount (← getIssuer wheat)).isNone then
    return some .MANAGE_OFFER_BUY_NO_ISSUER
  match wheatLineA with
  | none => return some .MANAGE_OFFER_BUY_NO_TRUST -- we can't hold what we are trying to buy
  | some wheatLineA =>
    if !wheatLineA.isAuthorized then
      -- we are not authorized to hold what we are trying to buy
      return some .MANAGE_OFFER_BUY_NOT_AUTHORIZED
    return none

def checkOfferValid (sourceID : AccountID) (op : ManageOfferOp) :
    AppM X (Option ManageOfferResultCode) :=
  -- ltx will always be rolled back
  rolledBack World.restore do
    if op.amount = 0 then
      -- don't bother loading trust lines as we're deleting the offer
      return none
    match ← checkSheepLine sourceID op.selling with
    | some code => return some code
    | none => checkWheatLine sourceID op.buying

/-- The account with room for the entry of a new offer, where that is needed: "we need to compute
maxAmountOfSheepCanSell based on the updated reserve". -/
def reserveOffer (header : LedgerHeader) (sheep : Asset) (creatingNewOffer : Bool)
    (sourceAccount : AccountEntry) : AppM X (Option AccountEntry) :=
  if creatingNewOffer ∧ (10 ≤ header.ledgerVersion ∨ (sheep = .native ∧ 8 < header.ledgerVersion)) then
    updateAccount storeCached (addNumEntries header · 1) sourceAccount
  else return some sourceAccount

/-- `maxSheepSend` and `maxWheatReceive`, or the code to fail with. -/
def computeOfferExchangeParameters (sourceID : AccountID) (offer : OfferEntry)
    (creatingNewOffer : Bool) : AppM X (ManageOfferResultCode ⊕ (ℤ × ℤ)) :=
  -- ltx will always be rolled back
  rolledBack World.restore do
    let sheep := offer.selling
    let wheat := offer.buying
    let header ← loadHeader
    let sourceAccount ← current (← loadAccountCached sourceID)
    match ← reserveOffer header sheep creatingNewOffer sourceAccount with
    | none => return .inl .MANAGE_OFFER_LOW_RESERVE
    | some sourceAccount =>
      let sheepLineA ← loadTrustLineIfNotNative sourceID sheep
      let wheatLineA ← loadTrustLineIfNotNative sourceID wheat
      let maxWheatReceive ← canBuyAtMost header (some sourceAccount) wheat wheatLineA
      if 10 ≤ header.ledgerVersion then
        let availableLimit ← (if wheat = .native then
            return AccountEntry.getMaxAmountReceive header sourceAccount
          else (·.getMaxAmountReceive header) <$> getImpl wheatLineA)
        if availableLimit < (← getOfferBuyingLiabilities header offer) then
          return .inl .MANAGE_OFFER_LINE_FULL
        let availableBalance ← (if sheep = .native then
            return AccountEntry.getAvailableBalance header sourceAccount
          else (·.getAvailableBalance header) <$> getImpl sheepLineA)
        if availableBalance < (← getOfferSellingLiabilities header offer) then
          return .inl .MANAGE_OFFER_UNDERFUNDED
        let maxSheepSend ← canSellAtMost header (some sourceAccount) sheep sheepLineA
        return .inr (min offer.amount maxSheepSend, maxWheatReceive)
      let maxSheepCanSell ← canSellAtMost header (some sourceAccount) sheep sheepLineA
      let maxSheepBasedOnWheat :=
        (← bigDivideFits maxWheatReceive offer.price.d offer.price.n .ROUND_DOWN).getD INT64_MAX
      -- amount of sheep for sale is the lesser of amount we can sell and
      -- amount put in the offer
      return .inr (min offer.amount (min maxSheepCanSell maxSheepBasedOnWheat), maxWheatReceive)

def buildOffer (account : AccountID) (op : ManageOfferOp) (flags : ℕ) : OfferEntry where
  sellerID := account
  offerID := op.offerID
  selling := op.selling
  buying := op.buying
  amount := op.amount
  price := op.price
  flags := flags

/-- The offer to work with and `mPassive`: an old offer leaves the ledger, without its entry being
taken off the account's count. -/
def takeOldOffer (sourceID : AccountID) (op : ManageOfferOp) (mPassive : Bool) :
    AppM X (Option (OfferEntry × Bool)) := do
  if op.offerID = 0 then
    -- creating a new Offer
    return some (buildOffer sourceID op (if mPassive then PASSIVE_FLAG else 0), mPassive)
  -- modifying an old offer
  match ← loadOffer sourceID op.offerID with
  | none => return none
  | some sellSheepOffer =>
    let header ← loadHeader
    (if 10 ≤ header.ledgerVersion then releaseLiabilities header sellSheepOffer else return ())
    -- rebuild offer based off the manage offer
    let flags := sellSheepOffer.flags
    erase (.offer sourceID op.offerID)
    return some (buildOffer sourceID op flags, flags &&& PASSIVE_FLAG ≠ 0)

/-- `a > b` on prices. -/
def Price.above (a b : Price) : Bool := b.n * a.d < a.n * b.d

/-- `a >= b` on prices. -/
def Price.atLeast (a b : Price) : Bool := b.n * a.d ≤ a.n * b.d

/-- The filter of the crossing. -/
def filter (sourceID : AccountID) (newOffer : OfferEntry) (mPassive : Bool) (o : OfferEntry) :
    Except Exception OfferFilterResult := do
  let maxWheatPrice : Price := ⟨newOffer.price.d, newOffer.price.n⟩
  assert (o.offerID ≠ newOffer.offerID) "o.offerID != newOffer.data.offer().offerID"
  if (mPassive && Price.atLeast o.price maxWheatPrice) || Price.above o.price maxWheatPrice then
    return .eStop false
  if o.sellerID = sourceID then
    -- we are crossing our own offer
    return .eStop true
  return .eKeep

/-- `addBalance` on the own account or line; "this would indicate a bug in OfferExchange". -/
def settle (header : LedgerHeader) (sourceID : AccountID) (asset : Asset) (delta : ℤ) (what : String) :
    AppM X Unit := do
  if asset = .native then
    let sourceAccount ← current (← loadAccountCached sourceID)
    throwIf ((← updateAccount storeCached (AccountEntry.addBalance header · delta) sourceAccount).isNone)
      (.runtime_error what)
  else
    let line ← getImpl (← loadTrustLine sourceID asset)
    throwIf ((← line.addBalance header delta).isNone) (.runtime_error what)

/-- The amount that is left to sell, from version 10 on. -/
def remainingAmount (header : LedgerHeader) (sourceID : AccountID) (newOffer : OfferEntry)
    (sheepStays : Bool) : AppM X ℤ := do
  if header.ledgerVersion < 10 then
    return newOffer.amount
  if !sheepStays then
    return 0
  let sourceAccount ← loadAccountWithoutRecord sourceID
  let sheepLineA ← loadTrustLineWithoutRecordIfNotNative sourceID newOffer.selling
  let wheatLineA ← loadTrustLineWithoutRecordIfNotNative sourceID newOffer.buying
  let sheepSendLimit :=
    min newOffer.amount (← canSellAtMost header sourceAccount newOffer.selling sheepLineA)
  let wheatReceiveLimit ← canBuyAtMost header sourceAccount newOffer.buying wheatLineA
  adjustOffer newOffer.price sheepSendLimit wheatReceiveLimit

section

variable [LinearOrder Q] (app : Application X Q)

/-- What the taker pays and gets once the book was crossed. -/
def settleCrossing (header : LedgerHeader) (sourceID : AccountID) (newOffer : OfferEntry)
    (sheepSent wheatReceived : ℤ) : AppM X Unit := do
  if 0 < wheatReceived then
    settle header sourceID newOffer.buying wheatReceived "offer claimed over limit"
    settle header sourceID newOffer.selling (-sheepSent) "offer sold more than balance"

/-- The part for an amount to sell: the book is crossed and the offer keeps what is left. -/
def crossBook (sourceID : AccountID) (newOffer : OfferEntry) (mPassive creatingNewOffer : Bool) :
    AppM X (ManageOfferResultCode ⊕ OfferEntry) := do
  match ← computeOfferExchangeParameters sourceID newOffer creatingNewOffer with
  | .inl code => return .inl code
  | .inr (maxSheepSend, maxWheatReceive) =>
    if maxWheatReceive = 0 then
      return .inl .MANAGE_OFFER_LINE_FULL
    let (r, sheepSent, wheatReceived) ← convertWithOffers app newOffer.selling maxSheepSend
      newOffer.buying maxWheatReceive false (filter sourceID newOffer mPassive)
    assert (0 ≤ sheepSent) "sheepSent >= 0"
    if r = .eFilterStop true then
      return .inl .MANAGE_OFFER_CROSS_SELF
    let sheepStays := r ≠ .eOK
    let header ← loadHeader
    settleCrossing header sourceID newOffer sheepSent wheatReceived
    let newOffer := { newOffer with amount := maxSheepSend - sheepSent }
    let amount ← remainingAmount header sourceID newOffer sheepStays
    return .inr { newOffer with amount := amount }

/-- The part after the crossing: leave an offer, or account for one that is gone. -/
def leaveOffer (sourceID : AccountID) (newOffer : OfferEntry) (creatingNewOffer : Bool) :
    AppM X (Option ManageOfferResultCode) := do
  let header ← loadHeader
  if newOffer.amount ≤ 0 then
    if creatingNewOffer then
      return none
    let sourceAccount ← current (← loadAccountCached sourceID)
    let _ ← updateAccount storeCached (addNumEntries header · (-1)) sourceAccount
    return none
  -- we still have sheep to sell so leave an offer
  if creatingNewOffer then
    -- make sure we don't allow us to add offers when we don't have
    -- the minbalance (should never happen at this stage in v9+)
    let sourceAccount ← current (← loadAccountCached sourceID)
    if (← updateAccount storeCached (addNumEntries header · 1) sourceAccount).isNone then
      return some .MANAGE_OFFER_LOW_RESERVE
    let offerID ← generateID
    putOffer header { newOffer with offerID := offerID }
    return none
  putOffer header newOffer
  return none
where
  putOffer (header : LedgerHeader) (offer : OfferEntry) : AppM X Unit := do
    create (.offer offer)
    if 10 ≤ header.ledgerVersion then
      acquireLiabilities header offer

def doApply (sourceID : AccountID) (op : ManageOfferOp) (mPassive : Bool) :
    AppM X ManageOfferResultCode :=
  committedIf World.restore do
    match ← checkOfferValid sourceID op with
    | some code => return (code, false)
    | none =>
      match ← takeOldOffer sourceID op mPassive with
      | none => return (.MANAGE_OFFER_NOT_FOUND, false)
      | some (newOffer, mPassive) =>
        let creatingNewOffer := op.offerID = 0
        let crossed ← (if 0 < op.amount then crossBook app sourceID newOffer mPassive creatingNewOffer
          else return .inr newOffer)
        match crossed with
        | .inl code => return (code, false)
        | .inr newOffer =>
          match ← leaveOffer sourceID newOffer creatingNewOffer with
          | some code => return (code, false)
          | none => return (.MANAGE_OFFER_SUCCESS, true)

end

def doCheckValid (op : ManageOfferOp) (ledgerVersion : ℕ) : Option ManageOfferResultCode :=
  if !isAssetValid op.selling || !isAssetValid op.buying then some .MANAGE_OFFER_MALFORMED
  else if op.selling = op.buying then some .MANAGE_OFFER_MALFORMED
  else if op.amount < 0 ∨ op.price.d ≤ 0 ∨ op.price.n ≤ 0 then some .MANAGE_OFFER_MALFORMED
  else if 2 < ledgerVersion ∧ op.offerID = 0 ∧ op.amount = 0 then
    -- since version 3 of ledger you cannot send
    -- offer operation with id and
    -- amount both equal to 0
    some .MANAGE_OFFER_NOT_FOUND
  else none

end ManageOfferOpFrame

/-- `ManageOfferOpHolder`: the manage offer operation of a passive offer. -/
def CreatePassiveOfferOp.manageOfferOp (op : CreatePassiveOfferOp) : ManageOfferOp where
  selling := op.selling
  buying := op.buying
  amount := op.amount
  price := op.price
  offerID := 0

/-! ## `makeHelper` -/

section

variable [LinearOrder Q] (app : Application X Q)

def getThresholdLevel : OperationBody → ThresholdLevel
  | .SET_OPTIONS op => SetOptionsOpFrame.getThresholdLevel op
  | .ALLOW_TRUST _ _ _ => .LOW
  | .ACCOUNT_MERGE _ => .HIGH
  | .INFLATION => .LOW
  | .BUMP_SEQUENCE _ => .LOW
  | .MARK_ACCOUNT _ => .HIGH
  | _ => .MEDIUM

def doCheckValid (sourceID : AccountID) (body : OperationBody) (ledgerVersion : ℕ) :
    EStateM Exception X (Option OperationResultTr) := do
  match body with
  | .CREATE_ACCOUNT destination startingBalance =>
    return (CreateAccountOpFrame.doCheckValid sourceID destination startingBalance).map
      .createAccountResult
  | .PAYMENT _ asset amount => return (PaymentOpFrame.doCheckValid asset amount).map .paymentResult
  | .PATH_PAYMENT op => return (PathPaymentOpFrame.doCheckValid op).map .pathPaymentResult
  | .MANAGE_OFFER op =>
    return (ManageOfferOpFrame.doCheckValid op ledgerVersion).map .manageOfferResult
  | .CREATE_PASSIVE_OFFER op =>
    return (ManageOfferOpFrame.doCheckValid (CreatePassiveOfferOp.manageOfferOp op) ledgerVersion).map
      .manageOfferResult
  | .SET_OPTIONS op =>
    return (SetOptionsOpFrame.doCheckValid sourceID op ledgerVersion).map .setOptionsResult
  | .CHANGE_TRUST line limit =>
    return (ChangeTrustOpFrame.doCheckValid line limit ledgerVersion).map .changeTrustResult
  | .ALLOW_TRUST _ asset _ =>
    return (AllowTrustOpFrame.doCheckValid sourceID asset).map .allowTrustResult
  | .ACCOUNT_MERGE destination =>
    return (MergeOpFrame.doCheckValid sourceID destination).map .accountMergeResult
  | .INFLATION => return none
  | .MANAGE_DATA dataName _ =>
    return (ManageDataOpFrame.doCheckValid dataName ledgerVersion).map .manageDataResult
  | .BUMP_SEQUENCE bumpTo => return (BumpSequenceOpFrame.doCheckValid bumpTo).map .bumpSeqResult
  | .MARK_ACCOUNT accountMarker =>
    return (← MarkAccountOpFrame.doCheckValid app accountMarker).map .markAccountResult

def doApply (sourceID : AccountID) : OperationBody → AppM X OperationResultTr
  | .CREATE_ACCOUNT destination startingBalance =>
    .createAccountResult <$> CreateAccountOpFrame.doApply sourceID destination startingBalance
  | .PAYMENT destination asset amount =>
    .paymentResult <$> PaymentOpFrame.doApply app sourceID destination asset amount
  | .PATH_PAYMENT op => .pathPaymentResult <$> PathPaymentOpFrame.doApply app sourceID op
  | .MANAGE_OFFER op => .manageOfferResult <$> ManageOfferOpFrame.doApply app sourceID op false
  | .CREATE_PASSIVE_OFFER op =>
    .manageOfferResult <$>
      ManageOfferOpFrame.doApply app sourceID (CreatePassiveOfferOp.manageOfferOp op) true
  | .SET_OPTIONS op => .setOptionsResult <$> SetOptionsOpFrame.doApply sourceID op
  | .CHANGE_TRUST line limit => .changeTrustResult <$> ChangeTrustOpFrame.doApply sourceID line limit
  | .ALLOW_TRUST trustor asset authorize =>
    .allowTrustResult <$> AllowTrustOpFrame.doApply sourceID trustor asset authorize
  | .ACCOUNT_MERGE destination => .accountMergeResult <$> MergeOpFrame.doApply sourceID destination
  | .INFLATION => .inflationResult <$> InflationOpFrame.doApply app
  | .MANAGE_DATA dataName dataValue =>
    .manageDataResult <$> ManageDataOpFrame.doApply sourceID dataName dataValue
  | .BUMP_SEQUENCE bumpTo => .bumpSeqResult <$> BumpSequenceOpFrame.doApply sourceID bumpTo
  | .MARK_ACCOUNT accountMarker => .markAccountResult <$> MarkAccountOpFrame.doApply app accountMarker

/-- `OperationFrame::makeHelper`, with the source account of the transaction. -/
def makeHelper (txSource : AccountID) (op : Operation) : OperationFrame X :=
  let sourceID := op.sourceAccount.getD txSource
  { mOperation := op
    sourceID := sourceID
    getThresholdLevel := getThresholdLevel op.body
    doCheckValid := doCheckValid app sourceID op.body
    doApply := doApply app sourceID op.body }

end

end ZaggCore.Transactions
