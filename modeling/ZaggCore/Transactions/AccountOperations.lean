import Mathlib
import ZaggCore.Transactions.OfferExchange

/-! # The operations on accounts, trust lines and data

`doCheckValid` and `doApply` of the operation frames that do not look at the order book. `doCheckValid`
gives the code it fails with; `doApply` gives the code, which is that of success exactly where the
function returns `true`. -/

namespace ZaggCore.Transactions
set_option autoImplicit false
set_option maxHeartbeats 250000

open Foundations Numeric

variable {X Q : Type}

/-! ## `CreateAccountOpFrame` -/

namespace CreateAccountOpFrame

/-- The entry of a new account. -/
def newAccount (header : LedgerHeader) (destination : AccountID) (startingBalance : ℤ) :
    AccountEntry where
  accountID := destination
  balance := startingBalance
  seqNum := toInt64 (getStartingSequenceNumber header)
  accountMarker := []
  numSubEntries := 0
  inflationDest := none
  flags := 0
  homeDomain := []
  thresholds := ⟨1, 0, 0, 0⟩
  signers := []
  ext := none

def doApply (sourceID destination : AccountID) (startingBalance : ℤ) :
    AppM X CreateAccountResultCode := do
  if (← loadAccount destination).isSome then
    return .CREATE_ACCOUNT_ALREADY_EXIST
  let header ← loadHeader
  if startingBalance < getMinBalance header 0 then
    -- not over the minBalance to make an account
    return .CREATE_ACCOUNT_LOW_RESERVE
  let doesAccountExist := 8 ≤ header.ledgerVersion ∨ (← loadAccountWithoutRecord sourceID).isSome
  let sourceAccount ← current (← loadAccountCached sourceID)
  if AccountEntry.getAvailableBalance header sourceAccount < startingBalance then
    -- they don't have enough to send
    return .CREATE_ACCOUNT_UNDERFUNDED
  throwIf (¬ doesAccountExist) (.runtime_error "modifying account that does not exist")
  let ok ← updateAccount storeCached (AccountEntry.addBalance header · (-startingBalance)) sourceAccount
  assert (ok.isSome) "ok"
  create (.account (newAccount header destination startingBalance))
  return .CREATE_ACCOUNT_SUCCESS

def doCheckValid (sourceID destination : AccountID) (startingBalance : ℤ) :
    Option CreateAccountResultCode :=
  if startingBalance ≤ 0 then some .CREATE_ACCOUNT_MALFORMED
  else if destination = sourceID then some .CREATE_ACCOUNT_MALFORMED
  else none

end CreateAccountOpFrame

/-! ## `MergeOpFrame` -/

namespace MergeOpFrame

/-- The balance of the stale account that versions 6 and 7 merge; versions from 5 on make sure that
there is one. -/
def staleBalance (header : LedgerHeader) (sourceID : AccountID) : AppM X (Option ℤ) := do
  if 4 < header.ledgerVersion ∧ header.ledgerVersion < 8 then
    let thisAccount ← loadAccountWithoutRecord sourceID
    return thisAccount.map (·.balance)
  else return some 0

def doApply (sourceID destination : AccountID) : AppM X AccountMergeResultCode := do
  let header ← loadHeader
  match ← loadAccount destination with
  | none => return .ACCOUNT_MERGE_NO_ACCOUNT
  | some otherAccount =>
    match ← staleBalance header sourceID with
    | none => return .ACCOUNT_MERGE_NO_ACCOUNT
    | some staleBalance =>
      let sourceAccount ← current (← loadAccountCached sourceID)
      let sourceBalance :=
        if header.ledgerVersion ≤ 5 ∨ 8 ≤ header.ledgerVersion then sourceAccount.balance
        else staleBalance
      if isImmutableAuth sourceAccount then
        return .ACCOUNT_MERGE_IMMUTABLE_SET
      if sourceAccount.numSubEntries ≠ sourceAccount.signers.length then
        return .ACCOUNT_MERGE_HAS_SUB_ENTRIES
      -- don't allow the account to be merged if recreating it would cause it
      -- to jump backwards
      if 10 ≤ header.ledgerVersion ∧
          toInt64 (getStartingSequenceNumber header) ≤ sourceAccount.seqNum then
        return .ACCOUNT_MERGE_SEQNUM_TOO_FAR
      -- "success" path starts
      if (← updateAccount storeAccount (AccountEntry.addBalance header · sourceBalance)
          otherAccount).isNone then
        return .ACCOUNT_MERGE_DEST_FULL
      erase (.account sourceAccount.accountID)
      return .ACCOUNT_MERGE_SUCCESS

/-- Makes sure not merging into self. -/
def doCheckValid (sourceID destination : AccountID) : Option AccountMergeResultCode :=
  if sourceID = destination then some .ACCOUNT_MERGE_MALFORMED else none

end MergeOpFrame

/-! ## `BumpSequenceOpFrame` -/

namespace BumpSequenceOpFrame

def doApply (sourceID : AccountID) (bumpTo : ℤ) : AppM X BumpSequenceResultCode :=
  committedIf World.restore do
    let sourceAccount ← current (← loadAccountCached sourceID)
    -- Apply the bump (bump succeeds silently if bumpTo <= current)
    if sourceAccount.seqNum < bumpTo then
      storeCached { sourceAccount with seqNum := bumpTo }
      return (.BUMP_SEQUENCE_SUCCESS, true)
    return (.BUMP_SEQUENCE_SUCCESS, false)

def doCheckValid (bumpTo : ℤ) : Option BumpSequenceResultCode :=
  if bumpTo < 0 then some .BUMP_SEQUENCE_BAD_SEQ else none

end BumpSequenceOpFrame

/-! ## `InflationOpFrame` -/

namespace InflationOpFrame

def INFLATION_FREQUENCY : ℕ := 60 * 60 * 24 * 7

def INFLATION_RATE_TRILLIONTHS : ℤ := 190721000

def TRILLION : ℤ := 1000000000000

def INFLATION_WIN_MIN_PERCENT : ℤ := 500000000

def INFLATION_NUM_WINNERS : ℕ := 2000

def INFLATION_START_TIME : ℕ := 1404172800

/-- What a winner can be given, from version 10 on. -/
def receivable (header : LedgerHeader) (accountID : AccountID) (toDoleThisWinner : ℤ) :
    AppM X ℤ := do
  if header.ledgerVersion < 10 then
    return toDoleThisWinner
  match ← loadAccountWithoutRecord accountID with
  | some winner => return min (AccountEntry.getMaxAmountReceive header winner) toDoleThisWinner
  | none => return toDoleThisWinner

/-- The loop over the winners: what is left of the dole and the total of coins. -/
def creditWinners (header : LedgerHeader) (amountToDole totalVotes : ℤ) :
    List (AccountID × ℤ) → ℤ → ℤ → AppM X (ℤ × ℤ)
  | [], leftAfterDole, totalCoins => return (leftAfterDole, totalCoins)
  | (accountID, votes) :: winners, leftAfterDole, totalCoins => do
    let toDoleThisWinner ← bigDivide amountToDole votes totalVotes .ROUND_DOWN
    if toDoleThisWinner = 0 then
      creditWinners header amountToDole totalVotes winners leftAfterDole totalCoins
    else
      let toDoleThisWinner ← receivable header accountID toDoleThisWinner
      if toDoleThisWinner = 0 then
        creditWinners header amountToDole totalVotes winners leftAfterDole totalCoins
      else
        match ← loadAccount accountID with
        | none => creditWinners header amountToDole totalVotes winners leftAfterDole totalCoins
        | some winner =>
          let totalCoins :=
            if header.ledgerVersion ≤ 7 then toInt64 (totalCoins + toDoleThisWinner) else totalCoins
          throwIf ((← updateAccount storeAccount (AccountEntry.addBalance header · toDoleThisWinner)
              winner).isNone) (.runtime_error "inflation overflowed destination balance")
          creditWinners header amountToDole totalVotes winners
            (toInt64 (leftAfterDole - toDoleThisWinner)) totalCoins

def doApply (app : Application X Q) : AppM X InflationResultCode := do
  let ltx ← getLedger
  let lh := ltx.header
  if ltx.closeTime < INFLATION_START_TIME + lh.inflationSeq * INFLATION_FREQUENCY then
    return .INFLATION_NOT_TIME
  let totalVotes := lh.totalCoins
  let minBalance ← bigDivide totalVotes INFLATION_WIN_MIN_PERCENT TRILLION .ROUND_DOWN
  let winners := app.queryInflationWinners ltx INFLATION_NUM_WINNERS minBalance
  let inflationAmount ← bigDivide lh.totalCoins INFLATION_RATE_TRILLIONTHS TRILLION .ROUND_DOWN
  let amountToDole := toInt64 (inflationAmount + lh.feePool)
  -- now credit each account
  let (leftAfterDole, totalCoins) ←
    creditWinners lh amountToDole totalVotes winners amountToDole lh.totalCoins
  -- put back in fee pool as unclaimed funds
  storeHeader { lh with
    feePool := leftAfterDole
    inflationSeq := (lh.inflationSeq + 1) % 2 ^ 32
    totalCoins := if 7 < lh.ledgerVersion then toInt64 (totalCoins + inflationAmount) else totalCoins }
  return .INFLATION_SUCCESS

end InflationOpFrame

/-! ## `ManageDataOpFrame` -/

namespace ManageDataOpFrame

def doApply (sourceID : AccountID) (dataName : String64) (dataValue : Option (List (Fin 256))) :
    AppM X ManageDataResultCode := do
  let header ← loadHeader
  throwIf (header.ledgerVersion = 3)
    (.runtime_error "MANAGE_DATA not supported on ledger version 3")
  match dataValue, ← loadData sourceID dataName with
  | some value, none => -- create a new data entry
    let sourceAccount ← current (← loadAccountCached sourceID)
    if (← updateAccount storeCached (addNumEntries header · 1) sourceAccount).isNone then
      return .MANAGE_DATA_LOW_RESERVE
    create (.data ⟨sourceID, dataName, value⟩)
    return .MANAGE_DATA_SUCCESS
  | some value, some data => -- modify an existing entry
    store (.data { data with dataValue := value })
    return .MANAGE_DATA_SUCCESS
  | none, none => return .MANAGE_DATA_NAME_NOT_FOUND
  | none, some _ => -- delete an existing piece of data
    erase (.data sourceID dataName)
    let sourceAccount ← current (← loadAccountCached sourceID)
    let _ ← updateAccount storeCached (addNumEntries header · (-1)) sourceAccount
    return .MANAGE_DATA_SUCCESS

def doCheckValid (dataName : String64) (ledgerVersion : ℕ) : Option ManageDataResultCode :=
  if ledgerVersion < 2 then some .MANAGE_DATA_NOT_SUPPORTED_YET
  else if dataName.length < 1 ∨ !isString32Valid dataName then some .MANAGE_DATA_INVALID_NAME
  else none

end ManageDataOpFrame

/-! ## `ChangeTrustOpFrame` -/

namespace ChangeTrustOpFrame

/-- A trust line that is there already. -/
def modifyLine (header : LedgerHeader) (sourceID issuerID : AccountID) (line : Asset) (limit : ℤ)
    (trustLine : TrustLineEntry) : AppM X ChangeTrustResultCode := do
  if limit < getMinimumLimit header trustLine then
    -- Can't drop the limit below the balance you are holding with them
    return .CHANGE_TRUST_INVALID_LIMIT
  if limit = 0 then
    -- line gets deleted
    erase (.trustLine sourceID line)
    let sourceAccount ← current (← loadAccountCached sourceID)
    let _ ← updateAccount storeCached (addNumEntries header · (-1)) sourceAccount
    return .CHANGE_TRUST_SUCCESS
  if (← loadAccountWithoutRecord issuerID).isNone then
    return .CHANGE_TRUST_NO_ISSUER
  store (.trustLine { trustLine with limit := limit })
  return .CHANGE_TRUST_SUCCESS

def createLine (header : LedgerHeader) (sourceID issuerID : AccountID) (line : Asset) (limit : ℤ) :
    AppM X ChangeTrustResultCode := do
  if limit = 0 then
    return .CHANGE_TRUST_INVALID_LIMIT
  match ← loadAccountWithoutRecord issuerID with
  | none => return .CHANGE_TRUST_NO_ISSUER
  | some issuer =>
    let sourceAccount ← current (← loadAccountCached sourceID)
    if (← updateAccount storeCached (addNumEntries header · 1) sourceAccount).isNone then
      return .CHANGE_TRUST_LOW_RESERVE
    create (.trustLine {
      accountID := sourceID
      asset := line
      balance := 0
      limit := limit
      flags := if isAuthRequired issuer then 0 else AUTHORIZED_FLAG
      ext := none })
    return .CHANGE_TRUST_SUCCESS

def doApply (sourceID : AccountID) (line : Asset) (limit : ℤ) : AppM X ChangeTrustResultCode := do
  let header ← loadHeader
  let issuerID ← getIssuer line
  if issuerID = sourceID then
    if 2 < header.ledgerVersion then
      -- since version 3 it is not allowed to use CHANGE_TRUST on self
      return .CHANGE_TRUST_SELF_NOT_ALLOWED
    if limit < INT64_MAX then
      return .CHANGE_TRUST_INVALID_LIMIT
    if (← loadAccountWithoutRecord issuerID).isNone then
      return .CHANGE_TRUST_NO_ISSUER
    return .CHANGE_TRUST_SUCCESS
  match ← loadTrustLineEntry sourceID line with
  | some trustLine => modifyLine header sourceID issuerID line limit trustLine
  | none => createLine header sourceID issuerID line limit

def doCheckValid (line : Asset) (limit : ℤ) (ledgerVersion : ℕ) : Option ChangeTrustResultCode :=
  if limit < 0 then some .CHANGE_TRUST_MALFORMED
  else if !isAssetValid line then some .CHANGE_TRUST_MALFORMED
  else if 9 < ledgerVersion ∧ line = .native then some .CHANGE_TRUST_MALFORMED
  else none

end ChangeTrustOpFrame

/-! ## `AllowTrustOpFrame` -/

namespace AllowTrustOpFrame

/-- The asset with the source as its issuer. -/
def assetOf (issuer : AccountID) : AssetCode → Asset
  | .alphaNum4 assetCode => .alphaNum4 assetCode issuer
  | .alphaNum12 assetCode => .alphaNum12 assetCode issuer

/-- The code with which the flags of the source forbid the operation. -/
def checkSourceFlags (sourceID : AccountID) (authorize : Bool) :
    AppM X (Option AllowTrustResultCode) :=
  -- ltxSource will be rolled back
  rolledBack World.restore do
    let sourceAccount ← current (← loadAccountCached sourceID)
    if sourceAccount.flags &&& AUTH_REQUIRED_FLAG = 0 then
      -- this account doesn't require authorization to hold credit
      return some .ALLOW_TRUST_TRUST_NOT_REQUIRED
    if sourceAccount.flags &&& AUTH_REVOCABLE_FLAG = 0 ∧ !authorize then
      return some .ALLOW_TRUST_CANT_REVOKE
    return none

/-- "Delete all offers owned by the trustor that are either buying or selling the asset which had
authorization revoked." -/
def deleteOffers (header : LedgerHeader) (trustor : AccountID) (ci : Asset) :
    List OfferEntry → AppM X Unit
  | [] => return ()
  | offer :: offers => do
    throwIf (offer.sellerID ≠ trustor) (.runtime_error "Offer not owned by expected account")
    throwIf (¬ (offer.buying = ci ∨ offer.selling = ci))
      (.runtime_error "Offer not buying or selling expected asset")
    releaseLiabilities header offer
    removeNumEntry header trustor
    erase (.offer offer.sellerID offer.offerID)
    deleteOffers header trustor ci offers

def doApply (sourceID trustor : AccountID) (asset : AssetCode) (authorize : Bool) :
    AppM X AllowTrustResultCode := do
  let header ← loadHeader
  if 2 < header.ledgerVersion ∧ trustor = sourceID then
    -- since version 3 it is not allowed to use ALLOW_TRUST on self
    return .ALLOW_TRUST_SELF_NOT_ALLOWED
  match ← checkSourceFlags sourceID authorize with
  | some code => return code
  | none =>
    -- Only possible in ledger version 1 and 2
    if trustor = sourceID then
      return .ALLOW_TRUST_SUCCESS
    let ci := assetOf sourceID asset
    match ← loadTrustLineEntry trustor ci with
    | none => return .ALLOW_TRUST_NO_TRUST_LINE
    | some trust =>
      let didRevokeAuth := isAuthorized trust && !authorize
      let ltx ← getLedger
      deleteOffers header trustor ci
        (if 10 ≤ header.ledgerVersion ∧ didRevokeAuth then ltx.getOffersByAccountAndAsset trustor ci
        else [])
      let trustLineEntry ← current (← loadTrustLineEntry trustor ci)
      store (.trustLine (setAuthorized trustLineEntry authorize))
      return .ALLOW_TRUST_SUCCESS

def doCheckValid (sourceID : AccountID) (asset : AssetCode) : Option AllowTrustResultCode :=
  if !isAssetValid (assetOf sourceID asset) then some .ALLOW_TRUST_MALFORMED else none

end AllowTrustOpFrame

/-! ## `SetOptionsOpFrame` -/

namespace SetOptionsOpFrame

def allAccountFlags : ℕ := AUTH_REQUIRED_FLAG ||| AUTH_REVOCABLE_FLAG ||| AUTH_IMMUTABLE_FLAG

def UINT8_MAX : ℕ := 255

/-- The room of `AccountEntry::signers`. -/
def MAX_SIGNERS : ℕ := 20

def getThresholdLevel (op : SetOptionsOp) : ThresholdLevel :=
  if op.masterWeight.isSome || op.lowThreshold.isSome || op.medThreshold.isSome ||
      op.highThreshold.isSome || op.signer.isSome then .HIGH
  else .MEDIUM

/-- An optional field, given to `change` if it is set. -/
def setField {α : Type} (field : Option α) (change : α → AccountEntry → AccountEntry)
    (account : AccountEntry) : AccountEntry :=
  field.elim account (change · account)

/-- Whether the flags may not be touched any more. -/
def cantChange (flags : Option ℕ) (account : AccountEntry) : Bool :=
  flags.any fun f => f &&& allAccountFlags ≠ 0 && isImmutableAuth account

/-- `addNumEntries(header, sourceAccount, -1)` for every signer deleted. -/
def removeEntries (header : LedgerHeader) : ℕ → AccountEntry → Except Exception AccountEntry
  | 0, account => .ok account
  | n + 1, account => do
    let account := (← addNumEntries header account (-1)).getD account
    removeEntries header n account

/-- The signer to add, change or delete. -/
def setSigner (header : LedgerHeader) (signer : Signer) (account : AccountEntry) :
    Except Exception (AccountEntry × SetOptionsResultCode) := do
  let signers := account.signers
  if signer.weight ≠ 0 then -- add or change signer
    if signers.any (·.key = signer.key) then
      let changed := signers.map fun oldSigner =>
        if oldSigner.key = signer.key then { oldSigner with weight := signer.weight } else oldSigner
      return (normalizeSigners { account with signers := changed }, .SET_OPTIONS_SUCCESS)
    if signers.length = MAX_SIGNERS then
      return (account, .SET_OPTIONS_TOO_MANY_SIGNERS)
    match ← addNumEntries header account 1 with
    | none => return (account, .SET_OPTIONS_LOW_RESERVE)
    | some account =>
      return (normalizeSigners { account with signers := signers ++ [signer] }, .SET_OPTIONS_SUCCESS)
  else -- delete signer
    let kept := signers.filter (·.key ≠ signer.key)
    let account ← removeEntries header (signers.length - kept.length) { account with signers := kept }
    return (normalizeSigners account, .SET_OPTIONS_SUCCESS)

/-- The changes to the account, which stay in it where the operation fails. -/
def applyTo (header : LedgerHeader) (op : SetOptionsOp) (inflationExists : Bool)
    (account : AccountEntry) : Except Exception (AccountEntry × SetOptionsResultCode) := do
  if op.inflationDest.isSome ∧ !inflationExists then
    return (account, .SET_OPTIONS_INVALID_INFLATION)
  let account := setField op.inflationDest (fun dest acc => { acc with inflationDest := some dest }) account
  if cantChange op.clearFlags account then
    return (account, .SET_OPTIONS_CANT_CHANGE)
  let account := setField op.clearFlags
    (fun f acc => { acc with flags := acc.flags - (acc.flags &&& f) }) account
  if cantChange op.setFlags account then
    return (account, .SET_OPTIONS_CANT_CHANGE)
  let account := setField op.setFlags (fun f acc => { acc with flags := acc.flags ||| f }) account
  let account := setField op.homeDomain (fun d acc => { acc with homeDomain := d }) account
  let account := setField op.masterWeight (fun w acc => { acc with
    thresholds := { acc.thresholds with masterWeight := Fin.ofNat 256 w } }) account
  let account := setField op.lowThreshold (fun w acc => { acc with
    thresholds := { acc.thresholds with low := Fin.ofNat 256 w } }) account
  let account := setField op.medThreshold (fun w acc => { acc with
    thresholds := { acc.thresholds with medium := Fin.ofNat 256 w } }) account
  let account := setField op.highThreshold (fun w acc => { acc with
    thresholds := { acc.thresholds with high := Fin.ofNat 256 w } }) account
  match op.signer with
  | none => return (account, .SET_OPTIONS_SUCCESS)
  | some signer => setSigner header signer account

def doApply (sourceID : AccountID) (op : SetOptionsOp) : AppM X SetOptionsResultCode := do
  let header ← loadHeader
  let sourceAccount ← current (← loadAccountCached sourceID)
  let ltx ← getLedger
  let inflationExists :=
    op.inflationDest.any fun dest => dest = sourceID || (ltx.account dest).isSome
  let (account, code) ← applyTo header op inflationExists sourceAccount
  storeCached account
  return code

/-- The check of one weight or threshold. -/
def outOfRange (value : Option ℕ) : Bool := value.any (UINT8_MAX < ·)

/-- Whether a set of flags has one that is not known. -/
def unknownFlag (flags : Option ℕ) : Bool := flags.any fun f => f &&& allAccountFlags ≠ f

def badSigner (sourceID : AccountID) (ledgerVersion : ℕ) (signer : Signer) : Bool :=
  let isSelf := signer.key = .ed25519 sourceID
  let isPublicKey := signer.key.type = .SIGNER_KEY_TYPE_ED25519
  isSelf || (!isPublicKey && ledgerVersion < 3) || (UINT8_MAX < signer.weight.val && 9 < ledgerVersion)

def doCheckValid (sourceID : AccountID) (op : SetOptionsOp) (ledgerVersion : ℕ) :
    Option SetOptionsResultCode :=
  if unknownFlag op.setFlags then some .SET_OPTIONS_UNKNOWN_FLAG
  else if unknownFlag op.clearFlags then some .SET_OPTIONS_UNKNOWN_FLAG
  else if op.setFlags.any (fun s => op.clearFlags.any fun c => s &&& c ≠ 0) then
    some .SET_OPTIONS_BAD_FLAGS
  else if outOfRange op.masterWeight || outOfRange op.lowThreshold || outOfRange op.medThreshold ||
      outOfRange op.highThreshold then some .SET_OPTIONS_THRESHOLD_OUT_OF_RANGE
  else if op.signer.any (badSigner sourceID ledgerVersion) then some .SET_OPTIONS_BAD_SIGNER
  else if op.homeDomain.any (fun d => !isString32Valid d) then some .SET_OPTIONS_INVALID_HOME_DOMAIN
  else none

end SetOptionsOpFrame

/-! ## `MarkAccountOpFrame` -/

namespace MarkAccountOpFrame

/-- The node makes a block with the transaction; the account keeps its marker. -/
def doApply (app : Application X Q) (accountMarker : AccountMarker) : AppM X MarkAccountResultCode := do
  onExt (app.generateBlocks accountMarker)
  return .MARK_ACCOUNT_SUCCESS

def doCheckValid (app : Application X Q) (accountMarker : AccountMarker) :
    EStateM Exception X (Option MarkAccountResultCode) := do
  if ← app.SendRawTransactionZagg accountMarker then
    return none
  return some .MARK_ACCOUNT_BAD_MARKER

end MarkAccountOpFrame

end ZaggCore.Transactions
