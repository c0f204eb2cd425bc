import Mathlib
import ZaggCore.Transactions.OfferOperations

/-! # `TransactionFrame`

The model of `transactions/TransactionFrame.cpp`. A result is returned where the source sets it in the
frame; `processFeeSeqNum` resets it to `txSUCCESS` before `apply`. Metadata and the history tables are
left out. -/

namespace ZaggCore.Transactions
set_option autoImplicit false
set_option maxHeartbeats 250000

open Foundations Numeric Signatures

variable {X Q : Type}

/-- `ValidationType`, in the order of the comparisons made with it. -/
inductive ValidationType where
  | kInvalid
  | kInvalidUpdateSeqNum
  | kInvalidPostAuth
  | kFullyValid
  deriving DecidableEq, Repr

/-- `cv >= kInvalidUpdateSeqNum` -/
def ValidationType.updatesSeqNum (cv : ValidationType) : Bool := cv ≠ .kInvalid

/-- `cv >= kInvalidPostAuth` -/
def ValidationType.isPostAuth (cv : ValidationType) : Bool :=
  cv = .kInvalidPostAuth || cv = .kFullyValid

section Source

variable (tx : Transaction)

/-- `getMinFee` -/
def getMinFee (header : LedgerHeader) : ℕ := header.baseFee * max 1 tx.operations.length

/-- "This function does validations that are independent of the account state". -/
def commonValidPreSeqNum : AppM X (Option TransactionResultCode) := do
  if tx.operations.length = 0 then
    return some .txMISSING_OPERATION
  let ltx ← getLedger
  if tx.timeBounds.any (ltx.closeTime < ·.minTime) then
    return some .txTOO_EARLY
  if tx.timeBounds.any (fun tb => tb.maxTime ≠ 0 && tb.maxTime < ltx.closeTime) then
    return some .txTOO_LATE
  if tx.fee < getMinFee tx ltx.header then
    return some .txINSUFFICIENT_FEE
  if (← loadSourceAccount tx.sourceAccount).isNone then
    return some .txNO_ACCOUNT
  return none

def processSeqNum : AppM X Unit := do
  let header ← loadHeader
  if 10 ≤ header.ledgerVersion then
    let sourceAccount ← current (← loadSourceAccount tx.sourceAccount)
    throwIf (tx.seqNum < sourceAccount.seqNum) (.runtime_error "unexpected sequence number")
    storeCached { sourceAccount with seqNum := tx.seqNum }

/-- Whether the sequence number follows `current`, or that of the account if `current` is zero. -/
def followsSeqNum (current : ℤ) (acc : AccountEntry) : Bool :=
  let current := if current = 0 then acc.seqNum else current
  !(current = INT64_MAX || current + 1 ≠ tx.seqNum)

/-- The fee, and the sequence number up to version 9. Returns `feeCharged`. -/
def processFeeSeqNum : AppM X ℤ := do
  modify fun w => { w with mCachedAccount := none }
  let header ← loadHeader
  match ← loadSourceAccount tx.sourceAccount with
  | none => throw (.runtime_error "Unexpected database state")
  | some acc =>
    let fee := if (0 : ℤ) < tx.fee then min acc.balance tx.fee else tx.fee
    -- Note: TransactionUtil addBalance checks that reserve plus liabilities
    -- are respected. In this case, we allow it to fall below that since it
    -- will be caught later in commonValid.
    let charged ← (if (0 : ℤ) < tx.fee then Numeric.addBalance acc.balance (-fee) INT64_MAX
      else return some acc.balance)
    let acc := { acc with balance := charged.getD acc.balance }
    storeHeader { header with
      feePool := if (0 : ℤ) < tx.fee then toInt64 (header.feePool + fee) else header.feePool }
    -- in v10 we update sequence numbers during apply
    if header.ledgerVersion ≤ 9 then
      -- this should not happen as the transaction set is sanitized for
      -- sequence numbers
      throwIf (acc.seqNum + 1 ≠ tx.seqNum) (.runtime_error "Unexpected account state")
      storeCached { acc with seqNum := tx.seqNum }
    else storeCached acc
    return fee

end Source

/-! ## One-time signers -/

/-- `removeAccountSigner`: the account, and whether the signer was there. -/
def removeAccountSigner (header : LedgerHeader) (acc : AccountEntry) (signerKey : SignerKey) :
    Except Exception (AccountEntry × Bool) := do
  if acc.signers.any (·.key = signerKey) then
    match ← addNumEntries header acc (-1) with
    | none => throw (.abort "removed")
    | some acc => return ({ acc with signers := acc.signers.eraseP (·.key = signerKey) }, true)
  return (acc, false)

/-- `std::accumulate` over the keys: after the first signer removed the others are not looked at. -/
def removeFirstSigner (header : LedgerHeader) (acc : AccountEntry) :
    List SignerKey → Except Exception (AccountEntry × Bool)
  | [] => return (acc, false)
  | signerKey :: keys => do
    let (acc, changed) ← removeAccountSigner header acc signerKey
    if changed then
      return (acc, true)
    removeFirstSigner header acc keys

/-- `removeUsedOneTimeSignerKeys` for one account. -/
def removeUsedOneTimeSignerKeysOf (accountID : AccountID) (keys : Finset SignerKey) :
    AppM X Unit := do
  match ← loadAccount accountID with
  | none => return () -- probably account was removed due to merge operation
  | some account =>
    let header ← loadHeader
    let (account, changed) ← removeFirstSigner header account (keys.sort (· ≤ ·))
    if changed then
      storeAccount (normalizeSigners account)

/-- The loop over the `std::map` of used keys, for accounts in ascending order. -/
def removeUsedOneTimeSignerKeys : List AccountID → AppM X Unit
  | [] => return ()
  | accountID :: accounts => do
    let keys := (← get).signatureChecker.mUsedOneTimeSignerKeys accountID
    (if keys ≠ ∅ then removeUsedOneTimeSignerKeysOf accountID keys else return ())
    removeUsedOneTimeSignerKeys accounts

/-- The accounts a transaction can use signers of. -/
def signingAccounts (tx : Transaction) : Finset AccountID :=
  insert tx.sourceAccount (tx.operations.filterMap (·.sourceAccount)).toFinset

/-! ## Validation -/

section

variable [LinearOrder Q] (app : Application X Q)

/-- `mOperations` -/
def operationFrames (tx : Transaction) : List (OperationFrame X) :=
  tx.operations.map (makeHelper app tx.sourceAccount)

/-- The result of an operation that was not looked at. -/
def untouchedResult : OperationResult := .opINNER (.createAccountResult .CREATE_ACCOUNT_SUCCESS)

/-- `markResultFailed`; only the codes of success and failure have results to keep. -/
def markResultFailed (code : TransactionResultCode) (results : List OperationResult) :
    Except Exception TransactionResult :=
  if code = .txSUCCESS ∨ code = .txFAILED then .ok ⟨.txFAILED, results⟩
  else .error (.other "xdr_wrong_union")

def commonValid (tx : Transaction) (current : ℤ) (applying : Bool) :
    AppM X (ValidationType × TransactionResultCode) :=
  rolledBack World.restore do
    match ← commonValidPreSeqNum tx with
    | some code => return (.kInvalid, code)
    | none =>
      let header ← loadHeader
      let sourceAccount ← Transactions.current (← loadSourceAccount tx.sourceAccount)
      -- in older versions, the account's sequence number is updated when taking
      -- fees
      if (10 ≤ header.ledgerVersion || !applying) && !followsSeqNum tx current sourceAccount then
        return (.kInvalid, .txBAD_SEQ)
      if !(← checkSignature app sourceAccount sourceAccount.thresholds.low.val) then
        return (.kInvalidUpdateSeqNum, .txBAD_AUTH)
      -- if we are in applying mode fee was already deduced from signing account
      -- balance, if not, we need to check if after that deduction this account
      -- will still have minimum balance
      let feeToPay : ℕ := if applying && 8 < header.ledgerVersion then 0 else tx.fee
      -- don't let the account go below the reserve after accounting for
      -- liabilities
      if AccountEntry.getAvailableBalance header sourceAccount < feeToPay then
        return (.kInvalidPostAuth, .txINSUFFICIENT_BALANCE)
      return (.kFullyValid, .txSUCCESS)

/-- The loop of `processSignatures`: the results of all operations, and whether all are valid. -/
def checkSignatures : List (OperationFrame X) → AppM X (List OperationResult × Bool)
  | [] => return ([], true)
  | op :: ops => do
    let res ← OperationFrame.checkSignature app op false
    let (results, allOpsValid) ← checkSignatures ops
    return (res.getD untouchedResult :: results, res.isNone && allOpsValid)

/-- The result, and whether the signatures are valid. `code` is the one set before. -/
def processSignatures (tx : Transaction) (code : TransactionResultCode) :
    AppM X (TransactionResult × Bool) := do
  let header ← loadHeader
  if header.ledgerVersion < 10 then
    return (⟨code, []⟩, true)
  let (results, allOpsValid) ←
    rolledBack World.restore (checkSignatures app (operationFrames app tx))
  removeUsedOneTimeSignerKeys ((signingAccounts tx).sort (· ≤ ·))
  if !allOpsValid then
    return (← markResultFailed code results, false)
  if !checkAllSignaturesUsed (← get).signatureChecker then
    return (⟨.txBAD_AUTH_EXTRA, []⟩, false)
  return (⟨code, []⟩, true)

/-- A new signature checker for the transaction. -/
def startChecker (envelope : TransactionEnvelope) : AppM X Unit :=
  modify fun w => { w with
    mCachedAccount := none
    signatureChecker :=
      .new w.ltx.header.ledgerVersion (app.contentsHash envelope.tx) envelope.signatures }

/-- The loop of `checkValid` over the operations: the first code to fail with. -/
def checkOperations : List (OperationFrame X) → AppM X (Option OperationResult)
  | [] => return none
  | op :: ops => do
    match ← OperationFrame.checkValid app op false with
    | some res => return some res
    | none => checkOperations ops

/-- `checkValid`: the code, which is `txSUCCESS` exactly if the function returns `true`. Signatures that
are left unused make no difference. -/
def checkValid (envelope : TransactionEnvelope) (current : ℤ) : AppM X TransactionResultCode := do
  startChecker app envelope
  rolledBack World.restore do
    let (cv, code) ← commonValid app envelope.tx current false
    if cv ≠ .kFullyValid then
      return code
    match ← checkOperations app (operationFrames app envelope.tx) with
    | some _ => return .txFAILED
    | none => return .txSUCCESS

/-! ## Application -/

/-- The loop of `applyOperations`: the results, and whether an error was encountered. -/
def applyEach : List (OperationFrame X) → Bool → AppM X (List OperationResult × Bool)
  | [], errorEncountered => return ([], errorEncountered)
  | op :: ops, errorEncountered => do
    let before ← getLedger
    let res ← committed World.restore (OperationFrame.apply app op)
    let errorEncountered := errorEncountered || !res.succeeded
    let after ← getLedger
    throwIf (!errorEncountered && !app.checkOnOperationApply op.mOperation res before after)
      .InvariantDoesNotHold
    let (results, errorEncountered) ← applyEach ops errorEncountered
    return (res :: results, errorEncountered)

/-- What is left to do after the operations up to version 9; whether all signatures were used. -/
def removeSignersAfterOperations (tx : Transaction) : AppM X Bool := do
  let header ← loadHeader
  if 10 ≤ header.ledgerVersion then
    return true
  if !checkAllSignaturesUsed (← get).signatureChecker then
    return false
  -- if an error occurred, it is responsibility of account's owner
  -- to remove that signer
  removeUsedOneTimeSignerKeys ((signingAccounts tx).sort (· ≤ ·))
  return true

def applyOperations (tx : Transaction) : AppM X TransactionResult :=
  -- shield outer scope of any side effects with LedgerTxn
  committedIf World.restore do
    let (results, errorEncountered) ← applyEach app (operationFrames app tx) false
    if errorEncountered then
      return (⟨.txFAILED, results⟩, false)
    if !(← removeSignersAfterOperations tx) then
      -- this should never happen: malformed transaction should
      -- not be accepted by nodes
      return (⟨.txBAD_AUTH_EXTRA, []⟩, false)
    return (⟨.txSUCCESS, results⟩, true)

/-- The first half of `apply`: "a failure during tx validation means that we'll skip trying to apply
operations but we'll still process the sequence number if needed". -/
def validate (tx : Transaction) : AppM X (TransactionResult × Bool) :=
  committed World.restore do
    let (cv, code) ← commonValid app tx 0 true
    (if cv.updatesSeqNum then processSeqNum tx else return ())
    if cv.isPostAuth then
      let (result, signaturesValid) ← processSignatures app tx code
      return (result, signaturesValid && cv = .kFullyValid)
    return (⟨code, []⟩, false)

def apply (envelope : TransactionEnvelope) : AppM X TransactionResult := do
  startChecker app envelope
  let (result, valid) ← validate app envelope.tx
  if valid then applyOperations app envelope.tx
  else return result

end

end ZaggCore.Transactions
