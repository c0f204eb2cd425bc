import Mathlib
import ZaggCore.Transactions.TransactionUtils

/-! # `OperationFrame`

The model of `transactions/OperationFrame.cpp`, with the parts of `TransactionFrame` that operations
call. The virtual functions of a frame are its fields. `isVersionSupported` is not among them:
`checkValid` sets `opNOT_SUPPORTED` and goes on, and everything after that sets another code. -/

namespace ZaggCore.Transactions
set_option autoImplicit false
set_option maxHeartbeats 250000

open Foundations Numeric Signatures

/-- What the transaction code calls outside of itself. The hashes are those of the XDR of a transaction
on this network and of an envelope, `quotient` is the double a price is compared by,
`queryInflationWinners` is answered by the stack of nested transactions (`Ledger.InflationWinners`), and
the bitcoin node is not part of the repository: it takes a raw transaction, rejects it by throwing a
`UniValue`, or throws something else. -/
structure Application (X Q : Type) where
  crypto : Crypto
  contentsHash : Transaction → Hash
  fullHash : TransactionEnvelope → Hash
  quotient : Price → Q
  queryInflationWinners : AbstractLedgerTxn → ℕ → ℤ → List (AccountID × ℤ)
  checkOnOperationApply :
    Operation → OperationResult → AbstractLedgerTxn → AbstractLedgerTxn → Bool
  SendRawTransactionZagg : AccountMarker → EStateM Exception X Bool
  generateBlocks : AccountMarker → EStateM Exception X Unit

variable {X Q : Type}

/-- A call of the bitcoin node. -/
def onExt {α : Type} (x : EStateM Exception X α) : AppM X α := fun w =>
  match x w.ext with
  | .ok a ext => .ok a { w with ext := ext }
  | .error e ext => .error e { w with ext := ext }

/-! ## The cached source account of old versions -/

/-- `TransactionFrame::loadAccount`: "buggy caching that existed in old versions of the protocol". -/
def loadAccountCached (accountID : AccountID) : AppM X (Option AccountEntry) := do
  let header ← loadHeader
  match (← get).mCachedAccount with
  | some cached =>
    if header.ledgerVersion < 8 ∧ cached.accountID = accountID then
      match ← loadAccount accountID with
      | some _ => storeAccount cached
      | none => create (.account cached)
      return some cached
    else loadAccount accountID
  | none => loadAccount accountID

/-- `TransactionFrame::loadSourceAccount`. -/
def loadSourceAccount (sourceID : AccountID) : AppM X (Option AccountEntry) := do
  let res ← loadAccountCached sourceID
  let header ← loadHeader
  if header.ledgerVersion < 8 then
    modify fun w => { w with mCachedAccount := res }
  return res

/-- An assignment through a handle that `loadAccountCached` gave: up to version 7 the cache points to the
entry behind the handle. -/
def storeCached (acc : AccountEntry) : AppM X Unit := do
  storeAccount acc
  modify fun w =>
    if w.ltx.header.ledgerVersion < 8 ∧ w.mCachedAccount.any (·.accountID = acc.accountID) then
      { w with mCachedAccount := some acc }
    else w

/-! ## Signatures -/

/-- The signers of an account, its master key among them if that has a weight. -/
def signersOfAccount (acc : AccountEntry) : List Signer :=
  let weight := acc.thresholds.masterWeight
  if weight = 0 then acc.signers
  else ⟨.ed25519 acc.accountID, Fin.castLE (by norm_num) weight⟩ :: acc.signers

section

variable (app : Application X Q)

/-- A call of the signature checker that is at work. -/
def callChecker (accountID : AccountID) (signersV : List Signer) (neededWeight : ℤ) : AppM X Bool :=
  fun w =>
    let (res, checker) :=
      Signatures.checkSignature app.crypto w.signatureChecker accountID signersV neededWeight
    .ok res { w with signatureChecker := checker }

/-- `TransactionFrame::checkSignature`. -/
def checkSignature (account : AccountEntry) (neededWeight : ℤ) : AppM X Bool :=
  callChecker app account.accountID (signersOfAccount account) neededWeight

def checkSignatureNoAccount (accountID : AccountID) : AppM X Bool :=
  callChecker app accountID [⟨.ed25519 accountID, 1⟩] 0

end

/-! ## The frame -/

inductive ThresholdLevel where
  | LOW
  | MEDIUM
  | HIGH
  deriving DecidableEq, Repr

def getNeededThreshold (acc : AccountEntry) : ThresholdLevel → ℤ
  | .LOW => acc.thresholds.low.val
  | .MEDIUM => acc.thresholds.medium.val
  | .HIGH => acc.thresholds.high.val

/-- An operation with the virtual functions of its class. `doCheckValid` gives the code it fails
with. -/
structure OperationFrame (X : Type) where
  mOperation : Operation
  sourceID : AccountID
  getThresholdLevel : ThresholdLevel
  doCheckValid : ℕ → EStateM Exception X (Option OperationResultTr)
  doApply : AppM X OperationResultTr

namespace OperationFrame

variable (app : Application X Q) (op : OperationFrame X)

/-- The code it fails with. -/
def checkSignature (forApply : Bool) : AppM X (Option OperationResult) := do
  match ← loadAccountCached op.sourceID with
  | some sourceAccount =>
    let neededThreshold := getNeededThreshold sourceAccount op.getThresholdLevel
    if !(← Transactions.checkSignature app sourceAccount neededThreshold) then
      return some .opBAD_AUTH
    return none
  | none =>
    if forApply || op.mOperation.sourceAccount.isNone then
      return some .opNO_ACCOUNT
    if !(← checkSignatureNoAccount app op.sourceID) then
      return some .opBAD_AUTH
    return none

/-- The part of `checkValid` about the source account. From version 10 on the signatures of a
transaction that is applied have been checked before. -/
def checkSource (forApply : Bool) (ledgerVersion : ℕ) : AppM X (Option OperationResult) :=
  if !forApply || ledgerVersion < 10 then checkSignature app op forApply
  else do
    match ← loadAccountCached op.sourceID with
    | some _ => return none
    | none => return some .opNO_ACCOUNT

/-- Called when determining if the operation should be accepted or flooded, and before it is applied. -/
def checkValid (forApply : Bool) : AppM X (Option OperationResult) :=
  -- ltx is always rolled back so checkValid never modifies the ledger
  rolledBack World.restore do
    let ledgerVersion := (← loadHeader).ledgerVersion
    match ← checkSource app op forApply ledgerVersion with
    | some res => return some res
    | none =>
      let tr ← onExt (op.doCheckValid ledgerVersion)
      return tr.map .opINNER

def apply : AppM X OperationResult := do
  match ← checkValid app op true with
  | some res => return res
  | none => return .opINNER (← op.doApply)

end OperationFrame

end ZaggCore.Transactions
