import Mathlib
import ZaggCore.Xdr.LedgerEntries

/-! # XDR transactions

The transactions, operations and result codes of `Stellar-transaction.x`. A memo and the payload of a
successful result (the offers claimed, the payouts, the balance merged) are read by no modelled function
and are left out. -/

namespace ZaggCore
set_option autoImplicit false

/-- `opaque AccountMarker`, the raw bitcoin transaction of a mark operation. -/
abbrev AccountMarker := List (Fin 256)

structure ManageOfferOp where
  selling : Asset
  buying : Asset
  amount : ℤ
  price : Price
  offerID : ℕ
  deriving DecidableEq, Repr

structure CreatePassiveOfferOp where
  selling : Asset
  buying : Asset
  amount : ℤ
  price : Price
  deriving DecidableEq, Repr

structure PathPaymentOp where
  sendAsset : Asset
  sendMax : ℤ
  destination : AccountID
  destAsset : Asset
  destAmount : ℤ
  path : List Asset
  deriving DecidableEq, Repr

structure SetOptionsOp where
  inflationDest : Option AccountID
  clearFlags : Option ℕ
  setFlags : Option ℕ
  masterWeight : Option ℕ
  lowThreshold : Option ℕ
  medThreshold : Option ℕ
  highThreshold : Option ℕ
  homeDomain : Option String32
  signer : Option Signer
  deriving DecidableEq, Repr

/-- The asset code of an `AllowTrustOp`; "`ASSET_TYPE_NATIVE` is not allowed". -/
inductive AssetCode where
  | alphaNum4 (assetCode : Fin (2 ^ 32))
  | alphaNum12 (assetCode : Fin (2 ^ 96))
  deriving DecidableEq, Repr

/-- The `body` union of an operation. -/
inductive OperationBody where
  | CREATE_ACCOUNT (destination : AccountID) (startingBalance : ℤ)
  | PAYMENT (destination : AccountID) (asset : Asset) (amount : ℤ)
  | PATH_PAYMENT (pathPaymentOp : PathPaymentOp)
  | MANAGE_OFFER (manageOfferOp : ManageOfferOp)
  | CREATE_PASSIVE_OFFER (createPassiveOfferOp : CreatePassiveOfferOp)
  | SET_OPTIONS (setOptionsOp : SetOptionsOp)
  | CHANGE_TRUST (line : Asset) (limit : ℤ)
  | ALLOW_TRUST (trustor : AccountID) (asset : AssetCode) (authorize : Bool)
  | ACCOUNT_MERGE (destination : AccountID)
  | INFLATION
  | MANAGE_DATA (dataName : String64) (dataValue : Option (List (Fin 256)))
  | BUMP_SEQUENCE (bumpTo : ℤ)
  | MARK_ACCOUNT (accountMarker : AccountMarker)
  deriving DecidableEq, Repr

structure Operation where
  sourceAccount : Option AccountID
  body : OperationBody
  deriving DecidableEq, Repr

structure TimeBounds where
  minTime : ℕ
  maxTime : ℕ
  deriving DecidableEq, Repr

structure Transaction where
  sourceAccount : AccountID
  fee : ℕ
  seqNum : ℤ
  timeBounds : Option TimeBounds
  operations : List Operation
  deriving DecidableEq, Repr

structure TransactionEnvelope where
  tx : Transaction
  signatures : List DecoratedSignature
  deriving DecidableEq, Repr

/-! ## Results -/

inductive CreateAccountResultCode where
  | CREATE_ACCOUNT_SUCCESS
  | CREATE_ACCOUNT_MALFORMED
  | CREATE_ACCOUNT_UNDERFUNDED
  | CREATE_ACCOUNT_LOW_RESERVE
  | CREATE_ACCOUNT_ALREADY_EXIST
  deriving DecidableEq, Repr

inductive PaymentResultCode where
  | PAYMENT_SUCCESS
  | PAYMENT_MALFORMED
  | PAYMENT_UNDERFUNDED
  | PAYMENT_SRC_NO_TRUST
  | PAYMENT_SRC_NOT_AUTHORIZED
  | PAYMENT_NO_DESTINATION
  | PAYMENT_NO_TRUST
  | PAYMENT_NOT_AUTHORIZED
  | PAYMENT_LINE_FULL
  | PAYMENT_NO_ISSUER
  deriving DecidableEq, Repr

inductive PathPaymentResultCode where
  | PATH_PAYMENT_SUCCESS
  | PATH_PAYMENT_MALFORMED
  | PATH_PAYMENT_UNDERFUNDED
  | PATH_PAYMENT_SRC_NO_TRUST
  | PATH_PAYMENT_SRC_NOT_AUTHORIZED
  | PATH_PAYMENT_NO_DESTINATION
  | PATH_PAYMENT_NO_TRUST
  | PATH_PAYMENT_NOT_AUTHORIZED
  | PATH_PAYMENT_LINE_FULL
  | PATH_PAYMENT_NO_ISSUER (noIssuer : Asset)
  | PATH_PAYMENT_TOO_FEW_OFFERS
  | PATH_PAYMENT_OFFER_CROSS_SELF
  | PATH_PAYMENT_OVER_SENDMAX
  deriving DecidableEq, Repr

inductive ManageOfferResultCode where
  | MANAGE_OFFER_SUCCESS
  | MANAGE_OFFER_MALFORMED
  | MANAGE_OFFER_SELL_NO_TRUST
  | MANAGE_OFFER_BUY_NO_TRUST
  | MANAGE_OFFER_SELL_NOT_AUTHORIZED
  | MANAGE_OFFER_BUY_NOT_AUTHORIZED
  | MANAGE_OFFER_LINE_FULL
  | MANAGE_OFFER_UNDERFUNDED
  | MANAGE_OFFER_CROSS_SELF
  | MANAGE_OFFER_SELL_NO_ISSUER
  | MANAGE_OFFER_BUY_NO_ISSUER
  | MANAGE_OFFER_NOT_FOUND
  | MANAGE_OFFER_LOW_RESERVE
  deriving DecidableEq, Repr

inductive SetOptionsResultCode where
  | SET_OPTIONS_SUCCESS
  | SET_OPTIONS_LOW_RESERVE
  | SET_OPTIONS_TOO_MANY_SIGNERS
  | SET_OPTIONS_BAD_FLAGS
  | SET_OPTIONS_INVALID_INFLATION
  | SET_OPTIONS_CANT_CHANGE
  | SET_OPTIONS_UNKNOWN_FLAG
  | SET_OPTIONS_THRESHOLD_OUT_OF_RANGE
  | SET_OPTIONS_BAD_SIGNER
  | SET_OPTIONS_INVALID_HOME_DOMAIN
  deriving DecidableEq, Repr

inductive ChangeTrustResultCode where
  | CHANGE_TRUST_SUCCESS
  | CHANGE_TRUST_MALFORMED
  | CHANGE_TRUST_NO_ISSUER
  | CHANGE_TRUST_INVALID_LIMIT
  | CHANGE_TRUST_LOW_RESERVE
  | CHANGE_TRUST_SELF_NOT_ALLOWED
  deriving DecidableEq, Repr

inductive AllowTrustResultCode where
  | ALLOW_TRUST_SUCCESS
  | ALLOW_TRUST_MALFORMED
  | ALLOW_TRUST_NO_TRUST_LINE
  | ALLOW_TRUST_TRUST_NOT_REQUIRED
  | ALLOW_TRUST_CANT_REVOKE
  | ALLOW_TRUST_SELF_NOT_ALLOWED
  deriving DecidableEq, Repr

inductive AccountMergeResultCode where
  | ACCOUNT_MERGE_SUCCESS
  | ACCOUNT_MERGE_MALFORMED
  | ACCOUNT_MERGE_NO_ACCOUNT
  | ACCOUNT_MERGE_IMMUTABLE_SET
  | ACCOUNT_MERGE_HAS_SUB_ENTRIES
  | ACCOUNT_MERGE_SEQNUM_TOO_FAR
  | ACCOUNT_MERGE_DEST_FULL
  deriving DecidableEq, Repr

inductive InflationResultCode where
  | INFLATION_SUCCESS
  | INFLATION_NOT_TIME
  deriving DecidableEq, Repr

inductive ManageDataResultCode where
  | MANAGE_DATA_SUCCESS
  | MANAGE_DATA_NOT_SUPPORTED_YET
  | MANAGE_DATA_NAME_NOT_FOUND
  | MANAGE_DATA_LOW_RESERVE
  | MANAGE_DATA_INVALID_NAME
  deriving DecidableEq, Repr

inductive BumpSequenceResultCode where
  | BUMP_SEQUENCE_SUCCESS
  | BUMP_SEQUENCE_BAD_SEQ
  deriving DecidableEq, Repr

inductive MarkAccountResultCode where
  | MARK_ACCOUNT_SUCCESS
  | MARK_ACCOUNT_FAILED
  | MARK_ACCOUNT_BAD_MARKER
  deriving DecidableEq, Repr

/-- The `tr` union of an operation result. -/
inductive OperationResultTr where
  | createAccountResult (code : CreateAccountResultCode)
  | paymentResult (code : PaymentResultCode)
  | pathPaymentResult (code : PathPaymentResultCode)
  | manageOfferResult (code : ManageOfferResultCode)
  | setOptionsResult (code : SetOptionsResultCode)
  | changeTrustResult (code : ChangeTrustResultCode)
  | allowTrustResult (code : AllowTrustResultCode)
  | accountMergeResult (code : AccountMergeResultCode)
  | inflationResult (code : InflationResultCode)
  | manageDataResult (code : ManageDataResultCode)
  | bumpSeqResult (code : BumpSequenceResultCode)
  | markAccountResult (code : MarkAccountResultCode)
  deriving DecidableEq, Repr

/-- The code of the arm is its `SUCCESS`. -/
def OperationResultTr.succeeded : OperationResultTr → Bool
  | .createAccountResult code => code = .CREATE_ACCOUNT_SUCCESS
  | .paymentResult code => code = .PAYMENT_SUCCESS
  | .pathPaymentResult code => code = .PATH_PAYMENT_SUCCESS
  | .manageOfferResult code => code = .MANAGE_OFFER_SUCCESS
  | .setOptionsResult code => code = .SET_OPTIONS_SUCCESS
  | .changeTrustResult code => code = .CHANGE_TRUST_SUCCESS
  | .allowTrustResult code => code = .ALLOW_TRUST_SUCCESS
  | .accountMergeResult code => code = .ACCOUNT_MERGE_SUCCESS
  | .inflationResult code => code = .INFLATION_SUCCESS
  | .manageDataResult code => code = .MANAGE_DATA_SUCCESS
  | .bumpSeqResult code => code = .BUMP_SEQUENCE_SUCCESS
  | .markAccountResult code => code = .MARK_ACCOUNT_SUCCESS

/-- `union OperationResult`. -/
inductive OperationResult where
  | opINNER (tr : OperationResultTr)
  | opBAD_AUTH
  | opNO_ACCOUNT
  | opNOT_SUPPORTED
  deriving DecidableEq, Repr

/-- What `OperationFrame::apply` returns beside the result. -/
def OperationResult.succeeded : OperationResult → Bool
  | .opINNER tr => tr.succeeded
  | _ => false

inductive TransactionResultCode where
  | txSUCCESS
  | txFAILED
  | txTOO_EARLY
  | txTOO_LATE
  | txMISSING_OPERATION
  | txBAD_SEQ
  | txBAD_AUTH
  | txINSUFFICIENT_BALANCE
  | txNO_ACCOUNT
  | txINSUFFICIENT_FEE
  | txBAD_AUTH_EXTRA
  | txINTERNAL_ERROR
  deriving DecidableEq, Repr

structure TransactionResult where
  code : TransactionResultCode
  results : List OperationResult
  deriving DecidableEq, Repr

end ZaggCore
