import Mathlib
import ZaggCore.Herder.TxSetFrame
import ZaggCore.Herder.Upgrades
import ZaggCore.Xdr.Marshal

/-! # `HerderSCPDriver`

The model of `validateValue` and `combineCandidates` in `herder/HerderSCPDriver.cpp`, with `isValid` of
`herder/Upgrades.cpp` as they call it. The XDR library is not part of the repository: what it writes it
reads back. -/

namespace ZaggCore.Herder
set_option autoImplicit false
set_option maxHeartbeats 250000

open Foundations Numeric Transactions

/-! ## Values -/

/-- `opaque Value<>`, what SCP agrees on. -/
abbrev Value := List UInt8

/-- `opaque UpgradeType<128>`, an encoded `LedgerUpgrade`. -/
abbrev UpgradeType := List UInt8

structure StellarValue where
  txSetHash : Hash
  closeTime : ℕ
  upgrades : List UpgradeType
  deriving DecidableEq, Repr

/-- What the XDR type has room for. -/
def StellarValue.Fits (sv : StellarValue) : Prop :=
  sv.closeTime < 2 ^ 64 ∧ sv.upgrades.length ≤ 6 ∧ ∀ upgrade ∈ sv.upgrades, upgrade.length ≤ 128

inductive LedgerUpgradeType where
  | LEDGER_UPGRADE_VERSION
  | LEDGER_UPGRADE_BASE_FEE
  | LEDGER_UPGRADE_MAX_TX_SET_SIZE
  | LEDGER_UPGRADE_BASE_RESERVE
  deriving DecidableEq, Repr

namespace LedgerUpgradeType

/-- The number of the discriminant. -/
def toInt : LedgerUpgradeType → ℕ
  | LEDGER_UPGRADE_VERSION => 1
  | LEDGER_UPGRADE_BASE_FEE => 2
  | LEDGER_UPGRADE_MAX_TX_SET_SIZE => 3
  | LEDGER_UPGRADE_BASE_RESERVE => 4

instance : LinearOrder LedgerUpgradeType := LinearOrder.lift' toInt (by
  intro t t' h
  cases t <;> cases t' <;> first | rfl | cases h)

/-- All of them, in ascending order. -/
def all : List LedgerUpgradeType :=
  [LEDGER_UPGRADE_VERSION, LEDGER_UPGRADE_BASE_FEE, LEDGER_UPGRADE_MAX_TX_SET_SIZE,
    LEDGER_UPGRADE_BASE_RESERVE]

theorem pairwise_all : all.Pairwise (· < ·) := by decide

theorem mem_all (t : LedgerUpgradeType) : t ∈ all := by
  cases t <;> decide

end LedgerUpgradeType

end ZaggCore.Herder

namespace ZaggCore.Transactions.LedgerUpgrade
set_option autoImplicit false

open Herder

/-- The discriminant of the union. -/
def type : LedgerUpgrade → LedgerUpgradeType
  | LEDGER_UPGRADE_VERSION _ => .LEDGER_UPGRADE_VERSION
  | LEDGER_UPGRADE_BASE_FEE _ => .LEDGER_UPGRADE_BASE_FEE
  | LEDGER_UPGRADE_MAX_TX_SET_SIZE _ => .LEDGER_UPGRADE_MAX_TX_SET_SIZE
  | LEDGER_UPGRADE_BASE_RESERVE _ => .LEDGER_UPGRADE_BASE_RESERVE

/-- The number in the arm. -/
def value : LedgerUpgrade → ℕ
  | LEDGER_UPGRADE_VERSION newLedgerVersion => newLedgerVersion
  | LEDGER_UPGRADE_BASE_FEE newBaseFee => newBaseFee
  | LEDGER_UPGRADE_MAX_TX_SET_SIZE newMaxTxSetSize => newMaxTxSetSize
  | LEDGER_UPGRADE_BASE_RESERVE newBaseReserve => newBaseReserve

/-- The union with a number in the arm of the type. -/
def ofType : LedgerUpgradeType → ℕ → LedgerUpgrade
  | .LEDGER_UPGRADE_VERSION => LEDGER_UPGRADE_VERSION
  | .LEDGER_UPGRADE_BASE_FEE => LEDGER_UPGRADE_BASE_FEE
  | .LEDGER_UPGRADE_MAX_TX_SET_SIZE => LEDGER_UPGRADE_MAX_TX_SET_SIZE
  | .LEDGER_UPGRADE_BASE_RESERVE => LEDGER_UPGRADE_BASE_RESERVE

@[simp] theorem type_ofType (t : LedgerUpgradeType) (n : ℕ) : (ofType t n).type = t := by
  cases t <;> rfl

@[simp] theorem value_ofType (t : LedgerUpgradeType) (n : ℕ) : (ofType t n).value = n := by
  cases t <;> rfl

@[simp] theorem ofType_type_value (lupgrade : LedgerUpgrade) :
    ofType lupgrade.type lupgrade.value = lupgrade := by
  cases lupgrade <;> rfl

/-- What the XDR type has room for. -/
def Fits (lupgrade : LedgerUpgrade) : Prop := lupgrade.value < 2 ^ 32

end ZaggCore.Transactions.LedgerUpgrade

namespace ZaggCore.Herder
set_option autoImplicit false
set_option maxHeartbeats 250000

open Foundations Numeric Transactions

/-- `xdr_to_opaque` and `xdr_from_opaque` at a type; `xdr_from_opaque` throws where there is no value. -/
structure Codec (α : Type) (Fits : α → Prop) where
  xdr_to_opaque : α → List UInt8
  xdr_from_opaque : List UInt8 → Option α
  from_to : ∀ a, Fits a → xdr_from_opaque ( xdr_to_opaque a) = some a
  fits : ∀ bytes a, xdr_from_opaque bytes = some a → Fits a

/-- The encodings, and the hashes of encodings. -/
structure Xdr where
  value : Codec StellarValue StellarValue.Fits
  upgrade : Codec LedgerUpgrade LedgerUpgrade.Fits
  length_upgrade : ∀ lupgrade, ( upgrade.xdr_to_opaque lupgrade).length = 8
  sha256 : Value → Hash
  sha256TxSet : Hash → List TransactionEnvelope → Hash

/-! ## The format on the wire -/

section Wire

open Marshal

def putStellarValue (sv : StellarValue) : List UInt8 :=
  putUint 32 sv.txSetHash.val ++ (putUint 8 sv.closeTime ++
    (putUint 4 sv.upgrades.length ++ (sv.upgrades.flatMap putOpaque ++ putUint 4 0)))

def readStellarValue (bytes : List UInt8) : Option (StellarValue × List UInt8) := do
  let (txSetHash, bytes) ← readUint 32 bytes
  let (closeTime, bytes) ← readUint 8 bytes
  let (size, bytes) ← readUint 4 bytes
  if 6 < size then none
  else do
    let (upgrades, bytes) ← readMany (readOpaque 128) size bytes
    let (ext, bytes) ← readUint 4 bytes
    if ext ≠ 0 then none
    else some (⟨Fin.ofNat _ txSetHash, closeTime, upgrades⟩, bytes)

theorem readStellarValue_put {sv : StellarValue} (h : sv.Fits) :
    readStellarValue (putStellarValue sv) = some (sv, []) := by
  obtain ⟨hclose, hlen, hall⟩ := h
  have hclose' : sv.closeTime < 256 ^ 8 := hclose.trans_le (by norm_num)
  have hlen' : sv.upgrades.length < 256 ^ 4 := hlen.trans_lt (by norm_num)
  have hhash : sv.txSetHash.val < 256 ^ 32 := sv.txSetHash.isLt.trans_le (by norm_num)
  have hext : readUint 4 (putUint 4 0) = some (0, []) := by decide
  have hmany := readMany_flatMap (fun upgrade hu => readOpaque_putOpaque
    (by norm_num : 128 < 256 ^ 4) (hall upgrade hu)) (putUint 4 0)
  unfold readStellarValue putStellarValue
  simp only [Option.bind_eq_bind]
  rw [readUint_putUint_bind hhash, readUint_putUint_bind hclose', readUint_putUint_bind hlen',
    if_neg (not_lt.mpr hlen), hmany, Option.bind_some, hext, Option.bind_some, if_neg (by simp),
    Fin.ofNat_val_eq_self]

theorem fits_of_readStellarValue {bytes rest : List UInt8} {sv : StellarValue}
    (h : readStellarValue bytes = some (sv, rest)) : sv.Fits := by
  obtain ⟨⟨txSetHash, bytes₁⟩, -, h⟩ := Option.bind_eq_some_iff.mp h
  obtain ⟨⟨closeTime, bytes₂⟩, hclose, h⟩ := Option.bind_eq_some_iff.mp h
  obtain ⟨⟨size, bytes₃⟩, -, h⟩ := Option.bind_eq_some_iff.mp h
  dsimp only at h
  split_ifs at h with hsize
  obtain ⟨⟨upgrades, bytes₄⟩, hmany, h⟩ := Option.bind_eq_some_iff.mp h
  obtain ⟨⟨ext, bytes₅⟩, -, h⟩ := Option.bind_eq_some_iff.mp h
  dsimp only at h
  split_ifs at h
  cases h
  obtain ⟨hlen, hall⟩ := readMany_all (fun _ _ _ hread => length_of_readOpaque hread) hmany
  exact ⟨(readUint_lt hclose).trans_le (by norm_num), hlen.trans_le (not_lt.mp hsize), hall⟩

/-- The codec of a `StellarValue`. -/
def stellarValueCodec : Codec StellarValue StellarValue.Fits where
  xdr_to_opaque := putStellarValue
  xdr_from_opaque := readAll readStellarValue
  from_to _ h := readAll_eq_some.mpr (readStellarValue_put h)
  fits _ _ h := fits_of_readStellarValue (readAll_eq_some.mp h)

def putLedgerUpgrade (lupgrade : LedgerUpgrade) : List UInt8 :=
  putUint 4 lupgrade.type.toInt ++ putUint 4 lupgrade.value

def readLedgerUpgrade (bytes : List UInt8) : Option (LedgerUpgrade × List UInt8) := do
  let (discriminant, bytes) ← readUint 4 bytes
  let (value, bytes) ← readUint 4 bytes
  match LedgerUpgradeType.all.find? (·.toInt = discriminant) with
  | none => none
  | some type => some (.ofType type value, bytes)

theorem readLedgerUpgrade_put {lupgrade : LedgerUpgrade} (h : lupgrade.Fits) :
    readLedgerUpgrade (putLedgerUpgrade lupgrade) = some (lupgrade, []) := by
  have hvalue := readUint_putUint (h.trans_le (by norm_num : 2 ^ 32 ≤ 256 ^ 4)) []
  rw [List.append_nil] at hvalue
  have htype : ∀ t : LedgerUpgradeType, t.toInt < 256 ^ 4 ∧
      LedgerUpgradeType.all.find? (·.toInt = t.toInt) = some t := by
    intro t
    cases t <;> decide
  unfold readLedgerUpgrade putLedgerUpgrade
  simp only [Option.bind_eq_bind]
  rw [readUint_putUint_bind (htype _).1, hvalue, Option.bind_some, (htype _).2]
  simp only [LedgerUpgrade.ofType_type_value]

theorem fits_of_readLedgerUpgrade {bytes rest : List UInt8} {lupgrade : LedgerUpgrade}
    (h : readLedgerUpgrade bytes = some (lupgrade, rest)) : lupgrade.Fits := by
  obtain ⟨⟨discriminant, bytes₁⟩, -, h⟩ := Option.bind_eq_some_iff.mp h
  obtain ⟨⟨value, bytes₂⟩, hvalue, h⟩ := Option.bind_eq_some_iff.mp h
  dsimp only at h
  split at h
  · cases h
  · cases h
    rw [LedgerUpgrade.Fits, LedgerUpgrade.value_ofType]
    exact (readUint_lt hvalue).trans_le (by norm_num)

/-- The codec of a `LedgerUpgrade`. -/
def ledgerUpgradeCodec : Codec LedgerUpgrade LedgerUpgrade.Fits where
  xdr_to_opaque := putLedgerUpgrade
  xdr_from_opaque := readAll readLedgerUpgrade
  from_to _ h := readAll_eq_some.mpr (readLedgerUpgrade_put h)
  fits _ _ h := fits_of_readLedgerUpgrade (readAll_eq_some.mp h)

/-- XDR as `Stellar-ledger.x` has it. -/
def xdrOf (sha256 : Value → Hash) (sha256TxSet : Hash → List TransactionEnvelope → Hash) : Xdr where
  value := stellarValueCodec
  upgrade := ledgerUpgradeCodec
  length_upgrade lupgrade := by
    change (putLedgerUpgrade lupgrade).length = 8
    simp [putLedgerUpgrade]
  sha256 := sha256
  sha256TxSet := sha256TxSet

end Wire

/-- `mTxSetCache` of `PendingEnvelopes`: a set is put under the hash of its contents. -/
structure PendingEnvelopes {X Q : Type} (app : Application X Q) (xdr : Xdr) where
  getTxSet : Hash → Option TxSetFrame
  contentsHash : ∀ {hash txSet}, getTxSet hash = some txSet →
    txSet.getContentsHash app xdr.sha256TxSet = hash

/-! ## The driver -/

/-- The `mParams` of `Upgrades`. -/
structure UpgradeParameters where
  mUpgradeTime : ℕ
  mProtocolVersion : Option ℕ
  mBaseFee : Option ℕ
  mMaxTxSize : Option ℕ
  mBaseReserve : Option ℕ

/-- What of `mTrackingSCP` is looked at: the index and the close time of the value. -/
structure ConsensusData where
  mConsensusIndex : ℕ
  closeTime : ℕ

/-- What the driver looks at beside the ledger: the last closed ledger, the clock, what is tracked, the
transaction sets and the configuration. -/
structure HerderSCPDriver {X Q : Type} (app : Application X Q) (xdr : Xdr) where
  isSynced : Bool
  lclHash : Hash
  lcl : LedgerHeader
  lclCloseTime : ℕ
  timeNow : ℕ
  mTrackingSCP : Option ConsensusData
  mPendingEnvelopes : PendingEnvelopes app xdr
  mParams : UpgradeParameters
  LEDGER_PROTOCOL_VERSION : ℕ

def MAX_TIME_SLIP_SECONDS : ℕ := 60

inductive ValidationLevel where
  | kInvalidValue
  | kFullyValidatedValue
  | kMaybeValidValue
  deriving DecidableEq, Repr

namespace HerderSCPDriver

variable {X Q : Type} {app : Application X Q} {xdr : Xdr} (driver : HerderSCPDriver app xdr)

/-! ## Upgrades -/

def timeForUpgrade (time : ℕ) : Bool := driver.mParams.mUpgradeTime ≤ time

/-- What is asked of an upgrade in nomination only. -/
def isNominated (lupgrade : LedgerUpgrade) : Bool :=
  match lupgrade with
  | .LEDGER_UPGRADE_VERSION newVersion => driver.mParams.mProtocolVersion = some newVersion
  | .LEDGER_UPGRADE_BASE_FEE newFee => driver.mParams.mBaseFee = some newFee
  | .LEDGER_UPGRADE_MAX_TX_SET_SIZE newMax => driver.mParams.mMaxTxSize = some newMax
  | .LEDGER_UPGRADE_BASE_RESERVE newReserve => driver.mParams.mBaseReserve = some newReserve

/-- `Upgrades::isValid`: the type of an upgrade that is valid. -/
def isValid (upgrade : UpgradeType) (nomination : Bool) : Option LedgerUpgradeType :=
  if nomination && !driver.timeForUpgrade driver.lclCloseTime then none
  else
    match xdr.upgrade.xdr_from_opaque upgrade with
    | none => none
    | some lupgrade =>
      if (!nomination || driver.isNominated lupgrade) &&
          Upgrades.isValid driver.LEDGER_PROTOCOL_VERSION driver.lcl lupgrade then some lupgrade.type
      else none

/-- The loop of `validateValue` over the upgrades. There is no last type before the first one. -/
def checkUpgrades (nomination : Bool) : Option LedgerUpgradeType → List UpgradeType → Bool
  | _, [] => true
  | lastUpgradeType, upgrade :: upgrades =>
    match driver.isValid upgrade nomination with
    | none => false
    | some thisUpgradeType =>
      if lastUpgradeType.any (thisUpgradeType ≤ ·) then false
      else checkUpgrades nomination (some thisUpgradeType) upgrades

/-! ## `validateValue` -/

def isSlotCompatibleWithCurrentState (slotIndex : ℕ) : Bool :=
  driver.isSynced && slotIndex = (driver.lcl.ledgerSeq + 1) % 2 ^ 32

def checkCloseTime (lastCloseTime : ℕ) (b : StellarValue) : Bool :=
  if b.closeTime ≤ lastCloseTime then false
  else b.closeTime ≤ (driver.timeNow + MAX_TIME_SLIP_SECONDS) % 2 ^ 64

/-- The branch for a slot that is not compatible with the current state. -/
def validateWithoutState (slotIndex : ℕ) (b : StellarValue) : ValidationLevel :=
  let lastCloseTime := driver.lclCloseTime
  if slotIndex = driver.lcl.ledgerSeq ∧ b.closeTime ≠ lastCloseTime then .kInvalidValue
  else if slotIndex < driver.lcl.ledgerSeq ∧ lastCloseTime ≤ b.closeTime then .kInvalidValue
  else if driver.lcl.ledgerSeq < slotIndex ∧ !driver.checkCloseTime lastCloseTime b then .kInvalidValue
  else
    match driver.mTrackingSCP with
    | none => .kMaybeValidValue
    | some tracking =>
      let nextConsensusLedgerIndex := tracking.mConsensusIndex + 1
      if slotIndex < nextConsensusLedgerIndex then .kMaybeValidValue
      else if nextConsensusLedgerIndex < slotIndex then .kInvalidValue
      else if !driver.checkCloseTime tracking.closeTime b then .kInvalidValue
      else .kMaybeValidValue

variable [LinearOrder Q]

def validateValueHelper (slotIndex : ℕ) (b : StellarValue) : AppM X ValidationLevel := do
  if driver.isSlotCompatibleWithCurrentState slotIndex then
    if driver.checkCloseTime driver.lclCloseTime b then
      match driver.mPendingEnvelopes.getTxSet b.txSetHash with
      | none => return .kInvalidValue
      | some txSet =>
        let ok ← txSet.checkValid app driver.lclHash driver.lcl
        return if ok then .kFullyValidatedValue else .kInvalidValue
    else return .kInvalidValue
  else return driver.validateWithoutState slotIndex b

def validateValue (slotIndex : ℕ) (value : Value) (nomination : Bool) : AppM X ValidationLevel := do
  match xdr.value.xdr_from_opaque value with
  | none => return .kInvalidValue
  | some b =>
    let res ← driver.validateValueHelper slotIndex b
    return if driver.checkUpgrades nomination none b.upgrades then res else .kInvalidValue

/-! ## `combineCandidates` -/

/-- The `std::map` of upgrades. -/
abbrev UpgradeMap := LedgerUpgradeType → Option LedgerUpgrade

/-- The body of the loop over the upgrades of a candidate: the larger number stays. -/
def mergeUpgrade (upgrades : UpgradeMap) (lupgrade : LedgerUpgrade) : UpgradeMap :=
  match upgrades lupgrade.type with
  | none => Function.update upgrades lupgrade.type (some lupgrade)
  | some clUpgrade =>
    Function.update upgrades lupgrade.type
      (some (.ofType lupgrade.type (max clUpgrade.value lupgrade.value)))

def mergeUpgrades (xdr : Xdr) : List UpgradeType → UpgradeMap → Except Exception UpgradeMap
  | [], upgrades => .ok upgrades
  | upgrade :: rest, upgrades =>
    match xdr.upgrade.xdr_from_opaque upgrade with
    | none => .error (.runtime_error "xdr_from_opaque")
    | some lupgrade => mergeUpgrades xdr rest (mergeUpgrade upgrades lupgrade)

/-- The variables of the loop over the candidates. -/
structure Combined where
  closeTime : ℕ
  upgrades : UpgradeMap
  candidatesHash : Hash
  candidateValues : List StellarValue

/-- What a candidate adds, with the upgrades it is merged to. -/
def Combined.add (xdr : Xdr) (combined : Combined) (c : Value) (sv : StellarValue) (upgrades : UpgradeMap) :
    Combined where
  -- max closeTime
  closeTime := if combined.closeTime < sv.closeTime then sv.closeTime else combined.closeTime
  upgrades := upgrades
  candidatesHash := combined.candidatesHash ^^^ xdr.sha256 c
  candidateValues := combined.candidateValues ++ [sv]

/-- The loop over the candidates. -/
def combineValues (xdr : Xdr) : List Value → Combined → Except Exception Combined
  | [], combined => .ok combined
  | c :: candidates, combined =>
    match xdr.value.xdr_from_opaque c with
    | none => .error (.runtime_error "xdr_from_opaque")
    | some sv => do
      let upgrades ← mergeUpgrades xdr sv.upgrades combined.upgrades
      combineValues xdr candidates (Combined.add xdr combined c sv upgrades)

def lessThanXored (l r x : Hash) : Bool := x ^^^ l < x ^^^ r

/-- Whether a transaction set is taken instead of the highest one so far. -/
def isHigher (candidatesHash : Hash) (highest : Option (TxSetFrame × Hash)) (cTxSet : TxSetFrame)
    (txSetHash : Hash) : Bool :=
  match highest with
  | none => true
  | some (highestTxSet, highest) =>
    highestTxSet.mTransactions.length < cTxSet.mTransactions.length ||
      (cTxSet.mTransactions.length = highestTxSet.mTransactions.length &&
        lessThanXored highest txSetHash candidatesHash)

omit [LinearOrder Q] in
/-- "Take the txSet with the highest number of transactions, highest xored hash that we have". -/
def highestTxSet (candidatesHash : Hash) :
    List StellarValue → Option (TxSetFrame × Hash) → Option (TxSetFrame × Hash)
  | [], highest => highest
  | sv :: candidateValues, highest =>
    match driver.mPendingEnvelopes.getTxSet sv.txSetHash with
    | none => highestTxSet candidatesHash candidateValues highest
    | some cTxSet =>
      if cTxSet.mPreviousLedgerHash = driver.lclHash &&
          isHigher candidatesHash highest cTxSet sv.txSetHash then
        highestTxSet candidatesHash candidateValues (some (cTxSet, sv.txSetHash))
      else highestTxSet candidatesHash candidateValues highest

/-- The bounded vector of encoded upgrades, in the order of the map. -/
def emplaceUpgrades (xdr : Xdr) (upgrades : UpgradeMap) : Except Exception (List UpgradeType) := do
  let encoded := (LedgerUpgradeType.all.filterMap upgrades).map xdr.upgrade.xdr_to_opaque
  if encoded.any (128 < ·.length) || 6 < encoded.length then
    throw (.runtime_error "xdr_overflow")
  return encoded

/-- The value, and the trimmed set that is posted to `recvTxSet` if something was removed. -/
def combineCandidates (candidates : Finset Value) : AppM X (Value × Option TxSetFrame) := do
  let combined ← combineValues xdr (candidates.sort (· ≤ ·)) ⟨0, fun _ => none, 0, []⟩
  match driver.highestTxSet combined.candidatesHash combined.candidateValues none with
  | none => throw (.abort "highestTxSet")
  | some (highestTxSet, _) =>
    let upgrades ← emplaceUpgrades xdr combined.upgrades
    -- just to be sure
    let (bestTxSet, removed) ← highestTxSet.trimInvalid app
    let comp := ⟨bestTxSet.getContentsHash app xdr.sha256TxSet, combined.closeTime, upgrades⟩
    return ( xdr.value.xdr_to_opaque comp, if removed = [] then none else some bestTxSet)

end HerderSCPDriver

end ZaggCore.Herder
