import ZaggCore.Catchup.CatchupRange
import ZaggCore.Foundations.Checked
import ZaggCore.Ledger.LedgerClose
import ZaggCore.History.Checkpoints

/-! # The catch-up states of the ledger manager

The model of `valueExternalized`, `historyCaughtup` and `applyBufferedLedgers` in
`ledger/LedgerManagerImpl.cpp`, and of the buffer in `SyncingLedgerChain.cpp`. The posted callbacks and
the catch-up work in progress are part of the state; what the work does to the ledger manager arrives
as events. -/

namespace ZaggCore.Ledger
open Foundations Foundations.Checked History
set_option autoImplicit false
set_option maxHeartbeats 250000

inductive ManagerState where
  | LM_BOOTING_STATE
  | LM_SYNCED_STATE
  | LM_CATCHING_UP_STATE
  deriving DecidableEq, Repr

inductive CatchupState where
  | NONE
  | WAITING_FOR_TRIGGER_LEDGER
  | APPLYING_HISTORY
  | APPLYING_BUFFERED_LEDGERS
  | WAITING_FOR_CLOSING_LEDGER
  deriving DecidableEq, Repr

inductive CloseLedgerIfResult where
  | CLOSED
  | TOO_OLD
  | TOO_NEW
  deriving DecidableEq, Repr

inductive ProgressState where
  | APPLIED_BUCKETS
  | APPLIED_TRANSACTIONS
  | FINISHED
  deriving DecidableEq, Repr

structure LedgerManager (Db Tx : Type) where
  lcl : LastClosed Db
  mState : ManagerState
  mCatchupState : CatchupState
  mSyncingLedgers : List (LedgerCloseData Tx)
  mCatchupTriggerLedger : ℕ
  /-- The ledger that the catch-up work in progress was asked for. -/
  mCatchupWork : Option ℕ
  /-- The callbacks of `applyBufferedLedgers` that have not run yet. -/
  posted : ℕ
  /-- The ledgers closed so far, the latest first: the last closed ledger before, and the number of the
  ledger that was closed. -/
  closed : List (ℕ × ℕ)

namespace LedgerManager

variable {Db Tx : Type} (chain : Chain Db Tx) (freq : ℕ)

def lclSeq (s : LedgerManager Db Tx) : ℕ := s.lcl.entry.header.ledgerSeq

def setState (s : LedgerManager Db Tx) (st : ManagerState) : LedgerManager Db Tx :=
  if st = s.mState then s
  else { s with
    mState := st
    mCatchupState := if st ≠ .LM_CATCHING_UP_STATE then .NONE else s.mCatchupState }

def setCatchupState (s : LedgerManager Db Tx) (st : CatchupState) : LedgerManager Db Tx :=
  setState { s with mCatchupState := st } .LM_CATCHING_UP_STATE

/-- `closeLedger`, on the ledger manager. -/
def close (s : LedgerManager Db Tx) (ledgerData : LedgerCloseData Tx) :
    Checked (LedgerManager Db Tx) :=
  match closeLedger chain s.lcl ledgerData with
  | .error what => raise what
  | .ok lcl => .ok { s with lcl := lcl, closed := (s.lclSeq, ledgerData.ledgerSeq) :: s.closed }

def closeLedgerIf (s : LedgerManager Db Tx) (ledgerData : LedgerCloseData Tx) :
    Checked (LedgerManager Db Tx × CloseLedgerIfResult) :=
  if nextSeq s.lclSeq = ledgerData.ledgerSeq then
    if s.lcl.entry.hash = ledgerData.txSet.previousLedgerHash then do
      let s ← s.close chain ledgerData
      return (s, .CLOSED)
    else raise "Network consensus inconsistency"
  else if ledgerData.ledgerSeq ≤ s.lclSeq then .ok (s, .TOO_OLD)
  else .ok (s, .TOO_NEW)

/-- `SyncingLedgerChain::push`: the results other than `CONTIGUOUS` drop the ledger. -/
def push (mChain : List (LedgerCloseData Tx)) (lcd : LedgerCloseData Tx) : List (LedgerCloseData Tx) :=
  match mChain.getLast? with
  | none => mChain ++ [lcd]
  | some back => if nextSeq back.ledgerSeq = lcd.ledgerSeq then mChain ++ [lcd] else mChain

def addToSyncingLedgers (s : LedgerManager Db Tx) (ledgerData : LedgerCloseData Tx) :
    LedgerManager Db Tx :=
  { s with mSyncingLedgers := push s.mSyncingLedgers ledgerData }

def startCatchup (s : LedgerManager Db Tx) (toLedger : ℕ) (manualCatchup : Bool) :
    Checked (LedgerManager Db Tx) := do
  if toLedger ≠ Catchup.CatchupConfiguration.CURRENT ∧ toLedger ≤ s.lclSeq then
    raise "Target ledger is not newer than LCL"
  let s := s.setCatchupState .APPLYING_HISTORY
  assert (manualCatchup = s.mSyncingLedgers.isEmpty) "manualCatchup == mSyncingLedgers.empty()"
  if s.mCatchupWork.isSome then raise "Catchup already in progress"
  return { s with mCatchupWork := some toLedger }

def startCatchupIf (s : LedgerManager Db Tx) (lastReceivedLedgerSeq : ℕ) :
    Checked (LedgerManager Db Tx) := do
  assert (s.mSyncingLedgers ≠ []) "!mSyncingLedgers.empty()"
  assert (s.mCatchupState ≠ .NONE) "mCatchupState != CatchupState::NONE"
  if s.mCatchupState ≠ .WAITING_FOR_TRIGGER_LEDGER then return s
  if lastReceivedLedgerSeq ≥ s.mCatchupTriggerLedger then
    let s := s.setCatchupState .APPLYING_HISTORY
    -- the ledger just before the first buffered one
    let firstBufferedLedgerSeq := (s.mSyncingLedgers.head?.map (·.ledgerSeq)).getD 0
    s.startCatchup ((firstBufferedLedgerSeq + 2 ^ 32 - 1) % 2 ^ 32) false
  else return s

def initializeCatchup (s : LedgerManager Db Tx) (ledgerData : LedgerCloseData Tx) :
    Checked (LedgerManager Db Tx) := do
  assert (s.mState ≠ .LM_CATCHING_UP_STATE) "mState != LM_CATCHING_UP_STATE"
  assert (s.mCatchupState = .NONE) "mCatchupState == CatchupState::NONE"
  assert (s.mSyncingLedgers = []) "mSyncingLedgers.empty()"
  let s := s.setState .LM_CATCHING_UP_STATE
  let s := { s with
    mCatchupTriggerLedger := nextSeq (nextCheckpointLedger freq ledgerData.ledgerSeq) }
  let s := s.setCatchupState .WAITING_FOR_TRIGGER_LEDGER
  let s := s.addToSyncingLedgers ledgerData
  s.startCatchupIf ledgerData.ledgerSeq

def continueCatchup (s : LedgerManager Db Tx) (ledgerData : LedgerCloseData Tx) :
    Checked (LedgerManager Db Tx) := do
  assert (s.mState = .LM_CATCHING_UP_STATE) "mState == LM_CATCHING_UP_STATE"
  let s := s.addToSyncingLedgers ledgerData
  s.startCatchupIf ledgerData.ledgerSeq

def finalizeCatchup (s : LedgerManager Db Tx) (ledgerData : LedgerCloseData Tx) :
    Checked (LedgerManager Db Tx) := do
  assert (s.mState = .LM_CATCHING_UP_STATE) "mState == LM_CATCHING_UP_STATE"
  assert (s.mCatchupState = .WAITING_FOR_CLOSING_LEDGER)
    "mCatchupState == CatchupState::WAITING_FOR_CLOSING_LEDGER"
  assert (s.mSyncingLedgers = []) "mSyncingLedgers.empty()"
  let (s, result) ← s.closeLedgerIf chain ledgerData
  match result with
  | .CLOSED => return s.setState .LM_SYNCED_STATE
  | .TOO_OLD => return s
  | .TOO_NEW => (s.setState .LM_BOOTING_STATE).initializeCatchup freq ledgerData

def valueExternalized (s : LedgerManager Db Tx) (ledgerData : LedgerCloseData Tx) :
    Checked (LedgerManager Db Tx) :=
  match s.mState with
  | .LM_BOOTING_STATE | .LM_SYNCED_STATE => do
    let (s, result) ← s.closeLedgerIf chain ledgerData
    match result with
    | .CLOSED => return s.setState .LM_SYNCED_STATE
    | .TOO_OLD => return s
    | .TOO_NEW => s.initializeCatchup freq ledgerData
  | .LM_CATCHING_UP_STATE =>
    match s.mCatchupState with
    | .WAITING_FOR_CLOSING_LEDGER => s.finalizeCatchup chain freq ledgerData
    | _ => s.continueCatchup ledgerData

/-- Post the callback. -/
def applyBufferedLedgers (s : LedgerManager Db Tx) : Checked (LedgerManager Db Tx) := do
  assert (s.mCatchupState = .APPLYING_BUFFERED_LEDGERS)
    "mCatchupState == CatchupState::APPLYING_BUFFERED_LEDGERS"
  return { s with posted := s.posted + 1 }

/-- The posted callback. -/
def applyBufferedCallback (s : LedgerManager Db Tx) : Checked (LedgerManager Db Tx) :=
  let s := { s with posted := s.posted - 1 }
  match s.mSyncingLedgers with
  | [] => .ok (s.setCatchupState .WAITING_FOR_CLOSING_LEDGER)
  | lcd :: rest => do
    let s := { s with mSyncingLedgers := rest }
    assert (lcd.ledgerSeq = nextSeq s.lclSeq)
      "lcd.getLedgerSeq() == mLastClosedLedger.header.ledgerSeq + 1"
    let s ← s.close chain lcd
    s.applyBufferedLedgers

/-- `historyCaughtup`; `db` is the database after the buckets were applied. -/
def historyCaughtup (s : LedgerManager Db Tx) (ec : Bool) (progressState : ProgressState) (db : Db)
    (lastClosed : LedgerHeaderHistoryEntry) : Checked (LedgerManager Db Tx) := do
  assert (s.mCatchupState = .APPLYING_HISTORY) "mCatchupState == CatchupState::APPLYING_HISTORY"
  if ec then
    let s := s.setState .LM_BOOTING_STATE
    return { s with mCatchupWork := none, mSyncingLedgers := [] }
  else
    match progressState with
    | .APPLIED_BUCKETS => return { s with lcl := ⟨db, lastClosed⟩ }
    | .APPLIED_TRANSACTIONS =>
      assert (lastClosed.hash = s.lcl.entry.hash) "lastClosed.hash == mLastClosedLedger.hash"
      assert (lastClosed.header = s.lcl.entry.header) "lastClosed.header == mLastClosedLedger.header"
      return s
    | .FINISHED =>
      let s := { s with mCatchupWork := none }
      (s.setCatchupState .APPLYING_BUFFERED_LEDGERS).applyBufferedLedgers

end LedgerManager

end ZaggCore.Ledger
