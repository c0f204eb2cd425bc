import ZaggCore.Catchup.VerifyLedgerChain

/-! # `ApplyLedgerChainWork`

The model of `catchup/ApplyLedgerChainWork.cpp`: the header files and the transaction files of a range,
read side by side and closed one ledger at a time. What a callback changes before it throws, it keeps. -/

namespace ZaggCore.Catchup
open Foundations Foundations.Checked History Ledger
set_option autoImplicit false
set_option maxHeartbeats 250000

structure TransactionHistoryEntry (Tx : Type) where
  ledgerSeq : ℕ
  txSet : TransactionSet Tx

/-- `TransactionHistoryEntry()`. -/
def emptyHistoryEntry (Tx : Type) : TransactionHistoryEntry Tx := ⟨0, ⟨0, []⟩⟩

structure TransactionFile (Tx : Type) where
  entries : List (TransactionHistoryEntry Tx)
  malformed : Bool

/-- An input stream: what is left to read, and whether the read after it throws. -/
structure Stream (α : Type) where
  rest : List α
  malformed : Bool

structure ApplyLedgerChainWork (freq : ℕ) (Db Tx : Type) where
  chain : Chain Db Tx
  mRange : CheckpointRange freq
  headerFiles : ℕ → Option HeaderFile
  txFiles : ℕ → Option (TransactionFile Tx)

/-- The members of the work, the last closed ledger, and what has been closed. -/
structure ApplyState (Db Tx : Type) where
  mCurrSeq : ℕ
  mHdrIn : Stream LedgerHeaderHistoryEntry
  mTxIn : Stream (TransactionHistoryEntry Tx)
  mTxHistoryEntry : TransactionHistoryEntry Tx
  mLastApplied : LedgerHeaderHistoryEntry
  lcl : LastClosed Db
  closed : List (LedgerCloseData Tx)

/-- `mCurrSeq += getCheckpointFrequency()`. -/
@[irreducible] def nextCheckpoint (freq currSeq : ℕ) : ℕ := (currSeq + freq) % 2 ^ 32

namespace ApplyLedgerChainWork

variable {freq : ℕ} {Db Tx : Type} (w : ApplyLedgerChainWork freq Db Tx)

def onReset (s : ApplyState Db Tx) : ApplyState Db Tx :=
  { s with
    mLastApplied := s.lcl.entry
    mCurrSeq := checkpointContainingLedger freq w.mRange.first
    mHdrIn := ⟨[], false⟩
    mTxIn := ⟨[], false⟩ }

def openCurrentInputFiles (s : ApplyState Db Tx) : Except String (ApplyState Db Tx) :=
  match w.headerFiles s.mCurrSeq, w.txFiles s.mCurrSeq with
  | some headers, some txs => .ok { s with
      mHdrIn := ⟨headers.entries, headers.malformed⟩
      mTxIn := ⟨txs.entries, txs.malformed⟩
      mTxHistoryEntry := emptyHistoryEntry Tx }
  | _, _ => .error "failed to open XDR file"

/-- The loop of `getCurrentTxSet`: the set of ledger `seq`, if it comes next, and the stream after it. -/
def readTxSet (malformed : Bool) (seq : ℕ) : TransactionHistoryEntry Tx → List (TransactionHistoryEntry Tx) →
    Except String (Option (TransactionSet Tx) × TransactionHistoryEntry Tx × List (TransactionHistoryEntry Tx))
  | entry, rest =>
    if entry.ledgerSeq > seq then .ok (none, entry, rest)
    else if entry.ledgerSeq = seq then .ok (some entry.txSet, entry, rest)
    else
      match rest with
      | [] => if malformed then .error "malformed XDR file" else .ok (none, entry, [])
      | next :: rest => readTxSet malformed seq next rest

/-- The transaction set read for the next ledger, or the empty one. -/
def getCurrentTxSet (s : ApplyState Db Tx) : Except String (TransactionSet Tx × ApplyState Db Tx) := do
  let seq := nextSeq s.lcl.entry.header.ledgerSeq
  let (txSet, entry, rest) ← readTxSet s.mTxIn.malformed seq s.mTxHistoryEntry s.mTxIn.rest
  let s := { s with mTxHistoryEntry := entry, mTxIn := ⟨rest, s.mTxIn.malformed⟩ }
  match txSet with
  | some txSet => return (txSet, s)
  | none => return (⟨s.lcl.entry.hash, []⟩, s)

/-- The ledger after the last closed one, from its header. -/
def applyNextLedger (s : ApplyState Db Tx) (hHeader : LedgerHeaderHistoryEntry) :
    ApplyState Db Tx × Except String Bool :=
  if hHeader.header.ledgerSeq ≠ nextSeq s.lcl.entry.header.ledgerSeq then
    (s, .error "replay overshot current ledger")
  else if hHeader.header.previousLedgerHash ≠ s.lcl.entry.hash then
    (s, .error "replay at current ledger disagreed on LCL hash")
  else
    match getCurrentTxSet s with
    | .error what => (s, .error what)
    | .ok (txset, s) =>
      if hHeader.header.scpValue.txSetHash ≠ w.chain.contentsHash txset then
        (s, .error "replay txset hash differs from txset hash in replay ledger")
      else
        let closeData := ⟨hHeader.header.ledgerSeq, txset, hHeader.header.scpValue⟩
        match closeLedger w.chain s.lcl closeData with
        | .error what => (s, .error what)
        | .ok lcl =>
          let s := { s with lcl := lcl, closed := s.closed ++ [closeData] }
          if lcl.entry.hash ≠ hHeader.hash then (s, .error "replay produced mismatched ledger hash")
          else ({ s with mLastApplied := hHeader }, .ok true)

def applyHistoryOfSingleLedger (s : ApplyState Db Tx) : ApplyState Db Tx × Except String Bool :=
  match s.mHdrIn.rest with
  | [] => (s, if s.mHdrIn.malformed then .error "malformed XDR file" else .ok false)
  | hHeader :: rest =>
    let s := { s with mHdrIn := ⟨rest, s.mHdrIn.malformed⟩ }
    let lclHeader := s.lcl.entry
    -- further than one before the last closed ledger
    if nextSeq hHeader.header.ledgerSeq < lclHeader.header.ledgerSeq then (s, .ok true)
    else if nextSeq hHeader.header.ledgerSeq = lclHeader.header.ledgerSeq then
      if hHeader.hash ≠ lclHeader.header.previousLedgerHash then
        (s, .error "replay failed to connect on hash of LCL predecessor")
      else (s, .ok true)
    else if hHeader.header.ledgerSeq = lclHeader.header.ledgerSeq then
      if hHeader.hash ≠ lclHeader.hash then (s, .error "replay at LCL disagreed on hash")
      else (s, .ok true)
    else w.applyNextLedger s hHeader

def onStart (s : ApplyState Db Tx) : Checked (ApplyState Db Tx) :=
  match w.openCurrentInputFiles s with
  | .ok s => .ok s
  | .error what => raise what

def onRun (s : ApplyState Db Tx) : Checked (Work.CompleteResult × ApplyState Db Tx) :=
  match w.applyHistoryOfSingleLedger s with
  | (s, .ok true) => .ok (.WORK_COMPLETE_OK, s)
  | (s, .ok false) =>
    let s := { s with mCurrSeq := nextCheckpoint freq s.mCurrSeq }
    match w.openCurrentInputFiles s with
    | .ok s => .ok (.WORK_COMPLETE_OK, s)
    | .error _ => .ok (.WORK_COMPLETE_FAILURE, s)
  | (s, .error _) => .ok (.WORK_COMPLETE_FAILURE, s)

def onSuccess (s : ApplyState Db Tx) : Checked (Work.State × ApplyState Db Tx) :=
  if s.lcl.entry.header.ledgerSeq = w.mRange.last then .ok (.WORK_SUCCESS, s)
  else .ok (.WORK_RUNNING, s)

def work : Work (ApplyState Db Tx) where
  onReset := w.onReset
  onStart := w.onStart
  onRun := w.onRun
  onSuccess := w.onSuccess
  mMaxRetries := Work.RETRY_A_FEW

end ApplyLedgerChainWork

end ZaggCore.Catchup
