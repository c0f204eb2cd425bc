import ZaggCore.Foundations.Checked
import ZaggCore.Ledger.LedgerClose
import ZaggCore.History.Checkpoints
import ZaggCore.Work.Work

/-! # `VerifyLedgerChainWork`

The model of `catchup/VerifyLedgerChainWork.cpp`. A downloaded header file is the entries that can be
read from it one after the other, and whether the read after them throws. -/

namespace ZaggCore.Catchup
open Foundations Foundations.Checked History Ledger
set_option autoImplicit false
set_option maxHeartbeats 250000

/-- The contents of a header file; the ledger numbers in it are `uint32_t`. -/
structure HeaderFile where
  entries : List LedgerHeaderHistoryEntry
  malformed : Bool
  seq_lt : ∀ e ∈ entries, e.header.ledgerSeq < 2 ^ 32

inductive VerificationStatus where
  | VERIFY_STATUS_OK
  | VERIFY_STATUS_ERR_BAD_HASH
  | VERIFY_STATUS_ERR_BAD_LEDGER_VERSION
  | VERIFY_STATUS_ERR_OVERSHOT
  | VERIFY_STATUS_ERR_UNDERSHOT
  | VERIFY_STATUS_ERR_MISSING_ENTRIES
  deriving DecidableEq, Repr

abbrev LedgerNumHashPair := ℕ × Option Hash

/-- `uint32_t` predecessor. -/
def prevSeq (ledgerSeq : ℕ) : ℕ := (ledgerSeq + 2 ^ 32 - 1) % 2 ^ 32

/-- `LedgerHeaderHistoryEntry{}`. -/
def emptyEntry : LedgerHeaderHistoryEntry := ⟨0, ⟨0, 0, ⟨0, 0⟩, 0, 0, 0⟩⟩

/-- What the work is made with: the range, the last closed ledger, whose hash must be there, the trusted
hash of the last ledger of the range, and the downloaded files. -/
structure VerifyLedgerChainWork (freq : ℕ) where
  headerHash : ChainHeader → Hash
  mRange : CheckpointRange freq
  mLastClosed : ℕ × Hash
  mTrustedHash : Option Hash
  files : ℕ → Option HeaderFile

/-- `mCurrCheckpoint`, `mVerifiedAhead` and `mVerifiedLedgerRangeStart`. -/
structure VerifyState where
  mCurrCheckpoint : ℕ
  mVerifiedAhead : LedgerNumHashPair
  mVerifiedLedgerRangeStart : LedgerHeaderHistoryEntry

namespace VerifyLedgerChainWork

variable {freq : ℕ} (w : VerifyLedgerChainWork freq)

def firstCheckpoint : ℕ := checkpointContainingLedger freq w.mRange.first

def lastCheckpoint : ℕ := checkpointContainingLedger freq w.mRange.last

def mTrustedEndLedger : LedgerNumHashPair := (w.mRange.last, w.mTrustedHash)

def verifyLedgerHistoryEntry (hhe : LedgerHeaderHistoryEntry) : VerificationStatus :=
  if w.headerHash hhe.header ≠ hhe.hash then .VERIFY_STATUS_ERR_BAD_HASH else .VERIFY_STATUS_OK

def verifyLedgerHistoryLink (prev : Hash) (curr : LedgerHeaderHistoryEntry) : VerificationStatus :=
  match w.verifyLedgerHistoryEntry curr with
  | .VERIFY_STATUS_OK =>
    if prev ≠ curr.header.previousLedgerHash then .VERIFY_STATUS_ERR_BAD_HASH else .VERIFY_STATUS_OK
  | entryResult => entryResult

def verifyLastLedgerInCheckpoint (ledger : LedgerHeaderHistoryEntry) (verifiedAhead : LedgerNumHashPair) :
    Checked VerificationStatus := do
  assert (ledger.header.ledgerSeq = verifiedAhead.1) "ledger.header.ledgerSeq == verifiedAhead.first"
  match verifiedAhead.2 with
  | none => return .VERIFY_STATUS_OK
  | some trustedHash =>
    return if ledger.hash ≠ trustedHash then .VERIFY_STATUS_ERR_BAD_HASH else .VERIFY_STATUS_OK

/-- The comparison with the last closed ledger. -/
def verifyLastClosed (curr : LedgerHeaderHistoryEntry) : VerificationStatus :=
  if curr.header.ledgerSeq = w.mLastClosed.1 then
    if w.headerHash curr.header ≠ w.mLastClosed.2 then .VERIFY_STATUS_ERR_BAD_HASH else .VERIFY_STATUS_OK
  else if curr.header.ledgerSeq = nextSeq w.mLastClosed.1 then
    w.verifyLedgerHistoryLink w.mLastClosed.2 curr
  else .VERIFY_STATUS_OK

/-- The comparison with the entry before; there is none at the beginning of a checkpoint. -/
def verifyPrevious (prev : Option LedgerHeaderHistoryEntry) (curr : LedgerHeaderHistoryEntry) :
    VerificationStatus :=
  match prev with
  | none => w.verifyLedgerHistoryEntry curr
  | some prev =>
    let expectedSeq := nextSeq prev.header.ledgerSeq
    if curr.header.ledgerSeq < expectedSeq then .VERIFY_STATUS_ERR_UNDERSHOT
    else if curr.header.ledgerSeq > expectedSeq then .VERIFY_STATUS_ERR_OVERSHOT
    else w.verifyLedgerHistoryLink prev.hash curr

/-- What the first entry of a checkpoint says of the ledger before it. -/
def aheadOf (e : LedgerHeaderHistoryEntry) : LedgerNumHashPair :=
  (prevSeq e.header.ledgerSeq, some e.header.previousLedgerHash)

/-- The loop over the entries of a file. -/
def verifyEntries (malformed : Bool) : List LedgerHeaderHistoryEntry → Option LedgerHeaderHistoryEntry →
    LedgerHeaderHistoryEntry → LedgerNumHashPair →
    Checked (VerificationStatus × LedgerHeaderHistoryEntry × LedgerNumHashPair)
  | [], _, curr, ahead =>
    if malformed then raise "malformed XDR file" else .ok (.VERIFY_STATUS_OK, curr, ahead)
  | curr :: rest, prev, _, ahead =>
    if curr.header.ledgerVersion > CURRENT_LEDGER_PROTOCOL_VERSION then
      .ok (.VERIFY_STATUS_ERR_BAD_LEDGER_VERSION, curr, ahead)
    else if w.verifyLastClosed curr ≠ .VERIFY_STATUS_OK then .ok (w.verifyLastClosed curr, curr, ahead)
    else if w.verifyPrevious prev curr ≠ .VERIFY_STATUS_OK then .ok (w.verifyPrevious prev curr, curr, ahead)
    else
      let ahead := if prev.isNone then aheadOf curr else ahead
      -- no need to keep verifying if the range is covered
      if curr.header.ledgerSeq = w.mRange.last then .ok (.VERIFY_STATUS_OK, curr, ahead)
      else verifyEntries malformed rest (some curr) curr ahead

def verifyHistoryOfSingleCheckpoint (s : VerifyState) : Checked (VerificationStatus × VerifyState) :=
  match w.files s.mCurrCheckpoint with
  | none => raise "failed to open XDR file"
  | some file => do
    let nextCheckpointFirstLedger := s.mVerifiedAhead
    let (status, curr, ahead) ← w.verifyEntries file.malformed file.entries none emptyEntry s.mVerifiedAhead
    let s := { s with mVerifiedAhead := ahead }
    if status ≠ .VERIFY_STATUS_OK then return (status, s)
    if curr.header.ledgerSeq ≠ s.mCurrCheckpoint ∧ curr.header.ledgerSeq ≠ w.mRange.last then
      return (.VERIFY_STATUS_ERR_MISSING_ENTRIES, s)
    let nextCheckpointFirstLedger ←
      if curr.header.ledgerSeq = w.mRange.last then do
        assert (nextCheckpointFirstLedger.1 = 0) "nextCheckpointFirstLedger.first == 0"
        pure w.mTrustedEndLedger
      else do
        assert (nextCheckpointFirstLedger.2 ≠ none) "nextCheckpointFirstLedger.second"
        assert (nextCheckpointFirstLedger.1 ≠ 0) "nextCheckpointFirstLedger.first != 0"
        pure nextCheckpointFirstLedger
    let verifyTrustedHash ← verifyLastLedgerInCheckpoint curr nextCheckpointFirstLedger
    if verifyTrustedHash ≠ .VERIFY_STATUS_OK then
      assert (nextCheckpointFirstLedger.2 ≠ none) "nextCheckpointFirstLedger.second"
      return (verifyTrustedHash, s)
    if s.mCurrCheckpoint = w.firstCheckpoint then
      return (.VERIFY_STATUS_OK, { s with mVerifiedLedgerRangeStart := curr })
    return (.VERIFY_STATUS_OK, s)

def onReset : VerifyState := ⟨w.lastCheckpoint, (0, none), emptyEntry⟩

def onSuccess (s : VerifyState) : Checked (Work.State × VerifyState) := do
  if s.mCurrCheckpoint < w.firstCheckpoint then
    raise "Verification undershot first ledger in the range."
  let (status, s) ← w.verifyHistoryOfSingleCheckpoint s
  match status with
  | .VERIFY_STATUS_OK =>
    if s.mCurrCheckpoint = w.firstCheckpoint then return (.WORK_SUCCESS, s)
    return (.WORK_RUNNING, { s with mCurrCheckpoint := s.mCurrCheckpoint - freq })
  | _ => return (.WORK_FAILURE_FATAL, s)

/-- The item; `onStart` and `onRun` are those of `Work`. -/
def work : Work VerifyState where
  onReset _ := w.onReset
  onStart s := .ok s
  onRun s := .ok (.WORK_COMPLETE_OK, s)
  onSuccess := w.onSuccess
  mMaxRetries := Work.RETRY_A_FEW

end VerifyLedgerChainWork

end ZaggCore.Catchup
