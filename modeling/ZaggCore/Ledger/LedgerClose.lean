import ZaggCore.Xdr.Types

/-! # Closing a ledger

`LedgerManagerImpl::closeLedger` as the catchup code sees it: what it checks, and how the header of the
closed ledger follows from the last one. What applying the transactions, the upgrades and the bucket
list put into the header is a parameter of the model, as are the hashes. -/

namespace ZaggCore.Ledger
set_option autoImplicit false
set_option maxHeartbeats 250000

structure StellarValue where
  txSetHash : Hash
  closeTime : ℕ
  deriving DecidableEq, Repr

/-- The fields of `struct LedgerHeader` that chain the ledgers. -/
structure ChainHeader where
  ledgerVersion : ℕ
  previousLedgerHash : Hash
  scpValue : StellarValue
  txSetResultHash : Hash
  bucketListHash : Hash
  ledgerSeq : ℕ
  deriving DecidableEq, Repr

structure LedgerHeaderHistoryEntry where
  hash : Hash
  header : ChainHeader
  deriving DecidableEq, Repr

/-- `TransactionSet`, and the `TxSetFrame` made from it. -/
structure TransactionSet (Tx : Type) where
  previousLedgerHash : Hash
  txs : List Tx

structure LedgerCloseData (Tx : Type) where
  ledgerSeq : ℕ
  txSet : TransactionSet Tx
  value : StellarValue

/-- What the application of a transaction set leaves in the header. -/
structure CloseResult where
  ledgerVersion : ℕ
  txSetResultHash : Hash
  bucketListHash : Hash

/-- The hashes, and the application of a transaction set to the database `Db`. -/
structure Chain (Db Tx : Type) where
  headerHash : ChainHeader → Hash
  contentsHash : TransactionSet Tx → Hash
  applyTxSet : Db → ChainHeader → TransactionSet Tx → Except String (Db × CloseResult)

/-- The database and `mLastClosedLedger`. -/
structure LastClosed (Db : Type) where
  db : Db
  entry : LedgerHeaderHistoryEntry

def CURRENT_LEDGER_PROTOCOL_VERSION : ℕ := 10

/-- `uint32_t` successor. -/
def nextSeq (ledgerSeq : ℕ) : ℕ := (ledgerSeq + 1) % 2 ^ 32

variable {Db Tx : Type} (chain : Chain Db Tx)

/-- `closeLedger`. -/
def closeLedger (lcl : LastClosed Db) (ledgerData : LedgerCloseData Tx) :
    Except String (LastClosed Db) := do
  let header := { lcl.entry.header with
    ledgerSeq := nextSeq lcl.entry.header.ledgerSeq
    previousLedgerHash := lcl.entry.hash }
  if header.ledgerVersion > CURRENT_LEDGER_PROTOCOL_VERSION then
    throw "cannot apply ledger with not supported version"
  if ledgerData.txSet.previousLedgerHash ≠ lcl.entry.hash then
    throw "txset mismatch"
  if chain.contentsHash ledgerData.txSet ≠ ledgerData.value.txSetHash then
    throw "corrupt transaction set"
  let header := { header with scpValue := ledgerData.value }
  let (db, result) ← chain.applyTxSet lcl.db header ledgerData.txSet
  let header := { header with
    ledgerVersion := result.ledgerVersion
    txSetResultHash := result.txSetResultHash
    bucketListHash := result.bucketListHash }
  return ⟨db, ⟨chain.headerHash header, header⟩⟩

variable {chain} {lcl lcl' : LastClosed Db} {ledgerData : LedgerCloseData Tx}

/-- A ledger that closes is the next one, chained to the last one, with the set it was given. -/
theorem closeLedger_spec (h : closeLedger chain lcl ledgerData = .ok lcl') :
    lcl'.entry.header.ledgerSeq = nextSeq lcl.entry.header.ledgerSeq ∧
      lcl'.entry.header.previousLedgerHash = lcl.entry.hash ∧
      lcl'.entry.hash = chain.headerHash lcl'.entry.header ∧
      chain.contentsHash ledgerData.txSet = ledgerData.value.txSetHash := by
  unfold closeLedger at h
  simp only [bind, Except.bind, pure, Except.pure, throw, throwThe, MonadExceptOf.throw] at h
  split at h
  · cases h
  · split at h
    · cases h
    · split at h
      · cases h
      · next hhash =>
        split at h
        · cases h
        · cases h
          exact ⟨rfl, rfl, rfl, not_not.mp hhash⟩

end ZaggCore.Ledger
