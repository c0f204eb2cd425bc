import Mathlib
import ZaggCore.Herder.Upgrades
import ZaggCore.Transactions.TransactionFrame

/-! # `LedgerManagerImpl`: closing a ledger

The part of `ledger/LedgerManagerImpl.cpp` that makes the first ledger and closes the next ones. What
decides on the set of transactions and the value of a ledger comes before it; what is stored of a closed
ledger, its hash and its history come after it. -/

namespace ZaggCore.Transactions
set_option autoImplicit false
set_option maxHeartbeats 250000

open Foundations Numeric Signatures

variable {X Q : Type}

/-! ## The first ledger -/

def genesisLedger : LedgerHeader where
  ledgerVersion := 0
  ledgerSeq := 1
  totalCoins := 1000000000000000000
  feePool := 0
  inflationSeq := 0
  idPool := 0
  baseFee := 100
  baseReserve := 100000000
  maxTxSetSize := 100

/-- The account of the key that the network ID is the seed of. -/
def rootAccount (rootID : AccountID) (genesisLedger : LedgerHeader) : AccountEntry where
  accountID := rootID
  balance := genesisLedger.totalCoins
  seqNum := 0
  accountMarker := []
  numSubEntries := 0
  inflationDest := none
  flags := 0
  homeDomain := []
  thresholds := ⟨1, 0, 0, 0⟩
  signers := []
  ext := none

/-- A ledger of no entries. -/
def emptyLedger (header : LedgerHeader) : AbstractLedgerTxn where
  header := header
  closeTime := 0
  entries := ∅
  keyed k e h := by simp at h

/-- With `USE_CONFIG_FOR_GENESIS` the version, the fee, the reserve and the size of sets in the header
come from the configuration. -/
def startNewLedger (rootID : AccountID) (genesisLedger : LedgerHeader) : AbstractLedgerTxn :=
  (emptyLedger genesisLedger).put (.account (rootAccount rootID genesisLedger))

/-- The state of a node that starts with this ledger. -/
def World.start (ltx : AbstractLedgerTxn) (ext : X) : World X where
  ltx := ltx
  lastModifiedLedgerSeq := fun _ => ltx.header.ledgerSeq
  mCachedAccount := none
  signatureChecker := .new ltx.header.ledgerVersion 0 []
  ext := ext

/-! ## Closing a ledger -/

section

variable [LinearOrder Q] (app : Application X Q)

/-- One pass of the loop of `processFeesSeqNums` for every transaction. -/
def chargeEach : List TransactionEnvelope → AppM X Unit
  | [] => return ()
  | envelope :: txs => do
    let _ ← committed World.restore (processFeeSeqNum envelope.tx)
    chargeEach txs

def processFeesSeqNums (txs : List TransactionEnvelope) : AppM X Unit :=
  committed World.restore (chargeEach txs)

/-- One pass of the loop of `applyTransactions`: an exception other than that of an invariant becomes
the result. -/
def applyTransaction (envelope : TransactionEnvelope) : AppM X TransactionResult := fun w =>
  match apply app envelope w with
  | .ok result w => .ok result w
  | .error .InvariantDoesNotHold w => .error .InvariantDoesNotHold w
  | .error (.abort condition) w => .error (.abort condition) w
  | .error _ w => .ok ⟨.txINTERNAL_ERROR, []⟩ w

def applyTransactions : List TransactionEnvelope → AppM X (List TransactionResult)
  | [] => return []
  | envelope :: txs => do
    let result ← applyTransaction app envelope
    let results ← applyTransactions txs
    return result :: results

/-- The loop over the upgrades of a value: one that throws leaves the ledger as it was. -/
def applyUpgrades : List LedgerUpgrade → AppM X Unit
  | [] => return ()
  | upgrade :: upgrades => do
    applyUpgrade upgrade
    applyUpgrades upgrades
where
  applyUpgrade (upgrade : LedgerUpgrade) : AppM X Unit := fun w =>
    match committed World.restore (Upgrades.applyTo upgrade) w with
    | .ok _ w => .ok () w
    | .error (.abort condition) w => .error (.abort condition) w
    | .error _ w => .ok () w

def CURRENT_LEDGER_PROTOCOL_VERSION : ℕ := 10

/-- `closeLedger` on the transactions in the order of `sortForApply`. -/
def closeLedger (closeTime : ℕ) (txs : List TransactionEnvelope) (upgrades : List LedgerUpgrade) :
    AppM X (List TransactionResult) := do
  let ltx ← getLedger
  throwIf (CURRENT_LEDGER_PROTOCOL_VERSION < ltx.header.ledgerVersion)
    (.runtime_error "cannot apply ledger with not supported version")
  modify fun w => w.setLtx
    { ltx with
      header := { ltx.header with ledgerSeq := (ltx.header.ledgerSeq + 1) % 2 ^ 32 }
      closeTime := closeTime }
  processFeesSeqNums txs
  let results ← applyTransactions app txs
  applyUpgrades upgrades
  return results

end

/-- An application whose node takes everything, with no inflation and where every signature is good. -/
def standalone : Application Unit ℕ where
  crypto := { sha256 := fun _ => 0, verifySig := fun _ _ _ => true }
  contentsHash := fun _ => 0
  fullHash := fun _ => 0
  quotient := fun p => p.n.toNat / p.d.toNat
  queryInflationWinners := fun _ _ _ => []
  checkOnOperationApply := fun _ _ _ _ => true
  SendRawTransactionZagg := fun _ => pure true
  generateBlocks := fun _ => pure ()

/-- The raw transactions in the mempool of a node, and those that it has mined. -/
abbrev Mempool := Finset AccountMarker × Finset AccountMarker

/-- The mempool of a node where a raw transaction spends the coin that its first byte names: what has been
mined and what spends a coin again is refused, and what is there already is taken once more. -/
def Mempool.send (marker : AccountMarker) : EStateM Exception Mempool Bool := fun x =>
  if marker ∈ x.2 then .ok false x
  else if marker ∈ x.1 then .ok true x
  else if ∃ other ∈ x.1, other.head? = marker.head? then .ok false x
  else .ok true (insert marker x.1, x.2)

/-- The application with that node. -/
def withMempool : Application Mempool ℕ where
  crypto := standalone.crypto
  contentsHash := standalone.contentsHash
  fullHash := standalone.fullHash
  quotient := standalone.quotient
  queryInflationWinners := standalone.queryInflationWinners
  checkOnOperationApply := standalone.checkOnOperationApply
  SendRawTransactionZagg := Mempool.send
  generateBlocks := fun marker x => .ok () (x.1, insert marker x.2)

/-- The node of `standalone` right after genesis, for the protocol in force. -/
def standaloneWorld : World Unit :=
  .start (startNewLedger 7
    { genesisLedger with ledgerVersion := CURRENT_LEDGER_PROTOCOL_VERSION }) ()

end ZaggCore.Transactions
