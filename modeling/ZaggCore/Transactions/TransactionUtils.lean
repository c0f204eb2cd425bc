import Mathlib
import ZaggCore.Util.Numeric
import ZaggCore.Xdr.Transactions
import ZaggCore.Foundations.Nested
import ZaggCore.Transactions.AbstractLedgerTxn
import ZaggCore.Transactions.SignatureChecker

/-! # Loading and changing entries

The model of `transactions/TransactionUtils.cpp` and `ledger/TrustLineWrapper.cpp`. Transaction code
runs on a `World`: the ledger it works on and what lives outside of every `LedgerTxn`. An entry that is
loaded for an update counts as modified in this ledger; a handle is the entry's value, and assigning
through it is `store`. -/

namespace ZaggCore.Transactions
set_option autoImplicit false
set_option maxHeartbeats 250000

open Foundations Numeric Signatures

/-! ## The state transaction code runs on -/

/-- `mCachedAccount` belongs to the transaction that is being processed and `signatureChecker` to the
call that processes it; `ext` is the state of the bitcoin node. -/
structure World (X : Type) where
  ltx : AbstractLedgerTxn
  lastModifiedLedgerSeq : LedgerKey → ℕ
  mCachedAccount : Option AccountEntry
  signatureChecker : SignatureChecker
  ext : X

abbrev AppM (X : Type) := EStateM Exception (World X)

variable {X : Type}

namespace World

/-- What a rolled back `LedgerTxn` brings back. -/
def restore (old new : World X) : World X :=
  { new with ltx := old.ltx, lastModifiedLedgerSeq := old.lastModifiedLedgerSeq }

/-- The entry of the key was recorded in this ledger. -/
def touch (w : World X) (key : LedgerKey) : World X :=
  { w with lastModifiedLedgerSeq :=
      Function.update w.lastModifiedLedgerSeq key w.ltx.header.ledgerSeq }

def setLtx (w : World X) (ltx : AbstractLedgerTxn) : World X := { w with ltx := ltx }

@[simp] theorem ltx_restore (old new : World X) : (old.restore new).ltx = old.ltx := rfl

@[simp] theorem ltx_touch (w : World X) (key : LedgerKey) : (w.touch key).ltx = w.ltx := rfl

@[simp] theorem ltx_setLtx (w : World X) (ltx : AbstractLedgerTxn) : (w.setLtx ltx).ltx = ltx := rfl

end World

/-! ## Ledger access -/

def getLedger : AppM X AbstractLedgerTxn := fun w => .ok w.ltx w

def loadHeader : AppM X LedgerHeader := fun w => .ok w.ltx.header w

/-- An assignment through the handle of the header. -/
def storeHeader (header : LedgerHeader) : AppM X Unit := fun w =>
  .ok () (w.setLtx { w.ltx with header := header })

/-- An assignment through the handle of an entry. -/
def store (e : LedgerEntryData) : AppM X Unit := fun w =>
  .ok () ((w.setLtx (w.ltx.put e)).touch e.key)

def create (e : LedgerEntryData) : AppM X Unit := fun w =>
  match w.ltx.getNewestVersion e.key with
  | some _ => .error (.runtime_error "Key already exists") w
  | none => .ok () ((w.setLtx (w.ltx.put e)).touch e.key)

def erase (key : LedgerKey) : AppM X Unit := fun w =>
  match w.ltx.getNewestVersion key with
  | some _ => .ok () (w.setLtx (w.ltx.erase key))
  | none => .error (.runtime_error "Key does not exist") w

/-- `load`: the entry, if there is one, is recorded. -/
def World.load (w : World X) (key : LedgerKey) : World X :=
  if (w.ltx.getNewestVersion key).isSome then w.touch key else w

@[simp] theorem World.ltx_load (w : World X) (key : LedgerKey) : (w.load key).ltx = w.ltx := by
  unfold World.load
  split <;> rfl

def loadAccount (accountID : AccountID) : AppM X (Option AccountEntry) := fun w =>
  .ok (w.ltx.account accountID) (w.load (.account accountID))

def loadAccountWithoutRecord (accountID : AccountID) : AppM X (Option AccountEntry) := fun w =>
  .ok (w.ltx.account accountID) w

def loadData (accountID : AccountID) (dataName : String64) : AppM X (Option DataEntry) := fun w =>
  .ok (w.ltx.data accountID dataName) (w.load (.data accountID dataName))

def loadOffer (sellerID : AccountID) (offerID : ℕ) : AppM X (Option OfferEntry) := fun w =>
  .ok (w.ltx.offer sellerID offerID) (w.load (.offer sellerID offerID))

/-- `ltx.load` with the key of a trust line. -/
def loadTrustLineEntry (accountID : AccountID) (asset : Asset) : AppM X (Option TrustLineEntry) :=
  fun w => .ok (w.ltx.trustLine accountID asset) (w.load (.trustLine accountID asset))

/-- `current` of a handle that may be empty. -/
def current {α : Type} (entry : Option α) : AppM X α :=
  match entry with
  | some a => return a
  | none => throw (.runtime_error "LedgerTxnEntry not active")

/-! ## Assets -/

/-- `getIssuer`; the union of a native asset has no issuer to read. -/
def getIssuer : Asset → Except Exception AccountID
  | .native => .error (.other "xdr_wrong_union")
  | .alphaNum4 _ issuer => .ok issuer
  | .alphaNum12 _ issuer => .ok issuer

def isalnum (b : ℕ) : Bool :=
  (48 ≤ b && b ≤ 57) || (65 ≤ b && b ≤ 90) || (97 ≤ b && b ≤ 122)

/-- The bytes of an asset code, first one first. -/
def codeBytes (size code : ℕ) : List ℕ :=
  (List.range size).map fun i => code / 256 ^ (size - 1 - i) % 256

/-- The loop of `isAssetValid`: the number of characters of a code whose zeros are all trailing. -/
def codeLength : List ℕ → Bool → ℕ → Option ℕ
  | [], _, count => some count
  | b :: bytes, zeros, count =>
    if b = 0 then codeLength bytes true count
    else if zeros then none
    else if 0x7F < b || !isalnum b then none
    else codeLength bytes zeros (count + 1)

def isAssetValid : Asset → Bool
  | .native => true
  | .alphaNum4 code _ => (codeLength (codeBytes 4 code.val) false 0).any (0 < ·)
  | .alphaNum12 code _ => (codeLength (codeBytes 12 code.val) false 0).any (4 < ·)

/-- `isString32Valid`: no byte is negative as a `char` or a control character. -/
def isString32Valid (str : List (Fin 256)) : Bool :=
  str.all fun c => !(128 ≤ c.val || c.val < 32 || c.val = 127)

/-! ## Flags -/

def AUTH_REQUIRED_FLAG : ℕ := 1

def AUTH_REVOCABLE_FLAG : ℕ := 2

def AUTH_IMMUTABLE_FLAG : ℕ := 4

def AUTHORIZED_FLAG : ℕ := 1

def PASSIVE_FLAG : ℕ := 1

def isAuthRequired (acc : AccountEntry) : Bool := acc.flags &&& AUTH_REQUIRED_FLAG ≠ 0

def isImmutableAuth (acc : AccountEntry) : Bool := acc.flags &&& AUTH_IMMUTABLE_FLAG ≠ 0

def isAuthorized (tl : TrustLineEntry) : Bool := tl.flags &&& AUTHORIZED_FLAG ≠ 0

/-- Clearing is `flags & ~AUTHORIZED_FLAG`. -/
def setAuthorized (tl : TrustLineEntry) (authorized : Bool) : TrustLineEntry :=
  { tl with flags :=
      if authorized then tl.flags ||| AUTHORIZED_FLAG
      else tl.flags - (tl.flags &&& AUTHORIZED_FLAG) }

/-! ## Reserves and liabilities -/

/-- `2 + ownerCount` wraps as a `uint32_t`, up to version 8 the product as well. -/
def getMinBalance (header : LedgerHeader) (ownerCount : ℕ) : ℤ :=
  let count := (2 + ownerCount) % 2 ^ 32
  if header.ledgerVersion ≤ 8 then ((count * header.baseReserve % 2 ^ 32 : ℕ) : ℤ)
  else (count * header.baseReserve : ℕ)

theorem getMinBalance_nonneg (header : LedgerHeader) (n : ℕ) : 0 ≤ getMinBalance header n := by
  unfold getMinBalance
  dsimp only
  split_ifs <;> exact Int.natCast_nonneg _

/-- The liabilities of an `ext` union; those of version 0 are zero. -/
def liabilitiesOf (ext : Option Liabilities) : Liabilities := ext.getD ⟨0, 0⟩

/-- `getBuyingLiabilities` and `getSellingLiabilities` are not called before version 10 but here. -/
def checkLiabilitiesVersion (header : LedgerHeader) : Except Exception Unit :=
  if header.ledgerVersion < 10 then
    .error (.runtime_error "Liabilities accessed before version 10")
  else .ok ()

def AccountEntry.getAvailableBalance (header : LedgerHeader) (acc : AccountEntry) : ℤ :=
  let avail := acc.balance - getMinBalance header acc.numSubEntries
  if 10 ≤ header.ledgerVersion then avail - (liabilitiesOf acc.ext).selling else avail

def TrustLineEntry.getAvailableBalance (header : LedgerHeader) (tl : TrustLineEntry) : ℤ :=
  if 10 ≤ header.ledgerVersion then tl.balance - (liabilitiesOf tl.ext).selling else tl.balance

def AccountEntry.getMaxAmountReceive (header : LedgerHeader) (acc : AccountEntry) : ℤ :=
  if 10 ≤ header.ledgerVersion then INT64_MAX - (acc.balance + (liabilitiesOf acc.ext).buying)
  else INT64_MAX

def TrustLineEntry.getMaxAmountReceive (header : LedgerHeader) (tl : TrustLineEntry) : ℤ :=
  if isAuthorized tl then
    let amount := tl.limit - tl.balance
    if 10 ≤ header.ledgerVersion then amount - (liabilitiesOf tl.ext).buying else amount
  else 0

def getMinimumLimit (header : LedgerHeader) (tl : TrustLineEntry) : ℤ :=
  if 10 ≤ header.ledgerVersion then tl.balance + (liabilitiesOf tl.ext).buying else tl.balance

/-! ## Changing an entry

Each of these gives the changed entry, or no value where the call returns `false`. -/

def AccountEntry.addBalance (header : LedgerHeader) (acc : AccountEntry) (delta : ℤ) :
    Except Exception (Option AccountEntry) := do
  if delta = 0 then
    return some acc
  match ← Numeric.addBalance acc.balance delta INT64_MAX with
  | none => return none
  | some newBalance =>
    let minBalance := getMinBalance header acc.numSubEntries
    if 10 ≤ header.ledgerVersion ∧ delta < 0 ∧
        newBalance - minBalance < (liabilitiesOf acc.ext).selling then
      return none
    if 10 ≤ header.ledgerVersion ∧ INT64_MAX - (liabilitiesOf acc.ext).buying < newBalance then
      return none
    return some { acc with balance := newBalance }

def TrustLineEntry.addBalance (header : LedgerHeader) (tl : TrustLineEntry) (delta : ℤ) :
    Except Exception (Option TrustLineEntry) := do
  if delta = 0 then
    return some tl
  if !isAuthorized tl then
    return none
  match ← Numeric.addBalance tl.balance delta tl.limit with
  | none => return none
  | some newBalance =>
    if 10 ≤ header.ledgerVersion ∧ newBalance < (liabilitiesOf tl.ext).selling then
      return none
    if 10 ≤ header.ledgerVersion ∧ tl.limit - (liabilitiesOf tl.ext).buying < newBalance then
      return none
    return some { tl with balance := newBalance }

def AccountEntry.addBuyingLiabilities (header : LedgerHeader) (acc : AccountEntry) (delta : ℤ) :
    Except Exception (Option AccountEntry) := do
  checkLiabilitiesVersion header
  if delta = 0 then
    return some acc
  let liabilities := liabilitiesOf acc.ext
  let buyingLiab ← Numeric.addBalance liabilities.buying delta (INT64_MAX - acc.balance)
  return buyingLiab.map fun b => { acc with ext := some { liabilities with buying := b } }

def TrustLineEntry.addBuyingLiabilities (header : LedgerHeader) (tl : TrustLineEntry) (delta : ℤ) :
    Except Exception (Option TrustLineEntry) := do
  checkLiabilitiesVersion header
  if delta = 0 then
    return some tl
  if !isAuthorized tl then
    return none
  let liabilities := liabilitiesOf tl.ext
  let buyingLiab ← Numeric.addBalance liabilities.buying delta (tl.limit - tl.balance)
  return buyingLiab.map fun b => { tl with ext := some { liabilities with buying := b } }

def AccountEntry.addSellingLiabilities (header : LedgerHeader) (acc : AccountEntry) (delta : ℤ) :
    Except Exception (Option AccountEntry) := do
  checkLiabilitiesVersion header
  if delta = 0 then
    return some acc
  let maxLiabilities := acc.balance - getMinBalance header acc.numSubEntries
  if maxLiabilities < 0 then
    return none
  let liabilities := liabilitiesOf acc.ext
  let sellingLiab ← Numeric.addBalance liabilities.selling delta maxLiabilities
  return sellingLiab.map fun s => { acc with ext := some { liabilities with selling := s } }

def TrustLineEntry.addSellingLiabilities (header : LedgerHeader) (tl : TrustLineEntry) (delta : ℤ) :
    Except Exception (Option TrustLineEntry) := do
  checkLiabilitiesVersion header
  if delta = 0 then
    return some tl
  if !isAuthorized tl then
    return none
  let liabilities := liabilitiesOf tl.ext
  let sellingLiab ← Numeric.addBalance liabilities.selling delta tl.balance
  return sellingLiab.map fun s => { tl with ext := some { liabilities with selling := s } }

/-- `addNumEntries`; the new count is an `int`. -/
def addNumEntries (header : LedgerHeader) (acc : AccountEntry) (count : ℤ) :
    Except Exception (Option AccountEntry) := do
  let newEntriesCount := toInt32 (acc.numSubEntries + count)
  throwIf (newEntriesCount < 0) (.runtime_error "invalid account state")
  let minBalance := getMinBalance header newEntriesCount.toNat
  let effMinBalance :=
    if 10 ≤ header.ledgerVersion then minBalance + (liabilitiesOf acc.ext).selling else minBalance
  -- only check minBalance when attempting to add subEntries
  if 0 < count ∧ acc.balance < effMinBalance then
    return none
  return some { acc with numSubEntries := newEntriesCount.toNat }

def getStartingSequenceNumber (header : LedgerHeader) : ℕ := header.ledgerSeq * 2 ^ 32 % 2 ^ 64

/-- The fields a signer key is compared by. -/
def signerKeyFields : SignerKey → ℕ ×ₗ ℕ
  | .ed25519 k => toLex (0, k.val)
  | .preAuthTx h => toLex (1, h.val)
  | .hashX h => toLex (2, h.val)

theorem signerKeyFields_injective : Function.Injective signerKeyFields := by
  intro a b h
  cases a <;> cases b <;>
    simp only [signerKeyFields, toLex_inj, Prod.mk.injEq, Fin.val_inj] at h <;> grind

instance : LinearOrder SignerKey := LinearOrder.lift' signerKeyFields signerKeyFields_injective

def normalizeSigners (acc : AccountEntry) : AccountEntry :=
  { acc with signers := acc.signers.mergeSort fun s1 s2 => s1.key ≤ s2.key }

/-- `generateID` -/
def generateID : AppM X ℕ := do
  let header ← loadHeader
  let idPool := (header.idPool + 1) % 2 ^ 64
  storeHeader { header with idPool := idPool }
  return idPool

/-! ## Trust lines -/

/-- `TrustLineWrapper`: an issuer can hold any amount of its own asset. -/
inductive TrustLineWrapper where
  | NonIssuerImpl (tl : TrustLineEntry)
  | IssuerImpl (accountID : AccountID) (asset : Asset)
  deriving DecidableEq, Repr

namespace TrustLineWrapper

def getBalance : TrustLineWrapper → ℤ
  | .NonIssuerImpl tl => tl.balance
  | .IssuerImpl _ _ => INT64_MAX

def isAuthorized : TrustLineWrapper → Bool
  | .NonIssuerImpl tl => Transactions.isAuthorized tl
  | .IssuerImpl _ _ => true

def getAvailableBalance (header : LedgerHeader) : TrustLineWrapper → ℤ
  | .NonIssuerImpl tl => TrustLineEntry.getAvailableBalance header tl
  | .IssuerImpl _ _ => INT64_MAX

def getMaxAmountReceive (header : LedgerHeader) : TrustLineWrapper → ℤ
  | .NonIssuerImpl tl => TrustLineEntry.getMaxAmountReceive header tl
  | .IssuerImpl _ _ => INT64_MAX

/-- `getBuyingLiabilities`, which from version 10 on does not throw. -/
def getBuyingLiabilities : TrustLineWrapper → ℤ
  | .NonIssuerImpl tl => (liabilitiesOf tl.ext).buying
  | .IssuerImpl _ _ => 0

def getSellingLiabilities : TrustLineWrapper → ℤ
  | .NonIssuerImpl tl => (liabilitiesOf tl.ext).selling
  | .IssuerImpl _ _ => 0

/-- One of the calls that change the line, `change` for the entry of a line that is not the issuer's. The
changed line is stored; no value stands for `false`. -/
def update (change : TrustLineEntry → Except Exception (Option TrustLineEntry)) :
    TrustLineWrapper → AppM X (Option TrustLineWrapper)
  | .NonIssuerImpl tl => do
    match ← change tl with
    | some tl => do
      store (.trustLine tl)
      return some (.NonIssuerImpl tl)
    | none => return none
  | .IssuerImpl accountID asset => return some (.IssuerImpl accountID asset)

def addBalance (header : LedgerHeader) (delta : ℤ) (line : TrustLineWrapper) :
    AppM X (Option TrustLineWrapper) :=
  line.update fun tl => TrustLineEntry.addBalance header tl delta

def addBuyingLiabilities (header : LedgerHeader) (delta : ℤ) (line : TrustLineWrapper) :
    AppM X (Option TrustLineWrapper) :=
  line.update fun tl => TrustLineEntry.addBuyingLiabilities header tl delta

def addSellingLiabilities (header : LedgerHeader) (delta : ℤ) (line : TrustLineWrapper) :
    AppM X (Option TrustLineWrapper) :=
  line.update fun tl => TrustLineEntry.addSellingLiabilities header tl delta

end TrustLineWrapper

/-- The constructor of a wrapper over the entry that `load` gives. -/
def wrapTrustLine (load : AccountID → Asset → AppM X (Option TrustLineEntry)) (accountID : AccountID)
    (asset : Asset) : AppM X (Option TrustLineWrapper) := do
  throwIf (asset = .native) (.runtime_error "trustline for native asset")
  let issuer ← getIssuer asset
  if issuer = accountID then
    return some (.IssuerImpl accountID asset)
  let entry ← load accountID asset
  return entry.map .NonIssuerImpl

def loadTrustLine (accountID : AccountID) (asset : Asset) : AppM X (Option TrustLineWrapper) :=
  wrapTrustLine loadTrustLineEntry accountID asset

def loadTrustLineWithoutRecord (accountID : AccountID) (asset : Asset) :
    AppM X (Option TrustLineWrapper) :=
  wrapTrustLine (fun a s w => .ok (w.ltx.trustLine a s) w) accountID asset

def loadTrustLineIfNotNative (accountID : AccountID) (asset : Asset) :
    AppM X (Option TrustLineWrapper) :=
  if asset = .native then return none else loadTrustLine accountID asset

def loadTrustLineWithoutRecordIfNotNative (accountID : AccountID) (asset : Asset) :
    AppM X (Option TrustLineWrapper) :=
  if asset = .native then return none else loadTrustLineWithoutRecord accountID asset

/-- A method of a wrapper that may be empty. -/
def getImpl (line : Option TrustLineWrapper) : AppM X TrustLineWrapper :=
  match line with
  | some line => return line
  | none => throw (.runtime_error "TrustLineWrapper not active")

/-- One of the calls that change an account, with the assignment through the handle it was given. -/
def updateAccount (assign : AccountEntry → AppM X Unit)
    (change : AccountEntry → Except Exception (Option AccountEntry)) (acc : AccountEntry) :
    AppM X (Option AccountEntry) := do
  match ← change acc with
  | some acc => do
    assign acc
    return some acc
  | none => return none

/-- An assignment through a handle that `stellar::loadAccount` gave. -/
def storeAccount (acc : AccountEntry) : AppM X Unit := store (.account acc)

end ZaggCore.Transactions
