import Mathlib
import ZaggCore.Xdr.Types

/-! # XDR ledger entries

The entries of `Stellar-ledger-entries.x` and their keys. Signed 64-bit amounts are integers and
unsigned fields are natural numbers; the code that adds or subtracts them states the wrap-around or
the range check it makes. The `ext` union of an account or a trust line is the optional liabilities it
carries from version 1 on. -/

namespace ZaggCore
set_option autoImplicit false

abbrev String32 := List (Fin 256)

abbrev String64 := List (Fin 256)

/-- `union Asset`; asset codes are big-endian numbers. -/
inductive Asset where
  | native
  | alphaNum4 (assetCode : Fin (2 ^ 32)) (issuer : AccountID)
  | alphaNum12 (assetCode : Fin (2 ^ 96)) (issuer : AccountID)
  deriving DecidableEq, Repr

/-- `struct Price`: two `int32`. -/
structure Price where
  n : ℤ
  d : ℤ
  deriving DecidableEq, Repr

structure Liabilities where
  buying : ℤ
  selling : ℤ
  deriving DecidableEq, Repr

/-- The packed bytes of `Thresholds`. -/
structure Thresholds where
  masterWeight : Fin 256
  low : Fin 256
  medium : Fin 256
  high : Fin 256
  deriving DecidableEq, Repr

structure AccountEntry where
  accountID : AccountID
  balance : ℤ
  seqNum : ℤ
  accountMarker : List (Fin 256)
  numSubEntries : ℕ
  inflationDest : Option AccountID
  flags : ℕ
  homeDomain : String32
  thresholds : Thresholds
  signers : List Signer
  ext : Option Liabilities
  deriving DecidableEq, Repr

structure TrustLineEntry where
  accountID : AccountID
  asset : Asset
  balance : ℤ
  limit : ℤ
  flags : ℕ
  ext : Option Liabilities
  deriving DecidableEq, Repr

structure OfferEntry where
  sellerID : AccountID
  offerID : ℕ
  selling : Asset
  buying : Asset
  amount : ℤ
  price : Price
  flags : ℕ
  deriving DecidableEq, Repr

structure DataEntry where
  accountID : AccountID
  dataName : String64
  dataValue : List (Fin 256)
  deriving DecidableEq, Repr

/-- The `data` union of a ledger entry. -/
inductive LedgerEntryData where
  | account (a : AccountEntry)
  | trustLine (tl : TrustLineEntry)
  | offer (o : OfferEntry)
  | data (d : DataEntry)
  deriving DecidableEq, Repr

structure LedgerEntry where
  lastModifiedLedgerSeq : ℕ
  data : LedgerEntryData
  deriving DecidableEq, Repr

/-- `union LedgerKey`. -/
inductive LedgerKey where
  | account (accountID : AccountID)
  | trustLine (accountID : AccountID) (asset : Asset)
  | offer (sellerID : AccountID) (offerID : ℕ)
  | data (accountID : AccountID) (dataName : String64)
  deriving DecidableEq, Repr

/-- `LedgerEntryKey`. -/
def LedgerEntryData.key : LedgerEntryData → LedgerKey
  | .account a => .account a.accountID
  | .trustLine tl => .trustLine tl.accountID tl.asset
  | .offer o => .offer o.sellerID o.offerID
  | .data d => .data d.accountID d.dataName

def LedgerEntry.key (e : LedgerEntry) : LedgerKey := e.data.key

/-- The fields of `struct LedgerHeader` that the ledger code reads or writes. -/
structure LedgerHeader where
  ledgerVersion : ℕ
  ledgerSeq : ℕ
  totalCoins : ℤ
  feePool : ℤ
  inflationSeq : ℕ
  idPool : ℕ
  baseFee : ℕ
  baseReserve : ℕ
  maxTxSetSize : ℕ
  deriving DecidableEq, Repr

/-! ## The orders of assets and keys

Unions compare by discriminant first and by the fields of the arm after that. -/

/-- The fields an asset is compared by. -/
def Asset.fields : Asset → ℕ ×ₗ ℕ ×ₗ ℕ
  | .native => toLex (0, toLex (0, 0))
  | .alphaNum4 c i => toLex (1, toLex (c.val, i.val))
  | .alphaNum12 c i => toLex (2, toLex (c.val, i.val))

theorem Asset.fields_injective : Function.Injective Asset.fields := by
  intro a b h
  cases a <;> cases b <;>
    simp only [Asset.fields, toLex_inj, Prod.mk.injEq, Fin.val_inj] at h <;> grind

instance : LinearOrder Asset := LinearOrder.lift' Asset.fields Asset.fields_injective

/-- The fields a key is compared by. -/
def LedgerKey.fields : LedgerKey → ℕ ×ₗ ℕ ×ₗ Asset ×ₗ ℕ ×ₗ String64
  | .account a => toLex (0, toLex (a.val, toLex (.native, toLex (0, []))))
  | .trustLine a asset => toLex (1, toLex (a.val, toLex (asset, toLex (0, []))))
  | .offer s i => toLex (2, toLex (s.val, toLex (.native, toLex (i, []))))
  | .data a n => toLex (3, toLex (a.val, toLex (.native, toLex (0, n))))

theorem LedgerKey.fields_injective : Function.Injective LedgerKey.fields := by
  intro a b h
  cases a <;> cases b <;>
    simp only [LedgerKey.fields, toLex_inj, Prod.mk.injEq, Fin.val_inj] at h <;> grind

instance : LinearOrder LedgerKey := LinearOrder.lift' LedgerKey.fields LedgerKey.fields_injective

end ZaggCore
