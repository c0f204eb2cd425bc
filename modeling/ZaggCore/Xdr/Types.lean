import Mathlib

/-! # XDR base types

The fixed-size opaque arrays of `Stellar-types.x` read as big-endian numbers, so that the byte-wise
comparison of two arrays is the order of the numbers and the last four bytes are the remainder
modulo `2 ^ 32`. Variable-length opaques are byte lists. -/

namespace ZaggCore
set_option autoImplicit false

/-! The sizes of the fixed-size types are not zero, so that they have literals. -/

instance neZero_byte : NeZero 256 := ⟨by decide⟩

instance neZero_uint32 : NeZero (2 ^ 32) := ⟨by decide⟩

instance neZero_code12 : NeZero (2 ^ 96) := ⟨by decide⟩

instance neZero_uint256 : NeZero (2 ^ 256) := ⟨by decide⟩

/-- `opaque uint256[32]`. -/
abbrev Uint256 := Fin (2 ^ 256)

instance lawfulBEq_uint256 : LawfulBEq Uint256 := inferInstance

instance isTrans_uint256 : IsTrans Uint256 (fun a b => a ≤ b) := inferInstance

instance antisymm_uint256 : Std.Antisymm (fun a b : Uint256 => a ≤ b) := inferInstance

instance total_uint256 : Std.Total (fun a b : Uint256 => a ≤ b) := inferInstance

/-- `opaque Hash[32]`. -/
abbrev Hash := Fin (2 ^ 256)

/-- `union PublicKey`: its only arm is `ed25519`. -/
abbrev PublicKey := Uint256

abbrev AccountID := PublicKey

abbrev NodeID := PublicKey

/-- `opaque Signature<64>`. -/
abbrev Signature := List UInt8

/-- `opaque SignatureHint[4]`. -/
abbrev SignatureHint := Fin (2 ^ 32)

/-- `union SignerKey`. -/
inductive SignerKey where
  | ed25519 (key : Uint256)
  | preAuthTx (hash : Uint256)
  | hashX (hash : Uint256)
  deriving DecidableEq, Repr

/-- `struct Signer`; the weight is a `uint32` ("really only need 1byte"). -/
structure Signer where
  key : SignerKey
  weight : Fin (2 ^ 32)
  deriving DecidableEq, Repr

structure DecoratedSignature where
  hint : SignatureHint
  signature : Signature
  deriving DecidableEq, Repr

/-- `enum SignerKeyType`. -/
inductive SignerKeyType where
  | SIGNER_KEY_TYPE_ED25519
  | SIGNER_KEY_TYPE_PRE_AUTH_TX
  | SIGNER_KEY_TYPE_HASH_X
  deriving DecidableEq, Repr

/-- The discriminant of a signer key. -/
def SignerKey.type : SignerKey → SignerKeyType
  | .ed25519 _ => .SIGNER_KEY_TYPE_ED25519
  | .preAuthTx _ => .SIGNER_KEY_TYPE_PRE_AUTH_TX
  | .hashX _ => .SIGNER_KEY_TYPE_HASH_X

end ZaggCore
