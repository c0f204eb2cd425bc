import Mathlib
import ZaggCore.Xdr.Types

/-! # `StrKey`

The text form of an account: the version byte, the key and a checksum in base 32, 280 bits in 56
characters. Strings are lists of character codes, which compare as `std::string` does. -/

namespace ZaggCore.Crypto
set_option autoImplicit false
set_option maxHeartbeats 250000

/-- One bit of the division that the table of `crc16.cpp` holds the remainders of. -/
def crc16bit (crc : ℕ) : ℕ :=
  if crc.testBit 15 then ((crc <<< 1) &&& 0xFFFF) ^^^ 0x1021 else crc <<< 1

def crc16tab (i : ℕ) : ℕ := crc16bit^[8] (i <<< 8)

def crc16 (buf : List ℕ) : ℕ :=
  buf.foldl (fun crc b => ((crc <<< 8) &&& 0xFFFF) ^^^ crc16tab (((crc >>> 8) ^^^ b) &&& 0xFF)) 0

-- the check value in the comment of `crc16.cpp`
example : crc16 [0x31, 0x32, 0x33, 0x34, 0x35, 0x36, 0x37, 0x38, 0x39] = 0x31C3 := by decide +kernel

/-- The last `n` bytes of a number, the most significant one first. -/
def bytes : ℕ → ℕ → List ℕ
  | 0, _ => []
  | n + 1, v => bytes n (v / 256) ++ [v % 256]

/-- The dictionary `ABCDEFGHIJKLMNOPQRSTUVWXYZ234567`. -/
def b32 (index : Fin 32) : ℕ := if index.val < 26 then 65 + index.val else 24 + index.val

/-- `encode_b32` of a number of `n` groups of five bits. -/
def encode_b32 : ℕ → ℕ → List ℕ
  | 0, _ => []
  | n + 1, v => encode_b32 n (v / 32) ++ [b32 ⟨v % 32, Nat.mod_lt _ (by decide)⟩]

def STRKEY_PUBKEY_ED25519 : ℕ := 6

/-- `KeyUtils::toStrKey`; the checksum goes in with its low byte first. -/
def toStrKey (key : PublicKey) : List ℕ :=
  let ver := STRKEY_PUBKEY_ED25519 <<< 3
  let crc := crc16 (ver :: bytes 32 key)
  encode_b32 56 (((ver * 2 ^ 256 + key) * 256 + crc % 256) * 256 + crc / 256 % 256)

theorem b32_injective : Function.Injective b32 := by decide

theorem encode_b32_injective {n v w : ℕ} (hv : v < 32 ^ n) (hw : w < 32 ^ n)
    (h : encode_b32 n v = encode_b32 n w) : v = w := by
  induction n generalizing v w with
  | zero => omega
  | succ n ih =>
    rw [encode_b32, encode_b32] at h
    obtain ⟨hinit, hlast⟩ := List.append_inj' h rfl
    have hmod : v % 32 = w % 32 := Fin.mk.inj (b32_injective (List.singleton_inj.mp hlast))
    rw [pow_succ] at hv hw
    have hdiv := ih (Nat.div_lt_of_lt_mul (by omega)) (Nat.div_lt_of_lt_mul (by omega)) hinit
    omega

/-- Different accounts have different texts. -/
theorem toStrKey_injective : Function.Injective toStrKey := by
  intro a b h
  have ha := a.isLt
  have hb := b.isLt
  have hver : STRKEY_PUBKEY_ED25519 <<< 3 = 48 := by decide
  have h32 : (32 : ℕ) ^ 56 = 256 * 2 ^ 256 * 256 * 256 := by norm_num
  unfold toStrKey at h
  dsimp only at h
  rw [hver] at h
  have hnum := encode_b32_injective (by omega) (by omega) h
  exact Fin.ext (by omega)

end ZaggCore.Crypto
