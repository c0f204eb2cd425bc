import Mathlib

/-! # XDR on the wire

The format that `xdrpp/marshal.h` writes and reads: unsigned numbers in big-endian order, variable-length
opaques behind their length, filled up with zeros to a multiple of four, and vectors behind their size. A
reader gives what it read and the bytes left, and nothing where it throws. -/

namespace ZaggCore.Marshal
set_option autoImplicit false
set_option maxHeartbeats 250000

/-! ## Numbers -/

def putUint : ℕ → ℕ → List UInt8
  | 0, _ => []
  | size + 1, n => putUint size (n / 256) ++ [UInt8.ofNat n]

def getUint (bytes : List UInt8) : ℕ := bytes.foldl (fun n b => n * 256 + b.toNat) 0

@[simp] theorem length_putUint (size n : ℕ) : (putUint size n).length = size := by
  induction size generalizing n with
  | zero => rfl
  | succ size ih => simp [putUint, ih]

theorem getUint_append (bytes : List UInt8) (b : UInt8) :
    getUint (bytes ++ [b]) = getUint bytes * 256 + b.toNat := by
  simp [getUint]

theorem getUint_putUint {size n : ℕ} (h : n < 256 ^ size) : getUint (putUint size n) = n := by
  induction size generalizing n with
  | zero =>
    rw [pow_zero, Nat.lt_one_iff] at h
    rw [h]
    rfl
  | succ size ih =>
    have hdiv : n / 256 < 256 ^ size := Nat.div_lt_of_lt_mul (by rwa [pow_succ'] at h)
    rw [putUint, getUint_append, ih hdiv, UInt8.toNat_ofNat']
    omega

theorem getUint_lt (bytes : List UInt8) : getUint bytes < 256 ^ bytes.length := by
  induction bytes using List.reverseRecOn with
  | nil => decide
  | append_singleton bytes b ih =>
    have hb : b.toNat < 256 := b.toNat_lt
    rw [getUint_append, List.length_append, List.length_singleton, pow_succ]
    omega

/-! ## Readers -/

abbrev Reader (α : Type) := List UInt8 → Option (α × List UInt8)

def readUint (size : ℕ) : Reader ℕ := fun bytes =>
  if bytes.length < size then none else some (getUint (bytes.take size), bytes.drop size)

theorem readUint_putUint {size n : ℕ} (h : n < 256 ^ size) (rest : List UInt8) :
    readUint size (putUint size n ++ rest) = some (n, rest) := by
  have hlen := length_putUint size n
  unfold readUint
  rw [if_neg (by simp), List.take_left' hlen, List.drop_left' hlen, getUint_putUint h]

theorem readUint_putUint_bind {β : Type} {size n : ℕ} (h : n < 256 ^ size) (rest : List UInt8)
    (f : ℕ × List UInt8 → Option β) : (readUint size (putUint size n ++ rest)).bind f = f (n, rest) := by
  rw [readUint_putUint h, Option.bind_some]

theorem readUint_lt {size n : ℕ} {bytes rest : List UInt8}
    (h : readUint size bytes = some (n, rest)) : n < 256 ^ size := by
  unfold readUint at h
  split_ifs at h with hlen
  cases h
  have hlt := getUint_lt (bytes.take size)
  rwa [List.length_take_of_le (not_lt.mp hlen)] at hlt

/-- The number of zeros after an opaque. -/
def padding (size : ℕ) : ℕ := (4 - size % 4) % 4

def putOpaque (bytes : List UInt8) : List UInt8 :=
  putUint 4 bytes.length ++ (bytes ++ List.replicate (padding bytes.length) 0)

def readOpaque (max : ℕ) : Reader (List UInt8) := fun bytes => do
  let (size, bytes) ← readUint 4 bytes
  if max < size || bytes.length < size + padding size then none
  else if (bytes.drop size).take (padding size) ≠ List.replicate (padding size) 0 then none
  else some (bytes.take size, bytes.drop (size + padding size))

theorem readOpaque_putOpaque {max : ℕ} (hmax : max < 256 ^ 4) {bytes : List UInt8}
    (h : bytes.length ≤ max) (rest : List UInt8) :
    readOpaque max (putOpaque bytes ++ rest) = some (bytes, rest) := by
  have hsize := readUint_putUint (h.trans_lt hmax)
    ((bytes ++ List.replicate (padding bytes.length) 0) ++ rest)
  unfold readOpaque putOpaque
  rw [List.append_assoc, hsize, Option.bind_eq_bind, Option.bind_some]
  dsimp only
  rw [if_neg (by simp; omega), if_neg (by simp), List.append_assoc, List.take_left' rfl,
    ← List.drop_drop, List.drop_left' rfl, List.drop_left' (List.length_replicate ..)]

theorem length_of_readOpaque {max : ℕ} {bytes value rest : List UInt8}
    (h : readOpaque max bytes = some (value, rest)) : value.length ≤ max := by
  unfold readOpaque at h
  obtain ⟨⟨size, bytes'⟩, -, h⟩ := Option.bind_eq_some_iff.mp h
  dsimp only at h
  split_ifs at h with hsize hpad
  cases h
  rw [Bool.or_eq_true, decide_eq_true_eq, decide_eq_true_eq, not_or] at hsize
  rw [List.length_take]
  omega

def readMany {α : Type} (read : Reader α) : ℕ → Reader (List α)
  | 0, bytes => some ([], bytes)
  | n + 1, bytes => do
    let (value, bytes) ← read bytes
    let (values, bytes) ← readMany read n bytes
    return (value :: values, bytes)

section ReadMany

variable {α : Type} {read : Reader α}

theorem readMany_flatMap {put : α → List UInt8} {values : List α}
    (h : ∀ value ∈ values, ∀ rest, read (put value ++ rest) = some (value, rest))
    (rest : List UInt8) :
    readMany read values.length (values.flatMap put ++ rest) = some (values, rest) := by
  induction values with
  | nil => rfl
  | cons value values ih =>
    obtain ⟨hvalue, hvalues⟩ := List.forall_mem_cons.mp h
    rw [List.flatMap_cons, List.append_assoc, List.length_cons, readMany, hvalue]
    simp [ih hvalues]

theorem readMany_all {P : α → Prop} (h : ∀ bytes value rest, read bytes = some (value, rest) → P value)
    {n : ℕ} {bytes rest : List UInt8} {values : List α}
    (hread : readMany read n bytes = some (values, rest)) :
    values.length = n ∧ ∀ value ∈ values, P value := by
  induction n generalizing bytes values with
  | zero =>
    cases hread
    exact ⟨rfl, by simp⟩
  | succ n ih =>
    obtain ⟨⟨value, bytes₁⟩, hfirst, hread⟩ := Option.bind_eq_some_iff.mp hread
    obtain ⟨⟨values', bytes₂⟩, hrest, hread⟩ := Option.bind_eq_some_iff.mp hread
    cases hread
    obtain ⟨hlen, hall⟩ := ih hrest
    exact ⟨by rw [List.length_cons, hlen], List.forall_mem_cons.mpr ⟨h _ _ _ hfirst, hall⟩⟩

end ReadMany

/-- A reader at the end of a message: no byte may be left. -/
def readAll {α : Type} (read : Reader α) (bytes : List UInt8) : Option α :=
  match read bytes with
  | some (value, []) => some value
  | _ => none

theorem readAll_eq_some {α : Type} {read : Reader α} {bytes : List UInt8} {value : α} :
    readAll read bytes = some value ↔ read bytes = some (value, []) := by
  unfold readAll
  split <;> simp_all

end ZaggCore.Marshal
