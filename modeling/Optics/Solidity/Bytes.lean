/-
# Byte strings, words and addresses

No function sends all byte strings injectively to 32 actual bytes, so a hash
that is assumed collision free needs a larger alphabet. Bytes are therefore any
type onto which the 256 byte values embed with a way back. Over `UInt8` this is
the real thing; over an infinite alphabet the assumptions on the hash can be
met. Lengths and offsets are exact over every alphabet.
-/

import Mathlib.Data.Vector.Basic
import Mathlib.Data.Nat.Basic
import Mathlib.Data.List.Induction
import Mathlib.Tactic.Ring

namespace Optics.Solidity

/-- An alphabet that contains the 256 byte values as a retract. -/
class ByteAlphabet (Byte : Type) where
  ofByte : UInt8 → Byte
  toByte : Byte → UInt8
  toByte_ofByte : ∀ b, toByte (ofByte b) = b

export ByteAlphabet (ofByte toByte)

attribute [simp] ByteAlphabet.toByte_ofByte

instance byteAlphabetUInt8 : ByteAlphabet UInt8 := ⟨id, id, fun _ => rfl⟩

/-- Words of 32 bytes. -/
abbrev Bytes32 (Byte : Type) := List.Vector Byte 32

/-- Account addresses, 20 bytes long. -/
abbrev Address (Byte : Type) := List.Vector Byte 20

variable {Byte : Type} [ByteAlphabet Byte]

instance zeroBytes (n : ℕ) : Zero (List.Vector Byte n) := ⟨List.Vector.replicate n (ofByte 0)⟩

/-! ### Unsigned integers -/

/-- The `n` low bytes of `x`, most significant first. -/
def uintBytes : ℕ → ℕ → List Byte
  | 0, _ => []
  | n + 1, x => uintBytes n (x / 256) ++ [ofByte (UInt8.ofNat x)]

/-- The value of a byte string, most significant byte first. -/
def bytesUint (bytes : List Byte) : ℕ :=
  bytes.foldl (fun value b => value * 256 + (toByte b).toNat) 0

@[simp] theorem length_uintBytes (n x : ℕ) : (uintBytes n x : List Byte).length = n := by
  induction n generalizing x with
  | zero => rfl
  | succ n ih => simp [uintBytes, ih]

@[simp] theorem bytesUint_append_singleton (bytes : List Byte) (b : Byte) :
    bytesUint (bytes ++ [b]) = bytesUint bytes * 256 + (toByte b).toNat := by
  simp [bytesUint]

theorem bytesUint_append (front back : List Byte) :
    bytesUint (front ++ back) = bytesUint front * 256 ^ back.length + bytesUint back := by
  induction back using List.reverseRecOn with
  | nil => simp [bytesUint]
  | append_singleton back b ih =>
    rw [← List.append_assoc, bytesUint_append_singleton, bytesUint_append_singleton, ih,
      List.length_append, List.length_singleton, pow_succ]
    ring

/-- Bytes of any alphabet are true bytes. -/
theorem uintBytes_eq_map (n x : ℕ) :
    (uintBytes n x : List Byte) = (uintBytes n x : List UInt8).map ofByte := by
  induction n generalizing x with
  | zero => rfl
  | succ n ih =>
    rw [uintBytes, uintBytes, List.map_append, ih]
    rfl

/-- Reading back `n` bytes gives the value modulo `256 ^ n`. -/
@[simp] theorem bytesUint_uintBytes (n x : ℕ) :
    bytesUint (uintBytes n x : List Byte) = x % 256 ^ n := by
  induction n generalizing x with
  | zero => simp [uintBytes, bytesUint, Nat.mod_one]
  | succ n ih =>
    have hlow : x % 2 ^ 8 = x % 256 := rfl
    rw [uintBytes, bytesUint_append_singleton, ih, ByteAlphabet.toByte_ofByte, UInt8.toNat_ofNat',
      hlow, pow_succ', Nat.mod_mul]
    ring

/-- A value that fits its width is determined by its bytes. -/
theorem uintBytes_injOn {n x y : ℕ} (hx : x < 256 ^ n) (hy : y < 256 ^ n)
    (h : (uintBytes n x : List Byte) = uintBytes n y) : x = y := by
  have hvalue := congrArg bytesUint h
  rwa [bytesUint_uintBytes, bytesUint_uintBytes, Nat.mod_eq_of_lt hx, Nat.mod_eq_of_lt hy]
    at hvalue

/-- The four bytes of a `uint32`. -/
def uint32Bytes (x : UInt32) : List Byte := uintBytes 4 x.toNat

/-- The cast of a byte string's value to `uint32`. -/
def bytesUint32 (bytes : List Byte) : UInt32 := UInt32.ofNat (bytesUint bytes)

@[simp] theorem length_uint32Bytes (x : UInt32) : (uint32Bytes x : List Byte).length = 4 :=
  length_uintBytes 4 _

@[simp] theorem bytesUint32_uint32Bytes (x : UInt32) :
    bytesUint32 (uint32Bytes x : List Byte) = x := by
  have hlt : x.toNat < 256 ^ 4 := x.toNat_lt
  rw [bytesUint32, uint32Bytes, bytesUint_uintBytes, Nat.mod_eq_of_lt hlt, UInt32.ofNat_toNat]

theorem uint32Bytes_injective : Function.Injective (uint32Bytes : UInt32 → List Byte) :=
  Function.LeftInverse.injective bytesUint32_uint32Bytes

section UInt8

theorem bytesUint_lt (bytes : List UInt8) : bytesUint bytes < 256 ^ bytes.length := by
  induction bytes using List.reverseRecOn with
  | nil => exact Nat.one_pos
  | append_singleton bytes b ih =>
    have hb : b.toNat < 256 := b.toNat_lt
    have hbyte : (toByte b).toNat = b.toNat := rfl
    rw [bytesUint_append_singleton, hbyte, List.length_append, List.length_singleton, pow_succ]
    omega

/-- The low bytes of a value are those at the end. -/
theorem uintBytes_bytesUint_append (front back : List UInt8) :
    uintBytes back.length (bytesUint (front ++ back)) = back := by
  induction back using List.reverseRecOn with
  | nil => rfl
  | append_singleton back b ih =>
    have hb : b.toNat < 256 := b.toNat_lt
    have hbyte : (toByte b).toNat = b.toNat := rfl
    rw [List.length_append, List.length_singleton, uintBytes, ← List.append_assoc,
      bytesUint_append_singleton, hbyte]
    have hhigh : (bytesUint (front ++ back) * 256 + b.toNat) / 256 = bytesUint (front ++ back) := by
      omega
    have hlow : UInt8.ofNat (bytesUint (front ++ back) * 256 + b.toNat) = b := by
      apply UInt8.toNat_inj.mp
      rw [UInt8.toNat_ofNat']
      omega
    rw [hhigh, hlow, ih]
    rfl

/-- Over the true bytes nothing is lost in a value. -/
theorem uintBytes_bytesUint (bytes : List UInt8) :
    uintBytes bytes.length (bytesUint bytes) = bytes :=
  uintBytes_bytesUint_append [] bytes

/-- Four true bytes are those of a `uint32`. -/
theorem uint32Bytes_bytesUint32 {bytes : List UInt8} (h : bytes.length = 4) :
    uint32Bytes (bytesUint32 bytes) = bytes := by
  have hlt : bytesUint bytes < 2 ^ 32 := (bytesUint_lt bytes).trans_eq (by rw [h]; rfl)
  rw [uint32Bytes, bytesUint32, UInt32.toNat_ofNat', Nat.mod_eq_of_lt hlt, ← h]
  exact uintBytes_bytesUint bytes

end UInt8

/-! ### Casts between addresses and words -/

/-- `addressToBytes32`: the address preceded by twelve zero bytes. -/
def addressToBytes32 (a : Address Byte) : Bytes32 Byte :=
  ⟨List.replicate 12 (ofByte 0) ++ a.toList, by simp⟩

/-- `bytes32ToAddress`: the low 20 bytes. -/
def bytes32ToAddress (w : Bytes32 Byte) : Address Byte := w.drop 12

omit [ByteAlphabet Byte] in
theorem toList_drop {n : ℕ} (k : ℕ) (w : List.Vector Byte n) :
    (w.drop k).toList = w.toList.drop k := by
  obtain ⟨l, rfl⟩ := w
  rfl

theorem toList_addressToBytes32 (a : Address Byte) :
    (addressToBytes32 a).toList = List.replicate 12 (ofByte 0) ++ a.toList := rfl

@[simp] theorem bytes32ToAddress_addressToBytes32 (a : Address Byte) :
    bytes32ToAddress (addressToBytes32 a) = a := by
  apply List.Vector.eq
  rw [bytes32ToAddress, toList_drop, toList_addressToBytes32]
  simp

omit [ByteAlphabet Byte] in
/-- Two words followed by the same kind of rest are determined by the
concatenation. -/
theorem toList_append_inj {n : ℕ} {a b : List.Vector Byte n} {x y : List Byte}
    (h : a.toList ++ x = b.toList ++ y) : a = b ∧ x = y := by
  obtain ⟨hword, hrest⟩ := List.append_inj h (by simp)
  exact ⟨List.Vector.eq _ _ hword, hrest⟩

theorem addressToBytes32_injective :
    Function.Injective (addressToBytes32 : Address Byte → Bytes32 Byte) :=
  Function.LeftInverse.injective bytes32ToAddress_addressToBytes32

/-! ### Words as `abi.encode` writes them -/

/-- A `uint256`. -/
def uint256Word (x : BitVec 256) : Bytes32 Byte := ⟨uintBytes 32 x.toNat, length_uintBytes 32 _⟩

theorem uint256Word_injective :
    Function.Injective (uint256Word : BitVec 256 → Bytes32 Byte) := by
  intro x y h
  have hwidth : 2 ^ 256 = 256 ^ 32 := by norm_num
  exact BitVec.eq_of_toNat_eq
    (uintBytes_injOn (hwidth ▸ x.isLt) (hwidth ▸ y.isLt) (congrArg List.Vector.toList h))

/-- `abi.encode` of values of one word each. -/
def abiEncode (words : List (Bytes32 Byte)) : List Byte := words.flatMap List.Vector.toList

omit [ByteAlphabet Byte] in
theorem abiEncode_injective :
    Function.Injective (abiEncode : List (Bytes32 Byte) → List Byte) := by
  have hcons (w : Bytes32 Byte) (words : List (Bytes32 Byte)) : abiEncode (w :: words) ≠ [] := by
    intro h
    have hlength := congrArg List.length h
    simp [abiEncode] at hlength
  intro a
  induction a with
  | nil =>
    intro b h
    cases b with
    | nil => rfl
    | cons w words => exact absurd h.symm (hcons w words)
  | cons w words ih =>
    intro b h
    cases b with
    | nil => exact absurd h (hcons w words)
    | cons v more =>
      obtain ⟨rfl, hrest⟩ := toList_append_inj h
      rw [ih hrest]

/-- The bytes of an ASCII literal. -/
def asciiBytes (text : String) : List Byte := text.toList.map fun c => ofByte (UInt8.ofNat c.toNat)

end Optics.Solidity
