/-
# The key-value store of the agents

The store maps byte strings to byte strings. A typed handle puts the name of an
entity and the name of a table before each key, and encodes values and keys. A
read after a write finds the value when the tables and keys are the same, and
what was there before when table and key read differently as one string.

Every value that is stored must decode to itself, which is stated once for each
type that is stored.
-/

import Optics.Solidity.Basic

namespace Optics.KeyValue

open Optics.Solidity

variable {Byte : Type}

/-- How a call ends without an answer: it panics, or a reader runs out of bytes. -/
inductive Fault
  | panicked (message : String)
  | ioError
  deriving DecidableEq, Repr

/-! ### Encoding and decoding -/

/-- `Encode`. -/
class Encode (Byte α : Type) where
  toVec : α → List Byte

/-- `Decode`. What is left of the reader is returned with the value. -/
class Decode (Byte α : Type) where
  readFrom : List Byte → Except Fault (α × List Byte)

export Encode (toVec)
export Decode (readFrom)

/-- What was encoded decodes to itself. -/
class LawfulCodec (Byte α : Type) [Encode Byte α] [Decode Byte α] : Prop where
  readFrom_toVec : ∀ a : α, ∃ rest, readFrom (toVec a : List Byte) = .ok (a, rest)

/-- `read_exact`. -/
def readExact (n : ℕ) (bytes : List Byte) : Except Fault (List Byte × List Byte) :=
  if n ≤ bytes.length then .ok (bytes.take n, bytes.drop n) else .error .ioError

theorem readExact_append {n : ℕ} {front : List Byte} (h : front.length = n) (rest : List Byte) :
    readExact n (front ++ rest) = .ok (front, rest) := by
  subst h
  simp [readExact]

/-- `read_exact` into a word. -/
def readWord (bytes : List Byte) : Except Fault (Bytes32 Byte × List Byte) :=
  if h : 32 ≤ bytes.length then .ok (⟨bytes.take 32, by simpa using h⟩, bytes.drop 32)
  else .error .ioError

theorem readWord_append (w : Bytes32 Byte) (rest : List Byte) :
    readWord (w.toList ++ rest) = .ok (w, rest) := by
  have hlength : w.toList.length = 32 := w.toList_length
  rw [readWord, dif_pos (by simp)]
  congr 2
  · apply List.Vector.eq
    exact List.take_left' hlength
  · exact List.drop_left' hlength

section Integers

variable [ByteAlphabet Byte]

/-- `read_exact` of four bytes, read as a `u32`. -/
def readUint32 (bytes : List Byte) : Except Fault (UInt32 × List Byte) := do
  let (word, rest) ← readExact 4 bytes
  .ok (bytesUint32 word, rest)

theorem readUint32_append (x : UInt32) (rest : List Byte) :
    readUint32 (uint32Bytes x ++ rest) = .ok (x, rest) := by
  rw [readUint32, readExact_append (length_uint32Bytes x), ok_bind]
  simp

/-- The eight bytes of a `u64`. -/
def uint64Bytes (x : UInt64) : List Byte := uintBytes 8 x.toNat

@[simp] theorem length_uint64Bytes (x : UInt64) : (uint64Bytes x : List Byte).length = 8 :=
  length_uintBytes 8 _

theorem uint64Bytes_injective : Function.Injective (uint64Bytes : UInt64 → List Byte) := by
  intro x y h
  apply UInt64.toNat_inj.mp
  exact uintBytes_injOn x.toNat_lt y.toNat_lt h

instance encodeUint32 : Encode Byte UInt32 := ⟨uint32Bytes⟩

instance decodeUint32 : Decode Byte UInt32 := ⟨readUint32⟩

instance lawfulUint32 : LawfulCodec Byte UInt32 where
  readFrom_toVec x := by
    have hread := readUint32_append x ([] : List Byte)
    rw [List.append_nil] at hread
    exact ⟨[], hread⟩

/-- Keys only, so there is no reader for it. -/
instance encodeUint64 : Encode Byte UInt64 := ⟨uint64Bytes⟩

@[simp] theorem length_toVec_uint32 (x : UInt32) : (toVec x : List Byte).length = 4 :=
  length_uint32Bytes x

@[simp] theorem length_toVec_uint64 (x : UInt64) : (toVec x : List Byte).length = 8 :=
  length_uint64Bytes x

theorem toVec_uint32_injective : Function.Injective (toVec : UInt32 → List Byte) :=
  uint32Bytes_injective

theorem toVec_uint64_injective : Function.Injective (toVec : UInt64 → List Byte) :=
  uint64Bytes_injective

end Integers

instance encodeWord : Encode Byte (Bytes32 Byte) := ⟨List.Vector.toList⟩

@[simp] theorem length_toVec_word (w : Bytes32 Byte) : (toVec w : List Byte).length = 32 :=
  w.toList_length

theorem toVec_word_injective : Function.Injective (toVec : Bytes32 Byte → List Byte) :=
  List.Vector.toList_injective

instance decodeWord : Decode Byte (Bytes32 Byte) := ⟨readWord⟩

instance lawfulWord : LawfulCodec Byte (Bytes32 Byte) where
  readFrom_toVec w := by
    have hread := readWord_append w []
    rw [List.append_nil] at hread
    exact ⟨[], hread⟩

/-! ### The store -/

/-- `DB`. -/
abbrev DB (Byte : Type) := List Byte → Option (List Byte)

/-- A store without any entry. -/
def DB.empty : DB Byte := fun _ => none

section Typed

variable [ByteAlphabet Byte] {α κ : Type}

/-- `TypedDB::full_prefix`: the entity and the table, around an underscore. -/
def fullPrefix (entity table : List Byte) : List Byte := entity ++ ofByte 0x5f :: table

/-- `retrieve_decodable`. -/
def retrieveDecodable (α : Type) [Decode Byte α] (entity table key : List Byte) (db : DB Byte) :
    Except Fault (Option α) :=
  match db (fullPrefix entity table ++ key) with
  | none => .ok none
  | some value => do
    let (a, _) ← readFrom value
    .ok (some a)

/-- `retrieve_keyed_decodable`. -/
def retrieveKeyedDecodable (α : Type) [Encode Byte κ] [Decode Byte α] (entity table : List Byte)
    (key : κ) (db : DB Byte) : Except Fault (Option α) :=
  retrieveDecodable α entity table (toVec key) db

variable [DecidableEq Byte]

/-- `store_encodable`. -/
def storeEncodable [Encode Byte α] (entity table key : List Byte) (value : α) (db : DB Byte) :
    DB Byte :=
  Function.update db (fullPrefix entity table ++ key) (some (toVec value))

/-- `store_keyed_encodable`. -/
def storeKeyedEncodable [Encode Byte κ] [Encode Byte α] (entity table : List Byte) (key : κ)
    (value : α) (db : DB Byte) : DB Byte :=
  storeEncodable entity table (toVec key) value db

/-! ### Reads after writes -/

section Reads

variable {entity table key table' key' : List Byte} {db : DB Byte}

theorem retrieveDecodable_self [Encode Byte α] [Decode Byte α] [LawfulCodec Byte α] (a : α) :
    retrieveDecodable α entity table key (storeEncodable entity table key a db) =
      .ok (some a) := by
  obtain ⟨rest, hread⟩ : ∃ rest, readFrom (toVec a : List Byte) = .ok (a, rest) :=
    LawfulCodec.readFrom_toVec a
  rw [retrieveDecodable, storeEncodable, Function.update_self]
  dsimp only
  rw [hread]
  rfl

/-- Writes of one entity under another table and key leave a read as it was. -/
theorem retrieveDecodable_of_ne {β : Type} [Encode Byte β] [Decode Byte α] (b : β)
    (h : table ++ key ≠ table' ++ key') :
    retrieveDecodable α entity table key (storeEncodable entity table' key' b db) =
      retrieveDecodable α entity table key db := by
  -- The entity and the underscore are the same on both sides.
  have hne : fullPrefix entity table ++ key ≠ fullPrefix entity table' ++ key' := by
    intro heq
    apply h
    simpa [fullPrefix] using heq
  rw [retrieveDecodable, retrieveDecodable, storeEncodable, Function.update_of_ne hne]

/-- Rows of different lengths do not touch. -/
theorem retrieveDecodable_of_length_ne {β : Type} [Encode Byte β] [Decode Byte α] (b : β)
    (h : (table ++ key).length ≠ (table' ++ key').length) :
    retrieveDecodable α entity table key (storeEncodable entity table' key' b db) =
      retrieveDecodable α entity table key db :=
  retrieveDecodable_of_ne b (ne_of_apply_ne List.length h)

/-- A keyed read after a write to the same table. -/
theorem retrieveKeyedDecodable_store [DecidableEq κ] [Encode Byte κ] [Encode Byte α]
    [Decode Byte α] [LawfulCodec Byte α] (hkeys : Function.Injective (toVec : κ → List Byte))
    (k x : κ) (a : α) :
    retrieveKeyedDecodable α entity table x (storeKeyedEncodable entity table k a db) =
      if x = k then .ok (some a) else retrieveKeyedDecodable α entity table x db := by
  rw [retrieveKeyedDecodable, storeKeyedEncodable]
  by_cases heq : x = k
  · rw [if_pos heq, heq]
    exact retrieveDecodable_self a
  · rw [if_neg heq, retrieveDecodable_of_ne]
    · rfl
    · intro hrow
      exact heq (hkeys (List.append_cancel_left hrow))

end Reads

end Typed

end Optics.KeyValue
