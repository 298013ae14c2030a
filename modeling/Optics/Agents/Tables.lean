/-
# The tables of the agents' database

All tables of all entities share one space of byte keys, in which the name of one table
may begin another's. No two keys meet all the same: within an entity the tables have rows
of different lengths, and where the name of the home is followed by the watcher's mark,
no table of the home begins with its first letter.

A call that stores may store nothing: an older leaf index, a root that does not build on
the latest, a conflicting produced update. A read by destination and nonce asserts that
both are below the largest `u32`.
-/

import Mathlib.Data.Sigma.Basic
import Optics.Accumulator.Merkle
import Optics.Agents.MessageIndex
import Optics.Agents.UpdateHandler
import Optics.Math.Layout

namespace Optics.Tables

open Optics.Solidity Optics.KeyValue Optics.Math Optics.Math.Log Optics.MessageIndex
open Optics.UpdateHandler
open Updater (Update)

variable {Byte : Type}

/-! ### The remaining values -/

/-- `UpdateMeta`. -/
structure UpdateMeta where
  blockNumber : UInt64

/-- `Proof`. An index takes the eight bytes of a `usize`. -/
structure Proof (Byte : Type) where
  leaf : Bytes32 Byte
  index : UInt64
  path : List.Vector (Bytes32 Byte) 32

section Codecs

variable [ByteAlphabet Byte]

/-- `u64::read_from`. -/
def readUint64 (bytes : List Byte) : Except Fault (UInt64 × List Byte) := do
  let (word, rest) ← readExact 8 bytes
  .ok (UInt64.ofNat (bytesUint word), rest)

theorem readUint64_append (x : UInt64) (rest : List Byte) :
    readUint64 (uint64Bytes x ++ rest) = .ok (x, rest) := by
  have hx : x.toNat < 256 ^ 8 := x.toNat_lt
  rw [readUint64, readExact_append (length_uint64Bytes x), ok_bind]
  dsimp only
  rw [uint64Bytes, bytesUint_uintBytes, Nat.mod_eq_of_lt hx, UInt64.ofNat_toNat]

instance encodeUpdateMeta : Encode Byte UpdateMeta :=
  ⟨fun metadata => uint64Bytes metadata.blockNumber⟩

instance decodeUpdateMeta : Decode Byte UpdateMeta where
  readFrom bytes := do
    let (blockNumber, rest) ← readUint64 bytes
    .ok (⟨blockNumber⟩, rest)

instance lawfulUpdateMeta : LawfulCodec Byte UpdateMeta where
  readFrom_toVec metadata := by
    have hread := readUint64_append metadata.blockNumber ([] : List Byte)
    rw [List.append_nil] at hread
    refine ⟨[], ?_⟩
    change (readUint64 (uint64Bytes metadata.blockNumber) >>= _) = _
    rw [hread, ok_bind]

/-- The words of a path, one `read_exact` after the other. -/
def readWords : (n : ℕ) → List Byte → Except Fault (List.Vector (Bytes32 Byte) n × List Byte)
  | 0, bytes => .ok (.nil, bytes)
  | n + 1, bytes => do
    let (word, bytes) ← readWord bytes
    let (words, bytes) ← readWords n bytes
    .ok (word ::ᵥ words, bytes)

omit [ByteAlphabet Byte] in
theorem readWords_append {n : ℕ} (words : List.Vector (Bytes32 Byte) n) (rest : List Byte) :
    readWords n (words.toList.flatMap List.Vector.toList ++ rest) = .ok (words, rest) := by
  induction words with
  | nil => rfl
  | cons ih =>
    rw [List.Vector.toList_cons, List.flatMap_cons, List.append_assoc, readWords, readWord_append,
      ok_bind]
    dsimp only
    rw [ih, ok_bind]

/-- `Proof::write_to`. -/
def Proof.writeTo (proof : Proof Byte) : List Byte :=
  proof.leaf.toList ++ uint64Bytes proof.index ++ proof.path.toList.flatMap List.Vector.toList

/-- `Proof::read_from`. -/
def Proof.readFrom (bytes : List Byte) : Except Fault (Proof Byte × List Byte) := do
  let (leaf, bytes) ← readWord bytes
  let (index, bytes) ← readUint64 bytes
  let (path, bytes) ← readWords 32 bytes
  .ok (⟨leaf, index, path⟩, bytes)

instance encodeProof : Encode Byte (Proof Byte) := ⟨Proof.writeTo⟩

instance decodeProof : Decode Byte (Proof Byte) := ⟨Proof.readFrom⟩

theorem Proof.readFrom_writeTo (proof : Proof Byte) (rest : List Byte) :
    readFrom (proof.writeTo ++ rest) = .ok (proof, rest) := by
  rw [readFrom, writeTo]
  simp only [List.append_assoc, readWord_append, readUint64_append, readWords_append, ok_bind]

instance lawfulProof : LawfulCodec Byte (Proof Byte) where
  readFrom_toVec proof := by
    have hread := proof.readFrom_writeTo []
    rw [List.append_nil] at hread
    exact ⟨[], hread⟩

end Codecs

/-! ### The remaining tables -/

section Calls

variable [ByteAlphabet Byte]

/-- The ASCII bytes of `"proof_"`. -/
def PROOF : List Byte := [0x70, 0x72, 0x6f, 0x6f, 0x66, 0x5f].map ofByte

/-- The ASCII bytes of `"update_metadata_"`. -/
def UPDATE_META : List Byte :=
  [0x75, 0x70, 0x64, 0x61, 0x74, 0x65, 0x5f, 0x6d, 0x65, 0x74, 0x61, 0x64, 0x61, 0x74, 0x61,
    0x5f].map ofByte

/-- The ASCII bytes of `"update_latest_root_"`. -/
def LATEST_ROOT : List Byte :=
  [0x75, 0x70, 0x64, 0x61, 0x74, 0x65, 0x5f, 0x6c, 0x61, 0x74, 0x65, 0x73, 0x74, 0x5f, 0x72, 0x6f,
    0x6f, 0x74, 0x5f].map ofByte

/-- The ASCII bytes of `"updater_produced_update_"`. -/
def UPDATER_PRODUCED_UPDATE : List Byte :=
  [0x75, 0x70, 0x64, 0x61, 0x74, 0x65, 0x72, 0x5f, 0x70, 0x72, 0x6f, 0x64, 0x75, 0x63, 0x65, 0x64,
    0x5f, 0x75, 0x70, 0x64, 0x61, 0x74, 0x65, 0x5f].map ofByte

/-- The ASCII bytes of `"updates_last_inspected"`. -/
def UPDATES_LAST_INSPECTED : List Byte :=
  [0x75, 0x70, 0x64, 0x61, 0x74, 0x65, 0x73, 0x5f, 0x6c, 0x61, 0x73, 0x74, 0x5f, 0x69, 0x6e, 0x73,
    0x70, 0x65, 0x63, 0x74, 0x65, 0x64].map ofByte

/-- The ASCII bytes of `"messages_last_inspected"`. -/
def MESSAGES_LAST_INSPECTED : List Byte :=
  [0x6d, 0x65, 0x73, 0x73, 0x61, 0x67, 0x65, 0x73, 0x5f, 0x6c, 0x61, 0x73, 0x74, 0x5f, 0x69, 0x6e,
    0x73, 0x70, 0x65, 0x63, 0x74, 0x65, 0x64].map ofByte

/-- `DbError`. -/
inductive DbError (Byte : Type)
  | fault (fault : Fault)
  | updaterConflictError (existing conflicting : Update Byte)

variable (entity : List Byte)

/-- `retrieve_latest_root`. -/
def retrieveLatestRoot (db : DB Byte) : Except Fault (Option (Bytes32 Byte)) :=
  retrieveDecodable (Bytes32 Byte) entity [] LATEST_ROOT db

/-- `retrieve_update_metadata`. -/
def retrieveUpdateMetadata (newRoot : Bytes32 Byte) (db : DB Byte) :
    Except Fault (Option UpdateMeta) :=
  retrieveKeyedDecodable UpdateMeta entity UPDATE_META newRoot db

/-- The read of `PREV_ROOT`. -/
def prevRootByNewRoot (newRoot : Bytes32 Byte) (db : DB Byte) :
    Except Fault (Option (Bytes32 Byte)) :=
  retrieveKeyedDecodable (Bytes32 Byte) entity PREV_ROOT newRoot db

/-- `update_by_new_root`. -/
def updateByNewRoot (newRoot : Bytes32 Byte) (db : DB Byte) :
    Except Fault (Option (SignedUpdate Byte)) := do
  match ← prevRootByNewRoot entity newRoot db with
  | some prevRoot => updateByPreviousRoot entity prevRoot db
  | none => .ok none

/-- `proof_by_leaf_index`. -/
def proofByLeafIndex (leafIndex : UInt32) (db : DB Byte) : Except Fault (Option (Proof Byte)) :=
  retrieveKeyedDecodable (Proof Byte) entity PROOF leafIndex db

/-- `retrieve_produced_update`. -/
def retrieveProducedUpdate (previousRoot : Bytes32 Byte) (db : DB Byte) :
    Except Fault (Option (SignedUpdate Byte)) :=
  retrieveKeyedDecodable (SignedUpdate Byte) entity UPDATER_PRODUCED_UPDATE previousRoot db

variable [DecidableEq Byte]

/-- `store_latest_root`. -/
def storeLatestRoot (root : Bytes32 Byte) (db : DB Byte) : DB Byte :=
  storeEncodable entity [] LATEST_ROOT root db

/-- `store_update_metadata`. -/
def storeUpdateMetadata (newRoot : Bytes32 Byte) (metadata : UpdateMeta) (db : DB Byte) :
    DB Byte :=
  storeKeyedEncodable entity UPDATE_META newRoot metadata db

/-- `store_latest_update`. -/
def storeLatestUpdate (update : SignedUpdate Byte) (db : DB Byte) : Except Fault (DB Byte) := do
  match ← retrieveLatestRoot entity db with
  | some root =>
    if root = update.update.previousRoot then
      let db := storeLatestRoot entity update.update.newRoot db
      .ok (storeUpdate entity update db)
    else .ok (storeUpdate entity update db)
  | none =>
    let db := storeLatestRoot entity update.update.newRoot db
    .ok (storeUpdate entity update db)

/-- `store_proof`. -/
def storeProof (leafIndex : UInt32) (proof : Proof Byte) (db : DB Byte) : DB Byte :=
  storeKeyedEncodable entity PROOF leafIndex proof db

/-- `store_produced_update`. -/
def storeProducedUpdate (update : SignedUpdate Byte) (db : DB Byte) :
    Except (DbError Byte) (DB Byte) :=
  match retrieveProducedUpdate entity update.update.previousRoot db with
  | .error fault => .error (.fault fault)
  | .ok (some existing) =>
    if existing.update.newRoot ≠ update.update.newRoot then
      .error (.updaterConflictError existing.update update.update)
    else
      .ok (storeKeyedEncodable entity UPDATER_PRODUCED_UPDATE update.update.previousRoot update db)
  | .ok none =>
    .ok (storeKeyedEncodable entity UPDATER_PRODUCED_UPDATE update.update.previousRoot update db)

end Calls

/-! ### Where the rows are -/

/-- The tables of a handle. Leaves have two; the latest root, the latest leaf index and
the resume points of the indexer are tables of one row. -/
inductive Table
  | leafByIndex
  | leafByNonce
  | message
  | update
  | prevRoot
  | updateMeta
  | proof
  | producedUpdate
  | latestRoot
  | latestLeafIndex
  | updatesLastInspected
  | messagesLastInspected
  deriving DecidableEq

/-- The keys of a table. -/
abbrev Table.Key (Byte : Type) : Table → Type
  | leafByIndex => UInt32
  | leafByNonce => UInt64
  | message => Bytes32 Byte
  | update => Bytes32 Byte
  | prevRoot => Bytes32 Byte
  | updateMeta => Bytes32 Byte
  | proof => UInt32
  | producedUpdate => Bytes32 Byte
  | latestRoot => Unit
  | latestLeafIndex => Unit
  | updatesLastInspected => Unit
  | messagesLastInspected => Unit

/-- The values of a table. -/
abbrev Table.Value (Byte : Type) : Table → Type
  | leafByIndex => Bytes32 Byte
  | leafByNonce => Bytes32 Byte
  | message => RawCommittedMessage Byte
  | update => SignedUpdate Byte
  | prevRoot => Bytes32 Byte
  | updateMeta => UpdateMeta
  | proof => Proof Byte
  | producedUpdate => SignedUpdate Byte
  | latestRoot => Bytes32 Byte
  | latestLeafIndex => UInt32
  | updatesLastInspected => UInt32
  | messagesLastInspected => UInt32

/-- The database of a home, under its own name and under the watcher's. -/
inductive Handle
  | home
  | watcher
  deriving DecidableEq

instance decidableEqKey [DecidableEq Byte] : (t : Table) → DecidableEq (t.Key Byte)
  | .leafByIndex => inferInstanceAs (DecidableEq UInt32)
  | .leafByNonce => inferInstanceAs (DecidableEq UInt64)
  | .message => inferInstanceAs (DecidableEq (Bytes32 Byte))
  | .update => inferInstanceAs (DecidableEq (Bytes32 Byte))
  | .prevRoot => inferInstanceAs (DecidableEq (Bytes32 Byte))
  | .updateMeta => inferInstanceAs (DecidableEq (Bytes32 Byte))
  | .proof => inferInstanceAs (DecidableEq UInt32)
  | .producedUpdate => inferInstanceAs (DecidableEq (Bytes32 Byte))
  | .latestRoot => inferInstanceAs (DecidableEq Unit)
  | .latestLeafIndex => inferInstanceAs (DecidableEq Unit)
  | .updatesLastInspected => inferInstanceAs (DecidableEq Unit)
  | .messagesLastInspected => inferInstanceAs (DecidableEq Unit)

section Rows

variable [ByteAlphabet Byte]

/-- The ASCII bytes of `"_watcher"`. -/
def WATCHER : List Byte := [0x5f, 0x77, 0x61, 0x74, 0x63, 0x68, 0x65, 0x72].map ofByte

/-- The entity of a handle. -/
def Handle.entity (name : List Byte) : Handle → List Byte
  | home => name
  | watcher => name ++ WATCHER

/-- The name of a table. Tables of one row have none, and a name for their key. -/
def Table.name : Table → List Byte
  | leafByIndex => LEAF
  | leafByNonce => LEAF
  | message => MESSAGE
  | update => UPDATE
  | prevRoot => PREV_ROOT
  | updateMeta => UPDATE_META
  | proof => PROOF
  | producedUpdate => UPDATER_PRODUCED_UPDATE
  | latestRoot => []
  | latestLeafIndex => []
  | updatesLastInspected => []
  | messagesLastInspected => []

/-- The bytes of a key. -/
def Table.keyBytes : (t : Table) → t.Key Byte → List Byte
  | leafByIndex, (index : UInt32) => toVec index
  | leafByNonce, (key : UInt64) => toVec key
  | message, (leaf : Bytes32 Byte) => toVec leaf
  | update, (root : Bytes32 Byte) => toVec root
  | prevRoot, (root : Bytes32 Byte) => toVec root
  | updateMeta, (root : Bytes32 Byte) => toVec root
  | proof, (index : UInt32) => toVec index
  | producedUpdate, (root : Bytes32 Byte) => toVec root
  | latestRoot, _ => LATEST_ROOT
  | latestLeafIndex, _ => LATEST_LEAF_INDEX
  | updatesLastInspected, _ => UPDATES_LAST_INSPECTED
  | messagesLastInspected, _ => MESSAGES_LAST_INSPECTED

instance encodeValue : (t : Table) → Encode Byte (t.Value Byte)
  | .leafByIndex => encodeWord
  | .leafByNonce => encodeWord
  | .message => encodeRawCommittedMessage
  | .update => encodeSignedUpdate
  | .prevRoot => encodeWord
  | .updateMeta => encodeUpdateMeta
  | .proof => encodeProof
  | .producedUpdate => encodeSignedUpdate
  | .latestRoot => encodeWord
  | .latestLeafIndex => encodeUint32
  | .updatesLastInspected => encodeUint32
  | .messagesLastInspected => encodeUint32

instance decodeValue : (t : Table) → Decode Byte (t.Value Byte)
  | .leafByIndex => decodeWord
  | .leafByNonce => decodeWord
  | .message => decodeRawCommittedMessage
  | .update => decodeSignedUpdate
  | .prevRoot => decodeWord
  | .updateMeta => decodeUpdateMeta
  | .proof => decodeProof
  | .producedUpdate => decodeSignedUpdate
  | .latestRoot => decodeWord
  | .latestLeafIndex => decodeUint32
  | .updatesLastInspected => decodeUint32
  | .messagesLastInspected => decodeUint32

instance lawfulValue : (t : Table) → LawfulCodec Byte (t.Value Byte)
  | .leafByIndex => lawfulWord
  | .leafByNonce => lawfulWord
  | .message => lawfulRawCommittedMessage
  | .update => lawfulSignedUpdate
  | .prevRoot => lawfulWord
  | .updateMeta => lawfulUpdateMeta
  | .proof => lawfulProof
  | .producedUpdate => lawfulSignedUpdate
  | .latestRoot => lawfulWord
  | .latestLeafIndex => lawfulUint32
  | .updatesLastInspected => lawfulUint32
  | .messagesLastInspected => lawfulUint32

/-- How long a row is, after the entity and its underscore. -/
def Table.width : Table → ℕ
  | leafByIndex => 9
  | leafByNonce => 13
  | message => 40
  | update => 39
  | prevRoot => 49
  | updateMeta => 48
  | proof => 10
  | producedUpdate => 56
  | latestRoot => 19
  | latestLeafIndex => 24
  | updatesLastInspected => 22
  | messagesLastInspected => 23

theorem length_row (t : Table) (k : t.Key Byte) : (t.name ++ t.keyBytes k).length = t.width := by
  cases t <;> simp [Table.name, Table.keyBytes, Table.width, LEAF, MESSAGE, UPDATE, PREV_ROOT,
    UPDATE_META, PROOF, UPDATER_PRODUCED_UPDATE, LATEST_ROOT, LATEST_LEAF_INDEX,
    UPDATES_LAST_INSPECTED,
    MESSAGES_LAST_INSPECTED]

theorem width_injective : Function.Injective Table.width := by
  intro t u h
  cases t <;> cases u <;> first | rfl | exact absurd h (by decide)

theorem keyBytes_injective : (t : Table) → Function.Injective (@Table.keyBytes Byte _ t)
  | .leafByIndex => toVec_uint32_injective
  | .leafByNonce => toVec_uint64_injective
  | .message => toVec_word_injective
  | .update => toVec_word_injective
  | .prevRoot => toVec_word_injective
  | .updateMeta => toVec_word_injective
  | .proof => toVec_uint32_injective
  | .producedUpdate => toVec_word_injective
  | .latestRoot => fun _ _ _ => rfl
  | .latestLeafIndex => fun _ _ _ => rfl
  | .updatesLastInspected => fun _ _ _ => rfl
  | .messagesLastInspected => fun _ _ _ => rfl

/-- No row begins with the letter of the watcher's mark. -/
theorem head_row (t : Table) (k : t.Key Byte) :
    ∃ (b : UInt8) (rest : List Byte), t.name ++ t.keyBytes k = ofByte b :: rest ∧ b ≠ 0x77 := by
  cases t
  -- the names begin with `l`, `m`, `u` or `p`
  case leafByIndex => exact ⟨0x6c, _, rfl, by decide⟩
  case leafByNonce => exact ⟨0x6c, _, rfl, by decide⟩
  case message => exact ⟨0x6d, _, rfl, by decide⟩
  case update => exact ⟨0x75, _, rfl, by decide⟩
  case prevRoot => exact ⟨0x75, _, rfl, by decide⟩
  case updateMeta => exact ⟨0x75, _, rfl, by decide⟩
  case proof => exact ⟨0x70, _, rfl, by decide⟩
  case producedUpdate => exact ⟨0x75, _, rfl, by decide⟩
  case latestRoot => exact ⟨0x75, _, rfl, by decide⟩
  case latestLeafIndex => exact ⟨0x6c, _, rfl, by decide⟩
  case updatesLastInspected => exact ⟨0x75, _, rfl, by decide⟩
  case messagesLastInspected => exact ⟨0x6d, _, rfl, by decide⟩

/-- A row of the home is none of the watcher's. -/
theorem home_row_ne (name : List Byte) (t u : Table) (k : t.Key Byte) (x : u.Key Byte) :
    fullPrefix (Handle.home.entity name) t.name ++ t.keyBytes k ≠
      fullPrefix (Handle.watcher.entity name) u.name ++ u.keyBytes x := by
  intro heq
  obtain ⟨b, rest, hrow, hb⟩ := head_row t k
  have hletters : t.name ++ t.keyBytes k =
      ofByte 0x77 :: ([0x61, 0x74, 0x63, 0x68, 0x65, 0x72, 0x5f].map ofByte ++
        (u.name ++ u.keyBytes x)) := by
    simpa [fullPrefix, Handle.entity, WATCHER] using heq
  rw [hrow] at hletters
  have hbyte := congrArg toByte (List.cons.inj hletters).1
  rw [ByteAlphabet.toByte_ofByte, ByteAlphabet.toByte_ofByte] at hbyte
  exact hb hbyte

/-- Rows of one entity determine table and key. -/
theorem row_injective_of_entity (entity : List Byte) {t u : Table} {k : t.Key Byte}
    {x : u.Key Byte}
    (h : fullPrefix entity t.name ++ t.keyBytes k = fullPrefix entity u.name ++ u.keyBytes x) :
    (⟨t, k⟩ : Sigma (Table.Key Byte)) = ⟨u, x⟩ := by
  have hrow : t.name ++ t.keyBytes k = u.name ++ u.keyBytes x := by
    simpa [fullPrefix] using h
  -- equal rows are equally long, and no two tables have rows of one length
  have hwidth : t.width = u.width := by
    rw [← length_row t k, ← length_row u x, hrow]
  obtain rfl := width_injective hwidth
  obtain rfl := keyBytes_injective t (List.append_cancel_left hrow)
  rfl

/-- The key of a row, with its handle. -/
abbrev Key (Byte : Type) : Handle × Table → Type := fun t => t.2.Key Byte

abbrev Value (Byte : Type) : Handle × Table → Type := fun t => t.2.Value Byte

/-- Decoding a cell, all of whose bytes may not be needed. -/
def decodeCell (α : Type) [Decode Byte α] (cell : List Byte) : Except Fault α := do
  let (a, _) ← readFrom cell
  .ok a

/-- The tables of a home's two handles in one space of keys. -/
def layout (name : List Byte) : Layout (Key Byte) (Value Byte) (List Byte) (List Byte) Fault where
  row a := fullPrefix (a.1.1.entity name) a.1.2.name ++ a.1.2.keyBytes a.2
  encode _ value := toVec value
  decode t := decodeCell (t.2.Value Byte)
  row_injective := by
    rintro ⟨⟨h, t⟩, k⟩ ⟨⟨h', u⟩, x⟩ heq
    dsimp only at k x heq
    -- within an entity by the lengths of the rows, across the two by the letter after the name
    cases h <;> cases h'
    case home.home => cases row_injective_of_entity _ heq; rfl
    case home.watcher => exact absurd heq (home_row_ne name t u k x)
    case watcher.home => exact absurd heq.symm (home_row_ne name u t x k)
    case watcher.watcher => cases row_injective_of_entity _ heq; rfl
  decode_encode t value := by
    obtain ⟨rest, hread⟩ : ∃ rest, readFrom (toVec value : List Byte) = .ok (value, rest) :=
      LawfulCodec.readFrom_toVec value
    rw [decodeCell, hread, ok_bind]

end Rows

/-! ### Calls and what they store -/

/-- One value, stored under one key of one table through one handle. -/
abbrev Put (Byte : Type) := Layout.Put (Key Byte) (Value Byte)

def entry (h : Handle) (t : Table) (key : t.Key Byte) (value : t.Value Byte) : Put Byte :=
  ⟨⟨(h, t), key⟩, value⟩

/-- A storing call on a handle: a typed store into any table, or one of the functions that
are made of such stores. -/
inductive Call (Byte : Type)
  | put (t : Table) (key : t.Key Byte) (value : t.Value Byte)
  | storeRawCommittedMessage (message : RawCommittedMessage Byte)
  | updateLatestLeafIndex (leafIndex : UInt32)
  | storeUpdateMetadata (newRoot : Bytes32 Byte) (metadata : UpdateMeta)
  | storeLatestUpdate (update : SignedUpdate Byte)
  | storeUpdate (update : SignedUpdate Byte)
  | storeProof (leafIndex : UInt32) (proof : Proof Byte)
  | storeProducedUpdate (update : SignedUpdate Byte)

section Runs

variable [ByteAlphabet Byte] [DecidableEq Byte] (K : Crypto Byte)

/-- The database after a call. A call that fails does so before its first write. -/
def exec (entity : List Byte) : Call Byte → DB Byte → DB Byte
  | .put t key value, db => storeEncodable entity t.name (t.keyBytes key) value db
  | .storeRawCommittedMessage message, db =>
    match MessageIndex.storeRawCommittedMessage K entity message db with
    | .ok db' => db'
    | .error _ => db
  | .updateLatestLeafIndex leafIndex, db => MessageIndex.updateLatestLeafIndex entity leafIndex db
  | .storeUpdateMetadata newRoot metadata, db =>
    Tables.storeUpdateMetadata entity newRoot metadata db
  | .storeLatestUpdate update, db =>
    match Tables.storeLatestUpdate entity update db with
    | .ok db' => db'
    | .error _ => db
  | .storeUpdate update, db => UpdateHandler.storeUpdate entity update db
  | .storeProof leafIndex proof, db => Tables.storeProof entity leafIndex proof db
  | .storeProducedUpdate update, db =>
    match Tables.storeProducedUpdate entity update db with
    | .ok db' => db'
    | .error _ => db

/-- The database after calls through either handle, one after the other. -/
def run (name : List Byte) (calls : List (Handle × Call Byte)) (db : DB Byte) : DB Byte :=
  calls.foldl (fun db call => exec K (call.1.entity name) call.2 db) db

section Stores

variable (name : List Byte) (h : Handle)

/-- The index is stored unless the known one is as high. -/
def latestLeafIndexPuts (leafIndex : UInt32) (db : DB Byte) : List (Put Byte) :=
  match retrieveLatestLeafIndex (h.entity name) db with
  | .ok (some idx) => if leafIndex ≤ idx then [] else [entry h .latestLeafIndex () leafIndex]
  | _ => [entry h .latestLeafIndex () leafIndex]

def updatePuts (update : SignedUpdate Byte) : List (Put Byte) :=
  [entry h .update update.update.previousRoot update,
    entry h .prevRoot update.update.newRoot update.update.previousRoot]

/-- The typed stores that a call makes. -/
def puts : Call Byte → DB Byte → List (Put Byte)
  | .put t key value, _ => [entry h t key value]
  | .storeRawCommittedMessage message, db =>
    match OpticsMessage.readFrom message.message >>= OpticsMessage.destinationAndNonce with
    | .ok key =>
      [entry h .leafByNonce key (message.leaf K),
        entry h .leafByIndex message.leafIndex (message.leaf K)] ++
        latestLeafIndexPuts name h message.leafIndex db ++
        [entry h .message (message.leaf K) message]
    | .error _ => []
  | .updateLatestLeafIndex leafIndex, db => latestLeafIndexPuts name h leafIndex db
  | .storeUpdateMetadata newRoot metadata, _ => [entry h .updateMeta newRoot metadata]
  | .storeLatestUpdate update, db =>
    match retrieveLatestRoot (h.entity name) db with
    | .ok (some root) =>
      if root = update.update.previousRoot then
        entry h .latestRoot () update.update.newRoot :: updatePuts h update
      else updatePuts h update
    | .ok none => entry h .latestRoot () update.update.newRoot :: updatePuts h update
    | .error _ => []
  | .storeUpdate update, _ => updatePuts h update
  | .storeProof leafIndex proof, _ => [entry h .proof leafIndex proof]
  | .storeProducedUpdate update, db =>
    match Tables.storeProducedUpdate (h.entity name) update db with
    | .ok _ => [entry h .producedUpdate update.update.previousRoot update]
    | .error _ => []

theorem storeEncodable_eq_put (t : Table) (key : t.Key Byte) (value : t.Value Byte)
    (db : DB Byte) :
    storeEncodable (h.entity name) t.name (t.keyBytes key) value db =
      (layout name).put db (entry h t key value) := rfl

theorem updateLatestLeafIndex_eq (leafIndex : UInt32) (db : DB Byte) :
    updateLatestLeafIndex (h.entity name) leafIndex db =
      (latestLeafIndexPuts name h leafIndex db).foldl (layout name).put db := by
  unfold updateLatestLeafIndex latestLeafIndexPuts
  cases retrieveLatestLeafIndex (h.entity name) db with
  | error fault => rfl
  | ok latest =>
    cases latest with
    | none => rfl
    | some idx =>
      dsimp only
      split_ifs <;> rfl

/-- The leaves of a message are stored elsewhere than the latest index. -/
theorem latestLeafIndexPuts_of_leaves (leafIndex : UInt32) (key : UInt64) (leaf : Bytes32 Byte)
    (db : DB Byte) :
    latestLeafIndexPuts name h leafIndex
      ([entry h .leafByNonce key leaf, entry h .leafByIndex leafIndex leaf].foldl
        (layout name).put db) =
      latestLeafIndexPuts name h leafIndex db := by
  have hread : ∀ (db : DB Byte) (t : Table) (k : t.Key Byte) (v : t.Value Byte),
      t ≠ .latestLeafIndex →
      retrieveLatestLeafIndex (h.entity name) ((layout name).put db (entry h t k v)) =
        retrieveLatestLeafIndex (h.entity name) db := by
    intro db t k v ht
    have hlength : ([] ++ LATEST_LEAF_INDEX : List Byte).length = Table.latestLeafIndex.width :=
      length_row .latestLeafIndex ()
    refine retrieveDecodable_of_length_ne v fun heq => ht (width_injective ?_)
    exact (length_row t k).symm.trans (heq.symm.trans hlength)
  rw [latestLeafIndexPuts, latestLeafIndexPuts, List.foldl_cons, List.foldl_cons, List.foldl_nil,
    hread _ _ _ _ (by decide), hread _ _ _ _ (by decide)]

theorem storeRawCommittedMessage_eq (message : RawCommittedMessage Byte) (db : DB Byte) :
    exec K (h.entity name) (.storeRawCommittedMessage message) db =
      (puts K name h (.storeRawCommittedMessage message) db).foldl (layout name).put db := by
  rw [exec, puts, MessageIndex.storeRawCommittedMessage]
  cases hparsed : OpticsMessage.readFrom message.message with
  | error fault => rfl
  | ok parsed =>
    rw [ok_bind, ok_bind]
    cases parsed.destinationAndNonce with
    | error fault => rfl
    | ok key =>
      rw [ok_bind]
      dsimp only
      -- the call compares indices after it stored the leaves, `puts` before
      rw [List.foldl_append, List.foldl_append,
        ← latestLeafIndexPuts_of_leaves name h message.leafIndex key (message.leaf K) db,
        ← updateLatestLeafIndex_eq]
      rfl

theorem storeLatestUpdate_eq (update : SignedUpdate Byte) (db : DB Byte) :
    exec K (h.entity name) (.storeLatestUpdate update) db =
      (puts K name h (.storeLatestUpdate update) db).foldl (layout name).put db := by
  rw [exec, puts, Tables.storeLatestUpdate]
  cases retrieveLatestRoot (h.entity name) db with
  | error fault => rfl
  | ok latest =>
    rw [ok_bind]
    cases latest with
    | none => rfl
    | some root =>
      dsimp only
      split_ifs <;> rfl

theorem storeProducedUpdate_eq (update : SignedUpdate Byte) (db : DB Byte) :
    exec K (h.entity name) (.storeProducedUpdate update) db =
      (puts K name h (.storeProducedUpdate update) db).foldl (layout name).put db := by
  rw [exec, puts, Tables.storeProducedUpdate]
  cases retrieveProducedUpdate (h.entity name) update.update.previousRoot db with
  | error fault => rfl
  | ok existing =>
    cases existing with
    | none => rfl
    | some existing =>
      dsimp only
      split_ifs <;> rfl

/-- A call is the typed stores that it makes. -/
theorem exec_eq (call : Call Byte) (db : DB Byte) :
    exec K (h.entity name) call db = (puts K name h call db).foldl (layout name).put db := by
  cases call with
  | put t key value => exact storeEncodable_eq_put name h t key value db
  | storeRawCommittedMessage message => exact storeRawCommittedMessage_eq K name h message db
  | updateLatestLeafIndex leafIndex => exact updateLatestLeafIndex_eq name h leafIndex db
  | storeUpdateMetadata newRoot metadata => rfl
  | storeLatestUpdate update => exact storeLatestUpdate_eq K name h update db
  | storeUpdate update => rfl
  | storeProof leafIndex proof => rfl
  | storeProducedUpdate update => exact storeProducedUpdate_eq K name h update db

end Stores

/-- The typed stores of a run. -/
def stored (name : List Byte) : List (Handle × Call Byte) → DB Byte → List (Put Byte)
  | [], _ => []
  | (h, call) :: rest, db =>
    puts K name h call db ++ stored name rest (exec K (h.entity name) call db)

theorem run_eq (name : List Byte) (calls : List (Handle × Call Byte)) (db : DB Byte) :
    run K name calls db = (stored K name calls db).foldl (layout name).put db := by
  induction calls generalizing db with
  | nil => rfl
  | cons first rest ih =>
    obtain ⟨h, call⟩ := first
    -- the later puts are those of a run from the database after the first call
    rw [stored, List.foldl_append, ← exec_eq K name h call db, ← ih]
    rfl

/-! ### Reads -/

/-- The last value stored through a handle into a table under a key. -/
def lastStored (log : List (Put Byte)) (h : Handle) (t : Table) (key : t.Key Byte) :
    Option (t.Value Byte) :=
  last (Layout.Put.at ⟨(h, t), key⟩) log

omit [DecidableEq Byte] in
theorem retrieveDecodable_eq_get (name : List Byte) (h : Handle) (t : Table) (key : t.Key Byte)
    (db : DB Byte) :
    retrieveDecodable (t.Value Byte) (h.entity name) t.name (t.keyBytes key) db =
      (layout name).get db ⟨(h, t), key⟩ := by
  rw [retrieveDecodable, Layout.get]
  simp only [layout, decodeCell]
  cases db (fullPrefix (h.entity name) t.name ++ t.keyBytes key) with
  | none => rfl
  | some cell =>
    dsimp only
    cases (readFrom cell : Except Fault (t.Value Byte × List Byte)) <;> rfl

/-- Whatever was stored, a read of any table finds what was stored there last. -/
theorem retrieveDecodable_run (name : List Byte) (calls : List (Handle × Call Byte)) (h : Handle)
    (t : Table) (key : t.Key Byte) :
    retrieveDecodable (t.Value Byte) (h.entity name) t.name (t.keyBytes key)
        (run K name calls DB.empty) =
      .ok (lastStored (stored K name calls DB.empty) h t key) := by
  have hholds := (layout name).holds_nil.foldl (stored K name calls DB.empty)
  rw [retrieveDecodable_eq_get, run_eq]
  exact hholds.get ⟨(h, t), key⟩

/-- **Tables never mix.** After any calls through both handles, each read finds what was
last stored through its handle, into its table and under its key, and never fails; the
read by destination and nonce where both are below the largest `u32`. -/
theorem read_last (name : List Byte) (calls : List (Handle × Call Byte)) (h : Handle) :
    let db := run K name calls DB.empty
    let log := stored K name calls DB.empty
    (∀ index, leafByLeafIndex (h.entity name) db index =
      .ok (lastStored log h .leafByIndex index)) ∧
    (∀ destination nonce, destination < U32_MAX → nonce < U32_MAX →
      leafByNonce (h.entity name) db destination nonce =
        .ok (lastStored log h .leafByNonce (Home._destinationAndNonce destination nonce))) ∧
    (∀ leaf, messageByLeaf (h.entity name) db leaf = .ok (lastStored log h .message leaf)) ∧
    (∀ root, updateByPreviousRoot (h.entity name) root db = .ok (lastStored log h .update root)) ∧
    (∀ root, prevRootByNewRoot (h.entity name) root db =
      .ok (lastStored log h .prevRoot root)) ∧
    (∀ root, retrieveUpdateMetadata (h.entity name) root db =
      .ok (lastStored log h .updateMeta root)) ∧
    (∀ index, proofByLeafIndex (h.entity name) index db = .ok (lastStored log h .proof index)) ∧
    (∀ root, retrieveProducedUpdate (h.entity name) root db =
      .ok (lastStored log h .producedUpdate root)) ∧
    retrieveLatestRoot (h.entity name) db = .ok (lastStored log h .latestRoot ()) ∧
    retrieveLatestLeafIndex (h.entity name) db = .ok (lastStored log h .latestLeafIndex ()) := by
  intro db log
  have hread : ∀ (t : Table) (key : t.Key Byte),
      retrieveDecodable (t.Value Byte) (h.entity name) t.name (t.keyBytes key) db =
        .ok (lastStored log h t key) := retrieveDecodable_run K name calls h
  refine ⟨hread .leafByIndex, fun destination nonce hdestination hnonce => ?_, hread .message,
    hread .update, hread .prevRoot, hread .updateMeta, hread .proof, hread .producedUpdate,
    hread .latestRoot (), hread .latestLeafIndex ()⟩
  -- below the largest `u32` nothing is asserted away, and the key is the packed pair
  have hkey := destinationAndNonce_eq_ok.mpr
    ⟨hdestination, hnonce, (rfl : Home._destinationAndNonce destination nonce = _)⟩
  rw [leafByNonce, hkey, ok_bind]
  exact hread .leafByNonce _

end Runs

section Sample

/-- A lower index after a higher one, with a still higher one through the other handle. -/
def sampleCalls : List (Handle × Call ℕ) :=
  [(.home, .updateLatestLeafIndex 5), (.watcher, .updateLatestLeafIndex 7),
    (.home, .updateLatestLeafIndex 3)]

/-- The last leaf index handed to a handle is not what it holds when it is not the
highest, and no leaf is looked for under the largest domain. -/
theorem read_last_refused :
    retrieveLatestLeafIndex [] (run (Crypto.withIdealHash fun _ _ => none) [] sampleCalls DB.empty) =
      .ok (some 5) ∧
    leafByNonce [] (DB.empty : DB ℕ) 0xffffffff 0 =
      .error (.panicked "destination < u32::MAX") :=
  ⟨rfl, rfl⟩

end Sample

end Optics.Tables
