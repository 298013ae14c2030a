/-
# The message index of the agents

An agent feeds every `Dispatch` event that it sees to its database. The message
goes into a table by its leaf, and the leaf into a table by leaf index and by
destination and nonce; both kinds of key live in one table and differ by their
length only.

Packing destination and nonce asserts that both are below the largest `u32`.
Nonces are, since a Home takes fewer messages, but Home accepts every
destination. The index is therefore right for every feed of events in which
nobody has dispatched to the largest domain, and a feed with such an event stops
at it.
-/

import Optics.Agents.KeyValue
import Optics.Core.HomeInvariant
import Optics.Core.HomeMessages

namespace Optics.MessageIndex

open Optics.Solidity Optics.KeyValue Optics.Home Optics.Math.Transition

variable {Byte : Type}

/-- `u32::MAX`. -/
def U32_MAX : UInt32 := 0xffffffff

/-- `OpticsMessage`. -/
structure OpticsMessage (Byte : Type) where
  origin : UInt32
  sender : Bytes32 Byte
  nonce : UInt32
  destination : UInt32
  recipient : Bytes32 Byte
  body : List Byte

/-- `RawCommittedMessage`. -/
structure RawCommittedMessage (Byte : Type) where
  leafIndex : UInt32
  committedRoot : Bytes32 Byte
  message : List Byte

/-- `RawCommittedMessage::leaf`. -/
def RawCommittedMessage.leaf (K : Crypto Byte) (message : RawCommittedMessage Byte) :
    Bytes32 Byte :=
  K.keccak256 message.message

/-- The entry of `fetch_sorted_messages` for an event. The cast of the index
panics when it does not fit. -/
def RawCommittedMessage.ofDispatch (e : DispatchEvent Byte) :
    Except Fault (RawCommittedMessage Byte) :=
  if e.leafIndex < 2 ^ 32 then .ok ⟨UInt32.ofNat e.leafIndex, e.committedRoot, e.message⟩
  else .error (.panicked "Integer overflow when casting to u32")

/-- `assert!`. -/
def check (condition : Prop) [Decidable condition] (text : String) : Except Fault Unit :=
  if condition then .ok () else .error (.panicked text)

/-- `utils::destination_and_nonce`. -/
def destinationAndNonce (destination nonce : UInt32) : Except Fault UInt64 := do
  check (destination < U32_MAX) "destination < u32::MAX"
  check (nonce < U32_MAX) "nonce < u32::MAX"
  .ok ((destination.toUInt64 <<< 32) ||| nonce.toUInt64)

variable [ByteAlphabet Byte]

/-- `OpticsMessage::read_from`. -/
def OpticsMessage.readFrom (bytes : List Byte) : Except Fault (OpticsMessage Byte) := do
  let (origin, bytes) ← readUint32 bytes
  let (sender, bytes) ← readWord bytes
  let (nonce, bytes) ← readUint32 bytes
  let (destination, bytes) ← readUint32 bytes
  let (recipient, body) ← readWord bytes
  .ok ⟨origin, sender, nonce, destination, recipient, body⟩

/-- `OpticsMessage::destination_and_nonce`. -/
def OpticsMessage.destinationAndNonce (message : OpticsMessage Byte) : Except Fault UInt64 :=
  MessageIndex.destinationAndNonce message.destination message.nonce

/-- `RawCommittedMessage::write_to`. -/
def RawCommittedMessage.writeTo (message : RawCommittedMessage Byte) : List Byte :=
  uint32Bytes message.leafIndex ++ message.committedRoot.toList ++ message.message

/-- `RawCommittedMessage::read_from`. -/
def RawCommittedMessage.readFrom (bytes : List Byte) :
    Except Fault (RawCommittedMessage Byte × List Byte) := do
  let (leafIndex, bytes) ← readUint32 bytes
  let (committedRoot, message) ← readWord bytes
  .ok (⟨leafIndex, committedRoot, message⟩, [])

instance encodeRawCommittedMessage : Encode Byte (RawCommittedMessage Byte) :=
  ⟨RawCommittedMessage.writeTo⟩

instance decodeRawCommittedMessage : Decode Byte (RawCommittedMessage Byte) :=
  ⟨RawCommittedMessage.readFrom⟩

theorem RawCommittedMessage.readFrom_writeTo (message : RawCommittedMessage Byte) :
    readFrom message.writeTo = .ok (message, []) := by
  rw [readFrom, writeTo, List.append_assoc, readUint32_append, ok_bind]
  dsimp only
  rw [readWord_append, ok_bind]

instance lawfulRawCommittedMessage : LawfulCodec Byte (RawCommittedMessage Byte) where
  readFrom_toVec message := ⟨[], message.readFrom_writeTo⟩

/-! ### Tables -/

/-- The ASCII bytes of `"leaf_"`. -/
def LEAF : List Byte := [0x6c, 0x65, 0x61, 0x66, 0x5f].map ofByte

/-- The ASCII bytes of `"message_"`. -/
def MESSAGE : List Byte := [0x6d, 0x65, 0x73, 0x73, 0x61, 0x67, 0x65, 0x5f].map ofByte

/-- The ASCII bytes of `"latest_known_leaf_index_"`. -/
def LATEST_LEAF_INDEX : List Byte :=
  [0x6c, 0x61, 0x74, 0x65, 0x73, 0x74, 0x5f, 0x6b, 0x6e, 0x6f, 0x77, 0x6e, 0x5f, 0x6c, 0x65, 0x61,
    0x66, 0x5f, 0x69, 0x6e, 0x64, 0x65, 0x78, 0x5f].map ofByte

section Reads

variable (entity : List Byte) (db : DB Byte)

/-- `retrieve_latest_leaf_index`. -/
def retrieveLatestLeafIndex : Except Fault (Option UInt32) :=
  retrieveDecodable UInt32 entity [] LATEST_LEAF_INDEX db

/-- `message_by_leaf`. -/
def messageByLeaf (leaf : Bytes32 Byte) : Except Fault (Option (RawCommittedMessage Byte)) :=
  retrieveKeyedDecodable (RawCommittedMessage Byte) entity MESSAGE leaf db

/-- `leaf_by_leaf_index`. -/
def leafByLeafIndex (leafIndex : UInt32) : Except Fault (Option (Bytes32 Byte)) :=
  retrieveKeyedDecodable (Bytes32 Byte) entity LEAF leafIndex db

/-- The read of `leaf_by_nonce`, by the packed key. -/
def leafByKey (key : UInt64) : Except Fault (Option (Bytes32 Byte)) :=
  retrieveKeyedDecodable (Bytes32 Byte) entity LEAF key db

/-- `leaf_by_nonce`. -/
def leafByNonce (destination nonce : UInt32) : Except Fault (Option (Bytes32 Byte)) := do
  let key ← destinationAndNonce destination nonce
  leafByKey entity db key

/-- `message_by_nonce`. -/
def messageByNonce (destination nonce : UInt32) :
    Except Fault (Option (RawCommittedMessage Byte)) := do
  match ← leafByNonce entity db destination nonce with
  | none => .ok none
  | some leaf => messageByLeaf entity db leaf

/-- `message_by_leaf_index`. -/
def messageByLeafIndex (index : UInt32) : Except Fault (Option (RawCommittedMessage Byte)) := do
  match ← leafByLeafIndex entity db index with
  | none => .ok none
  | some leaf => messageByLeaf entity db leaf

end Reads

section Writes

variable [DecidableEq Byte] (K : Crypto Byte) (entity : List Byte)

/-- `update_latest_leaf_index`. -/
def updateLatestLeafIndex (leafIndex : UInt32) (db : DB Byte) : DB Byte :=
  match retrieveLatestLeafIndex entity db with
  | .ok (some idx) =>
    if leafIndex ≤ idx then db else storeEncodable entity [] LATEST_LEAF_INDEX leafIndex db
  | _ => storeEncodable entity [] LATEST_LEAF_INDEX leafIndex db

/-- `store_leaf`. -/
def storeLeaf (leafIndex : UInt32) (key : UInt64) (leaf : Bytes32 Byte) (db : DB Byte) :
    DB Byte :=
  let db := storeKeyedEncodable entity LEAF key leaf db
  let db := storeKeyedEncodable entity LEAF leafIndex leaf db
  updateLatestLeafIndex entity leafIndex db

/-- `store_raw_committed_message`. -/
def storeRawCommittedMessage (message : RawCommittedMessage Byte) (db : DB Byte) :
    Except Fault (DB Byte) := do
  let parsed ← OpticsMessage.readFrom message.message
  let key ← parsed.destinationAndNonce
  let leaf := message.leaf K
  let db := storeLeaf entity message.leafIndex key leaf db
  .ok (storeKeyedEncodable entity MESSAGE leaf message db)

/-- The events of a feed are stored one after the other. -/
def storeAll : List (DispatchEvent Byte) → DB Byte → Except Fault (DB Byte)
  | [], db => .ok db
  | e :: rest, db => do
    let message ← RawCommittedMessage.ofDispatch e
    let db ← storeRawCommittedMessage K entity message db
    storeAll rest db

end Writes

/-! ### What a store changes -/

theorem check_bind_eq_ok {condition : Prop} [Decidable condition] {text : String} {β : Type}
    {f : Unit → Except Fault β} {b : β} :
    (check condition text >>= f) = .ok b ↔ condition ∧ f () = .ok b := by
  unfold check
  split_ifs with h <;> simp [h]

omit [ByteAlphabet Byte] in
theorem destinationAndNonce_eq_ok {destination nonce : UInt32} {key : UInt64} :
    destinationAndNonce destination nonce = .ok key ↔
      destination < U32_MAX ∧ nonce < U32_MAX ∧ key = _destinationAndNonce destination nonce := by
  rw [destinationAndNonce, check_bind_eq_ok, check_bind_eq_ok, Except.ok.injEq,
    _destinationAndNonce,
    eq_comm (a := key)]

/-- Reading a formatted message gives its fields back. -/
theorem readFrom_formatMessage (o n d : UInt32) (s r : Bytes32 Byte) (b : List Byte) :
    OpticsMessage.readFrom (Message.formatMessage o s n d r b) = .ok ⟨o, s, n, d, r, b⟩ := by
  rw [Message.formatMessage, OpticsMessage.readFrom]
  simp only [List.append_assoc, readUint32_append, readWord_append, ok_bind]

@[simp] theorem length_LEAF : (LEAF : List Byte).length = 5 := rfl

@[simp] theorem length_MESSAGE : (MESSAGE : List Byte).length = 8 := rfl

@[simp] theorem length_LATEST_LEAF_INDEX : (LATEST_LEAF_INDEX : List Byte).length = 24 := rfl

section Stored

variable [DecidableEq Byte] {K : Crypto Byte} {entity : List Byte} {db db' : DB Byte}

/-- The latest index after `leafIndex` was stored. -/
def latestOf (latest : Option UInt32) (leafIndex : UInt32) : UInt32 :=
  match latest with
  | some idx => if leafIndex ≤ idx then idx else leafIndex
  | none => leafIndex

theorem retrieveLatestLeafIndex_update {latest : Option UInt32} (leafIndex : UInt32)
    (h : retrieveLatestLeafIndex entity db = .ok latest) :
    retrieveLatestLeafIndex entity (updateLatestLeafIndex entity leafIndex db) =
      .ok (some (latestOf latest leafIndex)) := by
  rw [updateLatestLeafIndex, h]
  cases latest with
  | none => exact retrieveDecodable_self leafIndex
  | some idx =>
    by_cases hle : leafIndex ≤ idx
    · simp only [hle, if_true, latestOf]
      exact h
    · simp only [hle, if_false, latestOf]
      exact retrieveDecodable_self leafIndex

/-- Keeping track of the latest index leaves every other row. -/
theorem retrieveDecodable_updateLatest {α : Type} [Decode Byte α] {table key : List Byte}
    (leafIndex : UInt32) (h : (table ++ key).length ≠ 24) :
    retrieveDecodable α entity table key (updateLatestLeafIndex entity leafIndex db) =
      retrieveDecodable α entity table key db := by
  have hstore : retrieveDecodable α entity table key
      (storeEncodable entity [] LATEST_LEAF_INDEX leafIndex db) =
        retrieveDecodable α entity table key db := by
    apply retrieveDecodable_of_length_ne
    simpa using h
  unfold updateLatestLeafIndex
  split
  · split_ifs
    · rfl
    · exact hstore
  · exact hstore

/-- The rows after a message was stored under a packed key. -/
structure Stored (entity : List Byte) (db db' : DB Byte) (key : UInt64) (leaf : Bytes32 Byte)
    (message : RawCommittedMessage Byte) : Prop where
  byKey : ∀ x, leafByKey entity db' x =
    if x = key then .ok (some leaf) else leafByKey entity db x
  byIndex : ∀ x, leafByLeafIndex entity db' x =
    if x = message.leafIndex then .ok (some leaf) else leafByLeafIndex entity db x
  byLeaf : ∀ x, messageByLeaf entity db' x =
    if x = leaf then .ok (some message) else messageByLeaf entity db x
  latest : ∀ latest, retrieveLatestLeafIndex entity db = .ok latest →
    retrieveLatestLeafIndex entity db' = .ok (some (latestOf latest message.leafIndex))

/-- The three kinds of row and the latest index never share a key: without the
entity the keys have 13, 9, 40 and 24 bytes. -/
theorem stored_of_writes (entity : List Byte) (db : DB Byte) (key : UInt64)
    (leaf : Bytes32 Byte) (message : RawCommittedMessage Byte) :
    Stored entity db (storeKeyedEncodable entity MESSAGE leaf message
      (storeLeaf entity message.leafIndex key leaf db)) key leaf message where
  -- Each read passes the writes of the other kinds, by their lengths, and
  -- meets the one of its own kind.
  byKey x := by
    rw [leafByKey, retrieveKeyedDecodable, storeKeyedEncodable,
      retrieveDecodable_of_length_ne _ (by simp), storeLeaf,
      retrieveDecodable_updateLatest _ (by simp), storeKeyedEncodable,
      retrieveDecodable_of_length_ne _ (by simp)]
    exact retrieveKeyedDecodable_store toVec_uint64_injective key x leaf
  byIndex x := by
    rw [leafByLeafIndex, retrieveKeyedDecodable, storeKeyedEncodable,
      retrieveDecodable_of_length_ne _ (by simp), storeLeaf,
      retrieveDecodable_updateLatest _ (by simp)]
    refine (retrieveKeyedDecodable_store toVec_uint32_injective _ x leaf).trans ?_
    congr 1
    exact retrieveDecodable_of_length_ne _ (by simp)
  byLeaf x := by
    rw [messageByLeaf, retrieveKeyedDecodable_store toVec_word_injective]
    congr 1
    rw [retrieveKeyedDecodable, storeLeaf, retrieveDecodable_updateLatest _ (by simp),
      storeKeyedEncodable, retrieveDecodable_of_length_ne _ (by simp), storeKeyedEncodable,
      retrieveDecodable_of_length_ne _ (by simp)]
    rfl
  latest latest h := by
    rw [retrieveLatestLeafIndex, storeKeyedEncodable, retrieveDecodable_of_length_ne _ (by simp)]
    apply retrieveLatestLeafIndex_update
    rw [retrieveLatestLeafIndex, storeKeyedEncodable, retrieveDecodable_of_length_ne _ (by simp),
      storeKeyedEncodable, retrieveDecodable_of_length_ne _ (by simp)]
    exact h

end Stored

/-! ### A feed of events -/

/-- What the message table holds for an event. -/
def raw (e : DispatchEvent Byte) : RawCommittedMessage Byte :=
  ⟨UInt32.ofNat e.leafIndex, e.committedRoot, e.message⟩

/-- A Home whose only message goes to the given domain, with the nonce zero. -/
theorem exists_dispatched_to (destination : UInt32) :
    ∃ (history : History ℕ) (e : DispatchEvent ℕ),
      (Home.system (Crypto.withIdealHash fun _ _ => none)).Reachable history ∧
        dispatches history.log = [e] ∧ Message.destination e.message = .ok destination ∧
        Message.nonce e.message = .ok 0 := by
  have hinit := initial_of_isContract 1000 (sampleContext : Context ℕ) 0 0 rfl
  have hin := (History.Initial.sound (K := Crypto.withIdealHash fun _ _ => none) hinit).inStep
  obtain ⟨tree, hinsert, hexec⟩ := dispatch_of_room sampleContext destination 0 [] rfl hin.tree
    (by simp [MerkleLib.MAX_LEAVES, MerkleLib.TREE_DEPTH, History.leaves]) (by simp) (Nat.zero_le _)
  refine ⟨_, _, (System.reachable_init hinit).step (History.step_of_exec hexec), rfl, ?_, ?_⟩
  · exact Message.destination_formatMessage _ _ _ _ _ _
  · exact Message.nonce_formatMessage _ _ _ _ _ _

section Feed

variable [DecidableEq Byte] {K : Crypto Byte} {entity : List Byte} {db db' : DB Byte}
  {history : History Byte} {stored feed : List (DispatchEvent Byte)} {e : DispatchEvent Byte}

omit [ByteAlphabet Byte] [DecidableEq Byte] in
/-- Rows that each belong to one event survive the store of another event. -/
theorem rows_concat {κ ρ : Type} [DecidableEq κ] (row : DispatchEvent Byte → κ)
    {value : DispatchEvent Byte → ρ} {read read' : κ → ρ}
    (hread : ∀ x, read' x = if x = row e then value e else read x)
    (hrow : ∀ e' ∈ stored, row e' = row e → e' = e)
    (h : ∀ e' ∈ stored, read (row e') = value e') :
    ∀ e' ∈ stored ++ [e], read' (row e') = value e' := by
  intro e' he'
  rw [hread]
  by_cases hsame : row e' = row e
  · rw [if_pos hsame]
    rcases List.mem_append.mp he' with he' | he'
    · rw [hrow e' he' hsame]
    · rw [List.mem_singleton.mp he']
  · rw [if_neg hsame]
    rcases List.mem_append.mp he' with he' | he'
    · exact h e' he'
    · exact absurd (congrArg row (List.mem_singleton.mp he')) hsame

/-- The rows of the database are those of the stored events. -/
structure Holds (entity : List Byte) (db : DB Byte) (stored : List (DispatchEvent Byte)) :
    Prop where
  byKey : ∀ e ∈ stored, leafByKey entity db e.destinationAndNonce = .ok (some e.messageHash)
  byIndex : ∀ e ∈ stored, leafByLeafIndex entity db (raw e).leafIndex = .ok (some e.messageHash)
  byLeaf : ∀ e ∈ stored, messageByLeaf entity db e.messageHash = .ok (some (raw e))
  latest : ∃ latest, retrieveLatestLeafIndex entity db = .ok latest ∧
    latest.map UInt32.toNat = (stored.map DispatchEvent.leafIndex).max?

omit [DecidableEq Byte] in
theorem holds_empty : Holds entity (DB.empty : DB Byte) [] where
  byKey _ he := by cases he
  byIndex _ he := by cases he
  byLeaf _ he := by cases he
  latest := ⟨none, rfl, rfl⟩

omit [DecidableEq Byte] in
/-- The leaf index that is stored for an event is the one it was emitted with. -/
theorem toNat_leafIndex_raw (h : history.Numbered K) (he : e ∈ dispatches history.log) :
    (raw e).leafIndex.toNat = e.leafIndex := by
  have hlt := h.leafIndex_lt he
  rw [MerkleLib.MAX_LEAVES, MerkleLib.TREE_DEPTH] at hlt
  have hfits : e.leafIndex < UInt32.size := hlt.trans_le (by decide)
  exact UInt32.toNat_ofNat_of_lt' hfits

omit [ByteAlphabet Byte] [DecidableEq Byte] in
/-- The latest index is the largest one. -/
theorem map_latestOf {latest : Option UInt32} {index : UInt32} {indexes : List ℕ}
    (h : latest.map UInt32.toNat = indexes.max?) :
    some (latestOf latest index).toNat = (indexes ++ [index.toNat]).max? := by
  symm
  cases latest with
  | none =>
    -- No latest index means that nothing was stored.
    have hnil : indexes = [] := List.max?_eq_none_iff.mp h.symm
    subst hnil
    rfl
  | some idx =>
    obtain ⟨hmem, hmax⟩ := List.max?_eq_some_iff.mp h.symm
    rw [List.max?_eq_some_iff]
    rw [latestOf]
    by_cases hle : index ≤ idx
    · rw [if_pos hle]
      refine ⟨List.mem_append_left _ hmem, fun i hi => ?_⟩
      rcases List.mem_append.mp hi with hi | hi
      · exact hmax i hi
      · rw [List.mem_singleton.mp hi]
        exact hle
    · rw [if_neg hle]
      refine ⟨List.mem_append_right _ (List.mem_singleton_self _), fun i hi => ?_⟩
      rcases List.mem_append.mp hi with hi | hi
      · have hlt : idx.toNat < index.toNat := Nat.lt_of_not_le hle
        exact (hmax i hi).trans hlt.le
      · rw [List.mem_singleton.mp hi]

/-- Storing one more event of the log adds its rows and spoils no other. -/
theorem Holds.concat (ideal : Crypto.IdealHash K) (hlog : history.Numbered K)
    (h : Holds entity db stored) (hstored : ∀ e' ∈ stored, e' ∈ dispatches history.log)
    (he : e ∈ dispatches history.log)
    (hrows : Stored entity db db' e.destinationAndNonce e.messageHash (raw e)) :
    Holds entity db' (stored ++ [e]) where
  byKey := by
    apply rows_concat DispatchEvent.destinationAndNonce hrows.byKey _ h.byKey
    intro e' he' hkey
    exact hlog.event_of_destinationAndNonce (hstored e' he') he hkey
  byIndex := by
    apply rows_concat (fun e => (raw e).leafIndex) hrows.byIndex _ h.byIndex
    intro e' he' hindex
    have hvalue := congrArg UInt32.toNat hindex
    rw [toNat_leafIndex_raw hlog (hstored e' he'), toNat_leafIndex_raw hlog he] at hvalue
    exact hlog.event_unique (hstored e' he') he hvalue
  byLeaf := by
    apply rows_concat DispatchEvent.messageHash hrows.byLeaf _ h.byLeaf
    intro e' he' hhash
    exact hlog.event_of_messageHash ideal.injective (hstored e' he') he hhash
  latest := by
    obtain ⟨latest, hread, hmax⟩ := h.latest
    refine ⟨_, hrows.latest latest hread, ?_⟩
    -- The maximum does not depend on the order or the repetitions of the feed.
    rw [List.map_append, List.map_singleton, ← toNat_leafIndex_raw hlog he]
    exact map_latestOf hmax

omit [DecidableEq Byte] in
/-- An event of the log is read by its message. -/
theorem readFrom_event (hlog : history.Numbered K) (he : e ∈ dispatches history.log) :
    ∃ parsed, OpticsMessage.readFrom e.message = .ok parsed ∧
      Message.destination e.message = .ok parsed.destination ∧
      Message.nonce e.message = .ok parsed.nonce ∧ parsed.nonce < U32_MAX ∧
      e.destinationAndNonce = _destinationAndNonce parsed.destination parsed.nonce ∧
      e.messageHash = K.keccak256 e.message := by
  obtain ⟨d, hd, hannounced⟩ := hlog.announced e he
  refine ⟨_, (congrArg _ hannounced.message).trans (readFrom_formatMessage _ _ _ _ _ _), ?_, ?_,
    hlog.nonce_lt hd, hannounced.destinationAndNonce, ?_⟩
  · rw [hannounced.message, Dispatched.message, Message.destination_formatMessage]
  · rw [hannounced.message, Dispatched.message, Message.nonce_formatMessage]
  · rw [hannounced.messageHash, hannounced.message]

omit [DecidableEq Byte] in
theorem ofDispatch_event (hlog : history.Numbered K)
    (he : e ∈ dispatches history.log) : RawCommittedMessage.ofDispatch e = .ok (raw e) := by
  have hlt := hlog.leafIndex_lt he
  rw [MerkleLib.MAX_LEAVES, MerkleLib.TREE_DEPTH] at hlt
  exact if_pos (by omega)

theorem lt_max_of_ne {destination : UInt32} (h : destination ≠ U32_MAX) :
    destination < U32_MAX := by
  have hlt := destination.toNat_lt
  have hmax : U32_MAX.toNat = 2 ^ 32 - 1 := rfl
  have hne : destination.toNat ≠ U32_MAX.toNat := fun heq => h (UInt32.toNat_inj.mp heq)
  apply UInt32.lt_iff_toNat_lt.mpr
  omega

/-- Storing an event of the log succeeds unless its destination is the largest
domain. -/
theorem storeRawCommittedMessage_of_ne (hlog : history.Numbered K)
    (he : e ∈ dispatches history.log) (hne : Message.destination e.message ≠ .ok U32_MAX)
    (db : DB Byte) :
    ∃ db', storeRawCommittedMessage K entity (raw e) db = .ok db' ∧
      Stored entity db db' e.destinationAndNonce e.messageHash (raw e) := by
  obtain ⟨parsed, hread, hdestination, -, hnonce, hkey, hhash⟩ := readFrom_event hlog he
  have hlt : parsed.destination < U32_MAX := by
    apply lt_max_of_ne
    intro heq
    exact hne (heq ▸ hdestination)
  have hpacked : parsed.destinationAndNonce = .ok e.destinationAndNonce :=
    destinationAndNonce_eq_ok.mpr ⟨hlt, hnonce, hkey⟩
  have hleaf : (raw e).leaf K = e.messageHash := hhash.symm
  refine ⟨_, ?_, stored_of_writes entity db _ _ _⟩
  rw [storeRawCommittedMessage, raw, hread, ok_bind, hpacked, ok_bind]
  exact congrArg (fun leaf => Except.ok (storeKeyedEncodable entity MESSAGE leaf (raw e)
    (storeLeaf entity (raw e).leafIndex e.destinationAndNonce leaf db))) hleaf

/-- Storing a message to the largest domain panics. -/
theorem storeRawCommittedMessage_of_eq (hlog : history.Numbered K)
    (he : e ∈ dispatches history.log) (heq : Message.destination e.message = .ok U32_MAX)
    (db : DB Byte) :
    storeRawCommittedMessage K entity (raw e) db =
      .error (.panicked "destination < u32::MAX") := by
  obtain ⟨parsed, hread, hdestination, -⟩ := readFrom_event hlog he
  have hmax : parsed.destination = U32_MAX := Except.ok.inj (hdestination.symm.trans heq)
  have hpanic : parsed.destinationAndNonce = .error (.panicked "destination < u32::MAX") := by
    rw [OpticsMessage.destinationAndNonce, destinationAndNonce, hmax]
    rfl
  rw [storeRawCommittedMessage, raw, hread, ok_bind, hpanic, error_bind]

/-- **Run lemma.** A feed without the largest destination is stored, and the
database holds its rows. -/
theorem Holds.storeAll (ideal : Crypto.IdealHash K) (hlog : history.Numbered K)
    (h : Holds entity db stored) (hstored : ∀ e ∈ stored, e ∈ dispatches history.log)
    (hfeed : ∀ e ∈ feed, e ∈ dispatches history.log)
    (hne : ∀ e ∈ feed, Message.destination e.message ≠ .ok U32_MAX) :
    ∃ db', MessageIndex.storeAll K entity feed db = .ok db' ∧
      Holds entity db' (stored ++ feed) := by
  induction feed generalizing db stored with
  | nil => exact ⟨db, rfl, by rwa [List.append_nil]⟩
  -- The invariant is about what was stored so far, which the induction
  -- lets grow by the event at the head of the feed.
  | cons e rest ih =>
    have he := hfeed e List.mem_cons_self
    obtain ⟨db₁, hstore, hrows⟩ :=
      storeRawCommittedMessage_of_ne hlog he (hne e List.mem_cons_self) db
    have hnext : ∀ e' ∈ stored ++ [e], e' ∈ dispatches history.log := by
      intro e' he'
      rcases List.mem_append.mp he' with he' | he'
      · exact hstored e' he'
      · exact List.mem_singleton.mp he' ▸ he
    obtain ⟨db', hall, hholds⟩ := ih (h.concat ideal hlog hstored he hrows) hnext
      (fun e' he' => hfeed e' (List.mem_cons_of_mem _ he'))
      (fun e' he' => hne e' (List.mem_cons_of_mem _ he'))
    refine ⟨db', ?_, by simpa using hholds⟩
    rw [MessageIndex.storeAll, ofDispatch_event hlog he, ok_bind, hstore, ok_bind, hall]

/-- A feed that is stored has no event with the largest destination. -/
theorem ne_of_storeAll_eq_ok (hlog : history.Numbered K)
    (hfeed : ∀ e ∈ feed, e ∈ dispatches history.log)
    (h : MessageIndex.storeAll K entity feed db = .ok db') :
    ∀ e ∈ feed, Message.destination e.message ≠ .ok U32_MAX := by
  induction feed generalizing db with
  | nil => exact fun _ he => by cases he
  | cons e rest ih =>
    have he := hfeed e List.mem_cons_self
    rw [MessageIndex.storeAll, ofDispatch_event hlog he, ok_bind, bind_eq_ok] at h
    obtain ⟨db₁, hstore, hrest⟩ := h
    -- An event to the largest domain ends the feed there.
    have hfirst : Message.destination e.message ≠ .ok U32_MAX := by
      intro heq
      rw [storeRawCommittedMessage_of_eq hlog he heq] at hstore
      cases hstore
    intro e' he'
    rcases List.mem_cons.mp he' with rfl | he'
    · exact hfirst
    · exact ih (fun x hx => hfeed x (List.mem_cons_of_mem _ hx)) hrest e' he'

/-- The database answers for every stored event with its message, byte for byte
and with its leaf index, and knows the largest index. -/
structure Serves (entity : List Byte) (db : DB Byte) (stored : List (DispatchEvent Byte)) :
    Prop where
  found : ∀ e ∈ stored, ∃ message : RawCommittedMessage Byte,
    message.leafIndex.toNat = e.leafIndex ∧ message.committedRoot = e.committedRoot ∧
      message.message = e.message ∧
      messageByLeaf entity db e.messageHash = .ok (some message) ∧
      messageByLeafIndex entity db message.leafIndex = .ok (some message) ∧
      ∀ destination nonce, Message.destination e.message = .ok destination →
        Message.nonce e.message = .ok nonce →
        messageByNonce entity db destination nonce = .ok (some message)
  latest : ∃ latest, retrieveLatestLeafIndex entity db = .ok latest ∧
    latest.map UInt32.toNat = (stored.map DispatchEvent.leafIndex).max?

omit [DecidableEq Byte] in
theorem Holds.serves (hlog : history.Numbered K) (h : Holds entity db stored)
    (hstored : ∀ e ∈ stored, e ∈ dispatches history.log)
    (hne : ∀ e ∈ stored, Message.destination e.message ≠ .ok U32_MAX) :
    Serves entity db stored where
  found e he := by
    have hmem := hstored e he
    have hleaf := h.byLeaf e he
    refine ⟨raw e, toNat_leafIndex_raw hlog hmem, rfl, rfl, hleaf, ?_, ?_⟩
    · rw [messageByLeafIndex, h.byIndex e he, ok_bind]
      exact hleaf
    · intro destination nonce hdestination hnonce
      obtain ⟨parsed, -, hdestination', hnonce', hlt, hkey, -⟩ := readFrom_event hlog hmem
      obtain rfl := Except.ok.inj (hdestination.symm.trans hdestination')
      obtain rfl := Except.ok.inj (hnonce.symm.trans hnonce')
      have hmax : parsed.destination < U32_MAX := by
        apply lt_max_of_ne
        intro heq
        exact hne e he (heq ▸ hdestination)
      have hpacked := destinationAndNonce_eq_ok.mpr ⟨hmax, hlt, hkey⟩
      rw [messageByNonce, leafByNonce, hpacked, ok_bind, h.byKey e he, ok_bind]
      exact hleaf
  latest := h.latest

/-- **Indexing what Home accepts.** The events of a Home, fed to an empty
database in any order and with any repetitions, are all stored and found again
if and only if none of them goes to the largest domain. -/
theorem indexed_iff (ideal : Crypto.IdealHash K) (hreach : (Home.system K).Reachable history)
    (entity : List Byte) (hfeed : ∀ e ∈ feed, e ∈ dispatches history.log) :
    (∃ db, storeAll K entity feed DB.empty = .ok db ∧ Serves entity db feed) ↔
      ∀ e ∈ feed, Message.destination e.message ≠ .ok U32_MAX := by
  have hlog := History.numbered_of_reachable hreach
  constructor
  · rintro ⟨db, hall, -⟩
    exact ne_of_storeAll_eq_ok hlog hfeed hall
  · intro hne
    obtain ⟨db, hall, hholds⟩ :=
      holds_empty.storeAll ideal hlog (fun _ he => by cases he) hfeed hne
    exact ⟨db, hall, hholds.serves hlog hfeed hne⟩

end Feed

/-- An event of a domain that the agents can pack, stored twice. -/
theorem indexed_iff_repeated :
    ∃ (history : History ℕ) (e : DispatchEvent ℕ), dispatches history.log = [e] ∧
      ∃ db, storeAll (Crypto.withIdealHash fun _ _ => none) [] [e, e] DB.empty = .ok db ∧
        Serves [] db [e, e] := by
  obtain ⟨history, e, hreach, hlog, hdestination, -⟩ := exists_dispatched_to 2000
  refine ⟨history, e, hlog, ?_⟩
  have hmem : ∀ e' ∈ [e, e], e' = e := by simp
  apply (indexed_iff (Crypto.withIdealHash_ideal _) hreach [] _).mpr
  · intro e' he'
    rw [hmem e' he', hdestination]
    decide
  · intro e' he'
    rw [hmem e' he', hlog]
    exact List.mem_singleton_self e

/-- Home accepts a message to the largest domain, and the agent that sees its
event panics. -/
theorem dispatch_to_largest_domain_panics :
    ∃ (history : History ℕ) (e : DispatchEvent ℕ),
      (Home.system (Crypto.withIdealHash fun _ _ => none)).Reachable history ∧
        dispatches history.log = [e] ∧ Message.destination e.message = .ok 0xffffffff ∧
        storeAll (Crypto.withIdealHash fun _ _ => none) [] [e] DB.empty =
          .error (.panicked "destination < u32::MAX") := by
  obtain ⟨history, e, hreach, hlog, hdestination, -⟩ := exists_dispatched_to 0xffffffff
  have hnumbered := History.numbered_of_reachable hreach
  have he : e ∈ dispatches history.log := hlog ▸ List.mem_singleton_self e
  refine ⟨history, e, hreach, hlog, hdestination, ?_⟩
  rw [storeAll, ofDispatch_event hnumbered he, ok_bind,
    storeRawCommittedMessage_of_eq hnumbered he hdestination, error_bind]

end Optics.MessageIndex
