/-
# The processor of one Replica

The loop reads the message with the next nonce from the database of the agent,
filters it, waits until the Replica accepts the root of its proof, asks for the
status of the message, and sends the transactions that are missing. Then it
stores the nonce and never looks at the message again.

Each await is a stage of the loop. Between two stages Home and the Replica go on,
the indexer and the prover write to the database, other parties send the same
transactions, and the process may stop and start again. A transaction that was
mined counts as done whether it was executed or reverted.
-/

import Optics.Accumulator.Agreement
import Optics.Agents.MessageIndex
import Optics.Agents.OpticsDB
import Optics.Core.ReplicaReentrancy

namespace Optics.ReplicaProcessor

open Optics.Solidity Optics.KeyValue Optics.MessageIndex Optics.Math.Transition
open Home (History DispatchEvent dispatches)
open Replica (Chain Surroundings Frame Calls MessageStatus)
open Accumulator (Proof)

variable {Byte ω E η : Type}

/-- `CommittedMessage`. -/
structure CommittedMessage (Byte : Type) where
  leafIndex : UInt32
  committedRoot : Bytes32 Byte
  message : OpticsMessage Byte

/-- What is fixed of the task: the name of Home, the domain of the Replica, and
the two lists of senders. -/
structure Settings (Byte : Type) where
  entity : List Byte
  domain : UInt32
  allowed : Option (List (Bytes32 Byte))
  denied : Option (List (Bytes32 Byte))

/-- Where the loop stands, with the variables that are live there: before the
lookup, after it, in the loop over `acceptable_root`, before `message_status`,
before the receipt of `prove` and of `process`, and after `Flow::Advance`. -/
inductive Stage (Byte : Type)
  | looking
  | found (message : CommittedMessage Byte)
  | waiting (message : CommittedMessage Byte) (proof : Proof Byte)
  | asking (message : CommittedMessage Byte) (proof : Proof Byte)
  | proving (message : CommittedMessage Byte) (proof : Proof Byte)
  | processing (message : CommittedMessage Byte)
  | advancing
  | ended

/-- The message that the loop is at. -/
def Stage.message? : Stage Byte → Option (CommittedMessage Byte)
  | .found message => some message
  | .waiting message _ => some message
  | .asking message _ => some message
  | .proving message _ => some message
  | .processing message => some message
  | _ => none

/-- Home, the chain of the Replica, the tables of the prover, the other rows of
the database, and the loop. -/
structure State (Byte E η : Type) where
  home : History Byte
  chain : Chain Byte E η
  tables : OpticsDB Byte
  db : DB Byte
  nextMessageNonce : UInt32
  stage : Stage Byte

/-- The rows that are written when a message is stored. -/
inductive Row
  | byNonce
  | byIndex
  | latest
  | message
  deriving DecidableEq, Repr

/-- What can happen next: to Home, on the chain of the Replica, in the indexer, in
the prover, in the loops of other domains, or in the loop itself. A query that
fails ends the loop. -/
inductive Label (Byte ω : Type)
  | home (tx : Home.Context Byte × Home.Call Byte)
  | transaction (tx : ℕ × Replica.Call Byte ω)
  | index (position : ℕ) (row : Row)
  | prover (write : OpticsDB.Put Byte)
  | elsewhere (domain nonce : UInt32)
  | look
  | filter
  | poll (timestamp : ℕ)
  | status
  | proved (time : ℕ) (gasLasts : Bool)
  | processed (time : ℕ) (frame : Frame Byte) (inner : Calls Byte ω)
  | store
  | fail
  | crash

variable [ByteAlphabet Byte]

/-- The ASCII bytes of `"current_nonce_"`. -/
def CURRENT_NONCE : List Byte :=
  [0x63, 0x75, 0x72, 0x72, 0x65, 0x6e, 0x74, 0x5f, 0x6e, 0x6f, 0x6e, 0x63, 0x65, 0x5f].map ofByte

@[simp] theorem length_CURRENT_NONCE : (CURRENT_NONCE : List Byte).length = 14 := rfl

/-- `OpticsMessage::write_to`. -/
def writeTo (message : OpticsMessage Byte) : List Byte :=
  uint32Bytes message.origin ++ message.sender.toList ++ uint32Bytes message.nonce ++
    uint32Bytes message.destination ++ message.recipient.toList ++ message.body

/-- `CommittedMessage::to_leaf`. -/
def CommittedMessage.toLeaf (K : Crypto Byte) (message : CommittedMessage Byte) : Bytes32 Byte :=
  K.keccak256 (writeTo message.message)

/-- `CommittedMessage::try_from`. -/
def CommittedMessage.tryFrom (raw : RawCommittedMessage Byte) :
    Except Fault (CommittedMessage Byte) := do
  let message ← OpticsMessage.readFrom raw.message
  .ok ⟨raw.leafIndex, raw.committedRoot, message⟩

/-- The read of `CURRENT_NONCE`. -/
def currentNonce (entity : List Byte) (domain : UInt32) (db : DB Byte) :
    Except Fault (Option UInt32) :=
  retrieveKeyedDecodable UInt32 entity CURRENT_NONCE domain db

/-- The nonce that the loop starts with. -/
def startNonce : Option UInt32 → UInt32
  | some n => n + 1
  | none => 0

variable [DecidableEq Byte] (K : Crypto Byte) (S : Surroundings Byte ω E η)
  (settings : Settings Byte)

/-- Whether the allow list or the deny list filters a sender. -/
def Settings.skips (settings : Settings Byte) (sender : Bytes32 Byte) : Bool :=
  settings.allowed.map (·.contains sender) == some false ||
    settings.denied.map (·.contains sender) == some true

/-- The database after one of the writes for a message. -/
def putRow (entity : List Byte) (key : UInt64) (leaf : Bytes32 Byte)
    (message : RawCommittedMessage Byte) (db : DB Byte) : Row → DB Byte
  | .byNonce => storeKeyedEncodable entity LEAF key leaf db
  | .byIndex => storeKeyedEncodable entity LEAF message.leafIndex leaf db
  | .latest => updateLatestLeafIndex entity message.leafIndex db
  | .message => storeKeyedEncodable entity MESSAGE leaf message db

/-- One of the writes of `store_raw_committed_message`. -/
def writeRow (entity : List Byte) (message : RawCommittedMessage Byte) (row : Row)
    (db : DB Byte) : Except Fault (DB Byte) := do
  let parsed ← OpticsMessage.readFrom message.message
  let key ← parsed.destinationAndNonce
  .ok (putRow entity key (message.leaf K) message db row)

/-- The loop after `message_by_nonce`. -/
def looked (db : DB Byte) (nonce : UInt32) : Stage Byte :=
  match messageByNonce settings.entity db settings.domain nonce with
  | .ok (some raw) =>
    match CommittedMessage.tryFrom raw with
    | .ok message => .found message
    | .error _ => .ended
  | .ok none => .looking
  | .error _ => .ended

/-- The loop from the filters to the wait for the root. -/
def filtered (tables : OpticsDB Byte) (message : CommittedMessage Byte) : Stage Byte :=
  if settings.skips message.message.sender then .advancing
  else
    match tables.proofByLeafIndex message.leafIndex.toNat with
    | some proof => if proof.leaf ≠ message.toLeaf K then .ended else .waiting message proof
    | none => .looking

/-- `process`, from the answer of `message_status`. -/
def asked (message : CommittedMessage Byte) (proof : Proof Byte) : MessageStatus → Stage Byte
  | .None => .proving message proof
  | .Proven => .processing message
  | .Processed => .advancing

omit [DecidableEq Byte] in
/-- The root that the loop waits for is the one that `prove` will compute. -/
theorem root_eq_branchRoot (proof : Proof Byte) :
    proof.root K =
      MerkleLib.branchRoot K proof.leaf (fun i => proof.path.toList.getD i 0) proof.index := by
  have hlength : proof.path.toList.length = MerkleLib.TREE_DEPTH := proof.path.toList_length
  rw [Proof.root, MerkleLib.branchRoot, ← hlength]
  apply Accumulator.climbBranch_eq_climb
  intro i hi
  exact (List.getD_eq_getElem _ 0 hi).symm

/-- The transaction that `prove` sends. -/
def proveCall (proof : Proof Byte) : Replica.Call Byte ω :=
  .prove proof.leaf (fun i => proof.path.toList.getD i 0) proof.index

/-- The transaction that `process` sends. -/
def processCall (message : CommittedMessage Byte) (frame : Frame Byte) (inner : Calls Byte ω) :
    Replica.Call Byte ω :=
  .process (writeTo message.message) frame inner

/-- One step, if the task that it belongs to has got there. -/
def exec : Label Byte ω → State Byte E η → Option (State Byte E η)
  | .home tx, s => some { s with home := afterCall (History.exec K) tx s.home }
  | .transaction tx, s =>
    if s.chain.now ≤ tx.1 then
      some { s with chain := afterCall (Chain.transact K S) tx s.chain }
    else none
  | .index position row, s =>
    match (dispatches s.home.log)[position]? with
    | some e =>
      match RawCommittedMessage.ofDispatch e >>= fun raw => writeRow K settings.entity raw row s.db with
      | .ok db => some { s with db := db }
      | .error _ => none
    | none => none
  | .prover write, s => some { s with tables := s.tables.put write }
  | .elsewhere domain nonce, s =>
    if domain = settings.domain then none
    else some { s with db := storeKeyedEncodable settings.entity CURRENT_NONCE domain nonce s.db }
  | .look, s =>
    match s.stage with
    | .looking => some { s with stage := looked settings s.db s.nextMessageNonce }
    | _ => none
  | .filter, s =>
    match s.stage with
    | .found message => some { s with stage := filtered K settings s.tables message }
    | _ => none
  | .poll timestamp, s =>
    match s.stage with
    | .waiting message proof =>
      if s.chain.replica.acceptableRoot timestamp (proof.root K) then
        some { s with stage := .asking message proof }
      else some s
    | _ => none
  | .status, s =>
    match s.stage with
    | .asking message proof =>
      some { s with stage := asked message proof (s.chain.replica.messages (message.toLeaf K)) }
    | _ => none
  | .proved time gasLasts, s =>
    match s.stage with
    | .proving message proof =>
      if s.chain.now ≤ time then
        some { s with
          chain := if gasLasts then afterCall (Chain.transact K S) (time, proveCall proof) s.chain
            else s.chain
          stage := .processing message }
      else none
    | _ => none
  | .processed time frame inner, s =>
    match s.stage with
    | .processing message =>
      if s.chain.now ≤ time then
        some { s with
          chain := afterCall (Chain.transact K S) (time, processCall message frame inner) s.chain
          stage := .advancing }
      else none
    | _ => none
  | .store, s =>
    match s.stage with
    | .advancing =>
      some { s with
        db := storeKeyedEncodable settings.entity CURRENT_NONCE settings.domain s.nextMessageNonce s.db
        nextMessageNonce := s.nextMessageNonce + 1
        stage := .looking }
    | _ => none
  | .fail, s => some { s with stage := .ended }
  | .crash, s =>
    match currentNonce settings.entity settings.domain s.db with
    | .ok stored => some { s with nextMessageNonce := startNonce stored, stage := .looking }
    | .error _ => some { s with stage := .ended }

/-- Home and Replica just after `initialize`, an empty database, and a loop that
has just started. -/
def Initial (root₀ : Bytes32 Byte) (s : State Byte E η) : Prop :=
  s.home.Initial ∧ s.chain.Initial root₀ ∧ s.tables = .empty ∧ s.db = .empty ∧
    s.nextMessageNonce = 0 ∧ s.stage = .looking

/-- The loop of one Replica with everything around it. -/
def system (root₀ : Bytes32 Byte) : System (State Byte E η) (Label Byte ω) where
  init := Initial root₀
  step s label t := exec K S settings label s = some t

/-- A message whose `process` transaction of the loop reverts has been processed
by someone else. -/
def RevertsIfProcessed (s : State Byte E η) (label : Label Byte ω) : Prop :=
  ∀ message time frame inner, s.stage = .processing message →
    label = .processed time frame inner →
    (∃ e, Chain.transact K S (time, processCall message frame inner) s.chain = .error e) →
    s.chain.replica.messages (message.toLeaf K) = .Processed

/-! ### Rows of the database -/

section Rows

variable {K settings} {entity : List Byte} {db db' : DB Byte} {history : History Byte}

/-- Storing a message is writing its rows in turn. -/
theorem storeRawCommittedMessage_eq_rows (message : RawCommittedMessage Byte) :
    storeRawCommittedMessage K entity message db =
      [Row.byNonce, .byIndex, .latest, .message].foldlM
        (fun db row => writeRow K entity message row db) db := by
  simp only [storeRawCommittedMessage, writeRow, List.foldlM_cons, List.foldlM_nil]
  cases OpticsMessage.readFrom message.message with
  | error e => rfl
  | ok parsed =>
    cases hkey : parsed.destinationAndNonce with
    | error e => simp only [ok_bind, hkey, error_bind]
    | ok key =>
      simp only [ok_bind, hkey, storeLeaf]
      rfl

/-- The length of the key of a row, without the entity. -/
def Row.length : Row → ℕ
  | .byNonce => 13
  | .byIndex => 9
  | .latest => 24
  | .message => 40

/-- A write leaves the rows with keys of other lengths. -/
theorem retrieveDecodable_putRow {α : Type} [Decode Byte α] {table key : List Byte} {row : Row}
    (packed : UInt64) (leaf : Bytes32 Byte) (message : RawCommittedMessage Byte)
    (h : (table ++ key).length ≠ row.length) :
    retrieveDecodable α entity table key (putRow entity packed leaf message db row) =
      retrieveDecodable α entity table key db := by
  cases row with
  | byNonce =>
    apply retrieveDecodable_of_length_ne
    simpa [Row.length] using h
  | byIndex =>
    apply retrieveDecodable_of_length_ne
    simpa [Row.length] using h
  | latest => exact retrieveDecodable_updateLatest _ h
  | message =>
    apply retrieveDecodable_of_length_ne
    simpa [Row.length] using h

/-- What a write can add to the rows that the loop reads. -/
structure Wrote (entity : List Byte) (db db' : DB Byte) (e : DispatchEvent Byte) : Prop where
  byKey : ∀ key leaf, leafByKey entity db' key = .ok (some leaf) →
    leafByKey entity db key = .ok (some leaf) ∨ e.destinationAndNonce = key ∧ e.messageHash = leaf
  byLeaf : ∀ leaf message, messageByLeaf entity db' leaf = .ok (some message) →
    messageByLeaf entity db leaf = .ok (some message) ∨ message = raw e ∧ e.messageHash = leaf
  nonce : ∀ domain, currentNonce entity domain db' = currentNonce entity domain db

theorem wrote_of_putRow (entity : List Byte) (db : DB Byte) (e : DispatchEvent Byte) (row : Row) :
    Wrote entity db (putRow entity e.destinationAndNonce e.messageHash (raw e) db row) e where
  byKey key leaf h := by
    by_cases hrow : row = .byNonce
    · subst hrow
      rw [leafByKey, putRow, retrieveKeyedDecodable_store toVec_uint64_injective] at h
      split_ifs at h with hkey
      · exact .inr ⟨hkey.symm, Option.some.inj (Except.ok.inj h)⟩
      · exact .inl h
    · rw [leafByKey, retrieveKeyedDecodable, retrieveDecodable_putRow] at h
      · exact .inl h
      · cases row <;> simp [Row.length] at hrow ⊢
  byLeaf leaf message h := by
    by_cases hrow : row = .message
    · subst hrow
      rw [messageByLeaf, putRow, retrieveKeyedDecodable_store toVec_word_injective] at h
      split_ifs at h with hleaf
      · exact .inr ⟨(Option.some.inj (Except.ok.inj h)).symm, hleaf.symm⟩
      · exact .inl h
    · rw [messageByLeaf, retrieveKeyedDecodable, retrieveDecodable_putRow] at h
      · exact .inl h
      · cases row <;> simp [Row.length] at hrow ⊢
  nonce domain := by
    apply retrieveDecodable_putRow
    cases row <;> simp [Row.length]

/-- A write of the indexer adds rows of the event that it is at. -/
theorem wrote_of_index {e : DispatchEvent Byte} {row : Row} (hlog : history.Numbered K)
    (he : e ∈ dispatches history.log)
    (h : (RawCommittedMessage.ofDispatch e >>= fun raw => writeRow K entity raw row db) =
      .ok db') : Wrote entity db db' e := by
  obtain ⟨parsed, hread, -, -, -, hpacked, hhash⟩ := readFrom_event hlog he
  have hleaf : (raw e).leaf K = e.messageHash := hhash.symm
  rw [ofDispatch_event hlog he, ok_bind, writeRow, hleaf] at h
  obtain ⟨parsed', hread', h⟩ := bind_eq_ok.mp h
  obtain rfl := Except.ok.inj (hread.symm.trans hread')
  obtain ⟨key, hkey, h⟩ := bind_eq_ok.mp h
  obtain rfl := (destinationAndNonce_eq_ok.mp hkey).2.2.trans hpacked.symm
  obtain rfl := Except.ok.inj h
  exact wrote_of_putRow entity db e row

/-- Storing a nonce changes the nonce of its domain only. -/
theorem currentNonce_store (domain stored nonce : UInt32) :
    currentNonce entity domain (storeKeyedEncodable entity CURRENT_NONCE stored nonce db) =
      if domain = stored then .ok (some nonce) else currentNonce entity domain db :=
  retrieveKeyedDecodable_store toVec_uint32_injective stored domain nonce

end Rows

/-! ### What the loop knows -/

section Known

variable {K S settings} {root₀ : Bytes32 Byte} {s t : State Byte E η}
  {log log' : List (Home.Event Byte)} {destination nonce : UInt32} {e e' : DispatchEvent Byte}

/-- The event of the message with the given destination and nonce. -/
structure Addressed (log : List (Home.Event Byte)) (destination nonce : UInt32)
    (e : DispatchEvent Byte) : Prop where
  mem : e ∈ dispatches log
  destination : Message.destination e.message = .ok destination
  nonce : Message.nonce e.message = .ok nonce

/-- The message of an event needs nothing more: its sender is filtered, or the
Replica has processed it. -/
def Done (settings : Settings Byte) (messages : Bytes32 Byte → MessageStatus)
    (e : DispatchEvent Byte) : Prop :=
  (∃ sender, Message.sender e.message = .ok sender ∧ settings.skips sender = true) ∨
    messages e.messageHash = .Processed

omit [ByteAlphabet Byte] in
theorem Done.mono {messages messages' : Bytes32 Byte → MessageStatus}
    (h : Done settings messages e)
    (hprocessed : ∀ hash, messages hash = .Processed → messages' hash = .Processed) :
    Done settings messages' e :=
  h.imp_right (hprocessed _)

/-- The loop holds the message of an event. -/
def Carries (e : DispatchEvent Byte) (message : CommittedMessage Byte) : Prop :=
  writeTo message.message = e.message

/-- Every row that the loop reads was written for an event of Home. -/
structure Rows (entity : List Byte) (log : List (Home.Event Byte)) (db : DB Byte) : Prop where
  byKey : ∀ key leaf, leafByKey entity db key = .ok (some leaf) →
    ∃ e ∈ dispatches log, e.destinationAndNonce = key ∧ e.messageHash = leaf
  byLeaf : ∀ leaf message, messageByLeaf entity db leaf = .ok (some message) →
    ∃ e ∈ dispatches log, message = raw e ∧ e.messageHash = leaf

section Facts

omit [DecidableEq Byte]

theorem Addressed.mono (h : Addressed log destination nonce e)
    (hlog : dispatches log ⊆ dispatches log') : Addressed log' destination nonce e :=
  ⟨hlog h.mem, h.destination, h.nonce⟩

theorem Addressed.key {history : History Byte} (hlog : history.Numbered K)
    (h : Addressed history.log destination nonce e) :
    e.destinationAndNonce = Home._destinationAndNonce destination nonce ∧ nonce < U32_MAX := by
  obtain ⟨parsed, -, hdestination, hnonce, hlt, hkey, -⟩ := readFrom_event hlog h.mem
  obtain rfl := Except.ok.inj (h.destination.symm.trans hdestination)
  obtain rfl := Except.ok.inj (h.nonce.symm.trans hnonce)
  exact ⟨hkey, hlt⟩

/-- A destination and a nonce belong to one message. -/
theorem Addressed.unique {history : History Byte} (hlog : history.Numbered K)
    (h : Addressed history.log destination nonce e)
    (h' : Addressed history.log destination nonce e') : e = e' :=
  hlog.event_of_destinationAndNonce h.mem h'.mem ((h.key hlog).1.trans (h'.key hlog).1.symm)

theorem Carries.toLeaf {history : History Byte} {message : CommittedMessage Byte}
    (h : Carries e message) (hlog : history.Numbered K) (he : e ∈ dispatches history.log) :
    message.toLeaf K = e.messageHash := by
  obtain ⟨-, -, -, -, -, -, hhash⟩ := readFrom_event hlog he
  rw [CommittedMessage.toLeaf, h, hhash]

theorem Carries.sender {message : CommittedMessage Byte} (h : Carries e message) :
    Message.sender e.message = .ok message.message.sender := by
  rw [← h]
  exact Message.sender_formatMessage ..

/-- The message that is read from the row of an event is that of the event. -/
theorem carries_of_tryFrom {history : History Byte} {message : CommittedMessage Byte}
    (hlog : history.Numbered K) (he : e ∈ dispatches history.log)
    (h : CommittedMessage.tryFrom (raw e) = .ok message) : Carries e message := by
  obtain ⟨d, -, hannounced⟩ := hlog.announced e he
  have hread : OpticsMessage.readFrom e.message = .ok _ :=
    (congrArg _ hannounced.message).trans (readFrom_formatMessage _ _ _ _ _ _)
  rw [CommittedMessage.tryFrom, raw, hread] at h
  obtain rfl := Except.ok.inj h
  exact hannounced.message.symm

theorem Rows.mono {entity : List Byte} {db : DB Byte} (h : Rows entity log db)
    (hlog : dispatches log ⊆ dispatches log') : Rows entity log' db where
  byKey key leaf hrow := by
    obtain ⟨e, he, hkey⟩ := h.byKey key leaf hrow
    exact ⟨e, hlog he, hkey⟩
  byLeaf leaf message hrow := by
    obtain ⟨e, he, hmessage⟩ := h.byLeaf leaf message hrow
    exact ⟨e, hlog he, hmessage⟩

theorem Rows.wrote {entity : List Byte} {db db' : DB Byte} (h : Rows entity log db)
    (he : e ∈ dispatches log) (hwrote : Wrote entity db db' e) : Rows entity log db' where
  byKey key leaf hrow := by
    rcases hwrote.byKey key leaf hrow with hold | hnew
    · exact h.byKey key leaf hold
    · exact ⟨e, he, hnew⟩
  byLeaf leaf message hrow := by
    rcases hwrote.byLeaf leaf message hrow with hold | hnew
    · exact h.byLeaf leaf message hold
    · exact ⟨e, he, hnew⟩

/-- A message that is found by destination and nonce is the one that was sent. -/
theorem Rows.addressed (ideal : Crypto.IdealHash K) {history : History Byte}
    {entity : List Byte} {db : DB Byte} {message : RawCommittedMessage Byte}
    (h : Rows entity history.log db) (hlog : history.Numbered K)
    (hfound : messageByNonce entity db destination nonce = .ok (some message)) :
    ∃ e, Addressed history.log destination nonce e ∧ message = raw e := by
  obtain ⟨leaf?, hleaf, hfound⟩ := bind_eq_ok.mp hfound
  cases leaf? with
  | none => cases hfound
  | some leaf =>
    obtain ⟨key, hkey, hrow⟩ := bind_eq_ok.mp hleaf
    obtain ⟨-, -, hpacked⟩ := destinationAndNonce_eq_ok.mp hkey
    obtain ⟨e, he, hkey', hhash⟩ := h.byKey key leaf hrow
    obtain ⟨e', he', hmessage, hhash'⟩ := h.byLeaf leaf message hfound
    -- The row of the key and the row of the leaf are of one event: they share
    -- the hash.
    obtain rfl := hlog.event_of_messageHash ideal.injective he he' (hhash.trans hhash'.symm)
    obtain ⟨parsed, -, hdestination, hnonce, -, hparsed, -⟩ := readFrom_event hlog he
    obtain ⟨hd, hn⟩ := Home.destinationAndNonce_inj (hparsed.symm.trans (hkey'.trans hpacked))
    exact ⟨e, ⟨he, hd ▸ hdestination, hn ▸ hnonce⟩, hmessage⟩

end Facts

theorem Rows.storeNonce {entity : List Byte} {db : DB Byte} (h : Rows entity log db)
    (domain nonce : UInt32) :
    Rows entity log (storeKeyedEncodable entity CURRENT_NONCE domain nonce db) where
  byKey key leaf hrow := by
    rw [leafByKey, retrieveKeyedDecodable, storeKeyedEncodable,
      retrieveDecodable_of_length_ne _ (by simp)] at hrow
    exact h.byKey key leaf hrow
  byLeaf leaf message hrow := by
    rw [messageByLeaf, retrieveKeyedDecodable, storeKeyedEncodable,
      retrieveDecodable_of_length_ne _ (by simp)] at hrow
    exact h.byLeaf leaf message hrow

/-- What holds at every point of a run: messages below the next nonce are done,
the nonce is the one after the stored one, and the loop is at the message with
the next nonce. -/
structure Holds (K : Crypto Byte) (settings : Settings Byte) (s : State Byte E η) : Prop where
  home : (Home.system K).Reachable s.home
  rows : Rows settings.entity s.home.log s.db
  stored : ∃ stored, currentNonce settings.entity settings.domain s.db = .ok stored ∧
    s.nextMessageNonce = startNonce stored ∧ ∀ n ∈ stored, n < U32_MAX
  done : ∀ n < s.nextMessageNonce, ∃ e, Addressed s.home.log settings.domain n e ∧
    Done settings s.chain.replica.messages e
  carries : ∀ message, s.stage.message? = some message →
    ∃ e, Addressed s.home.log settings.domain s.nextMessageNonce e ∧ Carries e message
  advancing : s.stage = .advancing → ∃ e,
    Addressed s.home.log settings.domain s.nextMessageNonce e ∧
      Done settings s.chain.replica.messages e

omit [ByteAlphabet Byte] [DecidableEq Byte] in
/-- Below the largest nonce the next one does not wrap. -/
theorem lt_or_eq_of_lt_succ {n next : UInt32} (h : next < U32_MAX) (hn : n < next + 1) :
    n < next ∨ n = next := by
  have hmax : U32_MAX.toNat = 2 ^ 32 - 1 := rfl
  have hlt := UInt32.lt_iff_toNat_lt.mp h
  have hsucc := UInt32.lt_iff_toNat_lt.mp hn
  rw [UInt32.toNat_add, UInt32.toNat_one, Nat.mod_eq_of_lt (by omega)] at hsucc
  rcases Nat.lt_succ_iff_lt_or_eq.mp hsucc with hbefore | heq
  · exact .inl (UInt32.lt_iff_toNat_lt.mpr hbefore)
  · exact .inr (UInt32.toNat_inj.mp heq)

namespace Holds

/-- The world goes on: Home emits events, processed messages stay processed. -/
theorem later (h : Holds K settings s) {home : History Byte} {chain : Chain Byte E η}
    (hhome : (Home.system K).Reachable home) (hlog : dispatches s.home.log ⊆ dispatches home.log)
    (hprocessed : ∀ hash, s.chain.replica.messages hash = .Processed →
      chain.replica.messages hash = .Processed) (tables : OpticsDB Byte) :
    Holds K settings { s with home := home, chain := chain, tables := tables } where
  home := hhome
  rows := h.rows.mono hlog
  stored := h.stored
  done n hn := by
    obtain ⟨e, he, hdone⟩ := h.done n hn
    exact ⟨e, he.mono hlog, hdone.mono hprocessed⟩
  carries message hmessage := by
    obtain ⟨e, he, hcarries⟩ := h.carries message hmessage
    exact ⟨e, he.mono hlog, hcarries⟩
  advancing hstage := by
    obtain ⟨e, he, hdone⟩ := h.advancing hstage
    exact ⟨e, he.mono hlog, hdone.mono hprocessed⟩

/-- The loop goes on with a message, or gives it up. -/
theorem stage (h : Holds K settings s) {stage : Stage Byte}
    (hcarries : ∀ message, stage.message? = some message →
      ∃ e, Addressed s.home.log settings.domain s.nextMessageNonce e ∧ Carries e message)
    (hadvancing : stage = .advancing → ∃ e,
      Addressed s.home.log settings.domain s.nextMessageNonce e ∧
        Done settings s.chain.replica.messages e) :
    Holds K settings { s with stage := stage } :=
  ⟨h.home, h.rows, h.stored, h.done, hcarries, hadvancing⟩

/-- The loop goes on with the message that it is at. -/
theorem stage_of_message (h : Holds K settings s) {stage : Stage Byte}
    {message : CommittedMessage Byte} (hmessage : s.stage.message? = some message)
    (hstage : stage.message? = some message ∨ stage.message? = none)
    (hadvancing : stage ≠ .advancing) : Holds K settings { s with stage := stage } := by
  refine h.stage (fun message' hmessage' => ?_) fun hstage => absurd hstage hadvancing
  rcases hstage with hstage | hstage
  · obtain rfl := Option.some.inj (hstage.symm.trans hmessage')
    exact h.carries message hmessage
  · rw [hstage] at hmessage'
    cases hmessage'

/-- The loop goes back to the lookup, or ends. -/
theorem stage_idle (h : Holds K settings s) {stage : Stage Byte} (hmessage : stage.message? = none)
    (hadvancing : stage ≠ .advancing) : Holds K settings { s with stage := stage } := by
  refine h.stage (fun message hmessage' => ?_) fun hstage => absurd hstage hadvancing
  rw [hmessage] at hmessage'
  cases hmessage'

/-- The message that the loop is at is done. -/
theorem stage_advancing (h : Holds K settings s) {message : CommittedMessage Byte}
    (hmessage : s.stage.message? = some message)
    (hdone : settings.skips message.message.sender = true ∨
      s.chain.replica.messages (message.toLeaf K) = .Processed) :
    Holds K settings { s with stage := .advancing } := by
  obtain ⟨e, he, hcarries⟩ := h.carries message hmessage
  refine h.stage (fun _ hnone => by cases hnone) fun _ => ⟨e, he, ?_⟩
  rcases hdone with hskips | hprocessed
  · exact .inl ⟨_, hcarries.sender, hskips⟩
  · rw [hcarries.toLeaf (History.numbered_of_reachable h.home) he.mem] at hprocessed
    exact .inr hprocessed

theorem looked (ideal : Crypto.IdealHash K) (h : Holds K settings s) :
    Holds K settings { s with stage := looked settings s.db s.nextMessageNonce } := by
  have hidle : ∀ stage : Stage Byte, stage = .looking ∨ stage = .ended →
      Holds K settings { s with stage := stage } := by
    rintro stage (rfl | rfl)
    · exact h.stage_idle rfl (by simp)
    · exact h.stage_idle rfl (by simp)
  unfold ReplicaProcessor.looked
  split
  · next raw hfound =>
    split
    · next message hread =>
      have hlog := History.numbered_of_reachable h.home
      obtain ⟨e, he, rfl⟩ := h.rows.addressed ideal hlog hfound
      refine h.stage (fun message' hmessage' => ?_) (fun hstage => by cases hstage)
      obtain rfl := Option.some.inj hmessage'
      exact ⟨e, he, carries_of_tryFrom hlog he.mem hread⟩
    · exact hidle _ (.inr rfl)
  · exact hidle _ (.inl rfl)
  · exact hidle _ (.inr rfl)

theorem filtered (h : Holds K settings s) {message : CommittedMessage Byte}
    (hmessage : s.stage.message? = some message) :
    Holds K settings { s with stage := filtered K settings s.tables message } := by
  unfold ReplicaProcessor.filtered
  split_ifs with hskips
  · exact h.stage_advancing hmessage (.inl hskips)
  · split
    · next proof hproof =>
      split_ifs
      · exact h.stage_idle rfl (by simp)
      · exact h.stage_of_message hmessage (.inl rfl) (by simp)
    · exact h.stage_idle rfl (by simp)

theorem asked (h : Holds K settings s) {message : CommittedMessage Byte} {proof : Proof Byte}
    (hmessage : s.stage.message? = some message) :
    Holds K settings { s with
      stage := asked message proof (s.chain.replica.messages (message.toLeaf K)) } := by
  cases hstatus : s.chain.replica.messages (message.toLeaf K) with
  | None => exact h.stage_of_message hmessage (.inl rfl) (by simp [ReplicaProcessor.asked])
  | Proven => exact h.stage_of_message hmessage (.inl rfl) (by simp [ReplicaProcessor.asked])
  | Processed => exact h.stage_advancing hmessage (.inr hstatus)

/-- A message is at the stored nonce only when it is done. -/
theorem store (h : Holds K settings s) (hstage : s.stage = .advancing) :
    Holds K settings { s with
      db := storeKeyedEncodable settings.entity CURRENT_NONCE settings.domain s.nextMessageNonce s.db
      nextMessageNonce := s.nextMessageNonce + 1
      stage := .looking } := by
  obtain ⟨e, he, hdone⟩ := h.advancing hstage
  obtain ⟨-, hlt⟩ := he.key (History.numbered_of_reachable h.home)
  constructor
  case home => exact h.home
  case rows => exact h.rows.storeNonce _ _
  case stored =>
    refine ⟨some s.nextMessageNonce, ?_, rfl, ?_⟩
    · rw [currentNonce_store, if_pos rfl]
    · intro n hn
      obtain rfl := Option.some.inj hn
      exact hlt
  case done =>
    intro n hn
    -- The only new nonce below the next one is that of the message just done.
    rcases lt_or_eq_of_lt_succ hlt hn with hbefore | rfl
    · exact h.done n hbefore
    · exact ⟨e, he, hdone⟩
  case carries =>
    intro message hmessage
    cases hmessage
  case advancing =>
    intro hadvancing
    cases hadvancing

end Holds

theorem dispatches_afterCall (tx : Home.Context Byte × Home.Call Byte) (history : History Byte) :
    dispatches history.log ⊆ dispatches (afterCall (History.exec K) tx history).log := by
  unfold afterCall
  split
  · next history' hexec =>
    obtain ⟨⟨home, events⟩, -, hhistory⟩ := bind_eq_ok.mp hexec
    obtain rfl := Except.ok.inj hhistory
    rw [Home.dispatches_append]
    exact List.subset_append_left _ _
  · exact List.Subset.refl _

theorem processed_afterCall (tx : ℕ × Replica.Call Byte ω) {chain : Chain Byte E η}
    {hash : Bytes32 Byte} (h : chain.replica.messages hash = .Processed) :
    (afterCall (Chain.transact K S) tx chain).replica.messages hash = .Processed := by
  unfold afterCall
  split
  · next chain' hexec => exact Replica.Call.exec_processed hexec h
  · exact h

/-- After the `process` transaction of the loop the message is processed, by the
loop or by someone else. -/
theorem processed_of_processCall {message : CommittedMessage Byte} {time : ℕ} {frame : Frame Byte}
    {inner : Calls Byte ω} {chain : Chain Byte E η}
    (h : (∃ e, Chain.transact K S (time, processCall message frame inner) chain = .error e) →
      chain.replica.messages (message.toLeaf K) = .Processed) :
    (afterCall (Chain.transact K S) (time, processCall message frame inner)
      chain).replica.messages (message.toLeaf K) = .Processed := by
  unfold afterCall
  split
  · next chain' hexec => exact Replica.Call.exec_process_processed hexec
  · next e hexec => exact h ⟨e, hexec⟩

/-- A transaction of the Replica, whoever sends it. -/
theorem Holds.transacted (h : Holds K settings s) (tx : ℕ × Replica.Call Byte ω) :
    Holds K settings { s with chain := afterCall (Chain.transact K S) tx s.chain } :=
  h.later h.home (List.Subset.refl _) (fun _ hprocessed => processed_afterCall tx hprocessed)
    s.tables

/-- **Step lemma.** A step keeps what the loop knows, unless its `process`
transaction reverts while the message is not processed. -/
theorem Holds.step (ideal : Crypto.IdealHash K) (h : Holds K settings s) {label : Label Byte ω}
    (hstep : (system K S settings root₀).step s label t)
    (hcond : RevertsIfProcessed K S s label) : Holds K settings t := by
  change exec K S settings label s = some t at hstep
  cases label with
  -- What others do leaves the loop where it is.
  | home tx =>
    obtain rfl := Option.some.inj hstep
    exact h.later (h.home.step (callStep_afterCall _ _ _)) (dispatches_afterCall _ _)
      (fun _ hprocessed => hprocessed) s.tables
  | transaction tx =>
    simp only [exec] at hstep
    split_ifs at hstep
    obtain rfl := Option.some.inj hstep
    exact h.transacted tx
  -- The indexer adds rows of an event of Home, and no nonce of the loop.
  | index position row =>
    simp only [exec] at hstep
    split at hstep
    · next e hposition =>
      split at hstep
      · next db hwrite =>
        obtain rfl := Option.some.inj hstep
        have he := List.mem_of_getElem? hposition
        have hwrote := wrote_of_index (History.numbered_of_reachable h.home) he hwrite
        obtain ⟨stored, hread, hnonce⟩ := h.stored
        exact ⟨h.home, h.rows.wrote he hwrote, ⟨stored, (hwrote.nonce _).trans hread, hnonce⟩,
          h.done, h.carries, h.advancing⟩
      · cases hstep
    · cases hstep
  | prover write =>
    obtain rfl := Option.some.inj hstep
    exact h.later h.home (List.Subset.refl _) (fun _ hprocessed => hprocessed) _
  -- Another Processor stores under its own domain.
  | elsewhere domain nonce =>
    simp only [exec] at hstep
    split_ifs at hstep with hdomain
    obtain rfl := Option.some.inj hstep
    obtain ⟨stored, hread, hnonce⟩ := h.stored
    refine ⟨h.home, h.rows.storeNonce _ _, ⟨stored, ?_, hnonce⟩, h.done, h.carries, h.advancing⟩
    rw [currentNonce_store, if_neg (Ne.symm hdomain)]
    exact hread
  -- From here on it is the loop that moves.
  | look =>
    simp only [exec] at hstep
    split at hstep
    · obtain rfl := Option.some.inj hstep
      exact h.looked ideal
    · cases hstep
  | filter =>
    simp only [exec] at hstep
    split at hstep
    · next message hstage =>
      obtain rfl := Option.some.inj hstep
      exact h.filtered (hstage ▸ rfl)
    · cases hstep
  | poll timestamp =>
    simp only [exec] at hstep
    split at hstep
    · next message proof hstage =>
      have hmessage : s.stage.message? = some message := hstage ▸ rfl
      split_ifs at hstep
      · obtain rfl := Option.some.inj hstep
        exact h.stage_of_message hmessage (.inl rfl) (by simp)
      · obtain rfl := Option.some.inj hstep
        exact h
    · cases hstep
  | status =>
    simp only [exec] at hstep
    split at hstep
    · next message proof hstage =>
      obtain rfl := Option.some.inj hstep
      exact h.asked (hstage ▸ rfl)
    · cases hstep
  | proved time gasLasts =>
    simp only [exec] at hstep
    split at hstep
    · next message proof hstage =>
      have hmessage : s.stage.message? = some message := hstage ▸ rfl
      split_ifs at hstep
      · obtain rfl := Option.some.inj hstep
        exact (h.transacted (time, proveCall proof)).stage_of_message hmessage (.inl rfl) (by simp)
      · obtain rfl := Option.some.inj hstep
        exact h.stage_of_message hmessage (.inl rfl) (by simp)
    · cases hstep
  | processed time frame inner =>
    simp only [exec] at hstep
    split at hstep
    · next message hstage =>
      have hmessage : s.stage.message? = some message := hstage ▸ rfl
      split_ifs at hstep
      obtain rfl := Option.some.inj hstep
      -- The loop advances whether or not its transaction was reverted: only the
      -- condition says that the message is processed.
      apply (h.transacted (time, processCall message frame inner)).stage_advancing hmessage
      exact .inr (processed_of_processCall (hcond message time frame inner hstage rfl))
    · cases hstep
  | store =>
    simp only [exec] at hstep
    split at hstep
    · next hstage =>
      obtain rfl := Option.some.inj hstep
      exact h.store hstage
    · cases hstep
  | fail =>
    obtain rfl := Option.some.inj hstep
    exact h.stage_idle rfl (by simp)
  -- The new loop starts at the stored nonce, which is where the old one was.
  | crash =>
    obtain ⟨stored, hread, hnonce, -⟩ := h.stored
    simp only [exec, hread] at hstep
    obtain rfl := Option.some.inj hstep
    rw [← hnonce]
    exact h.stage_idle rfl (by simp)

omit [DecidableEq Byte] in
theorem rows_empty (entity : List Byte) (log : List (Home.Event Byte)) :
    Rows entity log (DB.empty : DB Byte) where
  byKey _ _ h := by cases h
  byLeaf _ _ h := by cases h

/-- **Run lemma.** What the loop knows holds in every run in which its reverted
`process` transactions are about processed messages. -/
theorem holds_of_reachable (ideal : Crypto.IdealHash K)
    (h : ((system K S settings root₀).restrict (RevertsIfProcessed K S)).Reachable s) :
    Holds K settings s := by
  refine h.invariant ?_ fun s label t _ hholds hstep => hholds.step ideal hstep.1 hstep.2
  rintro s ⟨hhome, -, -, hdb, hnonce, hstage⟩
  constructor
  case home => exact System.reachable_init hhome
  case rows =>
    rw [hdb]
    exact rows_empty _ _
  case stored =>
    refine ⟨none, ?_, hnonce, fun n hn => by cases hn⟩
    rw [hdb]
    rfl
  case done =>
    intro n hn
    rw [hnonce] at hn
    exact absurd hn (Nat.not_lt_zero _)
  case carries =>
    intro message hmessage
    rw [hstage] at hmessage
    cases hmessage
  case advancing =>
    intro hadvancing
    rw [hstage] at hadvancing
    cases hadvancing

/-- **No message is skipped.** In every run in which a `process` transaction of
the loop is reverted only after the message was processed, each nonce up to the
stored one belongs to one message, and that message is filtered or processed. -/
theorem never_skips (ideal : Crypto.IdealHash K)
    (h : ((system K S settings root₀).restrict (RevertsIfProcessed K S)).Reachable s)
    {current : UInt32}
    (hcurrent : currentNonce settings.entity settings.domain s.db = .ok (some current)) :
    ∀ n ≤ current, (∃! e, Addressed s.home.log settings.domain n e) ∧
      ∀ e, Addressed s.home.log settings.domain n e →
        Done settings s.chain.replica.messages e := by
  have hholds := holds_of_reachable ideal h
  have hlog := History.numbered_of_reachable hholds.home
  obtain ⟨stored, hread, hnonce, hlt⟩ := hholds.stored
  obtain rfl := Except.ok.inj (hread.symm.trans hcurrent)
  intro n hn
  have hbelow : n < s.nextMessageNonce := by
    have hmax : U32_MAX.toNat = 2 ^ 32 - 1 := rfl
    have hle := UInt32.le_iff_toNat_le.mp hn
    have hcurrent' := UInt32.lt_iff_toNat_lt.mp (hlt current rfl)
    rw [hnonce, startNonce, UInt32.lt_iff_toNat_lt, UInt32.toNat_add, UInt32.toNat_one,
      Nat.mod_eq_of_lt (by omega)]
    omega
  obtain ⟨e, he, hdone⟩ := hholds.done n hbelow
  refine ⟨⟨e, he, fun e' he' => he'.unique hlog he⟩, fun e' he' => ?_⟩
  rwa [he'.unique hlog he]

end Known

/-! ### A message and two receipts -/

section Sample

variable {K S settings} {root₀ : Bytes32 Byte} {s t : State Byte E η} {label : Label Byte ω}
  {e : DispatchEvent Byte}

/-- The runs in which the loop meets no revert of its own. -/
def Undisturbed (K : Crypto Byte) (S : Surroundings Byte ω E η) (settings : Settings Byte)
    (root₀ : Bytes32 Byte) (s : State Byte E η) : Prop :=
  ((system K S settings root₀).restrict (RevertsIfProcessed K S)).Reachable s

theorem Undisturbed.step (h : Undisturbed K S settings root₀ s)
    (hexec : exec K S settings label s = some t)
    (hne : ∀ time frame inner, label ≠ .processed time frame inner) :
    Undisturbed K S settings root₀ t :=
  System.Reachable.step h ⟨hexec, fun _ time frame inner _ hlabel =>
    absurd hlabel (hne time frame inner)⟩

/-- Home goes on by itself. -/
theorem Undisturbed.home {history : History Byte}
    {labels : List (Home.Context Byte × Home.Call Byte)} (h : Undisturbed K S settings root₀ s)
    (hrun : (Home.system K).Run s.home labels history) :
    Undisturbed K S settings root₀ { s with home := history } := by
  generalize hstart : s.home = start at hrun
  induction hrun with
  | refl => exact hstart ▸ h
  | @tail mid last labels tx _ hlast ih =>
    have hexec : exec K S settings (.home tx) { s with home := mid } =
        some { s with home := last } := by
      rw [exec, eq_afterCall hlast]
    exact ih.step hexec (by simp)

/-- The indexer stores a message, row by row. -/
theorem Undisturbed.rows {position : ℕ} {message : RawCommittedMessage Byte} {rows : List Row}
    {db₀ db : DB Byte} (h : Undisturbed K S settings root₀ { s with db := db₀ })
    (hposition : (dispatches s.home.log)[position]? = some e)
    (hmessage : RawCommittedMessage.ofDispatch e = .ok message)
    (hrows : rows.foldlM (fun db row => writeRow K settings.entity message row db) db₀ = .ok db) :
    Undisturbed K S settings root₀ { s with db := db } := by
  induction rows generalizing db₀ with
  | nil =>
    obtain rfl := Except.ok.inj hrows
    exact h
  | cons row rest ih =>
    rw [List.foldlM_cons] at hrows
    obtain ⟨db₁, hrow, hrest⟩ := bind_eq_ok.mp hrows
    have hexec : exec K S settings (.index position row) { s with db := db₀ } =
        some { s with db := db₁ } := by
      simp only [exec, hposition, hmessage, ok_bind, hrow]
    exact ih (h.step hexec (by simp)) hrest

omit [DecidableEq Byte] in
theorem looked_of_found {db : DB Byte} {nonce : UInt32} {row : RawCommittedMessage Byte}
    {message : CommittedMessage Byte}
    (hfound : messageByNonce settings.entity db settings.domain nonce = .ok (some row))
    (hread : CommittedMessage.tryFrom row = .ok message) :
    looked settings db nonce = .found message := by
  rw [looked, hfound]
  dsimp only
  rw [hread]

/-- No list filters anything. -/
def sampleSettings : Settings ℕ := ⟨[], 2000, none, none⟩

def sampleCrypto : Crypto ℕ := Crypto.withIdealHash fun _ _ => none

/-- A chain without other contracts. -/
def sampleSurroundings : Surroundings ℕ Empty Unit Unit :=
  ⟨fun _ _ _ => .error .assert, fun _ _ => true⟩

/-- The loop is about to send both transactions for its first message, whose
proof the Replica accepts. -/
structure Sending (s : State ℕ Unit Unit) (e : DispatchEvent ℕ) (message : CommittedMessage ℕ)
    (proof : Proof ℕ) : Prop where
  undisturbed : Undisturbed sampleCrypto sampleSurroundings sampleSettings
    (proof.root sampleCrypto) s
  addressed : Addressed s.home.log 2000 0 e
  carries : Carries e message
  leaf : proof.leaf = message.toLeaf sampleCrypto
  stage : s.stage = .proving message proof
  nonce : s.nextMessageNonce = 0
  chain : s.chain = .deployed 2000 1000 0 (proof.root sampleCrypto) 1800 1 ()

theorem exists_sending : ∃ s e message proof, Sending s e message proof := by
  obtain ⟨history, e, hreach, hdispatches, hdestination, hnonce⟩ := exists_dispatched_to 2000
  have hlog := History.numbered_of_reachable hreach
  have he : e ∈ dispatches history.log := hdispatches ▸ List.mem_singleton_self e
  have haddressed : Addressed history.log 2000 0 e := ⟨he, hdestination, hnonce⟩
  have hposition : (dispatches history.log)[0]? = some e := by rw [hdispatches]; rfl
  obtain ⟨db, hstore, hrows⟩ : ∃ db, storeRawCommittedMessage sampleCrypto [] (raw e) DB.empty =
      .ok db ∧ Stored [] DB.empty db e.destinationAndNonce e.messageHash (raw e) :=
    storeRawCommittedMessage_of_ne hlog he (by rw [hdestination]; decide) DB.empty
  rw [storeRawCommittedMessage_eq_rows] at hstore
  obtain ⟨parsed, hread, -⟩ := readFrom_event hlog he
  let message : CommittedMessage ℕ := ⟨(raw e).leafIndex, (raw e).committedRoot, parsed⟩
  have htry : CommittedMessage.tryFrom (raw e) = .ok message := by
    rw [CommittedMessage.tryFrom, raw, hread]
    rfl
  have hfound : messageByNonce [] db 2000 0 = .ok (some (raw e)) := by
    obtain ⟨hkey, hlt⟩ := haddressed.key hlog
    have hpacked := destinationAndNonce_eq_ok.mpr ⟨by decide, hlt, hkey⟩
    rw [messageByNonce, leafByNonce, hpacked, ok_bind, hrows.byKey, if_pos rfl, ok_bind]
    dsimp only
    rw [hrows.byLeaf, if_pos rfl]
  let proof : Proof ℕ := ⟨message.toLeaf sampleCrypto, 0, List.Vector.replicate 32 0⟩
  let chain : Chain ℕ Unit Unit := .deployed 2000 1000 0 (proof.root sampleCrypto) 1800 1 ()
  have hroot : chain.replica.acceptableRoot 1 (proof.root sampleCrypto) = true := by
    rw [Replica.acceptableRoot_eq_true]
    simp [chain, Chain.deployed, Replica.init]
  obtain ⟨start, labels, hinit, hrun⟩ := hreach
  -- Home dispatches, the indexer and the prover store what they see
  have hstart : Undisturbed sampleCrypto sampleSurroundings sampleSettings
      (proof.root sampleCrypto) ⟨start, chain, .empty, .empty, 0, .looking⟩ :=
    System.reachable_init ⟨hinit, Chain.deployed_initial .., rfl, rfl, rfl, rfl⟩
  have hindexed := (hstart.home hrun).rows (s := ⟨history, chain, .empty, .empty, 0, .looking⟩)
    hposition (ofDispatch_event hlog he) hstore
  let tables : OpticsDB ℕ := OpticsDB.empty.put (.proof message.leafIndex.toNat proof)
  let loop (stage : Stage ℕ) : State ℕ Unit Unit := ⟨history, chain, tables, db, 0, stage⟩
  have hexec : exec sampleCrypto sampleSurroundings sampleSettings
      (.prover (.proof message.leafIndex.toNat proof)) ⟨history, chain, .empty, db, 0, .looking⟩ =
        some (loop .looking) := rfl
  have hlooking := hindexed.step hexec (by simp)
  -- the loop looks, filters, polls and asks
  have hlook : exec sampleCrypto sampleSurroundings sampleSettings .look (loop .looking) =
      some (loop (.found message)) := by
    have hlooked : looked sampleSettings db 0 = .found message := looked_of_found hfound htry
    simp only [exec, loop, hlooked]
  have hfilter : exec sampleCrypto sampleSurroundings sampleSettings .filter
      (loop (.found message)) = some (loop (.waiting message proof)) := by
    have hproof : tables.proofByLeafIndex message.leafIndex.toNat = some proof := by simp [tables]
    have hskips : sampleSettings.skips message.message.sender = false := rfl
    have hleaf : proof.leaf = message.toLeaf sampleCrypto := rfl
    simp only [exec, loop, filtered, hproof, hskips, hleaf, ne_eq, not_true_eq_false, if_false,
      Bool.false_eq_true]
  have hpoll : exec sampleCrypto sampleSurroundings sampleSettings (.poll 1)
      (loop (.waiting message proof)) = some (loop (.asking message proof)) := by
    simp only [exec, loop, hroot, if_true]
  have hstatus : exec sampleCrypto sampleSurroundings sampleSettings .status
      (loop (.asking message proof)) = some (loop (.proving message proof)) := rfl
  have hproving := (((hlooking.step hlook (by simp)).step hfilter (by simp)).step hpoll
    (by simp)).step hstatus (by simp)
  exact ⟨_, e, message, proof, hproving, haddressed, carries_of_tryFrom hlog he htry, rfl, rfl, rfl,
    rfl⟩

/-- A message that is not proven makes the `process` transaction revert. -/
theorem exists_error_of_ne {message : CommittedMessage Byte} {chain : Chain Byte E η} (time : ℕ)
    (frame : Frame Byte) (inner : Calls Byte ω)
    (h : chain.replica.messages (message.toLeaf K) ≠ .Proven) :
    ∃ e, Chain.transact K S (time, processCall message frame inner) chain = .error e :=
  Replica.Call.exec_process_error frame inner h

/-- The loop gives a message up when both transactions for it revert. -/
theorem exec_reverted {message : CommittedMessage Byte} {proof : Proof Byte} (frame : Frame Byte)
    (inner : Calls Byte ω) (hstage : s.stage = .proving message proof)
    (h : s.chain.replica.messages (message.toLeaf K) ≠ .Proven) :
    exec K S settings (.proved s.chain.now false) s = some { s with stage := .processing message } ∧
    exec K S settings (.processed s.chain.now frame inner) { s with stage := .processing message } =
      some { s with stage := .advancing } := by
  constructor
  · simp only [exec, hstage, le_refl, if_true, Bool.false_eq_true, if_false]
  · have hchain := afterCall_of_error (exists_error_of_ne (S := S) s.chain.now frame inner h)
    simp only [exec, le_refl, if_true, hchain]

/-- The state after `Flow::Advance` has been handled. -/
def State.advanced (settings : Settings Byte) (s : State Byte E η) : State Byte E η :=
  { s with
    db := storeKeyedEncodable settings.entity CURRENT_NONCE settings.domain s.nextMessageNonce s.db
    nextMessageNonce := s.nextMessageNonce + 1
    stage := .looking }

theorem exec_store (s : State Byte E η) :
    exec K S settings .store { s with stage := .advancing } = some (s.advanced settings) := rfl

theorem currentNonce_advanced (s : State Byte E η) :
    currentNonce settings.entity settings.domain (s.advanced settings).db =
      .ok (some s.nextMessageNonce) :=
  (currentNonce_store _ _ _).trans (if_pos rfl)

/-- Someone else can process the message that the loop is about to send. -/
theorem Sending.overtaken {s : State ℕ Unit Unit} {e : DispatchEvent ℕ}
    {message : CommittedMessage ℕ} {proof : Proof ℕ} (h : Sending s e message proof) :
    ∃ chain, exec sampleCrypto sampleSurroundings sampleSettings
        (.transaction (1, .proveAndProcess (writeTo message.message)
          (fun i => proof.path.toList.getD i 0) proof.index ⟨865000, true, [], true⟩ .nil)) s =
          some { s with chain := chain } ∧
      chain.replica.messages (message.toLeaf sampleCrypto) = .Processed := by
  have hnow : s.chain.now = 1 := by rw [h.chain]; rfl
  have hroot : s.chain.replica.acceptableRoot 1 (MerkleLib.branchRoot sampleCrypto
      (sampleCrypto.keccak256 (writeTo message.message)) (fun i => proof.path.toList.getD i 0)
      proof.index) = true := by
    have hleaf : sampleCrypto.keccak256 (writeTo message.message) = proof.leaf := h.leaf.symm
    rw [hleaf, ← root_eq_branchRoot, h.chain, Replica.acceptableRoot_eq_true]
    simp [Chain.deployed, Replica.init]
  have hdestination : Message.destination (writeTo message.message) =
      .ok s.chain.replica.localDomain := by
    rw [show writeTo message.message = e.message from h.carries, h.addressed.destination, h.chain]
    rfl
  have hgas : (s.chain.replica.PROCESS_GAS + s.chain.replica.RESERVE_GAS) % 2 ^ 256 ≤ 865000 := by
    have hprocess : s.chain.replica.PROCESS_GAS = 850000 := by rw [h.chain]; rfl
    have hreserve : s.chain.replica.RESERVE_GAS = 15000 := by rw [h.chain]; rfl
    rw [hprocess, hreserve]
    decide
  obtain ⟨chain, hexec, -⟩ := Replica.Call.exec_proveAndProcess (S := sampleSurroundings)
    (s := { s.chain with now := 1 }) ⟨865000, true, [], true⟩ .nil
    (by rw [h.chain]; rfl) hroot (by rw [h.chain]; rfl) hdestination
    (Replica.handleOf_formatMessage ..) hgas rfl
  refine ⟨chain, ?_, Replica.Call.exec_proveAndProcess_processed hexec⟩
  have hcall : afterCall (Chain.transact sampleCrypto sampleSurroundings) (1, _) s.chain = chain :=
    afterCall_of_ok hexec
  simp only [exec, hnow, le_refl, if_true, hcall]

/-- Another party processes the message before the transactions of the loop are
mined. Both revert, and the stored nonce is right. -/
theorem never_skips_overtaken :
    ∃ s : State ℕ Unit Unit,
      currentNonce sampleSettings.entity sampleSettings.domain s.db = .ok (some 0) ∧
        ∀ n ≤ (0 : UInt32), (∃! e, Addressed s.home.log 2000 n e) ∧
          ∀ e, Addressed s.home.log 2000 n e →
            Done sampleSettings s.chain.replica.messages e := by
  obtain ⟨s, e, message, proof, h⟩ := exists_sending
  obtain ⟨chain, hexec, hprocessed⟩ := h.overtaken
  have hne : chain.replica.messages (message.toLeaf sampleCrypto) ≠ .Proven := by simp [hprocessed]
  let overtaken : State ℕ Unit Unit := { s with chain := chain }
  have hovertaken : Undisturbed sampleCrypto sampleSurroundings sampleSettings
      (proof.root sampleCrypto) overtaken := h.undisturbed.step hexec (by simp)
  obtain ⟨hproved, hreverted⟩ :
      exec sampleCrypto sampleSurroundings sampleSettings (.proved chain.now false) overtaken = _ ∧
      exec sampleCrypto sampleSurroundings sampleSettings (.processed chain.now _ _) _ = _ :=
    exec_reverted ⟨0, false, [], false⟩ .nil h.stage hne
  -- the only revert of the loop is about a processed message
  have hadvancing : Undisturbed sampleCrypto sampleSurroundings sampleSettings
      (proof.root sampleCrypto) { overtaken with stage := .advancing } := by
    refine System.Reachable.step (hovertaken.step hproved (by simp)) ⟨hreverted, ?_⟩
    intro message' time frame inner hstage _ _
    obtain rfl := Stage.processing.inj hstage
    exact hprocessed
  have hcurrent : currentNonce sampleSettings.entity sampleSettings.domain
      (overtaken.advanced sampleSettings).db = .ok (some 0) := by
    rw [currentNonce_advanced]
    exact congrArg (fun n => Except.ok (some n)) h.nonce
  exact ⟨_, hcurrent, never_skips (Crypto.withIdealHash_ideal _)
    (hadvancing.step (exec_store overtaken) (by simp)) hcurrent⟩

/-- Both transactions of the loop revert. The nonce is stored, and nobody has
processed the message. -/
theorem skips_reverted_message :
    ∃ (s : State ℕ Unit Unit) (root₀ : Bytes32 ℕ) (e : DispatchEvent ℕ),
      (system sampleCrypto sampleSurroundings sampleSettings root₀).Reachable s ∧
        currentNonce sampleSettings.entity sampleSettings.domain s.db = .ok (some 0) ∧
        Addressed s.home.log 2000 0 e ∧ ¬ Done sampleSettings s.chain.replica.messages e := by
  obtain ⟨s, e, message, proof, h⟩ := exists_sending
  have hmessages : s.chain.replica.messages = fun _ => .None := by rw [h.chain]; rfl
  have hne : s.chain.replica.messages (message.toLeaf sampleCrypto) ≠ .Proven := by simp [hmessages]
  obtain ⟨hproved, hprocessed⟩ :
      exec sampleCrypto sampleSurroundings sampleSettings (.proved s.chain.now false) s = _ ∧
      exec sampleCrypto sampleSurroundings sampleSettings (.processed s.chain.now _ _) _ = _ :=
    exec_reverted ⟨0, false, [], false⟩ .nil h.stage hne
  have hreach := (System.Reachable.of_restrict h.undisturbed).step hproved
  refine ⟨_, _, e, (hreach.step hprocessed).step (exec_store s), ?_, h.addressed, ?_⟩
  · rw [currentNonce_advanced, h.nonce]
  · rintro (⟨sender, -, hskips⟩ | hdone)
    · cases hskips
    · change s.chain.replica.messages e.messageHash = .Processed at hdone
      rw [hmessages] at hdone
      cases hdone

end Sample

end Optics.ReplicaProcessor
