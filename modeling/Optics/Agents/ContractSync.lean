/-
# The event indexer

Two loops copy the `Update` and the `Dispatch` events of a contract into one database of
the agent, chunk by chunk, with a resume point for each loop that is written after a chunk
and holds its beginning. They run side by side, and the process may stop between any two
writes.

The database is what was put into it, so a state keeps the list of all puts. A storing
call is the list of its puts, which the tables' own theorem identifies with what the call
does.
-/

import Optics.Agents.Tables
import Optics.Math.Indexer
import Optics.Math.Links
import Optics.Math.Transition

namespace Optics.ContractSync

open Optics.Solidity Optics.KeyValue Optics.Math Optics.Math.Log Optics.Math.Transition
open Optics.MessageIndex Optics.UpdateHandler Optics.Tables

variable {Byte : Type}

/-- `SignedUpdateWithMeta`. -/
structure SignedUpdateWithMeta (Byte : Type) where
  signedUpdate : SignedUpdate Byte
  metadata : UpdateMeta

namespace SignedUpdateWithMeta

abbrev previousRoot (u : SignedUpdateWithMeta Byte) : Bytes32 Byte :=
  u.signedUpdate.update.previousRoot

abbrev newRoot (u : SignedUpdateWithMeta Byte) : Bytes32 Byte := u.signedUpdate.update.newRoot

end SignedUpdateWithMeta

/-- What a `ContractSync` is made with: the entity of its database, and heights. -/
structure Settings (Byte : Type) where
  name : List Byte
  fromHeight : UInt32
  chunkSize : UInt32

/-- The events of each block of the contract's chain, in order. The blocks never change,
so a state of the chain is told by its height alone. -/
structure Chain (Byte : Type) where
  updates : ℕ → List (SignedUpdateWithMeta Byte)
  messages : ℕ → List (RawCommittedMessage Byte)

variable [ByteAlphabet Byte] [DecidableEq Byte]

/-- The database after some puts. -/
def database (name : List Byte) (log : List (Put Byte)) : DB Byte :=
  log.foldl (layout name).put DB.empty

theorem holds_database (name : List Byte) (log : List (Put Byte)) :
    (layout name).Holds (database name log) log :=
  (layout name).holds_nil.foldl log

/-- A read of a table finds the last put. -/
theorem retrieve_database (name : List Byte) (log : List (Put Byte)) (t : Table)
    (key : t.Key Byte) :
    retrieveDecodable (t.Value Byte) name t.name (t.keyBytes key) (database name log) =
      .ok (lastStored log .home t key) :=
  (retrieveDecodable_eq_get name .home t key _).trans ((holds_database name log).get _)

/-! ### The two loops -/

/-- The read of a resume point. It never fails, so the `expect` never panics. -/
def resumePoint (name key : List Byte) (log : List (Put Byte)) : Option ℕ :=
  match retrieveDecodable UInt32 name [] key (database name log) with
  | .ok point => point.map UInt32.toNat
  | .error _ => none

section Loops

variable (K : Crypto Byte) (settings : Settings Byte) (chain : Chain Byte)

/-- `store_latest_update` and `store_update_metadata`. -/
def updateWrites (log : List (Put Byte)) (u : SignedUpdateWithMeta Byte) :
    Option (List (Put Byte)) :=
  match storeLatestUpdate settings.name u.signedUpdate (database settings.name log) with
  | .ok _ =>
    some (puts K settings.name .home (.storeLatestUpdate u.signedUpdate)
        (database settings.name log) ++
      [entry .home .updateMeta u.newRoot u.metadata])
  | .error _ => none

/-- The rows of an update. -/
def updateRows (u : SignedUpdateWithMeta Byte) : List (Put Byte) :=
  [entry .home .update u.previousRoot u.signedUpdate,
    entry .home .prevRoot u.newRoot u.previousRoot,
    entry .home .updateMeta u.newRoot u.metadata]

/-- `store_raw_committed_message`. The message that it has parsed is parsed again for the
log of the agent, with the same result. -/
def messageWrites (log : List (Put Byte)) (m : RawCommittedMessage Byte) :
    Option (List (Put Byte)) :=
  match MessageIndex.storeRawCommittedMessage K settings.name m (database settings.name log) with
  | .ok _ =>
    some (puts K settings.name .home (.storeRawCommittedMessage m) (database settings.name log))
  | .error _ => none

/-- The packed destination and nonce of a raw message. -/
def messageKey (m : RawCommittedMessage Byte) : Except Fault UInt64 :=
  OpticsMessage.readFrom m.message >>= OpticsMessage.destinationAndNonce

/-- The rows of a message. One that cannot be packed has no row by nonce, and is never
stored. -/
def messageRows (m : RawCommittedMessage Byte) : List (Put Byte) :=
  entry .home .message (m.leaf K) m :: entry .home .leafByIndex m.leafIndex (m.leaf K) ::
    match messageKey m with
    | .ok key => [entry .home .leafByNonce key (m.leaf K)]
    | .error _ => []

/-! ### What storing writes -/

variable {K settings}

/-- The root that the database holds as the latest. -/
def latestRoot (log : List (Put Byte)) : Option (Bytes32 Byte) :=
  lastStored log .home .latestRoot ()

theorem retrieveLatestRoot_database (name : List Byte) (log : List (Put Byte)) :
    retrieveLatestRoot name (database name log) = .ok (latestRoot log) :=
  retrieve_database name log .latestRoot ()

theorem updateWrites_eq (log : List (Put Byte)) (u : SignedUpdateWithMeta Byte) :
    updateWrites K settings log u = some
      (if ∀ root, latestRoot log = some root → root = u.previousRoot then
        entry .home .latestRoot () u.newRoot :: updateRows u
      else updateRows u) := by
  simp only [updateWrites, storeLatestUpdate, puts, Handle.entity, retrieveLatestRoot_database,
    ok_bind]
  cases latestRoot log with
  | none => simp [updatePuts, updateRows]
  | some root =>
    by_cases hroot : root = u.previousRoot
    · simp [hroot, updatePuts, updateRows]
    · simp [hroot, updatePuts, updateRows]

theorem resumePoint_of_read {name key : List Byte} {log : List (Put Byte)} {point : Option UInt32}
    (hread : retrieveDecodable UInt32 name [] key (database name log) = .ok point) :
    resumePoint name key log = point.map UInt32.toNat := by
  rw [resumePoint, hread]

theorem resumePoint_updates (name : List Byte) (log : List (Put Byte)) :
    resumePoint name UPDATES_LAST_INSPECTED log =
      (lastStored log .home .updatesLastInspected ()).map UInt32.toNat :=
  resumePoint_of_read (retrieve_database name log .updatesLastInspected ())

theorem resumePoint_messages (name : List Byte) (log : List (Put Byte)) :
    resumePoint name MESSAGES_LAST_INSPECTED log =
      (lastStored log .home .messagesLastInspected ()).map UInt32.toNat :=
  resumePoint_of_read (retrieve_database name log .messagesLastInspected ())

omit [ByteAlphabet Byte] in
/-- A put into another table is not what a table holds. -/
theorem lastStored_concat_of_ne {log : List (Put Byte)} {p : Put Byte} {t : Table}
    (h : p.1.1.2 ≠ t) (key : t.Key Byte) :
    lastStored (log ++ [p]) .home t key = lastStored log .home t key := by
  obtain ⟨⟨⟨handle, table⟩, k⟩, v⟩ := p
  rw [lastStored, last_concat, Layout.Put.at_of_ne]
  · rfl
  · intro heq
    exact h (congrArg (fun a => a.1.2) heq)

omit [ByteAlphabet Byte] in
@[simp] theorem lastStored_concat_self (log : List (Put Byte)) (t : Table) (key : t.Key Byte)
    (value : t.Value Byte) :
    lastStored (log ++ [entry .home t key value]) .home t key = some value := by
  rw [lastStored, last_concat, entry, Layout.Put.at_self]
  rfl

omit [ByteAlphabet Byte] [DecidableEq Byte] in
theorem entry_inj {t : Table} {key key' : t.Key Byte} {value value' : t.Value Byte}
    (h : entry .home t key value = entry .home t key' value') : key = key' ∧ value = value' :=
  ⟨eq_of_heq (Sigma.mk.inj (Sigma.mk.inj h).1).2, eq_of_heq (Sigma.mk.inj h).2⟩

omit [ByteAlphabet Byte] in
/-- A row that was put with one value only. -/
theorem lastStored_eq_some {log : List (Put Byte)} {t : Table} {key : t.Key Byte}
    {value : t.Value Byte} (hmem : entry .home t key value ∈ log)
    (h : ∀ other, entry .home t key other ∈ log → other = value) :
    lastStored log .home t key = some value := by
  refine last_eq_some ⟨_, hmem, Layout.Put.at_eq_some.mpr rfl⟩ fun p hp other hother => ?_
  obtain rfl := Layout.Put.at_eq_some.mp hother
  exact h other hp

omit [ByteAlphabet Byte] in
/-- A row that was never put. -/
theorem lastStored_eq_none {log : List (Put Byte)} {t : Table} {key : t.Key Byte}
    (h : ∀ value, entry .home t key value ∉ log) : lastStored log .home t key = none := by
  refine last_eq_none fun p hp => ?_
  by_contra hsome
  obtain ⟨value, hvalue⟩ := Option.ne_none_iff_exists'.mp hsome
  obtain rfl := Layout.Put.at_eq_some.mp hvalue
  exact h value hp

/-- Only a put into its own table moves a resume point. -/
theorem resumePoint_updates_concat (name : List Byte) {log : List (Put Byte)} {p : Put Byte}
    (h : p.1.1.2 ≠ .updatesLastInspected) :
    resumePoint name UPDATES_LAST_INSPECTED (log ++ [p]) =
      resumePoint name UPDATES_LAST_INSPECTED log := by
  rw [resumePoint_updates, resumePoint_updates, lastStored_concat_of_ne h]

theorem resumePoint_messages_concat (name : List Byte) {log : List (Put Byte)} {p : Put Byte}
    (h : p.1.1.2 ≠ .messagesLastInspected) :
    resumePoint name MESSAGES_LAST_INSPECTED (log ++ [p]) =
      resumePoint name MESSAGES_LAST_INSPECTED log := by
  rw [resumePoint_messages, resumePoint_messages, lastStored_concat_of_ne h]

/-- The tables that an update is stored in. -/
def Table.OfUpdates (t : Table) : Prop :=
  t = .latestRoot ∨ t = .update ∨ t = .prevRoot ∨ t = .updateMeta

/-- The tables that a message is stored in. -/
def Table.OfMessages (t : Table) : Prop :=
  t = .leafByNonce ∨ t = .leafByIndex ∨ t = .latestLeafIndex ∨ t = .message

theorem table_of_updateWrites {log ws : List (Put Byte)} {u : SignedUpdateWithMeta Byte}
    (h : updateWrites K settings log u = some ws) : ∀ p ∈ ws, Table.OfUpdates p.1.1.2 := by
  rw [updateWrites_eq, Option.some.injEq] at h
  subst h
  intro p hp
  split_ifs at hp <;> simp [updateRows] at hp <;> rcases hp with rfl | rfl | rfl | rfl <;>
    simp [entry, Table.OfUpdates]

theorem messageWrites_eq {log ws : List (Put Byte)} {m : RawCommittedMessage Byte}
    (h : messageWrites K settings log m = some ws) :
    ∃ key, messageKey m = .ok key ∧
      ws = [entry .home .leafByNonce key (m.leaf K), entry .home .leafByIndex m.leafIndex (m.leaf K)] ++
        latestLeafIndexPuts settings.name .home m.leafIndex (database settings.name log) ++
        [entry .home .message (m.leaf K) m] := by
  -- the call stores only what it could parse and pack, and fails before any put
  have hkey : ∃ key, messageKey m = .ok key := by
    rw [messageWrites, MessageIndex.storeRawCommittedMessage] at h
    rw [messageKey]
    cases hparsed : OpticsMessage.readFrom m.message with
    | error fault => simp [hparsed] at h
    | ok parsed =>
      rw [hparsed, ok_bind] at h
      rw [ok_bind]
      cases hpacked : parsed.destinationAndNonce with
      | error fault => simp [hpacked] at h
      | ok key => exact ⟨key, rfl⟩
  obtain ⟨key, hkey⟩ := hkey
  refine ⟨key, hkey, ?_⟩
  rw [messageWrites] at h
  rw [messageKey] at hkey
  split at h
  · simp only [puts, hkey] at h
    exact (Option.some.inj h).symm
  · cases h

omit [DecidableEq Byte] in
theorem eq_of_mem_latestLeafIndexPuts {name : List Byte} {leafIndex : UInt32} {db : DB Byte}
    {p : Put Byte} (h : p ∈ latestLeafIndexPuts name .home leafIndex db) :
    p = entry .home .latestLeafIndex () leafIndex := by
  rw [latestLeafIndexPuts] at h
  split at h
  · split_ifs at h
    · cases h
    · exact List.mem_singleton.mp h
  · exact List.mem_singleton.mp h

theorem table_of_messageWrites {log ws : List (Put Byte)} {m : RawCommittedMessage Byte}
    (h : messageWrites K settings log m = some ws) : ∀ p ∈ ws, Table.OfMessages p.1.1.2 := by
  obtain ⟨key, -, rfl⟩ := messageWrites_eq h
  intro p hp
  simp only [List.mem_append, List.mem_cons, List.not_mem_nil, or_false] at hp
  rcases hp with ((rfl | rfl) | hp) | rfl
  · simp [entry, Table.OfMessages]
  · simp [entry, Table.OfMessages]
  · simp [eq_of_mem_latestLeafIndexPuts hp, entry, Table.OfMessages]
  · simp [entry, Table.OfMessages]

variable (K settings)

/-- `sync_updates`. -/
def syncUpdates : Indexer (SignedUpdateWithMeta Byte) (Put Byte) where
  block := chain.updates
  fromHeight := settings.fromHeight.toNat
  chunkSize := settings.chunkSize.toNat
  bound := 2 ^ 32
  writes := updateWrites K settings
  rows := updateRows
  mark n := entry .home .updatesLastInspected () (UInt32.ofNat n)
  resume := resumePoint settings.name UPDATES_LAST_INSPECTED
  resume_nil := resumePoint_updates settings.name []
  resume_mark log n hn := by
    rw [resumePoint_updates, lastStored_concat_self]
    exact congrArg some (Nat.mod_eq_of_lt hn)
  resume_write log u ws p hwrites hp log' := by
    refine resumePoint_updates_concat settings.name fun heq => ?_
    have htable := table_of_updateWrites hwrites p hp
    rw [heq] at htable
    simp [Table.OfUpdates] at htable
  rows_subset log u ws hwrites := by
    rw [updateWrites_eq, Option.some.injEq] at hwrites
    subst hwrites
    split_ifs
    · exact List.subset_cons_self _ _
    · exact List.Subset.refl _

/-- `sync_messages`. -/
def syncMessages : Indexer (RawCommittedMessage Byte) (Put Byte) where
  block := chain.messages
  fromHeight := settings.fromHeight.toNat
  chunkSize := settings.chunkSize.toNat
  bound := 2 ^ 32
  writes := messageWrites K settings
  rows := messageRows K
  mark n := entry .home .messagesLastInspected () (UInt32.ofNat n)
  resume := resumePoint settings.name MESSAGES_LAST_INSPECTED
  resume_nil := resumePoint_messages settings.name []
  resume_mark log n hn := by
    rw [resumePoint_messages, lastStored_concat_self]
    exact congrArg some (Nat.mod_eq_of_lt hn)
  resume_write log m ws p hwrites hp log' := by
    refine resumePoint_messages_concat settings.name fun heq => ?_
    have htable := table_of_messageWrites hwrites p hp
    rw [heq] at htable
    simp [Table.OfMessages] at htable
  rows_subset log m ws hwrites := by
    obtain ⟨key, hkey, rfl⟩ := messageWrites_eq hwrites
    intro p hp
    simp only [messageRows, hkey, List.mem_cons, List.not_mem_nil, or_false] at hp
    simp only [List.mem_append, List.mem_cons, List.not_mem_nil, or_false]
    tauto

/-! ### Both loops at once -/

/-- The puts that were made, and where each loop is. -/
structure State (Byte : Type) where
  log : List (Put Byte)
  updates : Indexer.Stage (SignedUpdateWithMeta Byte) (Put Byte)
  messages : Indexer.Stage (RawCommittedMessage Byte) (Put Byte)

/-- A move of one loop. A stop of the process is a stop of each. -/
inductive Label
  | updates (move : Indexer.Move)
  | messages (move : Indexer.Move)

def exec : Label → State Byte → Option (State Byte)
  | .updates move, s =>
    ((syncUpdates K settings chain).step move (s.log, s.updates)).map fun next =>
      { s with log := next.1, updates := next.2 }
  | .messages move, s =>
    ((syncMessages K settings chain).step move (s.log, s.messages)).map fun next =>
      { s with log := next.1, messages := next.2 }

/-- Both loops over an empty database. -/
def system : System (State Byte) Label where
  init s := s = ⟨[], .down, .down⟩
  step s label t := exec K settings chain label s = some t

/-! ### What a state is reached by -/

variable {K settings chain}

theorem table_of_own_updates {p : Put Byte} (h : (syncUpdates K settings chain).Own p) :
    Table.OfUpdates p.1.1.2 ∨ p.1.1.2 = .updatesLastInspected := by
  obtain ⟨-, u, log, ws, -, -, hwrites, hp⟩ | ⟨n, rfl⟩ := h
  · exact .inl (table_of_updateWrites hwrites p hp)
  · exact .inr rfl

theorem table_of_own_messages {p : Put Byte} (h : (syncMessages K settings chain).Own p) :
    Table.OfMessages p.1.1.2 ∨ p.1.1.2 = .messagesLastInspected := by
  obtain ⟨-, m, log, ws, -, -, hwrites, hp⟩ | ⟨n, rfl⟩ := h
  · exact .inl (table_of_messageWrites hwrites p hp)
  · exact .inr rfl

theorem not_ofUpdates_of_own_messages {p : Put Byte} (h : (syncMessages K settings chain).Own p) :
    ¬ Table.OfUpdates p.1.1.2 := by
  rintro (htable | htable | htable | htable) <;>
    simpa [htable, Table.OfMessages] using table_of_own_messages h

/-- The messages leave the resume point of the updates alone. -/
theorem resume_updates {p : Put Byte} (h : (syncMessages K settings chain).Own p)
    (log : List (Put Byte)) :
    (syncUpdates K settings chain).resume (log ++ [p]) =
      (syncUpdates K settings chain).resume log := by
  refine resumePoint_updates_concat settings.name fun heq => ?_
  have hp := table_of_own_messages h
  simp [heq, Table.OfMessages] at hp

/-- Nor do the updates move that of the messages. -/
theorem resume_messages {p : Put Byte} (h : (syncUpdates K settings chain).Own p)
    (log : List (Put Byte)) :
    (syncMessages K settings chain).resume (log ++ [p]) =
      (syncMessages K settings chain).resume log := by
  refine resumePoint_messages_concat settings.name fun heq => ?_
  have hp := table_of_own_updates h
  simp [heq, Table.OfUpdates] at hp

variable (K settings chain)

/-- Both loops are sound, and every put is of one of them. -/
structure Sound (s : State Byte) : Prop where
  updates : (syncUpdates K settings chain).Sound s.log s.updates
  messages : (syncMessages K settings chain).Sound s.log s.messages
  origin : ∀ p ∈ s.log, (syncUpdates K settings chain).Own p ∨ (syncMessages K settings chain).Own p

/-- What a step is: a move of one loop, with the other where it was. -/
inductive Effect (s t : State Byte) : Prop
  | updates (hmove : (syncUpdates K settings chain).Effect s.log s.updates t.log t.updates)
      (hother : t.messages = s.messages)
  | messages (hmove : (syncMessages K settings chain).Effect s.log s.messages t.log t.messages)
      (hother : t.updates = s.updates)

variable {K settings chain} {s t : State Byte}

theorem effect_of_exec {label : Label} (h : exec K settings chain label s = some t) :
    Effect K settings chain s t := by
  cases label with
  | updates move =>
    obtain ⟨⟨log, stage⟩, hstep, rfl⟩ := Option.map_eq_some_iff.mp h
    exact .updates (Indexer.effect_of_step hstep) rfl
  | messages move =>
    obtain ⟨⟨log, stage⟩, hstep, rfl⟩ := Option.map_eq_some_iff.mp h
    exact .messages (Indexer.effect_of_step hstep) rfl

/-- **Step.** A step keeps both loops sound. -/
theorem Sound.effect (h : Sound K settings chain s) (heffect : Effect K settings chain s t) :
    Sound K settings chain t := by
  cases heffect with
  | updates hmove hother =>
    -- the other loop sees one more put at most, and none that moves its resume point
    have hlog := h.updates.log_effect hmove
    refine ⟨h.updates.effect hmove, ?_, Indexer.forall_mem_of_log h.origin
      (hlog.imp_right fun ⟨p, heq, hp⟩ => ⟨p, heq, .inl hp⟩)⟩
    rw [hother]
    obtain heq | ⟨p, heq, hp⟩ := hlog
    · exact heq ▸ h.messages
    · exact heq ▸ h.messages.write (resume_messages hp _)
  | messages hmove hother =>
    have hlog := h.messages.log_effect hmove
    refine ⟨?_, h.messages.effect hmove, Indexer.forall_mem_of_log h.origin
      (hlog.imp_right fun ⟨p, heq, hp⟩ => ⟨p, heq, .inr hp⟩)⟩
    rw [hother]
    obtain heq | ⟨p, heq, hp⟩ := hlog
    · exact heq ▸ h.updates
    · exact heq ▸ h.updates.write (resume_updates hp _)

/-- **Run.** Both loops are sound in every reachable state. -/
theorem sound_of_reachable (h : (system K settings chain).Reachable s) :
    Sound K settings chain s := by
  refine h.invariant (fun s hs => ?_) fun s label t _ hsound hstep =>
    hsound.effect (effect_of_exec hstep)
  subst hs
  exact ⟨Indexer.sound_init, Indexer.sound_init, fun p hp => by cases hp⟩

/-! ### Updates that form a chain -/

/-- The two roots of an update. -/
def linkEnds : Ends (Bytes32 Byte) (SignedUpdateWithMeta Byte) where
  source u := u.previousRoot
  target u := u.newRoot

/-- The contract's updates form a chain from a root on, in which no root comes twice. -/
def Linked (chain : Chain Byte) (start : Bytes32 Byte) : Prop :=
  ∀ height, linkEnds.Simple start ((List.range height).flatMap chain.updates)

variable {start : Bytes32 Byte} {log : List (Put Byte)} {front : List (SignedUpdateWithMeta Byte)}
  {u v : SignedUpdateWithMeta Byte} {p : Put Byte} {next high : ℕ}

/-- So do those from some block on. -/
theorem Linked.events (h : Linked chain start) (low stop : ℕ) :
    ∃ middle, linkEnds.Simple middle ((syncUpdates K settings chain).events low stop) := by
  have hall : linkEnds.Simple start ((syncUpdates K settings chain).events 0 stop) := by
    have hstop := h stop
    rw [List.range_eq_range'] at hstop
    exact hstop
  rcases Nat.lt_or_ge stop low with hlow | hlow
  · rw [Indexer.events_eq_nil hlow.le]
    exact ⟨start, trivial, List.nodup_singleton start⟩
  · rw [Indexer.events_append (Nat.zero_le low) hlow] at hall
    exact hall.of_append

variable (K settings chain)

/-- The first updates of the chain that the indexer sees. -/
def Begins (front : List (SignedUpdateWithMeta Byte)) : Prop :=
  ∃ height, front <+: (syncUpdates K settings chain).events settings.fromHeight.toNat height

/-- The database knows some first updates of the chain: the latest root is where they end,
all but the last of them are stored, and of no other is there any row. -/
structure Remembers (log : List (Put Byte)) (front : List (SignedUpdateWithMeta Byte)) : Prop where
  begins : Begins K settings chain front
  latest : latestRoot log = front.getLast?.map fun u => u.newRoot
  recorded : ∀ u ∈ front.dropLast, (syncUpdates K settings chain).Recorded log u
  origin : ∀ p ∈ log, p.1.1.2 = .update ∨ p.1.1.2 = .prevRoot ∨ p.1.1.2 = .updateMeta →
    ∃ u ∈ front, p ∈ updateRows u

/-- What is about to be put: rows of updates that are known, or the latest root and the
rows of the next update after those that are known, which are all stored. -/
def PendingSound (log : List (Put Byte)) (front : List (SignedUpdateWithMeta Byte))
    (pending : List (Put Byte)) : Prop :=
  (∀ p ∈ pending, ∃ u ∈ front, p ∈ updateRows u) ∨
    ∃ u, pending = entry .home .latestRoot () u.newRoot :: updateRows u ∧
      Begins K settings chain (front ++ [u]) ∧
      ∀ v ∈ front, (syncUpdates K settings chain).Recorded log v

def StagePending (log : List (Put Byte)) (front : List (SignedUpdateWithMeta Byte)) :
    Indexer.Stage (SignedUpdateWithMeta Byte) (Put Byte) → Prop
  | .storing _ _ pending _ => PendingSound K settings chain log front pending
  | _ => True

variable {K settings chain}

theorem Begins.simple (h : Begins K settings chain front) (hlinked : Linked chain start) :
    ∃ middle, linkEnds.Simple middle front := by
  obtain ⟨height, hfront⟩ := h
  obtain ⟨middle, hsimple⟩ := hlinked.events (K := K) settings.fromHeight.toNat height
  exact ⟨middle, hsimple.of_isPrefix hfront⟩

/-- Two beginnings begin one chain. -/
theorem Begins.or (h : Begins K settings chain front) {other : List (SignedUpdateWithMeta Byte)}
    (h' : Begins K settings chain other) : front <+: other ∨ other <+: front := by
  obtain ⟨height, hfront⟩ := h
  obtain ⟨height', hother⟩ := h'
  exact List.prefix_or_prefix_of_prefix
    (hfront.trans (Indexer.events_isPrefix (Nat.le_max_left height height')))
    (hother.trans (Indexer.events_isPrefix (Nat.le_max_right height height')))

omit [ByteAlphabet Byte] [DecidableEq Byte] in
/-- The row of an update names it. -/
theorem previousRoot_eq_of_mem
    (h : (entry .home .update u.previousRoot u.signedUpdate : Put Byte) ∈ updateRows v) :
    u.previousRoot = v.previousRoot := by
  simp [updateRows, entry] at h
  exact h.1

/-- An update that is stored is known. -/
theorem Remembers.mem_of_recorded (h : Remembers K settings chain log front)
    (hlinked : Linked chain start) {all : List (SignedUpdateWithMeta Byte)}
    (hall : Begins K settings chain all) (hu : u ∈ all)
    (hrecorded : (syncUpdates K settings chain).Recorded log u) : u ∈ front := by
  -- the update's row was put for a known one, and no other has its previous root
  obtain ⟨v, hv, hrow⟩ := h.origin _ (hrecorded _ List.mem_cons_self) (.inl rfl)
  obtain hle | hle := h.begins.or hall
  · obtain ⟨middle, hsimple⟩ := hall.simple hlinked
    have hsame := hsimple.eq_of_source hu (hle.subset hv) (previousRoot_eq_of_mem hrow)
    exact hsame ▸ hv
  · exact hle.subset hu

/-- The next event of a chunk is a known update, or the first one that is not known, and
then all known ones are stored. -/
theorem Remembers.next_update (h : Remembers K settings chain log front)
    (hlinked : Linked chain start)
    {rest : List (SignedUpdateWithMeta Byte)}
    (hsound : (syncUpdates K settings chain).Sound log (.storing next high [] (u :: rest))) :
    u ∈ front ∨ Begins K settings chain (front ++ [u]) ∧
      ∀ v ∈ front, (syncUpdates K settings chain).Recorded log v := by
  obtain ⟨hposition, -, -, ⟨done, hfetched, hdone⟩, -⟩ := hsound.stage
  -- there is an event, so the chunk does not end before it begins
  have hhigh : next ≤ high + 1 := by
    by_contra hlt
    have hnil := Indexer.events_eq_nil (I := syncUpdates K settings chain) (Nat.le_of_not_le hlt)
    rw [Indexer.fetch, hnil] at hfetched
    simp at hfetched
  -- everything before the event is stored
  obtain ⟨before, hbefore⟩ : ∃ before, before =
      (syncUpdates K settings chain).events settings.fromHeight.toNat next ++ done := ⟨_, rfl⟩
  have hall : Begins K settings chain (before ++ [u]) := by
    refine ⟨high + 1, rest, ?_⟩
    have hsplit : (syncUpdates K settings chain).events settings.fromHeight.toNat (high + 1) =
        (syncUpdates K settings chain).events settings.fromHeight.toNat next ++
          (syncUpdates K settings chain).events next (high + 1) :=
      Indexer.events_append hposition.le hhigh
    rw [Indexer.fetch] at hfetched
    rw [hfetched] at hsplit
    simpa [hbefore] using hsplit.symm
  have hrecorded : ∀ v ∈ before, (syncUpdates K settings chain).Recorded log v := by
    intro v hv
    rw [hbefore] at hv
    rcases List.mem_append.mp hv with hold | hchunk
    · obtain ⟨b, hlow, hb, hblock⟩ := Indexer.mem_events.mp hold
      exact hposition.before b hlow hb v hblock
    · exact Indexer.recorded_of_done hdone v hchunk
  have hknown : ∀ v ∈ before, v ∈ front := fun v hv =>
    h.mem_of_recorded hlinked hall (List.mem_append_left _ hv) (hrecorded v hv)
  -- what is known and what comes up to the event are beginnings of one chain
  obtain hle | hle := h.begins.or hall
  · obtain heq | hle := List.prefix_concat_iff.mp hle
    · exact .inl (heq ▸ List.mem_append_right _ (List.mem_singleton_self u))
    · obtain ⟨more, hmore⟩ := hle
      cases more with
      | nil =>
        rw [List.append_nil] at hmore
        exact .inr (hmore ▸ ⟨hall, hrecorded⟩)
      | cons v more =>
        -- an update before the event would come twice
        obtain ⟨middle, hsimple⟩ := hall.simple hlinked
        have hnodup := (hsimple.of_isPrefix (List.prefix_append before [u])).links_nodup
        rw [← hmore] at hnodup
        have hv := hknown v (hmore ▸ List.mem_append_right _ List.mem_cons_self)
        exact absurd rfl ((List.nodup_append.mp hnodup).2.2 v hv v List.mem_cons_self)
  · exact .inl (hle.subset (List.mem_append_right _ (List.mem_singleton_self u)))

/-- What storing the next event of a chunk is about to put. -/
theorem Remembers.pending (h : Remembers K settings chain log front) (hlinked : Linked chain start)
    {rest : List (SignedUpdateWithMeta Byte)} {ws : List (Put Byte)}
    (hsound : (syncUpdates K settings chain).Sound log (.storing next high [] (u :: rest)))
    (hwrites : updateWrites K settings log u = some ws) :
    PendingSound K settings chain log front ws := by
  rw [updateWrites_eq, Option.some.injEq] at hwrites
  subst hwrites
  obtain hmem | ⟨hnext, hrecorded⟩ := h.next_update hlinked hsound
  · -- a known update does not build on the latest root
    obtain ⟨middle, hsimple⟩ := h.begins.simple hlinked
    obtain ⟨v, hlast⟩ : ∃ v, front.getLast? = some v :=
      ⟨_, List.getLast?_eq_some_getLast (List.ne_nil_of_mem hmem)⟩
    have hne : ¬ ∀ root, latestRoot log = some root → root = u.previousRoot := by
      intro hall
      exact hsimple.target_last_ne_source hmem hlast (hall v.newRoot (by rw [h.latest, hlast]; rfl))
    rw [if_neg hne]
    exact .inl fun p hp => ⟨u, hmem, hp⟩
  · -- the next update does, if there is one
    obtain ⟨middle, hsimple⟩ := hnext.simple hlinked
    have hbuilds : ∀ root, latestRoot log = some root → root = u.previousRoot := by
      intro root hroot
      rw [h.latest, Option.map_eq_some_iff] at hroot
      obtain ⟨v, hlast, rfl⟩ := hroot
      exact (hsimple.chain.source_eq hlast).symm
    rw [if_pos hbuilds]
    exact .inr ⟨u, rfl, hnext, hrecorded⟩

/-- A put into none of the updates' tables changes nothing that is known. -/
theorem Remembers.write_other (h : Remembers K settings chain log front)
    (hp : ¬ Table.OfUpdates p.1.1.2) : Remembers K settings chain (log ++ [p]) front where
  begins := h.begins
  latest := (lastStored_concat_of_ne (fun heq => hp (.inl heq)) ()).trans h.latest
  recorded u hu := (h.recorded u hu).append [p]
  origin q hq htable := by
    rcases List.mem_append.mp hq with hold | hnew
    · exact h.origin q hold htable
    · obtain rfl := List.mem_singleton.mp hnew
      exact absurd (.inr htable) hp

/-- A row of a known update is put. -/
theorem Remembers.write_row (h : Remembers K settings chain log front) (hu : u ∈ front)
    (hp : p ∈ updateRows u) : Remembers K settings chain (log ++ [p]) front where
  begins := h.begins
  latest := by
    have htable : p.1.1.2 ≠ .latestRoot := by
      simp only [updateRows, List.mem_cons, List.not_mem_nil, or_false] at hp
      rcases hp with rfl | rfl | rfl <;> simp [entry]
    exact (lastStored_concat_of_ne htable ()).trans h.latest
  recorded u hu := (h.recorded u hu).append [p]
  origin q hq htable := by
    rcases List.mem_append.mp hq with hold | hnew
    · exact h.origin q hold htable
    · exact ⟨u, hu, List.mem_singleton.mp hnew ▸ hp⟩

/-- The latest root moves to the end of the next update, which is known from then on. -/
theorem Remembers.write_latest (h : Remembers K settings chain log front)
    (hnext : Begins K settings chain (front ++ [u]))
    (hrecorded : ∀ v ∈ front, (syncUpdates K settings chain).Recorded log v) :
    Remembers K settings chain (log ++ [entry .home .latestRoot () u.newRoot]) (front ++ [u]) where
  begins := hnext
  latest := by simp [latestRoot]
  recorded v hv := by
    rw [List.dropLast_concat] at hv
    exact (hrecorded v hv).append _
  origin q hq htable := by
    rcases List.mem_append.mp hq with hold | hnew
    · obtain ⟨v, hv, hrow⟩ := h.origin q hold htable
      exact ⟨v, List.mem_append_left _ hv, hrow⟩
    · obtain rfl := List.mem_singleton.mp hnew
      simp [entry] at htable

theorem StagePending.append {stage : Indexer.Stage (SignedUpdateWithMeta Byte) (Put Byte)}
    (h : StagePending K settings chain log front stage) (p : Put Byte) :
    StagePending K settings chain (log ++ [p]) front stage := by
  cases stage with
  | down => trivial
  | top next => trivial
  | storing next high pending rest =>
    obtain hrows | ⟨u, hpending, hnext, hrecorded⟩ := h
    · exact .inl hrows
    · exact .inr ⟨u, hpending, hnext, fun v hv => (hrecorded v hv).append [p]⟩

/-- An empty database knows no update. -/
theorem remembers_nil : Remembers K settings chain [] [] where
  begins := ⟨0, List.nil_prefix⟩
  latest := rfl
  recorded u hu := by cases hu
  origin p hp := by cases hp

/-- A put that is about to be made, made. An update that is known from then on has its rows
still to come. -/
theorem Remembers.wrote (h : Remembers K settings chain log front) {pending : List (Put Byte)}
    (hpending : PendingSound K settings chain log front (p :: pending)) :
    ∃ front', Remembers K settings chain (log ++ [p]) front' ∧
      PendingSound K settings chain (log ++ [p]) front' pending ∧
      ∀ u ∈ front', u ∈ front ∨ updateRows u ⊆ pending := by
  obtain hrows | ⟨u, heq, hnext, hrecorded⟩ := hpending
  · obtain ⟨u, hu, hp⟩ := hrows p List.mem_cons_self
    exact ⟨front, h.write_row hu hp, .inl fun q hq => hrows q (List.mem_cons_of_mem p hq),
      fun v hv => .inl hv⟩
  · obtain ⟨rfl, rfl⟩ := List.cons.inj heq
    refine ⟨front ++ [u], h.write_latest hnext hrecorded, .inl fun q hq =>
      ⟨u, List.mem_append_right _ (List.mem_singleton_self u), hq⟩, fun v hv => ?_⟩
    rcases List.mem_append.mp hv with hold | hnew
    · exact .inl hold
    · obtain rfl := List.mem_singleton.mp hnew
      exact .inr (List.Subset.refl _)

/-- **Step.** A move of the updates' loop knows as many updates as before or one more. -/
theorem Remembers.effect (h : Remembers K settings chain log front) (hlinked : Linked chain start)
    {log' : List (Put Byte)} {stage stage' : Indexer.Stage (SignedUpdateWithMeta Byte) (Put Byte)}
    (hsound : (syncUpdates K settings chain).Sound log stage)
    (hstage : StagePending K settings chain log front stage)
    (heffect : (syncUpdates K settings chain).Effect log stage log' stage') :
    ∃ front', Remembers K settings chain log' front' ∧
      StagePending K settings chain log' front' stage' ∧
      ∀ u ∈ front', u ∈ front ∨ updateRows u ⊆ stage'.pending := by
  cases heffect with
  | stopped => exact ⟨front, h, trivial, fun u hu => .inl hu⟩
  | started => exact ⟨front, h, trivial, fun u hu => .inl hu⟩
  | polled => exact ⟨front, h, .inl fun p hp => absurd hp List.not_mem_nil, fun u hu => .inl hu⟩
  | wrote => exact h.wrote hstage
  | began next high u rest ws hwrites =>
    exact ⟨front, h, h.pending hlinked hsound hwrites, fun v hv => .inl hv⟩
  | finished next high =>
    refine ⟨front, h.write_other ?_, trivial, fun u hu => .inl hu⟩
    simp [syncUpdates, entry, Table.OfUpdates]

/-- A known update is stored, or the latest root is where it leads. -/
theorem Remembers.recorded_or (h : Remembers K settings chain log front) (hu : u ∈ front) :
    (syncUpdates K settings chain).Recorded log u ∨ latestRoot log = some u.newRoot := by
  obtain ⟨v, hlast⟩ : ∃ v, front.getLast? = some v :=
    ⟨_, List.getLast?_eq_some_getLast (List.ne_nil_of_mem hu)⟩
  rw [← List.dropLast_append_getLast? v hlast] at hu
  rcases List.mem_append.mp hu with hinit | hend
  · exact .inl (h.recorded u hinit)
  · obtain rfl := List.mem_singleton.mp hend
    exact .inr (by rw [h.latest, hlast]; rfl)

/-- The latest root is that of one known update only. -/
theorem Remembers.mem_of_latest (h : Remembers K settings chain log front)
    (hlinked : Linked chain start) {all : List (SignedUpdateWithMeta Byte)}
    (hall : Begins K settings chain all) (hu : u ∈ all)
    (hlatest : latestRoot log = some u.newRoot) : u ∈ front := by
  rw [h.latest, Option.map_eq_some_iff] at hlatest
  obtain ⟨v, hlast, hroot⟩ := hlatest
  have hv : v ∈ front := List.mem_of_getLast? hlast
  obtain hle | hle := h.begins.or hall
  · obtain ⟨middle, hsimple⟩ := hall.simple hlinked
    exact hsimple.eq_of_target hu (hle.subset hv) hroot.symm ▸ hv
  · exact hle.subset hu

/-- A step of either loop knows as many updates as before or one more. -/
theorem Remembers.step (h : Remembers K settings chain s.log front) (hlinked : Linked chain start)
    (hsound : Sound K settings chain s)
    (hstage : StagePending K settings chain s.log front s.updates)
    (heffect : Effect K settings chain s t) :
    ∃ front', Remembers K settings chain t.log front' ∧
      StagePending K settings chain t.log front' t.updates ∧
      ∀ u ∈ front', u ∈ front ∨ updateRows u ⊆ t.updates.pending := by
  cases heffect with
  | updates hmove hother => exact h.effect hlinked hsound.updates hstage hmove
  | messages hmove hother =>
    rw [hother]
    obtain heq | ⟨p, heq, hp⟩ := hsound.messages.log_effect hmove
    · exact heq ▸ ⟨front, h, hstage, fun u hu => .inl hu⟩
    · have hother := not_ofUpdates_of_own_messages hp
      exact heq ▸ ⟨front, h.write_other hother, hstage.append p, fun u hu => .inl hu⟩

/-- **Run.** The database knows some first updates of the chain in every reachable state. -/
theorem remembers_of_reachable (hlinked : Linked chain start)
    (h : (system K settings chain).Reachable s) :
    ∃ front, Remembers K settings chain s.log front := by
  -- what is about to be put belongs to the invariant
  suffices hall : ∃ front, Remembers K settings chain s.log front ∧
      StagePending K settings chain s.log front s.updates by
    obtain ⟨front, hfront, -⟩ := hall
    exact ⟨front, hfront⟩
  refine h.invariant (P := fun s => ∃ front, Remembers K settings chain s.log front ∧
    StagePending K settings chain s.log front s.updates) (fun s hs => ?_) ?_
  · subst hs
    exact ⟨[], remembers_nil, trivial⟩
  · intro s label t hreach ⟨front, hfront, hstage⟩ hstep
    obtain ⟨front', hfront', hstage', -⟩ :=
      hfront.step hlinked (sound_of_reachable hreach) hstage (effect_of_exec hstep)
    exact ⟨front', hfront', hstage'⟩

/-! ### Reading updates -/

omit [ByteAlphabet Byte] [DecidableEq Byte] in
theorem eq_of_mem_updateRows (hp : p ∈ updateRows u) :
    p = entry .home .update u.previousRoot u.signedUpdate ∨
      p = entry .home .prevRoot u.newRoot u.previousRoot ∨
      p = entry .home .updateMeta u.newRoot u.metadata := by
  simpa [updateRows] using hp

/-- What the rows of the updates' tables say comes from known updates. -/
theorem Remembers.update_of_mem (h : Remembers K settings chain log front)
    {root : Bytes32 Byte} {signed : SignedUpdate Byte}
    (hp : entry .home .update root signed ∈ log) :
    ∃ v ∈ front, v.previousRoot = root ∧ v.signedUpdate = signed := by
  obtain ⟨v, hv, hrow⟩ := h.origin _ hp (.inl rfl)
  obtain heq | heq | heq := eq_of_mem_updateRows hrow
  · cases heq
    exact ⟨v, hv, rfl, rfl⟩
  · cases heq
  · cases heq

theorem Remembers.prevRoot_of_mem (h : Remembers K settings chain log front)
    {root previous : Bytes32 Byte} (hp : entry .home .prevRoot root previous ∈ log) :
    ∃ v ∈ front, v.newRoot = root ∧ v.previousRoot = previous := by
  obtain ⟨v, hv, hrow⟩ := h.origin _ hp (.inr (.inl rfl))
  obtain heq | heq | heq := eq_of_mem_updateRows hrow
  · cases heq
  · cases heq
    exact ⟨v, hv, rfl, rfl⟩
  · cases heq

theorem Remembers.updateMeta_of_mem (h : Remembers K settings chain log front)
    {root : Bytes32 Byte} {metadata : UpdateMeta}
    (hp : entry .home .updateMeta root metadata ∈ log) :
    ∃ v ∈ front, v.newRoot = root ∧ v.metadata = metadata := by
  obtain ⟨v, hv, hrow⟩ := h.origin _ hp (.inr (.inr rfl))
  obtain heq | heq | heq := eq_of_mem_updateRows hrow
  · cases heq
  · cases heq
  · cases heq
    exact ⟨v, hv, rfl, rfl⟩

variable (K settings) in
/-- The rows of an update are in the database: it is found by both of its roots, and with
its metadata. -/
structure FindsUpdate (db : DB Byte) (u : SignedUpdateWithMeta Byte) : Prop where
  byPreviousRoot : updateByPreviousRoot settings.name u.previousRoot db = .ok (some u.signedUpdate)
  byNewRoot : updateByNewRoot settings.name u.newRoot db = .ok (some u.signedUpdate)
  metadata : retrieveUpdateMetadata settings.name u.newRoot db = .ok (some u.metadata)

/-- What the last puts are in the rows of a stored update. -/
theorem Remembers.lastStored_rows (h : Remembers K settings chain log front)
    (hlinked : Linked chain start) (hu : u ∈ front)
    (hrecorded : (syncUpdates K settings chain).Recorded log u) :
    lastStored log .home .update u.previousRoot = some u.signedUpdate ∧
      lastStored log .home .prevRoot u.newRoot = some u.previousRoot ∧
      lastStored log .home .updateMeta u.newRoot = some u.metadata := by
  obtain ⟨middle, hsimple⟩ := h.begins.simple hlinked
  have hrow : ∀ p ∈ updateRows u, p ∈ log := hrecorded
  simp only [updateRows, List.forall_mem_cons] at hrow
  obtain ⟨hupdate, hprevRoot, hmeta, -⟩ := hrow
  refine ⟨lastStored_eq_some hupdate fun signed hp => ?_,
    lastStored_eq_some hprevRoot fun previous hp => ?_,
    lastStored_eq_some hmeta fun metadata hp => ?_⟩
  · obtain ⟨v, hv, hroot, rfl⟩ := h.update_of_mem hp
    rw [hsimple.eq_of_source hv hu hroot]
  · obtain ⟨v, hv, hroot, rfl⟩ := h.prevRoot_of_mem hp
    rw [hsimple.eq_of_target hv hu hroot]
  · obtain ⟨v, hv, hroot, rfl⟩ := h.updateMeta_of_mem hp
    rw [hsimple.eq_of_target hv hu hroot]

theorem Remembers.finds (h : Remembers K settings chain log front) (hlinked : Linked chain start)
    (hu : u ∈ front) (hrecorded : (syncUpdates K settings chain).Recorded log u) :
    FindsUpdate settings (database settings.name log) u := by
  obtain ⟨hupdate, hprevRoot, hmeta⟩ := h.lastStored_rows hlinked hu hrecorded
  have hbyPrevious : updateByPreviousRoot settings.name u.previousRoot
      (database settings.name log) = .ok (some u.signedUpdate) :=
    (retrieve_database settings.name log .update u.previousRoot).trans (congrArg _ hupdate)
  have hprevious : prevRootByNewRoot settings.name u.newRoot (database settings.name log) =
      .ok (some u.previousRoot) :=
    (retrieve_database settings.name log .prevRoot u.newRoot).trans (congrArg _ hprevRoot)
  refine ⟨hbyPrevious, ?_, ?_⟩
  · rw [updateByNewRoot, hprevious, ok_bind]
    exact hbyPrevious
  · exact (retrieve_database settings.name log .updateMeta u.newRoot).trans (congrArg _ hmeta)

/-- No update is found from a root that no known one leaves, nor by one that none enters. -/
theorem Remembers.finds_none (h : Remembers K settings chain log front) {root : Bytes32 Byte} :
    ((∀ u ∈ front, u.previousRoot ≠ root) →
      updateByPreviousRoot settings.name root (database settings.name log) = .ok none) ∧
    ((∀ u ∈ front, u.newRoot ≠ root) →
      updateByNewRoot settings.name root (database settings.name log) = .ok none) := by
  constructor
  · intro hnone
    refine (retrieve_database settings.name log .update root).trans (congrArg _ ?_)
    refine lastStored_eq_none fun signed hp => ?_
    obtain ⟨v, hv, hroot, -⟩ := h.update_of_mem hp
    exact hnone v hv hroot
  · intro hnone
    have hprevious : prevRootByNewRoot settings.name root (database settings.name log) =
        .ok none := by
      refine (retrieve_database settings.name log .prevRoot root).trans (congrArg _ ?_)
      refine lastStored_eq_none fun previous hp => ?_
      obtain ⟨v, hv, hroot, -⟩ := h.prevRoot_of_mem hp
      exact hnone v hv hroot
    rw [updateByNewRoot, hprevious, ok_bind]

/-- Storing a stored update again leaves the database as it is. -/
theorem Remembers.redelivered (h : Remembers K settings chain log front)
    (hlinked : Linked chain start) (hu : u ∈ front)
    (hrecorded : (syncUpdates K settings chain).Recorded log u) :
    storeLatestUpdate settings.name u.signedUpdate (database settings.name log) =
        .ok (database settings.name log) ∧
      storeUpdateMetadata settings.name u.newRoot u.metadata (database settings.name log) =
        database settings.name log := by
  obtain ⟨hupdate, hprevRoot, hmeta⟩ := h.lastStored_rows hlinked hu hrecorded
  have hholds := holds_database settings.name log
  have hsame : UpdateHandler.storeUpdate settings.name u.signedUpdate (database settings.name log) =
      database settings.name log := by
    -- each of the two rows holds already what is put into it
    change (layout settings.name).put ((layout settings.name).put _
      (entry .home .update u.previousRoot u.signedUpdate))
      (entry .home .prevRoot u.newRoot u.previousRoot) = _
    rw [entry, hholds.put_of_last hupdate, entry, hholds.put_of_last hprevRoot]
  refine ⟨?_, hholds.put_of_last hmeta⟩
  -- the latest root is where the known updates end, which none of them leaves
  obtain ⟨middle, hsimple⟩ := h.begins.simple hlinked
  obtain ⟨v, hlast⟩ : ∃ v, front.getLast? = some v :=
    ⟨_, List.getLast?_eq_some_getLast (List.ne_nil_of_mem hu)⟩
  have hlatest : latestRoot log = some v.newRoot := by rw [h.latest, hlast]; rfl
  have hne : v.newRoot ≠ u.signedUpdate.update.previousRoot :=
    hsimple.target_last_ne_source hu hlast
  rw [storeLatestUpdate, retrieveLatestRoot_database, ok_bind, hlatest]
  dsimp only
  rw [if_neg hne, hsame]

/-! ### Reading messages -/

variable {m : RawCommittedMessage Byte}

variable (K) in
/-- The rows of a message were put. -/
def MessageRecorded (log : List (Put Byte)) (m : RawCommittedMessage Byte) : Prop :=
  entry .home .message (m.leaf K) m ∈ log ∧
    entry .home .leafByIndex m.leafIndex (m.leaf K) ∈ log ∧
    ∃ key, messageKey m = .ok key ∧ entry .home .leafByNonce key (m.leaf K) ∈ log

variable (settings chain) in
/-- A message of the chain that the indexer sees. -/
def SeenMessage (m : RawCommittedMessage Byte) : Prop :=
  ∃ b, settings.fromHeight.toNat ≤ b ∧ m ∈ chain.messages b

/-- A put into a table of the messages stores a message of the chain. -/
theorem Sound.message_of_mem (h : Sound K settings chain s) (hp : p ∈ s.log)
    (htable : p.1.1.2 = .leafByNonce ∨ p.1.1.2 = .leafByIndex ∨ p.1.1.2 = .message) :
    ∃ m key, SeenMessage settings chain m ∧ messageKey m = .ok key ∧
      (p = entry .home .leafByNonce key (m.leaf K) ∨
        p = entry .home .leafByIndex m.leafIndex (m.leaf K) ∨
        p = entry .home .message (m.leaf K) m) := by
  obtain hown | ⟨b, m, log, ws, hb, hblock, hwrites, hmem⟩ | ⟨n, rfl⟩ := h.origin p hp
  · rcases htable with heq | heq | heq <;>
      simpa [heq, Table.OfUpdates] using table_of_own_updates hown
  · obtain ⟨key, hkey, rfl⟩ := messageWrites_eq hwrites
    refine ⟨m, key, ⟨b, hb, hblock⟩, hkey, ?_⟩
    simp only [List.mem_append, List.mem_cons, List.not_mem_nil, or_false] at hmem
    rcases hmem with ((heq | heq) | hlatest) | heq
    · exact .inl heq
    · exact .inr (.inl heq)
    · obtain rfl := eq_of_mem_latestLeafIndexPuts hlatest
      simp [entry] at htable
    · exact .inr (.inr heq)
  · simp [syncMessages, entry] at htable

/-- A message whose rows were put could be packed. -/
theorem Sound.messageRecorded (h : Sound K settings chain s)
    (hrecorded : (syncMessages K settings chain).Recorded s.log m) : MessageRecorded K s.log m := by
  have hrow : ∀ p ∈ messageRows K m, p ∈ s.log := hrecorded
  rw [messageRows, List.forall_mem_cons, List.forall_mem_cons] at hrow
  obtain ⟨hmessage, hindex, hnonce⟩ := hrow
  refine ⟨hmessage, hindex, ?_⟩
  -- the row by leaf was put by a call that could pack the message
  obtain ⟨m', key, -, hkey, heq | heq | heq⟩ := h.message_of_mem hmessage (.inr (.inr rfl))
  · cases heq
  · cases heq
  · obtain ⟨-, rfl⟩ := entry_inj heq
    rw [hkey] at hnonce
    exact ⟨key, hkey, hnonce _ (List.mem_singleton_self _)⟩

variable (K settings chain)

/-- No two messages of the chain share a leaf, a leaf index, or destination and nonce. -/
structure Keyed : Prop where
  leaf : ∀ m m', SeenMessage settings chain m → SeenMessage settings chain m' →
    m.leaf K = m'.leaf K → m = m'
  leafIndex : ∀ m m', SeenMessage settings chain m → SeenMessage settings chain m' →
    m.leafIndex = m'.leafIndex → m = m'
  key : ∀ m m' key, SeenMessage settings chain m → SeenMessage settings chain m' →
    messageKey m = .ok key → messageKey m' = .ok key → m = m'

/-- A message is found by its leaf, by its leaf index, and by its destination and nonce. -/
structure FindsMessage (db : DB Byte) (m : RawCommittedMessage Byte) : Prop where
  byLeaf : messageByLeaf settings.name db (m.leaf K) = .ok (some m)
  byLeafIndex : messageByLeafIndex settings.name db m.leafIndex = .ok (some m)
  byNonce : ∃ parsed, OpticsMessage.readFrom m.message = .ok parsed ∧
    messageByNonce settings.name db parsed.destination parsed.nonce = .ok (some m)

variable {K settings chain}

theorem Sound.findsMessage (h : Sound K settings chain s) (hkeyed : Keyed K settings chain)
    (hseen : SeenMessage settings chain m) (hrecorded : MessageRecorded K s.log m) :
    FindsMessage K settings (database settings.name s.log) m := by
  obtain ⟨hmessage, hindex, key, hkey, hnonce⟩ := hrecorded
  -- what is put into each of the three rows comes from this message
  have hlastMessage : lastStored s.log .home .message (m.leaf K) = some m := by
    refine lastStored_eq_some hmessage fun other hp => ?_
    obtain ⟨m', key', hseen', -, heq | heq | heq⟩ := h.message_of_mem hp (.inr (.inr rfl))
    · cases heq
    · cases heq
    · obtain ⟨hleaf, hvalue⟩ := entry_inj heq
      exact hvalue.trans (hkeyed.leaf m m' hseen hseen' hleaf).symm
  have hlastIndex : lastStored s.log .home .leafByIndex m.leafIndex = some (m.leaf K) := by
    refine lastStored_eq_some hindex fun other hp => ?_
    obtain ⟨m', key', hseen', -, heq | heq | heq⟩ := h.message_of_mem hp (.inr (.inl rfl))
    · cases heq
    · obtain ⟨hleafIndex, hvalue⟩ := entry_inj heq
      exact hvalue.trans (hkeyed.leafIndex m m' hseen hseen' hleafIndex ▸ rfl)
    · cases heq
  have hlastNonce : lastStored s.log .home .leafByNonce key = some (m.leaf K) := by
    refine lastStored_eq_some hnonce fun other hp => ?_
    obtain ⟨m', key', hseen', hkey', heq | heq | heq⟩ := h.message_of_mem hp (.inl rfl)
    · obtain ⟨rfl, hvalue⟩ := entry_inj heq
      exact hvalue.trans (hkeyed.key m m' key hseen hseen' hkey hkey' ▸ rfl)
    · cases heq
    · cases heq
  have hbyLeaf : messageByLeaf settings.name (database settings.name s.log) (m.leaf K) =
      .ok (some m) :=
    (retrieve_database settings.name s.log .message (m.leaf K)).trans (congrArg _ hlastMessage)
  refine ⟨hbyLeaf, ?_, ?_⟩
  · have hread : leafByLeafIndex settings.name (database settings.name s.log) m.leafIndex =
        .ok (some (m.leaf K)) :=
      (retrieve_database settings.name s.log .leafByIndex m.leafIndex).trans
        (congrArg _ hlastIndex)
    rw [messageByLeafIndex, hread, ok_bind]
    exact hbyLeaf
  · obtain ⟨parsed, hparsed, hpacked⟩ := bind_eq_ok.mp hkey
    refine ⟨parsed, hparsed, ?_⟩
    have hread : leafByKey settings.name (database settings.name s.log) key =
        .ok (some (m.leaf K)) :=
      (retrieve_database settings.name s.log .leafByNonce key).trans (congrArg _ hlastNonce)
    rw [OpticsMessage.destinationAndNonce] at hpacked
    rw [messageByNonce, leafByNonce, hpacked, ok_bind, hread, ok_bind]
    exact hbyLeaf

/-- The messages of a Home, over an ideal hash, have keys of their own. -/
theorem keyed_of_home (ideal : Crypto.IdealHash K) {history : Home.History Byte}
    (hreach : (Home.system K).Reachable history)
    (hchain : ∀ b, ∀ m ∈ chain.messages b, ∃ e ∈ Home.dispatches history.log, m = raw e) :
    Keyed K settings chain := by
  have hlog := Home.History.numbered_of_reachable hreach
  have hkey : ∀ e ∈ Home.dispatches history.log, ∀ key, messageKey (raw e) = .ok key →
      key = e.destinationAndNonce := by
    intro e he key hpacked
    obtain ⟨parsed, hparsed, -, -, -, hnumber, -⟩ := readFrom_event hlog he
    have hread : OpticsMessage.readFrom (raw e).message = .ok parsed := hparsed
    rw [messageKey, hread, ok_bind] at hpacked
    exact (destinationAndNonce_eq_ok.mp hpacked).2.2.trans hnumber.symm
  refine ⟨?_, ?_, ?_⟩
  · rintro m m' ⟨b, -, hm⟩ ⟨b', -, hm'⟩ hleaf
    obtain ⟨e, he, rfl⟩ := hchain b m hm
    obtain ⟨e', he', rfl⟩ := hchain b' m' hm'
    obtain ⟨-, -, -, -, -, -, hhash⟩ := readFrom_event hlog he
    obtain ⟨-, -, -, -, -, -, hhash'⟩ := readFrom_event hlog he'
    rw [hlog.event_of_messageHash ideal.injective he he' (hhash.trans (hleaf.trans hhash'.symm))]
  · rintro m m' ⟨b, -, hm⟩ ⟨b', -, hm'⟩ hindex
    obtain ⟨e, he, rfl⟩ := hchain b m hm
    obtain ⟨e', he', rfl⟩ := hchain b' m' hm'
    have hvalue := congrArg UInt32.toNat hindex
    rw [toNat_leafIndex_raw hlog he, toNat_leafIndex_raw hlog he'] at hvalue
    rw [hlog.event_unique he he' hvalue]
  · rintro m m' key ⟨b, -, hm⟩ ⟨b', -, hm'⟩ hpacked hpacked'
    obtain ⟨e, he, rfl⟩ := hchain b m hm
    obtain ⟨e', he', rfl⟩ := hchain b' m' hm'
    have hsame := (hkey e he key hpacked).symm.trans (hkey e' he' key hpacked')
    rw [hlog.event_of_destinationAndNonce he he' hsame]

/-! ### Nothing is lost -/

/-- The rows of an update were put. -/
def UpdateRecorded (log : List (Put Byte)) (u : SignedUpdateWithMeta Byte) : Prop :=
  ∀ p ∈ updateRows u, p ∈ log

variable (settings chain) in
/-- The process does not stop between the write of the latest root and the last of the rows
of its update. -/
def Unbroken (s : State Byte) : Label → Prop
  | .updates .stop => ∀ b, settings.fromHeight.toNat ≤ b → ∀ u ∈ chain.updates b,
      latestRoot s.log = some u.newRoot → UpdateRecorded s.log u
  | _ => True

/-- **Step.** Rows of known updates that are stored or about to be stay so. -/
theorem Remembers.recorded_of_step {label : Label} {front' : List (SignedUpdateWithMeta Byte)}
    (h : Remembers K settings chain s.log front) (hsound : Sound K settings chain s)
    (hkept : ∀ u ∈ front, UpdateRecorded (s.log ++ s.updates.pending) u)
    (hstep : exec K settings chain label s = some t) (hcond : Unbroken settings chain s label)
    (hknown : ∀ u ∈ front', u ∈ front ∨ updateRows u ⊆ t.updates.pending) :
    ∀ u ∈ front', UpdateRecorded (t.log ++ t.updates.pending) u := by
  intro u hu
  obtain hold | hnew := hknown u hu
  · have hbefore : (syncUpdates K settings chain).Recorded (s.log ++ s.updates.pending) u :=
      hkept u hold
    cases label with
    | updates move =>
      obtain ⟨⟨log, stage⟩, hmove, rfl⟩ := Option.map_eq_some_iff.mp hstep
      refine hbefore.effect (Indexer.effect_of_step hmove) fun hdown => ?_
      obtain rfl : stage = .down := hdown
      obtain rfl | hnone := Indexer.down_of_step hmove
      · obtain hrecorded | hlatest := h.recorded_or hold
        · exact hrecorded
        · -- the stop comes after the last row of the last known update
          obtain ⟨height, hfirst⟩ := h.begins
          obtain ⟨b, hb, -, hblock⟩ := Indexer.mem_events.mp (hfirst.subset hold)
          exact hcond b hb u hblock hlatest
      · rwa [hnone, List.append_nil] at hbefore
    | messages move =>
      obtain ⟨⟨log, stage⟩, hmove, rfl⟩ := Option.map_eq_some_iff.mp hstep
      have hlog : s.log ⊆ log := by
        obtain rfl | ⟨p, rfl, -⟩ := hsound.messages.log_effect (Indexer.effect_of_step hmove)
        · exact List.Subset.refl _
        · exact List.subset_append_left _ [p]
      intro r hr
      exact (List.mem_append.mp (hbefore r hr)).elim
        (fun hin => List.mem_append_left _ (hlog hin)) fun hin => List.mem_append_right _ hin
  · exact fun p hp => List.mem_append_right _ (hnew hp)

/-- **Run.** While the process does not stop between the write of the latest root and the
last of the rows of its update, each row of a known update is stored or about to be. -/
theorem recorded_of_unbroken (hlinked : Linked chain start)
    (h : ((system K settings chain).restrict (Unbroken settings chain)).Reachable s) :
    ∃ front, Remembers K settings chain s.log front ∧
      ∀ u ∈ front, UpdateRecorded (s.log ++ s.updates.pending) u := by
  suffices hall : ∃ front, Remembers K settings chain s.log front ∧
      StagePending K settings chain s.log front s.updates ∧
      ∀ u ∈ front, UpdateRecorded (s.log ++ s.updates.pending) u by
    obtain ⟨front, hfront, -, hkept⟩ := hall
    exact ⟨front, hfront, hkept⟩
  refine h.invariant (P := fun s => ∃ front, Remembers K settings chain s.log front ∧
    StagePending K settings chain s.log front s.updates ∧
    ∀ u ∈ front, UpdateRecorded (s.log ++ s.updates.pending) u) (fun s hs => ?_) ?_
  · subst hs
    exact ⟨[], remembers_nil, trivial, List.forall_mem_nil _⟩
  · intro s label t hreach ⟨front, hfront, hstage, hkept⟩ ⟨hstep, hcond⟩
    have hsound := sound_of_reachable hreach.of_restrict
    obtain ⟨front', hfront', hstage', hknown⟩ :=
      hfront.step hlinked hsound hstage (effect_of_exec hstep)
    exact ⟨front', hfront', hstage', hfront.recorded_of_step hsound hkept hstep hcond hknown⟩

/-- **The indexer loses nothing.** At the top of a loop all events of the blocks from the
first height to below the next one are stored, and those of the next block too once a
chunk was finished. Messages of a Home are then found. And if the updates form a chain,
then in every state the latest root is where some first updates of the chain end, all of
which are stored but perhaps the last, and the last one too, but for the rows about to be
put, unless the process stopped between the write of the latest root and the last of its
rows; stored updates are found, no others are, and to store them again changes nothing. -/
theorem indexer_loses_nothing (h : (system K settings chain).Reachable s) :
    (∀ next, s.updates = .top next →
      (∀ b, settings.fromHeight.toNat ≤ b → b < next → ∀ u ∈ chain.updates b,
        UpdateRecorded s.log u) ∧
      (resumePoint settings.name UPDATES_LAST_INSPECTED s.log ≠ none → ∀ u ∈ chain.updates next,
        UpdateRecorded s.log u)) ∧
    (∀ next, s.messages = .top next →
      (∀ b, settings.fromHeight.toNat ≤ b → b < next → ∀ m ∈ chain.messages b,
        MessageRecorded K s.log m) ∧
      (resumePoint settings.name MESSAGES_LAST_INSPECTED s.log ≠ none →
        ∀ m ∈ chain.messages next, MessageRecorded K s.log m)) ∧
    (Keyed K settings chain → ∀ m, SeenMessage settings chain m → MessageRecorded K s.log m →
      FindsMessage K settings (database settings.name s.log) m) ∧
    ∀ start, Linked chain start →
      ∃ front, Begins K settings chain front ∧
        retrieveLatestRoot settings.name (database settings.name s.log) =
          .ok (front.getLast?.map fun u => u.newRoot) ∧
        (∀ u ∈ front.dropLast, UpdateRecorded s.log u) ∧
        (((system K settings chain).restrict (Unbroken settings chain)).Reachable s →
          ∀ u ∈ front, UpdateRecorded (s.log ++ s.updates.pending) u) ∧
        (∀ b, settings.fromHeight.toNat ≤ b → ∀ u ∈ chain.updates b, UpdateRecorded s.log u →
          u ∈ front ∧ FindsUpdate settings (database settings.name s.log) u ∧
          storeLatestUpdate settings.name u.signedUpdate (database settings.name s.log) =
            .ok (database settings.name s.log) ∧
          storeUpdateMetadata settings.name u.newRoot u.metadata (database settings.name s.log) =
            database settings.name s.log) ∧
        (∀ root, (∀ u ∈ front, u.previousRoot ≠ root) →
          updateByPreviousRoot settings.name root (database settings.name s.log) = .ok none) ∧
        ∀ root, (∀ u ∈ front, u.newRoot ≠ root) →
          updateByNewRoot settings.name root (database settings.name s.log) = .ok none := by
  have hsound := sound_of_reachable h
  refine ⟨fun next htop => ?_, fun next htop => ?_, fun hkeyed m hseen hrecorded =>
    hsound.findsMessage hkeyed hseen hrecorded, fun start hlinked => ?_⟩
  -- the loop of the updates
  · have hstage := hsound.updates.stage
    rw [htop] at hstage
    refine ⟨hstage.before, fun hdone u hu => ?_⟩
    obtain ⟨hnone, -⟩ | hhere := hstage.here
    · exact absurd hnone hdone
    · exact hhere next hstage.le (Nat.lt_succ_self next) u hu
  -- the loop of the messages
  · have hstage := hsound.messages.stage
    rw [htop] at hstage
    refine ⟨fun b hlow hb m hm => hsound.messageRecorded (hstage.before b hlow hb m hm),
      fun hdone m hm => ?_⟩
    obtain ⟨hnone, -⟩ | hhere := hstage.here
    · exact absurd hnone hdone
    · exact hsound.messageRecorded (hhere next hstage.le (Nat.lt_succ_self next) m hm)
  -- the chain of updates
  · obtain ⟨front, hfront⟩ := remembers_of_reachable hlinked h
    refine ⟨front, hfront.begins, ?_, hfront.recorded, fun hunbroken u hu => ?_,
      fun b hb u hu hrecorded => ?_, fun root hnone => hfront.finds_none.1 hnone,
      fun root hnone => hfront.finds_none.2 hnone⟩
    · rw [retrieveLatestRoot_database, hfront.latest]
    · obtain hrecorded | hlatest := hfront.recorded_or hu
      · exact hrecorded.append _
      · obtain ⟨front', hfront', hkept⟩ := recorded_of_unbroken hlinked hunbroken
        exact hkept u (hfront'.mem_of_latest hlinked hfront.begins hu hlatest)
    · have hall : Begins K settings chain ((syncUpdates K settings chain).events
          settings.fromHeight.toNat (b + 1)) := ⟨b + 1, List.prefix_rfl⟩
      have hmem := hfront.mem_of_recorded hlinked hall
        (Indexer.mem_events.mpr ⟨b, hb, Nat.lt_succ_self b, hu⟩) hrecorded
      exact ⟨hmem, hfront.finds hlinked hmem hrecorded, hfront.redelivered hlinked hmem hrecorded⟩

end Loops

section Sample

def sampleCrypto : Crypto ℕ := Crypto.withIdealHash fun _ _ => none

def sampleSettings : Settings ℕ := ⟨[], 0, 1⟩

/-- An update from the root of no message to some other root. -/
def sampleUpdate : SignedUpdateWithMeta ℕ :=
  ⟨⟨⟨1000, 0, List.Vector.replicate 32 1⟩, List.Vector.replicate 65 0⟩, ⟨0⟩⟩

/-- A chain with the one update in its first block. -/
def sampleChain : Chain ℕ where
  updates b := if b = 0 then [sampleUpdate] else []
  messages _ := []

theorem sampleChain_linked : Linked sampleChain 0 := by
  have hupdates : ∀ height, (List.range (height + 1)).flatMap sampleChain.updates =
      [sampleUpdate] := by
    intro height
    induction height with
    | zero => rfl
    | succ height ih =>
      rw [List.range_succ, List.flatMap_append, ih]
      simp [sampleChain]
  intro height
  cases height with
  | zero => exact ⟨trivial, List.nodup_singleton _⟩
  | succ height =>
    rw [hupdates]
    exact ⟨⟨rfl, trivial⟩, by decide⟩

/-- The labels that lead to a state lead there. -/
theorem reachable_of_foldlM {labels : List Label} {t : State ℕ}
    (h : labels.foldlM (fun s label => exec sampleCrypto sampleSettings sampleChain label s)
      ⟨[], .down, .down⟩ = some t) : (system sampleCrypto sampleSettings sampleChain).Reachable t :=
  ⟨_, labels, rfl, System.run_of_foldlM (fun _ _ _ hexec => hexec) h⟩

/-- The first block is not stored when the loop first begins; and when the process stops
after the first write for an update, the latest root is that of an update that is not
stored. -/
theorem indexer_at_first :
    Linked sampleChain 0 ∧
    (∃ s, (system sampleCrypto sampleSettings sampleChain).Reachable s ∧ s.updates = .top 0 ∧
      sampleUpdate ∈ sampleChain.updates 0 ∧ ¬ UpdateRecorded s.log sampleUpdate) ∧
    ∃ s, (system sampleCrypto sampleSettings sampleChain).Reachable s ∧
      retrieveLatestRoot [] (database [] s.log) = .ok (some sampleUpdate.newRoot) ∧
      ¬ UpdateRecorded s.log sampleUpdate ∧
      updateByPreviousRoot [] sampleUpdate.previousRoot (database [] s.log) = .ok none ∧
      updateByNewRoot [] sampleUpdate.newRoot (database [] s.log) = .ok none := by
  have htop : (system sampleCrypto sampleSettings sampleChain).Reachable ⟨[], .top 0, .down⟩ :=
    reachable_of_foldlM (show [Label.updates .start].foldlM _ _ = some _ from rfl)
  have hstopped : (system sampleCrypto sampleSettings sampleChain).Reachable
      ⟨[entry .home .latestRoot () sampleUpdate.newRoot], .down, .down⟩ :=
    reachable_of_foldlM (show [Label.updates .start, .updates (.poll 0), .updates .advance,
      .updates .advance, .updates .stop].foldlM _ _ = some _ from rfl)
  refine ⟨sampleChain_linked, ⟨_, htop, rfl, List.mem_singleton_self _, fun hrecorded => ?_⟩,
    ⟨_, hstopped, rfl, fun hrecorded => ?_, rfl, rfl⟩⟩
  · cases hrecorded _ List.mem_cons_self
  · have hrow := List.mem_singleton.mp (hrecorded _ List.mem_cons_self)
    cases hrow

/-- A chunk with the one update, finished: it is stored and found. -/
theorem indexer_after_chunk :
    ∃ s, (system sampleCrypto sampleSettings sampleChain).Reachable s ∧ s.updates = .top 0 ∧
      UpdateRecorded s.log sampleUpdate ∧
      FindsUpdate sampleSettings (database [] s.log) sampleUpdate := by
  have hreach : (system sampleCrypto sampleSettings sampleChain).Reachable
      ⟨[entry .home .latestRoot () sampleUpdate.newRoot,
        entry .home .update sampleUpdate.previousRoot sampleUpdate.signedUpdate,
        entry .home .prevRoot sampleUpdate.newRoot sampleUpdate.previousRoot,
        entry .home .updateMeta sampleUpdate.newRoot sampleUpdate.metadata,
        entry .home .updatesLastInspected () 0], .top 0, .down⟩ :=
    reachable_of_foldlM (show [Label.updates .start, .updates (.poll 0), .updates .advance,
      .updates .advance, .updates .advance, .updates .advance, .updates .advance,
      .updates .advance].foldlM _ _ = some _ from rfl)
  obtain ⟨hupdates, -, -, hlinked⟩ := indexer_loses_nothing hreach
  have hrecorded := (hupdates 0 rfl).2 (by rw [resumePoint_updates]; exact nofun) sampleUpdate
    (List.mem_singleton_self _)
  obtain ⟨front, -, -, -, -, hfinds, -⟩ := hlinked 0 sampleChain_linked
  exact ⟨_, hreach, rfl, hrecorded,
    (hfinds 0 le_rfl sampleUpdate (List.mem_singleton_self _) hrecorded).2.1⟩

end Sample

end Optics.ContractSync
