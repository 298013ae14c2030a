/-
# Messages in the SDK

An `OpticsMessage` follows one dispatched message by the events of Home and of
the Replica. It never looks at the tree: the update that is taken to include the
message is the one from the committed root at the time of the dispatch. Answers
of queries are cached in the object, so a message remembers what it has seen.

Queries return exactly the matching events. Home and Replica are those of the
message's origin and destination.
-/

import Optics.Channel.Basic

namespace Optics

open Optics.Solidity Optics.Common

variable {Byte E η : Type}

namespace OpticsMessage

/-- `DispatchArgs`. -/
structure DispatchArgs (Byte : Type) where
  messageHash : Bytes32 Byte
  leafIndex : ℕ
  destinationAndNonce : UInt64
  committedRoot : Bytes32 Byte
  message : List Byte

/-- The event with these arguments. -/
def DispatchArgs.event (args : DispatchArgs Byte) : Home.Event Byte :=
  .Dispatch args.messageHash args.leafIndex args.destinationAndNonce args.committedRoot args.message

/-- `ProcessArgs`. -/
structure ProcessArgs (Byte : Type) where
  messageHash : Bytes32 Byte
  success : Bool
  returnData : List Byte

/-- `MessageStatus`. -/
inductive MessageStatus
  | Dispatched
  | Included
  | Relayed
  | Processed
  deriving DecidableEq, Repr

/-- `AnnotatedLifecycleEvent`. -/
inductive LifecycleEvent (Byte : Type)
  | dispatch (args : DispatchArgs Byte)
  | update (u : SignedUpdate Byte)
  | process (args : ProcessArgs Byte)

/-- `OpticsStatus`. -/
structure OpticsStatus (Byte : Type) where
  status : MessageStatus
  events : List (LifecycleEvent Byte)

/-- `EventCache`. -/
structure EventCache (Byte : Type) where
  homeUpdate : Option (SignedUpdate Byte)
  replicaUpdate : Option (SignedUpdate Byte)
  process : Option (ProcessArgs Byte)

end OpticsMessage

/-- The fields of a message that its methods read. -/
structure OpticsMessage (Byte : Type) where
  dispatch : OpticsMessage.DispatchArgs Byte
  cache : OpticsMessage.EventCache Byte

namespace OpticsMessage

/-- `constructor`. -/
def new (dispatch : DispatchArgs Byte) : OpticsMessage Byte := ⟨dispatch, ⟨none, none, none⟩⟩

/-- `get leaf`. -/
def leaf (m : OpticsMessage Byte) : Bytes32 Byte := m.dispatch.messageHash

/-- `get committedRoot`. -/
def committedRoot (m : OpticsMessage Byte) : Bytes32 Byte := m.dispatch.committedRoot

/-- The arguments of a `Process` event in a trace. -/
def processArgs? : Replica.Action Byte η → Option (ProcessArgs Byte)
  | .event (.Process messageHash success returnData) => some ⟨messageHash, success, returnData⟩
  | _ => none

section Queries

variable [DecidableEq Byte]

/-- `filters.Update(undefined, oldRoot)` on the updates that a contract emitted. -/
def queryUpdates (oldRoot : Bytes32 Byte) (updates : List (SignedUpdate Byte)) :
    List (SignedUpdate Byte) :=
  updates.filter fun u => u.oldRoot = oldRoot

/-- `filters.Process(messageHash)` on what the Replica emitted. -/
def queryProcess (messageHash : Bytes32 Byte) (trace : List (ℕ × Replica.Action Byte η)) :
    List (ProcessArgs Byte) :=
  (trace.filterMap fun entry => processArgs? entry.2).filter fun p => p.messageHash = messageHash

end Queries

/-- What the three getters have in common: a cached event is returned without a
query, one found event is cached, and several are an error. -/
def getEvent {α : Type} (cached : Option α) (logs : List α) (error : String) :
    Except String (Option α) :=
  match cached, logs with
  | some event, _ => .ok (some event)
  | none, [] => .ok none
  | none, [event] => .ok (some event)
  | none, _ => .error error

theorem getEvent_eq_some {α : Type} {cached : Option α} {logs : List α} {error : String} {event : α}
    (h : getEvent cached logs error = .ok (some event)) : cached = some event ∨ event ∈ logs := by
  cases cached with
  | some event' => exact .inl (Except.ok.inj h)
  | none =>
    right
    match logs with
    | [] => cases h
    | [event'] =>
      obtain rfl := Option.some.inj (Except.ok.inj h)
      exact List.mem_singleton_self _
    | _ :: _ :: _ => cases h

/-- A method answers or throws, and leaves the object with its cache. -/
abbrev Method (Byte α : Type) := OpticsMessage Byte → Except String α × OpticsMessage Byte

section Methods

variable [DecidableEq Byte]

/-- `getHomeUpdate`. -/
def getHomeUpdate (log : List (Home.Event Byte)) : Method Byte (Option (SignedUpdate Byte)) :=
  fun m =>
    match getEvent m.cache.homeUpdate (queryUpdates m.committedRoot (Home.updates log))
        "multiple home updates for same root" with
    | .ok update => (.ok update, { m with cache := { m.cache with homeUpdate := update } })
    | .error e => (.error e, m)

/-- `getReplicaUpdate`. -/
def getReplicaUpdate (trace : List (ℕ × Replica.Action Byte η)) :
    Method Byte (Option (SignedUpdate Byte)) :=
  fun m =>
    match getEvent m.cache.replicaUpdate (queryUpdates m.committedRoot (Replica.accepted trace))
        "multiple replica updates for same root" with
    | .ok update => (.ok update, { m with cache := { m.cache with replicaUpdate := update } })
    | .error e => (.error e, m)

/-- `getProcess`. -/
def getProcess (trace : List (ℕ × Replica.Action Byte η)) :
    Method Byte (Option (ProcessArgs Byte)) :=
  fun m =>
    match getEvent m.cache.process (queryProcess m.leaf trace)
        "multiple replica process for same message" with
    | .ok process => (.ok process, { m with cache := { m.cache with process := process } })
    | .error e => (.error e, m)

/-- `events`. -/
def events (log : List (Home.Event Byte)) (trace : List (ℕ × Replica.Action Byte η)) :
    Method Byte (OpticsStatus Byte) :=
  fun m =>
    match m.getHomeUpdate log with
    | (.error e, m) => (.error e, m)
    | (.ok none, m) => (.ok ⟨.Dispatched, [.dispatch m.dispatch]⟩, m)
    | (.ok (some homeUpdate), m) =>
      match m.getReplicaUpdate trace with
      | (.error e, m) => (.error e, m)
      | (.ok none, m) => (.ok ⟨.Included, [.dispatch m.dispatch, .update homeUpdate]⟩, m)
      | (.ok (some replicaUpdate), m) =>
        match m.getProcess trace with
        | (.error e, m) => (.error e, m)
        | (.ok none, m) =>
          (.ok ⟨.Relayed, [.dispatch m.dispatch, .update homeUpdate, .update replicaUpdate]⟩, m)
        | (.ok (some process), m) =>
          (.ok ⟨.Processed,
            [.dispatch m.dispatch, .update homeUpdate, .update replicaUpdate, .process process]⟩, m)

/-- `confirmAt`. -/
def confirmAt (log : List (Home.Event Byte)) (replica : Replica Byte) : Method Byte ℕ :=
  fun m =>
    match m.getHomeUpdate log with
    | (.error e, m) => (.error e, m)
    | (.ok none, m) => (.ok 0, m)
    | (.ok (some update), m) => (.ok (replica.confirmAt update.newRoot), m)

end Methods

end OpticsMessage

end Optics
