/-
# The Replica contract

Replica accepts roots signed by the updater, lets a message be proven under any
accepted root whose optimistic time has passed, and hands a proven message to
its recipient once. The functions here are those of the contract up to the call
of the recipient: `process` is cut at that call, into the part before it and the
part after it. Timestamps and gas are `uint256` values.
-/

import Optics.Core.Common
import Optics.Libs.Merkle
import Optics.Libs.Message

namespace Optics

open Optics.Solidity Optics.Common

variable {Byte : Type}

namespace Replica

/-- The enumeration `MessageStatus`. -/
inductive MessageStatus
  | None
  | Proven
  | Processed
  deriving DecidableEq, Repr

/-- The events of Replica. -/
inductive Event (Byte : Type)
  | Update (homeDomain : UInt32) (update : SignedUpdate Byte)
  | DoubleUpdate (oldRoot newRoot₀ newRoot₁ : Bytes32 Byte) (signature signature₂ : List Byte)
  | Process (messageHash : Bytes32 Byte) (success : Bool) (returnData : List Byte)

/-- The call `handle(origin, sender, body)` to a recipient. -/
structure Handle (Byte : Type) where
  recipient : Address Byte
  origin : UInt32
  sender : Bytes32 Byte
  body : List Byte

end Replica

open Replica (MessageStatus Handle)

/-- The storage of Replica, with its immutables. -/
structure Replica (Byte : Type) where
  localDomain : UInt32
  PROCESS_GAS : ℕ
  RESERVE_GAS : ℕ
  updater : Address Byte
  state : States
  committedRoot : Bytes32 Byte
  remoteDomain : UInt32
  optimisticSeconds : ℕ
  entered : UInt8
  confirmAt : Bytes32 Byte → ℕ
  messages : Bytes32 Byte → MessageStatus

namespace Replica

variable [ByteAlphabet Byte]

/-- `constructor`. -/
def deploy (_localDomain : UInt32) (_processGas _reserveGas : ℕ) :
    Except Revert (Replica Byte) := do
  require (850000 ≤ _processGas) "!process gas"
  require (15000 ≤ _reserveGas) "!reserve gas"
  .ok {
    localDomain := _localDomain
    PROCESS_GAS := _processGas
    RESERVE_GAS := _reserveGas
    updater := 0
    state := .UnInitialized
    committedRoot := 0
    remoteDomain := 0
    optimisticSeconds := 0
    entered := 0
    confirmAt := fun _ => 0
    messages := fun _ => .None }

variable [DecidableEq Byte]

/-- `initialize`. -/
def init (_remoteDomain : UInt32) (_updater : Address Byte) (_committedRoot : Bytes32 Byte)
    (_optimisticSeconds : ℕ) (replica : Replica Byte) : Replica Byte :=
  { replica with
    updater := _updater
    state := .Active
    entered := 1
    remoteDomain := _remoteDomain
    committedRoot := _committedRoot
    confirmAt := Function.update replica.confirmAt _committedRoot 1
    optimisticSeconds := _optimisticSeconds }

/-- `modifier notFailed`. -/
def notFailed (replica : Replica Byte) : Except Revert Unit :=
  require (replica.state ≠ .Failed) "failed state"

/-- `_fail`. -/
def _fail (replica : Replica Byte) : Replica Byte := { replica with state := .Failed }

/-- `acceptableRoot`. -/
def acceptableRoot (timestamp : ℕ) (_root : Bytes32 Byte) (replica : Replica Byte) : Bool :=
  let _time := replica.confirmAt _root
  if _time = 0 then false else _time ≤ timestamp

/-- The call that a message asks for: its recipient, and the three arguments
that are encoded. -/
def handleOf (_message : List Byte) : Except Revert (Handle Byte) := do
  let _recipient ← Message.recipientAddress _message
  let origin ← Message.origin _message
  let sender ← Message.sender _message
  let body ← Message.body _message
  .ok ⟨_recipient, origin, sender, body⟩

section Calls

variable (K : Crypto Byte)

/-- `homeDomainHash`. -/
def homeDomainHash (replica : Replica Byte) : Bytes32 Byte :=
  _homeDomainHash K replica.remoteDomain

/-- `update`. -/
def update (timestamp : ℕ) (_oldRoot _newRoot : Bytes32 Byte) (_signature : List Byte)
    (replica : Replica Byte) : Except Revert (Replica Byte × List (Event Byte)) := do
  notFailed replica
  require (_oldRoot = replica.committedRoot) "not current update"
  let signed ← _isUpdaterSignature K replica.remoteDomain replica.updater _oldRoot _newRoot _signature
  require signed "!updater sig"
  .ok ({ replica with
      confirmAt := Function.update replica.confirmAt _newRoot
        ((timestamp + replica.optimisticSeconds) % 2 ^ 256)
      committedRoot := _newRoot },
    [.Update replica.remoteDomain ⟨_oldRoot, _newRoot, _signature⟩])

/-- `doubleUpdate`. -/
def doubleUpdate (_oldRoot _newRoot₀ _newRoot₁ : Bytes32 Byte) (_signature _signature₂ : List Byte)
    (replica : Replica Byte) : Except Revert (Replica Byte × List (Event Byte)) := do
  notFailed replica
  let conflict ← isDoubleUpdate K replica.remoteDomain replica.updater _oldRoot _newRoot₀ _newRoot₁
    _signature _signature₂
  if conflict then
    .ok (_fail replica, [.DoubleUpdate _oldRoot _newRoot₀ _newRoot₁ _signature _signature₂])
  else .ok (replica, [])

/-- `prove`, with its answer. -/
def prove (timestamp : ℕ) (_leaf : Bytes32 Byte) (_proof : ℕ → Bytes32 Byte) (_index : ℕ)
    (replica : Replica Byte) : Except Revert (Bool × Replica Byte) := do
  require (replica.messages _leaf = .None) "!MessageStatus.None"
  let _calculatedRoot := MerkleLib.branchRoot K _leaf _proof _index
  if replica.acceptableRoot timestamp _calculatedRoot then
    .ok (true, { replica with messages := Function.update replica.messages _leaf .Proven })
  else .ok (false, replica)

/-- `process` up to the call of the recipient: the checks, the guard, the status
and the call that is about to be made. -/
def beginProcess (gasleft : ℕ) (_message : List Byte) (replica : Replica Byte) :
    Except Revert (Handle Byte × Replica Byte) := do
  let destination ← Message.destination _message
  require (destination = replica.localDomain) "!destination"
  let _messageHash := K.keccak256 _message
  require (replica.messages _messageHash = .Proven) "!proven"
  require (replica.entered = 1) "!reentrant"
  let replica := { replica with
    entered := 0
    messages := Function.update replica.messages _messageHash .Processed }
  require ((replica.PROCESS_GAS + replica.RESERVE_GAS) % 2 ^ 256 ≤ gasleft) "!gas"
  let handle ← handleOf _message
  .ok (handle, replica)

/-- `process` after the call: at most 256 bytes of the returned data are kept. -/
def endProcess (_message : List Byte) (_success : Bool) (returnData : List Byte)
    (replica : Replica Byte) : Replica Byte × List (Event Byte) :=
  ({ replica with entered := 1 },
    [.Process (K.keccak256 _message) _success (returnData.take 256)])

end Calls

/-! ### What the functions check -/

section Specs

variable {K : Crypto Byte} {replica replica' : Replica Byte} {timestamp : ℕ}

omit [ByteAlphabet Byte] [DecidableEq Byte] in
theorem acceptableRoot_eq_true {root : Bytes32 Byte} :
    replica.acceptableRoot timestamp root = true ↔
      replica.confirmAt root ≠ 0 ∧ replica.confirmAt root ≤ timestamp := by
  rw [acceptableRoot]
  split_ifs with h
  · simp [h]
  · simp [h]

theorem update_eq_ok {oldRoot newRoot : Bytes32 Byte} {signature : List Byte}
    {events : List (Event Byte)} :
    update K timestamp oldRoot newRoot signature replica = .ok (replica', events) ↔
      replica.state ≠ .Failed ∧ oldRoot = replica.committedRoot ∧
      IsSignedBy K replica.remoteDomain replica.updater ⟨oldRoot, newRoot, signature⟩ ∧
      replica' = { replica with
        confirmAt := Function.update replica.confirmAt newRoot
          ((timestamp + replica.optimisticSeconds) % 2 ^ 256)
        committedRoot := newRoot } ∧
      events = [.Update replica.remoteDomain ⟨oldRoot, newRoot, signature⟩] := by
  rw [update, notFailed, require_bind_eq_ok, require_bind_eq_ok, bind_eq_ok,
    ← _isUpdaterSignature_eq_true]
  constructor
  · rintro ⟨hstate, hcurrent, signed, hsigned, h⟩
    obtain ⟨rfl, h⟩ := require_bind_eq_ok.mp h
    obtain ⟨hreplica, hevents⟩ := Prod.mk.inj (Except.ok.inj h)
    exact ⟨hstate, hcurrent, hsigned, hreplica.symm, hevents.symm⟩
  · rintro ⟨hstate, hcurrent, hsigned, rfl, rfl⟩
    exact ⟨hstate, hcurrent, true, hsigned, require_bind_eq_ok.mpr ⟨rfl, rfl⟩⟩

theorem doubleUpdate_eq_ok {oldRoot newRoot₀ newRoot₁ : Bytes32 Byte}
    {signature signature₂ : List Byte} {events : List (Event Byte)}
    (h : doubleUpdate K oldRoot newRoot₀ newRoot₁ signature signature₂ replica =
      .ok (replica', events)) :
    (replica' = replica ∧ events = []) ∨
      (replica.state ≠ .Failed ∧
        IsSignedBy K replica.remoteDomain replica.updater ⟨oldRoot, newRoot₀, signature⟩ ∧
        IsSignedBy K replica.remoteDomain replica.updater ⟨oldRoot, newRoot₁, signature₂⟩ ∧
        newRoot₀ ≠ newRoot₁ ∧ replica' = _fail replica ∧
        events = [.DoubleUpdate oldRoot newRoot₀ newRoot₁ signature signature₂]) := by
  rw [doubleUpdate, notFailed, require_bind_eq_ok, bind_eq_ok] at h
  obtain ⟨hstate, conflict, hconflict, h⟩ := h
  cases conflict with
  | false =>
    obtain ⟨rfl, rfl⟩ := Prod.mk.inj (Except.ok.inj h)
    exact .inl ⟨rfl, rfl⟩
  | true =>
    obtain ⟨rfl, rfl⟩ := Prod.mk.inj (Except.ok.inj h)
    obtain ⟨hfirst, hsecond, hne⟩ := isDoubleUpdate_eq_true.mp hconflict
    exact .inr ⟨hstate, hfirst, hsecond, hne, rfl, rfl⟩

omit [ByteAlphabet Byte] in
theorem prove_eq_ok {leaf : Bytes32 Byte} {proof : ℕ → Bytes32 Byte} {index : ℕ} {proven : Bool} :
    prove K timestamp leaf proof index replica = .ok (proven, replica') ↔
      replica.messages leaf = .None ∧
      proven = replica.acceptableRoot timestamp (MerkleLib.branchRoot K leaf proof index) ∧
      replica' = if proven then
        { replica with messages := Function.update replica.messages leaf .Proven }
        else replica := by
  rw [prove, require_bind_eq_ok]
  refine and_congr_right fun _ => ?_
  cases hroot : replica.acceptableRoot timestamp (MerkleLib.branchRoot K leaf proof index) with
  | false =>
    simp only [hroot, Bool.false_eq_true, if_false, Except.ok.injEq, Prod.mk.injEq]
    constructor
    · rintro ⟨rfl, rfl⟩
      exact ⟨rfl, rfl⟩
    · rintro ⟨rfl, rfl⟩
      exact ⟨rfl, rfl⟩
  | true =>
    simp only [hroot, if_true, Except.ok.injEq, Prod.mk.injEq]
    constructor
    · rintro ⟨rfl, rfl⟩
      exact ⟨rfl, rfl⟩
    · rintro ⟨rfl, rfl⟩
      exact ⟨rfl, rfl⟩

theorem beginProcess_eq_ok {gasleft : ℕ} {message : List Byte} {handle : Handle Byte} :
    beginProcess K gasleft message replica = .ok (handle, replica') ↔
      Message.destination message = .ok replica.localDomain ∧
      replica.messages (K.keccak256 message) = .Proven ∧ replica.entered = 1 ∧
      (replica.PROCESS_GAS + replica.RESERVE_GAS) % 2 ^ 256 ≤ gasleft ∧
      handleOf message = .ok handle ∧
      replica' = { replica with
        entered := 0
        messages := Function.update replica.messages (K.keccak256 message) .Processed } := by
  rw [beginProcess, bind_eq_ok]
  constructor
  · rintro ⟨destination, hdestination, h⟩
    obtain ⟨hdomain, h⟩ := require_bind_eq_ok.mp h
    obtain ⟨hproven, h⟩ := require_bind_eq_ok.mp h
    obtain ⟨hentered, h⟩ := require_bind_eq_ok.mp h
    obtain ⟨hgas, h⟩ := require_bind_eq_ok.mp h
    obtain ⟨handle', hhandle, h⟩ := bind_eq_ok.mp h
    obtain ⟨heq, hreplica⟩ := Prod.mk.inj (Except.ok.inj h)
    exact ⟨hdomain ▸ hdestination, hproven, hentered, hgas, heq ▸ hhandle, hreplica.symm⟩
  · rintro ⟨hdestination, hproven, hentered, hgas, hhandle, rfl⟩
    refine ⟨_, hdestination, require_bind_eq_ok.mpr ⟨rfl, ?_⟩⟩
    refine require_bind_eq_ok.mpr ⟨hproven, require_bind_eq_ok.mpr ⟨hentered, ?_⟩⟩
    exact require_bind_eq_ok.mpr ⟨hgas, bind_eq_ok.mpr ⟨handle, hhandle, rfl⟩⟩

omit [DecidableEq Byte] in
/-- Reading the call back from a formatted message. -/
theorem handleOf_formatMessage (o n d : UInt32) (s r : Bytes32 Byte) (b : List Byte) :
    handleOf (Message.formatMessage o s n d r b) = .ok ⟨bytes32ToAddress r, o, s, b⟩ := by
  simp [handleOf]

end Specs

end Replica

end Optics
