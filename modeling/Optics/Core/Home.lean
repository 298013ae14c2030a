/-
# The Home contract

Home formats each dispatched message, appends its hash to the Merkle tree and
enqueues the new root. An update signed by the updater on the committed root
either commits a root of the queue, dropping the roots before it, or is
improper, which fails the contract and slashes the updater.

A call runs in a context: the sender, which addresses hold code, and what the
updater manager does when it is asked to slash. The manager is called after the
state is set to failed, so of the calls it may make back into Home only the two
configuration calls have an effect.
-/

import Optics.Core.Common
import Optics.Libs.Merkle
import Optics.Libs.Message
import Optics.Libs.Queue
import Optics.Math.Transition

namespace Optics

open Optics.Solidity Optics.Common

variable {Byte : Type}

namespace Home

/-- `MAX_MESSAGE_BODY_BYTES`. -/
def MAX_MESSAGE_BODY_BYTES : ℕ := 2 * 2 ^ 10

/-- The events of Home. -/
inductive Event (Byte : Type)
  | Dispatch (messageHash : Bytes32 Byte) (leafIndex : ℕ) (destinationAndNonce : UInt64)
      (committedRoot : Bytes32 Byte) (message : List Byte)
  | Update (homeDomain : UInt32) (update : SignedUpdate Byte)
  | ImproperUpdate (update : SignedUpdate Byte)
  | DoubleUpdate (oldRoot newRoot₀ newRoot₁ : Bytes32 Byte) (signature signature₂ : List Byte)
  | UpdaterSlashed (updater reporter : Address Byte)
  | NewUpdater (updater : Address Byte)
  | NewUpdaterManager (updaterManager : Address Byte)

/-- A configuration call that the updater manager makes back into Home. -/
inductive Reconfiguration (Byte : Type)
  | setUpdater (sender updater : Address Byte)
  | setUpdaterManager (sender updaterManager : Address Byte)

/-- What the updater manager does when `slashUpdater` is called: it reverts, or
it returns after calls back into Home. -/
inductive SlashOutcome (Byte : Type)
  | reverts
  | returns (nested : List (Reconfiguration Byte))

/-- What a call reads from outside the contract. -/
structure Context (Byte : Type) where
  sender : Address Byte
  isContract : Address Byte → Bool
  slashUpdater : SlashOutcome Byte

end Home

/-- The storage of Home. -/
structure Home (Byte : Type) where
  localDomain : UInt32
  owner : Address Byte
  queue : QueueLib.Queue (Bytes32 Byte)
  tree : MerkleLib.Tree Byte
  updater : Address Byte
  state : States
  committedRoot : Bytes32 Byte
  nonces : UInt32 → UInt32
  updaterManager : Address Byte

namespace Home

variable [ByteAlphabet Byte] [DecidableEq Byte]

/-- Fresh storage behind `constructor`. -/
def fresh (_localDomain : UInt32) : Home Byte where
  localDomain := _localDomain
  owner := 0
  queue := .fresh
  tree := .fresh
  updater := 0
  state := .UnInitialized
  committedRoot := 0
  nonces := fun _ => 0
  updaterManager := 0

/-! ### Configuration -/

/-- `_setUpdaterManager`. -/
def _setUpdaterManager (isContract : Address Byte → Bool) (_updaterManager : Address Byte)
    (home : Home Byte) : Except Revert (Home Byte × List (Event Byte)) := do
  require (isContract _updaterManager) "!contract updaterManager"
  .ok ({ home with updaterManager := _updaterManager }, [.NewUpdaterManager _updaterManager])

/-- `_setUpdater`. -/
def _setUpdater (_updater : Address Byte) (home : Home Byte) : Home Byte × List (Event Byte) :=
  ({ home with updater := _updater }, [.NewUpdater _updater])

/-- `setUpdater`. -/
def setUpdater (sender _updater : Address Byte) (home : Home Byte) :
    Except Revert (Home Byte × List (Event Byte)) := do
  require (sender = home.updaterManager) "!updaterManager"
  .ok (_setUpdater _updater home)

/-- `setUpdaterManager`. -/
def setUpdaterManager (sender : Address Byte) (isContract : Address Byte → Bool)
    (_updaterManager : Address Byte) (home : Home Byte) :
    Except Revert (Home Byte × List (Event Byte)) := do
  require (sender = home.owner) "Ownable: caller is not the owner"
  _setUpdaterManager isContract _updaterManager home

/-- `initialize`. The manager answers `updater()` with `_updater`. -/
def init (ctx : Context Byte) (_updaterManager _updater : Address Byte) (home : Home Byte) :
    Except Revert (Home Byte × List (Event Byte)) := do
  let home := { home with owner := ctx.sender, queue := home.queue.init }
  let (home, events) ← _setUpdaterManager ctx.isContract _updaterManager home
  .ok ({ home with updater := _updater, state := .Active }, events ++ [.NewUpdater _updater])

/-- One configuration call from inside `slashUpdater`. A revert leaves Home as
it was. -/
def reconfigure (isContract : Address Byte → Bool) (home : Home Byte)
    (call : Reconfiguration Byte) : Home Byte × List (Event Byte) :=
  let result := match call with
    | .setUpdater sender updater => setUpdater sender updater home
    | .setUpdaterManager sender manager => setUpdaterManager sender isContract manager home
  match result with
  | .ok (home, events) => (home, events)
  | .error _ => (home, [])

/-- All configuration calls from inside `slashUpdater`. -/
def reconfigureAll (isContract : Address Byte → Bool) :
    Home Byte → List (Reconfiguration Byte) → Home Byte × List (Event Byte)
  | home, [] => (home, [])
  | home, call :: rest =>
    let (home, events) := reconfigure isContract home call
    let (home, later) := reconfigureAll isContract home rest
    (home, events ++ later)

/-- `_fail`. -/
def _fail (ctx : Context Byte) (home : Home Byte) :
    Except Revert (Home Byte × List (Event Byte)) :=
  match ctx.slashUpdater with
  | .reverts => .error (.external "slashUpdater")
  | .returns nested =>
    let (home, events) := reconfigureAll ctx.isContract { home with state := .Failed } nested
    .ok (home, events ++ [.UpdaterSlashed home.updater ctx.sender])

/-! ### Messages -/

/-- `_destinationAndNonce`. -/
def _destinationAndNonce (_destination _nonce : UInt32) : UInt64 :=
  (_destination.toUInt64 <<< 32) ||| _nonce.toUInt64

/-- `modifier notFailed`. -/
def notFailed (home : Home Byte) : Except Revert Unit :=
  require (home.state ≠ .Failed) "failed state"

section Calls

variable (K : Crypto Byte)

/-- `homeDomainHash`. -/
def homeDomainHash (home : Home Byte) : Bytes32 Byte := _homeDomainHash K home.localDomain

/-- `dispatch`. -/
def dispatch (ctx : Context Byte) (_destinationDomain : UInt32) (_recipientAddress : Bytes32 Byte)
    (_messageBody : List Byte) (home : Home Byte) :
    Except Revert (Home Byte × List (Event Byte)) := do
  notFailed home
  require (_messageBody.length ≤ MAX_MESSAGE_BODY_BYTES) "msg too long"
  let _nonce := home.nonces _destinationDomain
  let _message := Message.formatMessage home.localDomain (addressToBytes32 ctx.sender) _nonce
    _destinationDomain _recipientAddress _messageBody
  let _messageHash := K.keccak256 _message
  let tree ← MerkleLib.insert K home.tree _messageHash
  .ok ({ home with
      nonces := Function.update home.nonces _destinationDomain (_nonce + 1)
      tree := tree
      queue := home.queue.enqueue (MerkleLib.root K tree) },
    [.Dispatch _messageHash (tree.count - 1) (_destinationAndNonce _destinationDomain _nonce)
      home.committedRoot _message])

/-- `improperUpdate`, with its answer. -/
def improperUpdate (ctx : Context Byte) (_oldRoot _newRoot : Bytes32 Byte)
    (_signature : List Byte) (home : Home Byte) :
    Except Revert (Bool × Home Byte × List (Event Byte)) := do
  notFailed home
  let signed ← _isUpdaterSignature K home.localDomain home.updater _oldRoot _newRoot _signature
  require signed "!updater sig"
  require (_oldRoot = home.committedRoot) "not a current update"
  if home.queue.contains _newRoot then
    .ok (false, home, [])
  else
    let (home, events) ← _fail ctx home
    .ok (true, home, events ++ [.ImproperUpdate ⟨_oldRoot, _newRoot, _signature⟩])

end Calls

/-- The loop of `update`: dequeue until the new root comes out. -/
def dequeueUntil (_newRoot : Bytes32 Byte) (queue : QueueLib.Queue (Bytes32 Byte)) :
    Except Revert (QueueLib.Queue (Bytes32 Byte)) :=
  match h : queue.dequeue with
  | .error e => .error e
  | .ok (_next, rest) =>
    have := QueueLib.Queue.length_dequeue_lt h
    if _next = _newRoot then .ok rest else dequeueUntil _newRoot rest
termination_by queue.length

section Calls

variable (K : Crypto Byte)

/-- `update`. -/
def update (ctx : Context Byte) (_committedRoot _newRoot : Bytes32 Byte) (_signature : List Byte)
    (home : Home Byte) : Except Revert (Home Byte × List (Event Byte)) := do
  notFailed home
  let (improper, home, events) ← improperUpdate K ctx _committedRoot _newRoot _signature home
  if improper then
    .ok (home, events)
  else
    let queue ← dequeueUntil _newRoot home.queue
    .ok ({ home with queue := queue, committedRoot := _newRoot },
      events ++ [.Update home.localDomain ⟨_committedRoot, _newRoot, _signature⟩])

/-- `doubleUpdate`. -/
def doubleUpdate (ctx : Context Byte) (_oldRoot _newRoot₀ _newRoot₁ : Bytes32 Byte)
    (_signature _signature₂ : List Byte) (home : Home Byte) :
    Except Revert (Home Byte × List (Event Byte)) := do
  notFailed home
  let conflict ← isDoubleUpdate K home.localDomain home.updater _oldRoot _newRoot₀ _newRoot₁
    _signature _signature₂
  if conflict then
    let (home, events) ← _fail ctx home
    .ok (home, events ++ [.DoubleUpdate _oldRoot _newRoot₀ _newRoot₁ _signature _signature₂])
  else .ok (home, [])

/-- `suggestUpdate`. -/
def suggestUpdate (home : Home Byte) : Bytes32 Byte × Bytes32 Byte :=
  if home.queue.length ≠ 0 then (home.committedRoot, home.queue.lastItem) else (0, 0)

end Calls

end Home

end Optics
