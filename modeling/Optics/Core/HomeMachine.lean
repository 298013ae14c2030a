/-
# Home among other contracts

Home is written as code of the machine of contracts that call each other, so that the
updater manager is any contract: when it is asked to slash it may call anything, Home
included, any number of times and nested in any way. Between transactions the other
accounts may change as they like.

The calldata is read and the answers are encoded by code that the compiler adds. Nothing
is assumed of it.
-/

import Optics.Core.HomeHistory
import Optics.Math.Calls

namespace Optics.HomeMachine

open Optics.Solidity Optics.Common Optics.Math.Calls Optics.Math.Transition

variable {Byte : Type} {κ ε : Type}

/-- The storage of an account: the variables of Home, the two flags of `Initializable`, and
whatever other contracts keep. -/
structure Storage (Byte κ : Type) where
  home : Home Byte
  _initialized : Bool
  _initializing : Bool
  rest : κ

/-- The events of Home and of `Ownable`, and those of other contracts. -/
inductive Event (Byte ε : Type)
  | home (event : Home.Event Byte)
  | OwnershipTransferred (previousOwner newOwner : Address Byte)
  | other (event : ε)

/-- Code over these accounts. -/
abbrev ContractCode (Byte κ ε : Type) := Code (Address Byte) Byte (Storage Byte κ) (Event Byte ε)

/-- Programs over these accounts. -/
abbrev ContractProgram (Byte κ ε : Type) :=
  Program (Address Byte) Byte (Storage Byte κ) (Event Byte ε)

/-- An entry of the record. -/
abbrev LogEntry (Byte ε : Type) := Entry (Address Byte) Byte (Event Byte ε)

/-- The external functions of Home, `initialize` among them. A view is given by its answer. -/
inductive Request (Byte : Type)
  | init (_updaterManager : Address Byte)
  | dispatch (_destinationDomain : UInt32) (_recipientAddress : Bytes32 Byte)
      (_messageBody : List Byte)
  | update (update : SignedUpdate Byte)
  | improperUpdate (update : SignedUpdate Byte)
  | doubleUpdate (_oldRoot _newRoot₀ _newRoot₁ : Bytes32 Byte) (_signature _signature₂ : List Byte)
  | setUpdater (_updater : Address Byte)
  | setUpdaterManager (_updaterManager : Address Byte)
  | transferOwnership (newOwner : Address Byte)
  | renounceOwnership
  | view (answer : Home Byte → List Byte)

/-- What the compiler adds: how calldata is read, and how answers, reverts and calls to the
updater manager are encoded. -/
structure Abi (Byte : Type) where
  decode : List Byte → Option (Request Byte)
  revertData : Revert → List Byte
  encodeBool : Bool → List Byte
  decodeAddress : List Byte → Option (Address Byte)
  slashUpdater : Address Byte → List Byte
  updater : List Byte

variable [ByteAlphabet Byte] [DecidableEq Byte] (K : Crypto Byte) (abi : Abi Byte)

/-! ### The code of Home -/

/-- A step that can fail before the rest of the code. -/
def orRevert {τ : Type} (result : Except Revert τ) (next : τ → ContractCode Byte κ ε) :
    ContractCode Byte κ ε :=
  match result with
  | .ok value => next value
  | .error e => .finish false (abi.revertData e)

/-- The events are emitted in order. -/
def emitAll : List (Home.Event Byte) → ContractCode Byte κ ε → ContractCode Byte κ ε
  | [], next => next
  | event :: rest, next => .emit (.home event) (emitAll rest next)

/-- A function that calls nobody: its outcome is stored and its events are emitted. -/
def commit (storage : Storage Byte κ)
    (outcome : Except Revert (Home Byte × List (Home.Event Byte))) : ContractCode Byte κ ε :=
  orRevert abi outcome fun (home, events) =>
  .store { storage with home := home } <|
  emitAll events <|
  .finish true []

/-- `initialize`, with `__Ownable_init`, `__QueueManager_initialize` and `__Common_initialize`. -/
def init (self sender _updaterManager : Address Byte) : ContractCode Byte κ ε :=
  .load fun storage =>
  .isContract self fun isContract =>
  orRevert abi (require (storage._initializing ∨ ¬ isContract ∨ ¬ storage._initialized)
    "Initializable: contract is already initialized") fun _ =>
  .store { storage with
    _initialized := true
    _initializing := true
    home := { storage.home with owner := sender, queue := storage.home.queue.init } } <|
  .emit (.OwnershipTransferred 0 sender) <|
  .isContract _updaterManager fun isManager =>
  .load fun current =>
  orRevert abi (Home._setUpdaterManager (fun _ => isManager) _updaterManager current.home)
    fun (home, events) =>
  .store { current with home := home } <|
  emitAll events <|
  .call .staticcall _updaterManager abi.updater fun success returned =>
  if success then
    match abi.decodeAddress returned with
    | some _updater =>
      .load fun current =>
      .store { current with
        _initializing := storage._initializing
        home := { current.home with updater := _updater, state := .Active } } <|
      .emit (.home (.NewUpdater _updater)) <|
      .finish true []
    | none => .finish false []
  else .finish false returned

/-- `dispatch`. -/
def dispatch (sender : Address Byte) (_destinationDomain : UInt32)
    (_recipientAddress : Bytes32 Byte) (_messageBody : List Byte) : ContractCode Byte κ ε :=
  .load fun storage =>
  commit abi storage (Home.dispatch K ⟨sender, fun _ => false, .reverts⟩ _destinationDomain
    _recipientAddress _messageBody storage.home)

/-- `setUpdater`. -/
def setUpdater (sender _updater : Address Byte) : ContractCode Byte κ ε :=
  .load fun storage => commit abi storage (Home.setUpdater sender _updater storage.home)

/-- `setUpdaterManager`. -/
def setUpdaterManager (sender _updaterManager : Address Byte) : ContractCode Byte κ ε :=
  .isContract _updaterManager fun isContract =>
  .load fun storage =>
  commit abi storage
    (Home.setUpdaterManager sender (fun _ => isContract) _updaterManager storage.home)

/-- `_fail`. The updater is read again after the manager returns. -/
def _fail (sender : Address Byte) (next : ContractCode Byte κ ε) : ContractCode Byte κ ε :=
  .load fun storage =>
  .store { storage with home := { storage.home with state := .Failed } } <|
  .isContract storage.home.updaterManager fun isContract =>
  if isContract then
    .call .call storage.home.updaterManager (abi.slashUpdater sender) fun success returned =>
    if success then
      .load fun storage =>
      .emit (.home (.UpdaterSlashed storage.home.updater sender)) next
    else .finish false returned
  else .finish false []

/-- `improperUpdate`, before the rest of the code. -/
def improperUpdate (sender : Address Byte) (u : SignedUpdate Byte)
    (next : Bool → ContractCode Byte κ ε) : ContractCode Byte κ ε :=
  .load fun storage =>
  orRevert abi (Home.notFailed storage.home) fun _ =>
  orRevert abi (_isUpdaterSignature K storage.home.localDomain storage.home.updater u.oldRoot
    u.newRoot u.signature) fun signed =>
  orRevert abi (require signed "!updater sig") fun _ =>
  orRevert abi (require (u.oldRoot = storage.home.committedRoot) "not a current update") fun _ =>
  if storage.home.queue.contains u.newRoot then next false
  else _fail abi sender <| .emit (.home (.ImproperUpdate u)) <| next true

/-- `update`. -/
def update (sender : Address Byte) (u : SignedUpdate Byte) : ContractCode Byte κ ε :=
  .load fun storage =>
  orRevert abi (Home.notFailed storage.home) fun _ =>
  improperUpdate K abi sender u fun improper =>
  if improper then .finish true []
  else
    .load fun storage =>
    orRevert abi (Home.dequeueUntil u.newRoot storage.home.queue) fun queue =>
    .store { storage with
      home := { storage.home with queue := queue, committedRoot := u.newRoot } } <|
    .emit (.home (.Update storage.home.localDomain u)) <|
    .finish true []

/-- `doubleUpdate`. -/
def doubleUpdate (sender : Address Byte) (_oldRoot _newRoot₀ _newRoot₁ : Bytes32 Byte)
    (_signature _signature₂ : List Byte) : ContractCode Byte κ ε :=
  .load fun storage =>
  orRevert abi (Home.notFailed storage.home) fun _ =>
  orRevert abi (isDoubleUpdate K storage.home.localDomain storage.home.updater _oldRoot _newRoot₀
    _newRoot₁ _signature _signature₂) fun conflict =>
  if conflict then
    _fail abi sender <|
    .emit (.home (.DoubleUpdate _oldRoot _newRoot₀ _newRoot₁ _signature _signature₂)) <|
    .finish true []
  else .finish true []

/-- `_owner` is replaced. -/
def setOwner (newOwner : Address Byte) (storage : Storage Byte κ) : ContractCode Byte κ ε :=
  .emit (.OwnershipTransferred storage.home.owner newOwner) <|
  .store { storage with home := { storage.home with owner := newOwner } } <|
  .finish true []

/-- `transferOwnership` of `Ownable`. -/
def transferOwnership (sender newOwner : Address Byte) : ContractCode Byte κ ε :=
  .load fun storage =>
  orRevert abi (require (sender = storage.home.owner) "Ownable: caller is not the owner") fun _ =>
  orRevert abi (require (newOwner ≠ 0) "Ownable: new owner is the zero address") fun _ =>
  setOwner newOwner storage

/-- `renounceOwnership` of `Ownable`. -/
def renounceOwnership (sender : Address Byte) : ContractCode Byte κ ε :=
  .load fun storage =>
  orRevert abi (require (sender = storage.home.owner) "Ownable: caller is not the owner") fun _ =>
  setOwner 0 storage

/-- The code of each function. -/
def Request.code (self sender : Address Byte) : Request Byte → ContractCode Byte κ ε
  | .init _updaterManager => HomeMachine.init abi self sender _updaterManager
  | .dispatch _destinationDomain _recipientAddress _messageBody =>
    HomeMachine.dispatch K abi sender _destinationDomain _recipientAddress _messageBody
  | .update u => HomeMachine.update K abi sender u
  | .improperUpdate u => HomeMachine.improperUpdate K abi sender u fun improper =>
    .finish true (abi.encodeBool improper)
  | .doubleUpdate _oldRoot _newRoot₀ _newRoot₁ _signature _signature₂ =>
    HomeMachine.doubleUpdate K abi sender _oldRoot _newRoot₀ _newRoot₁ _signature _signature₂
  | .setUpdater _updater => HomeMachine.setUpdater abi sender _updater
  | .setUpdaterManager _updaterManager => HomeMachine.setUpdaterManager abi sender _updaterManager
  | .transferOwnership newOwner => HomeMachine.transferOwnership abi sender newOwner
  | .renounceOwnership => HomeMachine.renounceOwnership abi sender
  | .view answer => .load fun storage => .finish true (answer storage.home)

/-- An external call of Home. -/
def external : ContractProgram Byte κ ε := fun self sender data =>
  match abi.decode data with
  | some request => request.code K abi self sender
  | none => .finish false []

/-! ### Home in a world -/

/-- The programs of the other accounts, and the state of all accounts. -/
structure World (Byte κ ε : Type) where
  others : Address Byte → Option (ContractProgram Byte κ ε)
  chain : State (Address Byte) Byte (Storage Byte κ) (Event Byte ε)

/-- What happens in a world: a transaction is sent, or something changes outside of Home. -/
inductive Action (Byte : Type)
  | transact (origin target : Address Byte) (data : List Byte)
  | elsewhere

variable (h : Address Byte)

/-- Home at its address, and the other accounts. -/
def World.table (others : Address Byte → Option (ContractProgram Byte κ ε)) :
    Table (Address Byte) Byte (Storage Byte κ) (Event Byte ε) :=
  fun _ a => if a = h then some (external K abi) else others a

namespace World

/-- One action. Between transactions the other accounts may change in any way. -/
inductive Step (w : World Byte κ ε) : Action Byte → World Byte κ ε → Prop
  | transact {origin target : Address Byte} {data : List Byte} {depth : ℕ}
      {r : Result (Address Byte) Byte (Storage Byte κ) (Event Byte ε)} (horigin : origin ≠ h)
      (hrun : Optics.Math.Calls.transact (table K abi h w.others) depth origin target data
        w.chain = some r) :
      Step w (.transact origin target data) { w with chain := r.after w.chain }
  | elsewhere {w' : World Byte κ ε} {entries : List (LogEntry Byte ε)}
      (hstorage : w'.chain.storage h = w.chain.storage h)
      (hlog : w'.chain.log = w.chain.log ++ entries)
      (hforeign : ∀ entry ∈ entries, Entry.Foreign h entry) :
      Step w .elsewhere w'

/-- Home is just deployed: the constructor of its account ran `initialize` on fresh storage. -/
def Deployed (w : World Byte κ ε) : Prop :=
  ∃ (localDomain : UInt32) (rest : κ) (deployer _updaterManager : Address Byte) (depth : ℕ)
    (before : State (Address Byte) Byte (Storage Byte κ) (Event Byte ε)) (returned : List Byte),
    before.storage h = ⟨Home.fresh localDomain, false, false, rest⟩ ∧
      (∀ entry ∈ before.log, Entry.Foreign h entry) ∧
      run (fun _ => w.others) depth ⟨h, deployer, false⟩
        (HomeMachine.init abi h deployer _updaterManager) before = some (.ok (returned, w.chain))

/-- The runs of worlds with a Home. -/
def system : System (World Byte κ ε) (Action Byte) where
  init := Deployed abi h
  step := Step K abi h

end World

end Optics.HomeMachine
