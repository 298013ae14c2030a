/-
# The chains that are deployed to

On every chain one account sends all transactions of the deployment. A contract it
creates gets an address that depends on the account and on the number of
transactions it has sent. A transaction that reverts changes nothing, but counts.

A proxy is deployed in three transactions: the implementation, an UpgradeBeacon that
answers it, and the proxy, whose constructor runs the `initialize` of the
implementation on the storage of the proxy. Nobody upgrades a beacon while the
contracts are deployed, so a call of a proxy is a call of its implementation.
-/

import Optics.Core.HomeHistory
import Optics.Core.Replica
import Optics.Core.UpdaterManager
import Optics.Core.XAppConnectionManager
import Optics.Governance.GovernanceRouter

namespace Optics.Deployment

open Optics.Solidity Optics.Common

variable {Byte : Type}

/-- The code of an implementation, with its immutables. -/
inductive Implementation
  | Home (localDomain : UInt32)
  | Governance (localDomain : UInt32) (recoveryTimelock : ℕ)
  | Replica (localDomain : UInt32) (processGas reserveGas : ℕ)

/-- The call data of the `initialize` of an implementation. -/
inductive InitData (Byte : Type)
  | Home (updaterManager : Address Byte)
  | Governance (xAppConnectionManager recoveryManager : Address Byte)
  | Replica (remoteDomain : UInt32) (updater : Address Byte) (committedRoot : Bytes32 Byte)
      (optimisticSeconds : ℕ)

/-- What is at an address: a contract with its storage. The proxies have the storage of
their implementations. -/
inductive Account (Byte : Type)
  | UpgradeBeaconController (owner : Address Byte)
  | UpgradeBeacon (implementation controller : Address Byte)
  | implementation (code : Implementation)
  | UpdaterManager (manager : Optics.UpdaterManager Byte)
  | XAppConnectionManager (manager : Optics.XAppConnectionManager Byte)
  | home (beacon : Address Byte) (history : Home.History Byte)
  | governance (beacon : Address Byte) (router : GovernanceRouter Byte)
  | replica (beacon : Address Byte) (replica : Replica Byte)

namespace Account

/-- The kinds of contracts. -/
inductive Kind
  | UpgradeBeaconController
  | UpgradeBeacon
  | implementation
  | UpdaterManager
  | XAppConnectionManager
  | home
  | governance
  | replica
  deriving DecidableEq

/-- The kind of an account. -/
def kind : Account Byte → Kind
  | .UpgradeBeaconController _ => .UpgradeBeaconController
  | .UpgradeBeacon _ _ => .UpgradeBeacon
  | .implementation _ => .implementation
  | .UpdaterManager _ => .UpdaterManager
  | .XAppConnectionManager _ => .XAppConnectionManager
  | .home _ _ => .home
  | .governance _ _ => .governance
  | .replica _ _ => .replica

/-- `owner` of an ownable contract. -/
def owner : Account Byte → Option (Address Byte)
  | .UpgradeBeaconController owner => some owner
  | .UpdaterManager manager => some manager.owner
  | .XAppConnectionManager manager => some manager.owner
  | .home _ history => some history.home.owner
  | _ => none

/-- An ownable contract with another owner. -/
def withOwner (newOwner : Address Byte) : Account Byte → Account Byte
  | .UpgradeBeaconController _ => .UpgradeBeaconController newOwner
  | .UpdaterManager manager => .UpdaterManager { manager with owner := newOwner }
  | .XAppConnectionManager manager => .XAppConnectionManager { manager with owner := newOwner }
  | .home beacon history =>
    .home beacon { history with home := { history.home with owner := newOwner } }
  | account => account

@[simp] theorem kind_withOwner (newOwner : Address Byte) (account : Account Byte) :
    (account.withOwner newOwner).kind = account.kind := by
  cases account <;> rfl

end Account

/-- A chain: its accounts, the account that deploys, the number of transactions that it
has sent, and the times at which these are mined. -/
structure Chain (Byte : Type) where
  accounts : Address Byte → Option (Account Byte)
  deployer : Address Byte
  nonce : ℕ
  timeOf : ℕ → ℕ

/-- A constructor: what it leaves at the address of the new contract. -/
abbrev Constructor (Byte : Type) := Address Byte → Chain Byte → Except Revert (Account Byte)

namespace Chain

/-- `Address.isContract`. -/
def isContract (chain : Chain Byte) (a : Address Byte) : Bool := (chain.accounts a).isSome

/-- `block.timestamp`. -/
def timestamp (chain : Chain Byte) : ℕ := chain.timeOf chain.nonce

/-- What `updater()` answers at an address. -/
def updaterAt (chain : Chain Byte) (a : Address Byte) : Except Revert (Address Byte) :=
  match chain.accounts a with
  | some (.UpdaterManager manager) => .ok manager.updater
  | some (.home _ history) => .ok history.home.updater
  | some (.replica _ replica) => .ok replica.updater
  | _ => .error (.external "updater")

variable [DecidableEq Byte]

/-- An address has new contents. -/
def setAccount (a : Address Byte) (account : Account Byte) (chain : Chain Byte) : Chain Byte :=
  { chain with accounts := Function.update chain.accounts a (some account) }

section Set

variable (a : Address Byte) (account : Account Byte) (chain : Chain Byte)

@[simp] theorem setAccount_self : (chain.setAccount a account).accounts a = some account :=
  Function.update_self _ _ _

@[simp] theorem setAccount_deployer : (chain.setAccount a account).deployer = chain.deployer := rfl

@[simp] theorem setAccount_nonce : (chain.setAccount a account).nonce = chain.nonce := rfl

variable {a chain}

theorem setAccount_of_ne {b : Address Byte} (h : b ≠ a) :
    (chain.setAccount a account).accounts b = chain.accounts b :=
  Function.update_of_ne h _ _

end Set

/-! ### What the contracts read -/

variable [ByteAlphabet Byte] (K : Crypto Byte)

/-- What a call of Home reads. Nobody asks the updater manager to slash here. -/
def homeContext (sender : Address Byte) (chain : Chain Byte) : Home.Context Byte where
  sender := sender
  isContract := chain.isContract
  slashUpdater := .reverts

/-- What a call of the connection manager reads. -/
def managerContext (chain : Chain Byte) : XAppConnectionManager.Context Byte where
  sender := chain.deployer
  updater a := (chain.updaterAt a).toOption
  homeDomainHash a :=
    match chain.accounts a with
    | some (.home _ history) => some (Home.homeDomainHash K history.home)
    | some (.replica _ replica) => some (Replica.homeDomainHash K replica)
    | _ => none

/-- The `home` of the connection manager at an address: the address of the proxy, its
beacon and its storage. -/
def homeOf (chain : Chain Byte) (manager : Address Byte) :
    Option (Address Byte × Address Byte × Home.History Byte) :=
  match chain.accounts manager with
  | some (.XAppConnectionManager m) =>
    match chain.accounts m.home with
    | some (.home beacon history) => some (m.home, beacon, history)
    | _ => none
  | _ => none

/-- What a call of the GovernanceRouter by the deployer reads. The messages are handed
to Home after the call. -/
def routerContext (chain : Chain Byte) : GovernanceRouter.Context Byte where
  sender := chain.deployer
  timestamp := chain.timestamp
  isReplica a :=
    match chain.accounts a with
    | some (.XAppConnectionManager manager) => manager.isReplica chain.deployer
    | _ => false
  homeAccepts manager _ := (chain.homeOf manager).isSome
  managerDomain manager :=
    match chain.homeOf manager with
    | some (_, _, history) => history.home.localDomain
    | none => 0
  call _ _ := none

/-! ### Transactions -/

/-- A transaction of the deployer. -/
abbrev Transaction (Byte : Type) := Chain Byte → Except Revert (Chain Byte)

omit [DecidableEq Byte] [ByteAlphabet Byte] in
/-- A transaction is mined. -/
def transact (tx : Transaction Byte) (chain : Chain Byte) : Except Revert Unit × Chain Byte :=
  match tx chain with
  | .ok chain' => (.ok (), { chain' with nonce := chain.nonce + 1 })
  -- A transaction that reverts is counted as well.
  | .error e => (.error e, { chain with nonce := chain.nonce + 1 })

/-- `factory.deploy`: the address of the contract is known before the transaction is
mined. -/
def deploy (create : Address Byte → ℕ → Address Byte) (construct : Constructor Byte)
    (chain : Chain Byte) : Address Byte × Except Revert Unit × Chain Byte :=
  let a := create chain.deployer chain.nonce
  (a, chain.transact fun chain => do
    require (chain.isContract a = false) "contract address collision"
    let account ← construct a chain
    .ok (chain.setAccount a account))

end Chain

/-! ### Constructors -/

variable [DecidableEq Byte] [ByteAlphabet Byte]

omit [DecidableEq Byte] [ByteAlphabet Byte] in
/-- `constructor` of UpgradeBeaconController. -/
def UpgradeBeaconController.construct : Constructor Byte := fun _ chain =>
  .ok (.UpgradeBeaconController chain.deployer)

omit [DecidableEq Byte] [ByteAlphabet Byte] in
/-- `constructor` of UpdaterManager. -/
def UpdaterManager.construct (_updaterAddress : Address Byte) : Constructor Byte := fun _ chain =>
  .ok (.UpdaterManager ⟨chain.deployer, 0, _updaterAddress⟩)

/-- `constructor` of XAppConnectionManager. -/
def XAppConnectionManager.construct : Constructor Byte := fun _ chain =>
  .ok (.XAppConnectionManager (XAppConnectionManager.deploy chain.deployer))

/-- The constructors of the implementations. Only that of Replica checks its
arguments. -/
def Implementation.construct (code : Implementation) : Constructor Byte := fun _ _ =>
  match code with
  | .Replica localDomain processGas reserveGas => do
    let _ ← (Replica.deploy localDomain processGas reserveGas : Except Revert (Optics.Replica Byte))
    .ok (.implementation code)
  | _ => .ok (.implementation code)

/-- `constructor` of UpgradeBeacon. -/
def UpgradeBeacon.construct (_initialImplementation _controller : Address Byte) :
    Constructor Byte := fun _ chain => do
  require (_initialImplementation ≠ 0) "!upgrade"
  require (chain.isContract _initialImplementation) "implementation !contract"
  .ok (.UpgradeBeacon _initialImplementation _controller)

/-- `_getImplementation`: a beacon answers everybody but its controller. -/
def UpgradeBeaconProxy._getImplementation (_upgradeBeacon sender : Address Byte)
    (chain : Chain Byte) : Except Revert (Address Byte) :=
  match chain.accounts _upgradeBeacon with
  | some (.UpgradeBeacon implementation controller) =>
    if sender = controller then .error (.external "UpgradeBeacon") else .ok implementation
  | _ => .error (.external "UpgradeBeacon")

/-- `_initialize`: the `initialize` of the implementation, sent by the deployer. -/
def UpgradeBeaconProxy._initialize (_upgradeBeacon _implementation : Address Byte)
    (_initializationCalldata : InitData Byte) (chain : Chain Byte) :
    Except Revert (Account Byte) :=
  match chain.accounts _implementation, _initializationCalldata with
  | some (.implementation (.Home localDomain)), .Home updaterManager => do
    let updater ← chain.updaterAt updaterManager
    let (home, events) ← Home.init (chain.homeContext chain.deployer) updaterManager updater
      (Home.fresh localDomain)
    .ok (.home _upgradeBeacon ⟨home, events, []⟩)
  | some (.implementation (.Governance localDomain timelock)),
      .Governance manager recoveryManager => do
    require ((chain.homeOf manager).isSome) "localDomain"
    let (router, _) ← GovernanceRouter.init chain.routerContext manager recoveryManager
      (GovernanceRouter.deploy localDomain timelock)
    .ok (.governance _upgradeBeacon router)
  | some (.implementation (.Replica localDomain processGas reserveGas)),
      .Replica remoteDomain updater committedRoot optimisticSeconds => do
    let replica ← Replica.deploy localDomain processGas reserveGas
    .ok (.replica _upgradeBeacon
      (replica.init remoteDomain updater committedRoot optimisticSeconds))
  | _, _ => .error (.external "initialize")

/-- `constructor` of UpgradeBeaconProxy. -/
def UpgradeBeaconProxy.construct (_upgradeBeacon : Address Byte)
    (_initializationCalldata : InitData Byte) : Constructor Byte := fun proxy chain => do
  require (chain.isContract _upgradeBeacon) "beacon !contract"
  let _implementation ← UpgradeBeaconProxy._getImplementation _upgradeBeacon proxy chain
  require (chain.isContract _implementation) "beacon implementation !contract"
  UpgradeBeaconProxy._initialize _upgradeBeacon _implementation _initializationCalldata chain

/-! ### Calls -/

namespace Chain

variable (K : Crypto Byte)


/-- `transferOwnership` of an ownable contract. -/
def transferOwnership (a newOwner : Address Byte) : Transaction Byte := fun chain =>
  match chain.accounts a with
  | some account =>
    match account.owner with
    | some owner => do
      require (chain.deployer = owner) "Ownable: caller is not the owner"
      require (newOwner ≠ 0) "Ownable: new owner is the zero address"
      .ok (chain.setAccount a (account.withOwner newOwner))
    | none => .error (.external "transferOwnership")
  | none => .error (.external "transferOwnership")

/-- `setHome` of the updater manager at an address. -/
def setHome (a home : Address Byte) : Transaction Byte := fun chain =>
  match chain.accounts a with
  | some (.UpdaterManager manager) => do
    let (manager, _) ← manager.setHome chain.deployer chain.isContract home
    .ok (chain.setAccount a (.UpdaterManager manager))
  | _ => .error (.external "setHome")

/-- A call of the connection manager at an address. -/
def callManager (a : Address Byte) (call : XAppConnectionManager.Call Byte) : Transaction Byte :=
  fun chain =>
  match chain.accounts a with
  | some (.XAppConnectionManager manager) => do
    let (manager, _) ← XAppConnectionManager.exec K (chain.managerContext K, call) manager
    .ok (chain.setAccount a (.XAppConnectionManager manager))
  | _ => .error (.external "XAppConnectionManager")

/-- Messages of a sender, in order, to the Home of a connection manager. -/
def dispatchAll (sender manager : Address Byte) :
    List (GovernanceRouter.Dispatch Byte) → Transaction Byte
  | [], chain => .ok chain
  | m :: rest, chain =>
    match chain.homeOf manager with
    | some (home, beacon, history) => do
      let history ← Home.History.exec K
        (chain.homeContext sender, .dispatch m.destination m.recipient m.body) history
      dispatchAll sender manager rest (chain.setAccount home (.home beacon history))
    | none => .error (.external "home")

/-- A call of the GovernanceRouter at an address. -/
def callRouter (a : Address Byte) (call : GovernanceRouter.Call Byte) : Transaction Byte :=
  fun chain =>
  match chain.accounts a with
  | some (.governance beacon router) => do
    let (router, sent) ← GovernanceRouter.exec chain.routerContext call router
    (chain.setAccount a (.governance beacon router)).dispatchAll K a router.xAppConnectionManager
      sent
  | _ => .error (.external "GovernanceRouter")

end Chain

end Optics.Deployment
