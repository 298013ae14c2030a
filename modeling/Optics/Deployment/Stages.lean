/-
# The stages of a deployment

What the script has set up on a chain so far is a stage: which Replicas are deployed
and which of them are registered, who may watch what, which routers are known, who
governs and who owns the contracts, and what the GovernanceRouter has sent. Every
function of the script takes a chain from one stage to another, so the whole script is
understood from the stages.
-/

import Optics.Core.HomeInvariant
import Optics.Deployment.Script
import Optics.Governance.Network
import Optics.Math.Loops

namespace Optics.Deployment

open Optics.Solidity Optics.Math.Transition Optics.Governance
open Optics.GovernanceRouter (Dispatch)
open Optics.GovernanceMessage (Action)

variable {Byte : Type}

/-! ### Transactions -/

namespace Chain

variable {chain chain' : Chain Byte} {tx : Transaction Byte}

/-- The chain after a transaction has been counted. -/
def next (chain : Chain Byte) : Chain Byte := { chain with nonce := chain.nonce + 1 }

@[simp] theorem next_accounts : chain.next.accounts = chain.accounts := rfl

@[simp] theorem next_deployer : chain.next.deployer = chain.deployer := rfl

@[simp] theorem next_nonce : chain.next.nonce = chain.nonce + 1 := rfl

theorem transact_of_ok (h : tx chain = .ok chain') (hnonce : chain'.nonce = chain.nonce) :
    chain.transact tx = (.ok (), chain'.next) := by
  rw [transact, h, next, hnonce]

theorem transact_of_error {e : Revert} (h : tx chain = .error e) :
    chain.transact tx = (.error e, chain.next) := by
  rw [transact, h, next]

variable [DecidableEq Byte] {a b : Address Byte} {x y z : Account Byte}

/-- Replacing an account leaves the accounts of other kinds. -/
theorem accounts_setAccount_of_kind (ha : chain.accounts a = some x)
    (hb : chain.accounts b = some z) (hkind : z.kind ≠ x.kind) :
    (chain.setAccount a y).accounts b = some z := by
  have hne : b ≠ a := by
    rintro rfl
    rw [ha] at hb
    exact hkind (congrArg Account.kind (Option.some.inj hb)).symm
  rw [setAccount_of_ne y hne, hb]

/-- A new account leaves the others. -/
theorem accounts_setAccount_of_none (ha : chain.accounts a = none)
    (hb : chain.accounts b = some z) : (chain.setAccount a y).accounts b = some z := by
  have hne : b ≠ a := by
    rintro rfl
    rw [ha] at hb
    cases hb
  rw [setAccount_of_ne y hne, hb]

variable {create : Address Byte → ℕ → Address Byte}

/-- No contract is at an address that the deployer has still to use. -/
def Fresh (create : Address Byte → ℕ → Address Byte) (chain : Chain Byte) : Prop :=
  ∀ n, chain.nonce ≤ n → chain.accounts (create chain.deployer n) = none

omit [DecidableEq Byte] in
theorem Fresh.next (h : chain.Fresh create) : chain.next.Fresh create :=
  fun n hn => h n (Nat.le_of_succ_le hn)

theorem Fresh.setAccount (h : chain.Fresh create) (ha : chain.accounts a = some x) :
    (chain.setAccount a y).Fresh create := by
  intro n hn
  have hnone := h n hn
  have hne : create chain.deployer n ≠ a := by
    intro heq
    rw [heq, ha] at hnone
    cases hnone
  exact (setAccount_of_ne y hne).trans hnone

/-- The next address is used up. -/
theorem Fresh.created (h : chain.Fresh create) (hinjective : (create chain.deployer).Injective) :
    (chain.setAccount (create chain.deployer chain.nonce) y).next.Fresh create := by
  intro n hn
  have hne : create chain.deployer n ≠ create chain.deployer chain.nonce := by
    intro heq
    have hlt : chain.nonce < n := hn
    exact hlt.ne' (hinjective heq)
  exact (setAccount_of_ne y hne).trans (h n (Nat.le_of_succ_le hn))

/-- A constructor that succeeds at a fresh address. -/
theorem deploy_of_ok {construct : Constructor Byte} (h : chain.Fresh create)
    (hconstruct : construct (create chain.deployer chain.nonce) chain = .ok y) :
    chain.deploy create construct = (create chain.deployer chain.nonce, .ok (),
      (chain.setAccount (create chain.deployer chain.nonce) y).next) := by
  -- Nothing is at the new address yet.
  have hfree : chain.isContract (create chain.deployer chain.nonce) = false := by
    rw [isContract, h _ le_rfl]
    rfl
  have hcreated : (do
      require (chain.isContract (create chain.deployer chain.nonce) = false)
        "contract address collision"
      let account ← construct (create chain.deployer chain.nonce) chain
      .ok (chain.setAccount (create chain.deployer chain.nonce) account)) =
      Except.ok (chain.setAccount (create chain.deployer chain.nonce) y) := by
    rw [require_of hfree, ok_bind, hconstruct]
    rfl
  exact congrArg (Prod.mk _) (transact_of_ok hcreated rfl)

/-- A constructor that reverts. -/
theorem deploy_of_error {construct : Constructor Byte} {e : Revert} (h : chain.Fresh create)
    (hconstruct : construct (create chain.deployer chain.nonce) chain = .error e) :
    chain.deploy create construct =
      (create chain.deployer chain.nonce, .error e, chain.next) := by
  have hfree : chain.isContract (create chain.deployer chain.nonce) = false := by
    rw [isContract, h _ le_rfl]
    rfl
  rw [deploy, transact_of_error (e := e)]
  rw [require_of hfree, ok_bind, hconstruct]
  rfl

end Chain

/-! ### Stages -/

/-- The addresses of the contracts that a chain has besides its Replicas. -/
structure Layout (Byte : Type) where
  deployer : Address Byte
  upgradeBeaconController : Address Byte
  updaterManager : Address Byte
  xAppConnectionManager : Address Byte
  home : BeaconProxy Byte
  governance : BeaconProxy Byte

/-- The owners of the contracts. -/
structure Owners (Byte : Type) where
  upgradeBeaconController : Address Byte
  updaterManager : Address Byte
  xAppConnectionManager : Address Byte
  home : Address Byte

/-- How far the deployment of a chain is: the remotes whose Replicas are deployed, with the
addresses of these; those whose Replicas are registered; the watchers that may watch a
domain; the remotes whose routers are known; the owners of the contracts; the governor,
and its domain; and the messages that the GovernanceRouter has sent. -/
structure Stage (Byte : Type) where
  replicas : List (CoreDeploy Byte)
  proxies : UInt32 → BeaconProxy Byte
  registered : List (CoreDeploy Byte)
  permissions : List (Address Byte × UInt32)
  routed : List (CoreDeploy Byte)
  owners : Owners Byte
  governor : Address Byte
  governorDomain : UInt32
  sent : List (Dispatch Byte)

variable [ByteAlphabet Byte]

/-- A GovernanceRouter that knows the routers of some remotes. -/
def routerAt (L : Layout Byte) (address : UInt32 → Address Byte) (deploy : CoreDeploy Byte)
    (routed : List (CoreDeploy Byte)) (governor : Address Byte) (governorDomain : UInt32) :
    GovernanceRouter Byte where
  localDomain := deploy.domain
  recoveryTimelock := deploy.config.recoveryTimelock
  initialized := true
  recoveryActiveAt := 0
  recoveryManager := deploy.config.recoveryManager
  governor := governor
  governorDomain := governorDomain
  xAppConnectionManager := L.xAppConnectionManager
  routers e := if e ∈ routed.map CoreDeploy.domain then trueRouter address e else 0
  domains := routed.map CoreDeploy.domain

/-- The verification input for the contracts that a chain has besides its Replicas. -/
def coreVerification (L : Layout Byte) : List (ContractVerificationInput Byte) :=
  [⟨.UpgradeBeaconController, L.upgradeBeaconController⟩, ⟨.UpdaterManager, L.updaterManager⟩,
    ⟨.XAppConnectionManager, L.xAppConnectionManager⟩,
    ⟨.Implementation .Home, L.home.implementation⟩, ⟨.UpgradeBeacon .Home, L.home.beacon⟩,
    ⟨.Proxy .Home, L.home.proxy⟩,
    ⟨.Implementation .Governance, L.governance.implementation⟩,
    ⟨.UpgradeBeacon .Governance, L.governance.beacon⟩, ⟨.Proxy .Governance, L.governance.proxy⟩]

/-- The verification input for the Replicas. -/
def replicaVerification (proxies : UInt32 → BeaconProxy Byte) :
    List (CoreDeploy Byte) → List (ContractVerificationInput Byte)
  | [] => []
  | first :: rest =>
    ⟨.Implementation .Replica, (proxies first.domain).implementation⟩ ::
      ⟨.UpgradeBeacon .Replica, (proxies first.domain).beacon⟩ ::
      (first :: rest).map fun r => ⟨.Proxy .Replica, (proxies r.domain).proxy⟩

/-- The verification input of a chain with some Replicas. -/
def verificationAt (L : Layout Byte) (replicas : List (CoreDeploy Byte))
    (proxies : UInt32 → BeaconProxy Byte) : List (ContractVerificationInput Byte) :=
  coreVerification L ++ replicaVerification proxies replicas

variable [DecidableEq Byte] (K : Crypto Byte) (create : Address Byte → ℕ → Address Byte)
  (L : Layout Byte) (address : UInt32 → Address Byte) (deploy : CoreDeploy Byte)

/-- The storage of Home with another owner. -/
def ownedBy (owner : Address Byte) (history : Home.History Byte) : Home.History Byte :=
  { history with home := { history.home with owner := owner } }

/-- A Home that has dispatched messages of the GovernanceRouter and nothing else. -/
structure HomeAt (owner : Address Byte) (sent : List (Dispatch Byte))
    (history : Home.History Byte) : Prop where
  reachable : (Home.system K).Reachable (ownedBy L.deployer history)
  owner : history.home.owner = owner
  localDomain : history.home.localDomain = deploy.domain
  updater : history.home.updater = deploy.config.updater
  updaterManager : history.home.updaterManager = L.updaterManager
  state : history.home.state = .Active
  sender : ∀ m ∈ history.dispatched, m.sender = L.governance.proxy
  sent : history.dispatched.map (fun m => ⟨m.destination, m.recipient, m.body⟩) = sent
  inStep : Home.InStep K history.home (history.leaves K) 0

/-- A connection manager with registered Replicas and permissions. -/
structure ManagerAt (owner : Address Byte) (proxies : UInt32 → BeaconProxy Byte)
    (registered : List (CoreDeploy Byte)) (permissions : List (Address Byte × UInt32))
    (manager : XAppConnectionManager Byte) : Prop where
  owner : manager.owner = owner
  home : manager.home = L.home.proxy
  registry : manager.Registered
  enrolled : ∀ r ∈ registered, manager.domainToReplica r.domain = (proxies r.domain).proxy
  others : ∀ e ∉ registered.map CoreDeploy.domain, manager.domainToReplica e = 0
  permissions : ∀ watcher e,
    manager.watcherPermissions watcher e = true ↔ (watcher, e) ∈ permissions

/-- The Replica for a remote at its address, with its beacon and its implementation. -/
structure ReplicaAt (chain : Chain Byte) (p : BeaconProxy Byte) (remote : CoreDeploy Byte) :
    Prop where
  proxy : ∃ fresh, Replica.deploy deploy.domain deploy.config.processGas
      deploy.config.reserveGas = .ok fresh ∧
    chain.accounts p.proxy = some (.replica p.beacon
      (fresh.init remote.domain remote.config.updater 0 remote.config.optimisticSeconds))
  beacon : chain.accounts p.beacon =
    some (.UpgradeBeacon p.implementation L.upgradeBeaconController)
  implementation : chain.accounts p.implementation = some (.implementation
    (.Replica deploy.domain deploy.config.processGas deploy.config.reserveGas))
  nonzero : p.proxy ≠ 0

/-- The contracts that are not called after they are deployed. -/
structure Standing (replicas : List (CoreDeploy Byte)) (proxies : UInt32 → BeaconProxy Byte)
    (chain : Chain Byte) : Prop where
  homeBeacon : chain.accounts L.home.beacon =
    some (.UpgradeBeacon L.home.implementation L.upgradeBeaconController)
  homeImplementation : chain.accounts L.home.implementation =
    some (.implementation (.Home deploy.domain))
  governanceBeacon : chain.accounts L.governance.beacon =
    some (.UpgradeBeacon L.governance.implementation L.upgradeBeaconController)
  governanceImplementation : chain.accounts L.governance.implementation =
    some (.implementation (.Governance deploy.domain deploy.config.recoveryTimelock))
  replica : ∀ r ∈ replicas, ReplicaAt L deploy chain (proxies r.domain) r

/-- What the script keeps about a chain. -/
structure Kept (replicas : List (CoreDeploy Byte)) (proxies : UInt32 → BeaconProxy Byte)
    (site : Site Byte) : Prop where
  contracts : site.contracts = ⟨some L.upgradeBeaconController, some L.xAppConnectionManager,
    some L.updaterManager, some L.governance, some L.home, site.contracts.replicas⟩
  lookup : ∀ r ∈ replicas, site.contracts.replicas.lookup r.domain = some (proxies r.domain)
  keys : ∀ q ∈ site.contracts.replicas, q.1 ∈ replicas.map CoreDeploy.domain ∧ q.2 = proxies q.1
  verification : site.verificationInput = verificationAt L replicas proxies

section Kept

omit [ByteAlphabet Byte] [DecidableEq Byte]

variable {L} {replicas : List (CoreDeploy Byte)} {proxies : UInt32 → BeaconProxy Byte}
  {site : Site Byte} (h : Kept L replicas proxies site)

include h

theorem Kept.upgradeBeaconController :
    site.contracts.upgradeBeaconController = some L.upgradeBeaconController := by
  rw [h.contracts]

theorem Kept.xAppConnectionManager :
    site.contracts.xAppConnectionManager = some L.xAppConnectionManager := by rw [h.contracts]

theorem Kept.updaterManager : site.contracts.updaterManager = some L.updaterManager := by
  rw [h.contracts]

theorem Kept.governance : site.contracts.governance = some L.governance := by rw [h.contracts]

theorem Kept.home : site.contracts.home = some L.home := by rw [h.contracts]

end Kept

/-- The Replicas have addresses of their own, and share beacon and implementation. -/
structure Stage.Ordered (stage : Stage Byte) : Prop where
  distinct : ∀ r ∈ stage.replicas, ∀ r' ∈ stage.replicas,
    (stage.proxies r.domain).proxy = (stage.proxies r'.domain).proxy → r.domain = r'.domain
  shared : ∀ r ∈ stage.replicas, ∀ r' ∈ stage.replicas,
    (stage.proxies r.domain).beacon = (stage.proxies r'.domain).beacon ∧
      (stage.proxies r.domain).implementation = (stage.proxies r'.domain).implementation
  registered : ∀ r ∈ stage.registered, r ∈ stage.replicas

/-- A chain at a stage of its deployment. -/
structure ChainAt (stage : Stage Byte) (chain : Chain Byte) : Prop where
  deployer : chain.deployer = L.deployer
  fresh : chain.Fresh create
  controller : chain.accounts L.upgradeBeaconController =
    some (.UpgradeBeaconController stage.owners.upgradeBeaconController)
  updaterManager : chain.accounts L.updaterManager =
    some (.UpdaterManager
      ⟨stage.owners.updaterManager, L.home.proxy, deploy.config.updater⟩)
  home : ∃ history, chain.accounts L.home.proxy = some (.home L.home.beacon history) ∧
    HomeAt K L deploy stage.owners.home stage.sent history
  governance : chain.accounts L.governance.proxy = some (.governance L.governance.beacon
    (routerAt L address deploy stage.routed stage.governor stage.governorDomain))
  manager : ∃ manager, chain.accounts L.xAppConnectionManager =
      some (.XAppConnectionManager manager) ∧
    ManagerAt L stage.owners.xAppConnectionManager stage.proxies stage.registered
      stage.permissions manager
  standing : Standing L deploy stage.replicas stage.proxies chain

/-- A chain at a stage, and what the script keeps about it. -/
structure Configured (stage : Stage Byte) (site : Site Byte) : Prop where
  chain : ChainAt K create L address deploy stage site.chain
  kept : Kept L stage.replicas stage.proxies site
  ordered : stage.Ordered

/-! ### Writes -/

namespace Account.Kind

/-- The kinds of contracts that are called. -/
def Called : Account.Kind → Prop
  | .UpgradeBeacon | .implementation | .replica => False
  | _ => True

end Account.Kind

section Writes

variable {K create L address deploy} {stage : Stage Byte} {site : Site Byte} {chain : Chain Byte}
  {a : Address Byte} {x y : Account Byte} {replicas : List (CoreDeploy Byte)}
  {proxies : UInt32 → BeaconProxy Byte}

/-- Accounts that stay keep a Replica. -/
theorem ReplicaAt.mono {chain' : Chain Byte} {p : BeaconProxy Byte} {remote : CoreDeploy Byte}
    (h : ReplicaAt L deploy chain p remote)
    (hstay : ∀ b z, ¬ z.kind.Called → chain.accounts b = some z → chain'.accounts b = some z) :
    ReplicaAt L deploy chain' p remote where
  proxy := by
    obtain ⟨fresh, hdeploy, hproxy⟩ := h.proxy
    exact ⟨fresh, hdeploy, hstay _ _ not_false hproxy⟩
  beacon := hstay _ _ not_false h.beacon
  implementation := hstay _ _ not_false h.implementation
  nonzero := h.nonzero

theorem Standing.mono {chain' : Chain Byte} (h : Standing L deploy replicas proxies chain)
    (hstay : ∀ b z, ¬ z.kind.Called → chain.accounts b = some z → chain'.accounts b = some z) :
    Standing L deploy replicas proxies chain' where
  homeBeacon := hstay _ _ not_false h.homeBeacon
  homeImplementation := hstay _ _ not_false h.homeImplementation
  governanceBeacon := hstay _ _ not_false h.governanceBeacon
  governanceImplementation := hstay _ _ not_false h.governanceImplementation
  replica r hr := (h.replica r hr).mono hstay

/-- A call leaves the contracts that are not called. -/
theorem Standing.setAccount (h : Standing L deploy replicas proxies chain)
    (ha : chain.accounts a = some x) (hcalled : x.kind.Called) :
    Standing L deploy replicas proxies (chain.setAccount a y) :=
  h.mono fun _ _ hz hb =>
    Chain.accounts_setAccount_of_kind ha hb fun hkind => hz (hkind ▸ hcalled)

/-- A transaction that is mined. -/
theorem ChainAt.next (h : ChainAt K create L address deploy stage chain) :
    ChainAt K create L address deploy stage chain.next :=
  ⟨h.deployer, h.fresh.next, h.controller, h.updaterManager, h.home, h.governance, h.manager,
    h.standing.mono fun _ _ _ hb => hb⟩

/-- Home stays when a contract of another kind is written. -/
theorem ChainAt.home_setAccount (h : ChainAt K create L address deploy stage chain)
    (ha : chain.accounts a = some x) (hkind : .home ≠ x.kind) :
    ∃ history, (chain.setAccount a y).accounts L.home.proxy =
        some (.home L.home.beacon history) ∧
      HomeAt K L deploy stage.owners.home stage.sent history := by
  obtain ⟨history, hhome, hat⟩ := h.home
  exact ⟨history, Chain.accounts_setAccount_of_kind ha hhome hkind, hat⟩

/-- The connection manager stays when a contract of another kind is written. -/
theorem ChainAt.manager_setAccount (h : ChainAt K create L address deploy stage chain)
    (ha : chain.accounts a = some x) (hkind : .XAppConnectionManager ≠ x.kind) :
    ∃ manager, (chain.setAccount a y).accounts L.xAppConnectionManager =
        some (.XAppConnectionManager manager) ∧
      ManagerAt L stage.owners.xAppConnectionManager stage.proxies stage.registered
        stage.permissions manager := by
  obtain ⟨manager, hmanager, hat⟩ := h.manager
  exact ⟨manager, Chain.accounts_setAccount_of_kind ha hmanager hkind, hat⟩

/-- The connection manager takes a call. -/
theorem ChainAt.setManager (h : ChainAt K create L address deploy stage chain)
    {manager manager' : XAppConnectionManager Byte} {owner : Address Byte}
    {registered : List (CoreDeploy Byte)} {permissions : List (Address Byte × UInt32)}
    (ha : chain.accounts L.xAppConnectionManager = some (.XAppConnectionManager manager))
    (hmanager : ManagerAt L owner stage.proxies registered permissions manager') :
    ChainAt K create L address deploy
      { stage with
        owners := { stage.owners with xAppConnectionManager := owner }
        registered := registered
        permissions := permissions }
      (chain.setAccount L.xAppConnectionManager (.XAppConnectionManager manager')) where
  deployer := h.deployer
  fresh := h.fresh.setAccount ha
  controller := Chain.accounts_setAccount_of_kind ha h.controller nofun
  updaterManager := Chain.accounts_setAccount_of_kind ha h.updaterManager nofun
  home := h.home_setAccount ha nofun
  governance := Chain.accounts_setAccount_of_kind ha h.governance nofun
  manager := ⟨manager', Chain.setAccount_self _ _ _, hmanager⟩
  standing := h.standing.setAccount ha trivial

/-- The GovernanceRouter takes a call. -/
theorem ChainAt.setGovernance (h : ChainAt K create L address deploy stage chain)
    (routed : List (CoreDeploy Byte)) (governor : Address Byte) (governorDomain : UInt32) :
    ChainAt K create L address deploy
      { stage with routed := routed, governor := governor, governorDomain := governorDomain }
      (chain.setAccount L.governance.proxy (.governance L.governance.beacon
        (routerAt L address deploy routed governor governorDomain))) where
  deployer := h.deployer
  fresh := h.fresh.setAccount h.governance
  controller := Chain.accounts_setAccount_of_kind h.governance h.controller nofun
  updaterManager := Chain.accounts_setAccount_of_kind h.governance h.updaterManager nofun
  home := h.home_setAccount h.governance nofun
  governance := Chain.setAccount_self _ _ _
  manager := h.manager_setAccount h.governance nofun
  standing := h.standing.setAccount h.governance trivial

/-- Home takes a call. -/
theorem ChainAt.setHome (h : ChainAt K create L address deploy stage chain)
    {history history' : Home.History Byte} {owner : Address Byte} {sent : List (Dispatch Byte)}
    (ha : chain.accounts L.home.proxy = some (.home L.home.beacon history))
    (hhome : HomeAt K L deploy owner sent history') :
    ChainAt K create L address deploy
      { stage with owners := { stage.owners with home := owner }, sent := sent }
      (chain.setAccount L.home.proxy (.home L.home.beacon history')) where
  deployer := h.deployer
  fresh := h.fresh.setAccount ha
  controller := Chain.accounts_setAccount_of_kind ha h.controller nofun
  updaterManager := Chain.accounts_setAccount_of_kind ha h.updaterManager nofun
  home := ⟨history', Chain.setAccount_self _ _ _, hhome⟩
  governance := Chain.accounts_setAccount_of_kind ha h.governance nofun
  manager := h.manager_setAccount ha nofun
  standing := h.standing.setAccount ha trivial

end Writes

/-! ### The connection manager -/

/-- A transaction succeeds, and takes the chain to a stage. -/
def Reaches (tx : Chain.Transaction Byte) (chain : Chain Byte) (stage : Stage Byte) : Prop :=
  ∃ chain', tx chain = .ok chain' ∧ chain'.nonce = chain.nonce ∧
    ChainAt K create L address deploy stage chain'

section Manager

variable {K create L address deploy} {stage : Stage Byte} {site : Site Byte} {chain : Chain Byte}
  {remote : CoreDeploy Byte}

/-- A transaction that the script waits for. -/
theorem Configured.send (h : Configured K create L address deploy stage site)
    {tx : Chain.Transaction Byte} {stage' : Stage Byte}
    (htx : Reaches K create L address deploy tx site.chain stage')
    (hreplicas : stage'.replicas = stage.replicas) (hproxies : stage'.proxies = stage.proxies)
    (hordered : stage'.Ordered) :
    ∃ site', site.send tx = .ok site' ∧ Configured K create L address deploy stage' site' := by
  obtain ⟨chain', htx, hnonce, hchain⟩ := htx
  refine ⟨{ site with chain := chain'.next }, ?_, hchain.next, ?_, hordered⟩
  · rw [Site.send, Chain.transact_of_ok htx hnonce]
    rfl
  · rw [hreplicas, hproxies]
    exact ⟨h.kept.contracts, h.kept.lookup, h.kept.keys, h.kept.verification⟩

/-- The connection manager after a Replica is enrolled for a domain without one. -/
theorem ManagerAt.enroll {owner : Address Byte} {proxies : UInt32 → BeaconProxy Byte}
    {registered : List (CoreDeploy Byte)} {permissions : List (Address Byte × UInt32)}
    {manager manager' : XAppConnectionManager Byte}
    {events : List (XAppConnectionManager.Event Byte)} {ctx : XAppConnectionManager.Context Byte}
    (h : ManagerAt L owner proxies registered permissions manager)
    (hnew : ∀ r ∈ registered, (proxies r.domain).proxy ≠ (proxies remote.domain).proxy)
    (hproxy : (proxies remote.domain).proxy ≠ 0)
    (hfree : remote.domain ∉ registered.map CoreDeploy.domain)
    (hzero : 0 ∉ registered.map CoreDeploy.domain)
    (hexec : XAppConnectionManager.exec K
      (ctx, .ownerEnrollReplica (proxies remote.domain).proxy remote.domain) manager =
        .ok (manager', events)) :
    ManagerAt L owner proxies (registered ++ [remote]) permissions manager' := by
  -- The address is in the registry for no domain yet.
  have hnone : manager.replicaToDomain (proxies remote.domain).proxy = 0 := by
    by_contra hsome
    have hreplica := (h.registry.twoWay _ _ hsome hproxy).mpr rfl
    by_cases hmem : manager.replicaToDomain (proxies remote.domain).proxy ∈
        registered.map CoreDeploy.domain
    · obtain ⟨r, hr, hdomain⟩ := List.mem_map.mp hmem
      rw [← hdomain, h.enrolled r hr] at hreplica
      exact hnew r hr hreplica
    · exact hproxy (hreplica.symm.trans (h.others _ hmem))
  have hregistry : manager'.Registered :=
    h.registry.step (XAppConnectionManager.effect_of_exec hexec)
      fun _ => ⟨hproxy, .inl (h.others _ hfree)⟩
  obtain ⟨-, hexec⟩ := require_bind_eq_ok.mp hexec
  obtain ⟨rfl, -⟩ := Prod.mk.inj (Except.ok.inj hexec)
  -- Removing the address from domain zero leaves the registry as it was.
  have hbefore : ∀ e, (XAppConnectionManager._unenrollReplica (proxies remote.domain).proxy
      manager).1.domainToReplica e = manager.domainToReplica e := by
    intro e
    simp only [XAppConnectionManager._unenrollReplica, hnone, Function.update_apply]
    split_ifs with he
    · rw [he, h.others 0 hzero]
    · rfl
  refine ⟨h.owner, h.home, hregistry, ?_, ?_, h.permissions⟩
  · intro r hr
    rcases List.mem_append.mp hr with hr | hr
    · have hne : r.domain ≠ remote.domain := by
        intro heq
        exact hfree (heq ▸ List.mem_map_of_mem hr)
      exact (Function.update_of_ne hne _ _).trans ((hbefore _).trans (h.enrolled r hr))
    · obtain rfl := List.mem_singleton.mp hr
      exact Function.update_self _ _ _
  · intro e he
    rw [List.map_append, List.mem_append, not_or] at he
    have hne : e ≠ remote.domain := fun heq => he.2 (by simp [heq])
    exact (Function.update_of_ne hne _ _).trans ((hbefore e).trans (h.others e he.1))

/-- The connection manager after a watcher may watch a domain. -/
theorem ManagerAt.permit {owner : Address Byte} {proxies : UInt32 → BeaconProxy Byte}
    {registered : List (CoreDeploy Byte)} {permissions : List (Address Byte × UInt32)}
    {manager manager' : XAppConnectionManager Byte}
    {events : List (XAppConnectionManager.Event Byte)} {ctx : XAppConnectionManager.Context Byte}
    {watcher : Address Byte} {domain : UInt32}
    (h : ManagerAt L owner proxies registered permissions manager)
    (hexec : XAppConnectionManager.exec K (ctx, .setWatcherPermission watcher domain true) manager =
      .ok (manager', events)) :
    ManagerAt L owner proxies registered (permissions ++ [(watcher, domain)]) manager' := by
  obtain ⟨-, hexec⟩ := require_bind_eq_ok.mp hexec
  obtain ⟨rfl, -⟩ := Prod.mk.inj (Except.ok.inj hexec)
  refine ⟨h.owner, h.home, ⟨h.registry.twoWay, h.registry.zero⟩, h.enrolled, h.others, ?_⟩
  intro w e
  simp only [Function.update_apply, List.mem_append, List.mem_singleton, Prod.mk.injEq]
  have hbefore := h.permissions w e
  by_cases hw : w = watcher
  · subst hw
    by_cases he : e = domain
    · simp [he]
    · simp [he, hbefore]
  · simp [hw, hbefore]

/-- `ownerEnrollReplica` of a Replica that is deployed for a domain of its own. -/
theorem ChainAt.ownerEnrollReplica (h : ChainAt K create L address deploy stage chain)
    (howner : stage.owners.xAppConnectionManager = L.deployer) (hordered : stage.Ordered)
    (hremote : remote ∈ stage.replicas)
    (hfree : remote.domain ∉ stage.registered.map CoreDeploy.domain)
    (hzero : 0 ∉ stage.registered.map CoreDeploy.domain) :
    Reaches K create L address deploy (Chain.callManager K L.xAppConnectionManager
        (.ownerEnrollReplica (stage.proxies remote.domain).proxy remote.domain)) chain
      { stage with registered := stage.registered ++ [remote] } := by
  obtain ⟨manager, ha, hmanager⟩ := h.manager
  have hsender : (chain.managerContext K).sender = manager.owner :=
    h.deployer.trans (howner.symm.trans hmanager.owner.symm)
  obtain ⟨manager', events, hexec⟩ : ∃ manager' events, XAppConnectionManager.exec K
      (chain.managerContext K, .ownerEnrollReplica (stage.proxies remote.domain).proxy
        remote.domain) manager = .ok (manager', events) := by
    simp only [XAppConnectionManager.exec, XAppConnectionManager.ownerEnrollReplica,
      XAppConnectionManager.onlyOwner, require_of hsender, ok_bind]
    exact ⟨_, _, rfl⟩
  have hnew : ∀ r ∈ stage.registered,
      (stage.proxies r.domain).proxy ≠ (stage.proxies remote.domain).proxy := by
    intro r hr heq
    have hdomain := hordered.distinct r (hordered.registered r hr) remote hremote heq
    exact hfree (hdomain ▸ List.mem_map_of_mem hr)
  have hmanager' := hmanager.enroll hnew (h.standing.replica remote hremote).nonzero hfree hzero
    hexec
  refine ⟨_, ?_, ?_, h.setManager ha hmanager'⟩
  · simp only [Chain.callManager, ha, hexec, ok_bind]
  · rfl

/-- `setWatcherPermission`. -/
theorem ChainAt.setWatcherPermission (h : ChainAt K create L address deploy stage chain)
    (howner : stage.owners.xAppConnectionManager = L.deployer) (watcher : Address Byte)
    (domain : UInt32) :
    Reaches K create L address deploy (Chain.callManager K L.xAppConnectionManager
        (.setWatcherPermission watcher domain true)) chain
      { stage with permissions := stage.permissions ++ [(watcher, domain)] } := by
  obtain ⟨manager, ha, hmanager⟩ := h.manager
  have hsender : (chain.managerContext K).sender = manager.owner :=
    h.deployer.trans (howner.symm.trans hmanager.owner.symm)
  obtain ⟨manager', events, hexec⟩ : ∃ manager' events, XAppConnectionManager.exec K
      (chain.managerContext K, .setWatcherPermission watcher domain true) manager =
        .ok (manager', events) := by
    simp only [XAppConnectionManager.exec, XAppConnectionManager.setWatcherPermission,
      XAppConnectionManager.onlyOwner, require_of hsender, ok_bind]
    exact ⟨_, _, rfl⟩
  refine ⟨_, ?_, ?_, h.setManager ha (hmanager.permit hexec)⟩
  · simp only [Chain.callManager, ha, hexec, ok_bind]
  · rfl

end Manager

end Optics.Deployment
