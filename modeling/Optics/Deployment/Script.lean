/-
# The deployment script

`deployNChains` deploys the contracts of every chain one after the other, enrolls
every remote on every chain, hands the governance of all chains to the first one and
the ownership of the contracts to the GovernanceRouters, and checks the result. Nobody
else acts on the chains meanwhile. Steps that the script runs at the same time are on
different chains, so one order stands for all; only `enrollWatchers` sends several
transactions to one chain at once, and in whatever order the chain takes them, the same
permissions are given in the end.

What the script waits for ends it with an error when it reverts; a transaction that it
does not wait for may revert unnoticed. Test contracts, log output and the files that
the script writes are left out.
-/

import Optics.Deployment.Chain

namespace Optics.Deployment

open Optics.Solidity

variable {Byte : Type}

/-! ### What the script keeps -/

/-- `ProxyNames`, of the core contracts. -/
inductive ProxyNames
  | Home
  | Replica
  | Governance
  deriving DecidableEq

/-- `ContractVerificationName`, of the core contracts. -/
inductive ContractVerificationName
  | UpgradeBeaconController
  | UpdaterManager
  | XAppConnectionManager
  | Implementation (name : ProxyNames)
  | UpgradeBeacon (name : ProxyNames)
  | Proxy (name : ProxyNames)
  deriving DecidableEq

/-- `ContractVerificationInput`, without the constructor arguments. -/
structure ContractVerificationInput (Byte : Type) where
  name : ContractVerificationName
  address : Address Byte

/-- `BeaconProxy`. -/
structure BeaconProxy (Byte : Type) where
  implementation : Address Byte
  proxy : Address Byte
  beacon : Address Byte

/-- `CoreContracts`. The record of the Replicas lists its keys in ascending order. -/
structure CoreContracts (Byte : Type) where
  upgradeBeaconController : Option (Address Byte)
  xAppConnectionManager : Option (Address Byte)
  updaterManager : Option (Address Byte)
  governance : Option (BeaconProxy Byte)
  home : Option (BeaconProxy Byte)
  replicas : List (UInt32 × BeaconProxy Byte)

/-- `constructor` of `CoreContracts`. -/
def CoreContracts.empty : CoreContracts Byte := ⟨none, none, none, none, none, []⟩

/-- `this.replicas[domain] = proxy`. -/
def CoreContracts.setReplica (domain : UInt32) (proxy : BeaconProxy Byte)
    (contracts : CoreContracts Byte) : CoreContracts Byte :=
  { contracts with
    replicas := contracts.replicas.filter (·.1 < domain) ++
      (domain, proxy) :: contracts.replicas.filter (domain < ·.1) }

/-- `Governor`. -/
structure Governor (Byte : Type) where
  domain : UInt32
  address : Address Byte

/-- `CoreConfig`, without the environment. -/
structure CoreConfig (Byte : Type) where
  updater : Address Byte
  recoveryTimelock : ℕ
  recoveryManager : Address Byte
  optimisticSeconds : ℕ
  watchers : List (Address Byte)
  governor : Option (Governor Byte)
  processGas : ℕ
  reserveGas : ℕ

/-- What does not change of a `CoreDeploy`: the domain of its chain, and its
configuration. -/
structure CoreDeploy (Byte : Type) where
  domain : UInt32
  config : CoreConfig Byte

/-- What a deployment changes on one chain: the chain, the contracts of the
`CoreDeploy`, and its verification input. -/
structure Site (Byte : Type) where
  chain : Chain Byte
  contracts : CoreContracts Byte
  verificationInput : List (ContractVerificationInput Byte)

/-- The chains by their domains. -/
abbrev World (Byte : Type) := UInt32 → Site Byte

/-- Why the script ends early: an error of its own, a transaction it waits for that
reverts, a value that is not there, or a check that fails. -/
inductive Failure
  | error (message : String)
  | reverted (reason : Revert)
  | undefined (name : String)
  | expected (check : String)

/-- `value!`, used. -/
def defined {α : Type} (name : String) : Option α → Except Failure α
  | some value => .ok value
  | none => .error (.undefined name)

/-- `tx.wait`. -/
def wait : Except Revert Unit → Except Failure Unit
  | .ok () => .ok ()
  | .error reason => .error (.reverted reason)

/-- `expect`. -/
def expect (condition : Prop) [Decidable condition] (check : String) : Except Failure Unit :=
  if condition then .ok () else .error (.expected check)

namespace Site

/-- `verificationInput.push`. -/
def push (name : ContractVerificationName) (address : Address Byte) (site : Site Byte) :
    Site Byte :=
  { site with verificationInput := site.verificationInput ++ [⟨name, address⟩] }

/-- A transaction that the script waits for. -/
def send (tx : Chain.Transaction Byte) (site : Site Byte) : Except Failure (Site Byte) := do
  let (result, chain) := site.chain.transact tx
  wait result
  .ok { site with chain := chain }

/-- A transaction that the script does not wait for. -/
def sendUnwaited (tx : Chain.Transaction Byte) (site : Site Byte) : Site Byte :=
  { site with chain := (site.chain.transact tx).2 }

/-- The Home that views of a proxy read. -/
def viewHome (a : Address Byte) (site : Site Byte) : Except Failure (Home Byte) :=
  match site.chain.accounts a with
  | some (.home _ history) => .ok history.home
  | _ => .error (.reverted (.external "Home"))

/-- The GovernanceRouter that views of a proxy read. -/
def viewRouter (a : Address Byte) (site : Site Byte) : Except Failure (GovernanceRouter Byte) :=
  match site.chain.accounts a with
  | some (.governance _ router) => .ok router
  | _ => .error (.reverted (.external "GovernanceRouter"))

/-- The connection manager at an address. -/
def viewManager (a : Address Byte) (site : Site Byte) :
    Except Failure (XAppConnectionManager Byte) :=
  match site.chain.accounts a with
  | some (.XAppConnectionManager manager) => .ok manager
  | _ => .error (.reverted (.external "XAppConnectionManager"))

/-- `owner()` at an address. -/
def viewOwner (a : Address Byte) (site : Site Byte) : Except Failure (Address Byte) :=
  match (site.chain.accounts a).bind Account.owner with
  | some owner => .ok owner
  | none => .error (.reverted (.external "owner"))

end Site

/-- A step of the script on one chain. -/
def onSite (domain : UInt32) (step : Site Byte → Except Failure (Site Byte)) (w : World Byte) :
    Except Failure (World Byte) := do
  let site ← step (w domain)
  .ok (Function.update w domain site)

variable [DecidableEq Byte] [ByteAlphabet Byte] (K : Crypto Byte)
  (create : Address Byte → ℕ → Address Byte)

/-! ### Proxies -/

/-- The transaction of `_deployProxy`, and the wait for it. -/
def _deployProxy (beacon : Address Byte) (initData : InitData Byte) (site : Site Byte) :
    Except Failure (Address Byte × Site Byte) := do
  let (proxy, result, chain) :=
    site.chain.deploy create (UpgradeBeaconProxy.construct beacon initData)
  wait result
  .ok (proxy, { site with chain := chain })

/-- `deployProxy`. Only the last of the three transactions is waited for. -/
def deployProxy (name : ProxyNames) (implementation : Implementation) (initData : InitData Byte)
    (site : Site Byte) : Except Failure (BeaconProxy Byte × Site Byte) := do
  -- A revert of these two shows in the constructor of the proxy only.
  let (implementationAddress, _, chain) :=
    site.chain.deploy create (Implementation.construct implementation)
  let ubcAddress ← defined "ubcAddress" site.contracts.upgradeBeaconController
  let (beacon, _, chain) :=
    chain.deploy create (UpgradeBeacon.construct implementationAddress ubcAddress)
  let (proxy, site) ← _deployProxy create beacon initData { site with chain := chain }
  let site := site.push (.Implementation name) implementationAddress
  let site := site.push (.UpgradeBeacon name) beacon
  let site := site.push (.Proxy name) proxy
  .ok (⟨implementationAddress, proxy, beacon⟩, site)

/-- `duplicate`. -/
def duplicate (name : ProxyNames) (prev : BeaconProxy Byte) (initData : InitData Byte)
    (site : Site Byte) : Except Failure (BeaconProxy Byte × Site Byte) := do
  let (proxy, site) ← _deployProxy create prev.beacon initData site
  .ok (⟨prev.implementation, proxy, prev.beacon⟩, site.push (.Proxy name) proxy)

/-! ### The contracts of one chain -/

/-- `deployUpgradeBeaconController`. -/
def deployUpgradeBeaconController (site : Site Byte) : Except Failure (Site Byte) := do
  let (address, result, chain) := site.chain.deploy create UpgradeBeaconController.construct
  wait result
  let contracts := { site.contracts with upgradeBeaconController := some address }
  .ok (Site.push .UpgradeBeaconController address
    { site with chain := chain, contracts := contracts })

/-- `deployUpdaterManager`. -/
def deployUpdaterManager (deploy : CoreDeploy Byte) (site : Site Byte) :
    Except Failure (Site Byte) := do
  let (address, result, chain) :=
    site.chain.deploy create (UpdaterManager.construct deploy.config.updater)
  wait result
  let contracts := { site.contracts with updaterManager := some address }
  .ok (Site.push .UpdaterManager address { site with chain := chain, contracts := contracts })

/-- `deployXAppConnectionManager`. -/
def deployXAppConnectionManager (site : Site Byte) : Except Failure (Site Byte) := do
  let (address, result, chain) := site.chain.deploy create XAppConnectionManager.construct
  wait result
  let contracts := { site.contracts with xAppConnectionManager := some address }
  .ok (Site.push .XAppConnectionManager address
    { site with chain := chain, contracts := contracts })

/-- `deployHome`. -/
def deployHome (deploy : CoreDeploy Byte) (site : Site Byte) : Except Failure (Site Byte) := do
  let updaterManager ← defined "updaterManager" site.contracts.updaterManager
  let (home, site) ← deployProxy create .Home (.Home deploy.domain) (.Home updaterManager) site
  .ok { site with contracts := { site.contracts with home := some home } }

/-- `deployGovernanceRouter`. -/
def deployGovernanceRouter (deploy : CoreDeploy Byte) (site : Site Byte) :
    Except Failure (Site Byte) := do
  let xAppConnectionManager ← defined "xAppConnectionManager" site.contracts.xAppConnectionManager
  let (governance, site) ← deployProxy create .Governance
    (.Governance deploy.domain deploy.config.recoveryTimelock)
    (.Governance xAppConnectionManager deploy.config.recoveryManager) site
  .ok { site with contracts := { site.contracts with governance := some governance } }

/-- `deployOptics`. The two `setHome` are not waited for. -/
def deployOptics (deploy : CoreDeploy Byte) (site : Site Byte) : Except Failure (Site Byte) := do
  let site ← deployUpgradeBeaconController create site
  let site ← deployUpdaterManager create deploy site
  let site ← deployXAppConnectionManager create site
  let site ← deployHome create deploy site
  let xAppConnectionManager ← defined "xAppConnectionManager" site.contracts.xAppConnectionManager
  let home ← defined "home" site.contracts.home
  -- A revert here would not stop the script.
  let site := site.sendUnwaited (Chain.callManager K xAppConnectionManager (.setHome home.proxy))
  let updaterManager ← defined "updaterManager" site.contracts.updaterManager
  let site := site.sendUnwaited (Chain.setHome updaterManager home.proxy)
  deployGovernanceRouter create deploy site

/-! ### Enrolling a remote -/

/-- `deployUnenrolledReplica`. The first Replica brings its beacon and implementation, which
the later ones share. -/
def deployUnenrolledReplica (deploy remote : CoreDeploy Byte) (site : Site Byte) :
    Except Failure (Site Byte) := do
  let initData := InitData.Replica remote.domain remote.config.updater 0
    remote.config.optimisticSeconds
  let implementation :=
    Implementation.Replica deploy.domain deploy.config.processGas deploy.config.reserveGas
  let (proxy, site) ← match site.contracts.replicas with
    | [] => deployProxy create .Replica implementation initData site
    -- `Object.entries(replicas)[0]`: the keys come in ascending order
    | (_, prev) :: _ => duplicate create .Replica prev initData site
  .ok { site with contracts := site.contracts.setReplica remote.domain proxy }

/-- `enrollReplica`. -/
def enrollReplica (remote : CoreDeploy Byte) (site : Site Byte) : Except Failure (Site Byte) := do
  let replica ← defined "replica" (site.contracts.replicas.lookup remote.domain)
  let xAppConnectionManager ← defined "xAppConnectionManager" site.contracts.xAppConnectionManager
  site.send (Chain.callManager K xAppConnectionManager
    (.ownerEnrollReplica replica.proxy remote.domain))

/-- `enrollWatchers`, with the watchers in the order of the list. -/
def enrollWatchers (deploy remote : CoreDeploy Byte) (site : Site Byte) :
    Except Failure (Site Byte) := do
  let xAppConnectionManager ← defined "xAppConnectionManager" site.contracts.xAppConnectionManager
  deploy.config.watchers.foldlM (fun site watcher =>
    site.send (Chain.callManager K xAppConnectionManager
      (.setWatcherPermission watcher remote.domain true))) site

/-- `enrollGovernanceRouter`. -/
def enrollGovernanceRouter (remote : CoreDeploy Byte) (remoteContracts : CoreContracts Byte)
    (site : Site Byte) : Except Failure (Site Byte) := do
  let governance ← defined "governance" site.contracts.governance
  let remoteGovernance ← defined "governance" remoteContracts.governance
  site.send (Chain.callRouter K governance.proxy
    (.setRouter remote.domain (addressToBytes32 remoteGovernance.proxy)))

/-- `enrollRemote`. -/
def enrollRemote (deploy remote : CoreDeploy Byte) (w : World Byte) :
    Except Failure (World Byte) :=
  onSite deploy.domain (fun site => do
    let site ← deployUnenrolledReplica create deploy remote site
    let site ← enrollReplica K remote site
    let site ← enrollWatchers K deploy remote site
    -- The router of the remote is read from its own `CoreDeploy`.
    enrollGovernanceRouter K remote (w remote.domain).contracts site) w

/-! ### Governance and ownership -/

/-- `appointGovernor`. -/
def appointGovernor (gov : CoreDeploy Byte) (w : World Byte) : Except Failure (World Byte) :=
  match gov.config.governor with
  | some governor => onSite gov.domain (fun site => do
      let governance ← defined "governance" site.contracts.governance
      site.send (Chain.callRouter K governance.proxy
        (.transferGovernor governor.domain governor.address))) w
  | none => .ok w

/-- `transferGovernorship`. -/
def transferGovernorship (gov non : CoreDeploy Byte) (w : World Byte) :
    Except Failure (World Byte) := do
  -- The governor is read from the router of the first chain, not from the configuration.
  let govGovernance ← defined "governance" (w gov.domain).contracts.governance
  let govRouter ← (w gov.domain).viewRouter govGovernance.proxy
  onSite non.domain (fun site => do
    let governance ← defined "governance" site.contracts.governance
    site.send (Chain.callRouter K governance.proxy
      (.transferGovernor gov.domain govRouter.governor))) w

/-- `relinquish`. Only the last of the four transactions is waited for. -/
def relinquish (site : Site Byte) : Except Failure (Site Byte) := do
  let governance ← defined "governance" site.contracts.governance
  let updaterManager ← defined "updaterManager" site.contracts.updaterManager
  let site := site.sendUnwaited (Chain.transferOwnership updaterManager governance.proxy)
  let xAppConnectionManager ← defined "xAppConnectionManager" site.contracts.xAppConnectionManager
  let site := site.sendUnwaited (Chain.transferOwnership xAppConnectionManager governance.proxy)
  let ubc ← defined "upgradeBeaconController" site.contracts.upgradeBeaconController
  let site := site.sendUnwaited (Chain.transferOwnership ubc governance.proxy)
  let home ← defined "home" site.contracts.home
  site.send (Chain.transferOwnership home.proxy governance.proxy)

/-! ### The checks -/

/-- `checkVerificationInput`. -/
def checkVerificationInput (name : ContractVerificationName) (addr : Address Byte)
    (input : List (ContractVerificationInput Byte)) : Except Failure Unit := do
  let entry ← defined "verificationInput" (input.find? (·.name = name))
  expect (entry.address = addr) "verification address"

/-- `proxy.address = address` in the search for the proxy of a Replica: the first proxy takes
the address, and is found. -/
def setReplicaProxy (address : Address Byte) :
    List (ContractVerificationInput Byte) → Option (List (ContractVerificationInput Byte))
  | [] => none
  | entry :: rest =>
    if entry.name = .Proxy .Replica then some ({ entry with address := address } :: rest)
    else (setReplicaProxy address rest).map (entry :: ·)

/-- The checks on one remote. A router is compared with the text of the zero address, which no
word is equal to; the checks of the permissions of watchers are not waited for. -/
def checkRemote (contracts : CoreContracts Byte) (manager : Optics.XAppConnectionManager Byte)
    (domain : UInt32) : Except Failure Unit := do
  let _ ← defined "replica" (contracts.replicas.lookup domain)
  expect (manager.domainToReplica domain ≠ 0) "domainToReplica"

/-- The comparison of the beacons and implementations of the Replicas. -/
def checkReplicas (contracts : CoreContracts Byte) (remoteDomains : List UInt32) :
    Except Failure Unit :=
  match remoteDomains with
  | [] => .ok ()
  | first :: rest => do
    let firstReplica ← defined "replica" (contracts.replicas.lookup first)
    rest.forM fun domain => do
      let replica ← defined "replica" (contracts.replicas.lookup domain)
      expect (replica.implementation = firstReplica.implementation) "implementation"
      expect (replica.beacon = firstReplica.beacon) "beacon"

/-- The checks of the verification input. -/
def checkVerification (contracts : CoreContracts Byte) (home governance : BeaconProxy Byte)
    (ubc xAppConnectionManager updaterManager : Address Byte) (remoteDomains : List UInt32)
    (input : List (ContractVerificationInput Byte)) :
    Except Failure (List (ContractVerificationInput Byte)) := do
  checkVerificationInput .UpgradeBeaconController ubc input
  checkVerificationInput .XAppConnectionManager xAppConnectionManager input
  checkVerificationInput .UpdaterManager updaterManager input
  checkVerificationInput (.Implementation .Home) home.implementation input
  checkVerificationInput (.UpgradeBeacon .Home) home.beacon input
  checkVerificationInput (.Proxy .Home) home.proxy input
  checkVerificationInput (.Implementation .Governance) governance.implementation input
  checkVerificationInput (.UpgradeBeacon .Governance) governance.beacon input
  checkVerificationInput (.Proxy .Governance) governance.proxy input
  match remoteDomains with
  | [] => .ok input
  | first :: _ => do
    let replica ← defined "replica" (contracts.replicas.lookup first)
    checkVerificationInput (.Implementation .Replica) replica.implementation input
    checkVerificationInput (.UpgradeBeacon .Replica) replica.beacon input
    -- The search is meant to compare, and assigns.
    remoteDomains.foldlM (fun input domain => do
      let replica ← defined "replica" (contracts.replicas.lookup domain)
      defined "replicaProxy" (setReplicaProxy replica.proxy input)) input

/-- `checkCoreDeploy`. -/
def checkCoreDeploy (remoteDomains : List UInt32) (governorDomain : UInt32) (site : Site Byte) :
    Except Failure (Site Byte) := do
  let contracts := site.contracts
  let home ← defined "home" contracts.home
  let homeView ← site.viewHome home.proxy
  let updaterManager ← defined "updaterManager" contracts.updaterManager
  expect (homeView.updaterManager = updaterManager) "updaterManager"
  let governance ← defined "governance" contracts.governance
  let router ← site.viewRouter governance.proxy
  let xAppConnectionManager ← defined "xAppConnectionManager" contracts.xAppConnectionManager
  let manager ← site.viewManager xAppConnectionManager
  remoteDomains.forM (checkRemote contracts manager)
  checkReplicas contracts remoteDomains
  let ubc ← defined "upgradeBeaconController" contracts.upgradeBeaconController
  -- governor is set on governor chain, empty on others
  expect ((router.governor ≠ 0) ↔ governorDomain = homeView.localDomain) "governor"
  expect (router.governorDomain = governorDomain) "governorDomain"
  expect (manager.home = home.proxy) "xAppManagerHome"
  let updaterManagerOwner ← site.viewOwner updaterManager
  let beaconOwner ← site.viewOwner ubc
  expect (updaterManagerOwner = governance.proxy) "updaterManagerOwner"
  expect (manager.owner = governance.proxy) "xAppManagerOwner"
  expect (beaconOwner = governance.proxy) "beaconOwner"
  expect (homeView.owner = governance.proxy) "homeOwner"
  let input ← checkVerification contracts home governance ubc xAppConnectionManager updaterManager
    remoteDomains site.verificationInput
  .ok { site with verificationInput := input }

/-! ### All chains -/

/-- The other chains of a deployment. -/
def remotesOf (deploys : List (CoreDeploy Byte)) (deploy : CoreDeploy Byte) :
    List (CoreDeploy Byte) :=
  deploys.filter (·.domain ≠ deploy.domain)

/-- `deployNChains`. The first chain is the governing one. -/
def deployNChains (deploys : List (CoreDeploy Byte)) (w : World Byte) :
    Except Failure (World Byte) :=
  match deploys with
  | [] => .error (.error "Must pass at least one deploy config")
  | govChain :: nonGovChains => do
    let w ← deploys.foldlM (fun w deploy =>
      onSite deploy.domain (deployOptics K create deploy) w) w
    let w ← deploys.foldlM (fun w deploy =>
      (remotesOf deploys deploy).foldlM (fun w remote =>
        enrollRemote K create deploy remote w) w) w
    let w ← appointGovernor K govChain w
    -- `Promise.all` over different chains, here one after the other
    let w ← nonGovChains.foldlM (fun w non => transferGovernorship K govChain non w) w
    let w ← deploys.foldlM (fun w deploy => onSite deploy.domain relinquish w) w
    deploys.foldlM (fun w deploy => onSite deploy.domain
      (checkCoreDeploy ((remotesOf deploys deploy).map CoreDeploy.domain) govChain.domain) w) w

end Optics.Deployment
