/-
# The contracts of one chain

`deployOptics` takes a chain on which the deployer has created nothing at the coming
addresses to the first stage: the contracts know each other, the deployer owns them
and governs, and nothing has been sent.
-/

import Optics.Deployment.Proxies

namespace Optics.Deployment

open Optics.Solidity Optics.Math.Transition Optics.Math.Loops Optics.Governance

variable {Byte : Type}

/-- The addresses that the next transactions of the deployer create. The transactions in
between are two calls. -/
def layout (create : Address Byte → ℕ → Address Byte) (chain : Chain Byte) : Layout Byte :=
  let new n := create chain.deployer (chain.nonce + n)
  { deployer := chain.deployer
    upgradeBeaconController := new 0
    updaterManager := new 1
    xAppConnectionManager := new 2
    home := ⟨new 3, new 5, new 4⟩
    governance := ⟨new 8, new 10, new 9⟩ }

/-- A chain before its deployment. -/
structure Blank (create : Address Byte → ℕ → Address Byte) (site : Site Byte) : Prop where
  fresh : site.chain.Fresh create
  contracts : site.contracts = .empty
  verification : site.verificationInput = []

variable [ByteAlphabet Byte] [DecidableEq Byte] {K : Crypto Byte}
  {create : Address Byte → ℕ → Address Byte} {address : UInt32 → Address Byte}
  {deploy : CoreDeploy Byte} {site : Site Byte} {L : Layout Byte}

/-- A stage without remotes: the deployer owns the contracts and governs. -/
def firstStage (L : Layout Byte) (deploy : CoreDeploy Byte)
    (proxies : UInt32 → BeaconProxy Byte) : Stage Byte where
  replicas := []
  proxies := proxies
  registered := []
  permissions := []
  routed := []
  owners := ⟨L.deployer, L.deployer, L.deployer, L.deployer⟩
  governor := L.deployer
  governorDomain := deploy.domain
  sent := []

/-! ### Storage after deployment -/

/-- Home after `initialize`. -/
def firstHome (L : Layout Byte) (deploy : CoreDeploy Byte) : Home.History Byte where
  home := { Home.fresh deploy.domain with
    owner := L.deployer
    queue := QueueLib.Queue.fresh.init
    updaterManager := L.updaterManager
    updater := deploy.config.updater
    state := .Active }
  log := [.NewUpdaterManager L.updaterManager, .NewUpdater deploy.config.updater]
  dispatched := []

theorem firstHome_homeAt : HomeAt K L deploy L.deployer [] (firstHome L deploy) := by
  have hinitial : (firstHome L deploy).Initial :=
    Home.initial_of_isContract deploy.domain ⟨L.deployer, fun _ => true, .reverts⟩
      L.updaterManager deploy.config.updater rfl
  exact ⟨System.reachable_init hinitial, rfl, rfl, rfl, rfl, rfl, nofun, rfl,
    (Home.History.Initial.sound hinitial).inStep⟩

/-- The connection manager after its `setHome`. -/
def firstManager (L : Layout Byte) : XAppConnectionManager Byte :=
  { XAppConnectionManager.deploy L.deployer with home := L.home.proxy }

omit [DecidableEq Byte] in
theorem firstManager_managerAt (proxies : UInt32 → BeaconProxy Byte) :
    ManagerAt L L.deployer proxies [] [] (firstManager L) := by
  have hregistry := XAppConnectionManager.deploy_registered L.deployer
  exact ⟨rfl, rfl, ⟨hregistry.twoWay, hregistry.zero⟩, nofun, fun _ _ => rfl,
    fun _ _ => ⟨nofun, nofun⟩⟩

/-- `initialize` of Home. -/
theorem _initialize_home {chain : Chain Byte} {implementation : Address Byte}
    (hdeployer : chain.deployer = L.deployer)
    (hcode : chain.accounts implementation = some (.implementation (.Home deploy.domain)))
    (hmanager : chain.accounts L.updaterManager =
      some (.UpdaterManager ⟨L.deployer, 0, deploy.config.updater⟩)) :
    UpgradeBeaconProxy._initialize L.home.beacon implementation (.Home L.updaterManager) chain =
      .ok (.home L.home.beacon (firstHome L deploy)) := by
  have hcontract : (chain.homeContext chain.deployer).isContract L.updaterManager = true := by
    simp [Chain.homeContext, Chain.isContract, hmanager]
  simp only [UpgradeBeaconProxy._initialize, hcode, Chain.updaterAt, hmanager, ok_bind, Home.init,
    Home._setUpdaterManager, require_of hcontract]
  rw [firstHome, ← hdeployer]
  rfl

/-- `initialize` of GovernanceRouter. -/
theorem _initialize_governance {chain : Chain Byte} {implementation : Address Byte}
    (history : Home.History Byte) (hdeployer : chain.deployer = L.deployer)
    (hcode : chain.accounts implementation = some (.implementation
      (.Governance deploy.domain deploy.config.recoveryTimelock)))
    (hhome : chain.homeOf L.xAppConnectionManager = some (L.home.proxy, L.home.beacon, history))
    (hdomain : history.home.localDomain = deploy.domain) :
    UpgradeBeaconProxy._initialize L.governance.beacon implementation
        (.Governance L.xAppConnectionManager deploy.config.recoveryManager) chain =
      .ok (.governance L.governance.beacon
        (routerAt L address deploy [] L.deployer deploy.domain)) := by
  have hhas : (chain.homeOf L.xAppConnectionManager).isSome = true := by rw [hhome]; rfl
  have hbad : chain.routerContext.managerDomain L.xAppConnectionManager = deploy.domain := by
    simp only [Chain.routerContext, hhome, hdomain]
  have hsender : chain.routerContext.sender = L.deployer := hdeployer
  have hinit : GovernanceRouter.init chain.routerContext L.xAppConnectionManager
      deploy.config.recoveryManager
      (GovernanceRouter.deploy deploy.domain deploy.config.recoveryTimelock) =
        .ok (routerAt L address deploy [] L.deployer deploy.domain, []) := by
    simp [GovernanceRouter.init, GovernanceRouter.deploy, GovernanceRouter._transferGovernor,
      GovernanceRouter.setXAppConnectionManager, GovernanceRouter.onlyGovernorOrRecoveryManager,
      GovernanceRouter.onlyGovernor, GovernanceRouter.inRecovery, require, routerAt, hbad, hsender]
  simp only [UpgradeBeaconProxy._initialize, hcode, require_of hhas, ok_bind, hinit]

/-! ### The contracts without a proxy -/

/-- What the script does for a contract without a proxy. -/
structure NewContract (create : Address Byte → ℕ → Address Byte)
    (name : ContractVerificationName) (a : Address Byte) (account : Account Byte)
    (contracts : CoreContracts Byte) (site site' : Site Byte) : Prop where
  extends_ : Extends site.chain site'.chain
  nonce : site'.chain.nonce = site.chain.nonce + 1
  fresh : site'.chain.Fresh create
  account : site'.chain.accounts a = some account
  contracts : site'.contracts = contracts
  verification : site'.verificationInput = site.verificationInput ++ [⟨name, a⟩]

section NewContracts

variable {a : Address Byte} (hcreate : Creates create) (hfresh : site.chain.Fresh create)
  (ha : create site.chain.deployer site.chain.nonce = a)

include hcreate hfresh ha

theorem deployUpgradeBeaconController_of_fresh :
    ∃ site', deployUpgradeBeaconController create site = .ok site' ∧
      NewContract create .UpgradeBeaconController a
        (.UpgradeBeaconController site.chain.deployer)
        { site.contracts with upgradeBeaconController := some a } site site' := by
  subst ha
  obtain ⟨c, hdeploy, h⟩ := created_of_construct hcreate hfresh
    (show UpgradeBeaconController.construct _ _ = .ok _ from rfl)
  refine ⟨⟨c, _, _⟩, ?_, h.extends_, h.nonce, h.fresh, h.account, rfl, rfl⟩
  rw [deployUpgradeBeaconController, hdeploy]
  rfl

theorem deployUpdaterManager_of_fresh (deploy : CoreDeploy Byte) :
    ∃ site', deployUpdaterManager create deploy site = .ok site' ∧
      NewContract create .UpdaterManager a
        (.UpdaterManager ⟨site.chain.deployer, 0, deploy.config.updater⟩)
        { site.contracts with updaterManager := some a } site site' := by
  subst ha
  obtain ⟨c, hdeploy, h⟩ := created_of_construct hcreate hfresh
    (show UpdaterManager.construct deploy.config.updater _ _ = .ok _ from rfl)
  refine ⟨⟨c, _, _⟩, ?_, h.extends_, h.nonce, h.fresh, h.account, rfl, rfl⟩
  rw [deployUpdaterManager, hdeploy]
  rfl

theorem deployXAppConnectionManager_of_fresh :
    ∃ site', deployXAppConnectionManager create site = .ok site' ∧
      NewContract create .XAppConnectionManager a
        (.XAppConnectionManager (XAppConnectionManager.deploy site.chain.deployer))
        { site.contracts with xAppConnectionManager := some a } site site' := by
  subst ha
  obtain ⟨c, hdeploy, h⟩ := created_of_construct hcreate hfresh
    (show XAppConnectionManager.construct _ _ = .ok _ from rfl)
  refine ⟨⟨c, _, _⟩, ?_, h.extends_, h.nonce, h.fresh, h.account, rfl, rfl⟩
  rw [deployXAppConnectionManager, hdeploy]
  rfl

end NewContracts

/-! ### The contracts together -/

/-- A chain on which the contracts are deployed that a GovernanceRouter needs. -/
structure Based (create : Address Byte → ℕ → Address Byte) (L : Layout Byte)
    (deploy : CoreDeploy Byte) (updaterHome managerHome : Address Byte) (chain : Chain Byte) :
    Prop where
  deployer : chain.deployer = L.deployer
  fresh : chain.Fresh create
  controller : chain.accounts L.upgradeBeaconController =
    some (.UpgradeBeaconController L.deployer)
  updaterManager : chain.accounts L.updaterManager =
    some (.UpdaterManager ⟨L.deployer, updaterHome, deploy.config.updater⟩)
  manager : chain.accounts L.xAppConnectionManager = some (.XAppConnectionManager
    { XAppConnectionManager.deploy L.deployer with home := managerHome })
  home : chain.accounts L.home.proxy = some (.home L.home.beacon (firstHome L deploy))
  homeBeacon : chain.accounts L.home.beacon =
    some (.UpgradeBeacon L.home.implementation L.upgradeBeaconController)
  homeImplementation : chain.accounts L.home.implementation =
    some (.implementation (.Home deploy.domain))

/-- The first four contracts. -/
theorem based_of_blank (deploy : CoreDeploy Byte) (hcreate : Creates create) (h : Blank create site)
    (hL : L = layout create site.chain) :
    ∃ s₁ s₂ s₃ s₄, deployUpgradeBeaconController create site = .ok s₁ ∧
      deployUpdaterManager create deploy s₁ = .ok s₂ ∧
      deployXAppConnectionManager create s₂ = .ok s₃ ∧ deployHome create deploy s₃ = .ok s₄ ∧
      Based create L deploy 0 0 s₄.chain ∧ s₄.chain.nonce = site.chain.nonce + 6 ∧
      s₄.contracts = ⟨some L.upgradeBeaconController, some L.xAppConnectionManager,
        some L.updaterManager, none, some L.home, []⟩ ∧
      s₄.verificationInput = (coreVerification L).take 6 := by
  subst hL
  obtain ⟨s₁, hdeploy₁, h₁⟩ := deployUpgradeBeaconController_of_fresh hcreate h.fresh
    (a := (layout create site.chain).upgradeBeaconController) rfl
  obtain ⟨s₂, hdeploy₂, h₂⟩ := deployUpdaterManager_of_fresh hcreate h₁.fresh
    (a := (layout create site.chain).updaterManager)
    (by rw [h₁.extends_.deployer, h₁.nonce]; rfl) deploy
  have hdeployer₂ := (h₁.extends_.trans h₂.extends_).deployer
  have hnonce₂ : s₂.chain.nonce = site.chain.nonce + 2 := by rw [h₂.nonce, h₁.nonce]
  obtain ⟨s₃, hdeploy₃, h₃⟩ := deployXAppConnectionManager_of_fresh hcreate h₂.fresh
    (a := (layout create site.chain).xAppConnectionManager) (by rw [hdeployer₂, hnonce₂]; rfl)
  have hextends₃ := (h₁.extends_.trans h₂.extends_).trans h₃.extends_
  have hnonce₃ : s₃.chain.nonce = site.chain.nonce + 3 := by rw [h₃.nonce, hnonce₂]
  have hcontracts₃ : s₃.contracts = ⟨some (layout create site.chain).upgradeBeaconController,
      some (layout create site.chain).xAppConnectionManager,
      some (layout create site.chain).updaterManager, none, none, []⟩ := by
    rw [h₃.contracts, h₂.contracts, h₁.contracts, h.contracts]
    rfl
  have hupdater₃ := h₃.extends_.accounts _ _ h₂.account
  rw [h₁.extends_.deployer] at hupdater₃
  -- Home
  have hbeacon : create s₃.chain.deployer (s₃.chain.nonce + 1) =
      (layout create site.chain).home.beacon := by rw [hextends₃.deployer, hnonce₃]; rfl
  obtain ⟨p, s₄, hdeploy₄, h₄⟩ := deployProxy_of_ok s₃ .Home (.Home deploy.domain)
    (.Home (layout create site.chain).updaterManager)
    (.home (layout create site.chain).home.beacon
      (firstHome (layout create site.chain) deploy)) hcreate h₃.fresh
    (congrArg CoreContracts.upgradeBeaconController hcontracts₃)
    ((h₂.extends_.trans h₃.extends_).accounts _ _ h₁.account) (fun _ _ => rfl)
    (fun c hc hcode => by
      rw [hbeacon]
      exact _initialize_home (hc.deployer.trans hextends₃.deployer) hcode
        (hc.accounts _ _ hupdater₃))
  have hp : p = (layout create site.chain).home := by
    rw [h₄.address, hextends₃.deployer, hnonce₃]
    rfl
  subst hp
  have hextends := hextends₃.trans h₄.extends_
  refine ⟨s₁, s₂, s₃, ⟨s₄.chain,
      { s₄.contracts with home := some (layout create site.chain).home }, s₄.verificationInput⟩,
    hdeploy₁, hdeploy₂, hdeploy₃, ?_, ?_, h₄.nonce.trans (by rw [hnonce₃]), ?_, ?_⟩
  · simp only [deployHome, hcontracts₃, defined, ok_bind, hdeploy₄]
  · have hmanager := h₄.extends_.accounts _ _ h₃.account
    rw [hdeployer₂] at hmanager
    exact ⟨hextends.deployer, h₄.fresh,
      ((h₂.extends_.trans h₃.extends_).trans h₄.extends_).accounts _ _ h₁.account,
      h₄.extends_.accounts _ _ hupdater₃, hmanager, h₄.proxy, h₄.beacon, h₄.implementation⟩
  · rw [h₄.contracts, hcontracts₃]
  · rw [h₄.verification, h₃.verification, h₂.verification, h₁.verification, h.verification]
    rfl

section Homes

variable {chain : Chain Byte} {updaterHome managerHome : Address Byte}

omit [DecidableEq Byte] in
theorem Based.next (h : Based create L deploy updaterHome managerHome chain) :
    Based create L deploy updaterHome managerHome chain.next :=
  ⟨h.deployer, h.fresh.next, h.controller, h.updaterManager, h.manager, h.home, h.homeBeacon,
    h.homeImplementation⟩

/-- `setHome` of the connection manager. -/
theorem Based.setManagerHome (h : Based create L deploy updaterHome managerHome chain)
    (home : Address Byte) :
    ∃ chain', Chain.callManager K L.xAppConnectionManager (.setHome home) chain = .ok chain' ∧
      chain'.nonce = chain.nonce ∧ Based create L deploy updaterHome home chain' := by
  have hsender : (chain.managerContext K).sender = L.deployer := h.deployer
  refine ⟨chain.setAccount L.xAppConnectionManager _, ?_, rfl, h.deployer,
    h.fresh.setAccount h.manager,
    Chain.accounts_setAccount_of_kind h.manager h.controller nofun,
    Chain.accounts_setAccount_of_kind h.manager h.updaterManager nofun,
    Chain.setAccount_self _ _ _,
    Chain.accounts_setAccount_of_kind h.manager h.home nofun,
    Chain.accounts_setAccount_of_kind h.manager h.homeBeacon nofun,
    Chain.accounts_setAccount_of_kind h.manager h.homeImplementation nofun⟩
  simp only [Chain.callManager, h.manager, XAppConnectionManager.exec,
    XAppConnectionManager.setHome, XAppConnectionManager.onlyOwner, XAppConnectionManager.deploy,
    require_of hsender, ok_bind]

/-- `setHome` of the updater manager. -/
theorem Based.setUpdaterHome (h : Based create L deploy updaterHome managerHome chain) :
    ∃ chain', Chain.setHome L.updaterManager L.home.proxy chain = .ok chain' ∧
      chain'.nonce = chain.nonce ∧ Based create L deploy L.home.proxy managerHome chain' := by
  have hcontract : chain.isContract L.home.proxy = true := by simp [Chain.isContract, h.home]
  refine ⟨chain.setAccount L.updaterManager _, ?_, rfl, h.deployer,
    h.fresh.setAccount h.updaterManager,
    Chain.accounts_setAccount_of_kind h.updaterManager h.controller (by simp [Account.kind]),
    Chain.setAccount_self _ _ _,
    Chain.accounts_setAccount_of_kind h.updaterManager h.manager (by simp [Account.kind]),
    Chain.accounts_setAccount_of_kind h.updaterManager h.home (by simp [Account.kind]),
    Chain.accounts_setAccount_of_kind h.updaterManager h.homeBeacon (by simp [Account.kind]),
    Chain.accounts_setAccount_of_kind h.updaterManager h.homeImplementation
      (by simp [Account.kind])⟩
  simp only [Chain.setHome, h.updaterManager, UpdaterManager.setHome, UpdaterManager.onlyOwner,
    require_of h.deployer, require_of hcontract, ok_bind]

end Homes

/-- **The contracts of one chain.** `deployOptics` succeeds on a chain before its deployment, and
takes it to the first stage. -/
theorem deployOptics_of_blank (address : UInt32 → Address Byte) (deploy : CoreDeploy Byte)
    (hcreate : Creates create) (h : Blank create site)
    (hL : L = layout create site.chain) (proxies : UInt32 → BeaconProxy Byte) :
    ∃ site', deployOptics K create deploy site = .ok site' ∧
      Configured K create L address deploy (firstStage L deploy proxies) site' := by
  obtain ⟨s₁, s₂, s₃, s₄, hdeploy₁, hdeploy₂, hdeploy₃, hdeploy₄, hbased₄, hnonce₄, hcontracts₄,
    hverification₄⟩ := based_of_blank deploy hcreate h hL
  obtain ⟨c₅, hcall₅, hnonce₅, hbased₅⟩ := hbased₄.setManagerHome (K := K) L.home.proxy
  obtain ⟨c₆, hcall₆, hnonce₆, hbased₆⟩ := hbased₅.next.setUpdaterHome
  -- GovernanceRouter
  have hbased := hbased₆.next
  have hnonce : c₆.next.nonce = site.chain.nonce + 8 := by
    rw [Chain.next_nonce, hnonce₆, Chain.next_nonce, hnonce₅, hnonce₄]
  have hdeployer : c₆.next.deployer = site.chain.deployer := by
    rw [hbased.deployer, hL]
    rfl
  have hbeacon : create c₆.next.deployer (c₆.next.nonce + 1) = L.governance.beacon := by
    rw [hdeployer, hnonce, hL]
    rfl
  obtain ⟨p, s₇, hdeploy₇, h₇⟩ := deployProxy_of_ok
    ⟨c₆.next, s₄.contracts, s₄.verificationInput⟩ .Governance
    (.Governance deploy.domain deploy.config.recoveryTimelock)
    (.Governance L.xAppConnectionManager deploy.config.recoveryManager)
    (.governance L.governance.beacon (routerAt L address deploy [] L.deployer deploy.domain))
    hcreate hbased.fresh (congrArg CoreContracts.upgradeBeaconController hcontracts₄)
    hbased.controller (fun _ _ => rfl)
    (fun c hc hcode => by
      rw [hbeacon]
      refine _initialize_governance (firstHome L deploy)
        (hc.deployer.trans hbased.deployer) hcode ?_ rfl
      simp only [Chain.homeOf, hc.accounts _ _ hbased.manager, hc.accounts _ _ hbased.home])
  have hp : p = L.governance := by
    rw [h₇.address, hdeployer, hnonce, hL]
    rfl
  subst hp
  refine ⟨⟨s₇.chain, { s₇.contracts with governance := some L.governance },
    s₇.verificationInput⟩, ?_, ?_, ?_,
    ⟨List.forall_mem_nil _, List.forall_mem_nil _, List.forall_mem_nil _⟩⟩
  · have hcall₅' := Chain.transact_of_ok hcall₅ hnonce₅
    have hcall₆' := Chain.transact_of_ok hcall₆ hnonce₆
    simp only [deployOptics, hdeploy₁, hdeploy₂, hdeploy₃, hdeploy₄, ok_bind, hcontracts₄, defined,
      Site.sendUnwaited, hcall₅', hcall₆']
    simp only [hcontracts₄] at hdeploy₇
    simp only [deployGovernanceRouter, defined, ok_bind, hdeploy₇]
  · have hextends := h₇.extends_
    exact ⟨hextends.deployer.trans hbased.deployer, h₇.fresh,
      hextends.accounts _ _ hbased.controller, hextends.accounts _ _ hbased.updaterManager,
      ⟨_, hextends.accounts _ _ hbased.home, firstHome_homeAt⟩, h₇.proxy,
      ⟨_, hextends.accounts _ _ hbased.manager, firstManager_managerAt proxies⟩,
      ⟨hextends.accounts _ _ hbased.homeBeacon, hextends.accounts _ _ hbased.homeImplementation,
        h₇.beacon, h₇.implementation, List.forall_mem_nil _⟩⟩
  · refine ⟨?_, List.forall_mem_nil _, ?_, ?_⟩
    · simp [h₇.contracts, hcontracts₄]
    · simp [h₇.contracts, hcontracts₄]
    · rw [h₇.verification, hverification₄]
      rfl

end Optics.Deployment
