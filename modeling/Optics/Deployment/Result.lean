/-
# What a deployment leaves

The contracts of every chain are at the addresses that the script keeps. The Home, the
connection manager, the updater manager and the GovernanceRouter of a chain know each
other and belong to the GovernanceRouter; what a chain knows of another one is what is
there; and the governor is on the first chain.
-/

import Optics.Deployment.Correct

namespace Optics.Deployment

open Optics.Solidity Optics.Math.Transition Optics.Math.Loops Optics.Governance
open Optics.GovernanceRouter (Dispatch)

variable {Byte : Type}

/-! ### Deployed contracts -/

/-- The contracts of a chain: their addresses, and the storage of those that have more than
an owner. Every remote has a Replica. -/
structure Contracts (Byte : Type) where
  layout : Layout Byte
  home : Home.History Byte
  manager : XAppConnectionManager Byte
  router : GovernanceRouter Byte
  proxies : UInt32 → BeaconProxy Byte
  replicas : CoreDeploy Byte → Replica Byte

variable [ByteAlphabet Byte] [DecidableEq Byte] (K : Crypto Byte)
  (create : Address Byte → ℕ → Address Byte) (remotes : List (CoreDeploy Byte))
  (deploy : CoreDeploy Byte) (site : Site Byte) (c : Contracts Byte)

/-- A proxy answers calls with an implementation. -/
def Proxied (p : BeaconProxy Byte) (code : Implementation) : Prop :=
  UpgradeBeaconProxy._getImplementation p.beacon p.proxy site.chain = .ok p.implementation ∧
    site.chain.accounts p.implementation = some (.implementation code)

/-- The contracts are where the script says, behind their beacons. -/
structure OnChain : Prop where
  kept : site.contracts = ⟨some c.layout.upgradeBeaconController,
    some c.layout.xAppConnectionManager, some c.layout.updaterManager, some c.layout.governance,
    some c.layout.home, site.contracts.replicas⟩
  controller : site.chain.accounts c.layout.upgradeBeaconController =
    some (.UpgradeBeaconController c.layout.governance.proxy)
  updaterManager : site.chain.accounts c.layout.updaterManager = some (.UpdaterManager
    ⟨c.layout.governance.proxy, c.layout.home.proxy, deploy.config.updater⟩)
  manager : site.chain.accounts c.layout.xAppConnectionManager =
    some (.XAppConnectionManager c.manager)
  home : site.chain.accounts c.layout.home.proxy = some (.home c.layout.home.beacon c.home)
  homeProxied : Proxied site c.layout.home (.Home deploy.domain)
  router : site.chain.accounts c.layout.governance.proxy =
    some (.governance c.layout.governance.beacon c.router)
  routerProxied : Proxied site c.layout.governance
    (.Governance deploy.domain deploy.config.recoveryTimelock)
  replica : ∀ r ∈ remotes,
    site.contracts.replicas.lookup r.domain = some (c.proxies r.domain) ∧
    site.chain.accounts (c.proxies r.domain).proxy =
      some (.replica (c.proxies r.domain).beacon (c.replicas r)) ∧
    Proxied site (c.proxies r.domain)
      (.Replica deploy.domain deploy.config.processGas deploy.config.reserveGas)

/-- The contracts of a chain know each other, and belong to the GovernanceRouter. Home has
done nothing but dispatch messages of the GovernanceRouter. -/
structure Ready : Prop where
  reachable : (Home.system K).Reachable (ownedBy c.layout.deployer c.home)
  homeOwner : c.home.home.owner = c.layout.governance.proxy
  localDomain : c.home.home.localDomain = deploy.domain
  active : c.home.home.state = .Active
  updater : c.home.home.updater = deploy.config.updater
  updaterManager : c.home.home.updaterManager = c.layout.updaterManager
  sender : ∀ m ∈ c.home.dispatched, m.sender = c.layout.governance.proxy
  managerOwner : c.manager.owner = c.layout.governance.proxy
  managerHome : c.manager.home = c.layout.home.proxy
  registry : c.manager.Registered
  exact : ∀ e, c.manager.domainToReplica e ≠ 0 ↔ e ∈ remotes.map CoreDeploy.domain
  watchers : ∀ watcher e, c.manager.watcherPermissions watcher e = true ↔
    watcher ∈ deploy.config.watchers ∧ e ∈ remotes.map CoreDeploy.domain
  routerManager : c.router.xAppConnectionManager = c.layout.xAppConnectionManager
  routerDomain : c.router.localDomain = deploy.domain
  recovery : c.router.recoveryActiveAt = 0
  recoveryManager : c.router.recoveryManager = deploy.config.recoveryManager
  listed : c.router.Listed
  strangers : ∀ e, e ∉ remotes.map CoreDeploy.domain → c.router.routers e = 0

/-- What a chain knows of another one is what is there. -/
structure Knows (other : CoreDeploy Byte) (c' : Contracts Byte) : Prop where
  domainToReplica : c.manager.domainToReplica other.domain = (c.proxies other.domain).proxy
  replicaToDomain : c.manager.replicaToDomain (c.proxies other.domain).proxy = other.domain
  localDomain : (c.replicas other).localDomain = c.home.home.localDomain
  remoteDomain : (c.replicas other).remoteDomain = c'.home.home.localDomain
  homeDomainHash : Replica.homeDomainHash K (c.replicas other) =
    Home.homeDomainHash K c'.home.home
  active : (c.replicas other).state = .Active
  updater : (c.replicas other).updater = c'.home.home.updater
  committedRoot : (c.replicas other).committedRoot = c'.home.home.committedRoot
  optimisticSeconds :
    (c.replicas other).optimisticSeconds = other.config.optimisticSeconds
  router : c.router.routers other.domain = addressToBytes32 c'.layout.governance.proxy

/-- The Replica for a remote after `initialize`. -/
def firstReplica (deploy remote : CoreDeploy Byte) : Replica Byte where
  localDomain := deploy.domain
  PROCESS_GAS := deploy.config.processGas
  RESERVE_GAS := deploy.config.reserveGas
  updater := remote.config.updater
  state := .Active
  committedRoot := 0
  remoteDomain := remote.domain
  optimisticSeconds := remote.config.optimisticSeconds
  entered := 1
  confirmAt := Function.update (fun _ => 0) 0 1
  messages := fun _ => .None

theorem init_eq_firstReplica {deploy remote : CoreDeploy Byte}
    {fresh : Replica Byte} (h : Replica.deploy deploy.domain deploy.config.processGas
      deploy.config.reserveGas = .ok fresh) :
    fresh.init remote.domain remote.config.updater 0 remote.config.optimisticSeconds =
      firstReplica deploy remote := by
  obtain ⟨-, h⟩ := require_bind_eq_ok.mp h
  obtain ⟨-, h⟩ := require_bind_eq_ok.mp h
  obtain rfl := Except.ok.inj h
  rfl

/-! ### From the last stage -/

variable {K create remotes deploy site c} {L : Layout Byte} {address : UInt32 → Address Byte}
  {stage : Stage Byte} {p : BeaconProxy Byte} {code : Implementation}

omit [ByteAlphabet Byte] in
theorem proxied_of_accounts {controller : Address Byte} {account x : Account Byte}
    (hproxy : site.chain.accounts p.proxy = some account)
    (hcontroller : site.chain.accounts controller = some x) (hkind : account.kind ≠ x.kind)
    (hbeacon : site.chain.accounts p.beacon = some (.UpgradeBeacon p.implementation controller))
    (hcode : site.chain.accounts p.implementation = some (.implementation code)) :
    Proxied site p code := by
  have hne : p.proxy ≠ controller := by
    intro heq
    rw [heq, hcontroller] at hproxy
    exact hkind (congrArg Account.kind (Option.some.inj hproxy)).symm
  refine ⟨?_, hcode⟩
  rw [UpgradeBeaconProxy._getImplementation, hbeacon]
  exact if_neg hne

/-- The contracts of a chain at the last stage, where they should be. -/
theorem onChain_of_configured {hand : Handover Byte} {proxies : UInt32 → BeaconProxy Byte}
    {w₀ : World Byte} {manager : XAppConnectionManager Byte} {history : Home.History Byte}
    (h : Configured K create (layoutOf create w₀ deploy.domain) (addressOf create w₀) deploy
      (lastStage create w₀ remotes hand deploy proxies) site)
    (hmanager : site.chain.accounts (layoutOf create w₀ deploy.domain).xAppConnectionManager =
      some (.XAppConnectionManager manager))
    (hhome : site.chain.accounts (layoutOf create w₀ deploy.domain).home.proxy =
      some (.home (layoutOf create w₀ deploy.domain).home.beacon history)) :
    OnChain remotes deploy site ⟨layoutOf create w₀ deploy.domain, history, manager,
      routerAt (layoutOf create w₀ deploy.domain) (addressOf create w₀) deploy remotes
        hand.governor hand.governorDomain, proxies, firstReplica deploy⟩ where
  kept := h.kept.contracts
  controller := h.chain.controller
  updaterManager := h.chain.updaterManager
  manager := hmanager
  home := hhome
  homeProxied := proxied_of_accounts hhome h.chain.controller nofun h.chain.standing.homeBeacon
    h.chain.standing.homeImplementation
  router := h.chain.governance
  routerProxied := proxied_of_accounts h.chain.governance h.chain.controller nofun
    h.chain.standing.governanceBeacon h.chain.standing.governanceImplementation
  replica r hr := by
    have hreplica := h.chain.standing.replica r hr
    obtain ⟨fresh, hfresh, hproxy⟩ := hreplica.proxy
    rw [init_eq_firstReplica hfresh] at hproxy
    exact ⟨h.kept.lookup r hr, hproxy, proxied_of_accounts hproxy h.chain.controller nofun
      hreplica.beacon hreplica.implementation⟩

theorem listed_routerAt {routed : List (CoreDeploy Byte)} {governor : Address Byte}
    {governorDomain : UInt32} (hnodup : (routed.map CoreDeploy.domain).Nodup)
    (haddress : ∀ e, address e ≠ 0) :
    (routerAt L address deploy routed governor governorDomain).Listed := by
  intro e _
  have hdomains : (routerAt L address deploy routed governor governorDomain).domains =
      routed.map CoreDeploy.domain := rfl
  rw [hdomains, List.Nodup.count hnodup]
  by_cases he : e ∈ routed.map CoreDeploy.domain
  · rw [if_pos he, routerAt_routers he, if_neg (trueRouter_ne_zero (haddress e))]
  · have hzero : (routerAt L address deploy routed governor governorDomain).routers e = 0 :=
      if_neg he
    rw [if_neg he, hzero, if_pos rfl]

/-- The contracts of a chain at the last stage know each other. -/
theorem ready_of_homeAt {hand : Handover Byte} {proxies : UInt32 → BeaconProxy Byte}
    {sent : List (Dispatch Byte)} {manager : XAppConnectionManager Byte}
    {history : Home.History Byte} (hhome : HomeAt K L deploy L.governance.proxy sent history)
    (hmanager : ManagerAt L L.governance.proxy proxies remotes
      (remotes.flatMap fun r => deploy.config.watchers.map fun w => (w, r.domain)) manager)
    (hproxies : ∀ r ∈ remotes, (proxies r.domain).proxy ≠ 0)
    (hnodup : (remotes.map CoreDeploy.domain).Nodup) (haddress : ∀ e, address e ≠ 0) :
    Ready K remotes deploy ⟨L, history, manager, routerAt L address deploy remotes
      hand.governor hand.governorDomain, proxies, firstReplica deploy⟩ where
  reachable := hhome.reachable
  homeOwner := hhome.owner
  localDomain := hhome.localDomain
  active := hhome.state
  updater := hhome.updater
  updaterManager := hhome.updaterManager
  sender := hhome.sender
  managerOwner := hmanager.owner
  managerHome := hmanager.home
  registry := hmanager.registry
  exact e := by
    constructor
    · intro hne
      by_contra hnot
      exact hne (hmanager.others e hnot)
    · intro hmem
      obtain ⟨r, hr, rfl⟩ := List.mem_map.mp hmem
      rw [hmanager.enrolled r hr]
      exact hproxies r hr
  watchers watcher e := by
    rw [hmanager.permissions, List.mem_flatMap]
    constructor
    · rintro ⟨r, hr, hmem⟩
      obtain ⟨w, hw, heq⟩ := List.mem_map.mp hmem
      obtain ⟨rfl, rfl⟩ := Prod.mk.inj heq
      exact ⟨hw, List.mem_map_of_mem hr⟩
    · rintro ⟨hw, hmem⟩
      obtain ⟨r, hr, rfl⟩ := List.mem_map.mp hmem
      exact ⟨r, hr, List.mem_map_of_mem hw⟩
  routerManager := rfl
  routerDomain := rfl
  recovery := rfl
  recoveryManager := rfl
  listed := listed_routerAt hnodup haddress
  strangers e he := if_neg he

/-- A remote that is enrolled is known. -/
theorem knows_of_homeAt {hand hand' : Handover Byte} {proxies proxies' : UInt32 → BeaconProxy Byte}
    {L' : Layout Byte} {remote : CoreDeploy Byte} {remotes' : List (CoreDeploy Byte)}
    {owner owner' owner'' : Address Byte} {permissions : List (Address Byte × UInt32)}
    {sent sent' : List (Dispatch Byte)} {manager manager' : XAppConnectionManager Byte}
    {history history' : Home.History Byte}
    (hhome : HomeAt K L deploy owner sent history)
    (hhome' : HomeAt K L' remote owner' sent' history')
    (hmanager : ManagerAt L owner'' proxies remotes permissions manager)
    (hremote : remote ∈ remotes) (hproxy : (proxies remote.domain).proxy ≠ 0)
    (hzero : remote.domain ≠ 0) (haddress : address remote.domain = L'.governance.proxy) :
    Knows K ⟨L, history, manager, routerAt L address deploy remotes hand.governor
        hand.governorDomain, proxies, firstReplica deploy⟩ remote
      ⟨L', history', manager', routerAt L' address remote remotes' hand'.governor
        hand'.governorDomain, proxies', firstReplica remote⟩ where
  domainToReplica := hmanager.enrolled remote hremote
  replicaToDomain := (hmanager.registry.twoWay _ _ hzero hproxy).mp
    (hmanager.enrolled remote hremote)
  localDomain := hhome.localDomain.symm
  remoteDomain := hhome'.localDomain.symm
  homeDomainHash := by
    rw [Replica.homeDomainHash, Home.homeDomainHash, hhome'.localDomain]
    rfl
  active := rfl
  updater := hhome'.updater.symm
  committedRoot := by
    rw [hhome'.inStep.committedRoot_eq, Home.prefixRoot_zero]
    rfl
  optimisticSeconds := rfl
  router := by
    rw [routerAt_routers (List.mem_map_of_mem hremote), trueRouter, haddress]

/-! ### The deployment -/

section Deployment

variable {w₀ w : World Byte} {deploys nonGov : List (CoreDeploy Byte)} {gov : CoreDeploy Byte}

/-- The contracts of a chain after its check. -/
structure Found (K : Crypto Byte) (create : Address Byte → ℕ → Address Byte) (w₀ : World Byte)
    (remotes : List (CoreDeploy Byte)) (hand : Handover Byte) (d : CoreDeploy Byte)
    (site : Site Byte) (c : Contracts Byte) : Prop where
  eq : c = ⟨layoutOf create w₀ d.domain, c.home, c.manager,
    routerAt (layoutOf create w₀ d.domain) (addressOf create w₀) d remotes hand.governor
      hand.governorDomain, c.proxies, firstReplica d⟩
  onChain : OnChain remotes d site c
  homeAt : HomeAt K (layoutOf create w₀ d.domain) d (addressOf create w₀ d.domain)
    (enrollmentMessages (addressOf create w₀) [] remotes ++ hand.messages) c.home
  managerAt : ManagerAt (layoutOf create w₀ d.domain) (addressOf create w₀ d.domain) c.proxies
    remotes (remotes.flatMap fun r => d.config.watchers.map fun w => (w, r.domain)) c.manager
  nonzero : ∀ r ∈ remotes, (c.proxies r.domain).proxy ≠ 0

theorem exists_found_of_checked {hand : Handover Byte} {d : CoreDeploy Byte}
    (h : Checked K create w₀ remotes hand d site) :
    ∃ c, Found K create w₀ remotes hand d site c := by
  obtain ⟨proxies, site₀, hsite₀, rfl⟩ := h
  obtain ⟨history, hhome, hat⟩ := hsite₀.chain.home
  obtain ⟨manager, hmanager, hat'⟩ := hsite₀.chain.manager
  have honChain := onChain_of_configured hsite₀ hmanager hhome
  exact ⟨_, rfl, ⟨honChain.kept, honChain.controller, honChain.updaterManager, honChain.manager,
    honChain.home, honChain.homeProxied, honChain.router, honChain.routerProxied,
    honChain.replica⟩, hat, hat', fun r hr => (hsite₀.chain.standing.replica r hr).nonzero⟩

/-- **A deployment that returns has set up all chains.** The contracts of a chain know each
other, a chain knows what is on the others, and the governor is on the first chain. -/
theorem deployNChains_sets_up (h : Setting create w₀ (gov :: nonGov))
    (hrun : deployNChains K create (gov :: nonGov) w₀ = .ok w) :
    ∃ c : CoreDeploy Byte → Contracts Byte,
      (∀ d ∈ gov :: nonGov,
        OnChain (remotesOf (gov :: nonGov) d) d (w d.domain) (c d) ∧
        Ready K (remotesOf (gov :: nonGov) d) d (c d) ∧
        (c d).router.governorDomain = gov.domain ∧
        ((c d).router.governor ≠ 0 ↔ d.domain = gov.domain)) ∧
      ∀ a ∈ gov :: nonGov, ∀ b ∈ gov :: nonGov, a.domain ≠ b.domain →
        Knows K (c a) b (c b) := by
  obtain ⟨hdeployable, hchecked⟩ := h.deployNChains.sound w hrun
  let hand := handoverOf (addressOf create w₀) (gov :: nonGov) gov (firstHandover create w₀ gov)
  -- Outside the deployment the contracts of the first chain stand in.
  have hfound : ∀ d, ∃ c, d ∈ gov :: nonGov → Found K create w₀ (remotesOf (gov :: nonGov) d)
      (hand d) d (w d.domain) c := by
    intro d
    by_cases hd : d ∈ gov :: nonGov
    · obtain ⟨c, hc⟩ := exists_found_of_checked (hchecked d hd)
      exact ⟨c, fun _ => hc⟩
    · obtain ⟨c, -⟩ := exists_found_of_checked (hchecked gov List.mem_cons_self)
      exact ⟨c, fun hd' => absurd hd' hd⟩
  choose c hc using hfound
  refine ⟨c, fun d hd => ⟨(hc d hd).onChain, ?_, ?_, ?_⟩, fun a ha b hb hne => ?_⟩
  · rw [(hc d hd).eq]
    exact ready_of_homeAt (hc d hd).homeAt (hc d hd).managerAt (hc d hd).nonzero
      (h.nodup_remotes d) h.address_ne_zero
  · have hrouter := congrArg (GovernanceRouter.governorDomain ∘ Contracts.router) (hc d hd).eq
    refine hrouter.trans ?_
    simp only [Function.comp_apply, routerAt, hand, handoverOf]
    split_ifs <;> rfl
  · have hrouter := congrArg (GovernanceRouter.governor ∘ Contracts.router) (hc d hd).eq
    have hgovernor : (c d).router.governor = (hand d).governor := hrouter
    have hfirst := h.appointed_iff.mpr hdeployable.governor
    rw [hgovernor]
    simp only [hand, handoverOf]
    split_ifs with hd'
    · exact ⟨fun _ => hd', fun _ => hfirst.1⟩
    · exact ⟨fun hzero => absurd rfl hzero, fun heq => absurd heq hd'⟩
  · have hremote : b ∈ remotesOf (gov :: nonGov) a :=
      List.mem_filter.mpr ⟨hb, decide_eq_true hne.symm⟩
    have hzero : b.domain ≠ 0 := fun heq => h.nonzero (heq ▸ List.mem_map_of_mem hb)
    rw [(hc a ha).eq, (hc b hb).eq]
    exact knows_of_homeAt (hc a ha).homeAt (hc b hb).homeAt (hc a ha).managerAt hremote
      ((hc a ha).nonzero b hremote) hzero rfl

theorem deployNChains_sets_up_sample : ∃ w, ∃ c : CoreDeploy ℕ → Contracts ℕ,
    deployNChains (.withIdealHash fun _ _ => none) sampleCreate (sampleGov :: sampleNonGov)
      sampleWorld = .ok w ∧
    (∀ d ∈ sampleGov :: sampleNonGov, ((c d).router.governor ≠ 0 ↔ d.domain = 1)) ∧
    ∀ d ∈ sampleNonGov, Knows (.withIdealHash fun _ _ => none) (c d) sampleGov (c sampleGov) := by
  obtain ⟨w, hrun⟩ := sample_setting.deployNChains.complete sample_deployable
  obtain ⟨c, hchains, hknows⟩ := deployNChains_sets_up sample_setting hrun
  refine ⟨w, c, hrun, fun d hd => (hchains d hd).2.2.2, fun d hd => ?_⟩
  exact hknows d (List.mem_cons_of_mem _ hd) sampleGov List.mem_cons_self
    (sample_setting.domain_ne hd).symm

/-- **When a deployment returns.** -/
theorem deployNChains_returns_iff (h : Setting create w₀ deploys) :
    (∃ w, deployNChains K create deploys w₀ = .ok w) ↔
      ∃ gov nonGov, deploys = gov :: nonGov ∧ Deployable gov nonGov := by
  constructor
  · rintro ⟨w, hrun⟩
    cases deploys with
    | nil => cases hrun
    | cons gov nonGov => exact ⟨gov, nonGov, rfl, (h.deployNChains.sound w hrun).1⟩
  · rintro ⟨gov, nonGov, rfl, hdeployable⟩
    exact h.deployNChains.complete hdeployable

theorem deployNChains_returns_iff_sample : ∃ w, deployNChains (.withIdealHash fun _ _ => none)
    sampleCreate (sampleGov :: sampleNonGov) sampleWorld = .ok w :=
  (deployNChains_returns_iff sample_setting).mpr ⟨_, _, rfl, sample_deployable⟩

section Verification

variable {proxies : UInt32 → BeaconProxy Byte}

omit [ByteAlphabet Byte] [DecidableEq Byte] in
/-- Of several Replicas, all but the first have an entry after the checks. -/
theorem mem_checkedReplicas {first second r : CoreDeploy Byte} {rest : List (CoreDeploy Byte)}
    (hdistinct : ∀ r ∈ first :: second :: rest, ∀ r' ∈ first :: second :: rest,
      (proxies r.domain).proxy = (proxies r'.domain).proxy → r.domain = r'.domain)
    (hnodup : ((first :: second :: rest).map CoreDeploy.domain).Nodup)
    (hr : r ∈ first :: second :: rest) :
    ⟨.Proxy .Replica, (proxies r.domain).proxy⟩ ∈
      coreVerification L ++ checkedReplicas proxies (first :: second :: rest) ↔
        r.domain ≠ first.domain := by
  constructor
  · -- The entry of the first Replica would have to be that of another one.
    intro hmem hfirst
    have hother : ∃ r' ∈ second :: rest,
        (proxies r.domain).proxy = (proxies r'.domain).proxy := by
      simp only [coreVerification, checkedReplicas, List.mem_append, List.mem_cons,
        List.not_mem_nil, ContractVerificationInput.mk.injEq,
        ContractVerificationName.Proxy.injEq, reduceCtorEq, false_and, false_or, or_false,
        true_and] at hmem
      rcases hmem with heq | hmem
      · rw [List.getLastD_cons] at heq
        exact ⟨_, List.getLastD_mem_cons, heq⟩
      · obtain ⟨r', hr', heq⟩ := List.mem_map.mp hmem
        exact ⟨r', hr', (congrArg ContractVerificationInput.address heq).symm⟩
    obtain ⟨r', hr', heq⟩ := hother
    have hdomain := hdistinct r hr r' (List.mem_cons_of_mem first hr') heq
    rw [List.map_cons, List.nodup_cons] at hnodup
    exact hnodup.1 (hfirst.symm.trans hdomain ▸ List.mem_map_of_mem hr')
  · intro hne
    have hlater : r ∈ second :: rest :=
      (List.mem_cons.mp hr).resolve_left fun heq => hne (congrArg CoreDeploy.domain heq)
    refine List.mem_append_right _ ?_
    exact List.mem_cons_of_mem _ (List.mem_cons_of_mem _ (List.mem_cons_of_mem _
      (List.mem_map_of_mem hlater)))

omit [ByteAlphabet Byte] [DecidableEq Byte] in
/-- The verification input after the checks has all Replicas when there is no second one. -/
theorem mem_checkedReplicas_iff
    (hdistinct : ∀ r ∈ remotes, ∀ r' ∈ remotes,
      (proxies r.domain).proxy = (proxies r'.domain).proxy → r.domain = r'.domain)
    (hnodup : (remotes.map CoreDeploy.domain).Nodup) :
    (∀ r ∈ remotes, ⟨.Proxy .Replica, (proxies r.domain).proxy⟩ ∈
      coreVerification L ++ checkedReplicas proxies remotes) ↔ remotes.length ≤ 1 := by
  match remotes with
  | [] => simp
  | [first] => simp [checkedReplicas]
  | first :: second :: rest =>
    refine ⟨fun hall => ?_, fun hlength => by simp at hlength⟩
    have hfirst := hall first List.mem_cons_self
    exact absurd rfl ((mem_checkedReplicas hdistinct hnodup List.mem_cons_self).mp hfirst)

end Verification

/-- **The verification input after a deployment.** It has an entry for the proxy of every Replica
of a chain exactly when the chain has at most one remote. Otherwise the first Replica alone has
none. -/
theorem deployNChains_verification_iff (h : Setting create w₀ (gov :: nonGov))
    (hrun : deployNChains K create (gov :: nonGov) w₀ = .ok w) {d : CoreDeploy Byte}
    (hd : d ∈ gov :: nonGov) :
    ((∀ r ∈ remotesOf (gov :: nonGov) d, ∃ p,
      (w d.domain).contracts.replicas.lookup r.domain = some p ∧
      ⟨.Proxy .Replica, p.proxy⟩ ∈ (w d.domain).verificationInput) ↔ nonGov.length ≤ 1) ∧
    ∀ first second rest, remotesOf (gov :: nonGov) d = first :: second :: rest →
      ∀ r ∈ first :: second :: rest, ∃ p,
        (w d.domain).contracts.replicas.lookup r.domain = some p ∧
        (⟨.Proxy .Replica, p.proxy⟩ ∈ (w d.domain).verificationInput ↔
          r.domain ≠ first.domain) := by
  obtain ⟨proxies, site₀, hsite₀, hsite⟩ := (h.deployNChains.sound w hrun).2 d hd
  have hlookup : ∀ r ∈ remotesOf (gov :: nonGov) d,
      (w d.domain).contracts.replicas.lookup r.domain = some (proxies r.domain) := by
    intro r hr
    rw [hsite]
    exact hsite₀.kept.lookup r hr
  have hinput : (w d.domain).verificationInput = coreVerification (layoutOf create w₀ d.domain) ++
      checkedReplicas proxies (remotesOf (gov :: nonGov) d) := by rw [hsite]
  have hnodup := h.nodup_remotes d
  have hdistinct : ∀ r ∈ remotesOf (gov :: nonGov) d, ∀ r' ∈ remotesOf (gov :: nonGov) d,
      (proxies r.domain).proxy = (proxies r'.domain).proxy → r.domain = r'.domain :=
    hsite₀.ordered.distinct
  rw [hinput]
  constructor
  · have hlength := h.length_remotesOf hd
    rw [List.length_cons, Nat.add_right_cancel_iff] at hlength
    rw [← hlength, ← mem_checkedReplicas_iff (L := layoutOf create w₀ d.domain) hdistinct hnodup]
    refine forall₂_congr fun r hr => ?_
    rw [hlookup r hr]
    constructor
    · rintro ⟨p, hp, hmem⟩
      obtain rfl := Option.some.inj hp
      exact hmem
    · exact fun hmem => ⟨_, rfl, hmem⟩
  · intro first second rest hremotes
    rw [hremotes] at hlookup hdistinct hnodup ⊢
    exact fun r hr => ⟨_, hlookup r hr, mem_checkedReplicas hdistinct hnodup hr⟩

/-- With two remotes, the entry of the first one is lost, and that of the second is not. -/
theorem deployNChains_verification_iff_sample : ∃ w,
    deployNChains (.withIdealHash fun _ _ => none) sampleCreate (sampleGov :: sampleNonGov)
      sampleWorld = .ok w ∧
    (¬ ∀ r ∈ sampleNonGov, ∃ p, (w 1).contracts.replicas.lookup r.domain = some p ∧
      ⟨.Proxy .Replica, p.proxy⟩ ∈ (w 1).verificationInput) ∧
    ∃ p, (w 1).contracts.replicas.lookup 3 = some p ∧
      ⟨.Proxy .Replica, p.proxy⟩ ∈ (w 1).verificationInput := by
  obtain ⟨w, hrun⟩ := sample_setting.deployNChains.complete sample_deployable
  obtain ⟨hall, hlost⟩ := deployNChains_verification_iff sample_setting hrun (d := sampleGov)
    List.mem_cons_self
  refine ⟨w, hrun, fun hentries => absurd (hall.mp hentries) (by decide), ?_⟩
  obtain ⟨p, hlookup, hentry⟩ := hlost _ _ [] rfl (sampleDeploy 3 none) (by simp)
  exact ⟨p, hlookup, hentry.mpr (by decide)⟩

end Deployment

end Optics.Deployment
