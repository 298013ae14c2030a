/-
# Deploying proxies

A proxy is created behind a beacon that answers an implementation whose `initialize`
succeeds. When the constructor of the implementation reverts, the script learns of it
from the proxy only: the beacon finds no implementation, and the proxy finds no beacon.
-/

import Optics.Deployment.Calls

namespace Optics.Deployment

open Optics.Solidity Optics.Math.Transition Optics.Governance
open Optics.GovernanceRouter (Dispatch)

variable {Byte : Type}

/-- The addresses of new contracts: an account creates no contract twice at one address, and
none at the zero address. -/
structure Creates (create : Address Byte → ℕ → Address Byte) [ByteAlphabet Byte] : Prop where
  injective : ∀ a, Function.Injective (create a)
  ne_zero : ∀ a n, create a n ≠ 0

variable [ByteAlphabet Byte] [DecidableEq Byte] {K : Crypto Byte}
  {create : Address Byte → ℕ → Address Byte} {L : Layout Byte} {address : UInt32 → Address Byte}
  {deploy : CoreDeploy Byte} {stage : Stage Byte} {chain : Chain Byte} {site : Site Byte}

/-! ### Constructors -/

section Constructors

variable {beacon implementation controller proxy : Address Byte} {initData : InitData Byte}
  {account code : Account Byte}

/-- The constructor of a proxy whose `initialize` succeeds. -/
theorem construct_proxy_of_ok
    (hbeacon : chain.accounts beacon = some (.UpgradeBeacon implementation controller))
    (hproxy : proxy ≠ controller) (hcode : chain.accounts implementation = some code)
    (hinit : UpgradeBeaconProxy._initialize beacon implementation initData chain = .ok account) :
    UpgradeBeaconProxy.construct beacon initData proxy chain = .ok account := by
  have hisBeacon : chain.isContract beacon = true := by rw [Chain.isContract, hbeacon]; rfl
  have hisCode : chain.isContract implementation = true := by rw [Chain.isContract, hcode]; rfl
  rw [UpgradeBeaconProxy.construct, require_of hisBeacon, ok_bind,
    UpgradeBeaconProxy._getImplementation, hbeacon]
  simp only [if_neg hproxy, ok_bind]
  rw [require_of hisCode, ok_bind, hinit]

/-- The constructor of a proxy without a beacon. -/
theorem construct_proxy_of_none (initData : InitData Byte)
    (hbeacon : chain.accounts beacon = none) :
    UpgradeBeaconProxy.construct beacon initData proxy chain =
      .error (.require "beacon !contract") := by
  have hnot : ¬ chain.isContract beacon = true := by simp [Chain.isContract, hbeacon]
  rw [UpgradeBeaconProxy.construct, require_of_not hnot]
  rfl

/-- The constructor of a beacon. -/
theorem construct_beacon_of_ok (controller : Address Byte) (hzero : implementation ≠ 0)
    (hcode : chain.accounts implementation = some code) :
    UpgradeBeacon.construct implementation controller beacon chain =
      .ok (.UpgradeBeacon implementation controller) := by
  have hisCode : chain.isContract implementation = true := by rw [Chain.isContract, hcode]; rfl
  rw [UpgradeBeacon.construct, require_of hzero, ok_bind, require_of hisCode]
  rfl

/-- The constructor of a beacon without an implementation. -/
theorem construct_beacon_of_none (controller : Address Byte) (hzero : implementation ≠ 0)
    (hcode : chain.accounts implementation = none) :
    UpgradeBeacon.construct implementation controller beacon chain =
      .error (.require "implementation !contract") := by
  have hnot : ¬ chain.isContract implementation = true := by simp [Chain.isContract, hcode]
  rw [UpgradeBeacon.construct, require_of hzero, ok_bind, require_of_not hnot]
  rfl

end Constructors

/-! ### Creations -/

/-- The chain after some creations: no account changes. -/
structure Extends (chain chain' : Chain Byte) : Prop where
  deployer : chain'.deployer = chain.deployer
  accounts : ∀ a x, chain.accounts a = some x → chain'.accounts a = some x

omit [ByteAlphabet Byte] [DecidableEq Byte] in
theorem Extends.trans {c₁ c₂ c₃ : Chain Byte} (h : Extends c₁ c₂) (h' : Extends c₂ c₃) :
    Extends c₁ c₃ :=
  ⟨h'.deployer.trans h.deployer, fun a x hx => h'.accounts a x (h.accounts a x hx)⟩

/-- A chain before and after a creation at the next address. -/
structure Created (create : Address Byte → ℕ → Address Byte) (account : Account Byte)
    (chain chain' : Chain Byte) : Prop where
  extends_ : Extends chain chain'
  nonce : chain'.nonce = chain.nonce + 1
  fresh : chain'.Fresh create
  free : chain.accounts (create chain.deployer chain.nonce) = none
  account : chain'.accounts (create chain.deployer chain.nonce) = some account

/-- A constructor that succeeds. -/
theorem created_of_construct (hcreate : Creates create) (hfresh : chain.Fresh create)
    {construct : Constructor Byte} {account : Account Byte}
    (hconstruct : construct (create chain.deployer chain.nonce) chain = .ok account) :
    ∃ chain', chain.deploy create construct =
        (create chain.deployer chain.nonce, .ok (), chain') ∧
      Created create account chain chain' :=
  ⟨_, Chain.deploy_of_ok hfresh hconstruct,
    ⟨rfl, fun _ _ hx => Chain.accounts_setAccount_of_none (hfresh _ le_rfl) hx⟩, rfl,
    hfresh.created (hcreate.injective _), hfresh _ le_rfl, Chain.setAccount_self _ _ _⟩

/-- Creations take a chain to no other stage. -/
theorem ChainAt.extend (h : ChainAt K create L address deploy stage chain) {chain' : Chain Byte}
    (hextends : Extends chain chain') (hfresh : chain'.Fresh create) :
    ChainAt K create L address deploy stage chain' where
  deployer := hextends.deployer.trans h.deployer
  fresh := hfresh
  controller := hextends.accounts _ _ h.controller
  updaterManager := hextends.accounts _ _ h.updaterManager
  home := by
    obtain ⟨history, hhome, hat⟩ := h.home
    exact ⟨history, hextends.accounts _ _ hhome, hat⟩
  governance := hextends.accounts _ _ h.governance
  manager := by
    obtain ⟨manager, hmanager, hat⟩ := h.manager
    exact ⟨manager, hextends.accounts _ _ hmanager, hat⟩
  standing := h.standing.mono fun b z _ hb => hextends.accounts b z hb

/-! ### `_deployProxy` and `deployProxy` -/

section DeployProxy

variable {ubc beacon implementation controller : Address Byte} {initData : InitData Byte}
  {account x : Account Byte} {code : Implementation} {name : ProxyNames}

/-- A proxy behind a beacon that is there. -/
theorem deployProxy_of_beacon (site : Site Byte) (initData : InitData Byte)
    (account : Account Byte) (hcreate : Creates create) (hfresh : site.chain.Fresh create)
    (hbeacon : site.chain.accounts beacon = some (.UpgradeBeacon implementation controller))
    (hcontroller : site.chain.accounts controller = some x)
    (hcode : site.chain.accounts implementation = some (.implementation code))
    (hinit : UpgradeBeaconProxy._initialize beacon implementation initData site.chain =
      .ok account) :
    ∃ chain', _deployProxy create beacon initData site =
        .ok (create site.chain.deployer site.chain.nonce, { site with chain := chain' }) ∧
      Created create account site.chain chain' := by
  have hne : create site.chain.deployer site.chain.nonce ≠ controller := by
    intro heq
    have hnone := hfresh _ le_rfl
    rw [heq, hcontroller] at hnone
    cases hnone
  obtain ⟨chain', hdeploy, hcreated⟩ := created_of_construct hcreate hfresh
    (construct_proxy_of_ok hbeacon hne hcode hinit)
  refine ⟨chain', ?_, hcreated⟩
  rw [_deployProxy, hdeploy]
  rfl

/-- What `deployProxy` leaves: the implementation, the beacon and the proxy at the next three
addresses. -/
structure NewProxy (create : Address Byte → ℕ → Address Byte) (name : ProxyNames)
    (code : Implementation) (ubc : Address Byte) (account : Account Byte) (p : BeaconProxy Byte)
    (site site' : Site Byte) : Prop where
  contracts : site'.contracts = site.contracts
  verification : site'.verificationInput = site.verificationInput ++
    [⟨.Implementation name, p.implementation⟩, ⟨.UpgradeBeacon name, p.beacon⟩,
      ⟨.Proxy name, p.proxy⟩]
  nonce : site'.chain.nonce = site.chain.nonce + 3
  extends_ : Extends site.chain site'.chain
  fresh : site'.chain.Fresh create
  new : site.chain.accounts p.proxy = none
  address : p = ⟨create site.chain.deployer site.chain.nonce,
    create site.chain.deployer (site.chain.nonce + 2),
    create site.chain.deployer (site.chain.nonce + 1)⟩
  implementation : site'.chain.accounts p.implementation = some (.implementation code)
  beacon : site'.chain.accounts p.beacon = some (.UpgradeBeacon p.implementation ubc)
  proxy : site'.chain.accounts p.proxy = some account

/-- `deployProxy` of an implementation that can be constructed and initialized. -/
theorem deployProxy_of_ok (site : Site Byte) (name : ProxyNames) (code : Implementation)
    (initData : InitData Byte) (account : Account Byte) (hcreate : Creates create)
    (hfresh : site.chain.Fresh create)
    (hubc : site.contracts.upgradeBeaconController = some ubc)
    (hx : site.chain.accounts ubc = some x)
    (hconstruct : ∀ (a : Address Byte) c, Implementation.construct code a c =
      .ok (.implementation code))
    (hinit : ∀ chain', Extends site.chain chain' →
      chain'.accounts (create site.chain.deployer site.chain.nonce) = some (.implementation code) →
      UpgradeBeaconProxy._initialize (create site.chain.deployer (site.chain.nonce + 1))
        (create site.chain.deployer site.chain.nonce) initData chain' = .ok account) :
    ∃ p site', deployProxy create name code initData site = .ok (p, site') ∧
      NewProxy create name code ubc account p site site' := by
  -- the implementation
  obtain ⟨c₁, hdeploy₁, h₁⟩ := created_of_construct hcreate hfresh (hconstruct _ _)
  -- its beacon
  obtain ⟨c₂, hdeploy₂, h₂⟩ := created_of_construct hcreate h₁.fresh
    (construct_beacon_of_ok ubc (hcreate.ne_zero _ _) h₁.account)
  have haddress₂ : create c₁.deployer c₁.nonce =
      create site.chain.deployer (site.chain.nonce + 1) := by rw [h₁.extends_.deployer, h₁.nonce]
  rw [haddress₂] at hdeploy₂
  have hbeacon := h₂.account
  rw [haddress₂] at hbeacon
  -- the proxy
  have hextends := h₁.extends_.trans h₂.extends_
  have hcode := h₂.extends_.accounts _ _ h₁.account
  obtain ⟨c₃, hdeploy₃, h₃⟩ := deployProxy_of_beacon { site with chain := c₂ } initData
    account hcreate h₂.fresh
    hbeacon (hextends.accounts _ _ hx) hcode (hinit c₂ hextends hcode)
  have haddress₃ : create c₂.deployer c₂.nonce =
      create site.chain.deployer (site.chain.nonce + 2) := by
    rw [hextends.deployer, h₂.nonce, h₁.nonce]
  let p : BeaconProxy Byte := ⟨create site.chain.deployer site.chain.nonce,
    create c₂.deployer c₂.nonce, create site.chain.deployer (site.chain.nonce + 1)⟩
  refine ⟨p, ⟨c₃, site.contracts, site.verificationInput ++ [⟨.Implementation name,
      p.implementation⟩, ⟨.UpgradeBeacon name, p.beacon⟩, ⟨.Proxy name, p.proxy⟩]⟩, ?_,
    rfl, rfl, ?_, hextends.trans h₃.extends_, h₃.fresh, ?_, ?_,
    h₃.extends_.accounts _ _ hcode, h₃.extends_.accounts _ _ hbeacon, h₃.account⟩
  · rw [deployProxy, hdeploy₁]
    simp only [hubc, defined, ok_bind]
    rw [hdeploy₂]
    simp only [hdeploy₃, ok_bind]
    simp [Site.push, p]
  · exact h₃.nonce.trans (by rw [h₂.nonce, h₁.nonce])
  · exact (congrArg site.chain.accounts haddress₃).trans (hfresh _ (by omega))
  · simp only [p, haddress₃]

/-- `deployProxy` of an implementation whose constructor reverts. -/
theorem deployProxy_of_revert (hcreate : Creates create) (hfresh : site.chain.Fresh create)
    (hubc : site.contracts.upgradeBeaconController = some ubc)
    (hconstruct : ∀ (a : Address Byte) c, ∃ e, Implementation.construct code a c = .error e) :
    deployProxy create name code initData site =
      .error (.reverted (.require "beacon !contract")) := by
  -- the implementation
  obtain ⟨e, hrevert⟩ := hconstruct (create site.chain.deployer site.chain.nonce) site.chain
  have hdeploy₁ := Chain.deploy_of_error hfresh hrevert
  have hnone₁ : site.chain.next.accounts (create site.chain.deployer site.chain.nonce) = none :=
    hfresh _ le_rfl
  -- its beacon
  have hdeploy₂ := Chain.deploy_of_error hfresh.next
    (construct_beacon_of_none ubc (hcreate.ne_zero _ _) hnone₁)
  have hnone₂ : site.chain.next.next.accounts
      (create site.chain.deployer (site.chain.nonce + 1)) = none := hfresh _ (Nat.le_succ _)
  -- the proxy
  have hdeploy₃ := Chain.deploy_of_error hfresh.next.next
    (construct_proxy_of_none initData hnone₂)
  rw [deployProxy, hdeploy₁]
  simp only [hubc, defined, ok_bind, hdeploy₂, _deployProxy, Chain.next_deployer, Chain.next_nonce]
  simp only [Chain.next_deployer, Chain.next_nonce] at hdeploy₃
  rw [hdeploy₃]
  rfl

end DeployProxy

/-! ### The Replicas -/

section Replicas

variable {remote : CoreDeploy Byte} {p : BeaconProxy Byte} {chain' : Chain Byte}
  {fresh : Replica Byte}

omit [ByteAlphabet Byte] [DecidableEq Byte] in
private theorem lookup_filter (f : UInt32 → Bool) (e : UInt32)
    (l : List (UInt32 × BeaconProxy Byte)) :
    (l.filter fun q => f q.1).lookup e = if f e then l.lookup e else none := by
  induction l with
  | nil => simp
  | cons q l ih =>
    obtain ⟨d, x⟩ := q
    by_cases hd : e = d
    · subst hd
      cases hf : f e <;> simp [hf, ih]
    · have hne : (e == d) = false := by simpa using hd
      cases hf : f d <;> simp [hf, ih, List.lookup_cons, hne]

omit [ByteAlphabet Byte] [DecidableEq Byte] in
/-- The record of the Replicas after one is set. -/
theorem CoreContracts.lookup_setReplica (contracts : CoreContracts Byte) (d e : UInt32) :
    (contracts.setReplica d p).replicas.lookup e =
      if e = d then some p else contracts.replicas.lookup e := by
  rw [setReplica, List.lookup_append, List.lookup_cons, lookup_filter (fun k => decide (k < d)),
    lookup_filter (fun k => decide (d < k))]
  simp only [decide_eq_true_eq]
  by_cases he : e = d
  · subst he
    simp [UInt32.lt_irrefl]
  · have hne : (e == d) = false := by simpa using he
    rw [if_neg he, hne]
    rcases Nat.lt_or_gt_of_ne (fun heq => he (UInt32.toNat_inj.mp heq)) with hlt | hlt
    · have hnot : ¬ d < e := UInt32.not_lt.mpr (UInt32.le_of_lt hlt)
      simp [show e < d from hlt, hnot]
    · have hnot : ¬ e < d := UInt32.not_lt.mpr (UInt32.le_of_lt hlt)
      simp [show d < e from hlt, hnot]

section Update

variable {replicas : List (CoreDeploy Byte)} {proxies : UInt32 → BeaconProxy Byte}
  (hfree : remote.domain ∉ replicas.map CoreDeploy.domain)

include hfree

omit [ByteAlphabet Byte] [DecidableEq Byte] in
/-- The other Replicas keep their addresses. -/
theorem update_proxies_of_mem {r : CoreDeploy Byte} (hr : r ∈ replicas) :
    Function.update proxies remote.domain p r.domain = proxies r.domain := by
  refine Function.update_of_ne (fun heq => hfree ?_) _ _
  exact heq ▸ List.mem_map_of_mem hr

omit [DecidableEq Byte] in
theorem ManagerAt.update_proxies {owner : Address Byte} {registered : List (CoreDeploy Byte)}
    {permissions : List (Address Byte × UInt32)} {manager : XAppConnectionManager Byte}
    (h : ManagerAt L owner proxies registered permissions manager)
    (hregistered : ∀ r ∈ registered, r ∈ replicas) :
    ManagerAt L owner (Function.update proxies remote.domain p) registered permissions
      manager where
  owner := h.owner
  home := h.home
  registry := h.registry
  enrolled r hr := by
    rw [update_proxies_of_mem hfree (hregistered r hr)]
    exact h.enrolled r hr
  others := h.others
  permissions := h.permissions

theorem Standing.addReplica (h : Standing L deploy replicas proxies chain)
    (hnew : ReplicaAt L deploy chain p remote) :
    Standing L deploy (replicas ++ [remote]) (Function.update proxies remote.domain p)
      chain where
  homeBeacon := h.homeBeacon
  homeImplementation := h.homeImplementation
  governanceBeacon := h.governanceBeacon
  governanceImplementation := h.governanceImplementation
  replica r hr := by
    rcases List.mem_append.mp hr with hr | hr
    · rw [update_proxies_of_mem hfree hr]
      exact h.replica r hr
    · obtain rfl := List.mem_singleton.mp hr
      rw [Function.update_self]
      exact hnew

omit [ByteAlphabet Byte] [DecidableEq Byte] in
/-- A new Replica in what the script keeps. -/
theorem Kept.addReplica (h : Kept L replicas proxies site) (chain' : Chain Byte)
    {entries : List (ContractVerificationInput Byte)}
    (hentries : verificationAt L (replicas ++ [remote]) (Function.update proxies remote.domain p) =
      verificationAt L replicas proxies ++ entries) :
    Kept L (replicas ++ [remote]) (Function.update proxies remote.domain p)
      ⟨chain', site.contracts.setReplica remote.domain p,
        site.verificationInput ++ entries⟩ where
  contracts := by
    have hcontracts := h.contracts
    simp only [CoreContracts.setReplica]
    rw [hcontracts]
  lookup r hr := by
    rw [CoreContracts.lookup_setReplica]
    rcases List.mem_append.mp hr with hr | hr
    · have hne : r.domain ≠ remote.domain := fun heq => hfree (heq ▸ List.mem_map_of_mem hr)
      rw [if_neg hne, Function.update_of_ne hne]
      exact h.lookup r hr
    · obtain rfl := List.mem_singleton.mp hr
      rw [if_pos rfl, Function.update_self]
  keys q hq := by
    have hold : q ∈ site.contracts.replicas → q.1 ≠ remote.domain →
        q.1 ∈ (replicas ++ [remote]).map CoreDeploy.domain ∧
          q.2 = Function.update proxies remote.domain p q.1 := by
      intro hmem hne
      obtain ⟨hkey, hvalue⟩ := h.keys q hmem
      rw [Function.update_of_ne hne, List.map_append]
      exact ⟨List.mem_append_left _ hkey, hvalue⟩
    rcases List.mem_append.mp hq with hq | hq
    · obtain ⟨hmem, hlt⟩ := List.mem_filter.mp hq
      exact hold hmem (UInt32.ne_of_lt (of_decide_eq_true hlt))
    · rcases List.mem_cons.mp hq with rfl | hq
      · simp
      · obtain ⟨hmem, hlt⟩ := List.mem_filter.mp hq
        exact hold hmem (UInt32.ne_of_lt (of_decide_eq_true hlt)).symm
  verification := by rw [hentries, ← h.verification]

end Update

/-- A new Replica on a chain. -/
theorem ChainAt.addReplica (h : ChainAt K create L address deploy stage chain)
    (hordered : stage.Ordered) (hextends : Extends chain chain') (hfresh : chain'.Fresh create)
    (hfree : remote.domain ∉ stage.replicas.map CoreDeploy.domain)
    (hnew : ReplicaAt L deploy chain' p remote) :
    ChainAt K create L address deploy
      { stage with
        replicas := stage.replicas ++ [remote]
        proxies := Function.update stage.proxies remote.domain p } chain' := by
  have hextended := h.extend hextends hfresh
  obtain ⟨manager, hmanager, hat⟩ := hextended.manager
  exact ⟨hextended.deployer, hfresh, hextended.controller, hextended.updaterManager,
    hextended.home, hextended.governance,
    ⟨manager, hmanager, hat.update_proxies hfree hordered.registered⟩,
    hextended.standing.addReplica hfree hnew⟩

omit [ByteAlphabet Byte] [DecidableEq Byte] in
/-- A Replica at a new address, with the beacon of the others. -/
theorem Stage.Ordered.addReplica (h : stage.Ordered)
    (hfree : remote.domain ∉ stage.replicas.map CoreDeploy.domain)
    (hdistinct : ∀ r ∈ stage.replicas, (stage.proxies r.domain).proxy ≠ p.proxy)
    (hshared : ∀ r ∈ stage.replicas, (stage.proxies r.domain).beacon = p.beacon ∧
      (stage.proxies r.domain).implementation = p.implementation) :
    Stage.Ordered { stage with
      replicas := stage.replicas ++ [remote]
      proxies := Function.update stage.proxies remote.domain p } where
  distinct r hr r' hr' heq := by
    change (Function.update stage.proxies remote.domain p r.domain).proxy =
      (Function.update stage.proxies remote.domain p r'.domain).proxy at heq
    rcases List.mem_append.mp hr with hr | hr
    · rw [update_proxies_of_mem hfree hr] at heq
      rcases List.mem_append.mp hr' with hr' | hr'
      · rw [update_proxies_of_mem hfree hr'] at heq
        exact h.distinct r hr r' hr' heq
      · rw [List.mem_singleton.mp hr', Function.update_self] at heq
        exact absurd heq (hdistinct r hr)
    · rw [List.mem_singleton.mp hr, Function.update_self] at heq
      rcases List.mem_append.mp hr' with hr' | hr'
      · rw [update_proxies_of_mem hfree hr'] at heq
        exact absurd heq.symm (hdistinct r' hr')
      · rw [List.mem_singleton.mp hr, List.mem_singleton.mp hr']
  shared r hr r' hr' := by
    -- Each has the beacon and the implementation of the new one.
    have hall : ∀ s ∈ stage.replicas ++ [remote],
        (Function.update stage.proxies remote.domain p s.domain).beacon = p.beacon ∧
          (Function.update stage.proxies remote.domain p s.domain).implementation =
            p.implementation := by
      intro s hs
      rcases List.mem_append.mp hs with hs | hs
      · rw [update_proxies_of_mem hfree hs]
        exact hshared s hs
      · rw [List.mem_singleton.mp hs, Function.update_self]
        exact ⟨rfl, rfl⟩
    exact ⟨(hall r hr).1.trans (hall r' hr').1.symm, (hall r hr).2.trans (hall r' hr').2.symm⟩
  registered r hr := List.mem_append_left _ (h.registered r hr)

omit [ByteAlphabet Byte] [DecidableEq Byte] in
theorem verificationAt_first {replicas : List (CoreDeploy Byte)} (hnil : replicas = [])
    (proxies : UInt32 → BeaconProxy Byte) :
    verificationAt L (replicas ++ [remote]) (Function.update proxies remote.domain p) =
      verificationAt L replicas proxies ++ [⟨.Implementation .Replica, p.implementation⟩,
        ⟨.UpgradeBeacon .Replica, p.beacon⟩, ⟨.Proxy .Replica, p.proxy⟩] := by
  subst hnil
  simp [verificationAt, replicaVerification]

omit [ByteAlphabet Byte] [DecidableEq Byte] in
theorem verificationAt_more {replicas : List (CoreDeploy Byte)} (hne : replicas ≠ [])
    (hfree : remote.domain ∉ replicas.map CoreDeploy.domain)
    (proxies : UInt32 → BeaconProxy Byte) :
    verificationAt L (replicas ++ [remote]) (Function.update proxies remote.domain p) =
      verificationAt L replicas proxies ++ [⟨.Proxy .Replica, p.proxy⟩] := by
  obtain ⟨first, rest, rfl⟩ := List.exists_cons_of_ne_nil hne
  have hsame : ∀ r ∈ first :: rest,
      Function.update proxies remote.domain p r.domain = proxies r.domain :=
    fun r hr => update_proxies_of_mem hfree hr
  have hmap : (first :: rest).map (fun r => (⟨.Proxy .Replica,
        (Function.update proxies remote.domain p r.domain).proxy⟩ :
          ContractVerificationInput Byte)) =
      (first :: rest).map fun r => ⟨.Proxy .Replica, (proxies r.domain).proxy⟩ :=
    List.map_congr_left fun r hr => by rw [hsame r hr]
  simp only [List.map_cons, List.cons.injEq] at hmap
  simp [verificationAt, replicaVerification, hmap.2, hsame first List.mem_cons_self]

/-- The Replicas of the record are those that are deployed. -/
theorem Configured.replicas_head (h : Configured K create L address deploy stage site) :
    (stage.replicas = [] ∧ site.contracts.replicas = []) ∨
      ∃ r ∈ stage.replicas, ∃ rest,
        site.contracts.replicas = (r.domain, stage.proxies r.domain) :: rest := by
  cases hreplicas : site.contracts.replicas with
  | nil =>
    left
    refine ⟨?_, rfl⟩
    by_contra hne
    obtain ⟨r, hr⟩ := List.exists_mem_of_ne_nil _ hne
    have hlookup := h.kept.lookup r hr
    rw [hreplicas] at hlookup
    cases hlookup
  | cons q rest =>
    right
    obtain ⟨hmem, hq⟩ := h.kept.keys q (hreplicas ▸ List.mem_cons_self)
    obtain ⟨r, hr, hdomain⟩ := List.mem_map.mp hmem
    refine ⟨r, hr, rest, ?_⟩
    rw [hdomain, ← hq]

/-- A Replica for a remote that has none is deployed when its gas constants are in
bounds. -/
theorem Configured.deployUnenrolledReplica
    (h : Configured K create L address deploy stage site) (hcreate : Creates create)
    (hfree : remote.domain ∉ stage.replicas.map CoreDeploy.domain)
    (hgas : Replica.deploy deploy.domain deploy.config.processGas deploy.config.reserveGas =
      .ok fresh) :
    ∃ p site', deployUnenrolledReplica create deploy remote site = .ok site' ∧
      Configured K create L address deploy { stage with
        replicas := stage.replicas ++ [remote]
        proxies := Function.update stage.proxies remote.domain p } site' := by
  have hcontroller := h.chain.controller
  have hubc := h.kept.upgradeBeaconController
  rcases h.replicas_head with ⟨hnil, hrecord⟩ | ⟨r, hr, rest, hrecord⟩
  · -- the first Replica
    obtain ⟨p, site', hdeploy, hnew⟩ := deployProxy_of_ok site .Replica
      (.Replica deploy.domain deploy.config.processGas deploy.config.reserveGas)
      (.Replica remote.domain remote.config.updater 0 remote.config.optimisticSeconds)
      (.replica (create site.chain.deployer (site.chain.nonce + 1))
        (fresh.init remote.domain remote.config.updater 0 remote.config.optimisticSeconds))
      hcreate h.chain.fresh hubc hcontroller
      (fun a c => by simp only [Implementation.construct, hgas, ok_bind])
      fun c _ hcode => by simp only [UpgradeBeaconProxy._initialize, hcode, hgas, ok_bind]
    have hproxy := hnew.proxy
    rw [show create site.chain.deployer (site.chain.nonce + 1) = p.beacon by
      rw [hnew.address]] at hproxy
    have hreplica : ReplicaAt L deploy site'.chain p remote :=
      ⟨⟨fresh, hgas, hproxy⟩, hnew.beacon, hnew.implementation,
        by rw [hnew.address]; exact hcreate.ne_zero _ _⟩
    refine ⟨p, ⟨site'.chain, site.contracts.setReplica remote.domain p, _⟩, ?_,
      h.chain.addReplica h.ordered hnew.extends_ hnew.fresh hfree hreplica,
      h.kept.addReplica hfree site'.chain (verificationAt_first hnil stage.proxies),
      h.ordered.addReplica hfree ?_ ?_⟩
    · simp only [Deployment.deployUnenrolledReplica, hrecord, hdeploy, ok_bind, hnew.contracts]
      rw [← hnew.verification]
    · rw [hnil]
      nofun
    · rw [hnil]
      nofun
  · -- a later one
    have hold := h.chain.standing.replica r hr
    have hne : stage.replicas ≠ [] := List.ne_nil_of_mem hr
    obtain ⟨chain', hdeploy, hcreated⟩ := deployProxy_of_beacon site
      (.Replica remote.domain remote.config.updater 0 remote.config.optimisticSeconds)
      (.replica (stage.proxies r.domain).beacon
        (fresh.init remote.domain remote.config.updater 0 remote.config.optimisticSeconds))
      hcreate h.chain.fresh hold.beacon hcontroller hold.implementation
      (by simp only [UpgradeBeaconProxy._initialize, hold.implementation, hgas, ok_bind])
    let p : BeaconProxy Byte := ⟨(stage.proxies r.domain).implementation,
      create site.chain.deployer site.chain.nonce, (stage.proxies r.domain).beacon⟩
    have hreplica : ReplicaAt L deploy chain' p remote :=
      ⟨⟨fresh, hgas, hcreated.account⟩, hcreated.extends_.accounts _ _ hold.beacon,
        hcreated.extends_.accounts _ _ hold.implementation, hcreate.ne_zero _ _⟩
    refine ⟨p, ⟨chain', site.contracts.setReplica remote.domain p, _⟩, ?_,
      h.chain.addReplica h.ordered hcreated.extends_ hcreated.fresh hfree hreplica,
      h.kept.addReplica hfree chain' (verificationAt_more hne hfree stage.proxies),
      h.ordered.addReplica hfree (fun r' hr' heq => ?_) fun r' hr' => h.ordered.shared r' hr' r hr⟩
    · simp only [Deployment.deployUnenrolledReplica, hrecord, duplicate, hdeploy, ok_bind]
      rfl
    · obtain ⟨_, -, hproxy⟩ := (h.chain.standing.replica r' hr').proxy
      rw [heq, hcreated.free] at hproxy
      cases hproxy

/-- Without a Replica to share its beacon, none is deployed with gas constants out of
bounds. -/
theorem Configured.gas_of_deployUnenrolledReplica
    (h : Configured K create L address deploy stage site) (hcreate : Creates create)
    {site' : Site Byte}
    (hdeploy : Deployment.deployUnenrolledReplica create deploy remote site = .ok site') :
    ∃ fresh : Replica Byte, Replica.deploy deploy.domain deploy.config.processGas
      deploy.config.reserveGas = .ok fresh := by
  rcases h.replicas_head with ⟨-, hrecord⟩ | ⟨r, hr, -⟩
  · have hubc := h.kept.upgradeBeaconController
    cases hgas : (Replica.deploy deploy.domain deploy.config.processGas deploy.config.reserveGas :
        Except Revert (Replica Byte)) with
    | ok fresh => exact ⟨fresh, rfl⟩
    | error e =>
      have hrevert : ∀ a (c : Chain Byte), ∃ e, Implementation.construct (.Replica deploy.domain
          deploy.config.processGas deploy.config.reserveGas) a c = .error e := by
        intro a c
        exact ⟨e, by simp only [Implementation.construct, hgas]; rfl⟩
      simp only [Deployment.deployUnenrolledReplica, hrecord,
        deployProxy_of_revert hcreate h.chain.fresh hubc hrevert] at hdeploy
      cases hdeploy
  · obtain ⟨fresh, hgas, -⟩ := (h.chain.standing.replica r hr).proxy
    exact ⟨fresh, hgas⟩

end Replicas

end Optics.Deployment
