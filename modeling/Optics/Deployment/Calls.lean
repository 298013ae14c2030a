/-
# Governance and ownership during a deployment

A call of the GovernanceRouter by its governor succeeds as long as Home has room for the
messages it sends. The list of messages is what the router knows at that time, so it
follows from the order of the calls alone. The ownership of a contract moves by one
call of its owner.
-/

import Optics.Deployment.Stages

namespace Optics.Deployment

open Optics.Solidity Optics.Math.Transition Optics.Governance
open Optics.GovernanceRouter (Dispatch)
open Optics.GovernanceMessage (Action)

variable {Byte : Type} [ByteAlphabet Byte] [DecidableEq Byte] {K : Crypto Byte}
  {create : Address Byte → ℕ → Address Byte} {L : Layout Byte} {address : UInt32 → Address Byte}
  {deploy : CoreDeploy Byte} {stage : Stage Byte} {chain : Chain Byte}

/-! ### Messages -/

omit [ByteAlphabet Byte] [DecidableEq Byte] in
theorem ownedBy_of_owner {owner : Address Byte} {history : Home.History Byte}
    (h : history.home.owner = owner) : ownedBy owner history = history := by
  rw [ownedBy, ← h]

theorem HomeAt.length_leaves {owner : Address Byte} {sent : List (Dispatch Byte)}
    {history : Home.History Byte} (h : HomeAt K L deploy owner sent history) :
    (history.leaves K).length = sent.length := by
  rw [← h.sent, Home.History.leaves, List.length_map, List.length_map]

/-- Home dispatches a short message while there is room. -/
theorem HomeAt.dispatch {sent : List (Dispatch Byte)} {history : Home.History Byte}
    {ctx : Home.Context Byte} {m : Dispatch Byte}
    (h : HomeAt K L deploy L.deployer sent history) (hsender : ctx.sender = L.governance.proxy)
    (hroom : sent.length < MerkleLib.MAX_LEAVES)
    (hbody : m.body.length ≤ Home.MAX_MESSAGE_BODY_BYTES) :
    ∃ history', Home.History.exec K (ctx, .dispatch m.destination m.recipient m.body) history =
        .ok history' ∧ HomeAt K L deploy L.deployer (sent ++ [m]) history' := by
  have hstate : history.home.state ≠ .Failed := by rw [h.state]; nofun
  obtain ⟨tree, hinsert, hdispatch⟩ := Home.dispatch_of_room ctx m.destination m.recipient m.body
    rfl h.inStep.tree (h.length_leaves ▸ hroom) hstate hbody
  have hleaves := Home.History.leaves_exec (Home.effect_of_exec hdispatch)
  have hreachable : (Home.system K).Reachable history := ownedBy_of_owner h.owner ▸ h.reachable
  refine ⟨_, Home.History.exec_eq_ok.mpr ⟨_, _, hdispatch, rfl⟩, ?_⟩
  constructor
  case reachable =>
    rw [ownedBy_of_owner]
    · exact hreachable.step (Home.History.step_of_exec hdispatch)
    · exact h.owner
  case owner => exact h.owner
  case localDomain => exact h.localDomain
  case updater => exact h.updater
  case updaterManager => exact h.updaterManager
  case state => exact h.state
  case sender =>
    intro d hd
    rcases List.mem_append.mp hd with hd | hd
    · exact h.sender d hd
    · rw [List.mem_singleton.mp hd]
      exact hsender
  case sent =>
    rw [List.map_append, h.sent]
    rfl
  case inStep =>
    rw [hleaves]
    exact h.inStep.dispatch _ hinsert

/-- What Home dispatches, there is room for. -/
theorem HomeAt.room {owner : Address Byte} {sent : List (Dispatch Byte)}
    {history history' : Home.History Byte} {ctx : Home.Context Byte} {m : Dispatch Byte}
    (h : HomeAt K L deploy owner sent history)
    (hexec : Home.History.exec K (ctx, .dispatch m.destination m.recipient m.body) history =
      .ok history') : sent.length < MerkleLib.MAX_LEAVES := by
  obtain ⟨⟨home, events⟩, hdispatch, -⟩ := bind_eq_ok.mp hexec
  cases Home.effect_of_exec hdispatch with
  | dispatched destination recipient body d tree hd hstate hbody hinsert =>
    rw [← h.length_leaves (K := K)]
    exact (h.inStep.tree.of_insert hinsert).1
  | unchanged hquiet => exact absurd hquiet nofun
  | slashed updater manager hstate hfraud =>
    have hnone : (Home.Call.dispatch m.destination m.recipient m.body).dispatched ctx history.home =
        [] := hfraud.dispatched_eq_nil
    exact absurd hnone nofun

theorem ChainAt.homeOf (h : ChainAt K create L address deploy stage chain) :
    ∃ history, chain.homeOf L.xAppConnectionManager =
        some (L.home.proxy, L.home.beacon, history) ∧
      chain.accounts L.home.proxy = some (.home L.home.beacon history) ∧
      HomeAt K L deploy stage.owners.home stage.sent history := by
  obtain ⟨history, hhome, hat⟩ := h.home
  obtain ⟨manager, hmanager, hat'⟩ := h.manager
  refine ⟨history, ?_, hhome, hat⟩
  simp only [Chain.homeOf, hmanager, hat'.home, hhome]

/-- What has been sent, there was room for. -/
theorem ChainAt.length_sent_le (h : ChainAt K create L address deploy stage chain) :
    stage.sent.length ≤ MerkleLib.MAX_LEAVES := by
  obtain ⟨history, -, hat⟩ := h.home
  rw [← hat.length_leaves (K := K)]
  exact hat.inStep.tree.fits

/-- Home dispatches a list of short messages while there is room. -/
theorem ChainAt.dispatchAll (h : ChainAt K create L address deploy stage chain)
    (howner : stage.owners.home = L.deployer) {messages : List (Dispatch Byte)}
    (hroom : stage.sent.length + messages.length ≤ MerkleLib.MAX_LEAVES)
    (hbody : ∀ m ∈ messages, m.body.length ≤ Home.MAX_MESSAGE_BODY_BYTES) :
    Reaches K create L address deploy
      (Chain.dispatchAll K L.governance.proxy L.xAppConnectionManager messages) chain
      { stage with sent := stage.sent ++ messages } := by
  induction messages generalizing stage chain with
  | nil =>
    rw [List.append_nil]
    exact ⟨chain, rfl, rfl, h⟩
  | cons m rest ih =>
    obtain ⟨history, hof, hhome, hat⟩ := h.homeOf
    rw [List.length_cons] at hroom
    obtain ⟨history', hexec, hat'⟩ := HomeAt.dispatch (howner ▸ hat)
      (show (chain.homeContext L.governance.proxy).sender = _ from rfl) (by omega)
      (hbody m List.mem_cons_self)
    have hchain := h.setHome hhome (howner ▸ hat')
    obtain ⟨chain', htx, hnonce, hchain'⟩ := ih hchain howner
      (by rw [List.length_append, List.length_singleton]; omega)
      fun m' hm' => hbody m' (List.mem_cons_of_mem m hm')
    refine ⟨chain', ?_, hnonce, ?_⟩
    · rw [Chain.dispatchAll, hof]
      simp only [hexec, ok_bind]
      exact htx
    · simpa using hchain'

/-- What Home dispatches, there is room for. -/
theorem ChainAt.dispatchAll_room (h : ChainAt K create L address deploy stage chain)
    (howner : stage.owners.home = L.deployer) {messages : List (Dispatch Byte)}
    (hbody : ∀ m ∈ messages, m.body.length ≤ Home.MAX_MESSAGE_BODY_BYTES) {chain' : Chain Byte}
    (htx : Chain.dispatchAll K L.governance.proxy L.xAppConnectionManager messages chain =
      .ok chain') : stage.sent.length + messages.length ≤ MerkleLib.MAX_LEAVES := by
  induction messages generalizing stage chain with
  -- What has been sent before fits in any case.
  | nil => exact h.length_sent_le
  | cons m rest ih =>
    obtain ⟨history, hof, hhome, hat⟩ := h.homeOf
    rw [Chain.dispatchAll, hof] at htx
    obtain ⟨history₁, hfirst, hrest⟩ := bind_eq_ok.mp htx
    have hroom := hat.room hfirst
    obtain ⟨history', hexec, hat'⟩ := HomeAt.dispatch (howner ▸ hat)
      (show (chain.homeContext L.governance.proxy).sender = _ from rfl) hroom
      (hbody m List.mem_cons_self)
    obtain rfl : history' = history₁ := Except.ok.inj (hexec.symm.trans hfirst)
    have hchain := h.setHome hhome (howner ▸ hat')
    have hlength := ih hchain howner (fun m' hm' => hbody m' (List.mem_cons_of_mem m hm')) hrest
    rw [List.length_append, List.length_singleton] at hlength
    rw [List.length_cons]
    omega

/-! ### The GovernanceRouter -/

/-- A message to every remote whose router is known. -/
def announcement (address : UInt32 → Address Byte) (routed : List (CoreDeploy Byte))
    (a : Action Byte) : List (Dispatch Byte) :=
  routed.map fun r => ⟨r.domain, trueRouter address r.domain, a.bytes⟩

omit [DecidableEq Byte] in
@[simp] theorem length_announcement (routed : List (CoreDeploy Byte)) (a : Action Byte) :
    (announcement address routed a).length = routed.length := List.length_map _

omit [DecidableEq Byte] in
/-- The messages are short. -/
theorem length_body_of_mem_announcement {routed : List (CoreDeploy Byte)} {a : Action Byte}
    {m : Dispatch Byte} (h : m ∈ announcement address routed a) :
    m.body.length ≤ Home.MAX_MESSAGE_BODY_BYTES := by
  obtain ⟨r, -, rfl⟩ := List.mem_map.mp h
  cases a <;> simp [Action.bytes, Home.MAX_MESSAGE_BODY_BYTES]

omit [DecidableEq Byte] in
theorem trueRouter_ne_zero {e : UInt32} (h : address e ≠ 0) : trueRouter address e ≠ 0 := by
  intro hzero
  have hcast : addressToBytes32 (0 : Address Byte) = 0 := by
    apply List.Vector.eq
    rfl
  exact h (addressToBytes32_injective (hzero.trans hcast.symm))

section Router

variable {routed : List (CoreDeploy Byte)} {governor g : Address Byte}
  {governorDomain e : UInt32} {remote : CoreDeploy Byte}

omit [DecidableEq Byte] in
theorem routerAt_routers (h : e ∈ routed.map CoreDeploy.domain) :
    (routerAt L address deploy routed governor governorDomain).routers e = trueRouter address e :=
  if_pos h

/-- A remote that is not known yet is added at the end. -/
theorem routerAt_setRouter (hfree : remote.domain ∉ routed.map CoreDeploy.domain)
    (haddress : address remote.domain ≠ 0) :
    (routerAt L address deploy routed governor governorDomain)._setRouter remote.domain
        (trueRouter address remote.domain) =
      routerAt L address deploy (routed ++ [remote]) governor governorDomain := by
  rw [GovernanceRouter._setRouter_eq, GovernanceRouter._setRouter_domains,
    if_neg (trueRouter_ne_zero haddress)]
  simp only [routerAt, if_neg hfree, if_true, List.map_append, List.map_singleton]
  congr 1
  funext d
  rw [Function.update_apply]
  by_cases hd : d = remote.domain
  · simp [hd]
  · simp [hd]

omit [DecidableEq Byte] in
theorem announce_routerAt (hzero : 0 ∉ routed.map CoreDeploy.domain) (a : Action Byte) :
    (routerAt L address deploy routed governor governorDomain).announce a.bytes =
      announcement address routed a := by
  have hfilter : (routed.map CoreDeploy.domain).filter (· ≠ 0) = routed.map CoreDeploy.domain := by
    rw [List.filter_eq_self]
    intro d hd
    simpa using fun heq : d = 0 => hzero (heq ▸ hd)
  have hdomains : (routerAt L address deploy routed governor governorDomain).domains =
      routed.map CoreDeploy.domain := rfl
  rw [GovernanceRouter.announce, hdomains, hfilter, List.map_map, announcement]
  refine List.map_congr_left fun r hr => ?_
  rw [Function.comp_apply, routerAt_routers (List.mem_map_of_mem hr)]

omit [DecidableEq Byte] in
theorem withGovernor_routerAt :
    (routerAt L address deploy routed governor governorDomain).withGovernor e g =
      routerAt L address deploy routed (if e = deploy.domain then g else 0) e := rfl

/-- A call of the router by its governor, with the messages that Home has room for. -/
theorem ChainAt.callRouter (h : ChainAt K create L address deploy stage chain)
    (howner : stage.owners.home = L.deployer) {call : GovernanceRouter.Call Byte}
    {messages : List (Dispatch Byte)}
    (hexec : GovernanceRouter.exec chain.routerContext call
      (routerAt L address deploy stage.routed stage.governor stage.governorDomain) =
        .ok (routerAt L address deploy routed governor governorDomain, messages))
    (hroom : stage.sent.length + messages.length ≤ MerkleLib.MAX_LEAVES)
    (hbody : ∀ m ∈ messages, m.body.length ≤ Home.MAX_MESSAGE_BODY_BYTES) :
    Reaches K create L address deploy (Chain.callRouter K L.governance.proxy call) chain
      { stage with
        routed := routed
        governor := governor
        governorDomain := governorDomain
        sent := stage.sent ++ messages } := by
  obtain ⟨chain', htx, hnonce, hchain⟩ :=
    (h.setGovernance routed governor governorDomain).dispatchAll howner hroom hbody
  refine ⟨chain', ?_, hnonce, hchain⟩
  rw [Chain.callRouter, h.governance]
  simp only [hexec, ok_bind]
  exact htx

/-- What the router sends, there is room for. -/
theorem ChainAt.callRouter_room (h : ChainAt K create L address deploy stage chain)
    (howner : stage.owners.home = L.deployer) {call : GovernanceRouter.Call Byte}
    {messages : List (Dispatch Byte)}
    (hexec : GovernanceRouter.exec chain.routerContext call
      (routerAt L address deploy stage.routed stage.governor stage.governorDomain) =
        .ok (routerAt L address deploy routed governor governorDomain, messages))
    (hbody : ∀ m ∈ messages, m.body.length ≤ Home.MAX_MESSAGE_BODY_BYTES) {chain' : Chain Byte}
    (htx : Chain.callRouter K L.governance.proxy call chain = .ok chain') :
    stage.sent.length + messages.length ≤ MerkleLib.MAX_LEAVES := by
  rw [Chain.callRouter, h.governance] at htx
  simp only [hexec, ok_bind] at htx
  exact (h.setGovernance routed governor governorDomain).dispatchAll_room howner hbody htx

theorem ChainAt.accepts (h : ChainAt K create L address deploy stage chain) (body : List Byte) :
    chain.routerContext.homeAccepts
      (routerAt L address deploy routed governor governorDomain).xAppConnectionManager body =
        true := by
  obtain ⟨history, hof, -⟩ := h.homeOf
  have hmanager : (routerAt L address deploy routed governor
      governorDomain).xAppConnectionManager = L.xAppConnectionManager := rfl
  rw [hmanager, Chain.routerContext]
  simp only [hof, Option.isSome_some]

/-- `setRouter` for a remote that is not known yet. -/
theorem ChainAt.exec_setRouter (h : ChainAt K create L address deploy stage chain)
    (hgovernor : stage.governor = L.deployer)
    (hfree : remote.domain ∉ stage.routed.map CoreDeploy.domain)
    (haddress : address remote.domain ≠ 0)
    (hzero : 0 ∉ (stage.routed ++ [remote]).map CoreDeploy.domain) :
    GovernanceRouter.exec chain.routerContext
      (.setRouter remote.domain (trueRouter address remote.domain))
      (routerAt L address deploy stage.routed stage.governor stage.governorDomain) =
        .ok (routerAt L address deploy (stage.routed ++ [remote]) stage.governor
          stage.governorDomain, announcement address (stage.routed ++ [remote])
            (.setRouter remote.domain (trueRouter address remote.domain))) := by
  have hsender : chain.routerContext.sender = (routerAt L address deploy stage.routed
      stage.governor stage.governorDomain).governor := h.deployer.trans hgovernor.symm
  rw [GovernanceRouter.exec, GovernanceRouter.setRouter_of_governor hsender rfl h.accepts,
    routerAt_setRouter hfree haddress, announce_routerAt hzero]

/-- `transferGovernor` to the domain itself, or to a remote that is known. -/
theorem ChainAt.exec_transferGovernor (h : ChainAt K create L address deploy stage chain)
    (hgovernor : stage.governor = L.deployer)
    (haddress : address e ≠ 0) (he : e = deploy.domain ∨ e ∈ stage.routed.map CoreDeploy.domain)
    (hzero : 0 ∉ stage.routed.map CoreDeploy.domain) :
    GovernanceRouter.exec chain.routerContext (.transferGovernor e g)
      (routerAt L address deploy stage.routed stage.governor stage.governorDomain) =
        .ok (routerAt L address deploy stage.routed (if e = deploy.domain then g else 0) e,
          if e = deploy.domain then []
          else announcement address stage.routed
            (.transferGovernor e (addressToBytes32 g))) := by
  have hsender : chain.routerContext.sender = (routerAt L address deploy stage.routed
      stage.governor stage.governorDomain).governor := h.deployer.trans hgovernor.symm
  have hrouter : e = (routerAt L address deploy stage.routed stage.governor
        stage.governorDomain).localDomain ∨
      (routerAt L address deploy stage.routed stage.governor stage.governorDomain).routers e ≠
        0 := by
    refine he.imp id fun hmem => ?_
    rw [routerAt_routers hmem]
    exact trueRouter_ne_zero haddress
  rw [GovernanceRouter.exec,
    GovernanceRouter.transferGovernor_of_governor hsender rfl h.accepts hrouter,
    withGovernor_routerAt, announce_routerAt hzero]
  rfl

end Router

/-! ### Ownership -/

section Ownership

variable {newOwner : Address Byte}

/-- `transferOwnership` by the owner. -/
theorem transferOwnership_of_owner {a : Address Byte} {account : Account Byte}
    (ha : chain.accounts a = some account) (howner : account.owner = some chain.deployer)
    (hnew : newOwner ≠ 0) :
    Chain.transferOwnership a newOwner chain =
      .ok (chain.setAccount a (account.withOwner newOwner)) := by
  simp only [Chain.transferOwnership, ha, howner, require_of, ne_eq, hnew, not_false_eq_true,
    ok_bind]

theorem ChainAt.transferOwnership_updaterManager
    (h : ChainAt K create L address deploy stage chain)
    (howner : stage.owners.updaterManager = L.deployer) (hnew : newOwner ≠ 0) :
    Reaches K create L address deploy (Chain.transferOwnership L.updaterManager newOwner) chain
      { stage with owners := { stage.owners with updaterManager := newOwner } } := by
  have hdeployer : stage.owners.updaterManager = chain.deployer := howner.trans h.deployer.symm
  refine ⟨_, transferOwnership_of_owner h.updaterManager (congrArg some hdeployer) hnew, rfl, ?_⟩
  exact {
    deployer := h.deployer
    fresh := h.fresh.setAccount h.updaterManager
    controller := Chain.accounts_setAccount_of_kind h.updaterManager h.controller nofun
    updaterManager := Chain.setAccount_self _ _ _
    home := h.home_setAccount h.updaterManager nofun
    governance := Chain.accounts_setAccount_of_kind h.updaterManager h.governance nofun
    manager := h.manager_setAccount h.updaterManager nofun
    standing := h.standing.setAccount h.updaterManager trivial }

theorem ChainAt.transferOwnership_xAppConnectionManager
    (h : ChainAt K create L address deploy stage chain)
    (howner : stage.owners.xAppConnectionManager = L.deployer) (hnew : newOwner ≠ 0) :
    Reaches K create L address deploy (Chain.transferOwnership L.xAppConnectionManager newOwner)
      chain { stage with owners := { stage.owners with xAppConnectionManager := newOwner } } := by
  obtain ⟨manager, ha, hat⟩ := h.manager
  have hdeployer : manager.owner = chain.deployer :=
    hat.owner.trans (howner.trans h.deployer.symm)
  exact ⟨_, transferOwnership_of_owner ha (congrArg some hdeployer) hnew, rfl,
    h.setManager ha ⟨rfl, hat.home, ⟨hat.registry.twoWay, hat.registry.zero⟩, hat.enrolled,
      hat.others, hat.permissions⟩⟩

theorem ChainAt.transferOwnership_upgradeBeaconController
    (h : ChainAt K create L address deploy stage chain)
    (howner : stage.owners.upgradeBeaconController = L.deployer) (hnew : newOwner ≠ 0) :
    Reaches K create L address deploy (Chain.transferOwnership L.upgradeBeaconController newOwner)
      chain { stage with owners := { stage.owners with upgradeBeaconController := newOwner } } := by
  have hdeployer : stage.owners.upgradeBeaconController = chain.deployer :=
    howner.trans h.deployer.symm
  refine ⟨_, transferOwnership_of_owner h.controller (congrArg some hdeployer) hnew, rfl, ?_⟩
  exact {
    deployer := h.deployer
    fresh := h.fresh.setAccount h.controller
    controller := Chain.setAccount_self _ _ _
    updaterManager := Chain.accounts_setAccount_of_kind h.controller h.updaterManager nofun
    home := h.home_setAccount h.controller nofun
    governance := Chain.accounts_setAccount_of_kind h.controller h.governance nofun
    manager := h.manager_setAccount h.controller nofun
    standing := h.standing.setAccount h.controller trivial }

theorem ChainAt.transferOwnership_home (h : ChainAt K create L address deploy stage chain)
    (howner : stage.owners.home = L.deployer) (hnew : newOwner ≠ 0) :
    Reaches K create L address deploy (Chain.transferOwnership L.home.proxy newOwner) chain
      { stage with owners := { stage.owners with home := newOwner } } := by
  obtain ⟨history, ha, hat⟩ := h.home
  have hdeployer : history.home.owner = chain.deployer :=
    hat.owner.trans (howner.trans h.deployer.symm)
  have hhome : HomeAt K L deploy newOwner stage.sent (ownedBy newOwner history) :=
    ⟨hat.reachable, rfl, hat.localDomain, hat.updater, hat.updaterManager, hat.state, hat.sender,
      hat.sent, hat.inStep.congr rfl rfl rfl⟩
  exact ⟨_, transferOwnership_of_owner ha (congrArg some hdeployer) hnew, rfl,
    h.setHome ha hhome⟩

end Ownership

end Optics.Deployment
