/-
# Handing over

When all remotes are enrolled, the deployer makes the governor of the configuration the
governor on the first chain, or stays it, hands the governance of the other chains to the
first one, and gives the contracts of every chain to its GovernanceRouter.
-/

import Optics.Deployment.Enrollment

namespace Optics.Deployment

open Optics.Solidity Optics.Math.Transition Optics.Math.Loops Optics.Governance
open Optics.GovernanceRouter (Dispatch)

variable {Byte : Type} [ByteAlphabet Byte] [DecidableEq Byte] {K : Crypto Byte}
  {create : Address Byte → ℕ → Address Byte} {L : Layout Byte} {address : UInt32 → Address Byte}
  {deploy gov : CoreDeploy Byte} {stage : Stage Byte} {site : Site Byte} {w : World Byte}

/-! ### Governance -/

/-- `transferGovernor` reverts for a domain whose router is not known. -/
theorem ChainAt.known_of_transferGovernor {chain chain' : Chain Byte}
    (h : ChainAt K create L address deploy stage chain) {e : UInt32} {g : Address Byte}
    (htx : Chain.callRouter K L.governance.proxy (.transferGovernor e g) chain = .ok chain') :
    e = deploy.domain ∨ e ∈ stage.routed.map CoreDeploy.domain := by
  rw [Chain.callRouter, h.governance] at htx
  obtain ⟨⟨router, sent⟩, hexec, -⟩ := bind_eq_ok.mp htx
  obtain ⟨-, hexec⟩ := require_bind_eq_ok.mp hexec
  obtain ⟨-, hexec⟩ := require_bind_eq_ok.mp hexec
  obtain ⟨router', htransfer, -⟩ := bind_eq_ok.mp hexec
  refine (GovernanceRouter._transferGovernor_eq_ok.mp htransfer).1.imp id fun hrouter => ?_
  by_contra hnot
  exact hrouter (if_neg hnot)

/-- `transferGovernor` by the governor, and the condition under which it succeeds: the domain
is its own, or that of a remote, and there is room for the announcement. -/
theorem Configured.transferGovernor (h : Configured K create L address deploy stage site)
    (howner : stage.owners.home = L.deployer) (hgovernor : stage.governor = L.deployer)
    (e : UInt32) (g : Address Byte) (haddress : ∀ e, address e ≠ 0)
    (hzero : 0 ∉ stage.routed.map CoreDeploy.domain) :
    SucceedsIff (site.send (Chain.callRouter K L.governance.proxy (.transferGovernor e g)))
      (e = deploy.domain ∨ (e ∈ stage.routed.map CoreDeploy.domain ∧
        stage.sent.length + stage.routed.length ≤ MerkleLib.MAX_LEAVES))
      (Configured K create L address deploy { stage with
        governor := if e = deploy.domain then g else 0
        governorDomain := e
        sent := stage.sent ++ if e = deploy.domain then []
          else announcement address stage.routed (.transferGovernor e (addressToBytes32 g)) }) := by
  have hbody : ∀ m ∈ (if e = deploy.domain then []
      else announcement address stage.routed (.transferGovernor e (addressToBytes32 g))),
      m.body.length ≤ Home.MAX_MESSAGE_BODY_BYTES := by
    split_ifs with he
    · nofun
    · exact fun _ => length_body_of_mem_announcement
  refine h.send_succeedsIff (fun chain' htx => ?_) (fun hknown => ?_) rfl rfl
    ⟨h.ordered.distinct, h.ordered.shared, h.ordered.registered⟩
  · -- A router reverts that does not know the new domain, and Home when its tree is full.
    have hknown := h.chain.known_of_transferGovernor htx
    have hroom := h.chain.callRouter_room howner
      (h.chain.exec_transferGovernor hgovernor (haddress e) hknown hzero) hbody htx
    rcases eq_or_ne e deploy.domain with he | he
    · exact .inl he
    · rw [if_neg he, length_announcement] at hroom
      exact .inr ⟨hknown.resolve_left he, hroom⟩
  · refine h.chain.callRouter howner (h.chain.exec_transferGovernor hgovernor (haddress e)
      (hknown.imp_right And.left) hzero) ?_ hbody
    split_ifs with he
    · exact h.chain.length_sent_le
    · rw [length_announcement]
      exact (hknown.resolve_left he).2

/-- The stage of a chain whose governance is handed over, with more messages. -/
def handedStage (L : Layout Byte) (address : UInt32 → Address Byte) (deploy : CoreDeploy Byte)
    (remotes : List (CoreDeploy Byte)) (proxies : UInt32 → BeaconProxy Byte)
    (governor : Address Byte) (governorDomain : UInt32) (more : List (Dispatch Byte)) :
    Stage Byte :=
  { enrolledStage L address deploy remotes proxies with
    governor := governor
    governorDomain := governorDomain
    sent := enrollmentMessages address [] remotes ++ more }

omit [DecidableEq Byte] in
theorem handedStage_self (remotes : List (CoreDeploy Byte)) (proxies : UInt32 → BeaconProxy Byte) :
    handedStage L address deploy remotes proxies L.deployer deploy.domain [] =
      enrolledStage L address deploy remotes proxies := by
  simp [handedStage, enrolledStage]

/-- The governor that the configuration of the first chain appoints, as its router knows it, and
the domain of the governor. -/
def CoreDeploy.appointed (L : Layout Byte) (gov : CoreDeploy Byte) : Address Byte × UInt32 :=
  match gov.config.governor with
  | none => (L.deployer, gov.domain)
  | some governor =>
    (if governor.domain = gov.domain then governor.address else 0, governor.domain)

section Transfer

variable {remotes : List (CoreDeploy Byte)} {proxies : UInt32 → BeaconProxy Byte}

/-- `appointGovernor`. -/
theorem appointGovernor_succeedsIff
    (h : Configured K create L address gov (enrolledStage L address gov remotes proxies)
      (w gov.domain))
    (haddress : ∀ e, address e ≠ 0) (hzero : 0 ∉ remotes.map CoreDeploy.domain) :
    SucceedsIff (appointGovernor K gov w)
      (∀ governor, gov.config.governor = some governor →
        governor.domain = gov.domain ∨ (governor.domain ∈ remotes.map CoreDeploy.domain ∧
          (enrollmentMessages address [] remotes).length + remotes.length ≤
            MerkleLib.MAX_LEAVES))
      fun w' => (∃ more, ((gov.appointed L).2 = gov.domain → more = []) ∧
          Configured K create L address gov (handedStage L address gov remotes proxies
            (gov.appointed L).1 (gov.appointed L).2 more) (w' gov.domain)) ∧
        ∀ e, e ≠ gov.domain → w' e = w e := by
  cases hgovernor : gov.config.governor with
  | none =>
    have happointed : gov.appointed L = (L.deployer, gov.domain) := by
      rw [CoreDeploy.appointed, hgovernor]
    refine (SucceedsIff.of_ok (t := w) (by rw [appointGovernor, hgovernor]) ⟨⟨[], fun _ => rfl, ?_⟩,
      fun _ _ => rfl⟩).congr (by simp)
    rw [happointed, handedStage_self]
    exact h
  | some governor =>
    have happointed : gov.appointed L = (if governor.domain = gov.domain then governor.address
        else 0, governor.domain) := by rw [CoreDeploy.appointed, hgovernor]
    have hstep := (h.transferGovernor rfl rfl governor.domain governor.address haddress hzero)
    simp only [appointGovernor, hgovernor, happointed]
    refine onSite_succeedsIff (Q := fun site => ∃ more, (governor.domain = gov.domain →
      more = []) ∧ Configured K create L address gov (handedStage L address gov remotes proxies
        (if governor.domain = gov.domain then governor.address else 0) governor.domain more)
          site) ?_
    simp only [h.kept.governance, defined, ok_bind]
    refine (hstep.congr (by simp [enrolledStage])).mono fun site _ hsite => ?_
    exact ⟨_, fun he => if_pos he, hsite⟩

/-- `transferGovernorship` to the first chain, which is a remote of the other. -/
theorem transferGovernorship_succeedsIff {Lgov : Layout Byte} {non : CoreDeploy Byte}
    {stage : Stage Byte} (hgov : Configured K create Lgov address gov stage (w gov.domain))
    (h : Configured K create L address non (enrolledStage L address non remotes proxies)
      (w non.domain))
    (haddress : ∀ e, address e ≠ 0) (hzero : 0 ∉ remotes.map CoreDeploy.domain)
    (hne : gov.domain ≠ non.domain) (hmem : gov.domain ∈ remotes.map CoreDeploy.domain) :
    SucceedsIff (transferGovernorship K gov non w)
      ((enrollmentMessages address [] remotes).length + remotes.length ≤ MerkleLib.MAX_LEAVES)
      fun w' => Configured K create L address non (handedStage L address non remotes proxies 0
          gov.domain (announcement address remotes
            (.transferGovernor gov.domain (addressToBytes32 stage.governor)))) (w' non.domain) ∧
        ∀ e, e ≠ non.domain → w' e = w e := by
  have hview : (w gov.domain).viewRouter Lgov.governance.proxy =
      .ok (routerAt Lgov address gov stage.routed stage.governor stage.governorDomain) := by
    rw [Site.viewRouter, hgov.chain.governance]
  have hgovernor : (routerAt Lgov address gov stage.routed stage.governor
      stage.governorDomain).governor = stage.governor := rfl
  have hstep := h.transferGovernor rfl rfl gov.domain stage.governor haddress hzero
  simp only [transferGovernorship, hgov.kept.governance, defined, ok_bind, hview, hgovernor]
  refine onSite_succeedsIff (Q := Configured K create L address non (handedStage L address non
    remotes proxies 0 gov.domain (announcement address remotes
      (.transferGovernor gov.domain (addressToBytes32 stage.governor))))) ?_
  simp only [h.kept.governance, ok_bind]
  refine (hstep.congr ?_).mono fun site _ hsite => ?_
  · exact ⟨fun hknown => (hknown.resolve_left hne).2, fun hroom => .inr ⟨hmem, hroom⟩⟩
  · simpa [handedStage, enrolledStage, hne] using hsite

end Transfer

/-! ### Ownership -/

/-- A transaction that the script does not wait for. -/
theorem Configured.sendUnwaited {stage' : Stage Byte}
    (h : Configured K create L address deploy stage site) {tx : Chain.Transaction Byte}
    (htx : Reaches K create L address deploy tx site.chain stage')
    (hreplicas : stage'.replicas = stage.replicas) (hproxies : stage'.proxies = stage.proxies)
    (hordered : stage'.Ordered) :
    Configured K create L address deploy stage' (site.sendUnwaited tx) := by
  -- The transaction would have passed the wait.
  obtain ⟨site', hsend, hsite'⟩ := h.send htx hreplicas hproxies hordered
  obtain ⟨chain', hok⟩ := Site.exists_of_send hsend
  have htransact : site.chain.transact tx = (.ok (), (site.chain.transact tx).2) := by
    rw [Chain.transact, hok]
  have hsame : site.sendUnwaited tx = site' := by
    rw [Site.send, htransact] at hsend
    exact Except.ok.inj hsend
  rwa [hsame]

/-- One owner of all contracts. -/
def Owners.all (owner : Address Byte) : Owners Byte := ⟨owner, owner, owner, owner⟩

/-- `relinquish`. -/
theorem Configured.relinquish (h : Configured K create L address deploy stage site)
    (howners : stage.owners = .all L.deployer) (hnew : L.governance.proxy ≠ 0) :
    SucceedsIff (Deployment.relinquish site) True (Configured K create L address deploy
      { stage with owners := .all L.governance.proxy }) := by
  have h₁ := h.sendUnwaited
    (h.chain.transferOwnership_updaterManager (by rw [howners]; rfl) hnew) rfl rfl
    ⟨h.ordered.distinct, h.ordered.shared, h.ordered.registered⟩
  have h₂ := h₁.sendUnwaited
    (h₁.chain.transferOwnership_xAppConnectionManager (by rw [howners]; rfl) hnew) rfl rfl
    ⟨h.ordered.distinct, h.ordered.shared, h.ordered.registered⟩
  have h₃ := h₂.sendUnwaited
    (h₂.chain.transferOwnership_upgradeBeaconController (by rw [howners]; rfl) hnew) rfl rfl
    ⟨h.ordered.distinct, h.ordered.shared, h.ordered.registered⟩
  have h₄ := h₃.send_succeedsIff (C := True) (fun _ _ => trivial)
    (fun _ => h₃.chain.transferOwnership_home (by rw [howners]; rfl) hnew) rfl rfl
    ⟨h.ordered.distinct, h.ordered.shared, h.ordered.registered⟩
  simp only [Deployment.relinquish, h.kept.governance, h.kept.updaterManager, defined, ok_bind,
    Site.sendUnwaited, h.kept.xAppConnectionManager, h.kept.upgradeBeaconController, h.kept.home]
  exact h₄

end Optics.Deployment
