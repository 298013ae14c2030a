/-
# Enrolling the remotes

`enrollRemote` takes a chain with some remotes to the chain with one more: a Replica is
deployed and registered, the watchers may watch the new domain, and the router of the
remote is announced to all remotes that are known by then. It succeeds exactly when
the gas constants of the Replica are in bounds and Home has room for the
announcements.
-/

import Optics.Deployment.Contracts

namespace Optics.Deployment

open Optics.Solidity Optics.Math.Transition Optics.Math.Loops Optics.Governance
open Optics.GovernanceRouter (Dispatch)

variable {Byte : Type} [ByteAlphabet Byte]

/-- The messages of a GovernanceRouter that knows some remotes while others are set, one after
the other. -/
def enrollmentMessages (address : UInt32 → Address Byte) :
    List (CoreDeploy Byte) → List (CoreDeploy Byte) → List (Dispatch Byte)
  | _, [] => []
  | front, r :: rest =>
    announcement address (front ++ [r]) (.setRouter r.domain (trueRouter address r.domain)) ++
      enrollmentMessages address (front ++ [r]) rest

theorem enrollmentMessages_append (address : UInt32 → Address Byte) (r : CoreDeploy Byte)
    (front rs : List (CoreDeploy Byte)) :
    enrollmentMessages address front (rs ++ [r]) = enrollmentMessages address front rs ++
      announcement address (front ++ rs ++ [r])
        (.setRouter r.domain (trueRouter address r.domain)) := by
  induction rs generalizing front with
  | nil => simp [enrollmentMessages]
  | cons r' rs ih => simp [enrollmentMessages, ih]

/-- One message to the first remote, two when the second is known, and so on. -/
theorem length_enrollmentMessages (address : UInt32 → Address Byte)
    (rs : List (CoreDeploy Byte)) :
    2 * (enrollmentMessages address [] rs).length = rs.length * (rs.length + 1) := by
  induction rs using List.reverseRecOn with
  | nil => rfl
  | append_singleton rs r ih =>
    rw [enrollmentMessages_append, List.length_append, Nat.mul_add, ih, length_announcement]
    simp only [List.nil_append, List.length_append, List.length_singleton]
    ring

/-- There is room for the announcements of all remotes when there is for those of some. -/
theorem length_enrollmentMessages_mono {address : UInt32 → Address Byte}
    (front rest : List (CoreDeploy Byte)) :
    (enrollmentMessages address [] front).length ≤
      (enrollmentMessages address [] (front ++ rest)).length := by
  have hfront := length_enrollmentMessages address front
  have hall := length_enrollmentMessages address (front ++ rest)
  have hmono : front.length * (front.length + 1) ≤
      (front ++ rest).length * ((front ++ rest).length + 1) := by
    rw [List.length_append]
    exact Nat.mul_le_mul (Nat.le_add_right _ _) (Nat.succ_le_succ (Nat.le_add_right _ _))
  omega

/-- The stage of a chain on which some remotes are enrolled. -/
def enrolledStage (L : Layout Byte) (address : UInt32 → Address Byte) (deploy : CoreDeploy Byte)
    (remotes : List (CoreDeploy Byte)) (proxies : UInt32 → BeaconProxy Byte) : Stage Byte where
  replicas := remotes
  proxies := proxies
  registered := remotes
  permissions := remotes.flatMap fun r => deploy.config.watchers.map fun w => (w, r.domain)
  routed := remotes
  owners := ⟨L.deployer, L.deployer, L.deployer, L.deployer⟩
  governor := L.deployer
  governorDomain := deploy.domain
  sent := enrollmentMessages address [] remotes

/-- The gas constants of the Replicas are in bounds. -/
def CoreDeploy.GasInBounds (deploy : CoreDeploy Byte) : Prop :=
  850000 ≤ deploy.config.processGas ∧ 15000 ≤ deploy.config.reserveGas

theorem CoreDeploy.gasInBounds_iff {deploy : CoreDeploy Byte} :
    deploy.GasInBounds ↔ ∃ fresh : Replica Byte, Replica.deploy deploy.domain
      deploy.config.processGas deploy.config.reserveGas = .ok fresh := by
  constructor
  · rintro ⟨hprocess, hreserve⟩
    rw [Replica.deploy, require_of hprocess, ok_bind, require_of hreserve, ok_bind]
    exact ⟨_, rfl⟩
  · rintro ⟨fresh, hfresh⟩
    obtain ⟨hprocess, hfresh⟩ := require_bind_eq_ok.mp hfresh
    obtain ⟨hreserve, -⟩ := require_bind_eq_ok.mp hfresh
    exact ⟨hprocess, hreserve⟩

/-! ### Steps -/

variable [DecidableEq Byte] {K : Crypto Byte} {create : Address Byte → ℕ → Address Byte}
  {L : Layout Byte} {address : UInt32 → Address Byte} {deploy remote : CoreDeploy Byte}
  {stage stage' : Stage Byte} {site : Site Byte} {w : World Byte}

omit [ByteAlphabet Byte] [DecidableEq Byte] in
/-- A step on one chain leaves the others. -/
theorem onSite_succeedsIff {d : UInt32} {step : Site Byte → Except Failure (Site Byte)} {C : Prop}
    {Q : Site Byte → Prop} (h : SucceedsIff (step (w d)) C Q) :
    SucceedsIff (onSite d step w) C fun w' => Q (w' d) ∧ ∀ e, e ≠ d → w' e = w e := by
  refine (h.bind fun site _ hQ => ?_).congr (and_iff_left trivial)
  exact .of_ok rfl ⟨by rwa [Function.update_self], fun e he => Function.update_of_ne he _ _⟩

omit [ByteAlphabet Byte] [DecidableEq Byte] in
theorem Site.exists_of_send {tx : Chain.Transaction Byte} {site' : Site Byte}
    (h : site.send tx = .ok site') : ∃ chain', tx site.chain = .ok chain' := by
  cases htx : tx site.chain with
  | ok chain' => exact ⟨chain', rfl⟩
  | error e =>
    rw [Site.send, Chain.transact_of_error htx] at h
    cases h

/-- A transaction that the script waits for, and the condition under which it succeeds. -/
theorem Configured.send_succeedsIff (h : Configured K create L address deploy stage site)
    {tx : Chain.Transaction Byte} {C : Prop}
    (hsound : ∀ chain', tx site.chain = .ok chain' → C)
    (htx : C → Reaches K create L address deploy tx site.chain stage')
    (hreplicas : stage'.replicas = stage.replicas) (hproxies : stage'.proxies = stage.proxies)
    (hordered : stage'.Ordered) :
    SucceedsIff (site.send tx) C (Configured K create L address deploy stage') := by
  refine .of_exists (fun site' hsend => ?_) fun hC =>
    h.send (htx hC) hreplicas hproxies hordered
  obtain ⟨chain', hok⟩ := Site.exists_of_send hsend
  exact hsound chain' hok

/-- `enrollReplica` for a Replica that is deployed and not registered. -/
theorem Configured.enrollReplica (h : Configured K create L address deploy stage site)
    (howner : stage.owners.xAppConnectionManager = L.deployer) (hremote : remote ∈ stage.replicas)
    (hfree : remote.domain ∉ stage.registered.map CoreDeploy.domain)
    (hzero : 0 ∉ stage.registered.map CoreDeploy.domain) :
    SucceedsIff (Deployment.enrollReplica K remote site) True (Configured K create L address deploy
      { stage with registered := stage.registered ++ [remote] }) := by
  have hreach := h.chain.ownerEnrollReplica howner h.ordered hremote hfree hzero
  simp only [Deployment.enrollReplica, h.kept.lookup remote hremote,
    h.kept.xAppConnectionManager, defined, ok_bind]
  refine h.send_succeedsIff (fun _ _ => trivial) (fun _ => hreach) rfl rfl
    ⟨h.ordered.distinct, h.ordered.shared, fun r hr => ?_⟩
  rcases List.mem_append.mp hr with hr | hr
  · exact h.ordered.registered r hr
  · rwa [List.mem_singleton.mp hr]

/-- `enrollWatchers`: the watchers are enrolled one after the other. -/
theorem Configured.enrollWatchers (h : Configured K create L address deploy stage site)
    (howner : stage.owners.xAppConnectionManager = L.deployer) :
    SucceedsIff (Deployment.enrollWatchers K deploy remote site) True
      (Configured K create L address deploy { stage with
        permissions :=
          stage.permissions ++ deploy.config.watchers.map fun w => (w, remote.domain) }) := by
  simp only [Deployment.enrollWatchers, h.kept.xAppConnectionManager, defined, ok_bind]
  refine (SucceedsIff.foldlM (I := fun front => Configured K create L address deploy
    { stage with permissions := stage.permissions ++ front.map fun w => (w, remote.domain) })
    (C := fun _ _ => True) (by simpa using h) fun front watcher rest _ site hsite => ?_).congr
      (by simp)
  have hreach := hsite.chain.setWatcherPermission howner watcher remote.domain
  refine (hsite.send_succeedsIff (fun _ _ => trivial) (fun _ => hreach) rfl rfl
    ⟨h.ordered.distinct, h.ordered.shared, h.ordered.registered⟩).mono fun t _ ht => ?_
  simpa using ht

/-- `enrollGovernanceRouter` for a remote whose router is not known, when Home has room for the
announcement. -/
theorem Configured.enrollGovernanceRouter (h : Configured K create L address deploy stage site)
    (howner : stage.owners.home = L.deployer) (hgovernor : stage.governor = L.deployer)
    (hfree : remote.domain ∉ stage.routed.map CoreDeploy.domain)
    (haddress : address remote.domain ≠ 0)
    (hzero : 0 ∉ (stage.routed ++ [remote]).map CoreDeploy.domain)
    {remoteContracts : CoreContracts Byte} {governance : BeaconProxy Byte}
    (hremote : remoteContracts.governance = some governance)
    (hproxy : governance.proxy = address remote.domain) :
    SucceedsIff (Deployment.enrollGovernanceRouter K remote remoteContracts site)
      (stage.sent.length + (stage.routed.length + 1) ≤ MerkleLib.MAX_LEAVES)
      (Configured K create L address deploy { stage with
        routed := stage.routed ++ [remote]
        sent := stage.sent ++ announcement address (stage.routed ++ [remote])
          (.setRouter remote.domain (trueRouter address remote.domain)) }) := by
  have hexec := h.chain.exec_setRouter hgovernor hfree haddress hzero
  have hlength : (announcement address (stage.routed ++ [remote]) (.setRouter remote.domain
      (trueRouter address remote.domain))).length = stage.routed.length + 1 := by simp
  simp only [Deployment.enrollGovernanceRouter, h.kept.governance, hremote, hproxy, defined,
    ok_bind]
  refine h.send_succeedsIff (fun chain' htx => ?_) (fun hroom => ?_) rfl rfl
    ⟨h.ordered.distinct, h.ordered.shared, h.ordered.registered⟩
  · rw [← hlength]
    exact h.chain.callRouter_room howner hexec (fun _ => length_body_of_mem_announcement) htx
  · exact h.chain.callRouter howner hexec (hlength ▸ hroom) fun _ =>
      length_body_of_mem_announcement

/-- `deployUnenrolledReplica` for a remote without a Replica. -/
theorem Configured.deployUnenrolledReplica_succeedsIff
    (h : Configured K create L address deploy stage site) (hcreate : Creates create)
    (hfree : remote.domain ∉ stage.replicas.map CoreDeploy.domain) :
    SucceedsIff (Deployment.deployUnenrolledReplica create deploy remote site) deploy.GasInBounds
      fun site' => ∃ p, Configured K create L address deploy { stage with
        replicas := stage.replicas ++ [remote]
        proxies := Function.update stage.proxies remote.domain p } site' := by
  refine .of_exists (fun site' hdeploy => ?_) fun hgas => ?_
  · exact CoreDeploy.gasInBounds_iff.mpr (h.gas_of_deployUnenrolledReplica hcreate hdeploy)
  · obtain ⟨fresh, hfresh⟩ := CoreDeploy.gasInBounds_iff.mp hgas
    obtain ⟨p, site', hdeploy, hsite'⟩ := h.deployUnenrolledReplica hcreate hfree hfresh
    exact ⟨site', hdeploy, p, hsite'⟩

/-- **One remote.** -/
theorem enrollRemote_succeedsIff {remotes : List (CoreDeploy Byte)}
    {proxies : UInt32 → BeaconProxy Byte} (hcreate : Creates create)
    (h : Configured K create L address deploy (enrolledStage L address deploy remotes proxies)
      (w deploy.domain))
    (hfree : remote.domain ∉ remotes.map CoreDeploy.domain)
    (hzero : 0 ∉ (remotes ++ [remote]).map CoreDeploy.domain) (haddress : address remote.domain ≠ 0)
    {governance : BeaconProxy Byte}
    (hremote : (w remote.domain).contracts.governance = some governance)
    (hproxy : governance.proxy = address remote.domain) :
    SucceedsIff (enrollRemote K create deploy remote w)
      (deploy.GasInBounds ∧
        (enrollmentMessages address [] (remotes ++ [remote])).length ≤ MerkleLib.MAX_LEAVES)
      fun w' => (∃ proxies', Configured K create L address deploy
          (enrolledStage L address deploy (remotes ++ [remote]) proxies') (w' deploy.domain)) ∧
        ∀ e, e ≠ deploy.domain → w' e = w e := by
  refine onSite_succeedsIff (Q := fun site' => ∃ proxies', Configured K create L address deploy
    (enrolledStage L address deploy (remotes ++ [remote]) proxies') site') ?_
  refine (h.deployUnenrolledReplica_succeedsIff hcreate hfree).bind ?_
  rintro site₁ - ⟨p, h₁⟩
  have hzero' : 0 ∉ remotes.map CoreDeploy.domain := by
    rw [List.map_append] at hzero
    exact fun hmem => hzero (List.mem_append_left _ hmem)
  refine (h₁.enrollReplica rfl (List.mem_append_right _ List.mem_cons_self) hfree
    hzero').bind_true fun site₂ h₂ => ?_
  refine (h₂.enrollWatchers rfl).bind_true fun site₃ h₃ => ?_
  refine ((h₃.enrollGovernanceRouter rfl rfl hfree haddress hzero hremote hproxy).congr ?_).mono
    fun site₄ _ h₄ => ?_
  · -- Of the four transactions only the last one needs room.
    rw [enrollmentMessages_append, List.length_append, length_announcement]
    simp [enrolledStage]
  · refine ⟨Function.update proxies remote.domain p, ?_⟩
    simpa [enrolledStage, enrollmentMessages_append] using h₄

end Optics.Deployment
