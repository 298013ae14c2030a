/-
# The checks

`checkCoreDeploy` passes on a chain with all remotes enrolled whose contracts belong to its
GovernanceRouter exactly when the governor is where it should be. It changes the
verification input: the search for the proxies of the Replicas assigns where it
should compare, so the first of them takes the address of the last.
-/

import Optics.Deployment.Handover

namespace Optics.Deployment

open Optics.Solidity Optics.Math.Loops

variable {Byte : Type}

/-- An expectation. -/
theorem expect_succeedsIff {condition : Prop} [Decidable condition] {check : String} :
    SucceedsIff (expect condition check) condition fun _ => True := by
  unfold expect
  split_ifs with h
  · exact (SucceedsIff.of_ok rfl trivial).congr ⟨fun _ => h, fun _ => trivial⟩
  · exact ⟨nofun, fun hC => absurd hC h⟩

theorem expect_of {condition : Prop} [Decidable condition] {check : String} (h : condition) :
    expect condition check = .ok () := if_pos h

/-! ### The verification input -/

section Verification

variable {L : Layout Byte} {remotes : List (CoreDeploy Byte)} {proxies : UInt32 → BeaconProxy Byte}

/-- The verification input for the Replicas after the checks. -/
def checkedReplicas (proxies : UInt32 → BeaconProxy Byte) :
    List (CoreDeploy Byte) → List (ContractVerificationInput Byte)
  | [] => []
  | first :: rest =>
    ⟨.Implementation .Replica, (proxies first.domain).implementation⟩ ::
      ⟨.UpgradeBeacon .Replica, (proxies first.domain).beacon⟩ ::
      ⟨.Proxy .Replica, (proxies (rest.getLastD first).domain).proxy⟩ ::
      rest.map fun r => ⟨.Proxy .Replica, (proxies r.domain).proxy⟩

/-- The search finds the first proxy, and gives it an address. -/
theorem setReplicaProxy_append (a b : Address Byte)
    (front rest : List (ContractVerificationInput Byte))
    (h : ∀ entry ∈ front, entry.name ≠ .Proxy .Replica) :
    setReplicaProxy a (front ++ ⟨.Proxy .Replica, b⟩ :: rest) =
      some (front ++ ⟨.Proxy .Replica, a⟩ :: rest) := by
  induction front with
  | nil => rfl
  | cons entry front ih =>
    have hentry := h entry List.mem_cons_self
    rw [List.cons_append, setReplicaProxy, if_neg hentry,
      ih fun entry hmem => h entry (List.mem_cons_of_mem _ hmem)]
    rfl

/-- The search for the proxies of some Replicas. -/
theorem foldlM_setReplicaProxy {contracts : CoreContracts Byte} {rs : List (CoreDeploy Byte)}
    (hlookup : ∀ r ∈ rs, contracts.replicas.lookup r.domain = some (proxies r.domain))
    (before : CoreDeploy Byte) (front rest : List (ContractVerificationInput Byte))
    (h : ∀ entry ∈ front, entry.name ≠ .Proxy .Replica) :
    (rs.map CoreDeploy.domain).foldlM (fun input domain => do
        let replica ← defined "replica" (contracts.replicas.lookup domain)
        defined "replicaProxy" (setReplicaProxy replica.proxy input))
        (front ++ ⟨.Proxy .Replica, (proxies before.domain).proxy⟩ :: rest) =
      .ok (front ++ ⟨.Proxy .Replica, (proxies (rs.getLastD before).domain).proxy⟩ :: rest) := by
  induction rs generalizing before with
  | nil => rfl
  | cons r rs ih =>
    rw [List.map_cons, List.foldlM_cons, hlookup r List.mem_cons_self]
    simp only [defined, ok_bind, setReplicaProxy_append _ _ _ _ h]
    rw [List.getLastD_cons]
    exact ih (fun r' hr' => hlookup r' (List.mem_cons_of_mem _ hr')) _

theorem checkVerificationInput_of_find {name : ContractVerificationName} {a : Address Byte}
    [DecidableEq Byte] {input : List (ContractVerificationInput Byte)}
    (h : input.find? (·.name = name) = some ⟨name, a⟩) :
    checkVerificationInput name a input = .ok () := by
  simp only [checkVerificationInput, h, defined, ok_bind]
  exact expect_of trivial

theorem checkVerification_eq [DecidableEq Byte] {contracts : CoreContracts Byte}
    (hlookup : ∀ r ∈ remotes, contracts.replicas.lookup r.domain = some (proxies r.domain)) :
    checkVerification contracts L.home L.governance L.upgradeBeaconController
        L.xAppConnectionManager L.updaterManager (remotes.map CoreDeploy.domain)
        (verificationAt L remotes proxies) =
      .ok (coreVerification L ++ checkedReplicas proxies remotes) := by
  have hcore : ∀ name a, ⟨name, a⟩ ∈ coreVerification L →
      checkVerificationInput name a (verificationAt L remotes proxies) = .ok () := by
    intro name a hentry
    refine checkVerificationInput_of_find ?_
    rw [verificationAt, List.find?_append]
    simp only [coreVerification, List.mem_cons, List.not_mem_nil, or_false,
      ContractVerificationInput.mk.injEq] at hentry
    rcases hentry with ⟨rfl, rfl⟩ | ⟨rfl, rfl⟩ | ⟨rfl, rfl⟩ | ⟨rfl, rfl⟩ | ⟨rfl, rfl⟩ |
      ⟨rfl, rfl⟩ | ⟨rfl, rfl⟩ | ⟨rfl, rfl⟩ | ⟨rfl, rfl⟩ <;> rfl
  unfold checkVerification
  iterate 9 rw [hcore _ _ (by simp [coreVerification]), ok_bind]
  cases remotes with
  | nil => rfl
  | cons first rest =>
    have himplementation : checkVerificationInput (.Implementation .Replica)
        (proxies first.domain).implementation (verificationAt L (first :: rest) proxies) =
          .ok () := checkVerificationInput_of_find rfl
    have hbeacon : checkVerificationInput (.UpgradeBeacon .Replica)
        (proxies first.domain).beacon (verificationAt L (first :: rest) proxies) = .ok () :=
      checkVerificationInput_of_find rfl
    have hfront : ∀ entry ∈ coreVerification L ++ [⟨.Implementation .Replica,
        (proxies first.domain).implementation⟩, ⟨.UpgradeBeacon .Replica,
          (proxies first.domain).beacon⟩], entry.name ≠ .Proxy .Replica := by
      simp [coreVerification]
    have hloop := foldlM_setReplicaProxy hlookup first _
      (rest.map fun r => ⟨.Proxy .Replica, (proxies r.domain).proxy⟩) hfront
    have hinput : verificationAt L (first :: rest) proxies =
        (coreVerification L ++ [⟨.Implementation .Replica, (proxies first.domain).implementation⟩,
          ⟨.UpgradeBeacon .Replica, (proxies first.domain).beacon⟩]) ++
        ⟨.Proxy .Replica, (proxies first.domain).proxy⟩ ::
          rest.map fun r => ⟨.Proxy .Replica, (proxies r.domain).proxy⟩ := by
      simp [verificationAt, replicaVerification]
    rw [← hinput, List.map_cons, List.getLastD_cons] at hloop
    rw [List.map_cons]
    simp only [hlookup first List.mem_cons_self, defined, ok_bind, himplementation, hbeacon]
    simp only [defined] at hloop
    rw [hloop, checkedReplicas, List.append_assoc]
    rfl

end Verification

/-! ### The check of one chain -/

variable [ByteAlphabet Byte] [DecidableEq Byte] {K : Crypto Byte}
  {create : Address Byte → ℕ → Address Byte} {L : Layout Byte} {address : UInt32 → Address Byte}
  {deploy : CoreDeploy Byte} {stage : Stage Byte} {site : Site Byte}

/-- The remotes are enrolled. -/
theorem Configured.checkRemotes (h : Configured K create L address deploy stage site)
    (hregistered : stage.registered = stage.replicas)
    {manager : XAppConnectionManager Byte}
    (hmanager : ManagerAt L stage.owners.xAppConnectionManager stage.proxies stage.registered
      stage.permissions manager) :
    (stage.replicas.map CoreDeploy.domain).forM (checkRemote site.contracts manager) =
      .ok () := by
  refine forM_of_ok fun d hd => ?_
  obtain ⟨r, hr, rfl⟩ := List.mem_map.mp hd
  have hdomain : manager.domainToReplica r.domain ≠ 0 := by
    rw [hmanager.enrolled r (hregistered ▸ hr)]
    exact (h.chain.standing.replica r hr).nonzero
  simp only [checkRemote, h.kept.lookup r hr, defined, ok_bind]
  exact expect_of hdomain

/-- The Replicas share their beacon and implementation. -/
theorem Configured.checkReplicas (h : Configured K create L address deploy stage site) :
    Deployment.checkReplicas site.contracts (stage.replicas.map CoreDeploy.domain) = .ok () := by
  cases hreplicas : stage.replicas with
  | nil => rfl
  | cons first rest =>
    have hfirst : first ∈ stage.replicas := hreplicas ▸ List.mem_cons_self
    rw [List.map_cons, Deployment.checkReplicas]
    simp only [h.kept.lookup first hfirst, defined, ok_bind]
    refine forM_of_ok fun d hd => ?_
    obtain ⟨r, hr, rfl⟩ := List.mem_map.mp hd
    have hmem : r ∈ stage.replicas := hreplicas ▸ List.mem_cons_of_mem first hr
    obtain ⟨hbeacon, himplementation⟩ := h.ordered.shared r hmem first hfirst
    simp only [h.kept.lookup r hmem, ok_bind, expect_of himplementation, expect_of hbeacon]

/-- **The check of one chain.** It passes exactly when the governor is not zero on the governing
chain, and zero on the others, and the router knows the governing chain. -/
theorem Configured.checkCoreDeploy (h : Configured K create L address deploy stage site)
    (hregistered : stage.registered = stage.replicas)
    (howners : stage.owners = .all L.governance.proxy) (governorDomain : UInt32) :
    SucceedsIff (Deployment.checkCoreDeploy (stage.replicas.map CoreDeploy.domain) governorDomain
        site)
      ((stage.governor ≠ 0 ↔ governorDomain = deploy.domain) ∧
        stage.governorDomain = governorDomain)
      fun site' => site' = { site with
        verificationInput :=
          coreVerification L ++ checkedReplicas stage.proxies stage.replicas } := by
  obtain ⟨history, hhome, hat⟩ := h.chain.home
  obtain ⟨manager, hmanager, hat'⟩ := h.chain.manager
  have hviewHome : site.viewHome L.home.proxy = .ok history.home := by rw [Site.viewHome, hhome]
  have hviewRouter : site.viewRouter L.governance.proxy = .ok (routerAt L address deploy
      stage.routed stage.governor stage.governorDomain) := by
    rw [Site.viewRouter, h.chain.governance]
  have hviewManager : site.viewManager L.xAppConnectionManager = .ok manager := by
    rw [Site.viewManager, hmanager]
  have hownerUpdater : site.viewOwner L.updaterManager = .ok L.governance.proxy := by
    rw [Site.viewOwner, h.chain.updaterManager, howners]
    rfl
  have hownerController : site.viewOwner L.upgradeBeaconController = .ok L.governance.proxy := by
    rw [Site.viewOwner, h.chain.controller, howners]
    rfl
  have hverification := checkVerification_eq (L := L) h.kept.lookup
  rw [← h.kept.verification] at hverification
  unfold Deployment.checkCoreDeploy
  simp only [h.kept.home, h.kept.updaterManager, h.kept.governance, h.kept.xAppConnectionManager,
    h.kept.upgradeBeaconController, defined, ok_bind, hviewHome, hviewRouter, hviewManager,
    expect_of hat.updaterManager, h.checkRemotes hregistered hat', h.checkReplicas,
    hownerUpdater, hownerController]
  have hmanagerOwner : manager.owner = L.governance.proxy := by rw [hat'.owner, howners]; rfl
  have hhomeOwner : history.home.owner = L.governance.proxy := by rw [hat.owner, howners]; rfl
  have htrue : ∀ check, expect True check = .ok () := fun _ => expect_of trivial
  -- Only the two expectations about the governor can fail.
  refine SucceedsIff.congr (SucceedsIff.bind expect_succeedsIff fun _ _ _ =>
    SucceedsIff.bind (D := True) expect_succeedsIff fun _ _ _ => SucceedsIff.of_ok ?_ rfl) ?_
  · simp only [expect_of hat'.home, htrue, expect_of hmanagerOwner, expect_of hhomeOwner, ok_bind,
      hverification]
  · rw [hat.localDomain, and_true]
    rfl

end Optics.Deployment
