/-
# The messages that a deployment leaves

When the script has returned, the routers of all chains agree on the governor, but what
they have sent on the way is still in flight: every chain has announced its remotes, and
every chain but the first has announced that it hands its governance to the first one.
Nobody takes these messages while the governor is on the first chain. When they are all
gone before it moves, there is at most one governor for good. When one is left, it can
make a second governor.
-/

import Optics.Deployment.Result
import Optics.Governance.Draining

namespace Optics.Deployment

open Optics.Solidity Optics.Math.Transition Optics.Math.Loops Optics.Governance
open Optics.GovernanceMessage (Action)
open Optics.GovernanceRouter (Dispatch)

variable {Byte : Type} [ByteAlphabet Byte]

/-! ### The network after a deployment -/

/-- The GovernanceRouter of a chain. -/
def Site.router (site : Site Byte) : GovernanceRouter Byte :=
  match site.contracts.governance.bind fun p => site.chain.accounts p.proxy with
  | some (.governance _ router) => router
  | _ => GovernanceRouter.deploy 0 0

/-- The address of the GovernanceRouter of a chain. -/
def Site.routerAddress (site : Site Byte) : Address Byte :=
  match site.contracts.governance with
  | some p => p.proxy
  | none => 0

/-- The messages that Home has dispatched. -/
def Site.transits (domain : UInt32) (site : Site Byte) : List (Transit Byte) :=
  match site.contracts.home.bind fun p => site.chain.accounts p.proxy with
  | some (.home _ history) => history.dispatched.map fun m =>
    ⟨⟨m.destination, m.recipient, m.body⟩, domain, addressToBytes32 m.sender⟩
  | _ => []

/-- The domains of a deployment. -/
def domainsOf (deploys : List (CoreDeploy Byte)) : Finset UInt32 :=
  (deploys.map CoreDeploy.domain).toFinset

/-- The routers of all chains, and all messages that have been dispatched. -/
def networkOf (deploys : List (CoreDeploy Byte)) (w : World Byte) : Network Byte where
  routers e := (w e).router
  inFlight := deploys.flatMap fun d => (w d.domain).transits d.domain

omit [ByteAlphabet Byte] in
theorem mem_domainsOf {deploys : List (CoreDeploy Byte)} {d : CoreDeploy Byte}
    (hd : d ∈ deploys) : d.domain ∈ domainsOf deploys :=
  List.mem_toFinset.mpr (List.mem_map_of_mem hd)

variable [DecidableEq Byte] {K : Crypto Byte} {create : Address Byte → ℕ → Address Byte}
  {w₀ w : World Byte} {gov d : CoreDeploy Byte} {nonGov remotes : List (CoreDeploy Byte)}
  {hand : Handover Byte} {site : Site Byte}

/-! ### What is in flight -/

section Checked

variable (h : Checked K create w₀ remotes hand d site)

include h

theorem Checked.router : site.router = routerAt (layoutOf create w₀ d.domain)
    (addressOf create w₀) d remotes hand.governor hand.governorDomain := by
  obtain ⟨proxies, site₀, hsite₀, rfl⟩ := h
  simp only [Site.router, hsite₀.kept.governance, Option.bind_some, hsite₀.chain.governance]
  rfl

theorem Checked.routerAddress : site.routerAddress = addressOf create w₀ d.domain := by
  obtain ⟨proxies, site₀, hsite₀, rfl⟩ := h
  simp only [Site.routerAddress, hsite₀.kept.governance]
  rfl

theorem Checked.transits : site.transits d.domain =
    (enrollmentMessages (addressOf create w₀) [] remotes ++ hand.messages).map fun m =>
      ⟨m, d.domain, trueRouter (addressOf create w₀) d.domain⟩ := by
  obtain ⟨proxies, site₀, hsite₀, rfl⟩ := h
  obtain ⟨history, hhome, hat⟩ := hsite₀.chain.home
  have hsent : history.dispatched.map (fun m => ⟨m.destination, m.recipient, m.body⟩) =
      enrollmentMessages (addressOf create w₀) [] remotes ++ hand.messages := hat.sent
  simp only [Site.transits, hsite₀.kept.home, Option.bind_some, hhome, ← hsent, List.map_map]
  refine List.map_congr_left fun m hm => ?_
  rw [hat.sender m hm]
  rfl

end Checked

omit [DecidableEq Byte] in
/-- The messages of an enrollment set the true routers of remotes. -/
theorem mem_enrollmentMessages {address : UInt32 → Address Byte}
    {front rs : List (CoreDeploy Byte)} {m : Dispatch Byte}
    (h : m ∈ enrollmentMessages address front rs) :
    ∃ r ∈ rs, ∃ r' ∈ front ++ rs, m = ⟨r'.domain, trueRouter address r'.domain,
      (Action.setRouter r.domain (trueRouter address r.domain)).bytes⟩ := by
  induction rs generalizing front with
  | nil => cases h
  | cons r rs ih =>
    rcases List.mem_append.mp h with h | h
    · obtain ⟨r', hr', rfl⟩ := List.mem_map.mp h
      exact ⟨r, List.mem_cons_self, r', by simp at hr' ⊢; tauto, rfl⟩
    · obtain ⟨s, hs, r', hr', rfl⟩ := ih h
      exact ⟨s, List.mem_cons_of_mem r hs, r', by simp at hr' ⊢; tauto, rfl⟩

/-! ### The network after all checks -/

section Deployed

variable (h : Setting create w₀ (gov :: nonGov))
  (hrun : Deployment.deployNChains K create (gov :: nonGov) w₀ = .ok w)

include h hrun

/-- The chains after a deployment. -/
theorem Setting.checked (hd : d ∈ gov :: nonGov) :
    Checked K create w₀ (remotesOf (gov :: nonGov) d)
      (handoverOf (addressOf create w₀) (gov :: nonGov) gov (firstHandover create w₀ gov) d) d
      (w d.domain) :=
  (h.deployNChains.sound w hrun).2 d hd

theorem Setting.routerAddress (hd : d ∈ gov :: nonGov) :
    (w d.domain).routerAddress = addressOf create w₀ d.domain :=
  (h.checked hrun hd).routerAddress

theorem Setting.trueRouter_eq {e : UInt32} (he : e ∈ domainsOf (gov :: nonGov)) :
    trueRouter (fun e => (w e).routerAddress) e = trueRouter (addressOf create w₀) e := by
  obtain ⟨d, hd, rfl⟩ := List.mem_map.mp (List.mem_toFinset.mp he)
  exact congrArg addressToBytes32 (h.routerAddress hrun hd)

/-- What is in flight: the announcements of remotes, and of the governor of the first chain. -/
theorem Setting.mem_inFlight {m : Transit Byte}
    (hm : m ∈ (networkOf (gov :: nonGov) w).inFlight) :
    ∃ d ∈ gov :: nonGov, ∃ r ∈ gov :: nonGov, ∃ a : Action Byte,
      m = ⟨⟨r.domain, trueRouter (fun e => (w e).routerAddress) r.domain, a.bytes⟩, d.domain,
        trueRouter (fun e => (w e).routerAddress) d.domain⟩ ∧
      ((∃ r' ∈ gov :: nonGov,
        a = .setRouter r'.domain (trueRouter (fun e => (w e).routerAddress) r'.domain)) ∨
        (d.domain ≠ gov.domain ∧ ∃ g, a = .transferGovernor gov.domain g)) := by
  obtain ⟨d, hd, hm⟩ := List.mem_flatMap.mp hm
  rw [(h.checked hrun hd).transits] at hm
  obtain ⟨call, hcall, rfl⟩ := List.mem_map.mp hm
  have hremote : ∀ r ∈ remotesOf (gov :: nonGov) d, r ∈ gov :: nonGov := fun r hr =>
    List.mem_of_mem_filter hr
  rw [← h.trueRouter_eq hrun (mem_domainsOf hd)]
  -- A call was an announcement of the enrollment, or one of the handover.
  rcases List.mem_append.mp hcall with hcall | hcall
  · obtain ⟨r, hr, r', hr', rfl⟩ := mem_enrollmentMessages hcall
    refine ⟨d, hd, r', hremote r' hr', .setRouter r.domain
      (trueRouter (fun e => (w e).routerAddress) r.domain), ?_, .inl ⟨r, hremote r hr, rfl⟩⟩
    rw [h.trueRouter_eq hrun (mem_domainsOf (hremote r hr)),
      h.trueRouter_eq hrun (mem_domainsOf (hremote r' hr'))]
  · rw [handoverOf] at hcall
    split_ifs at hcall with hdomain
    · cases hcall
    · obtain ⟨r, hr, rfl⟩ := List.mem_map.mp hcall
      refine ⟨d, hd, r, hremote r hr, .transferGovernor gov.domain
        (addressToBytes32 (firstHandover create w₀ gov).governor), ?_, .inr ⟨hdomain, _, rfl⟩⟩
      rw [h.trueRouter_eq hrun (mem_domainsOf (hremote r hr))]

/-- After a deployment all routers take the first chain for the governor's. -/
theorem Setting.draining : Draining (domainsOf (gov :: nonGov)) (fun e => (w e).routerAddress)
    gov.domain (networkOf (gov :: nonGov) w) where
  router e he := by
    obtain ⟨d, hd, rfl⟩ := List.mem_map.mp (List.mem_toFinset.mp he)
    have hrouter : (networkOf (gov :: nonGov) w).routers d.domain = _ :=
      (h.checked hrun hd).router
    rw [hrouter]
    -- A router knows itself under no address, and the others under their true ones.
    refine ⟨⟨rfl, rfl, listed_routerAt (h.nodup_remotes d) h.address_ne_zero, fun e' he' => ?_⟩,
      ?_, fun hne => ?_⟩
    · by_cases hmem : e' ∈ (remotesOf (gov :: nonGov) d).map CoreDeploy.domain
      · left
        rw [routerAt_routers hmem, h.trueRouter_eq hrun he']
      · exact .inr (if_neg hmem)
    · simp only [routerAt, handoverOf]
      split_ifs <;> rfl
    · simp only [routerAt, handoverOf, if_neg hne]
  proper m hm := by
    obtain ⟨d, hd, r, hr, a, rfl, ha⟩ := h.mem_inFlight hrun hm
    refine ⟨a, rfl, ?_⟩
    rintro e router rfl -
    rcases ha with ⟨r', -, heq⟩ | ⟨-, g, heq⟩
    · obtain ⟨rfl, rfl⟩ := Action.setRouter.inj heq
      exact .inl rfl
    · cases heq
  sets m hm horigin := by
    obtain ⟨d, hd, r, hr, a, rfl, ha⟩ := h.mem_inFlight hrun hm
    -- The first chain has not handed its governance over.
    rcases ha with ⟨r', -, rfl⟩ | ⟨hne, -⟩
    · exact ⟨_, _, rfl⟩
    · exact absurd horigin hne

/-- What is in flight is addressed to the router of a chain. -/
theorem Setting.addressed {m : Transit Byte}
    (hm : m ∈ (networkOf (gov :: nonGov) w).inFlight) :
    m.destination ∈ domainsOf (gov :: nonGov) ∧
      m.recipient = trueRouter (fun e => (w e).routerAddress) m.destination := by
  obtain ⟨d, -, r, hr, a, rfl, -⟩ := h.mem_inFlight hrun hm
  exact ⟨mem_domainsOf hr, rfl⟩

/-- The routers of two chains know each other. -/
theorem Setting.routers_eq {other : CoreDeploy Byte} (hd : d ∈ gov :: nonGov)
    (hother : other ∈ gov :: nonGov) (hne : d.domain ≠ other.domain) :
    ((networkOf (gov :: nonGov) w).routers d.domain).routers other.domain =
      trueRouter (fun e => (w e).routerAddress) other.domain := by
  have hrouter : (networkOf (gov :: nonGov) w).routers d.domain = _ := (h.checked hrun hd).router
  have hremote : other ∈ remotesOf (gov :: nonGov) d :=
    List.mem_filter.mpr ⟨hother, decide_eq_true hne.symm⟩
  rw [hrouter, routerAt_routers (List.mem_map_of_mem hremote),
    h.trueRouter_eq hrun (mem_domainsOf hother)]

/-- The governor is on the first chain. -/
theorem Setting.governor_eq :
    ((networkOf (gov :: nonGov) w).routers gov.domain).governor =
      (firstHandover create w₀ gov).governor := by
  have hrouter : (networkOf (gov :: nonGov) w).routers gov.domain = _ :=
    (h.checked hrun List.mem_cons_self).router
  rw [hrouter, handoverOf, if_pos rfl]
  rfl

/-- Every other chain still tells the first one about its governor. -/
theorem Setting.mem_inFlight_of_nonGov {other : CoreDeploy Byte} (hother : other ∈ nonGov) :
    transferMessage (fun e => (w e).routerAddress) other.domain gov.domain gov.domain
      (firstHandover create w₀ gov).governor ∈ (networkOf (gov :: nonGov) w).inFlight := by
  have hmem : other ∈ gov :: nonGov := List.mem_cons_of_mem gov hother
  have hne : gov.domain ≠ other.domain := h.domain_ne hother
  have hremote : gov ∈ remotesOf (gov :: nonGov) other :=
    List.mem_filter.mpr ⟨List.mem_cons_self, decide_eq_true hne⟩
  refine List.mem_flatMap.mpr ⟨other, hmem, ?_⟩
  rw [(h.checked hrun hmem).transits, transferMessage,
    h.trueRouter_eq hrun (mem_domainsOf List.mem_cons_self),
    h.trueRouter_eq hrun (mem_domainsOf hmem), handoverOf, if_neg hne.symm]
  exact List.mem_map_of_mem (List.mem_append_right _ (List.mem_map_of_mem hremote))

end Deployed

/-- **One governor after a deployment.** The messages of the other chains can all be delivered
while the governor stays on the first chain, and no router takes them: nothing but what is in
flight changes. In every run in which the governor stays there, nobody but the first chain has a
governor, and the messages of the other chains are lost when they are handled. Once they are
gone, there is at most one governor for good. -/
theorem governor_unique_after_deployment (h : Setting create w₀ (gov :: nonGov))
    (hrun : deployNChains K create (gov :: nonGov) w₀ = .ok w) :
    (∃ labels, ((system (domainsOf (gov :: nonGov)) fun e => (w e).routerAddress).restrict
        (Stays gov.domain)).Run (networkOf (gov :: nonGov) w) labels
      { networkOf (gov :: nonGov) w with
        inFlight := (networkOf (gov :: nonGov) w).inFlight.filter (·.origin = gov.domain) }) ∧
    ∀ labels s, ((system (domainsOf (gov :: nonGov)) fun e => (w e).routerAddress).restrict
        (Stays gov.domain)).Run (networkOf (gov :: nonGov) w) labels s →
      (∀ d ∈ domainsOf (gov :: nonGov), (s.routers d).governor ≠ 0 → d = gov.domain) ∧
      (∀ ctx, ∀ m ∈ s.inFlight, m.destination ∈ domainsOf (gov :: nonGov) →
        m.origin ≠ gov.domain → ∀ rest,
        s.deliver (fun e => (w e).routerAddress) ctx m rest = { s with inFlight := rest }) ∧
      ((∀ m ∈ s.inFlight, m.origin = gov.domain) → ∀ labels' t,
        (system (domainsOf (gov :: nonGov)) fun e => (w e).routerAddress).Run s labels' t →
        ∀ d ∈ domainsOf (gov :: nonGov), ∀ e ∈ domainsOf (gov :: nonGov),
          (t.routers d).governor ≠ 0 → (t.routers e).governor ≠ 0 → d = e) := by
  have hdraining := h.draining hrun
  refine ⟨hdraining.exists_run fun m hm => h.addressed hrun hm, fun labels s hs => ?_⟩
  have hdraining' := hdraining.run hs
  refine ⟨fun d hd hgovernor => ?_, fun ctx m hm hdomain horigin rest => ?_,
    fun hsettled labels' t ht => ?_⟩
  · by_contra hne
    exact hgovernor ((hdraining'.router d hd).governor hne)
  · exact hdraining'.deliver_eq ctx hm hdomain horigin rest
  · exact (hdraining'.sound hsettled).governor_unique ht

theorem governor_unique_after_deployment_sample : ∃ w labels, ∃ s : Network ℕ,
    deployNChains (.withIdealHash fun _ _ => none) sampleCreate (sampleGov :: sampleNonGov)
      sampleWorld = .ok w ∧
    ((system (domainsOf (sampleGov :: sampleNonGov)) fun e => (w e).routerAddress).restrict
      (Stays 1)).Run (networkOf (sampleGov :: sampleNonGov) w) labels s ∧
    (∀ m ∈ s.inFlight, m.origin = 1) ∧
    ∀ d ∈ domainsOf (sampleGov :: sampleNonGov), (s.routers d).governor ≠ 0 → d = 1 := by
  obtain ⟨w, hrun⟩ := sample_setting.deployNChains.complete sample_deployable
  obtain ⟨⟨labels, hs⟩, hunique⟩ := governor_unique_after_deployment sample_setting hrun
  refine ⟨w, labels, _, hrun, hs, fun m hm => ?_, (hunique labels _ hs).1⟩
  exact of_decide_eq_true (List.mem_filter.mp hm).2

/-- **Two governors after a deployment.** The governor of the first chain moves to another
chain, which takes the governor, and only then the first chain handles what that one sent it
during the deployment. Both have a governor. -/
theorem two_governors_after_deployment (h : Setting create w₀ (gov :: nonGov))
    (hrun : deployNChains K create (gov :: nonGov) w₀ = .ok w) {other : CoreDeploy Byte}
    (hother : other ∈ nonGov) (g : Address Byte) :
    ∃ ctx ctx' before before' t late, late ∈ (networkOf (gov :: nonGov) w).inFlight ∧
      late.origin = other.domain ∧ late.destination = gov.domain ∧
      (system (domainsOf (gov :: nonGov)) fun e => (w e).routerAddress).Run
        (networkOf (gov :: nonGov) w)
        [.call gov.domain ctx (.transferGovernor other.domain g),
          .deliver ctx' before (transferMessage (fun e => (w e).routerAddress) gov.domain
            other.domain other.domain g),
          .deliver ctx' before' late] t ∧
      (t.routers gov.domain).governor ≠ 0 ∧ (t.routers other.domain).governor = g := by
  have hmem : other ∈ gov :: nonGov := List.mem_cons_of_mem gov hother
  have hne : gov.domain ≠ other.domain := h.domain_ne hother
  have hzero : other.domain ≠ 0 := fun heq => h.nonzero (heq ▸ List.mem_map_of_mem hmem)
  have hgovernor : (firstHandover create w₀ gov).governor ≠ 0 :=
    (h.appointed_iff.mpr (h.deployNChains.sound w hrun).1.governor).1
  have haddress : trueRouter (fun e => (w e).routerAddress) other.domain ≠ 0 := by
    rw [h.trueRouter_eq hrun (mem_domainsOf hmem)]
    exact trueRouter_ne_zero (h.address_ne_zero _)
  have hrouter : (networkOf (gov :: nonGov) w).routers gov.domain = _ :=
    (h.checked hrun List.mem_cons_self).router
  have hlate := h.mem_inFlight_of_nonGov hrun hother
  obtain ⟨before, before', t, ht, hfirst, hsecond⟩ := exists_run_two_governors g
    (mem_domainsOf List.mem_cons_self) (mem_domainsOf hmem) hne.symm hzero (h.draining hrun)
    (by rwa [h.governor_eq hrun]) (by rw [hrouter]; rfl)
    (h.routers_eq hrun List.mem_cons_self hmem hne)
    (h.routers_eq hrun hmem List.mem_cons_self hne.symm) haddress hlate
  exact ⟨_, _, before, before', t, _, hlate, rfl, rfl, ht, by rwa [hfirst], hsecond⟩

theorem two_governors_after_deployment_sample : ∃ w labels, ∃ t : Network ℕ,
    deployNChains (.withIdealHash fun _ _ => none) sampleCreate (sampleGov :: sampleNonGov)
      sampleWorld = .ok w ∧
    (system (domainsOf (sampleGov :: sampleNonGov)) fun e => (w e).routerAddress).Run
      (networkOf (sampleGov :: sampleNonGov) w) labels t ∧
    (t.routers 1).governor ≠ 0 ∧
    ∃ other ∈ sampleNonGov, (t.routers other.domain).governor ≠ 0 := by
  obtain ⟨w, hrun⟩ := sample_setting.deployNChains.complete sample_deployable
  have hother : sampleDeploy 2 none ∈ sampleNonGov := List.mem_cons_self
  obtain ⟨ctx, ctx', before, before', t, late, -, -, -, ht, hfirst, hsecond⟩ :=
    two_governors_after_deployment sample_setting hrun hother (List.Vector.replicate 20 7)
  refine ⟨w, _, t, hrun, ht, hfirst, _, hother, ?_⟩
  rw [hsecond]
  decide

end Optics.Deployment
