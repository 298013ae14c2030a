/-
# Correctness of the deployment

The script is a sequence of loops over the chains, and each round of a loop changes one
chain. The stages of the chains are the invariants of the loops. So the script returns
exactly when every step of it succeeds, and it leaves every chain at the last stage.
-/

import Optics.Deployment.Checks

namespace Optics.Deployment

open Optics.Solidity Optics.Math.Transition Optics.Math.Loops Optics.Governance
open Optics.GovernanceRouter (Dispatch)

variable {Byte : Type}

/-! ### Loops over the chains -/

section Sites

variable {l : List (CoreDeploy Byte)} {step : World Byte → CoreDeploy Byte →
    Except Failure (World Byte)} {P Q : CoreDeploy Byte → Site Byte → Prop}
  {C : CoreDeploy Byte → Prop} {w : World Byte}

/-- A loop over different chains, each round of which takes its chain from one property to
another and leaves the others. -/
theorem sites_succeedsIff (hnodup : (l.map CoreDeploy.domain).Nodup)
    (hinit : ∀ d ∈ l, P d (w d.domain))
    (hstep : ∀ w', (∀ d ∈ l, P d (w' d.domain) ∨ Q d (w' d.domain)) →
      (∀ e, e ∉ l.map CoreDeploy.domain → w' e = w e) → ∀ d ∈ l, P d (w' d.domain) →
      SucceedsIff (step w' d) (C d)
        fun w'' => Q d (w'' d.domain) ∧ ∀ e, e ≠ d.domain → w'' e = w' e) :
    SucceedsIff (l.foldlM step w) (∀ d ∈ l, C d) fun w' =>
      (∀ d ∈ l, Q d (w' d.domain)) ∧ ∀ e, e ∉ l.map CoreDeploy.domain → w' e = w e := by
  refine (SucceedsIff.foldlM (C := fun _ d => C d) (I := fun front (w' : World Byte) =>
    (∀ d ∈ front, Q d (w' d.domain)) ∧ ∀ e, e ∉ front.map CoreDeploy.domain → w' e = w e)
    ⟨nofun, fun _ _ => rfl⟩ ?_).congr ?_
  · rintro front x rest rfl w' ⟨hdone, hothers⟩
    rw [List.map_append] at hnodup
    -- The chains that are not done are as they were.
    have hrest : ∀ d ∈ x :: rest, d.domain ∉ front.map CoreDeploy.domain := fun d hd hmem =>
      List.disjoint_of_nodup_append hnodup hmem (List.mem_map_of_mem hd)
    have hleft : ∀ d ∈ x :: rest, P d (w' d.domain) := by
      intro d hd
      rw [hothers _ (hrest d hd)]
      exact hinit d (List.mem_append_right _ hd)
    have hbefore : ∀ d ∈ front ++ x :: rest, P d (w' d.domain) ∨ Q d (w' d.domain) := by
      intro d hd
      rcases List.mem_append.mp hd with hd | hd
      · exact .inr (hdone d hd)
      · exact .inl (hleft d hd)
    have houtside : ∀ e, e ∉ (front ++ x :: rest).map CoreDeploy.domain → w' e = w e := by
      intro e he
      rw [List.map_append] at he
      exact hothers e fun hmem => he (List.mem_append_left _ hmem)
    refine (hstep w' hbefore houtside x (List.mem_append_right _ List.mem_cons_self)
      (hleft x List.mem_cons_self)).mono fun w'' _ hw'' => ⟨fun d hd => ?_, fun e he => ?_⟩
    · rcases List.mem_append.mp hd with hd | hd
      · have hne : d.domain ≠ x.domain := fun heq =>
          hrest x List.mem_cons_self (heq ▸ List.mem_map_of_mem hd)
        rw [hw''.2 _ hne]
        exact hdone d hd
      · rw [List.mem_singleton.mp hd]
        exact hw''.1
    · rw [List.map_append, List.mem_append, not_or] at he
      rw [hw''.2 e fun heq => he.2 (by simp [heq]), hothers e he.1]
  · constructor
    · intro h d hd
      obtain ⟨front, rest, rfl⟩ := List.append_of_mem hd
      exact h front d rest rfl
    · rintro h front d rest rfl
      exact h d (by simp)

end Sites

/-! ### The stages of all chains -/

variable [ByteAlphabet Byte] [DecidableEq Byte] (K : Crypto Byte)
  (create : Address Byte → ℕ → Address Byte) (w₀ : World Byte)

/-- What a deployment starts from: different domains, none of them zero, and chains on which
nothing is deployed. -/
structure Setting (deploys : List (CoreDeploy Byte)) : Prop where
  creates : Creates create
  nodup : (deploys.map CoreDeploy.domain).Nodup
  nonzero : 0 ∉ deploys.map CoreDeploy.domain
  blank : ∀ d ∈ deploys, Blank create (w₀ d.domain)
  sender : ∀ d ∈ deploys, (w₀ d.domain).chain.deployer ≠ 0

/-- The addresses of the contracts of a chain. -/
def layoutOf (e : UInt32) : Layout Byte := layout create (w₀ e).chain

/-- The addresses of the GovernanceRouters. -/
def addressOf (e : UInt32) : Address Byte := (layoutOf create w₀ e).governance.proxy

/-- A chain on which some remotes are enrolled. -/
def Enrolled (remotes : List (CoreDeploy Byte)) (deploy : CoreDeploy Byte) (site : Site Byte) :
    Prop :=
  ∃ proxies, Configured K create (layoutOf create w₀ deploy.domain) (addressOf create w₀) deploy
    (enrolledStage (layoutOf create w₀ deploy.domain) (addressOf create w₀) deploy remotes proxies)
    site

variable {K create w₀} {deploys : List (CoreDeploy Byte)} {deploy : CoreDeploy Byte}
  {site : Site Byte} {w : World Byte}

section Setting

variable (h : Setting create w₀ deploys)

include h

omit [DecidableEq Byte] in
theorem Setting.address_ne_zero (e : UInt32) : addressOf create w₀ e ≠ 0 :=
  h.creates.ne_zero _ _

omit [DecidableEq Byte] in
/-- The remotes of a chain are those with other domains. -/
theorem Setting.zero_notMem_remotes (deploy : CoreDeploy Byte) :
    0 ∉ (remotesOf deploys deploy).map CoreDeploy.domain := by
  intro hmem
  obtain ⟨r, hr, hzero⟩ := List.mem_map.mp hmem
  exact h.nonzero (hzero ▸ List.mem_map_of_mem (List.mem_of_mem_filter hr))

omit [DecidableEq Byte] in
theorem Setting.nodup_remotes (deploy : CoreDeploy Byte) :
    ((remotesOf deploys deploy).map CoreDeploy.domain).Nodup :=
  h.nodup.sublist (List.filter_sublist.map _)

/-- The contracts of all chains are deployed. -/
theorem Setting.deployOptics : SucceedsIff
    (deploys.foldlM (fun w deploy =>
      onSite deploy.domain (Deployment.deployOptics K create deploy) w) w₀) True
    fun w => ∀ d ∈ deploys, Enrolled K create w₀ [] d (w d.domain) := by
  refine ((sites_succeedsIff (C := fun _ => True) (P := fun d site => site = w₀ d.domain)
    (Q := Enrolled K create w₀ []) h.nodup (fun _ _ => rfl) ?_).congr (by simp)).mono
      fun w _ hw => hw.1
  intro w' _ _ d hd hsite
  obtain ⟨site', hdeploy, hsite'⟩ := deployOptics_of_blank (K := K) (addressOf create w₀) d
    h.creates (h.blank d hd) (L := layoutOf create w₀ d.domain) rfl
    fun _ => ⟨0, 0, 0⟩
  refine onSite_succeedsIff (Q := Enrolled K create w₀ [] d) ?_
  rw [hsite]
  exact .of_ok hdeploy ⟨_, hsite'⟩

/-- The remotes of one chain are enrolled. -/
theorem Setting.enrollRemotesOf {d : CoreDeploy Byte} (hd : Enrolled K create w₀ [] d (w d.domain))
    (hgovernance : ∀ r ∈ deploys,
      (w r.domain).contracts.governance = some (layoutOf create w₀ r.domain).governance) :
    SucceedsIff
      ((remotesOf deploys d).foldlM (fun w remote => enrollRemote K create d remote w) w)
      (remotesOf deploys d ≠ [] → d.GasInBounds ∧
        (enrollmentMessages (addressOf create w₀) [] (remotesOf deploys d)).length ≤
          MerkleLib.MAX_LEAVES)
      fun w' => Enrolled K create w₀ (remotesOf deploys d) d (w' d.domain) ∧
        ∀ e, e ≠ d.domain → w' e = w e := by
  refine (SucceedsIff.foldlM (I := fun front (w' : World Byte) =>
      Enrolled K create w₀ front d (w' d.domain) ∧ ∀ e, e ≠ d.domain → w' e = w e)
    (C := fun front r => d.GasInBounds ∧
      (enrollmentMessages (addressOf create w₀) [] (front ++ [r])).length ≤ MerkleLib.MAX_LEAVES)
    ⟨hd, fun _ _ => rfl⟩ ?_).congr ?_
  · rintro front r rest hsplit w' ⟨⟨proxies, hfront⟩, hothers⟩
    have hnodup := h.nodup_remotes d
    rw [hsplit, List.map_append] at hnodup
    have hfree : r.domain ∉ front.map CoreDeploy.domain := fun hmem =>
      List.disjoint_of_nodup_append hnodup hmem (List.mem_map_of_mem List.mem_cons_self)
    have hzero : 0 ∉ (front ++ [r]).map CoreDeploy.domain := by
      have hall := h.zero_notMem_remotes d
      rw [hsplit] at hall
      exact fun hmem => hall (List.map_subset _ (by simp) hmem)
    obtain ⟨hr, hne⟩ := List.mem_filter.mp
      (hsplit ▸ List.mem_append_right front List.mem_cons_self : r ∈ remotesOf deploys d)
    have hremote : (w' r.domain).contracts.governance =
        some (layoutOf create w₀ r.domain).governance := by
      rw [hothers _ (of_decide_eq_true hne)]
      exact hgovernance r hr
    refine (enrollRemote_succeedsIff h.creates hfront hfree hzero (h.address_ne_zero _) hremote
      rfl).mono fun w'' _ hw'' => ⟨hw''.1, fun e he => ?_⟩
    rw [hw''.2 e he, hothers e he]
  · constructor
    · intro hall hne
      -- When there is room for the last remote, there was room for the others.
      obtain ⟨front, r, hsplit⟩ := List.eq_nil_or_concat (remotesOf deploys d) |>.resolve_left hne
      have hlast := hall front r [] (by simpa using hsplit)
      rwa [← List.concat_eq_append, ← hsplit] at hlast
    · intro hall front r rest hsplit
      obtain ⟨hgas, hroom⟩ := hall (by simp [hsplit])
      refine ⟨hgas, le_trans (length_enrollmentMessages_mono _ rest) ?_⟩
      rw [List.append_assoc]
      exact hsplit ▸ hroom

/-- All remotes are enrolled on all chains. -/
theorem Setting.enrollRemotes (hw : ∀ d ∈ deploys, Enrolled K create w₀ [] d (w d.domain)) :
    SucceedsIff (deploys.foldlM (fun w deploy =>
        (remotesOf deploys deploy).foldlM (fun w remote =>
          enrollRemote K create deploy remote w) w) w)
      (∀ d ∈ deploys, remotesOf deploys d ≠ [] → d.GasInBounds ∧
        (enrollmentMessages (addressOf create w₀) [] (remotesOf deploys d)).length ≤
          MerkleLib.MAX_LEAVES)
      fun w' => ∀ d ∈ deploys, Enrolled K create w₀ (remotesOf deploys d) d (w' d.domain) := by
  refine (sites_succeedsIff (P := Enrolled K create w₀ [])
    (Q := fun d => Enrolled K create w₀ (remotesOf deploys d) d) h.nodup hw ?_).mono
      fun w' _ hw' => hw'.1
  intro w' hstages _ d hd hfirst
  refine h.enrollRemotesOf hfirst fun r hr => ?_
  -- The router of a remote is there already, whether the remote had its turn or not.
  rcases hstages r hr with ⟨_, hr⟩ | ⟨_, hr⟩
  · exact hr.kept.governance
  · exact hr.kept.governance

end Setting

/-! ### The governance of all chains -/

/-- What the governor of a chain, its domain and the last messages are once the governance is
handed over. -/
structure Handover (Byte : Type) where
  governor : Address Byte
  governorDomain : UInt32
  messages : List (Dispatch Byte)

/-- The governance of a chain, from that of the first one: the others have no governor, and tell
their remotes about the governor of the first. -/
def handoverOf (address : UInt32 → Address Byte) (deploys : List (CoreDeploy Byte))
    (gov : CoreDeploy Byte) (first : Handover Byte) (deploy : CoreDeploy Byte) : Handover Byte :=
  if deploy.domain = gov.domain then first
  else ⟨0, gov.domain, announcement address (remotesOf deploys deploy)
    (.transferGovernor gov.domain (addressToBytes32 first.governor))⟩

variable (K create w₀)

/-- A chain whose governance is handed over. -/
def Handed (remotes : List (CoreDeploy Byte)) (hand : Handover Byte) (deploy : CoreDeploy Byte)
    (site : Site Byte) : Prop :=
  ∃ proxies, Configured K create (layoutOf create w₀ deploy.domain) (addressOf create w₀) deploy
    (handedStage (layoutOf create w₀ deploy.domain) (addressOf create w₀) deploy remotes proxies
      hand.governor hand.governorDomain hand.messages) site

/-- The stage of a chain at the end. -/
def lastStage (remotes : List (CoreDeploy Byte)) (hand : Handover Byte)
    (deploy : CoreDeploy Byte) (proxies : UInt32 → BeaconProxy Byte) : Stage Byte :=
  { handedStage (layoutOf create w₀ deploy.domain) (addressOf create w₀) deploy remotes proxies
      hand.governor hand.governorDomain hand.messages with
    owners := .all (addressOf create w₀ deploy.domain) }

/-- A chain whose contracts belong to its GovernanceRouter. -/
def Relinquished (remotes : List (CoreDeploy Byte)) (hand : Handover Byte)
    (deploy : CoreDeploy Byte) (site : Site Byte) : Prop :=
  ∃ proxies, Configured K create (layoutOf create w₀ deploy.domain) (addressOf create w₀) deploy
    (lastStage create w₀ remotes hand deploy proxies) site

/-- A chain after its check. -/
def Checked (remotes : List (CoreDeploy Byte)) (hand : Handover Byte) (deploy : CoreDeploy Byte)
    (site : Site Byte) : Prop :=
  ∃ proxies site₀, Configured K create (layoutOf create w₀ deploy.domain) (addressOf create w₀)
      deploy (lastStage create w₀ remotes hand deploy proxies) site₀ ∧
    site = { site₀ with
      verificationInput := coreVerification (layoutOf create w₀ deploy.domain) ++
        checkedReplicas proxies remotes }

variable {K create w₀} {gov : CoreDeploy Byte} {nonGov : List (CoreDeploy Byte)}

section Governance

variable (h : Setting create w₀ (gov :: nonGov))

include h

omit [DecidableEq Byte] in
theorem Setting.domain_ne {d : CoreDeploy Byte} (hd : d ∈ nonGov) : gov.domain ≠ d.domain := by
  have hnodup := h.nodup
  rw [List.map_cons, List.nodup_cons] at hnodup
  exact fun heq => hnodup.1 (heq ▸ List.mem_map_of_mem hd)

/-- The governor of the first chain. -/
theorem Setting.appointGovernor
    (hgov : Enrolled K create w₀ (remotesOf (gov :: nonGov) gov) gov (w gov.domain)) :
    SucceedsIff (Deployment.appointGovernor K gov w)
      (∀ governor, gov.config.governor = some governor → governor.domain = gov.domain ∨
        (governor.domain ∈ (remotesOf (gov :: nonGov) gov).map CoreDeploy.domain ∧
          (enrollmentMessages (addressOf create w₀) [] (remotesOf (gov :: nonGov) gov)).length +
            (remotesOf (gov :: nonGov) gov).length ≤ MerkleLib.MAX_LEAVES))
      fun w' => (∃ more, ((gov.appointed (layoutOf create w₀ gov.domain)).2 = gov.domain →
          more = []) ∧
        Handed K create w₀ (remotesOf (gov :: nonGov) gov)
          ⟨(gov.appointed (layoutOf create w₀ gov.domain)).1,
            (gov.appointed (layoutOf create w₀ gov.domain)).2, more⟩ gov (w' gov.domain)) ∧
        ∀ e, e ≠ gov.domain → w' e = w e := by
  obtain ⟨proxies, hgov⟩ := hgov
  refine (appointGovernor_succeedsIff hgov h.address_ne_zero (h.zero_notMem_remotes gov)).mono
    fun w' _ hw' => ⟨?_, hw'.2⟩
  obtain ⟨more, hmore, hstage⟩ := hw'.1
  exact ⟨more, hmore, proxies, hstage⟩

/-- The governance of the other chains. -/
theorem Setting.transferGovernorships {first : Handover Byte}
    (hgov : Handed K create w₀ (remotesOf (gov :: nonGov) gov) first gov (w gov.domain))
    (hnon : ∀ d ∈ nonGov, Enrolled K create w₀ (remotesOf (gov :: nonGov) d) d (w d.domain)) :
    SucceedsIff (nonGov.foldlM (fun w non => transferGovernorship K gov non w) w)
      (∀ d ∈ nonGov, (enrollmentMessages (addressOf create w₀) []
          (remotesOf (gov :: nonGov) d)).length + (remotesOf (gov :: nonGov) d).length ≤
        MerkleLib.MAX_LEAVES)
      fun w' => ∀ d ∈ gov :: nonGov, Handed K create w₀ (remotesOf (gov :: nonGov) d)
        (handoverOf (addressOf create w₀) (gov :: nonGov) gov first d) d (w' d.domain) := by
  have hnodup : (nonGov.map CoreDeploy.domain).Nodup := (List.nodup_cons.mp h.nodup).2
  have hfirst : gov.domain ∉ nonGov.map CoreDeploy.domain := (List.nodup_cons.mp h.nodup).1
  obtain ⟨proxies, hgov⟩ := hgov
  refine (sites_succeedsIff
    (P := fun d => Enrolled K create w₀ (remotesOf (gov :: nonGov) d) d)
    (Q := fun d => Handed K create w₀ (remotesOf (gov :: nonGov) d)
      (handoverOf (addressOf create w₀) (gov :: nonGov) gov first d) d)
    hnodup hnon ?_).mono fun w' _ hw' d hd => ?_
  · rintro w' - hothers d hd ⟨proxies', hd'⟩
    have hne := h.domain_ne hd
    have hmem : gov.domain ∈ (remotesOf (gov :: nonGov) d).map CoreDeploy.domain :=
      List.mem_map_of_mem (List.mem_filter.mpr ⟨List.mem_cons_self, decide_eq_true hne⟩)
    rw [← hothers _ hfirst] at hgov
    refine (transferGovernorship_succeedsIff hgov hd' h.address_ne_zero (h.zero_notMem_remotes d)
      hne hmem).mono fun w'' _ hw'' => ⟨⟨proxies', ?_⟩, hw''.2⟩
    rw [handoverOf, if_neg hne.symm]
    exact hw''.1
  · rcases List.mem_cons.mp hd with rfl | hd
    · rw [handoverOf, if_pos rfl, hw'.2 _ hfirst]
      exact ⟨proxies, hgov⟩
    · exact hw'.1 d hd

end Governance

section Ends

variable (h : Setting create w₀ deploys) {hand : CoreDeploy Byte → Handover Byte}

include h

/-- The contracts of all chains are given away. -/
theorem Setting.relinquish
    (hw : ∀ d ∈ deploys, Handed K create w₀ (remotesOf deploys d) (hand d) d (w d.domain)) :
    SucceedsIff (deploys.foldlM (fun w deploy =>
        onSite deploy.domain Deployment.relinquish w) w) True
      fun w' => ∀ d ∈ deploys,
        Relinquished K create w₀ (remotesOf deploys d) (hand d) d (w' d.domain) := by
  refine ((sites_succeedsIff (C := fun _ => True)
    (P := fun d => Handed K create w₀ (remotesOf deploys d) (hand d) d)
    (Q := fun d => Relinquished K create w₀ (remotesOf deploys d) (hand d) d)
    h.nodup hw ?_).congr (by simp)).mono fun w' _ hw' => hw'.1
  rintro w' - - d hd ⟨proxies, hd'⟩
  refine onSite_succeedsIff (Q := Relinquished K create w₀ (remotesOf deploys d) (hand d) d) ?_
  exact (hd'.relinquish rfl (h.address_ne_zero _)).mono fun site _ hsite => ⟨proxies, hsite⟩

/-- The checks of all chains. -/
theorem Setting.checkCoreDeploys
    (hw : ∀ d ∈ deploys, Relinquished K create w₀ (remotesOf deploys d) (hand d) d (w d.domain))
    (governorDomain : UInt32) :
    SucceedsIff (deploys.foldlM (fun w deploy => onSite deploy.domain
        (checkCoreDeploy ((remotesOf deploys deploy).map CoreDeploy.domain) governorDomain) w) w)
      (∀ d ∈ deploys, ((hand d).governor ≠ 0 ↔ governorDomain = d.domain) ∧
        (hand d).governorDomain = governorDomain)
      fun w' => ∀ d ∈ deploys,
        Checked K create w₀ (remotesOf deploys d) (hand d) d (w' d.domain) := by
  refine (sites_succeedsIff
    (P := fun d => Relinquished K create w₀ (remotesOf deploys d) (hand d) d)
    (Q := fun d => Checked K create w₀ (remotesOf deploys d) (hand d) d)
    h.nodup hw ?_).mono fun w' _ hw' => hw'.1
  rintro w' - - d hd ⟨proxies, hd'⟩
  refine onSite_succeedsIff (Q := Checked K create w₀ (remotesOf deploys d) (hand d) d) ?_
  exact (hd'.checkCoreDeploy rfl rfl governorDomain).mono fun site _ hsite =>
    ⟨proxies, _, hd', hsite⟩

omit [DecidableEq Byte] in
/-- Every chain has all other chains as its remotes. -/
theorem Setting.length_remotesOf {d : CoreDeploy Byte} (hd : d ∈ deploys) :
    (remotesOf deploys d).length + 1 = deploys.length := by
  obtain ⟨front, rest, rfl⟩ := List.append_of_mem hd
  have hnodup := h.nodup
  rw [List.map_append, List.map_cons, List.nodup_middle, List.nodup_cons, ← List.map_append]
    at hnodup
  have hothers : ∀ r ∈ front ++ rest, decide (r.domain ≠ d.domain) = true := fun r hr =>
    decide_eq_true fun heq => hnodup.1 (heq ▸ List.mem_map_of_mem hr)
  have hremotes : remotesOf (front ++ d :: rest) d = front ++ rest := by
    rw [remotesOf, List.filter_append, List.filter_cons_of_neg (by simp), ← List.filter_append]
    exact List.filter_eq_self.mpr hothers
  rw [hremotes]
  simp [Nat.add_assoc]

end Ends

/-! ### The whole script -/

/-- When the script returns: the gas constants of all Replicas are in bounds, the governor of
the first chain is an account of this chain, and every Home has room for the messages about
the governance. -/
structure Deployable (gov : CoreDeploy Byte) (nonGov : List (CoreDeploy Byte)) : Prop where
  gas : nonGov ≠ [] → ∀ d ∈ gov :: nonGov, d.GasInBounds
  governor : ∀ governor, gov.config.governor = some governor →
    governor.domain = gov.domain ∧ governor.address ≠ 0
  room : nonGov.length * (nonGov.length + 3) ≤ 2 * MerkleLib.MAX_LEAVES

/-- The governance of the first chain of a deployment that succeeds. -/
def firstHandover (create : Address Byte → ℕ → Address Byte) (w₀ : World Byte)
    (gov : CoreDeploy Byte) : Handover Byte :=
  ⟨(gov.appointed (layoutOf create w₀ gov.domain)).1, gov.domain, []⟩

section Whole

variable (h : Setting create w₀ (gov :: nonGov))

include h

omit [DecidableEq Byte] in
/-- The governor of the configuration is an account of the first chain, if there is one. -/
theorem Setting.appointed_iff :
    ((gov.appointed (layoutOf create w₀ gov.domain)).1 ≠ 0 ∧
      (gov.appointed (layoutOf create w₀ gov.domain)).2 = gov.domain) ↔
    ∀ governor, gov.config.governor = some governor →
      governor.domain = gov.domain ∧ governor.address ≠ 0 := by
  have hsender : (layoutOf create w₀ gov.domain).deployer ≠ 0 := h.sender gov List.mem_cons_self
  cases hgovernor : gov.config.governor with
  | none => simp [CoreDeploy.appointed, hgovernor, hsender]
  | some governor =>
    rcases eq_or_ne governor.domain gov.domain with heq | hne
    · simp [CoreDeploy.appointed, hgovernor, heq]
    · simp [CoreDeploy.appointed, hgovernor, hne]

/-- From the enrollment of the remotes to the end. -/
theorem Setting.govern (hw : ∀ d ∈ gov :: nonGov,
      Enrolled K create w₀ (remotesOf (gov :: nonGov) d) d (w d.domain)) :
    SucceedsIff (do
        let w ← Deployment.appointGovernor K gov w
        let w ← nonGov.foldlM (fun w non => transferGovernorship K gov non w) w
        let w ← (gov :: nonGov).foldlM (fun w deploy =>
          onSite deploy.domain Deployment.relinquish w) w
        (gov :: nonGov).foldlM (fun w deploy => onSite deploy.domain (checkCoreDeploy
          ((remotesOf (gov :: nonGov) deploy).map CoreDeploy.domain) gov.domain) w) w)
      ((∀ governor, gov.config.governor = some governor →
        governor.domain = gov.domain ∧ governor.address ≠ 0) ∧
        ∀ d ∈ nonGov, (enrollmentMessages (addressOf create w₀) []
          (remotesOf (gov :: nonGov) d)).length + (remotesOf (gov :: nonGov) d).length ≤
            MerkleLib.MAX_LEAVES)
      fun w => ∀ d ∈ gov :: nonGov, Checked K create w₀ (remotesOf (gov :: nonGov) d)
        (handoverOf (addressOf create w₀) (gov :: nonGov) gov (firstHandover create w₀ gov) d)
        d (w d.domain) := by
  let appointed := gov.appointed (layoutOf create w₀ gov.domain)
  refine ((h.appointGovernor (hw gov List.mem_cons_self)).bind (D :=
    (∀ d ∈ nonGov, (enrollmentMessages (addressOf create w₀) []
      (remotesOf (gov :: nonGov) d)).length + (remotesOf (gov :: nonGov) d).length ≤
        MerkleLib.MAX_LEAVES) ∧ appointed.1 ≠ 0 ∧ appointed.2 = gov.domain) ?_).congr ?_
  · rintro w₁ - ⟨⟨more, hmore, hgov⟩, hothers⟩
    have hnon : ∀ d ∈ nonGov,
        Enrolled K create w₀ (remotesOf (gov :: nonGov) d) d (w₁ d.domain) := by
      intro d hd
      rw [hothers _ (h.domain_ne hd).symm]
      exact hw d (List.mem_cons_of_mem gov hd)
    refine (h.transferGovernorships hgov hnon).bind fun w₂ _ h₂ => ?_
    refine (h.relinquish h₂).bind_true fun w₃ h₃ => ?_
    refine ((h.checkCoreDeploys h₃ gov.domain).congr ?_).mono fun w₄ hgood h₄ => ?_
    · constructor
      · intro hall
        have hfirst := hall gov List.mem_cons_self
        rw [handoverOf, if_pos rfl] at hfirst
        exact ⟨hfirst.1.mpr rfl, hfirst.2⟩
      · rintro ⟨hne, heq⟩ d hd
        rcases List.mem_cons.mp hd with rfl | hd
        · rw [handoverOf, if_pos rfl]
          exact ⟨⟨fun _ => rfl, fun _ => hne⟩, heq⟩
        · have hdomain := h.domain_ne hd
          rw [handoverOf, if_neg hdomain.symm]
          exact ⟨⟨fun hzero => absurd rfl hzero, fun heq => absurd heq hdomain⟩, rfl⟩
    · have hfirst : firstHandover create w₀ gov = ⟨appointed.1, appointed.2, more⟩ := by
        rw [hmore hgood.2, hgood.2]
        rfl
      rw [hfirst]
      exact h₄
  · rw [h.appointed_iff]
    constructor
    · rintro ⟨-, hroom, hgovernor⟩
      exact ⟨hgovernor, hroom⟩
    · rintro ⟨hgovernor, hroom⟩
      exact ⟨fun governor hsome => .inl (hgovernor governor hsome).1, hroom, hgovernor⟩

/-- **The script returns under exactly one condition, and leaves every chain at the last
stage.** -/
theorem Setting.deployNChains :
    SucceedsIff (Deployment.deployNChains K create (gov :: nonGov) w₀) (Deployable gov nonGov)
      fun w => ∀ d ∈ gov :: nonGov, Checked K create w₀ (remotesOf (gov :: nonGov) d)
        (handoverOf (addressOf create w₀) (gov :: nonGov) gov (firstHandover create w₀ gov) d)
        d (w d.domain) := by
  rw [Deployment.deployNChains]
  refine (h.deployOptics.bind_true fun w₁ h₁ => (h.enrollRemotes h₁).bind
    fun w₂ _ h₂ => h.govern h₂).congr ?_
  have hlength : ∀ d ∈ gov :: nonGov,
      (remotesOf (gov :: nonGov) d).length = nonGov.length := by
    intro d hd
    have hd := h.length_remotesOf hd
    rw [List.length_cons] at hd
    omega
  have hmessages : ∀ d ∈ gov :: nonGov, 2 * (enrollmentMessages (addressOf create w₀) []
      (remotesOf (gov :: nonGov) d)).length = nonGov.length * (nonGov.length + 1) := by
    intro d hd
    rw [length_enrollmentMessages, hlength d hd]
  have hnil : ∀ d ∈ gov :: nonGov, remotesOf (gov :: nonGov) d ≠ [] ↔ nonGov ≠ [] := by
    intro d hd
    rw [← List.length_pos_iff, hlength d hd, List.length_pos_iff]
  have hsum : nonGov.length * (nonGov.length + 3) =
      nonGov.length * (nonGov.length + 1) + 2 * nonGov.length := by ring
  constructor
  · rintro ⟨henroll, hgovernor, hroom⟩
    refine ⟨fun hne d hd => (henroll d hd ((hnil d hd).mpr hne)).1, hgovernor, ?_⟩
    cases hnon : nonGov with
    | nil => simp
    | cons d rest =>
      have hd : d ∈ nonGov := hnon ▸ List.mem_cons_self
      have hd' : d ∈ gov :: nonGov := List.mem_cons_of_mem gov hd
      have hd'' := hroom d hd
      rw [← hnon, hsum, ← hmessages d hd', ← hlength d hd']
      omega
  · rintro ⟨hgas, hgovernor, hroom⟩
    rw [hsum] at hroom
    refine ⟨fun d hd hne => ⟨hgas ((hnil d hd).mp hne) d hd, ?_⟩, hgovernor, fun d hd => ?_⟩
    · have htwice := hmessages d hd
      omega
    · have hd' : d ∈ gov :: nonGov := List.mem_cons_of_mem gov hd
      have htwice := hmessages d hd'
      rw [hlength d hd']
      omega

end Whole

/-! ### A deployment of three chains -/

section Sample

/-- Addresses that tell the nonce. -/
def sampleCreate (_ : Address ℕ) (n : ℕ) : Address ℕ := (n + 1) ::ᵥ List.Vector.replicate 19 0

/-- The configuration of a chain, where an account is the updater and another one watches. -/
def sampleDeploy (domain : UInt32) (governor : Option (Governor ℕ)) : CoreDeploy ℕ where
  domain := domain
  config :=
    { updater := List.Vector.replicate 20 7
      recoveryTimelock := 180
      recoveryManager := List.Vector.replicate 20 8
      optimisticSeconds := 1800
      watchers := [List.Vector.replicate 20 9]
      governor := governor
      processGas := 850000
      reserveGas := 15000 }

/-- The first chain appoints an account of its own. -/
def sampleGov : CoreDeploy ℕ := sampleDeploy 1 (some ⟨1, List.Vector.replicate 20 5⟩)

def sampleNonGov : List (CoreDeploy ℕ) := [sampleDeploy 2 none, sampleDeploy 3 none]

/-- Chains without any contract. -/
def sampleWorld : World ℕ := fun _ =>
  ⟨⟨fun _ => none, List.Vector.replicate 20 6, 0, fun _ => 0⟩, .empty, []⟩

theorem sample_setting : Setting sampleCreate sampleWorld (sampleGov :: sampleNonGov) where
  creates :=
    { injective := fun _ n m h => by
        have hhead := congrArg List.Vector.head h
        simpa [sampleCreate] using hhead
      ne_zero := fun _ n h => by
        have hhead := congrArg List.Vector.head h
        exact Nat.succ_ne_zero n hhead }
  nodup := by decide
  nonzero := by decide
  blank := fun _ _ => ⟨fun _ _ => rfl, rfl, rfl⟩
  sender := fun _ _ h => by
    have hhead : 6 = 0 := congrArg List.Vector.head h
    exact absurd hhead (by decide)

theorem sample_deployable : Deployable sampleGov sampleNonGov where
  gas _ d hd := by
    simp only [sampleGov, sampleNonGov, List.mem_cons, List.not_mem_nil, or_false] at hd
    rcases hd with rfl | rfl | rfl <;> exact ⟨le_rfl, le_rfl⟩
  governor governor h := by
    obtain rfl := Option.some.inj h
    refine ⟨rfl, fun hzero => ?_⟩
    exact absurd (congrArg List.Vector.head hzero) (by decide)
  room := by decide

end Sample

end Optics.Deployment
