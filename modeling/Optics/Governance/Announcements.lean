/-
# What a GovernanceRouter tells the others

The list of domains is what `_sendToAllRemoteRouters` goes through, while the table of
routers says where a message goes. A domain is listed once as long as it has a router,
so a change of governance reaches every router of the table once, and in particular a
transfer of the governor's role reaches the router that it is transferred to.
-/

import Optics.Governance.Recovery

namespace Optics.GovernanceRouter

open Optics.Solidity Optics.Math Optics.Math.Transition
open Optics.GovernanceMessage (Action)

variable {Byte : Type} [DecidableEq Byte] [ByteAlphabet Byte]

/-- Every domain other than 0 that has a router after the call is sent the action once, at
that router, and nothing else is sent. -/
def ToEvery (a : Action Byte) (m : Moment Byte) : Prop :=
  ∀ e, (m.sent.filter fun message => message.destination = e) =
    if e ≠ 0 ∧ m.after.routers e ≠ 0 then [⟨e, m.after.routers e, a.bytes⟩] else []

/-- What the calls of the governor that concern other routers tell them. -/
def Announced (m : Moment Byte) : Prop :=
  match m.act with
  | .call _ (.setRouter d r) => ToEvery (.setRouter d r) m
  | .call _ (.transferGovernor d g) => d ≠ m.before.localDomain →
    ToEvery (.transferGovernor d (addressToBytes32 g)) m ∧
      (d ≠ 0 → (m.sent.filter fun message => message.destination = d) =
        [⟨d, m.after.routers d, (Action.transferGovernor d (addressToBytes32 g)).bytes⟩])
  | _ => True

section Announce

variable {router : GovernanceRouter Byte}

/-- A message to all routers goes once to each of them. -/
theorem filter_announce (body : List Byte) (hlisted : router.Listed) (e : UInt32) :
    ((router.announce body).filter fun message => message.destination = e) =
      if e ≠ 0 ∧ router.routers e ≠ 0 then [⟨e, router.routers e, body⟩] else [] := by
  -- the messages to a domain are as many as its occurrences in the list
  have hcopies : (router.domains.filter (· ≠ 0)).filter (fun d => decide (d = e)) =
      List.replicate ((router.domains.filter (· ≠ 0)).count e) e := List.filter_eq e
  have hfilter : ((router.announce body).filter fun message => message.destination = e) =
      ((router.domains.filter (· ≠ 0)).filter (fun d => decide (d = e))).map
        fun d => ⟨d, router.routers d, body⟩ := by
    rw [announce, List.filter_map]
    rfl
  rw [hfilter, hcopies, List.map_replicate]
  by_cases he : e = 0
  · rw [if_neg fun h => h.1 he, List.count_eq_zero.mpr (by simp [he])]
    rfl
  · rw [List.count_filter (by simpa using he), hlisted e he]
    by_cases hrouter : router.routers e = 0
    · rw [if_pos hrouter, if_neg fun h => h.2 hrouter]
      rfl
    · rw [if_neg hrouter, if_pos ⟨he, hrouter⟩]
      rfl

end Announce

/-! ### Along a run -/

/-- The table of routers and the list of domains agree, and what was told was told to every
router. -/
structure Routing (s : Chain Byte) : Prop where
  initialized : s.router.initialized = true
  listed : s.router.Listed
  announced : ∀ m ∈ s.history, Announced m

section Routing

variable {ctx : Context Byte} {router router' : GovernanceRouter Byte} {call : Call Byte}
  {sent : List (Dispatch Byte)} {s t : Chain Byte} {label : Label Byte}

theorem Effect.listed (h : Effect ctx router call router' sent)
    (hinitialized : router.initialized = true) (hlisted : router.Listed) : router'.Listed := by
  cases h with
  | init hnew => exact absurd (hinitialized.symm.trans hnew) (by decide)
  | handleAction _ _ happly =>
    rcases apply_eq_ok happly with ⟨d, g, rfl⟩ | ⟨d, r, rfl⟩
    · exact hlisted
    · exact hlisted._setRouter
  | setRouter => exact hlisted._setRouter
  | setRouterLocal => exact hlisted._setRouter
  | _ => exact hlisted

theorem Effect.announced (h : Effect ctx router call router' sent) (hlisted : router.Listed)
    (now : ℕ) : Announced ⟨now, router, .call ctx.sender call, router', sent⟩ := by
  cases h with
  | setRouter => exact filter_announce _ hlisted._setRouter
  | @transferGovernor d g _ hrouter =>
    intro hd
    rw [if_neg hd]
    -- the transfer itself touches neither the list nor the table
    have hafter : (router.withGovernor d g).Listed := hlisted
    have hevery := filter_announce (Action.transferGovernor d (addressToBytes32 g)).bytes hafter
    refine ⟨hevery, fun hzero => ?_⟩
    -- the domain that governs from now on has a router, or the transfer would have failed
    exact (hevery d).trans (if_pos ⟨hzero, hrouter.resolve_left hd⟩)
  | _ => trivial

theorem Routing.step (h : Routing s) (hstep : Step s label t) : Routing t := by
  cases hstep with
  -- only the entry of a call changes the router or adds what was sent
  | enter _ hnow hexec =>
    have heffect := effect_of_exec hexec
    constructor
    case initialized => exact (heffect.keeps h.initialized).1
    case listed => exact heffect.listed h.initialized h.listed
    case announced =>
      intro m hm
      rcases List.mem_append.mp hm with hold | hnew
      · exact h.announced m hold
      · exact List.mem_singleton.mp hnew ▸ heffect.announced h.listed s.now
  | perform =>
    refine ⟨h.initialized, h.listed, fun m hm => ?_⟩
    rcases List.mem_append.mp hm with hold | hnew
    · exact h.announced m hold
    · exact List.mem_singleton.mp hnew ▸ trivial
  | _ => exact ⟨h.initialized, h.listed, h.announced⟩

theorem routing_init (h : Initial s) : Routing s where
  initialized := (recovering_init h).initialized
  listed := by
    obtain ⟨ctx, localDomain, recoveryTimelock, manager, recoveryManager, hinit⟩ := h.deployed
    rw [init_eq_ok hinit]
    exact listed_deploy localDomain recoveryTimelock
  announced := by
    rw [h.history]
    exact fun _ hm => absurd hm List.not_mem_nil

/-- **The list of domains matches the table of routers.** In every run each domain other
than 0 is listed once if it has a router and not at all otherwise, and what the governor
tells the other routers goes to each of them once, at the address it has after the
change. -/
theorem domains_match_routers {s : Chain Byte × List (Chain Byte)}
    (h : transactions.Reachable s) :
    s.1.router.Listed ∧ ∀ m ∈ s.1.history, Announced m := by
  have hrouting := h.invariant_of_withSavepoints (fun _ => routing_init)
    fun _ _ _ _ hs hstep => hs.step (step_iff.mp hstep)
  exact ⟨hrouting.listed, hrouting.announced⟩

/-- Domain 2 is added, removed, added again and replaced, and governs in the end. -/
theorem domains_match_routers_sample :
    ∃ s : Chain UInt8 × List (Chain UInt8), transactions.Reachable s ∧
      s.1.router.domains = [0, 3, 2] ∧ s.1.router.governorDomain = 2 ∧
      s.1.history.map (fun m => m.sent.length) = [0, 2, 1, 2, 2, 2] ∧
      s.1.router.Listed ∧ ∀ m ∈ s.1.history, Announced m := by
  obtain ⟨s, hrun, hfacts⟩ := System.exists_run_of_any (S := chain) Label.exec sampleChain
    (sampleCall 11 1 (.setRouterLocal 2 (sampleRouter 2)) ++
      sampleCall 11 1 (.setRouter 3 (sampleRouter 3)) ++ sampleCall 11 1 (.setRouter 2 0) ++
      sampleCall 11 1 (.setRouter 2 (sampleRouter 4)) ++
      sampleCall 11 1 (.setRouter 2 (sampleRouter 5)) ++
      sampleCall 11 1 (.transferGovernor 2 (sampleAccount 21)))
    (fun s => s.router.domains = [0, 3, 2] ∧ s.router.governorDomain = 2 ∧
      s.history.map (fun m => m.sent.length) = [0, 2, 1, 2, 2, 2])
    (fun _ _ _ => id) (by decide +kernel)
  obtain ⟨hdomains, hgovernor, hsent⟩ := of_decide_eq_true hfacts
  have hreach : transactions.Reachable ((s, []) : Chain UInt8 × List (Chain UInt8)) :=
    ((System.reachable_init initial_sampleChain).run hrun).withSavepoints
  obtain ⟨hlisted, hannounced⟩ := domains_match_routers hreach
  exact ⟨(s, []), hreach, hdomains, hgovernor, hsent, hlisted, hannounced⟩

end Routing

end Optics.GovernanceRouter
