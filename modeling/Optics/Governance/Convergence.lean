/-
# When governance converges

Where the routers know each other, and every message is handled while its receiver
takes the sender's domain for the governor's, the transfers a router has yet to hear
of are the edges of a trail from the domain it takes for the governor's to the domain
where the role is. Using them up leads there in any order. The entries for a domain
without a router follow the last change, if the messages about one domain are handled
in order.

Without these conditions the routers may disagree for good.
-/

import Optics.Governance.OneGovernor
import Optics.Math.Trail

namespace Optics.Governance

open Optics.Solidity Optics.Math Optics.Math.Transition
open Optics.GovernanceMessage (Action)
open Optics.GovernanceRouter (Dispatch)

variable {Byte : Type} [DecidableEq Byte] [ByteAlphabet Byte]

/-! ### What is on its way to a router -/

section Pending

variable {α : Type} (f : UInt32 → Action Byte → Option α) (d : UInt32)
  (messages more : List (Transit Byte)) (m : Transit Byte)

/-- What the messages to a domain say, in the order of dispatch. -/
noncomputable def pending : List α :=
  messages.filterMap fun m =>
    if m.destination = d then (readAction m.body).bind (f m.origin) else none

omit [DecidableEq Byte] in
theorem pending_append : pending f d (messages ++ more) =
    pending f d messages ++ pending f d more :=
  List.filterMap_append

variable {f d messages m}

omit [DecidableEq Byte] in
theorem pending_cons_of_ne (h : m.destination ≠ d) :
    pending f d (m :: messages) = pending f d messages :=
  List.filterMap_cons_none (if_neg h)

omit [DecidableEq Byte] in
theorem pending_cons (hdestination : m.destination = d) {a : Action Byte}
    (hbody : m.body = a.bytes) :
    pending f d (m :: messages) = (f m.origin a).toList ++ pending f d messages := by
  have hread : (if m.destination = d then (readAction m.body).bind (f m.origin) else none) =
      f m.origin a := by
    rw [if_pos hdestination, hbody, readAction_bytes]
    rfl
  simp only [pending, List.filterMap_cons, hread]
  cases f m.origin a <;> rfl

/-- The messages of an announcement: one to every domain with a router. -/
theorem pending_announce {router : GovernanceRouter Byte} (hlisted : router.Listed)
    {origin : UInt32} {sender : Bytes32 Byte} {a : Action Byte} (hd : d ≠ 0) :
    pending f d ((router.announce a.bytes).map fun m => ⟨m, origin, sender⟩) =
      if router.routers d = 0 then [] else (f origin a).toList := by
  have hcount : pending f d ((router.announce a.bytes).map fun m => ⟨m, origin, sender⟩) =
      (List.replicate (router.domains.count d) (f origin a).toList).flatten := by
    unfold GovernanceRouter.announce
    induction router.domains with
    | nil => rfl
    | cons e rest ih =>
      by_cases he : e = 0
      · rw [List.filter_cons_of_neg (by simpa using he), List.count_cons_of_ne, ih]
        simpa [he] using hd.symm
      · rw [List.filter_cons_of_pos (by simpa using he), List.map_cons, List.map_cons]
        by_cases hed : e = d
        · subst hed
          rw [pending_cons (m := ⟨⟨e, router.routers e, a.bytes⟩, origin, sender⟩) rfl rfl, ih,
            List.count_cons_self, List.replicate_succ, List.flatten_cons]
        · rw [pending_cons_of_ne hed, ih, List.count_cons_of_ne]
          simpa using hed
  rw [hcount, hlisted d hd]
  split_ifs
  · rfl
  · simp

end Pending

/-- The edge of a transfer, from the domain that announces it to the new one. -/
def edge (origin : UInt32) : Action Byte → Option (UInt32 × UInt32)
  | .transferGovernor d _ => some (origin, d)
  | .setRouter .. => none

/-- The new entry for a domain. -/
def entry (domain : UInt32) (_origin : UInt32) : Action Byte → Option (Bytes32 Byte)
  | .transferGovernor .. => none
  | .setRouter d r => if d = domain then some r else none

/-! ### Runs considered -/

variable (members : Finset UInt32) (address : UInt32 → Address Byte)

/-- The routers of the members know each other and agree about all other domains. -/
structure Enrolled (s : Network Byte) : Prop extends Initial members address s where
  nonzero : 0 ∉ members
  enrolled : ∀ d ∈ members, ∀ e ∈ members, (s.routers d).routers e ≠ 0 ↔ e ≠ d
  others : ∀ d ∈ members, ∀ e ∈ members, ∀ domain ∉ members,
    (s.routers d).routers domain = (s.routers e).routers domain

/-- The calls of the governor: a transfer to an enrolled domain with a governor, and
`setRouter`. -/
def Governs (_ : Network Byte) : Label Byte → Prop
  | .call _ _ (.transferGovernor newDomain newGovernor) => newDomain ∈ members ∧ newGovernor ≠ 0
  | .call _ _ (.setRouter ..) => True
  | .call .. => False
  | .deliver .. | .leave _ => True

/-- No message about the entry for a domain is on its way to a router. -/
def NonePending (domain d : UInt32) (messages : List (Transit Byte)) : Prop :=
  ∀ m ∈ messages, m.destination = d → ∀ r, m.body ≠ (Action.setRouter domain r).bytes

/-- The steps in order. `setRouter` is called for domains without a router only, and
while no message about the domain is on its way to the caller. A message is handled
while its receiver takes its sender for the governor's router, and after the earlier
ones about the same domain. -/
def Orderly (s : Network Byte) : Label Byte → Prop
  | .call _ _ (.transferGovernor newDomain newGovernor) => newDomain ∈ members ∧ newGovernor ≠ 0
  | .call d _ (.setRouter domain _) => domain ∉ members ∧ NonePending domain d s.inFlight
  | .call .. => False
  | .deliver ctx before m =>
    ctx.isReplica (s.routers m.destination).xAppConnectionManager ∧
      (s.routers m.destination)._isGovernorRouter m.origin m.sender ∧
      ∀ domain r, m.body = (Action.setRouter domain r).bytes →
        NonePending domain m.destination before
  | .leave _ => True

/-- Exactly one router has a governor, all routers take its domain for the
governor's, and they agree about every domain other than their own. -/
structure Converged (s : Network Byte) : Prop where
  governor : ∃ d ∈ members, (∀ e ∈ members, (s.routers e).governorDomain = d) ∧
    ∀ e ∈ members, (s.routers e).governor ≠ 0 ↔ e = d
  routers : ∀ d ∈ members, ∀ e ∈ members, ∀ domain, domain ≠ d → domain ≠ e →
    (s.routers d).routers domain = (s.routers e).routers domain

/-! ### The invariant -/

/-- The network on an orderly run. The role is with the router of `tok` or on its way
to it; the transfers on the way to a router lead from the domain it takes for the
governor's to `tok`; and its entry for a domain without a router becomes `value`. -/
structure Settling (tok : UInt32) (value : UInt32 → Bytes32 Byte) (s : Network Byte) : Prop where
  sound : Sound members address s
  member : tok ∈ members
  enrolled : ∀ d ∈ members, ∀ e ∈ members, (s.routers d).routers e ≠ 0 ↔ e ≠ d
  one : tokens members s.routers s.inFlight = 1
  holder : ∀ d ∈ members, (s.routers d).governor ≠ 0 → d = tok
  carrier : ∀ m ∈ s.inFlight, carried m.toDispatch ≠ 0 → m.destination = tok
  travels : ∀ m ∈ s.inFlight, m.destination ∈ members → m.origin ≠ m.destination
  within : ∀ m ∈ s.inFlight, ∀ a : Action Byte, m.body = a.bytes →
    match a with
    | .transferGovernor d _ => d ∈ members
    | .setRouter d _ => d ∉ members
  trail : ∀ d ∈ members, Balanced (pending edge d s.inFlight) (s.routers d).governorDomain tok
  entries : ∀ d ∈ members, ∀ domain ∉ members,
    (pending (entry domain) d s.inFlight).getLastD ((s.routers d).routers domain) = value domain

variable {members address} {s t : Network Byte} {label : Label Byte} {tok d : UInt32}
  {value : UInt32 → Bytes32 Byte} {before after : List (Transit Byte)} {m : Transit Byte}

theorem settling_init (h : Enrolled members address s) :
    ∃ tok value, Settling members address tok value s := by
  obtain ⟨tok, hmember, hagreed⟩ := h.agreed
  refine ⟨tok, (s.routers tok).routers, ?_⟩
  constructor
  case sound => exact sound_init h.toInitial
  case member => exact hmember
  case enrolled => exact h.enrolled
  case one =>
    rw [tokens, Token.total, h.inFlight, ← Finset.add_sum_erase _ _ hmember, held,
      if_neg ((hagreed tok hmember).2.mpr rfl), Finset.sum_eq_zero]
    · rfl
    · intro d hd
      obtain ⟨hne, hd⟩ := Finset.mem_erase.mp hd
      exact if_pos (by_contra fun hgovernor => hne ((hagreed d hd).2.mp hgovernor))
  case holder => exact fun d hd hgovernor => (hagreed d hd).2.mp hgovernor
  case trail =>
    intro d hd
    rw [h.inFlight, (hagreed d hd).1]
    exact Balanced.refl tok
  case entries =>
    intro d hd domain hdomain
    rw [h.inFlight]
    exact h.others d hd tok hmember domain hdomain
  all_goals
    rw [h.inFlight]
    exact fun _ hm => absurd hm List.not_mem_nil

/-- In a network at rest governance has converged. -/
theorem Settling.converged (h : Settling members address tok value s) (hrest : s.inFlight = []) :
    Converged members s := by
  have hdomain : ∀ d ∈ members, (s.routers d).governorDomain = tok := by
    intro d hd
    have htrail := h.trail d hd
    rw [hrest] at htrail
    exact htrail.eq_of_nil
  have hexists : ∃ d ∈ members, (s.routers d).governor ≠ 0 := by
    have hone := h.one
    rw [hrest, tokens, Token.total, List.map_nil, List.sum_nil, Nat.add_zero] at hone
    obtain ⟨d, hd, hne⟩ := Finset.exists_ne_zero_of_sum_ne_zero (hone ▸ Nat.one_ne_zero)
    exact ⟨d, hd, held_ne_zero.mp hne⟩
  constructor
  case governor =>
    obtain ⟨d, hd, hgovernor⟩ := hexists
    obtain rfl := h.holder d hd hgovernor
    refine ⟨d, hd, hdomain, fun e he => ⟨h.holder e he, ?_⟩⟩
    rintro rfl
    exact hgovernor
  case routers =>
    intro d hd e he domain hdomain₁ hdomain₂
    by_cases hmember : domain ∈ members
    · rw [((h.sound.router d hd).routers domain hmember).resolve_right
          ((h.enrolled d hd domain hmember).mpr hdomain₁),
        ((h.sound.router e he).routers domain hmember).resolve_right
          ((h.enrolled e he domain hmember).mpr hdomain₂)]
    · have hentries := h.entries d hd domain hmember
      have hentries' := h.entries e he domain hmember
      rw [hrest] at hentries hentries'
      exact hentries.trans hentries'.symm

/-! ### Messages that are handled -/

/-- A message from the governor's router is handled as its action says. -/
theorem Network.deliver_eq (address : UInt32 → Address Byte) {ctx : GovernanceRouter.Context Byte}
    {a : Action Byte} (hbody : m.body = a.bytes)
    (hreplica : ctx.isReplica (s.routers m.destination).xAppConnectionManager)
    (hgovernor : (s.routers m.destination)._isGovernorRouter m.origin m.sender)
    {router' : GovernanceRouter Byte}
    (happly : GovernanceRouter.apply (s.routers m.destination) a = .ok router')
    {rest : List (Transit Byte)} :
    s.deliver address ctx m rest = s.commit address m.destination rest (router', []) := by
  rw [Network.deliver, hbody,
    GovernanceRouter.handle_action_eq_ok.mpr ⟨hreplica, hgovernor, happly, rfl⟩]

section Handled

variable {α : Type} {f : UInt32 → Action Byte → Option α}

omit [DecidableEq Byte] in
/-- A message to one domain is not on its way to another. -/
theorem pending_of_ne (hinFlight : s.inFlight = before ++ m :: after) (h : m.destination ≠ d) :
    pending f d s.inFlight = pending f d (before ++ after) := by
  rw [hinFlight, pending_append, pending_cons_of_ne h, pending_append]

omit [DecidableEq Byte] in
/-- A message that says nothing of the kind asked for. -/
theorem pending_of_none (hinFlight : s.inFlight = before ++ m :: after) {a : Action Byte}
    (hbody : m.body = a.bytes) (hnone : f m.origin a = none) :
    pending f d s.inFlight = pending f d (before ++ after) := by
  by_cases h : m.destination = d
  · rw [hinFlight, pending_append, pending_cons h hbody, hnone, pending_append]
    rfl
  · exact pending_of_ne hinFlight h

/-- The facts about messages hold of fewer messages. -/
theorem Settling.of_mem (h : Settling members address tok value s) {u : Network Byte}
    (hmem : ∀ m ∈ u.inFlight, m ∈ s.inFlight) :
    (∀ m ∈ u.inFlight, carried m.toDispatch ≠ 0 → m.destination = tok) ∧
    (∀ m ∈ u.inFlight, m.destination ∈ members → m.origin ≠ m.destination) ∧
    ∀ m ∈ u.inFlight, ∀ a : Action Byte, m.body = a.bytes →
      match a with
      | .transferGovernor d _ => d ∈ members
      | .setRouter d _ => d ∉ members :=
  ⟨fun m hm => h.carrier m (hmem m hm), fun m hm => h.travels m (hmem m hm),
    fun m hm => h.within m (hmem m hm)⟩

theorem Settling.leave (h : Settling members address tok value s) (hm : m.destination ∉ members)
    (hinFlight : s.inFlight = before ++ m :: after) :
    Settling members address tok value { s with inFlight := before ++ after } := by
  have hne : ∀ d ∈ members, m.destination ≠ d := fun d hd heq => hm (heq ▸ hd)
  -- a message that carries the token is on its way to a member
  have hcarried : carried m.toDispatch = 0 := by
    by_contra hcarries
    exact hne tok h.member (h.carrier m (by simp [hinFlight]) hcarries)
  obtain ⟨hcarrier, htravels, hwithin⟩ := h.of_mem (u := { s with inFlight := before ++ after })
    fun m' => mem_of_mem_rest hinFlight
  refine ⟨h.sound.drop hinFlight, h.member, h.enrolled, ?_, h.holder, hcarrier, htravels, hwithin,
    ?_, ?_⟩
  · have hone := h.one
    rwa [tokens_drop hinFlight, hcarried] at hone
  · intro d hd
    rw [← pending_of_ne hinFlight (hne d hd)]
    exact h.trail d hd
  · intro d hd domain hdomain
    rw [← pending_of_ne hinFlight (hne d hd)]
    exact h.entries d hd domain hdomain

/-- A router handles a transfer that the router of its governor announced. -/
theorem Settling.handle_transfer (h : Settling members address tok value s)
    (hm : m.destination ∈ members) (hinFlight : s.inFlight = before ++ m :: after)
    {e : UInt32} {w : Bytes32 Byte} (hbody : m.body = (Action.transferGovernor e w).bytes)
    (horigin : m.origin = (s.routers m.destination).governorDomain)
    (hsound : Sound members address (s.commit address m.destination (before ++ after)
      ((s.routers m.destination).withGovernor e (bytes32ToAddress w), []))) :
    Settling members address tok value (s.commit address m.destination (before ++ after)
      ((s.routers m.destination).withGovernor e (bytes32ToAddress w), [])) := by
  have hrouter := h.sound.router m.destination hm
  have hmem : m ∈ s.inFlight := by simp [hinFlight]
  have hcarried : carried m.toDispatch =
      if m.destination = e ∧ bytes32ToAddress w ≠ 0 then 1 else 0 := by
    simp only [carried, hbody, readAction_bytes]
  -- the receiver has no governor, since its own messages do not come back to it
  have hheld : held (s.routers m.destination) = 0 := by
    by_contra hne
    have hself := not_not.mp (mt hrouter.seated (held_ne_zero.mp hne))
    exact h.travels m hmem hm (horigin.trans hself)
  have hheld' : held ((s.routers m.destination).withGovernor e (bytes32ToAddress w)) =
      carried m.toDispatch := by
    rw [hcarried, held, GovernanceRouter.withGovernor, hrouter.localDomain]
    by_cases he : m.destination = e <;> by_cases hw : bytes32ToAddress w = 0 <;>
      simp [he, hw, Ne.symm]
  have hrest : (s.commit address m.destination (before ++ after)
      ((s.routers m.destination).withGovernor e (bytes32ToAddress w), [])).inFlight =
      before ++ after := List.append_nil _
  obtain ⟨hcarrier, htravels, hwithin⟩ := h.of_mem (u := s.commit address m.destination
      (before ++ after) ((s.routers m.destination).withGovernor e (bytes32ToAddress w), []))
    fun m' hm' => mem_of_mem_rest hinFlight (hrest ▸ hm')
  refine ⟨hsound, h.member, ?_, ?_, ?_, hcarrier, htravels, hwithin, ?_, ?_⟩
  · exact Network.forall_commit address (P := fun d router => ∀ e ∈ members,
      router.routers e ≠ 0 ↔ e ≠ d) (h.enrolled _ hm) fun d hd _ => h.enrolled d hd
  · have hcommit := tokens_commit ((s.routers m.destination).withGovernor e (bytes32ToAddress w))
      [] address s (before ++ after) hm
    have hone := h.one
    rw [tokens_drop hinFlight] at hone
    rw [hheld, hheld', List.map_nil, List.sum_nil] at hcommit
    omega
  · exact Network.forall_commit address (P := fun d router => router.governor ≠ 0 → d = tok)
      (fun hgovernor => h.carrier m hmem (hheld' ▸ held_ne_zero.mpr hgovernor))
      fun d hd _ => h.holder d hd
  · rw [hrest]
    refine Network.forall_commit address (P := fun d router =>
      Balanced (pending edge d (before ++ after)) router.governorDomain tok) ?_ fun d hd hdm => ?_
    -- the handled transfer starts where the router is, so the rest of its trail
    -- starts where the transfer led
    · have htrail := h.trail _ hm
      rw [hinFlight, pending_append, pending_cons rfl hbody] at htrail
      rw [pending_append]
      exact (htrail.perm List.perm_middle).tail horigin
    · rw [← pending_of_ne hinFlight (Ne.symm hdm)]
      exact h.trail d hd
  · rw [hrest]
    refine Network.forall_commit address (P := fun d router => ∀ domain ∉ members,
      (pending (entry domain) d (before ++ after)).getLastD (router.routers domain) = value domain)
      (fun domain hdomain => ?_) fun d hd _ domain hdomain => ?_
    · rw [← pending_of_none hinFlight hbody rfl]
      exact h.entries _ hm domain hdomain
    · rw [← pending_of_none hinFlight hbody rfl]
      exact h.entries d hd domain hdomain

/-- A router handles a change of its table, the earliest one on its way for the
domain. -/
theorem Settling.handle_entry (h : Settling members address tok value s)
    (hm : m.destination ∈ members) (hinFlight : s.inFlight = before ++ m :: after)
    {e : UInt32} {r : Bytes32 Byte} (hbody : m.body = (Action.setRouter e r).bytes)
    (hfirst : pending (entry e) m.destination before = [])
    (hsound : Sound members address (s.commit address m.destination (before ++ after)
      ((s.routers m.destination)._setRouter e r, []))) :
    Settling members address tok value (s.commit address m.destination (before ++ after)
      ((s.routers m.destination)._setRouter e r, [])) := by
  have hmem : m ∈ s.inFlight := by simp [hinFlight]
  have he : e ∉ members := h.within m hmem _ hbody
  have hcarried : carried m.toDispatch = 0 := by
    simp only [carried, hbody, readAction_bytes]
  have hrest : (s.commit address m.destination (before ++ after)
      ((s.routers m.destination)._setRouter e r, [])).inFlight =
      before ++ after := List.append_nil _
  obtain ⟨hcarrier, htravels, hwithin⟩ := h.of_mem (u := s.commit address m.destination
      (before ++ after) ((s.routers m.destination)._setRouter e r, []))
    fun m' hm' => mem_of_mem_rest hinFlight (hrest ▸ hm')
  refine ⟨hsound, h.member, ?_, ?_, ?_, hcarrier, htravels, hwithin, ?_, ?_⟩
  · refine Network.forall_commit address (P := fun d router => ∀ e ∈ members,
      router.routers e ≠ 0 ↔ e ≠ d) (fun e' he' => ?_) fun d hd _ => h.enrolled d hd
    rw [GovernanceRouter._setRouter_routers,
      Function.update_of_ne (ne_of_mem_of_not_mem he' he)]
    exact h.enrolled _ hm e' he'
  · have hcommit := tokens_commit ((s.routers m.destination)._setRouter e r)
      [] address s (before ++ after) hm
    have hone := h.one
    rw [tokens_drop hinFlight, hcarried] at hone
    rw [held_setRouter, List.map_nil, List.sum_nil] at hcommit
    omega
  · refine Network.forall_commit address (P := fun d router => router.governor ≠ 0 → d = tok)
      ?_ fun d hd _ => h.holder d hd
    rw [GovernanceRouter._setRouter_governor]
    exact h.holder _ hm
  · rw [hrest]
    refine Network.forall_commit address (P := fun d router =>
      Balanced (pending edge d (before ++ after)) router.governorDomain tok) ?_ fun d hd _ => ?_
    · rw [GovernanceRouter._setRouter_governorDomain, ← pending_of_none hinFlight hbody rfl]
      exact h.trail _ hm
    · rw [← pending_of_none hinFlight hbody rfl]
      exact h.trail d hd
  · rw [hrest]
    refine Network.forall_commit address (P := fun d router => ∀ domain ∉ members,
      (pending (entry domain) d (before ++ after)).getLastD (router.routers domain) = value domain)
      (fun domain hdomain => ?_) fun d hd hdm domain hdomain => ?_
    · have hentries := h.entries _ hm domain hdomain
      rw [GovernanceRouter._setRouter_routers]
      by_cases hde : domain = e
      · -- the handled change is the first one, so it decides when it is the only one
        subst hde
        rw [hinFlight, pending_append, pending_cons rfl hbody, hfirst, entry, if_pos rfl] at hentries
        rw [pending_append, hfirst, Function.update_self]
        rwa [Option.toList_some, List.nil_append, List.singleton_append, List.getLastD_cons]
          at hentries
      · rw [Function.update_of_ne hde,
          ← pending_of_none hinFlight hbody (if_neg (Ne.symm hde))]
        exact hentries
    · rw [← pending_of_ne hinFlight (Ne.symm hdm)]
      exact h.entries d hd domain hdomain

end Handled

/-! ### Calls of the governor -/

section Calls

variable {α : Type} {f : UInt32 → Action Byte → Option α} {router' : GovernanceRouter Byte}

/-- The messages of an announcement on their way. -/
theorem pending_commit_announce (hlisted : router'.Listed) {a : Action Byte} (hd : d ≠ 0)
    {c : UInt32} :
    pending f d (s.commit address c s.inFlight (router', router'.announce a.bytes)).inFlight =
      pending f d s.inFlight ++ if router'.routers d = 0 then [] else (f c a).toList := by
  rw [Network.commit_inFlight, pending_append, pending_announce hlisted hd]

omit [DecidableEq Byte] in
theorem mem_announce {a : Action Byte} {m : Dispatch Byte} (hm : m ∈ router'.announce a.bytes) :
    m.body = a.bytes ∧ m.destination ≠ 0 ∧ m.destination ∈ router'.domains := by
  obtain ⟨e, he, rfl⟩ := List.mem_map.mp hm
  obtain ⟨he, hne⟩ := List.mem_filter.mp he
  exact ⟨rfl, by simpa using hne, he⟩

/-- An announcement does not come back to the domain that makes it. -/
theorem ne_of_mem_announce (hlisted : router'.Listed) (hself : router'.routers d = 0)
    {a : Action Byte} {m : Dispatch Byte} (hm : m ∈ router'.announce a.bytes) :
    d ≠ m.destination := by
  obtain ⟨-, hne, hlist⟩ := mem_announce hm
  rintro rfl
  have hcount := hlisted m.destination hne
  rw [if_pos hself] at hcount
  exact List.count_eq_zero.mp hcount hlist

/-- The governor stays on its domain. -/
theorem Settling.transfer_local (h : Settling members address tok value s) (hd : d ∈ members)
    (hgovernor : (s.routers d).governor ≠ 0) {g : Address Byte} (hg : g ≠ 0)
    (hsound : Sound members address
      (s.commit address d s.inFlight ((s.routers d).withGovernor d g, []))) :
    Settling members address tok value
      (s.commit address d s.inFlight ((s.routers d).withGovernor d g, [])) := by
  have hrouter := h.sound.router d hd
  have hdomain : (s.routers d).governorDomain = d := not_not.mp (mt hrouter.seated hgovernor)
  have hheld : held ((s.routers d).withGovernor d g) = held (s.routers d) := by
    rw [held, held, if_neg hgovernor, GovernanceRouter.withGovernor,
      if_pos hrouter.localDomain.symm, if_neg hg]
  have hmessages : (s.commit address d s.inFlight ((s.routers d).withGovernor d g, [])).inFlight =
      s.inFlight := List.append_nil _
  obtain ⟨hcarrier, htravels, hwithin⟩ := h.of_mem
    (u := s.commit address d s.inFlight ((s.routers d).withGovernor d g, []))
    fun m hm => hmessages ▸ hm
  refine ⟨hsound, h.member, ?_, ?_, ?_, hcarrier, htravels, hwithin, ?_, ?_⟩
  · exact Network.forall_commit address (P := fun c router => ∀ e ∈ members,
      router.routers e ≠ 0 ↔ e ≠ c) (h.enrolled d hd) fun c hc _ => h.enrolled c hc
  · have hcommit := tokens_commit ((s.routers d).withGovernor d g) [] address s s.inFlight hd
    have hone := h.one
    rw [hheld, List.map_nil, List.sum_nil] at hcommit
    omega
  · exact Network.forall_commit address (P := fun c router => router.governor ≠ 0 → c = tok)
      (fun _ => h.holder d hd hgovernor) fun c hc _ => h.holder c hc
  · rw [hmessages]
    refine Network.forall_commit address (P := fun c router =>
      Balanced (pending edge c s.inFlight) router.governorDomain tok) ?_ fun c hc _ => h.trail c hc
    have htrail := h.trail d hd
    rwa [hdomain] at htrail
  · rw [hmessages]
    exact Network.forall_commit address (P := fun c router => ∀ domain ∉ members,
      (pending (entry domain) c s.inFlight).getLastD (router.routers domain) = value domain)
      (h.entries d hd) fun c hc _ => h.entries c hc

/-- The facts about messages, after an announcement of the governor at `d`. -/
theorem Settling.travels_announce (h : Settling members address tok value s)
    (hlisted : router'.Listed) (hself : router'.routers d = 0) {a : Action Byte}
    (hwithin : match a with
      | .transferGovernor e _ => e ∈ members
      | .setRouter e _ => e ∉ members) :
    let u := s.commit address d s.inFlight (router', router'.announce a.bytes)
    (∀ m ∈ u.inFlight, m.destination ∈ members → m.origin ≠ m.destination) ∧
    ∀ m ∈ u.inFlight, ∀ a : Action Byte, m.body = a.bytes →
      match a with
      | .transferGovernor d _ => d ∈ members
      | .setRouter d _ => d ∉ members := by
  constructor
  · intro m hm hmember
    rcases List.mem_append.mp hm with hold | hnew
    · exact h.travels m hold hmember
    · obtain ⟨sent, hsent, rfl⟩ := List.mem_map.mp hnew
      exact ne_of_mem_announce hlisted hself hsent
  · intro m hm b hbody
    rcases List.mem_append.mp hm with hold | hnew
    · exact h.within m hold b hbody
    · obtain ⟨sent, hsent, rfl⟩ := List.mem_map.mp hnew
      obtain ⟨hsame, -⟩ := mem_announce hsent
      obtain rfl := Action.bytes_injective (hsame.symm.trans hbody)
      exact hwithin

/-- The governor hands the role to an account of another domain. -/
theorem Settling.transfer_remote (h : Settling members address tok value s) (hzero : 0 ∉ members)
    (hd : d ∈ members) (hgovernor : (s.routers d).governor ≠ 0) {e : UInt32} (he : e ∈ members)
    (hed : e ≠ d) {g : Address Byte} (hg : g ≠ 0) {router' : GovernanceRouter Byte}
    (hrouter' : router' = (s.routers d).withGovernor e g)
    (hsound : Sound members address (s.commit address d s.inFlight (router',
      router'.announce (Action.transferGovernor e (addressToBytes32 g)).bytes))) :
    Settling members address e value (s.commit address d s.inFlight (router',
      router'.announce (Action.transferGovernor e (addressToBytes32 g)).bytes)) := by
  have hrouter := h.sound.router d hd
  have hlisted : router'.Listed := hrouter' ▸ hrouter.withGovernor.listed
  have htable : router'.routers = (s.routers d).routers := by rw [hrouter']; rfl
  have hself : router'.routers d = 0 := by
    rw [htable]
    exact not_not.mp (mt (h.enrolled d hd d hd).mp (not_not.mpr rfl))
  have hother : ∀ c ∈ members, c ≠ d → router'.routers c ≠ 0 := by
    intro c hc hcd
    rw [htable]
    exact (h.enrolled d hd c hc).mpr hcd
  obtain rfl : d = tok := h.holder d hd hgovernor
  have hdomain : (s.routers d).governorDomain = d := not_not.mp (mt hrouter.seated hgovernor)
  have hheld : held (s.routers d) = 1 := if_neg hgovernor
  have hheld' : held router' = 0 := by
    rw [hrouter']
    exact if_pos (if_neg (hrouter.localDomain.symm ▸ hed))
  have hne : ∀ c ∈ members, c ≠ 0 := fun c hc hc0 => hzero (hc0 ▸ hc)
  have hannounced : ((router'.announce (Action.transferGovernor e (addressToBytes32 g)).bytes).map
      carried).sum = 1 := by
    rw [GovernanceRouter.announce, sum_carried_transferGovernor, bytes32ToAddress_addressToBytes32,
      if_neg hg, List.count_filter (by simpa using hne e he), hlisted e (hne e he),
      if_neg (hother e he hed)]
  obtain ⟨htravels, hwithin⟩ := h.travels_announce hlisted hself
    (a := .transferGovernor e (addressToBytes32 g)) he
  refine ⟨hsound, he, ?_, ?_, ?_, ?_, htravels, hwithin, ?_, ?_⟩
  · refine Network.forall_commit address (P := fun c router => ∀ e ∈ members,
      router.routers e ≠ 0 ↔ e ≠ c) ?_ fun c hc _ => h.enrolled c hc
    rw [htable]
    exact h.enrolled d hd
  · have hcommit := tokens_commit router'
      (router'.announce (Action.transferGovernor e (addressToBytes32 g)).bytes) address s
      s.inFlight hd
    have hone := h.one
    omega
  · -- no router has a governor now
    exact Network.forall_commit address (P := fun c router => router.governor ≠ 0 → c = e)
      (fun hgovernor' => absurd hheld' (held_ne_zero.mpr hgovernor'))
      fun c hc hcd hgovernor' => absurd (h.holder c hc hgovernor') hcd
  · intro m hm hcarries
    rcases List.mem_append.mp hm with hold | hnew
    -- the governor held the only token, so no older message carries it
    · have hnone := Token.carried_eq_zero h.sound.token hd (held_ne_zero.mpr hgovernor) hold
      exact absurd hnone hcarries
    · obtain ⟨sent, hsent, rfl⟩ := List.mem_map.mp hnew
      obtain ⟨hbody, -⟩ := mem_announce hsent
      simp only [carried, hbody, readAction_bytes] at hcarries
      by_contra hdestination
      exact hcarries (if_neg fun hboth => hdestination hboth.1)
  · intro c hc
    have htrail := h.trail c hc
    rw [pending_commit_announce hlisted (hne c hc), Network.commit_routers]
    by_cases hcd : c = d
    · subst hcd
      -- the trail to the old governor ended where it began, and is a loop at the
      -- start of the new one
      have hclosed : Balanced (pending edge c s.inFlight) c c := by rwa [hdomain] at htrail
      rw [Function.update_self, if_pos hself, List.append_nil, hrouter']
      exact hclosed.loop e
    · rw [Function.update_of_ne hcd, if_neg (hother c hc hcd)]
      exact htrail.concat
  · intro c hc domain hdomain'
    have hentries := h.entries c hc domain hdomain'
    rw [pending_commit_announce hlisted (hne c hc), Network.commit_routers, entry,
      Option.toList_none, ite_self, List.append_nil]
    by_cases hcd : c = d
    · subst hcd
      rwa [Function.update_self, htable]
    · rwa [Function.update_of_ne hcd]

/-- The governor changes the entry for a domain without a router, while no message
about it is on its way to the governor's router. -/
theorem Settling.set_entry (h : Settling members address tok value s) (hzero : 0 ∉ members)
    (hd : d ∈ members) {e : UInt32} (he : e ∉ members) {r : Bytes32 Byte}
    (hnone : pending (entry e) d s.inFlight = []) {router' : GovernanceRouter Byte}
    (hrouter' : router' = (s.routers d)._setRouter e r)
    (hsound : Sound members address (s.commit address d s.inFlight (router',
      router'.announce (Action.setRouter e r).bytes))) :
    Settling members address tok (Function.update value e r) (s.commit address d s.inFlight
      (router', router'.announce (Action.setRouter e r).bytes)) := by
  have hrouter := h.sound.router d hd
  have hlisted : router'.Listed := hrouter' ▸ hrouter.listed._setRouter
  have htable : ∀ c, c ≠ e → router'.routers c = (s.routers d).routers c := by
    intro c hce
    rw [hrouter', GovernanceRouter._setRouter_routers, Function.update_of_ne hce]
  have hself : router'.routers d = 0 := by
    rw [htable d (ne_of_mem_of_not_mem hd he)]
    exact not_not.mp (mt (h.enrolled d hd d hd).mp (not_not.mpr rfl))
  have hother : ∀ c ∈ members, c ≠ d → router'.routers c ≠ 0 := by
    intro c hc hcd
    rw [htable c (ne_of_mem_of_not_mem hc he)]
    exact (h.enrolled d hd c hc).mpr hcd
  have hheld' : held router' = held (s.routers d) := by rw [hrouter', held_setRouter]
  have hne : ∀ c ∈ members, c ≠ 0 := fun c hc hc0 => hzero (hc0 ▸ hc)
  obtain ⟨htravels, hwithin⟩ := h.travels_announce hlisted hself (a := .setRouter e r) he
  refine ⟨hsound, h.member, ?_, ?_, ?_, ?_, htravels, hwithin, ?_, ?_⟩
  · refine Network.forall_commit address (P := fun c router => ∀ e ∈ members,
      router.routers e ≠ 0 ↔ e ≠ c) (fun c' hc' => ?_) fun c hc _ => h.enrolled c hc
    rw [htable c' (ne_of_mem_of_not_mem hc' he)]
    exact h.enrolled d hd c' hc'
  · have hcommit := tokens_commit router' (router'.announce (Action.setRouter e r).bytes) address
      s s.inFlight hd
    have hone := h.one
    rw [GovernanceRouter.announce, sum_carried_setRouter] at hcommit
    rw [GovernanceRouter.announce]
    omega
  · refine Network.forall_commit address (P := fun c router => router.governor ≠ 0 → c = tok)
      ?_ fun c hc _ => h.holder c hc
    rw [hrouter', GovernanceRouter._setRouter_governor]
    exact h.holder d hd
  · intro m hm hcarries
    rcases List.mem_append.mp hm with hold | hnew
    · exact h.carrier m hold hcarries
    · obtain ⟨sent, hsent, rfl⟩ := List.mem_map.mp hnew
      obtain ⟨hbody, -⟩ := mem_announce hsent
      simp only [carried, hbody, readAction_bytes] at hcarries
      exact absurd rfl hcarries
  · intro c hc
    have htrail := h.trail c hc
    rw [pending_commit_announce hlisted (hne c hc), Network.commit_routers, edge,
      Option.toList_none, ite_self, List.append_nil]
    by_cases hcd : c = d
    · subst hcd
      rwa [Function.update_self, hrouter', GovernanceRouter._setRouter_governorDomain]
    · rwa [Function.update_of_ne hcd]
  · intro c hc domain hdomain
    have hentries := h.entries c hc domain hdomain
    rw [pending_commit_announce hlisted (hne c hc), Network.commit_routers]
    by_cases hde : domain = e
    · subst hde
      rw [Function.update_self, entry, if_pos rfl]
      by_cases hcd : c = d
      -- the caller has the new entry at once, the others when they have handled
      -- the announcement, which is the last message about it
      · subst hcd
        rw [if_pos hself, hnone, Function.update_self, hrouter',
          GovernanceRouter._setRouter_routers, Function.update_self]
        rfl
      · rw [if_neg (hother c hc hcd), Option.toList_some, List.getLastD_concat]
    · rw [Function.update_of_ne hde, entry, if_neg (Ne.symm hde), Option.toList_none, ite_self,
        List.append_nil]
      by_cases hcd : c = d
      · subst hcd
        rwa [Function.update_self, htable domain hde]
      · rwa [Function.update_of_ne hcd]

end Calls

/-! ### Runs -/

omit [DecidableEq Byte] in
theorem pending_entry_eq_nil {domain : UInt32} {messages : List (Transit Byte)}
    (hsound : ∀ m ∈ messages, Proper members address m.toDispatch)
    (h : NonePending domain d messages) : pending (entry domain) d messages = [] := by
  refine List.filterMap_eq_nil_iff.mpr fun m hm => ?_
  obtain ⟨a, hbody, -⟩ := hsound m hm
  split_ifs with hdestination
  · rw [hbody, readAction_bytes]
    cases a with
    | transferGovernor e w => rfl
    | setRouter e r =>
      refine if_neg ?_
      rintro rfl
      exact h m hm hdestination r hbody
  · rfl

theorem Settling.step (h : Settling members address tok value s) (hzero : 0 ∉ members)
    (horderly : Orderly members s label) (hstep : Step members address s label t) :
    ∃ tok value, Settling members address tok value t := by
  have hsound := h.sound.step hstep
  cases hstep with
  | call d ctx call _ hd hsender hallowed hcall =>
    rcases hcall with hexec | ⟨-, rfl⟩
    · obtain ⟨⟨router', sent⟩, hrouter, hcommit⟩ := bind_eq_ok.mp hexec
      obtain rfl := Except.ok.inj hcommit
      cases call with
      | transferGovernor e g =>
        obtain ⟨he, hg⟩ := horderly
        obtain ⟨hgovernor, -, rfl, rfl⟩ := GovernanceRouter.transferGovernor_effect hrouter
        rw [hgovernor] at hsender
        have hlocalDomain := (h.sound.router d hd).localDomain
        by_cases hed : e = d
        · subst hed
          rw [if_pos hlocalDomain.symm] at hsound ⊢
          exact ⟨tok, value, h.transfer_local hd hsender hg hsound⟩
        · rw [hlocalDomain, if_neg hed] at hsound ⊢
          exact ⟨e, value, h.transfer_remote hzero hd hsender he hed hg rfl hsound⟩
      | setRouter e r =>
        obtain ⟨he, hnone⟩ := horderly
        obtain ⟨-, rfl, rfl⟩ := GovernanceRouter.setRouter_effect hrouter
        exact ⟨tok, _, h.set_entry hzero hd he (pending_entry_eq_nil h.sound.proper hnone) rfl
          hsound⟩
      | _ => exact horderly.elim
    · exact ⟨tok, value, h⟩
  | deliver ctx m before after hm hrecipient hinFlight =>
    obtain ⟨hreplica, hgovernor, hfirst⟩ := horderly
    have hmem : m ∈ s.inFlight := by simp [hinFlight]
    obtain ⟨a, hbody, -⟩ := h.sound.proper m hmem
    obtain ⟨horigin, -⟩ := of_decide_eq_true hgovernor
    cases a with
    | transferGovernor e w =>
      have he : e ∈ members := h.within m hmem _ hbody
      -- a transfer leads to a member, which the receiver has enrolled
      have htable : e = (s.routers m.destination).localDomain ∨
          (s.routers m.destination).routers e ≠ 0 := by
        rw [(h.sound.router m.destination hm).localDomain, h.enrolled m.destination hm e he]
        exact em _
      rw [Network.deliver_eq address hbody hreplica hgovernor
        (GovernanceRouter._transferGovernor_eq_ok.mpr ⟨htable, rfl⟩)] at hsound ⊢
      exact ⟨tok, value, h.handle_transfer hm hinFlight hbody horigin hsound⟩
    | setRouter e r =>
      -- an orderly change is handled before the later ones of its entry
      have hproper : ∀ m' ∈ before, Proper members address m'.toDispatch :=
        fun m' hm' => h.sound.proper m' (by simp [hinFlight, hm'])
      have hnone := pending_entry_eq_nil hproper (hfirst e r hbody)
      rw [Network.deliver_eq address hbody hreplica hgovernor rfl] at hsound ⊢
      exact ⟨tok, value, h.handle_entry hm hinFlight hbody hnone hsound⟩
  | leave m before after hm hinFlight => exact ⟨tok, value, h.leave hm hinFlight⟩

/-- **Governance converges on orderly runs.** On a run from agreeing routers whose
steps are all orderly, once no message is in flight exactly one router has a governor,
all routers take its domain for the governor's, and they agree about every domain
other than their own. -/
theorem converges {start : Network Byte} {labels : List (Label Byte)}
    (hstart : Enrolled members address start)
    (hrun : ((system members address).restrict (Orderly members)).Run start labels s)
    (hrest : s.inFlight = []) : Converged members s := by
  have hsettling : ∃ tok value, Settling members address tok value s := by
    -- the holder of the role and the settled table change along the run
    clear hrest
    induction hrun with
    | refl => exact settling_init hstart
    | tail _ hlast ih =>
      obtain ⟨tok, value, h⟩ := ih
      exact h.step hstart.nonzero hlast.2 hlast.1
  obtain ⟨tok, value, h⟩ := hsettling
  exact h.converged hrest

/-! ### Sample runs -/

theorem enrolled_sampleStart : Enrolled sampleMembers sampleAddress sampleStart where
  toInitial := initial_sampleStart
  nonzero := by decide
  enrolled := by
    refine forall_sampleMembers ?_ ?_ ?_
    · exact forall_sampleMembers (by decide +kernel) (by decide +kernel) (by decide +kernel)
    · exact forall_sampleMembers (by decide +kernel) (by decide +kernel) (by decide +kernel)
    · exact forall_sampleMembers (by decide +kernel) (by decide +kernel) (by decide +kernel)
  others d _ e _ domain hdomain := by
    have htable (d : UInt32) : (sampleRouter d).routers domain = 0 := by
      unfold sampleRouter
      refine List.foldlRecOn
        (motive := fun router : GovernanceRouter UInt8 => router.routers domain = 0) _ _ rfl ?_
      intro router hrouter e he
      have hmember : e ∈ sampleMembers := by simpa [sampleMembers] using (List.mem_filter.mp he).1
      rw [GovernanceRouter._setRouter_routers,
        Function.update_of_ne (ne_of_mem_of_not_mem hmember hdomain).symm, hrouter]
    exact (htable d).trans (htable e).symm

/-- A check for orderly steps: tables change while nothing is in flight, and messages
from the governor's router are handled in order. -/
def sampleOrderly (s : Network UInt8) : SampleStep → Bool
  | .call _ _ (.transferGovernor ..) => true
  | .call _ _ (.setRouter d _) => d ∉ sampleMembers ∧ s.inFlight.isEmpty
  | .call .. => false
  | .deliver i => i = 0 ∧ s.inFlight.head?.all fun m =>
      (s.routers m.destination)._isGovernorRouter m.origin m.sender

/-- Every step of a sample run is a call of the governor or a delivery. -/
theorem governs_label (s : Network UInt8) (step : SampleStep) (hvalid : step.valid s = true) :
    Governs sampleMembers s (step.label s) := by
  cases step with
  | call domain account c =>
    obtain ⟨-, -, hcall⟩ := of_decide_eq_true hvalid
    cases c with
    | transferGovernor d g =>
      have hgoverns : d ∈ sampleMembers ∧ g ≠ 0 := of_decide_eq_true hcall
      exact hgoverns
    | setRouter d r => trivial
    | _ => exact absurd hcall Bool.false_ne_true
  | deliver i =>
    cases hm : s.inFlight[i]? with
    | none => simp only [SampleStep.label, hm, Governs]
    | some m =>
      rw [SampleStep.label_deliver hm]
      split_ifs <;> trivial

theorem orderly_label (s : Network UInt8) (step : SampleStep) (hvalid : step.valid s = true)
    (horderly : sampleOrderly s step = true) : Orderly sampleMembers s (step.label s) := by
  cases step with
  | call domain account c =>
    cases c with
    | transferGovernor d g => exact governs_label s _ hvalid
    | setRouter d r =>
      obtain ⟨hd, hempty⟩ := of_decide_eq_true (p := _ ∧ _) horderly
      refine ⟨hd, fun m hm => ?_⟩
      rw [List.isEmpty_iff.mp hempty] at hm
      exact absurd hm List.not_mem_nil
    | _ => exact absurd horderly Bool.false_ne_true
  | deliver i =>
    obtain ⟨rfl, hgovernor⟩ := of_decide_eq_true (p := _ ∧ _) horderly
    cases hm : s.inFlight[0]? with
    | none => simp only [SampleStep.label, hm, Orderly]
    | some m =>
      rw [List.head?_eq_getElem?, hm] at hgovernor
      rw [SampleStep.label_deliver hm]
      split_ifs
      · exact ⟨rfl, hgovernor, fun _ _ _ _ hm => absurd hm List.not_mem_nil⟩
      · trivial

/-- From agreeing routers the calls of the governor need not lead to agreement.
A transfer that overtakes the one before it is refused, and the role is lost; a
domain that is removed hears of no later transfer; and changes of one entry that are
handled out of order leave different tables. -/
theorem not_converges : Enrolled sampleMembers sampleAddress sampleStart ∧
    (∃ labels s, ((system sampleMembers sampleAddress).restrict (Governs sampleMembers)).Run
      sampleStart labels s ∧ s.inFlight.isEmpty ∧
        ∀ d ∈ sampleMembers, (s.routers d).governor = 0) ∧
    (∃ labels s, ((system sampleMembers sampleAddress).restrict (Governs sampleMembers)).Run
      sampleStart labels s ∧ s.inFlight.isEmpty ∧
        (s.routers 2).governorDomain = 2 ∧ (s.routers 3).governorDomain = 1) ∧
    ∃ labels s, ((system sampleMembers sampleAddress).restrict (Governs sampleMembers)).Run
      sampleStart labels s ∧ s.inFlight.isEmpty ∧
        (s.routers 2).routers 7 ≠ (s.routers 3).routers 7 := by
  have hrun (steps : List SampleStep) (P : Network UInt8 → Bool)
      (h : (sampleRun (fun _ _ => true) sampleStart steps).any P = true) :=
    exists_run_of_any (C := Governs sampleMembers) (fun _ _ => true)
      (fun s step hvalid _ => governs_label s step hvalid) sampleStart steps P h
  refine ⟨enrolled_sampleStart, ?_, ?_, ?_⟩
  · obtain ⟨labels, s, hs, hfacts⟩ := hrun
      [.call 1 11 (.transferGovernor 2 (sampleAddress 12)), .deliver 0,
        .call 2 12 (.transferGovernor 3 (sampleAddress 13)), .deliver 2, .deliver 0, .deliver 0]
      (fun s => s.inFlight.isEmpty ∧ (s.routers 1).governor = 0 ∧ (s.routers 2).governor = 0 ∧
        (s.routers 3).governor = 0)
      (by decide +kernel)
    obtain ⟨hempty, h₁, h₂, h₃⟩ := of_decide_eq_true hfacts
    exact ⟨labels, s, hs, hempty, forall_sampleMembers h₁ h₂ h₃⟩
  · obtain ⟨labels, s, hs, hfacts⟩ := hrun
      [.call 1 11 (.setRouter 3 0), .deliver 0,
        .call 1 11 (.transferGovernor 2 (sampleAddress 12)), .deliver 0]
      (fun s => s.inFlight.isEmpty ∧
        (s.routers 2).governorDomain = 2 ∧ (s.routers 3).governorDomain = 1)
      (by decide +kernel)
    exact ⟨labels, s, hs, of_decide_eq_true hfacts⟩
  · obtain ⟨labels, s, hs, hfacts⟩ := hrun
      [.call 1 11 (.setRouter 7 (trueRouter sampleAddress 8)),
        .call 1 11 (.setRouter 7 (trueRouter sampleAddress 9)), .deliver 3, .deliver 0,
        .deliver 0, .deliver 0, .deliver 0, .deliver 0]
      (fun s => s.inFlight.isEmpty ∧ (s.routers 2).routers 7 ≠ (s.routers 3).routers 7)
      (by decide +kernel)
    exact ⟨labels, s, hs, of_decide_eq_true hfacts⟩

/-- Domain 1 sets an entry and hands the role to domain 2, and everything is handled
in order. -/
theorem converges_sample : ∃ s : Network UInt8, (s.routers 1).routers 7 ≠ 0 ∧
    (s.routers 2).governor ≠ 0 ∧ Converged sampleMembers s := by
  obtain ⟨labels, s, hrun, hfacts⟩ := exists_run_of_any sampleOrderly orderly_label sampleStart
    [.call 1 11 (.setRouter 7 (trueRouter sampleAddress 8)), .deliver 0, .deliver 0, .deliver 0,
      .call 1 11 (.transferGovernor 2 (sampleAddress 12)), .deliver 0, .deliver 0, .deliver 0]
    (fun s => s.inFlight.isEmpty ∧ (s.routers 1).routers 7 ≠ 0 ∧ (s.routers 2).governor ≠ 0)
    (by decide +kernel)
  obtain ⟨hempty, hentry, hgovernor⟩ := of_decide_eq_true hfacts
  exact ⟨s, hentry, hgovernor,
    converges enrolled_sampleStart hrun (List.isEmpty_iff.mp hempty)⟩

end Optics.Governance
