/-
# Old messages of routers that do not govern

Routers may be taken into a network with messages in flight that they sent while each of
them governed itself. As long as the governor stays on one domain, all routers take the
messages of this domain only, so the others are lost when they are handled. Once they
are gone, there is at most one governor for good. One that is handled after the governor
has moved makes a second governor.
-/

import Optics.Governance.OneGovernor

namespace Optics.Governance

open Optics.Solidity Optics.Math Optics.Math.Transition
open Optics.GovernanceMessage (Action)
open Optics.GovernanceRouter (Dispatch)

variable {Byte : Type} [DecidableEq Byte] [ByteAlphabet Byte] {members : Finset UInt32}
  {address : UInt32 → Address Byte} {governing domain : UInt32}
  {router router' : GovernanceRouter Byte} {sent : List (Dispatch Byte)}
  {ctx : GovernanceRouter.Context Byte} {s t : Network Byte} {label : Label Byte}
  {labels : List (Label Byte)}

/-- A message that sets a router. -/
def Sets (m : Dispatch Byte) : Prop := ∃ d r, m.body = (Action.setRouter d r).bytes

/-- A router whose governor is on the governing domain. -/
structure Router.Seated (members : Finset UInt32) (address : UInt32 → Address Byte)
    (governing domain : UInt32) (router : GovernanceRouter Byte) : Prop
    extends Router.Initial members address domain router where
  governorDomain : router.governorDomain = governing
  governor : domain ≠ governing → router.governor = 0

/-- All routers take one domain for the governor's, and this domain has sent nothing about
another governor. The other domains may have sent anything. -/
structure Draining (members : Finset UInt32) (address : UInt32 → Address Byte)
    (governing : UInt32) (s : Network Byte) : Prop where
  router : ∀ d ∈ members, Router.Seated members address governing d (s.routers d)
  proper : ∀ m ∈ s.inFlight, Proper members address m.toDispatch
  sets : ∀ m ∈ s.inFlight, m.origin = governing → Sets m.toDispatch

/-- The governor does not leave the domain in a step: a call there that moves the governor,
and is not refused, moves it within the domain. -/
def Stays (governing : UInt32) (s : Network Byte) (label : Label Byte) : Prop :=
  ∀ ctx d g result, label = .call governing ctx (.transferGovernor d g) →
    GovernanceRouter.exec ctx (.transferGovernor d g) (s.routers governing) = .ok result →
      d = governing

/-- The message by which the router of one domain tells that of another one who governs. -/
def transferMessage (address : UInt32 → Address Byte) (origin destination domain : UInt32)
    (g : Address Byte) : Transit Byte :=
  ⟨⟨destination, trueRouter address destination,
    (Action.transferGovernor domain (addressToBytes32 g)).bytes⟩, origin,
    trueRouter address origin⟩

/-- A context in which every message is delivered and dispatched. -/
def openContext (sender : Address Byte) : GovernanceRouter.Context Byte where
  sender := sender
  timestamp := 0
  isReplica _ := true
  homeAccepts _ _ := true
  managerDomain _ := 0
  call _ _ := none

/-! ### Steps -/

theorem Router.Seated.sound (h : Router.Seated members address governing domain router) :
    Router.Sound members address domain router :=
  ⟨h.toInitial, fun hne => h.governor fun heq => hne (h.governorDomain.trans heq.symm)⟩

theorem carried_of_sets {m : Dispatch Byte} (h : Sets m) : carried m = 0 := by
  obtain ⟨d, r, hbody⟩ := h
  simp only [carried, hbody, readAction_bytes]

/-- A call that does not move the governor away sends nothing but changes of the tables. -/
theorem Router.Seated.exec (h : Router.Seated members address governing domain router)
    (hsender : ctx.sender ≠ 0) {call : GovernanceRouter.Call Byte}
    (hallowed : Allowed members address router ctx call)
    (hstays : ∀ d g, domain = governing → call = .transferGovernor d g → d = governing)
    (hexec : GovernanceRouter.exec ctx call router = .ok (router', sent)) :
    Router.Seated members address governing domain router' ∧ ∀ m ∈ sent, Sets m := by
  have hsound := (kept_exec h.sound hsender hallowed hexec).sound
  suffices hgovernor : router'.governorDomain = governing ∧
      (domain ≠ governing → router'.governor = 0) ∧ ∀ m ∈ sent, Sets m from
    ⟨⟨hsound.toInitial, hgovernor.1, hgovernor.2.1⟩, hgovernor.2.2⟩
  cases call with
  | init manager recoveryManager =>
    obtain ⟨hinitialized, -⟩ := require_bind_eq_ok.mp hexec
    exact absurd h.initialized hinitialized
  | handle origin sender message => exact absurd hexec (handle_ne_ok h.sound hallowed)
  | callLocal calls => exact hallowed.elim
  | callRemote destination calls => exact hallowed.elim
  | transferGovernor newDomain newGovernor =>
    obtain ⟨hgovernor, -, rfl, rfl⟩ := GovernanceRouter.transferGovernor_effect hexec
    -- Only the governing domain has a governor who could call.
    have hdomain : domain = governing := by
      by_contra hne
      exact hsender (hgovernor.trans (h.governor hne))
    have hnew : newDomain = governing := hstays newDomain newGovernor hdomain rfl
    rw [if_pos (hnew.trans (hdomain.symm.trans h.localDomain.symm))]
    exact ⟨hnew, fun hne => absurd hdomain hne, nofun⟩
  | transferRecoveryManager newManager =>
    obtain ⟨-, rfl, rfl⟩ := GovernanceRouter.transferRecoveryManager_effect hexec
    exact ⟨h.governorDomain, h.governor, nofun⟩
  | setRouter d r =>
    obtain ⟨-, rfl, rfl⟩ := GovernanceRouter.setRouter_effect hexec
    refine ⟨by simpa using h.governorDomain, by simpa using h.governor, fun m hm => ?_⟩
    obtain ⟨e, -, rfl⟩ := List.mem_map.mp hm
    exact ⟨d, r, rfl⟩
  | setRouterLocal d r =>
    obtain ⟨rfl, rfl⟩ := GovernanceRouter.setRouterLocal_effect hexec
    exact ⟨by simpa using h.governorDomain, by simpa using h.governor, nofun⟩
  | setXAppConnectionManager manager =>
    obtain ⟨router₁, hset, hexec⟩ := bind_eq_ok.mp hexec
    obtain ⟨-, rfl⟩ := GovernanceRouter.setXAppConnectionManager_effect hset
    obtain ⟨rfl, rfl⟩ := Prod.mk.inj (Except.ok.inj hexec)
    exact ⟨h.governorDomain, h.governor, nofun⟩
  | initiateRecoveryTimelock =>
    obtain ⟨-, -, -, rfl, rfl⟩ := GovernanceRouter.initiateRecoveryTimelock_effect hexec
    exact ⟨h.governorDomain, h.governor, nofun⟩
  | exitRecovery =>
    obtain ⟨-, -, rfl, rfl⟩ := GovernanceRouter.exitRecovery_effect hexec
    exact ⟨h.governorDomain, h.governor, nofun⟩

/-- A message of another domain than the governing one is not taken, and one of the governing
domain changes the table. -/
theorem Router.Seated.handle {m : Transit Byte}
    (h : Router.Seated members address governing m.destination router)
    (hproper : Proper members address m.toDispatch)
    (hsets : m.origin = governing → Sets m.toDispatch)
    (hexec : GovernanceRouter.handle ctx m.origin m.sender m.body router = .ok (router', sent)) :
    Router.Seated members address governing m.destination router' ∧ sent = [] := by
  have hsound := (kept_handle h.sound hproper hexec).sound
  obtain ⟨a, hbody, -⟩ := hproper
  rw [hbody] at hexec
  obtain ⟨-, hgovernor, happly, hsent⟩ := GovernanceRouter.handle_action_eq_ok.mp hexec
  obtain ⟨horigin, -⟩ := of_decide_eq_true hgovernor
  obtain ⟨d, r, hset⟩ := hsets (horigin.trans h.governorDomain)
  obtain rfl : a = .setRouter d r := Action.bytes_injective (hbody.symm.trans hset)
  obtain rfl := Except.ok.inj happly
  exact ⟨⟨hsound.toInitial, by simpa using h.governorDomain, by simpa using h.governor⟩, hsent⟩

/-- Messages in flight that are taken out. -/
theorem Draining.drop (h : Draining members address governing s) {inFlight : List (Transit Byte)}
    (hsub : ∀ m ∈ inFlight, m ∈ s.inFlight) :
    Draining members address governing { s with inFlight := inFlight } :=
  ⟨h.router, fun m hm => h.proper m (hsub m hm), fun m hm => h.sets m (hsub m hm)⟩

/-- A router changes and sends. -/
theorem Draining.commit (h : Draining members address governing s) {rest : List (Transit Byte)}
    (hrest : ∀ m ∈ rest, m ∈ s.inFlight)
    (hrouter : Router.Seated members address governing domain router')
    (hproper : ∀ m ∈ sent, Proper members address m) (hsets : ∀ m ∈ sent, Sets m) :
    Draining members address governing (s.commit address domain rest (router', sent)) where
  router := Network.forall_commit address hrouter fun d hd _ => h.router d hd
  proper m hm := by
    rcases List.mem_append.mp hm with hm | hm
    · exact h.proper m (hrest m hm)
    · obtain ⟨m', hm', rfl⟩ := List.mem_map.mp hm
      exact hproper m' hm'
  sets m hm horigin := by
    rcases List.mem_append.mp hm with hm | hm
    · exact h.sets m (hrest m hm) horigin
    · obtain ⟨m', hm', rfl⟩ := List.mem_map.mp hm
      exact hsets m' hm'

theorem Draining.step (h : Draining members address governing s)
    (hstays : Stays governing s label) (hstep : Step members address s label t) :
    Draining members address governing t := by
  cases hstep with
  | call domain ctx call _ hdomain hsender hallowed hcall =>
    refine callStep_cases (P := fun _ => Draining members address governing) hcall
      (fun t hexec => ?_) h
    obtain ⟨⟨router', sent⟩, hrouter, hcommit⟩ := bind_eq_ok.mp hexec
    obtain rfl := Except.ok.inj hcommit
    have hseated := h.router domain hdomain
    obtain ⟨hrouter', hsets⟩ := hseated.exec hsender hallowed
      (fun d g heq hcall => hstays ctx d g (router', sent) (by rw [heq, hcall])
        (by rw [← heq, ← hcall]; exact hrouter)) hrouter
    exact h.commit (fun _ => id) hrouter' (kept_exec hseated.sound hsender hallowed hrouter).proper
      hsets
  | deliver ctx m before after hdomain hrecipient hinFlight =>
    have hmem : m ∈ s.inFlight := by simp [hinFlight]
    have hrest : ∀ m' ∈ before ++ after, m' ∈ s.inFlight := fun _ => mem_of_mem_rest hinFlight
    cases hexec : GovernanceRouter.handle ctx m.origin m.sender m.body
        (s.routers m.destination) with
    | error e =>
      simp only [Network.deliver, hexec]
      exact h.drop hrest
    | ok result =>
      obtain ⟨router', sent⟩ := result
      simp only [Network.deliver, hexec]
      obtain ⟨hrouter', rfl⟩ :=
        (h.router m.destination hdomain).handle (h.proper m hmem) (h.sets m hmem) hexec
      exact h.commit hrest hrouter' (List.forall_mem_nil _) (List.forall_mem_nil _)
  | leave m before after hdomain hinFlight =>
    exact h.drop fun _ => mem_of_mem_rest hinFlight

theorem Draining.run (h : Draining members address governing s)
    (hrun : ((system members address).restrict (Stays governing)).Run s labels t) :
    Draining members address governing t := by
  induction hrun with
  | refl => exact h
  | tail _ hstep ih => exact ih.step hstep.2 hstep.1

/-- A message of another domain is lost when it is handled. -/
theorem Draining.deliver_eq (h : Draining members address governing s)
    (ctx : GovernanceRouter.Context Byte) {m : Transit Byte}
    (hm : m ∈ s.inFlight) (hdomain : m.destination ∈ members) (horigin : m.origin ≠ governing)
    (rest : List (Transit Byte)) :
    s.deliver address ctx m rest = { s with inFlight := rest } := by
  cases hexec : GovernanceRouter.handle ctx m.origin m.sender m.body
      (s.routers m.destination) with
  | error e => simp only [Network.deliver, hexec]
  | ok result =>
    obtain ⟨a, hbody, -⟩ := h.proper m hm
    rw [hbody] at hexec
    obtain ⟨-, hgovernor, -⟩ := GovernanceRouter.handle_action_eq_ok.mp hexec
    obtain ⟨heq, -⟩ := of_decide_eq_true hgovernor
    exact absurd (heq.trans (h.router m.destination hdomain).governorDomain) horigin

/-- The messages of other domains can be delivered, and nothing else changes. -/
theorem Draining.exists_run (h : Draining members address governing s)
    (haddressed : ∀ m ∈ s.inFlight,
      m.destination ∈ members ∧ m.recipient = trueRouter address m.destination) :
    ∃ labels, ((system members address).restrict (Stays governing)).Run s labels
      { s with inFlight := s.inFlight.filter (·.origin = governing) } := by
  suffices hloop : ∀ rest kept, (∀ m ∈ kept ++ rest, m ∈ s.inFlight) →
      ∃ labels, ((system members address).restrict (Stays governing)).Run
        { s with inFlight := kept ++ rest } labels
        { s with inFlight := kept ++ rest.filter (·.origin = governing) } by
    simpa using hloop s.inFlight [] (by simp)
  intro rest
  induction rest with
  | nil => exact fun kept _ => ⟨[], by simpa using .refl _⟩
  | cons m rest ih =>
    intro kept hsub
    by_cases horigin : m.origin = governing
    · obtain ⟨labels, hrun⟩ := ih (kept ++ [m]) (by simpa using hsub)
      rw [List.filter_cons_of_pos (by simpa using horigin)]
      exact ⟨labels, by simpa using hrun⟩
    · have hm : m ∈ s.inFlight := hsub m (by simp)
      obtain ⟨hdomain, hrecipient⟩ := haddressed m hm
      have hlost := (h.drop hsub).deliver_eq (openContext 0) (by simp) hdomain horigin
        (kept ++ rest)
      have hstep : ((system members address).restrict (Stays governing)).step
          { s with inFlight := kept ++ m :: rest } (.deliver (openContext 0) kept m)
          { s with inFlight := kept ++ rest } :=
        ⟨hlost ▸ .deliver (openContext 0) m kept rest hdomain hrecipient rfl, nofun⟩
      obtain ⟨labels, hrun⟩ := ih kept fun m' hm' => hsub m' (by
        rcases List.mem_append.mp hm' with hm' | hm'
        · exact List.mem_append_left _ hm'
        · exact List.mem_append_right _ (List.mem_cons_of_mem m hm'))
      rw [List.filter_cons_of_neg (by simpa using horigin)]
      exact ⟨_, (System.Run.single hstep).trans hrun⟩

/-- Without messages of other domains, the network is sound. -/
theorem Draining.sound (h : Draining members address governing s)
    (hsettled : ∀ m ∈ s.inFlight, m.origin = governing) : Sound members address s where
  router d hd := (h.router d hd).sound
  proper := h.proper
  token := by
    have hcarried : (s.inFlight.map fun m => carried m.toDispatch).sum = 0 := by
      refine List.sum_eq_zero fun n hn => ?_
      obtain ⟨m, hm, rfl⟩ := List.mem_map.mp hn
      exact carried_of_sets (h.sets m hm (hsettled m hm))
    have hheld : ∀ d ∈ members, held (s.routers d) ≤ if d = governing then 1 else 0 := by
      intro d hd
      split_ifs with hd'
      · exact held_le_one
      · rw [held, if_pos ((h.router d hd).governor hd')]
    have htotal := Finset.sum_le_sum hheld
    rw [Finset.sum_ite_eq'] at htotal
    rw [tokens, Token.total, hcarried, Nat.add_zero]
    refine le_trans htotal ?_
    split_ifs <;> omega

/-- A sound network has at most one governor from then on. -/
theorem Sound.governor_unique (h : Sound members address s)
    (hrun : (system members address).Run s labels t) :
    ∀ d ∈ members, ∀ e ∈ members,
      (t.routers d).governor ≠ 0 → (t.routers e).governor ≠ 0 → d = e := by
  have hsound : Sound members address t := by
    induction hrun with
    | refl => exact h
    | tail _ hstep ih => exact ih.step hstep
  intro d hd e he hgovernor hgovernor'
  exact Token.eq_of_held hsound.token hd he (held_ne_zero.mpr hgovernor)
    (held_ne_zero.mpr hgovernor')

/-! ### A message that is handled too late -/

/-- A message in flight that its router takes can be delivered, and leaves the others in
flight. -/
theorem exists_step_deliver (router' : GovernanceRouter Byte) {m : Transit Byte}
    {a : Action Byte} (hm : m ∈ s.inFlight) (hdomain : m.destination ∈ members)
    (hrecipient : m.recipient = trueRouter address m.destination)
    (hbody : m.body = a.bytes)
    (hgovernor : (s.routers m.destination)._isGovernorRouter m.origin m.sender = true)
    (happly : (s.routers m.destination).apply a = .ok router') :
    ∃ before t, (system members address).step s (.deliver (openContext 0) before m) t ∧
      t.routers = Function.update s.routers m.destination router' ∧
      ∀ m' ∈ s.inFlight, m' ≠ m → m' ∈ t.inFlight := by
  obtain ⟨before, after, hinFlight⟩ := List.append_of_mem hm
  have hexec : GovernanceRouter.handle (openContext 0) m.origin m.sender m.body
      (s.routers m.destination) = .ok (router', []) := by
    rw [hbody]
    exact GovernanceRouter.handle_action_eq_ok.mpr ⟨rfl, hgovernor, happly, rfl⟩
  have hdeliver : s.deliver address (openContext 0) m (before ++ after) =
      s.commit address m.destination (before ++ after) (router', []) := by
    simp only [Network.deliver, hexec]
  refine ⟨before, _, .deliver (openContext 0) m before after hdomain hrecipient hinFlight, ?_, ?_⟩
  · rw [hdeliver]
    rfl
  · intro m' hm' hne
    rw [hdeliver, Network.commit_inFlight, List.map_nil, List.append_nil]
    rw [hinFlight] at hm'
    simpa [hne] using hm'

/-- The governor can move to a domain that its router knows, and the message about it is then in
flight with the others. -/
theorem exists_step_transferGovernor {first other : UInt32} (g : Address Byte)
    (hfirst : first ∈ members) (hne : other ≠ first) (hzero : other ≠ 0)
    (h : Router.Initial members address first (s.routers first))
    (hgovernor : (s.routers first).governor ≠ 0)
    (hrecovery : (s.routers first).recoveryActiveAt = 0)
    (hknows : (s.routers first).routers other = trueRouter address other)
    (haddress : trueRouter address other ≠ 0) :
    ∃ t, (system members address).step s
        (.call first (openContext (s.routers first).governor) (.transferGovernor other g)) t ∧
      t.routers = Function.update s.routers first ((s.routers first).withGovernor other g) ∧
      (∀ m ∈ s.inFlight, m ∈ t.inFlight) ∧
      transferMessage address first other other g ∈ t.inFlight := by
  have hrouter : (s.routers first).routers other ≠ 0 := hknows ▸ haddress
  have hremote : other ≠ (s.routers first).localDomain := fun heq =>
    hne (heq.trans h.localDomain)
  obtain ⟨sent, hsent⟩ : ∃ sent, sent = ((s.routers first).withGovernor other g).announce
      (Action.transferGovernor other (addressToBytes32 g)).bytes := ⟨_, rfl⟩
  have hexec : GovernanceRouter.exec (openContext (s.routers first).governor)
      (.transferGovernor other g) (s.routers first) =
        .ok ((s.routers first).withGovernor other g, sent) := by
    rw [GovernanceRouter.exec, GovernanceRouter.transferGovernor_of_governor rfl hrecovery
      (fun _ => rfl) (.inr hrouter), if_neg hremote, hsent]
  have hlisted : other ∈ (s.routers first).domains := by
    refine List.count_pos_iff.mp ?_
    rw [h.listed other hzero, if_neg hrouter]
    exact Nat.one_pos
  refine ⟨s.commit address first s.inFlight ((s.routers first).withGovernor other g, sent),
    .call first (openContext (s.routers first).governor) (.transferGovernor other g) _
      hfirst hgovernor trivial (.inl ?_), rfl, ?_, ?_⟩
  · simp only [Network.callRouter, hexec, ok_bind]
  · exact fun m hm => List.mem_append_left _ hm
  · rw [hsent, transferMessage, ← hknows]
    refine List.mem_append_right _ (List.mem_map.mpr ⟨_, List.mem_map.mpr ⟨other, ?_, rfl⟩, rfl⟩)
    exact List.mem_filter.mpr ⟨hlisted, decide_eq_true hzero⟩

/-- **A late message makes a second governor.** When the governor moves from its domain to
another one that once handed its governance to the first, and the message about this is
handled only then, both domains have a governor. -/
theorem exists_run_two_governors {first other : UInt32} {g : Address Byte} (g' : Address Byte)
    (hfirst : first ∈ members) (hother : other ∈ members) (hne : other ≠ first) (hzero : other ≠ 0)
    (h : Draining members address first s) (hgovernor : (s.routers first).governor ≠ 0)
    (hrecovery : (s.routers first).recoveryActiveAt = 0)
    (hknows : (s.routers first).routers other = trueRouter address other)
    (hknows' : (s.routers other).routers first = trueRouter address first)
    (haddress : trueRouter address other ≠ 0)
    (hlate : transferMessage address other first first g ∈ s.inFlight) :
    ∃ before before' t, (system members address).Run s
        [.call first (openContext (s.routers first).governor) (.transferGovernor other g'),
          .deliver (openContext 0) before (transferMessage address first other other g'),
          .deliver (openContext 0) before' (transferMessage address other first first g)] t ∧
      (t.routers first).governor = g ∧ (t.routers other).governor = g' := by
  have hseated := h.router first hfirst
  have hseated' := h.router other hother
  obtain ⟨s₁, hstep₁, hrouters₁, hkept₁, hmessage⟩ := exists_step_transferGovernor g' hfirst hne
    hzero hseated.toInitial hgovernor hrecovery hknows haddress
  have hother₁ : s₁.routers other = s.routers other := by
    rw [hrouters₁, Function.update_of_ne hne]
  -- The other domain takes the governor from the governing one.
  obtain ⟨before, s₂, hstep₂, hrouters₂, hkept₂⟩ := exists_step_deliver
    ((s.routers other).withGovernor other g') (a := .transferGovernor other (addressToBytes32 g'))
    hmessage hother rfl rfl
    (by
      dsimp only [transferMessage]
      rw [hother₁]
      exact decide_eq_true ⟨hseated'.governorDomain.symm, hknows'.symm⟩)
    (by
      dsimp only [transferMessage]
      rw [hother₁, GovernanceRouter.apply, bytes32ToAddress_addressToBytes32]
      exact GovernanceRouter._transferGovernor_eq_ok.mpr ⟨.inl hseated'.localDomain.symm, rfl⟩)
  have hfirst₂ : s₂.routers first = (s.routers first).withGovernor other g' := by
    rw [hrouters₂, transferMessage, Function.update_of_ne hne.symm, hrouters₁,
      Function.update_self]
  -- The first domain takes the late message from the other one, which governs now.
  obtain ⟨before', s₃, hstep₃, hrouters₃, -⟩ := exists_step_deliver
    (((s.routers first).withGovernor other g').withGovernor first g)
    (a := .transferGovernor first (addressToBytes32 g))
    (hkept₂ _ (hkept₁ _ hlate) (by simp [transferMessage, hne.symm])) hfirst rfl rfl
    (by
      dsimp only [transferMessage]
      rw [hfirst₂]
      exact decide_eq_true ⟨rfl, hknows.symm⟩)
    (by
      dsimp only [transferMessage]
      rw [hfirst₂, GovernanceRouter.apply, bytes32ToAddress_addressToBytes32]
      exact GovernanceRouter._transferGovernor_eq_ok.mpr ⟨.inl hseated.localDomain.symm, rfl⟩)
  refine ⟨before, before', s₃, ((System.Run.single hstep₁).tail hstep₂).tail hstep₃, ?_, ?_⟩
  · rw [hrouters₃, transferMessage, Function.update_self]
    exact if_pos hseated.localDomain.symm
  · rw [hrouters₃, transferMessage, Function.update_of_ne hne, hrouters₂, transferMessage,
      Function.update_self]
    exact if_pos hseated'.localDomain.symm

end Optics.Governance
