/-
# There is at most one governor

The role of the governor is a token. It is held by a router with a governor, or
carried by a TransferGovernor message on its way to the domain it names; messages
about the transfer to other domains carry nothing. A domain is listed once, so a
transfer dispatches one message that carries the token, and what a router gains when
it handles a message is what the message carried. The token is never doubled, however
late a message arrives.
-/

import Optics.Governance.Network
import Optics.Math.Token

namespace Optics.Governance

open Optics.Solidity Optics.Math Optics.Math.Transition
open Optics.GovernanceMessage (Action)
open Optics.GovernanceRouter (Dispatch)

variable {Byte : Type} [DecidableEq Byte] [ByteAlphabet Byte]

/-! ### Who has the token -/

/-- A router holds the token if it has a governor. -/
def held (router : GovernanceRouter Byte) : ℕ := if router.governor = 0 then 0 else 1

/-- A message carries the token if it makes an account of its destination the
governor. -/
noncomputable def carried (m : Dispatch Byte) : ℕ :=
  match readAction m.body with
  | some (.transferGovernor d g) => if m.destination = d ∧ bytes32ToAddress g ≠ 0 then 1 else 0
  | _ => 0

variable {d e : UInt32} {g : Address Byte} {r w : Bytes32 Byte}
  {router router' : GovernanceRouter Byte} {sent : List (Dispatch Byte)}

theorem carried_transferGovernor : carried ⟨e, r, (Action.transferGovernor d w).bytes⟩ =
    if e = d ∧ bytes32ToAddress w ≠ 0 then 1 else 0 := by
  simp only [carried, readAction_bytes]

theorem carried_setRouter : carried ⟨e, r, (Action.setRouter d w).bytes⟩ = 0 := by
  simp only [carried, readAction_bytes]

theorem held_le_one : held router ≤ 1 := by
  unfold held
  split_ifs <;> omega

theorem held_ne_zero : held router ≠ 0 ↔ router.governor ≠ 0 := by
  unfold held
  split_ifs with h <;> simp [h]

/-- What the messages of a transfer carry: one for every entry of the new domain in
the list. -/
theorem sum_carried_transferGovernor (domains : List UInt32) (_router : UInt32 → Bytes32 Byte) :
    ((domains.map fun e => (⟨e, _router e, (Action.transferGovernor d w).bytes⟩ : Dispatch Byte)).map
      carried).sum = if bytes32ToAddress w = 0 then 0 else domains.count d := by
  induction domains with
  | nil => simp
  | cons e rest ih =>
    rw [List.map_cons, List.map_cons, List.sum_cons, ih, carried_transferGovernor,
      List.count_cons]
    by_cases hw : bytes32ToAddress w = 0
    · simp [hw]
    · by_cases he : e = d
      · simp [hw, he, Nat.add_comm]
      · simp [hw, he]

theorem sum_carried_setRouter (domains : List UInt32) (_router : UInt32 → Bytes32 Byte) :
    ((domains.map fun e => (⟨e, _router e, (Action.setRouter d w).bytes⟩ : Dispatch Byte)).map
      carried).sum = 0 := by
  rw [List.map_map]
  exact List.sum_eq_zero fun n hn => by
    obtain ⟨e, -, rfl⟩ := List.mem_map.mp hn
    exact carried_setRouter

/-! ### Sound routers -/

variable (members : Finset UInt32) (address : UInt32 → Address Byte)

/-- A router that knows its domain, lists the domains of its table, has only true
routers of members in it, and has a governor only if it takes its own domain for the
governor's. -/
structure Router.Sound (domain : UInt32) (router : GovernanceRouter Byte) : Prop
    extends Router.Initial members address domain router where
  seated : router.governorDomain ≠ domain → router.governor = 0

/-- An action in flight sets only true routers of members. -/
def Proper (m : Dispatch Byte) : Prop :=
  ∃ a : Action Byte, m.body = a.bytes ∧
    ∀ d r, a = .setRouter d r → d ∈ members → r = trueRouter address d ∨ r = 0

/-- A router stays sound, dispatches proper messages, and has and sends no more of
the token than `budget`. -/
structure Router.Kept (budget : ℕ) (domain : UInt32) (router' : GovernanceRouter Byte)
    (sent : List (Dispatch Byte)) : Prop where
  sound : Router.Sound members address domain router'
  proper : ∀ m ∈ sent, Proper members address m
  token : held router' + (sent.map carried).sum ≤ budget

variable {members address} {domain : UInt32} {budget : ℕ} {ctx : GovernanceRouter.Context Byte}

theorem Router.Sound.withGovernor (h : Router.Sound members address domain router) :
    Router.Sound members address domain (router.withGovernor d g) where
  localDomain := h.localDomain
  initialized := h.initialized
  listed := h.listed
  routers := h.routers
  seated hd := if_neg (h.localDomain ▸ hd)

theorem Router.Sound.setRouter (h : Router.Sound members address domain router)
    (hr : d ∈ members → r = trueRouter address d ∨ r = 0) :
    Router.Sound members address domain (router._setRouter d r) where
  localDomain := by rw [GovernanceRouter._setRouter_localDomain, h.localDomain]
  initialized := by rw [GovernanceRouter._setRouter_initialized, h.initialized]
  listed := h.listed._setRouter
  routers e he := by
    rw [GovernanceRouter._setRouter_routers]
    by_cases hed : e = d
    · subst hed
      rw [Function.update_self]
      exact hr he
    · rw [Function.update_of_ne hed]
      exact h.routers e he
  seated hd := by
    rw [GovernanceRouter._setRouter_governorDomain] at hd
    rw [GovernanceRouter._setRouter_governor, h.seated hd]

@[simp] theorem held_setRouter : held (router._setRouter d r) = held router := by
  rw [held, held, GovernanceRouter._setRouter_governor]

/-- A call that changes nothing about governance keeps the router sound. -/
theorem Router.Sound.of_eq (h : Router.Sound members address domain router)
    (hlocalDomain : router'.localDomain = router.localDomain)
    (hinitialized : router'.initialized = router.initialized)
    (hrouters : router'.routers = router.routers) (hdomains : router'.domains = router.domains)
    (hgovernorDomain : router'.governorDomain = router.governorDomain)
    (hgovernor : router'.governor = router.governor) :
    Router.Kept members address (held router) domain router' [] where
  sound :=
    { localDomain := by rw [hlocalDomain, h.localDomain]
      initialized := by rw [hinitialized, h.initialized]
      listed := by
        intro e he
        rw [hdomains, hrouters]
        exact h.listed e he
      routers := by rw [hrouters]; exact h.routers
      seated := by rw [hgovernorDomain, hgovernor]; exact h.seated }
  proper _ hm := absurd hm List.not_mem_nil
  token := by simp [held, hgovernor]

/-! ### Calls -/

/-- The messages of a transfer carry the token at most once. -/
theorem sum_carried_announce_le_one (h : router.Listed) :
    ((router.announce (Action.transferGovernor d w).bytes).map carried).sum ≤ 1 := by
  rw [GovernanceRouter.announce, sum_carried_transferGovernor]
  split_ifs with hw
  · exact Nat.zero_le 1
  · by_cases hd : d = 0
    · rw [List.count_eq_zero.mpr (by simp [hd])]
      exact Nat.zero_le 1
    · rw [List.count_filter (by simpa using hd), h d hd]
      split_ifs <;> omega

theorem kept_transferGovernor (h : Router.Sound members address domain router)
    (hsender : ctx.sender ≠ 0)
    (hexec : GovernanceRouter.transferGovernor ctx d g router = .ok (router', sent)) :
    Router.Kept members address (held router) domain router' sent := by
  obtain ⟨hgovernor, -, rfl, rfl⟩ := GovernanceRouter.transferGovernor_effect hexec
  have hheld : held router = 1 := if_neg (hgovernor ▸ hsender)
  constructor
  case sound => exact h.withGovernor
  case proper =>
    intro m hm
    split_ifs at hm
    · exact absurd hm List.not_mem_nil
    · obtain ⟨e, -, rfl⟩ := List.mem_map.mp hm
      exact ⟨.transferGovernor d (addressToBytes32 g), rfl, nofun⟩
  case token =>
    rw [hheld]
    split_ifs with hlocal
    · exact held_le_one
    · have hgone : held (router.withGovernor d g) = 0 := if_pos (if_neg hlocal)
      rw [hgone, Nat.zero_add]
      exact sum_carried_announce_le_one h.withGovernor.listed

theorem kept_setRouter (h : Router.Sound members address domain router)
    (hr : d ∈ members → r = trueRouter address d ∨ r = 0)
    (hexec : GovernanceRouter.setRouter ctx d r router = .ok (router', sent)) :
    Router.Kept members address (held router) domain router' sent := by
  obtain ⟨-, rfl, rfl⟩ := GovernanceRouter.setRouter_effect hexec
  constructor
  case sound => exact h.setRouter hr
  case proper =>
    intro m hm
    obtain ⟨e, -, rfl⟩ := List.mem_map.mp hm
    refine ⟨.setRouter d r, rfl, ?_⟩
    rintro d' r' ⟨⟩
    exact hr
  case token =>
    rw [GovernanceRouter.announce, sum_carried_setRouter, held_setRouter, Nat.add_zero]

/-- `handle` outside a delivery reverts. -/
theorem handle_ne_ok (h : Router.Sound members address domain router) {origin : UInt32}
    {sender : Bytes32 Byte} {message : List Byte}
    (hallowed : Allowed members address router ctx (.handle origin sender message)) :
    GovernanceRouter.handle ctx origin sender message router ≠ .ok (router', sent) := by
  intro hexec
  simp only [GovernanceRouter.handle, GovernanceRouter.onlyReplica,
    GovernanceRouter.onlyGovernorRouter, require_bind_eq_ok] at hexec
  obtain ⟨hreplica, hgovernor, -⟩ := hexec
  obtain ⟨hzero, htrue⟩ := hallowed hreplica
  obtain ⟨-, hrouter⟩ := of_decide_eq_true hgovernor
  split_ifs at htrue with horigin
  · rcases h.routers origin horigin with htable | htable
    · exact htrue (hrouter.trans htable)
    · exact hzero (hrouter.trans htable)
  · exact htrue hrouter

/-- **Every call keeps the router sound and makes no new token.** -/
theorem kept_exec (h : Router.Sound members address domain router) (hsender : ctx.sender ≠ 0)
    {call : GovernanceRouter.Call Byte} (hallowed : Allowed members address router ctx call)
    (hexec : GovernanceRouter.exec ctx call router = .ok (router', sent)) :
    Router.Kept members address (held router) domain router' sent := by
  cases call with
  | init manager recoveryManager =>
    -- The routers of the run are initialized already.
    obtain ⟨hinitialized, -⟩ := require_bind_eq_ok.mp hexec
    exact absurd h.initialized hinitialized
  | handle origin sender message => exact absurd hexec (handle_ne_ok h hallowed)
  | callLocal calls => exact hallowed.elim
  | callRemote destination calls => exact hallowed.elim
  | transferGovernor newDomain newGovernor => exact kept_transferGovernor h hsender hexec
  | transferRecoveryManager newManager =>
    obtain ⟨-, rfl, rfl⟩ := GovernanceRouter.transferRecoveryManager_effect hexec
    exact h.of_eq rfl rfl rfl rfl rfl rfl
  | setRouter domain newRouter => exact kept_setRouter h hallowed hexec
  | setRouterLocal domain newRouter =>
    obtain ⟨rfl, rfl⟩ := GovernanceRouter.setRouterLocal_effect hexec
    exact ⟨h.setRouter hallowed, fun _ hm => absurd hm List.not_mem_nil, by simp⟩
  | setXAppConnectionManager manager =>
    obtain ⟨router₁, hset, hexec⟩ := bind_eq_ok.mp hexec
    obtain ⟨-, rfl⟩ := GovernanceRouter.setXAppConnectionManager_effect hset
    obtain ⟨rfl, rfl⟩ := Prod.mk.inj (Except.ok.inj hexec)
    exact h.of_eq rfl rfl rfl rfl rfl rfl
  | initiateRecoveryTimelock =>
    obtain ⟨-, -, -, rfl, rfl⟩ := GovernanceRouter.initiateRecoveryTimelock_effect hexec
    exact h.of_eq rfl rfl rfl rfl rfl rfl
  | exitRecovery =>
    obtain ⟨-, -, rfl, rfl⟩ := GovernanceRouter.exitRecovery_effect hexec
    exact h.of_eq rfl rfl rfl rfl rfl rfl

/-! ### Deliveries -/

/-- **Handling a message gains no more of the token than the message carries.** -/
theorem kept_handle {m : Dispatch Byte} (h : Router.Sound members address m.destination router)
    {origin : UInt32} {sender : Bytes32 Byte} (hproper : Proper members address m)
    (hexec : GovernanceRouter.handle ctx origin sender m.body router = .ok (router', sent)) :
    Router.Kept members address (held router + carried m) m.destination router' sent := by
  obtain ⟨destination, recipient, body⟩ := m
  obtain ⟨a, hbody, hset⟩ := hproper
  obtain rfl : body = a.bytes := hbody
  obtain ⟨-, -, happly, rfl⟩ := GovernanceRouter.handle_action_eq_ok.mp hexec
  cases a with
  | transferGovernor d w =>
    obtain ⟨-, rfl⟩ := GovernanceRouter._transferGovernor_eq_ok.mp happly
    refine ⟨h.withGovernor, fun _ hm => absurd hm List.not_mem_nil, ?_⟩
    rw [carried_transferGovernor, List.map_nil, List.sum_nil, Nat.add_zero, held,
      GovernanceRouter.withGovernor, h.localDomain]
    -- The receiver has the token afterwards exactly when the message carried it.
    by_cases hd : d = destination <;> by_cases hw : bytes32ToAddress w = 0 <;>
      simp [hd, hw, Ne.symm]
  | setRouter d r =>
    obtain rfl := Except.ok.inj happly
    refine ⟨h.setRouter (hset d r rfl), fun _ hm => absurd hm List.not_mem_nil, ?_⟩
    rw [held_setRouter, carried_setRouter, List.map_nil, List.sum_nil]

/-! ### Runs -/

/-- What the routers of the members and some messages in flight have of the token. -/
noncomputable def tokens (members : Finset UInt32) (routers : UInt32 → GovernanceRouter Byte)
    (inFlight : List (Transit Byte)) : ℕ :=
  Token.total members held (fun m => carried m.toDispatch) routers inFlight

/-- The routers are sound, the messages are proper, and there is at most one token. -/
structure Sound (members : Finset UInt32) (address : UInt32 → Address Byte) (s : Network Byte) :
    Prop where
  router : ∀ d ∈ members, Router.Sound members address d (s.routers d)
  proper : ∀ m ∈ s.inFlight, Proper members address m.toDispatch
  token : tokens members s.routers s.inFlight ≤ 1

variable {s t : Network Byte} {label : Label Byte} {rest before after : List (Transit Byte)}

variable (router' sent address s rest) in
theorem tokens_commit (hd : d ∈ members) :
    tokens members (s.commit address d rest (router', sent)).routers
        (s.commit address d rest (router', sent)).inFlight + held (s.routers d) =
      tokens members s.routers rest + held router' + (sent.map carried).sum := by
  have hcarried : (sent.map carried).sum = ((sent.map fun m =>
      (⟨m, d, addressToBytes32 (address d)⟩ : Transit Byte)).map
        fun m => carried m.toDispatch).sum := by
    rw [List.map_map]
    rfl
  rw [hcarried]
  exact Token.total_send hd

theorem tokens_drop {m : Transit Byte} (hinFlight : s.inFlight = before ++ m :: after) :
    tokens members s.routers s.inFlight =
      tokens members s.routers (before ++ after) + carried m.toDispatch := by
  rw [hinFlight]
  exact Token.total_drop

theorem Sound.commit (h : Sound members address s) (hd : d ∈ members)
    (hrest : ∀ m ∈ rest, m ∈ s.inFlight)
    (hkept : Router.Kept members address budget d router' sent)
    (htoken : tokens members s.routers rest + budget ≤ 1 + held (s.routers d)) :
    Sound members address (s.commit address d rest (router', sent)) where
  router e he := by
    by_cases hed : e = d
    · subst hed
      rw [Network.commit_routers, Function.update_self]
      exact hkept.sound
    · rw [Network.commit_routers, Function.update_of_ne hed]
      exact h.router e he
  proper m hm := by
    rcases List.mem_append.mp hm with hold | hnew
    · exact h.proper m (hrest m hold)
    · obtain ⟨m', hm', rfl⟩ := List.mem_map.mp hnew
      exact hkept.proper m' hm'
  token := by
    have hcommit := tokens_commit router' sent address s rest hd
    have hkeeps := hkept.token
    omega

omit [DecidableEq Byte] [ByteAlphabet Byte] in
theorem mem_of_mem_rest {m m' : Transit Byte} (hinFlight : s.inFlight = before ++ m :: after)
    (hm' : m' ∈ before ++ after) : m' ∈ s.inFlight := by
  rw [hinFlight]
  simp only [List.mem_append, List.mem_cons] at hm' ⊢
  exact hm'.imp id .inr

/-- Losing a message loses at most what it carried. -/
theorem Sound.drop (h : Sound members address s) {m : Transit Byte}
    (hinFlight : s.inFlight = before ++ m :: after) :
    Sound members address { s with inFlight := before ++ after } where
  router := h.router
  proper m' hm' := h.proper m' (mem_of_mem_rest hinFlight hm')
  token := by
    have htoken := h.token
    rw [tokens_drop hinFlight] at htoken
    exact Nat.le_of_add_right_le htoken

theorem sound_init (h : Initial members address s) : Sound members address s := by
  obtain ⟨governorDomain, hmember, hagreed⟩ := h.agreed
  have hheld : ∀ d ∈ members, held (s.routers d) = if d = governorDomain then 1 else 0 := by
    intro d hd
    obtain ⟨-, hgovernor⟩ := hagreed d hd
    by_cases hself : d = governorDomain
    · rw [if_pos hself, held, if_neg (hgovernor.mpr hself)]
    · rw [if_neg hself, held, if_pos (by_contra fun hne => hself (hgovernor.mp hne))]
  constructor
  case router =>
    intro d hd
    -- Away from the governor's domain nobody has a governor.
    refine ⟨h.router d hd, fun hne => ?_⟩
    obtain ⟨hdomain, hgovernor⟩ := hagreed d hd
    by_contra hzero
    exact hne (hdomain.trans (hgovernor.mp hzero).symm)
  case proper =>
    rw [h.inFlight]
    exact fun _ hm => absurd hm List.not_mem_nil
  case token =>
    rw [tokens, Token.total, h.inFlight, Finset.sum_congr rfl hheld]
    simp [hmember]

theorem Sound.step (h : Sound members address s) (hstep : Step members address s label t) :
    Sound members address t := by
  cases hstep with
  | call domain ctx call _ hdomain hsender hallowed hcall =>
    refine callStep_cases (P := fun _ => Sound members address) hcall (fun t hexec => ?_) h
    obtain ⟨⟨router', sent⟩, hrouter, hcommit⟩ := bind_eq_ok.mp hexec
    obtain rfl := Except.ok.inj hcommit
    have hkept := kept_exec (h.router domain hdomain) hsender hallowed hrouter
    exact h.commit hdomain (fun _ => id) hkept (Nat.add_le_add_right h.token _)
  | deliver ctx m before after hdomain hrecipient hinFlight =>
    have hproper := h.proper m (by simp [hinFlight])
    cases hexec : GovernanceRouter.handle ctx m.origin m.sender m.body
        (s.routers m.destination) with
    | error e =>
      simp only [Network.deliver, hexec]
      exact h.drop hinFlight
    | ok result =>
      simp only [Network.deliver, hexec]
      -- What the message carried is budget of its receiver, and is no longer in flight.
      have hkept := kept_handle (h.router m.destination hdomain) hproper hexec
      have htoken := h.token
      rw [tokens_drop hinFlight] at htoken
      refine h.commit hdomain (fun _ => mem_of_mem_rest hinFlight) hkept ?_
      omega
  | leave m before after hdomain hinFlight => exact h.drop hinFlight

theorem sound_of_reachable (h : (system members address).Reachable s) : Sound members address s :=
  h.invariant (fun _ => sound_init) fun _ _ _ _ hs hstep => hs.step hstep

/-- **There is at most one governor.** In every reachable state of the network at
most one router has a governor, and no router has one that takes another domain than
its own for the governor's. -/
theorem at_most_one_governor (h : (system members address).Reachable s) :
    (∀ d ∈ members, ∀ e ∈ members,
      (s.routers d).governor ≠ 0 → (s.routers e).governor ≠ 0 → d = e) ∧
    ∀ d ∈ members, (s.routers d).governorDomain ≠ (s.routers d).localDomain →
      (s.routers d).governor = 0 := by
  have hsound := sound_of_reachable h
  constructor
  · intro d hd e he hgovernor hgovernor'
    exact Token.eq_of_held hsound.token hd he (held_ne_zero.mpr hgovernor)
      (held_ne_zero.mpr hgovernor')
  · intro d hd hne
    have hrouter := hsound.router d hd
    rw [hrouter.localDomain] at hne
    exact hrouter.seated hne

/-- The role on its way from domain 1 to domain 2, after domain 3 has heard of it. -/
theorem at_most_one_governor_sample : ∃ s, (system sampleMembers sampleAddress).Reachable s ∧
    s.inFlight.length = 1 ∧ (s.routers 3).governorDomain = 2 ∧
    (∀ d ∈ sampleMembers, ∀ e ∈ sampleMembers,
      (s.routers d).governor ≠ 0 → (s.routers e).governor ≠ 0 → d = e) ∧
    ∀ d ∈ sampleMembers, (s.routers d).governorDomain ≠ (s.routers d).localDomain →
      (s.routers d).governor = 0 := by
  obtain ⟨labels, s, hrun, hfacts⟩ := exists_run_of_any (C := fun _ _ => True)
    (fun _ _ => true) (fun _ _ _ _ => trivial) sampleStart
    [.call 1 11 (.transferGovernor 2 (sampleAddress 12)), .deliver 1]
    (fun s => s.inFlight.length = 1 ∧ (s.routers 3).governorDomain = 2) (by decide +kernel)
  obtain ⟨hlength, hdomain⟩ := of_decide_eq_true hfacts
  have hreach : ((system sampleMembers sampleAddress).restrict fun _ _ => True).Reachable s :=
    (System.reachable_init initial_sampleStart).run hrun
  exact ⟨s, hreach.of_restrict, hlength, hdomain, at_most_one_governor hreach.of_restrict⟩

end Optics.Governance
