/-
# What the functions of the GovernanceRouter do

One fact for each function that a successful call changes the router with: the
router it leaves, and the messages it dispatches. A message that carries an action is
handled as the action says, if it comes from the router of the governor.
-/

import Mathlib.Data.List.Count
import Optics.Governance.GovernanceRouter

namespace Optics.GovernanceMessage.Action

open Optics.Solidity

variable {Byte : Type} [ByteAlphabet Byte]

/-- A message names one action only. -/
theorem bytes_injective : Function.Injective (bytes : Action Byte → List Byte) := by
  intro a b h
  have hview : a.view 0 = b.view 0 := congrArg (View.mk 0) h
  have htype := congrArg identifier hview
  rw [identifier_view, identifier_view] at htype
  cases a with
  | transferGovernor d g =>
    cases b with
    | transferGovernor d' g' =>
      have hdomain := congrArg domain hview
      have hgovernor := congrArg governor hview
      simp only [domain_transferGovernor, governor_transferGovernor, Except.ok.injEq]
        at hdomain hgovernor
      rw [hdomain, hgovernor]
    | setRouter => exact absurd htype nofun
  | setRouter d r =>
    cases b with
    | transferGovernor => exact absurd htype nofun
    | setRouter d' r' =>
      have hdomain := congrArg domain hview
      have hrouter := congrArg router hview
      simp only [domain_setRouter, router_setRouter, Except.ok.injEq] at hdomain hrouter
      rw [hdomain, hrouter]

end Optics.GovernanceMessage.Action

namespace Optics.GovernanceRouter

open Optics.Solidity
open Optics.GovernanceMessage (Action)

variable {Byte : Type}

/-- A message to every domain of the list that is not zero. -/
def announce (body : List Byte) (router : GovernanceRouter Byte) : List (Dispatch Byte) :=
  (router.domains.filter (· ≠ 0)).map fun d => ⟨d, router.routers d, body⟩

theorem sendTo_eq_ok {ctx : Context Byte} {body : List Byte} {router : GovernanceRouter Byte}
    {domains : List UInt32} {sent : List (Dispatch Byte)}
    (h : sendTo ctx body router domains = .ok sent) :
    sent = (domains.filter (· ≠ 0)).map fun d => ⟨d, router.routers d, body⟩ := by
  induction domains generalizing sent with
  | nil => exact (Except.ok.inj h).symm
  | cons d rest ih =>
    unfold sendTo at h
    by_cases hd : d = 0
    · rw [if_neg (by simpa using hd)] at h
      rw [ih h, List.filter_cons_of_neg (by simpa using hd)]
    · rw [if_pos hd] at h
      obtain ⟨message, hmessage, h⟩ := bind_eq_ok.mp h
      obtain ⟨messages, hmessages, h⟩ := bind_eq_ok.mp h
      rw [List.filter_cons_of_pos (by simpa using hd), List.map_cons, ← ih hmessages,
        ← Except.ok.inj h]
      congr 1
      unfold dispatch at hmessage
      split_ifs at hmessage
      exact (Except.ok.inj hmessage).symm

variable [DecidableEq Byte] [ByteAlphabet Byte]

/-- The router after the governor role has moved. -/
def withGovernor (_newDomain : UInt32) (_newGovernor : Address Byte)
    (router : GovernanceRouter Byte) : GovernanceRouter Byte :=
  { router with
    governorDomain := _newDomain
    governor := if _newDomain = router.localDomain then _newGovernor else 0 }

variable {ctx : Context Byte} {router router' : GovernanceRouter Byte} {d : UInt32}
  {g : Address Byte} {r : Bytes32 Byte} {sent : List (Dispatch Byte)}

theorem _transferGovernor_eq_ok :
    router._transferGovernor d g (router._isLocalDomain d) = .ok router' ↔
      (d = router.localDomain ∨ router.routers d ≠ 0) ∧ router' = router.withGovernor d g := by
  unfold _transferGovernor _isLocalDomain withGovernor
  by_cases hd : d = router.localDomain
  · simp [hd, eq_comm]
  · simp [hd, _mustHaveRouter, @eq_comm _ _ router']

/-- `transferGovernor` by the governor, within the domain or to another one. -/
theorem transferGovernor_effect
    (h : transferGovernor ctx d g router = .ok (router', sent)) :
    ctx.sender = router.governor ∧ (d = router.localDomain ∨ router.routers d ≠ 0) ∧
      router' = router.withGovernor d g ∧
      sent = if d = router.localDomain then []
        else router'.announce (Action.transferGovernor d (addressToBytes32 g)).bytes := by
  simp only [transferGovernor, onlyGovernor, onlyNotInRecovery, require_bind_eq_ok,
    GovernanceMessage.formatTransferGovernor_eq] at h
  obtain ⟨hsender, -, h⟩ := h
  obtain ⟨router₁, htransfer, h⟩ := bind_eq_ok.mp h
  obtain ⟨hrouter, rfl⟩ := _transferGovernor_eq_ok.mp htransfer
  by_cases hd : d = router.localDomain
  · rw [if_pos (by simpa [_isLocalDomain] using hd)] at h
    obtain ⟨rfl, rfl⟩ := Prod.mk.inj (Except.ok.inj h)
    exact ⟨hsender, hrouter, rfl, (if_pos hd).symm⟩
  · rw [if_neg (by simpa [_isLocalDomain] using hd), ok_bind] at h
    obtain ⟨messages, hsend, h⟩ := bind_eq_ok.mp h
    obtain ⟨rfl, rfl⟩ := Prod.mk.inj (Except.ok.inj h)
    exact ⟨hsender, hrouter, rfl, by rw [if_neg hd, sendTo_eq_ok hsend, announce]⟩

/-- `setRouter` by the governor. -/
theorem setRouter_effect (h : setRouter ctx d r router = .ok (router', sent)) :
    ctx.sender = router.governor ∧ router' = router._setRouter d r ∧
      sent = router'.announce (Action.setRouter d r).bytes := by
  simp only [setRouter, onlyGovernor, onlyNotInRecovery, require_bind_eq_ok,
    GovernanceMessage.formatSetRouter_eq, ok_bind] at h
  obtain ⟨hsender, -, h⟩ := h
  obtain ⟨messages, hsend, h⟩ := bind_eq_ok.mp h
  obtain ⟨rfl, rfl⟩ := Prod.mk.inj (Except.ok.inj h)
  exact ⟨hsender, rfl, sendTo_eq_ok hsend⟩

theorem setRouterLocal_effect (h : setRouterLocal ctx d r router = .ok (router', sent)) :
    router' = router._setRouter d r ∧ sent = [] := by
  obtain ⟨-, -, h⟩ := bind_eq_ok.mp h
  obtain ⟨rfl, rfl⟩ := Prod.mk.inj (Except.ok.inj h)
  exact ⟨rfl, rfl⟩

omit [ByteAlphabet Byte] in
theorem setXAppConnectionManager_effect {manager : Address Byte}
    (h : setXAppConnectionManager ctx manager router = .ok router') :
    onlyGovernorOrRecoveryManager ctx router = .ok () ∧
      router' = { router with xAppConnectionManager := manager } := by
  obtain ⟨_, hguard, h⟩ := bind_eq_ok.mp h
  exact ⟨hguard, (Except.ok.inj h).symm⟩

/-! ### Recovery -/

omit [ByteAlphabet Byte] in
theorem transferRecoveryManager_effect {newManager : Address Byte}
    (h : transferRecoveryManager ctx newManager router = .ok (router', sent)) :
    ctx.sender = router.recoveryManager ∧
      router' = { router with recoveryManager := newManager } ∧ sent = [] := by
  obtain ⟨hmanager, h⟩ := require_bind_eq_ok.mp h
  obtain ⟨rfl, rfl⟩ := Prod.mk.inj (Except.ok.inj h)
  exact ⟨hmanager, rfl, rfl⟩

omit [ByteAlphabet Byte] in
theorem initiateRecoveryTimelock_effect
    (h : initiateRecoveryTimelock ctx router = .ok (router', sent)) :
    ctx.sender = router.recoveryManager ∧ router.recoveryActiveAt = 0 ∧
      ctx.timestamp + router.recoveryTimelock < 2 ^ 256 ∧
      router' = { router with recoveryActiveAt := ctx.timestamp + router.recoveryTimelock } ∧
      sent = [] := by
  simp only [initiateRecoveryTimelock, onlyNotInRecovery, onlyRecoveryManager,
    require_bind_eq_ok] at h
  obtain ⟨-, hmanager, hinactive, hbound, h⟩ := h
  obtain ⟨rfl, rfl⟩ := Prod.mk.inj (Except.ok.inj h)
  exact ⟨hmanager, hinactive, hbound, rfl, rfl⟩

omit [ByteAlphabet Byte] in
theorem exitRecovery_effect (h : exitRecovery ctx router = .ok (router', sent)) :
    ctx.sender = router.recoveryManager ∧ router.recoveryActiveAt ≠ 0 ∧
      router' = { router with recoveryActiveAt := 0 } ∧ sent = [] := by
  simp only [exitRecovery, onlyRecoveryManager, require_bind_eq_ok] at h
  obtain ⟨hmanager, hinitiated, h⟩ := h
  obtain ⟨rfl, rfl⟩ := Prod.mk.inj (Except.ok.inj h)
  exact ⟨hmanager, hinitiated, rfl, rfl⟩

/-! ### Handling an action -/

/-- What an action does to the router that handles it. -/
def apply (router : GovernanceRouter Byte) : Action Byte → Except Revert (GovernanceRouter Byte)
  | .transferGovernor d g =>
    router._transferGovernor d (bytes32ToAddress g) (router._isLocalDomain d)
  | .setRouter d r => .ok (router._setRouter d r)

/-- `handle` of the message for an action. -/
theorem handle_action (a : Action Byte) (_origin : UInt32) (_sender : Bytes32 Byte) :
    handle ctx _origin _sender a.bytes router = (do
      onlyReplica ctx router
      onlyGovernorRouter _origin _sender router
      let router ← apply router a
      .ok (router, [])) := by
  have href : View.ref a.bytes 0 = a.view 0 := rfl
  simp only [handle]
  rw [href, GovernanceMessage.isValidCall_view, GovernanceMessage.isValidTransferGovernor,
    GovernanceMessage.isValidAction_view, GovernanceMessage.isValidSetRouter,
    GovernanceMessage.isValidAction_view]
  -- The view has the type of its action, so one branch of `handle` is left.
  cases a with
  | transferGovernor d g =>
    have htry : GovernanceMessage.tryAsTransferGovernor ((Action.transferGovernor d g).view 0) =
        _ := GovernanceMessage.tryAs_view _ 0 rfl
    rw [htry]
    simp only [ok_bind, Action.type, decide_true, if_true, Bool.false_eq_true, if_false,
      _handleTransferGovernor, View.assertValid, Action.view, GovernanceMessage.typeAssert_bind]
    rw [← Action.view, GovernanceMessage.domain_transferGovernor, ok_bind,
      GovernanceMessage.governor_transferGovernor, ok_bind]
    rfl
  | setRouter d r =>
    have htry : GovernanceMessage.tryAsSetRouter ((Action.setRouter d r).view 0) =
        _ := GovernanceMessage.tryAs_view _ 0 rfl
    rw [htry]
    simp only [ok_bind, Action.type, decide_true, if_true, Bool.false_eq_true, if_false,
      reduceCtorEq, decide_false, _handleSetRouter, View.assertValid, Action.view,
      GovernanceMessage.typeAssert_bind]
    rw [← Action.view, GovernanceMessage.domain_setRouter, ok_bind,
      GovernanceMessage.router_setRouter, ok_bind]
    rfl

theorem handle_action_eq_ok {a : Action Byte} {_origin : UInt32} {_sender : Bytes32 Byte} :
    handle ctx _origin _sender a.bytes router = .ok (router', sent) ↔
      ctx.isReplica router.xAppConnectionManager ∧ router._isGovernorRouter _origin _sender ∧
        apply router a = .ok router' ∧ sent = [] := by
  rw [handle_action, onlyReplica, onlyGovernorRouter, require_bind_eq_ok, require_bind_eq_ok,
    bind_eq_ok]
  simp only [Except.ok.injEq, Prod.mk.injEq]
  constructor
  · rintro ⟨hreplica, hgovernor, router₁, happly, rfl, hsent⟩
    exact ⟨hreplica, hgovernor, happly, hsent.symm⟩
  · rintro ⟨hreplica, hgovernor, happly, rfl⟩
    exact ⟨hreplica, hgovernor, router', happly, rfl, rfl⟩

/-! ### The table of routers -/

section SetRouter

variable (router d r)

@[simp] theorem _setRouter_routers :
    (router._setRouter d r).routers = Function.update router.routers d r := by
  by_cases hr : r = 0
  · simp [_setRouter, _removeDomain, hr]
  · simp [_setRouter, _addDomain, hr]
    split_ifs <;> rfl

theorem _setRouter_domains : (router._setRouter d r).domains =
    if r = 0 then router.domains.replace d 0
    else if router.routers d = 0 then router.domains ++ [d] else router.domains := by
  simp only [_setRouter, _removeDomain, _addDomain]
  split_ifs <;> rfl

/-- Nothing else of the router changes. -/
theorem _setRouter_eq : router._setRouter d r =
    { router with
      routers := Function.update router.routers d r
      domains := (router._setRouter d r).domains } := by
  by_cases hr : r = 0
  · simp [_setRouter, _removeDomain, hr]
  · by_cases hprevious : router.routers d = 0
    · simp [_setRouter, _addDomain, hr, hprevious]
    · simp [_setRouter, hr, hprevious]

@[simp] theorem _setRouter_localDomain :
    (router._setRouter d r).localDomain = router.localDomain := by
  simp only [_setRouter, _removeDomain, _addDomain]
  split_ifs <;> rfl

@[simp] theorem _setRouter_initialized :
    (router._setRouter d r).initialized = router.initialized := by
  simp only [_setRouter, _removeDomain, _addDomain]
  split_ifs <;> rfl

@[simp] theorem _setRouter_governor : (router._setRouter d r).governor = router.governor := by
  simp only [_setRouter, _removeDomain, _addDomain]
  split_ifs <;> rfl

@[simp] theorem _setRouter_governorDomain :
    (router._setRouter d r).governorDomain = router.governorDomain := by
  simp only [_setRouter, _removeDomain, _addDomain]
  split_ifs <;> rfl

end SetRouter

theorem count_replace_zero (domains : List UInt32) {e : UInt32} (he : e ≠ 0) :
    (domains.replace d 0).count e =
      if e = d then domains.count e - 1 else domains.count e := by
  by_cases hmem : d ∈ domains
  · rw [List.count_replace, if_pos (by simpa using hmem), if_neg (by simpa using Ne.symm he)]
    by_cases hed : e = d
    · simp [hed]
    · simp [hed, Ne.symm hed]
  · rw [List.replace_of_not_mem hmem]
    split_ifs with hed
    · rw [hed, List.count_eq_zero.mpr hmem]
    · rfl

/-- Every domain other than 0 is listed once if it has a router, and not at all
otherwise. -/
def Listed (router : GovernanceRouter Byte) : Prop :=
  ∀ e ≠ 0, router.domains.count e = if router.routers e = 0 then 0 else 1

theorem listed_deploy (_localDomain : UInt32) (_recoveryTimelock : ℕ) :
    (deploy _localDomain _recoveryTimelock : GovernanceRouter Byte).Listed := fun _ _ => by
  simp [deploy]

/-- **The list of domains follows the table.** -/
theorem Listed._setRouter (h : router.Listed) : (router._setRouter d r).Listed := by
  intro e he
  have hbefore := h e he
  rw [_setRouter_domains, _setRouter_routers]
  by_cases hed : e = d
  · subst hed
    rw [Function.update_self]
    split_ifs with hr hprevious
    · -- removing the domain removes its only entry
      rw [count_replace_zero _ he, if_pos rfl, hbefore]
      split_ifs <;> rfl
    -- a domain without a router is not listed yet, and is added once
    · rw [List.count_append, hbefore, if_pos hprevious]
      simp
    · rw [hbefore, if_neg hprevious]
  · rw [Function.update_of_ne hed, ← hbefore]
    split_ifs
    · rw [count_replace_zero _ he, if_neg hed]
    · simp [Ne.symm hed]
    · rfl

/-! ### Calls of the governor that succeed -/

section Governor

omit [DecidableEq Byte] [ByteAlphabet Byte] in
/-- Messages that Home accepts are sent to every domain. -/
theorem sendTo_of_accepts {body : List Byte}
    (h : ctx.homeAccepts router.xAppConnectionManager body = true) (domains : List UInt32) :
    sendTo ctx body router domains =
      .ok ((domains.filter (· ≠ 0)).map fun d => ⟨d, router.routers d, body⟩) := by
  induction domains with
  | nil => rfl
  | cons d rest ih =>
    rw [sendTo, ih]
    by_cases hd : d = 0
    · rw [if_neg (by simpa using hd), List.filter_cons_of_neg (by simpa using hd)]
    · rw [if_pos hd, List.filter_cons_of_pos (by simpa using hd), dispatch, if_pos h]
      rfl

@[simp] theorem _setRouter_xAppConnectionManager :
    (router._setRouter d r).xAppConnectionManager = router.xAppConnectionManager := by
  rw [_setRouter_eq]

/-- `setRouter` by the governor, outside recovery. -/
theorem setRouter_of_governor (hsender : ctx.sender = router.governor)
    (hrecovery : router.recoveryActiveAt = 0)
    (haccept : ∀ body, ctx.homeAccepts router.xAppConnectionManager body = true) :
    setRouter ctx d r router = .ok (router._setRouter d r,
      (router._setRouter d r).announce (Action.setRouter d r).bytes) := by
  have hnot : ¬ router.inRecovery ctx.timestamp := by simp [inRecovery, hrecovery]
  rw [setRouter, onlyGovernor, require_of hsender, ok_bind, onlyNotInRecovery, require_of hnot,
    ok_bind, GovernanceMessage.formatSetRouter_eq, ok_bind, _sendToAllRemoteRouters,
    sendTo_of_accepts (by rw [_setRouter_xAppConnectionManager]; exact haccept _)]
  rfl

/-- `transferGovernor` by the governor, outside recovery, to a domain that is known. -/
theorem transferGovernor_of_governor (hsender : ctx.sender = router.governor)
    (hrecovery : router.recoveryActiveAt = 0)
    (haccept : ∀ body, ctx.homeAccepts router.xAppConnectionManager body = true)
    (hrouter : d = router.localDomain ∨ router.routers d ≠ 0) :
    transferGovernor ctx d g router = .ok (router.withGovernor d g,
      if d = router.localDomain then []
      else (router.withGovernor d g).announce
        (Action.transferGovernor d (addressToBytes32 g)).bytes) := by
  have hnot : ¬ router.inRecovery ctx.timestamp := by simp [inRecovery, hrecovery]
  have htransfer := _transferGovernor_eq_ok.mpr
    (⟨hrouter, rfl⟩ : _ ∧ router.withGovernor d g = router.withGovernor d g)
  rw [transferGovernor, onlyGovernor, require_of hsender, ok_bind, onlyNotInRecovery,
    require_of hnot, ok_bind]
  dsimp only
  rw [htransfer, ok_bind]
  by_cases hd : d = router.localDomain
  · rw [if_pos hd, if_pos (by simpa [_isLocalDomain] using hd)]
  · rw [if_neg hd, if_neg (by simpa [_isLocalDomain] using hd),
      GovernanceMessage.formatTransferGovernor_eq, ok_bind, _sendToAllRemoteRouters]
    have haccept' : ctx.homeAccepts (router.withGovernor d g).xAppConnectionManager
        (Action.transferGovernor d (addressToBytes32 g)).bytes = true := haccept _
    rw [sendTo_of_accepts haccept']
    rfl

end Governor

end Optics.GovernanceRouter
