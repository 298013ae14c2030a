/-
# Calls inside calls of the GovernanceRouter

`callLocal` and a handled Call message hand control to other contracts one after the
other, and each of them may call the router again before it returns. A call is entered
once its checks have passed, and stays open until the last contract it calls has
returned. Only while no call is open, or while a contract that was called has control,
can another call be entered, and only between transactions does time pass.

The router keeps a history of what was done: the calls that were entered, with what they
changed at once and what they dispatched, and the contracts that were called. A revert
takes the router back to an earlier state, which is what savepoints are for.
-/

import Optics.Governance.RouterEffects
import Optics.Math.Savepoints

namespace Optics.GovernanceRouter

open Optics.Solidity Optics.Math.Transition

variable {Byte : Type}

/-- The surroundings of a call if contracts do nothing. -/
def Context.quiet (ctx : Context Byte) : Context Byte :=
  { ctx with call := fun _ router => some (router, []) }

/-- In whose name an open call calls contracts. -/
inductive Authority
  | governor
  | recoveryManager
  deriving DecidableEq, Repr

/-- An open call: in whose name it calls contracts, the ones it has yet to call, and
whether one that it called has control. -/
structure Frame (Byte : Type) where
  authority : Authority
  pending : List (GovernanceMessage.Call Byte)
  outside : Bool

/-- What was done: a call by a sender that passed its checks, or the call of a contract in
somebody's name. -/
inductive Act (Byte : Type)
  | call (sender : Address Byte) (call : Call Byte)
  | perform (authority : Authority) (call : GovernanceMessage.Call Byte)

/-- An entry of the history: the time, the router before and after, and what was
dispatched. -/
structure Moment (Byte : Type) where
  time : ℕ
  before : GovernanceRouter Byte
  act : Act Byte
  after : GovernanceRouter Byte
  sent : List (Dispatch Byte)

/-- A router on its chain, with the time of the current block, the open calls, the innermost
first, and the history. -/
structure Chain (Byte : Type) where
  router : GovernanceRouter Byte
  now : ℕ
  frames : List (Frame Byte)
  history : List (Moment Byte)

/-- A step of the chain. -/
inductive Label (Byte : Type)
  | wait (timestamp : ℕ)
  | enter (ctx : Context Byte) (call : Call Byte)
  | perform
  | resume
  | leave

/-- Whether other code than the router's has control. -/
def Chain.outside (s : Chain Byte) : Bool := s.frames.head?.all Frame.outside

/-- In whose name a call calls contracts: a message comes from the governor. -/
def Call.authority (timestamp : ℕ) (router : GovernanceRouter Byte) : Call Byte → Authority
  | .callLocal _ => if router.inRecovery timestamp then .recoveryManager else .governor
  | _ => .governor

/-- The chain after a call has been entered. -/
def Chain.enter (s : Chain Byte) (sender : Address Byte) (call : Call Byte)
    (calls : List (GovernanceMessage.Call Byte)) (router : GovernanceRouter Byte)
    (sent : List (Dispatch Byte)) : Chain Byte where
  router := router
  now := s.now
  frames := ⟨call.authority s.now s.router, calls, false⟩ :: s.frames
  history := s.history ++ [⟨s.now, s.router, .call sender call, router, sent⟩]

/-- The chain after an open call has called its next contract. -/
def Chain.perform (s : Chain Byte) (authority : Authority) (call : GovernanceMessage.Call Byte)
    (pending : List (GovernanceMessage.Call Byte)) (frames : List (Frame Byte)) : Chain Byte where
  router := s.router
  now := s.now
  frames := ⟨authority, pending, true⟩ :: frames
  history := s.history ++ [⟨s.now, s.router, .perform authority call, s.router, []⟩]

variable [ByteAlphabet Byte]

/-- The contracts that a call calls. -/
def Call.calls : Call Byte → Except Revert (List (GovernanceMessage.Call Byte))
  | .callLocal calls => .ok calls
  | .handle _ _ message => do
    let _msg := View.ref message 0
    if ← GovernanceMessage.isValidCall _msg then
      let _msg ← View.assertValid (← GovernanceMessage.tryAsCall _msg)
      GovernanceMessage.getCalls _msg
    else .ok []
  | _ => .ok []

variable [DecidableEq Byte]

/-- The chain after a step, if the step can be taken. -/
def Label.exec : Label Byte → Chain Byte → Option (Chain Byte)
  | .wait timestamp, s =>
    if s.frames.isEmpty ∧ s.now ≤ timestamp then some { s with now := timestamp } else none
  | .enter ctx call, s =>
    if s.outside ∧ ctx.timestamp = s.now then
      match GovernanceRouter.exec ctx.quiet call s.router, call.calls with
      | .ok (router, sent), .ok calls => some (s.enter ctx.sender call calls router sent)
      | _, _ => none
    else none
  | .perform, s =>
    match s.frames with
    | ⟨authority, call :: pending, false⟩ :: frames =>
      some (s.perform authority call pending frames)
    | _ => none
  | .resume, s =>
    match s.frames with
    | ⟨authority, pending, true⟩ :: frames =>
      some { s with frames := ⟨authority, pending, false⟩ :: frames }
    | _ => none
  | .leave, s =>
    match s.frames with
    | ⟨_, [], false⟩ :: frames => some { s with frames := frames }
    | _ => none

/-- The chain of a router that has been initialized. Time starts above 0. -/
structure Initial (s : Chain Byte) : Prop where
  deployed : ∃ ctx localDomain recoveryTimelock manager recoveryManager,
    GovernanceRouter.init ctx manager recoveryManager (deploy localDomain recoveryTimelock) =
      .ok (s.router, [])
  now : 0 < s.now
  frames : s.frames = []
  history : s.history = []

/-- The chain, step by step. -/
def chain : System (Chain Byte) (Label Byte) where
  init := Initial
  step s label t := label.exec s = some t

/-- Steps that are taken between transactions only. -/
def Label.Outer : Label Byte → Prop
  | .wait _ => True
  | _ => False

/-- The chain with transactions that may revert in part or as a whole. -/
def transactions : System (Chain Byte × List (Chain Byte)) (Move (Label Byte)) :=
  chain.withSavepoints Label.Outer

/-! ### The checks of a call and the contracts it calls -/

section Exec

variable {ctx : Context Byte} {router router' : GovernanceRouter Byte} {sent : List (Dispatch Byte)}

omit [ByteAlphabet Byte] [DecidableEq Byte] in
@[simp] theorem dispatchCalls_quiet (calls : List (GovernanceMessage.Call Byte)) :
    dispatchCalls ctx.quiet calls router = .ok (router, []) := by
  induction calls with
  | nil => rfl
  | cons call rest ih =>
    rw [dispatchCalls]
    simp only [Context.quiet] at ih ⊢
    rw [ih]
    rfl

omit [ByteAlphabet Byte] [DecidableEq Byte] in
@[simp] theorem sendTo_quiet (_msg : List Byte) (domains : List UInt32) :
    sendTo ctx.quiet _msg router domains = sendTo ctx _msg router domains := by
  induction domains with
  | nil => rfl
  | cons d rest ih =>
    simp only [sendTo, ih]
    rfl

omit [ByteAlphabet Byte] [DecidableEq Byte] in
theorem tryAs_of {view : View Byte} {t : GovernanceMessage.Types}
    {isValid : View Byte → Except Revert Bool} (h : isValid view = .ok true) :
    GovernanceMessage.tryAs t isValid view = .ok (some (view.castTo t.code)) := by
  rw [GovernanceMessage.tryAs, h]
  rfl

/-- A handled Call message calls the contracts it lists. -/
theorem handle_call {_origin : UInt32} {_sender : Bytes32 Byte} {_message : List Byte}
    (h : GovernanceMessage.isValidCall (View.ref _message 0) = .ok true) :
    handle ctx _origin _sender _message router = (do
      onlyReplica ctx router
      onlyGovernorRouter _origin _sender router
      let calls ← (Call.handle _origin _sender _message).calls
      dispatchCalls ctx calls router) := by
  simp only [handle, Call.calls, h, ok_bind, if_true, GovernanceMessage.tryAsCall, tryAs_of h,
    _handleCall, View.assertValid,
    View.castTo, GovernanceMessage.typeAssert_bind]

/-- What is left of a call that calls no contracts. -/
theorem exec_eq_of_nil {call : Call Byte}
    (hquiet : exec ctx call router = exec ctx.quiet call router) (hcalls : call.calls = .ok []) :
    exec ctx call router = (do
      let (router, sent) ← exec ctx.quiet call router
      let calls ← call.calls
      let (router, more) ← dispatchCalls ctx calls router
      .ok (router, sent ++ more)) := by
  rw [hquiet, hcalls]
  cases exec ctx.quiet call router with
  | error e => rfl
  | ok result => simp [dispatchCalls]

/-- **A call is its checks, and then the calls of contracts.** -/
theorem exec_eq (ctx : Context Byte) (call : Call Byte) (router : GovernanceRouter Byte) :
    exec ctx call router = (do
      let (router, sent) ← exec ctx.quiet call router
      let calls ← call.calls
      let (router, more) ← dispatchCalls ctx calls router
      .ok (router, sent ++ more)) := by
  cases call with
  -- the modifier reads the sender, the time and the storage, never what contracts do
  | callLocal calls =>
    have hguard : onlyGovernorOrRecoveryManager ctx.quiet router =
        onlyGovernorOrRecoveryManager ctx router := rfl
    simp only [exec, callLocal, hguard, dispatchCalls_quiet, Call.calls, ok_bind]
    cases onlyGovernorOrRecoveryManager ctx router with
    | error e => rfl
    | ok _ =>
      simp only [ok_bind]
      cases dispatchCalls ctx calls router <;> rfl
  | handle origin sender message =>
    have hguard : onlyReplica ctx.quiet router = onlyReplica ctx router := rfl
    cases hvalid : GovernanceMessage.isValidCall (View.ref message 0) with
    | error e =>
      -- An empty message has no identifier, and is refused on both sides.
      simp only [exec, handle, hvalid, hguard, error_bind]
      cases onlyReplica ctx router with
      | error e => rfl
      | ok _ => cases onlyGovernorRouter origin sender router <;> rfl
    | ok valid =>
      cases valid with
      -- the other two actions are carried out on the storage alone
      | false =>
        refine exec_eq_of_nil ?_ ?_
        · simp only [exec, handle, hvalid, hguard, ok_bind, Bool.false_eq_true, if_false]
        · simp only [Call.calls, hvalid, ok_bind, Bool.false_eq_true, if_false]
      | true =>
        simp only [exec, handle_call hvalid, hguard, dispatchCalls_quiet]
        cases onlyReplica ctx router with
        | error e => rfl
        | ok _ =>
          cases onlyGovernorRouter origin sender router with
          | error e => rfl
          | ok _ =>
            cases hcalls : (Call.handle origin sender message).calls with
            | error e => rfl
            | ok calls =>
              simp only [ok_bind]
              cases dispatchCalls ctx calls router <;> rfl
  -- announcements go to Home, which is no contract that is called
  | transferGovernor d g =>
    refine exec_eq_of_nil ?_ rfl
    simp only [exec, transferGovernor, _sendToAllRemoteRouters, sendTo_quiet]
    rfl
  | setRouter d r =>
    refine exec_eq_of_nil ?_ rfl
    simp only [exec, setRouter, _sendToAllRemoteRouters, sendTo_quiet]
    rfl
  | _ => exact exec_eq_of_nil rfl rfl

/-! ### What a call does before it calls contracts -/

/-- The sender is the governor, or the recovery manager while recovery is active. -/
def InCharge (ctx : Context Byte) (router : GovernanceRouter Byte) : Prop :=
  ctx.sender = if router.inRecovery ctx.timestamp then router.recoveryManager else router.governor

/-- The sender is the governor, and recovery is not active. -/
def Governs (ctx : Context Byte) (router : GovernanceRouter Byte) : Prop :=
  ctx.sender = router.governor ∧ router.inRecovery ctx.timestamp = false

/-- A message that a Replica delivers from the router of the governor. -/
def FromGovernor (ctx : Context Byte) (origin : UInt32) (sender : Bytes32 Byte)
    (router : GovernanceRouter Byte) : Prop :=
  ctx.isReplica router.xAppConnectionManager = true ∧ router._isGovernorRouter origin sender = true

/-- All that a call can do to the router, with its checks. -/
inductive Effect (ctx : Context Byte) (router : GovernanceRouter Byte) :
    Call Byte → GovernanceRouter Byte → List (Dispatch Byte) → Prop
  | init {manager recoveryManager : Address Byte} {router' : GovernanceRouter Byte}
      {sent : List (Dispatch Byte)} (hinitialized : router.initialized = false) :
      Effect ctx router (.init manager recoveryManager) router' sent
  | handleCall {origin : UInt32} {sender : Bytes32 Byte} {message : List Byte}
      (hgovernor : FromGovernor ctx origin sender router)
      (hvalid : GovernanceMessage.isValidCall (View.ref message 0) = .ok true) :
      Effect ctx router (.handle origin sender message) router []
  | handleAction {origin : UInt32} {sender : Bytes32 Byte} {message : List Byte}
      {a : GovernanceMessage.Action Byte} {router' : GovernanceRouter Byte}
      (hgovernor : FromGovernor ctx origin sender router)
      (hvalid : GovernanceMessage.isValidAction a.type (View.ref message 0) = .ok true)
      (happly : router.apply a = .ok router') :
      Effect ctx router (.handle origin sender message) router' []
  | callLocal {calls : List (GovernanceMessage.Call Byte)} (hcharge : InCharge ctx router) :
      Effect ctx router (.callLocal calls) router []
  | callRemote {destination : UInt32} {calls : List (GovernanceMessage.Call Byte)}
      (hgoverns : Governs ctx router) (hrouter : router.routers destination ≠ 0)
      (haccepts : ctx.homeAccepts router.xAppConnectionManager
        (GovernanceMessage.formatCalls calls) = true) :
      Effect ctx router (.callRemote destination calls) router
        [⟨destination, router.routers destination, GovernanceMessage.formatCalls calls⟩]
  | transferGovernor {d : UInt32} {g : Address Byte} (hgoverns : Governs ctx router)
      (hrouter : d = router.localDomain ∨ router.routers d ≠ 0) :
      Effect ctx router (.transferGovernor d g) (router.withGovernor d g)
        (if d = router.localDomain then []
          else (router.withGovernor d g).announce
            (GovernanceMessage.Action.transferGovernor d (addressToBytes32 g)).bytes)
  | transferRecoveryManager {newManager : Address Byte}
      (hmanager : ctx.sender = router.recoveryManager) :
      Effect ctx router (.transferRecoveryManager newManager)
        { router with recoveryManager := newManager } []
  | setRouter {d : UInt32} {r : Bytes32 Byte} (hgoverns : Governs ctx router) :
      Effect ctx router (.setRouter d r) (router._setRouter d r)
        ((router._setRouter d r).announce (GovernanceMessage.Action.setRouter d r).bytes)
  | setRouterLocal {d : UInt32} {r : Bytes32 Byte} (hcharge : InCharge ctx router) :
      Effect ctx router (.setRouterLocal d r) (router._setRouter d r) []
  | setXAppConnectionManager {manager : Address Byte} (hcharge : InCharge ctx router) :
      Effect ctx router (.setXAppConnectionManager manager)
        { router with xAppConnectionManager := manager } []
  | initiateRecoveryTimelock (hmanager : ctx.sender = router.recoveryManager)
      (hinactive : router.recoveryActiveAt = 0)
      (hbound : ctx.timestamp + router.recoveryTimelock < 2 ^ 256) :
      Effect ctx router .initiateRecoveryTimelock
        { router with recoveryActiveAt := ctx.timestamp + router.recoveryTimelock } []
  | exitRecovery (hmanager : ctx.sender = router.recoveryManager)
      (hinitiated : router.recoveryActiveAt ≠ 0) :
      Effect ctx router .exitRecovery { router with recoveryActiveAt := 0 } []

omit [ByteAlphabet Byte] in
theorem onlyGovernorOrRecoveryManager_eq_ok :
    onlyGovernorOrRecoveryManager ctx router = .ok () ↔ InCharge ctx router := by
  unfold onlyGovernorOrRecoveryManager onlyRecoveryManager onlyGovernor InCharge
  split_ifs <;> exact require_eq_ok

theorem apply_of_handleTransferGovernor {view : View Byte}
    (h : _handleTransferGovernor (some view) router = .ok router') :
    ∃ d g, router.apply (.transferGovernor d g) = .ok router' := by
  obtain ⟨_, hview, h⟩ := bind_eq_ok.mp h
  obtain ⟨_, -, h⟩ := bind_eq_ok.mp h
  obtain ⟨d, -, h⟩ := bind_eq_ok.mp h
  obtain ⟨g, -, h⟩ := bind_eq_ok.mp h
  exact ⟨d, g, h⟩

theorem apply_of_handleSetRouter {view : View Byte}
    (h : _handleSetRouter (some view) router = .ok router') :
    ∃ d r, router.apply (.setRouter d r) = .ok router' := by
  obtain ⟨_, hview, h⟩ := bind_eq_ok.mp h
  obtain ⟨_, -, h⟩ := bind_eq_ok.mp h
  obtain ⟨d, -, h⟩ := bind_eq_ok.mp h
  obtain ⟨r, -, h⟩ := bind_eq_ok.mp h
  exact ⟨d, r, h⟩

theorem handle_effect {origin : UInt32} {sender : Bytes32 Byte} {message : List Byte}
    (h : handle ctx.quiet origin sender message router = .ok (router', sent)) :
    Effect ctx router (.handle origin sender message) router' sent := by
  simp only [handle, onlyReplica, onlyGovernorRouter, require_bind_eq_ok] at h
  -- `handle` tries Call first, then TransferGovernor, then SetRouter
  obtain ⟨hreplica, hrouter, h⟩ := h
  have hgovernor : FromGovernor ctx origin sender router := ⟨hreplica, hrouter⟩
  obtain ⟨valid, hvalid, h⟩ := bind_eq_ok.mp h
  cases valid with
  | true =>
    rw [if_pos rfl, GovernanceMessage.tryAsCall, tryAs_of hvalid, ok_bind] at h
    obtain ⟨_, -, h⟩ := bind_eq_ok.mp h
    obtain ⟨_, -, h⟩ := bind_eq_ok.mp h
    obtain ⟨calls, -, h⟩ := bind_eq_ok.mp h
    rw [dispatchCalls_quiet] at h
    obtain ⟨rfl, rfl⟩ := Prod.mk.inj (Except.ok.inj h)
    exact .handleCall hgovernor hvalid
  | false =>
    rw [if_neg Bool.false_ne_true] at h
    obtain ⟨transfers, htransfer, h⟩ := bind_eq_ok.mp h
    cases transfers with
    | true =>
      rw [if_pos rfl, GovernanceMessage.tryAsTransferGovernor, tryAs_of htransfer, ok_bind] at h
      obtain ⟨router₁, hhandle, h⟩ := bind_eq_ok.mp h
      obtain ⟨rfl, rfl⟩ := Prod.mk.inj (Except.ok.inj h)
      obtain ⟨d, g, happly⟩ := apply_of_handleTransferGovernor hhandle
      exact .handleAction (a := .transferGovernor d g) hgovernor htransfer happly
    | false =>
      rw [if_neg Bool.false_ne_true] at h
      obtain ⟨sets, hset, h⟩ := bind_eq_ok.mp h
      cases sets with
      | true =>
        rw [if_pos rfl, GovernanceMessage.tryAsSetRouter, tryAs_of hset, ok_bind] at h
        obtain ⟨router₁, hhandle, h⟩ := bind_eq_ok.mp h
        obtain ⟨rfl, rfl⟩ := Prod.mk.inj (Except.ok.inj h)
        obtain ⟨d, r, happly⟩ := apply_of_handleSetRouter hhandle
        exact .handleAction (a := .setRouter d r) hgovernor hset happly
      | false => cases h

theorem effect_of_exec {call : Call Byte}
    (h : exec ctx.quiet call router = .ok (router', sent)) :
    Effect ctx router call router' sent := by
  cases call with
  | init manager recoveryManager =>
    refine .init ?_
    have hnew := (require_bind_eq_ok.mp h).1
    simpa using hnew
  | handle origin sender message => exact handle_effect h
  | callLocal calls =>
    obtain ⟨_, hguard, h⟩ := bind_eq_ok.mp h
    rw [dispatchCalls_quiet] at h
    obtain ⟨rfl, rfl⟩ := Prod.mk.inj (Except.ok.inj h)
    exact .callLocal (onlyGovernorOrRecoveryManager_eq_ok.mp hguard)
  | callRemote destination calls =>
    simp only [exec, callRemote, onlyGovernor, onlyNotInRecovery, require_bind_eq_ok] at h
    obtain ⟨hsender, hrecovery, h⟩ := h
    obtain ⟨_, hrouter, h⟩ := bind_eq_ok.mp h
    obtain ⟨hne, hrouter⟩ := require_bind_eq_ok.mp hrouter
    obtain rfl := Except.ok.inj hrouter
    obtain ⟨message, hdispatch, h⟩ := bind_eq_ok.mp h
    rw [dispatch] at hdispatch
    split_ifs at hdispatch with haccepts
    obtain rfl := Except.ok.inj hdispatch
    obtain ⟨rfl, rfl⟩ := Prod.mk.inj (Except.ok.inj h)
    exact .callRemote ⟨hsender, Bool.eq_false_iff.mpr hrecovery⟩ hne haccepts
  | transferGovernor d g =>
    obtain ⟨hsender, hrouter, rfl, rfl⟩ := transferGovernor_effect h
    obtain ⟨-, h⟩ := require_bind_eq_ok.mp h
    obtain ⟨hrecovery, -⟩ := require_bind_eq_ok.mp h
    exact .transferGovernor ⟨hsender, Bool.eq_false_iff.mpr hrecovery⟩ hrouter
  | transferRecoveryManager newManager =>
    obtain ⟨hmanager, rfl, rfl⟩ := transferRecoveryManager_effect h
    exact .transferRecoveryManager hmanager
  | setRouter d r =>
    obtain ⟨hsender, rfl, rfl⟩ := setRouter_effect h
    obtain ⟨-, h⟩ := require_bind_eq_ok.mp h
    obtain ⟨hrecovery, -⟩ := require_bind_eq_ok.mp h
    exact .setRouter ⟨hsender, Bool.eq_false_iff.mpr hrecovery⟩
  | setRouterLocal d r =>
    obtain ⟨_, hguard, h⟩ := bind_eq_ok.mp h
    obtain ⟨rfl, rfl⟩ := Prod.mk.inj (Except.ok.inj h)
    exact .setRouterLocal (onlyGovernorOrRecoveryManager_eq_ok.mp hguard)
  | setXAppConnectionManager manager =>
    obtain ⟨router₁, hset, h⟩ := bind_eq_ok.mp h
    obtain ⟨hguard, rfl⟩ := setXAppConnectionManager_effect hset
    obtain ⟨rfl, rfl⟩ := Prod.mk.inj (Except.ok.inj h)
    exact .setXAppConnectionManager (onlyGovernorOrRecoveryManager_eq_ok.mp hguard)
  | initiateRecoveryTimelock =>
    obtain ⟨hmanager, hinactive, hbound, rfl, rfl⟩ := initiateRecoveryTimelock_effect h
    exact .initiateRecoveryTimelock hmanager hinactive hbound
  | exitRecovery =>
    obtain ⟨hmanager, hinitiated, rfl, rfl⟩ := exitRecovery_effect h
    exact .exitRecovery hmanager hinitiated

end Exec

/-! ### The steps of the chain -/

/-- All that a step can do. -/
inductive Step (s : Chain Byte) : Label Byte → Chain Byte → Prop
  | wait {timestamp : ℕ} (hframes : s.frames = []) (hnow : s.now ≤ timestamp) :
      Step s (.wait timestamp) { s with now := timestamp }
  | enter {ctx : Context Byte} {call : Call Byte} {calls : List (GovernanceMessage.Call Byte)}
      {router : GovernanceRouter Byte} {sent : List (Dispatch Byte)}
      (houtside : s.outside = true) (hnow : ctx.timestamp = s.now)
      (hexec : exec ctx.quiet call s.router = .ok (router, sent))
      (hcalls : call.calls = .ok calls) :
      Step s (.enter ctx call) (s.enter ctx.sender call calls router sent)
  | perform {authority : Authority} {call : GovernanceMessage.Call Byte}
      {pending : List (GovernanceMessage.Call Byte)} {frames : List (Frame Byte)}
      (hframes : s.frames = ⟨authority, call :: pending, false⟩ :: frames) :
      Step s .perform (s.perform authority call pending frames)
  | resume {authority : Authority} {pending : List (GovernanceMessage.Call Byte)}
      {frames : List (Frame Byte)} (hframes : s.frames = ⟨authority, pending, true⟩ :: frames) :
      Step s .resume { s with frames := ⟨authority, pending, false⟩ :: frames }
  | leave {authority : Authority} {frames : List (Frame Byte)}
      (hframes : s.frames = ⟨authority, [], false⟩ :: frames) :
      Step s .leave { s with frames := frames }

variable {s t : Chain Byte} {label : Label Byte}

theorem step_iff : chain.step s label t ↔ Step s label t := by
  constructor
  · intro h
    change label.exec s = some t at h
    cases label with
    | wait timestamp =>
      rw [Label.exec, Option.ite_none_right_eq_some] at h
      obtain ⟨⟨hframes, hnow⟩, h⟩ := h
      obtain rfl := Option.some.inj h
      exact .wait (List.isEmpty_iff.mp hframes) hnow
    | enter ctx call =>
      rw [Label.exec, Option.ite_none_right_eq_some] at h
      obtain ⟨⟨houtside, hnow⟩, h⟩ := h
      split at h
      case h_1 router sent calls hexec hcalls =>
        obtain rfl := Option.some.inj h
        exact .enter houtside hnow hexec hcalls
      case h_2 => cases h
    | perform =>
      rw [Label.exec] at h
      split at h
      case h_1 hframes =>
        obtain rfl := Option.some.inj h
        exact .perform hframes
      case h_2 => cases h
    | resume =>
      rw [Label.exec] at h
      split at h
      case h_1 hframes =>
        obtain rfl := Option.some.inj h
        exact .resume hframes
      case h_2 => cases h
    | leave =>
      rw [Label.exec] at h
      split at h
      case h_1 hframes =>
        obtain rfl := Option.some.inj h
        exact .leave hframes
      case h_2 => cases h
  · intro h
    change label.exec s = some t
    cases h with
    | wait hframes hnow => simp [Label.exec, hframes, hnow]
    | enter houtside hnow hexec hcalls => simp [Label.exec, houtside, hnow, hexec, hcalls]
    | perform hframes => simp [Label.exec, hframes]
    | resume hframes => simp [Label.exec, hframes]
    | leave hframes => simp [Label.exec, hframes]

/-! ### Calls as runs -/

/-- The contracts that are called do to the router what steps of the chain do. -/
def Context.Faithful (ctx : Context Byte) : Prop :=
  ∀ call router router' sent, ctx.call call router = some (router', sent) →
    ∀ s : Chain Byte, s.router = router → s.outside = true → s.now = ctx.timestamp →
      ∃ labels t, chain.Run s labels t ∧ t.router = router' ∧ t.frames = s.frames ∧ t.now = s.now

section Runs

variable {ctx : Context Byte} {router' : GovernanceRouter Byte} {sent : List (Dispatch Byte)}

theorem run_dispatchCalls (hctx : ctx.Faithful) {authority : Authority}
    {calls : List (GovernanceMessage.Call Byte)} {frames : List (Frame Byte)}
    (h : dispatchCalls ctx calls s.router = .ok (router', sent))
    (hframes : s.frames = ⟨authority, calls, false⟩ :: frames) (hnow : s.now = ctx.timestamp) :
    ∃ labels t, chain.Run s labels t ∧ t.router = router' ∧
      t.frames = ⟨authority, [], false⟩ :: frames ∧ t.now = s.now := by
  induction calls generalizing s sent with
  | nil =>
    obtain ⟨rfl, -⟩ := Prod.mk.inj (Except.ok.inj h)
    exact ⟨[], s, .refl s, rfl, hframes, rfl⟩
  | cons call rest ih =>
    rw [dispatchCalls] at h
    split at h
    case h_1 => cases h
    case h_2 router₁ sent₁ hcall =>
      obtain ⟨⟨router₂, more⟩, hrest, h⟩ := bind_eq_ok.mp h
      obtain ⟨rfl, -⟩ := Prod.mk.inj (Except.ok.inj h)
      -- the contract is called, does its own steps, and hands control back
      have hperform := System.Run.single (step_iff.mpr (.perform hframes))
      obtain ⟨inner, u, hinner, hrouter, hinside, hsame⟩ :=
        hctx _ _ _ _ hcall (s.perform authority call rest frames) rfl rfl hnow
      have hresume := System.Run.single (step_iff.mpr (.resume hinside))
      rw [← hrouter] at hrest
      obtain ⟨labels, t, hrun, ht⟩ :=
        ih (s := { u with frames := ⟨authority, rest, false⟩ :: frames }) hrest rfl
          (hsame.trans hnow)
      exact ⟨_, t, ((hperform.trans hinner).trans hresume).trans hrun, ht.1, ht.2.1,
        ht.2.2.trans hsame⟩

/-- **Every call is a run.** A call that succeeds is entered, makes its calls of contracts
and leaves, if the contracts keep to the steps of the chain. -/
theorem run_of_exec (hctx : ctx.Faithful) {call : Call Byte}
    (h : exec ctx call s.router = .ok (router', sent)) (houtside : s.outside = true)
    (hnow : s.now = ctx.timestamp) :
    ∃ labels t, chain.Run s labels t ∧ t.router = router' ∧ t.frames = s.frames ∧
      t.now = s.now := by
  rw [exec_eq] at h
  obtain ⟨⟨router₁, sent₁⟩, hexec, h⟩ := bind_eq_ok.mp h
  obtain ⟨calls, hcalls, h⟩ := bind_eq_ok.mp h
  obtain ⟨⟨router₂, more⟩, hdispatch, h⟩ := bind_eq_ok.mp h
  obtain ⟨rfl, -⟩ := Prod.mk.inj (Except.ok.inj h)
  -- entering, the calls of contracts one after the other, and leaving
  have henter := System.Run.single (step_iff.mpr (.enter houtside hnow.symm hexec hcalls))
  obtain ⟨labels, u, hrun, hrouter, hframes, hsame⟩ :=
    run_dispatchCalls hctx (s := s.enter ctx.sender call calls router₁ sent₁) hdispatch rfl hnow
  have hleave := System.Run.single (step_iff.mpr (.leave hframes))
  exact ⟨_, _, (henter.trans hrun).trans hleave, hrouter, rfl, hsame⟩

end Runs

end Optics.GovernanceRouter
