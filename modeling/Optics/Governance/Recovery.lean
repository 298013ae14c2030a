/-
# Recovery of the GovernanceRouter

A recovery manager that has waited for the timelock to run out takes the place of the
governor on this chain. One word of storage holds whether recovery was initiated and when
it becomes active, and the history says what that word stands for.

While recovery is active the functions of the governor are closed. `handle` is not: the
messages of a remote governor are still carried out.
-/

import Optics.Governance.RouterCalls
import Optics.Math.Log

namespace Optics.GovernanceRouter

open Optics.Solidity Optics.Math Optics.Math.Transition

variable {Byte : Type} [DecidableEq Byte] [ByteAlphabet Byte]

/-! ### What stays as it is -/

section Effect

variable {ctx : Context Byte} {router router' : GovernanceRouter Byte} {call : Call Byte}
  {sent : List (Dispatch Byte)}

theorem apply_eq_ok {a : GovernanceMessage.Action Byte} (h : router.apply a = .ok router') :
    (∃ d g, router' = router.withGovernor d g) ∨ ∃ d r, router' = router._setRouter d r := by
  cases a with
  | transferGovernor d g => exact .inl ⟨d, _, (_transferGovernor_eq_ok.mp h).2⟩
  | setRouter d r => exact .inr ⟨d, r, (Except.ok.inj h).symm⟩

/-- What the functions of governance leave alone. -/
structure SameRecovery (router router' : GovernanceRouter Byte) : Prop where
  initialized : router'.initialized = router.initialized
  recoveryTimelock : router'.recoveryTimelock = router.recoveryTimelock
  recoveryActiveAt : router'.recoveryActiveAt = router.recoveryActiveAt

omit [DecidableEq Byte] [ByteAlphabet Byte] in
theorem SameRecovery.refl (router : GovernanceRouter Byte) : SameRecovery router router :=
  ⟨rfl, rfl, rfl⟩

theorem SameRecovery._setRouter (d : UInt32) (r : Bytes32 Byte) :
    SameRecovery router (router._setRouter d r) := by
  rw [_setRouter_eq]
  exact ⟨rfl, rfl, rfl⟩

theorem SameRecovery.apply {a : GovernanceMessage.Action Byte}
    (h : router.apply a = .ok router') : SameRecovery router router' := by
  -- a new governor and a new router leave the word alone
  rcases apply_eq_ok h with ⟨d, g, rfl⟩ | ⟨d, r, rfl⟩
  · exact ⟨rfl, rfl, rfl⟩
  · exact SameRecovery._setRouter d r

/-- Two functions of the recovery manager move the time at which recovery is active, and
nothing else does. -/
inductive RecoveryEffect (ctx : Context Byte) (router : GovernanceRouter Byte) :
    Call Byte → GovernanceRouter Byte → Prop
  | initiate : RecoveryEffect ctx router .initiateRecoveryTimelock
      { router with recoveryActiveAt := ctx.timestamp + router.recoveryTimelock }
  | exit : RecoveryEffect ctx router .exitRecovery { router with recoveryActiveAt := 0 }
  | other {call : Call Byte} {router' : GovernanceRouter Byte}
      (hexit : call ≠ .exitRecovery) (hsame : SameRecovery router router') :
      RecoveryEffect ctx router call router'

theorem Effect.recovery (h : Effect ctx router call router' sent)
    (hinitialized : router.initialized = true) : RecoveryEffect ctx router call router' := by
  cases h with
  | init hnew => exact absurd (hinitialized.symm.trans hnew) (by decide)
  | handleAction _ _ happly => exact .other nofun (SameRecovery.apply happly)
  | setRouter => exact .other nofun (SameRecovery._setRouter _ _)
  | setRouterLocal => exact .other nofun (SameRecovery._setRouter _ _)
  | initiateRecoveryTimelock => exact .initiate
  | exitRecovery => exact .exit
  | _ => exact .other nofun ⟨rfl, rfl, rfl⟩

theorem Effect.keeps (h : Effect ctx router call router' sent)
    (hinitialized : router.initialized = true) :
    router'.initialized = true ∧ router'.recoveryTimelock = router.recoveryTimelock := by
  cases h.recovery hinitialized with
  | initiate => exact ⟨hinitialized, rfl⟩
  | exit => exact ⟨hinitialized, rfl⟩
  | other _ hsame => exact ⟨hsame.initialized.trans hinitialized, hsame.recoveryTimelock⟩

end Effect

/-! ### The timelock -/

/-- Recovery was initiated a timelock before `t` or earlier, and has not been left since. -/
def Elapsed (history : List (Moment Byte)) (timelock t : ℕ) : Prop :=
  ∃ front m back manager, history = front ++ m :: back ∧
    m.act = .call manager .initiateRecoveryTimelock ∧ m.time + timelock ≤ t ∧
    ∀ m' ∈ back, ∀ sender, m'.act ≠ .call sender .exitRecovery

section Elapsed

variable {history : List (Moment Byte)} {m : Moment Byte} {timelock t t' : ℕ}

omit [DecidableEq Byte] [ByteAlphabet Byte]

theorem Elapsed.mono (h : Elapsed history timelock t) (ht : t ≤ t') :
    Elapsed history timelock t' := by
  obtain ⟨front, m, back, manager, hsplit, hact, htime, hback⟩ := h
  exact ⟨front, m, back, manager, hsplit, hact, htime.trans ht, hback⟩

theorem Elapsed.concat (h : Elapsed history timelock t)
    (hm : ∀ sender, m.act ≠ .call sender .exitRecovery) :
    Elapsed (history ++ [m]) timelock t := by
  obtain ⟨front, m₀, back, manager, hsplit, hact, htime, hback⟩ := h
  refine ⟨front, m₀, back ++ [m], manager, by simp [hsplit], hact, htime, ?_⟩
  intro m' hm'
  rcases List.mem_append.mp hm' with hold | hnew
  · exact hback m' hold
  · exact List.mem_singleton.mp hnew ▸ hm

theorem elapsed_concat_initiate {manager : Address Byte}
    (hm : m.act = .call manager .initiateRecoveryTimelock) :
    Elapsed (history ++ [m]) timelock (m.time + timelock) :=
  ⟨history, m, [], manager, rfl, hm, le_rfl, fun _ h => absurd h List.not_mem_nil⟩

end Elapsed

/-- A call was made by somebody who had the power to make it: the governor while recovery
is not active, or, for the functions of this chain, the recovery manager a timelock after
recovery was initiated. -/
def Authorized (history : List (Moment Byte)) (m : Moment Byte) : Prop :=
  match m.act with
  | .call sender (.callLocal _) | .call sender (.setRouterLocal _ _)
  | .call sender (.setXAppConnectionManager _) =>
    (sender = m.before.governor ∧ m.before.inRecovery m.time = false) ∨
      (sender = m.before.recoveryManager ∧ Elapsed history m.before.recoveryTimelock m.time)
  | .call sender (.callRemote _ _) | .call sender (.setRouter _ _)
  | .call sender (.transferGovernor _ _) =>
    sender = m.before.governor ∧ m.before.inRecovery m.time = false
  | _ => True

/-- What the history says of the router. -/
structure Recovering (s : Chain Byte) : Prop where
  initialized : s.router.initialized = true
  active : s.router.recoveryActiveAt ≠ 0 →
    Elapsed s.history s.router.recoveryTimelock s.router.recoveryActiveAt
  authorized : Log.Grounded Authorized s.history

section Authorized

variable {ctx : Context Byte} {router router' : GovernanceRouter Byte} {call : Call Byte}
  {sent : List (Dispatch Byte)} {history : List (Moment Byte)} {s t : Chain Byte}
  {label : Label Byte}

omit [DecidableEq Byte] [ByteAlphabet Byte] in
theorem inRecovery_eq_true {timestamp : ℕ} :
    router.inRecovery timestamp = true ↔
      router.recoveryActiveAt ≠ 0 ∧ router.recoveryActiveAt ≤ timestamp := by
  rw [inRecovery, decide_eq_true_iff]

omit [DecidableEq Byte] [ByteAlphabet Byte] in
theorem InCharge.authorized (h : InCharge ctx router)
    (hactive : router.recoveryActiveAt ≠ 0 →
      Elapsed history router.recoveryTimelock router.recoveryActiveAt) :
    (ctx.sender = router.governor ∧ router.inRecovery ctx.timestamp = false) ∨
      (ctx.sender = router.recoveryManager ∧
        Elapsed history router.recoveryTimelock ctx.timestamp) := by
  unfold InCharge at h
  cases hrecovery : router.inRecovery ctx.timestamp with
  | false =>
    rw [if_neg (by simp [hrecovery])] at h
    exact .inl ⟨h, rfl⟩
  | true =>
    rw [if_pos hrecovery] at h
    obtain ⟨hne, hle⟩ := inRecovery_eq_true.mp hrecovery
    -- the word is not 0 and not in the future, so the timelock has run out
    exact .inr ⟨h, (hactive hne).mono hle⟩

theorem Effect.authorized (h : Effect ctx router call router' sent)
    (hactive : router.recoveryActiveAt ≠ 0 →
      Elapsed history router.recoveryTimelock router.recoveryActiveAt) :
    Authorized history ⟨ctx.timestamp, router, .call ctx.sender call, router', sent⟩ := by
  cases h with
  | callLocal hcharge => exact hcharge.authorized hactive
  | setRouterLocal hcharge => exact hcharge.authorized hactive
  | setXAppConnectionManager hcharge => exact hcharge.authorized hactive
  | callRemote hgoverns => exact hgoverns
  | transferGovernor hgoverns => exact hgoverns
  | setRouter hgoverns => exact hgoverns
  | _ => trivial

/-- What the word of storage stands for after a call. -/
theorem Effect.elapsed (h : Effect ctx router call router' sent)
    (hinitialized : router.initialized = true)
    (hactive : router.recoveryActiveAt ≠ 0 →
      Elapsed history router.recoveryTimelock router.recoveryActiveAt)
    (hne : router'.recoveryActiveAt ≠ 0) :
    Elapsed (history ++ [⟨ctx.timestamp, router, .call ctx.sender call, router', sent⟩])
      router'.recoveryTimelock router'.recoveryActiveAt := by
  cases h.recovery hinitialized with
  -- a new word stands for this very call
  | initiate => exact elapsed_concat_initiate rfl
  | exit => exact absurd rfl hne
  | other hexit hsame =>
    rw [hsame.recoveryActiveAt] at hne ⊢
    rw [hsame.recoveryTimelock]
    -- an old one goes on standing for what it stood for, as long as recovery is not left
    refine (hactive hne).concat fun sender heq => hexit ?_
    injection heq

theorem Recovering.step (h : Recovering s) (hstep : Step s label t) : Recovering t := by
  cases hstep with
  | wait => exact ⟨h.initialized, h.active, h.authorized⟩
  | enter _ hnow hexec =>
    have heffect := effect_of_exec hexec
    rw [Chain.enter, ← hnow]
    constructor
    case initialized => exact (heffect.keeps h.initialized).1
    case active => exact heffect.elapsed h.initialized h.active
    case authorized => exact h.authorized.concat (heffect.authorized h.active)
  -- calling a contract is no call of the router
  | perform =>
    constructor
    case initialized => exact h.initialized
    case active => exact fun hne => (h.active hne).concat fun _ => nofun
    case authorized => exact h.authorized.concat trivial
  | resume => exact ⟨h.initialized, h.active, h.authorized⟩
  | leave => exact ⟨h.initialized, h.active, h.authorized⟩

theorem init_eq_ok {localDomain : UInt32} {recoveryTimelock : ℕ}
    {manager recoveryManager : Address Byte}
    (h : GovernanceRouter.init ctx manager recoveryManager (deploy localDomain recoveryTimelock) =
      .ok (router', sent)) :
    router' = { deploy localDomain recoveryTimelock with
      initialized := true
      recoveryManager := recoveryManager
      governor := ctx.sender
      governorDomain := localDomain
      xAppConnectionManager := manager } := by
  simp only [GovernanceRouter.init, require_bind_eq_ok] at h
  obtain ⟨-, h⟩ := h
  obtain ⟨router₁, htransfer, h⟩ := bind_eq_ok.mp h
  obtain rfl := Except.ok.inj htransfer
  obtain ⟨router₂, hmanager, h⟩ := bind_eq_ok.mp h
  obtain ⟨_, -, hmanager⟩ := bind_eq_ok.mp hmanager
  obtain rfl := Except.ok.inj hmanager
  obtain ⟨-, h⟩ := require_bind_eq_ok.mp h
  exact (Prod.mk.inj (Except.ok.inj h)).1.symm

theorem recovering_init (h : Initial s) : Recovering s := by
  obtain ⟨ctx, localDomain, recoveryTimelock, manager, recoveryManager, hinit⟩ := h.deployed
  have hrouter := init_eq_ok hinit
  constructor
  case initialized => rw [hrouter]
  case active => exact fun hne => absurd (by rw [hrouter]; rfl) hne
  case authorized => rw [h.history]; exact .nil

/-! ### A sample router

Account 11 governs domain 1, and account 12 manages recovery with a timelock of 10. -/

def sampleAccount (n : UInt8) : Address UInt8 := List.Vector.replicate 20 n

def sampleRouter (n : UInt8) : Bytes32 UInt8 := List.Vector.replicate 32 n

def sampleContext (account : UInt8) (timestamp : ℕ) : Context UInt8 where
  sender := sampleAccount account
  timestamp := timestamp
  isReplica _ := true
  homeAccepts _ _ := true
  managerDomain _ := 1
  call _ _ := none

def sampleChain : Chain UInt8 where
  router := { deploy 1 10 with
    initialized := true
    recoveryManager := sampleAccount 12
    governor := sampleAccount 11
    governorDomain := 1
    xAppConnectionManager := sampleAccount 13 }
  now := 1
  frames := []
  history := []

theorem initial_sampleChain : Initial sampleChain where
  deployed := ⟨sampleContext 11 1, 1, 10, sampleAccount 13, sampleAccount 12, rfl⟩
  now := one_pos
  frames := rfl
  history := rfl

/-- A call of a function that calls no contracts. -/
def sampleCall (account : UInt8) (timestamp : ℕ) (call : Call UInt8) : List (Label UInt8) :=
  [.enter (sampleContext account timestamp) call, .leave]

/-- **Recovery powers need the full timelock.** In every run every call that reaches past
its checks, in the middle of a transaction or not, is made by somebody who has the power
to make it. -/
theorem recovery_powers_need_timelock {s : Chain Byte × List (Chain Byte)}
    (h : transactions.Reachable s) : Log.Grounded Authorized s.1.history :=
  (h.invariant_of_withSavepoints (fun _ => recovering_init)
    fun _ _ _ _ hs hstep => hs.step (step_iff.mp hstep)).authorized

/-- The recovery manager enters a router at time 11, and the governor at time 20. -/
theorem recovery_powers_need_timelock_sample :
    ∃ s : Chain UInt8 × List (Chain UInt8), transactions.Reachable s ∧
      s.1.history.map Moment.time = [1, 11, 12, 20] ∧ s.1.router.routers 5 = sampleRouter 5 ∧
      s.1.router.routers 6 = sampleRouter 6 ∧ Log.Grounded Authorized s.1.history := by
  obtain ⟨s, hrun, hfacts⟩ := System.exists_run_of_any (S := chain) Label.exec sampleChain
    (sampleCall 12 1 .initiateRecoveryTimelock ++ [.wait 11] ++
      sampleCall 12 11 (.setRouterLocal 5 (sampleRouter 5)) ++ [.wait 12] ++
      sampleCall 12 12 .exitRecovery ++ [.wait 20] ++
      sampleCall 11 20 (.setRouterLocal 6 (sampleRouter 6)))
    (fun s => s.history.map Moment.time = [1, 11, 12, 20] ∧
      s.router.routers 5 = sampleRouter 5 ∧ s.router.routers 6 = sampleRouter 6)
    (fun _ _ _ => id) (by decide +kernel)
  obtain ⟨htimes, hfive, hsix⟩ := of_decide_eq_true hfacts
  have hreach : transactions.Reachable ((s, []) : Chain UInt8 × List (Chain UInt8)) :=
    ((System.reachable_init initial_sampleChain).run hrun).withSavepoints
  exact ⟨(s, []), hreach, htimes, hfive, hsix, recovery_powers_need_timelock hreach⟩

end Authorized

/-! ### The governor during recovery -/

/-- What the governor decides about, as it was. -/
structure SameGovernance (router router' : GovernanceRouter Byte) : Prop where
  governor : router'.governor = router.governor
  governorDomain : router'.governorDomain = router.governorDomain
  routers : router'.routers = router.routers
  domains : router'.domains = router.domains
  xAppConnectionManager : router'.xAppConnectionManager = router.xAppConnectionManager

/-- While recovery is active contracts are called for the recovery manager only, and only
its calls change what the governor decides about. -/
def LockedOut (m : Moment Byte) : Prop :=
  m.before.inRecovery m.time = true →
    match m.act with
    | .call sender _ => sender = m.before.recoveryManager ∨ SameGovernance m.before m.after
    | .perform authority _ => authority = .recoveryManager

/-- `handle` finds one of its three types in a message. -/
def Understood (message : List Byte) : Prop :=
  GovernanceMessage.isValidCall (View.ref message 0) = .ok true ∨
    GovernanceMessage.isValidTransferGovernor (View.ref message 0) = .ok true ∨
    GovernanceMessage.isValidSetRouter (View.ref message 0) = .ok true

/-- No calls of contracts for the governor are still to come. -/
def Quiescent (s : Chain Byte) : Prop := ∀ f ∈ s.frames, f.authority = .governor → f.pending = []

/-- While recovery is active no message of the governor arrives, and recovery does not
become active at once amid the governor's calls. -/
def Shielded (s : Chain Byte) : Label Byte → Prop
  | .enter ctx (.handle origin sender message) =>
    s.router.inRecovery s.now = true → FromGovernor ctx origin sender s.router →
      ¬ Understood message
  | .enter _ .initiateRecoveryTimelock => s.router.recoveryTimelock = 0 → Quiescent s
  | _ => True

section LockedOut

variable {ctx : Context Byte} {router router' : GovernanceRouter Byte} {call : Call Byte}
  {sent : List (Dispatch Byte)} {s t : Chain Byte} {label : Label Byte}

/-- The invariant of a router whose recovery is shielded. -/
structure Locked (s : Chain Byte) : Prop where
  initialized : s.router.initialized = true
  quiescent : s.router.inRecovery s.now = true → Quiescent s
  locked : ∀ m ∈ s.history, LockedOut m

omit [DecidableEq Byte] [ByteAlphabet Byte] in
theorem SameGovernance.refl (router : GovernanceRouter Byte) : SameGovernance router router :=
  ⟨rfl, rfl, rfl, rfl, rfl⟩

omit [DecidableEq Byte] [ByteAlphabet Byte] in
theorem InCharge.recoveryManager (h : InCharge ctx router)
    (hrecovery : router.inRecovery ctx.timestamp = true) : ctx.sender = router.recoveryManager := by
  rwa [InCharge, if_pos hrecovery] at h

/-- No message of the governor is handled. -/
def Unheard (ctx : Context Byte) (router : GovernanceRouter Byte) (call : Call Byte) : Prop :=
  ∀ origin sender message, call = .handle origin sender message →
    FromGovernor ctx origin sender router → ¬ Understood message

omit [DecidableEq Byte] in
theorem understood_of_isValidAction {a : GovernanceMessage.Action Byte} {message : List Byte}
    (h : GovernanceMessage.isValidAction a.type (View.ref message 0) = .ok true) :
    Understood message := by
  cases a with
  | transferGovernor => exact .inr (.inl h)
  | setRouter => exact .inr (.inr h)

/-- A call that is entered while recovery is active is made by the recovery manager, or
changes nothing. -/
theorem Effect.lockedOut (h : Effect ctx router call router' sent)
    (hinitialized : router.initialized = true)
    (hrecovery : router.inRecovery ctx.timestamp = true) (hunheard : Unheard ctx router call) :
    ctx.sender = router.recoveryManager ∨ SameGovernance router router' := by
  -- The governor's own functions are closed.
  have hclosed : ¬ Governs ctx router := fun hgoverns =>
    Bool.false_ne_true (hgoverns.2.symm.trans hrecovery)
  cases h with
  | init hnew => exact absurd (hinitialized.symm.trans hnew) (by decide)
  | handleCall => exact .inr (.refl _)
  | @handleAction origin sender message a _ hgovernor hvalid happly =>
    exact absurd (understood_of_isValidAction hvalid)
      (hunheard origin sender message rfl hgovernor)
  | callLocal => exact .inr (.refl _)
  | callRemote hgoverns => exact absurd hgoverns hclosed
  | transferGovernor hgoverns => exact absurd hgoverns hclosed
  | transferRecoveryManager hmanager => exact .inl hmanager
  | setRouter hgoverns => exact absurd hgoverns hclosed
  | setRouterLocal hcharge => exact .inl (hcharge.recoveryManager hrecovery)
  | setXAppConnectionManager hcharge => exact .inl (hcharge.recoveryManager hrecovery)
  | initiateRecoveryTimelock hmanager => exact .inl hmanager
  | exitRecovery hmanager => exact .inl hmanager

/-- A call that is entered while recovery is active calls no contracts for the governor. -/
theorem Effect.calls_eq_nil (h : Effect ctx router call router' sent)
    (hrecovery : router.inRecovery ctx.timestamp = true) (hunheard : Unheard ctx router call)
    {calls : List (GovernanceMessage.Call Byte)} (hcalls : call.calls = .ok calls)
    (hauthority : call.authority ctx.timestamp router = .governor) : calls = [] := by
  cases h with
  | @handleCall origin sender message hgovernor hvalid =>
    exact absurd (.inl hvalid) (hunheard origin sender message rfl hgovernor)
  | @handleAction origin sender message a _ hgovernor hvalid =>
    exact absurd (understood_of_isValidAction hvalid)
      (hunheard origin sender message rfl hgovernor)
  | callLocal =>
    rw [Call.authority, if_pos hrecovery] at hauthority
    cases hauthority
  | _ => exact (Except.ok.inj hcalls).symm

/-- Recovery becomes active during a call only if it is initiated without a timelock. -/
theorem Effect.initiates (h : Effect ctx router call router' sent)
    (hinitialized : router.initialized = true)
    (hbefore : router.inRecovery ctx.timestamp = false)
    (hafter : router'.inRecovery ctx.timestamp = true) :
    call = .initiateRecoveryTimelock ∧ router.recoveryTimelock = 0 := by
  obtain ⟨hne, hle⟩ := inRecovery_eq_true.mp hafter
  cases h.recovery hinitialized with
  | initiate =>
    refine ⟨rfl, ?_⟩
    have htime : ctx.timestamp + router.recoveryTimelock ≤ ctx.timestamp := hle
    omega
  | exit => exact absurd rfl hne
  | other _ hsame =>
    rw [hsame.recoveryActiveAt] at hne hle
    exact absurd (inRecovery_eq_true.mpr ⟨hne, hle⟩) (Bool.eq_false_iff.mp hbefore)

theorem Locked.enter (h : Locked s) {calls : List (GovernanceMessage.Call Byte)}
    (hshielded : Shielded s (.enter ctx call)) (hnow : ctx.timestamp = s.now)
    (heffect : Effect ctx s.router call router' sent) (hcalls : call.calls = .ok calls) :
    Locked (s.enter ctx.sender call calls router' sent) := by
  have hunheard : s.router.inRecovery ctx.timestamp = true → Unheard ctx s.router call := by
    rintro hrecovery origin sender message rfl
    exact hshielded (hnow ▸ hrecovery)
  constructor
  case initialized => exact (heffect.keeps h.initialized).1
  case quiescent =>
    rw [Chain.enter, ← hnow]
    intro hafter f hf
    cases hbefore : s.router.inRecovery ctx.timestamp with
    | true =>
      rcases List.mem_cons.mp hf with rfl | hf
      · exact heffect.calls_eq_nil hbefore (hunheard hbefore) hcalls
      · exact h.quiescent (hnow ▸ hbefore) f hf
    | false =>
      -- Recovery becomes active right here, while the governor has nothing left to do.
      obtain ⟨rfl, htimelock⟩ := heffect.initiates h.initialized hbefore hafter
      rcases List.mem_cons.mp hf with rfl | hf
      · exact fun _ => (Except.ok.inj hcalls).symm
      · exact hshielded htimelock f hf
  case locked =>
    rw [Chain.enter, ← hnow]
    intro m hm
    rcases List.mem_append.mp hm with hold | hnew
    · exact h.locked m hold
    · obtain rfl := List.mem_singleton.mp hnew
      exact fun hrecovery => heffect.lockedOut h.initialized hrecovery (hunheard hrecovery)

omit [DecidableEq Byte] [ByteAlphabet Byte] in
theorem Locked.perform (h : Locked s) {authority : Authority} {call : GovernanceMessage.Call Byte}
    {pending : List (GovernanceMessage.Call Byte)} {frames : List (Frame Byte)}
    (hframes : s.frames = ⟨authority, call :: pending, false⟩ :: frames) :
    Locked (s.perform authority call pending frames) := by
  have hopen : (⟨authority, call :: pending, false⟩ : Frame Byte) ∈ s.frames := by
    rw [hframes]
    exact List.mem_cons_self
  -- An open call with a contract to call is not the governor's.
  have hmanager : s.router.inRecovery s.now = true → authority = .recoveryManager := by
    intro hrecovery
    cases authority with
    | governor => exact absurd (h.quiescent hrecovery _ hopen rfl) (List.cons_ne_nil _ _)
    | recoveryManager => rfl
  constructor
  case initialized => exact h.initialized
  case quiescent =>
    intro hrecovery f hf hauthority
    rcases List.mem_cons.mp hf with rfl | hf
    · exact absurd (hauthority.symm.trans (hmanager hrecovery)) nofun
    · exact h.quiescent hrecovery f (hframes ▸ List.mem_cons_of_mem _ hf) hauthority
  case locked =>
    intro m hm
    rcases List.mem_append.mp hm with hold | hnew
    · exact h.locked m hold
    · obtain rfl := List.mem_singleton.mp hnew
      exact hmanager

theorem Locked.step (h : Locked s) (hstep : Step s label t) (hshielded : Shielded s label) :
    Locked t := by
  cases hstep with
  | wait hframes =>
    refine ⟨h.initialized, fun _ f hf => ?_, h.locked⟩
    exact absurd (hframes ▸ hf) List.not_mem_nil
  | enter _ hnow hexec hcalls => exact h.enter hshielded hnow (effect_of_exec hexec) hcalls
  | perform hframes => exact h.perform hframes
  | @resume authority pending frames hframes =>
    refine ⟨h.initialized, fun hrecovery f hf => ?_, h.locked⟩
    have hold := h.quiescent hrecovery
    rw [Quiescent, hframes] at hold
    rcases List.mem_cons.mp hf with rfl | hf
    · exact hold ⟨authority, pending, true⟩ List.mem_cons_self
    · exact hold f (List.mem_cons_of_mem _ hf)
  | leave hframes =>
    refine ⟨h.initialized, fun hrecovery f hf => ?_, h.locked⟩
    exact h.quiescent hrecovery f (hframes ▸ List.mem_cons_of_mem _ hf)

theorem locked_init (h : Initial s) : Locked s where
  initialized := (recovering_init h).initialized
  quiescent _ f hf := absurd (h.frames ▸ hf) List.not_mem_nil
  locked := by
    rw [h.history]
    exact fun _ hm => absurd hm List.not_mem_nil

/-- **A shielded recovery locks the governor out.** If no message of the governor arrives
while recovery is active, and recovery does not become active amid the governor's calls,
then nothing is called for the governor during recovery, and only the recovery manager's
calls change what the governor decides about. -/
theorem governor_locked_out {s : Chain Byte × List (Chain Byte)}
    (h : ((chain.restrict Shielded).withSavepoints Label.Outer).Reachable s) :
    ∀ m ∈ s.1.history, LockedOut m :=
  (h.invariant_of_withSavepoints (P := Locked) (fun _ => locked_init)
    fun _ _ _ _ hs hstep => hs.step (step_iff.mp hstep.1) hstep.2).locked

/-- The governor of domain 2 enters a router for domain 3 while recovery is active. -/
theorem not_governor_locked_out :
    ¬ ∀ s : Chain UInt8 × List (Chain UInt8), transactions.Reachable s →
      ∀ m ∈ s.1.history, LockedOut m := by
  intro h
  obtain ⟨s, hrun, hfacts⟩ := System.exists_run_of_any (S := chain) Label.exec sampleChain
    (sampleCall 11 1 (.setRouterLocal 2 (sampleRouter 2)) ++
      sampleCall 11 1 (.transferGovernor 2 (sampleAccount 21)) ++
      sampleCall 12 1 .initiateRecoveryTimelock ++ [.wait 11] ++
      sampleCall 14 11 (.handle 2 (sampleRouter 2)
        (GovernanceMessage.Action.setRouter 3 (sampleRouter 3)).bytes))
    (fun s => s.history.any fun m => m.before.inRecovery m.time &&
      (match m.act with
        | .call sender _ => sender ≠ m.before.recoveryManager
        | .perform _ _ => false) &&
      decide (m.after.routers 3 ≠ m.before.routers 3))
    (fun _ _ _ => id) (by decide +kernel)
  obtain ⟨m, hm, hfacts⟩ := List.any_eq_true.mp hfacts
  have hreach : transactions.Reachable ((s, []) : Chain UInt8 × List (Chain UInt8)) :=
    ((System.reachable_init initial_sampleChain).run hrun).withSavepoints
  have hlocked := h (s, []) hreach m hm
  rw [Bool.and_eq_true_iff, Bool.and_eq_true_iff] at hfacts
  obtain ⟨⟨hrecovery, hsender⟩, hrouters⟩ := hfacts
  have hlocked := hlocked hrecovery
  cases hact : m.act with
  | call sender call =>
    simp only [hact] at hlocked hsender
    rcases hlocked with hmanager | hsame
    · exact of_decide_eq_true hsender hmanager
    · exact of_decide_eq_true hrouters (congrFun hsame.routers 3)
  | perform authority call =>
    simp only [hact] at hsender
    exact Bool.false_ne_true hsender

/-- A check of a step that leaves recovery shielded while there is a timelock. -/
def sampleShielded (s : Chain UInt8) : Label UInt8 → Bool
  | .enter _ (.handle _ _ _) => ¬ s.router.inRecovery s.now
  | .enter _ .initiateRecoveryTimelock => s.router.recoveryTimelock ≠ 0
  | _ => true

theorem shielded_of_sample {s : Chain UInt8} {label : Label UInt8}
    (h : sampleShielded s label = true) : Shielded s label := by
  unfold sampleShielded at h
  split at h
  · exact fun hrecovery => absurd hrecovery (of_decide_eq_true h)
  · exact fun htimelock => absurd htimelock (of_decide_eq_true h)
  · rename_i hhandle hinitiate
    cases label with
    | enter ctx call =>
      cases call with
      | handle origin sender message => exact absurd rfl (hhandle ctx origin sender message)
      | initiateRecoveryTimelock => exact absurd rfl (hinitiate ctx)
      | _ => trivial
    | _ => trivial

/-- The governor of domain 2 is heard before recovery, and the recovery manager calls a
contract during it. -/
theorem governor_locked_out_sample :
    ∃ s : Chain UInt8 × List (Chain UInt8),
      ((chain.restrict Shielded).withSavepoints Label.Outer).Reachable s ∧
      s.1.history.map Moment.time = [1, 1, 1, 2, 11, 11, 11] ∧ s.1.router.routers 3 ≠ 0 ∧
      s.1.router.routers 4 ≠ 0 ∧ ∀ m ∈ s.1.history, LockedOut m := by
  obtain ⟨s, hrun, hfacts⟩ := System.exists_run_of_any (S := chain.restrict Shielded)
    (fun label s => if sampleShielded s label then label.exec s else none) sampleChain
    (sampleCall 11 1 (.setRouterLocal 2 (sampleRouter 2)) ++
      sampleCall 11 1 (.transferGovernor 2 (sampleAccount 21)) ++
      sampleCall 12 1 .initiateRecoveryTimelock ++ [.wait 2] ++
      sampleCall 14 2 (.handle 2 (sampleRouter 2)
        (GovernanceMessage.Action.setRouter 3 (sampleRouter 3)).bytes) ++ [.wait 11] ++
      [.enter (sampleContext 12 11) (.callLocal [⟨sampleRouter 9, []⟩]), .perform] ++
      sampleCall 12 11 (.setRouterLocal 4 (sampleRouter 4)) ++ [.resume, .leave])
    (fun s => s.history.map Moment.time = [1, 1, 1, 2, 11, 11, 11] ∧
      s.router.routers 3 ≠ 0 ∧ s.router.routers 4 ≠ 0)
    (fun s label t h => by
      obtain ⟨hshielded, h⟩ := Option.ite_none_right_eq_some.mp h
      exact ⟨h, shielded_of_sample hshielded⟩)
    (by decide +kernel)
  obtain ⟨htimes, hthree, hfour⟩ := of_decide_eq_true hfacts
  have hreach : ((chain.restrict Shielded).withSavepoints Label.Outer).Reachable (s, []) :=
    ((System.reachable_init initial_sampleChain).run hrun).withSavepoints
  exact ⟨(s, []), hreach, htimes, hthree, hfour, governor_locked_out hreach⟩

end LockedOut

end Optics.GovernanceRouter
