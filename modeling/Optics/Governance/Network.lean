/-
# GovernanceRouters of any number of domains

Every member domain has one GovernanceRouter at a fixed address. A message that a
router dispatches travels to its destination, in any order and at most once, and is
gone after it has been handled, whether or not `handle` reverts. Between deliveries
anybody may call the routers.

The rules of the system are the assumptions under which governance is considered: a
router is entered into a table under its own domain only, arbitrary calls are not
made, and Replicas deliver the messages of routers only as they were dispatched.
-/

import Mathlib.Logic.Function.Basic
import Optics.Governance.RouterEffects
import Optics.Math.Transition

namespace Optics.Governance

open Optics.Solidity Optics.Math.Transition
open Optics.GovernanceMessage (Action)

variable {Byte : Type}

/-- A dispatched message on its way. -/
structure Transit (Byte : Type) extends GovernanceRouter.Dispatch Byte where
  origin : UInt32
  sender : Bytes32 Byte

/-- The routers of the domains, and the messages in flight in the order in which they
were dispatched. -/
structure Network (Byte : Type) where
  routers : UInt32 → GovernanceRouter Byte
  inFlight : List (Transit Byte)

/-- One step of the network. A message to a domain without a router leaves the
network. -/
inductive Label (Byte : Type)
  | call (domain : UInt32) (ctx : GovernanceRouter.Context Byte) (call : GovernanceRouter.Call Byte)
  | deliver (ctx : GovernanceRouter.Context Byte) (before : List (Transit Byte))
      (message : Transit Byte)
  | leave (message : Transit Byte)

variable [DecidableEq Byte] [ByteAlphabet Byte] (members : Finset UInt32)
  (address : UInt32 → Address Byte)

namespace Network

/-- The network after a router has changed and dispatched messages. -/
def commit (s : Network Byte) (domain : UInt32) (inFlight : List (Transit Byte))
    (result : GovernanceRouter Byte × List (GovernanceRouter.Dispatch Byte)) : Network Byte where
  routers := Function.update s.routers domain result.1
  inFlight := inFlight ++ result.2.map fun m => ⟨m, domain, addressToBytes32 (address domain)⟩

omit [DecidableEq Byte] in
@[simp] theorem commit_routers (s : Network Byte) (domain : UInt32)
    (inFlight : List (Transit Byte))
    (result : GovernanceRouter Byte × List (GovernanceRouter.Dispatch Byte)) :
    (s.commit address domain inFlight result).routers =
      Function.update s.routers domain result.1 := rfl

omit [DecidableEq Byte] in
@[simp] theorem commit_inFlight (s : Network Byte) (domain : UInt32)
    (inFlight : List (Transit Byte))
    (result : GovernanceRouter Byte × List (GovernanceRouter.Dispatch Byte)) :
    (s.commit address domain inFlight result).inFlight = inFlight ++
      result.2.map fun m => ⟨m, domain, addressToBytes32 (address domain)⟩ := rfl

omit [DecidableEq Byte] in
/-- After a step of one router, each router is that one or as it was. -/
theorem forall_commit {members : Finset UInt32} {s : Network Byte} {domain : UInt32}
    {inFlight : List (Transit Byte)}
    {result : GovernanceRouter Byte × List (GovernanceRouter.Dispatch Byte)}
    {P : UInt32 → GovernanceRouter Byte → Prop} (hself : P domain result.1)
    (hothers : ∀ d ∈ members, d ≠ domain → P d (s.routers d)) :
    ∀ d ∈ members, P d ((s.commit address domain inFlight result).routers d) := by
  apply (Function.forall_update_iff s.routers fun d router => d ∈ members → P d router).mpr
  exact ⟨fun _ => hself, fun d hne hd => hothers d hd hne⟩

/-- A transaction that calls the router of a domain. -/
def callRouter (domain : UInt32) (ctx : GovernanceRouter.Context Byte)
    (call : GovernanceRouter.Call Byte) (s : Network Byte) : Except Revert (Network Byte) := do
  let result ← GovernanceRouter.exec ctx call (s.routers domain)
  .ok (s.commit address domain s.inFlight result)

/-- Delivering a message consumes it, whether `handle` reverts or not. -/
def deliver (ctx : GovernanceRouter.Context Byte) (m : Transit Byte) (rest : List (Transit Byte))
    (s : Network Byte) : Network Byte :=
  match GovernanceRouter.handle ctx m.origin m.sender m.body (s.routers m.destination) with
  | .ok result => s.commit address m.destination rest result
  | .error _ => { s with inFlight := rest }

end Network

/-- The GovernanceRouter of a domain as it is entered into tables. -/
def trueRouter (domain : UInt32) : Bytes32 Byte := addressToBytes32 (address domain)

/-- The calls considered. A router of a member is set to the true one or removed;
`handle` outside a delivery is not called by a Replica, or is called with a message
that neither the router of a member nor the registered router of another domain has
sent; arbitrary calls are left out. -/
def Allowed (router : GovernanceRouter Byte) (ctx : GovernanceRouter.Context Byte) :
    GovernanceRouter.Call Byte → Prop
  | .setRouter domain r | .setRouterLocal domain r =>
    domain ∈ members → r = trueRouter address domain ∨ r = 0
  | .handle origin sender _ => ctx.isReplica router.xAppConnectionManager → sender ≠ 0 ∧
      sender ≠ if origin ∈ members then trueRouter address origin else router.routers origin
  | .callLocal .. | .callRemote .. => False
  | _ => True

/-- The steps of the network. No transaction is sent by the zero address, and a call
that reverts changes nothing. -/
inductive Step (s : Network Byte) : Label Byte → Network Byte → Prop
  | call (domain : UInt32) (ctx : GovernanceRouter.Context Byte)
      (call : GovernanceRouter.Call Byte) (s' : Network Byte) (hdomain : domain ∈ members)
      (hsender : ctx.sender ≠ 0) (hallowed : Allowed members address (s.routers domain) ctx call)
      (hstep : callStep (fun _ => Network.callRouter address domain ctx call) s () s') :
      Step s (.call domain ctx call) s'
  | deliver (ctx : GovernanceRouter.Context Byte) (m : Transit Byte)
      (before after : List (Transit Byte)) (hdomain : m.destination ∈ members)
      (hrecipient : m.recipient = trueRouter address m.destination)
      (hinFlight : s.inFlight = before ++ m :: after) :
      Step s (.deliver ctx before m) (s.deliver address ctx m (before ++ after))
  | leave (m : Transit Byte) (before after : List (Transit Byte))
      (hdomain : m.destination ∉ members) (hinFlight : s.inFlight = before ++ m :: after) :
      Step s (.leave m) { s with inFlight := before ++ after }

/-- A GovernanceRouter before the run: initialized, with a table built up by
`_setRouter` that maps the domains of members to their true routers only. -/
structure Router.Initial (domain : UInt32) (router : GovernanceRouter Byte) : Prop where
  localDomain : router.localDomain = domain
  initialized : router.initialized = true
  listed : router.Listed
  routers : ∀ d ∈ members, router.routers d = trueRouter address d ∨ router.routers d = 0

/-- The routers before the run. They take the same domain for the governor's, and the
router of that domain alone has a governor. -/
structure Initial (s : Network Byte) : Prop where
  router : ∀ d ∈ members, Router.Initial members address d (s.routers d)
  agreed : ∃ governorDomain ∈ members, ∀ d ∈ members,
    (s.routers d).governorDomain = governorDomain ∧
      ((s.routers d).governor ≠ 0 ↔ d = governorDomain)
  inFlight : s.inFlight = []

/-- The routers of the member domains as a transition system. -/
def system : System (Network Byte) (Label Byte) where
  init := Initial members address
  step := Step members address

/-! ### Actions in flight -/

/-- The action that a message is for, if there is one. -/
noncomputable def readAction : List Byte → Option (Action Byte) :=
  Function.partialInv Action.bytes

omit [DecidableEq Byte] in
@[simp] theorem readAction_bytes (a : Action Byte) : readAction a.bytes = some a :=
  Function.partialInv_left Action.bytes_injective a

/-! ### Sample runs

Three domains, where the account 11 of domain 1 is the governor at first. -/

section Sample

def sampleMembers : Finset UInt32 := {1, 2, 3}

def sampleAddress (n : UInt32) : Address UInt8 := List.Vector.replicate 20 n.toUInt8

/-- The router of a domain, which has entered the routers of the others. -/
def sampleRouter (domain : UInt32) : GovernanceRouter UInt8 :=
  ([1, 2, 3].filter (· ≠ domain)).foldl
    (fun router e => router._setRouter e (trueRouter sampleAddress e))
    { GovernanceRouter.deploy domain 0 with
      initialized := true
      governor := if domain = 1 then sampleAddress 11 else 0
      governorDomain := 1 }

def sampleStart : Network UInt8 := ⟨sampleRouter, []⟩

def sampleContext (sender : Address UInt8) : GovernanceRouter.Context UInt8 where
  sender := sender
  timestamp := 0
  isReplica _ := true
  homeAccepts _ _ := true
  managerDomain _ := 0
  call _ _ := none

/-- A call by an account, or the way of the message at a position: to its router, or
out of the network. -/
inductive SampleStep
  | call (domain account : UInt32) (call : GovernanceRouter.Call UInt8)
  | deliver (i : ℕ)

namespace SampleStep

/-- The network after a step. -/
def next (s : Network UInt8) : SampleStep → Network UInt8
  | .call domain account c =>
    afterCall (fun _ => Network.callRouter sampleAddress domain
      (sampleContext (sampleAddress account)) c) () s
  | .deliver i =>
    match s.inFlight[i]? with
    | some m =>
      let rest := s.inFlight.take i ++ s.inFlight.drop (i + 1)
      if m.destination ∈ sampleMembers then s.deliver sampleAddress (sampleContext 0) m rest
      else { s with inFlight := rest }
    | none => s

/-- A transfer to a member with a governor, or an allowed change of the table. -/
def governs : GovernanceRouter.Call UInt8 → Bool
  | .transferGovernor d g => d ∈ sampleMembers ∧ g ≠ 0
  | .setRouter d r => d ∈ sampleMembers → r = trueRouter sampleAddress d ∨ r = 0
  | _ => false

/-- The step can be taken: a message to a member is for its router. -/
def valid (s : Network UInt8) : SampleStep → Bool
  | .call domain account c => domain ∈ sampleMembers ∧ sampleAddress account ≠ 0 ∧ governs c
  | .deliver i =>
    match s.inFlight[i]? with
    | some m => m.destination ∈ sampleMembers →
      m.recipient = trueRouter sampleAddress m.destination
    | none => false

/-- The label of a step. -/
def label (s : Network UInt8) : SampleStep → Label UInt8
  | .call domain account c => .call domain (sampleContext (sampleAddress account)) c
  | .deliver i =>
    match s.inFlight[i]? with
    | some m => if m.destination ∈ sampleMembers then
        .deliver (sampleContext 0) (s.inFlight.take i) m else .leave m
    | none => .leave ⟨⟨0, 0, []⟩, 0, 0⟩

theorem label_deliver {s : Network UInt8} {i : ℕ} {m : Transit UInt8}
    (hm : s.inFlight[i]? = some m) : (SampleStep.deliver i).label s =
      if m.destination ∈ sampleMembers then
        .deliver (sampleContext 0) (s.inFlight.take i) m else .leave m := by
  simp only [label, hm]

theorem step_of_valid {s : Network UInt8} {step : SampleStep} (h : step.valid s = true) :
    Step sampleMembers sampleAddress s (step.label s) (step.next s) := by
  cases step with
  | call domain account c =>
    obtain ⟨hdomain, hsender, hcall⟩ := of_decide_eq_true h
    refine Step.call domain _ c _ hdomain hsender ?_ (callStep_afterCall _ _ _)
    cases c with
    | transferGovernor d g => trivial
    | setRouter d r =>
      have hrouter : d ∈ sampleMembers → r = trueRouter sampleAddress d ∨ r = 0 :=
        of_decide_eq_true hcall
      exact hrouter
    | _ => exact absurd hcall Bool.false_ne_true
  | deliver i =>
    simp only [valid] at h
    simp only [label, next]
    cases hm : s.inFlight[i]? with
    | none => simp [hm] at h
    | some m =>
      simp only [hm] at h
      have hrecipient := of_decide_eq_true h
      obtain ⟨hi, rfl⟩ := List.getElem?_eq_some_iff.mp hm
      -- The message at a position divides the ones in flight.
      have hsplit : s.inFlight = s.inFlight.take i ++ s.inFlight[i] :: s.inFlight.drop (i + 1) := by
        rw [List.getElem_cons_drop, List.take_append_drop]
      by_cases hmember : s.inFlight[i].destination ∈ sampleMembers
      · simp only [if_pos hmember]
        exact Step.deliver _ _ _ _ hmember (hrecipient hmember) hsplit
      · simp only [if_neg hmember]
        exact Step.leave _ _ _ hmember hsplit

end SampleStep

/-- The state after a list of steps that are all valid and pass another check. -/
def sampleRun (check : Network UInt8 → SampleStep → Bool) (s : Network UInt8) :
    List SampleStep → Option (Network UInt8)
  | [] => some s
  | step :: rest =>
    if step.valid s && check s step then sampleRun check (step.next s) rest else none

theorem run_of_sampleRun {check : Network UInt8 → SampleStep → Bool}
    {C : Network UInt8 → Label UInt8 → Prop}
    (hcheck : ∀ s step, step.valid s = true → check s step = true → C s (step.label s))
    {s t : Network UInt8} {steps : List SampleStep} (h : sampleRun check s steps = some t) :
    ∃ labels, ((system sampleMembers sampleAddress).restrict C).Run s labels t := by
  induction steps generalizing s with
  | nil =>
    obtain rfl := Option.some.inj h
    exact ⟨[], .refl s⟩
  | cons step rest ih =>
    rw [sampleRun] at h
    split_ifs at h with hstep
    obtain ⟨hvalid, hpass⟩ := Bool.and_eq_true_iff.mp hstep
    obtain ⟨labels, hrun⟩ := ih h
    have hfirst : ((system sampleMembers sampleAddress).restrict C).step s (step.label s)
        (step.next s) := ⟨SampleStep.step_of_valid hvalid, hcheck s step hvalid hpass⟩
    exact ⟨_, (System.Run.single hfirst).trans hrun⟩

/-- A list of steps whose end passes a test is a run whose end does. -/
theorem exists_run_of_any {C : Network UInt8 → Label UInt8 → Prop}
    (check : Network UInt8 → SampleStep → Bool)
    (hcheck : ∀ s step, step.valid s = true → check s step = true → C s (step.label s))
    (s : Network UInt8) (steps : List SampleStep) (P : Network UInt8 → Bool)
    (h : (sampleRun check s steps).any P = true) :
    ∃ labels t, ((system sampleMembers sampleAddress).restrict C).Run s labels t ∧ P t = true := by
  obtain ⟨t, ht, hP⟩ := (Option.any_eq_true _ _).mp h
  obtain ⟨labels, hrun⟩ := run_of_sampleRun hcheck ht
  exact ⟨labels, t, hrun, hP⟩

theorem listed_sampleRouter (domain : UInt32) : (sampleRouter domain).Listed := by
  unfold sampleRouter
  refine List.foldlRecOn (motive := GovernanceRouter.Listed) _ _ ?_ ?_
  · exact GovernanceRouter.listed_deploy domain 0
  · exact fun router hrouter _ _ => hrouter._setRouter

theorem forall_sampleMembers {P : UInt32 → Prop} (h₁ : P 1) (h₂ : P 2) (h₃ : P 3) :
    ∀ d ∈ sampleMembers, P d := by
  intro d hd
  obtain rfl | rfl | rfl : d = 1 ∨ d = 2 ∨ d = 3 := by simpa [sampleMembers] using hd
  · exact h₁
  · exact h₂
  · exact h₃

theorem initial_sampleStart : Initial sampleMembers sampleAddress sampleStart where
  router d hd := by
    have hfields : ∀ d ∈ sampleMembers, (sampleRouter d).localDomain = d ∧
        (sampleRouter d).initialized = true ∧ ∀ e ∈ sampleMembers,
          (sampleRouter d).routers e = trueRouter sampleAddress e ∨
            (sampleRouter d).routers e = 0 := by
      refine forall_sampleMembers ⟨rfl, by decide +kernel, ?_⟩ ⟨rfl, by decide +kernel, ?_⟩
        ⟨rfl, by decide +kernel, ?_⟩
      · exact forall_sampleMembers (by decide +kernel) (by decide +kernel) (by decide +kernel)
      · exact forall_sampleMembers (by decide +kernel) (by decide +kernel) (by decide +kernel)
      · exact forall_sampleMembers (by decide +kernel) (by decide +kernel) (by decide +kernel)
    obtain ⟨hlocalDomain, hinitialized, hrouters⟩ := hfields d hd
    exact ⟨hlocalDomain, hinitialized, listed_sampleRouter d, hrouters⟩
  agreed := ⟨1, by decide, forall_sampleMembers (by decide +kernel) (by decide +kernel)
    (by decide +kernel)⟩
  inFlight := rfl

end Sample

end Optics.Governance
