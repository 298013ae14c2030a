/-
# Replica under re-entrant calls

A transaction is a tree of calls. `process` hands the message to its recipient,
and the recipient may make any calls before it returns or reverts: to the same
Replica, or to the other contracts of the chain, whose state and functions are
parameters. A call that reverts undoes everything below it, and the caller
either catches the revert or reverts as well.

The chain keeps a trace of what was done and not undone, in the order in which
it was done. Each call of a tree is a path of primitive steps, so invariants are
proved one step at a time and never look at trees again.
-/

import Mathlib.Logic.Relation
import Optics.Core.Replica
import Optics.Math.Transition

namespace Optics.Replica

open Optics.Solidity Optics.Common Optics.Math.Transition
open Relation (ReflTransGen)

variable {Byte ω E η : Type}

/-- What is fixed of the chain around a Replica: the functions of the other
contracts, which act on a state and emit events, and the check that a recipient
makes before it accepts the Replica's call. -/
structure Surroundings (Byte ω E η : Type) where
  exec : ω → ℕ → E → Except Revert (E × List η)
  accepts : Address Byte → E → Bool

/-- How one execution of `process` goes: the gas left at its check, whether the
recipient returns after its calls and with what data, and whether the gas lasts
to the end. -/
structure Frame (Byte : Type) where
  gasleft : ℕ
  succeeds : Bool
  returnData : List Byte
  completes : Bool

mutual

/-- A call, with everything that happens inside it: one of the functions of the
Replica, the code of some contract that makes calls itself, or a function of the
other contracts. -/
inductive Call (Byte ω : Type)
  | update (u : SignedUpdate Byte)
  | doubleUpdate (oldRoot newRoot₀ newRoot₁ : Bytes32 Byte) (signature signature₂ : List Byte)
  | prove (leaf : Bytes32 Byte) (proof : ℕ → Bytes32 Byte) (index : ℕ)
  | process (message : List Byte) (frame : Frame Byte) (inner : Calls Byte ω)
  | proveAndProcess (message : List Byte) (proof : ℕ → Bytes32 Byte) (index : ℕ)
      (frame : Frame Byte) (inner : Calls Byte ω)
  | contract (inner : Calls Byte ω) (succeeds : Bool)
  | other (call : ω)

/-- Calls made one after the other, each with its revert caught or not. -/
inductive Calls (Byte ω : Type)
  | nil
  | cons (call : Call Byte ω) (catches : Bool) (rest : Calls Byte ω)

end

mutual

/-- The signatures presented anywhere in a call. -/
def Call.presented : Call Byte ω → List (SignedUpdate Byte)
  | .update u => [u]
  | .doubleUpdate oldRoot newRoot₀ newRoot₁ signature signature₂ =>
    [⟨oldRoot, newRoot₀, signature⟩, ⟨oldRoot, newRoot₁, signature₂⟩]
  | .prove _ _ _ => []
  | .process _ _ inner => inner.presented
  | .proveAndProcess _ _ _ _ inner => inner.presented
  | .contract inner _ => inner.presented
  | .other _ => []

/-- The signatures presented anywhere in a sequence of calls. -/
def Calls.presented : Calls Byte ω → List (SignedUpdate Byte)
  | .nil => []
  | .cons call _ rest => call.presented ++ rest.presented

end

mutual

/-- The arguments of all calls of `update` in a call. -/
def Call.updates : Call Byte ω → List (SignedUpdate Byte)
  | .update u => [u]
  | .process _ _ inner => inner.updates
  | .proveAndProcess _ _ _ _ inner => inner.updates
  | .contract inner _ => inner.updates
  | _ => []

/-- The arguments of all calls of `update` in a sequence of calls. -/
def Calls.updates : Calls Byte ω → List (SignedUpdate Byte)
  | .nil => []
  | .cons call _ rest => call.updates ++ rest.updates

end

mutual

theorem Call.updates_subset_presented (call : Call Byte ω) : call.updates ⊆ call.presented := by
  match call with
  | .update _ => exact List.Subset.refl _
  | .doubleUpdate _ _ _ _ _ => exact List.nil_subset _
  | .prove _ _ _ => exact List.nil_subset _
  | .process _ _ inner => exact Calls.updates_subset_presented inner
  | .proveAndProcess _ _ _ _ inner => exact Calls.updates_subset_presented inner
  | .contract inner _ => exact Calls.updates_subset_presented inner
  | .other _ => exact List.nil_subset _

theorem Calls.updates_subset_presented (calls : Calls Byte ω) :
    calls.updates ⊆ calls.presented := by
  match calls with
  | .nil => exact List.nil_subset _
  | .cons call _ rest =>
    intro u hu
    rcases List.mem_append.mp hu with hcall | hrest
    · exact List.mem_append_left _ (Call.updates_subset_presented call hcall)
    · exact List.mem_append_right _ (Calls.updates_subset_presented rest hrest)

end

/-- What was done. Besides the events, the trace records each write of a message
status with the status before it, each call of a recipient, each recipient that
took the call and did not revert, and the events of the other contracts. -/
inductive Action (Byte η : Type)
  | event (e : Event Byte)
  | proven (leaf root : Bytes32 Byte) (before : MessageStatus)
  | called (message : List Byte) (handle : Handle Byte) (before : MessageStatus)
  | handled (handle : Handle Byte)
  | other (e : η)

/-- A Replica on its chain, with the time of the current block and the trace. -/
structure Chain (Byte E η : Type) where
  replica : Replica Byte
  env : E
  now : ℕ
  trace : List (ℕ × Action Byte η)

/-- The chain after some actions at the current time. -/
def Chain.record (s : Chain Byte E η) (replica : Replica Byte) (actions : List (Action Byte η)) :
    Chain Byte E η :=
  { s with replica := replica, trace := s.trace ++ actions.map fun a => (s.now, a) }

@[simp] theorem Chain.record_nil (s : Chain Byte E η) : s.record s.replica [] = s := by
  simp [Chain.record]

section Exec

variable [ByteAlphabet Byte] [DecidableEq Byte] (K : Crypto Byte) (S : Surroundings Byte ω E η)

/-- `prove` on the chain. -/
def Chain.prove (leaf : Bytes32 Byte) (proof : ℕ → Bytes32 Byte) (index : ℕ) (s : Chain Byte E η) :
    Except Revert (Bool × Chain Byte E η) := do
  let (proven, replica) ← Replica.prove K s.now leaf proof index s.replica
  if proven then
    .ok (true, s.record replica
      [.proven leaf (MerkleLib.branchRoot K leaf proof index) (s.replica.messages leaf)])
  else .ok (false, s)

/-- The call of the recipient. It is undone unless the recipient accepts it,
none of its own calls reverts uncaught, and it returns. -/
def Chain.callRecipient (handle : Handle Byte) (frame : Frame Byte)
    (inner : Chain Byte E η → Except Revert (Chain Byte E η)) (s : Chain Byte E η) :
    Bool × Chain Byte E η :=
  if S.accepts handle.recipient s.env && frame.succeeds then
    match inner (s.record s.replica [.handled handle]) with
    | .ok s' => (true, s')
    | .error _ => (false, s)
  else (false, s)

/-- `process` on the chain. -/
def Chain.process (message : List Byte) (frame : Frame Byte)
    (inner : Chain Byte E η → Except Revert (Chain Byte E η)) (s : Chain Byte E η) :
    Except Revert (Chain Byte E η) := do
  let (handle, replica) ← beginProcess K frame.gasleft message s.replica
  let s := s.record replica [.called message handle (s.replica.messages (K.keccak256 message))]
  let (success, s) := s.callRecipient S handle frame inner
  if frame.completes then
    let (replica, events) := endProcess K message success frame.returnData s.replica
    .ok (s.record replica (events.map .event))
  else .error (.external "out of gas")

mutual

/-- The execution of a call. -/
def Call.exec : Call Byte ω → Chain Byte E η → Except Revert (Chain Byte E η)
  | .update u, s => do
    let (replica, events) ← Replica.update K s.now u.oldRoot u.newRoot u.signature s.replica
    .ok (s.record replica (events.map .event))
  | .doubleUpdate oldRoot newRoot₀ newRoot₁ signature signature₂, s => do
    let (replica, events) ←
      Replica.doubleUpdate K oldRoot newRoot₀ newRoot₁ signature signature₂ s.replica
    .ok (s.record replica (events.map .event))
  | .prove leaf proof index, s => do
    let (_, s) ← s.prove K leaf proof index
    .ok s
  | .process message frame inner, s => s.process K S message frame fun s => inner.exec s
  | .proveAndProcess message proof index frame inner, s => do
    let (proven, s) ← s.prove K (K.keccak256 message) proof index
    require proven "!prove"
    s.process K S message frame fun s => inner.exec s
  | .contract inner succeeds, s => do
    let s ← inner.exec s
    if succeeds then .ok s else .error (.external "contract")
  | .other call, s => do
    let (env, events) ← S.exec call s.now s.env
    .ok ({ s with env := env }.record s.replica (events.map .other))

/-- The execution of calls one after the other. An uncaught revert ends it. -/
def Calls.exec : Calls Byte ω → Chain Byte E η → Except Revert (Chain Byte E η)
  | .nil, s => .ok s
  | .cons call catches rest, s =>
    match call.exec s with
    | .ok s' => rest.exec s'
    | .error e => if catches then rest.exec s else .error e

end

mutual

/-- How many recipients are on the call stack at the same time, at most, while
the call is executed. What is undone later counts as well. -/
def Call.handleDepth : Call Byte ω → Chain Byte E η → ℕ
  | .process message frame inner, s =>
    match beginProcess K frame.gasleft message s.replica with
    | .ok (handle, replica) =>
      let s := s.record replica [.called message handle (s.replica.messages (K.keccak256 message))]
      1 + inner.handleDepth (s.record s.replica [.handled handle])
    | .error _ => 0
  | .proveAndProcess message proof index frame inner, s =>
    match s.prove K (K.keccak256 message) proof index with
    | .ok (true, s) =>
      match beginProcess K frame.gasleft message s.replica with
      | .ok (handle, replica) =>
        let s := s.record replica [.called message handle (s.replica.messages (K.keccak256 message))]
        1 + inner.handleDepth (s.record s.replica [.handled handle])
      | .error _ => 0
    | _ => 0
  | .contract inner _, s => inner.handleDepth s
  | _, _ => 0

/-- The same for calls made one after the other. -/
def Calls.handleDepth : Calls Byte ω → Chain Byte E η → ℕ
  | .nil, _ => 0
  | .cons call catches rest, s =>
    max (call.handleDepth s) <|
      match call.exec K S s with
      | .ok s' => rest.handleDepth s'
      | .error _ => if catches then rest.handleDepth s else 0

end

/-- A transaction in a block of the given time. -/
def Chain.transact (tx : ℕ × Call Byte ω) (s : Chain Byte E η) :
    Except Revert (Chain Byte E η) :=
  tx.2.exec K S { s with now := tx.1 }

/-! ### Transactions as paths of steps -/

/-- One primitive step of a committed execution, in which only updates that
satisfy `P` are accepted. -/
inductive Tick (P : SignedUpdate Byte → Prop) : Chain Byte E η → Chain Byte E η → Prop
  | update {s : Chain Byte E η} (u : SignedUpdate Byte) (hpresented : P u)
      (hstate : s.replica.state ≠ .Failed) (hcurrent : u.oldRoot = s.replica.committedRoot)
      (hsigned : IsSignedBy K s.replica.remoteDomain s.replica.updater u) :
      Tick P s (s.record { s.replica with
        confirmAt := Function.update s.replica.confirmAt u.newRoot
          ((s.now + s.replica.optimisticSeconds) % 2 ^ 256)
        committedRoot := u.newRoot } [.event (.Update s.replica.remoteDomain u)])
  | doubleUpdate {s : Chain Byte E η} (oldRoot newRoot₀ newRoot₁ : Bytes32 Byte)
      (signature signature₂ : List Byte) (hstate : s.replica.state ≠ .Failed)
      (hfirst : IsSignedBy K s.replica.remoteDomain s.replica.updater
        ⟨oldRoot, newRoot₀, signature⟩)
      (hsecond : IsSignedBy K s.replica.remoteDomain s.replica.updater
        ⟨oldRoot, newRoot₁, signature₂⟩)
      (hne : newRoot₀ ≠ newRoot₁) :
      Tick P s (s.record (_fail s.replica)
        [.event (.DoubleUpdate oldRoot newRoot₀ newRoot₁ signature signature₂)])
  | prove {s : Chain Byte E η} (leaf : Bytes32 Byte) (proof : ℕ → Bytes32 Byte) (index : ℕ)
      (hnone : s.replica.messages leaf = .None)
      (hroot : s.replica.acceptableRoot s.now (MerkleLib.branchRoot K leaf proof index) = true) :
      Tick P s (s.record { s.replica with
        messages := Function.update s.replica.messages leaf .Proven }
        [.proven leaf (MerkleLib.branchRoot K leaf proof index) (s.replica.messages leaf)])
  | called {s : Chain Byte E η} (message : List Byte) (handle : Handle Byte)
      (hdestination : Message.destination message = .ok s.replica.localDomain)
      (hproven : s.replica.messages (K.keccak256 message) = .Proven)
      (hentered : s.replica.entered = 1) (hhandle : handleOf message = .ok handle) :
      Tick P s (s.record { s.replica with
        entered := 0
        messages := Function.update s.replica.messages (K.keccak256 message) .Processed }
        [.called message handle (s.replica.messages (K.keccak256 message))])
  | handled {s : Chain Byte E η} (before : List (ℕ × Action Byte η)) (message : List Byte)
      (handle : Handle Byte) (status : MessageStatus)
      (hlast : s.trace = before ++ [(s.now, .called message handle status)])
      (haccepts : S.accepts handle.recipient s.env = true) :
      Tick P s (s.record s.replica [.handled handle])
  | returned {s : Chain Byte E η} (messageHash : Bytes32 Byte) (success : Bool)
      (returnData : List Byte) (hentered : s.replica.entered = 0) :
      Tick P s (s.record { s.replica with entered := 1 }
        [.event (.Process messageHash success returnData)])
  | other {s : Chain Byte E η} (call : ω) (env : E) (events : List η)
      (hexec : S.exec call s.now s.env = .ok (env, events)) :
      Tick P s ({ s with env := env }.record s.replica (events.map .other))

section Paths

variable {K S} {P : SignedUpdate Byte → Prop} {s s' : Chain Byte E η}

/-- Proving is a step when it succeeds and nothing when it does not. -/
theorem Chain.prove_path {leaf : Bytes32 Byte} {proof : ℕ → Bytes32 Byte} {index : ℕ}
    {proven : Bool}
    (h : s.prove K leaf proof index = .ok (proven, s')) : ReflTransGen (Tick K S P) s s' := by
  rw [Chain.prove, bind_eq_ok] at h
  obtain ⟨⟨answer, replica⟩, hprove, h⟩ := h
  obtain ⟨hnone, hanswer, hreplica⟩ := prove_eq_ok.mp hprove
  cases answer with
  | false =>
    obtain ⟨-, rfl⟩ := Prod.mk.inj (Except.ok.inj h)
    exact .refl
  | true =>
    obtain ⟨-, rfl⟩ := Prod.mk.inj (Except.ok.inj h)
    rw [if_pos rfl] at hreplica
    subst hreplica
    exact .single (.prove leaf proof index hnone hanswer.symm)

omit [ByteAlphabet Byte] in
theorem Chain.prove_entered {leaf : Bytes32 Byte} {proof : ℕ → Bytes32 Byte} {index : ℕ}
    {proven : Bool} (h : s.prove K leaf proof index = .ok (proven, s')) :
    s'.replica.entered = s.replica.entered := by
  rw [Chain.prove, bind_eq_ok] at h
  obtain ⟨⟨answer, replica⟩, hprove, h⟩ := h
  obtain ⟨-, -, hreplica⟩ := prove_eq_ok.mp hprove
  cases answer with
  | false =>
    obtain ⟨-, rfl⟩ := Prod.mk.inj (Except.ok.inj h)
    rfl
  | true =>
    obtain ⟨-, rfl⟩ := Prod.mk.inj (Except.ok.inj h)
    rw [if_pos rfl] at hreplica
    rw [hreplica]
    rfl

/-- The call of a recipient is a path that leaves the guard set, provided that
the calls inside it are. -/
theorem Chain.callRecipient_path {handle : Handle Byte} {frame : Frame Byte}
    {inner : Chain Byte E η → Except Revert (Chain Byte E η)} {success : Bool}
    {before : List (ℕ × Action Byte η)} {message : List Byte} {status : MessageStatus}
    (hlast : s.trace = before ++ [(s.now, .called message handle status)])
    (hinner : ∀ t t', inner t = .ok t' → ReflTransGen (Tick K S P) t t' ∧
      t'.replica.entered = t.replica.entered)
    (h : s.callRecipient S handle frame inner = (success, s')) :
    ReflTransGen (Tick K S P) s s' ∧ s'.replica.entered = s.replica.entered := by
  rw [Chain.callRecipient] at h
  split at h
  · next haccepted =>
    have haccepts := (Bool.and_eq_true_iff.mp haccepted).1
    split at h
    · next s₁ hcalls =>
      obtain ⟨-, rfl⟩ := Prod.mk.inj h
      obtain ⟨hpath, hentered⟩ := hinner _ _ hcalls
      -- the recipient takes the message, and then whatever it calls happens
      exact ⟨.head (.handled before message handle status hlast haccepts) hpath, hentered⟩
    · obtain ⟨-, rfl⟩ := Prod.mk.inj h
      exact ⟨.refl, rfl⟩
  · obtain ⟨-, rfl⟩ := Prod.mk.inj h
    exact ⟨.refl, rfl⟩

/-- `process` is a path: the call, what the recipient does, the return. -/
theorem Chain.process_path {message : List Byte} {frame : Frame Byte}
    {inner : Chain Byte E η → Except Revert (Chain Byte E η)}
    (hinner : ∀ t t', inner t = .ok t' → ReflTransGen (Tick K S P) t t' ∧
      t'.replica.entered = t.replica.entered)
    (h : s.process K S message frame inner = .ok s') :
    ReflTransGen (Tick K S P) s s' ∧ s'.replica.entered = s.replica.entered := by
  rw [Chain.process, bind_eq_ok] at h
  obtain ⟨⟨handle, replica⟩, hbegin, h⟩ := h
  obtain ⟨hdestination, hproven, hentered, -, hhandle, rfl⟩ := beginProcess_eq_ok.mp hbegin
  cases hcall : (s.record { s.replica with
      entered := 0
      messages := Function.update s.replica.messages (K.keccak256 message) .Processed }
      [.called message handle (s.replica.messages (K.keccak256 message))]).callRecipient S handle
        frame inner with
  | mk success s₁ =>
    simp only [hcall] at h
    obtain ⟨hpath, hzero⟩ := Chain.callRecipient_path rfl hinner hcall
    split at h
    · obtain rfl := Except.ok.inj h
      refine ⟨.tail (.head (.called message handle hdestination hproven hentered hhandle) hpath)
        (.returned _ success _ hzero), ?_⟩
      exact hentered.symm
    · cases h

mutual

/-- **Executions are paths.** What a call commits is a path of primitive steps,
and the re-entrancy guard is afterwards as it was before. -/
theorem Call.exec_path (call : Call Byte ω) (s s' : Chain Byte E η)
    (hupdates : ∀ u ∈ call.updates, P u) (h : call.exec K S s = .ok s') :
    ReflTransGen (Tick K S P) s s' ∧ s'.replica.entered = s.replica.entered := by
  match call with
  | .update u =>
    rw [Call.exec, bind_eq_ok] at h
    obtain ⟨⟨replica, events⟩, hupdate, h⟩ := h
    obtain ⟨hstate, hcurrent, hsigned, rfl, rfl⟩ := update_eq_ok.mp hupdate
    obtain rfl := Except.ok.inj h
    have hu : P u := hupdates u (by simp [Call.updates])
    exact ⟨.single (.update u hu hstate hcurrent hsigned), rfl⟩
  | .doubleUpdate oldRoot newRoot₀ newRoot₁ signature signature₂ =>
    -- Two equal roots are no fraud, and leave the Replica as it was.
    rw [Call.exec, bind_eq_ok] at h
    obtain ⟨⟨replica, events⟩, hdouble, h⟩ := h
    obtain rfl := Except.ok.inj h
    rcases doubleUpdate_eq_ok hdouble with ⟨rfl, rfl⟩ | ⟨hstate, hfirst, hsecond, hne, rfl, rfl⟩
    · rw [List.map_nil, Chain.record_nil]
      exact ⟨.refl, rfl⟩
    · exact ⟨.single (.doubleUpdate _ _ _ _ _ hstate hfirst hsecond hne), rfl⟩
  | .prove leaf proof index =>
    rw [Call.exec, bind_eq_ok] at h
    obtain ⟨⟨proven, s₁⟩, hprove, h⟩ := h
    obtain rfl := Except.ok.inj h
    exact ⟨Chain.prove_path hprove, Chain.prove_entered hprove⟩
  | .process message frame inner =>
    rw [Call.exec] at h
    exact Chain.process_path (fun t t' ht => Calls.exec_path inner t t' hupdates ht) h
  | .proveAndProcess message proof index frame inner =>
    rw [Call.exec, bind_eq_ok] at h
    obtain ⟨⟨proven, s₁⟩, hprove, h⟩ := h
    obtain ⟨-, hprocess⟩ := require_bind_eq_ok.mp h
    obtain ⟨hpath, hentered⟩ :=
      Chain.process_path (fun t t' ht => Calls.exec_path inner t t' hupdates ht) hprocess
    exact ⟨(Chain.prove_path hprove).trans hpath, hentered.trans (Chain.prove_entered hprove)⟩
  | .contract inner succeeds =>
    rw [Call.exec, bind_eq_ok] at h
    obtain ⟨s₁, hcalls, h⟩ := h
    split at h
    · obtain rfl := Except.ok.inj h
      exact Calls.exec_path inner s s₁ hupdates hcalls
    · cases h
  | .other call =>
    rw [Call.exec, bind_eq_ok] at h
    obtain ⟨⟨env, events⟩, hexec, h⟩ := h
    obtain rfl := Except.ok.inj h
    exact ⟨.single (.other call env events hexec), rfl⟩

/-- The same for calls made one after the other. -/
theorem Calls.exec_path (calls : Calls Byte ω) (s s' : Chain Byte E η)
    (hupdates : ∀ u ∈ calls.updates, P u) (h : calls.exec K S s = .ok s') :
    ReflTransGen (Tick K S P) s s' ∧ s'.replica.entered = s.replica.entered := by
  match calls with
  | .nil =>
    obtain rfl := Except.ok.inj h
    exact ⟨.refl, rfl⟩
  | .cons call catches rest =>
    have hcall : ∀ u ∈ call.updates, P u := fun u hu =>
      hupdates u (List.mem_append_left _ hu)
    have hrest : ∀ u ∈ rest.updates, P u := fun u hu =>
      hupdates u (List.mem_append_right _ hu)
    rw [Calls.exec] at h
    split at h
    · next s₁ hok =>
      obtain ⟨hpath, hentered⟩ := Call.exec_path call s s₁ hcall hok
      obtain ⟨hpath', hentered'⟩ := Calls.exec_path rest s₁ s' hrest h
      exact ⟨hpath.trans hpath', hentered'.trans hentered⟩
    · split at h
      · exact Calls.exec_path rest s s' hrest h
      · cases h

end

end Paths

end Exec

end Optics.Replica
