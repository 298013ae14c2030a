/-
# When a root is acceptable

The timer of a root is one slot, written by `initialize` and by every update to the
root. After any run it holds what the last update to the root wrote, so the trace
decides which roots are acceptable, and every recorded proof was made under a root
that was acceptable then.

An update writes the timer of its new root also when the root was acceptable before.
The root then has to wait again, and with it every proof under it.
-/

import Optics.Core.ReplicaReentrancy
import Optics.Math.Log

namespace Optics.Replica

open Optics.Solidity Optics.Common Optics.Math Optics.Math.Transition
open Relation (ReflTransGen)

variable {Byte ω E η : Type}

/-! ### The timer of a root -/

section Timer

variable [DecidableEq Byte]

/-- The time of an accepted update to the root. -/
def updatedAt? (root : Bytes32 Byte) (entry : ℕ × Action Byte η) : Option ℕ :=
  if entry.2.update?.map SignedUpdate.newRoot = some root then some entry.1 else none

/-- The time of the last accepted update to the root. -/
def lastUpdate (root : Bytes32 Byte) (trace : List (ℕ × Action Byte η)) : Option ℕ :=
  Log.last (updatedAt? root) trace

/-- The timer that a trace leaves to a root. -/
def timer (root₀ : Bytes32 Byte) (optimisticSeconds : ℕ) (trace : List (ℕ × Action Byte η))
    (root : Bytes32 Byte) : ℕ :=
  match lastUpdate root trace with
  | some time => (time + optimisticSeconds) % 2 ^ 256
  | none => if root = root₀ then 1 else 0

/-- What makes a root acceptable at a time: the last update to it lies the optimistic
seconds back, or it is the initial root and was never updated to. -/
def Accepts (root₀ : Bytes32 Byte) (optimisticSeconds : ℕ) (trace : List (ℕ × Action Byte η))
    (time : ℕ) (root : Bytes32 Byte) : Prop :=
  (∃ s, lastUpdate root trace = some s ∧ s + optimisticSeconds ≤ time ∧
      s + optimisticSeconds ≠ 0) ∨
    root = root₀ ∧ lastUpdate root trace = none ∧ 1 ≤ time

variable {root₀ root : Bytes32 Byte} {optimisticSeconds : ℕ} {trace : List (ℕ × Action Byte η)}

theorem lastUpdate_concat_update (time : ℕ) (domain : UInt32) (u : SignedUpdate Byte) :
    lastUpdate root (trace ++ [(time, .event (.Update domain u))]) =
      if root = u.newRoot then some time else lastUpdate root trace := by
  rw [lastUpdate, Log.last_concat, updatedAt?]
  by_cases h : root = u.newRoot
  · simp [Action.update?, h]
  · simp [Action.update?, h, Ne.symm h, lastUpdate]

theorem lastUpdate_append_of_silent {more : List (ℕ × Action Byte η)}
    (h : ∀ entry ∈ more, entry.2.update? = none) :
    lastUpdate root (trace ++ more) = lastUpdate root trace :=
  Log.last_append_of_none fun entry hentry => by simp [updatedAt?, h entry hentry]

/-- While no sum overflows, the timer decides as the trace does. -/
theorem timer_iff (hrange : ∀ entry ∈ trace, entry.1 + optimisticSeconds < 2 ^ 256) (time : ℕ) :
    (timer root₀ optimisticSeconds trace root ≠ 0 ∧
        timer root₀ optimisticSeconds trace root ≤ time) ↔
      Accepts root₀ optimisticSeconds trace time root := by
  rw [timer, Accepts]
  cases hlast : lastUpdate root trace with
  | none =>
    by_cases hroot : root = root₀
    · simp [hroot]
    · simp [hroot]
  | some s =>
    obtain ⟨entry, hmem, hentry⟩ := Log.mem_of_last hlast
    have htime : entry.1 = s := by
      unfold updatedAt? at hentry
      split_ifs at hentry
      exact Option.some.inj hentry
    have hs := htime ▸ hrange entry hmem
    simp only [Nat.mod_eq_of_lt hs, Option.some.injEq, reduceCtorEq, false_and, and_false, or_false,
      exists_eq_left']
    exact and_comm

end Timer

/-! ### What the trace says of the timers -/

variable [ByteAlphabet Byte] [DecidableEq Byte] (K : Crypto Byte) (S : Surroundings Byte ω E η)

/-- Why a status was written: a proof under a root that the trace so far makes
acceptable, and a call of the recipient after such a proof. -/
def Justified (acceptable : List (ℕ × Action Byte η) → ℕ → Bytes32 Byte → Prop)
    (front : List (ℕ × Action Byte η)) : ℕ × Action Byte η → Prop
  | (time, .proven leaf root before) => before = .None ∧
    (∃ proof index, root = MerkleLib.branchRoot K leaf proof index) ∧ acceptable front time root
  | (_, .called message _ before) => before = .Proven ∧
    ∃ time root, (time, .proven (K.keccak256 message) root .None) ∈ front
  | _ => True

/-- What the slot of a root says of a time. -/
def Elapsed (root₀ : Bytes32 Byte) (optimisticSeconds : ℕ) (trace : List (ℕ × Action Byte η))
    (time : ℕ) (root : Bytes32 Byte) : Prop :=
  timer root₀ optimisticSeconds trace root ≠ 0 ∧ timer root₀ optimisticSeconds trace root ≤ time

/-- The timers are those of the trace, and the writes of statuses are justified. -/
structure Timed (root₀ : Bytes32 Byte) (s : Chain Byte E η) : Prop where
  confirmAt : ∀ root, s.replica.confirmAt root =
    timer root₀ s.replica.optimisticSeconds s.trace root
  moves : ∀ hash, statusMoves K hash s.trace = movesTo (s.replica.messages hash)
  justified : Log.Grounded (Justified K (Elapsed root₀ s.replica.optimisticSeconds)) s.trace

section Timed

variable {K S} {P : SignedUpdate Byte → Prop} {root₀ : Bytes32 Byte} {s s' : Chain Byte E η}

theorem Chain.Initial.timed (h : s.Initial root₀) : Timed K root₀ s := by
  refine ⟨fun root => ?_, h.explained.moves, by rw [h.trace_eq]; exact .nil⟩
  rw [h.trace_eq]
  obtain ⟨_, _, _, _, _, _, replica, hdeploy, hreplica, -⟩ := h
  obtain ⟨-, hdeploy⟩ := require_bind_eq_ok.mp hdeploy
  obtain ⟨-, hdeploy⟩ := require_bind_eq_ok.mp hdeploy
  obtain rfl := Except.ok.inj hdeploy
  rw [hreplica]
  by_cases hroot : root = root₀
  · simp [init, timer, lastUpdate, hroot]
  · simp [init, timer, lastUpdate, hroot]

omit [ByteAlphabet Byte] in
/-- Steps that accept no update keep the timers. -/
theorem Timed.confirmAt_silent (h : Timed K root₀ s) {actions : List (Action Byte η)}
    (hsilent : ∀ a ∈ actions, a.update? = none) (root : Bytes32 Byte) :
    s.replica.confirmAt root = timer root₀ s.replica.optimisticSeconds
      (s.trace ++ actions.map fun a => (s.now, a)) root := by
  rw [timer, lastUpdate_append_of_silent, h.confirmAt, timer]
  intro entry hentry
  obtain ⟨a, ha, rfl⟩ := List.mem_map.mp hentry
  exact hsilent a ha

theorem Timed.tick (h : Timed K root₀ s) (hexplained : Explained K root₀ s)
    (hstep : Tick K S P s s') : Timed K root₀ s' := by
  have hmoves := (hexplained.tick hstep).moves
  cases hstep with
  | update u hpresented hstate hcurrent hsigned =>
    refine ⟨fun root => ?_, hmoves, h.justified.concat trivial⟩
    simp only [Chain.record, List.map_cons, List.map_nil, timer, lastUpdate_concat_update]
    -- the update writes the timer of its new root and no other
    by_cases hroot : root = u.newRoot
    · simp [hroot]
    · simp only [Function.update_of_ne hroot, hroot, if_false]
      exact h.confirmAt root
  | doubleUpdate oldRoot newRoot₀ newRoot₁ signature signature₂ =>
    exact ⟨h.confirmAt_silent (by simp [Action.update?]), hmoves, h.justified.concat trivial⟩
  | prove leaf proof index hnone hroot =>
    refine ⟨h.confirmAt_silent (by simp [Action.update?]), hmoves, h.justified.concat ?_⟩
    rw [acceptableRoot_eq_true, h.confirmAt] at hroot
    exact ⟨hnone, ⟨proof, index, rfl⟩, hroot⟩
  | called message handle hdestination hproven hentered hhandle =>
    refine ⟨h.confirmAt_silent (by simp [Action.update?]), hmoves, h.justified.concat ⟨hproven, ?_⟩⟩
    -- the status `Proven` was written by an earlier proof
    have hmove : (MessageStatus.None, MessageStatus.Proven) ∈
        statusMoves K (K.keccak256 message) s.trace := by
      rw [h.moves, hproven]
      exact List.mem_singleton_self _
    exact exists_proven_of_move hmove
  | handled before message handle status hlast haccepts =>
    exact ⟨h.confirmAt_silent (by simp [Action.update?]), hmoves, h.justified.concat trivial⟩
  | returned messageHash success returnData hentered =>
    exact ⟨h.confirmAt_silent (by simp [Action.update?]), hmoves, h.justified.concat trivial⟩
  | other call env events hexec =>
    refine ⟨h.confirmAt_silent ?_, hmoves, h.justified.append_of_forall ?_⟩
    · intro a ha
      obtain ⟨e, -, rfl⟩ := List.mem_map.mp ha
      rfl
    · intro entry hentry front
      obtain ⟨a, ha, rfl⟩ := List.mem_map.mp hentry
      obtain ⟨e, -, rfl⟩ := List.mem_map.mp ha
      trivial

theorem timed_of_reachable (h : (system K S root₀).Reachable s) : Timed K root₀ s := by
  have hboth : Explained K root₀ s ∧ Timed K root₀ s :=
    invariant_of_tick (Q := fun s => Explained K root₀ s ∧ Timed K root₀ s) h
      (fun _ hinit => ⟨hinit.explained, hinit.timed⟩)
      (fun _ _ h htime => ⟨h.1.later htime, ⟨h.2.confirmAt, h.2.moves, h.2.justified⟩⟩)
      fun _ _ h hstep => ⟨h.1.tick hstep, h.2.tick h.1 hstep⟩
  exact hboth.2

/-! ### The characterisation -/

/-- A transaction in a block whose time leaves room for the optimistic seconds. -/
def InRange (s : Chain Byte E η) (tx : ℕ × Call Byte ω) : Prop :=
  tx.1 + s.replica.optimisticSeconds < 2 ^ 256

theorem Tick.times (h : Tick K S P s s') :
    ∀ entry ∈ s'.trace, entry ∈ s.trace ∨ entry.1 = s.now := by
  have hrecord : ∀ {s : Chain Byte E η} {replica : Replica Byte} {actions : List (Action Byte η)},
      ∀ entry ∈ (s.record replica actions).trace, entry ∈ s.trace ∨ entry.1 = s.now := by
    intro s replica actions entry hentry
    rcases Chain.mem_record.mp hentry with hold | ⟨a, -, rfl⟩
    · exact .inl hold
    · exact .inr rfl
  cases h with
  | other call env events hexec => exact hrecord
  | _ => exact hrecord

theorem path_times (h : ReflTransGen (Tick K S P) s s') :
    ∀ entry ∈ s'.trace, entry ∈ s.trace ∨ entry.1 = s.now := by
  induction h with
  | refl => exact fun entry hentry => .inl hentry
  | tail hpath hstep ih =>
    intro entry hentry
    rcases hstep.times entry hentry with hold | hnow
    · exact ih entry hold
    · exact .inr (hnow.trans (path_frame hpath).2.1)

theorem times_inRange (h : ((system K S root₀).restrict InRange).Reachable s) :
    ∀ entry ∈ s.trace, entry.1 + s.replica.optimisticSeconds < 2 ^ 256 := by
  refine h.invariant (P := fun s => ∀ entry ∈ s.trace,
    entry.1 + s.replica.optimisticSeconds < 2 ^ 256) ?_ fun s tx s' _ hs hstep => ?_
  · intro s hinit
    rw [Chain.Initial.trace_eq hinit]
    exact fun entry hentry => absurd hentry List.not_mem_nil
  · obtain ⟨⟨-, hcall⟩, hrange⟩ := hstep
    refine callStep_cases (P := fun _ t => ∀ entry ∈ t.trace,
      entry.1 + t.replica.optimisticSeconds < 2 ^ 256) hcall (fun t hexec entry hentry => ?_) hs
    obtain ⟨hpath, -⟩ := Call.exec_path (P := fun _ => True) tx.2 _ t (fun _ _ => trivial) hexec
    rw [(path_frame hpath).1.optimisticSeconds]
    rcases path_times hpath entry hentry with hold | hnow
    · exact hs entry hold
    · exact hnow ▸ hrange

/-- **Acceptable roots.** A root is acceptable at a time if and only if the last update
to it lies the optimistic seconds back, or it is the initial root, no update led to it
and the time is not 0. A status goes from `None` to `Proven` only by a proof under a
root that was acceptable then, and from `Proven` to `Processed` only after that. -/
theorem acceptableRoot_iff (h : ((system K S root₀).restrict InRange).Reachable s) :
    (∀ root time, s.replica.acceptableRoot time root = true ↔
      Accepts root₀ s.replica.optimisticSeconds s.trace time root) ∧
    (∀ hash, statusMoves K hash s.trace = movesTo (s.replica.messages hash)) ∧
    Log.Grounded (Justified K (Accepts root₀ s.replica.optimisticSeconds)) s.trace := by
  have htimed := timed_of_reachable h.of_restrict
  have hrange := times_inRange h
  -- a proof is judged by the trace before it, in which no sum overflows either
  refine ⟨fun root time => ?_, htimed.moves, htimed.justified.imp fun front e back hsplit he => ?_⟩
  · rw [acceptableRoot_eq_true, htimed.confirmAt]
    exact timer_iff hrange time
  · have hfront : ∀ entry ∈ front, entry.1 + s.replica.optimisticSeconds < 2 ^ 256 :=
      fun entry hentry => hrange entry (hsplit ▸ List.mem_append_left _ hentry)
    obtain ⟨time, action⟩ := e
    cases action with
    | proven leaf root before =>
      obtain ⟨hbefore, hbranch, helapsed⟩ := he
      exact ⟨hbefore, hbranch, (timer_iff hfront time).mp helapsed⟩
    | _ => exact he

/-- The sample after its message was proven and processed at time 1. -/
theorem acceptableRoot_iff_sample : ∃ (s : Chain ℕ Unit Unit) (handle : Handle ℕ),
    (1, .called sampleMessage handle .Proven) ∈ s.trace ∧
    (∀ root time, s.replica.acceptableRoot time root = true ↔
      Accepts sampleRoot s.replica.optimisticSeconds s.trace time root) ∧
    (∀ hash, statusMoves sampleCrypto hash s.trace = movesTo (s.replica.messages hash)) ∧
    Log.Grounded (Justified sampleCrypto (Accepts sampleRoot s.replica.optimisticSeconds))
      s.trace := by
  have hnone : sampleStart.replica.messages (sampleCrypto.keccak256 sampleMessage) = .None := rfl
  obtain ⟨s, hexec, hcalled⟩ := Call.exec_proveAndProcess (S := sampleSurroundings)
    ⟨865000, true, [], true⟩ .nil hnone (acceptableRoot_sampleRoot (Nat.le_refl 1)) rfl
    (Message.destination_formatMessage _ _ _ _ _ _) (handleOf_formatMessage _ _ _ _ _ _)
    (by decide) rfl
  have hstep : (system sampleCrypto sampleSurroundings sampleRoot).step sampleStart
      (1, .proveAndProcess sampleMessage (fun _ => 0) 0 ⟨865000, true, [], true⟩ .nil) s :=
    ⟨Nat.le_refl 1, .inl hexec⟩
  have hstart : ((system sampleCrypto sampleSurroundings sampleRoot).restrict InRange).Reachable
      sampleStart :=
    System.reachable_init (Chain.deployed_initial 2000 1000 sampleUpdater sampleRoot 1800 1 ())
  have hrange : 1 + 1800 < 2 ^ 256 := by decide
  exact ⟨s, _, hcalled, acceptableRoot_iff (hstart.step ⟨hstep, hrange⟩)⟩

end Timed

end Optics.Replica
