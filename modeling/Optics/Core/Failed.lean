/-
# The Failed state

A fraud proof moves Home or a Replica into `Failed`, and no function leads out of
it again. On Home every function that touches messages or roots is guarded, so
tree, queue, nonces and committed root are frozen. On a Replica `update` and
`doubleUpdate` are guarded and freeze the roots. `prove` and `process` are not:
under the roots that were accepted before the fraud a failed Replica goes on
delivering messages.
-/

import Optics.Core.HomeInvariant
import Optics.Core.ReplicaReentrancy

namespace Optics.Failed

open Optics.Solidity Optics.Common Optics.Math.Transition
open Optics.Home (History Context)
open Optics.Replica (Chain Surroundings Call Calls Frame Tick Action
  sampleUpdater sampleCrypto sampleSurroundings sampleMessage sampleRoot sampleStart)
open Relation (ReflTransGen)

variable {Byte ω E η : Type}

/-! ### Home -/

/-- Nothing of the later history but the two configured addresses may differ, and
no message or update was accepted since. -/
structure HomeFrozen (s t : History Byte) : Prop where
  state : t.home.state = .Failed
  tree : t.home.tree = s.home.tree
  queue : t.home.queue = s.home.queue
  nonces : t.home.nonces = s.home.nonces
  committedRoot : t.home.committedRoot = s.home.committedRoot
  log : ∃ events, t.log = s.log ++ events ∧ ∀ e ∈ events, e.Administrative

theorem HomeFrozen.refl {s : History Byte} (h : s.home.state = .Failed) : HomeFrozen s s :=
  ⟨h, rfl, rfl, rfl, rfl, [], (List.append_nil _).symm, fun _ he => absurd he List.not_mem_nil⟩

theorem HomeFrozen.trans {s t u : History Byte} (h : HomeFrozen s t) (h' : HomeFrozen t u) :
    HomeFrozen s u where
  state := h'.state
  tree := h'.tree.trans h.tree
  queue := h'.queue.trans h.queue
  nonces := h'.nonces.trans h.nonces
  committedRoot := h'.committedRoot.trans h.committedRoot
  log := by
    obtain ⟨first, hfirst, hquiet⟩ := h.log
    obtain ⟨second, hsecond, hquiet'⟩ := h'.log
    refine ⟨first ++ second, by rw [hsecond, hfirst, List.append_assoc], fun e he => ?_⟩
    exact (List.mem_append.mp he).elim (hquiet e) (hquiet' e)

section Home

variable [ByteAlphabet Byte] [DecidableEq Byte] {K : Crypto Byte} {s t : History Byte}
  {labels : List (Context Byte × Home.Call Byte)}

/-- A failed Home takes configuration calls only. -/
theorem homeFrozen_of_exec {ctx : Context Byte} {call : Home.Call Byte}
    (hfailed : s.home.state = .Failed) (h : History.exec K (ctx, call) s = .ok t) :
    HomeFrozen s t := by
  obtain ⟨⟨home, events⟩, hexec, hhistory⟩ := bind_eq_ok.mp h
  obtain rfl := Except.ok.inj hhistory
  generalize hhome : s.home = before at hexec
  have heffect := Home.effect_of_exec hexec
  dsimp only at heffect ⊢
  -- what touches messages or roots is guarded by the state
  cases heffect with
  | dispatched destination recipient body d tree hd hstate => exact absurd (hhome ▸ hfailed) hstate
  | committed u queue hstate => exact absurd (hhome ▸ hfailed) hstate
  | slashed updater manager hstate => exact absurd (hhome ▸ hfailed) hstate
  | unchanged =>
    subst hhome
    exact ⟨hfailed, rfl, rfl, rfl, rfl, [], rfl, fun _ he => absurd he List.not_mem_nil⟩
  | newUpdater updater =>
    subst hhome
    refine ⟨hfailed, rfl, rfl, rfl, rfl, _, rfl, fun e he => ?_⟩
    rw [List.mem_singleton.mp he]
    trivial
  | newUpdaterManager manager =>
    subst hhome
    refine ⟨hfailed, rfl, rfl, rfl, rfl, _, rfl, fun e he => ?_⟩
    rw [List.mem_singleton.mp he]
    trivial

theorem homeFrozen_of_run (hfailed : s.home.state = .Failed)
    (hrun : (Home.system K).Run s labels t) : HomeFrozen s t := by
  refine hrun.relates (R := fun s t => s.home.state = .Failed → HomeFrozen s t)
    (fun _ => .refl) (fun s t u hst htu hs => ?_) (fun s tx t hstep hs => ?_) hfailed
  · exact (hst hs).trans (htu (hst hs).state)
  · exact callStep_cases (P := fun s t => s.home.state = .Failed → HomeFrozen s t) hstep
      (fun t hexec hs => homeFrozen_of_exec hs hexec) .refl hs

end Home

/-! ### Replica -/

/-- The roots of a Replica do not change any more. -/
structure RootsFrozen (s t : Chain Byte E η) : Prop where
  state : t.replica.state = .Failed
  committedRoot : t.replica.committedRoot = s.replica.committedRoot
  confirmAt : t.replica.confirmAt = s.replica.confirmAt

theorem RootsFrozen.trans {s t u : Chain Byte E η} (h : RootsFrozen s t) (h' : RootsFrozen t u) :
    RootsFrozen s u :=
  ⟨h'.state, h'.committedRoot.trans h.committedRoot, h'.confirmAt.trans h.confirmAt⟩

/-- No status changes and no recipient is called any more. -/
structure MessagesFrozen (s t : Chain Byte E η) : Prop where
  messages : t.replica.messages = s.replica.messages
  trace : ∃ actions, t.trace = s.trace ++ actions ∧
    ∀ time message handle before, (time, Action.called message handle before) ∉ actions

/-- A failed Replica that proves and processes nothing is left as it was. The trace
grows by events of other contracts. -/
def Untouched (s t : Chain Byte E η) : Prop :=
  t.replica = s.replica ∧ ∃ actions, t.trace = s.trace ++ actions ∧
    ∀ entry ∈ actions, ∃ e, entry.2 = Action.other e

section Untouched

variable {s t u : Chain Byte E η}

theorem Untouched.refl (s : Chain Byte E η) : Untouched s s :=
  ⟨rfl, [], (List.append_nil _).symm, fun _ he => absurd he List.not_mem_nil⟩

theorem Untouched.trans (h : Untouched s t) (h' : Untouched t u) :
    Untouched s u := by
  obtain ⟨hreplica, first, hfirst, hother⟩ := h
  obtain ⟨hreplica', second, hsecond, hother'⟩ := h'
  refine ⟨hreplica'.trans hreplica, first ++ second, ?_, fun e he => ?_⟩
  · rw [hsecond, hfirst, List.append_assoc]
  · exact (List.mem_append.mp he).elim (hother e) (hother' e)

theorem Untouched.messagesFrozen (h : Untouched s t) : MessagesFrozen s t := by
  obtain ⟨hreplica, actions, htrace, hother⟩ := h
  refine ⟨by rw [hreplica], actions, htrace, fun time message handle before hmem => ?_⟩
  obtain ⟨e, he⟩ := hother _ hmem
  cases he

end Untouched

section Replica

variable [ByteAlphabet Byte] [DecidableEq Byte] (K : Crypto Byte)

/-- `prove` would accept the leaf. -/
def Provable (replica : Replica Byte) (time : ℕ) (leaf : Bytes32 Byte) (proof : ℕ → Bytes32 Byte)
    (index : ℕ) : Prop :=
  replica.messages leaf = .None ∧
    replica.acceptableRoot time (MerkleLib.branchRoot K leaf proof index) = true

/-- `process` would pass its checks for a proven message, and its gas lasts. -/
def Deliverable (replica : Replica Byte) (message : List Byte) (frame : Frame Byte) : Prop :=
  Message.destination message = .ok replica.localDomain ∧ replica.entered = 1 ∧
    (replica.PROCESS_GAS + replica.RESERVE_GAS) % 2 ^ 256 ≤ frame.gasleft ∧
    (∃ handle, Replica.handleOf message = .ok handle) ∧ frame.completes = true

mutual

/-- No call of `prove`, `process` or `proveAndProcess` in the tree of calls gets past
its checks. A contract that reverts undoes what it did. -/
def Undelivering (replica : Replica Byte) (time : ℕ) : Call Byte ω → Prop
  | .prove leaf proof index => ¬ Provable K replica time leaf proof index
  | .process message frame _ =>
    ¬ (replica.messages (K.keccak256 message) = .Proven ∧ Deliverable replica message frame)
  | .proveAndProcess message proof index frame _ =>
    ¬ (Provable K replica time (K.keccak256 message) proof index ∧
      Deliverable replica message frame)
  | .contract inner succeeds => succeeds = true → AllUndelivering replica time inner
  | _ => True

/-- The same for calls made one after the other. -/
def AllUndelivering (replica : Replica Byte) (time : ℕ) : Calls Byte ω → Prop
  | .nil => True
  | .cons call _ rest => Undelivering replica time call ∧ AllUndelivering replica time rest

end

variable {K} {S : Surroundings Byte ω E η} {s t : Chain Byte E η}

theorem rootsFrozen_of_tick {P : SignedUpdate Byte → Prop} (hfailed : s.replica.state = .Failed)
    (h : Tick K S P s t) : RootsFrozen s t := by
  cases h with
  | update u hpresented hstate => exact absurd hfailed hstate
  | doubleUpdate oldRoot newRoot₀ newRoot₁ signature signature₂ hstate =>
    exact absurd hfailed hstate
  | _ => exact ⟨hfailed, rfl, rfl⟩

theorem rootsFrozen_of_path {P : SignedUpdate Byte → Prop} (hfailed : s.replica.state = .Failed)
    (h : ReflTransGen (Tick K S P) s t) : RootsFrozen s t := by
  induction h with
  | refl => exact ⟨hfailed, rfl, rfl⟩
  | tail _ hstep ih => exact ih.trans (rootsFrozen_of_tick ih.state hstep)

mutual

theorem untouched_of_exec (call : Call Byte ω) (s t : Chain Byte E η)
    (hfailed : s.replica.state = .Failed) (hcond : Undelivering K s.replica s.now call)
    (h : call.exec K S s = .ok t) : Untouched s t := by
  match call with
  | .update u =>
    obtain ⟨⟨replica, events⟩, hupdate, -⟩ := bind_eq_ok.mp h
    exact absurd hfailed (Replica.update_eq_ok.mp hupdate).1
  | .doubleUpdate oldRoot newRoot₀ newRoot₁ signature signature₂ =>
    obtain ⟨⟨replica, events⟩, hdouble, -⟩ := bind_eq_ok.mp h
    exact absurd hfailed (require_bind_eq_ok.mp hdouble).1
  | .prove leaf proof index =>
    obtain ⟨⟨proven, s₁⟩, hprove, h⟩ := bind_eq_ok.mp h
    obtain rfl := Except.ok.inj h
    obtain ⟨⟨answer, replica⟩, hprove, h⟩ := bind_eq_ok.mp hprove
    obtain ⟨hnone, hanswer, -⟩ := Replica.prove_eq_ok.mp hprove
    cases answer with
    | true => exact absurd ⟨hnone, hanswer.symm⟩ hcond
    -- a proof under no acceptable root answers `false` and writes nothing
    | false =>
      obtain ⟨-, rfl⟩ := Prod.mk.inj (Except.ok.inj h)
      exact .refl _
  | .process message frame inner =>
    obtain ⟨⟨handle, replica⟩, hbegin, h⟩ := bind_eq_ok.mp h
    obtain ⟨hdestination, hproven, hentered, hgas, hhandle, -⟩ :=
      Replica.beginProcess_eq_ok.mp hbegin
    -- a frame that runs out of gas undoes the whole call
    by_cases hcompletes : frame.completes = true
    · exact absurd ⟨hproven, hdestination, hentered, hgas, ⟨handle, hhandle⟩, hcompletes⟩ hcond
    · simp [hcompletes] at h
  | .proveAndProcess message proof index frame inner =>
    obtain ⟨⟨proven, s₁⟩, hprove, h⟩ := bind_eq_ok.mp h
    obtain ⟨rfl, hprocess⟩ := require_bind_eq_ok.mp h
    obtain ⟨⟨answer, replica⟩, hprove, hrecord⟩ := bind_eq_ok.mp hprove
    obtain ⟨hnone, hanswer, hreplica⟩ := Replica.prove_eq_ok.mp hprove
    cases answer with
    | false => cases hrecord
    | true =>
      obtain ⟨-, rfl⟩ := Prod.mk.inj (Except.ok.inj hrecord)
      obtain ⟨⟨handle, replica₁⟩, hbegin, hprocess⟩ := bind_eq_ok.mp hprocess
      obtain ⟨hdestination, -, hentered, hgas, hhandle, -⟩ := Replica.beginProcess_eq_ok.mp hbegin
      -- proving has changed the status of the message only
      subst hreplica
      by_cases hcompletes : frame.completes = true
      · exact absurd ⟨⟨hnone, hanswer.symm⟩, hdestination, hentered, hgas, ⟨handle, hhandle⟩,
          hcompletes⟩ hcond
      · simp [hcompletes] at hprocess
  | .contract inner succeeds =>
    obtain ⟨s₁, hcalls, h⟩ := bind_eq_ok.mp h
    split at h
    · next hsucceeds =>
      obtain rfl := Except.ok.inj h
      exact allUntouched_of_exec inner s s₁ hfailed (hcond hsucceeds) hcalls
    · cases h
  | .other call =>
    obtain ⟨⟨env, events⟩, -, h⟩ := bind_eq_ok.mp h
    obtain rfl := Except.ok.inj h
    refine ⟨rfl, _, rfl, fun entry hentry => ?_⟩
    obtain ⟨action, haction, rfl⟩ := List.mem_map.mp hentry
    obtain ⟨e, -, rfl⟩ := List.mem_map.mp haction
    exact ⟨e, rfl⟩

theorem allUntouched_of_exec (calls : Calls Byte ω) (s t : Chain Byte E η)
    (hfailed : s.replica.state = .Failed) (hcond : AllUndelivering K s.replica s.now calls)
    (h : calls.exec K S s = .ok t) : Untouched s t := by
  match calls with
  | .nil =>
    obtain rfl := Except.ok.inj h
    exact .refl _
  | .cons call catches rest =>
    obtain ⟨hcall, hrest⟩ := hcond
    rw [Calls.exec] at h
    split at h
    · next s₁ hok =>
      have hfirst := untouched_of_exec call s s₁ hfailed hcall hok
      -- the rest of the calls meet the same Replica at the same time
      obtain ⟨hpath, -⟩ := Call.exec_path (P := fun _ => True) call s s₁ (fun _ _ => trivial) hok
      obtain ⟨-, hnow, -⟩ := Replica.path_frame hpath
      rw [← hfirst.1] at hfailed
      rw [← hfirst.1, ← hnow] at hrest
      exact hfirst.trans (allUntouched_of_exec rest s₁ t hfailed hrest h)
    -- a caller that catches the failure goes on from before the call
    · split at h
      · exact allUntouched_of_exec rest s t hfailed hrest h
      · cases h

end

/-! ### Runs -/

section Runs

variable {root₀ : Bytes32 Byte} {labels : List (ℕ × Call Byte ω)}

theorem rootsFrozen_of_run (hfailed : s.replica.state = .Failed)
    (hrun : (Replica.system K S root₀).Run s labels t) : RootsFrozen s t := by
  refine hrun.relates (R := fun s t => s.replica.state = .Failed → RootsFrozen s t)
    (fun _ hs => ⟨hs, rfl, rfl⟩) (fun s t u hst htu hs => ?_) (fun s tx t hstep hs => ?_) hfailed
  · exact (hst hs).trans (htu (hst hs).state)
  · refine callStep_cases (P := fun s t => s.replica.state = .Failed → RootsFrozen s t) hstep.2
      (fun t hexec hs => ?_) (fun hs => ⟨hs, rfl, rfl⟩) hs
    obtain ⟨hpath, -⟩ := Call.exec_path (P := fun _ => True) tx.2 _ t (fun _ _ => trivial) hexec
    have hstart : { s with now := tx.1 }.replica.state = .Failed := hs
    obtain ⟨hstate, hroot, hconfirmAt⟩ := rootsFrozen_of_path hstart hpath
    exact ⟨hstate, hroot, hconfirmAt⟩

/-- Transactions that prove and process nothing. -/
def Quiet (K : Crypto Byte) (s : Chain Byte E η) (tx : ℕ × Call Byte ω) : Prop :=
  Undelivering K s.replica tx.1 tx.2

theorem untouched_of_run (hfailed : s.replica.state = .Failed)
    (hrun : ((Replica.system K S root₀).restrict (Quiet K)).Run s labels t) : Untouched s t := by
  refine hrun.relates (R := fun s t => s.replica.state = .Failed → Untouched s t)
    (fun _ _ => .refl _) (fun s t u hst htu hs => ?_) (fun s tx t hstep hs => ?_) hfailed
  · have hfirst := hst hs
    exact hfirst.trans (htu (hfirst.1 ▸ hs))
  · obtain ⟨⟨-, hcall⟩, hquiet⟩ := hstep
    exact callStep_cases (P := fun s t => s.replica.state = .Failed → Quiet K s tx →
      Untouched s t) hcall
      (fun t hexec hs hquiet => untouched_of_exec tx.2 { s with now := tx.1 } t hs hquiet hexec)
      (fun _ _ => .refl _) hs hquiet

end Runs

end Replica

/-- **Failed is final.** A failed Home stays failed, its messages and roots are
frozen, and it announces no message or update any more. A failed Replica stays
failed and its roots are frozen, and in a run without successful proofs and calls of
recipients so are the statuses of its messages. -/
theorem failed_is_final [ByteAlphabet Byte] [DecidableEq Byte] (K : Crypto Byte)
    (S : Surroundings Byte ω E η) (root₀ : Bytes32 Byte) :
    (∀ {s t : History Byte} {labels}, (Home.system K).Reachable s → s.home.state = .Failed →
      (Home.system K).Run s labels t → HomeFrozen s t) ∧
    (∀ {s t : Chain Byte E η} {labels}, (Replica.system K S root₀).Reachable s →
      s.replica.state = .Failed → (Replica.system K S root₀).Run s labels t → RootsFrozen s t) ∧
    ∀ {s t : Chain Byte E η} {labels}, (Replica.system K S root₀).Reachable s →
      s.replica.state = .Failed →
      ((Replica.system K S root₀).restrict (Quiet K)).Run s labels t → MessagesFrozen s t :=
  ⟨fun _ hfailed hrun => homeFrozen_of_run hfailed hrun,
    fun _ hfailed hrun => rootsFrozen_of_run hfailed hrun,
    fun _ hfailed hrun => (untouched_of_run hfailed hrun).messagesFrozen⟩

/-! ### A failed Replica that delivers -/

section Sample

/-- Two signed updates from one root. -/
def sampleFraud : Call ℕ Empty := .doubleUpdate 0 0 (List.Vector.replicate 32 1) [] []

/-- The Replica after the fraud proof. -/
def sampleFailed : Chain ℕ Unit Unit :=
  sampleStart.record { sampleStart.replica with state := .Failed }
    [.event (.DoubleUpdate 0 0 (List.Vector.replicate 32 1) [] [])]

theorem reachable_sampleFailed :
    (Replica.system sampleCrypto sampleSurroundings sampleRoot).Reachable sampleFailed := by
  have hne : (0 : Bytes32 ℕ) ≠ List.Vector.replicate 32 1 := by decide
  have hconflict : isDoubleUpdate sampleCrypto 1000 sampleUpdater 0 0
      (List.Vector.replicate 32 1) [] [] = .ok true := isDoubleUpdate_eq_true.mpr ⟨rfl, rfl, hne⟩
  have hfail : Replica.doubleUpdate sampleCrypto 0 0 (List.Vector.replicate 32 1) [] []
      sampleStart.replica = .ok (Replica._fail sampleStart.replica,
        [.DoubleUpdate 0 0 (List.Vector.replicate 32 1) [] []]) := by
    have hactive : sampleStart.replica.state ≠ .Failed := by
      intro hfailed
      cases hfailed
    rw [Replica.doubleUpdate, Replica.notFailed, require_of hactive, ok_bind]
    exact bind_eq_ok.mpr ⟨true, hconflict, rfl⟩
  have hexec : sampleFraud.exec sampleCrypto sampleSurroundings sampleStart = .ok sampleFailed := by
    rw [sampleFraud, Call.exec, hfail]
    rfl
  have hstep : (Replica.system sampleCrypto sampleSurroundings sampleRoot).step sampleStart
      (1, sampleFraud) sampleFailed := ⟨Nat.le_refl 1, .inl hexec⟩
  exact Replica.sampleStart_reachable.step hstep

/-- The message, proven and processed in one call. -/
def sampleDelivery : Call ℕ Empty :=
  .proveAndProcess sampleMessage (fun _ => 0) 0 ⟨865000, true, [], true⟩ .nil

/-- A message under a root from before the fraud is handed to its recipient after the
fraud proof. -/
theorem failed_replica_delivers : ∃ t handle,
    (Replica.system sampleCrypto sampleSurroundings sampleRoot).Reachable sampleFailed ∧
    sampleFailed.replica.state = .Failed ∧
    (Replica.system sampleCrypto sampleSurroundings sampleRoot).step sampleFailed
      (1, sampleDelivery) t ∧
    sampleFailed.replica.messages (sampleCrypto.keccak256 sampleMessage) = .None ∧
    t.replica.messages (sampleCrypto.keccak256 sampleMessage) = .Processed ∧
    (1, Action.called sampleMessage handle .Proven) ∈ t.trace ∧
    (1, Action.called sampleMessage handle .Proven) ∉ sampleFailed.trace := by
  have hroot : sampleFailed.replica.acceptableRoot 1 sampleRoot = true := by
    rw [Replica.acceptableRoot_eq_true]
    simp [sampleFailed, sampleStart, Chain.deployed, Replica.init]
  have hnone : sampleFailed.replica.messages (sampleCrypto.keccak256 sampleMessage) = .None := rfl
  obtain ⟨t, hexec, hcalled⟩ := Call.exec_proveAndProcess (S := sampleSurroundings)
    ⟨865000, true, [], true⟩ .nil hnone hroot rfl
    (Message.destination_formatMessage _ _ _ _ _ _) (Replica.handleOf_formatMessage _ _ _ _ _ _)
    (by decide) rfl
  have hstep : (Replica.system sampleCrypto sampleSurroundings sampleRoot).step sampleFailed
      (1, sampleDelivery) t := ⟨Nat.le_refl 1, .inl hexec⟩
  refine ⟨t, _, reachable_sampleFailed, rfl, hstep, rfl, ?_, hcalled, ?_⟩
  · exact Call.exec_proveAndProcess_processed hexec
  · simp [sampleFailed, sampleStart, Chain.record, Chain.deployed]

/-- A Home that was failed by the same two updates. -/
theorem exists_failed_home : ∃ history : History ℕ,
    (Home.system sampleCrypto).Reachable history ∧ history.home.state = .Failed := by
  obtain ⟨start, hinit, hupdater, hstate⟩ : ∃ start : History ℕ, start.Initial ∧
      start.home.updater = sampleUpdater ∧ start.home.state ≠ .Failed :=
    ⟨_, Home.initial_of_isContract 1000 Home.sampleContext 0 sampleUpdater rfl, rfl, nofun⟩
  have hsigned : ∀ u, IsSignedBy sampleCrypto start.home.localDomain start.home.updater u :=
    fun _ => congrArg some hupdater.symm
  have hne : (0 : Bytes32 ℕ) ≠ List.Vector.replicate 32 1 := by decide
  have hslash : (Home.sampleContext : Context ℕ).slashUpdater = .returns [] := rfl
  obtain ⟨home, events, hexec, hfailed⟩ := Home.exec_doubleUpdate_of_conflict hslash hstate
    (hsigned ⟨0, 0, []⟩) (hsigned ⟨0, List.Vector.replicate 32 1, []⟩) rfl hne
  exact ⟨_, (System.reachable_init hinit).step (History.step_of_exec hexec), hfailed⟩

/-- A call that a failed Replica refuses, since the message was never proven. -/
def sampleRefused : Call ℕ Empty := .process sampleMessage ⟨865000, true, [], true⟩ .nil

/-- Both contracts after a fraud: Home does nothing more, and the Replica refuses a
message that was not proven. -/
theorem failed_is_final_refused :
    (∃ history : History ℕ, HomeFrozen history history) ∧
    (Replica.system sampleCrypto sampleSurroundings sampleRoot).step sampleFailed
      (1, sampleRefused) sampleFailed ∧
    RootsFrozen sampleFailed sampleFailed ∧ MessagesFrozen sampleFailed sampleFailed := by
  obtain ⟨hhome, hroots, hmessages⟩ :=
    failed_is_final sampleCrypto sampleSurroundings sampleRoot
  obtain ⟨history, hreach, hfailed⟩ := exists_failed_home
  have hrefused : sampleFailed.replica.messages (sampleCrypto.keccak256 sampleMessage) ≠ .Proven :=
    nofun
  have hstep : (Replica.system sampleCrypto sampleSurroundings sampleRoot).step sampleFailed
      (1, sampleRefused) sampleFailed :=
    ⟨Nat.le_refl 1, .inr ⟨Call.exec_process_error _ _ hrefused, rfl⟩⟩
  have hquiet : Quiet sampleCrypto sampleFailed (1, sampleRefused) := fun h => hrefused h.1
  refine ⟨⟨history, hhome hreach hfailed (.refl _)⟩, hstep, ?_, ?_⟩
  · exact hroots reachable_sampleFailed rfl (System.Run.single hstep)
  · exact hmessages reachable_sampleFailed rfl (System.Run.single ⟨hstep, hquiet⟩)

end Sample

end Optics.Failed
