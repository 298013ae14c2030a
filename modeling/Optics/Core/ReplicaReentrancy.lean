/-
# Processing at most once

`process` sets the guard and writes the status before it calls the recipient, so
a recipient that comes back finds the guard set and cannot reach the call of
another recipient. Over committed effects a status moves from `None` to `Proven`
to `Processed` and never otherwise, and only the last move comes with a call.
-/

import Optics.Core.ReplicaInvariant

namespace Optics.Replica

open Optics.Solidity Optics.Common Optics.Math.Transition
open Relation (ReflTransGen)

variable {Byte ω E η : Type} [ByteAlphabet Byte] [DecidableEq Byte] {K : Crypto Byte}
  {S : Surroundings Byte ω E η} {root₀ : Bytes32 Byte} {s : Chain Byte E η}

/-! ### The call stack -/

theorem Call.exec_entered {call : Call Byte ω} {s' : Chain Byte E η}
    (h : call.exec K S s = .ok s') : s'.replica.entered = s.replica.entered :=
  (Call.exec_path (P := fun _ => True) call s s' (fun _ _ => trivial) h).2

/-- With the guard set no recipient can be called. -/
theorem beginProcess_of_entered {gasleft : ℕ} {message : List Byte} {replica : Replica Byte}
    (h : replica.entered ≠ 1) : ∃ e, beginProcess K gasleft message replica = .error e := by
  cases hbegin : beginProcess K gasleft message replica with
  | error e => exact ⟨e, rfl⟩
  | ok result =>
    obtain ⟨-, -, hentered, -⟩ := beginProcess_eq_ok.mp hbegin
    exact absurd hentered h

mutual

/-- While the guard is set, a call reaches no recipient, however it nests. -/
theorem Call.handleDepth_of_entered (call : Call Byte ω) (s : Chain Byte E η)
    (h : s.replica.entered ≠ 1) : call.handleDepth K S s = 0 := by
  match call with
  | .update _ => rfl
  | .doubleUpdate _ _ _ _ _ => rfl
  | .prove _ _ _ => rfl
  | .process message frame inner =>
    obtain ⟨e, hbegin⟩ := beginProcess_of_entered (K := K) h
    rw [Call.handleDepth, hbegin]
  | .proveAndProcess message proof index frame inner =>
    rw [Call.handleDepth]
    split
    · next s₁ hprove =>
      have hentered := Chain.prove_entered hprove
      obtain ⟨e, hbegin⟩ := beginProcess_of_entered (K := K) (hentered ▸ h)
      rw [hbegin]
    · rfl
  | .contract inner _ => exact Calls.handleDepth_of_entered inner s h
  | .other _ => rfl

theorem Calls.handleDepth_of_entered (calls : Calls Byte ω) (s : Chain Byte E η)
    (h : s.replica.entered ≠ 1) : calls.handleDepth K S s = 0 := by
  match calls with
  | .nil => rfl
  | .cons call catches rest =>
    rw [Calls.handleDepth, Call.handleDepth_of_entered call s h, Nat.max_eq_right (Nat.zero_le _)]
    split
    · next s₁ hok => exact Calls.handleDepth_of_entered rest s₁ (Call.exec_entered hok ▸ h)
    · split
      · exact Calls.handleDepth_of_entered rest s h
      · rfl

end

/-- Once a message is being processed, no call inside reaches a recipient. -/
theorem Calls.handleDepth_of_begin {gasleft : ℕ} {message : List Byte} {handle : Handle Byte}
    {before after : Replica Byte} (hbegin : beginProcess K gasleft message before =
      .ok (handle, after)) (inner : Calls Byte ω) (s : Chain Byte E η) (hs : s.replica = after) :
    1 + inner.handleDepth K S s = 1 := by
  obtain ⟨-, -, -, -, -, rfl⟩ := beginProcess_eq_ok.mp hbegin
  rw [Calls.handleDepth_of_entered]
  rw [hs]
  simp

mutual

/-- **One recipient at a time.** No call tree has two recipients on the stack. -/
theorem Call.handleDepth_le_one (call : Call Byte ω) (s : Chain Byte E η) :
    call.handleDepth K S s ≤ 1 := by
  match call with
  | .update _ => exact Nat.zero_le _
  | .doubleUpdate _ _ _ _ _ => exact Nat.zero_le _
  | .prove _ _ _ => exact Nat.zero_le _
  | .process message frame inner =>
    rw [Call.handleDepth]
    split
    · next handle replica hbegin =>
      exact (Calls.handleDepth_of_begin hbegin inner _ rfl).le
    · exact Nat.zero_le _
  | .proveAndProcess message proof index frame inner =>
    rw [Call.handleDepth]
    split
    · split
      · next handle replica hbegin =>
        exact (Calls.handleDepth_of_begin hbegin inner _ rfl).le
      · exact Nat.zero_le _
    · exact Nat.zero_le _
  | .contract inner _ => exact Calls.handleDepth_le_one inner s
  | .other _ => exact Nat.zero_le _

theorem Calls.handleDepth_le_one (calls : Calls Byte ω) (s : Chain Byte E η) :
    calls.handleDepth K S s ≤ 1 := by
  match calls with
  | .nil => exact Nat.zero_le _
  | .cons call catches rest =>
    rw [Calls.handleDepth]
    refine Nat.max_le.mpr ⟨Call.handleDepth_le_one call s, ?_⟩
    split
    · exact Calls.handleDepth_le_one rest _
    · split
      · exact Calls.handleDepth_le_one rest s
      · exact Nat.zero_le _

end

/-! ### Runs -/

/-- What holds of a Replica and is kept by every primitive step and by the
passing of time holds after every transaction. -/
theorem invariant_of_tick {Q : Chain Byte E η → Prop} (h : (system K S root₀).Reachable s)
    (hinit : ∀ s, Chain.Initial root₀ s → Q s)
    (hlater : ∀ s time, Q s → s.now ≤ time → Q { s with now := time })
    (htick : ∀ s s', Q s → Tick K S (fun _ => True) s s' → Q s') : Q s := by
  refine h.invariant hinit fun s tx s' _ hQ hstep => ?_
  obtain ⟨htime, hstep⟩ := hstep
  refine callStep_cases (P := fun _ t => Q t) hstep (fun t hexec => ?_) hQ
  obtain ⟨hpath, -⟩ := Call.exec_path (P := fun _ => True) tx.2 _ t (fun _ _ => trivial) hexec
  have hstart := hlater s tx.1 hQ htime
  clear hexec
  induction hpath with
  | refl => exact hstart
  | tail _ hlast ih => exact htick _ _ ih hlast

theorem explained_of_reachable (h : (system K S root₀).Reachable s) : Explained K root₀ s :=
  invariant_of_tick h (fun _ hinit => hinit.explained) (fun _ _ hexplained => hexplained.later)
    fun _ _ hexplained hstep => hexplained.tick hstep

/-- Transactions leave the guard as they found it. -/
theorem entered_of_reachable (h : (system K S root₀).Reachable s) : s.replica.entered = 1 := by
  refine h.invariant (P := fun s => s.replica.entered = 1) ?_ ?_
  · rintro s ⟨localDomain, processGas, reserveGas, remoteDomain, updater, optimisticSeconds,
      replica, -, hreplica, -⟩
    rw [hreplica]
    rfl
  · intro s tx s' _ hentered hstep
    refine callStep_cases (P := fun _ t => t.replica.entered = 1) hstep.2
      (fun t hexec => ?_) hentered
    exact (Call.exec_entered hexec).trans hentered

/-- **Processing at most once.** After any run of transactions with re-entrant
recipients, every status went through `None`, `Proven` and `Processed` in that
order as far as it got, the recipient of a message was called at most once, and
the guard is open. In no transaction that may follow are two recipients on the
call stack. -/
theorem process_at_most_once (h : (system K S root₀).Reachable s) :
    s.replica.entered = 1 ∧
      (∀ hash, statusMoves K hash s.trace = movesTo (s.replica.messages hash)) ∧
      (∀ hash, (handleCalls K hash s.trace).length ≤ 1) ∧
      ∀ (call : Call Byte ω) time, call.handleDepth K S { s with now := time } ≤ 1 := by
  have hexplained := explained_of_reachable h
  exact ⟨entered_of_reachable h, hexplained.moves, hexplained.handleCalls_le_one, fun call time =>
    call.handleDepth_le_one _⟩

/-! ### Calls that succeed -/

/-- A signed update from the committed root is accepted. -/
theorem Call.exec_update {u : SignedUpdate Byte} (hstate : s.replica.state ≠ .Failed)
    (hcurrent : u.oldRoot = s.replica.committedRoot)
    (hsigned : IsSignedBy K s.replica.remoteDomain s.replica.updater u) :
    (Call.update u : Call Byte ω).exec K S s = .ok (s.record { s.replica with
      confirmAt := Function.update s.replica.confirmAt u.newRoot
        ((s.now + s.replica.optimisticSeconds) % 2 ^ 256)
      committedRoot := u.newRoot } [.event (.Update s.replica.remoteDomain u)]) := by
  have hupdate : Replica.update K s.now u.oldRoot u.newRoot u.signature s.replica = .ok _ :=
    update_eq_ok.mpr ⟨hstate, hcurrent, hsigned, rfl, rfl⟩
  rw [Call.exec, hupdate]
  rfl

/-- A call of the other contracts changes only their state. -/
theorem Call.exec_other {call : ω} {env : E} {events : List η}
    (h : S.exec call s.now s.env = .ok (env, events)) :
    (Call.other call : Call Byte ω).exec K S s =
      .ok ({ s with env := env }.record s.replica (events.map .other)) := by
  rw [Call.exec, h]
  rfl

/-- `process` hands a proven message to its recipient, whatever the recipient
does, as long as the gas lasts. -/
theorem Chain.process_of_proven {message : List Byte} {handle : Handle Byte} {frame : Frame Byte}
    (inner : Calls Byte ω) (hproven : s.replica.messages (K.keccak256 message) = .Proven)
    (hentered : s.replica.entered = 1)
    (hdestination : Message.destination message = .ok s.replica.localDomain)
    (hhandle : handleOf message = .ok handle)
    (hgas : (s.replica.PROCESS_GAS + s.replica.RESERVE_GAS) % 2 ^ 256 ≤ frame.gasleft)
    (hcompletes : frame.completes = true) :
    ∃ s', s.process K S message frame (fun s => inner.exec K S s) = .ok s' ∧
      (s.now, .called message handle .Proven) ∈ s'.trace := by
  have hbegin := beginProcess_eq_ok.mpr ⟨hdestination, hproven, hentered, hgas, hhandle, rfl⟩
  cases hcall : (s.record { s.replica with
      entered := 0
      messages := Function.update s.replica.messages (K.keccak256 message) .Processed }
      [.called message handle (s.replica.messages (K.keccak256 message))]).callRecipient S handle
        frame (fun s => inner.exec K S s) with
  | mk success s₁ =>
    -- what is recorded before the call of the recipient stays recorded
    obtain ⟨hpath, -⟩ := Chain.callRecipient_path (P := fun _ => True) rfl
      (fun t t' ht => Calls.exec_path inner t t' (fun _ _ => trivial) ht) hcall
    obtain ⟨-, -, hfront⟩ := path_frame hpath
    refine ⟨s₁.record { s₁.replica with entered := 1 } [.event (.Process (K.keccak256 message)
      success (frame.returnData.take 256))], ?_, ?_⟩
    · rw [Chain.process, hbegin, ok_bind]
      simp only [hcall, hcompletes, if_true]
      rfl
    · refine List.mem_append_left _ (hfront.subset ?_)
      rw [hproven]
      exact Chain.mem_record.mpr (.inr ⟨_, List.mem_singleton_self _, rfl⟩)

/-- A message with a proof under an acceptable root is processed in one call. -/
theorem Call.exec_proveAndProcess {message : List Byte} {handle : Handle Byte}
    {proof : ℕ → Bytes32 Byte} {index : ℕ} (frame : Frame Byte) (inner : Calls Byte ω)
    (hnone : s.replica.messages (K.keccak256 message) = .None)
    (hroot : s.replica.acceptableRoot s.now
      (MerkleLib.branchRoot K (K.keccak256 message) proof index) = true)
    (hentered : s.replica.entered = 1)
    (hdestination : Message.destination message = .ok s.replica.localDomain)
    (hhandle : handleOf message = .ok handle)
    (hgas : (s.replica.PROCESS_GAS + s.replica.RESERVE_GAS) % 2 ^ 256 ≤ frame.gasleft)
    (hcompletes : frame.completes = true) :
    ∃ s', (Call.proveAndProcess message proof index frame inner).exec K S s = .ok s' ∧
      (s.now, .called message handle .Proven) ∈ s'.trace := by
  have hprove := prove_eq_ok.mpr ⟨hnone, hroot.symm, rfl⟩
  obtain ⟨s', hprocess, hcalled⟩ := Chain.process_of_proven (K := K) (S := S)
    (s := s.record { s.replica with
      messages := Function.update s.replica.messages (K.keccak256 message) .Proven }
      [.proven (K.keccak256 message) (MerkleLib.branchRoot K (K.keccak256 message) proof index)
        (s.replica.messages (K.keccak256 message))])
    inner (Function.update_self _ _ _) hentered hdestination hhandle hgas hcompletes
  refine ⟨s', ?_, hcalled⟩
  rw [Call.exec, Chain.prove, hprove, ok_bind]
  exact hprocess

/-- A message whose recipient does not accept the call is processed all the
same, and the recipient does nothing. -/
theorem Call.exec_proveAndProcess_refused {message : List Byte} {handle : Handle Byte}
    {proof : ℕ → Bytes32 Byte} {index : ℕ} (frame : Frame Byte) (inner : Calls Byte ω)
    (hnone : s.replica.messages (K.keccak256 message) = .None)
    (hroot : s.replica.acceptableRoot s.now
      (MerkleLib.branchRoot K (K.keccak256 message) proof index) = true)
    (hentered : s.replica.entered = 1)
    (hdestination : Message.destination message = .ok s.replica.localDomain)
    (hhandle : handleOf message = .ok handle)
    (hgas : (s.replica.PROCESS_GAS + s.replica.RESERVE_GAS) % 2 ^ 256 ≤ frame.gasleft)
    (hcompletes : frame.completes = true) (hrefused : S.accepts handle.recipient s.env = false) :
    (Call.proveAndProcess message proof index frame inner).exec K S s =
      .ok (s.record { s.replica with
        entered := 1
        messages := Function.update
          (Function.update s.replica.messages (K.keccak256 message) .Proven)
          (K.keccak256 message) .Processed } [
        .proven (K.keccak256 message) (MerkleLib.branchRoot K (K.keccak256 message) proof index) .None,
        .called message handle .Proven,
        .event (.Process (K.keccak256 message) false (frame.returnData.take 256))]) := by
  let proven := { s.replica with
    messages := Function.update s.replica.messages (K.keccak256 message) .Proven }
  have hprove : Replica.prove K s.now (K.keccak256 message) proof index s.replica =
      .ok (true, proven) := prove_eq_ok.mpr ⟨hnone, hroot.symm, rfl⟩
  have hproven : proven.messages (K.keccak256 message) = .Proven := Function.update_self _ _ _
  have hbegin : beginProcess K frame.gasleft message proven = .ok (handle, _) :=
    beginProcess_eq_ok.mpr ⟨hdestination, hproven, hentered, hgas, hhandle, rfl⟩
  rw [Call.exec, Chain.prove, hprove]
  simp only [ok_bind, if_true, require_of, Chain.process, Chain.record_replica, hbegin,
    Chain.callRecipient, Chain.record_env, hrefused, Bool.false_and, Bool.false_eq_true, if_false,
    hcompletes, hproven, hnone, endProcess]
  simp [Chain.record, proven]

/-- Any updates that the updater has signed, each from where the last one ended, can
be accepted one after the other. -/
theorem exists_accepted {us : List (SignedUpdate Byte)} {finish : Bytes32 Byte}
    (h : (system K S root₀).Reachable s) (hstate : s.replica.state ≠ .Failed)
    (hchain : UpdateChain s.replica.committedRoot us finish)
    (hsigned : ∀ u ∈ us, IsSignedBy K s.replica.remoteDomain s.replica.updater u) :
    ∃ t, (system K S root₀).Reachable t ∧ accepted t.trace = accepted s.trace ++ us ∧
      t.replica.committedRoot = finish := by
  induction us generalizing s with
  | nil => exact ⟨s, h, (List.append_nil _).symm, hchain⟩
  | cons u rest ih =>
    have hexec := Call.exec_update (ω := ω) (S := S) hstate hchain.1
      (hsigned u List.mem_cons_self)
    have hstep : (system K S root₀).step s (s.now, .update u) _ := ⟨Nat.le_refl _, .inl hexec⟩
    obtain ⟨t, hreach, haccepted, hroot⟩ := ih (h.step hstep) hstate hchain.2 fun v hv =>
      hsigned v (List.mem_cons_of_mem u hv)
    refine ⟨t, hreach, ?_, hroot⟩
    rw [haccepted, accepted_record, List.append_assoc]
    rfl

/-- A Replica that was just deployed and initialised, with the least gas
amounts. -/
def Chain.deployed (localDomain remoteDomain : UInt32) (updater : Address Byte)
    (root : Bytes32 Byte) (optimisticSeconds now : ℕ) (env : E) : Chain Byte E η where
  replica := init remoteDomain updater root optimisticSeconds
    { localDomain := localDomain
      PROCESS_GAS := 850000
      RESERVE_GAS := 15000
      updater := 0
      state := .UnInitialized
      committedRoot := 0
      remoteDomain := 0
      optimisticSeconds := 0
      entered := 0
      confirmAt := fun _ => 0
      messages := fun _ => .None }
  env := env
  now := now
  trace := []

theorem Chain.deployed_initial (localDomain remoteDomain : UInt32) (updater : Address Byte)
    (root : Bytes32 Byte) (optimisticSeconds now : ℕ) (env : E) :
    (Chain.deployed localDomain remoteDomain updater root optimisticSeconds now env :
      Chain Byte E η).Initial root :=
  ⟨localDomain, 850000, 15000, remoteDomain, updater, optimisticSeconds, _, rfl, rfl, rfl⟩

/-! ### A sample -/

/-- Every signature is the updater's. -/
def sampleUpdater : Address ℕ := List.Vector.replicate 20 7

def sampleCrypto : Crypto ℕ := Crypto.withIdealHash fun _ _ => some sampleUpdater

def sampleSurroundings : Surroundings ℕ Empty Unit Unit :=
  ⟨fun _ _ _ => .error .assert, fun _ _ => true⟩

def sampleMessage : List ℕ := Message.formatMessage 1000 0 0 2000 0 []

/-- The root of the tree with the message alone. -/
def sampleRoot : Bytes32 ℕ :=
  MerkleLib.branchRoot sampleCrypto (sampleCrypto.keccak256 sampleMessage) (fun _ => 0) 0

def sampleStart : Chain ℕ Unit Unit :=
  .deployed 2000 1000 sampleUpdater sampleRoot 1800 1 ()

theorem sampleStart_reachable :
    (system sampleCrypto sampleSurroundings sampleRoot).Reachable sampleStart :=
  System.reachable_init (Chain.deployed_initial 2000 1000 sampleUpdater sampleRoot 1800 1 ())

/-- The root that the sample was initialised with is acceptable from time 1 on. -/
theorem acceptableRoot_sampleRoot {time : ℕ} (h : 1 ≤ time) :
    sampleStart.replica.acceptableRoot time sampleRoot = true := by
  rw [acceptableRoot_eq_true]
  simpa [sampleStart, Chain.deployed, init] using h

/-- The recipient of a message comes back with the same message. -/
theorem process_at_most_once_reentered :
    ∃ (K : Crypto ℕ) (message : List ℕ) (handle : Handle ℕ) (s : Chain ℕ Unit Unit),
      (1, .called message handle .Proven) ∈ s.trace ∧ s.replica.entered = 1 ∧
      (∀ hash, statusMoves K hash s.trace = movesTo (s.replica.messages hash)) ∧
      (∀ hash, (handleCalls K hash s.trace).length ≤ 1) ∧
      ∀ (call : Call ℕ Empty) time,
        call.handleDepth K ⟨fun _ _ _ => .error .assert, fun _ _ => true⟩
          { s with now := time } ≤ 1 := by
  let K : Crypto ℕ := Crypto.withIdealHash fun _ _ => none
  let S : Surroundings ℕ Empty Unit Unit := ⟨fun _ _ _ => .error .assert, fun _ _ => true⟩
  let message : List ℕ := Message.formatMessage 1000 0 0 2000 0 []
  let frame : Frame ℕ := ⟨865000, true, [], true⟩
  let tx : Call ℕ Empty := .proveAndProcess message (fun _ => 0) 0 frame
    (.cons (.process message frame .nil) true .nil)
  let root := MerkleLib.branchRoot K (K.keccak256 message) (fun _ => 0) 0
  let start : Chain ℕ Unit Unit := .deployed 2000 1000 0 root 1800 1 ()
  have hroot : start.replica.acceptableRoot 1 root = true := by
    rw [acceptableRoot_eq_true]
    simp [start, Chain.deployed, init]
  obtain ⟨s, hexec, hcalled⟩ := Call.exec_proveAndProcess (S := S) (s := start) frame
    (.cons (.process message frame .nil) true .nil) rfl hroot rfl
    (Message.destination_formatMessage _ _ _ _ _ _) (handleOf_formatMessage _ _ _ _ _ _)
    (by decide) rfl
  have hreach : (system K S root).Reachable start :=
    System.reachable_init (Chain.deployed_initial 2000 1000 0 root 1800 1 ())
  have hstep : (system K S root).step start (1, tx) s := ⟨Nat.le_refl 1, .inl hexec⟩
  exact ⟨K, message, _, s, hcalled, process_at_most_once (hreach.step hstep)⟩

end Optics.Replica
