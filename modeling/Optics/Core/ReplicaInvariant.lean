/-
# What the trace of a Replica says

The trace explains the storage: a message has the status that its recorded
writes lead to, a root has a confirmation time only if it was the initial root
or was accepted, and the committed root is where the accepted updates lead.
Every recorded proof, call and handled call has its reason earlier in the trace.
-/

import Optics.Core.ReplicaCalls

namespace Optics.Replica

open Optics.Solidity Optics.Common Optics.Math.Transition
open Relation (ReflTransGen)

variable {Byte ω E η : Type}

/-! ### Reading the trace -/

/-- The update that an action accepted. -/
def Action.update? : Action Byte η → Option (SignedUpdate Byte)
  | .event (.Update _ u) => some u
  | _ => none

/-- The updates accepted in a trace, oldest first. -/
def accepted (trace : List (ℕ × Action Byte η)) : List (SignedUpdate Byte) :=
  trace.filterMap fun entry => entry.2.update?

section Reading

variable [DecidableEq Byte] (K : Crypto Byte) (hash : Bytes32 Byte)

/-- The write of the status of a message hash. -/
def Action.statusMove? : Action Byte η → Option (MessageStatus × MessageStatus)
  | .proven leaf _ before => if leaf = hash then some (before, .Proven) else none
  | .called message _ before => if K.keccak256 message = hash then some (before, .Processed) else none
  | _ => none

/-- The writes of the status of a message hash, oldest first. -/
def statusMoves (trace : List (ℕ × Action Byte η)) : List (MessageStatus × MessageStatus) :=
  trace.filterMap fun entry => entry.2.statusMove? K hash

/-- The call of a recipient for a message hash. -/
def Action.handle? : Action Byte η → Option (Handle Byte)
  | .called message handle _ => if K.keccak256 message = hash then some handle else none
  | _ => none

/-- The calls of recipients made for a message hash. -/
def handleCalls (trace : List (ℕ × Action Byte η)) : List (Handle Byte) :=
  trace.filterMap fun entry => entry.2.handle? K hash

end Reading

/-- The writes that lead from `None` to a status, each step in order. -/
def movesTo : MessageStatus → List (MessageStatus × MessageStatus)
  | .None => []
  | .Proven => [(.None, .Proven)]
  | .Processed => [(.None, .Proven), (.Proven, .Processed)]

section Trace

variable {s : Chain Byte E η} {replica : Replica Byte} {actions : List (Action Byte η)}
  {entry : ℕ × Action Byte η}

@[simp] theorem Chain.record_trace :
    (s.record replica actions).trace = s.trace ++ actions.map fun a => (s.now, a) := rfl

@[simp] theorem Chain.record_replica : (s.record replica actions).replica = replica := rfl

@[simp] theorem Chain.record_now : (s.record replica actions).now = s.now := rfl

@[simp] theorem Chain.record_env : (s.record replica actions).env = s.env := rfl

theorem Chain.mem_record :
    entry ∈ (s.record replica actions).trace ↔
      entry ∈ s.trace ∨ ∃ a ∈ actions, entry = (s.now, a) := by
  simp [Chain.record, eq_comm]

theorem accepted_record :
    accepted (s.record replica actions).trace =
      accepted s.trace ++ actions.filterMap Action.update? := by
  simp [accepted, List.filterMap_append, List.filterMap_map]

variable [DecidableEq Byte] {K : Crypto Byte} {hash : Bytes32 Byte}

theorem statusMoves_record :
    statusMoves K hash (s.record replica actions).trace =
      statusMoves K hash s.trace ++ actions.filterMap (Action.statusMove? K hash) := by
  simp [statusMoves, List.filterMap_append, List.filterMap_map]

/-- A call of a recipient is a write of the status `Processed`. -/
theorem length_handleCalls (trace : List (ℕ × Action Byte η)) :
    (handleCalls K hash trace).length =
      ((statusMoves K hash trace).filter fun move => move.2 = .Processed).length := by
  induction trace with
  | nil => rfl
  | cons entry rest ih =>
    obtain ⟨time, action⟩ := entry
    cases action with
    | proven leaf root before =>
      by_cases h : leaf = hash
      · simpa [handleCalls, statusMoves, Action.handle?, Action.statusMove?, h] using ih
      · simpa [handleCalls, statusMoves, Action.handle?, Action.statusMove?, h] using ih
    | called message handle before =>
      by_cases h : K.keccak256 message = hash
      · simpa [handleCalls, statusMoves, Action.handle?, Action.statusMove?, h] using ih
      · simpa [handleCalls, statusMoves, Action.handle?, Action.statusMove?, h] using ih
    | event e => simpa [handleCalls, statusMoves, Action.handle?, Action.statusMove?] using ih
    | handled handle => simpa [handleCalls, statusMoves, Action.handle?, Action.statusMove?] using ih
    | other e => simpa [handleCalls, statusMoves, Action.handle?, Action.statusMove?] using ih

/-- A status becomes `Proven` only by a recorded proof. -/
theorem exists_proven_of_move {trace : List (ℕ × Action Byte η)} {before : MessageStatus}
    (h : (before, .Proven) ∈ statusMoves K hash trace) :
    ∃ time root, (time, .proven hash root before) ∈ trace := by
  obtain ⟨⟨time, action⟩, hmem, hmove⟩ := List.mem_filterMap.mp h
  cases action with
  | proven leaf root before' =>
    simp only [Action.statusMove?] at hmove
    split_ifs at hmove with hleaf
    obtain ⟨rfl, -⟩ := Prod.mk.inj (Option.some.inj hmove)
    exact ⟨time, root, hleaf ▸ hmem⟩
  | called message handle before' =>
    simp only [Action.statusMove?] at hmove
    split_ifs at hmove
    cases hmove
  | event e => cases hmove
  | handled handle => cases hmove
  | other e => cases hmove

end Trace

/-! ### The invariant -/

variable [ByteAlphabet Byte] [DecidableEq Byte] (K : Crypto Byte) (S : Surroundings Byte ω E η)

/-- A root is confirmed at a time: it is the initial root, or it was accepted
long enough before. -/
def ConfirmedBy (root₀ : Bytes32 Byte) (s : Chain Byte E η) (time : ℕ) (root : Bytes32 Byte) :
    Prop :=
  root = root₀ ∨ ∃ t domain u, (t, .event (.Update domain u)) ∈ s.trace ∧ u.newRoot = root ∧
    (t + s.replica.optimisticSeconds) % 2 ^ 256 ≤ time

/-- The trace explains the storage of a Replica that was initialised with
`root₀`, and every entry has its reason. -/
structure Explained (root₀ : Bytes32 Byte) (s : Chain Byte E η) : Prop where
  past : ∀ entry ∈ s.trace, entry.1 ≤ s.now
  sorted : s.trace.Pairwise fun entry later => entry.1 ≤ later.1
  moves : ∀ hash, statusMoves K hash s.trace = movesTo (s.replica.messages hash)
  confirmed : ∀ root time, s.replica.acceptableRoot time root = true → ConfirmedBy root₀ s time root
  proven : ∀ time leaf root before, (time, .proven leaf root before) ∈ s.trace →
    (∃ proof index, root = MerkleLib.branchRoot K leaf proof index) ∧ ConfirmedBy root₀ s time root
  called : ∀ time message handle before, (time, .called message handle before) ∈ s.trace →
    Message.destination message = .ok s.replica.localDomain ∧ handleOf message = .ok handle ∧
      ∃ time' root before', time' ≤ time ∧
        (time', .proven (K.keccak256 message) root before') ∈ s.trace
  handled : ∀ time handle, (time, .handled handle) ∈ s.trace →
    ∃ message before, (time, .called message handle before) ∈ s.trace
  chain : UpdateChain root₀ (accepted s.trace) s.replica.committedRoot
  signed : ∀ u ∈ accepted s.trace, IsSignedBy K s.replica.remoteDomain s.replica.updater u

/-- A Replica just after `initialize`, on a chain in any state. -/
def Chain.Initial (root₀ : Bytes32 Byte) (s : Chain Byte E η) : Prop :=
  ∃ localDomain processGas reserveGas remoteDomain updater optimisticSeconds, ∃ replica,
    deploy localDomain processGas reserveGas = .ok replica ∧
      s.replica = init remoteDomain updater root₀ optimisticSeconds replica ∧ s.trace = []

/-- A Replica under any transactions, reverting ones included. Time does not
decrease from block to block. -/
def system (root₀ : Bytes32 Byte) : System (Chain Byte E η) (ℕ × Call Byte ω) where
  init := Chain.Initial root₀
  step s tx t := s.now ≤ tx.1 ∧ callStep (Chain.transact K S) s tx t

section Steps

variable {K S} {P : SignedUpdate Byte → Prop} {root₀ : Bytes32 Byte} {s s' : Chain Byte E η}

/-- The settings of a Replica that no function changes after `initialize`. -/
structure SameConfig (replica replica' : Replica Byte) : Prop where
  localDomain : replica'.localDomain = replica.localDomain
  remoteDomain : replica'.remoteDomain = replica.remoteDomain
  updater : replica'.updater = replica.updater
  optimisticSeconds : replica'.optimisticSeconds = replica.optimisticSeconds

omit [ByteAlphabet Byte] [DecidableEq Byte] in
theorem SameConfig.refl (replica : Replica Byte) : SameConfig replica replica :=
  ⟨rfl, rfl, rfl, rfl⟩

omit [ByteAlphabet Byte] [DecidableEq Byte] in
theorem SameConfig.trans {a b c : Replica Byte} (h : SameConfig a b) (h' : SameConfig b c) :
    SameConfig a c :=
  ⟨h'.1.trans h.1, h'.2.trans h.2, h'.3.trans h.3, h'.4.trans h.4⟩

omit [ByteAlphabet Byte] [DecidableEq Byte] in
theorem ConfirmedBy.mono {time time' : ℕ} {root : Bytes32 Byte}
    (h : ConfirmedBy root₀ s time root) (htime : time ≤ time') (hsub : s.trace ⊆ s'.trace)
    (hoptimistic : s'.replica.optimisticSeconds = s.replica.optimisticSeconds) :
    ConfirmedBy root₀ s' time' root := by
  rcases h with h | ⟨t, domain, u, hmem, hroot, hle⟩
  · exact .inl h
  · exact .inr ⟨t, domain, u, hsub hmem, hroot, hoptimistic ▸ hle.trans htime⟩

/-- Recording some actions keeps the trace an explanation when the new actions
explain the change of the storage. -/
theorem Explained.record (h : Explained K root₀ s) (env : E) {replica : Replica Byte}
    {actions : List (Action Byte η)} (hconfig : SameConfig s.replica replica)
    (hmoves : ∀ hash, movesTo (s.replica.messages hash) ++
      actions.filterMap (Action.statusMove? K hash) = movesTo (replica.messages hash))
    (hconfirmed : ∀ root time, replica.acceptableRoot time root = true →
      s.replica.acceptableRoot time root = true ∨
        ∃ domain u, Action.event (.Update domain u) ∈ actions ∧ u.newRoot = root ∧
          (s.now + s.replica.optimisticSeconds) % 2 ^ 256 ≤ time)
    (hproven : ∀ leaf root before, Action.proven leaf root before ∈ actions →
      (∃ proof index, root = MerkleLib.branchRoot K leaf proof index) ∧
        s.replica.acceptableRoot s.now root = true)
    (hcalled : ∀ message handle before, Action.called message handle before ∈ actions →
      Message.destination message = .ok s.replica.localDomain ∧ handleOf message = .ok handle ∧
        s.replica.messages (K.keccak256 message) = .Proven)
    (hhandled : ∀ handle, Action.handled handle ∈ actions →
      ∃ message before, (s.now, .called message handle before) ∈ s.trace)
    (hchain : UpdateChain s.replica.committedRoot (actions.filterMap Action.update?)
      replica.committedRoot)
    (hsigned : ∀ u ∈ actions.filterMap Action.update?,
      IsSignedBy K s.replica.remoteDomain s.replica.updater u) :
    Explained K root₀ ({ s with env := env }.record replica actions) := by
  have hsub : s.trace ⊆ ({ s with env := env }.record replica actions).trace :=
    List.subset_append_left _ _
  have hkeep : ∀ {time time' root}, time ≤ time' → ConfirmedBy root₀ s time root →
      ConfirmedBy root₀ ({ s with env := env }.record replica actions) time' root :=
    fun htime hroot => hroot.mono htime hsub hconfig.optimisticSeconds
  constructor
  case past =>
    intro entry hentry
    rcases Chain.mem_record.mp hentry with hold | ⟨action, -, rfl⟩
    · exact h.past entry hold
    · exact Nat.le_refl _
  case sorted =>
    refine List.pairwise_append.mpr ⟨h.sorted, ?_, fun entry hentry later hlater => ?_⟩
    · exact List.pairwise_map.mpr (List.pairwise_of_forall fun _ _ => Nat.le_refl _)
    · obtain ⟨action, -, rfl⟩ := List.mem_map.mp hlater
      exact h.past entry hentry
  case moves =>
    intro hash
    rw [statusMoves_record]
    exact (congrArg (· ++ _) (h.moves hash)).trans (hmoves hash)
  case confirmed =>
    intro root time hroot
    rcases hconfirmed root time hroot with hold | ⟨domain, u, hmem, hnew, hle⟩
    · exact hkeep (Nat.le_refl _) (h.confirmed root time hold)
    · refine .inr ⟨s.now, domain, u, Chain.mem_record.mpr (.inr ⟨_, hmem, rfl⟩), hnew, ?_⟩
      exact hconfig.optimisticSeconds ▸ hle
  case proven =>
    intro time leaf root before hentry
    rcases Chain.mem_record.mp hentry with hold | ⟨action, hmem, heq⟩
    · obtain ⟨hbranch, hroot⟩ := h.proven time leaf root before hold
      exact ⟨hbranch, hkeep (Nat.le_refl _) hroot⟩
    · obtain ⟨rfl, rfl⟩ := Prod.mk.inj heq
      obtain ⟨hbranch, hroot⟩ := hproven leaf root before hmem
      exact ⟨hbranch, hkeep (Nat.le_refl _) (h.confirmed root s.now hroot)⟩
  case called =>
    intro time message handle before hentry
    rcases Chain.mem_record.mp hentry with hold | ⟨action, hmem, heq⟩
    · obtain ⟨hdestination, hhandle, t, root, b, hle, hproof⟩ := h.called _ _ _ _ hold
      exact ⟨hconfig.localDomain ▸ hdestination, hhandle, t, root, b, hle, hsub hproof⟩
    · obtain ⟨rfl, rfl⟩ := Prod.mk.inj heq
      obtain ⟨hdestination, hhandle, hstatus⟩ := hcalled message handle before hmem
      -- the status `Proven` was written by an earlier proof
      have hmove : (MessageStatus.None, MessageStatus.Proven) ∈
          statusMoves K (K.keccak256 message) s.trace := by
        rw [h.moves, hstatus]
        exact List.mem_singleton_self _
      obtain ⟨t, root, hproof⟩ := exists_proven_of_move hmove
      exact ⟨hconfig.localDomain ▸ hdestination, hhandle, t, root, _, h.past _ hproof, hsub hproof⟩
  case handled =>
    intro time handle hentry
    rcases Chain.mem_record.mp hentry with hold | ⟨action, hmem, heq⟩
    · obtain ⟨message, before, hcall⟩ := h.handled time handle hold
      exact ⟨message, before, hsub hcall⟩
    · obtain ⟨rfl, rfl⟩ := Prod.mk.inj heq
      obtain ⟨message, before, hcall⟩ := hhandled handle hmem
      exact ⟨message, before, hsub hcall⟩
  case chain =>
    rw [accepted_record]
    exact h.chain.append hchain
  case signed =>
    intro u hu
    rw [accepted_record] at hu
    rw [Chain.record_replica, hconfig.remoteDomain, hconfig.updater]
    rcases List.mem_append.mp hu with hold | hnew
    · exact h.signed u hold
    · exact hsigned u hnew

/-- Steps keep the settings, the time and what was recorded. -/
theorem Tick.frame (h : Tick K S P s s') :
    SameConfig s.replica s'.replica ∧ s'.now = s.now ∧ s.trace <+: s'.trace := by
  cases h with
  | update => exact ⟨⟨rfl, rfl, rfl, rfl⟩, rfl, List.prefix_append _ _⟩
  | doubleUpdate => exact ⟨⟨rfl, rfl, rfl, rfl⟩, rfl, List.prefix_append _ _⟩
  | prove => exact ⟨⟨rfl, rfl, rfl, rfl⟩, rfl, List.prefix_append _ _⟩
  | called => exact ⟨⟨rfl, rfl, rfl, rfl⟩, rfl, List.prefix_append _ _⟩
  | handled => exact ⟨⟨rfl, rfl, rfl, rfl⟩, rfl, List.prefix_append _ _⟩
  | returned => exact ⟨⟨rfl, rfl, rfl, rfl⟩, rfl, List.prefix_append _ _⟩
  | other => exact ⟨⟨rfl, rfl, rfl, rfl⟩, rfl, List.prefix_append _ _⟩

theorem path_frame (h : ReflTransGen (Tick K S P) s s') :
    SameConfig s.replica s'.replica ∧ s'.now = s.now ∧ s.trace <+: s'.trace := by
  induction h with
  | refl => exact ⟨.refl _, rfl, List.prefix_refl _⟩
  | tail _ hstep ih =>
    obtain ⟨hconfig, hnow, hfront⟩ := hstep.frame
    exact ⟨ih.1.trans hconfig, hnow.trans ih.2.1, ih.2.2.trans hfront⟩

/-- The status `Processed` is final. -/
theorem Tick.processed (h : Tick K S P s s') {hash : Bytes32 Byte}
    (hprocessed : s.replica.messages hash = .Processed) :
    s'.replica.messages hash = .Processed := by
  cases h with
  | prove leaf proof index hnone =>
    have hne : hash ≠ leaf := by
      rintro rfl
      rw [hnone] at hprocessed
      cases hprocessed
    exact (Function.update_of_ne hne _ _).trans hprocessed
  | called message handle hdestination hproven =>
    have hne : hash ≠ K.keccak256 message := by
      rintro rfl
      rw [hproven] at hprocessed
      cases hprocessed
    exact (Function.update_of_ne hne _ _).trans hprocessed
  | _ => exact hprocessed

theorem path_processed (h : ReflTransGen (Tick K S P) s s') {hash : Bytes32 Byte}
    (hprocessed : s.replica.messages hash = .Processed) :
    s'.replica.messages hash = .Processed := by
  induction h with
  | refl => exact hprocessed
  | tail _ hstep ih => exact hstep.processed ih

theorem Call.exec_processed {call : Call Byte ω} (h : call.exec K S s = .ok s')
    {hash : Bytes32 Byte} (hprocessed : s.replica.messages hash = .Processed) :
    s'.replica.messages hash = .Processed := by
  obtain ⟨hpath, -⟩ := Call.exec_path (P := fun _ => True) call s s' (fun _ _ => trivial) h
  exact path_processed hpath hprocessed

/-- `process` returns only after it has processed the message. -/
theorem Chain.process_processed {message : List Byte} {frame : Frame Byte} {inner : Calls Byte ω}
    (h : s.process K S message frame (fun s => inner.exec K S s) = .ok s') :
    s'.replica.messages (K.keccak256 message) = .Processed := by
  rw [Chain.process, bind_eq_ok] at h
  obtain ⟨⟨handle, replica⟩, hbegin, h⟩ := h
  obtain ⟨-, -, -, -, -, rfl⟩ := beginProcess_eq_ok.mp hbegin
  cases hcall : (s.record { s.replica with
      entered := 0
      messages := Function.update s.replica.messages (K.keccak256 message) .Processed }
      [.called message handle (s.replica.messages (K.keccak256 message))]).callRecipient S handle
        frame (fun s => inner.exec K S s) with
  | mk success s₁ =>
    simp only [hcall] at h
    obtain ⟨hpath, -⟩ := Chain.callRecipient_path (P := fun _ => True) rfl
      (fun t t' ht => Calls.exec_path inner t t' (fun _ _ => trivial) ht) hcall
    split at h
    · obtain rfl := Except.ok.inj h
      exact path_processed hpath (Function.update_self _ _ _)
    · cases h

theorem Call.exec_process_processed {message : List Byte} {frame : Frame Byte}
    {inner : Calls Byte ω} (h : (Call.process message frame inner).exec K S s = .ok s') :
    s'.replica.messages (K.keccak256 message) = .Processed := by
  rw [Call.exec] at h
  exact Chain.process_processed h

theorem Call.exec_proveAndProcess_processed {message : List Byte} {proof : ℕ → Bytes32 Byte}
    {index : ℕ} {frame : Frame Byte} {inner : Calls Byte ω}
    (h : (Call.proveAndProcess message proof index frame inner).exec K S s = .ok s') :
    s'.replica.messages (K.keccak256 message) = .Processed := by
  rw [Call.exec, bind_eq_ok] at h
  obtain ⟨⟨proven, s₁⟩, -, h⟩ := h
  exact Chain.process_processed (require_bind_eq_ok.mp h).2

/-- A message that is not proven is not processed. -/
theorem Call.exec_process_error {message : List Byte} (frame : Frame Byte) (inner : Calls Byte ω)
    (h : s.replica.messages (K.keccak256 message) ≠ .Proven) :
    ∃ e, (Call.process message frame inner).exec K S s = .error e := by
  cases hexec : (Call.process message frame inner).exec K S s with
  | error e => exact ⟨e, rfl⟩
  | ok s₁ =>
    rw [Call.exec, Chain.process, bind_eq_ok] at hexec
    obtain ⟨⟨handle, replica⟩, hbegin, -⟩ := hexec
    exact absurd (beginProcess_eq_ok.mp hbegin).2.1 h

omit [ByteAlphabet Byte] [DecidableEq Byte] in
theorem mem_accepted_of_silent {replica : Replica Byte} {actions : List (Action Byte η)}
    {u : SignedUpdate Byte} (hu : u ∈ Replica.accepted (s.record replica actions).trace)
    (hsilent : actions.filterMap Action.update? = []) : u ∈ Replica.accepted s.trace := by
  rwa [accepted_record, hsilent, List.append_nil] at hu

/-- What a step adds to the accepted updates was presented. -/
theorem Tick.accepted (h : Tick K S P s s') {u : SignedUpdate Byte}
    (hu : u ∈ Replica.accepted s'.trace) : u ∈ Replica.accepted s.trace ∨ P u := by
  cases h with
  | update v hpresented =>
    rw [accepted_record] at hu
    rcases List.mem_append.mp hu with hold | hnew
    · exact .inl hold
    · obtain rfl := List.mem_singleton.mp hnew
      exact .inr hpresented
  | doubleUpdate => exact .inl (mem_accepted_of_silent hu rfl)
  | prove => exact .inl (mem_accepted_of_silent hu rfl)
  | called => exact .inl (mem_accepted_of_silent hu rfl)
  | handled => exact .inl (mem_accepted_of_silent hu rfl)
  | returned => exact .inl (mem_accepted_of_silent hu rfl)
  | other call env events hexec =>
    rw [accepted_record] at hu
    left
    simpa [List.filterMap_map, Function.comp_def, Action.update?] using hu

/-- **Step lemma.** Every step keeps the trace an explanation of the storage. -/
theorem Explained.tick (h : Explained K root₀ s) (hstep : Tick K S P s s') :
    Explained K root₀ s' := by
  cases hstep with
  | update u hpresented hstate hcurrent hsigned =>
    refine h.record s.env ⟨rfl, rfl, rfl, rfl⟩ ?_ ?_ ?_ ?_ ?_ ?_ ?_
    · simp [Action.statusMove?]
    · intro root time hroot
      rw [acceptableRoot_eq_true] at hroot
      obtain ⟨hne, hle⟩ := hroot
      dsimp only at hne hle
      by_cases hu : root = u.newRoot
      · -- the timer of the new root was just set
        subst hu
        rw [Function.update_self] at hle
        exact .inr ⟨_, u, List.mem_singleton_self _, rfl, hle⟩
      · rw [Function.update_of_ne hu] at hne hle
        exact .inl (acceptableRoot_eq_true.mpr ⟨hne, hle⟩)
    · simp
    · simp
    · simp
    · exact ⟨hcurrent, rfl⟩
    · simpa [Action.update?] using hsigned
  | doubleUpdate oldRoot newRoot₀ newRoot₁ signature signature₂ =>
    refine h.record s.env ⟨rfl, rfl, rfl, rfl⟩ ?_ (fun _ _ hroot => .inl hroot) ?_ ?_ ?_ ?_ ?_
    · simp [Action.statusMove?, _fail]
    · simp
    · simp
    · simp
    · rfl
    · simp [Action.update?]
  | prove leaf proof index hnone hroot =>
    refine h.record s.env ⟨rfl, rfl, rfl, rfl⟩ ?_ (fun _ _ hroot => .inl hroot) ?_ ?_ ?_ ?_ ?_
    · intro hash
      by_cases hhash : leaf = hash
      · subst hhash
        simp [Action.statusMove?, hnone, movesTo]
      · simp [Action.statusMove?, hhash, Function.update_of_ne (Ne.symm hhash)]
    · intro leaf' root before hmem
      simp only [List.mem_singleton, Action.proven.injEq] at hmem
      obtain ⟨rfl, rfl, -⟩ := hmem
      exact ⟨⟨proof, index, rfl⟩, hroot⟩
    · simp
    · simp
    · rfl
    · simp [Action.update?]
  | called message handle hdestination hproven hentered hhandle =>
    refine h.record s.env ⟨rfl, rfl, rfl, rfl⟩ ?_ (fun _ _ hroot => .inl hroot) ?_ ?_ ?_ ?_ ?_
    · intro hash
      by_cases hhash : K.keccak256 message = hash
      · subst hhash
        simp [Action.statusMove?, hproven, movesTo]
      · simp [Action.statusMove?, hhash, Function.update_of_ne (Ne.symm hhash)]
    · simp
    · intro message' handle' before hmem
      simp only [List.mem_singleton, Action.called.injEq] at hmem
      obtain ⟨rfl, rfl, -⟩ := hmem
      exact ⟨hdestination, hhandle, hproven⟩
    · simp
    · rfl
    · simp [Action.update?]
  | handled before message handle status hlast haccepts =>
    refine h.record s.env ⟨rfl, rfl, rfl, rfl⟩ ?_ (fun _ _ hroot => .inl hroot) ?_ ?_ ?_ ?_ ?_
    · simp [Action.statusMove?]
    · simp
    · simp
    · intro handle' hmem
      simp only [List.mem_singleton, Action.handled.injEq] at hmem
      subst hmem
      refine ⟨message, status, ?_⟩
      rw [hlast]
      exact List.mem_append_right _ (List.mem_singleton_self _)
    · rfl
    · simp [Action.update?]
  | returned messageHash success returnData hentered =>
    refine h.record s.env ⟨rfl, rfl, rfl, rfl⟩ ?_ (fun _ _ hroot => .inl hroot) ?_ ?_ ?_ ?_ ?_
    · simp [Action.statusMove?]
    · simp
    · simp
    · simp
    · rfl
    · simp [Action.update?]
  | other call env events hexec =>
    refine h.record env (.refl _) ?_ (fun _ _ hroot => .inl hroot) ?_ ?_ ?_ ?_ ?_
    · simp [Action.statusMove?, List.filterMap_map, Function.comp_def]
    · simp
    · simp
    · simp
    · simp [Action.update?, List.filterMap_map, Function.comp_def, UpdateChain]
    · simp [Action.update?, List.filterMap_map, Function.comp_def]

/-- The recipient of a message is called at most once. -/
theorem Explained.handleCalls_le_one (h : Explained K root₀ s) (hash : Bytes32 Byte) :
    (handleCalls K hash s.trace).length ≤ 1 := by
  rw [length_handleCalls, h.moves]
  cases s.replica.messages hash with
  | None => exact Nat.zero_le _
  | Proven => exact Nat.zero_le _
  | Processed => exact Nat.le_refl _

theorem Explained.path (h : Explained K root₀ s) (hpath : ReflTransGen (Tick K S P) s s') :
    Explained K root₀ s' := by
  induction hpath with
  | refl => exact h
  | tail _ hstep ih => exact ih.tick hstep

/-- A block of a later time changes nothing of the explanation. -/
theorem Explained.later (h : Explained K root₀ s) {time : ℕ} (htime : s.now ≤ time) :
    Explained K root₀ { s with now := time } where
  past entry hentry := (h.past entry hentry).trans htime
  sorted := h.sorted
  moves := h.moves
  confirmed := h.confirmed
  proven := h.proven
  called := h.called
  handled := h.handled
  chain := h.chain
  signed := h.signed

theorem Chain.Initial.trace_eq (h : s.Initial root₀) : s.trace = [] := by
  obtain ⟨_, _, _, _, _, _, _, -, -, htrace⟩ := h
  exact htrace

theorem Chain.Initial.explained (h : s.Initial root₀) : Explained K root₀ s := by
  obtain ⟨localDomain, processGas, reserveGas, remoteDomain, updater, optimisticSeconds, replica,
    hdeploy, hreplica, htrace⟩ := h
  rw [deploy, require_bind_eq_ok, require_bind_eq_ok] at hdeploy
  obtain ⟨-, -, hdeploy⟩ := hdeploy
  obtain rfl := Except.ok.inj hdeploy
  constructor
  case past => simp [htrace]
  case sorted => simp [htrace]
  case moves => simp [htrace, hreplica, init, statusMoves, movesTo]
  case confirmed =>
    intro root time hroot
    rw [acceptableRoot_eq_true, hreplica] at hroot
    left
    by_contra hne
    exact hroot.1 (Function.update_of_ne hne _ _)
  case proven => simp [htrace]
  case called => simp [htrace]
  case handled => simp [htrace]
  case chain => simp [htrace, hreplica, init, accepted, UpdateChain]
  case signed => simp [htrace, accepted]

end Steps

end Optics.Replica
