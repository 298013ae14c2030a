/-
# Watching a contract

The contract takes steps of its own while ContractSync stores its events, write by
write, and the walkers read what is stored. Over a contract that never comes back
to a root, started after the first update, the walkers send every update and the
backward one finishes. Home is such a contract whatever its updater signs. A
Replica is one as long as its updater lets it.
-/

import Optics.Agents.Watcher
import Optics.Core.HomeInvariant
import Optics.Core.ReplicaReentrancy

namespace Optics.Watcher

open Optics.Solidity Optics.Common Optics.Math Optics.Math.Transition

variable {Byte σ ℓ : Type}

/-! ### A watched contract -/

/-- A contract as the watcher knows it: its committed root and its `Update` events,
which lead from the first root to the committed one. -/
structure Contract (σ ℓ Byte : Type) where
  system : System σ ℓ
  committedRoot : σ → Bytes32 Byte
  accepted : σ → List (SignedUpdate Byte)
  firstRoot : Bytes32 Byte
  chain : ∀ s, system.Reachable s → UpdateChain firstRoot (accepted s) (committedRoot s)
  grows : ∀ s label t, system.step s label t → accepted s <+: accepted t

/-- A contract, the database of its ContractSync, the number of events that have been
stored, the event that is being stored with the writes that are left, and the tasks
of the watcher. -/
structure State (σ Byte : Type) where
  contract : σ
  db : OpticsDB Byte
  stored : ℕ
  storing : Option (ℕ × List (OpticsDB.Put Byte))
  walkers : Option (Walkers Byte)

/-- What can happen next. The scan of ContractSync takes the next event or, after a
restart and at the edge of a scanned range, one that was stored before. -/
inductive Label (ℓ : Type)
  | contract (label : ℓ)
  | sync (index : ℕ)
  | write
  | start
  | poll
  | history
  | crash

/-- A round of the forward task. -/
def Label.isPoll : Label ℓ → Bool
  | .poll => true
  | _ => false

/-- A step of the backward task. -/
def Label.isHistory : Label ℓ → Bool
  | .history => true
  | _ => false

theorem Label.eq_poll {label : Label ℓ} (h : label.isPoll = true) : label = .poll := by
  cases label with
  | poll => rfl
  | _ => cases h

theorem Label.eq_history {label : Label ℓ} (h : label.isHistory = true) : label = .history := by
  cases label with
  | history => rfl
  | _ => cases h

namespace Contract

variable (C : Contract σ ℓ Byte)

section System

variable [ByteAlphabet Byte] [DecidableEq Byte]

/-- A step of the watcher's process. -/
def exec : Label ℓ → State σ Byte → Option (State σ Byte)
  | .contract _, _ => none
  | .sync index, s =>
    match s.storing, (C.accepted s.contract)[index]? with
    -- one event at a time, and none is left out
    | none, some update =>
      if index ≤ s.stored then
        some { s with storing := some (index, s.db.storeLatestUpdate update) }
      else none
    | _, _ => none
  | .write, s =>
    match s.storing with
    | some (index, [write]) =>
      some { s with db := s.db.put write, stored := max s.stored (index + 1), storing := none }
    | some (index, write :: rest) =>
      some { s with db := s.db.put write, storing := some (index, rest) }
    | _ => none
  | .start, s => some { s with walkers := some (.spawn (C.committedRoot s.contract)) }
  | .poll, s => s.walkers.map fun w =>
      { s with walkers := some { w with watcher := w.watcher.pollAndSendUpdate s.db } }
  | .history, s => s.walkers.map fun w =>
      { s with walkers := some { w with history := w.history.advance s.db } }
  | .crash, s => some { s with storing := none, walkers := none }

/-- The contract and the watcher, which starts with an empty database. -/
def watched : System (State σ Byte) (Label ℓ) where
  init s := C.system.init s.contract ∧ s.db = .empty ∧ s.stored = 0 ∧ s.storing = none ∧
    s.walkers = none
  step s label t :=
    match label with
    | .contract label => C.system.step s.contract label t.contract ∧
        t = { s with contract := t.contract }
    | label => C.exec label s = some t

end System

/-- The tasks are started only after the first update. -/
def StartsLate (s : State σ Byte) (label : Label ℓ) : Prop :=
  label = .start → C.accepted s.contract ≠ []

/-- No accepted update leads to a root that the contract had before. -/
def Fresh (s : σ) : Prop := (C.firstRoot :: (C.accepted s).map SignedUpdate.newRoot).Nodup

/-- All events so far are stored. -/
def AllStored (s : State σ Byte) : Prop := s.stored = (C.accepted s.contract).length

/-- A continuation in which the tasks are left alone and each has time for all
events of the state where it begins. -/
structure Patient (s : State σ Byte) (labels : List (Label ℓ)) : Prop where
  undisturbed : ∀ label ∈ labels, label ≠ .start ∧ label ≠ .crash
  polls : (C.accepted s.contract).length ≤ labels.countP Label.isPoll
  rounds : 2 * (C.accepted s.contract).length ≤ labels.countP Label.isHistory

/-- The backward task has finished, and every update of the first state was sent. -/
def Seen (s t : State σ Byte) : Prop :=
  ∃ w, t.walkers = some w ∧ w.history.finished = true ∧
    ∀ u ∈ C.accepted s.contract, u ∈ w.watcher.tx ∨ u ∈ w.history.tx

end Contract

/-! ### Runs -/

namespace Contract

variable {C : Contract σ ℓ Byte} {s t : State σ Byte} {label : Label ℓ} {labels : List (Label ℓ)}

/-- The accepted updates of a reachable contract without a root met twice. -/
theorem simple {c : σ} (h : C.system.Reachable c) (hfresh : C.Fresh c) :
    ends.Simple C.firstRoot (C.accepted c) :=
  ⟨(chain_of_updateChain (C.chain c h)).1, hfresh⟩

theorem Fresh.of_prefix {c c' : σ} (h : C.Fresh c') (hgrow : C.accepted c <+: C.accepted c') :
    C.Fresh c := by
  obtain ⟨more, hmore⟩ := hgrow
  rw [Fresh, ← hmore, List.map_append, ← List.cons_append] at h
  exact h.of_append_left

/-- The tables hold the accepted updates, and the tasks are on their way along them. -/
structure Sound (C : Contract σ ℓ Byte) (s : State σ Byte) : Prop where
  rows : Rows (C.accepted s.contract) s.stored s.db
  pending : ∀ index writes, s.storing = some (index, writes) →
    Pending (C.accepted s.contract) s.stored s.db index writes
  walk : ∀ w, s.walkers = some w →
    ∃ b k f, Walk C.firstRoot (C.accepted s.contract) s.db w b k f

/-- What a step keeps: events, stored events and rows only become more. -/
structure Kept (C : Contract σ ℓ Byte) (s t : State σ Byte) : Prop where
  accepted : C.accepted s.contract <+: C.accepted t.contract
  stored : s.stored ≤ t.stored
  update : ∀ root u, s.db.update root = some u → t.db.update root = some u

theorem kept_of_eq (hcontract : t.contract = s.contract) (hstored : t.stored = s.stored)
    (hupdate : t.db.update = s.db.update) : C.Kept s t where
  accepted := by rw [hcontract]
  stored := hstored.ge
  update root u hrow := by rwa [hupdate]

variable [ByteAlphabet Byte] [DecidableEq Byte]

/-! #### Steps of ContractSync -/

variable {index : ℕ}

theorem exec_sync_eq_some (h : C.exec (.sync index) s = some t) :
    ∃ u, (C.accepted s.contract)[index]? = some u ∧ index ≤ s.stored ∧
      t = { s with storing := some (index, s.db.storeLatestUpdate u) } := by
  rw [exec] at h
  split at h
  · next u _ hu =>
    split_ifs at h with hindex
    exact ⟨u, hu, hindex, (Option.some.inj h).symm⟩
  · cases h

/-- A write is the next one of the event that is being stored. -/
theorem exec_write_eq_some (h : C.exec .write s = some t) :
    ∃ index write rest, s.storing = some (index, write :: rest) ∧
      (rest = [] ∧ t = { s with
          db := s.db.put write, stored := max s.stored (index + 1), storing := none } ∨
        rest ≠ [] ∧ t = { s with db := s.db.put write, storing := some (index, rest) }) := by
  rw [exec] at h
  split at h
  · next index write hstoring =>
    exact ⟨index, write, [], hstoring, .inl ⟨rfl, (Option.some.inj h).symm⟩⟩
  · next index write rest hlast hstoring =>
    exact ⟨index, write, rest, hstoring, .inr ⟨hlast, (Option.some.inj h).symm⟩⟩
  · cases h

/-- A write keeps the tables in order. -/
theorem Sound.write (h : C.Sound s) (hsimple : ends.Simple C.firstRoot (C.accepted s.contract))
    (hexec : C.exec .write s = some t) :
    Rows (C.accepted t.contract) t.stored t.db ∧
      (∀ index writes, t.storing = some (index, writes) →
        Pending (C.accepted t.contract) t.stored t.db index writes) ∧
      C.Kept s t ∧ t.contract = s.contract ∧ t.walkers = s.walkers := by
  obtain ⟨index, write, rest, hstoring, hcases⟩ := exec_write_eq_some hexec
  obtain ⟨hindex, u, hu, hwrites⟩ := h.pending index _ hstoring
  have hmem := List.mem_of_getElem? hu
  rcases hwrites with ⟨hwrite, hrow⟩ | hwrite | ⟨root, hwrite⟩
  · -- the last write
    obtain ⟨rfl, rfl⟩ := List.cons.inj hwrite
    rcases hcases with ⟨-, rfl⟩ | ⟨hne, -⟩
    · have hrows := h.rows.put_prevRoot hsimple hmem hrow
      refine ⟨hrows.stored_succ hindex hu hrow OpticsDB.put_prevRoot_self, ?_, ?_, rfl, rfl⟩
      · intro index writes hnone
        cases hnone
      · exact ⟨List.prefix_rfl, le_max_left _ _, fun _ _ hrow => hrow⟩
    · exact absurd rfl hne
  · -- the row by previous root, with the other row to come
    obtain ⟨rfl, rfl⟩ := List.cons.inj hwrite
    rcases hcases with ⟨hnil, -⟩ | ⟨-, rfl⟩
    · cases hnil
    · refine ⟨h.rows.put_update hsimple hmem, ?_, ?_, rfl, rfl⟩
      · intro index' writes hsome
        obtain ⟨rfl, rfl⟩ := Prod.mk.inj (Option.some.inj hsome)
        exact ⟨hindex, u, hu, .inl ⟨rfl, OpticsDB.put_update_self⟩⟩
      · exact ⟨List.prefix_rfl, Nat.le_refl _, fun _ _ => h.rows.update_put hsimple hmem⟩
  · -- the latest root, which the walkers do not read
    obtain ⟨rfl, rfl⟩ := List.cons.inj hwrite
    rcases hcases with ⟨hnil, -⟩ | ⟨-, rfl⟩
    · cases hnil
    · refine ⟨⟨h.rows.fits, h.rows.update, h.rows.prevRoot, h.rows.held⟩, ?_, ?_, rfl, rfl⟩
      · intro index' writes hsome
        obtain ⟨rfl, rfl⟩ := Prod.mk.inj (Option.some.inj hsome)
        exact ⟨hindex, u, hu, .inr (.inl rfl)⟩
      · exact kept_of_eq rfl rfl rfl

/-- Any step keeps the tables in order. -/
theorem Sound.tables (h : C.Sound s) (hsimple : ends.Simple C.firstRoot (C.accepted s.contract))
    (hstep : C.watched.step s label t) :
    Rows (C.accepted t.contract) t.stored t.db ∧
      (∀ index writes, t.storing = some (index, writes) →
        Pending (C.accepted t.contract) t.stored t.db index writes) ∧ C.Kept s t := by
  cases label with
  | contract label =>
    -- the contract takes no notice of the watcher
    obtain ⟨hcontract, ht⟩ := hstep
    obtain ⟨more, hmore⟩ := C.grows _ _ _ hcontract
    rw [ht]
    -- new events come after those that are stored
    dsimp only
    rw [← hmore]
    refine ⟨h.rows.grow, fun index writes hstoring => (h.pending index writes hstoring).grow, ?_⟩
    exact ⟨⟨more, hmore⟩, Nat.le_refl _, fun _ _ hrow => hrow⟩
  | sync index =>
    obtain ⟨u, hu, hindex, rfl⟩ := exec_sync_eq_some hstep
    refine ⟨h.rows, ?_, kept_of_eq rfl rfl rfl⟩
    intro index' writes hsome
    obtain ⟨rfl, rfl⟩ := Prod.mk.inj (Option.some.inj hsome)
    exact pending_storeLatestUpdate hindex hu
  | write =>
    obtain ⟨hrows, hpending, hkept, -⟩ := h.write hsimple hstep
    exact ⟨hrows, hpending, hkept⟩
  | start =>
    obtain rfl := Option.some.inj hstep
    exact ⟨h.rows, h.pending, kept_of_eq rfl rfl rfl⟩
  | poll =>
    obtain ⟨w, -, rfl⟩ := Option.map_eq_some_iff.mp hstep
    exact ⟨h.rows, h.pending, kept_of_eq rfl rfl rfl⟩
  | history =>
    obtain ⟨w, -, rfl⟩ := Option.map_eq_some_iff.mp hstep
    exact ⟨h.rows, h.pending, kept_of_eq rfl rfl rfl⟩
  | crash =>
    obtain rfl := Option.some.inj hstep
    -- what was being stored is forgotten, and what is in the tables stays
    refine ⟨h.rows, ?_, kept_of_eq rfl rfl rfl⟩
    intro index writes hnone
    cases hnone

/-! #### Steps of the tasks -/

/-- A step that is not one of the tasks' own leaves them as they are. -/
theorem Sound.walkers_eq (h : C.Sound s)
    (hsimple : ends.Simple C.firstRoot (C.accepted s.contract)) (hstep : C.watched.step s label t)
    (hlabel : label ≠ .start ∧ label ≠ .crash) (hpoll : label.isPoll = false)
    (hhistory : label.isHistory = false) : t.walkers = s.walkers := by
  cases label with
  | contract label =>
    obtain ⟨-, ht⟩ := hstep
    rw [ht]
  | sync index =>
    obtain ⟨u, -, -, rfl⟩ := exec_sync_eq_some hstep
    rfl
  | write =>
    obtain ⟨-, -, -, -, hsame⟩ := h.write hsimple hstep
    exact hsame
  | start => exact absurd rfl hlabel.1
  | crash => exact absurd rfl hlabel.2
  | poll => cases hpoll
  | history => cases hhistory

/-- How far a step takes the tasks. A round of the forward task goes on where the next
update is stored, and a step of the backward task succeeds or finishes where the
update before it is stored. -/
structure Progress (label : Label ℓ) (stored b f f' : ℕ) (w w' : Walkers Byte) : Prop where
  le : f ≤ f'
  poll : label.isPoll = true → f < stored → f < f'
  running : w'.history.finished = false → w.history.finished = false
  steps : w'.history.finished = false → w.history.steps ≤ w'.history.steps
  history : label.isHistory = true → b ≤ stored → w'.history.finished = false →
    w.history.steps < w'.history.steps

/-- While the tasks are neither started nor stopped they stay on their way. -/
theorem Sound.walk_step (h : C.Sound s)
    (hsimple : ends.Simple C.firstRoot (C.accepted s.contract)) (hzero : C.firstRoot = 0)
    (hstep : C.watched.step s label t) (hlabel : label ≠ .start ∧ label ≠ .crash) {w : Walkers Byte}
    {b k f : ℕ} (hw : s.walkers = some w)
    (hwalk : Walk C.firstRoot (C.accepted s.contract) s.db w b k f) :
    ∃ w' b' f', t.walkers = some w' ∧
      Walk C.firstRoot (C.accepted t.contract) t.db w' b' k f' ∧
      Progress label s.stored b f f' w w' := by
  cases hpoll : label.isPoll with
  | true =>
    obtain rfl := Label.eq_poll hpoll
    obtain ⟨w', hw', rfl⟩ := Option.map_eq_some_iff.mp hstep
    obtain rfl := Option.some.inj (hw'.symm.trans hw)
    obtain ⟨f', hwalk', hcases, hgo⟩ := hwalk.poll h.rows hsimple
    refine ⟨_, b, f', rfl, hwalk', ?_⟩
    exact {
      le := by omega
      poll := fun _ hlt => by omega
      running := id
      steps := fun _ => Nat.le_refl _
      history := fun hhistory => by cases hhistory }
  | false =>
    cases hhistory : label.isHistory with
    | true =>
      obtain rfl := Label.eq_history hhistory
      obtain ⟨w', hw', rfl⟩ := Option.map_eq_some_iff.mp hstep
      obtain rfl := Option.some.inj (hw'.symm.trans hw)
      rw [hzero] at hwalk hsimple ⊢
      obtain ⟨b', hwalk', hprogress⟩ := hwalk.advance h.rows hsimple
      refine ⟨_, b', f, rfl, hwalk', ?_⟩
      exact {
        le := Nat.le_refl f
        poll := fun hpoll => by cases hpoll
        running := fun hrunning => (hprogress hrunning).1
        steps := fun hrunning => (hprogress hrunning).2.1
        history := fun _ hb hrunning => (hprogress hrunning).2.2 hb }
    | false =>
      obtain ⟨-, -, hkept⟩ := h.tables hsimple hstep
      obtain ⟨more, hmore⟩ := hkept.accepted
      have hsame := h.walkers_eq hsimple hstep hlabel hpoll hhistory
      refine ⟨w, b, f, hsame.trans hw, hmore ▸ hwalk.mono hkept.update, ?_⟩
      exact {
        le := Nat.le_refl f
        poll := fun hpoll' => by simp [hpoll] at hpoll'
        running := id
        steps := fun _ => Nat.le_refl _
        history := fun hhistory' => by simp [hhistory] at hhistory' }

/-- Only a start brings tasks where there were none. -/
theorem Sound.exists_walkers (h : C.Sound s)
    (hsimple : ends.Simple C.firstRoot (C.accepted s.contract)) (hstep : C.watched.step s label t)
    (hlabel : label ≠ .start ∧ label ≠ .crash) {w : Walkers Byte} (hw : t.walkers = some w) :
    ∃ w', s.walkers = some w' := by
  cases label with
  | contract label => exact ⟨w, (h.walkers_eq hsimple hstep hlabel rfl rfl).symm.trans hw⟩
  | sync index => exact ⟨w, (h.walkers_eq hsimple hstep hlabel rfl rfl).symm.trans hw⟩
  | write => exact ⟨w, (h.walkers_eq hsimple hstep hlabel rfl rfl).symm.trans hw⟩
  | start => exact absurd rfl hlabel.1
  | crash => exact absurd rfl hlabel.2
  | poll =>
    obtain ⟨w', hw', -⟩ := Option.map_eq_some_iff.mp hstep
    exact ⟨w', hw'⟩
  | history =>
    obtain ⟨w', hw', -⟩ := Option.map_eq_some_iff.mp hstep
    exact ⟨w', hw'⟩

/-- **Step lemma.** -/
theorem Sound.step (h : C.Sound s) (hreach : C.system.Reachable s.contract)
    (hsimple : ends.Simple C.firstRoot (C.accepted s.contract)) (hzero : C.firstRoot = 0)
    (hstep : C.watched.step s label t) (hlate : C.StartsLate s label) : C.Sound t := by
  obtain ⟨hrows, hpending, -⟩ := h.tables hsimple hstep
  refine ⟨hrows, hpending, fun w' hw' => ?_⟩
  by_cases hstart : label = .start
  · subst hstart
    obtain rfl := Option.some.inj hstep
    obtain rfl := Option.some.inj hw'
    exact ⟨_, _, _, walk_spawn (C.chain _ hreach) (hlate rfl)⟩
  · by_cases hcrash : label = .crash
    · subst hcrash
      obtain rfl := Option.some.inj hstep
      cases hw'
    · obtain ⟨w, hw⟩ := h.exists_walkers hsimple hstep ⟨hstart, hcrash⟩ hw'
      obtain ⟨b, k, f, hwalk⟩ := h.walk w hw
      obtain ⟨w'', b', f', hw'', hwalk', -⟩ :=
        h.walk_step hsimple hzero hstep ⟨hstart, hcrash⟩ hw hwalk
      obtain rfl := Option.some.inj (hw'.symm.trans hw'')
      exact ⟨b', k, f', hwalk'⟩

/-! #### Whole runs -/

theorem contract_eq (h : C.exec label s = some t) : t.contract = s.contract := by
  cases label with
  | contract label => cases h
  | sync index =>
    obtain ⟨u, -, -, rfl⟩ := exec_sync_eq_some h
    rfl
  | write =>
    obtain ⟨index, write, rest, -, ⟨-, rfl⟩ | ⟨-, rfl⟩⟩ := exec_write_eq_some h
    · rfl
    · rfl
  | start =>
    obtain rfl := Option.some.inj h
    rfl
  | poll =>
    obtain ⟨w, -, rfl⟩ := Option.map_eq_some_iff.mp h
    rfl
  | history =>
    obtain ⟨w, -, rfl⟩ := Option.map_eq_some_iff.mp h
    rfl
  | crash =>
    obtain rfl := Option.some.inj h
    rfl

/-- A step is one of the contract's own, or leaves the contract as it is. -/
theorem step_contract (h : C.watched.step s label t) :
    (∃ label, C.system.step s.contract label t.contract) ∨ t.contract = s.contract := by
  cases label with
  | contract label => exact .inl ⟨label, h.1⟩
  | _ => exact .inr (contract_eq h)

theorem accepted_step (h : C.watched.step s label t) :
    C.accepted s.contract <+: C.accepted t.contract := by
  rcases step_contract h with ⟨label, hcontract⟩ | hsame
  · exact C.grows _ _ _ hcontract
  · rw [hsame]

theorem accepted_run (h : C.watched.Run s labels t) :
    C.accepted s.contract <+: C.accepted t.contract :=
  h.relates (R := fun s t => C.accepted s.contract <+: C.accepted t.contract)
    (fun _ => List.prefix_rfl) (fun _ _ _ => List.IsPrefix.trans) fun _ _ _ => accepted_step

theorem contract_reachable (h : C.watched.Reachable s) : C.system.Reachable s.contract := by
  refine h.invariant (fun s hinit => System.reachable_init hinit.1) ?_
  intro s label t _ hreach hstep
  rcases step_contract hstep with ⟨label, hcontract⟩ | hsame
  · exact hreach.step hcontract
  · exact hsame ▸ hreach

theorem sound_init (h : C.watched.init s) : C.Sound s := by
  obtain ⟨-, hdb, hstored, hstoring, hwalkers⟩ := h
  rw [show s = ⟨s.contract, .empty, 0, none, none⟩ by rw [← hdb, ← hstored, ← hstoring, ← hwalkers]]
  constructor
  case rows =>
    refine ⟨Nat.zero_le _, fun _ _ hrow => (by cases hrow), fun _ _ hrow => (by cases hrow), ?_⟩
    intro i u hi
    exact absurd hi (Nat.not_lt_zero i)
  case pending =>
    intro index writes hsome
    cases hsome
  case walk =>
    intro w hw
    cases hw

/-- **Run lemma.** As long as the contract has not met a root twice, the tables are in
order and the tasks are on their way. -/
theorem sound_of_reachable (hzero : C.firstRoot = 0)
    (h : (C.watched.restrict C.StartsLate).Reachable s) (hfresh : C.Fresh s.contract) :
    C.Sound s := by
  revert hfresh
  refine h.invariant (P := fun s => C.Fresh s.contract → C.Sound s) ?_ ?_
  · exact fun s hinit _ => sound_init hinit
  · intro s label t hreach hsound hstep hfresh
    have hbefore := hfresh.of_prefix (accepted_step hstep.1)
    have hcontract := contract_reachable hreach.of_restrict
    exact (hsound hbefore).step hcontract (simple hcontract hbefore) hzero hstep.1 hstep.2

/-- Steps that do not start the tasks are steps of the restricted system. -/
theorem reachable_of_run (h : (C.watched.restrict C.StartsLate).Reachable s)
    (hrun : C.watched.Run s labels t)
    (hundisturbed : ∀ label ∈ labels, label ≠ .start ∧ label ≠ .crash) :
    (C.watched.restrict C.StartsLate).Reachable t := by
  apply h.run
  apply hrun.restrict
  intro label hlabel s hstart
  exact absurd hstart (hundisturbed label hlabel).1

/-- What the tasks have done after a while. Every round of the forward task found an
update, until it had met all that were stored at the beginning, and every step of the
backward task succeeded until it finished. -/
theorem walk_of_run (hzero : C.firstRoot = 0)
    (h : (C.watched.restrict C.StartsLate).Reachable s) (hstored : C.AllStored s)
    (hwalkers : s.walkers.isSome = true) (hrun : C.watched.Run s labels t)
    (hundisturbed : ∀ label ∈ labels, label ≠ .start ∧ label ≠ .crash)
    (hfresh : C.Fresh t.contract) :
    ∃ w b k f, t.walkers = some w ∧ Walk C.firstRoot (C.accepted t.contract) t.db w b k f ∧
      k ≤ (C.accepted s.contract).length ∧ (C.accepted s.contract).length ≤ t.stored ∧
      ((C.accepted s.contract).length ≤ f ∨ labels.countP Label.isPoll ≤ f - k) ∧
      (w.history.finished = false → labels.countP Label.isHistory ≤ w.history.steps) := by
  induction hrun with
  | refl =>
    obtain ⟨w, hw⟩ := Option.isSome_iff_exists.mp hwalkers
    obtain ⟨b, k, f, hwalk⟩ := (sound_of_reachable hzero h hfresh).walk w hw
    exact ⟨w, b, k, f, hw, hwalk, hwalk.k_le.trans hwalk.f_le, hstored.ge, .inr (Nat.zero_le _),
      fun _ => Nat.zero_le _⟩
  | @tail t u labels label prior hlast ih =>
    -- the run up to the last step, to which the induction applies
    have hbefore : ∀ label ∈ labels, label ≠ .start ∧ label ≠ .crash := fun label hlabel =>
      hundisturbed label (List.mem_append_left _ hlabel)
    have hlabel := hundisturbed label (List.mem_append_right _ (List.mem_singleton_self label))
    have hfresh' := hfresh.of_prefix (accepted_step hlast)
    obtain ⟨w, b, k, f, hw, hwalk, hk, hN, hpolls, hsteps⟩ :=
      ih hbefore hfresh'
    have hreach := reachable_of_run h prior hbefore
    have hsound := sound_of_reachable hzero hreach hfresh'
    have hsimple := simple (contract_reachable hreach.of_restrict) hfresh'
    obtain ⟨-, -, hkept⟩ := hsound.tables hsimple hlast
    obtain ⟨w', b', f', hw', hwalk', hprogress⟩ :=
      hsound.walk_step hsimple hzero hlast hlabel hw hwalk
    have hbk := hwalk.b_le
    have hkf := hwalk.k_le
    have hff := hprogress.le
    refine ⟨w', b', k, f', hw', hwalk', hk, hN.trans hkept.stored, ?_, fun hrunning => ?_⟩
    -- a round that finds nothing has met every stored update
    · rw [List.countP_append, List.countP_singleton]
      rcases hpolls with hall | hpolls
      · exact .inl (hall.trans hff)
      · split_ifs with hpoll
        · by_cases hlt : f < t.stored
          · have := hprogress.poll hpoll hlt
            omega
          · omega
        · omega
    · rw [List.countP_append, List.countP_singleton]
      have hcount := hsteps (hprogress.running hrunning)
      have hle := hprogress.steps hrunning
      split_ifs with hhistory
      · have hlt := hprogress.history hhistory (by omega) hrunning
        omega
      · omega

/-- Tasks that are started late over a contract that never returns to a root send
every update. -/
theorem seen_of_fresh (hzero : C.firstRoot = 0)
    (h : (C.watched.restrict C.StartsLate).Reachable s) (hstored : C.AllStored s)
    (hwalkers : s.walkers.isSome = true) (hrun : C.watched.Run s labels t)
    (hpatient : C.Patient s labels) (hfresh : C.Fresh t.contract) : C.Seen s t := by
  obtain ⟨w, b, k, f, hw, hwalk, hk, -, hpolls, hsteps⟩ :=
    walk_of_run hzero h hstored hwalkers hrun hpatient.undisturbed hfresh
  have hpolled := hpatient.polls
  -- forward, one update for each round
  have hall : (C.accepted s.contract).length ≤ f := by omega
  -- backward, more steps than there are updates to be found
  have hfinished : w.history.finished = true := by
    by_contra hrunning
    rw [Bool.not_eq_true] at hrunning
    have hfew := hwalk.steps_lt hrunning
    have hmany := hpatient.rounds.trans (hsteps hrunning)
    omega
  obtain rfl := hwalk.finished.mp hfinished
  refine ⟨w, hw, hfinished, fun u hu => ?_⟩
  obtain ⟨more, hmore⟩ := accepted_run hrun
  -- what either task has not sent the other one has
  have hmet : u ∈ span (C.accepted t.contract) 0 f := hmore ▸ mem_span_of_mem hu hall
  rw [hwalk.watcher_tx, hwalk.history_tx, List.mem_reverse]
  exact (mem_span_or hmet hwalk.k_le).symm

/-! #### Runs that exist -/

/-- The database after some updates were stored in order. -/
def storeAll (us : List (SignedUpdate Byte)) (db : OpticsDB Byte) : OpticsDB Byte :=
  us.foldl (fun db u => (db.storeLatestUpdate u).foldl OpticsDB.put db) db

section Storing

variable {c : σ} {db : OpticsDB Byte} {stored index : ℕ} {writes : List (OpticsDB.Put Byte)}

theorem reachable_unwatched (h : C.system.Reachable c) :
    (C.watched.restrict C.StartsLate).Reachable ⟨c, .empty, 0, none, none⟩ := by
  refine h.invariant (P := fun c =>
    (C.watched.restrict C.StartsLate).Reachable ⟨c, .empty, 0, none, none⟩) ?_ ?_
  · exact fun c hinit => System.reachable_init ⟨hinit, rfl, rfl, rfl, rfl⟩
  · intro c label c' _ hreach hcontract
    have hstep : (C.watched.restrict C.StartsLate).step ⟨c, .empty, 0, none, none⟩ (.contract label)
        ⟨c', .empty, 0, none, none⟩ := ⟨⟨hcontract, rfl⟩, fun hstart => by cases hstart⟩
    exact hreach.step hstep

/-- The writes of an event can be made one after the other. -/
theorem reachable_written
    (h : (C.watched.restrict C.StartsLate).Reachable ⟨c, db, stored, some (index, writes), none⟩)
    (hne : writes ≠ []) :
    (C.watched.restrict C.StartsLate).Reachable
      ⟨c, writes.foldl OpticsDB.put db, max stored (index + 1), none, none⟩ := by
  induction writes generalizing db with
  | nil => exact absurd rfl hne
  | cons write rest ih =>
    cases rest with
    | nil =>
      have hstep : (C.watched.restrict C.StartsLate).step
          ⟨c, db, stored, some (index, [write]), none⟩ .write
          ⟨c, db.put write, max stored (index + 1), none, none⟩ :=
        ⟨rfl, fun hstart => by cases hstart⟩
      exact h.step hstep
    | cons next rest =>
      have hstep : (C.watched.restrict C.StartsLate).step
          ⟨c, db, stored, some (index, write :: next :: rest), none⟩ .write
          ⟨c, db.put write, stored, some (index, next :: rest), none⟩ :=
        ⟨rfl, fun hstart => by cases hstart⟩
      exact ih (h.step hstep) (List.cons_ne_nil next rest)

/-- ContractSync can store all events in order. -/
theorem reachable_stored {front rest : List (SignedUpdate Byte)}
    (haccepted : C.accepted c = front ++ rest)
    (h : (C.watched.restrict C.StartsLate).Reachable ⟨c, db, front.length, none, none⟩) :
    (C.watched.restrict C.StartsLate).Reachable
      ⟨c, storeAll rest db, (front ++ rest).length, none, none⟩ := by
  induction rest generalizing front db with
  | nil =>
    rw [List.append_nil]
    exact h
  | cons u rest ih =>
    have hnext : (C.accepted c)[front.length]? = some u := by
      rw [haccepted, List.getElem?_append_right (Nat.le_refl _), Nat.sub_self]
      rfl
    have hexec : C.exec (.sync front.length) ⟨c, db, front.length, none, none⟩ =
        some ⟨c, db, front.length, some (front.length, db.storeLatestUpdate u), none⟩ := by
      simp [exec, hnext]
    have hstep : (C.watched.restrict C.StartsLate).step ⟨c, db, front.length, none, none⟩
        (.sync front.length)
        ⟨c, db, front.length, some (front.length, db.storeLatestUpdate u), none⟩ :=
      ⟨hexec, fun hstart => by cases hstart⟩
    have hne : db.storeLatestUpdate u ≠ [] := by
      rw [OpticsDB.storeLatestUpdate]
      split
      · split_ifs <;> simp [OpticsDB.storeUpdate]
      · simp
    have hwritten := reachable_written (h.step hstep) hne
    have hlength : max front.length (front.length + 1) = (front ++ [u]).length := by simp
    have hsplit : front ++ u :: rest = front ++ [u] ++ rest := by simp
    rw [hlength] at hwritten
    rw [hsplit] at haccepted ⊢
    exact ih haccepted hwritten

/-- Once everything is stored, the tasks can be started. -/
theorem reachable_started (h : C.system.Reachable c) (hne : C.accepted c ≠ []) :
    (C.watched.restrict C.StartsLate).Reachable ⟨c, storeAll (C.accepted c) .empty,
      (C.accepted c).length, none, some (.spawn (C.committedRoot c))⟩ := by
  have hstored := reachable_stored (List.nil_append _).symm (reachable_unwatched h)
  rw [List.nil_append] at hstored
  have hstep : (C.watched.restrict C.StartsLate).step
      ⟨c, storeAll (C.accepted c) .empty, (C.accepted c).length, none, none⟩ .start
      ⟨c, storeAll (C.accepted c) .empty, (C.accepted c).length, none,
        some (.spawn (C.committedRoot c))⟩ := ⟨rfl, fun _ => hne⟩
  exact hstored.step hstep

end Storing

/-- The tasks can always go on, and the contract need not. -/
theorem exists_run_tasks (hwalkers : s.walkers.isSome = true)
    (hlabels : ∀ label ∈ labels, label = .poll ∨ label = .history) :
    ∃ t, C.watched.Run s labels t ∧ t.contract = s.contract := by
  induction labels generalizing s with
  | nil => exact ⟨s, .refl s, rfl⟩
  | cons label rest ih =>
    obtain ⟨w, hw⟩ := Option.isSome_iff_exists.mp hwalkers
    obtain ⟨u, hstep, hcontract, hu⟩ : ∃ u, C.watched.step s label u ∧
        u.contract = s.contract ∧ u.walkers.isSome = true := by
      rcases hlabels label List.mem_cons_self with rfl | rfl
      · exact ⟨_, Option.map_eq_some_iff.mpr ⟨w, hw, rfl⟩, rfl, rfl⟩
      · exact ⟨_, Option.map_eq_some_iff.mpr ⟨w, hw, rfl⟩, rfl, rfl⟩
    obtain ⟨t, hrun, hlast⟩ :=
      ih hu fun label hlabel => hlabels label (List.mem_cons_of_mem _ hlabel)
    exact ⟨t, (System.Run.single hstep).trans hrun, hlast.trans hcontract⟩

/-- There is time enough for the tasks in some continuation. -/
theorem exists_patient (hwalkers : s.walkers.isSome = true) :
    ∃ labels t, C.watched.Run s labels t ∧ C.Patient s labels ∧ t.contract = s.contract := by
  let n := (C.accepted s.contract).length
  let labels : List (Label ℓ) := List.replicate n .poll ++ List.replicate (2 * n) .history
  have hlabels : ∀ label ∈ labels, label = .poll ∨ label = .history := by
    intro label hlabel
    rcases List.mem_append.mp hlabel with hpoll | hhistory
    · exact .inl (List.eq_of_mem_replicate hpoll)
    · exact .inr (List.eq_of_mem_replicate hhistory)
  obtain ⟨t, hrun, hcontract⟩ := exists_run_tasks (C := C) hwalkers hlabels
  refine ⟨labels, t, hrun, ⟨fun label hlabel => ?_, ?_, ?_⟩, hcontract⟩
  · rcases hlabels label hlabel with rfl | rfl
    · exact ⟨fun h => (by cases h), fun h => (by cases h)⟩
    · exact ⟨fun h => (by cases h), fun h => (by cases h)⟩
  · simp [labels, n, List.countP_replicate, Label.isPoll]
  · simp [labels, n, List.countP_replicate, Label.isHistory]

/-- After any run of the contract with an update, the tasks can be started over a full
database and be given time. -/
theorem exists_started {c : σ} (h : C.system.Reachable c) (hne : C.accepted c ≠ []) :
    ∃ s t labels, (C.watched.restrict C.StartsLate).Reachable s ∧ C.AllStored s ∧
      s.walkers.isSome = true ∧ C.watched.Run s labels t ∧ C.Patient s labels ∧ s.contract = c ∧
      t.contract = c := by
  have hstarted := reachable_started h hne
  obtain ⟨labels, t, hrun, hpatient, hcontract⟩ := exists_patient (C := C) (s := ⟨c,
    storeAll (C.accepted c) .empty, (C.accepted c).length, none,
    some (.spawn (C.committedRoot c))⟩) rfl
  exact ⟨_, t, labels, hstarted, rfl, rfl, hrun, hpatient, rfl, hcontract⟩

/-- Over a circle of rows, with no row for the forward task, the tasks get nowhere. -/
theorem circling_of_run {roots : List (Bytes32 Byte)} {us : List (SignedUpdate Byte)}
    (hcircle : Circle s.db roots us) {w : Walkers Byte} (hw : s.walkers = some w)
    (hidle : s.db.update w.watcher.committedRoot = none)
    (hhistory : w.history.Circling s.db roots us) (hrun : C.watched.Run s labels t)
    (hlabels : ∀ label ∈ labels, label = .poll ∨ label = .history) :
    ∃ w', t.walkers = some w' ∧ w'.watcher = w.watcher ∧ w'.history.Circling s.db roots us := by
  suffices h : t.db = s.db ∧ ∃ w', t.walkers = some w' ∧ w'.watcher = w.watcher ∧
      w'.history.Circling s.db roots us from h.2
  induction hrun with
  | refl => exact ⟨rfl, w, hw, rfl, hhistory⟩
  | @tail t u labels label prior hlast ih =>
    obtain ⟨hdb, w', hw', hwatcher, hcircling⟩ := ih fun label hlabel =>
      hlabels label (List.mem_append_left _ hlabel)
    -- the forward task finds no row, and the database does not change
    rcases hlabels label (List.mem_append_right _ (List.mem_singleton_self label)) with rfl | rfl
    · obtain ⟨w'', hw'', rfl⟩ := Option.map_eq_some_iff.mp hlast
      obtain rfl := Option.some.inj (hw''.symm.trans hw')
      refine ⟨hdb, _, rfl, ?_, hcircling⟩
      dsimp only
      rw [hdb, hwatcher, ContractWatcher.pollAndSendUpdate, signedUpdateByOldRoot,
        OpticsDB.updateByPreviousRoot, hidle]
    · obtain ⟨w'', hw'', rfl⟩ := Option.map_eq_some_iff.mp hlast
      obtain rfl := Option.some.inj (hw''.symm.trans hw')
      exact ⟨hdb, _, rfl, hwatcher, hdb ▸ hcircling.advance hcircle⟩

end Contract

/-! ### Home and Replica -/

section Instances

variable [ByteAlphabet Byte] [DecidableEq Byte] {K : Crypto Byte}

/-- Home, with an ideal hash. -/
def home (ideal : Crypto.IdealHash K) :
    Contract (Home.History Byte) (Home.Context Byte × Home.Call Byte) Byte where
  system := Home.system K
  committedRoot history := history.home.committedRoot
  accepted history := Home.updates history.log
  firstRoot := 0
  chain history h := by
    obtain ⟨k, hsound⟩ := Home.History.sound_of_reachable ideal h
    exact hsound.chain
  grows history tx history' h := by
    refine callStep_cases (P := fun s t => Home.updates s.log <+: Home.updates t.log) h ?_
      List.prefix_rfl
    intro t hexec
    obtain ⟨home', events, -, rfl⟩ := Home.History.exec_eq_ok.mp hexec
    rw [Home.updates_append]
    exact List.prefix_append _ _

theorem home_fresh (ideal : Crypto.IdealHash K) {history : Home.History Byte}
    (h : (Home.system K).Reachable history) : (home ideal).Fresh history :=
  Home.History.newRoots_nodup ideal h

variable {ω E η : Type} (K) (S : Replica.Surroundings Byte ω E η)

/-- A Replica that was initialised with a root. -/
def replica (root₀ : Bytes32 Byte) :
    Contract (Replica.Chain Byte E η) (ℕ × Replica.Call Byte ω) Byte where
  system := Replica.system K S root₀
  committedRoot chain := chain.replica.committedRoot
  accepted chain := Replica.accepted chain.trace
  firstRoot := root₀
  chain chain h := (Replica.explained_of_reachable h).chain
  grows chain tx chain' h := by
    refine callStep_cases (P := fun s t => Replica.accepted s.trace <+: Replica.accepted t.trace)
      h.2 ?_ List.prefix_rfl
    intro t hexec
    obtain ⟨hpath, -⟩ := Replica.Call.exec_path (P := fun _ => True) tx.2 _ t (fun _ _ => trivial)
      hexec
    obtain ⟨-, -, hfront⟩ := Replica.path_frame hpath
    exact hfront.filterMap _

/-- **The watcher sees every update.** The contract is Home, whatever its updater
signs, or a Replica that was initialised with the zero root and has accepted no
update to a root that it had before. The tasks were started after the first update,
and all events are stored. Once each task has had time for every event, the backward
task has finished and every accepted update was sent. -/
theorem sees_every_update :
    (∀ (ideal : Crypto.IdealHash K) (s t : State (Home.History Byte) Byte)
      (labels : List (Label (Home.Context Byte × Home.Call Byte))),
      ((home ideal).watched.restrict (home ideal).StartsLate).Reachable s →
      (home ideal).AllStored s → s.walkers.isSome = true →
      (home ideal).watched.Run s labels t → (home ideal).Patient s labels →
      (home ideal).Seen s t) ∧
    ∀ (s t : State (Replica.Chain Byte E η) Byte) (labels : List (Label (ℕ × Replica.Call Byte ω))),
      ((replica K S 0).watched.restrict (replica K S 0).StartsLate).Reachable s →
      (replica K S 0).AllStored s → s.walkers.isSome = true →
      (replica K S 0).watched.Run s labels t → (replica K S 0).Patient s labels →
      (replica K S 0).Fresh t.contract → (replica K S 0).Seen s t := by
  constructor
  · intro ideal s t labels hreach hstored hwalkers hrun hpatient
    have hcontract := Contract.contract_reachable (hreach.of_restrict.run hrun)
    exact Contract.seen_of_fresh rfl hreach hstored hwalkers hrun hpatient
      (home_fresh ideal hcontract)
  · intro s t labels hreach hstored hwalkers hrun hpatient hfresh
    exact Contract.seen_of_fresh rfl hreach hstored hwalkers hrun hpatient hfresh

end Instances

/-! ### Runs over Home and a Replica -/

section Sample

/-- An ideal hash, where every signature is that of the zero address. -/
def sampleCrypto : Crypto ℕ := Crypto.withIdealHash fun _ _ => some 0

theorem sampleIdeal : Crypto.IdealHash sampleCrypto := Crypto.withIdealHash_ideal _

/-- A Replica whose updater is the zero address, on a chain without other contracts. -/
abbrev sampleReplica : Contract (Replica.Chain ℕ Unit Unit) (ℕ × Replica.Call ℕ Empty) ℕ :=
  replica sampleCrypto ⟨fun _ _ _ => .error .assert, fun _ _ => true⟩ 0

def sampleRoot (n : ℕ) : Bytes32 ℕ := List.Vector.replicate 32 n

/-- The Replica can accept any updates that follow on each other. -/
theorem exists_sampleReplica {us : List (SignedUpdate ℕ)} {finish : Bytes32 ℕ}
    (h : UpdateChain 0 us finish) :
    ∃ c, sampleReplica.system.Reachable c ∧ sampleReplica.accepted c = us ∧
      sampleReplica.committedRoot c = finish :=
  Replica.exists_accepted (System.reachable_init (Replica.Chain.deployed_initial 2000 1000 0 0 1800 1
    ())) (by decide) h fun _ _ => rfl

/-- Home accepts an update to the root of its first message. -/
theorem exists_sampleHome :
    ∃ c, (home sampleIdeal).system.Reachable c ∧ (home sampleIdeal).accepted c ≠ [] := by
  obtain ⟨start, source, hinitial, -, hdispatch, -, hactive, hupdater, hdispatched, hin⟩ :=
    Home.exists_dispatched sampleCrypto 0
  have hone : 1 ≤ (source.leaves sampleCrypto).length := by
    simp [Home.History.leaves, hdispatched]
  let u : SignedUpdate ℕ :=
    ⟨source.home.committedRoot, Home.prefixRoot sampleCrypto (source.leaves sampleCrypto) 1, []⟩
  have hsigned : IsSignedBy sampleCrypto source.home.localDomain source.home.updater u := by
    rw [hupdater]
    rfl
  obtain ⟨queue, hexec, -⟩ := Home.exec_update_of_lt sampleIdeal hin
    (source.zero_notMem_leaves sampleIdeal) Nat.one_pos hone Home.sampleContext rfl rfl
    (by simp [hactive]) hsigned
  have hreach := ((System.reachable_init hinitial).step hdispatch).step
    (Home.History.step_of_exec hexec)
  exact ⟨_, hreach, by simp [home, Home.Event.update?]⟩

/-- Home and the Replica after one update each. -/
theorem sees_every_update_followed :
    (∃ s t : State (Home.History ℕ) ℕ, (home sampleIdeal).accepted s.contract ≠ [] ∧
      (home sampleIdeal).Seen s t) ∧
    ∃ s t : State (Replica.Chain ℕ Unit Unit) ℕ, sampleReplica.accepted s.contract ≠ [] ∧
      sampleReplica.Seen s t := by
  have hsees := sees_every_update sampleCrypto (η := Unit) (E := Unit) (ω := Empty)
    ⟨fun _ _ _ => .error .assert, fun _ _ => true⟩
  constructor
  · obtain ⟨c, hreach, hne⟩ := exists_sampleHome
    obtain ⟨s, t, labels, hstarted, hstored, hwalkers, hrun, hpatient, rfl, -⟩ :=
      Contract.exists_started hreach hne
    exact ⟨s, t, hne, hsees.1 sampleIdeal s t labels hstarted hstored hwalkers hrun hpatient⟩
  · have hchain : UpdateChain 0 [(⟨0, sampleRoot 1, []⟩ : SignedUpdate ℕ)] (sampleRoot 1) :=
      ⟨rfl, rfl⟩
    obtain ⟨c, hreach, haccepted, -⟩ := exists_sampleReplica hchain
    have hne : sampleReplica.accepted c ≠ [] := by simp [haccepted]
    obtain ⟨s, t, labels, hstarted, hstored, hwalkers, hrun, hpatient, rfl, hcontract⟩ :=
      Contract.exists_started hreach hne
    refine ⟨s, t, hne, ?_⟩
    refine hsees.2 s t labels hstarted hstored hwalkers hrun hpatient ?_
    rw [hcontract, Contract.Fresh, haccepted]
    decide

/-- The second and the third update are a double update. -/
def sampleFork : List (SignedUpdate ℕ) :=
  [⟨0, sampleRoot 1, []⟩, ⟨sampleRoot 1, sampleRoot 1, []⟩, ⟨sampleRoot 1, sampleRoot 2, []⟩]

/-- The Replica accepts an update from a root to itself and then one to another root.
Everything is stored and the tasks are started. The third update has taken the rows
of the second, so the backward task sends it again and again, and never any other. -/
theorem misses_double_update :
    ∃ s : State (Replica.Chain ℕ Unit Unit) ℕ,
      (sampleReplica.watched.restrict sampleReplica.StartsLate).Reachable s ∧
      sampleReplica.AllStored s ∧ s.storing = none ∧
      sampleReplica.accepted s.contract = sampleFork ∧
      s.walkers = some (.spawn (sampleReplica.committedRoot s.contract)) ∧
      ∀ labels t, sampleReplica.watched.Run s labels t →
        (∀ label ∈ labels, label = .poll ∨ label = .history) →
        ∃ w, t.walkers = some w ∧ w.history.finished = false ∧
          ∀ u ∈ sampleFork.take 2, u ∉ w.watcher.tx ∧ u ∉ w.history.tx := by
  have hchain : UpdateChain 0 sampleFork (sampleRoot 2) := ⟨rfl, rfl, rfl, rfl⟩
  obtain ⟨c, hreach, haccepted, hroot⟩ := exists_sampleReplica hchain
  have hne : sampleReplica.accepted c ≠ [] := by simp [haccepted, sampleFork]
  have hstarted := Contract.reachable_started hreach hne
  refine ⟨_, hstarted, rfl, rfl, haccepted, rfl, fun labels t hrun hlabels => ?_⟩
  -- both roots lead back to the first of them, over the third update
  have hcircle : Circle (Contract.storeAll (sampleReplica.accepted c) .empty)
      [sampleRoot 1, sampleRoot 2] [⟨sampleRoot 1, sampleRoot 2, []⟩] := by
    rw [haccepted]
    intro root hroot
    refine ⟨_, List.mem_singleton_self _, ?_, by rfl, List.mem_cons_self, by decide⟩
    rcases List.mem_pair.mp hroot with rfl | rfl
    · rfl
    · rfl
  have hidle : (Contract.storeAll (sampleReplica.accepted c) .empty).update
      (sampleReplica.committedRoot c) = none := by
    rw [haccepted, hroot]
    rfl
  obtain ⟨w, hw, hwatcher, hcircling⟩ := Contract.circling_of_run hcircle rfl hidle
    ⟨by rw [hroot]; exact List.mem_pair.mpr (.inr rfl), fun u hu => (by cases hu),
      fun p hp => (by cases hp), rfl⟩ hrun hlabels
  refine ⟨w, hw, hcircling.running, fun u hu => ⟨?_, fun hsent => ?_⟩⟩
  · rw [hwatcher]
    exact List.not_mem_nil
  · obtain rfl := List.mem_singleton.mp (hcircling.tx u hsent)
    rcases List.mem_pair.mp hu with heq | heq
    · exact absurd (congrArg SignedUpdate.newRoot heq) (by decide)
    · exact absurd (congrArg SignedUpdate.newRoot heq) (by decide)

end Sample

end Optics.Watcher
