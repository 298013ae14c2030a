/-
# The proofs of the processor

The processor runs three tasks over one database: the two indexers copy the
dispatched leaves and the signed updates of Home into it, and `ProverSync` stores
the proofs. The tasks make progress independently of each other and of Home, and
the process may stop at any point and start again from the same database.

`from_disk` stores proofs under whatever root the leaves on disk happen to have.
Everything else that the task stores is provable: as long as every restart that
stores a proof loads the tree of a stored update, each stored proof is one of a
dispatched leaf under the new root of a stored update. A restart while the update
indexer is ahead of the message indexer stores a proof under a root that nobody
signed.
-/

import Optics.Agents.ProverSync
import Optics.Channel.Basic

namespace Optics

open Optics.Solidity Optics.Common Optics.Accumulator Optics.Math.Transition

variable {Byte : Type}

/-- Home, the database, the writes that the update indexer still has to make for
the update it is storing, and the `ProverSync` task. Without a task the process is
down. -/
structure Processor (Byte : Type) where
  source : Home.History Byte
  db : OpticsDB Byte
  storing : List (OpticsDB.Put Byte)
  task : Option (ProverSync Byte × ProverSync.Phase Byte)

namespace Processor

/-- One step of the processor and its surroundings. -/
inductive Label (Byte : Type)
  | home (ctx : Home.Context Byte) (call : Home.Call Byte)
  | syncMessages (leafIndex : ℕ)
  | syncUpdates (update : SignedUpdate Byte)
  | write
  | start
  | advance
  | stop

variable [ByteAlphabet Byte] [DecidableEq Byte] (K : Crypto Byte)

/-- The steps. The indexers may come to any event of Home, in any order and
repeatedly; each stores a message or an update with the writes of the database, and
between two writes anything else may happen. A task that has ended can only
stop. -/
inductive Step (s : Processor Byte) : Label Byte → Processor Byte → Prop
  | home (ctx : Home.Context Byte) (call : Home.Call Byte) (source : Home.History Byte)
      (hstep : (Home.system K).step s.source (ctx, call) source) :
      Step s (.home ctx call) { s with source := source }
  | syncMessages (leafIndex : ℕ) (leaf : Bytes32 Byte) (hup : s.task.isSome)
      (hleaf : (s.source.leaves K)[leafIndex]? = some leaf) :
      Step s (.syncMessages leafIndex) { s with db := s.db.put (.leaf leafIndex leaf) }
  | syncUpdates (u : SignedUpdate Byte) (hup : s.task.isSome) (hidle : s.storing = [])
      (hu : u ∈ Home.updates s.source.log) :
      Step s (.syncUpdates u) { s with storing := s.db.storeLatestUpdate u }
  | write (next : OpticsDB.Put Byte) (rest : List (OpticsDB.Put Byte)) (hup : s.task.isSome)
      (hstoring : s.storing = next :: rest) :
      Step s .write { s with db := s.db.put next, storing := rest }
  | start (sync : ProverSync Byte) (hdown : s.task = none)
      (hload : ProverSync.fromDisk K s.db = .ok sync) :
      Step s .start { s with task := some (sync, .loading 0) }
  | advance (sync sync' : ProverSync Byte) (phase phase' : ProverSync.Phase Byte)
      (db : OpticsDB Byte) (htask : s.task = some (sync, phase))
      (hadvance : sync.advance K s.db phase = .ok (db, sync', phase')) :
      Step s .advance { s with db := db, task := some (sync', phase') }
  | stop : Step s .stop { s with storing := [], task := none }

/-- The processor of a Home from its initialisation, with an empty database. -/
def system : System (Processor Byte) (Label Byte) where
  init s := s.source.Initial ∧ s.db = .empty ∧ s.storing = [] ∧ s.task = none
  step := Step K

/-- At a start, the root of the leaves that are loaded is the new root of a stored
update, unless they all have a stored proof. -/
def Restartable (s : Processor Byte) : Label Byte → Prop
  | .start => ∀ root leaves, s.db.latestRoot = some root → ProverSync.OnDisk K s.db root leaves →
      (∃ i < leaves.length, s.db.proof i = none) → s.db.HasNewRoot (listRoot K leaves)
  | _ => True

/-! ### What holds in every state -/

/-- The writes of the update indexer: an update of Home under its old root, or an
entry that no proof depends on. -/
def Indexed (updates : List (SignedUpdate Byte)) : OpticsDB.Put Byte → Prop
  | .update previousRoot u => u.oldRoot = previousRoot ∧ u ∈ updates
  | .prevRoot _ _ => True
  | .latestRoot _ => True
  | _ => False

/-- The database agrees with Home, and all stored proofs are good ones. -/
structure Sound (s : Processor Byte) : Prop where
  leaf : ProverSync.LeavesAgree s.db (s.source.leaves K)
  update : ∀ previousRoot u, s.db.update previousRoot = some u →
    u.oldRoot = previousRoot ∧ u ∈ Home.updates s.source.log
  storing : ∀ write ∈ s.storing, Indexed (Home.updates s.source.log) write
  proof : ∀ i proof, s.db.proof i = some proof →
    (s.source.leaves K)[i]? = some proof.leaf ∧ s.db.HasNewRoot (proof.root K)
  task : ∀ sync phase, s.task = some (sync, phase) →
    ∃ n, ProverSync.Sound K s.db (s.source.leaves K) sync phase n

variable {K} {s s' : Processor Byte} {label : Label Byte}

omit [ByteAlphabet Byte] in
theorem indexed_of_storeLatestUpdate {updates : List (SignedUpdate Byte)} {u : SignedUpdate Byte}
    {db : OpticsDB Byte} (hu : u ∈ updates) :
    ∀ write ∈ db.storeLatestUpdate u, Indexed updates write := by
  have hstore : ∀ write ∈ OpticsDB.storeUpdate u, Indexed updates write := by
    intro write hwrite
    rcases List.mem_cons.mp hwrite with rfl | hwrite
    · exact ⟨rfl, hu⟩
    · exact List.mem_singleton.mp hwrite ▸ trivial
  have hlatest : ∀ write ∈ OpticsDB.Put.latestRoot u.newRoot :: OpticsDB.storeUpdate u,
      Indexed updates write := by
    intro write hwrite
    rcases List.mem_cons.mp hwrite with rfl | hwrite
    · trivial
    · exact hstore write hwrite
  intro write hwrite
  rw [OpticsDB.storeLatestUpdate] at hwrite
  split at hwrite
  · split_ifs at hwrite
    · exact hlatest write hwrite
    · exact hstore write hwrite
  · exact hlatest write hwrite

/-- The Home of a processor is a Home under any calls. -/
theorem source_reachable (h : (system K).Reachable s) : (Home.system K).Reachable s.source := by
  refine h.invariant (P := fun s => (Home.system K).Reachable s.source) ?_ ?_
  · intro s hinit
    exact System.reachable_init hinit.1
  · intro s label s' _ hreach hstep
    cases hstep with
    | home ctx call source hstep => exact hreach.step hstep
    | syncMessages => exact hreach
    | syncUpdates => exact hreach
    | write => exact hreach
    | start => exact hreach
    | advance => exact hreach
    | stop => exact hreach

/-- Home dispatches, accepts updates, or does anything else. -/
theorem Sound.home {source : Home.History Byte} (h : Sound K s)
    (hext : Channel.Extends K s.source source) : Sound K { s with source := source } := by
  have hupdates : ∀ u ∈ Home.updates s.source.log, u ∈ Home.updates source.log := by
    intro u hu
    exact List.filterMap_subset _ hext.log.subset hu
  have hleaves : ∀ (i : ℕ) (leaf : Bytes32 Byte), (s.source.leaves K)[i]? = some leaf →
      (source.leaves K)[i]? = some leaf := by
    intro i leaf hleaf
    obtain ⟨hlt, rfl⟩ := List.getElem?_eq_some_iff.mp hleaf
    exact List.prefix_iff_getElem?.mp hext.leaves i hlt
  constructor
  case leaf => exact fun i leaf hleaf => hleaves i leaf (h.leaf i leaf hleaf)
  case update =>
    intro previousRoot u hu
    exact ⟨(h.update _ u hu).1, hupdates u (h.update _ u hu).2⟩
  case storing =>
    intro write hwrite
    have hindexed := h.storing write hwrite
    cases write with
    | update previousRoot u => exact ⟨hindexed.1, hupdates u hindexed.2⟩
    | prevRoot => trivial
    | latestRoot => trivial
    | leaf => exact hindexed
    | proof => exact hindexed
  case proof =>
    intro i proof hproof
    exact ⟨hleaves i _ (h.proof i proof hproof).1, (h.proof i proof hproof).2⟩
  case task =>
    intro sync phase htask
    obtain ⟨n, hsound⟩ := h.task sync phase htask
    exact ⟨n, hsound.mono hext.leaves rfl fun _ hroot => hroot⟩

/-- A leaf of Home goes into the database. -/
theorem Sound.syncMessages {leafIndex : ℕ} {leaf : Bytes32 Byte} (h : Sound K s)
    (hleaf : (s.source.leaves K)[leafIndex]? = some leaf) :
    Sound K { s with db := s.db.put (.leaf leafIndex leaf) } := by
  constructor
  case leaf =>
    intro i stored hstored
    by_cases hi : i = leafIndex
    · subst hi
      simp only [OpticsDB.put, Function.update_self] at hstored
      exact hleaf.trans hstored
    · simp only [OpticsDB.put, Function.update_of_ne hi] at hstored
      exact h.leaf i stored hstored
  case update => exact h.update
  case storing => exact h.storing
  case proof =>
    intro i proof hproof
    exact ⟨(h.proof i proof hproof).1, (h.proof i proof hproof).2.put_leaf⟩
  case task =>
    intro sync phase htask
    obtain ⟨n, hsound⟩ := h.task sync phase htask
    exact ⟨n, hsound.mono (List.prefix_refl _) rfl fun _ hroot => hroot.put_leaf⟩

/-- The update indexer makes its next write. -/
theorem Sound.write {next : OpticsDB.Put Byte} {rest : List (OpticsDB.Put Byte)} (h : Sound K s)
    (hunique : ∀ u ∈ Home.updates s.source.log, ∀ v ∈ Home.updates s.source.log,
      u.oldRoot = v.oldRoot → u = v)
    (hstoring : s.storing = next :: rest) :
    Sound K { s with db := s.db.put next, storing := rest } := by
  have hnext : Indexed (Home.updates s.source.log) next :=
    h.storing next (hstoring ▸ List.mem_cons_self)
  have hleaf : (s.db.put next).leaf = s.db.leaf := by
    apply OpticsDB.put_leaf_of_ne
    rintro index leaf rfl
    exact hnext
  have hproof : (s.db.put next).proof = s.db.proof := by
    apply OpticsDB.put_proof_of_ne
    rintro index proof rfl
    exact hnext
  -- a stored update is never replaced by another one
  have hroots : ∀ root, s.db.HasNewRoot root → (s.db.put next).HasNewRoot root := by
    intro root hroot
    apply hroot.put
    rintro previousRoot u v rfl hv
    obtain ⟨hold, hlogged⟩ := h.update previousRoot v hv
    rw [hunique v hlogged u hnext.2 (hold.trans hnext.1.symm)]
  constructor
  case leaf =>
    intro i leaf hstored
    rw [hleaf] at hstored
    exact h.leaf i leaf hstored
  case update =>
    intro previousRoot u hu
    cases next with
    | update previousRoot' u' =>
      by_cases hkey : previousRoot = previousRoot'
      · subst hkey
        simp only [OpticsDB.put, Function.update_self] at hu
        exact Option.some.inj hu ▸ hnext
      · simp only [OpticsDB.put, Function.update_of_ne hkey] at hu
        exact h.update previousRoot u hu
    | leaf => exact h.update previousRoot u hu
    | prevRoot => exact h.update previousRoot u hu
    | latestRoot => exact h.update previousRoot u hu
    | proof => exact h.update previousRoot u hu
  case storing =>
    exact fun write hwrite => h.storing write (hstoring ▸ List.mem_cons_of_mem _ hwrite)
  case proof =>
    intro i proof hstored
    rw [hproof] at hstored
    exact ⟨(h.proof i proof hstored).1, hroots _ (h.proof i proof hstored).2⟩
  case task =>
    intro sync phase htask
    obtain ⟨n, hsound⟩ := h.task sync phase htask
    exact ⟨n, hsound.mono (List.prefix_refl _) hproof hroots⟩

/-- The process starts, and the tree that it loads may be proved against. -/
theorem Sound.start {sync : ProverSync Byte} (h : Sound K s)
    (hload : ProverSync.fromDisk K s.db = .ok sync) (hrestartable : Restartable K s .start) :
    Sound K { s with task := some (sync, .loading 0) } := by
  refine ⟨h.leaf, h.update, h.storing, h.proof, ?_⟩
  intro sync' phase htask
  obtain ⟨rfl, rfl⟩ := Prod.mk.inj (Option.some.inj htask)
  rcases ProverSync.fromDisk_spec hload with ⟨-, hholds⟩ | ⟨root, leaves, hlatest, hholds, hdisk⟩
  · exact ⟨0, Nat.zero_le _, hholds.prover, hholds.incremental, fun i _ hi => absurd hi (by omega)⟩
  · -- the loaded leaves are the first ones that were dispatched
    have hfront : leaves <+: s.source.leaves K := by
      rw [List.prefix_iff_getElem?]
      intro i hi
      exact h.leaf i _ (hdisk.stored i _ (List.getElem?_eq_getElem hi))
    have htake : (s.source.leaves K).take leaves.length = leaves :=
      (List.prefix_iff_eq_take.mp hfront).symm
    refine ⟨leaves.length, hfront.length_le, ?_, ?_, ?_⟩
    · rw [htake]
      exact hholds.prover
    · rw [htake]
      exact hholds.incremental
    · intro i _ hi hnone
      rw [htake]
      exact hrestartable root leaves hlatest hdisk ⟨i, hi, hnone⟩

/-- The task takes a step. -/
theorem Sound.advance {sync sync' : ProverSync Byte} {phase phase' : ProverSync.Phase Byte}
    {db : OpticsDB Byte} (h : Sound K s) (htask : s.task = some (sync, phase))
    (hadvance : sync.advance K s.db phase = .ok (db, sync', phase')) :
    Sound K { s with db := db, task := some (sync', phase') } := by
  obtain ⟨n, hsound⟩ := h.task sync phase htask
  obtain ⟨hsound', hwrites⟩ := hsound.advance h.leaf hadvance
  have htask' : ∀ sync'' phase'', some (sync', phase') = some (sync'', phase'') →
      ∃ n, ProverSync.Sound K db (s.source.leaves K) sync'' phase'' n := by
    intro sync'' phase'' heq
    obtain ⟨rfl, rfl⟩ := Prod.mk.inj (Option.some.inj heq)
    exact hsound'
  rcases hwrites with rfl | ⟨index, proof, rfl, hleaf, hroot⟩
  · exact ⟨h.leaf, h.update, h.storing, h.proof, htask'⟩
  · refine ⟨h.leaf, h.update, h.storing, ?_, htask'⟩
    intro i stored hstored
    by_cases hi : i = index
    · subst hi
      simp only [OpticsDB.put, Function.update_self] at hstored
      rw [← Option.some.inj hstored]
      exact ⟨hleaf, hroot.put_proof⟩
    · rw [ProverSync.proof_of_put_proof (Ne.symm hi)] at hstored
      exact ⟨(h.proof i stored hstored).1, (h.proof i stored hstored).2.put_proof⟩

/-- **Run lemma.** When all starts are restartable, every state is sound. -/
theorem sound_of_reachable (ideal : Crypto.IdealHash K)
    (h : ((system K).restrict (Restartable K)).Reachable s) : Sound K s := by
  refine h.invariant (P := Sound K) ?_ ?_
  · rintro s ⟨hinitial, hdb, hstoring, htask⟩
    constructor
    case leaf => simp [ProverSync.LeavesAgree, hdb, OpticsDB.empty]
    case update => simp [hdb, OpticsDB.empty]
    case storing => simp [hstoring]
    case proof => simp [hdb, OpticsDB.empty]
    case task => simp [htask]
  · intro s label s' hreach hsound hstep
    obtain ⟨hstep, hcond⟩ := hstep
    cases hstep with
    | home ctx call source hstep => exact hsound.home (Channel.extends_of_step hstep)
    | syncMessages leafIndex leaf hup hleaf => exact hsound.syncMessages hleaf
    | syncUpdates u hup hidle hu =>
      exact ⟨hsound.leaf, hsound.update, indexed_of_storeLatestUpdate hu, hsound.proof, hsound.task⟩
    | write next rest hup hstoring =>
      have hsource := source_reachable hreach.of_restrict
      exact hsound.write (Home.History.update_unique ideal hsource) hstoring
    | start sync hdown hload => exact hsound.start hload hcond
    | advance sync sync' phase phase' db htask hadvance => exact hsound.advance htask hadvance
    | stop => exact ⟨hsound.leaf, hsound.update, by simp, hsound.proof, by simp⟩

/-- **Stored proofs are usable.** When every start that stores a proof loads the tree
of a stored update, each stored proof is one of the dispatched leaf at its index and
evaluates to the new root of a stored update. -/
theorem proofs_of_restartable (ideal : Crypto.IdealHash K)
    (h : ((system K).restrict (Restartable K)).Reachable s) {i : ℕ} {proof : Proof Byte}
    (hproof : s.db.proofByLeafIndex i = some proof) :
    (s.source.leaves K)[i]? = some proof.leaf ∧
      ∃ previousRoot u, s.db.updateByPreviousRoot previousRoot = some u ∧
        u.newRoot = proof.root K :=
  (sound_of_reachable ideal h).proof i proof hproof

/-! ### Runs with a restart -/

/-- While the process is down, Home takes any run. -/
theorem reachable_of_source {source : Home.History Byte} (h : (Home.system K).Reachable source) :
    ((system K).restrict (Restartable K)).Reachable ⟨source, .empty, [], none⟩ := by
  refine h.invariant (P := fun source =>
    ((system K).restrict (Restartable K)).Reachable ⟨source, .empty, [], none⟩) ?_ ?_
  · intro source hinit
    exact System.reachable_init ⟨hinit, rfl, rfl, rfl⟩
  · intro source tx source' _ hreach hstep
    exact hreach.step ⟨.home tx.1 tx.2 source' hstep, trivial⟩

/-- A first run of the process in which the update indexer stores one update and the
message indexer the first leaf only. -/
theorem exists_indexed {source : Home.History Byte} (h : (Home.system K).Reachable source)
    {u : SignedUpdate Byte} (hu : u ∈ Home.updates source.log) {leaf : Bytes32 Byte}
    (hleaf : (source.leaves K)[0]? = some leaf) :
    ∃ s, ((system K).restrict (Restartable K)).Reachable s ∧ s.source = source ∧ s.task = none ∧
      s.db.latestRoot = some u.newRoot ∧ s.db.leaf = Function.update (fun _ => none) 0 (some leaf) ∧
      s.db.proof = (fun _ => none) ∧
      s.db.update = Function.update (fun _ => none) u.oldRoot (some u) := by
  have hreach₀ := reachable_of_source h
  have hfresh : Restartable K (⟨source, .empty, [], none⟩ : Processor Byte) .start := by
    intro root leaves hlatest
    cases hlatest
  have hreach₁ := hreach₀.step ⟨.start (ProverSync.default K) rfl rfl, hfresh⟩
  have hreach₂ := hreach₁.step ⟨.syncUpdates u rfl rfl hu, trivial⟩
  have hreach₃ :=
    hreach₂.step ⟨.write (.latestRoot u.newRoot) (OpticsDB.storeUpdate u) rfl rfl, trivial⟩
  have hreach₄ := hreach₃.step ⟨.write (.update u.oldRoot u) [.prevRoot u.newRoot u.oldRoot] rfl rfl,
    trivial⟩
  have hreach₅ := hreach₄.step ⟨.write (.prevRoot u.newRoot u.oldRoot) [] rfl rfl, trivial⟩
  have hreach₆ := hreach₅.step ⟨.syncMessages 0 leaf rfl hleaf, trivial⟩
  exact ⟨_, hreach₆.step ⟨.stop, trivial⟩, rfl, rfl, rfl, rfl, rfl, rfl⟩

/-- A restart with one leaf on disk stores its proof under the root of that leaf
alone, whatever the latest root is. -/
theorem exists_proof_of_restart {root leaf : Bytes32 Byte} (hdown : s.task = none)
    (hlatest : s.db.latestRoot = some root) (hleaf : s.db.leaf 0 = some leaf)
    (hmissing : s.db.leaf 1 = none) (hunproven : s.db.proof 0 = none) :
    ∃ s₁ s₂ proof, Step K s .start s₁ ∧ Step K s₁ .advance s₂ ∧ s₂.source = s.source ∧
      s₂.db = s.db.put (.proof 0 proof) ∧ proof.leaf = leaf ∧ proof.root K = listRoot K [leaf] := by
  obtain ⟨sync, hingest, hholds⟩ :=
    (ProverSync.holds_default (K := K)).ingestLeaf leaf (by simp [U32_MAX])
  have hload : ProverSync.fromDisk K s.db = .ok sync := by
    rw [ProverSync.fromDisk, OpticsDB.retrieveLatestRoot, hlatest]
    dsimp only
    rw [ProverSync.loadLeaves_of_leaf hleaf hingest, ProverSync.loadLeaves_of_missing hmissing,
      ite_self]
  obtain ⟨proof, hstore, hproof, hroot⟩ :=
    ProverSync.storeProof_spec s.db (i := 0) hholds.prover (by simp) (by simp [U32_MAX])
  have hcount : 0 < sync.prover.count := by
    rw [hholds.prover]
    simp
  have hadvance : sync.advance K s.db (.loading 0) =
      .ok (s.db.put (.proof 0 proof), sync, .loading 1) := by
    rw [ProverSync.advance, if_pos hcount, OpticsDB.leafByLeafIndex, OpticsDB.proofByLeafIndex,
      hleaf, hunproven]
    dsimp only
    rw [hstore]
  refine ⟨_, _, proof, .start sync hdown hload, .advance sync sync _ _ _ rfl hadvance, rfl, rfl, ?_,
    hroot⟩
  exact (Option.some.inj hproof).symm

omit [DecidableEq Byte] in
/-- With one leaf on disk, only that leaf can be loaded. -/
theorem eq_singleton_of_onDisk {db : OpticsDB Byte} {root leaf : Bytes32 Byte}
    {leaves : List (Bytes32 Byte)} (h : ProverSync.OnDisk K db root leaves)
    (hleaf : db.leaf 0 = some leaf) (hmissing : db.leaf 1 = none) (hne : 0 < leaves.length) :
    leaves = [leaf] := by
  match leaves with
  | [] => exact absurd hne (Nat.lt_irrefl 0)
  | [first] => rw [Option.some.inj ((h.stored 0 first rfl).symm.trans hleaf)]
  | first :: second :: rest =>
    have hsecond := h.stored 1 second rfl
    rw [hmissing] at hsecond
    cases hsecond

/-- A Home that dispatched two messages and accepted the root of the first `j`. -/
theorem exists_committed {j : ℕ} (hlow : 0 < j) (hhigh : j ≤ 2) :
    ∃ (source : Home.History ℕ) (u : SignedUpdate ℕ) (first second : Bytes32 ℕ),
      (Home.system Channel.sampleCrypto).Reachable source ∧ Home.updates source.log = [u] ∧
      source.leaves Channel.sampleCrypto = [first, second] ∧
      u.newRoot = listRoot Channel.sampleCrypto ([first, second].take j) := by
  let K := Channel.sampleCrypto
  have ideal : Crypto.IdealHash K := Channel.sampleCrypto_ideal
  obtain ⟨start, middle, history, hinitial, hstep, hstep', -, hstate, hupdater, hupdates,
    hleaves, -, hin⟩ := Home.exists_dispatched_twice K 0
  let u : SignedUpdate ℕ := ⟨0, Home.prefixRoot K (history.leaves K) j, []⟩
  have hnew : u.newRoot = Home.prefixRoot K (history.leaves K) j := rfl
  obtain ⟨queue, hupdate, -⟩ := Home.exec_update_of_lt ideal hin (history.zero_notMem_leaves ideal)
    hlow (by simpa [hleaves] using hhigh) Home.sampleContext hin.committedRoot_eq.symm hnew
    (by simp [hstate]) (by rw [hupdater]; rfl)
  have hreach := ((System.reachable_init hinitial).step hstep).step hstep'
  obtain ⟨source, hreach', hlog, hdispatched⟩ : ∃ source : Home.History ℕ,
      (Home.system K).Reachable source ∧
        source.log = history.log ++ [.Update history.home.localDomain u] ∧
        source.leaves K = history.leaves K :=
    ⟨_, hreach.step (Home.History.step_of_exec hupdate), rfl, by
      simp [Home.History.leaves, Home.Call.dispatched]⟩
  refine ⟨source, u, _, _, hreach', ?_, hdispatched.trans hleaves, ?_⟩
  · rw [hlog, Home.updates_append, hupdates]
    rfl
  · rw [hnew, Home.prefixRoot_of_pos hlow, hleaves]
    rfl

/-- The first run of a process over such a Home, with the update and the first leaf in its
database. -/
theorem exists_committed_indexed {j : ℕ} (hlow : 0 < j) (hhigh : j ≤ 2) :
    ∃ (s : Processor ℕ) (u : SignedUpdate ℕ) (first second : Bytes32 ℕ),
      ((system Channel.sampleCrypto).restrict (Restartable Channel.sampleCrypto)).Reachable s ∧
      Home.updates s.source.log = [u] ∧
      s.source.leaves Channel.sampleCrypto = [first, second] ∧
      u.newRoot = listRoot Channel.sampleCrypto ([first, second].take j) ∧
      s.task = none ∧ s.db.latestRoot = some u.newRoot ∧ s.db.leaf 0 = some first ∧
      s.db.leaf 1 = none ∧ s.db.proof 0 = none ∧
      s.db.update = Function.update (fun _ => none) u.oldRoot (some u) := by
  obtain ⟨source, u, first, second, hsource, hupdates, hleaves, hnew⟩ := exists_committed hlow hhigh
  have hmem : u ∈ Home.updates source.log := hupdates ▸ List.mem_singleton_self u
  have hget : (source.leaves Channel.sampleCrypto)[0]? = some first := by rw [hleaves]; rfl
  obtain ⟨s, hreach, rfl, hdown, hlatest, hleaf, hproof, hupdate⟩ :=
    exists_indexed hsource hmem hget
  refine ⟨s, u, first, second, hreach, hupdates, hleaves, hnew, hdown, hlatest, ?_, ?_, ?_, hupdate⟩
  · rw [hleaf, Function.update_self]
  · rw [hleaf, Function.update_of_ne one_ne_zero]
  · rw [hproof]

/-- **An unusable proof.** Two messages are dispatched and the updater signs the root
of both. When the process restarts with the update and only the first message in
its database, it stores a proof of that message under a root that is no update's
new root. -/
theorem proof_under_unsigned_root :
    ∃ (s : Processor ℕ) (proof : Proof ℕ), (system Channel.sampleCrypto).Reachable s ∧
      s.db.proofByLeafIndex 0 = some proof ∧
      (∀ u ∈ Home.updates s.source.log, u.newRoot ≠ proof.root Channel.sampleCrypto) ∧
      ∀ previousRoot u, s.db.updateByPreviousRoot previousRoot = some u →
        u.newRoot ≠ proof.root Channel.sampleCrypto := by
  have ideal : Crypto.IdealHash Channel.sampleCrypto := Channel.sampleCrypto_ideal
  obtain ⟨s, u, first, second, hreach, hupdates, hleaves, hnew, hdown, hlatest, hstored, hmissing,
    hunproven, hupdate⟩ := exists_committed_indexed two_pos le_rfl
  obtain ⟨s₁, s₂, proof, hstart, hadvance, hsource, hdb, -, hroot⟩ :=
    exists_proof_of_restart hdown hlatest hstored hmissing hunproven
  -- the trees of one and of two leaves have different roots
  have hne : u.newRoot ≠ proof.root Channel.sampleCrypto := by
    rw [hnew, hroot]
    intro heq
    have hzero : 0 ∉ [first, second] := hleaves ▸ s.source.zero_notMem_leaves ideal
    have hzero' : 0 ∉ [first] := fun h => hzero (List.mem_cons.mpr (.inl (List.mem_singleton.mp h)))
    have hlength : [first, second].length = [first].length :=
      MerkleLib.length_eq_of_treeRoot_eq ideal
        (by simp [MerkleLib.MAX_LEAVES, MerkleLib.TREE_DEPTH])
        (by simp [MerkleLib.MAX_LEAVES, MerkleLib.TREE_DEPTH]) hzero hzero' heq
    cases hlength
  refine ⟨s₂, proof, (hreach.of_restrict.step hstart).step hadvance, ?_, ?_, ?_⟩
  · rw [hdb, OpticsDB.proofByLeafIndex_put]
  · rw [hsource, hupdates]
    intro v hv
    rw [List.mem_singleton.mp hv]
    exact hne
  · intro previousRoot v hv
    rw [hdb] at hv
    have hstored : s.db.update previousRoot = some v := hv
    rw [hupdate] at hstored
    by_cases hkey : previousRoot = u.oldRoot
    · subst hkey
      rw [Function.update_self] at hstored
      rw [← Option.some.inj hstored]
      exact hne
    · rw [Function.update_of_ne hkey] at hstored
      cases hstored

/-- A restart on the signed tree stores a proof that can be used. -/
theorem proofs_of_restartable_signed :
    ∃ (s : Processor ℕ) (proof : Proof ℕ), s.db.proofByLeafIndex 0 = some proof ∧
      (s.source.leaves Channel.sampleCrypto)[0]? = some proof.leaf ∧
      ∃ previousRoot u, s.db.updateByPreviousRoot previousRoot = some u ∧
        u.newRoot = proof.root Channel.sampleCrypto := by
  have ideal : Crypto.IdealHash Channel.sampleCrypto := Channel.sampleCrypto_ideal
  obtain ⟨s, u, first, second, hreach, -, -, hnew, hdown, hlatest, hstored, hmissing, hunproven,
    hupdate⟩ := exists_committed_indexed one_pos one_le_two
  obtain ⟨s₁, s₂, proof, hstart, hadvance, -, hdb, -, -⟩ :=
    exists_proof_of_restart hdown hlatest hstored hmissing hunproven
  -- the leaves on disk are the signed ones
  have hrestartable : Restartable Channel.sampleCrypto s .start := by
    rintro root leaves - hdisk ⟨i, hi, -⟩
    have hloaded := eq_singleton_of_onDisk hdisk hstored hmissing (Nat.zero_lt_of_lt hi)
    refine ⟨u.oldRoot, u, ?_, hnew.trans (congrArg _ hloaded.symm)⟩
    rw [hupdate]
    exact Function.update_self _ _ _
  have hreach' := (hreach.step ⟨hstart, hrestartable⟩).step ⟨hadvance, trivial⟩
  have hfound : s₂.db.proofByLeafIndex 0 = some proof := by
    rw [hdb, OpticsDB.proofByLeafIndex_put]
  exact ⟨s₂, proof, hfound, proofs_of_restartable ideal hreach' hfound⟩

end Processor

end Optics
