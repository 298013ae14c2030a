/-
# The prover's synchronisation task

`ProverSync` rebuilds its trees from the database when the process starts, stores
the proofs that are missing, and then follows the signed updates one by one. Other
tasks write to the database while it runs, so the task advances in steps, each
with at most one wait, one read that another task may influence, or one write.
The task ends when it panics or returns an error.
-/

import Optics.Agents.OpticsDB
import Optics.Agents.Prover

namespace Optics

open Optics.Solidity Optics.Common Optics.Accumulator

variable {Byte : Type} [ByteAlphabet Byte]

/-- `ProverSyncError`. -/
inductive ProverSyncError (Byte : Type)
  | MismatchedRoots (localRoot newRoot : Bytes32 Byte)
  | InvalidLocalRoot (localRoot : Bytes32 Byte)
  | ProverError (error : Optics.ProverError Byte)

/-- `ProverSync`, without the database handle. -/
structure ProverSync (Byte : Type) where
  prover : Prover Byte
  incremental : IncrementalMerkle Byte

namespace ProverSync

/-- How the task ends. -/
inductive Halt (Byte : Type)
  | panic (message : String)
  | error (e : ProverSyncError Byte)

/-- Where the task stands: in the loop of `from_disk` over the proofs, at the top
of the loop of `spawn`, before its check of the local root, in
`update_incremental`, in `get_leaf_range`, or in the loop of `update_full` over
the proofs. -/
inductive Phase (Byte : Type)
  | loading (next : ℕ)
  | polling
  | checking (localRoot : Bytes32 Byte)
  | ingesting (localRoot newRoot : Bytes32 Byte) (incremental : IncrementalMerkle Byte)
      (currentRoot : Bytes32 Byte)
  | committing (newRoot : Bytes32 Byte) (next stop : ℕ) (leaves : List (Bytes32 Byte))
  | proving (next : ℕ)

section Definitions

variable (K : Crypto Byte)

/-- `INITIAL_ROOT`. -/
def INITIAL_ROOT : Bytes32 Byte := (IncrementalMerkle.default K).root K

/-- Both trees as they are created. -/
def default : ProverSync Byte := ⟨Prover.default K, IncrementalMerkle.default K⟩

variable [DecidableEq Byte]

/-- `local_root`. -/
def localRoot (sync : ProverSync Byte) : Bytes32 Byte :=
  let root := sync.prover.root K
  if root = INITIAL_ROOT K then 0 else root

/-- `store_proof`. -/
def storeProof (sync : ProverSync Byte) (db : OpticsDB Byte) (leafIndex : ℕ) :
    Except (Halt Byte) (OpticsDB Byte) :=
  match sync.prover.prove K leafIndex with
  | none => .error (.panic "proof generation")
  | some (.ok proof) => .ok (db.put (.proof leafIndex proof))
  | some (.error (.ZeroProof _ _)) => .ok db
  | some (.error e) => .error (.error (.ProverError e))

/-- One leaf of `from_disk`, into both trees. -/
def ingestLeaf (sync : ProverSync Byte) (leaf : Bytes32 Byte) :
    Except (Halt Byte) (ProverSync Byte) :=
  match sync.prover.ingest K leaf, sync.incremental.ingest K leaf with
  | (.error _, _), _ => .error (.panic "!tree full")
  | _, none => .error (.panic "assertion failed: self.count < u32::MAX as usize")
  | (.ok _, prover), some incremental =>
    if prover.root K = incremental.root K then .ok ⟨prover, incremental⟩
    else .error (.panic "assertion failed: prover.root() == incremental.root()")

theorem count_lt_of_ingestLeaf {sync sync' : ProverSync Byte} {leaf : Bytes32 Byte}
    (h : sync.ingestLeaf K leaf = .ok sync') :
    sync.incremental.count < U32_MAX ∧
      sync'.incremental.count = sync.incremental.count + 1 := by
  unfold ingestLeaf at h
  split at h
  · cases h
  · cases h
  · rename_i hincremental
    split_ifs at h
    rw [← Except.ok.inj h]
    exact IncrementalMerkle.count_of_ingest hincremental

/-- The loop of `from_disk` over the leaves. -/
def loadLeaves (db : OpticsDB Byte) (root : Bytes32 Byte) (i : ℕ) (sync : ProverSync Byte) :
    Except (Halt Byte) (ProverSync Byte) :=
  match db.leafByLeafIndex i with
  | none => .ok sync
  | some leaf =>
    match h : sync.ingestLeaf K leaf with
    | .error e => .error e
    | .ok sync' =>
      have := count_lt_of_ingestLeaf K h
      if sync'.prover.root K = root then .ok sync' else loadLeaves db root (i + 1) sync'
termination_by U32_MAX - sync.incremental.count

/-- `from_disk`, up to the loop over the proofs. -/
def fromDisk (db : OpticsDB Byte) : Except (Halt Byte) (ProverSync Byte) :=
  match db.retrieveLatestRoot with
  | some root => loadLeaves K db root 0 (default K)
  | none => .ok (default K)

/-- One step of the task. -/
def advance (db : OpticsDB Byte) (sync : ProverSync Byte) :
    Phase Byte → Except (Halt Byte) (OpticsDB Byte × ProverSync Byte × Phase Byte)
  | .loading next =>
    if next < sync.prover.count then
      match db.leafByLeafIndex next, db.proofByLeafIndex next with
      | some _, none =>
        match sync.storeProof K db next with
        | .ok db => .ok (db, sync, .loading (next + 1))
        | .error _ => .error (.panic "db error")
      | none, _ => .ok (db, sync, .polling)
      | some _, some _ => .ok (db, sync, .loading (next + 1))
    else .ok (db, sync, .polling)
  | .polling =>
    let localRoot := sync.localRoot K
    match db.updateByPreviousRoot localRoot with
    | some signedUpdate =>
      .ok (db, sync, .ingesting localRoot signedUpdate.newRoot sync.incremental localRoot)
    | none => .ok (db, sync, if localRoot = 0 then .polling else .checking localRoot)
  | .checking localRoot =>
    match db.updateByNewRoot localRoot with
    | none => .error (.error (.InvalidLocalRoot localRoot))
    | some _ => .ok (db, sync, .polling)
  | .ingesting localRoot newRoot incremental currentRoot =>
    if currentRoot = newRoot then
      -- `update_incremental` ends, and `update_full` goes on
      if incremental.root K = newRoot then
        let start := sync.incremental.count
        let sync := { sync with incremental := incremental }
        if localRoot ≠ sync.localRoot K then .ok (db, sync, .polling)
        else .ok (db, sync, .committing newRoot start incremental.count [])
      else .error (.panic "assertion failed: incremental.root() == new_root")
    else
      match db.leafByLeafIndex incremental.count with
      | none => .ok (db, sync, .ingesting localRoot newRoot incremental currentRoot)
      | some leaf =>
        match incremental.ingest K leaf with
        | none => .error (.panic "assertion failed: self.count < u32::MAX as usize")
        | some incremental =>
          .ok (db, sync, .ingesting localRoot newRoot incremental (incremental.root K))
  | .committing newRoot next stop leaves =>
    if next < stop then
      match db.leafByLeafIndex next with
      | none => .ok (db, sync, .committing newRoot next stop leaves)
      | some leaf => .ok (db, sync, .committing newRoot (next + 1) stop (leaves ++ [leaf]))
    else
      match sync.prover.extend K leaves with
      | none => .error (.panic "!tree full")
      | some prover =>
        if newRoot ≠ prover.root K then
          .error (.error (.MismatchedRoots (prover.root K) newRoot))
        else .ok (db, { sync with prover := prover }, .proving 0)
  | .proving next =>
    if next < sync.prover.count then
      match db.proofByLeafIndex next with
      | none =>
        match sync.storeProof K db next with
        | .ok db => .ok (db, sync, .proving (next + 1))
        | .error e => .error e
      | some _ => .ok (db, sync, .proving (next + 1))
    else .ok (db, sync, .polling)

end Definitions

variable [DecidableEq Byte] {K : Crypto Byte} {db db' : OpticsDB Byte}
  {sync sync' : ProverSync Byte} {leaves : List (Bytes32 Byte)} {leaf root : Bytes32 Byte}

/-! ### Loading from disk -/

/-- Both trees were filled with exactly the listed leaves, in order. -/
structure Holds (K : Crypto Byte) (sync : ProverSync Byte)
    (leaves : List (Bytes32 Byte)) : Prop where
  prover : sync.prover.Holds K leaves
  incremental : sync.incremental.Holds K leaves

omit [DecidableEq Byte] in
theorem holds_default : (default K : ProverSync Byte).Holds K [] :=
  ⟨Prover.holds_default, IncrementalMerkle.holds_default⟩

/-- Both trees take a leaf until they are full, and then have the same root. -/
theorem Holds.ingestLeaf (h : sync.Holds K leaves) (leaf : Bytes32 Byte)
    (hroom : leaves.length < U32_MAX) :
    ∃ sync', sync.ingestLeaf K leaf = .ok sync' ∧ sync'.Holds K (leaves ++ [leaf]) := by
  obtain ⟨root, prover, hprover, hholds⟩ :=
    h.prover.ingest leaf (IncrementalMerkle.lt_two_pow_of_le hroom.le)
  obtain ⟨incremental, hincremental, hholds'⟩ := h.incremental.ingest leaf hroom
  refine ⟨⟨prover, incremental⟩, ?_, hholds, hholds'⟩
  rw [ProverSync.ingestLeaf, hprover, hincremental]
  exact if_pos (hholds.root_eq.trans hholds'.root_eq.symm)

theorem Holds.of_ingestLeaf (h : sync.Holds K leaves)
    (hingest : sync.ingestLeaf K leaf = .ok sync') : sync'.Holds K (leaves ++ [leaf]) := by
  have hroom := (count_lt_of_ingestLeaf K hingest).1
  rw [h.incremental.count_eq] at hroom
  obtain ⟨sync'', hingest', hholds⟩ := h.ingestLeaf leaf hroom
  rw [hingest] at hingest'
  exact Except.ok.inj hingest' ▸ hholds

/-- The leaves that a restart reads: those stored below the first missing one, cut
off as soon as their root is the latest root. -/
structure OnDisk (K : Crypto Byte) (db : OpticsDB Byte) (root : Bytes32 Byte)
    (leaves : List (Bytes32 Byte)) : Prop where
  stored : ∀ i leaf, leaves[i]? = some leaf → db.leaf i = some leaf
  before : ∀ n, 0 < n → n < leaves.length → listRoot K (leaves.take n) ≠ root
  stop : (leaves ≠ [] ∧ listRoot K leaves = root) ∨ db.leaf leaves.length = none

omit [ByteAlphabet Byte] [DecidableEq Byte] in
/-- One more stored leaf. -/
theorem stored_concat (h : ∀ i leaf, leaves[i]? = some leaf → db.leaf i = some leaf)
    (hleaf : db.leaf leaves.length = some leaf) :
    ∀ i leaf', (leaves ++ [leaf])[i]? = some leaf' → db.leaf i = some leaf' := by
  intro i leaf' hi
  rcases lt_trichotomy i leaves.length with hlt | rfl | hgt
  · rw [List.getElem?_append_left hlt] at hi
    exact h i leaf' hi
  · rw [List.getElem?_concat_length] at hi
    rw [hleaf, hi]
  · rw [List.getElem?_eq_none (by rw [List.length_append]; exact hgt)] at hi
    cases hi

/-- The loop at a missing leaf. -/
theorem loadLeaves_of_missing {i : ℕ} (hleaf : db.leafByLeafIndex i = none) :
    loadLeaves K db root i sync = .ok sync := by
  rw [loadLeaves, hleaf]

/-- The loop at a leaf that both trees take. -/
theorem loadLeaves_of_leaf {i : ℕ} (hleaf : db.leafByLeafIndex i = some leaf)
    (hingest : sync.ingestLeaf K leaf = .ok sync') :
    loadLeaves K db root i sync =
      if sync'.prover.root K = root then .ok sync' else loadLeaves K db root (i + 1) sync' := by
  rw [loadLeaves, hleaf]
  dsimp only
  split
  · rename_i e herror
    rw [hingest] at herror
    cases herror
  · rename_i sync'' hingest'
    rw [hingest] at hingest'
    rw [Except.ok.inj hingest']

/-- The loop over the leaves ends with both trees holding what is on disk. -/
theorem loadLeaves_spec {i : ℕ} (h : sync.Holds K leaves) (hi : leaves.length = i)
    (hstored : ∀ i leaf, leaves[i]? = some leaf → db.leaf i = some leaf)
    (hbefore : ∀ n, 0 < n → n ≤ leaves.length → listRoot K (leaves.take n) ≠ root)
    (hload : loadLeaves K db root i sync = .ok sync') :
    ∃ all, sync'.Holds K all ∧ OnDisk K db root all := by
  induction i, sync using loadLeaves.induct K db root generalizing leaves with
  | case1 i sync hleaf =>
    -- the next leaf is missing
    rw [loadLeaves_of_missing hleaf] at hload
    obtain rfl := Except.ok.inj hload
    exact ⟨leaves, h, hstored, fun n hpos hn => hbefore n hpos hn.le, .inr (hi ▸ hleaf)⟩
  | case2 i sync leaf hleaf e hingest =>
    rw [loadLeaves, hleaf] at hload
    dsimp only at hload
    split at hload
    · cases hload
    · rename_i sync₁ hingest'
      rw [hingest] at hingest'
      cases hingest'
  | case3 i sync leaf hleaf sync₁ hingest hcount hroot =>
    -- the latest root is reached
    rw [loadLeaves_of_leaf hleaf hingest, if_pos hroot] at hload
    obtain rfl := Except.ok.inj hload
    have hholds := h.of_ingestLeaf hingest
    refine ⟨leaves ++ [leaf], hholds, stored_concat hstored (hi ▸ hleaf), ?_, .inl ⟨by simp, ?_⟩⟩
    · intro n hpos hn
      have hle : n ≤ leaves.length := by
        rw [List.length_append, List.length_singleton] at hn
        omega
      rw [List.take_append_of_le_length hle]
      exact hbefore n hpos hle
    · rw [← hholds.prover.root_eq, hroot]
  | case4 i sync leaf hleaf sync₁ hingest hcount hroot ih =>
    rw [loadLeaves_of_leaf hleaf hingest, if_neg hroot] at hload
    have hholds := h.of_ingestLeaf hingest
    refine ih hholds (by simp [hi]) (stored_concat hstored (hi ▸ hleaf)) ?_ hload
    intro n hpos hn
    by_cases hlast : n = leaves.length + 1
    · rw [List.take_of_length_le (by simp [hlast]), ← hholds.prover.root_eq]
      exact hroot
    · have hle : n ≤ leaves.length := by
        rw [List.length_append, List.length_singleton] at hn
        omega
      rw [List.take_append_of_le_length hle]
      exact hbefore n hpos hle

/-- What a restart loads: nothing without a latest root, else what is on disk. -/
theorem fromDisk_spec (h : fromDisk K db = .ok sync) :
    (db.latestRoot = none ∧ sync.Holds K []) ∨
      ∃ root leaves, db.latestRoot = some root ∧ sync.Holds K leaves ∧ OnDisk K db root leaves := by
  rw [fromDisk, OpticsDB.retrieveLatestRoot] at h
  cases hlatest : db.latestRoot with
  | none =>
    rw [hlatest] at h
    obtain rfl := Except.ok.inj h
    exact .inl ⟨rfl, holds_default⟩
  | some root =>
    rw [hlatest] at h
    have hnone : ∀ n, 0 < n → n ≤ ([] : List (Bytes32 Byte)).length →
        listRoot K (([] : List (Bytes32 Byte)).take n) ≠ root := by
      intro n hpos hn
      exact absurd hpos (Nat.not_lt.mpr hn)
    obtain ⟨leaves, hholds, hdisk⟩ := loadLeaves_spec holds_default rfl (by simp) hnone h
    exact .inr ⟨root, leaves, rfl, hholds, hdisk⟩

/-! ### One step of the task -/

/-- Every leaf in the database is the dispatched one. -/
def LeavesAgree (db : OpticsDB Byte) (leaves : List (Bytes32 Byte)) : Prop :=
  ∀ i leaf, db.leaf i = some leaf → leaves[i]? = some leaf

/-- What holds in a phase of a task whose prover has the first `n` dispatched
leaves. Proofs are stored only where the root of these leaves is the new root of a
stored update. -/
def PhaseSound (K : Crypto Byte) (db : OpticsDB Byte) (leaves : List (Bytes32 Byte))
    (sync : ProverSync Byte) (n : ℕ) : Phase Byte → Prop
  | .loading next => sync.incremental.Holds K (leaves.take n) ∧
      ∀ i, next ≤ i → i < n → db.proof i = none → db.HasNewRoot (listRoot K (leaves.take n))
  | .polling => sync.incremental.Holds K (leaves.take n)
  | .checking _ => sync.incremental.Holds K (leaves.take n)
  | .ingesting localRoot newRoot copy _ => sync.incremental.Holds K (leaves.take n) ∧
      localRoot = sync.localRoot K ∧ db.HasNewRoot newRoot ∧
      ∃ m, n ≤ m ∧ m ≤ leaves.length ∧ copy.Holds K (leaves.take m)
  | .committing newRoot next stop read => db.HasNewRoot newRoot ∧ n ≤ next ∧ next ≤ stop ∧
      stop ≤ leaves.length ∧ sync.incremental.Holds K (leaves.take stop) ∧
      leaves.take n ++ read = leaves.take next
  | .proving _ => sync.incremental.Holds K (leaves.take n) ∧
      db.HasNewRoot (listRoot K (leaves.take n))

/-- A running task is in step with the dispatched leaves and the stored updates. -/
structure Sound (K : Crypto Byte) (db : OpticsDB Byte) (leaves : List (Bytes32 Byte))
    (sync : ProverSync Byte) (phase : Phase Byte) (n : ℕ) : Prop where
  le : n ≤ leaves.length
  prover : sync.prover.Holds K (leaves.take n)
  phase : PhaseSound K db leaves sync n phase

/-- More leaves and more stored updates leave a task sound, as long as the proofs
stay. -/
theorem Sound.mono {phase : Phase Byte} {n : ℕ} {leaves' : List (Bytes32 Byte)}
    (h : Sound K db leaves sync phase n) (hfront : leaves <+: leaves')
    (hproof : db'.proof = db.proof) (hroots : ∀ root, db.HasNewRoot root → db'.HasNewRoot root) :
    Sound K db' leaves' sync phase n := by
  have htake : ∀ m, m ≤ leaves.length → leaves'.take m = leaves.take m := by
    intro m hm
    obtain ⟨more, rfl⟩ := hfront
    exact List.take_append_of_le_length hm
  have hlength := hfront.length_le
  have hn := htake n h.le
  refine ⟨h.le.trans hlength, hn ▸ h.prover, ?_⟩
  have hphase := h.phase
  cases phase with
  | loading next =>
    obtain ⟨hincremental, hunproven⟩ := hphase
    refine ⟨hn ▸ hincremental, fun i hi hlt hnone => ?_⟩
    rw [hproof] at hnone
    rw [hn]
    exact hroots _ (hunproven i hi hlt hnone)
  | polling =>
    rw [PhaseSound, hn]
    exact hphase
  | checking localRoot =>
    rw [PhaseSound, hn]
    exact hphase
  | ingesting localRoot newRoot copy currentRoot =>
    obtain ⟨hincremental, hlocal, hroot, m, hnm, hm, hcopy⟩ := hphase
    exact ⟨hn ▸ hincremental, hlocal, hroots _ hroot, m, hnm, hm.trans hlength,
      htake m hm ▸ hcopy⟩
  | committing newRoot next stop read =>
    obtain ⟨hroot, hnext, hstop, hle, hincremental, hread⟩ := hphase
    refine ⟨hroots _ hroot, hnext, hstop, hle.trans hlength, htake stop hle ▸ hincremental, ?_⟩
    rw [hn, htake next (hstop.trans hle)]
    exact hread
  | proving next =>
    rw [PhaseSound, hn]
    exact ⟨hphase.1, hroots _ hphase.2⟩

/-- The proof of an ingested leaf is stored under the root of the prover. -/
theorem storeProof_spec (db : OpticsDB Byte) {held : List (Bytes32 Byte)} {i : ℕ}
    (h : sync.prover.Holds K held)
    (hindex : i < held.length) (hfits : held.length ≤ U32_MAX) :
    ∃ proof, sync.storeProof K db i = .ok (db.put (.proof i proof)) ∧
      held[i]? = some proof.leaf ∧ proof.root K = listRoot K held := by
  obtain ⟨proof, hprove, hleaf, hroot⟩ :=
    h.prove hindex (IncrementalMerkle.lt_two_pow_of_le hfits).le
  refine ⟨proof, ?_, ?_, hroot⟩
  · rw [storeProof, hprove]
  · rw [hleaf, List.getElem?_eq_getElem hindex]

omit [ByteAlphabet Byte] in
/-- A new proof leaves all other proofs. -/
theorem proof_of_put_proof {i j : ℕ} {proof : Proof Byte} (hne : i ≠ j) :
    (db.put (.proof i proof)).proof j = db.proof j :=
  Function.update_of_ne hne.symm _ _

/-- What a step of a sound task may do: it leaves the task sound, and it writes
nothing, or a proof of a dispatched leaf under the new root of a stored update. -/
structure GoodStep (K : Crypto Byte) (leaves : List (Bytes32 Byte)) (db db' : OpticsDB Byte)
    (sync' : ProverSync Byte) (phase' : Phase Byte) : Prop where
  sound : ∃ n, Sound K db' leaves sync' phase' n
  writes : db' = db ∨ ∃ i proof, db' = db.put (.proof i proof) ∧ leaves[i]? = some proof.leaf ∧
    db.HasNewRoot (proof.root K)

section Step

variable {phase phase' : Phase Byte} {n : ℕ}

theorem Sound.length_eq (h : Sound K db leaves sync phase n) : (leaves.take n).length = n :=
  List.length_take_of_le h.le

theorem Sound.count_eq (h : Sound K db leaves sync phase n) : sync.prover.count = n := by
  rw [h.prover, h.length_eq]

/-- Storing the proof of an index below the count. -/
theorem Sound.storeProof {i : ℕ} (h : Sound K db leaves sync phase n) (hi : i < n)
    (hfits : (leaves.take n).length ≤ U32_MAX)
    (hroot : db.HasNewRoot (listRoot K (leaves.take n))) :
    ∃ proof, sync.storeProof K db i = .ok (db.put (.proof i proof)) ∧
      leaves[i]? = some proof.leaf ∧ db.HasNewRoot (proof.root K) := by
  obtain ⟨proof, hstore, hleaf, hproof⟩ :=
    storeProof_spec db h.prover (h.length_eq.symm ▸ hi) hfits
  rw [List.getElem?_take_of_lt hi] at hleaf
  exact ⟨proof, hstore, hleaf, hproof.symm ▸ hroot⟩

theorem Sound.loading {next : ℕ} (h : Sound K db leaves sync (.loading next) n)
    (hadvance : advance K db sync (.loading next) = .ok (db', sync', phase')) :
    GoodStep K leaves db db' sync' phase' := by
  obtain ⟨hincremental, hunproven⟩ := h.phase
  rw [advance, h.count_eq] at hadvance
  split_ifs at hadvance with hnext
  · split at hadvance
    · -- a leaf without a proof
      rename_i leaf hleaf hnone
      obtain ⟨proof, hstore, hproof⟩ :=
        h.storeProof hnext hincremental.fits (hunproven next le_rfl hnext hnone)
      rw [hstore] at hadvance
      obtain ⟨rfl, rfl, rfl⟩ := by simpa using hadvance
      refine ⟨⟨n, h.le, h.prover, hincremental, fun i hi hlt hmissing => ?_⟩,
        .inr ⟨next, proof, rfl, hproof⟩⟩
      rw [proof_of_put_proof (by omega)] at hmissing
      exact (hunproven i (by omega) hlt hmissing).put_proof
    · obtain ⟨rfl, rfl, rfl⟩ := by simpa using hadvance
      exact ⟨⟨n, h.le, h.prover, hincremental⟩, .inl rfl⟩
    · obtain ⟨rfl, rfl, rfl⟩ := by simpa using hadvance
      exact ⟨⟨n, h.le, h.prover, hincremental, fun i hi => hunproven i (by omega)⟩, .inl rfl⟩
  · obtain ⟨rfl, rfl, rfl⟩ := by simpa using hadvance
    exact ⟨⟨n, h.le, h.prover, hincremental⟩, .inl rfl⟩

theorem Sound.polling (h : Sound K db leaves sync .polling n)
    (hadvance : advance K db sync .polling = .ok (db', sync', phase')) :
    GoodStep K leaves db db' sync' phase' := by
  have hincremental : sync.incremental.Holds K (leaves.take n) := h.phase
  rw [advance] at hadvance
  split at hadvance
  · -- the stored update becomes the target
    rename_i u hu
    obtain ⟨rfl, rfl, rfl⟩ := by simpa using hadvance
    exact ⟨⟨n, h.le, h.prover, hincremental, rfl, ⟨_, u, hu, rfl⟩, n, le_rfl, h.le, hincremental⟩,
      .inl rfl⟩
  · split_ifs at hadvance
    · obtain ⟨rfl, rfl, rfl⟩ := by simpa using hadvance
      exact ⟨⟨n, h.le, h.prover, hincremental⟩, .inl rfl⟩
    · obtain ⟨rfl, rfl, rfl⟩ := by simpa using hadvance
      exact ⟨⟨n, h.le, h.prover, hincremental⟩, .inl rfl⟩

theorem Sound.checking {localRoot : Bytes32 Byte}
    (h : Sound K db leaves sync (.checking localRoot) n)
    (hadvance : advance K db sync (.checking localRoot) = .ok (db', sync', phase')) :
    GoodStep K leaves db db' sync' phase' := by
  rw [advance] at hadvance
  split at hadvance
  · cases hadvance
  · obtain ⟨rfl, rfl, rfl⟩ := by simpa using hadvance
    exact ⟨⟨n, h.le, h.prover, h.phase⟩, .inl rfl⟩

omit [ByteAlphabet Byte] [DecidableEq Byte] in
/-- The next dispatched leaf, when it is in the database. -/
theorem LeavesAgree.take_concat {m : ℕ} (hagree : LeavesAgree db leaves)
    (hleaf : db.leafByLeafIndex m = some leaf) :
    m < leaves.length ∧ leaves.take m ++ [leaf] = leaves.take (m + 1) := by
  have hget := hagree m leaf hleaf
  obtain ⟨hlt, hvalue⟩ := List.getElem?_eq_some_iff.mp hget
  refine ⟨hlt, ?_⟩
  rw [List.take_add_one, hget, Option.toList_some]

theorem Sound.ingesting {localRoot newRoot currentRoot : Bytes32 Byte}
    {copy : IncrementalMerkle Byte}
    (h : Sound K db leaves sync (.ingesting localRoot newRoot copy currentRoot) n)
    (hagree : LeavesAgree db leaves)
    (hadvance : advance K db sync (.ingesting localRoot newRoot copy currentRoot) =
      .ok (db', sync', phase')) :
    GoodStep K leaves db db' sync' phase' := by
  obtain ⟨hincremental, hlocal, hroot, m, hnm, hm, hcopy⟩ := h.phase
  have hstart : sync.incremental.count = n := by rw [hincremental.count_eq, h.length_eq]
  have hstop : copy.count = m := by rw [hcopy.count_eq, List.length_take_of_le hm]
  rw [advance, hstart, hstop] at hadvance
  split_ifs at hadvance with hcurrent hreached
  · -- the prover did not move since the local root was read
    have hsame : ¬ localRoot ≠ ProverSync.localRoot K ⟨sync.prover, copy⟩ := not_not.mpr hlocal
    rw [if_neg hsame] at hadvance
    obtain ⟨rfl, rfl, rfl⟩ := by simpa using hadvance
    exact ⟨⟨n, h.le, h.prover, hroot, le_rfl, hnm, hm, hcopy, List.append_nil _⟩, .inl rfl⟩
  · split at hadvance
    · obtain ⟨rfl, rfl, rfl⟩ := by simpa using hadvance
      exact ⟨⟨n, h⟩, .inl rfl⟩
    · rename_i leaf hleaf
      obtain ⟨hlt, hconcat⟩ := hagree.take_concat hleaf
      split at hadvance
      · cases hadvance
      · rename_i copy' hingest
        obtain ⟨rfl, rfl, rfl⟩ := by simpa using hadvance
        have hholds := hcopy.of_ingest hingest
        rw [hconcat] at hholds
        exact ⟨⟨n, h.le, h.prover, hincremental, hlocal, hroot, m + 1, by omega, hlt, hholds⟩,
          .inl rfl⟩

theorem Sound.committing {newRoot : Bytes32 Byte} {next stop : ℕ} {read : List (Bytes32 Byte)}
    (h : Sound K db leaves sync (.committing newRoot next stop read) n)
    (hagree : LeavesAgree db leaves)
    (hadvance : advance K db sync (.committing newRoot next stop read) =
      .ok (db', sync', phase')) :
    GoodStep K leaves db db' sync' phase' := by
  obtain ⟨hroot, hnext, hstop, hle, hincremental, hread⟩ := h.phase
  rw [advance] at hadvance
  split_ifs at hadvance with hmore
  · split at hadvance
    · obtain ⟨rfl, rfl, rfl⟩ := by simpa using hadvance
      exact ⟨⟨n, h⟩, .inl rfl⟩
    · rename_i leaf hleaf
      obtain ⟨hlt, hconcat⟩ := hagree.take_concat hleaf
      obtain ⟨rfl, rfl, rfl⟩ := by simpa using hadvance
      refine ⟨⟨n, h.le, h.prover, hroot, by omega, hmore, hle, hincremental, ?_⟩, .inl rfl⟩
      rw [← List.append_assoc, hread, hconcat]
  · -- all leaves are read, and the prover takes them
    obtain rfl : next = stop := le_antisymm hstop (Nat.not_lt.mp hmore)
    have hfits : (leaves.take n ++ read).length ≤ 2 ^ TREE_DEPTH := by
      rw [hread]
      exact (IncrementalMerkle.lt_two_pow_of_le hincremental.fits).le
    obtain ⟨prover, hextend, hholds⟩ := h.prover.extend hfits
    rw [hread] at hholds
    rw [hextend] at hadvance
    dsimp only at hadvance
    split_ifs at hadvance with hmismatch
    obtain ⟨rfl, rfl, rfl⟩ := by simpa using hadvance
    have hreached : newRoot = listRoot K (leaves.take next) :=
      (not_not.mp hmismatch).trans hholds.root_eq
    exact ⟨⟨next, hle, hholds, hincremental, hreached ▸ hroot⟩, .inl rfl⟩

theorem Sound.proving {next : ℕ} (h : Sound K db leaves sync (.proving next) n)
    (hadvance : advance K db sync (.proving next) = .ok (db', sync', phase')) :
    GoodStep K leaves db db' sync' phase' := by
  obtain ⟨hincremental, hroot⟩ := h.phase
  rw [advance, h.count_eq] at hadvance
  split_ifs at hadvance with hnext
  · split at hadvance
    · obtain ⟨proof, hstore, hproof⟩ := h.storeProof hnext hincremental.fits hroot
      rw [hstore] at hadvance
      obtain ⟨rfl, rfl, rfl⟩ := by simpa using hadvance
      exact ⟨⟨n, h.le, h.prover, hincremental, hroot.put_proof⟩, .inr ⟨next, proof, rfl, hproof⟩⟩
    · obtain ⟨rfl, rfl, rfl⟩ := by simpa using hadvance
      exact ⟨⟨n, h.le, h.prover, hincremental, hroot⟩, .inl rfl⟩
  · obtain ⟨rfl, rfl, rfl⟩ := by simpa using hadvance
    exact ⟨⟨n, h.le, h.prover, hincremental⟩, .inl rfl⟩

/-- **Step lemma.** Every step of a sound task is good. -/
theorem Sound.advance (h : Sound K db leaves sync phase n) (hagree : LeavesAgree db leaves)
    (hadvance : ProverSync.advance K db sync phase = .ok (db', sync', phase')) :
    GoodStep K leaves db db' sync' phase' := by
  cases phase with
  | loading next => exact h.loading hadvance
  | polling => exact h.polling hadvance
  | checking localRoot => exact h.checking hadvance
  | ingesting localRoot newRoot copy currentRoot => exact h.ingesting hagree hadvance
  | committing newRoot next stop read => exact h.committing hagree hadvance
  | proving next => exact h.proving hadvance

end Step

end ProverSync

end Optics
