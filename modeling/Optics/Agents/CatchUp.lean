/-
# Catching up with a root

`update_full` brings both trees of the prover to a signed root. It feeds leaves to a copy
of the incremental tree until the roots agree, reads the same leaves again for the prover,
and stores the proofs that are missing. Where it stops is found by comparing roots, so what
matters is that no two prefixes of the dispatched leaves share one: their roots are those
of lists of nonzero leaves, and without leaves the local root is zero, which no tree has.

A root that no prefix has is never reached. The call then waits for leaves and has changed
nothing but its copy.
-/

import Optics.Agents.ProverSync
import Optics.Libs.Merkle

namespace Optics.ProverSync

open Optics.Solidity Optics.Accumulator

variable {Byte : Type} [ByteAlphabet Byte]

/-- The root of a list of leaves as `local_root` gives it: zero without leaves. -/
def canonicalRoot (K : Crypto Byte) : List (Bytes32 Byte) → Bytes32 Byte
  | [] => 0
  | leaf :: rest => listRoot K (leaf :: rest)

section Definitions

variable [DecidableEq Byte] (K : Crypto Byte)

/-- Where `update_full` starts, at the local root and with a copy of the incremental tree. -/
def updateFull (sync : ProverSync Byte) (newRoot : Bytes32 Byte) : Phase Byte :=
  .ingesting (sync.localRoot K) newRoot sync.incremental (sync.localRoot K)

/-- A call of `update_full` that stands in a phase returns after some more steps, to the
loop of `spawn`. -/
inductive Returns (db' : OpticsDB Byte) (sync' : ProverSync Byte) :
    ℕ → OpticsDB Byte → ProverSync Byte → Phase Byte → Prop
  | done : Returns db' sync' 0 db' sync' .polling
  | step {k : ℕ} {db db₁ : OpticsDB Byte} {sync sync₁ : ProverSync Byte}
      {phase phase₁ : Phase Byte} (hcalled : phase ≠ .polling)
      (hadvance : advance K db sync phase = .ok (db₁, sync₁, phase₁))
      (hrest : Returns db' sync' k db₁ sync₁ phase₁) : Returns db' sync' (k + 1) db sync phase

/-- One step of the task, as a relation. -/
def Advances (s t : OpticsDB Byte × ProverSync Byte × Phase Byte) : Prop :=
  advance K s.1 s.2.1 s.2.2 = .ok t

end Definitions

/-- The proofs of the leaves from `next` on have been stored where they were missing, and
nothing else was written. -/
structure ProofsStored (K : Crypto Byte) (leaves : List (Bytes32 Byte)) (next : ℕ)
    (db db' : OpticsDB Byte) : Prop where
  rest_eq : db' = { db with proof := db'.proof }
  kept : ∀ i proof, db.proof i = some proof → db'.proof i = some proof
  stored : ∀ i, next ≤ i → i < leaves.length → ∃ proof, db'.proof i = some proof
  /-- A new proof is for the leaf at its index, under the root of all leaves. -/
  fresh : ∀ i proof, db.proof i = none → db'.proof i = some proof →
    leaves[i]? = some proof.leaf ∧ proof.index = i ∧ proof.root K = listRoot K leaves

variable {K : Crypto Byte} {leaves others : List (Bytes32 Byte)} {leaf newRoot : Bytes32 Byte}

/-! ### Roots of prefixes -/

theorem canonicalRoot_of_ne_nil (h : leaves ≠ []) : canonicalRoot K leaves = listRoot K leaves := by
  cases leaves with
  | nil => exact absurd rfl h
  | cons leaf rest => rfl

section Ideal

variable (ideal : Crypto.IdealHash K)
include ideal

theorem listRoot_ne_zero (leaves : List (Bytes32 Byte)) : listRoot K leaves ≠ 0 :=
  MerkleLib.treeRoot_ne_zero ideal leaves

/-- A list of nonzero leaves is determined by its root, also by the canonical one. -/
theorem canonicalRoot_inj (hfits : leaves.length ≤ U32_MAX) (hfits' : others.length ≤ U32_MAX)
    (hne : 0 ∉ leaves) (hne' : 0 ∉ others) (h : canonicalRoot K leaves = canonicalRoot K others) :
    leaves = others := by
  cases leaves with
  | nil =>
    cases others with
    | nil => rfl
    | cons leaf rest => exact absurd h.symm (listRoot_ne_zero ideal _)
  | cons leaf rest =>
    cases others with
    | nil => exact absurd h (listRoot_ne_zero ideal _)
    | cons leaf' rest' => exact MerkleLib.eq_of_treeRoot_eq ideal hfits hfits' hne hne' h

/-- Prefixes of different lengths have different roots. -/
theorem eq_of_canonicalRoot_take {i j : ℕ} (hfits : leaves.length ≤ U32_MAX) (hne : 0 ∉ leaves)
    (hi : i ≤ leaves.length) (hj : j ≤ leaves.length)
    (h : canonicalRoot K (leaves.take i) = canonicalRoot K (leaves.take j)) : i = j := by
  have hle : ∀ k, (leaves.take k).length ≤ U32_MAX :=
    fun k => (List.length_take_le' k leaves).trans hfits
  have hmem : ∀ k, 0 ∉ leaves.take k := fun k hzero => hne (List.mem_of_mem_take hzero)
  have htake := canonicalRoot_inj ideal (hle i) (hle j) (hmem i) (hmem j) h
  have hlength := congrArg List.length htake
  rwa [List.length_take_of_le hi, List.length_take_of_le hj] at hlength

variable [DecidableEq Byte]

/-- The local root is the canonical root of the leaves of the prover. -/
theorem Holds.localRoot_eq {sync : ProverSync Byte} (h : sync.Holds K leaves) (hne : 0 ∉ leaves) :
    sync.localRoot K = canonicalRoot K leaves := by
  have hinitial : INITIAL_ROOT K = listRoot K [] := IncrementalMerkle.holds_default.root_eq
  simp only [localRoot, h.prover.root_eq, hinitial]
  cases leaves with
  | nil => exact if_pos rfl
  | cons leaf rest =>
    rw [if_neg]
    · rfl
    · intro hroot
      have hnil := MerkleLib.eq_of_treeRoot_eq ideal h.incremental.fits (Nat.zero_le _) hne
        (List.not_mem_nil) hroot
      cases hnil

end Ideal

/-! ### The loops of a call -/

section Loops

variable [DecidableEq Byte] {db db' : OpticsDB Byte} {sync sync' : ProverSync Byte}
  {localRoot : Bytes32 Byte} {copy : IncrementalMerkle Byte} {n m j k : ℕ}

/-- One more leaf goes into the copy, as long as the current root is another one. -/
theorem advance_ingesting (sync : ProverSync Byte) (localRoot : Bytes32 Byte)
    {currentRoot : Bytes32 Byte} (hcopy : copy.Holds K (leaves.take j))
    (hfits : leaves.length ≤ U32_MAX) (hdb : ∀ i, db.leafByLeafIndex i = leaves[i]?)
    (hj : j < leaves.length) (hcurrent : currentRoot ≠ newRoot) :
    ∃ copy', copy'.Holds K (leaves.take (j + 1)) ∧
      advance K db sync (.ingesting localRoot newRoot copy currentRoot) =
        .ok (db, sync, .ingesting localRoot newRoot copy'
          (canonicalRoot K (leaves.take (j + 1)))) := by
  have hcount : copy.count = j := by rw [hcopy.count_eq, List.length_take_of_le hj.le]
  have hleaf : db.leafByLeafIndex j = some leaves[j] := by
    rw [hdb, List.getElem?_eq_getElem hj]
  have hroom : (leaves.take j).length < U32_MAX := by
    rw [List.length_take_of_le hj.le]
    exact hj.trans_le hfits
  have hconcat : leaves.take j ++ [leaves[j]] = leaves.take (j + 1) := List.take_concat_get' _ _ hj
  obtain ⟨copy', hingest, hholds⟩ := hcopy.ingest leaves[j] hroom
  rw [hconcat] at hholds
  have hnonempty : leaves.take (j + 1) ≠ [] := by
    rw [← hconcat]
    exact List.concat_ne_nil _ _
  refine ⟨copy', hholds, ?_⟩
  rw [advance, if_neg hcurrent, hcount, hleaf]
  dsimp only
  rw [hingest, canonicalRoot_of_ne_nil hnonempty, ← hholds.root_eq]

/-- The loop of `update_incremental` ends when the copy holds the leaves of the new root,
which becomes the incremental tree. -/
theorem returns_ingesting (ideal : Crypto.IdealHash K) (hne : 0 ∉ leaves)
    (hfits : leaves.length ≤ U32_MAX) (hdb : ∀ i, db.leafByLeafIndex i = leaves[i]?)
    (hlocal : localRoot = sync.localRoot K) (hm : m ≤ leaves.length) (hpos : 1 ≤ m)
    (hjm : j ≤ m) (hcopy : copy.Holds K (leaves.take j)) :
    ∃ incremental, incremental.Holds K (leaves.take m) ∧ ∀ k db' sync',
      Returns K db' sync' k db ⟨sync.prover, incremental⟩
        (.committing (listRoot K (leaves.take m)) sync.incremental.count m []) →
      Returns K db' sync' (m - j + 1 + k) db sync
        (.ingesting localRoot (listRoot K (leaves.take m)) copy
          (canonicalRoot K (leaves.take j))) := by
  have hnonempty : leaves.take m ≠ [] := by
    apply List.ne_nil_of_length_pos
    rw [List.length_take_of_le hm]
    exact hpos
  have hroot : canonicalRoot K (leaves.take m) = listRoot K (leaves.take m) :=
    canonicalRoot_of_ne_nil hnonempty
  obtain ⟨d, hd⟩ := Nat.exists_eq_add_of_le hjm
  induction d generalizing j copy with
  | zero =>
    -- the roots agree, and the prover has not moved
    obtain rfl : m = j := hd
    have hcount : copy.count = m := by rw [hcopy.count_eq, List.length_take_of_le hm]
    refine ⟨copy, hcopy, fun k db' sync' hrest => ?_⟩
    rw [Nat.sub_self, Nat.zero_add, Nat.add_comm]
    refine .step (fun hpolling => by cases hpolling) ?_ hrest
    have hsame : ¬ localRoot ≠ ProverSync.localRoot K ⟨sync.prover, copy⟩ := not_not.mpr hlocal
    rw [advance, if_pos hroot, if_pos hcopy.root_eq]
    dsimp only
    rw [if_neg hsame, hcount]
  | succ d ih =>
    have hjlt : j < leaves.length := by omega
    have hcurrent : canonicalRoot K (leaves.take j) ≠ listRoot K (leaves.take m) := by
      intro heq
      have hindex := eq_of_canonicalRoot_take ideal hfits hne hjlt.le hm (heq.trans hroot.symm)
      omega
    obtain ⟨copy', hcopy', hadvance⟩ :=
      advance_ingesting sync localRoot hcopy hfits hdb hjlt hcurrent
    obtain ⟨incremental, hholds, hrest⟩ := ih (by omega) hcopy' (by omega)
    refine ⟨incremental, hholds, fun k db' sync' hreturns => ?_⟩
    have hsteps : m - j + 1 + k = m - (j + 1) + 1 + k + 1 := by omega
    rw [hsteps]
    exact .step (fun hpolling => by cases hpolling) hadvance (hrest k db' sync' hreturns)

/-- The leaves are read once more, and the prover takes them. -/
theorem returns_committing (sync : ProverSync Byte) {read : List (Bytes32 Byte)}
    (hfits : leaves.length ≤ U32_MAX)
    (hdb : ∀ i, db.leafByLeafIndex i = leaves[i]?) (hprover : sync.prover.Holds K (leaves.take n))
    (hm : m ≤ leaves.length) (hjm : j ≤ m) (hread : leaves.take n ++ read = leaves.take j) :
    ∃ prover : Prover Byte, prover.Holds K (leaves.take m) ∧ ∀ k db' sync',
      Returns K db' sync' k db { sync with prover := prover } (.proving 0) →
      Returns K db' sync' (m - j + 1 + k) db sync
        (.committing (listRoot K (leaves.take m)) j m read) := by
  obtain ⟨d, hd⟩ := Nat.exists_eq_add_of_le hjm
  induction d generalizing j read with
  | zero =>
    obtain rfl : m = j := hd
    have hroom : (leaves.take n ++ read).length ≤ 2 ^ TREE_DEPTH := by
      rw [hread, List.length_take_of_le hm]
      exact (IncrementalMerkle.lt_two_pow_of_le (hm.trans hfits)).le
    obtain ⟨prover, hextend, hholds⟩ := hprover.extend hroom
    rw [hread] at hholds
    refine ⟨prover, hholds, fun k db' sync' hrest => ?_⟩
    rw [Nat.sub_self, Nat.zero_add, Nat.add_comm]
    refine .step (fun hpolling => by cases hpolling) ?_ hrest
    rw [advance, if_neg (lt_irrefl m), hextend]
    dsimp only
    rw [if_neg (not_not.mpr hholds.root_eq.symm)]
  | succ d ih =>
    have hjlt : j < leaves.length := by omega
    have hleaf : db.leafByLeafIndex j = some leaves[j] := by
      rw [hdb, List.getElem?_eq_getElem hjlt]
    have hconcat : leaves.take n ++ (read ++ [leaves[j]]) = leaves.take (j + 1) := by
      rw [← List.append_assoc, hread]
      exact List.take_concat_get' _ _ hjlt
    obtain ⟨prover, hholds, hrest⟩ := ih (by omega) hconcat (by omega)
    refine ⟨prover, hholds, fun k db' sync' hreturns => ?_⟩
    have hsteps : m - j + 1 + k = m - (j + 1) + 1 + k + 1 := by omega
    rw [hsteps]
    refine .step (fun hpolling => by cases hpolling) ?_ (hrest k db' sync' hreturns)
    rw [advance, if_pos (by omega), hleaf]

/-- What `store_proof` writes for a leaf of the prover. -/
theorem storeProof_eq (hholds : sync.Holds K leaves) (hj : j < leaves.length)
    (db : OpticsDB Byte) :
    ∃ proof, sync.storeProof K db j = .ok (db.put (.proof j proof)) ∧
      leaves[j]? = some proof.leaf ∧ proof.index = j ∧ proof.root K = listRoot K leaves := by
  obtain ⟨proof, hprove, hleaf, hroot⟩ := hholds.prover.prove hj
    (IncrementalMerkle.lt_two_pow_of_le hholds.incremental.fits).le
  refine ⟨proof, ?_, ?_, Prover.index_of_prove hprove, hroot⟩
  · rw [storeProof, hprove]
  · rw [hleaf, List.getElem?_eq_getElem hj]

omit [DecidableEq Byte] in
theorem ProofsStored.refl (db : OpticsDB Byte) : ProofsStored K leaves leaves.length db db where
  rest_eq := rfl
  kept _ _ h := h
  stored i hi hlt := absurd hlt hi.not_gt
  fresh i proof hnone hsome := by
    rw [hnone] at hsome
    cases hsome

omit [DecidableEq Byte] in
/-- A proof that was there already. -/
theorem ProofsStored.of_stored {proof : Proof Byte} (h : ProofsStored K leaves (j + 1) db db')
    (hproof : db.proof j = some proof) : ProofsStored K leaves j db db' where
  rest_eq := h.rest_eq
  kept := h.kept
  fresh := h.fresh
  stored i hi hlt := by
    rcases hi.eq_or_lt with rfl | hnext
    · exact ⟨proof, h.kept j proof hproof⟩
    · exact h.stored i hnext hlt

/-- A proof that was missing. -/
theorem ProofsStored.of_put {proof : Proof Byte}
    (h : ProofsStored K leaves (j + 1) (db.put (.proof j proof)) db') (hnone : db.proof j = none)
    (hleaf : leaves[j]? = some proof.leaf) (hindex : proof.index = j)
    (hroot : proof.root K = listRoot K leaves) : ProofsStored K leaves j db db' := by
  have hself : (db.put (.proof j proof)).proof j = some proof := Function.update_self ..
  refine ⟨h.rest_eq, fun i p hp => ?_, fun i hi hlt => ?_, fun i p hi hp => ?_⟩
  · apply h.kept
    rw [proof_of_put_proof, hp]
    rintro rfl
    rw [hnone] at hp
    cases hp
  · rcases hi.eq_or_lt with rfl | hnext
    · exact ⟨proof, h.kept j proof hself⟩
    · exact h.stored i hnext hlt
  · rcases eq_or_ne j i with rfl | hne
    · -- the proof at the index is the one that was put there
      rw [h.kept j proof hself] at hp
      obtain rfl := Option.some.inj hp
      exact ⟨hleaf, hindex, hroot⟩
    · exact h.fresh i p (by rw [proof_of_put_proof hne, hi]) hp

/-- The loop over the proofs stores those that are missing. -/
theorem returns_proving (hholds : sync.Holds K leaves) (hj : j ≤ leaves.length)
    (db : OpticsDB Byte) :
    ∃ db', ProofsStored K leaves j db db' ∧
      Returns K db' sync (leaves.length - j + 1) db sync (.proving j) := by
  have hcount : sync.prover.count = leaves.length := by rw [hholds.prover]
  obtain ⟨d, hd⟩ := Nat.exists_eq_add_of_le hj
  induction d generalizing j db with
  | zero =>
    obtain rfl : leaves.length = j := hd
    refine ⟨db, .refl db, ?_⟩
    rw [Nat.sub_self]
    refine .step (fun hpolling => by cases hpolling) ?_ .done
    rw [advance, hcount, if_neg (lt_irrefl _)]
  | succ d ih =>
    have hjlt : j < leaves.length := by omega
    have hsteps : leaves.length - j + 1 = leaves.length - (j + 1) + 1 + 1 := by omega
    rw [hsteps]
    cases hproof : db.proof j with
    | none =>
      obtain ⟨proof, hstore, hleaf, hindex, hroot⟩ := storeProof_eq hholds hjlt db
      obtain ⟨db', hstored, hrest⟩ := ih hjlt (db.put (.proof j proof)) (by omega)
      refine ⟨db', hstored.of_put hproof hleaf hindex hroot, ?_⟩
      refine .step (fun hpolling => by cases hpolling) ?_ hrest
      rw [advance, hcount, if_pos hjlt, OpticsDB.proofByLeafIndex, hproof]
      dsimp only
      rw [hstore]
    | some proof =>
      obtain ⟨db', hstored, hrest⟩ := ih hjlt db (by omega)
      refine ⟨db', hstored.of_stored hproof, ?_⟩
      refine .step (fun hpolling => by cases hpolling) ?_ hrest
      rw [advance, hcount, if_pos hjlt, OpticsDB.proofByLeafIndex, hproof]

end Loops

/-! ### A root that no prefix has -/

section Waiting

variable [DecidableEq Byte] {db : OpticsDB Byte} {sync : ProverSync Byte} {n j : ℕ}

/-- A call that has fed some leaves to its copy and has changed nothing else. -/
def Waiting (K : Crypto Byte) (leaves : List (Bytes32 Byte)) (db : OpticsDB Byte)
    (sync : ProverSync Byte) (newRoot : Bytes32 Byte) (j : ℕ)
    (s : OpticsDB Byte × ProverSync Byte × Phase Byte) : Prop :=
  ∃ copy : IncrementalMerkle Byte, copy.Holds K (leaves.take j) ∧
    s = (db, sync, .ingesting (sync.localRoot K) newRoot copy (canonicalRoot K (leaves.take j)))

/-- The next leaf is fed to the copy, and after the last one the call waits. -/
theorem Waiting.step {s : OpticsDB Byte × ProverSync Byte × Phase Byte}
    (h : Waiting K leaves db sync newRoot j s) (hfits : leaves.length ≤ U32_MAX)
    (hdb : ∀ i, db.leafByLeafIndex i = leaves[i]?) (hj : j ≤ leaves.length)
    (hother : canonicalRoot K (leaves.take j) ≠ newRoot) :
    (j = leaves.length ∧ Advances K s s) ∨
      (j < leaves.length ∧ ∃ t, Advances K s t ∧ Waiting K leaves db sync newRoot (j + 1) t) := by
  obtain ⟨copy, hcopy, rfl⟩ := h
  rcases hj.lt_or_eq with hlt | rfl
  · obtain ⟨copy', hcopy', hadvance⟩ :=
      advance_ingesting sync (sync.localRoot K) hcopy hfits hdb hlt hother
    exact .inr ⟨hlt, _, hadvance, copy', hcopy', rfl⟩
  · have hcount : copy.count = leaves.length := by
      rw [hcopy.count_eq, List.take_length]
    have hmissing : db.leafByLeafIndex leaves.length = none := by
      rw [hdb, List.getElem?_eq_none le_rfl]
    refine .inl ⟨rfl, ?_⟩
    rw [Advances, advance, if_neg hother, hcount, hmissing]

/-- No step of a call leaves the waiting, when no prefix has the new root. -/
theorem Waiting.of_advances {s t : OpticsDB Byte × ProverSync Byte × Phase Byte}
    (h : Waiting K leaves db sync newRoot j s) (hfits : leaves.length ≤ U32_MAX)
    (hdb : ∀ i, db.leafByLeafIndex i = leaves[i]?) (hj : j ≤ leaves.length)
    (hother : newRoot ≠ listRoot K (leaves.take j)) (hadvance : Advances K s t) :
    ∃ j', j ≤ j' ∧ j' ≤ leaves.length ∧ Waiting K leaves db sync newRoot j' t := by
  by_cases hcurrent : canonicalRoot K (leaves.take j) = newRoot
  · -- without leaves the local root is zero, and the assertion on the copy fails
    obtain ⟨copy, hcopy, rfl⟩ := h
    rw [Advances, advance, if_pos hcurrent, if_neg (hcopy.root_eq ▸ hother.symm)] at hadvance
    cases hadvance
  · rcases h.step hfits hdb hj hcurrent with ⟨rfl, hsame⟩ | ⟨hlt, t', hmoved, hwaiting⟩
    · obtain rfl := Except.ok.inj (hsame.symm.trans hadvance)
      exact ⟨_, le_rfl, le_rfl, h⟩
    · obtain rfl := Except.ok.inj (hmoved.symm.trans hadvance)
      exact ⟨j + 1, Nat.le_succ j, hlt, hwaiting⟩

/-- Run lemma: a call that waits goes on waiting. -/
theorem Waiting.of_reaches {s t : OpticsDB Byte × ProverSync Byte × Phase Byte}
    (h : Waiting K leaves db sync newRoot j s) (hfits : leaves.length ≤ U32_MAX)
    (hdb : ∀ i, db.leafByLeafIndex i = leaves[i]?) (hj : j ≤ leaves.length)
    (hother : ∀ i, j ≤ i → i ≤ leaves.length → newRoot ≠ listRoot K (leaves.take i))
    (hreach : Relation.ReflTransGen (Advances K) s t) :
    ∃ j', j ≤ j' ∧ j' ≤ leaves.length ∧ Waiting K leaves db sync newRoot j' t := by
  induction hreach with
  | refl => exact ⟨j, le_rfl, hj, h⟩
  | tail _ hadvance ih =>
    obtain ⟨i, hji, hi, hwaiting⟩ := ih
    obtain ⟨j', hij', hj', hwaiting'⟩ :=
      hwaiting.of_advances hfits hdb hi (hother i hji hi) hadvance
    exact ⟨j', hji.trans hij', hj', hwaiting'⟩

omit [DecidableEq Byte] in
/-- The canonical root of a prefix is its root, or the zero of the start. -/
theorem canonicalRoot_ne {i : ℕ} (hi : n ≤ i)
    (hother : newRoot ≠ listRoot K (leaves.take i))
    (hmoved : newRoot ≠ canonicalRoot K (leaves.take n)) :
    canonicalRoot K (leaves.take i) ≠ newRoot := by
  by_cases hnil : leaves.take i = []
  · have hstart : leaves.take n = [] := by
      rw [List.take_eq_nil_iff] at hnil ⊢
      rcases hnil with rfl | hempty
      · exact .inl (Nat.le_zero.mp hi)
      · exact .inr hempty
    rw [hnil, ← hstart]
    exact hmoved.symm
  · rw [canonicalRoot_of_ne_nil hnil]
    exact hother.symm

/-- A call that waits comes to wait for the leaf after the last one. -/
theorem Waiting.exists_last {s : OpticsDB Byte × ProverSync Byte × Phase Byte}
    (h : Waiting K leaves db sync newRoot j s) (hfits : leaves.length ≤ U32_MAX)
    (hdb : ∀ i, db.leafByLeafIndex i = leaves[i]?) (hj : j ≤ leaves.length)
    (hother : ∀ i, j ≤ i → i ≤ leaves.length → canonicalRoot K (leaves.take i) ≠ newRoot) :
    ∃ t, Relation.ReflTransGen (Advances K) s t ∧ Advances K t t := by
  obtain ⟨d, hd⟩ := Nat.exists_eq_add_of_le hj
  induction d generalizing j s with
  | zero =>
    rcases h.step hfits hdb hj (hother j le_rfl hj) with ⟨-, hsame⟩ | ⟨hlt, -⟩
    · exact ⟨s, .refl, hsame⟩
    · omega
  | succ d ih =>
    rcases h.step hfits hdb hj (hother j le_rfl hj) with ⟨hlast, -⟩ | ⟨hlt, t, hmoved, hwaiting⟩
    · omega
    · obtain ⟨u, hreach, hsame⟩ := ih hwaiting hlt (fun i hi => hother i (by omega)) (by omega)
      exact ⟨u, .head hmoved hreach, hsame⟩

end Waiting

/-- **Catch-up is exact.** Let the database hold the dispatched leaves, and both trees the
first `n` of them. A call for the root of a longer prefix returns with both trees holding
just that prefix and all its proofs stored. A call for a root that no prefix has changes
nothing, and unless it fails at once it ends up waiting for a leaf. -/
theorem catch_up [DecidableEq Byte] (ideal : Crypto.IdealHash K) {db : OpticsDB Byte}
    {sync : ProverSync Byte} {n : ℕ} (hne : 0 ∉ leaves) (hfits : leaves.length ≤ U32_MAX)
    (hdb : ∀ i, db.leafByLeafIndex i = leaves[i]?) (hn : n ≤ leaves.length)
    (hsync : sync.Holds K (leaves.take n)) :
    (∀ m, n ≤ m → m ≤ leaves.length → 1 ≤ m → ∃ db' sync',
      Returns K db' sync' (2 * (m - n) + m + 3) db sync
        (updateFull K sync (listRoot K (leaves.take m))) ∧
      sync'.Holds K (leaves.take m) ∧ sync'.prover.root K = sync'.incremental.root K ∧
      ProofsStored K (leaves.take m) 0 db db') ∧
    ∀ newRoot, (∀ m, n ≤ m → m ≤ leaves.length → newRoot ≠ listRoot K (leaves.take m)) →
      (∀ s, Relation.ReflTransGen (Advances K) (db, sync, updateFull K sync newRoot) s →
        s.1 = db ∧ s.2.1 = sync) ∧
      (newRoot ≠ sync.localRoot K →
        ∃ s, Relation.ReflTransGen (Advances K) (db, sync, updateFull K sync newRoot) s ∧
          Advances K s s) := by
  have hlocal : sync.localRoot K = canonicalRoot K (leaves.take n) :=
    hsync.localRoot_eq ideal fun hzero => hne (List.mem_of_mem_take hzero)
  have hcount : sync.incremental.count = n := by
    rw [hsync.incremental.count_eq, List.length_take_of_le hn]
  constructor
  · intro m hnm hm hpos
    obtain ⟨incremental, hincremental, hcommit⟩ :=
      returns_ingesting ideal hne hfits hdb rfl hm hpos hnm hsync.incremental
    obtain ⟨prover, hprover, hprove⟩ := returns_committing ⟨sync.prover, incremental⟩ hfits hdb
      hsync.prover hm hnm (List.append_nil _)
    have hholds : ProverSync.Holds K ⟨prover, incremental⟩ (leaves.take m) :=
      ⟨hprover, hincremental⟩
    obtain ⟨db', hstored, hreturns⟩ := returns_proving hholds (Nat.zero_le _) db
    refine ⟨db', ⟨prover, incremental⟩, ?_, hholds,
      hprover.root_eq.trans hincremental.root_eq.symm, hstored⟩
    rw [hcount] at hcommit
    have hall := hcommit _ _ _ (hprove _ _ _ hreturns)
    rw [List.length_take_of_le hm, ← hlocal] at hall
    have hsteps : m - n + 1 + (m - n + 1 + (m - 0 + 1)) = 2 * (m - n) + m + 3 := by omega
    rwa [hsteps] at hall
  · intro newRoot hother
    have hwaiting : Waiting K leaves db sync newRoot n (db, sync, updateFull K sync newRoot) :=
      ⟨sync.incremental, hsync.incremental, by rw [updateFull, hlocal]⟩
    refine ⟨fun s hreach => ?_, fun hmoved => ?_⟩
    · obtain ⟨j, -, -, copy, -, rfl⟩ := hwaiting.of_reaches hfits hdb hn hother hreach
      exact ⟨rfl, rfl⟩
    · rw [hlocal] at hmoved
      exact hwaiting.exists_last hfits hdb hn fun i hi hle =>
        canonicalRoot_ne hi (hother i hi hle) hmoved

/-- Four leaves, of which the trees hold none, then the first two, then all. After the first
two a root that no prefix has leaves the call waiting. -/
theorem catch_up_twice :
    let K := Crypto.withIdealHash fun _ _ => none
    let leaves : List (Bytes32 ℕ) := [List.Vector.replicate 32 1, List.Vector.replicate 32 2,
      List.Vector.replicate 32 3, List.Vector.replicate 32 4]
    let db : OpticsDB ℕ := { OpticsDB.empty with leaf := fun i => leaves[i]? }
    ∃ db₁ sync₁ db₂ sync₂,
      Returns K db₁ sync₁ 9 db (default K) (updateFull K (default K)
        (listRoot K (leaves.take 2))) ∧ sync₁.Holds K (leaves.take 2) ∧
      Returns K db₂ sync₂ 11 db₁ sync₁ (updateFull K sync₁ (listRoot K leaves)) ∧
      sync₂.Holds K leaves ∧ sync₂.prover.root K = sync₂.incremental.root K ∧
      ProofsStored K leaves 0 db₁ db₂ ∧
      ∃ s, Relation.ReflTransGen (Advances K) (db₁, sync₁, updateFull K sync₁
        (listRoot K (leaves ++ leaves))) s ∧ Advances K s s := by
  intro K leaves db
  have ideal : Crypto.IdealHash K := Crypto.withIdealHash_ideal _
  have hne : 0 ∉ leaves := by decide
  have hne' : 0 ∉ leaves ++ leaves := by decide
  -- no prefix has the root of the leaves twice over
  have hother : ∀ m ≤ 4, listRoot K (leaves ++ leaves) ≠ listRoot K (leaves.take m) := by
    intro m hm hroot
    have hprefix : 0 ∉ leaves.take m := fun hzero => hne (List.mem_of_mem_take hzero)
    have hlength := MerkleLib.length_eq_of_treeRoot_eq ideal (by decide)
      ((List.length_take_le' m leaves).trans (by decide)) hne' hprefix hroot
    have hshort : (leaves.take m).length ≤ 4 := List.length_take_le' m leaves
    rw [← hlength] at hshort
    exact absurd hshort (by decide)
  obtain ⟨hreturns, -⟩ := catch_up ideal hne (by decide) (fun _ => rfl : ∀ i,
    db.leafByLeafIndex i = leaves[i]?) (Nat.zero_le _) holds_default
  obtain ⟨db₁, sync₁, hfirst, hholds₁, -, hstored₁⟩ :=
    hreturns 2 (Nat.zero_le 2) (by decide) (by decide)
  have hdb₁ : ∀ i, db₁.leafByLeafIndex i = leaves[i]? := by
    rw [hstored₁.rest_eq]
    exact fun _ => rfl
  obtain ⟨hreturns₁, hwaits⟩ := catch_up ideal hne (by decide) hdb₁ (by decide) hholds₁
  obtain ⟨db₂, sync₂, hsecond, hholds₂, hroots, hstored₂⟩ :=
    hreturns₁ 4 (by decide) le_rfl (by decide)
  refine ⟨db₁, sync₁, db₂, sync₂, hfirst, hholds₁, hsecond, hholds₂, hroots, hstored₂,
    (hwaits _ fun m _ hm => hother m hm).2 ?_⟩
  rw [hholds₁.localRoot_eq ideal fun hzero => hne (List.mem_of_mem_take hzero)]
  exact hother 2 (by decide)

end Optics.ProverSync
