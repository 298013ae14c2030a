/-
# A proof for every leaf

The agents read a proof off the sparse tree from the top, and the contract evaluates it
from the bottom against a tree that keeps no leaves. Whatever the depth and however full
the tree, each of its leaves has a proof that climbs to its hash. At the depth of the
contract, a prover that took in the leaves that were inserted proves exactly these, and
both it and the contract accept the proofs.
-/

import Optics.Accumulator.Agreement
import Optics.Agents.Prover

namespace Optics

open Optics.Solidity Optics.Accumulator

variable {Byte : Type} [ByteAlphabet Byte] {K : Crypto Byte} {leaves : List (Bytes32 Byte)}
  {depth index : ℕ}

/-- What `generate_proof` reads at an index of a tree over some leaves: the leaf, with a
path of full length that evaluates to the hash of the tree. The debug assertions hold. -/
structure Accumulator.MerkleTree.Proves (K : Crypto Byte) (leaves : List (Bytes32 Byte))
    (depth index : ℕ) (leaf : Bytes32 Byte) (path : List (Bytes32 Byte)) : Prop where
  generate_eq : generateProof K (create K leaves depth) index depth = some (leaf, path)
  debug_eq : generateProofDebug K (create K leaves depth) index depth = some (leaf, path)
  length_eq : path.length = depth
  root_eq : merkleRootFromBranch K leaf path depth index = some ((create K leaves depth).hash K)

/-- Every leaf of a tree has a proof. -/
theorem Accumulator.MerkleTree.exists_proves (hindex : index < leaves.length)
    (hfits : leaves.length ≤ 2 ^ depth) :
    ∃ path, Proves K leaves depth index leaves[index] path := by
  obtain ⟨path, hgenerate, hlength, hclimb⟩ := generateProof_create (K := K) hindex hfits
  refine ⟨path, hgenerate, generateProofDebug_create hindex hgenerate hlength, hlength, ?_⟩
  rw [merkleRootFromBranch, if_pos hlength, hclimb, hash_create]

omit [ByteAlphabet Byte] in
/-- The contract evaluates a path of its depth as the agents do. -/
theorem Accumulator.branchRoot_eq_climbBranch (item : Bytes32 Byte) (index : ℕ)
    {path : List (Bytes32 Byte)} (branch : ℕ → Bytes32 Byte)
    (hlength : path.length = TREE_DEPTH) (h : ∀ i (hi : i < path.length), path[i] = branch i) :
    MerkleLib.branchRoot K item branch index = climbBranch K index 0 item path := by
  rw [climbBranch_eq_climb item index branch h, hlength]
  rfl

/-- A proof that a prover gave for an index of its leaves. -/
structure Prover.Proven [DecidableEq Byte] (K : Crypto Byte) (prover : Prover Byte)
    (tree : MerkleLib.Tree Byte) (leaves : List (Bytes32 Byte)) (index : ℕ)
    (leaf : Bytes32 Byte) (proof : Proof Byte) : Prop where
  prove_eq : prover.prove K index = some (.ok proof)
  generated : MerkleTree.Proves K leaves TREE_DEPTH index leaf proof.path.toList
  leaf_eq : proof.leaf = leaf
  index_eq : proof.index = index
  /-- The contract evaluates the proof to the root of its own tree. -/
  contract : MerkleLib.branchRoot K leaf (fun i => proof.path.toList.getD i 0) index =
    MerkleLib.root K tree
  verified : prover.verify K proof = some (.ok ())

/-- A prover proves every leaf that it holds to the contract. -/
theorem Prover.Holds.proven [DecidableEq Byte] {prover : Prover Byte}
    {tree : MerkleLib.Tree Byte} (h : prover.Holds K leaves) (htree : tree.Represents K leaves)
    (hindex : index < leaves.length) :
    ∃ proof, prover.Proven K tree leaves index leaves[index] proof := by
  have hfits : leaves.length ≤ 2 ^ TREE_DEPTH := htree.fits.trans (Nat.sub_le _ _)
  obtain ⟨path, hpath⟩ := MerkleTree.exists_proves (K := K) hindex hfits
  have hhigh : ¬ U32_MAX < index := (hindex.trans_le htree.fits).le.not_gt
  have htake : path.take TREE_DEPTH = path := List.take_of_length_le hpath.length_eq.le
  let proof : Proof Byte := ⟨leaves[index], index, path, hpath.length_eq⟩
  have hproof : prover.prove K index = some (.ok proof) := by
    rw [h, Prover.prove, if_neg hhigh, if_neg (by simpa using hindex)]
    dsimp only
    rw [hpath.generate_eq]
    dsimp only
    rw [dif_pos hpath.length_eq.ge]
    simp only [htake, proof]
  have hclimb : climbBranch K index 0 leaves[index] path = listRoot K leaves := by
    have hroot := hpath.root_eq
    rw [merkleRootFromBranch, if_pos hpath.length_eq, MerkleTree.hash_create] at hroot
    exact Option.some.inj hroot
  refine ⟨proof, hproof, hpath, rfl, rfl, ?_, ?_⟩
  · have hgetD : ∀ i (hi : i < path.length), path[i] = path.getD i 0 :=
      fun i hi => (List.getD_eq_getElem path 0 hi).symm
    rw [htree.root_eq]
    exact (branchRoot_eq_climbBranch _ _ _ hpath.length_eq hgetD).trans hclimb
  · apply Prover.verify_of
    rw [h.root_eq]
    exact hclimb

/-- **Every leaf has a proof that the contract accepts.** -/
theorem leaf_proofs [DecidableEq Byte] (K : Crypto Byte) (leaves : List (Bytes32 Byte)) :
    (∀ depth index (_ : leaves.length ≤ 2 ^ depth) (_ : index < leaves.length),
      ∃ path, MerkleTree.Proves K leaves depth index leaves[index] path) ∧
    (leaves.length ≤ 2 ^ 32 - 1 →
      ∃ tree prover, insertAll K .fresh leaves = .ok tree ∧
        (Prover.default K).extend K leaves = some prover ∧
        (∀ index, (∃ proof, prover.prove K index = some (.ok proof)) ↔ index < leaves.length) ∧
        ∀ index (_ : index < leaves.length),
          ∃ proof, prover.Proven K tree leaves index leaves[index] proof) := by
  refine ⟨fun depth index hfits hindex => MerkleTree.exists_proves hindex hfits, fun hfits => ?_⟩
  obtain ⟨tree, hall, htree⟩ := exists_insertAll (K := K) (fun _ => 0) hfits
  have hroom : ([] ++ leaves).length ≤ 2 ^ TREE_DEPTH := hfits.trans (Nat.sub_le _ _)
  obtain ⟨prover, hextend, hholds⟩ := Prover.holds_default.extend (K := K) hroom
  rw [List.nil_append] at hholds
  refine ⟨tree, prover, hall, hextend, fun index => ?_, fun index hindex => ?_⟩
  · constructor
    · rintro ⟨proof, hproof⟩
      by_contra hge
      obtain ⟨e, herror⟩ := hholds.prove_of_length_le (not_lt.mp hge)
      rw [hproof] at herror
      cases herror
    · intro hindex
      obtain ⟨proof, hproof⟩ := hholds.proven htree hindex
      exact ⟨proof, hproof.prove_eq⟩
  · exact hholds.proven htree hindex

/-- Three leaves, of which one is zero, in a tree of depth two and in the full one. -/
theorem leaf_proofs_three :
    let K := Crypto.withIdealHash fun _ _ => none
    let leaves : List (Bytes32 ℕ) := [0, List.Vector.replicate 32 1, 0]
    (∃ path, MerkleTree.Proves K leaves 2 2 0 path) ∧
      ∃ tree prover, insertAll K .fresh leaves = .ok tree ∧
        (Prover.default K).extend K leaves = some prover ∧
        (∀ index, (∃ proof, prover.prove K index = some (.ok proof)) ↔ index < leaves.length) ∧
        ∀ index (_ : index < leaves.length),
          ∃ proof, prover.Proven K tree leaves index leaves[index] proof := by
  intro K leaves
  have hproofs := leaf_proofs K leaves
  exact ⟨hproofs.1 2 2 (by decide) (by decide), hproofs.2 (by decide)⟩

end Optics
