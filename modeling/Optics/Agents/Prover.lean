/-
# The prover

A `Prover` is the sparse tree with a count. Once it has ingested a list it is the
tree that `create` builds from the list, and it proves exactly the indices of the
list.
-/

import Optics.Accumulator.Incremental

namespace Optics

open Optics.Solidity Optics.Accumulator

variable {Byte : Type} [ByteAlphabet Byte]

/-- `ProverError`. -/
inductive ProverError (Byte : Type)
  | IndexTooHigh (index : ℕ)
  | ZeroProof (index count : ℕ)
  | MerkleTreeError (error : Accumulator.MerkleTreeError)
  | VerificationFailed (expected actual : Bytes32 Byte)

/-- `Prover`. -/
structure Prover (Byte : Type) where
  count : ℕ
  tree : MerkleTree Byte

namespace Prover

section Definitions

variable (K : Crypto Byte)

/-- `default`. -/
def default : Prover Byte := ⟨0, MerkleTree.create K [] TREE_DEPTH⟩

/-- `root`. -/
def root (prover : Prover Byte) : Bytes32 Byte := prover.tree.hash K

/-- `ingest`, with the prover that it leaves behind. -/
def ingest (prover : Prover Byte) (element : Bytes32 Byte) :
    Except (ProverError Byte) (Bytes32 Byte) × Prover Byte :=
  let count := prover.count + 1
  match MerkleTree.pushLeaf K element prover.tree TREE_DEPTH with
  | (.ok (), tree) => (.ok (tree.hash K), ⟨count, tree⟩)
  | (.error e, tree) => (.error (.MerkleTreeError e), ⟨count, tree⟩)

/-- `prove`. `none` is a panic while the proof is generated or copied. -/
def prove (prover : Prover Byte) (index : ℕ) : Option (Except (ProverError Byte) (Proof Byte)) :=
  if U32_MAX < index then some (.error (.IndexTooHigh index))
  else if prover.count ≤ index then some (.error (.ZeroProof index prover.count))
  else
    match MerkleTree.generateProof K prover.tree index TREE_DEPTH with
    | none => none
    | some (leaf, hashes) =>
      if h : TREE_DEPTH ≤ hashes.length then
        some (.ok ⟨leaf, index, hashes.take TREE_DEPTH, by simp [h]⟩)
      else none

/-- `verify`. `none` is the failed assertion on the length of the path. -/
def verify [DecidableEq Byte] (prover : Prover Byte) (proof : Proof Byte) :
    Option (Except (ProverError Byte) Unit) :=
  match merkleRootFromBranch K proof.leaf proof.path.toList TREE_DEPTH proof.index with
  | none => none
  | some actual =>
    let expected := prover.root K
    if expected = actual then some (.ok ())
    else some (.error (.VerificationFailed expected actual))

/-- `extend`. `none` is the panic on a full tree. -/
def extend (prover : Prover Byte) : List (Bytes32 Byte) → Option (Prover Byte)
  | [] => some prover
  | element :: rest =>
    match prover.ingest K element with
    | (.ok _, prover) => extend prover rest
    | (.error _, _) => none

end Definitions

/-- The prover was filled with exactly the listed leaves, in order. -/
def Holds (K : Crypto Byte) (prover : Prover Byte) (leaves : List (Bytes32 Byte)) : Prop :=
  prover = ⟨leaves.length, MerkleTree.create K leaves TREE_DEPTH⟩

variable {K : Crypto Byte} {prover : Prover Byte} {leaves more : List (Bytes32 Byte)}
  {element : Bytes32 Byte} {index : ℕ}

theorem holds_default : (default K : Prover Byte).Holds K [] := rfl

theorem Holds.root_eq (h : prover.Holds K leaves) : prover.root K = listRoot K leaves := by
  rw [h, root, MerkleTree.hash_create]
  rfl

/-- A prover that is not full takes the leaf. -/
theorem Holds.ingest (h : prover.Holds K leaves) (element : Bytes32 Byte)
    (hroom : leaves.length < 2 ^ TREE_DEPTH) :
    ∃ root prover', prover.ingest K element = (.ok root, prover') ∧
      prover'.Holds K (leaves ++ [element]) := by
  have hpush : MerkleTree.pushLeaf K element (MerkleTree.create K leaves TREE_DEPTH) TREE_DEPTH =
      (.ok (), MerkleTree.create K (leaves ++ [element]) TREE_DEPTH) :=
    (MerkleTree.pushLeaf_create element leaves 31).1 hroom
  refine ⟨(MerkleTree.create K (leaves ++ [element]) TREE_DEPTH).hash K,
    ⟨leaves.length + 1, MerkleTree.create K (leaves ++ [element]) TREE_DEPTH⟩, ?_, ?_⟩
  · rw [h, Prover.ingest]
    dsimp only
    rw [hpush]
  · rw [Holds, List.length_append, List.length_singleton]

/-- Extending by a list that fits appends it. -/
theorem Holds.extend (h : prover.Holds K leaves)
    (hroom : (leaves ++ more).length ≤ 2 ^ TREE_DEPTH) :
    ∃ prover', prover.extend K more = some prover' ∧ prover'.Holds K (leaves ++ more) := by
  induction more generalizing prover leaves with
  | nil => exact ⟨prover, rfl, by rwa [List.append_nil]⟩
  | cons element rest ih =>
    have hroom' : leaves.length < 2 ^ TREE_DEPTH := by
      rw [List.length_append, List.length_cons] at hroom
      omega
    obtain ⟨root, prover₁, hingest, hholds⟩ := h.ingest element hroom'
    rw [List.append_cons] at hroom ⊢
    obtain ⟨prover₂, hextend, hholds'⟩ := ih hholds hroom
    refine ⟨prover₂, ?_, hholds'⟩
    rw [Prover.extend, hingest]
    exact hextend

/-- **Stored leaves are provable.** The proof of an index below the count carries
the leaf at that index and evaluates to the root. -/
theorem Holds.prove (h : prover.Holds K leaves) (hindex : index < leaves.length)
    (hfits : leaves.length ≤ 2 ^ TREE_DEPTH) :
    ∃ proof, prover.prove K index = some (.ok proof) ∧ proof.leaf = leaves[index] ∧
      proof.root K = listRoot K leaves := by
  have hindex' : ¬ U32_MAX < index := by
    rw [TREE_DEPTH] at hfits
    rw [U32_MAX]
    omega
  obtain ⟨branch, hproof, hlength, hclimb⟩ :=
    MerkleTree.generateProof_create (K := K) hindex hfits
  have htake : branch.take TREE_DEPTH = branch := List.take_of_length_le hlength.le
  refine ⟨⟨leaves[index], index, branch.take TREE_DEPTH, by simp [hlength]⟩, ?_, rfl, ?_⟩
  · rw [h, Prover.prove, if_neg hindex', if_neg (by simpa using hindex)]
    dsimp only
    rw [hproof]
    dsimp only
    rw [dif_pos hlength.ge]
  · rw [Proof.root]
    simp only [List.Vector.toList, htake]
    exact hclimb

/-- What `prove` answers past the end of the list. -/
theorem Holds.prove_of_length_le (h : prover.Holds K leaves) (hindex : leaves.length ≤ index) :
    ∃ e, prover.prove K index = some (.error e) := by
  rw [Prover.prove]
  split_ifs with hhigh hcount
  · exact ⟨_, rfl⟩
  · exact ⟨_, rfl⟩
  · rw [h] at hcount
    exact absurd hindex hcount

/-- A proof that a prover gives names the index that it was asked for. -/
theorem index_of_prove {proof : Proof Byte} (h : prover.prove K index = some (.ok proof)) :
    proof.index = index := by
  rw [Prover.prove] at h
  split_ifs at h
  · cases h
  · cases h
  · split at h
    · cases h
    · split_ifs at h
      cases h
      rfl

/-- A proof that evaluates to the root is accepted. -/
theorem verify_of [DecidableEq Byte] {proof : Proof Byte} (h : proof.root K = prover.root K) :
    prover.verify K proof = some (.ok ()) := by
  have hbranch : merkleRootFromBranch K proof.leaf proof.path.toList TREE_DEPTH proof.index =
      some (prover.root K) := by
    rw [merkleRootFromBranch, if_pos (List.Vector.toList_length _), ← h, Proof.root]
  rw [verify, hbranch]
  exact if_pos rfl

end Prover

end Optics
