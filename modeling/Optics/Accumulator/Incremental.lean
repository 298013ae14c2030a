/-
# The incremental Merkle tree of the agents

`IncrementalMerkle` is the tree of the contracts again: one slot for each level
and a count. It starts from the zero hashes instead of zero words, and running
out of levels is no failure. A tree that holds a list of leaves takes one more
leaf until it is full, and has the root of the zero-padded list.
-/

import Optics.Accumulator.Merkle
import Optics.Math.Frontier

namespace Optics.Accumulator

open Optics.Solidity

variable {Byte : Type} [ByteAlphabet Byte]

/-- `IncrementalMerkle`. Slots at `TREE_DEPTH` and above are never used. -/
structure IncrementalMerkle (Byte : Type) where
  branch : ℕ → Bytes32 Byte
  count : ℕ

/-- The root of the depth-32 tree over a zero-padded list. -/
def listRoot (K : Crypto Byte) (leaves : List (Bytes32 Byte)) : Bytes32 Byte :=
  Math.MerkleTree.listRoot K.hashPair 0 TREE_DEPTH leaves

namespace IncrementalMerkle

section Definitions

variable (K : Crypto Byte)

/-- `default`. -/
def default : IncrementalMerkle Byte := ⟨ZERO_HASHES K, 0⟩

/-- `ingest`. `none` is the failed assertion on the count. The loop over the
levels is the carry of a binary increment; at its end nothing is stored. -/
def ingest (tree : IncrementalMerkle Byte) (element : Bytes32 Byte) :
    Option (IncrementalMerkle Byte) :=
  if tree.count < U32_MAX then
    let size := tree.count + 1
    match Math.MerkleTree.carry K.hashPair TREE_DEPTH tree.branch 0 size element with
    | some branch => some ⟨branch, size⟩
    | none => some ⟨tree.branch, size⟩
  else none

/-- `root`. -/
def root (tree : IncrementalMerkle Byte) : Bytes32 Byte :=
  Math.MerkleTree.spine K.hashPair 0 (ZERO_HASHES K) tree.branch tree.count TREE_DEPTH

end Definitions

/-- The tree was filled with exactly the listed leaves, in order. -/
structure Holds (K : Crypto Byte) (tree : IncrementalMerkle Byte) (leaves : List (Bytes32 Byte)) :
    Prop where
  count_eq : tree.count = leaves.length
  frontier : Math.MerkleTree.IsFrontier K.hashPair (Math.MerkleTree.padded 0 leaves) leaves.length
    tree.branch
  fits : leaves.length ≤ U32_MAX

variable {K : Crypto Byte} {tree tree' : IncrementalMerkle Byte} {leaves : List (Bytes32 Byte)}
  {element : Bytes32 Byte}

omit [ByteAlphabet Byte] in
theorem count_of_ingest (h : tree.ingest K element = some tree') :
    tree.count < U32_MAX ∧ tree'.count = tree.count + 1 := by
  unfold ingest at h
  split_ifs at h with hcount
  refine ⟨hcount, ?_⟩
  dsimp only at h
  split at h
  · rw [← Option.some.inj h]
  · rw [← Option.some.inj h]

theorem holds_default : (default K : IncrementalMerkle Byte).Holds K [] where
  count_eq := rfl
  frontier := Math.MerkleTree.isFrontier_zero
  fits := Nat.zero_le _

omit [ByteAlphabet Byte] in
theorem lt_two_pow_of_le {n : ℕ} (h : n ≤ U32_MAX) : n < 2 ^ TREE_DEPTH := by
  rw [U32_MAX] at h
  rw [TREE_DEPTH]
  omega

theorem Holds.root_eq (h : tree.Holds K leaves) : tree.root K = listRoot K leaves := by
  rw [root, h.count_eq]
  apply Math.MerkleTree.spine_eq_listRoot h.frontier (lt_two_pow_of_le h.fits)
  intro l _
  rfl

/-- A tree that is not full takes the leaf. -/
theorem Holds.ingest (h : tree.Holds K leaves) (element : Bytes32 Byte)
    (hroom : leaves.length < U32_MAX) :
    ∃ tree', tree.ingest K element = some tree' ∧ tree'.Holds K (leaves ++ [element]) := by
  have hfit : leaves.length + 1 < 2 ^ TREE_DEPTH := lt_two_pow_of_le hroom
  obtain ⟨branch, hcarry, hfrontier⟩ := Math.MerkleTree.carry_append element h.frontier hfit
  refine ⟨⟨branch, leaves.length + 1⟩, ?_, by simp, hfrontier, ?_⟩
  · rw [IncrementalMerkle.ingest, h.count_eq, if_pos hroom]
    dsimp only
    rw [hcarry]
  · rw [List.length_append]
    exact hroom

/-- Whatever `ingest` takes, it appends. -/
theorem Holds.of_ingest (h : tree.Holds K leaves) (hingest : tree.ingest K element = some tree') :
    tree'.Holds K (leaves ++ [element]) := by
  have hroom := (count_of_ingest hingest).1
  rw [h.count_eq] at hroom
  obtain ⟨tree'', hingest', hholds⟩ := h.ingest element hroom
  rw [hingest] at hingest'
  exact Option.some.inj hingest' ▸ hholds

end IncrementalMerkle

end Optics.Accumulator
