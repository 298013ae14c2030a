/-
# The Merkle library

`MerkleLib.Tree` keeps 32 branch slots and a leaf count. The functions are the
frontier algorithms instantiated at the keccak pair hash. A tree that represents
a list of leaves accepts one more leaf whenever it is not full, never reaches
its final assertion, and has the root of the zero-padded tree over the list.
-/

import Optics.Math.Frontier
import Optics.Solidity.Basic

namespace Optics.MerkleLib

open Optics.Math Optics.Solidity

variable {Byte : Type} [ByteAlphabet Byte] (K : Crypto Byte)

def TREE_DEPTH : ℕ := 32

def MAX_LEAVES : ℕ := 2 ^ TREE_DEPTH - 1

/-- The struct `Tree`. Slots at `TREE_DEPTH` and above are never used. -/
structure Tree (Byte : Type) where
  branch : ℕ → Bytes32 Byte
  count : ℕ

/-- A tree in fresh storage. -/
def Tree.fresh : Tree Byte := ⟨fun _ => 0, 0⟩

/-- The constants `Z_0, ..., Z_31`: iterated hashes of the zero word. -/
def zeroHashes (i : ℕ) : Bytes32 Byte := MerkleTree.zeroHash K.hashPair 0 i

/-- `insert`. The loop over the levels is the carry of a binary increment, and
leaving it at the end is the `assert(false)`. -/
def insert (tree : Tree Byte) (node : Bytes32 Byte) : Except Revert (Tree Byte) := do
  require (tree.count < MAX_LEAVES) "merkle tree full"
  match MerkleTree.carry K.hashPair TREE_DEPTH tree.branch 0 (tree.count + 1) node with
  | some branch => .ok ⟨branch, tree.count + 1⟩
  | none => .error .assert

/-- `rootWithCtx`. -/
def rootWithCtx (tree : Tree Byte) (zeroes : ℕ → Bytes32 Byte) : Bytes32 Byte :=
  MerkleTree.spine K.hashPair 0 zeroes tree.branch tree.count TREE_DEPTH

/-- `root`. -/
def root (tree : Tree Byte) : Bytes32 Byte := rootWithCtx K tree (zeroHashes K)

/-- `branchRoot`. The index is a `uint256` of which only 32 bits are read. -/
def branchRoot (item : Bytes32 Byte) (branch : ℕ → Bytes32 Byte) (index : ℕ) : Bytes32 Byte :=
  MerkleTree.climb K.hashPair branch index item TREE_DEPTH

/-! ### Trees as lists of leaves -/

/-- The root of the depth-32 tree over the zero-padded list. -/
def treeRoot (leaves : List (Bytes32 Byte)) : Bytes32 Byte :=
  MerkleTree.listRoot K.hashPair 0 TREE_DEPTH leaves

/-- The tree was filled with exactly the listed leaves, in order. -/
structure Tree.Represents (tree : Tree Byte) (leaves : List (Bytes32 Byte)) : Prop where
  count_eq : tree.count = leaves.length
  frontier : MerkleTree.IsFrontier K.hashPair (MerkleTree.padded 0 leaves) leaves.length tree.branch
  fits : leaves.length ≤ MAX_LEAVES

variable {K} {tree : Tree Byte} {leaves others : List (Bytes32 Byte)} {node : Bytes32 Byte}

theorem represents_fresh : (Tree.fresh : Tree Byte).Represents K [] where
  count_eq := rfl
  frontier := MerkleTree.isFrontier_zero
  fits := Nat.zero_le _

omit [ByteAlphabet Byte] in
/-- An accepted leaf found room and was counted. -/
theorem count_of_insert {tree' : Tree Byte} (h : insert K tree node = .ok tree') :
    tree.count < MAX_LEAVES ∧ tree'.count = tree.count + 1 := by
  obtain ⟨hroom, h⟩ := require_bind_eq_ok.mp h
  refine ⟨hroom, ?_⟩
  split at h
  · rw [← Except.ok.inj h]
  · cases h

omit [ByteAlphabet Byte] in
theorem lt_two_pow_of_le_maxLeaves {n : ℕ} (h : n ≤ MAX_LEAVES) : n < 2 ^ TREE_DEPTH := by
  rw [MAX_LEAVES, TREE_DEPTH] at h
  rw [TREE_DEPTH]
  omega

theorem Tree.Represents.root_eq (h : tree.Represents K leaves) :
    root K tree = treeRoot K leaves := by
  rw [root, rootWithCtx, h.count_eq]
  exact MerkleTree.spine_eq_listRoot h.frontier (lt_two_pow_of_le_maxLeaves h.fits) fun _ _ => rfl

/-- Inserting into a tree that is not full appends the leaf. -/
theorem Tree.Represents.insert (h : tree.Represents K leaves) (node : Bytes32 Byte)
    (hroom : leaves.length < MAX_LEAVES) :
    ∃ tree', MerkleLib.insert K tree node = .ok tree' ∧ tree'.Represents K (leaves ++ [node]) := by
  have hfit : leaves.length + 1 < 2 ^ TREE_DEPTH := lt_two_pow_of_le_maxLeaves hroom
  obtain ⟨branch, hcarry, hfrontier⟩ := MerkleTree.carry_append node h.frontier hfit
  refine ⟨⟨branch, leaves.length + 1⟩, ?_, by simp, hfrontier, ?_⟩
  · rw [MerkleLib.insert, h.count_eq, require_of hroom, ok_bind, hcarry]
  · rw [List.length_append]
    exact hroom

theorem Tree.Represents.insert_full (h : tree.Represents K leaves)
    (hfull : ¬ leaves.length < MAX_LEAVES) (node : Bytes32 Byte) :
    MerkleLib.insert K tree node = .error (.require "merkle tree full") := by
  rw [MerkleLib.insert, h.count_eq, require_of_not hfull]
  rfl

/-- Whatever `insert` accepts, it appends. -/
theorem Tree.Represents.of_insert (h : tree.Represents K leaves) {tree' : Tree Byte}
    (hinsert : MerkleLib.insert K tree node = .ok tree') :
    leaves.length < MAX_LEAVES ∧ tree'.Represents K (leaves ++ [node]) := by
  by_cases hroom : leaves.length < MAX_LEAVES
  -- `insert` is a function, so the tree that it returned is the one it has to return
  · obtain ⟨tree'', hinsert', hrep⟩ := h.insert node hroom
    rw [hinsert] at hinsert'
    obtain rfl := Except.ok.inj hinsert'
    exact ⟨hroom, hrep⟩
  · rw [h.insert_full hroom] at hinsert
    cases hinsert

/-- The branch of a position in the padded tree over a list. -/
def branchOf (K : Crypto Byte) (leaves : List (Bytes32 Byte)) (index : ℕ) : ℕ → Bytes32 Byte :=
  MerkleTree.sibling K.hashPair (MerkleTree.padded 0 leaves) index

/-- The branch of a leaf evaluates to the root. -/
theorem branchRoot_branchOf {index : ℕ} (h : index < leaves.length)
    (hfit : leaves.length ≤ MAX_LEAVES) :
    branchRoot K leaves[index] (branchOf K leaves index) index = treeRoot K leaves := by
  have hindex : index % 2 ^ TREE_DEPTH = index :=
    Nat.mod_eq_of_lt (h.trans (lt_two_pow_of_le_maxLeaves hfit))
  refine MerkleTree.climb_complete (fun i _ => ?_) ?_
  · rw [hindex]
    rfl
  · rw [hindex, MerkleTree.padded_of_lt h]

section Ideal

variable (ideal : Crypto.IdealHash K)
include ideal

theorem treeRoot_ne_zero (leaves : List (Bytes32 Byte)) : treeRoot K leaves ≠ 0 :=
  MerkleTree.listRoot_ne_zero ideal.hashPair_ne_zero leaves

theorem branchRoot_ne_zero (item : Bytes32 Byte) (branch : ℕ → Bytes32 Byte) (index : ℕ) :
    branchRoot K item branch index ≠ 0 := by
  rw [branchRoot, TREE_DEPTH, MerkleTree.climb]
  split_ifs <;> exact ideal.hashPair_ne_zero _ _

/-- Trees over nonzero leaves with the same root have the same number of leaves. -/
theorem length_eq_of_treeRoot_eq (hfit : leaves.length ≤ MAX_LEAVES)
    (hfit' : others.length ≤ MAX_LEAVES) (hne : 0 ∉ leaves) (hne' : 0 ∉ others)
    (h : treeRoot K leaves = treeRoot K others) : leaves.length = others.length :=
  MerkleTree.length_eq_of_listRoot_eq ideal.hashPair_injective
    (lt_two_pow_of_le_maxLeaves hfit).le (lt_two_pow_of_le_maxLeaves hfit').le hne hne' h

/-- Lists of nonzero leaves are determined by their root. -/
theorem eq_of_treeRoot_eq (hfit : leaves.length ≤ MAX_LEAVES) (hfit' : others.length ≤ MAX_LEAVES)
    (hne : 0 ∉ leaves) (hne' : 0 ∉ others) (h : treeRoot K leaves = treeRoot K others) :
    leaves = others := by
  have hlength := length_eq_of_treeRoot_eq ideal hfit hfit' hne hne' h
  have hleaf := MerkleTree.leaf_eq_of_root_eq ideal.hashPair_injective h
  apply List.ext_getElem hlength
  intro i hi hi'
  have hat := hleaf i (hi.trans (lt_two_pow_of_le_maxLeaves hfit))
  rwa [MerkleTree.padded_of_lt hi, MerkleTree.padded_of_lt hi'] at hat

/-- A branch that evaluates to the root of a list carries the padded leaf at the
position given by the low 32 bits of the index. -/
theorem item_eq_of_branchRoot {item : Bytes32 Byte} {branch : ℕ → Bytes32 Byte} {index : ℕ}
    (h : branchRoot K item branch index = treeRoot K leaves) :
    item = MerkleTree.padded 0 leaves (index % 2 ^ TREE_DEPTH) :=
  (MerkleTree.climb_sound ideal.hashPair_injective h).1

/-- A nonzero item proven under the root of a list is one of its leaves. -/
theorem mem_of_branchRoot {item : Bytes32 Byte} {branch : ℕ → Bytes32 Byte} {index : ℕ}
    (h : branchRoot K item branch index = treeRoot K leaves) (hitem : item ≠ 0) :
    item ∈ leaves := by
  have hleaf := item_eq_of_branchRoot ideal h
  -- Past the end of the list there is only padding, which is zero.
  rcases lt_or_ge (index % 2 ^ TREE_DEPTH) leaves.length with hlt | hge
  · rw [MerkleTree.padded_of_lt hlt] at hleaf
    exact hleaf ▸ List.getElem_mem hlt
  · exact absurd (hleaf.trans (MerkleTree.padded_of_ge hge)) hitem

end Ideal

end Optics.MerkleLib
