/-
# One tree, three implementations

The contracts and the agents keep the same tree of depth 32: `MerkleLib.Tree`
and `IncrementalMerkle` as one node per level, and the prover's sparse tree with
all its nodes. Fed with the same leaves all three succeed and have the root of
the zero-padded list. Nothing depends on what the slots held at the start, so a
slot counts only after it has been written.

With an injective pair hash a branch that evaluates to such a root, by the
contract or by the agents, is the branch of the position that the low 32 bits of
the index name.
-/

import Optics.Accumulator.Incremental
import Optics.Libs.Merkle
import Optics.Math.Transition

namespace Optics.Accumulator

open Optics.Solidity

variable {Byte : Type} [ByteAlphabet Byte] (K : Crypto Byte)

/-- `MerkleLib.insert`, leaf by leaf. -/
def insertAll (tree : MerkleLib.Tree Byte) (leaves : List (Bytes32 Byte)) :
    Except Revert (MerkleLib.Tree Byte) :=
  leaves.foldlM (MerkleLib.insert K) tree

/-- `IncrementalMerkle::ingest`, leaf by leaf. -/
def ingestAll (tree : IncrementalMerkle Byte) (leaves : List (Bytes32 Byte)) :
    Option (IncrementalMerkle Byte) :=
  leaves.foldlM (IncrementalMerkle.ingest K) tree

/-- `MerkleTree::push_leaf` at full depth. -/
def push (tree : MerkleTree Byte) (leaf : Bytes32 Byte) :
    Except MerkleTreeError (MerkleTree Byte) :=
  match MerkleTree.pushLeaf K leaf tree TREE_DEPTH with
  | (.ok (), tree) => .ok tree
  | (.error e, _) => .error e

/-- `MerkleTree::push_leaf`, leaf by leaf. -/
def pushAll (tree : MerkleTree Byte) (leaves : List (Bytes32 Byte)) :
    Except MerkleTreeError (MerkleTree Byte) :=
  leaves.foldlM (push K) tree

variable {K} {leaves : List (Bytes32 Byte)}

/-! ### Filling the trees -/

/-- The contract's tree, whatever its slots held at the start. -/
theorem exists_insertAll (slots : ℕ → Bytes32 Byte) (h : leaves.length ≤ MerkleLib.MAX_LEAVES) :
    ∃ tree, insertAll K ⟨slots, 0⟩ leaves = .ok tree ∧ tree.Represents K leaves := by
  have hempty : (⟨slots, 0⟩ : MerkleLib.Tree Byte).Represents K [] :=
    ⟨rfl, Math.MerkleTree.isFrontier_zero, Nat.zero_le _⟩
  have hinsert : ∀ (tree : MerkleLib.Tree Byte) xs x, tree.Represents K xs →
      xs.length < MerkleLib.MAX_LEAVES →
        ∃ tree', MerkleLib.insert K tree x = pure tree' ∧ tree'.Represents K (xs ++ [x]) :=
    fun tree xs x hrep hroom => hrep.insert x hroom
  exact Math.Transition.exists_foldlM_append hinsert hempty leaves h

/-- The agents' tree, whatever its slots held at the start. -/
theorem exists_ingestAll (slots : ℕ → Bytes32 Byte) (h : leaves.length ≤ U32_MAX) :
    ∃ tree, ingestAll K ⟨slots, 0⟩ leaves = some tree ∧ tree.Holds K leaves := by
  have hempty : (⟨slots, 0⟩ : IncrementalMerkle Byte).Holds K [] :=
    ⟨rfl, Math.MerkleTree.isFrontier_zero, Nat.zero_le _⟩
  have hingest : ∀ (tree : IncrementalMerkle Byte) xs x, tree.Holds K xs → xs.length < U32_MAX →
      ∃ tree', tree.ingest K x = pure tree' ∧ tree'.Holds K (xs ++ [x]) :=
    fun tree xs x hholds hroom => hholds.ingest x hroom
  exact Math.Transition.exists_foldlM_append hingest hempty leaves h

/-- The sparse tree is the tree made from the list at once. -/
theorem pushAll_create (h : leaves.length ≤ 2 ^ TREE_DEPTH) :
    pushAll K (.create K [] TREE_DEPTH) leaves = .ok (.create K leaves TREE_DEPTH) := by
  have hpush : ∀ (tree : MerkleTree Byte) xs x, tree = .create K xs TREE_DEPTH →
      xs.length < 2 ^ TREE_DEPTH →
        ∃ tree', push K tree x = pure tree' ∧ tree' = .create K (xs ++ [x]) TREE_DEPTH := by
    rintro tree xs x rfl hroom
    have hcreate := (MerkleTree.pushLeaf_create (K := K) x xs 31).1 hroom
    refine ⟨_, ?_, rfl⟩
    rw [push]
    simp only [TREE_DEPTH]
    rw [hcreate]
    rfl
  have hempty : MerkleTree.create K [] TREE_DEPTH = .create K [] TREE_DEPTH := rfl
  obtain ⟨tree, hall, rfl⟩ := Math.Transition.exists_foldlM_append hpush hempty leaves h
  exact hall

/-- What the implementations do with a list of leaves, from their own first
states and from any other content of the slots. -/
structure Agree (K : Crypto Byte) (leaves : List (Bytes32 Byte)) : Prop where
  contract : ∃ tree, insertAll K .fresh leaves = .ok tree ∧
    MerkleLib.root K tree = listRoot K leaves
  incremental : ∃ tree, ingestAll K (.default K) leaves = some tree ∧
    tree.root K = listRoot K leaves
  sparse : ∃ tree, pushAll K (.create K [] TREE_DEPTH) leaves = .ok tree ∧
    tree.hash K = listRoot K leaves
  /-- A slot that no insertion has written holds what it held at the start, and
  that does not matter to the contract. -/
  contractSlots : ∀ slots, ∃ tree, insertAll K ⟨slots, 0⟩ leaves = .ok tree ∧
    MerkleLib.root K tree = listRoot K leaves
  /-- Nor do they matter to the agents. -/
  incrementalSlots : ∀ slots, ∃ tree, ingestAll K ⟨slots, 0⟩ leaves = some tree ∧
    tree.root K = listRoot K leaves
  /-- Another insertion, also into a full tree, does not get past its loop. -/
  noAssert : ∀ tree, insertAll K .fresh leaves = .ok tree →
    ∀ node, MerkleLib.insert K tree node ≠ .error .assert

/-- **The implementations agree.** After every insertion of a list of at most
`2 ^ 32 - 1` leaves the contract's tree, the agents' incremental tree and the
prover's sparse tree have one root, that of the zero-padded list. -/
theorem implementations_agree (leaves : List (Bytes32 Byte)) (h : leaves.length ≤ 2 ^ 32 - 1) :
    ∀ k ≤ leaves.length, Agree K (leaves.take k) := by
  intro k _
  have hfit : (leaves.take k).length ≤ 2 ^ 32 - 1 := (List.length_take_le' k leaves).trans h
  have hcontract : ∀ slots, ∃ tree, insertAll K ⟨slots, 0⟩ (leaves.take k) = .ok tree ∧
      MerkleLib.root K tree = listRoot K (leaves.take k) := by
    intro slots
    obtain ⟨tree, hall, hrep⟩ := exists_insertAll (K := K) slots hfit
    exact ⟨tree, hall, hrep.root_eq⟩
  have hincremental : ∀ slots, ∃ tree, ingestAll K ⟨slots, 0⟩ (leaves.take k) = some tree ∧
      tree.root K = listRoot K (leaves.take k) := by
    intro slots
    obtain ⟨tree, hall, hholds⟩ := exists_ingestAll (K := K) slots hfit
    exact ⟨tree, hall, hholds.root_eq⟩
  have hsparse : (leaves.take k).length ≤ 2 ^ TREE_DEPTH := hfit.trans (Nat.sub_le _ _)
  refine {
    contract := hcontract _
    incremental := hincremental _
    sparse := ⟨_, pushAll_create hsparse, MerkleTree.hash_create _ _⟩
    contractSlots := hcontract
    incrementalSlots := hincremental
    noAssert := ?_ }
  intro tree hall node
  -- a tree with room takes the leaf, and a full one refuses it before the loop
  obtain ⟨tree', hall', hrep⟩ := exists_insertAll (K := K) (fun _ => 0) hfit
  obtain rfl := Except.ok.inj (hall.symm.trans hall')
  by_cases hroom : (leaves.take k).length < MerkleLib.MAX_LEAVES
  · obtain ⟨tree'', hinsert, -⟩ := hrep.insert node hroom
    rw [hinsert]
    exact fun herror => by cases herror
  · rw [hrep.insert_full hroom]
    exact fun herror => by cases herror

/-- Four leaves, the second and the last of them zero. -/
def sampleLeaves : List (Bytes32 ℕ) :=
  [List.Vector.replicate 32 7, 0, List.Vector.replicate 32 9, 0]

/-- All lists on the way to the four leaves, which the prover cannot tell from the first
three. -/
theorem implementations_agree_zero_leaves :
    listRoot (.withIdealHash fun _ _ => none) sampleLeaves =
      listRoot (.withIdealHash fun _ _ => none) (sampleLeaves.take 3) ∧
    ∀ k ≤ 4, Agree (.withIdealHash fun _ _ => none) (sampleLeaves.take k) := by
  have hpadded : Math.MerkleTree.padded 0 sampleLeaves =
      Math.MerkleTree.padded 0 (sampleLeaves.take 3) := by
    funext i
    match i with
    | 0 | 1 | 2 | 3 => rfl
    | i + 4 => rfl
  refine ⟨?_, implementations_agree sampleLeaves (by decide)⟩
  rw [listRoot, Math.MerkleTree.listRoot, hpadded]
  rfl

/-! ### Branches -/

section Branches

omit [ByteAlphabet Byte]

/-- The loop of the agents climbs like that of the contract. -/
theorem climbBranch_eq_climb (item : Bytes32 Byte) (index : ℕ) {path : List (Bytes32 Byte)}
    (branch : ℕ → Bytes32 Byte) (h : ∀ i (hi : i < path.length), path[i] = branch i) :
    climbBranch K index 0 item path =
      Math.MerkleTree.climb K.hashPair branch index item path.length := by
  induction path using List.reverseRecOn with
  | nil => rfl
  | append_singleton path next ih =>
    have hprior : ∀ i (hi : i < path.length), path[i] = branch i := by
      intro i hi
      have hat := h i (by simp; omega)
      rwa [List.getElem_append_left hi] at hat
    have hnext : next = branch path.length := by
      simpa using h path.length (by simp)
    rw [MerkleTree.climbBranch_concat, List.length_append, List.length_singleton,
      Math.MerkleTree.climb, ih hprior, Nat.zero_add, hnext]

end Branches

/-- The branch of a position, as a list. -/
def siblingPath (K : Crypto Byte) (leaves : List (Bytes32 Byte)) (index : ℕ) :
    List (Bytes32 Byte) :=
  (List.range TREE_DEPTH).map (MerkleLib.branchOf K leaves index)

/-- **Branches bind leaf and position.** With an injective pair hash, an item,
a path and an index of any size that evaluate to the root of a zero-padded list
are the leaf and the siblings at the position given by the low 32 bits of the
index, in the contract and in the agents. -/
theorem branch_binds_position (hinj : Function.Injective2 K.hashPair)
    (leaves : List (Bytes32 Byte)) (item : Bytes32 Byte) (index : ℕ) :
    (∀ branch, MerkleLib.branchRoot K item branch index = listRoot K leaves →
      item = leaves.getD (index % 2 ^ 32) 0 ∧
        ∀ i < 32, branch i = MerkleLib.branchOf K leaves (index % 2 ^ 32) i) ∧
    (∀ path, merkleRootFromBranch K item path 32 index = some (listRoot K leaves) →
      item = leaves.getD (index % 2 ^ 32) 0 ∧ path = siblingPath K leaves (index % 2 ^ 32)) := by
  refine ⟨fun branch h => Math.MerkleTree.climb_sound hinj h, fun path h => ?_⟩
  -- the agents assert the length, so the path has every level
  have hlength : path.length = 32 := by
    by_contra hne
    rw [merkleRootFromBranch, if_neg hne] at h
    cases h
  rw [merkleRootFromBranch, if_pos hlength] at h
  have hloop := climbBranch_eq_climb (K := K) item index (fun i => path.getD i 0)
    fun i hi => (List.getD_eq_getElem path 0 hi).symm
  rw [hlength, Option.some.inj h] at hloop
  obtain ⟨hitem, hpath⟩ := Math.MerkleTree.climb_sound hinj hloop.symm
  refine ⟨hitem, ?_⟩
  apply List.ext_getElem
  · simp [siblingPath, hlength, TREE_DEPTH]
  · intro i hi hi'
    have hat := hpath i (hlength ▸ hi)
    rw [List.getD_eq_getElem path 0 hi] at hat
    simp only [siblingPath, List.getElem_map, List.getElem_range]
    exact hat

/-- An index of 33 bits at a position past the only leaf. -/
theorem branch_binds_position_beyond :
    let K := Crypto.withIdealHash fun _ _ => none
    let leaves : List (Bytes32 ℕ) := [List.Vector.replicate 32 1]
    ∃ branch path, MerkleLib.branchRoot K 0 branch (2 ^ 32 + 7) = listRoot K leaves ∧
      merkleRootFromBranch K 0 path 32 (2 ^ 32 + 7) = some (listRoot K leaves) ∧
      (∀ i < 32, branch i = MerkleLib.branchOf K leaves ((2 ^ 32 + 7) % 2 ^ 32) i) ∧
      path = siblingPath K leaves ((2 ^ 32 + 7) % 2 ^ 32) := by
  intro K leaves
  have hbranch : MerkleLib.branchRoot K 0 (MerkleLib.branchOf K leaves 7) (2 ^ 32 + 7) =
      listRoot K leaves := Math.MerkleTree.climb_complete (fun i _ => rfl) rfl
  have hlength : (siblingPath K leaves 7).length = 32 := by simp [siblingPath, TREE_DEPTH]
  have hpath : merkleRootFromBranch K 0 (siblingPath K leaves 7) 32 (2 ^ 32 + 7) =
      some (listRoot K leaves) := by
    rw [merkleRootFromBranch, if_pos hlength, climbBranch_eq_climb 0 _
      (MerkleLib.branchOf K leaves 7) (by simp [siblingPath]), hlength]
    exact congrArg some hbranch
  obtain ⟨hcontract, hagents⟩ :=
    branch_binds_position (Crypto.withIdealHash_ideal _).hashPair_injective leaves 0 (2 ^ 32 + 7)
  exact ⟨_, _, hbranch, hpath, (hcontract _ hbranch).2, (hagents _ hpath).2⟩

end Optics.Accumulator
