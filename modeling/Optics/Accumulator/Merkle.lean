/-
# The sparse Merkle tree of the agents

`MerkleTree` keeps the whole tree with a cached hash in every node, and cuts off
subtrees that hold no leaf. The tree that `create` builds from a list is the only
shape that pushing leaves can reach, its hash is the root of the zero-padded
list, and the proof read off it climbs back to that hash.
-/

import Mathlib.Logic.Relation
import Optics.Math.MerkleTree
import Optics.Solidity.Basic

namespace Optics.Accumulator

open Optics.Solidity

variable {Byte : Type} [ByteAlphabet Byte]

def TREE_DEPTH : ℕ := 32

/-- `u32::MAX`. -/
def U32_MAX : ℕ := 2 ^ 32 - 1

/-- `ZERO_HASHES`: the roots of the trees without leaves. -/
def ZERO_HASHES (K : Crypto Byte) (depth : ℕ) : Bytes32 Byte :=
  Math.MerkleTree.zeroHash K.hashPair 0 depth

/-- `MerkleTreeError`. -/
inductive MerkleTreeError
  | LeafReached
  | MerkleTreeFull
  | Invalid
  | DepthTooSmall
  deriving DecidableEq, Repr

/-- `MerkleTree`. -/
inductive MerkleTree (Byte : Type)
  | Leaf (hash : Bytes32 Byte)
  | Node (hash : Bytes32 Byte) (left right : MerkleTree Byte)
  | Zero (depth : ℕ)

/-- `Proof`. -/
structure Proof (Byte : Type) where
  leaf : Bytes32 Byte
  index : ℕ
  path : List.Vector (Bytes32 Byte) TREE_DEPTH

section Definitions

variable (K : Crypto Byte)

namespace MerkleTree

/-- `hash`. -/
def hash : MerkleTree Byte → Bytes32 Byte
  | .Leaf hash => hash
  | .Node hash _ _ => hash
  | .Zero depth => ZERO_HASHES K depth

/-- `create`. -/
def create : List (Bytes32 Byte) → ℕ → MerkleTree Byte
  | [], depth => .Zero depth
  | leaf :: _, 0 => .Leaf leaf
  | leaf :: rest, depth + 1 =>
    let leaves := leaf :: rest
    let subtree_capacity := 2 ^ depth
    let (left_leaves, right_leaves) :=
      if leaves.length ≤ subtree_capacity then (leaves, []) else leaves.splitAt subtree_capacity
    let left_subtree := create left_leaves depth
    let right_subtree := create right_leaves depth
    .Node (K.hashPair (left_subtree.hash K) (right_subtree.hash K)) left_subtree right_subtree

/-- `push_leaf`, with the tree that it leaves behind. The hash of a node is
assigned only when the leaf went in below. -/
def pushLeaf (elem : Bytes32 Byte) :
    MerkleTree Byte → ℕ → Except MerkleTreeError Unit × MerkleTree Byte
  | tree, 0 => (.error .DepthTooSmall, tree)
  | .Leaf hash, _ + 1 => (.error .LeafReached, .Leaf hash)
  | .Zero _, depth + 1 => (.ok (), create K [elem] (depth + 1))
  | .Node hash left right, depth + 1 =>
    let pushed : Except MerkleTreeError Unit × MerkleTree Byte × MerkleTree Byte :=
      match left, right with
      | .Leaf _, .Leaf _ => (.error .MerkleTreeFull, left, right)
      | .Node _ _ _, .Node _ _ _ =>
        let (result, right) := pushLeaf elem right depth
        (result, left, right)
      | .Zero _, .Zero _ => (.ok (), create K [elem] depth, right)
      | .Leaf _, .Zero _ => (.ok (), left, create K [elem] depth)
      | .Node _ _ _, .Zero _ =>
        match pushLeaf elem left depth with
        | (.ok (), left) => (.ok (), left, right)
        | (.error .MerkleTreeFull, left) => (.ok (), left, create K [elem] depth)
        | (.error e, left) => (.error e, left, right)
      | _, _ => (.error .Invalid, left, right)
    match pushed with
    | (.error e, left, right) => (.error e, .Node hash left right)
    | (.ok (), left, right) => (.ok (), .Node (K.hashPair (left.hash K) (right.hash K)) left right)

/-- `left_and_right_branches`. -/
def leftAndRightBranches : MerkleTree Byte → Option (MerkleTree Byte × MerkleTree Byte)
  | .Leaf _ => none
  | .Zero 0 => none
  | .Node _ left right => some (left, right)
  | .Zero (depth + 1) => some (.Zero depth, .Zero depth)

/-- The loop of `generate_proof`, with the proof collected so far. `none` is the
panic of `unwrap`. -/
def descend (index : ℕ) : MerkleTree Byte → ℕ → List (Bytes32 Byte) →
    Option (Bytes32 Byte × List (Bytes32 Byte))
  | current_node, 0, proof => some (current_node.hash K, proof.reverse)
  | current_node, depth + 1, proof =>
    match current_node.leftAndRightBranches with
    | none => none
    | some (left, right) =>
      if index.testBit depth then descend index right depth (proof ++ [left.hash K])
      else descend index left depth (proof ++ [right.hash K])

/-- `generate_proof`. -/
def generateProof (tree : MerkleTree Byte) (index depth : ℕ) :
    Option (Bytes32 Byte × List (Bytes32 Byte)) :=
  descend K index tree depth []

/-- `is_leaf`. -/
def isLeaf : MerkleTree Byte → Bool
  | .Leaf _ => true
  | _ => false

/-- The node at which the loop of `generate_proof` ends. -/
def reached (index : ℕ) : MerkleTree Byte → ℕ → Option (MerkleTree Byte)
  | current_node, 0 => some current_node
  | current_node, depth + 1 =>
    match current_node.leftAndRightBranches with
    | none => none
    | some (left, right) =>
      if index.testBit depth then reached index right depth else reached index left depth

/-- `generate_proof` with its debug assertions, a failure of which is a panic. -/
def generateProofDebug (tree : MerkleTree Byte) (index depth : ℕ) :
    Option (Bytes32 Byte × List (Bytes32 Byte)) :=
  match generateProof K tree index depth, reached index tree depth with
  | some (leaf, proof), some current_node =>
    if proof.length = depth ∧ current_node.isLeaf then some (leaf, proof) else none
  | _, _ => none

end MerkleTree

/-- The loop of `merkle_root_from_branch` from level `i` on. -/
def climbBranch (index : ℕ) : ℕ → Bytes32 Byte → List (Bytes32 Byte) → Bytes32 Byte
  | _, current, [] => current
  | i, current, next :: branch =>
    if index.testBit i then climbBranch index (i + 1) (K.hashPair next current) branch
    else climbBranch index (i + 1) (K.hashPair current next) branch

/-- `merkle_root_from_branch`. `none` is the failed assertion on the length. -/
def merkleRootFromBranch (leaf : Bytes32 Byte) (branch : List (Bytes32 Byte))
    (depth index : ℕ) : Option (Bytes32 Byte) :=
  if branch.length = depth then some (climbBranch K index 0 leaf branch) else none

/-- `Proof::root`. The path of a proof has the asserted length. -/
def Proof.root (proof : Proof Byte) : Bytes32 Byte :=
  climbBranch K proof.index 0 proof.leaf proof.path.toList

end Definitions

variable {K : Crypto Byte} {leaves : List (Bytes32 Byte)} {elem : Bytes32 Byte} {depth index : ℕ}

namespace MerkleTree

/-! ### Trees made from lists -/

@[simp] theorem create_nil (depth : ℕ) : create K [] depth = .Zero depth := by
  cases depth with
  | zero => rfl
  | succ depth => rfl

/-- A tree of positive depth over some leaves has two subtrees, also when all
leaves fit into the left one. -/
theorem create_succ (hne : leaves ≠ []) :
    create K leaves (depth + 1) =
      .Node (K.hashPair ((create K (leaves.take (2 ^ depth)) depth).hash K)
          ((create K (leaves.drop (2 ^ depth)) depth).hash K))
        (create K (leaves.take (2 ^ depth)) depth) (create K (leaves.drop (2 ^ depth)) depth) := by
  cases leaves with
  | nil => exact absurd rfl hne
  | cons leaf rest =>
    by_cases hfits : (leaf :: rest).length ≤ 2 ^ depth
    · rw [create, if_pos hfits, List.take_of_length_le hfits, List.drop_of_length_le hfits]
    · rw [create, if_neg hfits, List.splitAt_eq]

/-- The subtrees of the tree over a list are the trees over its halves. -/
theorem branches_create (leaves : List (Bytes32 Byte)) (depth : ℕ) :
    (create K leaves (depth + 1)).leftAndRightBranches =
      some (create K (leaves.take (2 ^ depth)) depth,
        create K (leaves.drop (2 ^ depth)) depth) := by
  by_cases hne : leaves = []
  · simp [hne, leftAndRightBranches]
  · rw [create_succ hne, leftAndRightBranches]

/-- The hash of a tree of positive depth is the pair hash of its subtrees. -/
theorem hash_create_succ (leaves : List (Bytes32 Byte)) (depth : ℕ) :
    (create K leaves (depth + 1)).hash K =
      K.hashPair ((create K (leaves.take (2 ^ depth)) depth).hash K)
        ((create K (leaves.drop (2 ^ depth)) depth).hash K) := by
  by_cases hne : leaves = []
  · simp [hne, hash, ZERO_HASHES, Math.MerkleTree.zeroHash]
  · rw [create_succ hne, hash]

/-- The hash of the tree over a list is the root of the zero-padded list. -/
theorem hash_create (leaves : List (Bytes32 Byte)) (depth : ℕ) :
    (create K leaves depth).hash K = Math.MerkleTree.listRoot K.hashPair 0 depth leaves := by
  induction depth generalizing leaves with
  | zero =>
    cases leaves with
    | nil => rfl
    | cons leaf rest => rfl
  | succ depth ih =>
    rw [hash_create_succ, ih, ih]
    simp only [Math.MerkleTree.listRoot, Math.MerkleTree.root]
    congr 1
    · apply Math.MerkleTree.root_congr
      intro i hi
      simp [Math.MerkleTree.padded, List.getD, List.getElem?_take_of_lt hi]
    · apply Math.MerkleTree.root_congr
      intro i hi
      simp [Math.MerkleTree.padded, List.getD]

/-! ### Pushing a leaf -/

/-- A tree over at least one leaf is a leaf at depth zero and a node above. -/
theorem create_shape (hne : leaves ≠ []) :
    (∃ leaf, create K leaves 0 = .Leaf leaf) ∧
      ∀ depth, ∃ hash left right, create K leaves (depth + 1) = .Node hash left right := by
  refine ⟨?_, fun depth => ⟨_, _, _, create_succ hne⟩⟩
  cases leaves with
  | nil => exact absurd rfl hne
  | cons leaf rest => exact ⟨leaf, rfl⟩

omit [ByteAlphabet Byte] in
/-- The halves of a longer list, as long as the new element goes into the left one. -/
theorem take_drop_concat_left (elem : Bytes32 Byte) (h : leaves.length < 2 ^ depth) :
    (leaves ++ [elem]).take (2 ^ depth) = leaves ++ [elem] ∧
      (leaves ++ [elem]).drop (2 ^ depth) = [] := by
  have hfits : (leaves ++ [elem]).length ≤ 2 ^ depth := by
    rw [List.length_append]
    exact h
  exact ⟨List.take_of_length_le hfits, List.drop_of_length_le hfits⟩

omit [ByteAlphabet Byte] in
/-- The halves of a longer list, once the left one is full. -/
theorem take_drop_concat_right (elem : Bytes32 Byte) (h : 2 ^ depth ≤ leaves.length) :
    (leaves ++ [elem]).take (2 ^ depth) = leaves.take (2 ^ depth) ∧
      (leaves ++ [elem]).drop (2 ^ depth) = leaves.drop (2 ^ depth) ++ [elem] := by
  refine ⟨List.take_append_of_le_length h, ?_⟩
  rw [List.drop_append_of_le_length h]

section Node

variable {hash : Bytes32 Byte} {left left' right : MerkleTree Byte} {zeroDepth : ℕ}

/-- The left subtree takes the leaf while it has room. -/
theorem pushLeaf_left (hleft : ∃ hash l r, left = .Node hash l r)
    (hpush : pushLeaf K elem left depth = (.ok (), left')) :
    pushLeaf K elem (.Node hash left (.Zero zeroDepth)) (depth + 1) =
      (.ok (),
        .Node (K.hashPair (left'.hash K) (ZERO_HASHES K zeroDepth)) left' (.Zero zeroDepth)) := by
  obtain ⟨hash', l, r, rfl⟩ := hleft
  simp only [pushLeaf, hpush, MerkleTree.hash]

/-- The first leaf of the right subtree is the one that the left refuses. -/
theorem pushLeaf_turn (hleft : ∃ hash l r, left = .Node hash l r)
    (hpush : pushLeaf K elem left depth = (.error .MerkleTreeFull, left)) :
    pushLeaf K elem (.Node hash left (.Zero zeroDepth)) (depth + 1) =
      (.ok (), .Node (K.hashPair (left.hash K) ((create K [elem] depth).hash K)) left
        (create K [elem] depth)) := by
  obtain ⟨hash', l, r, rfl⟩ := hleft
  simp only [pushLeaf, hpush]

/-- Once the right subtree is in use, it answers. -/
theorem pushLeaf_right (hleft : ∃ hash l r, left = .Node hash l r)
    (hright : ∃ hash l r, right = .Node hash l r) :
    pushLeaf K elem (.Node hash left right) (depth + 1) =
      match pushLeaf K elem right depth with
      | (.ok (), right') =>
        (.ok (), .Node (K.hashPair (left.hash K) (right'.hash K)) left right')
      | (.error e, right') => (.error e, .Node hash left right') := by
  obtain ⟨hash₁, l₁, r₁, rfl⟩ := hleft
  obtain ⟨hash₂, l₂, r₂, rfl⟩ := hright
  rw [pushLeaf]
  rcases pushLeaf K elem (.Node hash₂ l₂ r₂) depth with ⟨result, right'⟩
  cases result with
  | error e => rfl
  | ok done => rfl

end Node

/-- **Push is rebuild.** Pushing onto the tree over a list that is not full gives
the tree over the longer list; a full tree refuses the leaf and stays as it
was. -/
theorem pushLeaf_create (elem : Bytes32 Byte) (leaves : List (Bytes32 Byte)) (depth : ℕ) :
    (leaves.length < 2 ^ (depth + 1) →
      pushLeaf K elem (create K leaves (depth + 1)) (depth + 1) =
        (.ok (), create K (leaves ++ [elem]) (depth + 1))) ∧
    (leaves.length = 2 ^ (depth + 1) →
      pushLeaf K elem (create K leaves (depth + 1)) (depth + 1) =
        (.error .MerkleTreeFull, create K leaves (depth + 1))) := by
  induction depth generalizing leaves with
  | zero =>
    match leaves with
    | [] => exact ⟨fun _ => rfl, fun h => by simp at h⟩
    | [x] => exact ⟨fun _ => rfl, fun h => by simp at h⟩
    | [x, y] => exact ⟨fun h => by simp at h, fun _ => rfl⟩
    | x :: y :: z :: rest =>
      have hlong : 2 ^ (0 + 1) < (x :: y :: z :: rest).length := by
        simp only [List.length_cons]
        omega
      exact ⟨fun h => absurd h hlong.le.not_gt, fun h => absurd h hlong.ne'⟩
  | succ depth ih =>
    have hhalf := Nat.two_pow_pos (depth + 1)
    have hsize : 2 ^ (depth + 1 + 1) = 2 ^ (depth + 1) + 2 ^ (depth + 1) := by ring
    by_cases hne : leaves = []
    · subst hne
      refine ⟨fun _ => by rw [create_nil, pushLeaf, List.nil_append], fun h => ?_⟩
      simp only [List.length_nil] at h
      omega
    have hpos : 0 < leaves.length := List.length_pos_of_ne_nil hne
    have hlen : (leaves.take (2 ^ (depth + 1))).length = min (2 ^ (depth + 1)) leaves.length :=
      List.length_take
    have hlen' : (leaves.drop (2 ^ (depth + 1))).length = leaves.length - 2 ^ (depth + 1) :=
      List.length_drop
    have htake : leaves.take (2 ^ (depth + 1)) ≠ [] := by
      apply List.ne_nil_of_length_pos
      omega
    have hleft := (create_shape (K := K) htake).2 depth
    obtain ⟨hroomLeft, hfullLeft⟩ := ih (leaves.take (2 ^ (depth + 1)))
    rw [create_succ hne, create_succ (List.append_ne_nil_of_left_ne_nil hne [elem])]
    rcases lt_trichotomy leaves.length (2 ^ (depth + 1)) with hlt | heq | hgt
    · -- the left subtree has room
      obtain ⟨hfst, hsnd⟩ := take_drop_concat_left elem hlt
      have hall : leaves.take (2 ^ (depth + 1)) = leaves := List.take_of_length_le hlt.le
      have hnone : leaves.drop (2 ^ (depth + 1)) = [] := List.drop_of_length_le hlt.le
      have hpush := hroomLeft (by omega)
      refine ⟨fun _ => ?_, fun h => by omega⟩
      rw [hfst, hsnd, hnone, create_nil, pushLeaf_left hleft hpush, hall]
      rfl
    · -- the left subtree is full and the right one empty
      obtain ⟨hfst, hsnd⟩ := take_drop_concat_right elem heq.ge
      have hnone : leaves.drop (2 ^ (depth + 1)) = [] := List.drop_of_length_le heq.le
      have hpush := hfullLeft (by omega)
      refine ⟨fun _ => ?_, fun h => by omega⟩
      rw [hfst, hsnd, hnone, create_nil, pushLeaf_turn hleft hpush]
      rfl
    · -- the right subtree is in use
      obtain ⟨hfst, hsnd⟩ := take_drop_concat_right elem hgt.le
      have hdrop : leaves.drop (2 ^ (depth + 1)) ≠ [] := by
        apply List.ne_nil_of_length_pos
        omega
      have hright := (create_shape (K := K) hdrop).2 depth
      obtain ⟨hroomRight, hfullRight⟩ := ih (leaves.drop (2 ^ (depth + 1)))
      rw [hfst, hsnd, pushLeaf_right hleft hright]
      refine ⟨fun h => ?_, fun h => ?_⟩
      · rw [hroomRight (by omega)]
      · rw [hfullRight (by omega)]

/-- A call of `push_leaf`, a tree with its depth, makes another one: into the right subtree
once it is in use, and into the left one while the right one is empty. -/
inductive PushCall : MerkleTree Byte × ℕ → MerkleTree Byte × ℕ → Prop
  | right (hash hash₁ hash₂ : Bytes32 Byte) (l₁ r₁ l₂ r₂ : MerkleTree Byte) (depth : ℕ) :
    PushCall (.Node hash (.Node hash₁ l₁ r₁) (.Node hash₂ l₂ r₂), depth + 1)
      (.Node hash₂ l₂ r₂, depth)
  | left (hash hash₁ : Bytes32 Byte) (l₁ r₁ : MerkleTree Byte) (zeroDepth depth : ℕ) :
    PushCall (.Node hash (.Node hash₁ l₁ r₁) (.Zero zeroDepth), depth + 1)
      (.Node hash₁ l₁ r₁, depth)

/-- A call on a tree made from a list that fits. -/
def Made (K : Crypto Byte) (call : MerkleTree Byte × ℕ) : Prop :=
  ∃ (leaves : List (Bytes32 Byte)) (depth : ℕ), call = (create K leaves (depth + 1), depth + 1) ∧
    leaves.length ≤ 2 ^ (depth + 1)

/-- A tree that is a node was made at a positive depth. -/
theorem made_of_node (leaves : List (Bytes32 Byte)) {call : MerkleTree Byte × ℕ}
    (hcall : call = (create K leaves depth, depth)) (hfits : leaves.length ≤ 2 ^ depth)
    (hnode : ∃ hash l r, call.1 = .Node hash l r) : Made K call := by
  obtain ⟨hash, l, r, hnode⟩ := hnode
  rw [hcall] at hnode
  cases depth with
  | zero =>
    cases leaves with
    | nil => cases hnode
    | cons leaf rest => cases hnode
  | succ depth => exact ⟨leaves, depth, hcall, hfits⟩

/-- The calls inside a call on a made tree are on made trees. -/
theorem Made.step {call call' : MerkleTree Byte × ℕ} (h : Made K call)
    (hcall : PushCall call call') : Made K call' := by
  obtain ⟨leaves, depth, rfl, hfits⟩ := h
  have hne : leaves ≠ [] := by
    rintro rfl
    rw [create_nil] at hcall
    cases hcall
  have hsize : 2 ^ (depth + 1) = 2 ^ depth + 2 ^ depth := by ring
  rw [create_succ hne] at hcall
  generalize hleft : create K (leaves.take (2 ^ depth)) depth = left at hcall
  generalize hright : create K (leaves.drop (2 ^ depth)) depth = right at hcall
  cases hcall with
  | right _ hash₁ hash₂ l₁ r₁ l₂ r₂ _ =>
    refine made_of_node (leaves.drop (2 ^ depth)) (by rw [hright]) ?_ ⟨_, _, _, rfl⟩
    rw [List.length_drop]
    omega
  | left _ hash₁ l₁ r₁ zeroDepth _ =>
    refine made_of_node (leaves.take (2 ^ depth)) (by rw [hleft]) ?_ ⟨_, _, _, rfl⟩
    exact List.length_take_le _ _

/-- A call on a made tree takes the leaf or finds the tree full. -/
theorem Made.result {call : MerkleTree Byte × ℕ} (h : Made K call) (elem : Bytes32 Byte) :
    (pushLeaf K elem call.1 call.2).1 = .ok () ∨
      (pushLeaf K elem call.1 call.2).1 = .error .MerkleTreeFull := by
  obtain ⟨leaves, depth, rfl, hfits⟩ := h
  obtain ⟨hroom, hfull⟩ := pushLeaf_create (K := K) elem leaves depth
  rcases hfits.lt_or_eq with hlt | heq
  · exact .inl (by rw [hroom hlt])
  · exact .inr (by rw [hfull heq])

/-- **The sparse tree grows as if it were built anew.** A leaf pushed onto the tree over a
list gives the tree over the longer list, a full tree refuses it and stays, and no call on
the way down ever finds a leaf, an invalid tree or no depth. -/
theorem pushLeaf_rebuilds (hdepth : 1 ≤ depth) (leaves : List (Bytes32 Byte))
    (elem : Bytes32 Byte) :
    (leaves.length < 2 ^ depth → pushLeaf K elem (create K leaves depth) depth =
      (.ok (), create K (leaves ++ [elem]) depth)) ∧
    (leaves.length = 2 ^ depth → pushLeaf K elem (create K leaves depth) depth =
      (.error .MerkleTreeFull, create K leaves depth)) ∧
    (leaves.length ≤ 2 ^ depth →
      ∀ call, Relation.ReflTransGen PushCall (create K leaves depth, depth) call →
        (pushLeaf K elem call.1 call.2).1 = .ok () ∨
          (pushLeaf K elem call.1 call.2).1 = .error .MerkleTreeFull) := by
  obtain ⟨depth, rfl⟩ := Nat.exists_eq_add_of_le' hdepth
  obtain ⟨hroom, hfull⟩ := pushLeaf_create (K := K) elem leaves depth
  refine ⟨hroom, hfull, fun hfits call hreach => ?_⟩
  have hmade : Made K call := by
    induction hreach with
    | refl => exact ⟨leaves, depth, rfl, hfits⟩
    | tail _ hcall ih => exact ih.step hcall
  exact hmade.result elem

/-- The depth of the contract, and the smallest one. -/
theorem pushLeaf_rebuilds_deep :
    let K := Crypto.withIdealHash fun _ _ => none
    pushLeaf K 0 (create K [0] 32) 32 = (.ok (), create K [0, 0] 32) ∧
      pushLeaf K 0 (create K [0, 0] 1) 1 = (.error .MerkleTreeFull, create K [0, 0] 1) := by
  intro K
  exact ⟨(pushLeaf_rebuilds (by decide) [0] 0).1 (by decide),
    (pushLeaf_rebuilds (by decide) [0, 0] 0).2.1 rfl⟩

/-! ### Proofs -/

omit [ByteAlphabet Byte] in
/-- One more sibling at the top of a branch. -/
theorem climbBranch_concat (index i : ℕ) (current next : Bytes32 Byte)
    (branch : List (Bytes32 Byte)) :
    climbBranch K index i current (branch ++ [next]) =
      if index.testBit (i + branch.length) then
        K.hashPair next (climbBranch K index i current branch)
      else K.hashPair (climbBranch K index i current branch) next := by
  induction branch generalizing i current with
  | nil => simp [climbBranch]
  | cons first rest ih =>
    have hlevel : i + 1 + rest.length = i + (rest.length + 1) := by ring
    simp only [List.cons_append, climbBranch, List.length_cons, ih, hlevel]
    split_ifs <;> rfl

/-- The descent through the tree over a list ends at the padded leaf of the index
and collects a branch that climbs back to the hash of the tree. -/
theorem descend_create (index : ℕ) (leaves : List (Bytes32 Byte)) (depth : ℕ)
    (proof : List (Bytes32 Byte)) :
    ∃ branch, descend K index (create K leaves depth) depth proof =
        some (Math.MerkleTree.padded 0 leaves (index % 2 ^ depth), branch ++ proof.reverse) ∧
      branch.length = depth ∧
      climbBranch K index 0 (Math.MerkleTree.padded 0 leaves (index % 2 ^ depth)) branch =
        (create K leaves depth).hash K := by
  induction depth generalizing leaves proof with
  | zero =>
    have hleaf : (create K leaves 0).hash K = Math.MerkleTree.padded 0 leaves (index % 2 ^ 0) := by
      rw [hash_create, pow_zero, Nat.mod_one]
      rfl
    exact ⟨[], by rw [descend, hleaf, List.nil_append], rfl, hleaf.symm⟩
  | succ depth ih =>
    have hlow : index % 2 ^ depth < 2 ^ depth := Nat.mod_lt _ (Nat.two_pow_pos depth)
    rw [hash_create_succ, descend, branches_create]
    dsimp only
    cases hbit : index.testBit depth with
    | true =>
      -- the leaf is in the right subtree, and the left one is its sibling
      obtain ⟨branch, hdescend, hlength, hclimb⟩ := ih (leaves.drop (2 ^ depth))
        (proof ++ [(create K (leaves.take (2 ^ depth)) depth).hash K])
      have hleaf : Math.MerkleTree.padded 0 (leaves.drop (2 ^ depth)) (index % 2 ^ depth) =
          Math.MerkleTree.padded 0 leaves (index % 2 ^ (depth + 1)) := by
        rw [Math.MerkleTree.mod_two_pow_succ_of_testBit hbit]
        simp [Math.MerkleTree.padded, List.getD]
      rw [hleaf] at hdescend hclimb
      refine ⟨branch ++ [(create K (leaves.take (2 ^ depth)) depth).hash K], ?_, ?_, ?_⟩
      · rw [if_pos rfl, hdescend]
        simp
      · simp [hlength]
      · rw [climbBranch_concat, Nat.zero_add, hlength, hbit, if_pos rfl, hclimb]
    | false =>
      obtain ⟨branch, hdescend, hlength, hclimb⟩ := ih (leaves.take (2 ^ depth))
        (proof ++ [(create K (leaves.drop (2 ^ depth)) depth).hash K])
      have hleaf : Math.MerkleTree.padded 0 (leaves.take (2 ^ depth)) (index % 2 ^ depth) =
          Math.MerkleTree.padded 0 leaves (index % 2 ^ (depth + 1)) := by
        rw [Math.MerkleTree.mod_two_pow_succ_of_not_testBit hbit]
        simp [Math.MerkleTree.padded, List.getD, List.getElem?_take_of_lt hlow]
      rw [hleaf] at hdescend hclimb
      refine ⟨branch ++ [(create K (leaves.drop (2 ^ depth)) depth).hash K], ?_, ?_, ?_⟩
      · rw [if_neg (by simp), hdescend]
        simp
      · simp [hlength]
      · rw [climbBranch_concat, Nat.zero_add, hlength, hbit, if_neg (by simp), hclimb]

/-- The walk to a position that the list fills ends at a leaf. -/
theorem reached_create (h : index % 2 ^ depth < leaves.length) :
    ∃ leaf, reached index (create K leaves depth) depth = some (.Leaf leaf) := by
  induction depth generalizing leaves with
  | zero =>
    have hne : leaves ≠ [] := List.ne_nil_of_length_pos (Nat.zero_lt_of_lt h)
    obtain ⟨leaf, hleaf⟩ := (create_shape (K := K) hne).1
    exact ⟨leaf, congrArg some hleaf⟩
  | succ depth ih =>
    have hlow : index % 2 ^ depth < 2 ^ depth := Nat.mod_lt _ (Nat.two_pow_pos depth)
    rw [reached, branches_create]
    dsimp only
    cases hbit : index.testBit depth with
    | true =>
      rw [Math.MerkleTree.mod_two_pow_succ_of_testBit hbit] at h
      rw [if_pos rfl]
      apply ih
      rw [List.length_drop]
      omega
    | false =>
      rw [Math.MerkleTree.mod_two_pow_succ_of_not_testBit hbit] at h
      rw [if_neg (by simp)]
      apply ih
      rw [List.length_take]
      omega

/-- **Proofs climb back.** The proof of a stored leaf is that leaf with a branch
of full length that evaluates to the hash of the tree. -/
theorem generateProof_create (hindex : index < leaves.length) (hfits : leaves.length ≤ 2 ^ depth) :
    ∃ branch, generateProof K (create K leaves depth) index depth =
        some (leaves[index], branch) ∧ branch.length = depth ∧
      climbBranch K index 0 leaves[index] branch =
        Math.MerkleTree.listRoot K.hashPair 0 depth leaves := by
  obtain ⟨branch, hdescend, hlength, hclimb⟩ := descend_create (K := K) index leaves depth []
  rw [Nat.mod_eq_of_lt (lt_of_lt_of_le hindex hfits), Math.MerkleTree.padded_of_lt hindex]
    at hdescend hclimb
  refine ⟨branch, ?_, hlength, ?_⟩
  · rw [generateProof, hdescend, List.reverse_nil, List.append_nil]
  · rw [hclimb, hash_create]

/-- The debug assertions hold of the proof of a stored leaf. -/
theorem generateProofDebug_create {branch : List (Bytes32 Byte)} {leaf : Bytes32 Byte}
    (hindex : index < leaves.length)
    (hproof : generateProof K (create K leaves depth) index depth = some (leaf, branch))
    (hlength : branch.length = depth) :
    generateProofDebug K (create K leaves depth) index depth = some (leaf, branch) := by
  have hlow : index % 2 ^ depth < leaves.length := (Nat.mod_le _ _).trans_lt hindex
  obtain ⟨last, hlast⟩ := reached_create (K := K) hlow
  rw [generateProofDebug, hproof, hlast]
  simp only [isLeaf, hlength, and_self, if_true]

end MerkleTree

end Optics.Accumulator
