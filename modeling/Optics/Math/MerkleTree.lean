/-
# Perfect binary hash trees

The root of a perfect tree of a given depth is read off an unbounded leaf
function, so a list of leaves is a tree once it is padded with a zero leaf. A
branch evaluation climbs from an item along sibling hashes, choosing sides by
the bits of an index of any size.

When the pair hash is injective a root fixes all its leaves, and a branch that
evaluates to a root carries the leaf and the siblings of the position given by
the low bits of the index. Nothing is assumed about the branch or the index.
-/

import Mathlib.Data.Nat.Bitwise
import Mathlib.Tactic.Ring
import Mathlib.Logic.Function.Basic

namespace Optics.Math.MerkleTree

variable {α : Type*} (hash : α → α → α) (zero : α)

/-- The root of the perfect tree of depth `d` whose leaf `i` is `leaf i`. -/
def root : ℕ → (ℕ → α) → α
  | 0, leaf => leaf 0
  | d + 1, leaf => hash (root d leaf) (root d fun i => leaf (2 ^ d + i))

/-- The root of the perfect tree of depth `d` all of whose leaves are `zero`. -/
def zeroHash : ℕ → α
  | 0 => zero
  | d + 1 => hash (zeroHash d) (zeroHash d)

/-- A list as a leaf function, padded with `zero`. -/
def padded (leaves : List α) (i : ℕ) : α := leaves.getD i zero

/-- The root of the depth-`d` tree over a zero-padded list. -/
def listRoot (d : ℕ) (leaves : List α) : α := root hash d (padded zero leaves)

/-- The value reached from `item` after climbing `d` levels: level `i` puts the
sibling `path i` on the left exactly when bit `i` of `index` is set. -/
def climb (path : ℕ → α) (index : ℕ) (item : α) : ℕ → α
  | 0 => item
  | d + 1 =>
    if index.testBit d then hash (path d) (climb path index item d)
    else hash (climb path index item d) (path d)

/-- The other half of a pair of neighbours. -/
def buddy (k : ℕ) : ℕ := if k % 2 = 1 then k - 1 else k + 1

/-- The root of the neighbour of the level-`i` subtree that holds position `n`. -/
def sibling (leaf : ℕ → α) (n i : ℕ) : α :=
  root hash i fun j => leaf (2 ^ i * buddy (n / 2 ^ i) + j)

section Padding

variable {zero}

@[simp] theorem padded_of_lt {leaves : List α} {i : ℕ} (h : i < leaves.length) :
    padded zero leaves i = leaves[i] := by
  simp [padded, List.getD, h]

@[simp] theorem padded_of_ge {leaves : List α} {i : ℕ} (h : leaves.length ≤ i) :
    padded zero leaves i = zero := by
  simp [padded, List.getD, h]

theorem padded_append_of_lt {leaves more : List α} {i : ℕ} (h : i < leaves.length) :
    padded zero (leaves ++ more) i = padded zero leaves i := by
  simp [padded, List.getD, List.getElem?_append_left h]

theorem padded_append_length (leaves : List α) (leaf : α) :
    padded zero (leaves ++ [leaf]) leaves.length = leaf := by
  simp [padded]

end Padding

section Root

variable {hash zero} {leaf other : ℕ → α} {d : ℕ}

theorem root_congr (h : ∀ i < 2 ^ d, leaf i = other i) : root hash d leaf = root hash d other := by
  induction d generalizing leaf other with
  | zero => exact h 0 (by simp)
  | succ d ih =>
    rw [root, root, ih fun i hi => h i (by rw [pow_succ]; omega),
      ih fun i hi => h (2 ^ d + i) (by rw [pow_succ]; omega)]

theorem root_const (d : ℕ) : root hash d (fun _ => zero) = zeroHash hash zero d := by
  induction d with
  | zero => rfl
  | succ d ih => rw [root, zeroHash, ih]

theorem root_eq_zeroHash (h : ∀ i < 2 ^ d, leaf i = zero) :
    root hash d leaf = zeroHash hash zero d :=
  (root_congr h).trans (root_const d)

/-- With an injective pair hash a root fixes every leaf below it. -/
theorem leaf_eq_of_root_eq (hinj : Function.Injective2 hash)
    (h : root hash d leaf = root hash d other) : ∀ i < 2 ^ d, leaf i = other i := by
  induction d generalizing leaf other with
  | zero =>
    intro i hi
    obtain rfl : i = 0 := by simpa using hi
    exact h
  | succ d ih =>
    obtain ⟨hleft, hright⟩ := hinj h
    intro i hi
    -- The two subtrees have equal roots, and each position is in one of them.
    rcases lt_or_ge i (2 ^ d) with hlt | hge
    · exact ih hleft i hlt
    · have hi' : i - 2 ^ d < 2 ^ d := by rw [pow_succ] at hi; omega
      simpa [Nat.add_sub_cancel' hge] using ih hright (i - 2 ^ d) hi'

/-- Lists of nonzero leaves that fit into the tree have different roots when
their lengths differ. -/
theorem length_eq_of_listRoot_eq {leaves others : List α} (hinj : Function.Injective2 hash)
    (hfit : leaves.length ≤ 2 ^ d) (hfit' : others.length ≤ 2 ^ d)
    (hne : zero ∉ leaves) (hne' : zero ∉ others)
    (h : listRoot hash zero d leaves = listRoot hash zero d others) :
    leaves.length = others.length := by
  have hleaf := leaf_eq_of_root_eq hinj h
  rcases lt_trichotomy leaves.length others.length with hlt | heq | hgt
  -- the longer list has a leaf where the shorter one is padded with zero
  · have hpos := hleaf leaves.length (by omega)
    rw [padded_of_ge le_rfl, padded_of_lt hlt] at hpos
    exact absurd (hpos ▸ List.getElem_mem hlt) hne'
  · exact heq
  · have hpos := hleaf others.length (by omega)
    rw [padded_of_lt hgt, padded_of_ge le_rfl] at hpos
    exact absurd (hpos ▸ List.getElem_mem hgt) hne

/-- A tree of positive depth over an injective hash that never gives `zero` has
a root other than `zero`. -/
theorem listRoot_ne_zero (hne : ∀ a b, hash a b ≠ zero) (leaves : List α) :
    listRoot hash zero (d + 1) leaves ≠ zero := hne _ _

end Root

section Climb

variable {hash zero} {leaf : ℕ → α} {path : ℕ → α} {index : ℕ} {item : α} {d : ℕ}

theorem mod_two_pow_succ_of_testBit (h : index.testBit d = true) :
    index % 2 ^ (d + 1) = 2 ^ d + index % 2 ^ d := by
  rw [Nat.mod_pow_succ, ← Nat.toNat_testBit, h]
  simp [Nat.add_comm]

theorem mod_two_pow_succ_of_not_testBit (h : index.testBit d = false) :
    index % 2 ^ (d + 1) = index % 2 ^ d := by
  rw [Nat.mod_pow_succ, ← Nat.toNat_testBit, h]
  simp

/-- Below the top level, adding the top bit moves a neighbour by a whole half. -/
theorem buddy_add_two_pow {n i : ℕ} (hi : i < d) :
    2 ^ i * buddy ((2 ^ d + n) / 2 ^ i) = 2 ^ d + 2 ^ i * buddy (n / 2 ^ i) := by
  obtain ⟨k, rfl⟩ := Nat.exists_eq_add_of_lt hi
  have hsplit : 2 ^ (i + k + 1) = 2 ^ i * (2 * 2 ^ k) := by ring
  have hbuddy : buddy (2 * 2 ^ k + n / 2 ^ i) = 2 * 2 ^ k + buddy (n / 2 ^ i) := by
    generalize 2 ^ k = half, n / 2 ^ i = m
    unfold buddy
    split_ifs <;> omega
  rw [hsplit, Nat.mul_add_div (Nat.two_pow_pos i), hbuddy, Nat.mul_add]

theorem sibling_add_two_pow {n i : ℕ} (hi : i < d) :
    sibling hash leaf (2 ^ d + n) i = sibling hash (fun j => leaf (2 ^ d + j)) n i := by
  simp only [sibling, buddy_add_two_pow hi, Nat.add_assoc]

/-- At the top level the neighbour of a position in the left half is the right
half. -/
theorem sibling_top_of_lt {n : ℕ} (hn : n < 2 ^ d) :
    sibling hash leaf n d = root hash d fun j => leaf (2 ^ d + j) := by
  simp [sibling, buddy, Nat.div_eq_of_lt hn]

/-- At the top level the neighbour of a position in the right half is the left
half. -/
theorem sibling_top_of_ge {n : ℕ} (hn : n < 2 ^ d) :
    sibling hash leaf (2 ^ d + n) d = root hash d leaf := by
  have hdiv : (2 ^ d + n) / 2 ^ d = 1 := by
    rw [Nat.add_div_left _ (Nat.two_pow_pos d), Nat.div_eq_of_lt hn]
  simp [sibling, buddy, hdiv]

/-- **Branch soundness.** A branch that climbs to a root started at the leaf
whose position is given by the low bits of the index, and each of its siblings
is the sibling subtree of that position. -/
theorem climb_sound (hinj : Function.Injective2 hash)
    (h : climb hash path index item d = root hash d leaf) :
    item = leaf (index % 2 ^ d) ∧
      ∀ i < d, path i = sibling hash leaf (index % 2 ^ d) i := by
  induction d generalizing leaf with
  | zero => exact ⟨by simpa [climb, root, Nat.mod_one] using h, by simp⟩
  | succ d ih =>
    have hlow : index % 2 ^ d < 2 ^ d := Nat.mod_lt _ (Nat.two_pow_pos d)
    rw [climb, root] at h
    cases hbit : index.testBit d with
    -- The top bit says in which half the position is; the other half is the
    -- last sibling.
    | true =>
      rw [hbit, if_pos rfl] at h
      obtain ⟨htop, hrest⟩ := hinj h
      obtain ⟨hitem, hpath⟩ := ih hrest
      rw [mod_two_pow_succ_of_testBit hbit]
      refine ⟨hitem, fun i hi => ?_⟩
      rcases Nat.lt_succ_iff_lt_or_eq.mp hi with hlt | rfl
      · rw [sibling_add_two_pow hlt]
        exact hpath i hlt
      · rw [sibling_top_of_ge hlow]
        exact htop
    | false =>
      rw [hbit, if_neg (by simp)] at h
      obtain ⟨hrest, htop⟩ := hinj h
      obtain ⟨hitem, hpath⟩ := ih hrest
      rw [mod_two_pow_succ_of_not_testBit hbit]
      refine ⟨hitem, fun i hi => ?_⟩
      rcases Nat.lt_succ_iff_lt_or_eq.mp hi with hlt | rfl
      · exact hpath i hlt
      · rw [sibling_top_of_lt hlow]
        exact htop

/-- **Branch completeness.** Climbing along the siblings of a position from its
leaf gives the root. -/
theorem climb_complete (hpath : ∀ i < d, path i = sibling hash leaf (index % 2 ^ d) i)
    (hitem : item = leaf (index % 2 ^ d)) :
    climb hash path index item d = root hash d leaf := by
  induction d generalizing leaf with
  | zero => simpa [climb, root, Nat.mod_one] using hitem
  | succ d ih =>
    have hlow : index % 2 ^ d < 2 ^ d := Nat.mod_lt _ (Nat.two_pow_pos d)
    rw [climb, root]
    cases hbit : index.testBit d with
    | true =>
      rw [mod_two_pow_succ_of_testBit hbit] at hpath hitem
      rw [if_pos rfl, hpath d (by simp), sibling_top_of_ge hlow]
      congr 1
      exact ih (fun i hi => by rw [hpath i (by omega), sibling_add_two_pow hi]) hitem
    | false =>
      rw [mod_two_pow_succ_of_not_testBit hbit] at hpath hitem
      rw [if_neg (by simp), hpath d (by simp), sibling_top_of_lt hlow]
      congr 1
      exact ih (fun i hi => hpath i (by omega)) hitem

end Climb

end Optics.Math.MerkleTree
