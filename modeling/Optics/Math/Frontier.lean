/-
# The frontier of a growing hash tree

A tree that only grows on the right can be kept as one node per level. The slot
of level `i` matters only while bit `i` of the leaf count is set, and then it
holds the complete subtree that this bit stands for. Adding a leaf is a binary
increment: complete subtrees are merged along the carry, and the carry comes to
rest in one slot. The root is read back by climbing once more, with a zero
subtree wherever the bit is clear.

Slots whose bit is clear are never constrained, so the result does not depend
on what they hold.
-/

import Optics.Math.MerkleTree

namespace Optics.Math.MerkleTree

variable {α : Type*} (hash : α → α → α) (zero : α)

/-- The carry of a binary increment: starting at level `i`, `node` is merged
with the stored subtrees until the count has a set bit, and is stored there.
`none` means that the levels ran out. -/
def carry : ℕ → (ℕ → α) → ℕ → ℕ → α → Option (ℕ → α)
  | 0, _, _, _, _ => none
  | levels + 1, branch, i, size, node =>
    if size % 2 = 1 then some (Function.update branch i node)
    else carry levels branch (i + 1) (size / 2) (hash (branch i) node)

/-- The node reached from the frontier after climbing `i` levels, given the zero
subtrees of each level. -/
def spine (zeroes branch : ℕ → α) (count : ℕ) : ℕ → α
  | 0 => zero
  | i + 1 =>
    if count.testBit i then hash (branch i) (spine zeroes branch count i)
    else hash (spine zeroes branch count i) (zeroes i)

/-- Every slot whose bit is set in the count holds the complete subtree that
this bit stands for. -/
def IsFrontier (leaf : ℕ → α) (count : ℕ) (branch : ℕ → α) : Prop :=
  ∀ i, count.testBit i = true →
    branch i = root hash i fun j => leaf (2 ^ (i + 1) * (count / 2 ^ (i + 1)) + j)

variable {hash zero} {leaf other : ℕ → α} {count i : ℕ} {branch : ℕ → α}

theorem two_mul_div_two_pow_succ (count i : ℕ) :
    count / 2 ^ i = 2 * (count / 2 ^ (i + 1)) + (count.testBit i).toNat := by
  rw [Nat.toNat_testBit, pow_succ, ← Nat.div_div_eq_div_mul]
  omega

/-- The complete subtree of a set bit ends where the block of the next lower
level starts. -/
theorem block_of_testBit (h : count.testBit i = true) :
    2 ^ i * (count / 2 ^ i) = 2 ^ (i + 1) * (count / 2 ^ (i + 1)) + 2 ^ i := by
  rw [two_mul_div_two_pow_succ, h, pow_succ, Bool.toNat_true]
  ring

theorem block_of_not_testBit (h : count.testBit i = false) :
    2 ^ i * (count / 2 ^ i) = 2 ^ (i + 1) * (count / 2 ^ (i + 1)) := by
  rw [two_mul_div_two_pow_succ, h, pow_succ, Bool.toNat_false]
  ring

/-- A frontier depends only on the leaves it counts. -/
theorem IsFrontier.congr (h : IsFrontier hash leaf count branch)
    (hleaf : ∀ j < count, leaf j = other j) : IsFrontier hash other count branch := by
  intro i hbit
  rw [h i hbit]
  refine root_congr fun j hj => hleaf _ ?_
  have hblock := block_of_testBit hbit
  have hle := Nat.mul_div_le count (2 ^ i)
  omega

theorem isFrontier_zero : IsFrontier hash leaf 0 branch := by
  intro i hbit
  simp at hbit

/-- The quotients of a count and its successor by a power of two agree unless
the successor is a multiple of it. -/
theorem succ_div_two_pow {size : ℕ} (hsize : count + 1 = 2 ^ i * size) (hodd : size % 2 = 1)
    {l : ℕ} (hl : i < l) : (count + 1) / 2 ^ l = count / 2 ^ l := by
  refine Nat.succ_div_of_not_dvd fun hdvd => ?_
  have hdvd' : 2 ^ i * 2 ∣ 2 ^ i * size := by
    rw [← pow_succ, ← hsize]
    exact (pow_dvd_pow 2 hl).trans hdvd
  have := Nat.dvd_of_mul_dvd_mul_left (Nat.two_pow_pos i) hdvd'
  omega

/-- Bits below the level at which the carry stops are clear. -/
theorem not_testBit_of_mul {size l : ℕ} (hl : l < i) : (2 ^ i * size).testBit l = false := by
  rw [Nat.testBit_two_pow_mul]
  simp [hl]

/-- Storing the carry at the lowest set bit gives the frontier of the successor. -/
theorem isFrontier_update {size : ℕ} (h : IsFrontier hash leaf count branch)
    (hsize : count + 1 = 2 ^ i * size) (hodd : size % 2 = 1) :
    IsFrontier hash leaf (count + 1) (Function.update branch i
      (root hash i fun j => leaf (count + 1 - 2 ^ i + j))) := by
  intro l hbit
  rcases lt_trichotomy l i with hlt | rfl | hgt
  -- below the level the successor has no set bits, so nothing is asked
  · rw [hsize, not_testBit_of_mul hlt] at hbit
    exact absurd hbit (by simp)
  · have hblock := block_of_testBit hbit
    rw [Nat.mul_div_cancel' (hsize ▸ Nat.dvd_mul_right _ _)] at hblock
    rw [Function.update_self]
    congr! 3
    omega
  -- above it the carry changes neither the bits nor the blocks
  · have hquot := succ_div_two_pow hsize hodd hgt
    have hquot' := succ_div_two_pow hsize hodd (Nat.lt_succ_of_lt hgt)
    have hbit' : count.testBit l = true := by
      rw [← hbit, Nat.testBit_eq_decide_div_mod_eq, Nat.testBit_eq_decide_div_mod_eq, hquot]
    rw [Function.update_of_ne hgt.ne', h l hbit', hquot']

/-- One step of the carry: the stored subtree and the carried one are the two
halves of the next larger block. -/
theorem hash_slot_carry {size : ℕ} (h : IsFrontier hash leaf count branch)
    (hsize : count + 1 = 2 ^ i * size) (heven : size % 2 = 0) :
    hash (branch i) (root hash i fun j => leaf (count + 1 - 2 ^ i + j)) =
      root hash (i + 1) fun j => leaf (count + 1 - 2 ^ (i + 1) + j) := by
  obtain ⟨half, rfl⟩ : ∃ half, size = 2 * half := ⟨size / 2, by omega⟩
  have hhalf : 0 < half := Nat.pos_of_ne_zero fun hz => by simp [hz] at hsize
  have hpos := Nat.two_pow_pos i
  have hcount : count + 1 = 2 ^ (i + 1) * half := by rw [hsize, pow_succ]; ring
  have hquot : count / 2 ^ (i + 1) = half - 1 := by
    have hlt : 2 ^ (i + 1) * (half - 1) + 2 ^ (i + 1) = count + 1 := by
      rw [hcount, ← Nat.mul_succ, Nat.succ_eq_add_one, Nat.sub_add_cancel hhalf]
    rw [Nat.div_eq_iff (Nat.two_pow_pos _), Nat.mul_comm]
    have := Nat.two_pow_pos (i + 1)
    omega
  have hquot' : count / 2 ^ i = 2 * (half - 1) + 1 := by
    have hlt : 2 ^ i * (2 * (half - 1) + 1) + 2 ^ i = count + 1 := by
      rw [hsize, ← Nat.mul_succ]
      congr 1
      omega
    rw [Nat.div_eq_iff hpos, Nat.mul_comm]
    omega
  have hbit : count.testBit i = true := by
    rw [Nat.testBit_eq_decide_div_mod_eq, hquot']
    simp
  have hstart : 2 ^ (i + 1) * (count / 2 ^ (i + 1)) = count + 1 - 2 ^ (i + 1) := by
    rw [hquot, Nat.mul_sub_one, hcount]
  have hle : 2 ^ (i + 1) ≤ count + 1 := by
    rw [hcount]
    exact Nat.le_mul_of_pos_right _ hhalf
  rw [root, h i hbit, hstart]
  congr! 4
  rw [pow_succ] at hle ⊢
  omega

/-- The carry loop, entered at level `i` with the subtree that ends at the new
leaf, reaches the frontier of the successor before the levels run out. -/
theorem carry_from {levels size : ℕ} (h : IsFrontier hash leaf count branch)
    (hsize : count + 1 = 2 ^ i * size) (hfit : count + 1 < 2 ^ (i + levels)) :
    ∃ branch', carry hash levels branch i size
        (root hash i fun j => leaf (count + 1 - 2 ^ i + j)) = some branch' ∧
      IsFrontier hash leaf (count + 1) branch' := by
  induction levels generalizing i size with
  | zero =>
    -- out of levels, the successor would not have fitted
    have hzero : size ≠ 0 := fun hz => by simp [hz] at hsize
    have := Nat.le_mul_of_pos_right (2 ^ i) (Nat.pos_of_ne_zero hzero)
    simp only [Nat.add_zero] at hfit
    omega
  | succ levels ih =>
    rw [carry]
    rcases Nat.mod_two_eq_zero_or_one size with heven | hodd
    -- an even size carries the joined subtree one level up
    · rw [if_neg (by omega), hash_slot_carry h hsize heven]
      refine ih ?_ (by rwa [Nat.add_right_comm, Nat.add_assoc])
      rw [hsize, pow_succ, Nat.mul_assoc, Nat.mul_div_cancel' (Nat.dvd_of_mod_eq_zero heven)]
    · rw [if_pos hodd]
      exact ⟨_, rfl, isFrontier_update h hsize hodd⟩

/-- **Append.** As long as the successor fits, the carry loop started at the
bottom with the new leaf succeeds and keeps the frontier. -/
theorem carry_isFrontier {levels : ℕ} (h : IsFrontier hash leaf count branch)
    (hfit : count + 1 < 2 ^ levels) :
    ∃ branch', carry hash levels branch 0 (count + 1) (leaf count) = some branch' ∧
      IsFrontier hash leaf (count + 1) branch' := by
  have hsize : count + 1 = 2 ^ 0 * (count + 1) := by simp
  have hroom : count + 1 < 2 ^ (0 + levels) := by simpa using hfit
  simpa [root] using carry_from h hsize hroom

/-- Climbing the frontier gives the block of each level that holds the first
free position, provided the positions from there on are zero. -/
theorem spine_eq_root {zeroes : ℕ → α} (h : IsFrontier hash leaf count branch)
    (hzero : ∀ j ≥ count, leaf j = zero) (hzeroes : ∀ l < i, zeroes l = zeroHash hash zero l) :
    spine hash zero zeroes branch count i =
      root hash i fun j => leaf (2 ^ i * (count / 2 ^ i) + j) := by
  induction i with
  | zero => simp [spine, root, hzero]
  | succ i ih =>
    have ih := ih fun l hl => hzeroes l (by omega)
    rw [spine, root, ih]
    cases hbit : count.testBit i with
    | true =>
      rw [if_pos rfl, h i hbit, block_of_testBit hbit]
      simp only [Nat.add_assoc]
    | false =>
      have hblock := block_of_not_testBit hbit
      rw [if_neg (by simp), hblock, hzeroes i (by omega)]
      congr 1
      refine (root_eq_zeroHash fun j _ => hzero _ ?_).symm
      have hlt := Nat.lt_mul_div_succ count (Nat.two_pow_pos i)
      rw [Nat.mul_add, hblock] at hlt
      omega

/-- **Root.** The frontier of a list that fits reads back the root of the whole
zero-padded tree. -/
theorem spine_eq_listRoot {zeroes : ℕ → α} {leaves : List α} {d : ℕ}
    (h : IsFrontier hash (padded zero leaves) leaves.length branch)
    (hfit : leaves.length < 2 ^ d) (hzeroes : ∀ l < d, zeroes l = zeroHash hash zero l) :
    spine hash zero zeroes branch leaves.length d = listRoot hash zero d leaves := by
  rw [spine_eq_root h (fun j hj => padded_of_ge hj) hzeroes, Nat.div_eq_of_lt hfit]
  simp [listRoot]

/-- Appending a leaf to a list that still fits keeps the frontier of the list. -/
theorem carry_append {leaves : List α} {levels : ℕ} (item : α)
    (h : IsFrontier hash (padded zero leaves) leaves.length branch)
    (hfit : leaves.length + 1 < 2 ^ levels) :
    ∃ branch', carry hash levels branch 0 (leaves.length + 1) item = some branch' ∧
      IsFrontier hash (padded zero (leaves ++ [item])) (leaves ++ [item]).length branch' := by
  have hgrown : IsFrontier hash (padded zero (leaves ++ [item])) leaves.length branch :=
    h.congr fun j hj => (padded_append_of_lt hj).symm
  have happend := carry_isFrontier hgrown hfit
  simpa only [padded_append_length, List.length_append, List.length_singleton] using happend

end Optics.Math.MerkleTree
