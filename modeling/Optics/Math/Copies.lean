/-
# Two copies of a value behind pointers to each other

Nodes of two sides hold a pointer to the other side and a copy of a value. A pair
is linked when both point to each other, and the copies agree when every linked
pair holds the same value. Whether a write at one node keeps them so is decided
by the node it points to. A value passed on from one side to the other is written
there first, and until it has arrived the one pair in question is left out.
-/

import Mathlib.Logic.Function.Basic
import Mathlib.Tactic.Common

namespace Optics.Math

variable {α β ν : Type*}

/-- What the nodes of the two sides hold: a node of the other side and a value. -/
@[ext] structure Copies (α β ν : Type*) where
  left : α → Option (β × ν)
  right : β → Option (α × ν)

namespace Copies

/-- The copies of a pair whose nodes point to each other are the same. -/
def Agree (c : Copies α β ν) : Prop :=
  ∀ {a b x y}, c.left a = some (b, x) → c.right b = some (a, y) → x = y

/-- The same copies with the sides exchanged. -/
def swap (c : Copies α β ν) : Copies β α ν := ⟨c.right, c.left⟩

/-- A value is under way from a right node to a left one: the right node holds
nothing else, and every other linked pair agrees. -/
structure Passing (c : Copies α β ν) (a : α) (b : β) (y : ν) : Prop where
  holds : ∀ p, c.right b = some p → p = (a, y)
  others : ∀ {a' b' x y'}, a' ≠ a → c.left a' = some (b', x) → c.right b' = some (a', y') → x = y'

variable {c : Copies α β ν} {a : α} {b : β} {x y : ν}

theorem agree_swap : c.swap.Agree ↔ c.Agree :=
  ⟨fun h _ _ _ _ hleft hright => (h hright hleft).symm,
    fun h _ _ _ _ hleft hright => (h hright hleft).symm⟩

theorem Agree.passing (h : c.Agree) (hb : c.right b = none) : c.Passing a b y where
  holds p hp := by rw [hb] at hp; cases hp
  others _ hleft hright := h hleft hright

/-- A value cannot be under way to where no node is. -/
theorem Passing.agree (h : c.Passing a b y) (ha : c.left a = none) : c.Agree := by
  intro a' b' x y' hleft hright
  refine h.others ?_ hleft hright
  rintro rfl
  rw [ha] at hleft
  cases hleft

variable [DecidableEq α] [DecidableEq β]

/-- A left node takes a new pointer and a new value. -/
def setLeft (c : Copies α β ν) (a : α) (p : β × ν) : Copies α β ν :=
  { c with left := Function.update c.left a (some p) }

/-- A right node takes a new pointer and a new value. -/
def setRight (c : Copies α β ν) (b : β) (p : α × ν) : Copies α β ν :=
  { c with right := Function.update c.right b (some p) }

omit [DecidableEq β] in
/-- **A write on the left.** Only the node it points to can disagree with it. -/
theorem agree_setLeft_iff (h : c.Agree) :
    (c.setLeft a (b, x)).Agree ↔ ∀ y, c.right b = some (a, y) → x = y := by
  constructor
  · intro hset y hright
    exact hset (Function.update_self ..) hright
  · intro hnew a' b' x' y' hleft hright
    change Function.update c.left a _ a' = _ at hleft
    rcases eq_or_ne a' a with rfl | hne
    · rw [Function.update_self] at hleft
      obtain ⟨rfl, rfl⟩ := Prod.mk.inj (Option.some.inj hleft)
      exact hnew y' hright
    · rw [Function.update_of_ne hne] at hleft
      exact h hleft hright

omit [DecidableEq α] in
/-- **A write on the right.** The sides are alike, so the rule is the same. -/
theorem agree_setRight_iff (h : c.Agree) :
    (c.setRight b (a, y)).Agree ↔ ∀ x, c.left a = some (b, x) → x = y := by
  have hset : (c.setRight b (a, y)).swap = c.swap.setLeft b (a, y) := rfl
  rw [← agree_swap, hset, agree_setLeft_iff (agree_swap.mpr h)]
  exact forall₂_congr fun x _ => eq_comm

omit [DecidableEq α] in
/-- A right node sends its new value to the node it points to. -/
theorem Agree.passing_setRight (h : c.Agree) : (c.setRight b (a, y)).Passing a b y where
  holds p hp := by
    change Function.update c.right b _ b = _ at hp
    rw [Function.update_self] at hp
    exact (Option.some.inj hp).symm
  others {a' b' x y'} hne hleft hright := by
    change Function.update c.right b _ b' = _ at hright
    rcases eq_or_ne b' b with rfl | hb
    -- the sender points to the receiver, which is another node
    · rw [Function.update_self] at hright
      exact absurd (Prod.mk.inj (Option.some.inj hright)).1.symm hne
    · rw [Function.update_of_ne hb] at hright
      exact h hleft hright

omit [DecidableEq β] in
/-- The value arrives at a node that points back to its sender. -/
theorem Passing.agree_setLeft (h : c.Passing a b y) : (c.setLeft a (b, y)).Agree := by
  intro a' b' x' y' hleft hright
  change Function.update c.left a _ a' = _ at hleft
  rcases eq_or_ne a' a with rfl | hne
  · rw [Function.update_self] at hleft
    obtain ⟨rfl, rfl⟩ := Prod.mk.inj (Option.some.inj hleft)
    exact (Prod.mk.inj (h.holds _ hright)).2.symm
  · rw [Function.update_of_ne hne] at hleft
    exact h.others hne hleft hright

end Copies

end Optics.Math
