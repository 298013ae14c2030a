/-
# Edges that lead from one vertex to another

The edges of a trail from a vertex to another balance: every vertex is left as often
as it is entered, but for the two ends. Whoever uses up all the edges of a trail, one
after the other and each from where the one before led, therefore ends where the
trail ends, whatever the order.
-/

import Mathlib.Data.List.Count
import Mathlib.Data.List.Perm.Basic

namespace Optics.Math

variable {V : Type*} [DecidableEq V]

/-- The edges balance as those of a trail from `start` to `stop` do. -/
def Balanced (edges : List (V × V)) (start stop : V) : Prop :=
  ∀ x, edges.countP (fun e => e.1 = x) + (if stop = x then 1 else 0) =
    edges.countP (fun e => e.2 = x) + if start = x then 1 else 0

namespace Balanced

variable {edges edges' : List (V × V)} {start stop next : V} {e : V × V}

theorem refl (v : V) : Balanced [] v v := fun _ => rfl

/-- With no edges left the ends are the same. -/
theorem eq_of_nil (h : Balanced [] start stop) : start = stop := by
  by_contra hne
  have hstart := h start
  rw [if_neg fun heq => hne heq.symm, if_pos rfl] at hstart
  exact Nat.zero_ne_one hstart

theorem perm (h : Balanced edges start stop) (hperm : edges.Perm edges') :
    Balanced edges' start stop := fun x => by
  rw [← hperm.countP_eq, ← hperm.countP_eq]
  exact h x

/-- An edge from the start may be taken first. -/
theorem tail (h : Balanced (e :: edges) start stop) (hstart : e.1 = start) :
    Balanced edges e.2 stop := fun x => by
  have hx := h x
  subst hstart
  simp only [List.countP_cons, decide_eq_true_eq] at hx
  split_ifs at hx ⊢ <;> omega

/-- A closed trail may be started anywhere. -/
theorem loop (h : Balanced edges start start) (v : V) : Balanced edges v v := fun x => by
  rw [Nat.add_right_cancel (h x)]

/-- An edge from the stop may be added. -/
theorem concat (h : Balanced edges start stop) : Balanced (edges ++ [(stop, next)]) start next :=
    fun x => by
  have hx := h x
  simp only [List.countP_append, List.countP_cons, List.countP_nil, decide_eq_true_eq]
  split_ifs at hx ⊢ <;> omega

end Balanced

end Optics.Math
