/-
# Claims covered by a reserve

Holders of claims may each ask for what they hold, and on top of that a further
amount is owed. The reserve covers the claims when no finite set of holders can
ask for more than the reserve has left after paying what is owed. Every movement
of value is one of two changes: a holding and the owed amount change against each
other, or the owed amount and the reserve do.
-/

import Mathlib.Algebra.BigOperators.Group.Finset.Piecewise
import Mathlib.Algebra.Order.BigOperators.Group.Finset

namespace Optics.Math

open Finset

variable {ι : Type*}

/-- What any finite set of holders holds, together with what is owed, is at most
the reserve. -/
def Covered (holder : ι → Prop) (held : ι → ℕ) (owed reserve : ℕ) : Prop :=
  ∀ S : Finset ι, (∀ x ∈ S, holder x) → ∑ x ∈ S, held x + owed ≤ reserve

namespace Covered

variable {holder holder' : ι → Prop} {held held' : ι → ℕ} {owed owed' reserve reserve' : ℕ} {x : ι}

theorem owed_le (h : Covered holder held owed reserve) : owed ≤ reserve := by
  simpa using h ∅ (by simp)

theorem held_le (h : Covered holder held owed reserve) (hx : holder x) :
    held x + owed ≤ reserve := by
  simpa using h {x} (by simpa using hx)

/-- Nobody is owed anything and nobody holds anything. -/
theorem of_forall_eq_zero (h : ∀ x, holder x → held x = 0) : Covered holder held 0 reserve := by
  intro S hS
  rw [sum_eq_zero fun x hx => h x (hS x hx)]
  exact Nat.zero_le _

/-- Holders that hold no more than before or nothing at all, less owed, and a
larger reserve. -/
theorem mono (h : Covered holder held owed reserve)
    (hheld : ∀ x, holder' x → held' x = 0 ∨ holder x ∧ held' x ≤ held x)
    (howed : owed' ≤ owed) (hreserve : reserve ≤ reserve') :
    Covered holder' held' owed' reserve' := by
  classical
  intro S hS
  have hsum : ∑ x ∈ S, held' x ≤ ∑ x ∈ S with holder x, held x := by
    rw [sum_filter]
    refine sum_le_sum fun x hx => ?_
    rcases hheld x (hS x hx) with hzero | ⟨hholder, hle⟩
    · rw [hzero]
      exact Nat.zero_le _
    · rwa [if_pos hholder]
  calc ∑ x ∈ S, held' x + owed'
      ≤ ∑ x ∈ S with holder x, held x + owed := Nat.add_le_add hsum howed
    _ ≤ reserve := h _ fun x hx => (mem_filter.mp hx).2
    _ ≤ reserve' := hreserve

/-- The owed amount and the reserve change against each other. -/
theorem reserve_exchange (h : Covered holder held owed reserve)
    (hle : owed' + reserve ≤ owed + reserve') : Covered holder held owed' reserve' := by
  intro S hS
  have hsum := h S hS
  omega

/-- A holding and the owed amount change against each other. -/
theorem holding_exchange [DecidableEq ι] {n : ℕ} (h : Covered holder held owed reserve)
    (hx : holder x) (hle : n + owed' ≤ held x + owed) :
    Covered holder (Function.update held x n) owed' reserve := by
  intro S hS
  -- compare with the sum over the set that has `x` in it
  have hsum := h (insert x (S.erase x)) <| by
    intro y hy
    rcases mem_insert.mp hy with rfl | hy
    · exact hx
    · exact hS y (mem_of_mem_erase hy)
  rw [sum_insert (notMem_erase x S)] at hsum
  by_cases hxS : x ∈ S
  · rw [sum_update_of_mem hxS, ← erase_eq]
    omega
  · rw [sum_update_of_notMem hxS]
    rw [erase_eq_of_notMem hxS] at hsum
    omega

end Covered

end Optics.Math
