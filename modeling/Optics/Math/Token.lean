/-
# A token that is held or on its way

Parties hold a token or not, and messages carry it or not; the total counts both.
A party that takes a message and sends others changes the total by what it gains
and sends on less what it had and took. While the total is at most one, nobody holds
the token beside its holder, and nobody holds it while a message carries it.
-/

import Mathlib.Algebra.BigOperators.Group.Finset.Piecewise
import Mathlib.Algebra.GroupWithZero.Nat
import Mathlib.Algebra.Order.BigOperators.Group.Finset

namespace Optics.Math.Token

open Finset

variable {ι σ μ : Type*} (members : Finset ι) (held : σ → ℕ) (carried : μ → ℕ)

/-- What the parties hold and the messages carry. -/
def total (f : ι → σ) (messages : List μ) : ℕ :=
  ∑ i ∈ members, held (f i) + (messages.map carried).sum

variable {members held carried} {f : ι → σ} {i j : ι} {x : σ} {before after sent : List μ} {m : μ}

/-- A party changes its state and sends messages. -/
theorem total_send [DecidableEq ι] (hi : i ∈ members) :
    total members held carried (Function.update f i x) (before ++ sent) + held (f i) =
      total members held carried f before + held x + (sent.map carried).sum := by
  have hsum : ∑ j ∈ members, held (Function.update f i x j) =
      held x + ∑ j ∈ members \ {i}, held (f j) := by
    have hcomp (j : ι) : held (Function.update f i x j) =
        Function.update (fun j => held (f j)) i (held x) j := by
      by_cases h : j = i
      · subst h
        rw [Function.update_self, Function.update_self]
      · rw [Function.update_of_ne h, Function.update_of_ne h]
    rw [sum_congr rfl fun j _ => hcomp j, sum_update_of_mem hi]
  have hold : ∑ j ∈ members, held (f j) = held (f i) + ∑ j ∈ members \ {i}, held (f j) := by
    rw [← sum_sdiff (singleton_subset_iff.mpr hi), sum_singleton, Nat.add_comm]
  simp only [total, List.map_append, List.sum_append]
  omega

/-- A message is lost. -/
theorem total_drop : total members held carried f (before ++ m :: after) =
    total members held carried f (before ++ after) + carried m := by
  simp only [total, List.map_append, List.map_cons, List.sum_append, List.sum_cons]
  omega

/-- Two parties do not hold the token at once. -/
theorem eq_of_held {messages : List μ} (h : total members held carried f messages ≤ 1)
    (hi : i ∈ members) (hj : j ∈ members) (hheld : held (f i) ≠ 0) (hheld' : held (f j) ≠ 0) :
    i = j := by
  classical
  by_contra hne
  have hpair : ∑ k ∈ {i, j}, held (f k) ≤ ∑ k ∈ members, held (f k) :=
    sum_le_sum_of_subset (insert_subset hi (singleton_subset_iff.mpr hj))
  rw [sum_pair hne] at hpair
  unfold total at h
  omega

/-- A message does not carry the token while a party holds it. -/
theorem carried_eq_zero {messages : List μ} (h : total members held carried f messages ≤ 1)
    (hi : i ∈ members) (hheld : held (f i) ≠ 0) (hm : m ∈ messages) : carried m = 0 := by
  have hone : held (f i) ≤ ∑ k ∈ members, held (f k) :=
    single_le_sum (f := fun j => held (f j)) (fun _ _ => Nat.zero_le _) hi
  have hcarried : carried m ≤ (messages.map carried).sum :=
    List.single_le_sum (fun _ _ => Nat.zero_le _) _ (List.mem_map_of_mem hm)
  unfold total at h
  omega

end Optics.Math.Token
