/-
# Logs

A log lists what happened, oldest entry first. The last entry that answers a question
is what a slot holds that every such entry overwrites. An entry is grounded if the log
before it gives a reason for it, and a log grows without losing the reasons of its old
entries.
-/

import Mathlib.Data.List.Induction

namespace Optics.Math.Log

variable {α β : Type*} {f : α → Option β} {log more : List α} {e : α}

/-! ### The last answer -/

/-- The last answer in a log. -/
def last (f : α → Option β) (log : List α) : Option β := (log.filterMap f).getLast?

@[simp] theorem last_nil : last f [] = none := rfl

theorem last_append : last f (log ++ more) = (last f more).or (last f log) := by
  rw [last, List.filterMap_append, List.getLast?_append]
  rfl

theorem last_concat : last f (log ++ [e]) = (f e).or (last f log) := by
  rw [last_append]
  cases h : f e with
  | none => simp [last, h]
  | some b => simp [last, h]

/-- Entries that do not answer change nothing. -/
theorem last_append_of_none (h : ∀ e ∈ more, f e = none) : last f (log ++ more) = last f log := by
  rw [last_append, last, List.filterMap_eq_nil_iff.mpr h]
  rfl

theorem last_eq_none (h : ∀ e ∈ log, f e = none) : last f log = none := by
  rw [last, List.filterMap_eq_nil_iff.mpr h]
  rfl

/-- Entries that all answer alike leave that answer. -/
theorem last_eq_some {b : β} (hb : ∃ e ∈ log, f e = some b)
    (h : ∀ e ∈ log, ∀ c, f e = some c → c = b) : last f log = some b := by
  obtain ⟨e, he, hanswer⟩ := hb
  have hmem : b ∈ log.filterMap f := List.mem_filterMap.mpr ⟨e, he, hanswer⟩
  rw [last, List.getLast?_eq_some_getLast (List.ne_nil_of_mem hmem), Option.some_inj]
  obtain ⟨e', he', hlast⟩ := List.mem_filterMap.mp (List.getLast_mem (List.ne_nil_of_mem hmem))
  exact h e' he' _ hlast

theorem mem_of_last {b : β} (h : last f log = some b) : ∃ e ∈ log, f e = some b :=
  List.mem_filterMap.mp (List.mem_of_getLast? h)

/-- Where the last answer was given, and that none was given after it. -/
theorem split_of_last {b : β} (h : last f log = some b) :
    ∃ front e back, log = front ++ e :: back ∧ f e = some b ∧ ∀ e' ∈ back, f e' = none := by
  induction log using List.reverseRecOn with
  | nil => cases h
  | append_singleton log e ih =>
    rw [last_concat] at h
    cases he : f e with
    | some c =>
      rw [he] at h
      exact ⟨log, e, [], rfl, he.trans h, fun e' he' => by cases he'⟩
    | none =>
      rw [he, Option.none_or] at h
      obtain ⟨front, e', back, rfl, hanswer, hnone⟩ := ih h
      refine ⟨front, e', back ++ [e], by simp, hanswer, fun x hx => ?_⟩
      rcases List.mem_append.mp hx with hmem | hmem
      · exact hnone x hmem
      · exact List.mem_singleton.mp hmem ▸ he

/-- What is answered after an entry comes from there, if anything is. -/
theorem last_append_cons {front back : List α} {b : β} (h : f e = some b) :
    last f (front ++ e :: back) = (last f back).or (some b) := by
  rw [List.append_cons, last_append, last_concat, h]
  rfl

/-! ### Entries with reasons -/

/-- Every entry has its reason in the part of the log before it. -/
def Grounded (R : List α → α → Prop) (log : List α) : Prop :=
  ∀ front e back, log = front ++ e :: back → R front e

namespace Grounded

variable {R : List α → α → Prop}

theorem nil : Grounded R [] := fun front e back h => by simp at h

theorem concat (h : Grounded R log) (he : R log e) : Grounded R (log ++ [e]) := by
  intro front e' back hsplit
  rcases List.eq_nil_or_concat back with rfl | ⟨back, last, rfl⟩
  · obtain ⟨rfl, hlast⟩ := List.append_inj' hsplit rfl
    exact List.singleton_inj.mp hlast ▸ he
  · have hfront : log ++ [e] = (front ++ e' :: back) ++ [last] := by simpa using hsplit
    exact h front e' back (List.append_inj' hfront rfl).1

/-- Entries that need no reason may be added. -/
theorem append_of_forall (h : Grounded R log) (hmore : ∀ e ∈ more, ∀ front, R front e) :
    Grounded R (log ++ more) := by
  induction more using List.reverseRecOn with
  | nil => rwa [List.append_nil]
  | append_singleton more e ih =>
    rw [← List.append_assoc]
    refine concat (ih fun e he => hmore e (List.mem_append_left _ he)) ?_
    exact hmore e (List.mem_append_right _ (List.mem_singleton_self e)) _

theorem of_forall (h : ∀ e ∈ log, ∀ front, R front e) : Grounded R log :=
  nil.append_of_forall h

theorem imp {R' : List α → α → Prop} (h : Grounded R log)
    (himp : ∀ front e back, log = front ++ e :: back → R front e → R' front e) :
    Grounded R' log :=
  fun front e back hsplit => himp front e back hsplit (h front e back hsplit)

end Grounded

end Optics.Math.Log
