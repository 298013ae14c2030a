/-
# Numbering by key

Every entry of a log has a key and carries how many entries had that key before it. The
entries of one key then carry the numbers from zero on, and no two entries agree on both
as long as the numbers in use can be told apart.
-/

import Mathlib.Data.List.Induction
import Mathlib.Data.List.Nodup
import Mathlib.Data.List.Range
import Mathlib.Data.Set.Function

namespace Optics.Math.Numbering

variable {α κ ν : Type*} [DecidableEq κ] {key : α → κ} {number : α → ν} {count : ℕ → ν}
  {log : List α} {entry : α} {k : κ}

/-! ### Uses of a key -/

/-- The number of entries with a key. -/
def uses (key : α → κ) (log : List α) (k : κ) : ℕ := log.countP fun entry => key entry = k

theorem uses_append (more : List α) : uses key (log ++ more) k = uses key log k + uses key more k :=
  List.countP_append

theorem uses_le_length : uses key log k ≤ log.length := List.countP_le_length

@[simp] theorem uses_singleton_self : uses key [entry] (key entry) = 1 := by simp [uses]

theorem uses_singleton_of_ne (h : key entry ≠ k) : uses key [entry] k = 0 := by simp [uses, h]

/-! ### Numbered logs -/

/-- Every entry carries the number of earlier entries with its key. -/
def Numbered (key : α → κ) (number : α → ν) (count : ℕ → ν) (log : List α) : Prop :=
  ∀ i entry, log[i]? = some entry → number entry = count (uses key (log.take i) (key entry))

theorem Numbered.nil : Numbered key number count [] := fun i entry h => by simp at h

theorem numbered_concat : Numbered key number count (log ++ [entry]) ↔
    Numbered key number count log ∧ number entry = count (uses key log (key entry)) := by
  constructor
  · refine fun h => ⟨fun i e hi => ?_, ?_⟩
    · have hlt := (List.getElem?_eq_some_iff.mp hi).1
      rw [h i e ((List.getElem?_append_left hlt).trans hi), List.take_append_of_le_length hlt.le]
    · rw [h _ entry List.getElem?_concat_length, List.take_left]
  · rintro ⟨hlog, hentry⟩ i e hi
    rcases Nat.lt_or_ge i log.length with hlt | hge
    · rw [List.getElem?_append_left hlt] at hi
      rw [List.take_append_of_le_length hlt.le]
      exact hlog i e hi
    · have hlast : i = log.length := by
        have hbound := (List.getElem?_eq_some_iff.mp hi).1
        rw [List.length_append, List.length_singleton] at hbound
        omega
      subst hlast
      rw [List.getElem?_concat_length] at hi
      obtain rfl := Option.some.inj hi
      rwa [List.take_left]

namespace Numbered

/-- The entries of a key carry the numbers from zero on. -/
theorem map_number (h : Numbered key number count log) (k : κ) :
    (log.filter fun entry => key entry = k).map number =
      (List.range (uses key log k)).map count := by
  induction log using List.reverseRecOn with
  | nil => rfl
  | append_singleton log entry ih =>
    -- the last entry has the next number of its key, and no other key sees it
    obtain ⟨hlog, hentry⟩ := numbered_concat.mp h
    rw [List.filter_append, List.map_append, ih hlog, uses_append]
    by_cases hk : key entry = k
    · subst hk
      rw [uses_singleton_self, List.range_succ, List.map_append, List.map_singleton, ← hentry]
      simp
    · rw [uses_singleton_of_ne hk]
      simp [hk]

theorem exists_lt_of_mem (h : Numbered key number count log) (hentry : entry ∈ log) :
    ∃ n < uses key log (key entry), number entry = count n := by
  have hmem : number entry ∈ (log.filter fun e => key e = key entry).map number :=
    List.mem_map_of_mem (List.mem_filter.mpr ⟨hentry, by simp⟩)
  rw [h.map_number] at hmem
  obtain ⟨n, hn, heq⟩ := List.mem_map.mp hmem
  exact ⟨n, List.mem_range.mp hn, heq.symm⟩

/-- **No number is used twice.** Numbers that are told apart are not repeated for a
key. -/
theorem nodup (h : Numbered key number count log)
    (hcount : ∀ k, Set.InjOn count {n | n < uses key log k}) :
    (log.map fun entry => (key entry, number entry)).Nodup := by
  induction log using List.reverseRecOn with
  | nil => exact List.nodup_nil
  | append_singleton log last ih =>
    obtain ⟨hlog, hlast⟩ := numbered_concat.mp h
    have hgrows : ∀ k, uses key log k ≤ uses key (log ++ [last]) k := fun k => by
      rw [uses_append]
      exact Nat.le_add_right _ _
    have hprior := ih hlog fun k =>
      (hcount k).mono fun n hn => lt_of_lt_of_le hn (hgrows k)
    rw [List.map_append]
    refine hprior.append (List.nodup_singleton _) ?_
    -- an earlier entry of the same key carries a smaller number
    rw [List.map_singleton, List.disjoint_singleton]
    intro hmem
    obtain ⟨entry, hentry, heq⟩ := List.mem_map.mp hmem
    obtain ⟨hkey, hnumber⟩ := Prod.mk.inj heq
    obtain ⟨n, hn, hn'⟩ := hlog.exists_lt_of_mem hentry
    have hall : uses key (log ++ [last]) (key last) = uses key log (key last) + 1 := by
      rw [uses_append, uses_singleton_self]
    rw [hkey] at hn
    have hsame : n = uses key log (key last) := by
      refine hcount (key last) ?_ ?_ (hn'.symm.trans (hnumber.trans hlast))
      · rw [Set.mem_ofPred_eq, hall]
        exact hn.trans (Nat.lt_succ_self _)
      · rw [Set.mem_ofPred_eq, hall]
        exact Nat.lt_succ_self _
    exact absurd hsame hn.ne

/-- Two entries that agree on key and number are at the same place. -/
theorem index_unique {number : α → ℕ} (h : Numbered key number id log) {i j : ℕ} {a b : α}
    (hi : log[i]? = some a) (hj : log[j]? = some b) (hkey : key a = key b)
    (hnumber : number a = number b) : i = j := by
  have hnodup := h.nodup fun k => Set.injOn_id _
  have hlt : i < (log.map fun entry => (key entry, number entry)).length := by
    rw [List.length_map]
    exact (List.getElem?_eq_some_iff.mp hi).1
  refine (List.getElem?_inj hlt hnodup).mp ?_
  rw [List.getElem?_map, List.getElem?_map, hi, hj, Option.map_some, Option.map_some, hkey, hnumber]

end Numbered

end Optics.Math.Numbering
