/-
# What a stable sort makes of an answer

Somebody answers a question with the right items in any order, and the answer is sorted by a
key. A stable sort keeps the items of one key in the order in which they came. So the sorted
answer is the right list exactly when the items of each key came in their right order, and
it is right for every answer exactly when no two items have the same key.
-/

import Mathlib.Data.List.Basic
import Mathlib.Data.List.Nodup
import Mathlib.Order.Lattice

namespace Optics.Math

variable {α κ : Type*} [LinearOrder κ] {key : α → κ} {l l₁ l₂ answer : List α} {a b : α} {k : κ}

/-- A stable sort by a key. -/
def stableSort (key : α → κ) (l : List α) : List α := l.mergeSort fun a b => decide (key a ≤ key b)

/-- The items of one key. -/
def ofKey (key : α → κ) (k : κ) (l : List α) : List α := l.filter fun a => decide (key a = k)

theorem mem_ofKey : a ∈ ofKey key k l ↔ a ∈ l ∧ key a = k := by
  rw [ofKey, List.mem_filter, decide_eq_true_iff]

theorem ofKey_append : ofKey key k (l₁ ++ l₂) = ofKey key k l₁ ++ ofKey key k l₂ :=
  List.filter_append ..

theorem ofKey_cons_self : ofKey key (key a) (a :: l) = a :: ofKey key (key a) l :=
  List.filter_cons_of_pos (decide_eq_true rfl)

theorem ofKey_cons_of_ne (h : key a ≠ k) : ofKey key k (a :: l) = ofKey key k l :=
  List.filter_cons_of_neg (by simpa using h)

theorem stableSort_perm (key : α → κ) (l : List α) : (stableSort key l).Perm l :=
  List.mergeSort_perm ..

theorem stableSort_pairwise (key : α → κ) (l : List α) :
    (stableSort key l).Pairwise fun a b => key a ≤ key b := by
  have hsorted : (stableSort key l).Pairwise fun a b => decide (key a ≤ key b) = true := by
    refine List.pairwise_mergeSort ?_ ?_ l
    · intro a b c hab hbc
      rw [decide_eq_true_iff] at hab hbc ⊢
      exact hab.trans hbc
    · intro a b
      simpa using le_total (key a) (key b)
  exact hsorted.imp fun h => of_decide_eq_true h

/-- The sort is stable. -/
theorem ofKey_stableSort (key : α → κ) (k : κ) (l : List α) :
    ofKey key k (stableSort key l) = ofKey key k l := by
  have hclass : (ofKey key k l).Pairwise fun a b => decide (key a ≤ key b) = true := by
    refine List.pairwise_of_forall_mem_list fun a ha b hb => decide_eq_true ?_
    rw [(mem_ofKey.mp ha).2, (mem_ofKey.mp hb).2]
  have hsub : (ofKey key k l).Sublist (stableSort key l) := by
    refine List.sublist_mergeSort ?_ ?_ hclass List.filter_sublist
    · intro a b c hab hbc
      rw [decide_eq_true_iff] at hab hbc ⊢
      exact hab.trans hbc
    · intro a b
      simpa using le_total (key a) (key b)
  have hfiltered : (ofKey key k l).Sublist (ofKey key k (stableSort key l)) := by
    have h := hsub.filter fun a => decide (key a = k)
    rw [ofKey, List.filter_filter] at h
    simpa only [ofKey, Bool.and_self] using h
  refine (hfiltered.eq_of_length ?_).symm
  exact ((stableSort_perm key l).filter _).length_eq.symm

/-- Sorted lists are told apart by the items of some key. -/
theorem eq_of_ofKey_eq (h₁ : l₁.Pairwise fun a b => key a ≤ key b)
    (h₂ : l₂.Pairwise fun a b => key a ≤ key b) (h : ∀ k, ofKey key k l₁ = ofKey key k l₂) :
    l₁ = l₂ := by
  induction l₁ generalizing l₂ with
  | nil =>
    refine (List.eq_nil_iff_forall_not_mem.mpr fun a ha => ?_).symm
    have hmem : a ∈ ofKey key (key a) l₂ := mem_ofKey.mpr ⟨ha, rfl⟩
    rw [← h] at hmem
    cases hmem
  | cons a rest ih =>
    have hsub : ∀ {c}, c ∈ a :: rest ↔ c ∈ l₂ := by
      intro c
      have hc := h (key c)
      constructor
      · intro hmem
        exact (mem_ofKey.mp (hc ▸ mem_ofKey.mpr ⟨hmem, rfl⟩)).1
      · intro hmem
        exact (mem_ofKey.mp (hc.symm ▸ mem_ofKey.mpr ⟨hmem, rfl⟩)).1
    obtain ⟨hfirst, hrest⟩ := List.pairwise_cons.mp h₁
    cases l₂ with
    | nil => cases hsub.mp List.mem_cons_self
    | cons b back =>
      obtain ⟨hfirst', hback⟩ := List.pairwise_cons.mp h₂
      -- both lists begin with their least key, so with the first item of that key
      have hkey : key a = key b := by
        refine le_antisymm ?_ ?_
        · rcases List.mem_cons.mp (hsub.mpr List.mem_cons_self) with heq | hmem
          · exact le_of_eq (congrArg key heq.symm)
          · exact hfirst b hmem
        · rcases List.mem_cons.mp (hsub.mp List.mem_cons_self) with heq | hmem
          · exact le_of_eq (congrArg key heq.symm)
          · exact hfirst' a hmem
      have hhead := h (key a)
      rw [ofKey_cons_self, hkey, ofKey_cons_self] at hhead
      obtain rfl := (List.cons.inj hhead).1
      congr 1
      refine ih hrest hback fun k => ?_
      by_cases hk : key a = k
      · subst hk
        exact (List.cons.inj hhead).2
      · have hk' := h k
        rwa [ofKey_cons_of_ne hk, ofKey_cons_of_ne hk] at hk'

/-- **Sorted answers.** The sorted answer is the right list exactly when the items of each key
came in their right order. -/
theorem stableSort_eq_iff (h : l.Pairwise fun a b => key a ≤ key b) :
    stableSort key answer = l ↔ ∀ k, ofKey key k answer = ofKey key k l := by
  constructor
  · rintro rfl k
    exact (ofKey_stableSort key k answer).symm
  · intro hclasses
    refine eq_of_ofKey_eq (stableSort_pairwise key answer) h fun k => ?_
    rw [ofKey_stableSort, hclasses]

/-- Items with different keys come right in any order. -/
theorem stableSort_eq_of_perm (h : l.Pairwise fun a b => key a < key b) (hperm : answer.Perm l) :
    stableSort key answer = l := by
  have hsorted : l.Pairwise fun a b => key a ≤ key b := h.imp fun hlt => hlt.le
  have hinj : ∀ a ∈ l, ∀ b ∈ l, key a ≤ key b → key b ≤ key a → a = b := by
    intro a ha b hb hab hba
    have hnodup : (l.map key).Nodup := (List.pairwise_map.mpr h).imp fun hlt => ne_of_lt hlt
    exact List.inj_on_of_nodup_map hnodup ha hb (le_antisymm hab hba)
  refine List.Perm.eq_of_pairwise ?_ (stableSort_pairwise key answer) hsorted
    ((stableSort_perm key answer).trans hperm)
  intro a b ha hb hab hba
  exact hinj a ((hperm.mem_iff).mp ((stableSort_perm key answer).mem_iff.mp ha)) b hb hab hba

/-- **All answers.** The sort makes every answer right exactly when no two items have the same
key. -/
theorem forall_stableSort_eq_iff (h : l.Pairwise fun a b => key a ≤ key b) (hnodup : l.Nodup) :
    (∀ answer, answer.Perm l → stableSort key answer = l) ↔
      l.Pairwise fun a b => key a < key b := by
  classical
  refine ⟨fun hall => ?_, fun hlt answer hperm => stableSort_eq_of_perm hlt hperm⟩
  refine List.pairwise_iff_forall_sublist.mpr fun {a b} hsub => ?_
  refine lt_of_le_of_ne (List.pairwise_iff_forall_sublist.mp h hsub) fun hkey => ?_
  -- an answer that gives the second of two items with one key first
  have hb : b ∈ l := hsub.subset (List.mem_cons_of_mem _ List.mem_cons_self)
  have hperm : (b :: l.erase b).Perm l := (List.perm_cons_erase hb).symm
  have hclass := (stableSort_eq_iff h).mp (hall _ hperm) (key b)
  rw [ofKey_cons_self] at hclass
  have hpair : [a, b].Sublist (ofKey key (key b) l) := by
    have hfilter := hsub.filter fun c => decide (key c = key b)
    simpa [ofKey, hkey] using hfilter
  have hnodup' : (ofKey key (key b) l).Nodup := hnodup.filter _
  rw [← hclass] at hpair hnodup'
  have hne := (List.nodup_cons.mp hnodup').1
  cases hpair with
  | cons _ hrest => exact hne (hrest.subset (List.mem_cons_of_mem _ List.mem_cons_self))
  | cons_cons _ hrest => exact hne (hrest.subset List.mem_cons_self)

/-! ### Windows of a sorted list -/

/-- The items with keys from one number to below another, key by key, are what a sorted list
has there. -/
theorem flatMap_ofKey {key : α → ℕ} (h : l.Pairwise fun a b => key a ≤ key b) (low n : ℕ) :
    (List.range' low n).flatMap (ofKey key · l) =
      l.filter fun a => decide (low ≤ key a ∧ key a < low + n) := by
  induction n with
  | zero =>
    refine (List.filter_eq_nil_iff.mpr fun a _ => ?_).symm
    simp only [decide_eq_true_iff]
    omega
  | succ n ih =>
    rw [List.range'_1_concat, List.flatMap_append, ih, List.flatMap_singleton]
    have hfront : (l.filter fun a => decide (low ≤ key a ∧ key a < low + n)).Pairwise
        fun a b => key a ≤ key b := h.filter _
    have hback : (ofKey key (low + n) l).Pairwise fun a b => key a ≤ key b := h.filter _
    refine eq_of_ofKey_eq ?_ (h.filter _) fun k => ?_
    · refine List.pairwise_append.mpr ⟨hfront, hback, fun a ha b hb => ?_⟩
      obtain ⟨-, ha⟩ := List.mem_filter.mp ha
      rw [(mem_ofKey.mp hb).2]
      exact (of_decide_eq_true ha).2.le
    · rw [ofKey_append]
      by_cases hk : k = low + n
      · subst hk
        have hnone : ofKey key (low + n)
            (l.filter fun a => decide (low ≤ key a ∧ key a < low + n)) = [] := by
          refine List.filter_eq_nil_iff.mpr fun a ha => ?_
          have hlt := of_decide_eq_true (List.mem_filter.mp ha).2
          simp only [decide_eq_true_iff]
          omega
        rw [hnone, List.nil_append, ofKey, ofKey, ofKey, List.filter_filter, List.filter_filter]
        refine List.filter_congr fun a _ => ?_
        by_cases ha : key a = low + n
        · simp [ha]
        · simp [ha]
      · have hnone : ofKey key k (ofKey key (low + n) l) = [] := by
          refine List.filter_eq_nil_iff.mpr fun a ha => ?_
          rw [(mem_ofKey.mp ha).2]
          simpa using Ne.symm hk
        rw [hnone, List.append_nil, ofKey, ofKey, List.filter_filter, List.filter_filter]
        refine List.filter_congr fun a _ => ?_
        by_cases ha : key a = k
        · simp only [ha, decide_true, Bool.true_and, decide_eq_decide]
          omega
        · simp [ha]

end Optics.Math
