/-
# Steps that may be undone

A transaction remembers the state before each part of it that may fail, and goes back to
that state if the part fails. What is undone leaves no trace, so every state on the way
can be reached without anything being undone, and an invariant of the system holds in the
middle of a transaction as well.

Some steps, such as the passing of time, are taken only while nothing can be undone.
-/

import Optics.Math.Transition

namespace Optics.Math.Transition

variable {σ ℓ : Type*}

/-- A step, or the beginning of a part that may be undone, or one of its two ends. -/
inductive Move (ℓ : Type*)
  | step (label : ℓ)
  | save
  | commit
  | undo

namespace System

/-- The system with a stack of saved states beside the current one. -/
def withSavepoints (S : System σ ℓ) (outer : ℓ → Prop) : System (σ × List σ) (Move ℓ) where
  init s := S.init s.1 ∧ s.2 = []
  step s move t :=
    match move with
    | .step label => S.step s.1 label t.1 ∧ t.2 = s.2 ∧ (outer label → s.2 = [])
    | .save => t = (s.1, s.1 :: s.2)
    | .commit => ∃ saved, s.2 = saved :: t.2 ∧ t.1 = s.1
    | .undo => s.2 = t.1 :: t.2

variable {S : System σ ℓ} {outer : ℓ → Prop} {s : σ × List σ}

/-- **What is undone leaves no trace.** The current state and every saved one can be
reached by steps alone. -/
theorem reachable_of_withSavepoints (h : (S.withSavepoints outer).Reachable s) :
    ∀ u ∈ s.1 :: s.2, S.Reachable u := by
  refine h.invariant (P := fun s => ∀ u ∈ s.1 :: s.2, S.Reachable u) ?_ ?_
  · rintro ⟨s, saved⟩ ⟨hinit, hsaved⟩ u hu
    obtain rfl : saved = [] := hsaved
    obtain rfl := List.mem_singleton.mp hu
    exact reachable_init hinit
  -- every state on the stack was the current one once, and nothing else is ever put there
  · rintro ⟨s, saved⟩ move ⟨t, saved'⟩ - ih hstep u hu
    cases move with
    | step label =>
      obtain ⟨hlabel, hsaved, -⟩ := hstep
      obtain rfl : saved' = saved := hsaved
      rcases List.mem_cons.mp hu with rfl | hu
      · exact (ih s List.mem_cons_self).step hlabel
      · exact ih u (List.mem_cons_of_mem _ hu)
    | save =>
      obtain ⟨rfl, rfl⟩ := Prod.mk.inj hstep
      rcases List.mem_cons.mp hu with rfl | hu
      · exact ih _ List.mem_cons_self
      · exact ih u hu
    | commit =>
      obtain ⟨first, hsaved, heq⟩ := hstep
      obtain rfl : t = s := heq
      obtain rfl : saved = first :: saved' := hsaved
      rcases List.mem_cons.mp hu with rfl | hu
      · exact ih _ List.mem_cons_self
      · exact ih u (List.mem_cons_of_mem _ (List.mem_cons_of_mem _ hu))
    -- the state that is restored was reachable when it was saved
    | undo =>
      obtain rfl : saved = t :: saved' := hstep
      exact ih u (List.mem_cons_of_mem _ hu)

/-- An invariant holds in the middle of a transaction. -/
theorem Reachable.invariant_of_withSavepoints {P : σ → Prop}
    (h : (S.withSavepoints outer).Reachable s)
    (hinit : ∀ s, S.init s → P s)
    (hstep : ∀ s label t, S.Reachable s → P s → S.step s label t → P t) : P s.1 :=
  (reachable_of_withSavepoints h s.1 List.mem_cons_self).invariant hinit hstep

/-- Steps alone are a way through the system with savepoints. -/
theorem Reachable.withSavepoints {s : σ} (h : S.Reachable s) :
    (S.withSavepoints outer).Reachable (s, []) := by
  refine h.invariant (P := fun s => (S.withSavepoints outer).Reachable (s, [])) ?_ ?_
  · intro s hinit
    exact reachable_init ⟨hinit, rfl⟩
  -- with nothing saved, any step may be taken
  · intro s label t _ ih hstep
    have hmove : (S.withSavepoints outer).step (s, []) (.step label) (t, []) :=
      ⟨hstep, rfl, fun _ => rfl⟩
    exact ih.step hmove

end System

end Optics.Math.Transition
