/-
# Loops that may fail

A computation in `Except` succeeds under exactly one condition if the condition is what
its success shows and what its success needs. Such a computation is understood from
the condition and from what holds of its result: one computation after another
succeeds when both do, and a loop over a list when every step does. The invariant of a
loop may speak about the elements that are done: it holds of none at first, and each
step takes it from the elements before it to those up to it.
-/

import Mathlib.Data.List.Basic

namespace Optics.Math.Loops

universe u

variable {σ τ : Type u} {α ε : Type*}

/-- A computation that succeeds under exactly the condition `C`, with a result in `Q`. -/
structure SucceedsIff (x : Except ε σ) (C : Prop) (Q : σ → Prop) : Prop where
  sound : ∀ t, x = .ok t → C ∧ Q t
  complete : C → ∃ t, x = .ok t

/-- A loop of checks that all pass. -/
theorem forM_of_ok {f : α → Except ε PUnit} {l : List α} (h : ∀ x ∈ l, f x = .ok ⟨⟩) :
    l.forM f = .ok ⟨⟩ := by
  induction l with
  | nil => rfl
  | cons x l ih =>
    have hx := h x List.mem_cons_self
    have hrest := ih fun y hy => h y (List.mem_cons_of_mem x hy)
    change f x >>= (fun _ => l.forM f) = _
    rw [hx]
    exact hrest

namespace SucceedsIff

variable {x : Except ε σ} {C C' D : Prop} {Q Q' : σ → Prop} {R : τ → Prop}

theorem of_ok {t : σ} (h : x = .ok t) (ht : Q t) : SucceedsIff x True Q :=
  ⟨fun _ hu => ⟨trivial, Except.ok.inj (h.symm.trans hu) ▸ ht⟩, fun _ => ⟨t, h⟩⟩

/-- What is needed for a success, when a success is known. -/
theorem of_exists (hsound : ∀ t, x = .ok t → C) (h : C → ∃ t, x = .ok t ∧ Q t) :
    SucceedsIff x C Q where
  sound t ht := by
    obtain ⟨u, hu, hQ⟩ := h (hsound t ht)
    obtain rfl : u = t := Except.ok.inj (hu.symm.trans ht)
    exact ⟨hsound u ht, hQ⟩
  complete hC := by
    obtain ⟨t, ht, -⟩ := h hC
    exact ⟨t, ht⟩

theorem mono (h : SucceedsIff x C Q) (hQ : ∀ t, C → Q t → Q' t) : SucceedsIff x C Q' :=
  ⟨fun t ht => ⟨(h.sound t ht).1, hQ t (h.sound t ht).1 (h.sound t ht).2⟩, h.complete⟩

theorem congr (h : SucceedsIff x C Q) (hC : C ↔ C') : SucceedsIff x C' Q :=
  ⟨fun t ht => ⟨hC.mp (h.sound t ht).1, (h.sound t ht).2⟩, fun hC' => h.complete (hC.mpr hC')⟩

/-- One computation after another. -/
theorem bind {f : σ → Except ε τ} (h : SucceedsIff x C Q)
    (hf : ∀ t, C → Q t → SucceedsIff (f t) D R) : SucceedsIff (x >>= f) (C ∧ D) R := by
  cases x with
  | error e =>
    refine ⟨fun t ht => (nomatch ht), fun hCD => ?_⟩
    obtain ⟨t, ht⟩ := h.complete hCD.1
    cases ht
  | ok s =>
    obtain ⟨hC, hQ⟩ := h.sound s rfl
    have hrest := hf s hC hQ
    exact ⟨fun t ht => ⟨⟨hC, (hrest.sound t ht).1⟩, (hrest.sound t ht).2⟩,
      fun hCD => hrest.complete hCD.2⟩

/-- A computation that needs nothing, before another. -/
theorem bind_true {f : σ → Except ε τ} (h : SucceedsIff x True Q)
    (hf : ∀ t, Q t → SucceedsIff (f t) D R) : SucceedsIff (x >>= f) D R :=
  (h.bind fun t _ hQ => hf t hQ).congr ⟨And.right, fun hD => ⟨trivial, hD⟩⟩

/-- A loop. -/
theorem foldlM {f : σ → α → Except ε σ} {l : List α} {s : σ} {I : List α → σ → Prop}
    {C : List α → α → Prop} (hinit : I [] s)
    (hstep : ∀ front x rest, l = front ++ x :: rest → ∀ s, I front s →
      SucceedsIff (f s x) (C front x) (I (front ++ [x]))) :
    SucceedsIff (l.foldlM f s) (∀ front x rest, l = front ++ x :: rest → C front x) (I l) := by
  suffices hloop : ∀ rest front s, l = front ++ rest → I front s →
      SucceedsIff (rest.foldlM f s)
        (∀ more x rest', rest = more ++ x :: rest' → C (front ++ more) x) (I l) by
    simpa using hloop l [] s rfl hinit
  intro rest
  induction rest with
  | nil =>
    intro front s hl hfront
    rw [List.append_nil] at hl
    subst hl
    exact (of_ok rfl hfront).congr (by simp)
  | cons x rest ih =>
    intro front s hl hfront
    rw [List.foldlM_cons]
    refine ((hstep front x rest hl s hfront).bind fun t _ ht =>
      ih (front ++ [x]) t (by simp [hl]) ht).congr ?_
    constructor
    · rintro ⟨hx, hrest⟩ more y rest' heq
      cases more with
      | nil =>
        obtain ⟨rfl, rfl⟩ := List.cons.inj heq
        simpa using hx
      | cons z more =>
        obtain ⟨rfl, hrest'⟩ := List.cons.inj heq
        simpa using hrest more y rest' hrest'
    · intro h
      refine ⟨by simpa using h [] x rest rfl, fun more y rest' heq => ?_⟩
      simpa using h (x :: more) y rest' (by simp [heq])

end SucceedsIff

end Optics.Math.Loops
