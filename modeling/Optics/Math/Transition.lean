/-
# Labelled transition systems and their runs

A system is a set of initial states and a labelled step relation. A run is a
finite path of steps together with the labels it followed; a state is reachable
when some run from an initial state ends there. The two rules used everywhere
are that a property kept by every step holds in every reachable state, and that
a transitive relation respected by every step relates the ends of every run.

A component that answers each call with a new state or an error becomes a
system in which a failing call leaves the state as it was.
-/

import Mathlib.Logic.Relation
import Mathlib.Data.List.Induction

namespace Optics.Math.Transition

variable {σ ℓ ε : Type*}

/-- Initial states and labelled steps. -/
structure System (σ ℓ : Type*) where
  init : σ → Prop
  step : σ → ℓ → σ → Prop

namespace System

variable (S : System σ ℓ)

/-- `Run s labels t`: the steps labelled by `labels` lead from `s` to `t`. -/
inductive Run : σ → List ℓ → σ → Prop
  | refl (s : σ) : Run s [] s
  | tail {s t u : σ} {labels : List ℓ} {label : ℓ} :
      Run s labels t → S.step t label u → Run s (labels ++ [label]) u

/-- Some run from an initial state ends in the state. -/
def Reachable (s : σ) : Prop := ∃ start labels, S.init start ∧ S.Run start labels s

variable {S} {s t u : σ} {labels more : List ℓ} {label : ℓ}

theorem Run.single (h : S.step s label t) : S.Run s [label] t :=
  (Run.refl s).tail h

theorem Run.eq_of_nil (h : S.Run s [] t) : s = t := by
  generalize hlabels : ([] : List ℓ) = labels at h
  cases h with
  | refl => rfl
  | tail => simp at hlabels

/-- Runs compose, and so do their labels. -/
theorem Run.trans (first : S.Run s labels t) (second : S.Run t more u) :
    S.Run s (labels ++ more) u := by
  induction second with
  | refl => simpa using first
  | tail _ hstep ih => simpa [← List.append_assoc] using ih.tail hstep

theorem reachable_init (h : S.init s) : S.Reachable s := ⟨s, [], h, .refl s⟩

theorem Reachable.step (h : S.Reachable s) (hstep : S.step s label t) : S.Reachable t := by
  obtain ⟨start, labels, hinit, hrun⟩ := h
  exact ⟨start, _, hinit, hrun.tail hstep⟩

theorem Reachable.run (h : S.Reachable s) (hrun : S.Run s labels t) : S.Reachable t := by
  induction hrun with
  | refl => exact h
  | tail _ hstep ih => exact ih.step hstep

/-- **Invariant rule.** What holds initially and is kept by every step from a
reachable state holds in every reachable state. -/
theorem Reachable.invariant {P : σ → Prop} (h : S.Reachable s)
    (hinit : ∀ s, S.init s → P s)
    (hstep : ∀ s label t, S.Reachable s → P s → S.step s label t → P t) : P s := by
  obtain ⟨start, labels, hstart, hrun⟩ := h
  induction hrun with
  | refl => exact hinit _ hstart
  | tail prior hlast ih => exact hstep _ _ _ ⟨start, _, hstart, prior⟩ ih hlast

/-- **Run rule.** A reflexive and transitive relation respected by every step
relates the ends of a run. -/
theorem Run.relates {R : σ → σ → Prop} (h : S.Run s labels t)
    (hrefl : ∀ s, R s s) (htrans : ∀ s t u, R s t → R t u → R s u)
    (hstep : ∀ s label t, S.step s label t → R s t) : R s t := by
  induction h with
  | refl => exact hrefl _
  | tail _ hlast ih => exact htrans _ _ _ ih (hstep _ _ _ hlast)

/-- **Conditional run rule.** A property kept by the steps that meet a condition
holds at the end of a run all of whose steps meet it. -/
theorem Run.invariant_of_forall {P : σ → Prop} {C : σ → ℓ → Prop} (h : S.Run s labels t)
    (hs : P s) (hcond : ∀ before label after u, labels = before ++ label :: after →
      S.Run s before u → C u label)
    (hstep : ∀ s label t, P s → C s label → S.step s label t → P t) : P t := by
  induction h with
  | refl => exact hs
  | @tail t u labels label prior hlast ih =>
    have hprior : P t := ih fun before earlier after u heq hbefore =>
      hcond before earlier (after ++ [label]) u (by simp [heq]) hbefore
    exact hstep _ _ _ hprior (hcond labels label [] t (by simp) prior) hlast

/-- **Settling rule.** Every step keeps a state ready or settles it, a settled state stays
settled, and a label of some kind settles a ready state: a run that meets such a label ends
settled, wherever it comes. -/
theorem Run.settles {P Q : σ → Prop} {C D : ℓ → Prop} (h : S.Run s labels t)
    (hs : P s ∨ Q s) (hlabels : ∀ label ∈ labels, C label)
    (hsome : ∃ label ∈ labels, D label)
    (hready : ∀ s label t, P s → C label → S.step s label t → P t ∨ Q t)
    (hdone : ∀ s label t, Q s → C label → S.step s label t → Q t)
    (hsettle : ∀ s label t, P s → C label → D label → S.step s label t → Q t) :
    Q t := by
  have hstep : ∀ s label t, P s ∨ Q s → C label → S.step s label t →
      (P t ∨ Q t) ∧ (D label → Q t) := by
    rintro s label t (hs | hs) hlabel hstep
    · exact ⟨hready s label t hs hlabel hstep, fun hd => hsettle s label t hs hlabel hd hstep⟩
    · have ht := hdone s label t hs hlabel hstep
      exact ⟨.inr ht, fun _ => ht⟩
  suffices hrun : (P t ∨ Q t) ∧ ((∃ label ∈ labels, D label) → Q t) from hrun.2 hsome
  clear hsome
  induction h with
  | refl => exact ⟨hs, fun ⟨_, hmem, _⟩ => absurd hmem List.not_mem_nil⟩
  | @tail t u labels label prior hlast ih =>
    have hlabel := hlabels label (List.mem_append_right _ (List.mem_singleton_self _))
    obtain ⟨ht, hsome⟩ := ih fun l hl => hlabels l (List.mem_append_left _ hl)
    obtain ⟨hu, hnow⟩ := hstep t label u ht hlabel hlast
    refine ⟨hu, fun ⟨l, hmem, hd⟩ => ?_⟩
    rcases List.mem_append.mp hmem with hearlier | hlater
    · exact hdone t label u (hsome ⟨l, hearlier, hd⟩) hlabel hlast
    · rw [List.mem_singleton.mp hlater] at hd
      exact hnow hd

/-- A run of one system is a run of any system that has its steps. -/
theorem Run.mono {T : System σ ℓ} (h : S.Run s labels t)
    (hstep : ∀ s label t, S.step s label t → T.step s label t) : T.Run s labels t := by
  induction h with
  | refl => exact .refl _
  | tail _ hlast ih => exact ih.tail (hstep _ _ _ hlast)

/-- The system whose steps all meet a condition. -/
def restrict (S : System σ ℓ) (C : σ → ℓ → Prop) : System σ ℓ where
  init := S.init
  step s label t := S.step s label t ∧ C s label

/-- A run all of whose labels are harmless is a run of the restricted system. -/
theorem Run.restrict {C : σ → ℓ → Prop} (h : S.Run s labels t)
    (hlabels : ∀ label ∈ labels, ∀ s, C s label) : (S.restrict C).Run s labels t := by
  induction h with
  | refl => exact .refl _
  | tail prior hlast ih =>
    have hprior := ih fun label hlabel => hlabels label (List.mem_append_left _ hlabel)
    exact hprior.tail ⟨hlast, hlabels _ (List.mem_append_right _ (List.mem_singleton_self _)) _⟩

/-- Labels that can be executed one after the other are a run. -/
theorem run_of_foldlM {exec : ℓ → σ → Option σ}
    (hexec : ∀ s label t, exec label s = some t → S.step s label t)
    (h : labels.foldlM (fun s label => exec label s) s = some t) : S.Run s labels t := by
  induction labels generalizing s with
  | nil =>
    obtain rfl := Option.some.inj h
    exact .refl _
  | cons label rest ih =>
    rw [List.foldlM_cons] at h
    obtain ⟨u, hfirst, hrest⟩ := Option.bind_eq_some_iff.mp h
    exact (Run.single (hexec _ _ _ hfirst)).trans (ih hrest)

/-- Labels whose execution ends in a state that passes a test are a run to such a
state. -/
theorem exists_run_of_any (exec : ℓ → σ → Option σ) (s : σ) (labels : List ℓ) (P : σ → Bool)
    (hexec : ∀ s label t, exec label s = some t → S.step s label t)
    (h : (labels.foldlM (fun s label => exec label s) s).any P = true) :
    ∃ t, S.Run s labels t ∧ P t = true := by
  obtain ⟨t, ht, hP⟩ := (Option.any_eq_true _ _).mp h
  exact ⟨t, run_of_foldlM hexec ht, hP⟩

theorem Reachable.of_restrict {C : σ → ℓ → Prop} (h : (S.restrict C).Reachable s) :
    S.Reachable s := by
  refine h.invariant (fun s hinit => reachable_init hinit) ?_
  intro s label t _ hreach hstep
  exact hreach.step hstep.1

end System

/-! ### Components that may refuse a call -/

/-- The step relation of a component that answers a call with a new state or an
error. A refused call changes nothing. -/
def callStep (exec : ℓ → σ → Except ε σ) (s : σ) (call : ℓ) (t : σ) : Prop :=
  exec call s = .ok t ∨ (∃ e, exec call s = .error e) ∧ t = s

theorem callStep_cases {exec : ℓ → σ → Except ε σ} {s t : σ} {call : ℓ}
    {P : σ → σ → Prop} (h : callStep exec s call t)
    (hok : ∀ t, exec call s = .ok t → P s t) (hrefl : P s s) : P s t := by
  rcases h with hexec | ⟨-, rfl⟩
  · exact hok t hexec
  · exact hrefl

/-- The state after a call, where a refused call leaves the state as it was. -/
def afterCall (exec : ℓ → σ → Except ε σ) (call : ℓ) (s : σ) : σ :=
  match exec call s with
  | .ok t => t
  | .error _ => s

theorem callStep_afterCall (exec : ℓ → σ → Except ε σ) (call : ℓ) (s : σ) :
    callStep exec s call (afterCall exec call s) := by
  unfold afterCall
  cases h : exec call s with
  | ok t => exact .inl h
  | error e => exact .inr ⟨⟨e, h⟩, rfl⟩

theorem afterCall_of_ok {exec : ℓ → σ → Except ε σ} {s t : σ} {call : ℓ}
    (h : exec call s = .ok t) : afterCall exec call s = t := by
  rw [afterCall, h]

theorem afterCall_of_error {exec : ℓ → σ → Except ε σ} {s : σ} {call : ℓ}
    (h : ∃ e, exec call s = .error e) : afterCall exec call s = s := by
  obtain ⟨e, hexec⟩ := h
  rw [afterCall, hexec]

theorem eq_afterCall {exec : ℓ → σ → Except ε σ} {s t : σ} {call : ℓ}
    (h : callStep exec s call t) : t = afterCall exec call s := by
  rcases h with hexec | ⟨herror, rfl⟩
  · exact (afterCall_of_ok hexec).symm
  · exact (afterCall_of_error herror).symm

/-! ### Components that answer -/

section Answers

variable {τ ρ : Type*}

/-- The answers to the calls, and the state after them. A refused call changes nothing. -/
def answers (exec : ℓ → σ → Except ε (ρ × σ)) : List ℓ → σ → List (Except ε ρ) × σ
  | [], s => ([], s)
  | call :: rest, s =>
    match exec call s with
    | .ok (r, t) => ((.ok r :: (answers exec rest t).1), (answers exec rest t).2)
    | .error e => ((.error e :: (answers exec rest s).1), (answers exec rest s).2)

/-- Two components answer a call alike: the same answer and related states after it, or
the same refusal. -/
inductive Alike (R : σ → τ → Prop) (s : σ) (t : τ) :
    Except ε (ρ × σ) → Except ε (ρ × τ) → Prop
  | answered (r : ρ) (s' : σ) (t' : τ) (h : R s' t') : Alike R s t (.ok (r, s')) (.ok (r, t'))
  | refused (e : ε) (h : R s t) : Alike R s t (.error e) (.error e)

/-- **Simulation rule.** Components that answer every call alike answer every list of
calls alike. The relation may look at the calls that are left. -/
theorem answers_of_alike {exec : ℓ → σ → Except ε (ρ × σ)} {exec' : ℓ → τ → Except ε (ρ × τ)}
    {R : List ℓ → σ → τ → Prop} {calls : List ℓ} {s : σ} {t : τ} (h : R calls s t)
    (hstep : ∀ call rest s t, R (call :: rest) s t →
      Alike (R rest) s t (exec call s) (exec' call t)) :
    (answers exec calls s).1 = (answers exec' calls t).1 ∧
      R [] (answers exec calls s).2 (answers exec' calls t).2 := by
  induction calls generalizing s t with
  | nil => exact ⟨rfl, h⟩
  | cons call rest ih =>
    have halike := hstep call rest s t h
    simp only [answers]
    cases hs : exec call s with
    | ok result =>
      rw [hs] at halike
      generalize exec' call t = result' at halike
      cases halike with
      | answered r s' t' hrest =>
        obtain ⟨hanswers, hend⟩ := ih hrest
        exact ⟨congrArg _ hanswers, hend⟩
    | error e =>
      rw [hs] at halike
      generalize exec' call t = result' at halike
      cases halike with
      | refused e hrest =>
        obtain ⟨hanswers, hend⟩ := ih hrest
        exact ⟨congrArg _ hanswers, hend⟩

end Answers

/-! ### Components that take one item after another -/

/-- **Fold rule.** A component that holds a list and takes one more item while
there is room takes a whole list that fits, item by item. -/
theorem exists_foldlM_append {m : Type _ → Type _} [Monad m] [LawfulMonad m] {σ α : Type _}
    {take : σ → α → m σ} {Holds : σ → List α → Prop} {bound : ℕ}
    (htake : ∀ s xs x, Holds s xs → xs.length < bound →
      ∃ t, take s x = pure t ∧ Holds t (xs ++ [x]))
    {s : σ} {xs : List α} (hs : Holds s xs) (ys : List α) (hfit : (xs ++ ys).length ≤ bound) :
    ∃ t, ys.foldlM take s = pure t ∧ Holds t (xs ++ ys) := by
  induction ys generalizing s xs with
  | nil => exact ⟨s, rfl, by rwa [List.append_nil]⟩
  | cons y ys ih =>
    have hroom : xs.length < bound := by
      rw [List.length_append, List.length_cons] at hfit
      omega
    obtain ⟨t, hstep, ht⟩ := htake s xs y hs hroom
    have hsplit : xs ++ [y] ++ ys = xs ++ y :: ys := by simp
    obtain ⟨u, hrest, hu⟩ := ih ht (hsplit ▸ hfit)
    refine ⟨u, ?_, hsplit ▸ hu⟩
    rw [List.foldlM_cons, hstep, pure_bind, hrest]

end Optics.Math.Transition
