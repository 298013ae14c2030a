/-
# The agents' view of Home

Agents ask Home for an update to sign and for its state. What they decode from
`suggestUpdate` is right in every state of Home: an update from the committed root to the
root of all messages when some message is pending, and nothing otherwise.

The state is decoded by the numbers of an older enumeration, which had no
`UnInitialized` at its front. A Home that is active is therefore seen as failed, and the
question to a Home that has failed panics.
-/

import Optics.Agents.KeyValue
import Optics.Agents.Updater
import Optics.Core.HomeInvariant

namespace Optics.HomeView

open Optics.Solidity Optics.Common Optics.KeyValue Optics.Math.Transition
open Updater (Update produceUpdate)
open Home (History Event Call Context)

variable {Byte : Type}

/-! ### Decoding -/

/-- A value of `States`, as the contract returns it. -/
def States.toUint8 : States → UInt8
  | .UnInitialized => 0
  | .Active => 1
  | .Failed => 2

/-- `State`. -/
inductive State
  | Waiting
  | Failed
  deriving DecidableEq, Repr

/-- `EthereumHome::state`, from the number that the contract returns. -/
def decodeState (state : UInt8) : Except Fault State :=
  match state with
  | 0 => .ok .Waiting
  | 1 => .ok .Failed
  | _ => .error (.panicked "internal error: entered unreachable code")

/-- `EthereumHome::state`. -/
def state (home : Home Byte) : Except Fault State := decodeState (States.toUint8 home.state)

/-! ### Accepted fraud proofs -/

/-- The events of an accepted fraud proof. -/
def Event.FraudProof : Event Byte → Prop
  | .ImproperUpdate _ => True
  | .DoubleUpdate _ _ _ _ _ => True
  | _ => False

/-- Some fraud proof was accepted. -/
def FraudAccepted (log : List (Event Byte)) : Prop := ∃ e ∈ log, Event.FraudProof e

@[simp] theorem fraudAccepted_append {log events : List (Event Byte)} :
    FraudAccepted (log ++ events) ↔ FraudAccepted log ∨ FraudAccepted events := by
  simp only [FraudAccepted, List.mem_append, or_and_right, exists_or]

section Calls

variable [ByteAlphabet Byte] [DecidableEq Byte] {K : Crypto Byte} {ctx : Context Byte}
  {home home' : Home Byte} {events : List (Event Byte)}

/-- What an improper update leaves in the log. -/
theorem fraudAccepted_of_improperUpdate {oldRoot newRoot : Bytes32 Byte} {signature : List Byte}
    (h : Home.improperUpdate K ctx oldRoot newRoot signature home = .ok (true, home', events)) :
    FraudAccepted events := by
  rw [Home.improperUpdate, bind_eq_ok] at h
  obtain ⟨-, -, h⟩ := h
  obtain ⟨signed, -, h⟩ := bind_eq_ok.mp h
  rw [require_bind_eq_ok, require_bind_eq_ok] at h
  obtain ⟨-, -, h⟩ := h
  split_ifs at h with hqueued
  · simp at h
  · obtain ⟨⟨failed, slashing⟩, -, h⟩ := bind_eq_ok.mp h
    simp only [Except.ok.injEq, Prod.mk.injEq] at h
    obtain ⟨-, -, rfl⟩ := h
    exact ⟨_, List.mem_append_right _ (List.mem_singleton_self _), trivial⟩

/-- A call that fails Home leaves the fraud proof in the log. -/
theorem fraudAccepted_of_fraud {call : Call Byte} (hfraud : Home.Fraud K home call)
    (h : Home.exec K ctx call home = .ok (home', events)) : FraudAccepted events := by
  cases hfraud with
  | improper u hcall hsigned hcurrent habsent =>
    -- the answer of `improperUpdate` is that the root is not in the queue
    have hanswer : ∀ {improper : Bool} {home₁ : Home Byte} {events₁ : List (Event Byte)},
        Home.improperUpdate K ctx u.oldRoot u.newRoot u.signature home =
          .ok (improper, home₁, events₁) → improper = true := by
      intro improper home₁ events₁ himproper
      obtain ⟨-, -, -, ⟨-, hqueued, -⟩ | ⟨htrue, -⟩⟩ := Home.improperUpdate_spec himproper
      · rw [habsent] at hqueued
        cases hqueued
      · exact htrue
    rcases hcall with rfl | rfl
    · rw [Home.exec, Home.update, bind_eq_ok] at h
      obtain ⟨-, -, h⟩ := h
      obtain ⟨⟨improper, home₁, events₁⟩, himproper, h⟩ := bind_eq_ok.mp h
      obtain rfl := hanswer himproper
      obtain ⟨rfl, rfl⟩ := Prod.mk.inj (Except.ok.inj h)
      exact fraudAccepted_of_improperUpdate himproper
    · obtain ⟨⟨improper, home₁, events₁⟩, himproper, h⟩ := bind_eq_ok.mp h
      obtain rfl := hanswer himproper
      obtain ⟨rfl, rfl⟩ := Prod.mk.inj (Except.ok.inj h)
      exact fraudAccepted_of_improperUpdate himproper
  | double oldRoot newRoot₀ newRoot₁ signature signature₂ hfirst hsecond hne =>
    rw [Home.exec, Home.doubleUpdate, bind_eq_ok] at h
    obtain ⟨-, -, h⟩ := h
    rw [isDoubleUpdate_eq_true.mpr ⟨hfirst, hsecond, hne⟩, ok_bind, if_pos rfl, bind_eq_ok] at h
    obtain ⟨⟨failed, slashing⟩, -, h⟩ := h
    obtain ⟨-, rfl⟩ := Prod.mk.inj (Except.ok.inj h)
    exact ⟨_, List.mem_append_right _ (List.mem_singleton_self _), trivial⟩

/-- **Step.** A call fails Home with a fraud proof, or keeps its state without one. -/
theorem exec_cases {call : Call Byte} (h : Home.exec K ctx call home = .ok (home', events)) :
    (home'.state = .Failed ∧ FraudAccepted events) ∨
      (home'.state = home.state ∧ ¬ FraudAccepted events) := by
  -- only a slashing changes the state, and only a fraud proof slashes
  cases Home.effect_of_exec h with
  | dispatched => exact .inr ⟨rfl, by simp [FraudAccepted, Event.FraudProof]⟩
  | committed => exact .inr ⟨rfl, by simp [FraudAccepted, Event.FraudProof]⟩
  | slashed updater manager hstate hfraud => exact .inl ⟨rfl, fraudAccepted_of_fraud hfraud h⟩
  | unchanged => exact .inr ⟨rfl, by simp [FraudAccepted]⟩
  | newUpdater => exact .inr ⟨rfl, by simp [FraudAccepted, Event.FraudProof]⟩
  | newUpdaterManager => exact .inr ⟨rfl, by simp [FraudAccepted, Event.FraudProof]⟩

/-- **Run.** A Home is active until a fraud proof is accepted, and failed from then on. -/
theorem state_eq {history : History Byte} (h : (Home.system K).Reachable history) :
    (FraudAccepted history.log ∧ history.home.state = .Failed) ∨
      (¬ FraudAccepted history.log ∧ history.home.state = .Active) := by
  refine h.invariant (P := fun history : History Byte =>
    (FraudAccepted history.log ∧ history.home.state = .Failed) ∨
      (¬ FraudAccepted history.log ∧ history.home.state = .Active)) ?_ ?_
  · intro history hinit
    obtain ⟨manager, updater, hlog⟩ := hinit.log_eq
    exact .inr ⟨by simp [hlog, FraudAccepted, Event.FraudProof], hinit.active⟩
  · intro s tx t _ hs hstep
    refine callStep_cases (P := fun _ t : History Byte =>
      (FraudAccepted t.log ∧ t.home.state = .Failed) ∨
        (¬ FraudAccepted t.log ∧ t.home.state = .Active)) hstep (fun t hexec => ?_) hs
    obtain ⟨home', events, hcall, rfl⟩ := History.exec_eq_ok.mp hexec
    dsimp only
    rw [fraudAccepted_append]
    obtain ⟨hfailed, hproof⟩ | ⟨hkept, hquiet⟩ := exec_cases hcall
    · exact .inl ⟨.inr hproof, hfailed⟩
    · obtain ⟨hbefore, hs⟩ | ⟨hbefore, hs⟩ := hs
      · exact .inl ⟨.inl hbefore, hkept.trans hs⟩
      · exact .inr ⟨not_or.mpr ⟨hbefore, hquiet⟩, hkept.trans hs⟩

end Calls

/-! ### The view -/

section View

variable [ByteAlphabet Byte] [DecidableEq Byte] (K : Crypto Byte)

/-- The update that agents find in Home. The committed root covers some first messages,
how many being determined by it; if there are more, the update leads from it to the root
of all. -/
def UpdateAgrees (homeDomain : UInt32) (history : History Byte) : Prop :=
  ∃ k ≤ history.dispatched.length,
    history.home.committedRoot = Home.prefixRoot K (history.leaves K) k ∧
    (∀ j ≤ history.dispatched.length,
      history.home.committedRoot = Home.prefixRoot K (history.leaves K) j → j = k) ∧
    produceUpdate homeDomain (Home.suggestUpdate history.home) =
      if k < history.dispatched.length then
        some ⟨homeDomain, history.home.committedRoot, MerkleLib.treeRoot K (history.leaves K)⟩
      else none

/-- The state that agents should find in Home. -/
def StateAgrees (history : History Byte) : Prop :=
  (FraudAccepted history.log → state history.home = .ok .Failed) ∧
    (¬ FraudAccepted history.log → state history.home = .ok .Waiting)

variable {K}

theorem updateAgrees (ideal : Crypto.IdealHash K) {history : History Byte}
    (h : (Home.system K).Reachable history) (homeDomain : UInt32) :
    UpdateAgrees K homeDomain history := by
  obtain ⟨k, hsound⟩ := History.sound_of_reachable ideal h
  have hin := hsound.inStep
  have hne := history.zero_notMem_leaves (K := K) ideal
  have hlength : (history.leaves K).length = history.dispatched.length := List.length_map _
  rw [UpdateAgrees, ← hlength]
  refine ⟨k, hin.k_le, hin.committedRoot_eq, fun j hj hroot => ?_, ?_⟩
  -- an ideal hash tells the roots of the prefixes apart
  · exact Home.prefixRoot_injOn ideal hin.tree.fits hne hj hin.k_le
      (hroot.symm.trans hin.committedRoot_eq)
  · rw [produceUpdate, hin.suggestUpdate_eq]
    -- with nothing pending `suggestUpdate` answers the zero root, which no tree has
    by_cases hlt : k < (history.leaves K).length
    · have hzero : MerkleLib.treeRoot K (history.leaves K) ≠ 0 :=
        MerkleLib.treeRoot_ne_zero ideal _
      rw [if_pos hlt, if_pos hlt, if_neg hzero]
    · rw [if_neg hlt, if_neg hlt, if_pos rfl]

/-- **The view of a Home.** The update is right in every reachable state, and the state is
wrong in every one: an active Home is seen as failed, and a failed one not at all. -/
theorem view_never_agrees (ideal : Crypto.IdealHash K) {history : History Byte}
    (h : (Home.system K).Reachable history) (homeDomain : UInt32) :
    UpdateAgrees K homeDomain history ∧
    (¬ FraudAccepted history.log → state history.home = .ok .Failed) ∧
    (FraudAccepted history.log → state history.home =
      .error (.panicked "internal error: entered unreachable code")) ∧
    ¬ (UpdateAgrees K homeDomain history ∧ StateAgrees history) := by
  refine ⟨updateAgrees ideal h homeDomain, ?_⟩
  obtain ⟨haccepted, hstate⟩ | ⟨haccepted, hstate⟩ := state_eq h
  · have hview : state history.home =
        .error (.panicked "internal error: entered unreachable code") := by
      rw [state, hstate]
      rfl
    refine ⟨fun hnot => absurd haccepted hnot, fun _ => hview, fun hagree => ?_⟩
    -- the question to a failed Home panics
    have hfailed := hagree.2.1 haccepted
    rw [hview] at hfailed
    cases hfailed
  · have hview : state history.home = .ok .Failed := by
      rw [state, hstate]
      rfl
    refine ⟨fun _ => hview, fun hyes => absurd hyes haccepted, fun hagree => ?_⟩
    -- an active Home is 1, and 1 is decoded to `Failed`
    have hwaiting := hagree.2.2 haccepted
    rw [hview] at hwaiting
    cases hwaiting

end View

section Sample

/-- A Home just after it was initialised, at domain 1000. -/
def newHome : History ℕ :=
  ⟨{ (Home.fresh 1000 : Home ℕ) with
      queue := QueueLib.Queue.init .fresh
      state := .Active },
    [.NewUpdaterManager 0, .NewUpdater 0], []⟩

theorem newHome_initial : newHome.Initial :=
  Home.initial_of_isContract 1000 Home.sampleContext 0 0 rfl

/-- The first view of a new Home is that it has failed. -/
theorem view_of_newHome :
    (Home.system (Crypto.withIdealHash fun _ _ => none)).Reachable newHome ∧
    ¬ FraudAccepted newHome.log ∧
    state newHome.home = .ok .Failed ∧ ¬ StateAgrees newHome := by
  have hquiet : ¬ FraudAccepted newHome.log := by
    simp [newHome, FraudAccepted, Event.FraudProof]
  have hview : state newHome.home = .ok .Failed := rfl
  refine ⟨System.reachable_init newHome_initial, hquiet, hview, fun hagree => ?_⟩
  have hwaiting := hagree.2 hquiet
  rw [hview] at hwaiting
  cases hwaiting

/-- A Home with one message, which is still to be committed: the update is seen, and the
state is not. -/
theorem view_after_dispatch :
    ∃ history : History ℕ, history.dispatched = [Home.sampleDispatch] ∧
      UpdateAgrees (Crypto.withIdealHash fun _ _ => none) 1000 history ∧
      ¬ StateAgrees history := by
  obtain ⟨start, history, hinit, -, hstep, -, -, -, hdispatched, -⟩ :=
    Home.exists_dispatched (Crypto.withIdealHash fun _ _ => none) 0
  obtain ⟨hupdate, -, -, hnot⟩ := view_never_agrees (Crypto.withIdealHash_ideal _)
    ((System.reachable_init hinit).step hstep) 1000
  exact ⟨history, hdispatched, hupdate, fun hstate => hnot ⟨hupdate, hstate⟩⟩

end Sample

end Optics.HomeView
