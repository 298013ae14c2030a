/-
# The pause of the updater

The updater asks Home for an update, pauses, and asks again before it signs the
first answer. A chain that was reorganised meanwhile may answer from a state
that does not extend the first one. The second answer is compared by its old
root only, so what is signed starts at the committed root of the second state,
but it ends at a queued root exactly when that state has kept all messages of the
first one.
-/

import Optics.Agents.Updater
import Optics.Core.HomeInvariant

namespace Optics.Updater

open Optics.Solidity Optics.Math.Transition

variable {Byte : Type} [ByteAlphabet Byte] [DecidableEq Byte] {K : Crypto Byte}

/-- A state that Home can reach, on some branch of the chain. -/
abbrev HomeState (K : Crypto Byte) :=
  {history : Home.History Byte // (Home.system K).Reachable history}

/-- `suggestUpdate` in a state of Home. -/
def suggestedBy (state : HomeState K) : Bytes32 Byte × Bytes32 Byte :=
  Home.suggestUpdate state.1.home

/-- The update would not be improper in this Home. -/
structure Proper (home : Home Byte) (u : Update Byte) : Prop where
  previousRoot : u.previousRoot = home.committedRoot
  newRoot : home.queue.contains u.newRoot = true

/-- Submitting a proper update as an improper one does not fail Home. -/
theorem Proper.improperUpdate {home : Home Byte} {u : Update Byte} (h : Proper home u)
    {ctx : Home.Context Byte} {signature : List Byte} (hstate : home.state ≠ .Failed)
    (hsigned : Common.IsSignedBy K home.localDomain home.updater
      ⟨u.previousRoot, u.newRoot, signature⟩) :
    Home.improperUpdate K ctx u.previousRoot u.newRoot signature home = .ok (false, home, []) := by
  rw [Home.improperUpdate, Home.notFailed, require_of hstate, ok_bind,
    Common._isUpdaterSignature_eq_true.mpr hsigned, ok_bind, require_of rfl, ok_bind,
    require_of h.previousRoot, ok_bind, if_pos h.newRoot]

section Answers

variable {homeDomain : UInt32} {state : HomeState K} {u : Update Byte}

/-- An update that Home suggests leads from the committed root to the root of
all its messages, some of which are not committed. -/
theorem produceUpdate_eq_some (ideal : Crypto.IdealHash K)
    (h : produceUpdate homeDomain (suggestedBy state) = some u) :
    ∃ k, Home.InStep K state.1.home (state.1.leaves K) k ∧ k < (state.1.leaves K).length ∧
      u.previousRoot = state.1.home.committedRoot ∧
      u.newRoot = MerkleLib.treeRoot K (state.1.leaves K) := by
  obtain ⟨k, hsound⟩ := Home.History.sound_of_reachable ideal state.2
  have hin := hsound.inStep
  refine ⟨k, hin, ?_⟩
  rw [produceUpdate, suggestedBy, hin.suggestUpdate_eq] at h
  by_cases hlt : k < (state.1.leaves K).length
  · rw [if_pos hlt] at h
    split_ifs at h with hzero
    obtain rfl := Option.some.inj h
    exact ⟨hlt, rfl, rfl⟩
  · rw [if_neg hlt] at h
    simp at h

/-- An update that was checked starts at the committed root of the second
state. -/
theorem Checked.previousRoot_eq (ideal : Crypto.IdealHash K) {first second : HomeState K}
    (h : Checked homeDomain suggestedBy u first second) :
    u.previousRoot = second.1.home.committedRoot := by
  obtain ⟨-, check, hsecond, hsame⟩ := h
  obtain ⟨-, -, -, hprevious, -⟩ := produceUpdate_eq_some ideal hsecond
  exact hsame.symm.trans hprevious

/-- Its new root is queued there exactly when the messages of the first state are
still the first ones. -/
theorem Checked.proper_iff (ideal : Crypto.IdealHash K) {first second : HomeState K}
    (h : Checked homeDomain suggestedBy u first second) :
    Proper second.1.home u ↔ first.1.leaves K <+: second.1.leaves K := by
  have hroot := h.previousRoot_eq ideal
  obtain ⟨hfirst, check, hsecond, -⟩ := h
  obtain ⟨k, hin, hlt, hprevious, hnew⟩ := produceUpdate_eq_some ideal hfirst
  obtain ⟨k', hin', hlt', -, -⟩ := produceUpdate_eq_some ideal hsecond
  have hne := first.1.zero_notMem_leaves (K := K) ideal
  have hne' := second.1.zero_notMem_leaves (K := K) ideal
  constructor
  · intro hproper
    obtain ⟨j, hlow, hhigh, heq⟩ := hin'.contains_iff.mp hproper.newRoot
    rw [Home.prefixRoot_of_pos (Nat.zero_lt_of_lt hlow), hnew] at heq
    have hfit : ((second.1.leaves K).take j).length ≤ MerkleLib.MAX_LEAVES :=
      (List.length_take_le' j _).trans hin'.tree.fits
    have hkept := MerkleLib.eq_of_treeRoot_eq ideal hfit hin.tree.fits
      (fun hmem => hne' (List.mem_of_mem_take hmem)) hne heq
    exact hkept ▸ List.take_prefix j _
  · rintro ⟨more, hmore⟩
    -- both states have committed the same number of messages
    have hcommitted : Home.prefixRoot K (second.1.leaves K) k =
        Home.prefixRoot K (second.1.leaves K) k' := by
      rw [← hin'.committedRoot_eq, ← hroot, hprevious, hin.committedRoot_eq, ← hmore,
        Home.prefixRoot_append hlt.le]
    have hle : (first.1.leaves K).length ≤ (second.1.leaves K).length := by
      rw [← hmore, List.length_append]
      exact Nat.le_add_right _ _
    have hsame_k : k = k' := Home.prefixRoot_injOn ideal hin'.tree.fits hne'
      (hlt.le.trans hle) hlt'.le hcommitted
    refine ⟨hroot, hin'.contains_iff.mpr ⟨(first.1.leaves K).length, hsame_k ▸ hlt, hle, ?_⟩⟩
    rw [Home.prefixRoot_of_pos (Nat.zero_lt_of_lt hlt), hnew, ← hmore, List.take_left]

end Answers

/-- **What the pause protects.** In every run of the updater, over any branches
of the chain, an update that was signed is proper in the Home state that answered
the second query if and only if that state has kept the messages that were
dispatched in the state that answered the first one. -/
theorem signed_proper_iff (ideal : Crypto.IdealHash K) (homeDomain : UInt32)
    {s : State Byte (HomeState K)} (h : (system homeDomain suggestedBy).Reachable s) :
    ∀ a ∈ s.signed, Proper a.second.1.home a.signed.update ↔
      a.first.1.leaves K <+: a.second.1.leaves K :=
  fun a ha => ((sound_of_reachable h).checked a ha).proper_iff ideal

/-! ### Two branches of the chain -/

/-- A Home on some branch, whose only message goes to the given domain. -/
theorem exists_homeState (K : Crypto Byte) (destination : UInt32) :
    ∃ state : HomeState K, state.1.leaves K =
        [K.keccak256 ((⟨0, 0, destination, 0, []⟩ : Home.Dispatched Byte).message 1000)] ∧
      suggestedBy state = (0, MerkleLib.treeRoot K (state.1.leaves K)) := by
  have hinit := Home.initial_of_isContract 1000 (Home.sampleContext : Home.Context Byte) 0 0 rfl
  have hin := (Home.History.Initial.sound (K := K) hinit).inStep
  obtain ⟨history, hstep, h⟩ := Home.History.exists_dispatch Home.sampleContext destination 0 [] hin
    (by simp [MerkleLib.MAX_LEAVES, MerkleLib.TREE_DEPTH]) (by simp) (Nat.zero_le _)
  have hleaves : history.leaves K =
      [K.keccak256 ((⟨0, 0, destination, 0, []⟩ : Home.Dispatched Byte).message 1000)] := by
    rw [Home.History.leaves, h.dispatched, h.localDomain]
    rfl
  refine ⟨⟨history, (System.reachable_init hinit).step hstep⟩, hleaves, ?_⟩
  rw [suggestedBy, h.inStep.suggestUpdate_eq, if_pos (by simp [hleaves]),
    h.inStep.committedRoot_eq, Home.prefixRoot_zero]

/-- The updater signs the first answer when both start at the zero root. -/
theorem exists_signed {ω : Type} {suggest : ω → Bytes32 Byte × Bytes32 Byte} (homeDomain : UInt32)
    {first second : ω} {root root' : Bytes32 Byte} (hfirst : suggest first = (0, root))
    (hsecond : suggest second = (0, root')) (hne : root ≠ 0) (hne' : root' ≠ 0) :
    ∃ s : State Byte ω, (system homeDomain suggest).Reachable s ∧
      s.signed = [⟨⟨⟨homeDomain, 0, root⟩, []⟩, first, second⟩] := by
  have hanswer : answered homeDomain suggest ⟨none, fun _ => none⟩ 0 first =
      .pausing 0 ⟨homeDomain, 0, root⟩ first := by
    simp [answered, produceUpdate, hfirst, hne, DB.retrieveProducedUpdate]
  have hcheck : rechecked homeDomain suggest ⟨homeDomain, 0, root⟩ first second =
      .signing ⟨homeDomain, 0, root⟩ first second := by
    simp [rechecked, produceUpdate, hsecond, hne']
  have hrun : ([.wake, .answer first, .resume, .recheck second, .sign []] :
      List (Label Byte ω)).foldlM (fun s label => exec homeDomain suggest label s)
        ⟨⟨none, fun _ => none⟩, .asleep, .starting, []⟩ =
      some ⟨⟨none, fun _ => none⟩, .storing ⟨⟨homeDomain, 0, root⟩, []⟩, .starting,
        [⟨⟨⟨homeDomain, 0, root⟩, []⟩, first, second⟩]⟩ := by
    simp [exec, DB.findLatestRoot, hanswer, hcheck]
  exact ⟨_, ⟨_, _, ⟨rfl, rfl, rfl, rfl⟩, System.run_of_foldlM (fun _ _ _ hexec => hexec) hrun⟩, rfl⟩

/-- The second answer comes from the same state as the first. -/
theorem signed_proper_iff_unchanged :
    ∃ s : State ℕ (HomeState (Crypto.withIdealHash fun _ _ => none)),
      ∃ a ∈ s.signed, Proper a.second.1.home a.signed.update := by
  have ideal := Crypto.withIdealHash_ideal fun _ _ => none
  obtain ⟨state, -, hsuggest⟩ := exists_homeState (Crypto.withIdealHash fun _ _ => none) 2000
  obtain ⟨s, hreach, hsigned⟩ := exists_signed 1000 hsuggest hsuggest
    (MerkleLib.treeRoot_ne_zero ideal _) (MerkleLib.treeRoot_ne_zero ideal _)
  have ha : ⟨⟨⟨1000, 0, _⟩, []⟩, state, state⟩ ∈ s.signed := hsigned ▸ List.mem_singleton_self _
  exact ⟨s, _, ha, (signed_proper_iff ideal 1000 hreach _ ha).mpr (List.prefix_refl _)⟩

/-- The chain drops the only message during the pause and accepts another one.
The updater signs the first answer, and its new root is not in the queue. -/
theorem signs_dropped_root :
    ∃ s : State ℕ (HomeState (Crypto.withIdealHash fun _ _ => none)),
      (system 1000 suggestedBy).Reachable s ∧
        ∃ a ∈ s.signed, a.second.1.home.queue.contains a.signed.update.newRoot = false := by
  have ideal := Crypto.withIdealHash_ideal fun _ _ => none
  obtain ⟨first, hleaves, hsuggest⟩ := exists_homeState (Crypto.withIdealHash fun _ _ => none) 2000
  obtain ⟨second, hleaves', hsuggest'⟩ :=
    exists_homeState (Crypto.withIdealHash fun _ _ => none) 3000
  obtain ⟨s, hreach, hsigned⟩ := exists_signed 1000 hsuggest hsuggest'
    (MerkleLib.treeRoot_ne_zero ideal _) (MerkleLib.treeRoot_ne_zero ideal _)
  have ha : ⟨⟨⟨1000, 0, _⟩, []⟩, first, second⟩ ∈ s.signed := hsigned ▸ List.mem_singleton_self _
  have hchecked := (sound_of_reachable hreach).checked _ ha
  refine ⟨s, hreach, _, ha, ?_⟩
  by_contra hqueued
  have hkept := (hchecked.proper_iff ideal).mp
    ⟨hchecked.previousRoot_eq ideal, by simpa using hqueued⟩
  rw [hleaves, hleaves'] at hkept
  -- the only leaves are the hashes of messages to different destinations
  have hleaf := (List.cons_prefix_cons.mp hkept).1
  have hread := congrArg Message.destination (ideal.injective hleaf)
  simp only [Home.Dispatched.message, Message.destination_formatMessage] at hread
  exact absurd (Except.ok.inj hread) (by decide)

end Optics.Updater
