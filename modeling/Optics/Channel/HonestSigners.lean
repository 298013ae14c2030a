/-
# An honest updater is never slashed

Signatures stay public, and old ones can be presented again at any time. An
updater that signs only from the committed root to a queued root, and never two
roots on one old root, is safe all the same: the committed root never returns to
an earlier value, and a root leaves the queue only when the committed root moves.
-/

import Optics.Channel.Basic

namespace Optics.Channel

open Optics.Solidity Optics.Common Optics.Math.Transition

variable {Byte ω E η : Type} [ByteAlphabet Byte] [DecidableEq Byte] {K : Crypto Byte}
  {S : Replica.Surroundings Byte ω E η} {honest : Address Byte → Prop} {s : Channel Byte E η}

/-- Every address that becomes the updater of Home is honest: it signs only from
the committed root to a root of the queue, and never two roots on one old root.
Nobody can present a signature of such an address on a pair it has not signed. -/
def honestSigners (K : Crypto Byte) (honest : Address Byte → Prop) : Rules Byte E η where
  start source := honest source.home.updater
  sign s signing := honest signing.signer →
    signing.oldRoot = s.source.home.committedRoot ∧
      s.source.home.queue.contains signing.newRoot = true ∧
      ∀ earlier ∈ s.signed, earlier.signer = signing.signer → earlier.oldRoot = signing.oldRoot →
        earlier.newRoot = signing.newRoot
  present s u := ∀ signer, honest signer → IsSignedBy K s.source.home.localDomain signer u →
    ⟨signer, u.oldRoot, u.newRoot⟩ ∈ s.signed
  home s ctx call := ∀ updater, call = .setUpdater updater →
    ctx.sender = s.source.home.updaterManager → honest updater
  deploy _ _ := True

/-- What honest signers have signed leads from the root of a prefix to the root
of a longer prefix, with one new root for each old root. -/
structure SignedAhead (K : Crypto Byte) (honest : Address Byte → Prop) (s : Channel Byte E η) :
    Prop where
  ahead : ∀ signing ∈ s.signed, honest signing.signer →
    ∃ i j, i < j ∧ j ≤ (s.source.leaves K).length ∧
      signing.oldRoot = Home.prefixRoot K (s.source.leaves K) i ∧
      signing.newRoot = Home.prefixRoot K (s.source.leaves K) j
  single : ∀ first ∈ s.signed, ∀ second ∈ s.signed, honest first.signer →
    first.signer = second.signer → first.oldRoot = second.oldRoot →
    first.newRoot = second.newRoot

omit [DecidableEq Byte] in
theorem SignedAhead.extend (h : SignedAhead K honest s) {source : Home.History Byte}
    (hext : Extends K s.source source) : SignedAhead K honest { s with source := source } := by
  refine ⟨fun signing hmem hhonest => ?_, h.single⟩
  obtain ⟨i, j, hij, hj, hold, hnew⟩ := h.ahead signing hmem hhonest
  obtain ⟨more, hmore⟩ := hext.leaves
  refine ⟨i, j, hij, ?_, ?_, ?_⟩
  · rw [← hmore, List.length_append]
    exact hj.trans (Nat.le_add_right _ _)
  · rw [← hmore, Home.prefixRoot_append (hij.le.trans hj)]
    exact hold
  · rw [← hmore, Home.prefixRoot_append hj]
    exact hnew

/-- No call proves a fraud against an honest updater. -/
theorem not_fraud (ideal : Crypto.IdealHash K) {k : ℕ} (hsound : s.source.Sound K k)
    (hahead : SignedAhead K honest s) (hupdater : honest s.source.home.updater)
    {call : Home.Call Byte}
    (hpresent : ∀ u ∈ call.presented, (honestSigners K honest : Rules Byte E η).present s u) :
    ¬ Home.Fraud K s.source.home call := by
  have hin := hsound.inStep
  intro hfraud
  cases hfraud with
  | improper u hcall hsigned hcurrent habsent =>
    have hu : u ∈ call.presented := by
      rcases hcall with rfl | rfl
      · exact List.mem_singleton_self u
      · exact List.mem_singleton_self u
    obtain ⟨i, j, hij, hj, hold, hnew⟩ := hahead.ahead _ (hpresent u hu _ hupdater hsigned) hupdater
    -- the old root is the committed one, so the signature starts at the present position
    have hposition : i = k := by
      refine Home.prefixRoot_injOn ideal hin.tree.fits (s.source.zero_notMem_leaves ideal)
        (hij.le.trans hj) hin.k_le ?_
      rw [← hold, hcurrent, hin.committedRoot_eq]
    have hqueued := hin.contains_iff.mpr ⟨j, hposition ▸ hij, hj, hnew.symm⟩
    rw [habsent] at hqueued
    cases hqueued
  | double oldRoot newRoot₀ newRoot₁ signature signature₂ hfirst hsecond hne =>
    have hfirst' := hpresent ⟨oldRoot, newRoot₀, signature⟩ (by simp [Home.Call.presented]) _
      hupdater hfirst
    have hsecond' := hpresent ⟨oldRoot, newRoot₁, signature₂⟩ (by simp [Home.Call.presented]) _
      hupdater hsecond
    exact hne (hahead.single _ hfirst' _ hsecond' hupdater rfl rfl)

/-- The invariant of a channel with honest signers. -/
structure Unslashed (K : Crypto Byte) (honest : Address Byte → Prop) (s : Channel Byte E η) :
    Prop where
  signed : SignedAhead K honest s
  updater : honest s.source.home.updater
  active : s.source.home.state = .Active
  log : ∀ updater reporter, Home.Event.UpdaterSlashed updater reporter ∉ s.source.log

theorem Unslashed.home (ideal : Crypto.IdealHash K) {k : ℕ} (hsound : s.source.Sound K k)
    (h : Unslashed K honest s) {ctx : Home.Context Byte} {call : Home.Call Byte}
    {source : Home.History Byte}
    (hcall : (honestSigners K honest : Rules Byte E η).home s ctx call)
    (hpresent : ∀ u ∈ call.presented, (honestSigners K honest : Rules Byte E η).present s u)
    (hstep : (Home.system K).step s.source (ctx, call) source) :
    Unslashed K honest { s with source := source } := by
  have hsigned := h.signed.extend (extends_of_step hstep)
  rcases hstep with hexec | ⟨-, rfl⟩
  · obtain ⟨home', events, hok, rfl⟩ := Home.History.exec_eq_ok.mp hexec
    have heffect := Home.effect_of_exec hok
    have hlog : ∀ quiet : ∀ updater reporter, Home.Event.UpdaterSlashed updater reporter ∉ events,
        ∀ updater reporter, Home.Event.UpdaterSlashed updater reporter ∉ s.source.log ++ events := by
      intro hquiet updater reporter hmem
      rcases List.mem_append.mp hmem with hold | hnew
      · exact h.log updater reporter hold
      · exact hquiet updater reporter hnew
    cases heffect with
    | dispatched => exact ⟨hsigned, h.updater, h.active, hlog (by simp)⟩
    | committed => exact ⟨hsigned, h.updater, h.active, hlog (by simp)⟩
    | slashed updater manager hstate hfraud hevents =>
      exact absurd hfraud (not_fraud ideal hsound h.signed h.updater hpresent)
    | unchanged => exact ⟨hsigned, h.updater, h.active, hlog (by simp)⟩
    | newUpdater updater hsender =>
      exact ⟨hsigned, hcall updater rfl hsender, h.active, hlog (by simp)⟩
    | newUpdaterManager => exact ⟨hsigned, h.updater, h.active, hlog (by simp)⟩
  · exact h

theorem unslashed_of_reachable (ideal : Crypto.IdealHash K)
    (h : (system K S (honestSigners K honest)).Reachable s) : Unslashed K honest s := by
  refine h.invariant ?_ ?_
  · intro s hinit
    obtain ⟨hinitial, hhonest, -, hsigned⟩ := hinit
    refine ⟨⟨?_, ?_⟩, hhonest, hinitial.active, hinitial.log_quiet⟩
    · simp [hsigned]
    · simp [hsigned]
  · intro s label s' hreach hunslashed hstep
    obtain ⟨k, hsound⟩ := sound_of_reachable ideal hreach
    cases hstep with
    | sign signing hsign =>
      refine ⟨⟨?_, ?_⟩, hunslashed.updater, hunslashed.active, hunslashed.log⟩
      · intro signing' hmem hhonest
        rcases List.mem_cons.mp hmem with rfl | hold
        · obtain ⟨hcurrent, hqueued, -⟩ := hsign hhonest
          obtain ⟨j, hlow, hhigh, hroot⟩ := hsound.inStep.contains_iff.mp hqueued
          exact ⟨k, j, hlow, hhigh, hcurrent.trans hsound.inStep.committedRoot_eq, hroot.symm⟩
        · exact hunslashed.signed.ahead signing' hold hhonest
      · intro first hfirst second hsecond hhonest hsigner hroot
        rcases List.mem_cons.mp hfirst with rfl | hold
        · rcases List.mem_cons.mp hsecond with rfl | hold'
          · rfl
          · exact ((hsign hhonest).2.2 second hold' hsigner.symm hroot.symm).symm
        · rcases List.mem_cons.mp hsecond with rfl | hold'
          · exact (hsign (hsigner ▸ hhonest)).2.2 first hold hsigner hroot
          · exact hunslashed.signed.single first hold second hold' hhonest hsigner hroot
    | home ctx call source hcall hpresent hstep =>
      exact hunslashed.home ideal hsound hcall hpresent hstep
    | deploy =>
      exact ⟨⟨hunslashed.signed.ahead, hunslashed.signed.single⟩, hunslashed.updater,
        hunslashed.active, hunslashed.log⟩
    | replica =>
      exact ⟨⟨hunslashed.signed.ahead, hunslashed.signed.single⟩, hunslashed.updater,
        hunslashed.active, hunslashed.log⟩

/-- **An honest updater is never slashed.** As long as every updater of Home is
honest, Home stays active, no updater is recorded as slashed, and no call comes
as far as asking for it. -/
theorem honest_never_slashed (ideal : Crypto.IdealHash K)
    (h : (system K S (honestSigners K honest)).Reachable s) :
    s.source.home.state = .Active ∧
      (∀ updater reporter, Home.Event.UpdaterSlashed updater reporter ∉ s.source.log) ∧
      ∀ ctx call, (∀ u ∈ call.presented, ∀ signer, honest signer →
          IsSignedBy K s.source.home.localDomain signer u →
          ⟨signer, u.oldRoot, u.newRoot⟩ ∈ s.signed) →
        Home.exec K ctx call s.source.home ≠ .error (.external "slashUpdater") := by
  have hunslashed := unslashed_of_reachable ideal h
  obtain ⟨k, hsound⟩ := sound_of_reachable ideal h
  refine ⟨hunslashed.active, hunslashed.log, ?_⟩
  intro ctx call hpresent hslash
  exact not_fraud ideal hsound hunslashed.signed hunslashed.updater hpresent
    (Home.fraud_of_slash_reverts hslash)

/-- A run in which Home commits the root that its updater signed. -/
theorem honest_never_slashed_after_update :
    ∃ s : Channel ℕ Unit Unit, s.source.home.committedRoot ≠ 0 ∧
      s.source.home.state = .Active ∧
      (∀ updater reporter, Home.Event.UpdaterSlashed updater reporter ∉ s.source.log) ∧
      ∀ ctx call, (∀ u ∈ call.presented, ∀ signer, signer = 0 →
          IsSignedBy sampleCrypto s.source.home.localDomain signer u →
          ⟨signer, u.oldRoot, u.newRoot⟩ ∈ s.signed) →
        Home.exec sampleCrypto ctx call s.source.home ≠ .error (.external "slashUpdater") := by
  let K := sampleCrypto
  have ideal : Crypto.IdealHash K := sampleCrypto_ideal
  obtain ⟨start, source, hinitial, hstart, hdispatch, -, hactive, hupdater, hdispatched, hin⟩ :=
    Home.exists_dispatched K 0
  have hlength : (source.leaves K).length = 1 := by simp [Home.History.leaves, hdispatched]
  let root := Home.prefixRoot K (source.leaves K) 1
  have hne : Home.prefixRoot K (source.leaves K) 1 ≠ 0 := by
    rw [Home.prefixRoot_of_pos Nat.one_pos]
    exact MerkleLib.treeRoot_ne_zero ideal _
  have hqueued : source.home.queue.contains root = true :=
    hin.contains_iff.mpr ⟨1, Nat.one_pos, hlength.ge, rfl⟩
  obtain ⟨queue, hupdate, -⟩ := Home.exec_update_of_lt ideal hin (source.zero_notMem_leaves ideal)
    Nat.one_pos hlength.ge Home.sampleContext (u := ⟨source.home.committedRoot, root, []⟩) rfl rfl
    (by simp [hactive]) (by rw [hupdater]; rfl)
  have hreach : (system K bareSurroundings (honestSigners K (· = 0))).Reachable ⟨start, none, []⟩ :=
    System.reachable_init ⟨hinitial, hstart, rfl, rfl⟩
  have hhome := hreach.step (.home _ _ source (fun _ h => by cases h) (fun u hu => by cases hu) hdispatch)
  have hsign := hhome.step (.sign ⟨0, source.home.committedRoot, root⟩ fun _ =>
    ⟨rfl, hqueued, fun _ h => by cases h⟩)
  have hcommit := hsign.step (.home _ _ _ (fun _ h => by cases h)
    (fun u hu signer hsigner _ => by
      obtain rfl := List.mem_singleton.mp hu
      exact hsigner ▸ List.mem_cons_self)
    (Home.History.step_of_exec hupdate))
  exact ⟨_, hne, honest_never_slashed ideal hcommit⟩

end Optics.Channel
