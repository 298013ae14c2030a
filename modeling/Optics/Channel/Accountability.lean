/-
# Accountability of the updater

Home and Replica each hold a chain of updates signed by the same updater. Walk
along the chain of the Replica. As long as each of its updates is one that Home
accepted too, its roots are roots of prefixes. At the first update where the
chains part, either Home has left the old root by another update, and the two
are a double update; or Home still stands there, and the update is improper or
can be replayed on Home, after which the walk goes on.
-/

import Optics.Channel.Basic

namespace Optics.Channel

open Optics.Solidity Optics.Common Optics.Math.Transition

variable {Byte ω E η : Type} [ByteAlphabet Byte] [DecidableEq Byte] {K : Crypto Byte}
  {S : Replica.Surroundings Byte ω E η} {updater : Address Byte} {s : Channel Byte E η}

/-- Home and the Replica share one updater, who is never replaced. Anything may
be signed and presented. -/
def sharedUpdater (updater : Address Byte) : Rules Byte E η where
  start source := source.home.updater = updater
  sign _ _ := True
  present _ _ := True
  home s ctx call := ∀ next, call = .setUpdater next →
    ctx.sender = s.source.home.updaterManager → next = updater
  deploy _ chain := chain.replica.updater = updater

/-! ### Chains of updates -/

omit [ByteAlphabet Byte] [DecidableEq Byte] in
/-- A chain goes on from every root on it but the last. -/
theorem exists_update_from {start finish root : Bytes32 Byte} {chain : List (SignedUpdate Byte)}
    (h : UpdateChain start chain finish)
    (hroot : root ∈ start :: chain.map SignedUpdate.newRoot) (hne : root ≠ finish) :
    ∃ u ∈ chain, u.oldRoot = root := by
  induction chain generalizing start with
  | nil =>
    obtain rfl := List.mem_singleton.mp hroot
    exact absurd h hne
  | cons u rest ih =>
    obtain ⟨hold, hrest⟩ := h
    rcases List.mem_cons.mp hroot with rfl | hmem
    · exact ⟨u, List.mem_cons_self, hold⟩
    · obtain ⟨v, hv, hvroot⟩ := ih hrest hmem
      exact ⟨v, List.mem_cons_of_mem _ hv, hvroot⟩

/-- The root is that of the tree of a nonempty prefix of the leaves. -/
def IsTreeRoot (K : Crypto Byte) (leaves : List (Bytes32 Byte)) (root : Bytes32 Byte) : Prop :=
  ∃ k, 0 < k ∧ k ≤ leaves.length ∧ root = MerkleLib.treeRoot K (leaves.take k)

omit [DecidableEq Byte] in
/-- Home only ever accepts roots of nonempty prefixes. -/
theorem isTreeRoot_of_accepted {source : Home.History Byte} {k : ℕ} (h : source.Sound K k)
    {root : Bytes32 Byte} (hroot : root ∈ (Home.updates source.log).map SignedUpdate.newRoot) :
    IsTreeRoot K (source.leaves K) root := by
  obtain ⟨u, hu, rfl⟩ := List.mem_map.mp hroot
  obtain ⟨i, j, hij, hj, -, hnew⟩ := h.positions u hu
  have hpos : 0 < j := Nat.zero_lt_of_lt hij
  exact ⟨j, hpos, hj.trans h.inStep.k_le, hnew.trans (Home.prefixRoot_of_pos hpos)⟩

/-- The calls by which anybody can report an update or a fraud. -/
def Permissionless : Home.Call Byte → Prop
  | .update _ | .improperUpdate _ | .doubleUpdate _ _ _ _ _ => True
  | _ => False

/-- Home can be failed by permissionless calls that present only signatures from
the evidence. -/
def CanFail (K : Crypto Byte) (ctx : Home.Context Byte) (evidence : SignedUpdate Byte → Prop)
    (source : Home.History Byte) : Prop :=
  ∃ (calls : List (Home.Call Byte)) (final : Home.History Byte),
    (∀ call ∈ calls, Permissionless call ∧ ∀ u ∈ call.presented, evidence u) ∧
    (Home.system K).Run source (calls.map fun call => (ctx, call)) final ∧
    final.home.state = .Failed

/-- What is known of a Home that has not failed: it is sound, and what it
accepted is signed by its updater and part of the evidence. -/
structure Standing (K : Crypto Byte) (updater : Address Byte)
    (evidence : SignedUpdate Byte → Prop) (source : Home.History Byte) (k : ℕ) : Prop where
  sound : source.Sound K k
  state : source.home.state ≠ .Failed
  updater : source.home.updater = updater
  accepted : ∀ u ∈ Home.updates source.log, evidence u ∧
    IsSignedBy K source.home.localDomain source.home.updater u

section Walk

variable {ctx : Home.Context Byte} {evidence : SignedUpdate Byte → Prop}
  {source source' : Home.History Byte} {k : ℕ}

/-- One permissionless call that fails Home is enough. -/
theorem CanFail.of_exec {call : Home.Call Byte} {home : Home Byte} {events : List (Home.Event Byte)}
    (hcall : Permissionless call) (hpresent : ∀ u ∈ call.presented, evidence u)
    (hexec : Home.exec K ctx call source.home = .ok (home, events))
    (hfailed : home.state = .Failed) :
    CanFail K ctx evidence source := by
  refine ⟨[call], _, ?_, .single (Home.History.step_of_exec hexec), hfailed⟩
  intro call' hmem
  obtain rfl := List.mem_singleton.mp hmem
  exact ⟨hcall, hpresent⟩

/-- A permissionless call may come before those that fail Home. -/
theorem CanFail.of_step {call : Home.Call Byte} (hcall : Permissionless call)
    (hpresent : ∀ u ∈ call.presented, evidence u)
    (hstep : (Home.system K).step source (ctx, call) source')
    (h : CanFail K ctx evidence source') : CanFail K ctx evidence source := by
  obtain ⟨calls, final, hcalls, hrun, hfailed⟩ := h
  refine ⟨call :: calls, final, ?_, (System.Run.single hstep).trans hrun, hfailed⟩
  intro call' hmem
  rcases List.mem_cons.mp hmem with rfl | hrest
  · exact ⟨hcall, hpresent⟩
  · exact hcalls call' hrest

/-- A signature on the present committed root can be replayed on Home. Either
that moves Home to the new root, or it fails Home. -/
theorem Standing.replay (ideal : Crypto.IdealHash K) {nested : List (Home.Reconfiguration Byte)}
    (hslash : ctx.slashUpdater = .returns nested) (h : Standing K updater evidence source k)
    {u : SignedUpdate Byte} (hevidence : evidence u)
    (hsigned : IsSignedBy K source.home.localDomain updater u)
    (hcurrent : u.oldRoot = source.home.committedRoot) :
    CanFail K ctx evidence source ∨ ∃ source' k',
      (Home.system K).step source (ctx, .update u) source' ∧
      Standing K updater evidence source' k' ∧
        source'.leaves K = source.leaves K ∧
        source'.home.localDomain = source.home.localDomain ∧
        u.newRoot ∈ (Home.updates source'.log).map SignedUpdate.newRoot := by
  have hin := h.sound.inStep
  have hsigned' : IsSignedBy K source.home.localDomain source.home.updater u := h.updater ▸ hsigned
  cases hqueued : source.home.queue.contains u.newRoot with
  | false =>
    left
    obtain ⟨home, events, hexec, hfailed⟩ :=
      Home.exec_improperUpdate_of_absent hslash h.state hsigned' hcurrent hqueued
    refine .of_exec (show Permissionless (.improperUpdate u) from trivial) ?_ hexec hfailed
    intro v hv
    obtain rfl := List.mem_singleton.mp hv
    exact hevidence
  | true =>
    right
    obtain ⟨j, hlow, hhigh, hroot⟩ := hin.contains_iff.mp hqueued
    obtain ⟨queue, hexec, -⟩ := Home.exec_update_of_lt ideal hin
      (source.zero_notMem_leaves ideal) hlow hhigh ctx hcurrent hroot.symm h.state hsigned'
    have hhistory : Home.History.exec K (ctx, .update u) source = .ok _ :=
      Home.History.exec_eq_ok.mpr ⟨_, _, hexec, rfl⟩
    obtain ⟨k', hsound, -⟩ := h.sound.exec ideal hhistory
    have hlog : Home.updates (source.log ++ [.Update source.home.localDomain u]) =
        Home.updates source.log ++ [u] := Home.updates_append _ _
    refine ⟨_, k', .inl hhistory, ⟨hsound, h.state, h.updater, ?_⟩, ?_, rfl, ?_⟩
    · intro v hv
      rw [hlog] at hv
      rcases List.mem_append.mp hv with hold | hnew
      · exact h.accepted v hold
      · obtain rfl := List.mem_singleton.mp hnew
        exact ⟨hevidence, hsigned'⟩
    · simp [Home.History.leaves, Home.Call.dispatched]
    · refine List.mem_map_of_mem ?_
      rw [hlog]
      exact List.mem_append_right _ (List.mem_singleton_self u)

/-- A signature on a root that Home has left leads to the root that Home went on
to, or it conflicts with the update by which Home left and fails Home. -/
theorem Standing.compare {nested : List (Home.Reconfiguration Byte)}
    (hslash : ctx.slashUpdater = .returns nested) (h : Standing K updater evidence source k)
    {u : SignedUpdate Byte} (hevidence : evidence u)
    (hsigned : IsSignedBy K source.home.localDomain updater u)
    (hroot : u.oldRoot ∈ committedRoots source) (hleft : u.oldRoot ≠ source.home.committedRoot) :
    CanFail K ctx evidence source ∨
      u.newRoot ∈ (Home.updates source.log).map SignedUpdate.newRoot := by
  obtain ⟨v, hv, hold⟩ := exists_update_from h.sound.chain hroot hleft
  obtain ⟨hevidence', hsigned'⟩ := h.accepted v hv
  by_cases hnew : u.newRoot = v.newRoot
  · right
    rw [hnew]
    exact List.mem_map_of_mem hv
  · left
    obtain ⟨home, events, hexec, hfailed⟩ := Home.exec_doubleUpdate_of_conflict hslash h.state
      (h.updater.symm ▸ hsigned) hsigned' hold hnew
    refine .of_exec (show Permissionless (.doubleUpdate _ _ _ _ _) from trivial) ?_ hexec hfailed
    intro w hw
    rcases List.mem_cons.mp hw with rfl | hw
    · exact hevidence
    · obtain rfl := List.mem_singleton.mp hw
      exact hold ▸ hevidence'

/-- **Walk lemma.** A chain of signed updates that starts from a root Home has
committed stays on roots of prefixes, or Home can be failed. -/
theorem Standing.walk (ideal : Crypto.IdealHash K) {nested : List (Home.Reconfiguration Byte)}
    (hslash : ctx.slashUpdater = .returns nested) (h : Standing K updater evidence source k)
    {start finish : Bytes32 Byte} {chain : List (SignedUpdate Byte)}
    (hchain : UpdateChain start chain finish) (hstart : start ∈ committedRoots source)
    (hsigned : ∀ u ∈ chain, evidence u ∧ IsSignedBy K source.home.localDomain updater u) :
    (∀ u ∈ chain, IsTreeRoot K (source.leaves K) u.newRoot) ∨
      CanFail K ctx evidence source := by
  induction chain generalizing start source k with
  | nil => exact .inl fun u hu => by cases hu
  | cons u rest ih =>
    obtain ⟨hold, hrest⟩ := hchain
    obtain ⟨hevidence, hu⟩ := hsigned u List.mem_cons_self
    have hsignedRest := fun v hv => hsigned v (List.mem_cons_of_mem _ hv)
    by_cases hcurrent : u.oldRoot = source.home.committedRoot
    · rcases h.replay ideal hslash hevidence hu hcurrent with
        hfail | ⟨source', k', hstep, hstanding, hleaves, hdomain, hnext⟩
      · exact .inr hfail
      · rcases ih hstanding hrest (List.mem_cons_of_mem _ hnext) (hdomain.symm ▸ hsignedRest) with
          hroots | hfail
        · left
          rw [← hleaves]
          exact List.forall_mem_cons.mpr ⟨isTreeRoot_of_accepted hstanding.sound hnext, hroots⟩
        · right
          refine .of_step (show Permissionless (.update u) from trivial) (fun v hv => ?_)
            hstep hfail
          obtain rfl := List.mem_singleton.mp hv
          exact hevidence
    · rcases h.compare hslash hevidence hu (hold ▸ hstart) hcurrent with hfail | hnext
      · exact .inr hfail
      · rcases ih h hrest (List.mem_cons_of_mem _ hnext) hsignedRest with hroots | hfail
        · exact .inl (List.forall_mem_cons.mpr ⟨isTreeRoot_of_accepted h.sound hnext, hroots⟩)
        · exact .inr hfail

end Walk

/-! ### Over a run of the channel -/

/-- While Home has not failed, what it accepted is signed by the shared updater,
who is also that of the Replica. -/
structure Shared (K : Crypto Byte) (updater : Address Byte) (s : Channel Byte E η) : Prop where
  home : s.source.home.state ≠ .Failed → s.source.home.updater = updater ∧
    ∀ u ∈ Home.updates s.source.log, IsSignedBy K s.source.home.localDomain updater u
  replica : ∀ chain, s.replica = some chain → chain.replica.updater = updater

theorem shared_of_reachable (h : (system K S (sharedUpdater updater)).Reachable s) :
    Shared K updater s := by
  refine h.invariant ?_ ?_
  · intro s hinit
    obtain ⟨hinitial, hupdater, hnone, -⟩ := hinit
    refine ⟨fun _ => ⟨hupdater, ?_⟩, fun chain hchain => ?_⟩
    · rw [hinitial.updates_eq]
      intro u hu
      cases hu
    · rw [hnone] at hchain
      cases hchain
  · intro s label s' _ hshared hstep
    cases hstep with
    | sign => exact ⟨hshared.home, hshared.replica⟩
    | home ctx call source hcall hpresent hstep =>
      refine ⟨?_, hshared.replica⟩
      refine callStep_cases (P := fun _ t => t.home.state ≠ .Failed → t.home.updater = updater ∧
        ∀ u ∈ Home.updates t.log, IsSignedBy K t.home.localDomain updater u) hstep ?_ hshared.home
      intro t hexec hstate
      obtain ⟨home', events, hok, rfl⟩ := Home.History.exec_eq_ok.mp hexec
      have heffect := Home.effect_of_exec hok
      dsimp only at hstate ⊢
      have hquiet : s.source.home.state ≠ .Failed → Home.updates events = [] →
          ∀ u ∈ Home.updates (s.source.log ++ events),
            IsSignedBy K s.source.home.localDomain updater u := by
        intro hstate hnone u hu
        rw [Home.updates_append, hnone, List.append_nil] at hu
        exact (hshared.home hstate).2 u hu
      cases heffect with
      | dispatched => exact ⟨(hshared.home hstate).1, hquiet hstate rfl⟩
      | committed u queue hstate' hsigned hcurrent hqueued hloop =>
        obtain ⟨hupdater, hold⟩ := hshared.home hstate'
        refine ⟨hupdater, fun v hv => ?_⟩
        rw [Home.updates_append] at hv
        rcases List.mem_append.mp hv with hv | hv
        · exact hold v hv
        · obtain rfl := List.mem_singleton.mp hv
          exact hupdater ▸ hsigned
      | slashed => exact absurd rfl hstate
      | unchanged => exact ⟨(hshared.home hstate).1, hquiet hstate rfl⟩
      | newUpdater next hsender =>
        -- the manager may only name the updater again
        exact ⟨hcall next rfl hsender, hquiet hstate rfl⟩
      | newUpdaterManager => exact ⟨(hshared.home hstate).1, hquiet hstate rfl⟩
    | deploy chain root hnone hdeploy hinitial hdomain hroot =>
      refine ⟨hshared.home, fun chain' hchain => ?_⟩
      obtain rfl := Option.some.inj hchain
      exact hdeploy
    | replica time call chain chain' hsome hpresent hstep =>
      refine ⟨hshared.home, fun after hafter => ?_⟩
      obtain rfl := Option.some.inj hafter
      rcases path_of_transact (P := fun _ => True) (fun _ _ => trivial) hstep.2 with hpath | rfl
      · exact (Replica.path_frame hpath).1.updater.trans (hshared.replica chain hsome)
      · exact hshared.replica _ hsome

/-- **Accountability.** When Home is active, every root that the Replica has
accepted is the root of a prefix of the dispatched messages, or anybody can fail
Home with signatures that one of the two has accepted. -/
theorem accepted_or_canFail (ideal : Crypto.IdealHash K)
    (h : (system K S (sharedUpdater updater)).Reachable s)
    (hactive : s.source.home.state = .Active) {chain : Replica.Chain Byte E η}
    (hchain : s.replica = some chain) {ctx : Home.Context Byte}
    {nested : List (Home.Reconfiguration Byte)} (hslash : ctx.slashUpdater = .returns nested) :
    (∀ u ∈ Replica.accepted chain.trace, IsTreeRoot K (s.source.leaves K) u.newRoot) ∨
      CanFail K ctx (fun u => u ∈ Home.updates s.source.log ∨ u ∈ Replica.accepted chain.trace)
        s.source := by
  obtain ⟨k, hsound⟩ := sound_of_reachable ideal h
  obtain ⟨root₀, hfollows⟩ := follows_of_reachable h hchain
  have hshared := shared_of_reachable h
  have hstate : s.source.home.state ≠ .Failed := by simp [hactive]
  obtain ⟨hupdater, haccepted⟩ := hshared.home hstate
  have hstanding : Standing K updater
      (fun u => u ∈ Home.updates s.source.log ∨ u ∈ Replica.accepted chain.trace) s.source k :=
    ⟨hsound, hstate, hupdater, fun u hu => ⟨.inl hu, hupdater.symm ▸ haccepted u hu⟩⟩
  refine hstanding.walk ideal hslash hfollows.explained.chain hfollows.committed ?_
  intro u hu
  have hsigned := hfollows.explained.signed u hu
  rw [hfollows.remoteDomain, hshared.replica chain hchain] at hsigned
  exact ⟨.inr hu, hsigned⟩

/-- A Replica that has accepted a root which Home never had. -/
theorem accepted_or_canFail_forged :
    ∃ (s : Channel ℕ Unit Unit) (chain : Replica.Chain ℕ Unit Unit),
      s.source.home.state = .Active ∧ s.replica = some chain ∧
      (¬ ∀ u ∈ Replica.accepted chain.trace,
        IsTreeRoot sampleCrypto (s.source.leaves sampleCrypto) u.newRoot) ∧
      CanFail sampleCrypto Home.sampleContext
        (fun u => u ∈ Home.updates s.source.log ∨ u ∈ Replica.accepted chain.trace) s.source := by
  have hinitial := Home.initial_of_isContract 1000 (Home.sampleContext : Home.Context ℕ) 0 0 rfl
  have hstart : (system sampleCrypto bareSurroundings (sharedUpdater 0)).Reachable ⟨_, none, []⟩ :=
    System.reachable_init ⟨hinitial, rfl, rfl, rfl⟩
  let chain₀ : Replica.Chain ℕ Unit Unit := .deployed 2000 1000 0 0 1800 1 ()
  have hdeploy := hstart.step (.deploy chain₀ 0 rfl rfl
    (Replica.Chain.deployed_initial _ _ _ _ _ _ _) rfl List.mem_cons_self)
  -- the updater signs the hash of some bytes in place of a root
  let u : SignedUpdate ℕ := ⟨0, sampleCrypto.keccak256 [], []⟩
  have hupdate : (Replica.Call.update u : Replica.Call ℕ Empty).exec sampleCrypto bareSurroundings
      chain₀ = .ok _ := Replica.Call.exec_update (by decide) rfl rfl
  have hforged := hdeploy.step (.replica 1 _ chain₀ _ rfl (fun _ _ => trivial)
    ⟨Nat.le_refl 1, .inl hupdate⟩)
  have hne : ¬ ∀ v ∈ [u], IsTreeRoot sampleCrypto [] v.newRoot := by
    intro hroots
    obtain ⟨k, hpos, hle, -⟩ := hroots u (List.mem_singleton_self u)
    exact absurd hle (Nat.not_le_of_lt hpos)
  have hslash : (Home.sampleContext : Home.Context ℕ).slashUpdater = .returns [] := rfl
  have hfail := (accepted_or_canFail sampleCrypto_ideal hforged rfl rfl hslash).resolve_left hne
  refine ⟨⟨_, some _, []⟩, _, ?_, rfl, ?_, hfail⟩
  · rfl
  · exact hne

end Optics.Channel
