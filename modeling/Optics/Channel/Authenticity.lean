/-
# Authenticity and at-most-once delivery

When the updater signs only what Home could commit, every root that the Replica
accepts is the root of a prefix of the dispatched messages. A message that is
proven under such a root was dispatched, and each is handed over once, so the
calls of recipients match the dispatches one to one.
-/

import Optics.Channel.Basic

namespace Optics.Channel

open Optics.Solidity Optics.Common Optics.Math.Transition
open Relation (ReflTransGen)

variable {Byte ω E η : Type}

/-- The calls of recipients in a trace, each with the message it is for. -/
def deliveries (trace : List (ℕ × Replica.Action Byte η)) :
    List (List Byte × Replica.Handle Byte) :=
  trace.filterMap fun entry =>
    match entry.2 with
    | .called message handle _ => some (message, handle)
    | _ => none

theorem mem_deliveries {trace : List (ℕ × Replica.Action Byte η)} {message : List Byte}
    {handle : Replica.Handle Byte} (h : (message, handle) ∈ deliveries trace) :
    ∃ time before, (time, .called message handle before) ∈ trace := by
  obtain ⟨⟨time, action⟩, hmem, haction⟩ := List.mem_filterMap.mp h
  cases action with
  | called message' handle' before =>
    obtain ⟨rfl, rfl⟩ := Prod.mk.inj (Option.some.inj haction)
    exact ⟨time, before, hmem⟩
  | event => cases haction
  | proven => cases haction
  | handled => cases haction
  | other => cases haction

theorem deliveries_of_mem {trace : List (ℕ × Replica.Action Byte η)} {message : List Byte}
    {handle : Replica.Handle Byte} {time : ℕ} {before : Replica.MessageStatus}
    (h : (time, .called message handle before) ∈ trace) : (message, handle) ∈ deliveries trace :=
  List.mem_filterMap.mpr ⟨_, h, rfl⟩

variable [ByteAlphabet Byte]

/-- A call of a recipient hands over a dispatch from one domain to another:
origin, sender and body are those of the dispatch, the recipient is the low part
of the dispatched recipient, and the dispatch was for this chain. -/
structure Delivers (origin destination : UInt32) (d : Home.Dispatched Byte)
    (handle : Replica.Handle Byte) : Prop where
  origin : handle.origin = origin
  sender : handle.sender = addressToBytes32 d.sender
  destination : d.destination = destination
  recipient : handle.recipient = bytes32ToAddress d.recipient
  body : handle.body = d.body

/-- What is called for the message of a dispatch is the dispatch. -/
theorem delivers_of_handleOf {origin destination : UInt32} {d : Home.Dispatched Byte}
    {handle : Replica.Handle Byte}
    (hdestination : Message.destination (d.message origin) = .ok destination)
    (hhandle : Replica.handleOf (d.message origin) = .ok handle) :
    Delivers origin destination d handle := by
  rw [Home.Dispatched.message, Message.destination_formatMessage] at hdestination
  rw [Home.Dispatched.message, Replica.handleOf_formatMessage] at hhandle
  obtain rfl := Except.ok.inj hhandle
  exact ⟨rfl, rfl, Except.ok.inj hdestination, rfl, rfl⟩

/-- A message proven under the root of a prefix was dispatched. -/
theorem dispatched_of_proven {K : Crypto Byte} (ideal : Crypto.IdealHash K)
    {source : Home.History Byte} {message : List Byte} {proof : ℕ → Bytes32 Byte} {index : ℕ}
    (hroot : Home.IsPrefixRoot K (source.leaves K)
      (MerkleLib.branchRoot K (K.keccak256 message) proof index)) :
    ∃ d ∈ source.dispatched, d.message source.home.localDomain = message := by
  have hmem := Home.mem_leaves_of_branchRoot ideal hroot (ideal.ne_zero _)
  obtain ⟨d, hd, hhash⟩ := List.mem_map.mp hmem
  exact ⟨d, hd, ideal.injective hhash⟩

section Matching

variable [DecidableEq Byte] {K : Crypto Byte} {S : Replica.Surroundings Byte ω E η}

omit [ByteAlphabet Byte] in
theorem length_handleCalls_eq_count (hash : Bytes32 Byte)
    (trace : List (ℕ × Replica.Action Byte η)) :
    (Replica.handleCalls K hash trace).length =
      ((deliveries trace).map fun delivery => K.keccak256 delivery.1).count hash := by
  induction trace with
  | nil => rfl
  | cons entry rest ih =>
    obtain ⟨time, action⟩ := entry
    cases action with
    | called message handle before =>
      by_cases h : K.keccak256 message = hash
      · simpa [Replica.handleCalls, deliveries, Replica.Action.handle?, h] using ih
      · simpa [Replica.handleCalls, deliveries, Replica.Action.handle?, h] using ih
    | event => exact ih
    | proven => exact ih
    | handled => exact ih
    | other => exact ih

/-- No message is handed over twice. -/
theorem deliveries_nodup {root₀ : Bytes32 Byte} {chain : Replica.Chain Byte E η}
    (h : Replica.Explained K root₀ chain) :
    ((deliveries chain.trace).map Prod.fst).Nodup := by
  have hhashes : ((deliveries chain.trace).map fun delivery => K.keccak256 delivery.1).Nodup := by
    refine List.nodup_iff_count_le_one.mpr fun hash => ?_
    rw [← length_handleCalls_eq_count]
    exact h.handleCalls_le_one hash
  refine List.Nodup.of_map K.keccak256 ?_
  rwa [List.map_map]

end Matching

/-- Members of a list with different keys, each the key of a member of another
list, come from different positions of that list. -/
theorem exists_injective_index {α β γ : Type*} {xs : List α} {ys : List β} {key : α → γ} {g : β → γ}
    (hnodup : (xs.map key).Nodup) (hmem : ∀ x ∈ xs, ∃ y ∈ ys, g y = key x) :
    ∃ f : Fin xs.length → Fin ys.length, Function.Injective f ∧ ∀ i, g ys[f i] = key xs[i] := by
  have hindex : ∀ i : Fin xs.length, ∃ j : Fin ys.length, g ys[j] = key xs[i] := by
    intro i
    obtain ⟨y, hy, hg⟩ := hmem xs[i] (List.getElem_mem i.isLt)
    obtain ⟨j, hj, rfl⟩ := List.getElem_of_mem hy
    exact ⟨⟨j, hj⟩, hg⟩
  choose f hf using hindex
  refine ⟨f, fun i j hij => ?_, hf⟩
  have hsame : key xs[i] = key xs[j] := by rw [← hf i, ← hf j, hij]
  have hi : i.1 < (xs.map key).length := by simp
  have hj : j.1 < (xs.map key).length := by simp
  have hposition : (xs.map key)[i.1] = (xs.map key)[j.1] := by simpa using hsame
  exact Fin.ext (hnodup.getElem_inj_iff.mp hposition)

/-! ### An honest updater -/

variable [DecidableEq Byte] {K : Crypto Byte} {S : Replica.Surroundings Byte ω E η}
  {updater : Address Byte} {s : Channel Byte E η}

/-- The updater of the Replica signs a pair of roots only when the old root is
the committed root of Home and the new root is in its queue, and nobody can
present its signature on a pair that it has not signed. Home may be called in
any way. -/
def honestUpdater (K : Crypto Byte) (updater : Address Byte) : Rules Byte E η where
  start _ := True
  sign s signing := signing.signer = updater →
    signing.oldRoot = s.source.home.committedRoot ∧
      s.source.home.queue.contains signing.newRoot = true
  present s u := IsSignedBy K s.source.home.localDomain updater u →
    ⟨updater, u.oldRoot, u.newRoot⟩ ∈ s.signed
  home _ _ _ := True
  deploy _ chain := chain.replica.updater = updater

/-- Everything signed by the updater and everything accepted by the Replica is
the root of a prefix of the dispatched messages. -/
structure Authentic (K : Crypto Byte) (updater : Address Byte) (s : Channel Byte E η) : Prop where
  signed : ∀ signing ∈ s.signed, signing.signer = updater →
    Home.IsPrefixRoot K (s.source.leaves K) signing.newRoot
  updater : ∀ chain, s.replica = some chain → chain.replica.updater = updater
  accepted : ∀ chain, s.replica = some chain → ∀ u ∈ Replica.accepted chain.trace,
    Home.IsPrefixRoot K (s.source.leaves K) u.newRoot

theorem authentic_of_reachable (ideal : Crypto.IdealHash K)
    (h : (system K S (honestUpdater K updater)).Reachable s) : Authentic K updater s := by
  refine h.invariant ?_ ?_
  · intro s hinit
    obtain ⟨-, -, hnone, hsigned⟩ := hinit
    refine ⟨?_, ?_, ?_⟩
    · simp [hsigned]
    · simp [hnone]
    · simp [hnone]
  · intro s label s' hreach hauthentic hstep
    cases hstep with
    | sign signing hsign =>
      refine ⟨?_, hauthentic.updater, hauthentic.accepted⟩
      intro signing' hmem hsigner
      rcases List.mem_cons.mp hmem with rfl | hold
      · -- a root in the queue is the root of a prefix
        obtain ⟨k, hsound⟩ := sound_of_reachable ideal hreach
        obtain ⟨j, -, hj, hroot⟩ := hsound.inStep.contains_iff.mp (hsign hsigner).2
        exact ⟨j, hj, hroot.symm⟩
      · exact hauthentic.signed _ hold hsigner
    | home ctx call source hcall hpresent hstep =>
      have hext := extends_of_step hstep
      refine ⟨?_, hauthentic.updater, ?_⟩
      · intro signing hmem hsigner
        exact isPrefixRoot_of_prefix hext.leaves (hauthentic.signed signing hmem hsigner)
      · intro chain hchain u hu
        exact isPrefixRoot_of_prefix hext.leaves (hauthentic.accepted chain hchain u hu)
    | deploy chain root hnone hdeploy hinitial hdomain hroot =>
      refine ⟨hauthentic.signed, ?_, ?_⟩
      · intro chain' hchain
        obtain rfl := Option.some.inj hchain
        exact hdeploy
      · intro chain' hchain u hu
        obtain rfl := Option.some.inj hchain
        rw [hinitial.trace_eq] at hu
        cases hu
    | replica time call chain chain' hsome hpresent hstep =>
      have hreach' := hreach.step (Step.replica time call chain chain' hsome hpresent hstep)
      obtain ⟨root₀, hfollows⟩ := follows_of_reachable hreach' rfl
      have hupdates := fun u hu => hpresent u (call.updates_subset_presented hu)
      rcases path_of_transact hupdates hstep.2 with hpath | rfl
      · obtain ⟨hconfig, -, -⟩ := Replica.path_frame hpath
        have hupdater := hconfig.updater.trans (hauthentic.updater chain hsome)
        refine ⟨hauthentic.signed, ?_, ?_⟩
        · intro after hafter
          obtain rfl := Option.some.inj hafter
          exact hupdater
        · intro after hafter u hu
          obtain rfl := Option.some.inj hafter
          rcases accepted_of_path hpath hu with hold | hnew
          · exact hauthentic.accepted chain hsome u hold
          · -- the Replica checked the signature, and the updater has signed the pair
            have hsig := hfollows.explained.signed u hu
            rw [hfollows.remoteDomain, hupdater] at hsig
            exact hauthentic.signed _ (hnew hsig) rfl
      · refine ⟨hauthentic.signed, ?_, ?_⟩
        · intro after hafter
          obtain rfl := Option.some.inj hafter
          exact hauthentic.updater _ hsome
        · intro after hafter
          obtain rfl := Option.some.inj hafter
          exact hauthentic.accepted _ hsome

/-- A message that the Replica hands over was dispatched. -/
theorem dispatched_of_delivery (ideal : Crypto.IdealHash K)
    (h : (system K S (honestUpdater K updater)).Reachable s) {chain : Replica.Chain Byte E η}
    (hchain : s.replica = some chain) (delivery : List Byte × Replica.Handle Byte)
    (hdelivery : delivery ∈ deliveries chain.trace) :
    ∃ d ∈ s.source.dispatched, d.message s.source.home.localDomain = delivery.1 := by
  obtain ⟨root₀, hfollows⟩ := follows_of_reachable h hchain
  obtain ⟨k, hsound⟩ := sound_of_reachable ideal h
  obtain ⟨time, before, hcalled⟩ := mem_deliveries hdelivery
  obtain ⟨-, -, time', root, before', -, hproven⟩ := hfollows.explained.called _ _ _ _ hcalled
  obtain ⟨⟨proof, index, hbranch⟩, hconfirmed⟩ := hfollows.explained.proven _ _ _ _ hproven
  have hroot : Home.IsPrefixRoot K (s.source.leaves K) root := by
    rcases hconfirmed with rfl | ⟨t, domain, u, hentry, rfl, -⟩
    · exact isPrefixRoot_of_committed hsound hfollows.committed
    · have hauthentic := authentic_of_reachable ideal h
      exact hauthentic.accepted chain hchain u (List.mem_filterMap.mpr ⟨_, hentry, rfl⟩)
  exact dispatched_of_proven ideal (hbranch ▸ hroot)

/-- **Authenticity and at-most-once delivery.** In every run with an honest
updater, each call of a recipient by the Replica hands over a dispatch made on
Home before, and different calls hand over different dispatches. -/
theorem deliveries_match_dispatches (ideal : Crypto.IdealHash K)
    (h : (system K S (honestUpdater K updater)).Reachable s) {chain : Replica.Chain Byte E η}
    (hchain : s.replica = some chain) :
    ∃ f : Fin (deliveries chain.trace).length → Fin s.source.dispatched.length,
      Function.Injective f ∧ ∀ i,
        Delivers s.source.home.localDomain chain.replica.localDomain s.source.dispatched[f i]
          (deliveries chain.trace)[i].2 := by
  obtain ⟨root₀, hfollows⟩ := follows_of_reachable h hchain
  obtain ⟨f, hinjective, hf⟩ := exists_injective_index (deliveries_nodup hfollows.explained)
    (dispatched_of_delivery ideal h hchain)
  refine ⟨f, hinjective, fun i => ?_⟩
  obtain ⟨time, before, hcalled⟩ := mem_deliveries (List.getElem_mem i.isLt)
  obtain ⟨hdestination, hhandle, -⟩ := hfollows.explained.called _ _ _ _ hcalled
  exact delivers_of_handleOf ((hf i).symm ▸ hdestination) ((hf i).symm ▸ hhandle)

/-! ### A message that is relayed -/

/-- One dispatch on Home, one signature on its root, a Replica deployed with the
zero root, the update on the Replica, and, when it is confirmed, the message. -/
theorem relayed_message_is_delivered :
    ∃ (s : Channel ℕ Unit Unit) (chain : Replica.Chain ℕ Unit Unit),
      s.replica = some chain ∧ deliveries chain.trace ≠ [] ∧
      ∃ f : Fin (deliveries chain.trace).length → Fin s.source.dispatched.length,
        Function.Injective f ∧ ∀ i,
          Delivers s.source.home.localDomain chain.replica.localDomain s.source.dispatched[f i]
            (deliveries chain.trace)[i].2 := by
  let K := sampleCrypto
  have ideal : Crypto.IdealHash K := sampleCrypto_ideal
  obtain ⟨start, source, hinitial, -, hdispatch, hdomain, -, -, hdispatched, hin⟩ :=
    Home.exists_dispatched K 0
  let root := MerkleLib.treeRoot K (source.leaves K)
  have hleaves : source.leaves K = [K.keccak256 (Home.sampleDispatch.message 1000)] := by
    rw [Home.History.leaves, hdispatched, hdomain]
    rfl
  have hzero : source.home.committedRoot = 0 := hin.committedRoot_eq
  have hqueued : source.home.queue.contains root = true := by
    refine hin.contains_iff.mpr ⟨1, Nat.one_pos, by simp [hleaves], ?_⟩
    rw [Home.prefixRoot_of_pos Nat.one_pos, List.take_of_length_le (by simp [hleaves])]
  have hstart : (system K bareSurroundings (honestUpdater K 0)).Reachable ⟨start, none, []⟩ :=
    System.reachable_init ⟨hinitial, trivial, rfl, rfl⟩
  have hhome := hstart.step (.home _ _ source trivial (fun u hu => by cases hu) hdispatch)
  have hsign := hhome.step (.sign ⟨0, 0, root⟩ fun _ => ⟨hzero.symm, hqueued⟩)
  -- the Replica is deployed and accepts the signed root
  let chain₀ : Replica.Chain ℕ Unit Unit := .deployed 2000 1000 0 0 1800 1 ()
  have hdeploy := hsign.step (.deploy chain₀ 0 rfl rfl (Replica.Chain.deployed_initial _ _ _ _ _ _ _)
    hdomain.symm List.mem_cons_self)
  let u : SignedUpdate ℕ := ⟨0, root, []⟩
  let tx : Replica.Call ℕ Empty := .update u
  have hupdate : tx.exec K bareSurroundings chain₀ = .ok _ :=
    Replica.Call.exec_update (by decide) rfl rfl
  have hrelay := hdeploy.step (.replica 1 tx chain₀ _ rfl
    (fun v hv => by
      obtain rfl := List.mem_singleton.mp hv
      exact fun _ => List.mem_cons_self) ⟨Nat.le_refl 1, .inl hupdate⟩)
  -- later the message is proven under it and processed
  let message := (Home.sampleDispatch : Home.Dispatched ℕ).message 1000
  let proof := MerkleLib.branchOf K (source.leaves K) 0
  have hproof : MerkleLib.branchRoot K (K.keccak256 message) proof 0 = root := by
    have hlength : 0 < (source.leaves K).length := by simp [hleaves]
    have hleaf : (source.leaves K)[0] = K.keccak256 message := by simp [hleaves, message]
    rw [← hleaf]
    exact MerkleLib.branchRoot_branchOf hlength hin.tree.fits
  let chain₁ : Replica.Chain ℕ Unit Unit := { chain₀.record { chain₀.replica with
    confirmAt := Function.update chain₀.replica.confirmAt u.newRoot
      ((chain₀.now + chain₀.replica.optimisticSeconds) % 2 ^ 256)
    committedRoot := u.newRoot } [.event (.Update chain₀.replica.remoteDomain u)] with now := 1801 }
  have hacceptable : chain₁.replica.acceptableRoot chain₁.now
      (MerkleLib.branchRoot K (K.keccak256 message) proof 0) = true := by
    rw [hproof, Replica.acceptableRoot_eq_true]
    simp [chain₁, chain₀, u, Replica.Chain.record, Replica.Chain.deployed, Replica.init]
  have hdestination : Message.destination message = .ok chain₁.replica.localDomain :=
    Message.destination_formatMessage _ _ _ _ _ _
  have hgas : (850000 + 15000) % 2 ^ 256 ≤ 865000 := by decide
  obtain ⟨chain, hexec, hcalled⟩ := Replica.Call.exec_proveAndProcess (S := bareSurroundings)
    ⟨865000, true, [], true⟩ .nil rfl hacceptable rfl hdestination
    (Replica.handleOf_formatMessage _ _ _ _ _ _) hgas rfl
  have hdeliver := hrelay.step (.replica 1801 _ _ chain rfl (fun v hv => by cases hv)
    ⟨(by decide : 1 ≤ 1801), .inl hexec⟩)
  refine ⟨_, chain, rfl, ?_, deliveries_match_dispatches ideal hdeliver rfl⟩
  exact List.ne_nil_of_mem (deliveries_of_mem hcalled)

end Optics.Channel
