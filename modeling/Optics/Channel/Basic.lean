/-
# A Home and one of its Replicas

A channel is a Home on one chain, the Replica that is deployed for it on
another chain, and the pairs of roots that have been signed so far. The two
chains, the deployment and the signing take steps in any order. What signers
may sign, which signatures can be presented, and which calls are considered is
left to a set of rules, so that each result states its own assumptions and all
share one system.
-/

import Optics.Core.HomeInvariant
import Optics.Core.ReplicaReentrancy

namespace Optics

open Optics.Solidity Optics.Common Optics.Math.Transition

variable {Byte ω E η : Type}

/-- A pair of roots together with the address that signed it. -/
structure Signing (Byte : Type) where
  signer : Address Byte
  oldRoot : Bytes32 Byte
  newRoot : Bytes32 Byte

/-- A Home, its Replica once deployed, and everything signed so far. -/
structure Channel (Byte E η : Type) where
  source : Home.History Byte
  replica : Option (Replica.Chain Byte E η)
  signed : List (Signing Byte)

namespace Channel

/-- One step of a channel. -/
inductive Label (Byte ω E η : Type)
  | sign (signing : Signing Byte)
  | home (ctx : Home.Context Byte) (call : Home.Call Byte)
  | deploy (chain : Replica.Chain Byte E η)
  | replica (time : ℕ) (call : Replica.Call Byte ω)

/-- The assumptions under which a channel runs: how the Home starts, what may be
signed, which signatures can be presented to the contracts, which calls of Home
are considered, and which Replicas may be deployed. -/
structure Rules (Byte E η : Type) where
  start : Home.History Byte → Prop
  sign : Channel Byte E η → Signing Byte → Prop
  present : Channel Byte E η → SignedUpdate Byte → Prop
  home : Channel Byte E η → Home.Context Byte → Home.Call Byte → Prop
  deploy : Channel Byte E η → Replica.Chain Byte E η → Prop

/-- Rules that allow everything. -/
def unrestricted : Rules Byte E η :=
  ⟨fun _ => True, fun _ _ => True, fun _ _ => True, fun _ _ _ => True, fun _ _ => True⟩

/-- The values that the committed root of a Home has had. -/
def committedRoots [ByteAlphabet Byte] (history : Home.History Byte) : List (Bytes32 Byte) :=
  0 :: (Home.updates history.log).map SignedUpdate.newRoot

variable [ByteAlphabet Byte] [DecidableEq Byte] (K : Crypto Byte)
  (S : Replica.Surroundings Byte ω E η) (rules : Rules Byte E η)

/-- The steps of a channel under the rules. A Replica is deployed once, for the
domain of the Home and with a root that the Home has had as committed root. -/
inductive Step (s : Channel Byte E η) : Label Byte ω E η → Channel Byte E η → Prop
  | sign (signing : Signing Byte) (hsign : rules.sign s signing) :
      Step s (.sign signing) { s with signed := signing :: s.signed }
  | home (ctx : Home.Context Byte) (call : Home.Call Byte) (source : Home.History Byte)
      (hcall : rules.home s ctx call) (hpresent : ∀ u ∈ call.presented, rules.present s u)
      (hstep : (Home.system K).step s.source (ctx, call) source) :
      Step s (.home ctx call) { s with source := source }
  | deploy (chain : Replica.Chain Byte E η) (root : Bytes32 Byte) (hnone : s.replica = none)
      (hdeploy : rules.deploy s chain) (hinitial : chain.Initial root)
      (hdomain : chain.replica.remoteDomain = s.source.home.localDomain)
      (hroot : root ∈ committedRoots s.source) :
      Step s (.deploy chain) { s with replica := some chain }
  | replica (time : ℕ) (call : Replica.Call Byte ω) (chain chain' : Replica.Chain Byte E η)
      (hsome : s.replica = some chain) (hpresent : ∀ u ∈ call.presented, rules.present s u)
      (hstep : chain.now ≤ time ∧ callStep (Replica.Chain.transact K S) chain (time, call) chain') :
      Step s (.replica time call) { s with replica := some chain' }

/-- A channel as a transition system. It starts with an initialised Home. -/
def system : System (Channel Byte E η) (Label Byte ω E η) where
  init s := s.source.Initial ∧ rules.start s.source ∧ s.replica = none ∧ s.signed = []
  step := Step K S rules

section Invariants

variable {K S rules} {s s' : Channel Byte E η} {label : Label Byte ω E η}

/-! ### What every step keeps -/

/-- A Home keeps its domain, and what it has dispatched and logged. -/
structure Extends (K : Crypto Byte) (source source' : Home.History Byte) : Prop where
  localDomain : source'.home.localDomain = source.home.localDomain
  leaves : source.leaves K <+: source'.leaves K
  dispatched : source.dispatched <+: source'.dispatched
  log : source.log <+: source'.log

theorem extends_of_step {source source' : Home.History Byte}
    {tx : Home.Context Byte × Home.Call Byte} (h : (Home.system K).step source tx source') :
    Extends K source source' := by
  refine callStep_cases (P := Extends K) h (fun t hexec => ?_)
    ⟨rfl, List.prefix_refl _, List.prefix_refl _, List.prefix_refl _⟩
  obtain ⟨home', events, hok, rfl⟩ := Home.History.exec_eq_ok.mp hexec
  have heffect := Home.effect_of_exec hok
  refine ⟨heffect.localDomain_eq, ?_, List.prefix_append _ _, List.prefix_append _ _⟩
  rw [Home.History.leaves_exec heffect]
  exact List.prefix_append _ _

omit [DecidableEq Byte] in
theorem Extends.committedRoots_subset {source source' : Home.History Byte}
    (h : Extends K source source') : committedRoots source ⊆ committedRoots source' :=
  List.cons_subset_cons _ (List.map_subset _ (List.filterMap_subset _ h.log.subset))

omit [DecidableEq Byte] in
theorem isPrefixRoot_of_prefix {leaves leaves' : List (Bytes32 Byte)} {root : Bytes32 Byte}
    (hfront : leaves <+: leaves') (h : Home.IsPrefixRoot K leaves root) :
    Home.IsPrefixRoot K leaves' root := by
  obtain ⟨more, rfl⟩ := hfront
  exact h.append more

/-- The Home of a channel is sound whatever the rules are. -/
theorem sound_of_reachable (ideal : Crypto.IdealHash K) (h : (system K S rules).Reachable s) :
    ∃ k, s.source.Sound K k := by
  refine h.invariant (P := fun s => ∃ k, s.source.Sound K k) ?_ ?_
  · intro s hinit
    exact ⟨0, hinit.1.sound⟩
  · intro s label s' _ hsound hstep
    cases hstep with
    | sign => exact hsound
    | home ctx call source hcall hpresent hstep =>
      refine callStep_cases (P := fun _ t => ∃ k, t.Sound K k) hstep (fun t hexec => ?_) hsound
      obtain ⟨k, hk⟩ := hsound
      obtain ⟨k', hk', -⟩ := hk.exec ideal hexec
      exact ⟨k', hk'⟩
    | deploy => exact hsound
    | replica => exact hsound

omit [DecidableEq Byte] in
/-- Every committed root is the root of a prefix of the dispatched messages. -/
theorem isPrefixRoot_of_committed {source : Home.History Byte} {k : ℕ} (h : source.Sound K k)
    {root : Bytes32 Byte} (hroot : root ∈ committedRoots source) :
    Home.IsPrefixRoot K (source.leaves K) root := by
  rcases List.mem_cons.mp hroot with rfl | hmem
  · exact Home.isPrefixRoot_zero
  · obtain ⟨u, hu, rfl⟩ := List.mem_map.mp hmem
    obtain ⟨i, j, -, hj, -, hnew⟩ := h.positions u hu
    exact ⟨j, hj.trans h.inStep.k_le, hnew⟩

/-- The Replica of a channel: its trace explains its storage, it serves the
domain of the Home, and it started from a committed root. -/
structure Follows (K : Crypto Byte) (source : Home.History Byte) (chain : Replica.Chain Byte E η)
    (root₀ : Bytes32 Byte) : Prop where
  explained : Replica.Explained K root₀ chain
  remoteDomain : chain.replica.remoteDomain = source.home.localDomain
  committed : root₀ ∈ committedRoots source

/-- A transaction of the Replica is a path of steps at its time. -/
theorem path_of_transact {chain chain' : Replica.Chain Byte E η} {time : ℕ}
    {call : Replica.Call Byte ω} {P : SignedUpdate Byte → Prop}
    (hupdates : ∀ u ∈ call.updates, P u)
    (h : callStep (Replica.Chain.transact K S) chain (time, call) chain') :
    Relation.ReflTransGen (Replica.Tick K S P) { chain with now := time } chain' ∨
      chain' = chain := by
  rcases h with hexec | ⟨-, rfl⟩
  · exact .inl (Replica.Call.exec_path call _ _ hupdates hexec).1
  · exact .inr rfl

/-- What a path adds to the accepted updates satisfies its condition. -/
theorem accepted_of_path {P : SignedUpdate Byte → Prop} {chain chain' : Replica.Chain Byte E η}
    (h : Relation.ReflTransGen (Replica.Tick K S P) chain chain') {u : SignedUpdate Byte}
    (hu : u ∈ Replica.accepted chain'.trace) : u ∈ Replica.accepted chain.trace ∨ P u := by
  induction h with
  | refl => exact .inl hu
  | tail _ hstep ih =>
    rcases hstep.accepted hu with hold | hnew
    · exact ih hold
    · exact .inr hnew

theorem Follows.replica {source : Home.History Byte} {chain chain' : Replica.Chain Byte E η}
    {root₀ : Bytes32 Byte} {time : ℕ} {call : Replica.Call Byte ω}
    (h : Follows K source chain root₀)
    (hstep : chain.now ≤ time ∧ callStep (Replica.Chain.transact K S) chain (time, call) chain') :
    Follows K source chain' root₀ := by
  rcases path_of_transact (P := fun _ => True) (fun _ _ => trivial) hstep.2 with hpath | rfl
  · obtain ⟨hconfig, -, -⟩ := Replica.path_frame hpath
    exact ⟨(h.explained.later hstep.1).path hpath, hconfig.remoteDomain.trans h.remoteDomain,
      h.committed⟩
  · exact h

/-- The Replica of a channel follows its Home whatever the rules are. -/
theorem follows_of_reachable (h : (system K S rules).Reachable s) {chain : Replica.Chain Byte E η}
    (hchain : s.replica = some chain) : ∃ root₀, Follows K s.source chain root₀ := by
  revert chain
  refine h.invariant (P := fun s => ∀ {chain}, s.replica = some chain →
    ∃ root₀, Follows K s.source chain root₀) ?_ ?_
  · intro s hinit chain hchain
    rw [hinit.2.2.1] at hchain
    cases hchain
  · intro s label s' _ hfollows hstep chain hchain
    cases hstep with
    | sign => exact hfollows hchain
    | home ctx call source hcall hpresent hstep =>
      obtain ⟨root₀, hold⟩ := hfollows hchain
      have hext := extends_of_step hstep
      exact ⟨root₀, hold.explained, hold.remoteDomain.trans hext.localDomain.symm,
        hext.committedRoots_subset hold.committed⟩
    | deploy chain' root hnone hdeploy hinitial hdomain hroot =>
      obtain rfl := Option.some.inj hchain
      exact ⟨root, hinitial.explained, hdomain, hroot⟩
    | replica time call before after hsome hpresent hstep =>
      obtain rfl := Option.some.inj hchain
      obtain ⟨root₀, hold⟩ := hfollows hsome
      exact ⟨root₀, hold.replica hstep⟩

end Invariants

/-! ### Concrete channels -/

/-- A hash with an ideal `keccak256`, where every signature is that of the zero
address. -/
def sampleCrypto : Crypto ℕ := Crypto.withIdealHash fun _ _ => some 0

theorem sampleCrypto_ideal : Crypto.IdealHash sampleCrypto := Crypto.withIdealHash_ideal _

/-- No other contracts, and recipients that accept every call. -/
def bareSurroundings : Replica.Surroundings ℕ Empty Unit Unit :=
  ⟨fun _ _ _ => .error .assert, fun _ _ => true⟩

end Channel

end Optics
