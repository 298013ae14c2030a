/-
# The optimistic window

The applications of a chain accept a call of the Replica only while the
connection manager lists the Replica. A root that the Replica accepts becomes
acceptable to proofs one optimistic period later. When the Replica is
un-enrolled within that period, whatever was proven until then was proven under
an earlier root, and what is proven later reaches no guarded application.

The surroundings of the Replica are the connection manager itself, so that
un-enrolment may come at any point of any run, also from inside a recipient.
-/

import Optics.Channel.Authenticity
import Optics.Core.XAppConnectionManager

namespace Optics

open Optics.Solidity Optics.Common Optics.Math.Transition
open Relation (ReflTransGen)

variable {Byte : Type} [ByteAlphabet Byte] [DecidableEq Byte]

namespace XAppConnectionClient

/-- `modifier onlyReplica`. -/
def onlyReplica (sender : Address Byte) (xAppConnectionManager : XAppConnectionManager Byte) :
    Except Revert Unit :=
  require (xAppConnectionManager.isReplica sender) "!replica"

end XAppConnectionClient

namespace Channel

/-- The calls of the connection manager, with the context of each. -/
abbrev ManagerCall (Byte : Type) :=
  XAppConnectionManager.Context Byte × XAppConnectionManager.Call Byte

/-- A Replica at an address, next to a connection manager. The `guarded` recipients
begin with `onlyReplica`. -/
def managed (K : Crypto Byte) (guarded : Address Byte → Bool) (address : Address Byte) :
    Replica.Surroundings Byte (ManagerCall Byte) (XAppConnectionManager Byte)
      (XAppConnectionManager.Event Byte) where
  exec tx _ manager := XAppConnectionManager.exec K tx manager
  accepts recipient manager :=
    !guarded recipient || (XAppConnectionClient.onlyReplica address manager).toBool

/-! ### What the trace says about the registry -/

section Registry

variable {address : Address Byte}

/-- Whether an action enrolls or un-enrolls an address. -/
def mention? (address : Address Byte) :
    Replica.Action Byte (XAppConnectionManager.Event Byte) → Option Bool
  | .other (.ReplicaEnrolled _ replica) => if replica = address then some true else none
  | .other (.ReplicaUnenrolled _ replica) => if replica = address then some false else none
  | _ => none

/-- The last that was recorded of an address is that it was un-enrolled. -/
def Unenrolled (address : Address Byte)
    (trace : List (ℕ × Replica.Action Byte (XAppConnectionManager.Event Byte))) : Prop :=
  (trace.filterMap fun entry => mention? address entry.2).getLast? = some false

omit [ByteAlphabet Byte] in
theorem eq_of_mention?_eq_true {action : Replica.Action Byte (XAppConnectionManager.Event Byte)}
    (h : mention? address action = some true) :
    ∃ domain, action = .other (.ReplicaEnrolled domain address) := by
  cases action with
  | other e =>
    cases e with
    | ReplicaEnrolled domain replica =>
      by_cases hsame : replica = address
      · exact ⟨domain, by rw [hsame]⟩
      · simp [mention?, hsame] at h
    | ReplicaUnenrolled domain replica =>
      by_cases hsame : replica = address
      · simp [mention?, hsame] at h
      · simp [mention?, hsame] at h
    | WatcherPermissionSet => cases h
  | event => cases h
  | proven => cases h
  | called => cases h
  | handled => cases h

variable {trace later : List (ℕ × Replica.Action Byte (XAppConnectionManager.Event Byte))}

omit [ByteAlphabet Byte] in
theorem unenrolled_append_of_silent
    (hsilent : later.filterMap (fun entry => mention? address entry.2) = []) :
    Unenrolled address (trace ++ later) ↔ Unenrolled address trace := by
  rw [Unenrolled, List.filterMap_append, hsilent, List.append_nil, Unenrolled]

omit [ByteAlphabet Byte] in
theorem unenrolled_concat {time : ℕ}
    {action : Replica.Action Byte (XAppConnectionManager.Event Byte)} {enrolled : Bool}
    (h : mention? address action = some enrolled) :
    Unenrolled address (trace ++ [(time, action)]) ↔ enrolled = false := by
  simp [Unenrolled, h]

omit [ByteAlphabet Byte] in
/-- After an un-enrolment without a later enrolment, the address stays
un-enrolled. -/
theorem unenrolled_of_unenroll {time : ℕ} {domain : UInt32}
    (hlater : ∀ t d, (t, .other (.ReplicaEnrolled d address)) ∉ later) :
    Unenrolled address (trace ++ (time, .other (.ReplicaUnenrolled domain address)) :: later) := by
  induction later using List.reverseRecOn with
  | nil => exact (unenrolled_concat (by simp [mention?])).mpr rfl
  | append_singleton later last ih =>
    have hprior := ih fun t d hmem => hlater t d (List.mem_append_left _ hmem)
    obtain ⟨t, action⟩ := last
    rw [← List.cons_append, ← List.append_assoc]
    -- the last action can only mention the address by un-enrolling it again
    cases hmention : mention? address action with
    | none => rwa [unenrolled_append_of_silent (by simp [hmention])]
    | some enrolled =>
      cases enrolled with
      | false => exact (unenrolled_concat hmention).mpr rfl
      | true =>
        obtain ⟨d, rfl⟩ := eq_of_mention?_eq_true hmention
        exact absurd (List.mem_append_right _ (List.mem_singleton_self _)) (hlater t d)

variable {K : Crypto Byte} {manager manager' : XAppConnectionManager Byte}
  {call : XAppConnectionManager.Call Byte} {events : List (XAppConnectionManager.Event Byte)}

/-- Un-enrolling an address leaves it out of the registry, and any other address
as it was. -/
theorem isReplica_unenroll (replica : Address Byte) :
    (XAppConnectionManager._unenrollReplica replica manager).1.isReplica address =
      if address = replica then false else manager.isReplica address := by
  by_cases hsame : address = replica
  · simp [XAppConnectionManager.isReplica, XAppConnectionManager._unenrollReplica, hsame]
  · simp [XAppConnectionManager.isReplica, XAppConnectionManager._unenrollReplica, hsame]

/-- The events of the manager tell when an address is not in its registry. -/
theorem isReplica_of_unenrolled (heffect : XAppConnectionManager.Effect manager call manager' events)
    {now : ℕ} (hprior : Unenrolled address trace → manager.isReplica address = false)
    (h : Unenrolled address (trace ++ (events.map .other).map fun action => (now, action))) :
    manager'.isReplica address = false := by
  -- an un-enrolment of the address itself, or of another one
  have hunenroll : ∀ replica domain,
      Unenrolled address (trace ++ [(now, .other (.ReplicaUnenrolled domain replica))]) →
        (XAppConnectionManager._unenrollReplica replica manager).1.isReplica address = false := by
    intro replica domain h
    rw [isReplica_unenroll]
    by_cases hsame : address = replica
    · rw [if_pos hsame]
    · rw [if_neg hsame]
      have hsilent : mention? address (.other (.ReplicaUnenrolled domain replica)) = none :=
        if_neg (Ne.symm hsame)
      exact hprior ((unenrolled_append_of_silent (by simp [hsilent])).mp h)
  cases heffect with
  | unenrolledByWatcher domain updater signature hexists => exact hunenroll _ _ h
  | unenrolledByOwner replica => exact hunenroll _ _ h
  | enrolled replica domain =>
    have hsplit : trace ++ (((XAppConnectionManager._unenrollReplica replica manager).2 ++
        [XAppConnectionManager.Event.ReplicaEnrolled domain replica]).map
          Replica.Action.other).map (fun action => (now, action)) =
        (trace ++ [(now, .other
          (.ReplicaUnenrolled (manager.replicaToDomain replica) replica))]) ++
          [(now, .other (.ReplicaEnrolled domain replica))] := by
      simp [XAppConnectionManager._unenrollReplica]
    rw [hsplit] at h
    by_cases hsame : replica = address
    · have hmention : mention? address (.other (.ReplicaEnrolled domain replica)) = some true :=
        if_pos hsame
      cases (unenrolled_concat hmention).mp h
    · have hsilent : mention? address (.other (.ReplicaEnrolled domain replica)) = none :=
        if_neg hsame
      have hnot := hunenroll _ _ ((unenrolled_append_of_silent (by simp [hsilent])).mp h)
      simpa [XAppConnectionManager.isReplica, Function.update_of_ne (Ne.symm hsame)] using hnot
  | homeSet => exact hprior (by simpa using h)
  | permissionSet watcher domain access =>
    exact hprior ((unenrolled_append_of_silent (by simp [mention?])).mp h)

end Registry

/-! ### What guarded recipients accept -/

section Guarded

variable {K : Crypto Byte} {guarded : Address Byte → Bool} {address : Address Byte}
  {rules : Rules Byte (XAppConnectionManager Byte) (XAppConnectionManager.Event Byte)}
  {s : Channel Byte (XAppConnectionManager Byte) (XAppConnectionManager.Event Byte)}
  {chain chain' : Replica.Chain Byte (XAppConnectionManager Byte)
    (XAppConnectionManager.Event Byte)}

/-- While its last mention is an un-enrolment, a Replica is not in the registry,
and no guarded recipient has taken a call at such a time. -/
structure Guarded (guarded : Address Byte → Bool) (address : Address Byte)
    (chain : Replica.Chain Byte (XAppConnectionManager Byte) (XAppConnectionManager.Event Byte)) :
    Prop where
  registry : Unenrolled address chain.trace → chain.env.isReplica address = false
  handled : ∀ before time handle, before ++ [(time, .handled handle)] <+: chain.trace →
    guarded handle.recipient = true → ¬ Unenrolled address before

omit [ByteAlphabet Byte] [DecidableEq Byte] in
/-- Where an action of an extended trace stands: in the old trace, or at some
point among the new actions. -/
theorem prefix_of_record
    {before : List (ℕ × Replica.Action Byte (XAppConnectionManager.Event Byte))}
    {entry : ℕ × Replica.Action Byte (XAppConnectionManager.Event Byte)} {replica : Replica Byte}
    {actions : List (Replica.Action Byte (XAppConnectionManager.Event Byte))}
    (h : before ++ [entry] <+: (chain.record replica actions).trace) :
    before ++ [entry] <+: chain.trace ∨ ∃ first action rest, actions = first ++ action :: rest ∧
      before = chain.trace ++ first.map (fun a => (chain.now, a)) ∧
      entry = (chain.now, action) := by
  induction actions using List.reverseRecOn with
  | nil => exact .inl (by simpa [Replica.Chain.record] using h)
  | append_singleton actions last ih =>
    rw [Replica.Chain.record, List.map_append, List.map_singleton, ← List.append_assoc,
      List.prefix_concat_iff] at h
    rcases h with hlast | hprior
    · obtain ⟨hbefore, hentry⟩ := List.append_inj' hlast rfl
      exact .inr ⟨actions, last, [], rfl, hbefore, List.singleton_inj.mp hentry⟩
    · rcases ih hprior with hold | ⟨first, action, rest, rfl, hbefore, hentry⟩
      · exact .inl hold
      · exact .inr ⟨first, action, rest ++ [last], by simp, hbefore, hentry⟩

omit [ByteAlphabet Byte] in
/-- Actions that concern neither the registry nor a guarded recipient. -/
theorem Guarded.record (h : Guarded guarded address chain) {replica : Replica Byte}
    {actions : List (Replica.Action Byte (XAppConnectionManager.Event Byte))}
    (hsilent : actions.filterMap (mention? address) = [])
    (hhandled : ∀ handle, .handled handle ∈ actions → False) :
    Guarded guarded address (chain.record replica actions) where
  registry hunenrolled := by
    refine h.registry ((unenrolled_append_of_silent ?_).mp hunenrolled)
    rw [List.filterMap_map]
    exact hsilent
  handled before time handle hfront hguarded := by
    rcases prefix_of_record hfront with hold | ⟨first, action, rest, rfl, -, hentry⟩
    · exact h.handled before time handle hold hguarded
    · obtain ⟨-, rfl⟩ := Prod.mk.inj hentry
      exact absurd (List.mem_append_right _ List.mem_cons_self) (hhandled handle)

/-- **Step lemma.** A guarded recipient takes no call of an un-enrolled Replica. -/
theorem Guarded.tick {P : SignedUpdate Byte → Prop} (h : Guarded guarded address chain)
    (hstep : Replica.Tick K (managed K guarded address) P chain chain') :
    Guarded guarded address chain' := by
  cases hstep with
  | update => exact h.record rfl (by simp)
  | doubleUpdate => exact h.record rfl (by simp)
  | prove => exact h.record rfl (by simp)
  | called => exact h.record rfl (by simp)
  | returned => exact h.record rfl (by simp)
  | handled prior message handle status hlast haccepts =>
    refine ⟨fun hunenrolled => h.registry ((unenrolled_append_of_silent rfl).mp hunenrolled), ?_⟩
    intro before time handle' hfront hguarded
    rcases prefix_of_record hfront with hold | ⟨first, action, rest, hactions, hbefore, hentry⟩
    · exact h.handled before time handle' hold hguarded
    · -- this is the call that is taken now, so the Replica is in the registry
      obtain ⟨rfl, -⟩ : first = [] ∧ rest = [] := by
        cases first with
        | nil => exact ⟨rfl, (List.cons.inj hactions).2.symm⟩
        | cons => simp at hactions
      obtain ⟨rfl, -⟩ := List.cons.inj hactions
      obtain ⟨-, haction⟩ := Prod.mk.inj hentry
      obtain rfl := Replica.Action.handled.inj haction
      rw [hbefore, List.map_nil, List.append_nil]
      intro hunenrolled
      have hnot := h.registry hunenrolled
      simp only [managed, hguarded, XAppConnectionClient.onlyReplica, hnot, require] at haccepts
      cases haccepts
  | other tx manager events hexec =>
    have heffect := XAppConnectionManager.effect_of_exec hexec
    refine ⟨isReplica_of_unenrolled heffect h.registry, ?_⟩
    intro before time handle hfront hguarded
    rcases prefix_of_record hfront with hold | ⟨first, action, rest, hactions, -, hentry⟩
    · exact h.handled before time handle hold hguarded
    · obtain ⟨-, rfl⟩ := Prod.mk.inj hentry
      have hmem : .handled handle ∈ events.map Replica.Action.other :=
        hactions ▸ List.mem_append_right _ List.mem_cons_self
      simp at hmem

omit [ByteAlphabet Byte] in
theorem Guarded.later (h : Guarded guarded address chain) (time : ℕ) :
    Guarded guarded address { chain with now := time } := ⟨h.registry, h.handled⟩

theorem guarded_of_reachable (h : (system K (managed K guarded address) rules).Reachable s)
    (hchain : s.replica = some chain) : Guarded guarded address chain := by
  revert chain
  refine h.invariant (P := fun s => ∀ {chain}, s.replica = some chain →
    Guarded guarded address chain) ?_ ?_
  · intro s hinit chain hchain
    rw [hinit.2.2.1] at hchain
    cases hchain
  · intro s label s' _ hguarded hstep chain hchain
    cases hstep with
    | sign => exact hguarded hchain
    | home => exact hguarded hchain
    | deploy chain' root hnone hdeploy hinitial hdomain hroot =>
      obtain rfl := Option.some.inj hchain
      refine ⟨fun hunenrolled => ?_, fun before time handle hfront => ?_⟩
      · simp [Unenrolled, hinitial.trace_eq] at hunenrolled
      · simp [hinitial.trace_eq] at hfront
    | replica time call before after hsome hpresent hstep =>
      obtain rfl := Option.some.inj hchain
      rcases path_of_transact (P := fun _ => True) (fun _ _ => trivial) hstep.2 with hpath | rfl
      · have hstart := (hguarded hsome).later time
        clear hstep hpresent hchain
        induction hpath with
        | refl => exact hstart
        | tail _ htick ih => exact ih.tick htick
      · exact hguarded hsome

omit [ByteAlphabet Byte] in
/-- When a Replica is un-enrolled for good, guarded recipients took all its calls
before. -/
theorem Guarded.le_removal (h : Guarded guarded address chain)
    (hsorted : chain.trace.Pairwise fun first second => first.1 ≤ second.1)
    {removal : ℕ} {domain : UInt32}
    {before after : List (ℕ × Replica.Action Byte (XAppConnectionManager.Event Byte))}
    (htrace : chain.trace = before ++ (removal, .other (.ReplicaUnenrolled domain address)) :: after)
    (hnever : ∀ time d, (time, .other (.ReplicaEnrolled d address)) ∉ after)
    {time : ℕ} {handle : Replica.Handle Byte} (hhandled : (time, .handled handle) ∈ chain.trace)
    (hguarded : guarded handle.recipient = true) : time ≤ removal := by
  rw [htrace] at hhandled hsorted
  rcases List.mem_append.mp hhandled with hbefore | hmem
  · exact (List.pairwise_append.mp hsorted).2.2 _ hbefore _ List.mem_cons_self
  · exfalso
    have hafter : (time, .handled handle) ∈ after := by simpa using hmem
    obtain ⟨first, rest, rfl⟩ := List.append_of_mem hafter
    refine h.handled (before ++ (removal, .other (.ReplicaUnenrolled domain address)) :: first) time
      handle ⟨rest, ?_⟩ hguarded (unenrolled_of_unenroll fun t d hmem => ?_)
    · rw [htrace]
      simp
    · exact hnever t d (List.mem_append_left _ hmem)

/-- **The optimistic window.** Let every root that the Replica accepts before some
time be the root of a prefix of the dispatched messages, and let the Replica be
un-enrolled for good less than an optimistic period after that time. Then every
call that a guarded recipient takes from the Replica, at any time, is for a
message that was dispatched. -/
theorem guarded_calls_dispatched (ideal : Crypto.IdealHash K)
    (h : (system K (managed K guarded address) rules).Reachable s) (hchain : s.replica = some chain)
    {forged removal : ℕ} {domain : UInt32}
    {before after : List (ℕ × Replica.Action Byte (XAppConnectionManager.Event Byte))}
    (hgood : ∀ time d u, (time, .event (.Update d u)) ∈ chain.trace → time < forged →
      Home.IsPrefixRoot K (s.source.leaves K) u.newRoot)
    (htrace : chain.trace = before ++ (removal, .other (.ReplicaUnenrolled domain address)) :: after)
    (hnever : ∀ time d, (time, .other (.ReplicaEnrolled d address)) ∉ after)
    (hwindow : removal < forged + chain.replica.optimisticSeconds)
    (hbound : chain.now + chain.replica.optimisticSeconds < 2 ^ 256)
    {time : ℕ} {handle : Replica.Handle Byte} (hhandled : (time, .handled handle) ∈ chain.trace)
    (hguarded : guarded handle.recipient = true) :
    ∃ d ∈ s.source.dispatched,
      Delivers s.source.home.localDomain chain.replica.localDomain d handle := by
  obtain ⟨k, hsound⟩ := sound_of_reachable ideal h
  obtain ⟨root₀, hfollows⟩ := follows_of_reachable h hchain
  have hexplained := hfollows.explained
  have hearly := (guarded_of_reachable h hchain).le_removal hexplained.sorted htrace hnever hhandled
    hguarded
  obtain ⟨message, status, hcalled⟩ := hexplained.handled _ _ hhandled
  obtain ⟨hdestination, hhandle, proofTime, root, status', hproofTime, hproven⟩ :=
    hexplained.called _ _ _ _ hcalled
  obtain ⟨⟨proof, index, hbranch⟩, hconfirmed⟩ := hexplained.proven _ _ _ _ hproven
  have hroot : Home.IsPrefixRoot K (s.source.leaves K) root := by
    rcases hconfirmed with rfl | ⟨updateTime, d, u, hupdate, rfl, htimer⟩
    · exact isPrefixRoot_of_committed hsound hfollows.committed
    · -- the timer of the root had run out, so the root was accepted before the forged one
      have hpast := hexplained.past _ hupdate
      dsimp only at hpast
      rw [Nat.mod_eq_of_lt (by omega)] at htimer
      exact hgood updateTime d u hupdate (by omega)
  obtain ⟨d, hd, hmessage⟩ := dispatched_of_proven ideal (hbranch ▸ hroot)
  exact ⟨d, hd, delivers_of_handleOf (hmessage.symm ▸ hdestination) (hmessage.symm ▸ hhandle)⟩

end Guarded

/-! ### A forged message that comes too late -/

/-- The address of a Replica. -/
def sampleReplica : Address ℕ := List.Vector.replicate 20 1

/-- The owner of a connection manager, where view calls revert. -/
def sampleOwner : XAppConnectionManager.Context ℕ := ⟨0, fun _ => none, fun _ => none⟩

/-- The Replica of the sample once it has accepted a root at time 1. -/
def sampleAccepted (newRoot : Bytes32 ℕ) : Replica ℕ :=
  let chain : Replica.Chain ℕ (XAppConnectionManager ℕ) (XAppConnectionManager.Event ℕ) :=
    .deployed 2000 1000 0 0 1800 1 (XAppConnectionManager.deploy 0)
  { chain.replica with
    confirmAt := Function.update chain.replica.confirmAt newRoot ((1 + 1800) % 2 ^ 256)
    committedRoot := newRoot }

/-- The Replica is enrolled, accepts a root that Home never had, and is un-enrolled one
second later. -/
theorem exists_unenrolled (newRoot : Bytes32 ℕ) :
    ∃ (source : Home.History ℕ)
      (chain : Replica.Chain ℕ (XAppConnectionManager ℕ) (XAppConnectionManager.Event ℕ)),
      (system sampleCrypto (managed sampleCrypto (fun _ => true) sampleReplica)
        unrestricted).Reachable ⟨source, some chain, []⟩ ∧
      source.dispatched = [] ∧ chain.replica = sampleAccepted newRoot ∧ chain.now = 2 ∧
      chain.env.isReplica sampleReplica = false ∧
      chain.trace = [(1, .other (.ReplicaUnenrolled 0 sampleReplica)),
        (1, .other (.ReplicaEnrolled 1000 sampleReplica)),
        (1, .event (.Update 1000 ⟨0, newRoot, []⟩)),
        (2, .other (.ReplicaUnenrolled 1000 sampleReplica))] := by
  let K := sampleCrypto
  let S := managed K (fun _ => true) sampleReplica
  have hinitial := Home.initial_of_isContract 1000 (Home.sampleContext : Home.Context ℕ) 0 0 rfl
  have hstart : (system K S unrestricted).Reachable ⟨_, none, []⟩ :=
    System.reachable_init ⟨hinitial, trivial, rfl, rfl⟩
  let chain₀ : Replica.Chain ℕ (XAppConnectionManager ℕ) (XAppConnectionManager.Event ℕ) :=
    .deployed 2000 1000 0 0 1800 1 (XAppConnectionManager.deploy 0)
  have hdeploy := hstart.step (.deploy chain₀ 0 rfl trivial
    (Replica.Chain.deployed_initial _ _ _ _ _ _ _) rfl List.mem_cons_self)
  let enroll : Replica.Call ℕ (ManagerCall ℕ) :=
    .other (sampleOwner, .ownerEnrollReplica sampleReplica 1000)
  obtain ⟨chain₁, henroll, hreplica₁, hnow₁, howner₁, henrolled, htrace₁⟩ :
      ∃ chain₁, enroll.exec K S chain₀ = .ok chain₁ ∧ chain₁.replica = chain₀.replica ∧
        chain₁.now = 1 ∧ chain₁.env.owner = 0 ∧
        chain₁.env.replicaToDomain sampleReplica = 1000 ∧
        chain₁.trace = [(1, .other (.ReplicaUnenrolled 0 sampleReplica)),
          (1, .other (.ReplicaEnrolled 1000 sampleReplica))] :=
    ⟨_, rfl, rfl, rfl, rfl, rfl, rfl⟩
  have hreach₁ := hdeploy.step (.replica 1 enroll chain₀ chain₁ rfl (fun _ _ => trivial)
    ⟨Nat.le_refl 1, .inl henroll⟩)
  let u : SignedUpdate ℕ := ⟨0, newRoot, []⟩
  obtain ⟨chain₂, hupdate, hreplica₂, henv₂, hnow₂, htrace₂⟩ :
      ∃ chain₂, (Replica.Call.update u).exec K S { chain₁ with now := 1 } = .ok chain₂ ∧
        chain₂.replica = sampleAccepted newRoot ∧ chain₂.env = chain₁.env ∧ chain₂.now = 1 ∧
        chain₂.trace = chain₁.trace ++ [(1, .event (.Update 1000 u))] := by
    refine ⟨_, Replica.Call.exec_update (by rw [hreplica₁]; decide) (by rw [hreplica₁]; rfl)
      (by rw [hreplica₁]; rfl), ?_, rfl, rfl, ?_⟩
    · simp only [hreplica₁]
      rfl
    · simp only [hreplica₁]
      rfl
  have hreach₂ := hreach₁.step (.replica 1 (.update u) chain₁ chain₂ rfl (fun _ _ => trivial)
    ⟨hnow₁.le, .inl hupdate⟩)
  let unenroll : Replica.Call ℕ (ManagerCall ℕ) :=
    .other (sampleOwner, .ownerUnenrollReplica sampleReplica)
  obtain ⟨chain₃, hunenroll, hreplica₃, hnow₃, hgone, htrace₃⟩ :
      ∃ chain₃, unenroll.exec K S { chain₂ with now := 2 } = .ok chain₃ ∧
        chain₃.replica = sampleAccepted newRoot ∧ chain₃.now = 2 ∧
        chain₃.env.isReplica sampleReplica = false ∧
        chain₃.trace = chain₂.trace ++ [(2, .other (.ReplicaUnenrolled 1000 sampleReplica))] := by
    have howner : XAppConnectionManager.exec K (sampleOwner, .ownerUnenrollReplica sampleReplica)
        chain₂.env = .ok (XAppConnectionManager._unenrollReplica sampleReplica chain₂.env) :=
      require_bind_eq_ok.mpr ⟨by rw [henv₂, howner₁]; rfl, rfl⟩
    refine ⟨_, Replica.Call.exec_other howner, hreplica₂, rfl, ?_, ?_⟩
    · exact (isReplica_unenroll sampleReplica).trans (if_pos rfl)
    · simp [henv₂, henrolled]
  have hreach₃ := hreach₂.step (.replica 2 unenroll chain₂ chain₃ rfl (fun _ _ => trivial)
    ⟨(by rw [hnow₂]; decide), .inl hunenroll⟩)
  refine ⟨_, chain₃, hreach₃, rfl, hreplica₃, hnow₃, hgone, ?_⟩
  rw [htrace₃, htrace₂, htrace₁]
  rfl

/-- The Replica is enrolled, accepts a root that Home never had, and is
un-enrolled one second later. When the root is confirmed, a message that was
never dispatched is processed, and its recipient does not take the call. -/
theorem guarded_calls_dispatched_forged :
    ∃ (s : Channel ℕ (XAppConnectionManager ℕ) (XAppConnectionManager.Event ℕ))
      (chain : Replica.Chain ℕ (XAppConnectionManager ℕ) (XAppConnectionManager.Event ℕ)),
      s.source.dispatched = [] ∧ s.replica = some chain ∧ deliveries chain.trace ≠ [] ∧
      ∀ time handle, (time, .handled handle) ∈ chain.trace →
        ∃ d ∈ s.source.dispatched,
          Delivers s.source.home.localDomain chain.replica.localDomain d handle := by
  let K := sampleCrypto
  let S := managed K (fun _ => true) sampleReplica
  -- the root of a tree with one message that nobody dispatched
  let message := (Home.sampleDispatch : Home.Dispatched ℕ).message 1000
  let leaf := K.keccak256 message
  let u : SignedUpdate ℕ := ⟨0, MerkleLib.treeRoot K [leaf], []⟩
  obtain ⟨source, chain₃, hreach₃, hdispatched, hreplica₃, hnow₃, hgone, htrace₃⟩ :=
    exists_unenrolled u.newRoot
  -- the root is confirmed, and the message is proven under it and processed
  let chain₄ : Replica.Chain ℕ (XAppConnectionManager ℕ) (XAppConnectionManager.Event ℕ) :=
    { chain₃ with now := 1801 }
  let proof := MerkleLib.branchOf K [leaf] 0
  have hproof : MerkleLib.branchRoot K leaf proof 0 = u.newRoot :=
    MerkleLib.branchRoot_branchOf Nat.one_pos (by simp [MerkleLib.MAX_LEAVES, MerkleLib.TREE_DEPTH])
  have hroot :
      chain₄.replica.acceptableRoot chain₄.now (MerkleLib.branchRoot K leaf proof 0) = true := by
    rw [hproof, Replica.acceptableRoot_eq_true]
    simp [chain₄, hreplica₃, sampleAccepted]
  have hdestination : Message.destination message = .ok chain₄.replica.localDomain := by
    simp only [chain₄, hreplica₃]
    exact Message.destination_formatMessage _ _ _ _ _ _
  have hgas : (chain₄.replica.PROCESS_GAS + chain₄.replica.RESERVE_GAS) % 2 ^ 256 ≤ 865000 := by
    simp only [chain₄, hreplica₃, sampleAccepted]
    decide
  have hrefused : S.accepts (bytes32ToAddress 0) chain₄.env = false := by
    simp only [S, managed, chain₄, XAppConnectionClient.onlyReplica, hgone, require]
    rfl
  obtain ⟨chain, handle, hprocess, hnow, hoptimistic, htrace⟩ :
      ∃ chain handle, (Replica.Call.proveAndProcess message proof 0 ⟨865000, true, [], true⟩ .nil :
          Replica.Call ℕ (ManagerCall ℕ)).exec K S chain₄ = .ok chain ∧ chain.now = 1801 ∧
        chain.replica.optimisticSeconds = 1800 ∧
        chain.trace = chain₃.trace ++
          [(1801, .proven leaf (MerkleLib.branchRoot K leaf proof 0) .None),
            (1801, .called message handle .Proven), (1801, .event (.Process leaf false []))] := by
    refine ⟨_, _, Replica.Call.exec_proveAndProcess_refused ⟨865000, true, [], true⟩ .nil
      (by simp only [chain₄, hreplica₃]; rfl) hroot (by simp only [chain₄, hreplica₃]; rfl)
      hdestination (Replica.handleOf_formatMessage _ _ _ _ _ _) hgas rfl hrefused, rfl, ?_, rfl⟩
    simp only [Replica.Chain.record_replica, chain₄, hreplica₃]
    rfl
  have hreach := hreach₃.step (.replica 1801 _ chain₃ chain rfl (fun _ _ => trivial)
    ⟨(by rw [hnow₃]; decide), .inl hprocess⟩)
  have hsplit : chain.trace = [(1, .other (.ReplicaUnenrolled 0 sampleReplica)),
      (1, .other (.ReplicaEnrolled 1000 sampleReplica)), (1, .event (.Update 1000 u))] ++
        (2, .other (.ReplicaUnenrolled 1000 sampleReplica)) ::
        [(1801, .proven leaf (MerkleLib.branchRoot K leaf proof 0) .None),
          (1801, .called message handle .Proven), (1801, .event (.Process leaf false []))] := by
    rw [htrace, htrace₃]
    rfl
  have hcalled : (1801, .called message handle .Proven) ∈ chain.trace := by
    rw [hsplit]
    simp
  have hgood : ∀ time d v, (time, .event (.Update d v)) ∈ chain.trace → time < 1 →
      Home.IsPrefixRoot K (source.leaves K) v.newRoot := by
    intro time d v hmem htime
    rw [hsplit] at hmem
    obtain ⟨rfl, -⟩ : time = 1 ∧ d = 1000 ∧ v = u := by simpa using hmem
    exact absurd htime (Nat.lt_irrefl 1)
  have hwindow : 2 < 1 + chain.replica.optimisticSeconds := by
    rw [hoptimistic]
    decide
  have hbound : chain.now + chain.replica.optimisticSeconds < 2 ^ 256 := by
    rw [hnow, hoptimistic]
    decide
  exact ⟨⟨_, some chain, []⟩, chain, hdispatched, rfl,
    List.ne_nil_of_mem (deliveries_of_mem hcalled), fun time handle hhandled =>
      guarded_calls_dispatched sampleCrypto_ideal hreach rfl hgood hsplit (by simp) hwindow hbound
        hhandled rfl⟩

end Channel

end Optics
