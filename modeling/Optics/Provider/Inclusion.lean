/-
# When a message is reported as included

The SDK takes a message for included as soon as Home has left the committed root
that it had at the dispatch. Home may leave it for the root of any longer prefix,
so a message that was dispatched after the update was signed is reported as
included, and later as relayed, although no committed tree contains it.

The reports are right as long as every update of Home commits the whole tree and
the Replica accepts no other root in its place.
-/

import Optics.Provider.OpticsMessage
import Optics.Core.Witnesses

namespace Optics.OpticsMessage

open Optics.Solidity Optics.Common Optics.Math.Transition Optics.Channel

variable {Byte ω E η : Type} [DecidableEq Byte]

/-! ### Answers and caches -/

section Answers

variable {log : List (Home.Event Byte)} {trace : List (ℕ × Replica.Action Byte η)}
  {m m' : OpticsMessage Byte}

/-- What a message has cached was found by its queries. -/
structure Cached (log : List (Home.Event Byte)) (trace : List (ℕ × Replica.Action Byte η))
    (m : OpticsMessage Byte) : Prop where
  homeUpdate : ∀ u, m.cache.homeUpdate = some u → u ∈ Home.updates log ∧ u.oldRoot = m.committedRoot
  replicaUpdate : ∀ u, m.cache.replicaUpdate = some u →
    u ∈ Replica.accepted trace ∧ u.oldRoot = m.committedRoot

omit [DecidableEq Byte] in
theorem cached_new (args : DispatchArgs Byte) : Cached log trace (new args) where
  homeUpdate _ h := by cases h
  replicaUpdate _ h := by cases h

omit [DecidableEq Byte] in
/-- Contracts only add events. -/
theorem Cached.extend (h : Cached log trace m) {log' : List (Home.Event Byte)}
    {trace' : List (ℕ × Replica.Action Byte η)} (hlog : Home.updates log ⊆ Home.updates log')
    (htrace : Replica.accepted trace ⊆ Replica.accepted trace') : Cached log' trace' m where
  homeUpdate u hu := ⟨hlog (h.homeUpdate u hu).1, (h.homeUpdate u hu).2⟩
  replicaUpdate u hu := ⟨htrace (h.replicaUpdate u hu).1, (h.replicaUpdate u hu).2⟩

theorem mem_queryUpdates {oldRoot : Bytes32 Byte} {updates : List (SignedUpdate Byte)}
    {u : SignedUpdate Byte} :
    u ∈ queryUpdates oldRoot updates ↔ u ∈ updates ∧ u.oldRoot = oldRoot := by
  simp [queryUpdates]

theorem getHomeUpdate_spec (hcached : Cached log trace m)
    {answer : Except String (Option (SignedUpdate Byte))}
    (h : m.getHomeUpdate log = (answer, m')) :
    m'.dispatch = m.dispatch ∧ Cached log trace m' ∧
      ∀ u, answer = .ok (some u) → u ∈ Home.updates log ∧ u.oldRoot = m.committedRoot := by
  rw [getHomeUpdate] at h
  split at h
  · next update hevent =>
    obtain ⟨rfl, rfl⟩ := Prod.mk.inj h
    have hfound : ∀ u, update = some u → u ∈ Home.updates log ∧ u.oldRoot = m.committedRoot := by
      intro u hu
      rcases getEvent_eq_some (hu ▸ hevent) with hold | hnew
      · exact hcached.homeUpdate u hold
      · exact mem_queryUpdates.mp hnew
    exact ⟨rfl, ⟨hfound, hcached.replicaUpdate⟩, fun u hu => hfound u (Except.ok.inj hu)⟩
  · obtain ⟨rfl, rfl⟩ := Prod.mk.inj h
    exact ⟨rfl, hcached, fun u hu => by cases hu⟩

theorem getReplicaUpdate_spec (hcached : Cached log trace m)
    {answer : Except String (Option (SignedUpdate Byte))}
    (h : m.getReplicaUpdate trace = (answer, m')) :
    m'.dispatch = m.dispatch ∧ Cached log trace m' ∧
      ∀ u, answer = .ok (some u) → u ∈ Replica.accepted trace ∧ u.oldRoot = m.committedRoot := by
  rw [getReplicaUpdate] at h
  split at h
  · next update hevent =>
    obtain ⟨rfl, rfl⟩ := Prod.mk.inj h
    have hfound : ∀ u, update = some u →
        u ∈ Replica.accepted trace ∧ u.oldRoot = m.committedRoot := by
      intro u hu
      rcases getEvent_eq_some (hu ▸ hevent) with hold | hnew
      · exact hcached.replicaUpdate u hold
      · exact mem_queryUpdates.mp hnew
    exact ⟨rfl, ⟨hcached.homeUpdate, hfound⟩, fun u hu => hfound u (Except.ok.inj hu)⟩
  · obtain ⟨rfl, rfl⟩ := Prod.mk.inj h
    exact ⟨rfl, hcached, fun u hu => by cases hu⟩

theorem getProcess_spec (hcached : Cached log trace m)
    {answer : Except String (Option (ProcessArgs Byte))} (h : m.getProcess trace = (answer, m')) :
    m'.dispatch = m.dispatch ∧ Cached log trace m' := by
  rw [getProcess] at h
  split at h
  · obtain ⟨-, rfl⟩ := Prod.mk.inj h
    exact ⟨rfl, hcached.homeUpdate, hcached.replicaUpdate⟩
  · obtain ⟨-, rfl⟩ := Prod.mk.inj h
    exact ⟨rfl, hcached⟩

/-- A status past `Dispatched` rests on an update of Home from the committed root
at the dispatch, and one past `Included` also on such an update of the Replica. -/
theorem events_spec (hcached : Cached log trace m) {answer : Except String (OpticsStatus Byte)}
    (h : m.events log trace = (answer, m')) :
    m'.dispatch = m.dispatch ∧ Cached log trace m' ∧ ∀ report, answer = .ok report →
      (report.status ≠ .Dispatched → ∃ u ∈ Home.updates log, u.oldRoot = m.committedRoot) ∧
      (report.status ≠ .Dispatched → report.status ≠ .Included →
        ∃ u ∈ Replica.accepted trace, u.oldRoot = m.committedRoot) := by
  rw [events] at h
  cases hhome : m.getHomeUpdate log with
  | mk homeAnswer m₁ =>
    obtain ⟨hdispatch₁, hcached₁, hfound₁⟩ := getHomeUpdate_spec hcached hhome
    have hroot₁ : m₁.committedRoot = m.committedRoot := congrArg DispatchArgs.committedRoot hdispatch₁
    rw [hhome] at h
    match homeAnswer with
    | .error e =>
      obtain ⟨rfl, rfl⟩ := Prod.mk.inj h
      exact ⟨hdispatch₁, hcached₁, fun report hreport => by cases hreport⟩
    | .ok none =>
      obtain ⟨rfl, rfl⟩ := Prod.mk.inj h
      refine ⟨hdispatch₁, hcached₁, fun report hreport => ?_⟩
      obtain rfl := Except.ok.inj hreport
      exact ⟨fun hne => absurd rfl hne, fun hne => absurd rfl hne⟩
    | .ok (some homeUpdate) =>
      have hhomeUpdate : ∃ u ∈ Home.updates log, u.oldRoot = m.committedRoot :=
        ⟨homeUpdate, hfound₁ homeUpdate rfl⟩
      cases hreplica : m₁.getReplicaUpdate trace with
      | mk replicaAnswer m₂ =>
        obtain ⟨hdispatch₂, hcached₂, hfound₂⟩ := getReplicaUpdate_spec hcached₁ hreplica
        dsimp only at h
        rw [hreplica] at h
        match replicaAnswer with
        | .error e =>
          obtain ⟨rfl, rfl⟩ := Prod.mk.inj h
          exact ⟨hdispatch₂.trans hdispatch₁, hcached₂, fun report hreport => by cases hreport⟩
        | .ok none =>
          obtain ⟨rfl, rfl⟩ := Prod.mk.inj h
          refine ⟨hdispatch₂.trans hdispatch₁, hcached₂, fun report hreport => ?_⟩
          obtain rfl := Except.ok.inj hreport
          exact ⟨fun _ => hhomeUpdate, fun _ hne => absurd rfl hne⟩
        | .ok (some replicaUpdate) =>
          have hreplicaUpdate : ∃ u ∈ Replica.accepted trace, u.oldRoot = m.committedRoot :=
            ⟨replicaUpdate, hroot₁ ▸ hfound₂ replicaUpdate rfl⟩
          cases hprocess : m₂.getProcess trace with
          | mk processAnswer m₃ =>
            obtain ⟨hdispatch₃, hcached₃⟩ := getProcess_spec hcached₂ hprocess
            dsimp only at h
            rw [hprocess] at h
            have hdispatch := hdispatch₃.trans (hdispatch₂.trans hdispatch₁)
            match processAnswer with
            | .error e =>
              obtain ⟨rfl, rfl⟩ := Prod.mk.inj h
              exact ⟨hdispatch, hcached₃, fun report hreport => by cases hreport⟩
            | .ok none =>
              obtain ⟨rfl, rfl⟩ := Prod.mk.inj h
              exact ⟨hdispatch, hcached₃, fun _ _ =>
                ⟨fun _ => hhomeUpdate, fun _ _ => hreplicaUpdate⟩⟩
            | .ok (some process) =>
              obtain ⟨rfl, rfl⟩ := Prod.mk.inj h
              exact ⟨hdispatch, hcached₃, fun _ _ =>
                ⟨fun _ => hhomeUpdate, fun _ _ => hreplicaUpdate⟩⟩

/-- A confirmation time other than zero is that of the new root of an update of
Home from the committed root at the dispatch. -/
theorem confirmAt_spec (hcached : Cached log trace m) {replica : Replica Byte}
    {answer : Except String ℕ} (h : m.confirmAt log replica = (answer, m')) :
    m'.dispatch = m.dispatch ∧ Cached log trace m' ∧ ∀ time, answer = .ok time →
      time = 0 ∨ ∃ u ∈ Home.updates log, u.oldRoot = m.committedRoot ∧
        time = replica.confirmAt u.newRoot := by
  rw [confirmAt] at h
  cases hhome : m.getHomeUpdate log with
  | mk homeAnswer m₁ =>
    obtain ⟨hdispatch, hcached₁, hfound⟩ := getHomeUpdate_spec hcached hhome
    rw [hhome] at h
    match homeAnswer with
    | .error e =>
      obtain ⟨rfl, rfl⟩ := Prod.mk.inj h
      exact ⟨hdispatch, hcached₁, fun time htime => by cases htime⟩
    | .ok none =>
      obtain ⟨rfl, rfl⟩ := Prod.mk.inj h
      exact ⟨hdispatch, hcached₁, fun time htime => .inl (Except.ok.inj htime).symm⟩
    | .ok (some update) =>
      obtain ⟨rfl, rfl⟩ := Prod.mk.inj h
      obtain ⟨hmem, hroot⟩ := hfound update rfl
      exact ⟨hdispatch, hcached₁, fun time htime =>
        .inr ⟨update, hmem, hroot, (Except.ok.inj htime).symm⟩⟩

end Answers

/-! ### A message that is tracked -/

/-- The channel of a message, and the object that tracks the message once there
is one. -/
structure Tracker (Byte E η : Type) where
  channel : Channel Byte E η
  message : Option (OpticsMessage Byte)

/-- A step of the channel, the construction of the object, or one of its
methods. -/
inductive Tracker.Label (Byte ω E η : Type)
  | channel (label : Channel.Label Byte ω E η)
  | new (args : DispatchArgs Byte)
  | events
  | confirmAt

variable [ByteAlphabet Byte]

section System

variable (K : Crypto Byte) (S : Replica.Surroundings Byte ω E η) (rules : Rules Byte E η)

/-- The steps of a channel and of the object that tracks one of its messages. The
object is made from a `Dispatch` event of Home, when the Replica is known. -/
inductive Tracker.Step (s : Tracker Byte E η) : Tracker.Label Byte ω E η → Tracker Byte E η → Prop
  | channel (label : Channel.Label Byte ω E η) (channel : Channel Byte E η)
      (hstep : Channel.Step K S rules s.channel label channel) :
      Step s (.channel label) { s with channel := channel }
  | new (args : DispatchArgs Byte) (hargs : args.event ∈ s.channel.source.log)
      (hreplica : s.channel.replica.isSome) :
      Step s (.new args) { s with message := some (OpticsMessage.new args) }
  | events (m m' : OpticsMessage Byte) (chain : Replica.Chain Byte E η)
      (answer : Except String (OpticsStatus Byte)) (hmessage : s.message = some m)
      (hchain : s.channel.replica = some chain)
      (hanswer : m.events s.channel.source.log chain.trace = (answer, m')) :
      Step s .events { s with message := some m' }
  | confirmAt (m m' : OpticsMessage Byte) (chain : Replica.Chain Byte E η)
      (answer : Except String ℕ) (hmessage : s.message = some m)
      (hchain : s.channel.replica = some chain)
      (hanswer : m.confirmAt s.channel.source.log chain.replica = (answer, m')) :
      Step s .confirmAt { s with message := some m' }

/-- A tracked channel as a transition system. -/
def tracker : System (Tracker Byte E η) (Tracker.Label Byte ω E η) where
  init s := (Channel.system K S rules).init s.channel ∧ s.message = none
  step := Tracker.Step K S rules

/-- The trace of the Replica of a channel, empty before there is one. -/
def replicaTrace (s : Channel Byte E η) : List (ℕ × Replica.Action Byte η) :=
  match s.replica with
  | none => []
  | some chain => chain.trace

/-- The updates that the Replica of a channel has accepted. -/
def relayed (s : Channel Byte E η) : List (SignedUpdate Byte) := Replica.accepted (replicaTrace s)

/-- The condition on a step. An update that Home accepts goes to the root of the
whole tree and does not conflict with one that the Replica has accepted, and no
update that a transaction gets the Replica to accept conflicts with one that
Home has accepted. -/
def Prompt (s : Tracker Byte E η) : Tracker.Label Byte ω E η → Prop
  | .channel (.home _ (.update u)) =>
    s.channel.source.home.state ≠ .Failed → u.oldRoot = s.channel.source.home.committedRoot →
      s.channel.source.home.queue.contains u.newRoot = true →
      IsSignedBy K s.channel.source.home.localDomain s.channel.source.home.updater u →
        u.newRoot = MerkleLib.root K s.channel.source.home.tree ∧
          ∀ v ∈ relayed s.channel, v.oldRoot = u.oldRoot → v.newRoot = u.newRoot
  | .channel (.replica time call) =>
    ∀ chain, s.channel.replica = some chain → ∀ u ∈ Replica.newUpdates K S chain (time, call),
      ∀ v ∈ Home.updates s.channel.source.log, u.oldRoot = v.oldRoot → u.newRoot = v.newRoot
  | _ => True

/-- The root is that of a tree with the leaf. -/
def InTree (root leaf : Bytes32 Byte) : Prop :=
  ∃ leaves : List (Bytes32 Byte), leaves.length ≤ MerkleLib.MAX_LEAVES ∧
    root = MerkleLib.treeRoot K leaves ∧ leaf ∈ leaves

/-- Every update of Home from the committed root at a dispatch includes the
dispatched message, and the Replica has no other update from that root. -/
structure Timely (s : Channel Byte E η) : Prop where
  dispatched : ∀ args : DispatchArgs Byte, args.event ∈ s.source.log →
    args.messageHash ∈ s.source.leaves K
  included : ∀ args : DispatchArgs Byte, args.event ∈ s.source.log →
    ∀ u ∈ Home.updates s.source.log, u.oldRoot = args.committedRoot →
      InTree K u.newRoot args.messageHash ∧
        InTree K s.source.home.committedRoot args.messageHash
  agree : ∀ u ∈ relayed s, ∀ v ∈ Home.updates s.source.log, u.oldRoot = v.oldRoot →
    u.newRoot = v.newRoot

end System

section Invariant

variable {K : Crypto Byte} {S : Replica.Surroundings Byte ω E η} {rules : Rules Byte E η}
  {s t : Tracker Byte E η}

omit [DecidableEq Byte] [ByteAlphabet Byte] in
theorem event_eq_dispatch {args : DispatchArgs Byte} {hash root : Bytes32 Byte} {index : ℕ}
    {destinationAndNonce : UInt64} {message : List Byte} :
    args.event = .Dispatch hash index destinationAndNonce root message ↔
      args.messageHash = hash ∧ args.leafIndex = index ∧
        args.destinationAndNonce = destinationAndNonce ∧ args.committedRoot = root ∧
        args.message = message := by
  rw [DispatchArgs.event, Home.Event.Dispatch.injEq]

omit [DecidableEq Byte] [ByteAlphabet Byte] in
/-- Administrative events are not dispatches. -/
theorem event_notMem {args : DispatchArgs Byte} {events : List (Home.Event Byte)}
    (h : ∀ e ∈ events, e.Administrative) : args.event ∉ events := fun hmem => h _ hmem

omit [DecidableEq Byte] in
/-- What Home adds to its log besides dispatches and updates does not matter. -/
theorem Timely.quiet {c : Channel Byte E η} (h : Timely K c) {home' : Home Byte}
    {events : List (Home.Event Byte)} (hevents : ∀ e ∈ events, e.Administrative)
    (hdomain : home'.localDomain = c.source.home.localDomain)
    (hroot : home'.committedRoot = c.source.home.committedRoot) :
    Timely K { c with source := ⟨home', c.source.log ++ events, c.source.dispatched⟩ } := by
  have hupdates : Home.updates (c.source.log ++ events) = Home.updates c.source.log := by
    rw [Home.updates_append, Home.updates_eq_nil hevents, List.append_nil]
  have hevent : ∀ args : DispatchArgs Byte, args.event ∈ c.source.log ++ events →
      args.event ∈ c.source.log := fun args hargs =>
    (List.mem_append.mp hargs).resolve_right (event_notMem hevents)
  have hleaves : Home.History.leaves K ⟨home', c.source.log ++ events, c.source.dispatched⟩ =
      c.source.leaves K := by
    simp only [Home.History.leaves, hdomain]
  constructor
  case dispatched =>
    intro args hargs
    rw [hleaves]
    exact h.dispatched args (hevent args hargs)
  case included =>
    intro args hargs u hu hold
    rw [hupdates] at hu
    rw [hroot]
    exact h.included args (hevent args hargs) u hu hold
  case agree =>
    intro u hu v hv
    rw [hupdates] at hv
    exact h.agree u hu v hv

/-- **Step lemma for Home.** -/
theorem Timely.home (ideal : Crypto.IdealHash K) {c : Channel Byte E η} {k : ℕ}
    (hsound : c.source.Sound K k) (h : Timely K c) {ctx : Home.Context Byte}
    {call : Home.Call Byte} {home' : Home Byte} {events : List (Home.Event Byte)}
    {m : Option (OpticsMessage Byte)}
    (hprompt : Prompt K S ⟨c, m⟩ (.channel (.home ctx call) : Tracker.Label Byte ω E η))
    (heffect : Home.Effect K ctx c.source.home call home' events) :
    Timely K { c with source := ⟨home', c.source.log ++ events,
      c.source.dispatched ++ call.dispatched ctx c.source.home⟩ } := by
  have hleaves := Home.History.leaves_exec heffect
  cases heffect with
  | dispatched destination recipient body d tree hd hstate hbody hinsert =>
    subst hd
    constructor
    case dispatched =>
      intro args hargs
      rw [hleaves]
      rcases List.mem_append.mp hargs with hold | hnew
      · exact List.mem_append_left _ (h.dispatched args hold)
      · obtain ⟨hhash, -⟩ := event_eq_dispatch.mp (List.mem_singleton.mp hnew)
        rw [hhash]
        exact List.mem_append_right _ (List.mem_singleton_self _)
    case included =>
      intro args hargs u hu hold
      rw [Home.updates_append] at hu
      have hu' : u ∈ Home.updates c.source.log := by simpa [Home.Event.update?] using hu
      rcases List.mem_append.mp hargs with hprior | hnew
      · exact h.included args hprior u hu' hold
      · -- Home has never left the committed root of the new message
        obtain ⟨-, -, -, hroot, -⟩ := event_eq_dispatch.mp (List.mem_singleton.mp hnew)
        exact absurd (hold.trans hroot) (hsound.oldRoot_ne ideal hu')
    case agree =>
      intro u hu v hv
      rw [Home.updates_append] at hv
      exact h.agree u hu v (by simpa [Home.Event.update?] using hv)
  | committed u queue hstate hsigned hcurrent hqueued hloop =>
    obtain ⟨hwhole, hagree⟩ := hprompt hstate hcurrent hqueued hsigned
    have hlog : Home.updates (c.source.log ++ [.Update c.source.home.localDomain u]) =
        Home.updates c.source.log ++ [u] := Home.updates_append _ _
    have hevent : ∀ args : DispatchArgs Byte,
        args.event ∈ c.source.log ++ [.Update c.source.home.localDomain u] →
          args.event ∈ c.source.log := by
      intro args hargs
      simpa [DispatchArgs.event] using hargs
    -- the new committed root is that of the whole tree
    have hin : ∀ args : DispatchArgs Byte, args.event ∈ c.source.log →
        InTree K u.newRoot args.messageHash := fun args hargs =>
      ⟨c.source.leaves K, hsound.inStep.tree.fits, hwhole.trans hsound.inStep.tree.root_eq,
        h.dispatched args hargs⟩
    constructor
    case dispatched =>
      intro args hargs
      rw [hleaves]
      exact List.mem_append_left _ (h.dispatched args (hevent args hargs))
    case included =>
      intro args hargs v hv hold
      refine ⟨?_, hin args (hevent args hargs)⟩
      rw [hlog] at hv
      rcases List.mem_append.mp hv with hprior | hnew
      · exact (h.included args (hevent args hargs) v hprior hold).1
      · obtain rfl := List.mem_singleton.mp hnew
        exact hin args (hevent args hargs)
    case agree =>
      intro v hv w hw hold
      rw [hlog] at hw
      rcases List.mem_append.mp hw with hprior | hnew
      · exact h.agree v hv w hprior hold
      · obtain rfl := List.mem_singleton.mp hnew
        exact hagree v hv hold
  | slashed updater manager hstate hfraud hevents =>
    rw [hfraud.dispatched_eq_nil, List.append_nil]
    exact h.quiet hevents rfl rfl
  | unchanged hquiet =>
    have hnone : ∀ e ∈ ([] : List (Home.Event Byte)), e.Administrative := by simp
    rw [hquiet, List.append_nil c.source.dispatched]
    exact h.quiet hnone rfl rfl
  | newUpdater updater hsender =>
    have hnone : (Home.Call.setUpdater updater).dispatched ctx c.source.home = [] := rfl
    have hquiet : ∀ e ∈ [Home.Event.NewUpdater updater], e.Administrative := by
      simp [Home.Event.Administrative]
    rw [hnone, List.append_nil]
    exact h.quiet hquiet rfl rfl
  | newUpdaterManager manager hsender =>
    have hnone : (Home.Call.setUpdaterManager manager).dispatched ctx c.source.home = [] := rfl
    have hquiet : ∀ e ∈ [Home.Event.NewUpdaterManager manager], e.Administrative := by
      simp [Home.Event.Administrative]
    rw [hnone, List.append_nil]
    exact h.quiet hquiet rfl rfl

/-- **Step lemma for the Replica.** -/
theorem Timely.replica {c : Channel Byte E η} (h : Timely K c) {time : ℕ}
    {call : Replica.Call Byte ω} {chain chain' : Replica.Chain Byte E η}
    {m : Option (OpticsMessage Byte)} (hsome : c.replica = some chain)
    (hprompt : Prompt K S ⟨c, m⟩ (.channel (.replica time call) : Tracker.Label Byte ω E η))
    (hstep : callStep (Replica.Chain.transact K S) chain (time, call) chain') :
    Timely K { c with replica := some chain' } where
  dispatched := h.dispatched
  included := h.included
  agree u hu v hv hold := by
    have hbefore : relayed c = Replica.accepted chain.trace := by
      rw [relayed, replicaTrace, hsome]
    have hafter : u ∈ Replica.accepted chain.trace ++
        Replica.newUpdates K S chain (time, call) := by
      rw [← Replica.accepted_of_step hstep]
      exact hu
    rcases List.mem_append.mp hafter with hprior | hnew
    · exact h.agree u (hbefore ▸ hprior) v hv hold
    · exact hprompt chain hsome u hnew v hv hold

/-- The invariant of a tracked channel. -/
structure Tracked (K : Crypto Byte) (s : Tracker Byte E η) : Prop where
  timely : Timely K s.channel
  message : ∀ m, s.message = some m → m.dispatch.event ∈ s.channel.source.log ∧
    Cached s.channel.source.log (replicaTrace s.channel) m

theorem channel_of_reachable (h : (tracker K S rules).Reachable s) :
    (Channel.system K S rules).Reachable s.channel := by
  refine h.invariant (fun s hinit => System.reachable_init hinit.1) ?_
  intro s label t _ hreach hstep
  cases hstep with
  | channel label channel hstep => exact hreach.step hstep
  | new => exact hreach
  | events => exact hreach
  | confirmAt => exact hreach

/-- A step of the channel leaves the messages as they are, and adds to what their
queries can find. -/
theorem Cached.step {c c' : Channel Byte E η} {label : Channel.Label Byte ω E η}
    {m : OpticsMessage Byte} (hm : m.dispatch.event ∈ c.source.log ∧
      Cached c.source.log (replicaTrace c) m) (hstep : Channel.Step K S rules c label c') :
    m.dispatch.event ∈ c'.source.log ∧ Cached c'.source.log (replicaTrace c') m := by
  cases hstep with
  | sign => exact hm
  | home ctx call source hcall hpresent hstep =>
    have hlog := (extends_of_step hstep).log
    exact ⟨hlog.subset hm.1, hm.2.extend (List.filterMap_subset _ hlog.subset) (List.Subset.refl _)⟩
  | deploy chain root hnone =>
    refine ⟨hm.1, hm.2.extend (List.Subset.refl _) ?_⟩
    rw [replicaTrace, hnone]
    exact List.nil_subset _
  | replica time call chain chain' hsome hpresent hstep =>
    refine ⟨hm.1, hm.2.extend (List.Subset.refl _) ?_⟩
    have htrace : chain.trace ⊆ chain'.trace := by
      rcases path_of_transact (P := fun _ => True) (fun _ _ => trivial) hstep.2 with hpath | rfl
      · exact (Replica.path_frame hpath).2.2.subset
      · exact List.Subset.refl _
    simp only [replicaTrace, hsome]
    exact List.filterMap_subset _ htrace

theorem tracked_of_reachable (ideal : Crypto.IdealHash K)
    (h : ((tracker K S rules).restrict (Prompt K S)).Reachable s) : Tracked K s := by
  refine h.invariant ?_ ?_
  · intro s hinit
    obtain ⟨⟨hinitial, -, hnone, -⟩, hmessage⟩ := hinit
    obtain ⟨manager, updater, hlog⟩ := hinitial.log_eq
    have hquiet : ∀ args : DispatchArgs Byte, args.event ∉ s.channel.source.log := by
      intro args
      rw [hlog]
      exact event_notMem (by simp [Home.Event.Administrative])
    refine ⟨⟨fun args hargs => absurd hargs (hquiet args), fun args hargs => absurd hargs (hquiet args),
      fun u hu => ?_⟩, fun m hm => ?_⟩
    · simp [relayed, replicaTrace, hnone, Replica.accepted] at hu
    · rw [hmessage] at hm
      cases hm
  · intro s label t hreach htracked hstep
    obtain ⟨hstep, hprompt⟩ := hstep
    have hchannel := channel_of_reachable hreach.of_restrict
    obtain ⟨k, hsound⟩ := sound_of_reachable ideal hchannel
    cases hstep with
    | channel label channel hstep =>
      refine ⟨?_, fun m hm => Cached.step (htracked.message m hm) hstep⟩
      have htimely := htracked.timely
      cases hstep with
      | sign => exact ⟨htimely.dispatched, htimely.included, htimely.agree⟩
      | home ctx call source hcall hpresent hstep =>
        rcases hstep with hexec | ⟨-, rfl⟩
        · obtain ⟨home', events, hok, rfl⟩ := Home.History.exec_eq_ok.mp hexec
          exact htimely.home ideal hsound hprompt (Home.effect_of_exec hok)
        · exact htimely
      | deploy chain root hnone hdeploy hinitial =>
        refine ⟨htimely.dispatched, htimely.included, fun u hu => ?_⟩
        simp [relayed, replicaTrace, hinitial.trace_eq, Replica.accepted] at hu
      | replica time call chain chain' hsome hpresent hstep =>
        exact htimely.replica hsome hprompt hstep.2
    | new args hargs hreplica =>
      refine ⟨htracked.timely, fun m hm => ?_⟩
      obtain rfl := Option.some.inj hm
      exact ⟨hargs, cached_new args⟩
    | events m m' chain answer hmessage hchain hanswer =>
      refine ⟨htracked.timely, fun m'' hm => ?_⟩
      obtain rfl := Option.some.inj hm
      obtain ⟨hevent, hcached⟩ := htracked.message m hmessage
      simp only [replicaTrace, hchain] at hcached ⊢
      obtain ⟨hdispatch, hcached', -⟩ := events_spec hcached hanswer
      exact ⟨hdispatch ▸ hevent, hcached'⟩
    | confirmAt m m' chain answer hmessage hchain hanswer =>
      refine ⟨htracked.timely, fun m'' hm => ?_⟩
      obtain rfl := Option.some.inj hm
      obtain ⟨hevent, hcached⟩ := htracked.message m hmessage
      obtain ⟨hdispatch, hcached', -⟩ := confirmAt_spec hcached hanswer
      exact ⟨hdispatch ▸ hevent, hcached'⟩

/-- **Reports of inclusion.** In every run whose steps are prompt, a status past
`Dispatched` is reported only for a message in the tree of Home's committed
root, a status past `Included` only when the Replica has accepted the root of a
tree with the message, and a confirmation time other than zero is that of such
a root. -/
theorem reports_of_prompt (ideal : Crypto.IdealHash K)
    (h : ((tracker K S rules).restrict (Prompt K S)).Reachable s) {m : OpticsMessage Byte}
    (hmessage : s.message = some m) {chain : Replica.Chain Byte E η}
    (hchain : s.channel.replica = some chain) :
    (∀ report m', m.events s.channel.source.log chain.trace = (.ok report, m') →
      (report.status ≠ .Dispatched → InTree K s.channel.source.home.committedRoot m.leaf) ∧
      (report.status ≠ .Dispatched → report.status ≠ .Included →
        ∃ u ∈ Replica.accepted chain.trace, InTree K u.newRoot m.leaf)) ∧
    ∀ time m', m.confirmAt s.channel.source.log chain.replica = (.ok time, m') →
      time = 0 ∨ ∃ root, InTree K root m.leaf ∧ time = chain.replica.confirmAt root := by
  have htracked := tracked_of_reachable ideal h
  obtain ⟨hevent, hcached⟩ := htracked.message m hmessage
  have htrace : replicaTrace s.channel = chain.trace := by rw [replicaTrace, hchain]
  rw [htrace] at hcached
  refine ⟨fun report m' hreport => ?_, fun time m' htime => ?_⟩
  · obtain ⟨-, -, hstatus⟩ := events_spec hcached hreport
    obtain ⟨hincluded, hrelayed⟩ := hstatus report rfl
    refine ⟨fun hne => ?_, fun hne hne' => ?_⟩
    · obtain ⟨u, hu, hold⟩ := hincluded hne
      exact (htracked.timely.included _ hevent u hu hold).2
    · obtain ⟨u, hu, hold⟩ := hincluded hne
      obtain ⟨v, hv, hold'⟩ := hrelayed hne hne'
      refine ⟨v, hv, ?_⟩
      have hv' : v ∈ relayed s.channel := by rwa [relayed, htrace]
      rw [htracked.timely.agree v hv' u hu (hold'.trans hold.symm)]
      exact (htracked.timely.included _ hevent u hu hold).1
  · obtain ⟨-, -, hconfirm⟩ := confirmAt_spec hcached htime
    rcases hconfirm time rfl with hzero | ⟨u, hu, hold, hu'⟩
    · exact .inl hzero
    · exact .inr ⟨u.newRoot, (htracked.timely.included _ hevent u hu hold).1, hu'⟩

end Invariant

/-! ### An update that was signed before the dispatch -/

section Trees

variable {K : Crypto Byte} (ideal : Crypto.IdealHash K)
include ideal

omit [DecidableEq Byte] in
/-- A root belongs to one tree. -/
theorem not_inTree {leaves : List (Bytes32 Byte)} {leaf : Bytes32 Byte} (hleaf : leaf ≠ 0)
    (hnot : leaf ∉ leaves) : ¬ InTree K (MerkleLib.treeRoot K leaves) leaf := by
  rintro ⟨others, hfit, hroot, hmem⟩
  obtain ⟨index, hindex, rfl⟩ := List.mem_iff_getElem.mp hmem
  have hbranch := MerkleLib.branchRoot_branchOf (K := K) hindex hfit
  exact hnot (MerkleLib.mem_of_branchRoot ideal (hbranch.trans hroot.symm) hleaf)

end Trees

omit [ByteAlphabet Byte] [DecidableEq Byte] in
/-- The arguments of a `Dispatch` event in a log. -/
theorem exists_args {messageHash committedRoot : Bytes32 Byte} {message : List Byte}
    {log : List (Home.Event Byte)}
    (h : ∃ index destinationAndNonce,
      .Dispatch messageHash index destinationAndNonce committedRoot message ∈ log) :
    ∃ args : DispatchArgs Byte, args.event ∈ log ∧ args.committedRoot = committedRoot ∧
      args.messageHash = messageHash := by
  obtain ⟨index, destinationAndNonce, hmem⟩ := h
  exact ⟨⟨messageHash, index, destinationAndNonce, committedRoot, message⟩, hmem, rfl, rfl⟩

section Fresh

variable {args : DispatchArgs Byte} {log : List (Home.Event Byte)}
  {trace : List (ℕ × Replica.Action Byte η)} {u v : SignedUpdate Byte}

omit [ByteAlphabet Byte] in
/-- An object that has cached nothing finds the one update that the query gives. -/
theorem getHomeUpdate_new (hhome : queryUpdates args.committedRoot (Home.updates log) = [u]) :
    (new args).getHomeUpdate log = (.ok (some u), ⟨args, ⟨some u, none, none⟩⟩) := by
  simp only [getHomeUpdate, new, committedRoot, hhome]
  rfl

omit [ByteAlphabet Byte] in
theorem events_new (hhome : queryUpdates args.committedRoot (Home.updates log) = [u])
    (hreplica : queryUpdates args.committedRoot (Replica.accepted trace) = [v])
    (hprocess : queryProcess args.messageHash trace = []) :
    (new args).events log trace = (.ok ⟨.Relayed, [.dispatch args, .update u, .update v]⟩,
      ⟨args, ⟨some u, some v, none⟩⟩) := by
  simp only [events, getHomeUpdate_new hhome, getReplicaUpdate, committedRoot, hreplica, getEvent,
    getProcess, leaf, hprocess]

end Fresh

/-- **A premature report.** Two messages are dispatched, and the updater's
signature covers only the first. Once Home and the Replica have accepted it, the
second message is reported as relayed, with a confirmation time, although it is
neither in the tree of the committed root nor in that of any root that the
Replica has accepted. -/
theorem reported_before_included :
    ∃ (s : Tracker ℕ Unit Unit) (chain : Replica.Chain ℕ Unit Unit) (m m₁ m₂ : OpticsMessage ℕ)
      (report : OpticsStatus ℕ) (time : ℕ),
      (tracker sampleCrypto bareSurroundings unrestricted).Reachable s ∧
      s.message = some m ∧ s.channel.replica = some chain ∧
      m.events s.channel.source.log chain.trace = (.ok report, m₁) ∧ report.status = .Relayed ∧
      ¬ InTree sampleCrypto s.channel.source.home.committedRoot m.leaf ∧
      (∀ u ∈ Replica.accepted chain.trace, ¬ InTree sampleCrypto u.newRoot m.leaf) ∧
      m.confirmAt s.channel.source.log chain.replica = (.ok time, m₂) ∧ time ≠ 0 ∧
      ∀ root, InTree sampleCrypto root m.leaf → chain.replica.confirmAt root ≠ time := by
  let K := sampleCrypto
  have ideal : Crypto.IdealHash K := sampleCrypto_ideal
  obtain ⟨start, middle, history, hinitial, hstep, hstep', hdomain, hstate, hupdater, hupdates,
    hleaves, hevent, hin⟩ := Home.exists_dispatched_twice K 0
  obtain ⟨args, hargs, hroot, hhash⟩ := exists_args hevent
  let first := K.keccak256 (Home.sampleDispatch.message 1000)
  let second := K.keccak256 (Home.secondDispatch.message 1000)
  let root := MerkleLib.treeRoot K [first]
  have hsecond : ¬ InTree K root second := by
    refine not_inTree ideal (ideal.ne_zero _) fun hmem => ?_
    have hmessage := ideal.injective (List.mem_singleton.mp hmem)
    have hnonce := congrArg Message.nonce hmessage
    simp [Home.Dispatched.message, Home.secondDispatch, Home.sampleDispatch] at hnonce
  -- Home and the Replica accept the root of the first message alone
  let u : SignedUpdate ℕ := ⟨0, root, []⟩
  have hfront : u.newRoot = Home.prefixRoot K (history.leaves K) 1 := by
    rw [Home.prefixRoot_of_pos Nat.one_pos, hleaves]
    rfl
  obtain ⟨queue, hupdate, -⟩ := Home.exec_update_of_lt ideal hin (history.zero_notMem_leaves ideal)
    Nat.one_pos (by simp [hleaves]) Home.sampleContext hin.committedRoot_eq.symm hfront
    (by simp [hstate]) (by rw [hupdater]; rfl)
  let chain₀ : Replica.Chain ℕ Unit Unit := .deployed 2000 1000 0 0 1800 1 ()
  obtain ⟨chain, hrelay, htrace, hconfirmAt⟩ : ∃ chain : Replica.Chain ℕ Unit Unit,
      (Replica.Call.update u : Replica.Call ℕ Empty).exec K bareSurroundings chain₀ = .ok chain ∧
        chain.trace = [(1, .event (.Update 1000 u))] ∧
        chain.replica.confirmAt =
          Function.update chain₀.replica.confirmAt root ((1 + 1800) % 2 ^ 256) :=
    ⟨_, Replica.Call.exec_update (by decide) rfl rfl, rfl, rfl⟩
  have hreach : (tracker K bareSurroundings unrestricted).Reachable ⟨⟨start, none, []⟩, none⟩ :=
    System.reachable_init ⟨⟨hinitial, trivial, rfl, rfl⟩, rfl⟩
  have hreach₁ := hreach.step (.channel _ _ (.home _ _ middle trivial (fun _ _ => trivial) hstep))
  have hreach₂ := hreach₁.step (.channel _ _ (.home _ _ history trivial (fun _ _ => trivial) hstep'))
  have hreach₃ := hreach₂.step (.channel _ _ (.deploy chain₀ 0 rfl trivial
    (Replica.Chain.deployed_initial _ _ _ _ _ _ _) hdomain.symm List.mem_cons_self))
  have hreach₄ := hreach₃.step (.channel _ _ (.home _ _ _ trivial (fun _ _ => trivial)
    (Home.History.step_of_exec hupdate)))
  have hreach₅ := hreach₄.step (.channel _ _ (.replica 1 (.update u) chain₀ chain rfl
    (fun _ _ => trivial) ⟨Nat.le_refl 1, .inl hrelay⟩))
  obtain ⟨s, hreach₆, hmessage, hchain, hlog, hcommitted⟩ : ∃ s : Tracker ℕ Unit Unit,
      (tracker K bareSurroundings unrestricted).Reachable s ∧ s.message = some (new args) ∧
        s.channel.replica = some chain ∧
        s.channel.source.log = history.log ++ [.Update history.home.localDomain u] ∧
        s.channel.source.home.committedRoot = root :=
    ⟨_, hreach₅.step (.new args (List.mem_append_left _ hargs) rfl), rfl, rfl, rfl, rfl⟩
  have hhome : queryUpdates args.committedRoot (Home.updates s.channel.source.log) = [u] := by
    rw [hlog, Home.updates_append, hupdates, hroot]
    simp [Home.Event.update?, queryUpdates, u]
  have hreplica : queryUpdates args.committedRoot (Replica.accepted chain.trace) = [u] := by
    rw [htrace, hroot]
    simp [Replica.accepted, Replica.Action.update?, queryUpdates, u]
  have hprocess : queryProcess args.messageHash chain.trace = [] := by
    rw [htrace]
    rfl
  have hleaf : (new args).leaf = second := hhash
  have hevents := events_new hhome hreplica hprocess
  have hconfirm : (new args).confirmAt s.channel.source.log chain.replica =
      (.ok ((1 + 1800) % 2 ^ 256), ⟨args, ⟨some u, none, none⟩⟩) := by
    simp only [confirmAt, getHomeUpdate_new hhome, hconfirmAt]
    rw [Function.update_self]
  refine ⟨s, chain, new args, _, _, _, _, hreach₆, hmessage, hchain, hevents, rfl, ?_, ?_, hconfirm,
    by decide, ?_⟩
  · rw [hcommitted, hleaf]
    exact hsecond
  · intro v hv
    rw [htrace] at hv
    obtain rfl := List.mem_singleton.mp hv
    rw [hleaf]
    exact hsecond
  · intro root' hroot'
    have hne : root' ≠ root := fun heq => hsecond (heq ▸ hleaf ▸ hroot')
    rw [hconfirmAt, Function.update_of_ne hne]
    simp only [chain₀, Replica.Chain.deployed, Replica.init, Function.update_apply]
    split_ifs
    · decide
    · decide

/-- A run in which Home commits the whole tree and the Replica takes its root: the
second message is reported as relayed, and it is in both trees. -/
theorem reports_of_prompt_relayed :
    ∃ (s : Tracker ℕ Unit Unit) (chain : Replica.Chain ℕ Unit Unit) (m m₁ : OpticsMessage ℕ)
      (report : OpticsStatus ℕ), s.message = some m ∧ s.channel.replica = some chain ∧
      m.events s.channel.source.log chain.trace = (.ok report, m₁) ∧ report.status = .Relayed ∧
      (∀ report m', m.events s.channel.source.log chain.trace = (.ok report, m') →
        (report.status ≠ .Dispatched →
          InTree sampleCrypto s.channel.source.home.committedRoot m.leaf) ∧
        (report.status ≠ .Dispatched → report.status ≠ .Included →
          ∃ u ∈ Replica.accepted chain.trace, InTree sampleCrypto u.newRoot m.leaf)) ∧
      ∀ time m', m.confirmAt s.channel.source.log chain.replica = (.ok time, m') →
        time = 0 ∨ ∃ root, InTree sampleCrypto root m.leaf ∧ time = chain.replica.confirmAt root := by
  let K := sampleCrypto
  have ideal : Crypto.IdealHash K := sampleCrypto_ideal
  obtain ⟨start, middle, history, hinitial, hstep, hstep', hdomain, hstate, hupdater, hupdates,
    hleaves, hevent, hin⟩ := Home.exists_dispatched_twice K 0
  obtain ⟨args, hargs, hroot, -⟩ := exists_args hevent
  -- Home accepts the root of the whole tree
  have hlength : (history.leaves K).length = 2 := by simp [hleaves]
  let u : SignedUpdate ℕ := ⟨0, Home.prefixRoot K (history.leaves K) 2, []⟩
  have hwhole : u.newRoot = MerkleLib.root K history.home.tree := by
    rw [hin.tree.root_eq]
    exact (Home.prefixRoot_of_pos (by decide)).trans
      (congrArg (MerkleLib.treeRoot K) (List.take_of_length_le hlength.le))
  have hnew : u.newRoot = Home.prefixRoot K (history.leaves K) 2 := rfl
  obtain ⟨queue, hupdate, -⟩ := Home.exec_update_of_lt ideal hin (history.zero_notMem_leaves ideal)
    (by decide) hlength.ge Home.sampleContext hin.committedRoot_eq.symm hnew
    (by simp [hstate]) (by rw [hupdater]; rfl)
  have hlog : Home.updates (history.log ++ [.Update history.home.localDomain u]) = [u] := by
    rw [Home.updates_append, hupdates]
    rfl
  -- and so does the Replica
  let chain₀ : Replica.Chain ℕ Unit Unit := .deployed 2000 1000 0 0 1800 1 ()
  obtain ⟨chain, hrelay, htrace⟩ : ∃ chain : Replica.Chain ℕ Unit Unit,
      Replica.Chain.transact K bareSurroundings (1, .update u) chain₀ = .ok chain ∧
        chain.trace = [(1, .event (.Update 1000 u))] :=
    ⟨_, Replica.Call.exec_update States.noConfusion rfl rfl, rfl⟩
  have hnewUpdates : Replica.newUpdates K bareSurroundings chain₀ (1, .update u) = [u] := by
    rw [Replica.newUpdates, afterCall_of_ok hrelay, htrace]
    rfl
  let system := (tracker K bareSurroundings unrestricted).restrict (Prompt K bareSurroundings)
  have hreach : system.Reachable ⟨⟨start, none, []⟩, none⟩ :=
    System.reachable_init ⟨⟨hinitial, trivial, rfl, rfl⟩, rfl⟩
  have hreach₁ := hreach.step
    ⟨.channel _ _ (.home _ _ middle trivial (fun _ _ => trivial) hstep), trivial⟩
  have hreach₂ := hreach₁.step
    ⟨.channel _ _ (.home _ _ history trivial (fun _ _ => trivial) hstep'), trivial⟩
  have hreach₃ := hreach₂.step ⟨.channel _ _ (.deploy chain₀ 0 rfl trivial
    (Replica.Chain.deployed_initial _ _ _ _ _ _ _) hdomain.symm List.mem_cons_self), trivial⟩
  have hreach₄ := hreach₃.step ⟨.channel _ _ (.home _ _ _ trivial (fun _ _ => trivial)
    (Home.History.step_of_exec hupdate)), fun _ _ _ _ => ⟨hwhole, fun v hv => by cases hv⟩⟩
  have hreach₅ := hreach₄.step ⟨.channel _ _ (.replica 1 (.update u) chain₀ chain rfl
    (fun _ _ => trivial) ⟨Nat.le_refl 1, .inl hrelay⟩), by
      intro chain' hchain v hv w hw _
      obtain rfl := Option.some.inj hchain
      obtain rfl := List.mem_singleton.mp (hnewUpdates ▸ hv)
      obtain rfl := List.mem_singleton.mp (hlog ▸ hw)
      rfl⟩
  obtain ⟨s, hreach₆, hmessage, hchain, hsource⟩ : ∃ s : Tracker ℕ Unit Unit,
      system.Reachable s ∧ s.message = some (new args) ∧ s.channel.replica = some chain ∧
        s.channel.source.log = history.log ++ [.Update history.home.localDomain u] :=
    ⟨_, hreach₅.step ⟨.new args (List.mem_append_left _ hargs) rfl, trivial⟩, rfl, rfl, rfl⟩
  have hhome : queryUpdates args.committedRoot (Home.updates s.channel.source.log) = [u] := by
    rw [hsource, hlog, hroot]
    rfl
  have hreplica : queryUpdates args.committedRoot (Replica.accepted chain.trace) = [u] := by
    rw [htrace, hroot]
    rfl
  have hprocess : queryProcess args.messageHash chain.trace = [] := by
    rw [htrace]
    rfl
  exact ⟨s, chain, new args, _, _, hmessage, hchain, events_new hhome hreplica hprocess, rfl,
    reports_of_prompt ideal hreach₆ hmessage hchain⟩

end Optics.OpticsMessage
