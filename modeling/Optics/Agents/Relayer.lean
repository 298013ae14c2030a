/-
# The relayer

The relayer of a Replica polls it for its committed root, waits until the database of the
Home has an update from that root, and submits it. It forgets everything between
two polls. The database is filled by the update indexer, Home and the Replica are called by
anybody, and the process can be interrupted at any point.

Whatever it submits was accepted by Home. As long as everybody who updates the Replica relays
what Home accepted, the updates of the Replica are a stretch of those of Home; and a relayer
that is left alone moves the Replica one update further in every three steps, until it stands
where Home stands.
-/

import Optics.Channel.Accountability
import Optics.Agents.Processor
import Optics.Agents.WatcherRuns

namespace Optics

open Optics.Solidity Optics.Common Optics.Math Optics.Math.Transition

variable {Byte ω E η : Type}

namespace Relayer

/-- The awaits of `poll_and_relay_update`, with the variables that are live there. The
lock is held while an update is relayed, and no second task asks for it. -/
inductive Stage (Byte : Type)
  | asleep
  | polled (oldRoot : Bytes32 Byte)
  | relaying (signedUpdate : SignedUpdate Byte)

end Relayer

/-- Home, the Replica, the database of the Home, the relayer, and what it has submitted. -/
structure Relayer (Byte E η : Type) where
  source : Home.History Byte
  replica : Replica.Chain Byte E η
  db : OpticsDB Byte
  stage : Relayer.Stage Byte
  relayed : List (SignedUpdate Byte)

namespace Relayer

/-- A step of somebody else, or of the relayer. -/
inductive Label (Byte ω : Type)
  | home (tx : Home.Context Byte × Home.Call Byte)
  | replica (time : ℕ) (call : Replica.Call Byte ω)
  | index (write : OpticsDB.Put Byte)
  | poll
  | lookup
  | land (time : ℕ)
  | interrupt

/-- The steps that the relayer takes when it is left alone. -/
def Label.Own : Label Byte ω → Prop
  | .poll | .lookup | .land _ => True
  | _ => False

variable [ByteAlphabet Byte] [DecidableEq Byte] (K : Crypto Byte)
  (S : Replica.Surroundings Byte ω E η)

/-- The steps of the system. A submitted update lands on whatever the Replica is by then, and
whether it reverts is not looked at. An interruption is a failed query, a transaction that is
not mined, or a stop of the process. -/
inductive Step (s : Relayer Byte E η) : Label Byte ω → Relayer Byte E η → Prop
  | home (tx : Home.Context Byte × Home.Call Byte) (source : Home.History Byte)
      (hstep : (Home.system K).step s.source tx source) :
      Step s (.home tx) { s with source := source }
  | replica (time : ℕ) (call : Replica.Call Byte ω) (replica : Replica.Chain Byte E η)
      (htime : s.replica.now ≤ time)
      (hstep : callStep (Replica.Chain.transact K S) s.replica (time, call) replica) :
      Step s (.replica time call) { s with replica := replica }
  | index (write : OpticsDB.Put Byte)
      (hwrite : Processor.Indexed (Home.updates s.source.log) write) :
      Step s (.index write) { s with db := s.db.put write }
  | poll (hstage : s.stage = .asleep) :
      Step s .poll { s with stage := .polled s.replica.replica.committedRoot }
  | wait (oldRoot : Bytes32 Byte) (hstage : s.stage = .polled oldRoot)
      (hrow : Watcher.signedUpdateByOldRoot oldRoot s.db = none) : Step s .lookup s
  | found (oldRoot : Bytes32 Byte) (signedUpdate : SignedUpdate Byte)
      (hstage : s.stage = .polled oldRoot)
      (hrow : Watcher.signedUpdateByOldRoot oldRoot s.db = some (some signedUpdate)) :
      Step s .lookup { s with stage := .relaying signedUpdate }
  | land (time : ℕ) (signedUpdate : SignedUpdate Byte) (replica : Replica.Chain Byte E η)
      (hstage : s.stage = .relaying signedUpdate) (htime : s.replica.now ≤ time)
      (hstep : callStep (Replica.Chain.transact K S) s.replica (time, .update signedUpdate)
        replica) :
      Step s (.land time)
        { s with replica := replica, stage := .asleep, relayed := s.relayed ++ [signedUpdate] }
  | interrupt : Step s .interrupt { s with stage := .asleep }

/-- A relayer with an empty database, for a Replica that was initialised with a root that Home
has had as committed root. -/
def system (root₀ : Bytes32 Byte) : System (Relayer Byte E η) (Label Byte ω) where
  init s := (Home.system K).Reachable s.source ∧ root₀ ∈ Channel.committedRoots s.source ∧
    s.replica.Initial root₀ ∧ s.db = .empty ∧ s.stage = .asleep ∧ s.relayed = []
  step := Step K S

/-- Everybody who calls `update` on the Replica relays an update that Home has accepted. -/
def Relays (s : Relayer Byte E η) : Label Byte ω → Prop
  | .replica _ call => ∀ u ∈ call.updates, u ∈ Home.updates s.source.log
  | _ => True

/-- How many updates of Home the Replica has still to get. -/
def behind (s : Relayer Byte E η) : ℕ :=
  (Home.updates s.source.log).length -
    (Channel.committedRoots s.source).idxOf s.replica.replica.committedRoot

variable {K S} {root₀ : Bytes32 Byte} {s t : Relayer Byte E η} {label : Label Byte ω}
  {labels : List (Label Byte ω)} {n : ℕ}

/-! ### What holds in every state -/

/-- The database agrees with Home, and what the relayer has in hand comes out of it. -/
structure Sound (K : Crypto Byte) (root₀ : Bytes32 Byte) (s : Relayer Byte E η) : Prop where
  source : (Home.system K).Reachable s.source
  start : root₀ ∈ Channel.committedRoots s.source
  replica : Replica.Explained K root₀ s.replica
  rows : ∀ root u, s.db.update root = some u → u.oldRoot = root ∧ u ∈ Home.updates s.source.log
  relaying : ∀ u, s.stage = .relaying u → u ∈ Home.updates s.source.log
  relayed : ∀ u ∈ s.relayed, u ∈ Home.updates s.source.log

omit [ByteAlphabet Byte] [DecidableEq Byte] in
theorem mem_updates_of_extends [ByteAlphabet Byte] {source source' : Home.History Byte}
    (h : Channel.Extends K source source') {u : SignedUpdate Byte}
    (hu : u ∈ Home.updates source.log) : u ∈ Home.updates source'.log :=
  List.filterMap_subset _ h.log.subset hu

omit [ByteAlphabet Byte] in
/-- A row that the indexer writes is that of an update of Home. -/
theorem rows_put {updates : List (SignedUpdate Byte)} {db : OpticsDB Byte}
    {write : OpticsDB.Put Byte} (hwrite : Processor.Indexed updates write)
    (hrows : ∀ root u, db.update root = some u → u.oldRoot = root ∧ u ∈ updates)
    {root : Bytes32 Byte} {u : SignedUpdate Byte} (hu : (db.put write).update root = some u) :
    u.oldRoot = root ∧ u ∈ updates := by
  cases write with
  | update previousRoot v =>
    by_cases hkey : root = previousRoot
    · subst hkey
      rw [OpticsDB.put_update_self] at hu
      obtain rfl := Option.some.inj hu
      exact hwrite
    · rw [OpticsDB.put_update_of_ne hkey] at hu
      exact hrows root u hu
  | leaf => exact hrows root u hu
  | prevRoot => exact hrows root u hu
  | latestRoot => exact hrows root u hu
  | proof => exact hrows root u hu

/-- A transaction of the Replica keeps its trace an explanation. -/
theorem explained_of_transact {chain chain' : Replica.Chain Byte E η} {time : ℕ}
    {call : Replica.Call Byte ω} (h : Replica.Explained K root₀ chain) (htime : chain.now ≤ time)
    (hstep : callStep (Replica.Chain.transact K S) chain (time, call) chain') :
    Replica.Explained K root₀ chain' := by
  rcases Channel.path_of_transact (P := fun _ => True) (fun _ _ => trivial) hstep with hpath | rfl
  · exact (h.later htime).path hpath
  · exact h

theorem Sound.step (h : Sound K root₀ s) (hstep : Step K S s label t) : Sound K root₀ t := by
  cases hstep with
  | home tx source hstep =>
    have hext := Channel.extends_of_step hstep
    have hmem : ∀ u ∈ Home.updates s.source.log, u ∈ Home.updates source.log :=
      fun u hu => mem_updates_of_extends hext hu
    exact ⟨h.source.step hstep, hext.committedRoots_subset h.start, h.replica,
      fun root u hu => ⟨(h.rows root u hu).1, hmem u (h.rows root u hu).2⟩,
      fun u hu => hmem u (h.relaying u hu), fun u hu => hmem u (h.relayed u hu)⟩
  | replica time call replica htime hstep =>
    exact { h with replica := explained_of_transact h.replica htime hstep }
  | index write hwrite => exact { h with rows := fun root u hu => rows_put hwrite h.rows hu }
  | poll => exact { h with relaying := nofun }
  | wait => exact h
  | found oldRoot signedUpdate hstage hrow =>
    refine { h with relaying := fun u hu => ?_ }
    obtain rfl := Stage.relaying.inj hu
    exact (h.rows oldRoot signedUpdate (Watcher.signedUpdateByOldRoot_eq_some.mp hrow)).2
  | land time signedUpdate replica hstage htime hstep =>
    refine { h with
      replica := explained_of_transact h.replica htime hstep
      relaying := nofun
      relayed := fun u hu => ?_ }
    rcases List.mem_append.mp hu with hold | hnew
    · exact h.relayed u hold
    · obtain rfl := List.mem_singleton.mp hnew
      exact h.relaying u hstage
  | interrupt => exact { h with relaying := nofun }

theorem sound_of_reachable (h : (system K S root₀).Reachable s) : Sound K root₀ s := by
  refine h.invariant ?_ (fun s label t _ hsound hstep => hsound.step hstep)
  intro s ⟨hsource, hroot, hinitial, hdb, hstage, hrelayed⟩
  refine ⟨hsource, hroot, hinitial.explained, ?_, ?_, ?_⟩
  · intro root u hu
    rw [hdb] at hu
    cases hu
  · intro u hu
    rw [hstage] at hu
    cases hu
  · intro u hu
    rw [hrelayed] at hu
    cases hu

/-! ### As long as everybody relays -/

/-- What the Replica has accepted came from Home, and the relayer looks for a root that the
Replica has had. -/
structure Following (root₀ : Bytes32 Byte) (s : Relayer Byte E η) : Prop where
  accepted : ∀ u ∈ Replica.accepted s.replica.trace, u ∈ Home.updates s.source.log
  polled : ∀ root, s.stage = .polled root →
    root ∈ root₀ :: (Replica.accepted s.replica.trace).map SignedUpdate.newRoot

omit [ByteAlphabet Byte] [DecidableEq Byte] in
/-- A chain of updates ends at a root on it. -/
theorem finish_mem {start finish : Bytes32 Byte} {chain : List (SignedUpdate Byte)}
    (h : UpdateChain start chain finish) :
    finish ∈ start :: chain.map SignedUpdate.newRoot :=
  List.mem_of_getElem? (Watcher.chain_of_updateChain h).2

theorem accepted_subset {chain chain' : Replica.Chain Byte E η} {time : ℕ}
    {call : Replica.Call Byte ω} {P : SignedUpdate Byte → Prop} (hcall : ∀ u ∈ call.updates, P u)
    (hstep : callStep (Replica.Chain.transact K S) chain (time, call) chain') :
    Replica.accepted chain.trace ⊆ Replica.accepted chain'.trace ∧
      ∀ u ∈ Replica.accepted chain'.trace, u ∈ Replica.accepted chain.trace ∨ P u := by
  rcases Channel.path_of_transact hcall hstep with hpath | rfl
  · obtain ⟨-, -, hfront⟩ := Replica.path_frame hpath
    exact ⟨List.filterMap_subset _ hfront.subset, fun u hu => Channel.accepted_of_path hpath hu⟩
  · exact ⟨List.Subset.refl _, fun u hu => .inl hu⟩

theorem Following.step (h : Following root₀ s) (hsound : Sound K root₀ s)
    (hstep : Step K S s label t) (hrelays : Relays s label) : Following root₀ t := by
  cases hstep with
  | home tx source hstep =>
    have hext := Channel.extends_of_step hstep
    exact ⟨fun u hu => mem_updates_of_extends hext (h.accepted u hu), h.polled⟩
  | replica time call replica htime hstep =>
    obtain ⟨hsub, hnew⟩ := accepted_subset hrelays hstep
    refine ⟨fun u hu => ?_, fun root hroot => ?_⟩
    · exact (hnew u hu).elim (h.accepted u) id
    · exact List.cons_subset_cons _ (List.map_subset _ hsub) (h.polled root hroot)
  | index => exact ⟨h.accepted, h.polled⟩
  | poll =>
    refine ⟨h.accepted, fun root hroot => ?_⟩
    obtain rfl := Stage.polled.inj hroot
    exact finish_mem hsound.replica.chain
  | wait => exact h
  | found => exact ⟨h.accepted, nofun⟩
  | land time signedUpdate replica hstage htime hstep =>
    refine ⟨fun u hu => ?_, nofun⟩
    have hcall : ∀ u ∈ (Replica.Call.update signedUpdate : Replica.Call Byte ω).updates,
        u ∈ Home.updates s.source.log := by
      intro u hu
      obtain rfl := List.mem_singleton.mp hu
      exact hsound.relaying u hstage
    exact ((accepted_subset hcall hstep).2 u hu).elim (h.accepted u) id
  | interrupt => exact ⟨h.accepted, nofun⟩

theorem following_of_reachable (h : ((system K S root₀).restrict Relays).Reachable s) :
    Following root₀ s := by
  refine h.invariant ?_ ?_
  · intro s ⟨_, _, hinitial, _, hstage, _⟩
    refine ⟨fun u hu => ?_, fun root hroot => ?_⟩
    · rw [hinitial.trace_eq] at hu
      cases hu
    · rw [hstage] at hroot
      cases hroot
  · intro s label t hreach hfollowing hstep
    exact hfollowing.step (sound_of_reachable hreach.of_restrict) hstep.1 hstep.2

/-- The roots of Home, as the nodes of a chain that never comes back. -/
theorem Sound.simple (ideal : Crypto.IdealHash K) (h : Sound K root₀ s) :
    Watcher.ends.Simple 0 (Home.updates s.source.log) :=
  (Watcher.home ideal).simple h.source (Watcher.home_fresh ideal h.source)

/-- Home has had the committed root of the Replica. -/
theorem Sound.committedRoot_mem (h : Sound K root₀ s)
    (hfollowing : Following root₀ s) :
    s.replica.replica.committedRoot ∈ Channel.committedRoots s.source := by
  rcases List.mem_cons.mp (finish_mem h.replica.chain) with hstart | hmem
  · exact hstart ▸ h.start
  · obtain ⟨u, hu, hroot⟩ := List.mem_map.mp hmem
    rw [← hroot]
    exact List.mem_cons_of_mem _ (List.mem_map_of_mem (hfollowing.accepted u hu))

/-- **The Replica follows Home.** However Home, the Replica, the indexer and the relayer
interleave, whatever the relayer has submitted was accepted by Home. As long as everybody
who updates the Replica relays, the updates of the Replica are those of Home from its first
root up to its committed root, each of them once and in their order. -/
theorem relays_in_order (ideal : Crypto.IdealHash K) (S : Replica.Surroundings Byte ω E η)
    (root₀ : Bytes32 Byte) (s : Relayer Byte E η) :
    ((system K S root₀).Reachable s → ∀ u ∈ s.relayed, u ∈ Home.updates s.source.log) ∧
    (((system K S root₀).restrict Relays).Reachable s →
      s.replica.replica.committedRoot ∈ Channel.committedRoots s.source ∧
      Replica.accepted s.replica.trace = span (Home.updates s.source.log)
        ((Channel.committedRoots s.source).idxOf root₀)
        ((Channel.committedRoots s.source).idxOf s.replica.replica.committedRoot)) := by
  refine ⟨fun h => (sound_of_reachable h).relayed, fun h => ?_⟩
  have hsound := sound_of_reachable h.of_restrict
  have hfollowing := following_of_reachable h
  obtain ⟨hchain, hlast⟩ := Watcher.chain_of_updateChain hsound.replica.chain
  have hsimple := hsound.simple ideal
  obtain ⟨hspan, -, hend⟩ := hsimple.eq_span hchain hfollowing.accepted
    (List.getElem?_idxOf hsound.start)
  rw [hlast] at hend
  have hmem := hsound.committedRoot_mem hfollowing
  have hindex := hsimple.node_unique hend (List.getElem?_idxOf hmem)
  rw [hindex] at hspan
  exact ⟨hmem, hspan⟩

/-! ### When it is left alone -/

/-- The database has the updates of Home, and the Replica takes all of them. -/
structure Ready (K : Crypto Byte) (root₀ : Bytes32 Byte) (s : Relayer Byte E η) : Prop where
  sound : Sound K root₀ s
  following : Following root₀ s
  state : s.replica.replica.state ≠ .Failed
  signed : ∀ u ∈ Home.updates s.source.log,
    IsSignedBy K s.replica.replica.remoteDomain s.replica.replica.updater u
  indexed : ∀ u ∈ Home.updates s.source.log, s.db.update u.oldRoot = some u

/-- The relayer needs at most `n` steps of its own until the Replica is not behind. -/
def Within (n : ℕ) (s : Relayer Byte E η) : Prop :=
  match s.stage with
  | .asleep => 3 * s.behind ≤ n
  -- a root that the Replica has left costs a round
  | .polled root => root = s.replica.replica.committedRoot ∧ 3 * s.behind ≤ n + 1 ∨
      3 * s.behind + 2 ≤ n
  | .relaying u => u.oldRoot = s.replica.replica.committedRoot ∧ 3 * s.behind ≤ n + 2 ∨
      3 * s.behind + 1 ≤ n

/-- An update lands exactly when it starts at the committed root. -/
theorem Ready.land (h : Ready K root₀ s) {time : ℕ} {u : SignedUpdate Byte}
    (hu : u ∈ Home.updates s.source.log) {replica : Replica.Chain Byte E η}
    (hstep : callStep (Replica.Chain.transact K S) s.replica (time, .update u) replica) :
    replica.replica.state = s.replica.replica.state ∧
      Replica.SameConfig s.replica.replica replica.replica ∧
      (u.oldRoot = s.replica.replica.committedRoot ∧ replica.replica.committedRoot = u.newRoot ∨
        u.oldRoot ≠ s.replica.replica.committedRoot ∧ replica = s.replica) := by
  by_cases hcurrent : u.oldRoot = s.replica.replica.committedRoot
  · have hexec := Replica.Call.exec_update (S := S) (ω := ω) (s := { s.replica with now := time })
      h.state hcurrent (h.signed u hu)
    rcases hstep with hok | ⟨⟨e, herror⟩, -⟩
    · obtain rfl := Except.ok.inj (hexec.symm.trans hok)
      exact ⟨rfl, ⟨rfl, rfl, rfl, rfl⟩, .inl ⟨hcurrent, rfl⟩⟩
    · cases hexec.symm.trans herror
  · rcases hstep with hok | ⟨-, rfl⟩
    · rw [Replica.Chain.transact, Replica.Call.exec] at hok
      obtain ⟨⟨replica', events⟩, hupdate, -⟩ := bind_eq_ok.mp hok
      exact absurd (Replica.update_eq_ok.mp hupdate).2.1 hcurrent
    · exact ⟨rfl, .refl _, .inr ⟨hcurrent, rfl⟩⟩

/-- A Replica that is not behind stands where Home stands. -/
theorem Ready.caught_up (ideal : Crypto.IdealHash K) (h : Ready K root₀ s)
    (hbehind : s.behind = 0) :
    s.replica.replica.committedRoot = s.source.home.committedRoot := by
  obtain ⟨k, hhome⟩ := Home.History.sound_of_reachable ideal h.sound.source
  have hlast := (Watcher.chain_of_updateChain hhome.chain).2
  have hmem := h.sound.committedRoot_mem h.following
  have hlt := List.idxOf_lt_length_of_mem hmem
  rw [behind] at hbehind
  rw [Channel.committedRoots, List.length_cons, List.length_map] at hlt
  have hindex : (Channel.committedRoots s.source).idxOf s.replica.replica.committedRoot =
      (Home.updates s.source.log).length := by
    rw [Channel.committedRoots] at hbehind ⊢
    omega
  have hat := List.getElem?_idxOf hmem
  rw [hindex] at hat
  exact Option.some.inj (hat.symm.trans hlast)

/-- A Replica that is behind stands where an update of Home starts. -/
theorem Ready.exists_next (ideal : Crypto.IdealHash K) (h : Ready K root₀ s)
    (hbehind : s.behind ≠ 0) :
    ∃ u ∈ Home.updates s.source.log, u.oldRoot = s.replica.replica.committedRoot := by
  obtain ⟨k, hhome⟩ := Home.History.sound_of_reachable ideal h.sound.source
  refine Channel.exists_update_from hhome.chain (h.sound.committedRoot_mem h.following) ?_
  intro hroot
  have hlast := (Watcher.chain_of_updateChain hhome.chain).2
  have hindex := (h.sound.simple ideal).node_unique hlast
    (List.getElem?_idxOf (List.mem_of_getElem? hlast))
  rw [behind, hroot] at hbehind
  exact hbehind (Nat.sub_eq_zero_of_le (Nat.le_of_eq hindex))

omit [ByteAlphabet Byte] [DecidableEq Byte] in
theorem Label.Own.relays [ByteAlphabet Byte] (h : label.Own) : Relays s label := by
  cases label with
  | replica => exact h.elim
  | _ => trivial

/-- A step of the relayer brings the Replica nearer. -/
theorem Ready.own_step (ideal : Crypto.IdealHash K) (h : Ready K root₀ s) (hwithin : s.Within n)
    (hstep : Step K S s label t) (hown : label.Own) :
    Ready K root₀ t ∧ t.Within (n - 1) ∧ t.source = s.source := by
  have hsound := h.sound.step hstep
  have hfollowing := h.following.step h.sound hstep hown.relays
  cases hstep with
  | home => exact hown.elim
  | replica => exact hown.elim
  | index => exact hown.elim
  | interrupt => exact hown.elim
  | poll hstage =>
    refine ⟨⟨hsound, hfollowing, h.state, h.signed, h.indexed⟩, ?_, rfl⟩
    simp only [Within, hstage, behind] at hwithin ⊢
    exact .inl ⟨trivial, by omega⟩
  | wait oldRoot hstage hrow =>
    refine ⟨h, ?_, rfl⟩
    rw [Watcher.signedUpdateByOldRoot_eq_none] at hrow
    -- the updates from the roots that the Replica has left are stored
    have hmissing : ∀ u ∈ Home.updates s.source.log, u.oldRoot ≠ oldRoot := by
      rintro u hu rfl
      rw [h.indexed u hu] at hrow
      cases hrow
    have hcurrent : oldRoot = s.replica.replica.committedRoot := by
      by_contra hne
      obtain ⟨u, hu, hroot⟩ := Channel.exists_update_from h.sound.replica.chain
        (h.following.polled oldRoot hstage) hne
      exact hmissing u (h.following.accepted u hu) hroot
    have hbehind : s.behind = 0 := by
      by_contra hne
      obtain ⟨u, hu, hroot⟩ := h.exists_next ideal hne
      exact hmissing u hu (hroot.trans hcurrent.symm)
    simp only [Within, hstage]
    exact .inl ⟨hcurrent, by omega⟩
  | found oldRoot u hstage hrow =>
    refine ⟨⟨hsound, hfollowing, h.state, h.signed, h.indexed⟩, ?_, rfl⟩
    have hold := (h.sound.rows oldRoot u (Watcher.signedUpdateByOldRoot_eq_some.mp hrow)).1
    simp only [Within, hstage, behind] at hwithin ⊢
    rw [hold]
    rcases hwithin with ⟨hcurrent, hle⟩ | hle
    · exact .inl ⟨hcurrent, by omega⟩
    · exact .inr (by omega)
  | land time u replica hstage htime hstep =>
    have hu := h.sound.relaying u hstage
    obtain ⟨hstate, hconfig, hcases⟩ := h.land hu hstep
    refine ⟨⟨hsound, hfollowing, hstate ▸ h.state, fun v hv => ?_, h.indexed⟩, ?_, rfl⟩
    · dsimp only
      rw [hconfig.remoteDomain, hconfig.updater]
      exact h.signed v hv
    · simp only [Within, hstage, behind] at hwithin ⊢
      rcases hcases with ⟨hcurrent, hnew⟩ | ⟨hne, rfl⟩
      · obtain ⟨hnext, hlt⟩ := (h.sound.simple ideal).idxOf_target hu
        change (Channel.committedRoots s.source).idxOf u.newRoot =
          (Channel.committedRoots s.source).idxOf u.oldRoot + 1 at hnext
        rw [hnew, hnext, hcurrent]
        omega
      · rcases hwithin with ⟨hcurrent, -⟩ | hle
        · exact absurd hcurrent hne
        · omega

theorem Ready.own_run (ideal : Crypto.IdealHash K) (h : Ready K root₀ s) (hwithin : s.Within n)
    (hrun : (system K S root₀).Run s labels t) (hown : ∀ label ∈ labels, label.Own) :
    Ready K root₀ t ∧ t.Within (n - labels.length) ∧ t.source = s.source := by
  induction hrun with
  | refl => exact ⟨h, hwithin, rfl⟩
  | tail _ hlast ih =>
    obtain ⟨hready, hnear, hsource⟩ := ih fun label hlabel =>
      hown label (List.mem_append_left _ hlabel)
    obtain ⟨hready', hnear', hsource'⟩ := hready.own_step ideal hnear hlast
      (hown _ (List.mem_append_right _ (List.mem_singleton_self _)))
    refine ⟨hready', ?_, hsource'.trans hsource⟩
    rw [List.length_append, List.length_singleton, ← Nat.sub_sub]
    exact hnear'

/-- The relayer can always take a step. -/
theorem exists_own_step (K : Crypto Byte) (S : Replica.Surroundings Byte ω E η)
    (s : Relayer Byte E η) : ∃ (label : Label Byte ω) (t : Relayer Byte E η), label.Own ∧
      Step K S s label t := by
  cases hstage : s.stage with
  | asleep => exact ⟨.poll, _, trivial, .poll hstage⟩
  | polled oldRoot =>
    cases hrow : s.db.update oldRoot with
    | none =>
      exact ⟨.lookup, _, trivial, .wait oldRoot hstage
        (Watcher.signedUpdateByOldRoot_eq_none.mpr hrow)⟩
    | some u =>
      exact ⟨.lookup, _, trivial, .found oldRoot u hstage
        (Watcher.signedUpdateByOldRoot_eq_some.mpr hrow)⟩
  | relaying u =>
    exact ⟨.land s.replica.now, _, trivial, .land _ u _ hstage (Nat.le_refl _)
      (callStep_afterCall _ _ _)⟩

theorem exists_own_run (K : Crypto Byte) (S : Replica.Surroundings Byte ω E η)
    (root₀ : Bytes32 Byte) (s : Relayer Byte E η) (n : ℕ) :
    ∃ (labels : List (Label Byte ω)) (t : Relayer Byte E η), labels.length = n ∧
      (∀ label ∈ labels, label.Own) ∧ (system K S root₀).Run s labels t := by
  induction n with
  | zero => exact ⟨[], s, rfl, nofun, .refl s⟩
  | succ n ih =>
    obtain ⟨labels, t, hlength, hown, hrun⟩ := ih
    obtain ⟨label, u, hlabel, hstep⟩ := exists_own_step K S t
    refine ⟨labels ++ [label], u, by simp [hlength], ?_, hrun.tail hstep⟩
    intro label' hmem
    rcases List.mem_append.mp hmem with hold | hnew
    · exact hown label' hold
    · exact List.mem_singleton.mp hnew ▸ hlabel

/-- **The relayer catches up.** So far everybody who called `update` on the Replica relayed
what Home had accepted; the Replica has not failed, and its updater is the one who signed the
updates of Home, which are all indexed. However the relayer, the Replica and the database got
there, from then on a relayer that is left alone is never stuck, and three steps for every update
that the Replica is behind and two for what was in hand bring the Replica to the committed root
of Home. -/
theorem catches_up (ideal : Crypto.IdealHash K)
    (h : ((system K S root₀).restrict Relays).Reachable s)
    (hstate : s.replica.replica.state ≠ .Failed)
    (hsigned : ∀ u ∈ Home.updates s.source.log,
      IsSignedBy K s.replica.replica.remoteDomain s.replica.replica.updater u)
    (hindexed : ∀ u ∈ Home.updates s.source.log, s.db.update u.oldRoot = some u) :
    (∀ n, ∃ (labels : List (Label Byte ω)) (t : Relayer Byte E η), labels.length = n ∧
      (∀ label ∈ labels, label.Own) ∧ (system K S root₀).Run s labels t) ∧
    ∀ labels t, (∀ label ∈ labels, label.Own) → (system K S root₀).Run s labels t →
      3 * s.behind + 2 ≤ labels.length →
      t.replica.replica.committedRoot = s.source.home.committedRoot := by
  refine ⟨exists_own_run K S root₀ s, fun labels t hown hrun hlong => ?_⟩
  have hready : Ready K root₀ s := ⟨sound_of_reachable h.of_restrict, following_of_reachable h,
    hstate, hsigned, hindexed⟩
  have hstart : s.Within (3 * s.behind + 2) := by
    rw [Within]
    split
    · omega
    · exact .inr (Nat.le_refl _)
    · exact .inr (by omega)
  obtain ⟨hready', hnear, hsource⟩ := hready.own_run ideal hstart hrun hown
  rw [Nat.sub_eq_zero_of_le hlong, Within] at hnear
  rw [← hsource]
  refine hready'.caught_up ideal ?_
  split at hnear <;> omega

/-! ### A run of the relayer -/

/-- The indexer can store every update. -/
theorem exists_indexed (ideal : Crypto.IdealHash K)
    (h : ((system K S root₀).restrict Relays).Reachable s) {us : List (SignedUpdate Byte)}
    (hus : ∀ u ∈ us, u ∈ Home.updates s.source.log) :
    ∃ db, ((system K S root₀).restrict Relays).Reachable { s with db := db } ∧
      ∀ u ∈ us, db.update u.oldRoot = some u := by
  induction us with
  | nil => exact ⟨s.db, h, nofun⟩
  | cons v rest ih =>
    obtain ⟨db, hreach, hrows⟩ := ih fun u hu => hus u (List.mem_cons_of_mem _ hu)
    have hv := hus v List.mem_cons_self
    refine ⟨db.put (.update v.oldRoot v), hreach.step ⟨.index (.update v.oldRoot v) ⟨rfl, hv⟩,
      trivial⟩, fun u hu => ?_⟩
    by_cases hroot : u.oldRoot = v.oldRoot
    · have hsimple := (sound_of_reachable h.of_restrict).simple ideal
      obtain rfl := hsimple.eq_of_source (hus u hu) hv hroot
      exact OpticsDB.put_update_self
    · rcases List.mem_cons.mp hu with rfl | hu
      · exact absurd rfl hroot
      · rw [OpticsDB.put_update_of_ne hroot]
        exact hrows u hu

/-- Home has accepted an update that is indexed, and the Replica stands where it starts. -/
theorem exists_sample : ∃ s : Relayer ℕ Unit Unit,
    ((system Watcher.sampleCrypto Channel.bareSurroundings 0).restrict Relays).Reachable s ∧
      s.stage = .asleep ∧ s.replica.replica.state ≠ .Failed ∧
      (∀ u ∈ Home.updates s.source.log, IsSignedBy Watcher.sampleCrypto
        s.replica.replica.remoteDomain s.replica.replica.updater u) ∧
      (∀ u ∈ Home.updates s.source.log, s.db.update u.oldRoot = some u) ∧
      ∃ u ∈ Home.updates s.source.log, u.oldRoot = s.replica.replica.committedRoot := by
  obtain ⟨source, hsource, hne⟩ := Watcher.exists_sampleHome
  have hinit : (system Watcher.sampleCrypto Channel.bareSurroundings 0).init
      ⟨source, .deployed 2000 1000 0 0 1800 1 (), .empty, .asleep, []⟩ :=
    ⟨hsource, List.mem_cons_self, Replica.Chain.deployed_initial 2000 1000 0 0 1800 1 (), rfl, rfl,
      rfl⟩
  obtain ⟨db, hreach, hrows⟩ := exists_indexed Watcher.sampleIdeal
    (S := Channel.bareSurroundings) (System.reachable_init hinit) fun u hu => hu
  refine ⟨_, hreach, rfl, States.noConfusion, fun _ _ => rfl, hrows, ?_⟩
  obtain ⟨u, rest, hcons⟩ := List.exists_cons_of_ne_nil hne
  have hchain := (Watcher.home Watcher.sampleIdeal).chain source hsource
  have hmem : u ∈ (Watcher.home Watcher.sampleIdeal).accepted source := by
    rw [hcons]
    exact List.mem_cons_self
  rw [hcons] at hchain
  exact ⟨u, hmem, hchain.1⟩

/-- A relayer that has relayed an update. -/
theorem relays_in_order_sample : ∃ s : Relayer ℕ Unit Unit, s.relayed ≠ [] ∧
    (∀ u ∈ s.relayed, u ∈ Home.updates s.source.log) ∧
      s.replica.replica.committedRoot ∈ Channel.committedRoots s.source ∧
      Replica.accepted s.replica.trace = span (Home.updates s.source.log)
        ((Channel.committedRoots s.source).idxOf 0)
        ((Channel.committedRoots s.source).idxOf s.replica.replica.committedRoot) := by
  obtain ⟨s, hreach, hstage, -, -, hindexed, u, hu, hroot⟩ := exists_sample
  have hrow := Watcher.signedUpdateByOldRoot_eq_some.mpr (hroot ▸ hindexed u hu)
  have hpolled := hreach.step ⟨.poll hstage, trivial⟩
  have hfound := hpolled.step ⟨.found _ u rfl hrow, trivial⟩
  have hlanded := hfound.step ⟨.land s.replica.now u _ rfl (Nat.le_refl _)
    (callStep_afterCall _ _ _), trivial⟩
  obtain ⟨hrelayed, hspan⟩ :=
    relays_in_order Watcher.sampleIdeal Channel.bareSurroundings 0 (Relayer.mk _ _ _ _ _)
  exact ⟨_, by simp, hrelayed hlanded.of_restrict, hspan hlanded⟩

/-- A relayer that catches up. -/
theorem catches_up_sample : ∃ s t : Relayer ℕ Unit Unit,
    s.replica.replica.committedRoot ≠ s.source.home.committedRoot ∧
      t.replica.replica.committedRoot = s.source.home.committedRoot := by
  obtain ⟨s, hreach, -, hstate, hsigned, hindexed, u, hu, hroot⟩ := exists_sample
  obtain ⟨hruns, hcatches⟩ := catches_up Watcher.sampleIdeal hreach hstate hsigned hindexed
  obtain ⟨labels, t, hlength, hown, hrun⟩ := hruns (3 * s.behind + 2)
  refine ⟨s, t, fun heq => ?_, hcatches labels t hown hrun (Nat.le_of_eq hlength.symm)⟩
  -- no update of Home starts where Home stands
  have hsound := sound_of_reachable hreach.of_restrict
  obtain ⟨k, hhome⟩ := Home.History.sound_of_reachable Watcher.sampleIdeal hsound.source
  exact hhome.oldRoot_ne Watcher.sampleIdeal hu (hroot.trans heq)

end Relayer

end Optics
