/-
# The update submitter beside Home

The submitter keeps a committed root of its own. It starts from the root of Home, sends
the recorded update that builds off its root, waits until the transaction is mined, and
goes on from the new root of that update. It does not look at how the transaction ended:
one that reverted is an ordinary outcome, and then the submitter stands at a root that
Home may never commit.

Home goes on by itself meanwhile. Anybody calls it, the updater may be replaced, and it
may fail between the time an update is read and the time its transaction is mined.
-/

import Optics.Agents.Updater
import Optics.Core.HomeInvariant

namespace Optics.UpdateSubmitter

open Optics.Solidity Optics.Common Optics.Math.Transition

variable {Byte : Type}

/-- The local committed root, once it has been read from the chain. -/
def localRoot : Updater.Submitter Byte → Option (Bytes32 Byte)
  | .starting => none
  | .asleep committedRoot => some committedRoot
  | .submitting signed => some signed.update.previousRoot

/-- Home and the updater process, whether the transaction of the submitter has been mined,
and two records of the past: every value of `committedRoot` of Home, and every local
root. -/
structure World (Byte : Type) where
  history : Home.History Byte
  committedRoots : List (Bytes32 Byte)
  updater : Updater.State Byte (Home Byte)
  mined : Bool
  visited : List (Bytes32 Byte)

/-- What happens next: a call of Home by anybody, a step of the updater process, or the
transaction of the submitter in a block. -/
inductive Label (Byte : Type)
  | home (tx : Home.Context Byte × Home.Call Byte)
  | task (label : Updater.Label Byte (Home Byte))
  | mine (ctx : Home.Context Byte)

/-- The arguments of the transaction. -/
def presented (signed : Updater.SignedUpdate Byte) : SignedUpdate Byte :=
  ⟨signed.update.previousRoot, signed.update.newRoot, signed.signature⟩

namespace World

/-- The world once Home has moved on. -/
def atHome (s : World Byte) (history : Home.History Byte) : World Byte :=
  { s with
    history := history
    committedRoots := s.committedRoots ++ [history.home.committedRoot] }

/-- The world once the updater process has taken a step. A transaction that is sent has
not been mined. -/
def atTask (s : World Byte) (label : Updater.Label Byte (Home Byte))
    (updater : Updater.State Byte (Home Byte)) : World Byte :=
  { s with
    updater := updater
    mined := match label with
      | .submit => false
      | _ => s.mined
    visited := s.visited ++ (localRoot updater.submitter).toList }

/-- Whether a step of the process reads what is there: Home answers from its current
state, and the outcome of a transaction exists once it is mined, whatever it is. -/
def Reads (s : World Byte) : Updater.Label Byte (Home Byte) → Prop
  | .answer home => home = s.history.home
  | .recheck home => home = s.history.home
  | .start committedRoot => committedRoot = s.history.home.committedRoot
  | .outcome => s.mined = true
  | _ => True

variable [ByteAlphabet Byte] [DecidableEq Byte] (K : Crypto Byte) (homeDomain : UInt32)

/-- One step. A transaction is mined also if it reverts. -/
inductive Step (s : World Byte) : Label Byte → World Byte → Prop
  | home (tx : Home.Context Byte × Home.Call Byte) (history : Home.History Byte)
      (hcall : (Home.system K).step s.history tx history) : Step s (.home tx) (s.atHome history)
  | task (label : Updater.Label Byte (Home Byte)) (updater : Updater.State Byte (Home Byte))
      (hreads : s.Reads label)
      (hexec : (Updater.system homeDomain Home.suggestUpdate).step s.updater label updater) :
      Step s (.task label) (s.atTask label updater)
  | mine (ctx : Home.Context Byte) (signed : Updater.SignedUpdate Byte)
      (history : Home.History Byte) (hsubmitting : s.updater.submitter = .submitting signed)
      (hpending : s.mined = false)
      (hcall : (Home.system K).step s.history (ctx, .update (presented signed)) history) :
      Step s (.mine ctx) { s.atHome history with mined := true }

/-- A Home just after `initialize`, and an updater that has recorded nothing. -/
structure Initial (s : World Byte) : Prop where
  history : s.history.Initial
  committedRoots : s.committedRoots = [s.history.home.committedRoot]
  updater : Updater.Initial s.updater
  visited : s.visited = []

/-- Home and the updater under any calls, crashes and transactions. -/
def system : System (World Byte) (Label Byte) where
  init := Initial
  step := Step K homeDomain

/-- Home has accepted an update from a root. -/
def Accepted (s : World Byte) (oldRoot : Bytes32 Byte) : Prop :=
  ∃ u ∈ Home.updates s.history.log, u.oldRoot = oldRoot

/-- **What is asked of the submitter.** Its local root is a value that `committedRoot` has
had, and a root that it has moved on from is one from which Home has accepted an
update. -/
structure NeverAhead (s : World Byte) : Prop where
  had : ∀ root, localRoot s.updater.submitter = some root → root ∈ s.committedRoots
  passed : ∀ oldRoot ∈ s.visited, ∀ root, localRoot s.updater.submitter = some root →
    oldRoot ≠ root → s.Accepted oldRoot

/-- Home takes an update: it has not failed, the signature is its updater's, the update
is current, and the new root is in the queue. -/
structure Takes (home : Home Byte) (u : SignedUpdate Byte) : Prop where
  active : home.state ≠ .Failed
  signed : IsSignedBy K home.localDomain home.updater u
  current : u.oldRoot = home.committedRoot
  queued : home.queue.contains u.newRoot = true

/-- The transactions of the submitter are mined while Home takes them, or after it has
accepted an update from the same root and one to the new root. -/
def Timely (s : World Byte) : Label Byte → Prop
  | .mine _ => ∀ signed, s.updater.submitter = .submitting signed →
    Takes K s.history.home (presented signed) ∨
      s.Accepted signed.update.previousRoot ∧
        ∃ u ∈ Home.updates s.history.log, u.newRoot = signed.update.newRoot
  | _ => True

end World

/-! ### Home takes an update -/

section Queue

variable [ByteAlphabet Byte] [DecidableEq Byte] {K : Crypto Byte}

/-- The queue of a Home is a list, and it has not been filled more often than the
tree. -/
def Filled (home : Home Byte) : Prop :=
  ∃ items, home.queue.Represents items ∧ home.queue.last.toNat ≤ home.tree.count ∧
    home.tree.count ≤ MerkleLib.MAX_LEAVES

/-- The loop of `update` comes to a root that is in the queue. -/
theorem exists_dequeueUntil {q : QueueLib.Queue (Bytes32 Byte)} {items : List (Bytes32 Byte)}
    {root : Bytes32 Byte} (h : q.Represents items) (hmem : q.contains root = true)
    (hroom : q.last.toNat + 1 < 2 ^ 128) :
    ∃ q' rest, Home.dequeueUntil root q = .ok q' ∧ q'.Represents rest ∧
      q'.last.toNat = q.last.toNat := by
  obtain ⟨front, rest, rfl, hfirst⟩ := List.eq_append_cons_of_mem (h.contains_iff.mp hmem)
  obtain ⟨q', hloop, hrest, hindex⟩ := Home.dequeueUntil_eq h hfirst hroom
  have hlast := h.last_eq
  have hlast' := hrest.last_eq
  rw [List.length_append, List.length_cons] at hlast
  exact ⟨q', rest, hloop, hrest, by omega⟩

omit [DecidableEq Byte] in
theorem Filled.last_lt {home : Home Byte} (h : Filled home) :
    home.queue.last.toNat + 1 < 2 ^ 128 := by
  obtain ⟨items, -, hlast, hfit⟩ := h
  simp only [MerkleLib.MAX_LEAVES, MerkleLib.TREE_DEPTH] at hfit
  omega

/-- Every call keeps the queue a list. -/
theorem Filled.effect {home home' : Home Byte} {ctx : Home.Context Byte} {call : Home.Call Byte}
    {events : List (Home.Event Byte)} (h : Filled home)
    (heffect : Home.Effect K ctx home call home' events) : Filled home' := by
  have hroom := h.last_lt
  obtain ⟨items, hrep, hlast, hfit⟩ := h
  cases heffect with
  | dispatched destination recipient body d tree hd hstate hbody hinsert =>
    obtain ⟨hcount, hcount'⟩ := MerkleLib.count_of_insert hinsert
    have hnext : (home.queue.last + 1).toNat = home.queue.last.toNat + 1 := by
      rw [BitVec.toNat_add]
      exact Nat.mod_eq_of_lt hroom
    refine ⟨_, hrep.enqueue _ hroom, ?_, ?_⟩
    · change (home.queue.last + 1).toNat ≤ tree.count
      rw [hcount', hnext]
      exact Nat.succ_le_succ hlast
    · change tree.count ≤ _
      rw [hcount']
      exact hcount
  | committed u queue hstate hsigned hcurrent hqueued hloop =>
    obtain ⟨q', rest, hloop', hrest, hsame⟩ := exists_dequeueUntil hrep hqueued hroom
    obtain rfl := Except.ok.inj (hloop.symm.trans hloop')
    exact ⟨rest, hrest, hsame ▸ hlast, hfit⟩
  | slashed => exact ⟨items, hrep, hlast, hfit⟩
  | unchanged => exact ⟨items, hrep, hlast, hfit⟩
  | newUpdater => exact ⟨items, hrep, hlast, hfit⟩
  | newUpdaterManager => exact ⟨items, hrep, hlast, hfit⟩

/-- A call leaves `committedRoot`, or it accepts one update from there. -/
theorem updates_of_effect {home home' : Home Byte} {ctx : Home.Context Byte}
    {call : Home.Call Byte} {events : List (Home.Event Byte)}
    (h : Home.Effect K ctx home call home' events) :
    (home'.committedRoot = home.committedRoot ∧ Home.updates events = []) ∨
      ∃ u, Home.updates events = [u] ∧ u.oldRoot = home.committedRoot ∧
        u.newRoot = home'.committedRoot := by
  cases h with
  | dispatched => exact .inl ⟨rfl, rfl⟩
  | committed u queue hstate hsigned hcurrent => exact .inr ⟨u, rfl, hcurrent, rfl⟩
  | slashed updater manager hstate hfraud hevents =>
    exact .inl ⟨rfl, Home.updates_eq_nil hevents⟩
  | unchanged => exact .inl ⟨rfl, rfl⟩
  | newUpdater => exact .inl ⟨rfl, rfl⟩
  | newUpdaterManager => exact .inl ⟨rfl, rfl⟩

end Queue

/-! ### The submitter -/

section Submitter

variable [ByteAlphabet Byte] [DecidableEq Byte] {homeDomain : UInt32}
  {s t : Updater.State Byte (Home Byte)} {label : Updater.Label Byte (Home Byte)}

/-- What a step of the process does to the submitter. -/
inductive Move (s : Updater.State Byte (Home Byte)) :
    Updater.Label Byte (Home Byte) → Updater.Submitter Byte → Prop
  | stays (label : Updater.Label Byte (Home Byte)) : Move s label s.submitter
  | started (root : Bytes32 Byte) (hstarting : s.submitter = .starting) :
      Move s (.start root) (.asleep root)
  | submitted (root : Bytes32 Byte) (signed : Updater.SignedUpdate Byte)
      (hasleep : s.submitter = .asleep root) (hproduced : s.db.produced root = some signed) :
      Move s .submit (.submitting signed)
  | finished (signed : Updater.SignedUpdate Byte) (hsubmitting : s.submitter = .submitting signed) :
      Move s .outcome (.asleep signed.update.newRoot)
  | crashed : Move s .crash .starting

theorem move_of_step (h : (Updater.system homeDomain Home.suggestUpdate).step s label t) :
    Move s label t.submitter := by
  change Updater.exec homeDomain Home.suggestUpdate label s = some t at h
  cases label with
  | index root =>
    obtain rfl := Option.some.inj h
    exact .stays _
  | start root =>
    simp only [Updater.exec] at h
    split at h
    · next hstarting =>
      obtain rfl := Option.some.inj h
      exact .started root hstarting
    · cases h
  | submit =>
    simp only [Updater.exec] at h
    split at h
    · next root hasleep =>
      split at h
      · next signed hproduced =>
        obtain rfl := Option.some.inj h
        exact .submitted root signed hasleep hproduced
      · obtain rfl := Option.some.inj h
        exact .stays _
    · cases h
  | outcome =>
    simp only [Updater.exec] at h
    split at h
    · next signed hsubmitting =>
      obtain rfl := Option.some.inj h
      exact .finished signed hsubmitting
    · cases h
  | crash =>
    obtain rfl := Option.some.inj h
    exact .crashed
  -- the producer does not touch the submitter
  | wake | resume | store | answer _ | recheck _ | sign _ =>
    have hsame : t.submitter = s.submitter := by
      simp only [Updater.exec] at h
      grind
    exact hsame ▸ .stays _

/-- Every update is recorded under its previous root. -/
def Keyed (db : Updater.DB Byte) : Prop :=
  ∀ root signed, db.produced root = some signed → signed.update.previousRoot = root

/-- Only the producer writes records, and it writes them so. -/
theorem Keyed.step (h : Keyed s.db)
    (hstep : (Updater.system homeDomain Home.suggestUpdate).step s label t) : Keyed t.db := by
  have hsame (hproduced : t.db.produced = s.db.produced) : Keyed t.db := by
    rw [Keyed, hproduced]
    exact h
  cases Updater.effect_of_step hstep with
  | elsewhere hproduced => exact hsame hproduced
  | advanced hproduced => exact hsame hproduced
  | signed u first second signature hproducer hproduced => exact hsame (by rw [hproduced])
  | refused signed e hproducer hstore hproduced => exact hsame (by rw [hproduced])
  | crashed hlabel hproduced => exact hsame (by rw [hproduced])
  | stored signed hproducer hstore =>
    obtain ⟨-, hdb⟩ := Updater.storeProducedUpdate_eq_ok.mp hstore
    intro root signed' hsome
    rw [hdb] at hsome
    dsimp only at hsome
    rcases eq_or_ne root signed.update.previousRoot with rfl | hne
    · rw [Function.update_self] at hsome
      rw [Option.some.inj hsome]
    · rw [Function.update_of_ne hne] at hsome
      exact h root signed' hsome

end Submitter

/-! ### The record of Home -/

section Ledger

variable [ByteAlphabet Byte] [DecidableEq Byte] {K : Crypto Byte}
  {history history' : Home.History Byte} {roots : List (Bytes32 Byte)}
  {tx : Home.Context Byte × Home.Call Byte}

/-- Accepted updates stay in the log. -/
theorem updates_mono (h : (Home.system K).step history tx history') {u : SignedUpdate Byte}
    (hu : u ∈ Home.updates history.log) : u ∈ Home.updates history'.log := by
  rcases h with hexec | ⟨-, rfl⟩
  · obtain ⟨home', events, -, rfl⟩ := Home.History.exec_eq_ok.mp hexec
    rw [Home.updates_append]
    exact List.mem_append_left _ hu
  · exact hu

/-- `roots` is the record of `committedRoot`: every accepted update has led to one of the
roots, and every root but the current one has been left by an accepted update. -/
structure Ledger (history : Home.History Byte) (roots : List (Bytes32 Byte)) : Prop where
  reached : ∀ u ∈ Home.updates history.log, u.newRoot ∈ roots
  current : history.home.committedRoot ∈ roots
  left : ∀ root ∈ roots, root = history.home.committedRoot ∨
    ∃ u ∈ Home.updates history.log, u.oldRoot = root
  filled : Filled history.home

/-- Every call keeps the record. -/
theorem Ledger.step (h : Ledger history roots) (hstep : (Home.system K).step history tx history') :
    Ledger history' (roots ++ [history'.home.committedRoot]) := by
  rcases hstep with hcall | ⟨-, rfl⟩
  · obtain ⟨home', events, hexec, rfl⟩ := Home.History.exec_eq_ok.mp hcall
    have heffect := Home.effect_of_exec hexec
    have hlast : home'.committedRoot ∈ roots ++ [home'.committedRoot] :=
      List.mem_append_right _ (List.mem_singleton_self _)
    rcases updates_of_effect heffect with ⟨hsame, hnone⟩ | ⟨u, hone, hold, hnew⟩
    · refine ⟨fun u hu => ?_, hlast, fun root hroot => ?_, h.filled.effect heffect⟩
      · rw [Home.updates_append, hnone, List.append_nil] at hu
        exact List.mem_append_left _ (h.reached u hu)
      · rw [Home.updates_append, hnone, List.append_nil]
        dsimp only
        rw [hsame] at hroot ⊢
        rcases List.mem_append.mp hroot with hmem | hmem
        · exact h.left root hmem
        · exact .inl (List.mem_singleton.mp hmem)
    · refine ⟨fun v hv => ?_, hlast, fun root hroot => ?_, h.filled.effect heffect⟩
      · rw [Home.updates_append, hone] at hv
        rcases List.mem_append.mp hv with hmem | hmem
        · exact List.mem_append_left _ (h.reached v hmem)
        · rw [List.mem_singleton.mp hmem, hnew]
          exact hlast
      · rw [Home.updates_append, hone]
        rcases List.mem_append.mp hroot with hmem | hmem
        -- the root that was current has now been left
        · rcases h.left root hmem with rfl | ⟨v, hv, hfrom⟩
          · exact .inr ⟨u, List.mem_append_right _ (List.mem_singleton_self _), hold⟩
          · exact .inr ⟨v, List.mem_append_left _ hv, hfrom⟩
        · exact .inl (List.mem_singleton.mp hmem)
  · exact
      { reached := fun u hu => List.mem_append_left _ (h.reached u hu)
        current := List.mem_append_left _ h.current
        left := fun root hroot => by
          rcases List.mem_append.mp hroot with hmem | hmem
          · exact h.left root hmem
          · exact .inl (List.mem_singleton.mp hmem)
        filled := h.filled }

/-- An update that Home takes is accepted when it is mined. -/
theorem accepted_of_takes (h : Filled history.home) {u : SignedUpdate Byte}
    (htakes : World.Takes K history.home u) {ctx : Home.Context Byte}
    (hstep : (Home.system K).step history (ctx, .update u) history') :
    u ∈ Home.updates history'.log := by
  have hroom := h.last_lt
  obtain ⟨items, hrep, -, -⟩ := h
  obtain ⟨queue, rest, hloop, -, -⟩ := exists_dequeueUntil hrep htakes.queued hroom
  obtain ⟨hstate, hsigned, hcurrent, hqueued⟩ := htakes
  obtain ⟨oldRoot, newRoot, signature⟩ := u
  dsimp only at hcurrent hqueued hloop
  subst hcurrent
  have hexec : Home.exec K ctx (.update ⟨history.home.committedRoot, newRoot, signature⟩)
      history.home = _ := Home.update_of_queued hstate hsigned hqueued hloop
  have hok := Home.History.step_of_exec hexec
  obtain rfl := (eq_afterCall hstep).trans (eq_afterCall hok).symm
  simp [Home.Event.update?]

omit [DecidableEq Byte] in
theorem ledger_of_initial (K : Crypto Byte) (h : history.Initial) :
    Ledger history [history.home.committedRoot] := by
  have hin := (Home.History.Initial.sound (K := K) h).inStep
  have hfit := hin.tree.fits
  have hcount := hin.tree.count_eq
  refine
    { reached := by simp [h.updates_eq]
      current := List.mem_singleton_self _
      left := fun root hroot => .inl (List.mem_singleton.mp hroot)
      filled := ⟨_, hin.queue, ?_, hcount ▸ hfit⟩ }
  rw [hin.last_eq, hcount]

end Ledger

/-! ### The submitter beside Home -/

section Worlds

variable [ByteAlphabet Byte] [DecidableEq Byte] {K : Crypto Byte} {homeDomain : UInt32}
  {s t : World Byte} {label : Label Byte}

/-- The invariant of the timely runs. A mined transaction has done its work, so the root
that the submitter is about to go on from is there already. -/
structure Sound (s : World Byte) : Prop extends s.NeverAhead where
  ledger : Ledger s.history s.committedRoots
  landed : ∀ signed, s.updater.submitter = .submitting signed → s.mined = true →
    signed.update.newRoot ∈ s.committedRoots ∧ s.Accepted signed.update.previousRoot
  visited : ∀ root ∈ s.visited, root ∈ s.committedRoots
  keyed : Keyed s.updater.db

omit [DecidableEq Byte] in
theorem Sound.of_initial (K : Crypto Byte) (h : s.Initial) : Sound s := by
  obtain ⟨hproduced, -, hstarting, -⟩ := h.updater
  have hnone : localRoot s.updater.submitter = none := by rw [hstarting]; rfl
  refine
    { had := fun root hroot => ?_
      passed := fun oldRoot hold => ?_
      ledger := h.committedRoots ▸ ledger_of_initial K h.history
      landed := fun signed hsubmitting => ?_
      visited := fun root hroot => ?_
      keyed := fun root signed hsome => ?_ }
  · cases hnone.symm.trans hroot
  · simp [h.visited] at hold
  · cases hstarting.symm.trans hsubmitting
  · simp [h.visited] at hroot
  · rw [hproduced] at hsome
    cases hsome

/-- A call of Home takes nothing back. -/
theorem Sound.atHome {tx : Home.Context Byte × Home.Call Byte} {history : Home.History Byte}
    (h : Sound s) (hcall : (Home.system K).step s.history tx history) :
    Sound (s.atHome history) := by
  have haccepted : ∀ root, s.Accepted root → (s.atHome history).Accepted root := by
    rintro root ⟨u, hu, hfrom⟩
    exact ⟨u, updates_mono hcall hu, hfrom⟩
  exact
    { had := fun root hroot => List.mem_append_left _ (h.had root hroot)
      passed := fun oldRoot hold root hroot hne =>
        haccepted oldRoot (h.passed oldRoot hold root hroot hne)
      ledger := h.ledger.step hcall
      landed := fun signed hsubmitting hmined =>
        ⟨List.mem_append_left _ (h.landed signed hsubmitting hmined).1,
          haccepted _ (h.landed signed hsubmitting hmined).2⟩
      visited := fun root hroot => List.mem_append_left _ (h.visited root hroot)
      keyed := h.keyed }

/-- A timely transaction does its work, or the work was done before it. -/
theorem Sound.mine {ctx : Home.Context Byte} {signed : Updater.SignedUpdate Byte}
    {history : Home.History Byte} (h : Sound s) (htimely : s.Timely K (.mine ctx))
    (hsubmitting : s.updater.submitter = .submitting signed)
    (hcall : (Home.system K).step s.history (ctx, .update (presented signed)) history) :
    Sound { s.atHome history with mined := true } := by
  have hafter := h.atHome hcall
  have hfrom_to : ∃ u ∈ Home.updates history.log, u.newRoot = signed.update.newRoot := by
    rcases htimely signed hsubmitting with htakes | ⟨-, u, hu, hnew⟩
    · exact ⟨_, accepted_of_takes h.ledger.filled htakes hcall, rfl⟩
    · exact ⟨u, updates_mono hcall hu, hnew⟩
  have hfrom : ∃ u ∈ Home.updates history.log, u.oldRoot = signed.update.previousRoot := by
    rcases htimely signed hsubmitting with htakes | ⟨⟨u, hu, hold⟩, -⟩
    · exact ⟨_, accepted_of_takes h.ledger.filled htakes hcall, rfl⟩
    · exact ⟨u, updates_mono hcall hu, hold⟩
  refine { hafter with landed := ?_, passed := hafter.passed, had := hafter.had, .. }
  intro signed' hsubmitting' _
  obtain rfl := Updater.Submitter.submitting.inj (hsubmitting.symm.trans hsubmitting')
  obtain ⟨u, hu, hnew⟩ := hfrom_to
  exact ⟨hnew ▸ hafter.ledger.reached u hu, hfrom⟩

omit [DecidableEq Byte] in
/-- A step of the process keeps the invariant if the new local root is a recorded one and
every earlier local root has been left. -/
theorem Sound.atTask_of {label : Updater.Label Byte (Home Byte)}
    {updater : Updater.State Byte (Home Byte)} (h : Sound s) (hkeyed : Keyed updater.db)
    (hhad : ∀ root, localRoot updater.submitter = some root → root ∈ s.committedRoots)
    (hpassed : ∀ oldRoot ∈ s.visited, ∀ root, localRoot updater.submitter = some root →
      oldRoot ≠ root → s.Accepted oldRoot)
    (hlanded : label ≠ .submit →
      ∀ signed, updater.submitter = .submitting signed → s.updater.submitter = .submitting signed) :
    Sound (s.atTask label updater) := by
  refine
    { had := hhad
      passed := fun oldRoot hold root hroot hne => ?_
      ledger := h.ledger
      landed := fun signed hsubmitting hmined => ?_
      visited := fun root hroot => ?_
      keyed := hkeyed }
  · rcases List.mem_append.mp hold with hmem | hmem
    · exact hpassed oldRoot hmem root hroot hne
    · -- the root that has just been recorded is the present one
      have hsame : localRoot updater.submitter = some oldRoot := by simpa using hmem
      exact absurd (Option.some.inj (hsame.symm.trans hroot)) hne
  · have hne : label ≠ .submit := by
      rintro rfl
      cases hmined
    have hbefore : s.mined = true := by
      simp only [World.atTask] at hmined
      grind
    exact h.landed signed (hlanded hne signed hsubmitting) hbefore
  · rcases List.mem_append.mp hroot with hmem | hmem
    · exact h.visited root hmem
    · exact hhad root (by simpa using hmem)

/-- Every step of the process keeps the invariant. -/
theorem Sound.atTask {label : Updater.Label Byte (Home Byte)}
    {updater : Updater.State Byte (Home Byte)} (h : Sound s) (hreads : s.Reads label)
    (hexec : (Updater.system homeDomain Home.suggestUpdate).step s.updater label updater) :
    Sound (s.atTask label updater) := by
  have hkeyed := h.keyed.step hexec
  have hmove := move_of_step hexec
  generalize hsubmitter : updater.submitter = submitter at hmove
  cases hmove with
  | stays =>
    refine h.atTask_of hkeyed ?_ ?_ fun _ signed hsubmitting => hsubmitter ▸ hsubmitting
    · rw [hsubmitter]
      exact h.had
    · rw [hsubmitter]
      exact h.passed
  | started root hstarting =>
    -- the root that Home has now: every other one has been left
    have hroot : root = s.history.home.committedRoot := hreads
    refine h.atTask_of hkeyed ?_ ?_ fun _ signed hsubmitting => ?_
    · rintro root' hlocal
      rw [hsubmitter] at hlocal
      obtain rfl := Option.some.inj hlocal
      exact hroot ▸ h.ledger.current
    · intro oldRoot hold root' hlocal hne
      rw [hsubmitter] at hlocal
      obtain rfl := Option.some.inj hlocal
      rcases h.ledger.left oldRoot (h.visited oldRoot hold) with hcurrent | hleft
      · exact absurd (hcurrent.trans hroot.symm) hne
      · exact hleft
    · cases hsubmitter.symm.trans hsubmitting
  | submitted root signed hasleep hproduced =>
    -- the update is recorded under the local root, so the local root is the same
    have hlocal : localRoot updater.submitter = localRoot s.updater.submitter := by
      rw [hsubmitter, hasleep, localRoot, localRoot, h.keyed root signed hproduced]
    refine h.atTask_of hkeyed ?_ ?_ fun hne => absurd rfl hne
    · rw [hlocal]
      exact h.had
    · rw [hlocal]
      exact h.passed
  | finished signed hsubmitting =>
    have hmined : s.mined = true := hreads
    obtain ⟨hnew, hold⟩ := h.landed signed hsubmitting hmined
    have hbefore : localRoot s.updater.submitter = some signed.update.previousRoot := by
      rw [hsubmitting, localRoot]
    refine h.atTask_of hkeyed ?_ ?_ fun _ signed' hsubmitting' => ?_
    · intro root hlocal
      rw [hsubmitter] at hlocal
      obtain rfl := Option.some.inj hlocal
      exact hnew
    · intro oldRoot hmem root hlocal _
      rcases eq_or_ne oldRoot signed.update.previousRoot with rfl | hne
      · exact hold
      · exact h.passed oldRoot hmem _ hbefore hne
    · cases hsubmitter.symm.trans hsubmitting'
  | crashed =>
    have hnone : localRoot updater.submitter = none := by
      rw [hsubmitter, localRoot]
    refine h.atTask_of hkeyed (fun root hlocal => ?_) (fun _ _ root hlocal => ?_)
      fun _ signed hsubmitting => ?_
    · cases hnone.symm.trans hlocal
    · cases hnone.symm.trans hlocal
    · cases hsubmitter.symm.trans hsubmitting

/-- **The submitter.** In every run whose transactions are timely, the local root is never
ahead of Home, and no update is left behind that Home has not taken. -/
theorem never_ahead (h : ((World.system K homeDomain).restrict (World.Timely K)).Reachable s) :
    s.NeverAhead := by
  refine Sound.toNeverAhead (h.invariant (fun s hinit => Sound.of_initial K hinit) ?_)
  rintro s label t - hsound ⟨hstep, htimely⟩
  cases hstep with
  | home tx history hcall => exact hsound.atHome hcall
  | task label updater hreads hexec => exact hsound.atTask hreads hexec
  | mine ctx signed history hsubmitting hpending hcall =>
    exact hsound.mine htimely hsubmitting hcall

end Worlds

/-! ### A transaction that reverts -/

section Sample

variable [ByteAlphabet Byte] [DecidableEq Byte] {K : Crypto Byte} {homeDomain : UInt32}

/-- Only a transaction of the submitter can come at the wrong time. -/
theorem timely_task {label : Updater.Label Byte (Home Byte)}
    {updater : Updater.State Byte (Home Byte)} {s : World Byte} (hreads : s.Reads label)
    (hexec : Updater.exec homeDomain Home.suggestUpdate label s.updater = some updater) :
    ((World.system K homeDomain).restrict (World.Timely K)).step s (.task label)
      (s.atTask label updater) :=
  ⟨.task label updater hreads hexec, trivial⟩

theorem timely_home {tx : Home.Context Byte × Home.Call Byte} {history : Home.History Byte}
    {s : World Byte} (hcall : (Home.system K).step s.history tx history) :
    ((World.system K homeDomain).restrict (World.Timely K)).step s (.home tx) (s.atHome history) :=
  ⟨.home tx history hcall, trivial⟩

/-- Steps of the process one after the other, beside a Home that does not move. -/
theorem exists_tasks {labels : List (Updater.Label Byte (Home Byte))}
    {updater : Updater.State Byte (Home Byte)} {s : World Byte}
    (h : ((World.system K homeDomain).restrict (World.Timely K)).Reachable s)
    (hpending : s.mined = false)
    (hreads : ∀ label ∈ labels, ∀ t : World Byte, t.history = s.history → t.Reads label)
    (hexec : labels.foldlM (fun u label => Updater.exec homeDomain Home.suggestUpdate label u)
      s.updater = some updater) :
    ∃ t, ((World.system K homeDomain).restrict (World.Timely K)).Reachable t ∧
      t.history = s.history ∧ t.committedRoots = s.committedRoots ∧ t.updater = updater ∧
      t.mined = false := by
  induction labels generalizing s with
  | nil => exact ⟨s, h, rfl, rfl, Option.some.inj hexec, hpending⟩
  | cons label rest ih =>
    rw [List.foldlM_cons] at hexec
    obtain ⟨u, hfirst, hrest⟩ := Option.bind_eq_some_iff.mp hexec
    have hread := hreads label List.mem_cons_self s rfl
    have hnext := h.step (timely_task hread hfirst)
    have hmined : (s.atTask label u).mined = false := by
      simp only [World.atTask, hpending]
      split <;> rfl
    obtain ⟨t, hreach, hhistory, hroots, hupdater, hlast⟩ := ih hnext hmined
      (fun label' hmem => hreads label' (List.mem_cons_of_mem _ hmem)) hrest
    exact ⟨t, hreach, hhistory, hroots, hupdater, hlast⟩

/-- An ideal hash beside one key, which signs everything. -/
def sampleCrypto : Crypto ℕ := Crypto.withIdealHash fun _ _ => some 0

theorem sampleCrypto_ideal : Crypto.IdealHash sampleCrypto := Crypto.withIdealHash_ideal _

/-- The steps from an empty database to the transaction. -/
def submission (home : Home ℕ) : List (Updater.Label ℕ (Home ℕ)) :=
  [.wake, .answer home, .resume, .recheck home, .sign [], .store, .start home.committedRoot,
    .submit]

/-- A process with an empty database. -/
def sampleProcess : Updater.State ℕ (Home ℕ) := ⟨⟨none, fun _ => none⟩, .asleep, .starting, []⟩

/-- The process comes to submit what Home has suggested to it. -/
theorem submission_eq {home : Home ℕ} {root : Bytes32 ℕ} (hzero : home.committedRoot = 0)
    (hsuggest : Home.suggestUpdate home = (0, root)) (hne : root ≠ 0) :
    ∃ updater, (submission home).foldlM
        (fun u label => Updater.exec 1000 Home.suggestUpdate label u) sampleProcess = some updater ∧
      updater.submitter = .submitting ⟨⟨1000, 0, root⟩, []⟩ := by
  have hproduce : Updater.produceUpdate 1000 (Home.suggestUpdate home) = some ⟨1000, 0, root⟩ := by
    rw [hsuggest, Updater.produceUpdate, if_neg hne]
  simp [submission, sampleProcess, Updater.exec, Updater.answered, Updater.rechecked, hproduce,
    Updater.DB.retrieveProducedUpdate, Updater.DB.storeProducedUpdate, Updater.DB.findLatestRoot,
    hzero]

/-- The submitter waits for its first transaction, which Home would take. -/
theorem exists_submitting :
    ∃ (s : World ℕ) (root : Bytes32 ℕ),
      ((World.system sampleCrypto 1000).restrict (World.Timely sampleCrypto)).Reachable s ∧
      root ≠ 0 ∧ s.updater.submitter = .submitting ⟨⟨1000, 0, root⟩, []⟩ ∧ s.mined = false ∧
      World.Takes sampleCrypto s.history.home ⟨0, root, []⟩ ∧ ∀ r ∈ s.committedRoots, r = 0 := by
  obtain ⟨start, history, hinitial, -, hdispatch, hdomain, hactive, hupdater, hdispatched, hin⟩ :=
    Home.exists_dispatched sampleCrypto 0
  let root := MerkleLib.treeRoot sampleCrypto (history.leaves sampleCrypto)
  have hlength : (history.leaves sampleCrypto).length = 1 := by
    simp [Home.History.leaves, hdispatched]
  have hne : root ≠ 0 := MerkleLib.treeRoot_ne_zero sampleCrypto_ideal _
  have hzero : history.home.committedRoot = 0 := hin.committedRoot_eq
  have hsuggest : Home.suggestUpdate history.home = (0, root) := by
    rw [hin.suggestUpdate_eq, if_pos (by omega), hzero]
  have hqueued : history.home.queue.contains root = true := by
    refine hin.contains_iff.mpr ⟨1, Nat.one_pos, hlength.ge, ?_⟩
    rw [Home.prefixRoot_of_pos Nat.one_pos, List.take_of_length_le hlength.le]
  have hfirst : start.home.committedRoot = 0 :=
    (Home.History.Initial.sound (K := sampleCrypto) hinitial).inStep.committedRoot_eq
  -- Home takes a message while the process has not begun
  let s₀ : World ℕ := ⟨start, [start.home.committedRoot], sampleProcess, false, []⟩
  have hstart : ((World.system sampleCrypto 1000).restrict
      (World.Timely sampleCrypto)).Reachable s₀ :=
    System.reachable_init ⟨hinitial, rfl, ⟨rfl, rfl, rfl, rfl⟩, rfl⟩
  have hhome := hstart.step (timely_home hdispatch)
  obtain ⟨updater, hexec, hsubmitting⟩ := submission_eq hzero hsuggest hne
  have hreads : ∀ label ∈ submission history.home, ∀ t : World ℕ,
      t.history = (s₀.atHome history).history → t.Reads label := by
    intro label hlabel t ht
    simp only [submission, List.mem_cons, List.not_mem_nil, or_false] at hlabel
    rcases hlabel with rfl | rfl | rfl | rfl | rfl | rfl | rfl | rfl
    all_goals simp [World.Reads, ht, World.atHome]
  obtain ⟨s, hreach, hhistory, hroots, hprocess, hpending⟩ :=
    exists_tasks hhome rfl hreads hexec
  refine ⟨s, root, hreach, hne, hprocess ▸ hsubmitting, hpending, ?_, ?_⟩
  · rw [hhistory]
    refine ⟨?_, ?_, hzero.symm, hqueued⟩
    · change history.home.state ≠ .Failed
      rw [hactive]
      decide
    · change IsSignedBy _ _ history.home.updater _
      rw [hupdater]
      rfl
  · rw [hroots]
    change ∀ r ∈ [start.home.committedRoot] ++ [history.home.committedRoot], r = 0
    simp [hfirst, hzero]

/-- The submitter goes on whatever has become of its transaction. -/
theorem step_outcome {s : World Byte} {signed : Updater.SignedUpdate Byte}
    (hsubmitting : s.updater.submitter = .submitting signed) (hmined : s.mined = true) :
    (World.system K homeDomain).step s (.task .outcome)
      (s.atTask .outcome { s.updater with submitter := .asleep signed.update.newRoot }) := by
  refine .task .outcome _ hmined ?_
  change Updater.exec homeDomain Home.suggestUpdate .outcome s.updater = some _
  simp only [Updater.exec, hsubmitting]

/-- An update signed by another key reverts. -/
theorem reverts_of_signer {home : Home Byte} {ctx : Home.Context Byte} {u : SignedUpdate Byte}
    {signer : Address Byte} (hstate : home.state ≠ .Failed)
    (hsigned : IsSignedBy K home.localDomain signer u) (hne : signer ≠ home.updater) :
    Home.exec K ctx (.update u) home = .error (.require "!updater sig") := by
  have hanswer : _isUpdaterSignature K home.localDomain home.updater u.oldRoot u.newRoot
      u.signature = .ok false := by
    rw [_isUpdaterSignature, Crypto.ecdsaRecover_eq_ok.mpr hsigned, ok_bind, decide_eq_false hne]
  rw [Home.exec, Home.update, Home.notFailed, require_of hstate, ok_bind, Home.improperUpdate,
    Home.notFailed, require_of hstate, ok_bind, hanswer, ok_bind, require_of_not (by decide)]
  rfl

/-- The transaction succeeds, and the local root follows Home to its new root. -/
theorem never_ahead_follows :
    ∃ s : World ℕ, s.NeverAhead ∧
      ∃ root, localRoot s.updater.submitter = some root ∧ root ≠ 0 := by
  obtain ⟨s, root, hreach, hne, hsubmitting, hpending, htakes, -⟩ := exists_submitting
  have hmine := hreach.step
    ⟨.mine Home.sampleContext _ _ hsubmitting hpending (callStep_afterCall _ _ _),
      fun signed hsigned => by
        obtain rfl := Updater.Submitter.submitting.inj (hsubmitting.symm.trans hsigned)
        exact .inl htakes⟩
  exact ⟨_, never_ahead (hmine.step ⟨step_outcome hsubmitting rfl, trivial⟩), root, rfl, hne⟩

/-- The updater is replaced between the signature and the transaction. The transaction
reverts, the submitter goes on from a root that Home has never had, and the update that it
leaves behind is one that Home has not taken. -/
theorem ahead_of_home :
    ∃ s : World ℕ, (World.system sampleCrypto 1000).Reachable s ∧ ¬s.NeverAhead ∧
      ∃ root, localRoot s.updater.submitter = some root ∧ root ∉ s.committedRoots := by
  obtain ⟨s, root, hreach, hne, hsubmitting, hpending, htakes, hroots⟩ := exists_submitting
  obtain ⟨hstate, hsigned, hcurrent, -⟩ := htakes
  have hzero : s.history.home.committedRoot = 0 := hcurrent.symm
  let other : Address ℕ := List.Vector.replicate 20 1
  let home : Home ℕ := { s.history.home with updater := other }
  let history : Home.History ℕ := ⟨home, s.history.log ++ [.NewUpdater other], s.history.dispatched⟩
  have hset : (Home.system sampleCrypto).step s.history
      (⟨s.history.home.updaterManager, fun _ => true, .returns []⟩, .setUpdater other) history := by
    refine .inl (Home.History.exec_eq_ok.mpr ⟨home, [.NewUpdater other], ?_, ?_⟩)
    · rw [Home.exec, Home.setUpdater, require_of rfl]
      rfl
    · simp [history, Home.Call.dispatched]
  have hrevert : (Home.system sampleCrypto).step history
      (Home.sampleContext, .update ⟨0, root, []⟩) history := by
    have hkey : IsSignedBy sampleCrypto home.localDomain 0 ⟨0, root, []⟩ := rfl
    have hother : (0 : Address ℕ) ≠ List.Vector.replicate 20 1 := by decide
    have hexec : Home.exec sampleCrypto Home.sampleContext (.update ⟨0, root, []⟩) home =
        .error (.require "!updater sig") := reverts_of_signer hstate hkey hother
    exact .inr ⟨⟨_, bind_eq_error.mpr (.inl hexec)⟩, rfl⟩
  have hmine := (hreach.of_restrict.step (.home _ history hset)).step
    (.mine Home.sampleContext _ history hsubmitting hpending hrevert)
  have hfinished := hmine.step (step_outcome hsubmitting rfl)
  have habsent : root ∉ s.committedRoots ++ [home.committedRoot] ++ [home.committedRoot] := by
    intro hmem
    refine hne ?_
    simp only [List.mem_append, List.mem_singleton] at hmem
    rcases hmem with (hmem | hmem) | hmem
    · exact hroots root hmem
    · exact hmem.trans hzero
    · exact hmem.trans hzero
  exact ⟨_, hfinished, fun hnever => habsent (hnever.had root rfl), root, rfl, habsent⟩

end Sample

end Optics.UpdateSubmitter
