/-
# The walkers of the watcher

ContractSync stores the `Update` events of a contract in order: the update under
its previous root, and the previous root under the new one. From the committed
root at which the watcher starts, one task polls forward along the first table
and another goes backward along both. Both send the updates they meet.

Each table has one row for a root. As long as the contract never returns to a root
that it has left, every update keeps its rows and the two tasks meet every update.
Home never returns. The updater of a Replica may sign an update to any root, and
then rows are overwritten: updates are never met, and the backward task may go
round in a circle.
-/

import Optics.Agents.OpticsDB
import Optics.Math.Links

namespace Optics.Watcher

open Optics.Solidity Optics.Common Optics.Math

variable {Byte : Type}

/-! ### The tasks -/

/-- `ContractWatcher`. What it has sent is kept, oldest first. -/
structure ContractWatcher (Byte : Type) where
  committedRoot : Bytes32 Byte
  tx : List (SignedUpdate Byte)

/-- `HistorySync`. A lookup by new root reads two rows, and `found` is the answer of
the first read. -/
structure HistorySync (Byte : Type) where
  committedRoot : Bytes32 Byte
  tx : List (SignedUpdate Byte)
  found : Option (Bytes32 Byte)
  finished : Bool

/-- `signed_update_by_old_root` of a caching contract, once round its loop: `none` is
a pause and another round. -/
def signedUpdateByOldRoot (oldRoot : Bytes32 Byte) (db : OpticsDB Byte) :
    Option (Option (SignedUpdate Byte)) :=
  match db.updateByPreviousRoot oldRoot with
  | some update => some (some update)
  | none => none

theorem signedUpdateByOldRoot_eq_some {oldRoot : Bytes32 Byte} {db : OpticsDB Byte}
    {u : SignedUpdate Byte} :
    signedUpdateByOldRoot oldRoot db = some (some u) ↔ db.update oldRoot = some u := by
  rw [signedUpdateByOldRoot, OpticsDB.updateByPreviousRoot]
  cases db.update oldRoot with
  | none => simp
  | some v => simp

theorem signedUpdateByOldRoot_eq_none {oldRoot : Bytes32 Byte} {db : OpticsDB Byte} :
    signedUpdateByOldRoot oldRoot db = none ↔ db.update oldRoot = none := by
  rw [signedUpdateByOldRoot, OpticsDB.updateByPreviousRoot]
  cases db.update oldRoot with
  | none => simp
  | some v => simp

/-- `poll_and_send_update`, or a round of its waiting. -/
def ContractWatcher.pollAndSendUpdate (db : OpticsDB Byte) (watcher : ContractWatcher Byte) :
    ContractWatcher Byte :=
  match signedUpdateByOldRoot watcher.committedRoot db with
  | some (some new_update) => ⟨new_update.newRoot, watcher.tx ++ [new_update]⟩
  -- the caching contracts never answer this: they wait instead
  | some none => watcher
  | none => watcher

section Steps

variable [ByteAlphabet Byte] [DecidableEq Byte]

/-- `update_history` from the answer of its query on. -/
def HistorySync.updateHistory (previous_update : Option (SignedUpdate Byte))
    (sync : HistorySync Byte) : HistorySync Byte :=
  match previous_update with
  | none => { sync with found := none, finished := true }
  | some previous_update => {
      committedRoot := previous_update.oldRoot
      tx := sync.tx ++ [previous_update]
      found := none
      finished := previous_update.oldRoot = 0 }

/-- One step of the loop of `HistorySync::spawn`: the first read of
`signed_update_by_new_root`, or the second read and what follows it. The caching
contracts never answer that there is no update: they go on looking. -/
def HistorySync.advance (db : OpticsDB Byte) (sync : HistorySync Byte) : HistorySync Byte :=
  if sync.finished then sync
  else
    match sync.found with
    -- an empty answer is another round of waiting
    | none => { sync with found := db.prevRoot sync.committedRoot }
    | some prev_root =>
      match db.updateByPreviousRoot prev_root with
      | some update => sync.updateHistory (some update)
      | none => { sync with found := none }

end Steps

/-- The two tasks over one contract. -/
structure Walkers (Byte : Type) where
  watcher : ContractWatcher Byte
  history : HistorySync Byte

/-- The two tasks as they are spawned. -/
def Walkers.spawn (root : Bytes32 Byte) : Walkers Byte := ⟨⟨root, []⟩, ⟨root, [], none, false⟩⟩

/-! ### The two tables -/

/-- An update as a link from its previous root to its new root. -/
def ends : Ends (Bytes32 Byte) (SignedUpdate Byte) := ⟨SignedUpdate.oldRoot, SignedUpdate.newRoot⟩

section Tables

variable {us more : List (SignedUpdate Byte)} {u v : SignedUpdate Byte} {db db' : OpticsDB Byte}
  {first : Bytes32 Byte} {stored index : ℕ}

theorem chain_of_updateChain {start finish : Bytes32 Byte} (h : UpdateChain start us finish) :
    ends.Chain start us ∧ (ends.nodes start us)[us.length]? = some finish := by
  induction us generalizing start with
  | nil => exact ⟨trivial, congrArg some h⟩
  | cons u rest ih =>
    obtain ⟨hchain, hlast⟩ := ih h.2
    exact ⟨⟨h.1, hchain⟩, hlast⟩

/-- Every row is that of an accepted update, a row by new root comes after the row by
previous root, and the stored updates have both of their rows. -/
structure Rows (us : List (SignedUpdate Byte)) (stored : ℕ) (db : OpticsDB Byte) : Prop where
  fits : stored ≤ us.length
  update : ∀ root u, db.update root = some u → u ∈ us ∧ u.oldRoot = root
  prevRoot : ∀ root p, db.prevRoot root = some p →
    ∃ u ∈ us, u.newRoot = root ∧ u.oldRoot = p ∧ db.update p = some u
  held : ∀ i u, i < stored → us[i]? = some u →
    db.update u.oldRoot = some u ∧ db.prevRoot u.newRoot = some u.oldRoot

/-- The writes that may be left while an update is being stored. -/
def Pending (us : List (SignedUpdate Byte)) (stored : ℕ) (db : OpticsDB Byte) (index : ℕ)
    (writes : List (OpticsDB.Put Byte)) : Prop :=
  index ≤ stored ∧ ∃ u, us[index]? = some u ∧
    (writes = [.prevRoot u.newRoot u.oldRoot] ∧ db.update u.oldRoot = some u ∨
      writes = OpticsDB.storeUpdate u ∨ ∃ root, writes = .latestRoot root :: OpticsDB.storeUpdate u)

theorem Rows.grow (h : Rows us stored db) : Rows (us ++ more) stored db where
  fits := by
    rw [List.length_append]
    exact h.fits.trans (Nat.le_add_right _ _)
  update root u hrow := by
    obtain ⟨hmem, hroot⟩ := h.update root u hrow
    exact ⟨List.mem_append_left _ hmem, hroot⟩
  prevRoot root p hrow := by
    obtain ⟨u, hmem, hrest⟩ := h.prevRoot root p hrow
    exact ⟨u, List.mem_append_left _ hmem, hrest⟩
  held i u hi hu := by
    rw [List.getElem?_append_left (hi.trans_le h.fits)] at hu
    exact h.held i u hi hu

theorem Pending.grow {writes : List (OpticsDB.Put Byte)} (h : Pending us stored db index writes) :
    Pending (us ++ more) stored db index writes := by
  obtain ⟨hindex, u, hu, hwrites⟩ := h
  have hlt : index < us.length := (List.getElem?_eq_some_iff.mp hu).1
  refine ⟨hindex, u, ?_, hwrites⟩
  rw [List.getElem?_append_left hlt]
  exact hu

/-- The last write of an event makes it a stored one. -/
theorem Rows.stored_succ (h : Rows us stored db) (hindex : index ≤ stored)
    (hu : us[index]? = some u) (hrow : db.update u.oldRoot = some u)
    (hprev : db.prevRoot u.newRoot = some u.oldRoot) : Rows us (max stored (index + 1)) db where
  fits := max_le h.fits (List.getElem?_eq_some_iff.mp hu).1
  update := h.update
  prevRoot := h.prevRoot
  held i v hi hv := by
    by_cases hlt : i < stored
    · exact h.held i v hlt hv
    · obtain rfl : i = index := by omega
      obtain rfl := Option.some.inj (hv.symm.trans hu)
      exact ⟨hrow, hprev⟩

variable [DecidableEq Byte]

/-- What ContractSync is about to write when it takes an event. -/
theorem pending_storeLatestUpdate (hindex : index ≤ stored) (hu : us[index]? = some u) :
    Pending us stored db index (db.storeLatestUpdate u) := by
  refine ⟨hindex, u, hu, .inr ?_⟩
  rw [OpticsDB.storeLatestUpdate]
  split
  · split_ifs
    · exact .inr ⟨_, rfl⟩
    · exact .inl rfl
  · exact .inr ⟨_, rfl⟩

/-- The row of an update by its previous root replaces nothing but itself. -/
theorem Rows.update_put (h : Rows us stored db) (hsimple : ends.Simple first us) (hu : u ∈ us)
    {root : Bytes32 Byte} (hrow : db.update root = some v) :
    (db.put (.update u.oldRoot u)).update root = some v := by
  by_cases hroot : root = u.oldRoot
  · subst hroot
    obtain ⟨hv, hold⟩ := h.update _ v hrow
    rw [hsimple.eq_of_source hv hu hold]
    exact OpticsDB.put_update_self
  · exact (OpticsDB.put_update_of_ne hroot).trans hrow

/-- Nor does the row by its new root. -/
theorem Rows.prevRoot_put (h : Rows us stored db) (hsimple : ends.Simple first us) (hu : u ∈ us)
    {root p : Bytes32 Byte} (hrow : db.prevRoot root = some p) :
    (db.put (.prevRoot u.newRoot u.oldRoot)).prevRoot root = some p := by
  by_cases hroot : root = u.newRoot
  · subst hroot
    obtain ⟨v, hv, hnew, rfl, -⟩ := h.prevRoot _ p hrow
    rw [hsimple.eq_of_target hv hu hnew]
    exact OpticsDB.put_prevRoot_self
  · exact (OpticsDB.put_prevRoot_of_ne hroot).trans hrow

theorem Rows.put_update (h : Rows us stored db) (hsimple : ends.Simple first us) (hu : u ∈ us) :
    Rows us stored (db.put (.update u.oldRoot u)) where
  fits := h.fits
  update root v hrow := by
    by_cases hroot : root = u.oldRoot
    · subst hroot
      obtain rfl := Option.some.inj (OpticsDB.put_update_self.symm.trans hrow)
      exact ⟨hu, rfl⟩
    · exact h.update root v ((OpticsDB.put_update_of_ne hroot).symm.trans hrow)
  prevRoot root p hrow := by
    obtain ⟨v, hv, hnew, hold, hv'⟩ := h.prevRoot root p hrow
    exact ⟨v, hv, hnew, hold, h.update_put hsimple hu hv'⟩
  held i v hi hv := by
    obtain ⟨hrow, hprev⟩ := h.held i v hi hv
    exact ⟨h.update_put hsimple hu hrow, hprev⟩

theorem Rows.put_prevRoot (h : Rows us stored db) (hsimple : ends.Simple first us) (hu : u ∈ us)
    (hrow : db.update u.oldRoot = some u) :
    Rows us stored (db.put (.prevRoot u.newRoot u.oldRoot)) where
  fits := h.fits
  update := h.update
  prevRoot root p hprev := by
    by_cases hroot : root = u.newRoot
    · subst hroot
      obtain rfl := Option.some.inj (OpticsDB.put_prevRoot_self.symm.trans hprev)
      exact ⟨u, hu, rfl, rfl, hrow⟩
    · exact h.prevRoot root p ((OpticsDB.put_prevRoot_of_ne hroot).symm.trans hprev)
  held i v hi hv := by
    obtain ⟨hv', hprev⟩ := h.held i v hi hv
    exact ⟨hv', h.prevRoot_put hsimple hu hprev⟩

end Tables

/-! ### The two walks -/

section Walks

variable {first : Bytes32 Byte} {us more : List (SignedUpdate Byte)} {stored b k f : ℕ}
  {db db' : OpticsDB Byte} {w : Walkers Byte}

/-- From position `k` of the chain of updates the forward task has come to position
`f`, and the backward task to position `b`. They have sent the updates between. -/
structure Walk (first : Bytes32 Byte) (us : List (SignedUpdate Byte)) (db : OpticsDB Byte)
    (w : Walkers Byte) (b k f : ℕ) : Prop where
  start_pos : 0 < k
  b_le : b ≤ k
  k_le : k ≤ f
  f_le : f ≤ us.length
  watcher_root : (ends.nodes first us)[f]? = some w.watcher.committedRoot
  watcher_tx : w.watcher.tx = span us k f
  history_root : (ends.nodes first us)[b]? = some w.history.committedRoot
  history_tx : w.history.tx = (span us b k).reverse
  found : ∀ p, w.history.found = some p →
    ∃ i u, b = i + 1 ∧ us[i]? = some u ∧ u.oldRoot = p ∧ db.update p = some u
  finished : w.history.finished = true ↔ b = 0

/-- The steps that the backward task has taken with success. -/
def HistorySync.steps (sync : HistorySync Byte) : ℕ :=
  2 * sync.tx.length + sync.found.toList.length

theorem Walk.history_length (h : Walk first us db w b k f) : w.history.tx.length = k - b := by
  rw [h.history_tx, List.length_reverse, length_span (h.k_le.trans h.f_le)]

/-- A task that has not finished has taken less than two steps for each update. -/
theorem Walk.steps_lt (h : Walk first us db w b k f) (hfinished : w.history.finished = false) :
    w.history.steps < 2 * k := by
  have hb : b ≠ 0 := fun hb => by simp [h.finished.mpr hb] at hfinished
  have hle := h.b_le
  have hfound : w.history.found.toList.length ≤ 1 := by
    cases w.history.found with
    | none => exact Nat.zero_le 1
    | some p => exact Nat.le_refl 1
  rw [HistorySync.steps, h.history_length]
  omega

/-- The tasks as they are spawned at the committed root. -/
theorem walk_spawn {root : Bytes32 Byte} (hchain : UpdateChain first us root) (hne : us ≠ []) :
    Walk first us db (.spawn root) us.length us.length us.length where
  start_pos := List.length_pos_iff.mpr hne
  b_le := Nat.le_refl _
  k_le := Nat.le_refl _
  f_le := Nat.le_refl _
  watcher_root := (chain_of_updateChain hchain).2
  watcher_tx := span_self.symm
  history_root := (chain_of_updateChain hchain).2
  history_tx := by
    rw [span_self]
    rfl
  found := by
    intro p hp
    cases hp
  finished := by simpa [Walkers.spawn] using hne

/-- More events and more rows change nothing for the tasks. -/
theorem Walk.mono (h : Walk first us db w b k f)
    (hdb : ∀ root u, db.update root = some u → db'.update root = some u) :
    Walk first (us ++ more) db' w b k f := by
  have hf := h.f_le
  have hk := h.k_le
  have hb := h.b_le
  have hnode : ∀ i ≤ us.length,
      (ends.nodes first (us ++ more))[i]? = (ends.nodes first us)[i]? := by
    intro i hi
    rw [Ends.nodes_append, List.getElem?_append_left]
    rw [Ends.length_nodes]
    omega
  -- positions count from the start of the chain, where nothing changes
  constructor
  case start_pos => exact h.start_pos
  case b_le => exact hb
  case k_le => exact hk
  case f_le =>
    rw [List.length_append]
    omega
  case watcher_root => rw [hnode f hf, h.watcher_root]
  case watcher_tx => rw [h.watcher_tx, span_append hf]
  case history_root => rw [hnode b (by omega), h.history_root]
  case history_tx => rw [h.history_tx, span_append (by omega)]
  case found =>
    intro p hp
    obtain ⟨i, u, hi, hu, hold, hrow⟩ := h.found p hp
    refine ⟨i, u, hi, ?_, hold, hdb p u hrow⟩
    rw [List.getElem?_append_left (by omega)]
    exact hu
  case finished => exact h.finished

/-- A round of the forward task stays or goes on by one update, and goes on where the
next update is stored. -/
theorem Walk.poll (h : Walk first us db w b k f) (hrows : Rows us stored db)
    (hsimple : ends.Simple first us) :
    ∃ f', Walk first us db { w with watcher := w.watcher.pollAndSendUpdate db } b k f' ∧
      (f' = f ∨ f' = f + 1) ∧ (f < stored → f' = f + 1) := by
  rw [ContractWatcher.pollAndSendUpdate, signedUpdateByOldRoot]
  cases hrow : db.updateByPreviousRoot w.watcher.committedRoot with
  | none =>
    refine ⟨f, h, .inl rfl, fun hlt => ?_⟩
    -- a stored update at position `f` would have been found
    obtain ⟨u, hu⟩ : ∃ u, us[f]? = some u :=
      ⟨_, List.getElem?_eq_getElem (hlt.trans_le hrows.fits)⟩
    have hroot := (hsimple.chain.getElem?_nodes hu).symm.trans h.watcher_root
    have hheld := (hrows.held f u hlt hu).1
    rw [show u.oldRoot = w.watcher.committedRoot from Option.some.inj hroot] at hheld
    exact absurd (hrow.symm.trans hheld) (by simp)
  | some u =>
    obtain ⟨hmem, hold⟩ := hrows.update _ u hrow
    obtain ⟨i, hi⟩ := List.mem_iff_getElem?.mp hmem
    -- the update that leaves the root at position `f` is the one at that position
    obtain rfl : i = f := by
      apply hsimple.index_of_source hi
      rw [h.watcher_root, ← hold]
      rfl
    have hlt : i < us.length := (List.getElem?_eq_some_iff.mp hi).1
    refine ⟨i + 1, ?_, .inr rfl, fun _ => rfl⟩
    exact {
      start_pos := h.start_pos
      b_le := h.b_le
      k_le := h.k_le.trans (Nat.le_succ i)
      f_le := hlt
      watcher_root := Ends.getElem?_nodes_succ hi
      watcher_tx := by rw [span_succ hi h.k_le, ← h.watcher_tx]
      history_root := h.history_root
      history_tx := h.history_tx
      found := h.found
      finished := h.finished }

variable [ByteAlphabet Byte] [DecidableEq Byte]

/-- The second read of a lookup finds the update before the position. -/
theorem Walk.send (h : Walk 0 us db w b k f) (hsimple : ends.Simple 0 us) {p : Bytes32 Byte}
    (hfound : w.history.found = some p) :
    ∃ i u, b = i + 1 ∧ db.update p = some u ∧
      Walk 0 us db { w with history := w.history.updateHistory (some u) } i k f := by
  obtain ⟨i, u, rfl, hu, rfl, hrow⟩ := h.found p hfound
  have hnode := hsimple.chain.getElem?_nodes hu
  refine ⟨i, u, rfl, hrow, ?_⟩
  exact {
    start_pos := h.start_pos
    b_le := Nat.le_of_succ_le h.b_le
    k_le := h.k_le
    f_le := h.f_le
    watcher_root := h.watcher_root
    watcher_tx := h.watcher_tx
    history_root := hnode
    history_tx := by
      rw [span_pred hu h.b_le, List.reverse_cons, ← h.history_tx]
      rfl
    found := by
      intro p hp
      cases hp
    finished := by
      -- only the first root is zero
      simp only [HistorySync.updateHistory, decide_eq_true_eq]
      constructor
      · intro hzero
        apply hsimple.node_unique hnode
        rw [Ends.getElem?_nodes_zero]
        exact congrArg some hzero.symm
      · rintro rfl
        exact (Option.some.inj hnode).symm }

/-- A step of the backward task keeps it on its way, and succeeds where the update
before its position is stored. -/
theorem Walk.advance (h : Walk 0 us db w b k f) (hrows : Rows us stored db)
    (hsimple : ends.Simple 0 us) :
    ∃ b', Walk 0 us db { w with history := w.history.advance db } b' k f ∧
      ((w.history.advance db).finished = false → w.history.finished = false ∧
        w.history.steps ≤ (w.history.advance db).steps ∧
        (b ≤ stored → w.history.steps < (w.history.advance db).steps)) := by
  rw [HistorySync.advance]
  split_ifs with hfinished
  · exact ⟨b, h, fun hrunning => by simp [hfinished] at hrunning⟩
  · have hrunning : w.history.finished = false := by simpa using hfinished
    cases hfound : w.history.found with
    | none =>
      refine ⟨b, ?_, fun _ => ⟨hrunning, ?_, fun hb => ?_⟩⟩
      -- the update that enters the root at position `b` is the one before it
      · refine { h with found := fun p hp => ?_ }
        obtain ⟨u, hmem, hnew, hold, hrow⟩ := hrows.prevRoot _ p hp
        obtain ⟨i, hi⟩ := List.mem_iff_getElem?.mp hmem
        refine ⟨i, u, ?_, hi, hold, hrow⟩
        symm
        apply hsimple.index_of_target hi
        rw [h.history_root, ← hnew]
        rfl
      · simp [HistorySync.steps, hfound]
      -- its row is there when it is stored, so the read succeeds
      · obtain ⟨i, rfl⟩ := Nat.exists_eq_succ_of_ne_zero fun hb => hfinished (h.finished.mpr hb)
        have hlt : i < us.length := Nat.lt_of_succ_le (hb.trans hrows.fits)
        have hu : us[i]? = some us[i] := List.getElem?_eq_getElem hlt
        have hroot := (Ends.getElem?_nodes_succ hu).symm.trans h.history_root
        have hheld := (hrows.held i _ (Nat.lt_of_succ_le hb) hu).2
        rw [show us[i].newRoot = w.history.committedRoot from Option.some.inj hroot] at hheld
        simp [HistorySync.steps, hfound, hheld]
    | some p =>
      obtain ⟨i, u, rfl, hrow, hwalk⟩ := h.send hsimple hfound
      simp only [OpticsDB.updateByPreviousRoot, hrow]
      have hsteps : w.history.steps < (w.history.updateHistory (some u)).steps := by
        simp [HistorySync.steps, HistorySync.updateHistory, hfound]
        omega
      exact ⟨i, hwalk, fun _ => ⟨hrunning, hsteps.le, fun _ => hsteps⟩⟩

end Walks

/-! ### Going round in a circle -/

section Circle

variable [ByteAlphabet Byte] [DecidableEq Byte] {db : OpticsDB Byte} {roots : List (Bytes32 Byte)}
  {us : List (SignedUpdate Byte)} {sync : HistorySync Byte}

/-- The rows of each root lead back to one of the roots, and none of these is zero. -/
def Circle (db : OpticsDB Byte) (roots : List (Bytes32 Byte)) (us : List (SignedUpdate Byte)) :
    Prop :=
  ∀ root ∈ roots, ∃ u ∈ us, db.prevRoot root = some u.oldRoot ∧ db.update u.oldRoot = some u ∧
    u.oldRoot ∈ roots ∧ u.oldRoot ≠ 0

/-- The backward task is among the roots and has sent nothing but their updates. -/
structure HistorySync.Circling (db : OpticsDB Byte) (roots : List (Bytes32 Byte))
    (us : List (SignedUpdate Byte)) (sync : HistorySync Byte) : Prop where
  root : sync.committedRoot ∈ roots
  tx : ∀ u ∈ sync.tx, u ∈ us
  found : ∀ p, sync.found = some p →
    ∃ u ∈ us, db.update p = some u ∧ u.oldRoot ∈ roots ∧ u.oldRoot ≠ 0
  running : sync.finished = false

/-- The backward task never leaves a circle. -/
theorem HistorySync.Circling.advance (h : sync.Circling db roots us)
    (hcircle : Circle db roots us) :
    (sync.advance db).Circling db roots us := by
  have hrunning : ¬ sync.finished = true := by simp [h.running]
  rw [HistorySync.advance, if_neg hrunning]
  cases hfound : sync.found with
  | none =>
    refine { h with found := fun p hp => ?_ }
    obtain ⟨u, hu, hprev, hrow, hrest⟩ := hcircle _ h.root
    obtain rfl := Option.some.inj (hprev.symm.trans hp)
    exact ⟨u, hu, hrow, hrest⟩
  | some p =>
    obtain ⟨u, hu, hrow, hroot, hne⟩ := h.found p hfound
    simp only [OpticsDB.updateByPreviousRoot, hrow]
    constructor
    case root => exact hroot
    case tx =>
      intro v hv
      rcases List.mem_append.mp hv with hv | hv
      · exact h.tx v hv
      · exact List.mem_singleton.mp hv ▸ hu
    case found =>
      intro p hp
      cases hp
    case running => exact decide_eq_false hne

end Circle

end Optics.Watcher
