/-
# The update handler of the watcher

The handler receives signed updates from the walkers over Home and the Replicas,
in whatever order they come, and keeps the first one for each previous root in the
database of the watcher. A later update from the same root to another root is a
double update. The database outlives the process, so a restart forgets nothing.

What the handler has to remember is the list of all updates that it has checked.
The database is a faithful summary of that list: it answers with the first update
from a root, and this is all that the next check depends on.
-/

import Optics.Agents.KeyValue
import Optics.Agents.Updater
import Optics.Core.Common

namespace Optics.UpdateHandler

open Optics.Solidity Optics.Common Optics.KeyValue Optics.Math.Transition
open Updater (Update)

variable {Byte : Type}

/-- `Signature`, as the 65 bytes that it is read from and written to. -/
abbrev Signature (Byte : Type) := List.Vector Byte 65

deriving instance DecidableEq for Update

/-- `SignedUpdate`. -/
structure SignedUpdate (Byte : Type) where
  update : Update Byte
  signature : Signature Byte
  deriving DecidableEq

/-- `DoubleUpdate`. -/
structure DoubleUpdate (Byte : Type) where
  first : SignedUpdate Byte
  second : SignedUpdate Byte
  deriving DecidableEq

/-- The update as it is presented to a contract. -/
def SignedUpdate.presented (signed : SignedUpdate Byte) : Common.SignedUpdate Byte :=
  ⟨signed.update.previousRoot, signed.update.newRoot, signed.signature.toList⟩

/-! ### Encoding -/

section Encoding

variable [ByteAlphabet Byte]

/-- `SignedUpdate::write_to`. -/
def SignedUpdate.writeTo (signed : SignedUpdate Byte) : List Byte :=
  uint32Bytes signed.update.homeDomain ++ signed.update.previousRoot.toList ++
    signed.update.newRoot.toList ++ signed.signature.toList

/-- `Signature::read_from`. -/
def readSignature (bytes : List Byte) : Except Fault (Signature Byte × List Byte) :=
  if h : 65 ≤ bytes.length then .ok (⟨bytes.take 65, by simpa using h⟩, bytes.drop 65)
  else .error .ioError

omit [ByteAlphabet Byte] in
theorem readSignature_append (signature : Signature Byte) (rest : List Byte) :
    readSignature (signature.toList ++ rest) = .ok (signature, rest) := by
  have hlength : signature.toList.length = 65 := signature.toList_length
  rw [readSignature, dif_pos (by simp)]
  congr 2
  · apply List.Vector.eq
    exact List.take_left' hlength
  · exact List.drop_left' hlength

/-- `SignedUpdate::read_from`. -/
def SignedUpdate.readFrom (bytes : List Byte) : Except Fault (SignedUpdate Byte × List Byte) := do
  let (homeDomain, bytes) ← readUint32 bytes
  let (previousRoot, bytes) ← readWord bytes
  let (newRoot, bytes) ← readWord bytes
  let (signature, bytes) ← readSignature bytes
  .ok (⟨⟨homeDomain, previousRoot, newRoot⟩, signature⟩, bytes)

instance encodeSignedUpdate : Encode Byte (SignedUpdate Byte) := ⟨SignedUpdate.writeTo⟩

instance decodeSignedUpdate : Decode Byte (SignedUpdate Byte) := ⟨SignedUpdate.readFrom⟩

theorem SignedUpdate.readFrom_writeTo (signed : SignedUpdate Byte) (rest : List Byte) :
    readFrom (signed.writeTo ++ rest) = .ok (signed, rest) := by
  rw [readFrom, writeTo]
  simp only [List.append_assoc, readUint32_append, readWord_append, readSignature_append, ok_bind]

instance lawfulSignedUpdate : LawfulCodec Byte (SignedUpdate Byte) where
  readFrom_toVec signed := by
    have hread := signed.readFrom_writeTo []
    rw [List.append_nil] at hread
    exact ⟨[], hread⟩

end Encoding

/-! ### The tables of the watcher -/

section Tables

variable [ByteAlphabet Byte]

/-- The ASCII bytes of `"update_"`. -/
def UPDATE : List Byte := [0x75, 0x70, 0x64, 0x61, 0x74, 0x65, 0x5f].map ofByte

/-- The ASCII bytes of `"update_prev_root_"`. -/
def PREV_ROOT : List Byte :=
  [0x75, 0x70, 0x64, 0x61, 0x74, 0x65, 0x5f, 0x70, 0x72, 0x65, 0x76, 0x5f, 0x72, 0x6f, 0x6f, 0x74,
    0x5f].map ofByte

@[simp] theorem length_UPDATE : (UPDATE : List Byte).length = 7 := rfl

@[simp] theorem length_PREV_ROOT : (PREV_ROOT : List Byte).length = 17 := rfl

variable (entity : List Byte)

/-- `update_by_previous_root`. -/
def updateByPreviousRoot (previousRoot : Bytes32 Byte) (db : DB Byte) :
    Except Fault (Option (SignedUpdate Byte)) :=
  retrieveKeyedDecodable (SignedUpdate Byte) entity UPDATE previousRoot db

variable [DecidableEq Byte]

/-- `store_update`. -/
def storeUpdate (signed : SignedUpdate Byte) (db : DB Byte) : DB Byte :=
  let db := storeKeyedEncodable entity UPDATE signed.update.previousRoot signed db
  storeKeyedEncodable entity PREV_ROOT signed.update.newRoot signed.update.previousRoot db

/-- The reverse index is another table, so a stored update is found by its
previous root and nothing else changes there. -/
theorem updateByPreviousRoot_storeUpdate (signed : SignedUpdate Byte) (root : Bytes32 Byte)
    (db : DB Byte) :
    updateByPreviousRoot entity root (storeUpdate entity signed db) =
      if root = signed.update.previousRoot then .ok (some signed)
      else updateByPreviousRoot entity root db := by
  rw [updateByPreviousRoot, retrieveKeyedDecodable, storeUpdate, storeKeyedEncodable,
    retrieveDecodable_of_length_ne _ (by simp)]
  exact retrieveKeyedDecodable_store toVec_word_injective _ root signed

end Tables

/-! ### The handler -/

/-- How the handler stands: waiting for an update, or gone, with a double update,
with an error of Home, or with a panic. -/
inductive Status (Byte : Type)
  | running
  | returned (double : DoubleUpdate Byte)
  | failed
  | panicked
  deriving DecidableEq

/-- The database, the handler, and the answers of all checks. -/
structure State (Byte : Type) where
  watcherDb : DB Byte
  status : Status Byte
  checks : List (SignedUpdate Byte × Except (DoubleUpdate Byte) Unit)

/-- An update arrives, and Home answers the query that comes before the check or
fails to; or the process starts again. -/
inductive Label (Byte : Type)
  | receive (update : SignedUpdate Byte) (answered : Bool)
  | restart

/-- The updates that were checked, oldest first. -/
def State.received (s : State Byte) : List (SignedUpdate Byte) := s.checks.map Prod.fst

section Handler

variable [ByteAlphabet Byte] [DecidableEq Byte] (entity : List Byte)

/-- `check_double_update`, with the database it leaves. -/
def checkDoubleUpdate (update : SignedUpdate Byte) (db : DB Byte) :
    Except Fault (Except (DoubleUpdate Byte) Unit × DB Byte) :=
  match updateByPreviousRoot entity update.update.previousRoot db with
  | .ok (some existing) =>
    if existing.update.newRoot ≠ update.update.newRoot then .ok (.error ⟨existing, update⟩, db)
    else .ok (.ok (), db)
  | .ok none => .ok (.ok (), storeUpdate entity update db)
  | .error _ => .error (.panicked "!db_get")

/-- One round of the loop of `spawn`, or a restart. The transaction to Home that
may come between the query and the check is not here: its outcome is ignored. -/
def exec : Label Byte → State Byte → Option (State Byte)
  | .receive update answered, s =>
    match s.status with
    | .running =>
      if answered then
        match checkDoubleUpdate entity update s.watcherDb with
        | .ok (outcome, db) =>
          some {
            watcherDb := db
            status := match outcome with
              | .ok () => .running
              | .error double => .returned double
            checks := s.checks ++ [(update, outcome)] }
        | .error _ => some { s with status := .panicked }
      else some { s with status := .failed }
    | _ => none
  | .restart, s => some { s with status := .running }

/-- A handler whose database is empty. -/
def Initial (s : State Byte) : Prop :=
  s.watcherDb = DB.empty ∧ s.status = .running ∧ s.checks = []

/-- The handler under any updates and any restarts. -/
def system : System (State Byte) (Label Byte) where
  init := Initial
  step s label t := exec entity label s = some t

end Handler

/-- The check that a contract makes of a double update. -/
def DoubleUpdate.conflict [ByteAlphabet Byte] [DecidableEq Byte] (K : Crypto Byte)
    (homeDomain : UInt32) (updater : Address Byte) (double : DoubleUpdate Byte) :
    Except Revert Bool :=
  isDoubleUpdate K homeDomain updater double.first.update.previousRoot double.first.update.newRoot
    double.second.update.newRoot double.first.signature.toList double.second.signature.toList

/-! ### What the database remembers -/

section Remembered

variable [DecidableEq Byte] {received : List (SignedUpdate Byte)} {root : Bytes32 Byte}
  {u v a : SignedUpdate Byte}

/-- The first update from a root. -/
def firstFrom (root : Bytes32 Byte) (received : List (SignedUpdate Byte)) :
    Option (SignedUpdate Byte) :=
  received.find? fun u => u.update.previousRoot = root

/-- What the check of an update has to answer after the given ones. -/
def verdict (received : List (SignedUpdate Byte)) (u : SignedUpdate Byte) :
    Except (DoubleUpdate Byte) Unit :=
  match firstFrom u.update.previousRoot received with
  | some a => if a.update.newRoot ≠ u.update.newRoot then .error ⟨a, u⟩ else .ok ()
  | none => .ok ()

/-- No two updates start at one root and end at two. -/
def Consistent (received : List (SignedUpdate Byte)) : Prop :=
  ∀ u ∈ received, ∀ v ∈ received,
    u.update.previousRoot = v.update.previousRoot → u.update.newRoot = v.update.newRoot

instance decidableConsistent (received : List (SignedUpdate Byte)) :
    Decidable (Consistent received) :=
  inferInstanceAs (Decidable (∀ u ∈ received, ∀ v ∈ received,
    u.update.previousRoot = v.update.previousRoot → u.update.newRoot = v.update.newRoot))

theorem firstFrom_mem (h : firstFrom root received = some a) :
    a ∈ received ∧ a.update.previousRoot = root :=
  ⟨List.mem_of_find?_eq_some h, by simpa using List.find?_some h⟩

theorem exists_firstFrom (hv : v ∈ received) (hroot : v.update.previousRoot = root) :
    ∃ a, firstFrom root received = some a := by
  apply Option.isSome_iff_exists.mp
  rw [firstFrom, List.find?_isSome]
  exact ⟨v, hv, by simpa using hroot⟩

/-- One more update matters only where there was none. -/
theorem firstFrom_append : firstFrom root (received ++ [u]) =
    (firstFrom root received).or (if u.update.previousRoot = root then some u else none) := by
  rw [firstFrom, List.find?_append]
  congr 1
  by_cases h : u.update.previousRoot = root
  · simp [h]
  · simp [h]

/-- Consistent updates are all answered with success. -/
theorem verdict_of_consistent (h : Consistent (received ++ [u])) : verdict received u = .ok () := by
  rw [verdict]
  split
  · next a ha =>
    obtain ⟨hmem, hroot⟩ := firstFrom_mem ha
    have hsame := h a (List.mem_append_left _ hmem) u
      (List.mem_append_right _ (List.mem_singleton_self u)) hroot
    exact if_neg (not_not.mpr hsame)
  · rfl

/-- The first conflict among consistent updates is answered with the first update
from that root. -/
theorem verdict_of_conflict (h : Consistent received) (hv : v ∈ received)
    (hroot : v.update.previousRoot = u.update.previousRoot)
    (hne : v.update.newRoot ≠ u.update.newRoot) :
    ∃ a, firstFrom u.update.previousRoot received = some a ∧
      verdict received u = .error ⟨a, u⟩ ∧ a.update.previousRoot = u.update.previousRoot ∧
      a.update.newRoot ≠ u.update.newRoot := by
  obtain ⟨a, ha⟩ := exists_firstFrom hv hroot
  obtain ⟨hmem, haroot⟩ := firstFrom_mem ha
  have hane : a.update.newRoot ≠ u.update.newRoot := by
    rw [h a hmem v hv (haroot.trans hroot.symm)]
    exact hne
  refine ⟨a, ha, ?_, haroot, hane⟩
  rw [verdict, ha]
  exact if_pos hane

variable [ByteAlphabet Byte] {entity : List Byte} {db : DB Byte} {s t : State Byte}
  {label : Label Byte}

/-- The database answers with the first update from each root. -/
def Remembers (entity : List Byte) (db : DB Byte) (received : List (SignedUpdate Byte)) : Prop :=
  ∀ root, updateByPreviousRoot entity root db = .ok (firstFrom root received)

/-- A check answers what the updates so far demand, and remembers the new one. -/
theorem Remembers.check (h : Remembers entity db received) (u : SignedUpdate Byte) :
    ∃ db', checkDoubleUpdate entity u db = .ok (verdict received u, db') ∧
      Remembers entity db' (received ++ [u]) := by
  rw [checkDoubleUpdate, h u.update.previousRoot, verdict]
  cases hfirst : firstFrom u.update.previousRoot received with
  -- The first update from its root is stored, in the only row that changes.
  | none =>
    refine ⟨_, rfl, fun root => ?_⟩
    rw [updateByPreviousRoot_storeUpdate, h root, firstFrom_append]
    by_cases hroot : root = u.update.previousRoot
    · subst hroot
      simp [hfirst]
    · simp [hroot, Ne.symm hroot]
  | some a =>
    -- A later one is not stored, whether or not it conflicts.
    have hkeep : Remembers entity db (received ++ [u]) := by
      intro root
      rw [h root, firstFrom_append]
      by_cases hroot : u.update.previousRoot = root
      · subst hroot
        simp [hfirst]
      · simp [hroot]
    refine ⟨db, ?_, hkeep⟩
    dsimp only
    split_ifs
    · rfl
    · rfl

/-- The database remembers the checked updates, and each check was answered as
the updates before it demand. -/
structure Sound (entity : List Byte) (s : State Byte) : Prop where
  remembers : Remembers entity s.watcherDb s.received
  verdicts : ∀ before u outcome after, s.checks = before ++ (u, outcome) :: after →
    outcome = verdict (before.map Prod.fst) u
  alive : s.status ≠ .panicked

/-- One more check with the right answer. -/
theorem Sound.concat (h : Sound entity s) {status : Status Byte}
    (hremembers : Remembers entity db (s.received ++ [u])) (hstatus : status ≠ .panicked) :
    Sound entity ⟨db, status, s.checks ++ [(u, verdict s.received u)]⟩ where
  remembers := by
    have hreceived : (s.checks ++ [(u, verdict s.received u)]).map Prod.fst = s.received ++ [u] :=
      List.map_append
    rw [← hreceived] at hremembers
    exact hremembers
  verdicts before v outcome after hchecks := by
    dsimp only at hchecks
    -- The check is the new one, or comes before it.
    rcases after.eq_nil_or_concat' with rfl | ⟨after', last, rfl⟩
    · obtain ⟨rfl, hlast⟩ := List.append_inj' hchecks rfl
      obtain ⟨rfl, rfl⟩ := Prod.mk.inj (List.singleton_inj.mp hlast)
      rfl
    · rw [← List.cons_append, ← List.append_assoc] at hchecks
      obtain ⟨hbefore, -⟩ := List.append_inj' hchecks rfl
      exact h.verdicts before v outcome after' hbefore
  alive := hstatus

/-- **Step lemma.** -/
theorem Sound.step (h : Sound entity s) (hstep : (system entity).step s label t) :
    Sound entity t := by
  change exec entity label s = some t at hstep
  cases label with
  | receive u answered =>
    simp only [exec] at hstep
    split at hstep
    · split_ifs at hstep
      -- a check, whose answer decides whether the handler goes on
      · obtain ⟨db, hcheck, hremembers⟩ := h.remembers.check u
        rw [hcheck] at hstep
        obtain rfl := Option.some.inj hstep
        apply h.concat hremembers
        split
        · simp
        · simp
      · obtain rfl := Option.some.inj hstep
        exact ⟨h.remembers, h.verdicts, by simp⟩
    · cases hstep
  | restart =>
    -- The database outlives the process.
    obtain rfl := Option.some.inj hstep
    exact ⟨h.remembers, h.verdicts, by simp⟩

/-- **Run lemma.** -/
theorem sound_of_reachable (h : (system entity).Reachable s) : Sound entity s := by
  refine h.invariant ?_ fun s label t _ hsound hstep => hsound.step hstep
  rintro s ⟨hdb, hstatus, hchecks⟩
  constructor
  case remembers =>
    intro root
    rw [hdb, State.received, hchecks]
    rfl
  case verdicts =>
    intro before u outcome after hsplit
    rw [hchecks] at hsplit
    simp at hsplit
  case alive =>
    rw [hstatus]
    simp

/-- **The handler reports the first conflict.** After any updates and restarts no
check has panicked. As long as the received updates are consistent, every check
succeeded and the database answers with the first update from each root. The
first received update that conflicts with an earlier one is reported together with
the first update from its root, and a contract whose updater signed both finds the
two roots in conflict. -/
theorem reports_first_conflict (h : (system entity).Reachable s) :
    s.status ≠ .panicked ∧
    (Consistent s.received → (∀ c ∈ s.checks, c.2 = .ok ()) ∧
      ∀ root, updateByPreviousRoot entity root s.watcherDb = .ok (firstFrom root s.received)) ∧
    ∀ before u outcome after, s.checks = before ++ (u, outcome) :: after →
      Consistent (before.map Prod.fst) →
      (∃ v ∈ before.map Prod.fst, v.update.previousRoot = u.update.previousRoot ∧
        v.update.newRoot ≠ u.update.newRoot) →
      ∃ a, firstFrom u.update.previousRoot (before.map Prod.fst) = some a ∧
        outcome = .error ⟨a, u⟩ ∧ a.update.previousRoot = u.update.previousRoot ∧
        a.update.newRoot ≠ u.update.newRoot ∧
        ∀ (K : Crypto Byte) homeDomain updater, IsSignedBy K homeDomain updater a.presented →
          IsSignedBy K homeDomain updater u.presented →
          DoubleUpdate.conflict K homeDomain updater ⟨a, u⟩ = .ok true := by
  have hsound := sound_of_reachable h
  refine ⟨hsound.alive, fun hconsistent => ⟨?_, hsound.remembers⟩, ?_⟩
  · rintro ⟨u, outcome⟩ hc
    obtain ⟨before, after, hsplit⟩ := List.append_of_mem hc
    have hsub : Consistent (before.map Prod.fst ++ [u]) := by
      have hmem : ∀ v ∈ before.map Prod.fst ++ [u], v ∈ s.received := by
        intro v hv
        rw [State.received, hsplit, List.map_append, List.map_cons]
        rcases List.mem_append.mp hv with hv | hv
        · exact List.mem_append_left _ hv
        · exact List.mem_append_right _ (List.mem_singleton.mp hv ▸ List.mem_cons_self)
      exact fun v hv w hw => hconsistent v (hmem v hv) w (hmem w hw)
    exact (hsound.verdicts before u outcome after hsplit).trans (verdict_of_consistent hsub)
  · rintro before u outcome after hsplit hconsistent ⟨v, hv, hroot, hne⟩
    obtain ⟨a, ha, hverdict, haroot, hane⟩ := verdict_of_conflict hconsistent hv hroot hne
    refine ⟨a, ha, (hsound.verdicts before u outcome after hsplit).trans hverdict, haroot, hane, ?_⟩
    intro K homeDomain updater hfirst hsecond
    rw [SignedUpdate.presented, ← haroot] at hsecond
    exact isDoubleUpdate_eq_true.mpr ⟨hfirst, hsecond, hane⟩

end Remembered

/-! ### A conflict after a restart -/

section Sample

/-- The update from one root to another, without a signature. -/
def sampleUpdate (previousRoot newRoot : UInt8) : SignedUpdate UInt8 :=
  ⟨⟨1000, List.Vector.replicate 32 previousRoot, List.Vector.replicate 32 newRoot⟩,
    List.Vector.replicate 65 0⟩

/-- An update, a restart, the same update again and a conflicting one. -/
theorem reports_first_conflict_restarted :
    ∃ s : State UInt8,
      s.checks = [(sampleUpdate 1 2, .ok ())] ++ [(sampleUpdate 1 2, .ok ())] ++
        [(sampleUpdate 1 3, .error ⟨sampleUpdate 1 2, sampleUpdate 1 3⟩)] ∧
      s.status ≠ .panicked ∧
      ∃ a, firstFrom (sampleUpdate 1 3).update.previousRoot
          [sampleUpdate 1 2, sampleUpdate 1 2] = some a ∧
        a.update.newRoot ≠ (sampleUpdate 1 3).update.newRoot := by
  have hsample : ([Label.receive (sampleUpdate 1 2) true, .restart,
      .receive (sampleUpdate 1 2) true, .receive (sampleUpdate 1 3) true].foldlM
        (fun s label => exec [] label s) (⟨DB.empty, .running, []⟩ : State UInt8)).any
          (fun s => decide (s.checks =
            [(sampleUpdate 1 2, .ok ())] ++ [(sampleUpdate 1 2, .ok ())] ++
            [(sampleUpdate 1 3, .error ⟨sampleUpdate 1 2, sampleUpdate 1 3⟩)])) = true := by
    decide +kernel
  obtain ⟨s, hrun, hchecks⟩ := (Option.any_eq_true _ _).mp hsample
  have hchecks := of_decide_eq_true hchecks
  have hreach : (system []).Reachable s :=
    ⟨_, _, ⟨rfl, rfl, rfl⟩, System.run_of_foldlM (fun _ _ _ hexec => hexec) hrun⟩
  obtain ⟨halive, -, hreports⟩ := reports_first_conflict hreach
  obtain ⟨a, ha, -, -, hne, -⟩ := hreports _ _ _ [] hchecks (by decide +kernel)
    ⟨sampleUpdate 1 2, by simp, by decide +kernel, by decide +kernel⟩
  exact ⟨s, hchecks, halive, a, ha, hne⟩

end Sample

end Optics.UpdateHandler
