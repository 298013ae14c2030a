/-
# The model of Home

`models::home` restates the Home contract for the agents. A type parameter tells a waiting
Home from a failed one, and a fraud report consumes the waiting Home: it answers with a
failed one, or hands the waiting one back.
-/

import Optics.Accumulator.Incremental
import Optics.Agents.Digests
import Optics.Agents.UpdateHandler

namespace Optics.Models

open Optics.Solidity Optics.Accumulator Optics.Digests
open Optics.Updater (Update SignedUpdate)

variable {Byte : Type}

/-- `OpticsError`. A panic is one more of them. -/
inductive OpticsError (Byte : Type)
  | SignatureError
  | WrongCurrentRoot (actual expected : Bytes32 Byte)
  | UnknownNewRoot (root : Bytes32 Byte)
  | panics

/-- `Waiting`. -/
structure Waiting (Byte : Type) where
  queue : List (Bytes32 Byte)
  accumulator : IncrementalMerkle Byte

/-- `Failed`. -/
structure Failed (Byte : Type) where
  queue : List (Bytes32 Byte)
  accumulator : IncrementalMerkle Byte

/-- `Home`. The field `localDomain` is called `local` there. -/
structure Home (Byte S : Type) where
  localDomain : UInt32
  updater : Address Byte
  committedRoot : Bytes32 Byte
  state : S

deriving instance DecidableEq for Updater.SignedUpdate

variable [ByteAlphabet Byte]

/-- `format_message`. -/
def formatMessage (origin : UInt32) (sender : Bytes32 Byte) (destination : UInt32)
    (recipient : Bytes32 Byte) (body : List Byte) : List Byte :=
  uint32Bytes origin ++ sender.toList ++ uint32Bytes destination ++ recipient.toList ++ body

section Verify

variable [DecidableEq Byte] (K : Crypto Byte) (hashMessage : List Byte → Bytes32 Byte)

/-- `SignedUpdate::verify`. -/
def verify (update : SignedUpdate Byte) (signer : Address Byte) :
    Except (OpticsError Byte) Unit :=
  match K.recover (updatePrependedHash K hashMessage update.update) update.signature with
  | some recovered => if recovered = signer then .ok () else .error .SignatureError
  | none => .error .SignatureError

end Verify

namespace Home

/-- `Home<Failed>::from`. -/
def fail (home : Home Byte (Waiting Byte)) : Home Byte (Failed Byte) where
  localDomain := home.localDomain
  updater := home.updater
  committedRoot := home.committedRoot
  state := ⟨home.state.queue, home.state.accumulator⟩

section Messages

variable (K : Crypto Byte)

/-- `root`. -/
def root (home : Home Byte (Waiting Byte)) : Bytes32 Byte := home.state.accumulator.root K

/-- `init`. -/
def init (localDomain : UInt32) (updater : Address Byte) : Home Byte (Waiting Byte) where
  localDomain := localDomain
  updater := updater
  committedRoot := 0
  state := ⟨[], .default K⟩

/-- The leaf that `dispatch` ingests. -/
def messageHash (home : Home Byte (Waiting Byte)) (sender : Bytes32 Byte) (destination : UInt32)
    (recipient : Bytes32 Byte) (body : List Byte) : Bytes32 Byte :=
  K.keccak256 (formatMessage home.localDomain sender destination recipient body)

/-- `dispatch`. It panics when the accumulator is full. -/
def dispatch (sender : Bytes32 Byte) (destination : UInt32) (recipient : Bytes32 Byte)
    (body : List Byte) (home : Home Byte (Waiting Byte)) :
    Except (OpticsError Byte) (Home Byte (Waiting Byte)) :=
  match home.state.accumulator.ingest K
    (home.messageHash K sender destination recipient body) with
  | some accumulator =>
    .ok { home with state := ⟨home.state.queue ++ [accumulator.root K], accumulator⟩ }
  | none => .error .panics

/-- `produce_update`. -/
def produceUpdate (home : Home Byte (Waiting Byte)) : Update Byte :=
  ⟨home.localDomain, home.committedRoot, home.root K⟩

end Messages

variable [DecidableEq Byte]

/-- The loop of `_update`: pop until the new root comes out, with a panic on an empty
queue. -/
def popUntil (newRoot : Bytes32 Byte) : List (Bytes32 Byte) → Option (List (Bytes32 Byte))
  | [] => none
  | item :: queue => if item = newRoot then some queue else popUntil newRoot queue

/-- `_update`. The committed root stays what it was. -/
def _update (update : Update Byte) (home : Home Byte (Waiting Byte)) :
    Except (OpticsError Byte) (Home Byte (Waiting Byte)) :=
  if update.previousRoot ≠ home.committedRoot then
    .error (.WrongCurrentRoot update.previousRoot home.committedRoot)
  else if home.state.queue.contains update.newRoot then
    match popUntil update.newRoot home.state.queue with
    | some queue => .ok { home with state := { home.state with queue := queue } }
    | none => .error .panics
  else .error (.UnknownNewRoot update.newRoot)

section Signatures

variable (K : Crypto Byte) (hashMessage : List Byte → Bytes32 Byte)

/-- `check_sig`. -/
def checkSig {S : Type} (home : Home Byte S) (update : SignedUpdate Byte) :
    Except (OpticsError Byte) Unit := verify K hashMessage update home.updater

/-- `update`. -/
def update (update : SignedUpdate Byte) (home : Home Byte (Waiting Byte)) :
    Except (OpticsError Byte) (Home Byte (Waiting Byte)) := do
  home.checkSig K hashMessage update
  home._update update.update

/-- `double_update`. The error hands the waiting Home back. -/
def doubleUpdate (first second : SignedUpdate Byte) (home : Home Byte (Waiting Byte)) :
    Except (Home Byte (Waiting Byte)) (Home Byte (Failed Byte)) :=
  if first = second ∨ (home.checkSig K hashMessage first).isOk = false ∨
      (home.checkSig K hashMessage second).isOk = false then .error home
  else .ok home.fail

/-- `improper_update`. -/
def improperUpdate (update : SignedUpdate Byte) (home : Home Byte (Waiting Byte)) :
    Except (Home Byte (Waiting Byte)) (Home Byte (Failed Byte)) :=
  if (home.checkSig K hashMessage update).isOk = false ∨
      home.state.queue.contains update.update.newRoot then .error home
  else .ok home.fail

end Signatures

/-! ### What the functions do -/

section Effects

variable {K : Crypto Byte} {hashMessage : List Byte → Bytes32 Byte}
  {home home' : Home Byte (Waiting Byte)} {failed : Home Byte (Failed Byte)}
  {u v : SignedUpdate Byte} {newRoot : Bytes32 Byte} {queue : List (Bytes32 Byte)}

omit [ByteAlphabet Byte] in
/-- The loop finds what the queue contains. -/
theorem popUntil_append {front back : List (Bytes32 Byte)} (h : newRoot ∉ front) :
    popUntil newRoot (front ++ newRoot :: back) = some back := by
  induction front with
  | nil => exact if_pos rfl
  | cons item front ih =>
    have hitem : item ≠ newRoot := fun heq => h (heq ▸ List.mem_cons_self)
    -- the first item is another one and is dropped
    rw [List.cons_append, popUntil, if_neg hitem]
    exact ih fun hmem => h (List.mem_cons_of_mem _ hmem)

omit [ByteAlphabet Byte] in
/-- What the loop leaves is what comes after the first occurrence. -/
theorem popUntil_eq_some {roots : List (Bytes32 Byte)} (h : popUntil newRoot roots = some queue) :
    ∃ front, newRoot ∉ front ∧ roots = front ++ newRoot :: queue := by
  induction roots with
  | nil => cases h
  | cons item roots ih =>
    rw [popUntil] at h
    split_ifs at h with hitem
    · rw [hitem, Option.some.inj h]
      exact ⟨[], List.not_mem_nil, rfl⟩
    · obtain ⟨front, hfront, rfl⟩ := ih h
      refine ⟨item :: front, fun hmem => ?_, rfl⟩
      rcases List.mem_cons.mp hmem with rfl | hmem
      · exact hitem rfl
      · exact hfront hmem

omit [ByteAlphabet Byte] in
theorem exists_popUntil {roots : List (Bytes32 Byte)} (h : newRoot ∈ roots) :
    ∃ queue, popUntil newRoot roots = some queue := by
  obtain ⟨front, back, rfl, hfront⟩ := List.eq_append_cons_of_mem h
  exact ⟨back, popUntil_append hfront⟩

omit [DecidableEq Byte] in
theorem dispatch_of_ingest {sender recipient : Bytes32 Byte} {destination : UInt32}
    {body : List Byte} {accumulator : IncrementalMerkle Byte}
    (h : home.state.accumulator.ingest K
      (home.messageHash K sender destination recipient body) = some accumulator) :
    home.dispatch K sender destination recipient body =
      .ok { home with state := ⟨home.state.queue ++ [accumulator.root K], accumulator⟩ } := by
  rw [dispatch, h]

omit [DecidableEq Byte] in
/-- `dispatch` appends one root to the queue. -/
theorem dispatch_eq_ok {sender recipient : Bytes32 Byte} {destination : UInt32} {body : List Byte}
    (h : home.dispatch K sender destination recipient body = .ok home') :
    ∃ accumulator,
      home.state.accumulator.ingest K (home.messageHash K sender destination recipient body) =
        some accumulator ∧
      home' = { home with state := ⟨home.state.queue ++ [accumulator.root K], accumulator⟩ } := by
  unfold dispatch at h
  split at h
  · exact ⟨_, ‹_›, (Except.ok.inj h).symm⟩
  · cases h

omit [ByteAlphabet Byte] in
/-- An accepted update starts from the committed root, and changes nothing but the queue. -/
theorem _update_eq_ok {u : Update Byte} (h : home._update u = .ok home') :
    u.previousRoot = home.committedRoot ∧ u.newRoot ∈ home.state.queue ∧
      ∃ queue, popUntil u.newRoot home.state.queue = some queue ∧
        home' = { home with state := { home.state with queue := queue } } := by
  unfold _update at h
  split_ifs at h with hroot hmem
  refine ⟨not_not.mp hroot, List.contains_iff_mem.mp hmem, ?_⟩
  split at h
  · exact ⟨_, ‹_›, (Except.ok.inj h).symm⟩
  · cases h

theorem update_eq_ok (h : home.update K hashMessage u = .ok home') :
    (home.checkSig K hashMessage u).isOk = true ∧ home._update u.update = .ok home' := by
  obtain ⟨_, hsig, h⟩ := bind_eq_ok.mp h
  exact ⟨by rw [hsig]; rfl, h⟩

/-- The model accepts a signed update from the committed root to a root of the queue. -/
theorem exists_update (hsig : (home.checkSig K hashMessage u).isOk = true)
    (hprevious : u.update.previousRoot = home.committedRoot)
    (hnew : u.update.newRoot ∈ home.state.queue) :
    ∃ home', home.update K hashMessage u = .ok home' := by
  obtain ⟨queue, hpop⟩ := exists_popUntil hnew
  refine ⟨{ home with state := { home.state with queue := queue } }, ?_⟩
  cases hcheck : home.checkSig K hashMessage u with
  | error e => simp [hcheck, Except.isOk, Except.toBool] at hsig
  | ok =>
    rw [update, hcheck, _update]
    simp [hprevious, hnew, hpop, bind, Except.bind]

/-- Two different signed updates of the updater make `double_update` fail the Home,
whatever they say. -/
theorem doubleUpdate_eq_ok : home.doubleUpdate K hashMessage u v = .ok failed ↔
    u ≠ v ∧ (home.checkSig K hashMessage u).isOk = true ∧
      (home.checkSig K hashMessage v).isOk = true ∧ failed = home.fail := by
  unfold doubleUpdate
  split_ifs with h
  · simp only [false_iff]
    rintro ⟨hne, hu, hv, -⟩
    rcases h with heq | hfirst | hsecond
    · exact hne heq
    · rw [hu] at hfirst
      cases hfirst
    · rw [hv] at hsecond
      cases hsecond
  · obtain ⟨hne, hfirst, hsecond⟩ := not_or.mp h |>.imp_right not_or.mp
    simp only [Bool.not_eq_false] at hfirst hsecond
    simp [hne, hfirst, hsecond, eq_comm]

theorem doubleUpdate_eq_error (h : home.doubleUpdate K hashMessage u v = .error home') :
    home' = home := by
  unfold doubleUpdate at h
  split_ifs at h
  exact (Except.error.inj h).symm

/-- A signed update whose new root is not in the queue makes `improper_update` fail the
Home, whatever root it starts from. -/
theorem improperUpdate_eq_ok : home.improperUpdate K hashMessage u = .ok failed ↔
    (home.checkSig K hashMessage u).isOk = true ∧ u.update.newRoot ∉ home.state.queue ∧
      failed = home.fail := by
  unfold improperUpdate
  split_ifs with h
  · simp only [false_iff]
    rintro ⟨hsig, hmem, -⟩
    rcases h with hfirst | hqueue
    · rw [hsig] at hfirst
      cases hfirst
    · exact hmem (List.contains_iff_mem.mp hqueue)
  · obtain ⟨hsig, hmem⟩ := not_or.mp h
    rw [List.contains_iff_mem] at hmem
    simp only [Bool.not_eq_false] at hsig
    simp [hsig, hmem, eq_comm]

theorem improperUpdate_eq_error (h : home.improperUpdate K hashMessage u = .error home') :
    home' = home := by
  unfold improperUpdate at h
  split_ifs at h
  exact (Except.error.inj h).symm

/-- An accepted update can be reported as improper right after, if its root was in the queue
only once. -/
theorem improperUpdate_of_update (h : home.update K hashMessage u = .ok home')
    (hnodup : home.state.queue.Nodup) :
    home'.improperUpdate K hashMessage u = .ok home'.fail := by
  obtain ⟨hsig, hupdated⟩ := update_eq_ok h
  obtain ⟨-, -, queue, hpop, rfl⟩ := _update_eq_ok hupdated
  obtain ⟨front, -, hqueue⟩ := popUntil_eq_some hpop
  -- behind its first occurrence the root does not come again
  rw [hqueue] at hnodup
  have hmissing := (List.nodup_cons.mp (List.nodup_append.mp hnodup).2.1).1
  exact improperUpdate_eq_ok.mpr ⟨hsig, hmissing, rfl⟩

/-- Two signatures on one update are a double update. -/
theorem doubleUpdate_of_signatures {w : Update Byte} {a b : List Byte} (hne : a ≠ b)
    (ha : (home.checkSig K hashMessage ⟨w, a⟩).isOk = true)
    (hb : (home.checkSig K hashMessage ⟨w, b⟩).isOk = true) :
    home.doubleUpdate K hashMessage ⟨w, a⟩ ⟨w, b⟩ = .ok home.fail :=
  doubleUpdate_eq_ok.mpr ⟨fun heq => hne (congrArg SignedUpdate.signature heq), ha, hb, rfl⟩

end Effects

end Home

end Optics.Models
