/-
# The updater

The producer asks Home for an update, looks for a conflicting one that it has
recorded, pauses, asks again, signs and records what it has signed. The
submitter sends recorded updates to Home. Each await is a stage of its task, and
between two stages anything may happen: Home may answer anything, the indexer
may change the latest root, and the process may stop and start again with the
same database.

The record is made after the signature. As long as the process does not stop
between the two, it never signs two updates that conflict; when it stops there,
the signature exists and nothing on disk says so.
-/

import Optics.Math.Transition
import Optics.Solidity.Basic

namespace Optics.Updater

open Optics.Solidity Optics.Math.Transition

variable {Byte : Type}

/-- `Update`. -/
structure Update (Byte : Type) where
  homeDomain : UInt32
  previousRoot : Bytes32 Byte
  newRoot : Bytes32 Byte

/-- `SignedUpdate`. -/
structure SignedUpdate (Byte : Type) where
  update : Update Byte
  signature : List Byte

/-- The rows of `OpticsDB` that the updater reads: `LATEST_ROOT`, and
`UPDATER_PRODUCED_UPDATE` by previous root. -/
structure DB (Byte : Type) where
  latestRoot : Option (Bytes32 Byte)
  produced : Bytes32 Byte → Option (SignedUpdate Byte)

/-- `DbError::UpdaterConflictError`. -/
structure UpdaterConflictError (Byte : Type) where
  existing : Update Byte
  conflicting : Update Byte

/-- The awaits of the producer loop, with the variables that are live there. The
Home state that answered a query is kept beside the answer. -/
inductive Stage (Byte ω : Type)
  | asleep
  | asking (currentRoot : Bytes32 Byte)
  | pausing (currentRoot : Bytes32 Byte) (suggested : Update Byte) (first : ω)
  | checking (suggested : Update Byte) (first : ω)
  | signing (suggested : Update Byte) (first second : ω)
  | storing (signed : SignedUpdate Byte)
  | ended

/-- The awaits of the submitter loop. -/
inductive Submitter (Byte : Type)
  | starting
  | asleep (committedRoot : Bytes32 Byte)
  | submitting (signed : SignedUpdate Byte)

/-- A signature that the updater key has made, and the two Home states that
answered the queries before it. -/
structure Attestation (Byte ω : Type) where
  signed : SignedUpdate Byte
  first : ω
  second : ω

/-- The database, the two tasks, and every signature that was ever made. -/
structure State (Byte ω : Type) where
  db : DB Byte
  producer : Stage Byte ω
  submitter : Submitter Byte
  signed : List (Attestation Byte ω)

/-- What can happen next. A query that fails ends the task and with it the
process, so it is a `crash` too. -/
inductive Label (Byte ω : Type)
  | index (root : Option (Bytes32 Byte))
  | wake
  | answer (home : ω)
  | resume
  | recheck (home : ω)
  | sign (signature : List Byte)
  | store
  | start (committedRoot : Bytes32 Byte)
  | submit
  | outcome
  | crash

variable [ByteAlphabet Byte]

/-- `find_latest_root`. -/
def DB.findLatestRoot (db : DB Byte) : Bytes32 Byte := db.latestRoot.getD 0

variable [DecidableEq Byte]

/-- `retrieve_produced_update`. -/
def DB.retrieveProducedUpdate (db : DB Byte) (previousRoot : Bytes32 Byte) :
    Option (SignedUpdate Byte) :=
  db.produced previousRoot

/-- `store_produced_update`. -/
def DB.storeProducedUpdate (db : DB Byte) (signed : SignedUpdate Byte) :
    Except (UpdaterConflictError Byte) (DB Byte) :=
  let stored : DB Byte := { db with
    produced := Function.update db.produced signed.update.previousRoot (some signed) }
  match db.retrieveProducedUpdate signed.update.previousRoot with
  | some existing =>
    if existing.update.newRoot ≠ signed.update.newRoot then
      .error ⟨existing.update, signed.update⟩
    else .ok stored
  | none => .ok stored

/-- `EthereumHome::produce_update`, from the answer of `suggestUpdate`. -/
def produceUpdate (homeDomain : UInt32) (suggested : Bytes32 Byte × Bytes32 Byte) :
    Option (Update Byte) :=
  if suggested.2 = 0 then none else some ⟨homeDomain, suggested.1, suggested.2⟩

variable {ω : Type} (homeDomain : UInt32) (suggest : ω → Bytes32 Byte × Bytes32 Byte)

/-- The producer from the answer to its first query to the pause. -/
def answered (db : DB Byte) (currentRoot : Bytes32 Byte) (home : ω) : Stage Byte ω :=
  match produceUpdate homeDomain (suggest home) with
  | none => .asleep
  | some suggested =>
    if suggested.previousRoot ≠ currentRoot then .asleep
    else
      match db.retrieveProducedUpdate suggested.previousRoot with
      | some existing =>
        if existing.update.newRoot ≠ suggested.newRoot then .asleep
        else .pausing currentRoot suggested home
      | none => .pausing currentRoot suggested home

/-- The producer from the answer to its second query to the signature. -/
def rechecked (suggested : Update Byte) (first second : ω) : Stage Byte ω :=
  match produceUpdate homeDomain (suggest second) with
  | none => .asleep
  | some check_suggested =>
    if check_suggested.previousRoot ≠ suggested.previousRoot then .asleep
    else .signing suggested first second

/-- One step, if the task that it belongs to has got there. -/
def exec : Label Byte ω → State Byte ω → Option (State Byte ω)
  | .index root, s => some { s with db := { s.db with latestRoot := root } }
  | .wake, s =>
    match s.producer with
    | .asleep => some { s with producer := .asking s.db.findLatestRoot }
    | _ => none
  | .answer home, s =>
    match s.producer with
    | .asking currentRoot =>
      some { s with producer := answered homeDomain suggest s.db currentRoot home }
    | _ => none
  | .resume, s =>
    match s.producer with
    | .pausing currentRoot suggested first =>
      if s.db.findLatestRoot ≠ currentRoot then some { s with producer := .asleep }
      else some { s with producer := .checking suggested first }
    | _ => none
  | .recheck home, s =>
    match s.producer with
    | .checking suggested first =>
      some { s with producer := rechecked homeDomain suggest suggested first home }
    | _ => none
  | .sign signature, s =>
    match s.producer with
    | .signing suggested first second =>
      some { s with
        producer := .storing ⟨suggested, signature⟩
        signed := s.signed ++ [⟨⟨suggested, signature⟩, first, second⟩] }
    | _ => none
  | .store, s =>
    match s.producer with
    | .storing signed =>
      match s.db.storeProducedUpdate signed with
      | .ok db => some { s with db := db, producer := .asleep }
      | .error _ => some { s with producer := .ended }
    | _ => none
  | .start committedRoot, s =>
    match s.submitter with
    | .starting => some { s with submitter := .asleep committedRoot }
    | _ => none
  | .submit, s =>
    match s.submitter with
    | .asleep committedRoot =>
      match s.db.retrieveProducedUpdate committedRoot with
      | some signed => some { s with submitter := .submitting signed }
      | none => some s
    | _ => none
  | .outcome, s =>
    match s.submitter with
    | .submitting signed => some { s with submitter := .asleep signed.update.newRoot }
    | _ => none
  | .crash, s => some { s with producer := .asleep, submitter := .starting }

/-- A process that starts with nothing recorded. -/
def Initial (s : State Byte ω) : Prop :=
  s.db.produced = (fun _ => none) ∧ s.producer = .asleep ∧ s.submitter = .starting ∧ s.signed = []

/-- The updater under any answers, any indexing and any crashes. -/
def system : System (State Byte ω) (Label Byte ω) where
  init := Initial
  step s label t := exec homeDomain suggest label s = some t

/-- The step does not stop the process between a signature and its record. -/
def RecordsFirst (s : State Byte ω) (label : Label Byte ω) : Prop :=
  label = .crash → ∀ signed, s.producer ≠ .storing signed

/-! ### The effect of a step -/

section Effects

/-- No recorded update conflicts with this one. -/
def Unopposed (produced : Bytes32 Byte → Option (SignedUpdate Byte)) (u : Update Byte) : Prop :=
  ∀ existing, produced u.previousRoot = some existing → existing.update.newRoot = u.newRoot

/-- The producer on its way to a signature, or back to sleep. -/
inductive Advance (produced : Bytes32 Byte → Option (SignedUpdate Byte)) :
    Stage Byte ω → Stage Byte ω → Prop
  | wake (root : Bytes32 Byte) : Advance produced .asleep (.asking root)
  | suggest (root : Bytes32 Byte) (u : Update Byte) (home : ω)
      (hanswer : produceUpdate homeDomain (suggest home) = some u) (hfree : Unopposed produced u) :
      Advance produced (.asking root) (.pausing root u home)
  | resume (root : Bytes32 Byte) (u : Update Byte) (first : ω) :
      Advance produced (.pausing root u first) (.checking u first)
  | recheck (u check : Update Byte) (first second : ω)
      (hanswer : produceUpdate homeDomain (suggest second) = some check)
      (hsame : check.previousRoot = u.previousRoot) :
      Advance produced (.checking u first) (.signing u first second)
  | back (stage : Stage Byte ω) (hstage : ∀ signed, stage ≠ .storing signed) :
      Advance produced stage .asleep

/-- Everything that a step can do to the signatures, their records and the
producer. -/
inductive Effect (s : State Byte ω) (label : Label Byte ω) (t : State Byte ω) : Prop
  | elsewhere (hproduced : t.db.produced = s.db.produced) (hproducer : t.producer = s.producer)
      (hsigned : t.signed = s.signed)
  | advanced (hproduced : t.db.produced = s.db.produced)
      (hproducer : Advance homeDomain suggest s.db.produced s.producer t.producer)
      (hsigned : t.signed = s.signed)
  | signed (u : Update Byte) (first second : ω) (signature : List Byte)
      (hproducer : s.producer = .signing u first second) (hproduced : t.db = s.db)
      (hproducer' : t.producer = .storing ⟨u, signature⟩)
      (hsigned : t.signed = s.signed ++ [⟨⟨u, signature⟩, first, second⟩])
  | stored (signed : SignedUpdate Byte) (hproducer : s.producer = .storing signed)
      (hstore : s.db.storeProducedUpdate signed = .ok t.db) (hproducer' : t.producer = .asleep)
      (hsigned : t.signed = s.signed)
  | refused (signed : SignedUpdate Byte) (e : UpdaterConflictError Byte)
      (hproducer : s.producer = .storing signed)
      (hstore : s.db.storeProducedUpdate signed = .error e) (hproduced : t.db = s.db)
      (hproducer' : t.producer = .ended) (hsigned : t.signed = s.signed)
  | crashed (hlabel : label = .crash) (hproduced : t.db = s.db) (hproducer : t.producer = .asleep)
      (hsigned : t.signed = s.signed)

variable {homeDomain suggest} {s t : State Byte ω} {label : Label Byte ω} {db db' : DB Byte}
  {root : Bytes32 Byte} {u : Update Byte} {home first : ω} {signed : SignedUpdate Byte}

theorem answered_advance :
    Advance homeDomain suggest db.produced (.asking root)
      (answered homeDomain suggest db root home) := by
  have hback : Advance homeDomain suggest db.produced (.asking root) .asleep :=
    .back _ fun _ h => by cases h
  unfold answered
  split
  · exact hback
  · next u hanswer =>
    split_ifs
    · exact hback
    · split
      · next existing hexisting =>
        split_ifs with hne
        · exact hback
        · refine .suggest root u home hanswer fun e he => ?_
          obtain rfl := Option.some.inj (hexisting.symm.trans he)
          exact not_not.mp hne
      · next hnone =>
        refine .suggest root u home hanswer fun e he => ?_
        exact absurd (hnone.symm.trans he) (by simp)

theorem rechecked_advance :
    Advance homeDomain suggest db.produced (.checking u first)
      (rechecked homeDomain suggest u first home) := by
  have hback : Advance homeDomain suggest db.produced (.checking u first) .asleep :=
    .back _ fun _ h => by cases h
  unfold rechecked
  split
  · exact hback
  · next check hanswer =>
    split_ifs with hne
    · exact hback
    · exact .recheck u check first home hanswer (not_not.mp hne)

omit [ByteAlphabet Byte] in
/-- A signed update is recorded exactly when it conflicts with nothing. -/
theorem storeProducedUpdate_eq_ok :
    db.storeProducedUpdate signed = .ok db' ↔ Unopposed db.produced signed.update ∧
      db' = { db with
        produced := Function.update db.produced signed.update.previousRoot (some signed) } := by
  unfold DB.storeProducedUpdate DB.retrieveProducedUpdate Unopposed
  cases hexisting : db.produced signed.update.previousRoot with
  | none => simp [eq_comm]
  | some existing =>
    by_cases hsame : existing.update.newRoot = signed.update.newRoot
    · simp [hsame, eq_comm]
    · simp [hsame]

/-- **Effect of a step.** -/
theorem effect_of_step (h : (system homeDomain suggest).step s label t) :
    Effect homeDomain suggest s label t := by
  change exec homeDomain suggest label s = some t at h
  cases label with
  | index root =>
    obtain rfl := Option.some.inj h
    exact .elsewhere rfl rfl rfl
  -- The producer, up to the signature.
  | wake =>
    simp only [exec] at h
    split at h
    · next hstage =>
      obtain rfl := Option.some.inj h
      exact .advanced rfl (hstage ▸ .wake _) rfl
    · cases h
  | answer home =>
    simp only [exec] at h
    split at h
    · next root hstage =>
      obtain rfl := Option.some.inj h
      exact .advanced rfl (hstage ▸ answered_advance) rfl
    · cases h
  | resume =>
    simp only [exec] at h
    split at h
    · next root u first hstage =>
      split_ifs at h
      · obtain rfl := Option.some.inj h
        exact .advanced rfl (hstage ▸ .back _ fun _ h => by cases h) rfl
      · obtain rfl := Option.some.inj h
        exact .advanced rfl (hstage ▸ .resume root u first) rfl
    · cases h
  | recheck home =>
    simp only [exec] at h
    split at h
    · next u first hstage =>
      obtain rfl := Option.some.inj h
      exact .advanced rfl (hstage ▸ rechecked_advance) rfl
    · cases h
  | sign signature =>
    simp only [exec] at h
    split at h
    · next u first second hstage =>
      obtain rfl := Option.some.inj h
      exact .signed u first second signature hstage rfl rfl rfl
    · cases h
  -- The record is refused when another new root is there already.
  | store =>
    simp only [exec] at h
    split at h
    · next signed hstage =>
      split at h
      · next db hstore =>
        obtain rfl := Option.some.inj h
        exact .stored signed hstage hstore rfl rfl
      · next e hstore =>
        obtain rfl := Option.some.inj h
        exact .refused signed e hstage hstore rfl rfl rfl
    · cases h
  -- The submitter only reads what is recorded.
  | start root =>
    simp only [exec] at h
    split at h
    · obtain rfl := Option.some.inj h
      exact .elsewhere rfl rfl rfl
    · cases h
  | submit =>
    simp only [exec] at h
    split at h
    · split at h
      · obtain rfl := Option.some.inj h
        exact .elsewhere rfl rfl rfl
      · obtain rfl := Option.some.inj h
        exact .elsewhere rfl rfl rfl
    · cases h
  | outcome =>
    simp only [exec] at h
    split at h
    · obtain rfl := Option.some.inj h
      exact .elsewhere rfl rfl rfl
    · cases h
  | crash =>
    obtain rfl := Option.some.inj h
    exact .crashed rfl rfl rfl rfl

end Effects

/-! ### What is signed -/

section Signed

variable {homeDomain suggest} {s t : State Byte ω} {label : Label Byte ω} {u : Update Byte}

/-- The update was the first answer, and the second answer starts at the same
root. -/
def Checked (homeDomain : UInt32) (suggest : ω → Bytes32 Byte × Bytes32 Byte) (u : Update Byte)
    (first second : ω) : Prop :=
  produceUpdate homeDomain (suggest first) = some u ∧
    ∃ check, produceUpdate homeDomain (suggest second) = some check ∧
      check.previousRoot = u.previousRoot

/-- What the producer knows at each stage. -/
def Stage.Sound (homeDomain : UInt32) (suggest : ω → Bytes32 Byte × Bytes32 Byte)
    (produced : Bytes32 Byte → Option (SignedUpdate Byte)) : Stage Byte ω → Prop
  | .pausing _ u first => produceUpdate homeDomain (suggest first) = some u ∧ Unopposed produced u
  | .checking u first => produceUpdate homeDomain (suggest first) = some u ∧ Unopposed produced u
  | .signing u first second => Checked homeDomain suggest u first second ∧ Unopposed produced u
  | .storing signed => Unopposed produced signed.update
  | _ => True

/-- A producer with a signature to record does nothing else. -/
theorem Advance.ne_storing {produced : Bytes32 Byte → Option (SignedUpdate Byte)}
    {stage stage' : Stage Byte ω} (h : Advance homeDomain suggest produced stage stage')
    (signed : SignedUpdate Byte) : stage ≠ .storing signed := by
  cases h with
  | back stage hstage => exact hstage signed
  | _ => exact fun hstage => by cases hstage

theorem Advance.sound {produced : Bytes32 Byte → Option (SignedUpdate Byte)}
    {stage stage' : Stage Byte ω} (h : Advance homeDomain suggest produced stage stage')
    (hstage : stage.Sound homeDomain suggest produced) :
    stage'.Sound homeDomain suggest produced := by
  cases h with
  | wake root => trivial
  | suggest root u home hanswer hfree => exact ⟨hanswer, hfree⟩
  | resume root u first => exact hstage
  | recheck u check first second hanswer hsame =>
    exact ⟨⟨hstage.1, check, hanswer, hsame⟩, hstage.2⟩
  | back stage hstage => trivial

/-- The stage is sound, and what was signed was checked. -/
structure Sound (homeDomain : UInt32) (suggest : ω → Bytes32 Byte × Bytes32 Byte)
    (s : State Byte ω) : Prop where
  stage : s.producer.Sound homeDomain suggest s.db.produced
  checked : ∀ a ∈ s.signed, Checked homeDomain suggest a.signed.update a.first a.second

theorem Effect.sound (h : Effect homeDomain suggest s label t) (hs : Sound homeDomain suggest s) :
    Sound homeDomain suggest t := by
  cases h with
  | elsewhere hproduced hproducer hsigned =>
    refine ⟨?_, hsigned ▸ hs.checked⟩
    rw [hproduced, hproducer]
    exact hs.stage
  | advanced hproduced hproducer hsigned =>
    refine ⟨?_, hsigned ▸ hs.checked⟩
    rw [hproduced]
    exact hproducer.sound hs.stage
  -- The signature is the only step that adds to what was signed.
  | signed u first second signature hproducer hproduced hproducer' hsigned =>
    have hstage := hs.stage
    rw [hproducer] at hstage
    constructor
    · rw [hproducer', hproduced]
      exact hstage.2
    · intro a ha
      rw [hsigned] at ha
      rcases List.mem_append.mp ha with ha | ha
      · exact hs.checked a ha
      · obtain rfl := List.mem_singleton.mp ha
        exact hstage.1
  | stored signed hproducer hstore hproducer' hsigned =>
    refine ⟨?_, hsigned ▸ hs.checked⟩
    rw [hproducer']
    trivial
  | refused signed e hproducer hstore hproduced hproducer' hsigned =>
    refine ⟨?_, hsigned ▸ hs.checked⟩
    rw [hproducer']
    trivial
  | crashed hlabel hproduced hproducer hsigned =>
    refine ⟨?_, hsigned ▸ hs.checked⟩
    rw [hproducer]
    trivial

/-- **Run lemma.** In every reachable state the producer knows what its stage
says, and everything signed was checked. -/
theorem sound_of_reachable (h : (system homeDomain suggest).Reachable s) :
    Sound homeDomain suggest s := by
  refine h.invariant ?_ fun s label t _ hs hstep => (effect_of_step hstep).sound hs
  rintro s ⟨-, hproducer, -, hsigned⟩
  constructor
  · rw [hproducer]
    trivial
  · intro a ha
    rw [hsigned] at ha
    cases ha

/-! ### No equivocation -/

/-- Two updates agree when they do not start at one root and end at two. -/
def Agree (u v : Update Byte) : Prop := u.previousRoot = v.previousRoot → u.newRoot = v.newRoot

/-- The update is recorded, or the producer is about to record it. -/
def Known (s : State Byte ω) (u : Update Byte) : Prop :=
  (∃ existing, s.db.produced u.previousRoot = some existing ∧
    existing.update.newRoot = u.newRoot) ∨
  ∃ signed, s.producer = .storing signed ∧ signed.update = u

/-- Known updates agree, given what the producer knows. -/
theorem Known.agree {v : Update Byte} (hs : Sound homeDomain suggest s) (hu : Known s u)
    (hv : Known s v) : Agree u v := by
  intro hroot
  rcases hu with ⟨e, he, heu⟩ | ⟨signed, hproducer, rfl⟩
  · rcases hv with ⟨f, hf, hfv⟩ | ⟨signed, hproducer, rfl⟩
    · rw [hroot] at he
      obtain rfl := Option.some.inj (he.symm.trans hf)
      exact heu.symm.trans hfv
    · have hfree := hs.stage
      rw [hproducer] at hfree
      rw [hroot] at he
      exact heu.symm.trans (hfree e he)
  · rcases hv with ⟨f, hf, hfv⟩ | ⟨signed', hproducer', rfl⟩
    · have hfree := hs.stage
      rw [hproducer] at hfree
      rw [← hroot] at hf
      exact (hfree f hf).symm.trans hfv
    · rw [hproducer] at hproducer'
      obtain rfl := Stage.storing.inj hproducer'
      rfl

/-- What was known stays known until the process stops before recording it. -/
theorem Effect.known (h : Effect homeDomain suggest s label t) (hs : Sound homeDomain suggest s)
    (hrecord : RecordsFirst s label) (hu : Known s u) : Known t u := by
  cases h with
  | elsewhere hproduced hproducer hsigned =>
    rw [Known, hproduced, hproducer]
    exact hu
  | advanced hproduced hproducer hsigned =>
    rcases hu with hu | ⟨signed, hstoring, -⟩
    · rw [Known, hproduced]
      exact .inl hu
    · exact absurd hstoring (hproducer.ne_storing signed)
  | signed u' first second signature hproducer hproduced =>
    rcases hu with hu | ⟨signed, hstoring, -⟩
    · rw [Known, hproduced]
      exact .inl hu
    · rw [hproducer] at hstoring
      cases hstoring
  | stored signed hproducer hstore hproducer' =>
    obtain ⟨hfree, hdb⟩ := storeProducedUpdate_eq_ok.mp hstore
    have hproduced : t.db.produced =
        Function.update s.db.produced signed.update.previousRoot (some signed) := by rw [hdb]
    left
    rw [hproduced]
    -- The new record replaces one that agrees with it, so an update that was
    -- known by the old one is known by the new one.
    by_cases hroot : u.previousRoot = signed.update.previousRoot
    · refine ⟨signed, by rw [hroot, Function.update_self], ?_⟩
      rcases hu with ⟨e, he, heu⟩ | ⟨signed', hstoring, rfl⟩
      · rw [hroot] at he
        exact (hfree e he).symm.trans heu
      · rw [hproducer] at hstoring
        rw [Stage.storing.inj hstoring]
    · rcases hu with ⟨e, he, heu⟩ | ⟨signed', hstoring, rfl⟩
      · exact ⟨e, by rwa [Function.update_of_ne hroot], heu⟩
      · rw [hproducer] at hstoring
        exact absurd (congrArg (fun x => x.update.previousRoot)
          (Stage.storing.inj hstoring).symm) hroot
  | refused signed e hproducer hstore =>
    -- the producer looked for a conflict, and nobody else writes records
    have hfree := hs.stage
    rw [hproducer] at hfree
    rw [storeProducedUpdate_eq_ok.mpr ⟨hfree, rfl⟩] at hstore
    cases hstore
  | crashed hlabel hproduced hproducer hsigned =>
    rcases hu with hu | ⟨signed, hstoring, -⟩
    · rw [Known, hproduced]
      exact .inl hu
    · exact absurd hstoring (hrecord hlabel signed)

/-- A signature is either an old one or known from the start. -/
theorem Effect.mem_signed (h : Effect homeDomain suggest s label t) {a : Attestation Byte ω}
    (ha : a ∈ t.signed) : a ∈ s.signed ∨ Known t a.signed.update := by
  cases h with
  | elsewhere hproduced hproducer hsigned => exact .inl (hsigned ▸ ha)
  | advanced hproduced hproducer hsigned => exact .inl (hsigned ▸ ha)
  | signed u first second signature hproducer hproduced hproducer' hsigned =>
    rw [hsigned] at ha
    rcases List.mem_append.mp ha with ha | ha
    · exact .inl ha
    · obtain rfl := List.mem_singleton.mp ha
      exact .inr (.inr ⟨_, hproducer', rfl⟩)
  | stored signed hproducer hstore hproducer' hsigned => exact .inl (hsigned ▸ ha)
  | refused signed e hproducer hstore hproduced hproducer' hsigned => exact .inl (hsigned ▸ ha)
  | crashed hlabel hproduced hproducer hsigned => exact .inl (hsigned ▸ ha)

/-- **No equivocation.** In every run in which the process never stops between a
signature and its record, the updater key signs no two updates that start at one
root and end at two. -/
theorem never_equivocates
    (h : ((system homeDomain suggest).restrict RecordsFirst).Reachable s) :
    ∀ a ∈ s.signed, ∀ b ∈ s.signed,
      a.signed.update.previousRoot = b.signed.update.previousRoot →
        a.signed.update.newRoot = b.signed.update.newRoot := by
  have hknown : ∀ a ∈ s.signed, Known s a.signed.update := by
    refine h.invariant (P := fun s => ∀ a ∈ s.signed, Known s a.signed.update) ?_ ?_
    · rintro s ⟨-, -, -, hsigned⟩ a ha
      rw [hsigned] at ha
      cases ha
    · intro s label t hreach hknown hstep a ha
      have heffect := effect_of_step hstep.1
      rcases heffect.mem_signed ha with hold | hnew
      · exact heffect.known (sound_of_reachable hreach.of_restrict) hstep.2 (hknown a hold)
      · exact hnew
  intro a ha b hb
  exact (hknown a ha).agree (sound_of_reachable h.of_restrict) (hknown b hb)

end Signed

/-! ### A crash before the record -/

section Sample

/-- The root of the first, and of the second suggestion. -/
def sampleRoot (n : UInt8) : Bytes32 UInt8 := List.Vector.replicate 32 n

/-- A process with an empty database. -/
def sampleStart : State UInt8 (Bytes32 UInt8 × Bytes32 UInt8) :=
  ⟨⟨none, fun _ => none⟩, .asleep, .starting, []⟩

/-- The steps from the top of the loop to the signature of a suggestion. -/
def signing (root : Bytes32 UInt8) : List (Label UInt8 (Bytes32 UInt8 × Bytes32 UInt8)) :=
  [.wake, .answer (0, root), .resume, .recheck (0, root), .sign []]

/-- The ends of the updates that were signed. -/
def State.roots (s : State Byte ω) : List (Bytes32 Byte × Bytes32 Byte) :=
  s.signed.map fun a => (a.signed.update.previousRoot, a.signed.update.newRoot)

theorem initial_sampleStart : Initial sampleStart := ⟨rfl, rfl, rfl, rfl⟩

/-- A list of steps whose end has signed the given pairs. -/
theorem exists_run_of_roots {labels : List (Label UInt8 (Bytes32 UInt8 × Bytes32 UInt8))}
    {roots : List (Bytes32 UInt8 × Bytes32 UInt8)}
    (h : (labels.foldlM (fun s label => exec 1000 id label s) sampleStart).any
      (fun s => decide (s.roots = roots)) = true) :
    ∃ s, (system 1000 id).Run sampleStart labels s ∧ s.roots = roots := by
  obtain ⟨s, hrun, hroots⟩ := (Option.any_eq_true _ _).mp h
  exact ⟨s, System.run_of_foldlM (fun _ _ _ hexec => hexec) hrun, of_decide_eq_true hroots⟩

/-- The same update, signed again after it was recorded. -/
theorem never_equivocates_twice :
    ∃ s : State UInt8 (Bytes32 UInt8 × Bytes32 UInt8),
      s.roots = [(0, sampleRoot 1), (0, sampleRoot 1)] ∧
        ∀ a ∈ s.signed, ∀ b ∈ s.signed,
          a.signed.update.previousRoot = b.signed.update.previousRoot →
            a.signed.update.newRoot = b.signed.update.newRoot := by
  have hsample : (((signing (sampleRoot 1) ++ .store :: signing (sampleRoot 1))).foldlM
      (fun s label => exec 1000 id label s) sampleStart).any
        (fun s => decide (s.roots = [(0, sampleRoot 1), (0, sampleRoot 1)])) = true := by
    decide +kernel
  obtain ⟨s, hrun, hroots⟩ := exists_run_of_roots hsample
  have hquiet := hrun.restrict (C := RecordsFirst) fun label hlabel s hcrash => by
    rw [hcrash] at hlabel
    simp [signing] at hlabel
  exact ⟨s, hroots, never_equivocates ⟨sampleStart, _, initial_sampleStart, hquiet⟩⟩

/-- The process signs one update, stops before the record, and signs another one
from the same root when it is back. -/
theorem equivocates_after_crash :
    ∃ s : State UInt8 (Bytes32 UInt8 × Bytes32 UInt8), (system 1000 id).Reachable s ∧
      ∃ a ∈ s.signed, ∃ b ∈ s.signed,
        a.signed.update.previousRoot = b.signed.update.previousRoot ∧
          a.signed.update.newRoot ≠ b.signed.update.newRoot := by
  have hsample : (((signing (sampleRoot 1) ++ .crash :: signing (sampleRoot 2))).foldlM
      (fun s label => exec 1000 id label s) sampleStart).any
        (fun s => decide (s.roots = [(0, sampleRoot 1), (0, sampleRoot 2)])) = true := by
    decide +kernel
  obtain ⟨s, hrun, hroots⟩ := exists_run_of_roots hsample
  refine ⟨s, ⟨sampleStart, _, initial_sampleStart, hrun⟩, ?_⟩
  obtain ⟨a, ha, hfirst⟩ := List.mem_map.mp
    (hroots ▸ List.mem_cons_self : (0, sampleRoot 1) ∈ s.roots)
  obtain ⟨b, hb, hsecond⟩ := List.mem_map.mp
    (hroots ▸ List.mem_cons_of_mem _ (List.mem_singleton_self _) : (0, sampleRoot 2) ∈ s.roots)
  obtain ⟨hprevious, hnew⟩ := Prod.mk.inj hfirst
  obtain ⟨hprevious', hnew'⟩ := Prod.mk.inj hsecond
  refine ⟨a, ha, b, hb, hprevious.trans hprevious'.symm, ?_⟩
  rw [hnew, hnew']
  decide +kernel

end Sample

end Optics.Updater
