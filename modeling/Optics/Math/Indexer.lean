/-
# Indexing a chain in chunks

An indexer copies the events of an append-only chain into a log of writes. It goes from
a height to the next one in chunks, stores each event with some writes, and after a chunk
writes down where the chunk began. It may stop between any two writes, and then resumes
from what it wrote down. The tip of the chain that it is told may go back.

Chunks overlap and are read again after a stop, so events are stored many times; but no
event between the first height and the next one is left out. That others write to the
same log does not matter, as long as they leave the resume point alone.

The blocks of an append-only chain never change, so they are given once for all heights.
-/

import Mathlib.Data.List.Basic
import Mathlib.Data.List.Range
import Mathlib.Order.Basic

namespace Optics.Math

/-- An indexer: the chain, the heights, what storing an event writes after a log, and the
writes of an event that make it stored. Storing does not move the resume point. -/
structure Indexer (E P : Type*) where
  block : ℕ → List E
  fromHeight : ℕ
  chunkSize : ℕ
  bound : ℕ
  writes : List P → E → Option (List P)
  rows : E → List P
  mark : ℕ → P
  resume : List P → Option ℕ
  resume_nil : resume [] = none
  resume_mark : ∀ log n, n < bound → resume (log ++ [mark n]) = some n
  resume_write : ∀ log e ws p, writes log e = some ws → p ∈ ws →
    ∀ log', resume (log' ++ [p]) = resume log'
  rows_subset : ∀ log e ws, writes log e = some ws → rows e ⊆ ws

namespace Indexer

variable {E P : Type*}

/-- Where an indexer stands: stopped, at the top of its loop, or in a chunk with the writes
of the current event and the events that are still to come. -/
inductive Stage (E P : Type*)
  | down
  | top (next : ℕ)
  | storing (next high : ℕ) (pending : List P) (rest : List E)

/-- The writes of the current event that are still to come. -/
def Stage.pending : Stage E P → List P
  | .storing _ _ pending _ => pending
  | _ => []

/-- The indexer starts, is told the tip and fetches a chunk, goes on with the chunk, or
stops. -/
inductive Move
  | start
  | poll (tip : ℕ)
  | advance
  | stop

variable (I : Indexer E P)

/-- The events of the blocks from one height to below another, in order. -/
def events (low stop : ℕ) : List E := (List.range' low (stop - low)).flatMap I.block

/-- The events of the blocks between two heights, both included. -/
def fetch (low high : ℕ) : List E := I.events low (high + 1)

/-- One move. The tip is never below the first height, and heights do not overflow. -/
def step : Move → List P × Stage E P → Option (List P × Stage E P)
  | .start, (log, .down) => some (log, .top ((I.resume log).getD I.fromHeight))
  -- a tip before `next` gives a chunk without blocks, and the loop goes back with it
  | .poll tip, (log, .top next) =>
    if I.fromHeight ≤ tip ∧ next + I.chunkSize < I.bound then
      let high := min tip (next + I.chunkSize)
      some (log, .storing next high [] (I.fetch next high))
    else none
  | .advance, (log, .storing next high (p :: pending) rest) =>
    some (log ++ [p], .storing next high pending rest)
  | .advance, (log, .storing next high [] (e :: rest)) =>
    match I.writes log e with
    | some ws => some (log, .storing next high ws rest)
    -- an event that cannot be stored ends the task
    | none => some (log, .down)
  -- what is written down is where the chunk began, not where it ended
  | .advance, (log, .storing next high [] []) => some (log ++ [I.mark next], .top high)
  | .stop, (log, _) => some (log, .down)
  | _, _ => none

variable {I} {log log' : List P} {stage stage' : Stage E P} {next low mid high stop n : ℕ}
  {e : E} {p : P}

theorem mem_events : e ∈ I.events low stop ↔ ∃ b, low ≤ b ∧ b < stop ∧ e ∈ I.block b := by
  rw [events, List.mem_flatMap]
  constructor
  · rintro ⟨b, hb, he⟩
    rw [List.mem_range'_1] at hb
    exact ⟨b, hb.1, by omega, he⟩
  · rintro ⟨b, hlow, hb, he⟩
    exact ⟨b, List.mem_range'_1.mpr ⟨hlow, by omega⟩, he⟩

theorem events_append (hlow : low ≤ mid) (hstop : mid ≤ stop) :
    I.events low stop = I.events low mid ++ I.events mid stop := by
  have hsplit : stop - low = (mid - low) + (stop - mid) := by omega
  have hmid : low + (mid - low) = mid := by omega
  rw [events, events, events, ← List.flatMap_append, hsplit, ← List.range'_append_1, hmid]

/-- More blocks have more events. -/
theorem events_isPrefix (h : mid ≤ stop) : I.events low mid <+: I.events low stop := by
  rcases Nat.lt_or_ge mid low with hlow | hlow
  · rw [events, Nat.sub_eq_zero_of_le hlow.le]
    exact List.nil_prefix
  · rw [events_append hlow h]
    exact List.prefix_append _ _

theorem events_eq_nil (h : stop ≤ low) : I.events low stop = [] := by
  rw [events, Nat.sub_eq_zero_of_le h]
  rfl

theorem mem_fetch : e ∈ I.fetch low high ↔ ∃ b, low ≤ b ∧ b ≤ high ∧ e ∈ I.block b := by
  simp only [fetch, mem_events, Nat.lt_succ_iff]

variable (I) in
/-- A write that storing some event of the chain makes. -/
def Written (p : P) : Prop :=
  ∃ b e log ws, I.fromHeight ≤ b ∧ e ∈ I.block b ∧ I.writes log e = some ws ∧ p ∈ ws

variable (I) in
/-- A write of the indexer itself. -/
def Own (p : P) : Prop := I.Written p ∨ ∃ n, p = I.mark n

theorem Written.resume_eq (h : I.Written p) (log : List P) :
    I.resume (log ++ [p]) = I.resume log := by
  obtain ⟨-, e, log', ws, -, -, hwrites, hp⟩ := h
  exact I.resume_write log' e ws p hwrites hp log

/-! ### The effect of a move -/

variable (I) in
/-- Everything that a move can do. -/
inductive Effect : List P → Stage E P → List P → Stage E P → Prop
  | stopped (log : List P) (stage : Stage E P) : Effect log stage log .down
  | started (log : List P) : Effect log .down log (.top ((I.resume log).getD I.fromHeight))
  | polled (log : List P) (next high tip : ℕ) (hhigh : high = min tip (next + I.chunkSize))
      (htip : I.fromHeight ≤ tip) (hbound : next + I.chunkSize < I.bound) :
      Effect log (.top next) log (.storing next high [] (I.fetch next high))
  | wrote (log : List P) (next high : ℕ) (p : P) (pending : List P) (rest : List E) :
      Effect log (.storing next high (p :: pending) rest) (log ++ [p])
        (.storing next high pending rest)
  | began (log : List P) (next high : ℕ) (e : E) (rest : List E) (ws : List P)
      (hwrites : I.writes log e = some ws) :
      Effect log (.storing next high [] (e :: rest)) log (.storing next high ws rest)
  | finished (log : List P) (next high : ℕ) :
      Effect log (.storing next high [] []) (log ++ [I.mark next]) (.top high)

theorem effect_of_step {move : Move}
    (h : I.step move (log, stage) = some (log', stage')) : I.Effect log stage log' stage' := by
  cases move with
  | start =>
    cases stage with
    | down =>
      obtain ⟨rfl, rfl⟩ := Prod.mk.inj (Option.some.inj h)
      exact .started _
    | top next => cases h
    | storing next high pending rest => cases h
  | poll tip =>
    cases stage with
    | down => cases h
    | top next =>
      rw [Indexer.step] at h
      split_ifs at h with hguard
      obtain ⟨rfl, rfl⟩ := Prod.mk.inj (Option.some.inj h)
      exact .polled _ next _ tip rfl hguard.1 hguard.2
    | storing next high pending rest => cases h
  | advance =>
    cases stage with
    | down => cases h
    | top next => cases h
    | storing next high pending rest =>
      cases pending with
      | cons p pending =>
        obtain ⟨rfl, rfl⟩ := Prod.mk.inj (Option.some.inj h)
        exact .wrote _ next high p pending rest
      | nil =>
        cases rest with
        | nil =>
          obtain ⟨rfl, rfl⟩ := Prod.mk.inj (Option.some.inj h)
          exact .finished _ next high
        | cons e rest =>
          rw [Indexer.step] at h
          cases hwrites : I.writes log e with
          | none =>
            rw [hwrites] at h
            obtain ⟨rfl, rfl⟩ := Prod.mk.inj (Option.some.inj h)
            exact .stopped _ _
          | some ws =>
            rw [hwrites] at h
            obtain ⟨rfl, rfl⟩ := Prod.mk.inj (Option.some.inj h)
            exact .began _ next high e rest ws hwrites
  | stop =>
    obtain ⟨rfl, rfl⟩ := Prod.mk.inj (Option.some.inj h)
    exact .stopped _ _

/-- An indexer is down after a stop, or when it cannot store the event that it has come to. -/
theorem down_of_step {move : Move} (h : I.step move (log, stage) = some (log', .down)) :
    move = .stop ∨ stage.pending = [] := by
  cases move with
  | stop => exact .inl rfl
  | start =>
    cases stage with
    | storing next high pending rest => cases h
    | _ => exact .inr rfl
  | poll tip =>
    cases stage with
    | storing next high pending rest => cases h
    | _ => exact .inr rfl
  | advance =>
    cases stage with
    | storing next high pending rest =>
      cases pending with
      | nil => exact .inr rfl
      | cons p pending => cases h
    | _ => exact .inr rfl

/-! ### What is stored -/

variable (I) in
/-- All rows of the event are in the log. -/
def Recorded (log : List P) (e : E) : Prop := ∀ r ∈ I.rows e, r ∈ log

variable (I) in
/-- All events from the first height to below another are stored. -/
def Covered (log : List P) (n : ℕ) : Prop :=
  ∀ b, I.fromHeight ≤ b → b < n → ∀ e ∈ I.block b, I.Recorded log e

theorem Recorded.append (h : I.Recorded log e) (more : List P) : I.Recorded (log ++ more) e :=
  fun r hr => List.mem_append_left more (h r hr)

theorem Covered.append (h : I.Covered log n) (more : List P) : I.Covered (log ++ more) n :=
  fun b hlow hb e he => (h b hlow hb e he).append more

/-- What is stored or about to be stays so, unless the indexer stops. -/
theorem Recorded.effect (h : I.Recorded (log ++ stage.pending) e)
    (heffect : I.Effect log stage log' stage') (hstop : stage' = .down → I.Recorded log e) :
    I.Recorded (log' ++ stage'.pending) e := by
  cases heffect with
  | stopped => exact (hstop rfl).append _
  | started => exact h
  | polled => exact h
  | wrote next high p pending rest =>
    have hsame : log ++ p :: pending = log ++ [p] ++ pending := by simp
    exact hsame ▸ h
  | began next high e' rest ws hwrites =>
    have hlog : I.Recorded log e := (List.append_nil log) ▸ h
    exact hlog.append ws
  | finished next high =>
    have hlog : I.Recorded log e := (List.append_nil log) ▸ h
    exact (hlog.append [I.mark next]).append []

theorem covered_fromHeight : I.Covered log I.fromHeight :=
  fun _ hlow hb _ _ => absurd hb (Nat.not_lt.mpr hlow)

theorem Covered.mono (h : I.Covered log n) (hle : next ≤ n) : I.Covered log next :=
  fun b hlow hb => h b hlow (hb.trans_le hle)

/-! ### The invariant -/

variable (I) in
/-- A height to go on from: all before it is stored, and so is the height itself unless no
chunk was ever finished. -/
structure Position (log : List P) (next : ℕ) : Prop where
  le : I.fromHeight ≤ next
  before : I.Covered log next
  here : (I.resume log = none ∧ next = I.fromHeight) ∨ I.Covered log (next + 1)

variable (I) in
/-- What holds at each stage. In a chunk the last of the fetched events are still to come,
and each row of the others is stored or about to be. -/
def StageSound (log : List P) : Stage E P → Prop
  | .down => True
  | .top next => I.Position log next
  | .storing next high pending rest =>
    I.Position log next ∧ next < I.bound ∧ I.fromHeight ≤ high ∧
    (∃ done, I.fetch next high = done ++ rest ∧
      ∀ e ∈ done, ∀ r ∈ I.rows e, r ∈ log ∨ r ∈ pending) ∧
    ∀ p ∈ pending, I.Written p

variable (I) in
/-- The resume point is covered, and the stage is sound. -/
structure Sound (log : List P) (stage : Stage E P) : Prop where
  resumed : ∀ n, I.resume log = some n → I.fromHeight ≤ n ∧ I.Covered log (n + 1)
  stage : I.StageSound log stage

theorem Position.append (h : I.Position log next) (hp : I.resume (log ++ [p]) = I.resume log) :
    I.Position (log ++ [p]) next where
  le := h.le
  before := h.before.append [p]
  here := by
    rw [hp]
    exact h.here.imp_right fun hcovered => hcovered.append [p]

theorem sound_init : I.Sound [] .down := ⟨fun n hn => by simp [I.resume_nil] at hn, trivial⟩

/-- A write that leaves the resume point alone keeps the invariant, whoever makes it. -/
theorem Sound.write (h : I.Sound log stage) (hp : I.resume (log ++ [p]) = I.resume log) :
    I.Sound (log ++ [p]) stage := by
  refine ⟨fun n hn => ?_, ?_⟩
  · rw [hp] at hn
    obtain ⟨hle, hcovered⟩ := h.resumed n hn
    exact ⟨hle, hcovered.append [p]⟩
  · cases stage with
    | down => trivial
    | top next => exact Position.append h.stage hp
    | storing next high pending rest =>
      obtain ⟨hposition, hbound, hhigh, ⟨done, hfetched, hdone⟩, hpending⟩ := h.stage
      refine ⟨hposition.append hp, hbound, hhigh, ⟨done, hfetched, fun e he r hr => ?_⟩, hpending⟩
      exact (hdone e he r hr).imp_left fun hmem => List.mem_append_left [p] hmem

/-- At the end of a chunk all is stored, up to its end and at its beginning. -/
theorem covered_of_fetched (hposition : I.Position log next) (hhigh : I.fromHeight ≤ high)
    (hfetched : ∀ e ∈ I.fetch next high, I.Recorded log e) :
    I.Covered log (high + 1) ∧ I.Covered log (next + 1) := by
  have hchunk : I.Covered log (high + 1) := by
    intro b hlow hb e he
    rcases Nat.lt_or_ge b next with hbefore | hin
    · exact hposition.before b hlow hbefore e he
    · exact hfetched e (mem_fetch.mpr ⟨b, hin, Nat.lt_succ_iff.mp hb, he⟩)
  refine ⟨hchunk, ?_⟩
  rcases Nat.lt_or_ge high next with hback | hforth
  -- the tip went back, which it cannot do before a chunk was finished
  · obtain ⟨-, heq⟩ | hcovered := hposition.here
    · omega
    · exact hcovered
  · exact hchunk.mono (by omega)

theorem Position.mark (hposition : I.Position log next) (hbound : next < I.bound)
    (hhigh : I.fromHeight ≤ high) (hfetched : ∀ e ∈ I.fetch next high, I.Recorded log e) :
    I.Sound (log ++ [I.mark next]) (.top high) := by
  obtain ⟨hchunk, hhere⟩ := covered_of_fetched hposition hhigh hfetched
  have hmark := I.resume_mark log next hbound
  refine ⟨fun n hn => ?_, ⟨hhigh, ?_, .inr (hchunk.append _)⟩⟩
  · obtain rfl := Option.some.inj (hmark.symm.trans hn)
    exact ⟨hposition.le, hhere.append _⟩
  · exact (hchunk.mono (Nat.le_succ high)).append _

/-- Where the indexer starts: at the first height, or where the resume point is. -/
theorem Sound.start (h : I.Sound log stage) :
    I.Position log ((I.resume log).getD I.fromHeight) := by
  cases hresume : I.resume log with
  | none => exact ⟨le_rfl, covered_fromHeight, .inl ⟨hresume, rfl⟩⟩
  | some n =>
    obtain ⟨hle, hcovered⟩ := h.resumed n hresume
    exact ⟨hle, hcovered.mono (Nat.le_succ n), .inr hcovered⟩

/-- The write moves from what is about to be stored to what is. -/
theorem Sound.wrote {pending : List P} {rest : List E}
    (h : I.Sound log (.storing next high (p :: pending) rest)) :
    I.Sound (log ++ [p]) (.storing next high pending rest) := by
  obtain ⟨hposition, hbound, hhigh, ⟨done, hfetched, hdone⟩, hpending⟩ := h.stage
  have hp := (hpending p List.mem_cons_self).resume_eq log
  refine ⟨(h.write hp).resumed, hposition.append hp, hbound, hhigh, ⟨done, hfetched, ?_⟩, ?_⟩
  · intro e he r hr
    -- to be in the log with `p` or still to come is to be in the log or to come with `p`
    rw [List.mem_append, List.mem_singleton, or_assoc, ← List.mem_cons]
    exact hdone e he r hr
  · exact fun q hq => hpending q (List.mem_cons_of_mem p hq)

theorem recorded_of_done {done : List E} (h : ∀ e ∈ done, ∀ r ∈ I.rows e, r ∈ log ∨ r ∈ []) :
    ∀ e ∈ done, I.Recorded log e :=
  fun e he r hr => (h e he r hr).resolve_right List.not_mem_nil

theorem Sound.began {rest : List E} {ws : List P}
    (h : I.Sound log (.storing next high [] (e :: rest))) (hwrites : I.writes log e = some ws) :
    I.Sound log (.storing next high ws rest) := by
  obtain ⟨hposition, hbound, hhigh, ⟨done, hfetched, hdone⟩, -⟩ := h.stage
  -- the event is of the chunk, so of a block that the indexer may see
  have he : e ∈ I.fetch next high := by simp [hfetched]
  obtain ⟨b, hb, -, hblock⟩ := mem_fetch.mp he
  refine ⟨h.resumed, hposition, hbound, hhigh, ⟨done ++ [e], by simp [hfetched], ?_⟩,
    fun p hp => ⟨b, e, _, ws, hposition.le.trans hb, hblock, hwrites, hp⟩⟩
  intro e' he' r hr
  rcases List.mem_append.mp he' with hbefore | hnow
  · exact .inl (recorded_of_done hdone e' hbefore r hr)
  · obtain rfl := List.mem_singleton.mp hnow
    exact .inr (I.rows_subset _ _ ws hwrites hr)

theorem Sound.finished (h : I.Sound log (.storing next high [] [])) :
    I.Sound (log ++ [I.mark next]) (.top high) := by
  obtain ⟨hposition, hbound, hhigh, ⟨done, hfetched, hdone⟩, -⟩ := h.stage
  rw [List.append_nil] at hfetched
  exact hposition.mark hbound hhigh (hfetched ▸ recorded_of_done hdone)

/-- **Step.** Every move of the indexer keeps the invariant. -/
theorem Sound.effect (h : I.Sound log stage) (heffect : I.Effect log stage log' stage') :
    I.Sound log' stage' := by
  cases heffect with
  | stopped => exact ⟨h.resumed, trivial⟩
  | started => exact ⟨h.resumed, h.start⟩
  | polled next high tip hhigh htip hbound =>
    have hle := Position.le h.stage
    refine ⟨h.resumed, h.stage, by omega, ?_, ⟨[], rfl, by simp⟩, by simp⟩
    exact hhigh ▸ le_min htip (by omega)
  | wrote => exact h.wrote
  | began next high e rest ws hwrites => exact h.began hwrites
  | finished => exact h.finished

/-- All that a move writes. -/
theorem Sound.log_effect (h : I.Sound log stage) (heffect : I.Effect log stage log' stage') :
    log' = log ∨ ∃ p, log' = log ++ [p] ∧ I.Own p := by
  cases heffect with
  | stopped => exact .inl rfl
  | started => exact .inl rfl
  | polled => exact .inl rfl
  | wrote next high p pending rest =>
    obtain ⟨-, -, -, -, hpending⟩ := h.stage
    exact .inr ⟨p, rfl, .inl (hpending p List.mem_cons_self)⟩
  | began => exact .inl rfl
  | finished next high => exact .inr ⟨I.mark next, rfl, .inr ⟨next, rfl⟩⟩

/-- What is said of all writes is kept by a step that makes no other. -/
theorem forall_mem_of_log {Q : P → Prop} (h : ∀ p ∈ log, Q p)
    (hlog : log' = log ∨ ∃ p, log' = log ++ [p] ∧ Q p) : ∀ p ∈ log', Q p := by
  obtain rfl | ⟨p, rfl, hp⟩ := hlog
  · exact h
  · intro q hq
    rcases List.mem_append.mp hq with hold | hnew
    · exact h q hold
    · exact List.mem_singleton.mp hnew ▸ hp

end Indexer

end Optics.Math
