/-
# Home among other contracts is the model of Home

Everything that can be seen of Home in a world of other contracts is seen in a run of the
model of Home alone, where the updater manager only reconfigures. The two differ in the
owner, which the model keeps. While the manager runs, Home has already failed, so what is
seen of it at that moment is the model after the call.

So what holds of every history of the model holds in every world: a failed Home stays
failed, its updates lead from root to root of its messages, and each message names the
account that sent it.
-/

import Optics.Core.Failed
import Optics.Core.HomeMachine
import Optics.Core.MessageIdentity
import Optics.Core.UpdaterManager

namespace Optics.HomeMachine

open Optics.Solidity Optics.Common Optics.Math.Calls Optics.Math.Transition
open Optics.Home (History)

variable {Byte : Type} {κ ε : Type} [ByteAlphabet Byte] [DecidableEq Byte] {K : Crypto Byte}
  {abi : Abi Byte} {h : Address Byte}

/-! ### What is seen of Home -/

/-- The event of Home that an entry records. -/
def homeEvent? (h : Address Byte) : LogEntry Byte ε → Option (Home.Event Byte)
  | .emitted a (.home event) => if a = h then some event else none
  | _ => none

/-- The events that Home emitted according to the record, oldest first. -/
def homeEvents (h : Address Byte) (log : List (LogEntry Byte ε)) : List (Home.Event Byte) :=
  log.filterMap (homeEvent? h)

/-- The account at the address looks like a Home with a history: the same storage but for the
owner, the same updates and dispatches, and each dispatch was called by its sender. -/
structure Matches (abi : Abi Byte) (h : Address Byte) (history : History Byte)
    (storage : Storage Byte κ) (log : List (LogEntry Byte ε)) : Prop where
  initialized : storage._initialized = true
  initializing : storage._initializing = false
  home : ∃ owner, storage.home = { history.home with owner := owner }
  updates : Home.updates (homeEvents h log) = Home.updates history.log
  dispatches : Home.dispatches (homeEvents h log) = Home.dispatches history.log
  called : ∀ d ∈ history.dispatched, ∃ data, .called d.sender h data ∈ log ∧
    abi.decode data = some (.dispatch d.destination d.recipient d.body)

/-- What the record says of Home: the `Dispatch` events are indexed without gaps, each after a
call of `dispatch` by the account that its message names, and the updates lead from zero to
the committed root along roots of these messages. -/
structure Recorded (K : Crypto Byte) (abi : Abi Byte) (h : Address Byte) (w : World Byte κ ε) :
    Prop where
  leafIndexes : (Home.dispatches (homeEvents h w.chain.log)).map Home.DispatchEvent.leafIndex =
    List.range (Home.dispatches (homeEvents h w.chain.log)).length
  called : ∀ e ∈ Home.dispatches (homeEvents h w.chain.log), ∃ d : Home.Dispatched Byte,
    e.Announces K (w.chain.storage h).home.localDomain d ∧
      ∃ data, .called d.sender h data ∈ w.chain.log ∧
        abi.decode data = some (.dispatch d.destination d.recipient d.body)
  chain : UpdateChain 0 (Home.updates (homeEvents h w.chain.log))
    (w.chain.storage h).home.committedRoot
  roots : ∀ u ∈ Home.updates (homeEvents h w.chain.log), Home.IsPrefixRoot K
    ((Home.dispatches (homeEvents h w.chain.log)).map Home.DispatchEvent.messageHash) u.newRoot

/-- What is seen of Home continues a history. -/
def Follows (K : Crypto Byte) (abi : Abi Byte) (h : Address Byte) (start : History Byte)
    (storage : Storage Byte κ) (log : List (LogEntry Byte ε)) : Prop :=
  ∃ labels history, (Home.system K).Run start labels history ∧ Matches abi h history storage log

section Log

omit [ByteAlphabet Byte]

variable {log : List (LogEntry Byte ε)} {entry : LogEntry Byte ε}

theorem homeEvents_append (log entries : List (LogEntry Byte ε)) :
    homeEvents h (log ++ entries) = homeEvents h log ++ homeEvents h entries :=
  List.filterMap_append

theorem homeEvents_concat_of_none (hentry : homeEvent? h entry = none) :
    homeEvents h (log ++ [entry]) = homeEvents h log := by
  simp [homeEvents, hentry]

theorem homeEvents_emitted (events : List (Home.Event Byte)) :
    homeEvents h (events.map fun e => (.emitted h (.home e) : LogEntry Byte ε)) = events := by
  induction events with
  | nil => rfl
  | cons e rest ih =>
    have hsome : homeEvent? h (.emitted h (.home e) : LogEntry Byte ε) = some e := if_pos rfl
    rw [List.map_cons, homeEvents, List.filterMap_cons_some hsome]
    exact congrArg _ ih

theorem homeEvent?_of_foreign (hentry : Entry.Foreign h entry) : homeEvent? h entry = none := by
  unfold homeEvent?
  split
  · exact if_neg hentry
  · rfl

theorem homeEvents_of_foreign {entries : List (LogEntry Byte ε)}
    (hforeign : ∀ entry ∈ entries, Entry.Foreign h entry) : homeEvents h entries = [] :=
  List.filterMap_eq_nil_iff.mpr fun entry hentry => homeEvent?_of_foreign (hforeign entry hentry)

end Log

section Follow

variable {start history : History Byte} {storage : Storage Byte κ} {log : List (LogEntry Byte ε)}

namespace Matches

omit [ByteAlphabet Byte] in
/-- Entries without a dispatch or an update of Home make no difference. -/
theorem append (hm : Matches abi h history storage log) {entries : List (LogEntry Byte ε)}
    (hquiet : ∀ e ∈ homeEvents h entries, e.Administrative) :
    Matches abi h history storage (log ++ entries) where
  initialized := hm.initialized
  initializing := hm.initializing
  home := hm.home
  updates := by
    rw [homeEvents_append, Home.updates_append, Home.updates_eq_nil hquiet, List.append_nil]
    exact hm.updates
  dispatches := by
    rw [homeEvents_append, Home.dispatches_append, Home.dispatches_eq_nil hquiet, List.append_nil]
    exact hm.dispatches
  called d hd := by
    obtain ⟨data, hmem, hdecode⟩ := hm.called d hd
    exact ⟨data, List.mem_append_left _ hmem, hdecode⟩

end Matches

namespace Follows

theorem append (hf : Follows K abi h start storage log) {entries : List (LogEntry Byte ε)}
    (hquiet : ∀ e ∈ homeEvents h entries, e.Administrative) :
    Follows K abi h start storage (log ++ entries) := by
  obtain ⟨labels, history, hrun, hm⟩ := hf
  exact ⟨labels, history, hrun, hm.append hquiet⟩

/-- An administrative event of Home. -/
theorem emitted (hf : Follows K abi h start storage log) {e : Home.Event Byte}
    (he : e.Administrative) :
    Follows K abi h start storage (log ++ [.emitted h (.home e)]) := by
  refine hf.append fun e' he' => ?_
  have hevents : homeEvents h [(.emitted h (.home e) : LogEntry Byte ε)] = [e] :=
    homeEvents_emitted [e]
  rw [hevents, List.mem_singleton] at he'
  exact he' ▸ he

/-- An entry that is no event of Home. -/
theorem concat (hf : Follows K abi h start storage log) {entry : LogEntry Byte ε}
    (hentry : homeEvent? h entry = none) : Follows K abi h start storage (log ++ [entry]) := by
  refine hf.append fun e he => ?_
  simp [homeEvents, hentry] at he

/-- A new owner is not seen. -/
theorem owned (hf : Follows K abi h start storage log) (newOwner : Address Byte) :
    Follows K abi h start { storage with home := { storage.home with owner := newOwner } } log := by
  obtain ⟨labels, history, hrun, hm⟩ := hf
  obtain ⟨owner, hhome⟩ := hm.home
  exact ⟨labels, history, hrun, hm.initialized, hm.initializing, ⟨newOwner, by rw [hhome]⟩,
    hm.updates, hm.dispatches, hm.called⟩

end Follows

/-- A call of the model that comes to the same storage continues the history. -/
theorem Matches.exec {labels : List (Home.Context Byte × Home.Call Byte)}
    (hrun : (Home.system K).Run start labels history) (hm : Matches abi h history storage log)
    {ctx : Home.Context Byte} (call : Home.Call Byte) (home : Home Byte) {home' : Home Byte}
    {events : List (Home.Event Byte)} (emitted : List (Home.Event Byte))
    (hexec : Home.exec K ctx call history.home = .ok (home', events))
    (hhome : ∃ owner, home = { home' with owner := owner })
    (hupdates : Home.updates emitted = Home.updates events)
    (hdispatches : Home.dispatches emitted = Home.dispatches events)
    (hcalled : ∀ d ∈ call.dispatched ctx history.home, ∃ data, .called d.sender h data ∈ log ∧
      abi.decode data = some (.dispatch d.destination d.recipient d.body)) :
    Follows K abi h start { storage with home := home }
      (log ++ emitted.map fun e => .emitted h (.home e)) := by
  refine ⟨_, _, hrun.tail (History.step_of_exec hexec), hm.initialized, hm.initializing, hhome,
    ?_, ?_, ?_⟩
  · rw [homeEvents_append, homeEvents_emitted, Home.updates_append, Home.updates_append,
      hm.updates, hupdates]
  · rw [homeEvents_append, homeEvents_emitted, Home.dispatches_append, Home.dispatches_append,
      hm.dispatches, hdispatches]
  · intro d hd
    rcases List.mem_append.mp hd with hold | hnew
    · obtain ⟨data, hmem, hdecode⟩ := hm.called d hold
      exact ⟨data, List.mem_append_left _ hmem, hdecode⟩
    · obtain ⟨data, hmem, hdecode⟩ := hcalled d hnew
      exact ⟨data, List.mem_append_left _ hmem, hdecode⟩

end Follow

/-! ### The model of Home does not read the owner -/

section Owner

variable {home home' : Home Byte} {events : List (Home.Event Byte)} {owner : Address Byte}

theorem dispatch_owner {ctx : Home.Context Byte} {destination : UInt32} {recipient : Bytes32 Byte}
    {body : List Byte}
    (hdispatch : Home.dispatch K ctx destination recipient body { home with owner := owner } =
      .ok (home', events)) :
    Home.dispatch K ctx destination recipient body home =
      .ok ({ home' with owner := home.owner }, events) := by
  rw [Home.dispatch, Home.notFailed, require_bind_eq_ok, require_bind_eq_ok, bind_eq_ok]
    at hdispatch ⊢
  obtain ⟨hstate, hbody, tree, hinsert, hrest⟩ := hdispatch
  obtain ⟨rfl, rfl⟩ := Prod.mk.inj (Except.ok.inj hrest)
  exact ⟨hstate, hbody, tree, hinsert, rfl⟩

/-- The evidence of fraud, shown to a manager that makes no calls back. -/
theorem exec_of_fraud_alone (ctx : Home.Context Byte) {call : Home.Call Byte}
    (hslash : ctx.slashUpdater = .returns [])
    (hstate : home.state ≠ .Failed) (hfraud : Home.Fraud K home call) :
    ∃ events, Home.exec K ctx call home = .ok ({ home with state := .Failed }, events) ∧
      ∀ e ∈ events, e.Administrative := by
  obtain ⟨e, hexec⟩ := Home.exec_of_fraud ctx hstate hfraud
  have hfail : Home._fail ctx home =
      .ok ({ home with state := .Failed }, [.UpdaterSlashed home.updater ctx.sender]) := by
    rw [Home._fail, hslash]
    rfl
  rw [hfail, ok_bind] at hexec
  refine ⟨_, hexec, ?_⟩
  generalize { home with state := .Failed } = home' at hexec
  -- The other effects come with at most one event.
  cases Home.effect_of_exec hexec with
  | slashed _ _ _ _ hevents => exact hevents

end Owner

/-! ### Every function keeps to the model -/

section Keeping

variable {start history : History Byte} {storage : Storage Byte κ} {log : List (LogEntry Byte ε)}
  {codeAt : Address Byte → Bool} {sender : Address Byte}
  {I : Storage Byte κ → List (LogEntry Byte ε) → Prop}

omit [ByteAlphabet Byte] [DecidableEq Byte] in
theorem keeps_orRevert {τ : Type} {result : Except Revert τ} {next : τ → ContractCode Byte κ ε}
    (hnext : ∀ value, result = .ok value → (next value).Keeps h I codeAt storage log) :
    (orRevert abi result next).Keeps h I codeAt storage log := by
  cases result with
  | ok value => exact hnext value rfl
  | error e => rintro ⟨⟩

omit [ByteAlphabet Byte] [DecidableEq Byte] in
theorem keeps_emitAll {events : List (Home.Event Byte)} {next : ContractCode Byte κ ε}
    (hnext : next.Keeps h I codeAt storage (log ++ events.map fun e => .emitted h (.home e))) :
    (emitAll events next).Keeps h I codeAt storage log := by
  induction events generalizing log with
  | nil => rwa [List.map_nil, List.append_nil] at hnext
  | cons e rest ih =>
    refine ih ?_
    rwa [List.append_assoc]

omit [ByteAlphabet Byte] [DecidableEq Byte] in
theorem keeps_commit {outcome : Except Revert (Home Byte × List (Home.Event Byte))}
    (hnext : ∀ home events, outcome = .ok (home, events) →
      I { storage with home := home } (log ++ events.map fun e => .emitted h (.home e))) :
    (commit abi storage outcome).Keeps h I codeAt storage log := by
  refine keeps_orRevert fun ⟨home, events⟩ houtcome => ?_
  exact keeps_emitAll fun _ => hnext home events houtcome

/-- After `_fail` the manager may have called back; what is left to do keeps to the model. -/
theorem keeps_fail {next : ContractCode Byte κ ε}
    (hfailed : Follows K abi h start { storage with home := { storage.home with state := .Failed } }
      log)
    (hnext : ∀ storage log, Follows K abi h start storage log →
      next.Keeps h (Follows K abi h start) codeAt storage log) :
    (_fail abi sender next).Keeps h (Follows K abi h start) codeAt storage log := by
  change (if codeAt storage.home.updaterManager then _ else _ : ContractCode Byte κ ε).Keeps
    h (Follows K abi h start) codeAt _ log
  split
  · refine ⟨hfailed, hfailed.concat rfl, fun returned => ?_, fun returned storage' log' hf _ => ?_⟩
    · rintro ⟨⟩
    · exact hnext _ _ (hf.emitted trivial)
  · rintro ⟨⟩

/-- The model fails on the same evidence. -/
theorem Matches.failed {labels : List (Home.Context Byte × Home.Call Byte)}
    (hrun : (Home.system K).Run start labels history) (hm : Matches abi h history storage log)
    {call : Home.Call Byte} (hstate : history.home.state ≠ .Failed)
    (hfraud : Home.Fraud K history.home call) :
    Follows K abi h start { storage with home := { storage.home with state := .Failed } } log := by
  obtain ⟨events, hexec, hquiet⟩ :=
    exec_of_fraud_alone ⟨0, fun _ => false, .returns []⟩ rfl hstate hfraud
  obtain ⟨owner, hhome⟩ := hm.home
  have hf := hm.exec hrun call { storage.home with state := .Failed } [] hexec
    ⟨owner, by rw [hhome]⟩ (Home.updates_eq_nil hquiet).symm (Home.dispatches_eq_nil hquiet).symm
    (by rw [hfraud.dispatched_eq_nil]; exact fun d hd => absurd hd (List.not_mem_nil))
  rwa [List.map_nil, List.append_nil] at hf

theorem keeps_improperUpdate {labels : List (Home.Context Byte × Home.Call Byte)}
    (hrun : (Home.system K).Run start labels history) (hm : Matches abi h history storage log)
    {u : SignedUpdate Byte} {next : Bool → ContractCode Byte κ ε}
    (hproper : history.home.state ≠ .Failed →
      IsSignedBy K history.home.localDomain history.home.updater u →
      u.oldRoot = history.home.committedRoot → history.home.queue.contains u.newRoot = true →
      (next false).Keeps h (Follows K abi h start) codeAt storage log)
    (himproper : ∀ storage log, Follows K abi h start storage log →
      (next true).Keeps h (Follows K abi h start) codeAt storage log) :
    (improperUpdate K abi sender u next).Keeps h (Follows K abi h start) codeAt storage log := by
  obtain ⟨owner, hhome⟩ := hm.home
  refine keeps_orRevert fun _ hnotFailed => keeps_orRevert fun signed hsigned =>
    keeps_orRevert fun _ htrue => keeps_orRevert fun _ hcurrent => ?_
  rw [hhome] at hnotFailed hsigned hcurrent
  rw [require_eq_ok.mp htrue] at hsigned
  have hstate := require_eq_ok.mp hnotFailed
  have hsigned := _isUpdaterSignature_eq_true.mp hsigned
  have hcurrent := require_eq_ok.mp hcurrent
  have hqueue : storage.home.queue = history.home.queue := by rw [hhome]
  split
  next hqueued =>
    rw [hqueue] at hqueued
    exact hproper hstate hsigned hcurrent hqueued
  next habsent =>
    rw [hqueue, Bool.not_eq_true] at habsent
    refine keeps_fail (hm.failed hrun hstate
      (.improper u (.inr rfl) hsigned hcurrent habsent)) fun storage log hf => ?_
    exact himproper _ _ (hf.emitted trivial)

theorem keeps_update (hf : Follows K abi h start storage log) {u : SignedUpdate Byte} :
    (update K abi sender u).Keeps h (Follows K abi h start) codeAt storage log := by
  obtain ⟨labels, history, hrun, hm⟩ := hf
  refine keeps_orRevert fun _ _ => keeps_improperUpdate hrun hm ?_ fun _ _ hf _ => hf
  intro hstate hsigned hcurrent hqueued
  refine keeps_orRevert fun queue hloop => ?_
  obtain ⟨owner, hhome⟩ := hm.home
  rw [hhome] at hloop
  obtain ⟨oldRoot, newRoot, signature⟩ := u
  obtain rfl : oldRoot = history.home.committedRoot := hcurrent
  have hexec : Home.exec K ⟨0, fun _ => false, .reverts⟩
      (.update ⟨history.home.committedRoot, newRoot, signature⟩) history.home = .ok
        ({ history.home with queue := queue, committedRoot := newRoot },
          [.Update history.home.localDomain ⟨history.home.committedRoot, newRoot, signature⟩]) :=
    Home.update_of_queued hstate hsigned hqueued hloop
  intro _
  have hdomain : storage.home.localDomain = history.home.localDomain := by rw [hhome]
  rw [hdomain]
  exact hm.exec hrun (.update ⟨_, newRoot, signature⟩) _ [_] hexec ⟨owner, by rw [hhome]⟩ rfl rfl
    fun d hd => absurd hd List.not_mem_nil

theorem keeps_doubleUpdate (hf : Follows K abi h start storage log)
    {oldRoot newRoot₀ newRoot₁ : Bytes32 Byte} {signature signature₂ : List Byte} :
    (doubleUpdate K abi sender oldRoot newRoot₀ newRoot₁ signature signature₂).Keeps h
      (Follows K abi h start) codeAt storage log := by
  obtain ⟨labels, history, hrun, hm⟩ := hf
  refine keeps_orRevert fun _ hnotFailed => keeps_orRevert fun conflict hconflict => ?_
  obtain ⟨owner, hhome⟩ := hm.home
  rw [hhome] at hnotFailed hconflict
  split
  next htrue =>
    rw [htrue] at hconflict
    obtain ⟨hfirst, hsecond, hne⟩ := isDoubleUpdate_eq_true.mp hconflict
    refine keeps_fail (hm.failed hrun (require_eq_ok.mp hnotFailed)
      (.double _ _ _ _ _ hfirst hsecond hne)) fun storage log hf _ => ?_
    exact hf.emitted trivial
  next => exact fun _ => ⟨labels, history, hrun, hm⟩

theorem keeps_dispatch {data : List Byte} {destination : UInt32} {recipient : Bytes32 Byte}
    {body : List Byte} (hf : Follows K abi h start storage log)
    (hdata : abi.decode data = some (.dispatch destination recipient body))
    (hcalled : .called sender h data ∈ log) :
    (dispatch K abi sender destination recipient body).Keeps h (Follows K abi h start) codeAt
      storage log := by
  obtain ⟨labels, history, hrun, hm⟩ := hf
  refine keeps_commit fun home events hdispatch => ?_
  obtain ⟨owner, hhome⟩ := hm.home
  rw [hhome] at hdispatch
  refine hm.exec hrun (.dispatch destination recipient body) _ _ (dispatch_owner hdispatch)
    ⟨home.owner, rfl⟩ rfl rfl fun d hd => ?_
  rw [Home.Call.dispatched, List.mem_singleton] at hd
  subst hd
  exact ⟨data, hcalled, hdata⟩

theorem keeps_setUpdater (hf : Follows K abi h start storage log) {updater : Address Byte} :
    (setUpdater abi sender updater).Keeps h (Follows K abi h start) codeAt storage log := by
  obtain ⟨labels, history, hrun, hm⟩ := hf
  refine keeps_commit fun home events hset => ?_
  obtain ⟨owner, hhome⟩ := hm.home
  rw [hhome, Home.setUpdater, require_bind_eq_ok] at hset
  obtain ⟨hsender, hset⟩ := hset
  obtain ⟨rfl, rfl⟩ := Prod.mk.inj (Except.ok.inj hset)
  have hexec : Home.exec K ⟨sender, fun _ => false, .reverts⟩ (.setUpdater updater) history.home =
      .ok (Home._setUpdater updater history.home) := by
    rw [Home.exec, Home.setUpdater, require_of hsender, ok_bind]
  exact hm.exec hrun _ _ _ hexec ⟨owner, rfl⟩ rfl rfl fun d hd => absurd hd List.not_mem_nil

theorem keeps_setUpdaterManager (hf : Follows K abi h start storage log)
    {manager : Address Byte} :
    (setUpdaterManager abi sender manager).Keeps h (Follows K abi h start) codeAt storage log := by
  obtain ⟨labels, history, hrun, hm⟩ := hf
  refine keeps_commit fun home events hset => ?_
  obtain ⟨owner, hhome⟩ := hm.home
  rw [hhome, Home.setUpdaterManager, Home._setUpdaterManager, require_bind_eq_ok,
    require_bind_eq_ok] at hset
  obtain ⟨-, hcode, hset⟩ := hset
  obtain ⟨rfl, rfl⟩ := Prod.mk.inj (Except.ok.inj hset)
  -- The owner of the model makes the call.
  have hexec : Home.exec K ⟨history.home.owner, codeAt, .reverts⟩ (.setUpdaterManager manager)
      history.home = .ok ({ history.home with updaterManager := manager },
        [.NewUpdaterManager manager]) := by
    rw [Home.exec, Home.setUpdaterManager, require_of rfl, ok_bind, Home._setUpdaterManager,
      require_of hcode, ok_bind]
  exact hm.exec hrun _ _ _ hexec ⟨owner, rfl⟩ rfl rfl fun d hd => absurd hd List.not_mem_nil

theorem keeps_setOwner (hf : Follows K abi h start storage log) {newOwner : Address Byte} :
    (setOwner newOwner storage).Keeps h (Follows K abi h start) codeAt storage log :=
  fun _ => (hf.owned newOwner).concat rfl

theorem keeps_init (hf : Follows K abi h start storage log) (hself : codeAt h = true)
    {manager : Address Byte} :
    (init abi h sender manager).Keeps h (Follows K abi h start) codeAt storage log := by
  obtain ⟨labels, history, hrun, hm⟩ := hf
  refine keeps_orRevert fun _ hrequire => ?_
  have hopen := require_eq_ok.mp hrequire
  simp [hm.initialized, hm.initializing, hself] at hopen

/-- Each function keeps to the model, whoever calls it. -/
theorem keeps_code (hf : Follows K abi h start storage log) (hself : codeAt h = true)
    {data : List Byte} {request : Request Byte} (hdata : abi.decode data = some request)
    (hcalled : .called sender h data ∈ log) :
    (request.code K abi h sender).Keeps h (Follows K abi h start) codeAt storage log := by
  cases request with
  | init manager => exact keeps_init hf hself
  | dispatch destination recipient body => exact keeps_dispatch hf hdata hcalled
  | update u => exact keeps_update hf
  | improperUpdate u =>
    obtain ⟨labels, history, hrun, hm⟩ := hf
    have hkeeps : (HomeMachine.improperUpdate K abi sender u fun improper =>
        .finish true (abi.encodeBool improper)).Keeps h (Follows K abi h start) codeAt storage
          log :=
      keeps_improperUpdate hrun hm (fun _ _ _ _ _ => ⟨labels, history, hrun, hm⟩)
        fun _ _ hf _ => hf
    exact hkeeps
  | doubleUpdate oldRoot newRoot₀ newRoot₁ signature signature₂ => exact keeps_doubleUpdate hf
  | setUpdater updater => exact keeps_setUpdater hf
  | setUpdaterManager manager => exact keeps_setUpdaterManager hf
  | transferOwnership newOwner =>
    exact keeps_orRevert fun _ _ => keeps_orRevert fun _ _ => keeps_setOwner hf
  | renounceOwnership => exact keeps_orRevert fun _ _ => keeps_setOwner hf
  | view answer => exact fun _ => hf

variable (K abi) in
/-- Home keeps to the model in every world. -/
theorem guarantees (start : History Byte)
    (others : Address Byte → Option (ContractProgram Byte κ ε)) :
    Guarantees (World.table K abi h others) h (Follows K abi h start)
      fun a => a = h ∨ (others a).isSome where
  foreign storage log entry hentry hf := hf.concat (homeEvent?_of_foreign hentry)
  keeps s sender data hf _ := by
    refine ⟨external K abi, if_pos rfl, ?_⟩
    have hlog : Follows K abi h start (s.storage h) (s.log ++ [.called sender h data]) :=
      hf.concat rfl
    unfold external
    split
    next request hdata =>
      refine keeps_code hlog (by simp) hdata ?_
      exact List.mem_append_right _ (List.mem_singleton_self _)
    next => rintro ⟨⟩
  codeAt_eq s target := by
    unfold World.table
    split
    next htarget => simp [htarget]
    next htarget => simp [htarget]

end Keeping

/-! ### Worlds follow the model -/

section Worlds

variable {start history : History Byte} {w w' : World Byte κ ε}

theorem follows_of_step {action : Action Byte}
    (hf : Follows K abi h start (w.chain.storage h) w.chain.log)
    (hstep : World.Step K abi h w action w') :
    Follows K abi h start (w'.chain.storage h) w'.chain.log := by
  cases hstep with
  | transact horigin hrun =>
    exact (transact_keeps (guarantees K abi start w.others) horigin hf hrun).1
  | elsewhere hstorage hlog hforeign =>
    rw [hstorage, hlog]
    refine hf.append fun e he => ?_
    rw [homeEvents_of_foreign hforeign] at he
    cases he

/-- **Home is simulated.** While a world runs, what is seen of Home runs in the model of Home
alone, from any history that it matched before. -/
theorem run_simulated {actions : List (Action Byte)}
    (hrun : (World.system K abi h).Run w actions w')
    (hm : Matches abi h history (w.chain.storage h) w.chain.log) :
    ∃ labels history', (Home.system K).Run history labels history' ∧
      Matches abi h history' (w'.chain.storage h) w'.chain.log := by
  have hstart : Follows K abi h history (w.chain.storage h) w.chain.log :=
    ⟨[], history, .refl _, hm⟩
  exact hrun.invariant_of_forall
    (P := fun w => Follows K abi h history (w.chain.storage h) w.chain.log)
    (C := fun _ _ => True) hstart (fun _ _ _ _ _ _ => trivial)
    fun _ _ _ hf _ hstep => follows_of_step hf hstep

omit [ByteAlphabet Byte] in
theorem eval_orRevert {τ : Type} {frame : Frame (Address Byte)}
    {table : Table (Address Byte) Byte (Storage Byte κ) (Event Byte ε)}
    {enter : Enter (Address Byte) Byte (Storage Byte κ) (Event Byte ε)}
    {result : Except Revert τ} {next : τ → ContractCode Byte κ ε}
    {s t : State (Address Byte) Byte (Storage Byte κ) (Event Byte ε)} {returned : List Byte}
    (heval : (orRevert abi result next).eval table enter frame s = some (.ok (returned, t))) :
    ∃ value, result = .ok value ∧
      (next value).eval table enter frame s = some (.ok (returned, t)) := by
  cases result with
  | ok value => exact ⟨value, rfl, heval⟩
  | error e => cases heval

/-- A deployed Home matches a Home that was just initialised. -/
theorem World.Deployed.matches (hdeployed : World.Deployed abi h w) :
    ∃ history : History Byte, history.Initial ∧
      Matches abi h history (w.chain.storage h) w.chain.log := by
  obtain ⟨localDomain, rest, deployer, manager, depth, before, returned, hstorage, hforeign,
    hrun⟩ := hdeployed
  rw [run_eq_eval] at hrun
  unfold HomeMachine.init at hrun
  simp only [Code.eval, hstorage] at hrun
  obtain ⟨_, -, hrun⟩ := eval_orRevert hrun
  simp only [Code.eval, Bool.false_eq_true, if_false, State.record_storage,
    State.write_storage_self] at hrun
  obtain ⟨⟨home, events⟩, hmanager, hrun⟩ := eval_orRevert hrun
  rw [Home._setUpdaterManager, require_bind_eq_ok] at hmanager
  obtain ⟨hcode, hmanager⟩ := hmanager
  obtain ⟨rfl, rfl⟩ := Prod.mk.inj (Except.ok.inj hmanager)
  simp only [emitAll] at hrun
  rw [Code.eval, if_neg Bool.false_ne_true, Code.eval, if_neg Bool.false_ne_true] at hrun
  rcases Code.eval_call_cases hrun with ⟨answer, after, hcall, hrun⟩ | ⟨answer, -, hrun⟩
  · -- The manager is asked for the updater by a static call, which leaves everything as it is.
    rw [State.recordCall_of_ne (by decide)] at hcall
    obtain rfl := enterAt_frozen _ _ _ _ _ _ _ rfl hcall
    rw [if_pos rfl] at hrun
    cases hdecode : abi.decodeAddress answer with
    | none =>
      rw [hdecode] at hrun
      cases hrun
    | some updater =>
      rw [hdecode] at hrun
      simp only [Code.eval, Bool.false_eq_true, if_false, State.record_storage,
        State.write_storage_self] at hrun
      obtain ⟨-, hchain⟩ := Prod.mk.inj (Except.ok.inj (Option.some.inj hrun))
      rw [← hchain]
      refine ⟨_, Home.initial_of_isContract localDomain ⟨deployer, fun a => (w.others a).isSome,
        .reverts⟩ manager updater hcode, ?_⟩
      rw [State.record_storage, State.write_storage_self]
      have hevents : homeEvents h (before.log ++ [.emitted h (.OwnershipTransferred 0 deployer)] ++
          [.emitted h (.home (.NewUpdaterManager manager))] ++
          [.emitted h (.home (.NewUpdater updater))]) =
            [.NewUpdaterManager manager, .NewUpdater updater] := by
        rw [homeEvents_append, homeEvents_append, homeEvents_concat_of_none rfl,
          homeEvents_of_foreign hforeign, List.nil_append]
        exact congrArg₂ (· ++ ·) (homeEvents_emitted [_]) (homeEvents_emitted [_])
      exact {
        initialized := rfl
        initializing := rfl
        home := ⟨deployer, rfl⟩
        updates := congrArg Home.updates hevents
        dispatches := congrArg Home.dispatches hevents
        called := fun d hd => absurd hd List.not_mem_nil }
  · cases hrun

/-- **Home among other contracts.** In every world what is seen of Home matches a reachable
history of the model of Home alone. -/
theorem matches_of_reachable (hw : (World.system K abi h).Reachable w) :
    ∃ history, (Home.system K).Reachable history ∧
      Matches abi h history (w.chain.storage h) w.chain.log := by
  obtain ⟨start, actions, hdeployed, hrun⟩ := hw
  obtain ⟨initial, hinitial, hm⟩ := World.Deployed.matches hdeployed
  obtain ⟨labels, history, hhistory, hmatches⟩ := run_simulated hrun hm
  exact ⟨history, ⟨initial, labels, hinitial, hhistory⟩, hmatches⟩

/-- **The record of Home.** -/
theorem record_of_reachable (ideal : Crypto.IdealHash K)
    (hw : (World.system K abi h).Reachable w) : Recorded K abi h w := by
  obtain ⟨history, hreach, hm⟩ := matches_of_reachable hw
  have hnumbered := Home.History.numbered_of_reachable hreach
  have hidentified := hnumbered.identified
  obtain ⟨k, hsound⟩ := Home.History.sound_of_reachable ideal hreach
  obtain ⟨owner, hhome⟩ := hm.home
  refine ⟨?_, fun e he => ?_, ?_, fun u hu => ?_⟩
  · rw [hm.dispatches]
    exact hidentified.leafIndexes
  · rw [hm.dispatches] at he
    obtain ⟨d, hd, hannounces⟩ := hnumbered.announced e he
    refine ⟨d, ?_, hm.called d (List.mem_of_getElem? hd)⟩
    rw [hhome]
    exact hannounces
  · rw [hm.updates, hhome]
    exact hsound.chain
  · rw [hm.updates] at hu
    obtain ⟨i, j, -, hj, -, hnew⟩ := hsound.positions u hu
    rw [hm.dispatches, hidentified.leaves]
    exact ⟨j, hj.trans hsound.inStep.k_le, hnew⟩

/-- **Failed is final in every world.** A Home that failed stays failed, and nobody dispatches
or updates any more. -/
theorem failed_of_run (hw : (World.system K abi h).Reachable w) {actions : List (Action Byte)}
    (hfailed : (w.chain.storage h).home.state = .Failed)
    (hrun : (World.system K abi h).Run w actions w') :
    (w'.chain.storage h).home.state = .Failed ∧
      (w'.chain.storage h).home.committedRoot = (w.chain.storage h).home.committedRoot ∧
      (w'.chain.storage h).home.tree = (w.chain.storage h).home.tree ∧
      Home.dispatches (homeEvents h w'.chain.log) = Home.dispatches (homeEvents h w.chain.log) ∧
      Home.updates (homeEvents h w'.chain.log) = Home.updates (homeEvents h w.chain.log) := by
  obtain ⟨history, -, hm⟩ := matches_of_reachable hw
  obtain ⟨labels, history', hhistory, hm'⟩ := run_simulated hrun hm
  obtain ⟨owner, hhome⟩ := hm.home
  obtain ⟨owner', hhome'⟩ := hm'.home
  have hstate : history.home.state = .Failed := by rw [← hfailed, hhome]
  have hfrozen := Failed.homeFrozen_of_run hstate hhistory
  obtain ⟨events, hlog, hquiet⟩ := hfrozen.log
  rw [hhome, hhome', hm.dispatches, hm.updates, hm'.dispatches, hm'.updates, hlog,
    Home.dispatches_append, Home.updates_append, Home.dispatches_eq_nil hquiet,
    Home.updates_eq_nil hquiet, List.append_nil, List.append_nil]
  exact ⟨hfrozen.state, hfrozen.committedRoot, hfrozen.tree, rfl, rfl⟩

end Worlds

/-! ### A manager that calls back -/

section Sample

open Slashing (sampleUpdater sampleCrypto sampleOwner sampleHome sampleManager sampleUpdate)

/-- Three functions are called by a byte each. -/
def sampleAbi : Abi ℕ where
  decode
    | [0] => some (.dispatch 2000 0 [])
    | [1] => some (.improperUpdate sampleUpdate)
    | [2] => some (.setUpdater sampleOwner)
    | _ => none
  revertData _ := []
  encodeBool _ := []
  decodeAddress _ := some sampleUpdater
  slashUpdater _ := []
  updater := []

/-- A manager that dispatches a message and sets a new updater whenever it is called. -/
def sampleOthers : Address ℕ → Option (ContractProgram ℕ Unit Empty) := fun a =>
  if a = sampleManager then some fun _ _ _ =>
    .call .call sampleHome [0] fun _ _ =>
    .call .call sampleHome [2] fun _ _ =>
    .finish true []
  else none

/-- Before the deployment. -/
def sampleBefore : State (Address ℕ) ℕ (Storage ℕ Unit) (Event ℕ Empty) :=
  ⟨fun _ => ⟨Home.fresh 1000, false, false, ()⟩, []⟩

/-- Home as it is deployed. -/
def sampleDeployed : World ℕ Unit Empty :=
  ⟨sampleOthers, match run (fun _ => sampleOthers) 2 ⟨sampleHome, sampleOwner, false⟩
    (init sampleAbi sampleHome sampleOwner sampleManager) sampleBefore with
    | some r => r.after sampleBefore
    | none => sampleBefore⟩

/-- The world after a transaction of the owner to Home. -/
def World.afterOwner (w : World ℕ Unit Empty) (data : List ℕ) : World ℕ Unit Empty :=
  match transact (World.table sampleCrypto sampleAbi sampleHome w.others) 3 sampleOwner sampleHome
    data w.chain with
  | some r => { w with chain := r.after w.chain }
  | none => w

theorem reachable_sampleDeployed :
    (World.system sampleCrypto sampleAbi sampleHome).Reachable sampleDeployed :=
  System.reachable_init ⟨1000, (), sampleOwner, sampleManager, 2, sampleBefore, [], rfl,
    fun _ hentry => absurd hentry List.not_mem_nil, rfl⟩

theorem step_afterOwner {w : World ℕ Unit Empty} {data : List ℕ}
    (hrun : (transact (World.table sampleCrypto sampleAbi sampleHome w.others) 3 sampleOwner
      sampleHome data w.chain).isSome = true) :
    (World.system sampleCrypto sampleAbi sampleHome).step w (.transact sampleOwner sampleHome data)
      (w.afterOwner data) := by
  obtain ⟨r, hr⟩ := Option.isSome_iff_exists.mp hrun
  have hafter : w.afterOwner data = { w with chain := r.after w.chain } := by
    rw [World.afterOwner, hr]
  rw [hafter]
  exact .transact (by decide) hr

/-- Home after the improper update was filed. -/
def sampleFailed : World ℕ Unit Empty := sampleDeployed.afterOwner [1]

theorem reachable_sampleFailed :
    (World.system sampleCrypto sampleAbi sampleHome).Reachable sampleFailed :=
  reachable_sampleDeployed.step (step_afterOwner rfl)

/-- The manager set a new updater while Home was failing, but could not dispatch. -/
theorem matches_of_reachable_reentered :
    (sampleFailed.chain.storage sampleHome).home.state = .Failed ∧
      (sampleFailed.chain.storage sampleHome).home.updater = sampleOwner ∧
      ∃ history, (Home.system sampleCrypto).Reachable history ∧
        Matches sampleAbi sampleHome history (sampleFailed.chain.storage sampleHome)
          sampleFailed.chain.log :=
  ⟨by decide, by decide, matches_of_reachable reachable_sampleFailed⟩

/-- A message was dispatched before the fraud. -/
theorem record_of_reachable_dispatched :
    (Home.dispatches (homeEvents sampleHome (sampleDeployed.afterOwner [0]).chain.log)).length = 1 ∧
      Recorded sampleCrypto sampleAbi sampleHome (sampleDeployed.afterOwner [0]) :=
  ⟨rfl, record_of_reachable (Crypto.withIdealHash_ideal _)
    (reachable_sampleDeployed.step (step_afterOwner rfl))⟩

/-- A message that is dispatched after the fraud is refused. -/
theorem failed_of_run_refused :
    Home.dispatches (homeEvents sampleHome (sampleFailed.afterOwner [0]).chain.log) =
      Home.dispatches (homeEvents sampleHome sampleFailed.chain.log) :=
  (failed_of_run reachable_sampleFailed (by decide)
    (System.Run.single (step_afterOwner rfl))).2.2.2.1

end Sample

end Optics.HomeMachine
