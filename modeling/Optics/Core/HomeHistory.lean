/-
# Home over its history

The history of a Home holds its storage, the events it has emitted and the
dispatches it has accepted. Every successful call has one of six effects, and
all that is proved about runs starts from that list.
-/

import Optics.Core.Home

namespace Optics.Home

open Optics.Solidity Optics.Common Optics.Math.Transition

variable {Byte : Type}

/-- The functions of an initialised Home that change its state. -/
inductive Call (Byte : Type)
  | dispatch (destinationDomain : UInt32) (recipientAddress : Bytes32 Byte)
      (messageBody : List Byte)
  | update (update : SignedUpdate Byte)
  | improperUpdate (update : SignedUpdate Byte)
  | doubleUpdate (oldRoot newRoot₀ newRoot₁ : Bytes32 Byte) (signature signature₂ : List Byte)
  | setUpdater (updater : Address Byte)
  | setUpdaterManager (updaterManager : Address Byte)

/-- The signatures that a call presents, each with the roots it is checked on. -/
def Call.presented : Call Byte → List (SignedUpdate Byte)
  | .update u => [u]
  | .improperUpdate u => [u]
  | .doubleUpdate oldRoot newRoot₀ newRoot₁ signature signature₂ =>
    [⟨oldRoot, newRoot₀, signature⟩, ⟨oldRoot, newRoot₁, signature₂⟩]
  | _ => []

/-- The update that an event announces, if it is an `Update`. -/
def Event.update? : Event Byte → Option (SignedUpdate Byte)
  | .Update _ u => some u
  | _ => none

/-- The updates accepted according to an event log, oldest first. -/
def updates (log : List (Event Byte)) : List (SignedUpdate Byte) := log.filterMap Event.update?

@[simp] theorem updates_append (log events : List (Event Byte)) :
    updates (log ++ events) = updates log ++ updates events := List.filterMap_append

@[simp] theorem updates_singleton (e : Event Byte) : updates [e] = e.update?.toList := by
  cases h : e.update? with
  | none => simp [updates, h]
  | some u => simp [updates, h]

/-- The events other than `Dispatch` and `Update`. -/
def Event.Administrative : Event Byte → Prop
  | .Dispatch _ _ _ _ _ => False
  | .Update _ _ => False
  | _ => True

theorem updates_eq_nil {events : List (Event Byte)} (h : ∀ e ∈ events, e.Administrative) :
    updates events = [] := by
  refine List.filterMap_eq_nil_iff.mpr fun e he => ?_
  cases e with
  | Update => exact absurd (h _ he) id
  | Dispatch => rfl
  | ImproperUpdate => rfl
  | DoubleUpdate => rfl
  | UpdaterSlashed => rfl
  | NewUpdater => rfl
  | NewUpdaterManager => rfl

theorem administrative_concat {events : List (Event Byte)} {last : Event Byte}
    (h : ∀ e ∈ events, e.Administrative) (hlast : last.Administrative) :
    ∀ e ∈ events ++ [last], e.Administrative := by
  intro e he
  rcases List.mem_append.mp he with hmem | hmem
  · exact h e hmem
  · exact List.mem_singleton.mp hmem ▸ hlast

/-- The arguments of an accepted dispatch and the nonce it was given. -/
structure Dispatched (Byte : Type) where
  sender : Address Byte
  nonce : UInt32
  destination : UInt32
  recipient : Bytes32 Byte
  body : List Byte

/-- The storage, the event log and the accepted dispatches. -/
structure History (Byte : Type) where
  home : Home Byte
  log : List (Event Byte)
  dispatched : List (Dispatched Byte)

variable [ByteAlphabet Byte]

/-- The message that was formatted for a dispatch. -/
def Dispatched.message (localDomain : UInt32) (d : Dispatched Byte) : List Byte :=
  Message.formatMessage localDomain (addressToBytes32 d.sender) d.nonce d.destination d.recipient
    d.body

/-- The dispatch that a call makes when it succeeds. -/
def Call.dispatched (ctx : Context Byte) (home : Home Byte) : Call Byte → List (Dispatched Byte)
  | .dispatch destination recipient body =>
    [⟨ctx.sender, home.nonces destination, destination, recipient, body⟩]
  | _ => []

section Exec

variable [DecidableEq Byte] (K : Crypto Byte)

/-- One call of Home. -/
def exec (ctx : Context Byte) : Call Byte → Home Byte →
    Except Revert (Home Byte × List (Event Byte))
  | .dispatch destination recipient body => dispatch K ctx destination recipient body
  | .update u => update K ctx u.oldRoot u.newRoot u.signature
  | .improperUpdate u => fun home => do
    let (_, home, events) ← improperUpdate K ctx u.oldRoot u.newRoot u.signature home
    .ok (home, events)
  | .doubleUpdate oldRoot newRoot₀ newRoot₁ signature signature₂ =>
    doubleUpdate K ctx oldRoot newRoot₀ newRoot₁ signature signature₂
  | .setUpdater updater => setUpdater ctx.sender updater
  | .setUpdaterManager manager => setUpdaterManager ctx.sender ctx.isContract manager

/-- One call, with the log and the dispatches kept. -/
def History.exec (tx : Context Byte × Call Byte) (history : History Byte) :
    Except Revert (History Byte) := do
  let (home, events) ← Home.exec K tx.1 tx.2 history.home
  .ok ⟨home, history.log ++ events, history.dispatched ++ tx.2.dispatched tx.1 history.home⟩

/-- The leaves of the tree: the hashes of the dispatched messages. -/
def History.leaves (history : History Byte) : List (Bytes32 Byte) :=
  history.dispatched.map fun d => K.keccak256 (d.message history.home.localDomain)

/-- A Home just after `initialize`. -/
def History.Initial (history : History Byte) : Prop :=
  ∃ domain ctx manager updater, ∃ home events,
    Home.init ctx manager updater (fresh domain) = .ok (home, events) ∧
      history = ⟨home, events, []⟩

omit [DecidableEq Byte] in
/-- A Home as `initialize` leaves it when the manager has code. -/
theorem initial_of_isContract (domain : UInt32) (ctx : Context Byte)
    (manager updater : Address Byte)
    (h : ctx.isContract manager = true) :
    History.Initial ⟨{ (fresh domain : Home Byte) with
      owner := ctx.sender
      queue := (QueueLib.Queue.fresh : QueueLib.Queue (Bytes32 Byte)).init
      updaterManager := manager
      updater := updater
      state := .Active }, [.NewUpdaterManager manager, .NewUpdater updater], []⟩ := by
  refine ⟨domain, ctx, manager, updater, _, _, ?_, rfl⟩
  rw [Home.init, _setUpdaterManager, require_of h]
  rfl

omit [DecidableEq Byte] in
theorem History.Initial.active {history : History Byte} (h : history.Initial) :
    history.home.state = .Active := by
  obtain ⟨domain, ctx, manager, updater, home, events, hinit, rfl⟩ := h
  obtain ⟨⟨home₁, events₁⟩, -, hinit⟩ := bind_eq_ok.mp hinit
  obtain ⟨rfl, rfl⟩ := Prod.mk.inj (Except.ok.inj hinit)
  rfl

omit [DecidableEq Byte] in
theorem History.Initial.log_eq {history : History Byte} (h : history.Initial) :
    ∃ manager updater, history.log = [.NewUpdaterManager manager, .NewUpdater updater] := by
  obtain ⟨domain, ctx, manager, updater, home, events, hinit, rfl⟩ := h
  obtain ⟨⟨home₁, events₁⟩, hmanager, hinit⟩ := bind_eq_ok.mp hinit
  obtain ⟨-, hmanager⟩ := require_bind_eq_ok.mp hmanager
  obtain ⟨rfl, rfl⟩ := Prod.mk.inj (Except.ok.inj hmanager)
  obtain ⟨rfl, rfl⟩ := Prod.mk.inj (Except.ok.inj hinit)
  exact ⟨manager, updater, rfl⟩

omit [DecidableEq Byte] in
theorem History.Initial.log_quiet {history : History Byte} (h : history.Initial)
    (updater reporter : Address Byte) : Event.UpdaterSlashed updater reporter ∉ history.log := by
  obtain ⟨manager, updater', hlog⟩ := h.log_eq
  simp [hlog]

omit [DecidableEq Byte] in
theorem History.Initial.updates_eq {history : History Byte} (h : history.Initial) :
    updates history.log = [] := by
  obtain ⟨manager, updater, hlog⟩ := h.log_eq
  rw [hlog]
  rfl

/-- Home under any calls, reverting ones included. -/
def system : System (History Byte) (Context Byte × Call Byte) where
  init := History.Initial
  step := callStep (History.exec K)

/-! ### The effect of a call -/

/-- The evidence on which a call fails the contract: an improper update, or two
signed updates that conflict. -/
inductive Fraud (home : Home Byte) : Call Byte → Prop
  | improper {call : Call Byte} (u : SignedUpdate Byte)
      (hcall : call = .update u ∨ call = .improperUpdate u)
      (hsigned : IsSignedBy K home.localDomain home.updater u)
      (hcurrent : u.oldRoot = home.committedRoot)
      (habsent : home.queue.contains u.newRoot = false) : Fraud home call
  | double (oldRoot newRoot₀ newRoot₁ : Bytes32 Byte) (signature signature₂ : List Byte)
      (hfirst : IsSignedBy K home.localDomain home.updater ⟨oldRoot, newRoot₀, signature⟩)
      (hsecond : IsSignedBy K home.localDomain home.updater ⟨oldRoot, newRoot₁, signature₂⟩)
      (hne : newRoot₀ ≠ newRoot₁) :
      Fraud home (.doubleUpdate oldRoot newRoot₀ newRoot₁ signature signature₂)

/-- Everything that a successful call can do. -/
inductive Effect (ctx : Context Byte) (home : Home Byte) :
    Call Byte → Home Byte → List (Event Byte) → Prop
  | dispatched (destination : UInt32) (recipient : Bytes32 Byte) (body : List Byte)
      (d : Dispatched Byte) (tree : MerkleLib.Tree Byte)
      (hd : d = ⟨ctx.sender, home.nonces destination, destination, recipient, body⟩)
      (hstate : home.state ≠ .Failed)
      (hbody : body.length ≤ MAX_MESSAGE_BODY_BYTES)
      (hinsert : MerkleLib.insert K home.tree (K.keccak256 (d.message home.localDomain)) = .ok tree) :
      Effect ctx home (.dispatch destination recipient body)
        { home with
          nonces := Function.update home.nonces destination (home.nonces destination + 1)
          tree := tree
          queue := home.queue.enqueue (MerkleLib.root K tree) }
        [.Dispatch (K.keccak256 (d.message home.localDomain)) (tree.count - 1)
          (_destinationAndNonce destination (home.nonces destination)) home.committedRoot
          (d.message home.localDomain)]
  | committed (u : SignedUpdate Byte) (queue : QueueLib.Queue (Bytes32 Byte))
      (hstate : home.state ≠ .Failed)
      (hsigned : IsSignedBy K home.localDomain home.updater u)
      (hcurrent : u.oldRoot = home.committedRoot)
      (hqueued : home.queue.contains u.newRoot = true)
      (hloop : dequeueUntil u.newRoot home.queue = .ok queue) :
      Effect ctx home (.update u) { home with queue := queue, committedRoot := u.newRoot }
        [.Update home.localDomain u]
  | slashed {call : Call Byte} {events : List (Event Byte)} (updater manager : Address Byte)
      (hstate : home.state ≠ .Failed)
      (hfraud : Fraud K home call)
      (hevents : ∀ e ∈ events, e.Administrative) :
      Effect ctx home call
        { home with state := .Failed, updater := updater, updaterManager := manager } events
  | unchanged {call : Call Byte} (hquiet : call.dispatched ctx home = []) :
      Effect ctx home call home []
  | newUpdater (updater : Address Byte) (hsender : ctx.sender = home.updaterManager) :
      Effect ctx home (.setUpdater updater) { home with updater := updater } [.NewUpdater updater]
  | newUpdaterManager (manager : Address Byte) (hsender : ctx.sender = home.owner) :
      Effect ctx home (.setUpdaterManager manager) { home with updaterManager := manager }
        [.NewUpdaterManager manager]

section Effects

variable {K} {ctx : Context Byte} {home home' : Home Byte} {call : Call Byte}
  {events : List (Event Byte)} {u : SignedUpdate Byte}

/-- A fraud comes with an update or a double update, never with a dispatch. -/
theorem Fraud.dispatched_eq_nil (h : Fraud K home call) : call.dispatched ctx home = [] := by
  cases h with
  | improper u hcall =>
    rcases hcall with rfl | rfl
    · rfl
    · rfl
  | double => rfl

section Failing

omit [ByteAlphabet Byte]

/-- A configuration call leaves everything but the two addresses. -/
theorem reconfigure_spec (isContract : Address Byte → Bool) (home : Home Byte)
    (call : Reconfiguration Byte) :
    (∃ updater manager, (reconfigure isContract home call).1 =
      { home with updater := updater, updaterManager := manager }) ∧
      ∀ e ∈ (reconfigure isContract home call).2, e.Administrative := by
  cases call with
  | setUpdater sender updater =>
    simp only [reconfigure, setUpdater, require, _setUpdater]
    split_ifs
    · exact ⟨⟨updater, home.updaterManager, rfl⟩, by simp [Event.Administrative]⟩
    · exact ⟨⟨home.updater, home.updaterManager, rfl⟩, by simp⟩
  | setUpdaterManager sender manager =>
    by_cases hsender : sender = home.owner
    · simp only [reconfigure, setUpdaterManager, _setUpdaterManager, require, if_pos hsender]
      split_ifs
      · exact ⟨⟨home.updater, manager, rfl⟩, by simp [Event.Administrative]⟩
      · exact ⟨⟨home.updater, home.updaterManager, rfl⟩, by simp⟩
    · simp only [reconfigure, setUpdaterManager, require_of_not hsender, error_bind]
      exact ⟨⟨home.updater, home.updaterManager, rfl⟩, by simp⟩

theorem reconfigureAll_spec (isContract : Address Byte → Bool) (home : Home Byte)
    (calls : List (Reconfiguration Byte)) :
    (∃ updater manager, (reconfigureAll isContract home calls).1 =
      { home with updater := updater, updaterManager := manager }) ∧
      ∀ e ∈ (reconfigureAll isContract home calls).2, e.Administrative := by
  induction calls generalizing home with
  | nil => exact ⟨⟨home.updater, home.updaterManager, rfl⟩, by simp [reconfigureAll]⟩
  | cons call rest ih =>
    obtain ⟨⟨updater, manager, hfirst⟩, hquiet⟩ := reconfigure_spec isContract home call
    -- Each call starts from the addresses that the one before it left.
    obtain ⟨⟨updater', manager', hrest⟩, hquiet'⟩ := ih (reconfigure isContract home call).1
    refine ⟨⟨updater', manager', ?_⟩, ?_⟩
    · rw [reconfigureAll, hrest, hfirst]
    · intro e he
      rcases List.mem_append.mp he with hmem | hmem
      · exact hquiet e hmem
      · exact hquiet' e hmem

/-- Failing sets the state and slashes; it cannot do anything else to Home. -/
theorem _fail_spec (h : _fail ctx home = .ok (home', events)) :
    (∃ updater manager, home' =
      { home with state := .Failed, updater := updater, updaterManager := manager }) ∧
      ∀ e ∈ events, e.Administrative := by
  rw [_fail] at h
  cases hslash : ctx.slashUpdater with
  | reverts => simp [hslash] at h
  | returns nested =>
    simp only [hslash] at h
    obtain ⟨rfl, rfl⟩ := Prod.mk.inj (Except.ok.inj h)
    obtain ⟨⟨updater, manager, hhome⟩, hquiet⟩ :=
      reconfigureAll_spec ctx.isContract { home with state := .Failed } nested
    refine ⟨⟨updater, manager, hhome⟩, ?_⟩
    exact administrative_concat hquiet trivial

theorem _fail_returns (home : Home Byte) {nested : List (Reconfiguration Byte)}
    (h : ctx.slashUpdater = .returns nested) :
    ∃ home' events, _fail ctx home = .ok (home', events) := by
  rw [_fail, h]
  exact ⟨_, _, rfl⟩

end Failing

/-- `improperUpdate` accepts a current update signed by the updater. It answers
that the new root is in the queue, or it fails the contract. -/
theorem improperUpdate_spec {improper : Bool}
    (h : improperUpdate K ctx u.oldRoot u.newRoot u.signature home =
      .ok (improper, home', events)) :
    home.state ≠ .Failed ∧ IsSignedBy K home.localDomain home.updater u ∧
      u.oldRoot = home.committedRoot ∧
      ((improper = false ∧ home.queue.contains u.newRoot = true ∧ home' = home ∧ events = []) ∨
        (improper = true ∧ home.queue.contains u.newRoot = false ∧
          (∃ updater manager, home' =
            { home with state := .Failed, updater := updater, updaterManager := manager }) ∧
          ∀ e ∈ events, e.Administrative)) := by
  rw [improperUpdate, notFailed, require_bind_eq_ok, bind_eq_ok] at h
  obtain ⟨hstate, signed, hsigned, h⟩ := h
  rw [require_bind_eq_ok, require_bind_eq_ok] at h
  obtain ⟨rfl, hcurrent, h⟩ := h
  refine ⟨hstate, _isUpdaterSignature_eq_true.mp hsigned, hcurrent, ?_⟩
  split_ifs at h with hqueued
  -- the root is in the queue, so the update is proper
  · simp only [Except.ok.injEq, Prod.mk.injEq] at h
    obtain ⟨rfl, rfl, rfl⟩ := h
    exact .inl ⟨rfl, hqueued, rfl, rfl⟩
  · obtain ⟨⟨failed, slashing⟩, hfail, h⟩ := bind_eq_ok.mp h
    simp only [Except.ok.injEq, Prod.mk.injEq] at h
    obtain ⟨rfl, rfl, rfl⟩ := h
    obtain ⟨hhome, hquiet⟩ := _fail_spec hfail
    refine .inr ⟨rfl, by simpa using hqueued, hhome, ?_⟩
    exact administrative_concat hquiet trivial

theorem dispatch_effect {destination : UInt32} {recipient : Bytes32 Byte} {body : List Byte}
    (h : dispatch K ctx destination recipient body home = .ok (home', events)) :
    Effect K ctx home (.dispatch destination recipient body) home' events := by
  rw [dispatch, notFailed, require_bind_eq_ok, require_bind_eq_ok, bind_eq_ok] at h
  obtain ⟨hstate, hbody, tree, hinsert, h⟩ := h
  obtain ⟨rfl, rfl⟩ := Prod.mk.inj (Except.ok.inj h)
  exact .dispatched destination recipient body
    ⟨ctx.sender, home.nonces destination, destination, recipient, body⟩ tree rfl
      hstate hbody hinsert

theorem update_effect
    (h : update K ctx u.oldRoot u.newRoot u.signature home = .ok (home', events)) :
    Effect K ctx home (.update u) home' events := by
  rw [update, notFailed, require_bind_eq_ok, bind_eq_ok] at h
  obtain ⟨hstate, ⟨improper, home₁, events₁⟩, himproper, h⟩ := h
  obtain ⟨-, hsigned, hcurrent, hcases⟩ := improperUpdate_spec himproper
  rcases hcases with ⟨rfl, hqueued, rfl, rfl⟩ | ⟨rfl, habsent, ⟨updater, manager, rfl⟩, hquiet⟩
  · obtain ⟨queue, hloop, h⟩ := bind_eq_ok.mp h
    obtain ⟨rfl, rfl⟩ := Prod.mk.inj (Except.ok.inj h)
    exact .committed u queue hstate hsigned hcurrent hqueued hloop
  · obtain ⟨rfl, rfl⟩ := Prod.mk.inj (Except.ok.inj h)
    exact .slashed updater manager hstate
      (.improper u (.inl rfl) hsigned hcurrent habsent) hquiet

theorem improperUpdate_effect {improper : Bool}
    (h : improperUpdate K ctx u.oldRoot u.newRoot u.signature home =
      .ok (improper, home', events)) :
    Effect K ctx home (.improperUpdate u) home' events := by
  obtain ⟨hstate, hsigned, hcurrent, hcases⟩ := improperUpdate_spec h
  rcases hcases with ⟨-, -, rfl, rfl⟩ | ⟨-, habsent, ⟨updater, manager, rfl⟩, hquiet⟩
  · exact .unchanged rfl
  · exact .slashed updater manager hstate
      (.improper u (.inr rfl) hsigned hcurrent habsent) hquiet

theorem doubleUpdate_effect {oldRoot newRoot₀ newRoot₁ : Bytes32 Byte}
    {signature signature₂ : List Byte}
    (h : doubleUpdate K ctx oldRoot newRoot₀ newRoot₁ signature signature₂ home =
      .ok (home', events)) :
    Effect K ctx home (.doubleUpdate oldRoot newRoot₀ newRoot₁ signature signature₂) home'
      events := by
  rw [doubleUpdate, notFailed, require_bind_eq_ok, bind_eq_ok] at h
  obtain ⟨hstate, conflict, hconflict, h⟩ := h
  cases conflict with
  | false =>
    obtain ⟨rfl, rfl⟩ := Prod.mk.inj (Except.ok.inj h)
    exact .unchanged rfl
  | true =>
    obtain ⟨⟨failed, slashing⟩, hfail, h⟩ := bind_eq_ok.mp h
    obtain ⟨rfl, rfl⟩ := Prod.mk.inj (Except.ok.inj h)
    obtain ⟨⟨updater, manager, rfl⟩, hquiet⟩ := _fail_spec hfail
    obtain ⟨hfirst, hsecond, hne⟩ := isDoubleUpdate_eq_true.mp hconflict
    refine .slashed updater manager hstate (.double _ _ _ _ _ hfirst hsecond hne) ?_
    exact administrative_concat hquiet trivial

/-- **Effect of a call.** A successful call has one of the listed effects. -/
theorem effect_of_exec (h : exec K ctx call home = .ok (home', events)) :
    Effect K ctx home call home' events := by
  cases call with
  | dispatch destination recipient body => exact dispatch_effect h
  | update u => exact update_effect h
  | improperUpdate u =>
    obtain ⟨⟨improper, home₁, events₁⟩, himproper, h⟩ := bind_eq_ok.mp h
    obtain ⟨rfl, rfl⟩ := Prod.mk.inj (Except.ok.inj h)
    exact improperUpdate_effect himproper
  | doubleUpdate oldRoot newRoot₀ newRoot₁ signature signature₂ => exact doubleUpdate_effect h
  | setUpdater updater =>
    rw [exec, setUpdater, require_bind_eq_ok] at h
    obtain ⟨rfl, rfl⟩ := Prod.mk.inj (Except.ok.inj h.2)
    exact .newUpdater updater h.1
  | setUpdaterManager manager =>
    rw [exec, setUpdaterManager, _setUpdaterManager, require_bind_eq_ok, require_bind_eq_ok] at h
    obtain ⟨hsender, -, h⟩ := h
    obtain ⟨rfl, rfl⟩ := Prod.mk.inj (Except.ok.inj h)
    exact .newUpdaterManager manager hsender

/-! ### Calls that fail the contract -/

section Fraud

variable {nested : List (Reconfiguration Byte)}

theorem improperUpdate_of_absent (hstate : home.state ≠ .Failed)
    (hsigned : IsSignedBy K home.localDomain home.updater u)
    (hcurrent : u.oldRoot = home.committedRoot) (habsent : home.queue.contains u.newRoot = false) :
    improperUpdate K ctx u.oldRoot u.newRoot u.signature home = (do
      let (home, events) ← _fail ctx home
      .ok (true, home, events ++ [.ImproperUpdate u])) := by
  rw [improperUpdate, notFailed, require_of hstate, ok_bind,
    _isUpdaterSignature_eq_true.mpr hsigned, ok_bind, require_of rfl, ok_bind,
    require_of hcurrent, ok_bind, habsent]
  rfl

/-- On evidence of fraud a call fails the contract, and announces it unless the
slashing reverts. -/
theorem exec_of_fraud (ctx : Context Byte) (hstate : home.state ≠ .Failed)
    (h : Fraud K home call) :
    ∃ e, exec K ctx call home = (do
      let (home, events) ← _fail ctx home
      .ok (home, events ++ [e])) := by
  cases h with
  | improper u hcall hsigned hcurrent habsent =>
    refine ⟨.ImproperUpdate u, ?_⟩
    rcases hcall with rfl | rfl
    · rw [exec, update, notFailed, require_of hstate, ok_bind,
        improperUpdate_of_absent hstate hsigned hcurrent habsent]
      cases _fail ctx home with
      | ok failed => rfl
      | error e => rfl
    · simp only [exec]
      rw [improperUpdate_of_absent hstate hsigned hcurrent habsent]
      cases _fail ctx home with
      | ok failed => rfl
      | error e => rfl
  | double oldRoot newRoot₀ newRoot₁ signature signature₂ hfirst hsecond hne =>
    refine ⟨.DoubleUpdate oldRoot newRoot₀ newRoot₁ signature signature₂, ?_⟩
    rw [exec, doubleUpdate, notFailed, require_of hstate, ok_bind,
      isDoubleUpdate_eq_true.mpr ⟨hfirst, hsecond, hne⟩, ok_bind, if_pos rfl]

theorem exec_of_fraud_returns (hslash : ctx.slashUpdater = .returns nested)
    (hstate : home.state ≠ .Failed) (h : Fraud K home call) :
    ∃ home' events, exec K ctx call home = .ok (home', events) ∧ home'.state = .Failed := by
  obtain ⟨e, hexec⟩ := exec_of_fraud ctx hstate h
  obtain ⟨home', events, hfail⟩ := _fail_returns home hslash
  obtain ⟨⟨updater, manager, hhome⟩, -⟩ := _fail_spec hfail
  exact ⟨home', events ++ [e], by rw [hexec, hfail]; rfl, by rw [hhome]⟩

/-- When the manager does not slash, Home does not fail. -/
theorem exec_of_fraud_reverts (hslash : ctx.slashUpdater = .reverts)
    (hstate : home.state ≠ .Failed) (h : Fraud K home call) :
    exec K ctx call home = .error (.external "slashUpdater") := by
  obtain ⟨e, hexec⟩ := exec_of_fraud ctx hstate h
  rw [hexec, _fail, hslash]
  rfl

/-- A signed update from the committed root to a root outside the queue fails
Home. -/
theorem exec_improperUpdate_of_absent (hslash : ctx.slashUpdater = .returns nested)
    (hstate : home.state ≠ .Failed) (hsigned : IsSignedBy K home.localDomain home.updater u)
    (hcurrent : u.oldRoot = home.committedRoot) (habsent : home.queue.contains u.newRoot = false) :
    ∃ home' events, exec K ctx (.improperUpdate u) home = .ok (home', events) ∧
      home'.state = .Failed :=
  exec_of_fraud_returns hslash hstate (.improper u (.inr rfl) hsigned hcurrent habsent)

/-- Two signed updates from one root to different roots fail Home. -/
theorem exec_doubleUpdate_of_conflict (hslash : ctx.slashUpdater = .returns nested)
    {u v : SignedUpdate Byte} (hstate : home.state ≠ .Failed)
    (hu : IsSignedBy K home.localDomain home.updater u)
    (hv : IsSignedBy K home.localDomain home.updater v) (hold : v.oldRoot = u.oldRoot)
    (hne : u.newRoot ≠ v.newRoot) :
    ∃ home' events, exec K ctx
      (.doubleUpdate u.oldRoot u.newRoot v.newRoot u.signature v.signature) home =
        .ok (home', events) ∧ home'.state = .Failed := by
  have hv' : IsSignedBy K home.localDomain home.updater ⟨u.oldRoot, v.newRoot, v.signature⟩ :=
    hold ▸ hv
  exact exec_of_fraud_returns hslash hstate (.double _ _ _ _ _ hu hv' hne)

/-- When the manager makes no calls back, only the two configuration calls write the
pointer to it or the updater. -/
theorem pointers_of_exec
    (hslash : ∀ nested, ctx.slashUpdater = .returns nested → nested = [])
    (h : exec K ctx call home = .ok (home', events)) :
    (home'.updaterManager = home.updaterManager ∧ home'.updater = home.updater) ∨
      (∃ updater, ctx.sender = home.updaterManager ∧ home' = { home with updater := updater }) ∨
      ∃ manager, call = .setUpdaterManager manager ∧ ctx.sender = home.owner ∧
        home' = { home with updaterManager := manager } := by
  cases effect_of_exec h with
  | dispatched => exact .inl ⟨rfl, rfl⟩
  | committed => exact .inl ⟨rfl, rfl⟩
  | slashed updater manager hstate hfraud =>
    left
    obtain ⟨e, hexec⟩ := exec_of_fraud ctx hstate hfraud
    rw [h] at hexec
    obtain ⟨⟨failed, slashing⟩, hfail, hresult⟩ := bind_eq_ok.mp hexec.symm
    obtain ⟨rfl, -⟩ := Prod.mk.inj (Except.ok.inj hresult)
    unfold _fail at hfail
    split at hfail
    · cases hfail
    · next nested hreturns =>
      obtain rfl := hslash nested hreturns
      obtain ⟨heq, -⟩ := Prod.mk.inj (Except.ok.inj hfail)
      exact ⟨(congrArg Home.updaterManager heq).symm, (congrArg Home.updater heq).symm⟩
  | unchanged => exact .inl ⟨rfl, rfl⟩
  | newUpdater updater hsender => exact .inr (.inl ⟨updater, hsender, rfl⟩)
  | newUpdaterManager manager hsender => exact .inr (.inr ⟨manager, rfl, hsender, rfl⟩)

end Fraud

/-! ### Reverts of the updater manager -/

theorem eq_of_dequeueUntil_eq_error {newRoot : Bytes32 Byte}
    {queue : QueueLib.Queue (Bytes32 Byte)} {e : Revert}
    (h : dequeueUntil newRoot queue = .error e) : e = .require "Empty" := by
  fun_induction dequeueUntil newRoot queue with
  | case1 queue e' hdequeue =>
    obtain rfl := Except.error.inj h
    rcases require_bind_eq_error.mp hdequeue with ⟨-, he⟩ | ⟨-, hok⟩
    · exact he
    · cases hok
  | case2 => cases h
  | case3 queue next rest hdequeue _ hne ih => exact ih h

theorem fraud_of_improperUpdate_reverts
    (h : improperUpdate K ctx u.oldRoot u.newRoot u.signature home =
      .error (.external "slashUpdater")) :
    IsSignedBy K home.localDomain home.updater u ∧ u.oldRoot = home.committedRoot ∧
      home.queue.contains u.newRoot = false := by
  rcases require_bind_eq_error.mp h with ⟨-, he⟩ | ⟨-, h⟩
  · cases he
  rcases bind_eq_error.mp h with hsigned | ⟨signed, hsigned, h⟩
  · exact absurd (eq_of_isUpdaterSignature_eq_error hsigned) (by decide)
  rcases require_bind_eq_error.mp h with ⟨-, he⟩ | ⟨htrue, h⟩
  · cases he
  rcases require_bind_eq_error.mp h with ⟨-, he⟩ | ⟨hcurrent, h⟩
  · cases he
  rw [htrue] at hsigned
  split_ifs at h with hqueued
  exact ⟨_isUpdaterSignature_eq_true.mp hsigned, hcurrent, by simpa using hqueued⟩

/-- When a call reverts because `slashUpdater` did, there was a fraud to slash. -/
theorem fraud_of_slash_reverts
    (h : exec K ctx call home = .error (.external "slashUpdater")) : Fraud K home call := by
  cases call with
  | dispatch destination recipient body =>
    rcases require_bind_eq_error.mp h with ⟨-, he⟩ | ⟨-, h⟩
    · cases he
    rcases require_bind_eq_error.mp h with ⟨-, he⟩ | ⟨-, h⟩
    · cases he
    rcases bind_eq_error.mp h with hinsert | ⟨tree, -, h⟩
    · rcases require_bind_eq_error.mp hinsert with ⟨-, he⟩ | ⟨-, hinsert⟩
      · cases he
      · split at hinsert <;> cases hinsert
    · cases h
  | update u =>
    rcases require_bind_eq_error.mp h with ⟨-, he⟩ | ⟨-, h⟩
    · cases he
    rcases bind_eq_error.mp h with himproper | ⟨⟨improper, home₁, events⟩, -, h⟩
    · obtain ⟨hsigned, hcurrent, habsent⟩ := fraud_of_improperUpdate_reverts himproper
      exact .improper u (.inl rfl) hsigned hcurrent habsent
    · cases improper with
      | true => cases h
      | false =>
        rcases bind_eq_error.mp h with hloop | ⟨queue, -, h⟩
        · exact absurd (eq_of_dequeueUntil_eq_error hloop) (by decide)
        · cases h
  | improperUpdate u =>
    rcases bind_eq_error.mp h with himproper | ⟨⟨improper, home₁, events⟩, -, h⟩
    · obtain ⟨hsigned, hcurrent, habsent⟩ := fraud_of_improperUpdate_reverts himproper
      exact .improper u (.inr rfl) hsigned hcurrent habsent
    · cases h
  | doubleUpdate oldRoot newRoot₀ newRoot₁ signature signature₂ =>
    rcases require_bind_eq_error.mp h with ⟨-, he⟩ | ⟨-, h⟩
    · cases he
    rcases bind_eq_error.mp h with hconflict | ⟨conflict, hconflict, h⟩
    · exact absurd (eq_of_isDoubleUpdate_eq_error hconflict) (by decide)
    cases conflict with
    | false => cases h
    | true =>
      obtain ⟨hfirst, hsecond, hne⟩ := isDoubleUpdate_eq_true.mp hconflict
      exact .double _ _ _ _ _ hfirst hsecond hne
  | setUpdater updater =>
    rcases require_bind_eq_error.mp h with ⟨-, he⟩ | ⟨-, h⟩
    · cases he
    · cases h
  | setUpdaterManager manager =>
    rcases require_bind_eq_error.mp h with ⟨-, he⟩ | ⟨-, h⟩
    · cases he
    rcases require_bind_eq_error.mp h with ⟨-, he⟩ | ⟨-, h⟩
    · cases he
    · cases h

end Effects

end Exec

end Optics.Home
