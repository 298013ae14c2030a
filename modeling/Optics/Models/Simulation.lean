/-
# The model of Home beside the contract

The model is run beside the Home contract, call for call. As long as the two agree they
accept the same updates. But the model leaves the nonce out of the messages, so the two
ingest different leaves from the first dispatch on.
-/

import Optics.Core.HomeInvariant
import Optics.Models.Home

namespace Optics.Models

open Optics.Solidity Optics.Accumulator Optics.Digests Optics.Math.Transition
open Optics.Home (Context History)

variable {Byte : Type}

/-- A call that the contract and the model both know. -/
inductive Call (Byte : Type)
  | dispatch (destination : UInt32) (recipient : Bytes32 Byte) (body : List Byte)
  | update (u : Common.SignedUpdate Byte)

/-- The call as the contract takes it. -/
def Call.onContract : Call Byte → Optics.Home.Call Byte
  | .dispatch destination recipient body => .dispatch destination recipient body
  | .update u => .update u

/-- The model and the leaves that it has ingested. -/
structure ModelHistory (Byte : Type) where
  home : Home Byte (Waiting Byte)
  leaves : List (Bytes32 Byte)

/-- The contract and its model. -/
structure Twins (Byte : Type) where
  contract : History Byte
  model : ModelHistory Byte

variable [ByteAlphabet Byte] [DecidableEq Byte] (K : Crypto Byte)
  (hashMessage : List Byte → Bytes32 Byte)

/-- The signed update of the agents for what is submitted to the contract. -/
def Call.signedUpdate (localDomain : UInt32) (u : Common.SignedUpdate Byte) :
    Updater.SignedUpdate Byte := ⟨⟨localDomain, u.oldRoot, u.newRoot⟩, u.signature⟩

/-- One call of the model, with the leaves kept. The sender is an address on the contract's
side, and a word here. -/
def ModelHistory.exec (tx : Context Byte × Call Byte) (model : ModelHistory Byte) :
    Except (OpticsError Byte) (ModelHistory Byte) :=
  match tx.2 with
  | .dispatch destination recipient body => do
    let sender := addressToBytes32 tx.1.sender
    let home ← model.home.dispatch K sender destination recipient body
    .ok ⟨home, model.leaves ++ [model.home.messageHash K sender destination recipient body]⟩
  | .update u => do
    let home ← model.home.update K hashMessage (Call.signedUpdate model.home.localDomain u)
    .ok ⟨home, model.leaves⟩

namespace Twins

/-- Both after a call. What is refused changes nothing. -/
def after (tx : Context Byte × Call Byte) (twins : Twins Byte) : Twins Byte where
  contract := afterCall (History.exec K) (tx.1, tx.2.onContract) twins.contract
  model := afterCall (ModelHistory.exec K hashMessage) tx twins.model

/-- The two show the same to whoever looks at them. -/
structure Agree (twins : Twins Byte) : Prop where
  leaves : twins.contract.leaves K = twins.model.leaves
  root : MerkleLib.root K twins.contract.home.tree = twins.model.home.root K
  queue : twins.contract.home.queue.Represents twins.model.home.state.queue
  committedRoot : twins.contract.home.committedRoot = twins.model.home.committedRoot
  suggested : twins.model.home.state.queue ≠ [] → twins.contract.home.suggestUpdate =
    ((twins.model.home.produceUpdate K).previousRoot, (twins.model.home.produceUpdate K).newRoot)

/-- Both accept an update, or neither does. -/
def SameAnswer (tx : Context Byte × Call Byte) (twins : Twins Byte) : Prop :=
  ∀ u, tx.2 = .update u → (twins.contract.exec K (tx.1, tx.2.onContract)).isOk =
    (twins.model.exec K hashMessage tx).isOk

/-- The two stay together through a list of calls. -/
def LockStep : List (Context Byte × Call Byte) → Twins Byte → Prop
  | [], _ => True
  | tx :: rest, twins => twins.SameAnswer K hashMessage tx ∧
      (twins.after K hashMessage tx).Agree K ∧ LockStep rest (twins.after K hashMessage tx)

/-- The calls in question: messages of at most 2048 bytes, and updates that the updater has
signed and whose new root is in the contract's queue. -/
def Allowed (twins : Twins Byte) : Call Byte → Prop
  | .dispatch _ _ body => body.length ≤ Home.MAX_MESSAGE_BODY_BYTES
  | .update u => Common.IsSignedBy K twins.contract.home.localDomain twins.contract.home.updater u ∧
      twins.contract.home.queue.contains u.newRoot = true

/-- Every call of the list is in question when it is made. -/
def Admissible : List (Context Byte × Call Byte) → Twins Byte → Prop
  | [], _ => True
  | tx :: rest, twins => twins.Allowed K tx.2 ∧ Admissible rest (twins.after K hashMessage tx)

/-- A Home just after `initialize`, and the model just after `init` with its domain and its
updater. -/
structure Start (twins : Twins Byte) : Prop where
  contract : twins.contract.Initial
  model : twins.model =
    ⟨Home.init K twins.contract.home.localDomain twins.contract.home.updater, []⟩

variable {K hashMessage} {twins : Twins Byte} {contract : History Byte}
  {model : ModelHistory Byte} {ctx : Context Byte} {destination : UInt32}
  {recipient : Bytes32 Byte} {body : List Byte} {u : Common.SignedUpdate Byte}

/-! ### What a call does to the two -/

omit [DecidableEq Byte] in
/-- The contract hashes four bytes more than the model. -/
theorem message_ne (d : Home.Dispatched Byte) (localDomain origin : UInt32)
    (sender : Bytes32 Byte) :
    d.message localDomain ≠ formatMessage origin sender d.destination d.recipient d.body := by
  intro h
  have hlength := congrArg List.length h
  simp [Home.Dispatched.message, Message.formatMessage, formatMessage] at hlength

/-- A dispatch that both accept sets them apart, whatever they were before. -/
theorem not_agree_of_dispatch (ideal : Crypto.IdealHash K)
    (hcontract : twins.contract.exec K (ctx, .dispatch destination recipient body) = .ok contract)
    (hmodel : twins.model.exec K hashMessage (ctx, .dispatch destination recipient body) =
      .ok model) : ¬ Agree K ⟨contract, model⟩ := by
  intro h
  obtain ⟨home, events, hexec, rfl⟩ := History.exec_eq_ok.mp hcontract
  obtain ⟨home', -, hmodel⟩ := bind_eq_ok.mp hmodel
  obtain rfl := Except.ok.inj hmodel
  have hleaves := h.leaves
  rw [History.leaves_exec (Home.effect_of_exec hexec)] at hleaves
  have hlast := List.singleton_inj.mp (List.append_inj_right' hleaves rfl)
  exact message_ne ⟨ctx.sender, _, destination, recipient, body⟩ _ _ _ (ideal.injective hlast)

/-! ### Where the two answer alike -/

omit [ByteAlphabet Byte] [DecidableEq Byte] in
theorem isOk_eq_true {ε α : Type} {x : Except ε α} : x.isOk = true ↔ ∃ a, x = .ok a := by
  cases x with
  | ok a => simp [Except.isOk, Except.toBool]
  | error e => simp [Except.isOk, Except.toBool]

/-- The contract accepts no update from another root than its committed one. -/
theorem oldRoot_of_update {home : Optics.Home Byte}
    {result : Optics.Home Byte × List (Home.Event Byte)}
    (h : Home.exec K ctx (.update u) home = .ok result) : u.oldRoot = home.committedRoot := by
  obtain ⟨-, ⟨improper, home₁, events₁⟩, himproper, -⟩ :=
    require_bind_eq_ok.mp h |>.imp_right bind_eq_ok.mp
  obtain ⟨-, -, hcurrent, -⟩ := Home.improperUpdate_spec himproper
  exact hcurrent

/-- The contract accepts an update in question if it starts from its committed root. -/
theorem contract_accepts_iff (ideal : Crypto.IdealHash K)
    (hreach : (Home.system K).Reachable twins.contract)
    (hactive : twins.contract.home.state ≠ .Failed) (hallowed : twins.Allowed K (.update u)) :
    (twins.contract.exec K (ctx, .update u)).isOk = true ↔
      u.oldRoot = twins.contract.home.committedRoot := by
  rw [isOk_eq_true]
  constructor
  · rintro ⟨contract, hcontract⟩
    obtain ⟨home, events, hexec, -⟩ := History.exec_eq_ok.mp hcontract
    exact oldRoot_of_update hexec
  · intro hcurrent
    obtain ⟨k, hstores⟩ := Home.storesInStep_of_reachable ideal hreach
    -- a queued root gets through the dequeue loop
    obtain ⟨j, queue, -, -, -, -, -, -, hupdate⟩ := hstores.update u.newRoot hallowed.2
    have hexec := hupdate ctx u.signature hactive (hcurrent ▸ hallowed.1)
    rw [← hcurrent] at hexec
    exact ⟨_, History.exec_eq_ok.mpr ⟨_, _, hexec, rfl⟩⟩

/-- The model accepts it if it starts from the committed root of the model. -/
theorem model_accepts_iff (hsig : (twins.model.home.checkSig K hashMessage
      (Call.signedUpdate twins.model.home.localDomain u)).isOk = true)
    (hqueued : u.newRoot ∈ twins.model.home.state.queue) :
    (twins.model.exec K hashMessage (ctx, .update u)).isOk = true ↔
      u.oldRoot = twins.model.home.committedRoot := by
  rw [isOk_eq_true]
  constructor
  · rintro ⟨model, hmodel⟩
    obtain ⟨home, hupdate, -⟩ := bind_eq_ok.mp hmodel
    exact (Home._update_eq_ok (Home.update_eq_ok hupdate).2).1
  · intro hcurrent
    obtain ⟨home, hupdate⟩ := Home.exists_update hsig hcurrent hqueued
    exact ⟨_, bind_eq_ok.mpr ⟨home, hupdate, rfl⟩⟩

/-- The agents and the contract verify the same signatures. -/
theorem checkSig_of_isSignedBy (hwraps : WrapsHashes K hashMessage)
    {home : Home Byte (Waiting Byte)} (h : Common.IsSignedBy K home.localDomain home.updater u) :
    (home.checkSig K hashMessage (Call.signedUpdate home.localDomain u)).isOk = true := by
  have hrecover : K.recover (updatePrependedHash K hashMessage
      (Call.signedUpdate home.localDomain u).update) u.signature = some home.updater := by
    rw [updatePrependedHash_eq hwraps]
    exact h
  rw [Home.checkSig, verify]
  simp [Call.signedUpdate, Except.isOk, Except.toBool] at hrecover ⊢
  rw [hrecover]
  simp

/-- As long as the two agree, they accept the same updates. -/
theorem sameAnswer_of_agree (ideal : Crypto.IdealHash K) (hwraps : WrapsHashes K hashMessage)
    (h : twins.Agree K) (hreach : (Home.system K).Reachable twins.contract)
    (hactive : twins.contract.home.state ≠ .Failed)
    (hdomain : twins.model.home.localDomain = twins.contract.home.localDomain)
    (hupdater : twins.model.home.updater = twins.contract.home.updater)
    {call : Call Byte} (hallowed : twins.Allowed K call) :
    twins.SameAnswer K hashMessage (ctx, call) := by
  rintro u rfl
  have hsig : (twins.model.home.checkSig K hashMessage
      (Call.signedUpdate twins.model.home.localDomain u)).isOk = true := by
    apply checkSig_of_isSignedBy hwraps
    rw [hdomain, hupdater]
    exact hallowed.1
  have hqueued := h.queue.contains_iff.mp hallowed.2
  rw [Bool.eq_iff_iff, model_accepts_iff hsig hqueued, ← h.committedRoot]
  exact contract_accepts_iff ideal hreach hactive hallowed

/-! ### Runs -/

theorem after_eq {tx : Context Byte × Call Byte}
    (hcontract : twins.contract.exec K (tx.1, tx.2.onContract) = .ok contract)
    (hmodel : twins.model.exec K hashMessage tx = .ok model) :
    twins.after K hashMessage tx = ⟨contract, model⟩ := by
  rw [Twins.after, afterCall_of_ok hcontract, afterCall_of_ok hmodel]

omit [DecidableEq Byte] in
theorem Start.leaves_eq (h : twins.Start K) : twins.contract.leaves K = [] := by
  obtain ⟨domain, ctx, manager, updater, home, events, -, hcontract⟩ := h.contract
  rw [hcontract]
  rfl

/-- Nothing is in the queue at the start, so there is nothing to commit. -/
theorem Start.not_allowed (h : twins.Start K) : ¬ twins.Allowed K (.update u) := by
  rintro ⟨-, hqueued⟩
  obtain ⟨j, hlow, hhigh, -⟩ := h.contract.sound.inStep.contains_iff.mp hqueued
  rw [h.leaves_eq] at hhigh
  exact absurd (hlow.trans_le hhigh) (Nat.lt_irrefl 0)

variable (ctx destination recipient) in
/-- The first message goes through on both sides. -/
theorem Start.exists_dispatch (hashMessage : List Byte → Bytes32 Byte) (h : twins.Start K)
    (hbody : body.length ≤ Home.MAX_MESSAGE_BODY_BYTES) :
    (∃ contract, twins.contract.exec K (ctx, .dispatch destination recipient body) = .ok contract) ∧
      ∃ model, twins.model.exec K hashMessage (ctx, .dispatch destination recipient body) =
        .ok model := by
  constructor
  · have hroom : (twins.contract.leaves K).length < MerkleLib.MAX_LEAVES := by
      rw [h.leaves_eq]
      exact (by decide : 0 < MerkleLib.MAX_LEAVES)
    have hactive : twins.contract.home.state ≠ .Failed := by
      rw [h.contract.active]
      exact nofun
    obtain ⟨tree, -, hexec⟩ := Home.dispatch_of_room ctx destination recipient body rfl
      h.contract.sound.inStep.tree hroom hactive hbody
    exact ⟨_, History.exec_eq_ok.mpr ⟨_, _, hexec, rfl⟩⟩
  · obtain ⟨accumulator, hingest, -⟩ := (IncrementalMerkle.holds_default (K := K)).ingest
      (twins.model.home.messageHash K (addressToBytes32 ctx.sender) destination recipient body)
      (by decide : 0 < U32_MAX)
    have hdefault : twins.model.home.state.accumulator = .default K := by
      rw [h.model]
      rfl
    rw [← hdefault] at hingest
    exact ⟨_, bind_eq_ok.mpr ⟨_, Home.dispatch_of_ingest hingest, rfl⟩⟩

variable (ctx destination recipient) in
/-- A dispatch at the start ends the agreement. -/
theorem Start.not_agree (hashMessage : List Byte → Bytes32 Byte) (ideal : Crypto.IdealHash K)
    (h : twins.Start K) (hbody : body.length ≤ Home.MAX_MESSAGE_BODY_BYTES) :
    ¬ (twins.after K hashMessage (ctx, .dispatch destination recipient body)).Agree K := by
  obtain ⟨⟨contract, hcontract⟩, model, hmodel⟩ :=
    h.exists_dispatch ctx destination recipient hashMessage hbody
  rw [after_eq hcontract hmodel]
  exact not_agree_of_dispatch ideal hcontract hmodel

/-- **Lock step.** The model stays with the contract on exactly the lists of calls that
contain no dispatch. -/
theorem lockStep_iff (ideal : Crypto.IdealHash K) (hstart : twins.Start K)
    {calls : List (Context Byte × Call Byte)} (hcalls : twins.Admissible K hashMessage calls) :
    LockStep K hashMessage calls twins ↔
      ∀ ctx destination recipient body, (ctx, .dispatch destination recipient body) ∉ calls := by
  cases calls with
  | nil =>
    refine ⟨fun _ ctx destination recipient body => List.not_mem_nil, fun _ => trivial⟩
  | cons tx rest =>
    obtain ⟨hallowed, -⟩ := hcalls
    obtain ⟨ctx, call⟩ := tx
    cases call with
    -- the first call cannot be an update
    | update u => exact absurd hallowed hstart.not_allowed
    | dispatch destination recipient body =>
      constructor
      · rintro ⟨-, hagree, -⟩
        exact absurd hagree (hstart.not_agree ctx destination recipient hashMessage ideal hallowed)
      · intro hno
        exact absurd List.mem_cons_self (hno ctx destination recipient body)

/-! ### One message -/

section Sample

/-- A Home that `initialize` has just left, and the model. -/
def sampleTwins : Twins ℕ where
  contract := ⟨{ (Home.fresh 1000 : Optics.Home ℕ) with
    owner := Home.sampleContext.sender
    queue := (QueueLib.Queue.fresh : QueueLib.Queue (Bytes32 ℕ)).init
    updaterManager := 0
    updater := 0
    state := .Active }, [.NewUpdaterManager 0, .NewUpdater 0], []⟩
  model := ⟨Home.init sampleCrypto 1000 0, []⟩

theorem sampleTwins_start : sampleTwins.Start sampleCrypto where
  contract := Home.initial_of_isContract 1000 Home.sampleContext 0 0 rfl
  model := rfl

theorem lockStep_sample :
    let calls := [(Home.sampleContext, .dispatch 2000 0 [])]
    sampleTwins.Admissible sampleCrypto sampleHashMessage calls ∧
      (LockStep sampleCrypto sampleHashMessage calls sampleTwins ↔
        ∀ ctx destination recipient body, (ctx, .dispatch destination recipient body) ∉ calls) := by
  have hcalls : sampleTwins.Admissible sampleCrypto sampleHashMessage
      [(Home.sampleContext, .dispatch 2000 0 [])] := ⟨Nat.zero_le _, trivial⟩
  exact ⟨hcalls, lockStep_iff (Crypto.withIdealHash_ideal _) sampleTwins_start hcalls⟩

/-- One empty message, and the two have different leaves. -/
theorem not_lockStep : ¬ ∀ (twins : Twins ℕ) (calls : List (Context ℕ × Call ℕ)),
    twins.Start sampleCrypto → twins.Admissible sampleCrypto sampleHashMessage calls →
      LockStep sampleCrypto sampleHashMessage calls twins := by
  intro hall
  obtain ⟨-, hagree, -⟩ := hall sampleTwins [(Home.sampleContext, .dispatch 2000 0 [])]
    sampleTwins_start ⟨Nat.zero_le _, trivial⟩
  exact sampleTwins_start.not_agree _ _ _ _ (Crypto.withIdealHash_ideal _) (Nat.zero_le _) hagree

end Sample

end Twins

end Optics.Models
