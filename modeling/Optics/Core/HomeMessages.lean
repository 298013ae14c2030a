/-
# The messages of Home

Every accepted dispatch emits one `Dispatch` event. The events number the
messages twice: by leaf index over the whole Home, and by nonce within one
destination. Both count from zero without gaps, and neither counter wraps
because the tree takes fewer than `2 ^ 32` leaves. So a leaf index, a pair of
destination and nonce, and with an ideal hash also a message hash belong to one
event only.
-/

import Optics.Core.HomeHistory
import Optics.Math.Numbering

namespace Optics.Home

open Optics.Math Optics.Solidity Optics.Math.Transition

variable {Byte : Type}

/-- The fields of a `Dispatch` event. -/
structure DispatchEvent (Byte : Type) where
  messageHash : Bytes32 Byte
  leafIndex : ℕ
  destinationAndNonce : UInt64
  committedRoot : Bytes32 Byte
  message : List Byte

/-- The dispatch that an event announces, if it is a `Dispatch`. -/
def Event.dispatch? : Event Byte → Option (DispatchEvent Byte)
  | .Dispatch messageHash leafIndex destinationAndNonce committedRoot message =>
    some ⟨messageHash, leafIndex, destinationAndNonce, committedRoot, message⟩
  | _ => none

/-- The `Dispatch` events of a log, oldest first. -/
def dispatches (log : List (Event Byte)) : List (DispatchEvent Byte) :=
  log.filterMap Event.dispatch?

@[simp] theorem dispatches_append (log events : List (Event Byte)) :
    dispatches (log ++ events) = dispatches log ++ dispatches events := List.filterMap_append

theorem dispatches_eq_nil {events : List (Event Byte)} (h : ∀ e ∈ events, e.Administrative) :
    dispatches events = [] := by
  refine List.filterMap_eq_nil_iff.mpr fun e he => ?_
  cases e with
  | Dispatch => exact absurd (h _ he) id
  | Update => rfl
  | ImproperUpdate => rfl
  | DoubleUpdate => rfl
  | UpdaterSlashed => rfl
  | NewUpdater => rfl
  | NewUpdaterManager => rfl

/-- The number of dispatches to a destination. -/
def sentTo (dispatched : List (Dispatched Byte)) (destination : UInt32) : ℕ :=
  dispatched.countP fun d => d.destination = destination

theorem sentTo_append (before after : List (Dispatched Byte)) (destination : UInt32) :
    sentTo (before ++ after) destination = sentTo before destination + sentTo after destination :=
  Numbering.uses_append after

theorem sentTo_le_length (dispatched : List (Dispatched Byte)) (destination : UInt32) :
    sentTo dispatched destination ≤ dispatched.length := Numbering.uses_le_length

/-! ### Packing of destination and nonce -/

theorem toNat_destinationAndNonce (destination nonce : UInt32) :
    (_destinationAndNonce destination nonce).toNat = destination.toNat * 2 ^ 32 + nonce.toNat := by
  have hd := destination.toNat_lt
  have hshift : destination.toNat <<< 32 % 2 ^ 64 = destination.toNat <<< 32 := by
    rw [Nat.shiftLeft_eq]
    exact Nat.mod_eq_of_lt (by omega)
  rw [_destinationAndNonce, UInt64.toNat_or, UInt64.toNat_shiftLeft, UInt32.toNat_toUInt64,
    UInt32.toNat_toUInt64, ← Nat.shiftLeft_eq, Nat.shiftLeft_add_eq_or_of_lt nonce.toNat_lt]
  exact congrArg (· ||| nonce.toNat) hshift

/-- The packed value splits back into its parts. -/
theorem destinationAndNonce_inj {destination nonce destination' nonce' : UInt32}
    (h : _destinationAndNonce destination nonce = _destinationAndNonce destination' nonce') :
    destination = destination' ∧ nonce = nonce' := by
  have hvalue := congrArg UInt64.toNat h
  rw [toNat_destinationAndNonce, toNat_destinationAndNonce] at hvalue
  have hn := nonce.toNat_lt
  have hn' := nonce'.toNat_lt
  constructor
  · apply UInt32.toNat_inj.mp
    omega
  · apply UInt32.toNat_inj.mp
    omega

/-! ### The invariant -/

variable [ByteAlphabet Byte] (K : Crypto Byte)

/-- The event that `dispatch` emits for an accepted dispatch, but for the index
and the committed root. -/
structure DispatchEvent.Announces (localDomain : UInt32) (e : DispatchEvent Byte)
    (d : Dispatched Byte) : Prop where
  messageHash : e.messageHash = K.keccak256 (d.message localDomain)
  destinationAndNonce : e.destinationAndNonce = _destinationAndNonce d.destination d.nonce
  message : e.message = d.message localDomain

/-- Leaf indexes and nonces count the accepted dispatches. -/
structure History.Numbered (history : History Byte) : Prop where
  count : history.home.tree.count = history.dispatched.length
  fits : history.dispatched.length ≤ MerkleLib.MAX_LEAVES
  nonces : ∀ destination,
    (history.home.nonces destination).toNat = sentTo history.dispatched destination
  nonce : ∀ i d, history.dispatched[i]? = some d →
    d.nonce.toNat = sentTo (history.dispatched.take i) d.destination
  leafIndexes : (dispatches history.log).map DispatchEvent.leafIndex =
    List.range history.dispatched.length
  announced : ∀ e ∈ dispatches history.log, ∃ d,
    history.dispatched[e.leafIndex]? = some d ∧ e.Announces K history.home.localDomain d

namespace History.Numbered

variable {K} {history : History Byte}

/-- Everything but the counters, the messages and their events may change. -/
theorem congr {history' : History Byte} (h : history.Numbered K)
    (htree : history'.home.tree = history.home.tree)
    (hnonces : history'.home.nonces = history.home.nonces)
    (hdomain : history'.home.localDomain = history.home.localDomain)
    (hdispatched : history'.dispatched = history.dispatched)
    (hevents : dispatches history'.log = dispatches history.log) : history'.Numbered K where
  count := by
    rw [htree, hdispatched]
    exact h.count
  fits := hdispatched ▸ h.fits
  nonces := by
    rw [hnonces, hdispatched]
    exact h.nonces
  nonce := hdispatched ▸ h.nonce
  leafIndexes := by
    rw [hevents, hdispatched]
    exact h.leafIndexes
  announced := by
    rw [hevents, hdispatched, hdomain]
    exact h.announced

/-- The nonces number the dispatches of each destination. -/
theorem byDestination (h : history.Numbered K) :
    Numbering.Numbered Dispatched.destination (fun d => d.nonce.toNat) id history.dispatched :=
  h.nonce

/-- A new dispatch takes the next leaf index and the next nonce. -/
theorem dispatch {ctx : Context Byte} {destination : UInt32} {recipient : Bytes32 Byte}
    {body : List Byte} {d : Dispatched Byte} {tree : MerkleLib.Tree Byte} {leaf : Bytes32 Byte}
    {queue : QueueLib.Queue (Bytes32 Byte)} (h : history.Numbered K)
    (hd : d = ⟨ctx.sender, history.home.nonces destination, destination, recipient, body⟩)
    (hinsert : MerkleLib.insert K history.home.tree leaf = .ok tree) (root : Bytes32 Byte) :
    History.Numbered K ⟨{ history.home with
        nonces := Function.update history.home.nonces destination
          (history.home.nonces destination + 1)
        tree := tree
        queue := queue },
      history.log ++ [.Dispatch (K.keccak256 (d.message history.home.localDomain)) (tree.count - 1)
        (_destinationAndNonce destination (history.home.nonces destination)) root
        (d.message history.home.localDomain)],
      history.dispatched ++ [d]⟩ := by
  obtain ⟨hroom, hcount⟩ := MerkleLib.count_of_insert hinsert
  rw [h.count] at hroom hcount
  have hdestination : d.destination = destination := congrArg Dispatched.destination hd
  have hnonce : d.nonce = history.home.nonces destination := congrArg Dispatched.nonce hd
  have hsent := sentTo_le_length history.dispatched destination
  refine ⟨?_, ?_, ?_, ?_, ?_, ?_⟩
  · rw [List.length_append]
    exact hcount
  · rw [List.length_append]
    exact hroom
  · intro other
    dsimp only
    rw [sentTo_append, ← h.nonces other]
    by_cases heq : other = destination
    · subst heq
      -- the counter is below the number of leaves, so it does not wrap
      have hlt : (history.home.nonces other).toNat + 1 < 2 ^ 32 := by
        rw [h.nonces]
        simp only [MerkleLib.MAX_LEAVES, MerkleLib.TREE_DEPTH] at hroom
        omega
      have hone : sentTo [d] other = 1 := by simp [sentTo, hdestination]
      rw [Function.update_self, UInt32.toNat_add, hone]
      exact Nat.mod_eq_of_lt hlt
    · have hnone : sentTo [d] other = 0 := by simp [sentTo, hdestination, Ne.symm heq]
      rw [Function.update_of_ne heq, hnone, Nat.add_zero]
  · refine Numbering.numbered_concat.mpr ⟨h.byDestination, ?_⟩
    rw [hnonce, hdestination]
    exact h.nonces destination
  · rw [dispatches_append, List.map_append, h.leafIndexes, List.length_append,
      List.length_singleton, List.range_succ]
    simp [dispatches, Event.dispatch?, hcount]
  · intro e he
    rw [dispatches_append] at he
    rcases List.mem_append.mp he with he | he
    · obtain ⟨d', hat, hannounced⟩ := h.announced e he
      exact ⟨d', (List.getElem?_append_left (List.getElem?_eq_some_iff.mp hat).1).trans hat,
        hannounced⟩
    · obtain rfl := List.mem_singleton.mp he
      refine ⟨d, ?_, rfl, ?_, rfl⟩
      · rw [hcount, Nat.add_sub_cancel]
        exact List.getElem?_concat_length
      · rw [hdestination, hnonce]

end History.Numbered

theorem History.Initial.numbered {history : History Byte} (h : history.Initial) :
    history.Numbered K := by
  obtain ⟨manager, updater, hlog⟩ := h.log_eq
  obtain ⟨domain, ctx, _, _, home, events, hinit, rfl⟩ := h
  obtain ⟨⟨home₁, events₁⟩, hmanager, hinit⟩ := bind_eq_ok.mp hinit
  obtain ⟨-, hmanager⟩ := require_bind_eq_ok.mp hmanager
  obtain ⟨rfl, rfl⟩ := Prod.mk.inj (Except.ok.inj hmanager)
  obtain ⟨rfl, rfl⟩ := Prod.mk.inj (Except.ok.inj hinit)
  refine ⟨rfl, Nat.zero_le _, fun _ => rfl, ?_, rfl, ?_⟩
  · intro i d hd
    simp at hd
  · intro e he
    simp [dispatches, Event.dispatch?] at he

variable [DecidableEq Byte] {K} {history : History Byte}

/-- **Run lemma.** The counters of a reachable Home are right. -/
theorem History.numbered_of_reachable (h : (system K).Reachable history) :
    history.Numbered K := by
  refine h.invariant (fun history hinit => hinit.numbered K) ?_
  intro history tx history' _ hnumbered hstep
  refine callStep_cases (P := fun _ t => t.Numbered K) hstep ?_ hnumbered
  intro t hexec
  obtain ⟨⟨home', events⟩, hok, ht⟩ := bind_eq_ok.mp hexec
  obtain rfl := Except.ok.inj ht
  obtain ⟨ctx, call⟩ := tx
  cases effect_of_exec hok with
  | dispatched destination recipient body d tree hd hstate hbody hinsert =>
    have hcall : (Call.dispatch destination recipient body).dispatched ctx history.home = [d] := by
      rw [hd]
      rfl
    rw [hcall]
    exact hnumbered.dispatch hd hinsert _
  | committed u queue =>
    refine History.Numbered.congr hnumbered ?_ ?_ ?_ (List.append_nil _) ?_
    all_goals simp [dispatches, Event.dispatch?]
  | slashed updater manager hstate hfraud hevents =>
    rw [hfraud.dispatched_eq_nil, List.append_nil]
    refine hnumbered.congr ?_ ?_ ?_ ?_ ?_
    iterate 4 rfl
    rw [dispatches_append, dispatches_eq_nil hevents, List.append_nil]
  | unchanged hquiet =>
    rw [hquiet, List.append_nil, List.append_nil]
    exact hnumbered
  | newUpdater updater =>
    refine History.Numbered.congr hnumbered ?_ ?_ ?_ (List.append_nil _) ?_
    all_goals simp [dispatches, Event.dispatch?]
  | newUpdaterManager manager =>
    refine History.Numbered.congr hnumbered ?_ ?_ ?_ (List.append_nil _) ?_
    all_goals simp [dispatches, Event.dispatch?]

/-! ### What identifies a message -/

namespace History.Numbered

omit [DecidableEq Byte]

/-- Two dispatches with the same destination and nonce are the same one. -/
theorem index_unique (h : history.Numbered K) {i j : ℕ} {d d' : Dispatched Byte}
    (hi : history.dispatched[i]? = some d) (hj : history.dispatched[j]? = some d')
    (hdestination : d.destination = d'.destination) (hnonce : d.nonce = d'.nonce) : i = j := by
  refine h.byDestination.index_unique hi hj hdestination ?_
  rw [hnonce]

/-- A leaf index belongs to one event. -/
theorem event_unique (h : history.Numbered K) {e e' : DispatchEvent Byte}
    (he : e ∈ dispatches history.log) (he' : e' ∈ dispatches history.log)
    (hindex : e.leafIndex = e'.leafIndex) : e = e' := by
  have hnodup : ((dispatches history.log).map DispatchEvent.leafIndex).Nodup := by
    rw [h.leafIndexes]
    exact List.nodup_range
  exact List.inj_on_of_nodup_map hnodup he he' hindex

/-- Leaf indexes fit the width that the agents give them. -/
theorem leafIndex_lt (h : history.Numbered K) {e : DispatchEvent Byte}
    (he : e ∈ dispatches history.log) : e.leafIndex < MerkleLib.MAX_LEAVES := by
  have hmem := List.mem_map_of_mem (f := DispatchEvent.leafIndex) he
  rw [h.leafIndexes, List.mem_range] at hmem
  exact hmem.trans_le h.fits

/-- A packed pair of destination and nonce belongs to one event. -/
theorem event_of_destinationAndNonce (h : history.Numbered K) {e e' : DispatchEvent Byte}
    (he : e ∈ dispatches history.log) (he' : e' ∈ dispatches history.log)
    (hkey : e.destinationAndNonce = e'.destinationAndNonce) : e = e' := by
  obtain ⟨d, hd, hannounced⟩ := h.announced e he
  obtain ⟨d', hd', hannounced'⟩ := h.announced e' he'
  rw [hannounced.destinationAndNonce, hannounced'.destinationAndNonce] at hkey
  obtain ⟨hdestination, hnonce⟩ := destinationAndNonce_inj hkey
  exact h.event_unique he he' (h.index_unique hd hd' hdestination hnonce)

/-- Nonces stay below the number of leaves. -/
theorem nonce_lt (h : history.Numbered K) {i : ℕ} {d : Dispatched Byte}
    (hi : history.dispatched[i]? = some d) : d.nonce.toNat < MerkleLib.MAX_LEAVES := by
  have hlt := (List.getElem?_eq_some_iff.mp hi).1
  have hsent := sentTo_le_length (history.dispatched.take i) d.destination
  rw [List.length_take_of_le hlt.le] at hsent
  rw [h.nonce i d hi]
  exact (hsent.trans_lt hlt).trans_le h.fits

/-- A message belongs to one event: its bytes say its destination and its nonce. -/
theorem event_of_message (h : history.Numbered K) {e e' : DispatchEvent Byte}
    (he : e ∈ dispatches history.log) (he' : e' ∈ dispatches history.log)
    (hmessage : e.message = e'.message) : e = e' := by
  obtain ⟨d, hd, hannounced⟩ := h.announced e he
  obtain ⟨d', hd', hannounced'⟩ := h.announced e' he'
  rw [hannounced.message, hannounced'.message] at hmessage
  have hdestination : d.destination = d'.destination := by
    have hread := congrArg Message.destination hmessage
    rw [Dispatched.message, Dispatched.message, Message.destination_formatMessage,
      Message.destination_formatMessage] at hread
    exact Except.ok.inj hread
  have hnonce : d.nonce = d'.nonce := by
    have hread := congrArg Message.nonce hmessage
    rw [Dispatched.message, Dispatched.message, Message.nonce_formatMessage,
      Message.nonce_formatMessage] at hread
    exact Except.ok.inj hread
  exact h.event_unique he he' (h.index_unique hd hd' hdestination hnonce)

/-- With an injective hash a message hash belongs to one event. -/
theorem event_of_messageHash (hinjective : Function.Injective K.keccak256)
    (h : history.Numbered K) {e e' : DispatchEvent Byte} (he : e ∈ dispatches history.log)
    (he' : e' ∈ dispatches history.log) (hhash : e.messageHash = e'.messageHash) : e = e' := by
  obtain ⟨d, -, hannounced⟩ := h.announced e he
  obtain ⟨d', -, hannounced'⟩ := h.announced e' he'
  rw [hannounced.messageHash, hannounced'.messageHash] at hhash
  refine h.event_of_message he he' ?_
  rw [hannounced.message, hannounced'.message, hinjective hhash]

end History.Numbered

end Optics.Home
