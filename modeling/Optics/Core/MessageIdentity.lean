/-
# Message identities

Nothing that names a message is used twice: neither its leaf index, nor its destination
with its nonce, nor its bytes, nor its hash. The counter of a destination has 32 bits and
is incremented without a check. It is the tree that keeps it from wrapping, since all
destinations together have fewer than `2 ^ 32` leaves there.
-/

import Optics.Core.HomeInvariant
import Optics.Core.HomeMessages

namespace Optics.Home

open Optics.Math Optics.Solidity Optics.Math.Transition

variable {Byte : Type}

/-! ### The two halves of a packed pair -/

/-- The upper half of a packed pair. -/
def destinationOf (packed : UInt64) : UInt32 := (packed >>> 32).toUInt32

/-- The lower half of a packed pair. -/
def nonceOf (packed : UInt64) : UInt32 := packed.toUInt32

@[simp] theorem destinationOf_destinationAndNonce (destination nonce : UInt32) :
    destinationOf (_destinationAndNonce destination nonce) = destination := by
  have hd := destination.toNat_lt
  have hn := nonce.toNat_lt
  apply UInt32.toNat_inj.mp
  rw [destinationOf, UInt64.toNat_toUInt32, UInt64.toNat_shiftRight, toNat_destinationAndNonce]
  change (destination.toNat * 2 ^ 32 + nonce.toNat) >>> 32 % 2 ^ 32 = destination.toNat
  rw [Nat.shiftRight_eq_div_pow]
  omega

@[simp] theorem nonceOf_destinationAndNonce (destination nonce : UInt32) :
    nonceOf (_destinationAndNonce destination nonce) = nonce := by
  have hn := nonce.toNat_lt
  apply UInt32.toNat_inj.mp
  rw [nonceOf, UInt64.toNat_toUInt32, toNat_destinationAndNonce]
  omega

/-! ### Events and dispatches, side by side -/

section Events

variable [ByteAlphabet Byte] {K : Crypto Byte} {history : History Byte}

namespace History.Numbered

theorem length_dispatches (h : history.Numbered K) :
    (dispatches history.log).length = history.dispatched.length := by
  have hlength := congrArg List.length h.leafIndexes
  rwa [List.length_map, List.length_range] at hlength

/-- The events announce the dispatches in their order. -/
theorem announced_at (h : history.Numbered K) {i : ℕ} {e : DispatchEvent Byte}
    (hi : (dispatches history.log)[i]? = some e) :
    ∃ d, history.dispatched[i]? = some d ∧ e.Announces K history.home.localDomain d := by
  -- the event says where its dispatch is, and events come in the order of their indexes
  obtain ⟨d, hd, hannounced⟩ := h.announced e (List.mem_of_getElem? hi)
  have hindex : ((dispatches history.log).map DispatchEvent.leafIndex)[i]? = some e.leafIndex := by
    rw [List.getElem?_map, hi]
    rfl
  rw [h.leafIndexes] at hindex
  obtain ⟨hlt, hindex⟩ := List.getElem?_eq_some_iff.mp hindex
  rw [List.getElem_range] at hindex
  exact ⟨d, hindex ▸ hd, hannounced⟩

/-- What is read off the events is what is read off the dispatches. -/
theorem map_dispatches {β : Type} (h : history.Numbered K) (f : DispatchEvent Byte → β)
    (g : Dispatched Byte → β)
    (hfg : ∀ e d, e.Announces K history.home.localDomain d → f e = g d) :
    (dispatches history.log).map f = history.dispatched.map g := by
  refine List.ext_getElem? fun i => ?_
  rw [List.getElem?_map, List.getElem?_map]
  cases hi : (dispatches history.log)[i]? with
  | none =>
    rw [List.getElem?_eq_none_iff, h.length_dispatches] at hi
    rw [List.getElem?_eq_none hi]
    rfl
  | some e =>
    obtain ⟨d, hd, hannounced⟩ := h.announced_at hi
    rw [hd]
    exact congrArg some (hfg e d hannounced)

theorem dispatches_nodup (h : history.Numbered K) : (dispatches history.log).Nodup := by
  refine List.Nodup.of_map DispatchEvent.leafIndex ?_
  rw [h.leafIndexes]
  exact List.nodup_range

end History.Numbered

end Events

/-! ### Identities -/

/-- The destination and the nonce that an event announces. -/
def DispatchEvent.destination (e : DispatchEvent Byte) : UInt32 :=
  destinationOf e.destinationAndNonce

def DispatchEvent.nonce (e : DispatchEvent Byte) : UInt32 := nonceOf e.destinationAndNonce

/-- The messages sent to a destination. -/
def sentEvents (log : List (Event Byte)) (destination : UInt32) : List (DispatchEvent Byte) :=
  (dispatches log).filter fun e => e.destination = destination

/-- The identities of the messages of a Home: indexes and nonces count without gaps and
without wrapping, the packed pairs split into what the messages say, and nothing is
repeated. -/
structure Identified [ByteAlphabet Byte] (K : Crypto Byte) (history : History Byte) : Prop where
  leafIndexes : (dispatches history.log).map DispatchEvent.leafIndex =
    List.range (dispatches history.log).length
  leaves : (dispatches history.log).map DispatchEvent.messageHash = history.leaves K
  room : (dispatches history.log).length ≤ 2 ^ 32 - 1
  nonces : ∀ destination, (sentEvents history.log destination).map (fun e => e.nonce.toNat) =
    List.range (sentEvents history.log destination).length
  counters : ∀ destination, (history.home.nonces destination).toNat =
    (sentEvents history.log destination).length
  splits : ∀ e ∈ dispatches history.log,
    e.destinationAndNonce = _destinationAndNonce e.destination e.nonce ∧
      Message.destination e.message = .ok e.destination ∧ Message.nonce e.message = .ok e.nonce
  packed_nodup : ((dispatches history.log).map DispatchEvent.destinationAndNonce).Nodup
  message_nodup : ((dispatches history.log).map DispatchEvent.message).Nodup
  leaves_nodup : Function.Injective K.keccak256 → (history.leaves K).Nodup

section Identities

variable [ByteAlphabet Byte] {K : Crypto Byte} {history : History Byte}

/-- The messages to a destination are as many as the dispatches there, and so are their
nonces. -/
theorem History.Numbered.nonces_sentEvents (h : history.Numbered K) (destination : UInt32) :
    (sentEvents history.log destination).map (fun e => e.nonce.toNat) =
      List.range (sentTo history.dispatched destination) := by
  have hpacked := h.map_dispatches DispatchEvent.destinationAndNonce
    (fun d => _destinationAndNonce d.destination d.nonce) fun e d hannounced =>
      hannounced.destinationAndNonce
  have hsent : (sentEvents history.log destination).map (fun e => e.nonce.toNat) =
      (((dispatches history.log).map DispatchEvent.destinationAndNonce).filter
        fun packed => destinationOf packed = destination).map
          fun packed => (nonceOf packed).toNat := by
    rw [List.filter_map, List.map_map]
    rfl
  have hcounted := h.byDestination.map_number destination
  rw [hsent, hpacked, List.filter_map, List.map_map, sentTo]
  simpa [Function.comp_def, Numbering.uses] using hcounted

theorem History.Numbered.identified (h : history.Numbered K) : Identified K history := by
  have hsent : ∀ destination, (sentEvents history.log destination).length =
      sentTo history.dispatched destination := by
    intro destination
    have hlength := congrArg List.length (h.nonces_sentEvents destination)
    rwa [List.length_map, List.length_range] at hlength
  have hsplits : ∀ e ∈ dispatches history.log,
      e.destinationAndNonce = _destinationAndNonce e.destination e.nonce ∧
        Message.destination e.message = .ok e.destination ∧
        Message.nonce e.message = .ok e.nonce := by
    intro e he
    obtain ⟨d, -, hannounced⟩ := h.announced e he
    rw [DispatchEvent.destination, DispatchEvent.nonce, hannounced.destinationAndNonce,
      hannounced.message, Dispatched.message]
    simp
  have hleaves : (dispatches history.log).map DispatchEvent.messageHash = history.leaves K :=
    h.map_dispatches _ _ fun e d hannounced => hannounced.messageHash
  refine
    { leafIndexes := h.length_dispatches ▸ h.leafIndexes
      leaves := hleaves
      room := ?_
      nonces := fun destination => ?_
      counters := fun destination => ?_
      splits := hsplits
      packed_nodup := ?_
      message_nodup := ?_
      leaves_nodup := fun hinjective => ?_ }
  · rw [h.length_dispatches]
    exact h.fits
  · rw [hsent, h.nonces_sentEvents]
  · rw [hsent, h.nonces]
  · exact List.Nodup.map_on (fun e he e' he' => h.event_of_destinationAndNonce he he')
      h.dispatches_nodup
  · exact List.Nodup.map_on (fun e he e' he' => h.event_of_message he he') h.dispatches_nodup
  · rw [← hleaves]
    exact List.Nodup.map_on (fun e he e' he' => h.event_of_messageHash hinjective he he')
      h.dispatches_nodup

variable [DecidableEq Byte]

/-- **Message identities.** In every run of a Home the leaf indexes, and the nonces of each
destination, are the numbers from zero on, no counter wraps, the packed pairs split back,
and no packed pair, no message and, with an injective hash, no leaf comes twice. -/
theorem identities_never_repeat (h : (system K).Reachable history) : Identified K history :=
  (History.numbered_of_reachable h).identified

end Identities

/-- The same message, sent twice in a row. -/
theorem identities_never_repeat_twice :
    ∃ history : History ℕ, Identified (Crypto.withIdealHash fun _ _ => none) history ∧
      (dispatches history.log).length = 2 := by
  obtain ⟨start, middle, history, hinit, hfirst, hsecond, -, -, -, -, hleaves, -⟩ :=
    exists_dispatched_twice (Crypto.withIdealHash fun _ _ => none) 0
  have hreach := ((System.reachable_init hinit).step hfirst).step hsecond
  have hidentified := identities_never_repeat hreach
  refine ⟨history, hidentified, ?_⟩
  have hlength := congrArg List.length (hidentified.leaves.trans hleaves)
  simpa using hlength

end Optics.Home
