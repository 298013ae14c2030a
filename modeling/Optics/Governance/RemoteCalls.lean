/-
# Calls on another chain

`formatCalls` cuts the number of calls to one byte, while `getCalls` goes on as long as
there are bytes and writes into an array with that many slots. The two agree on lists of
less than 256 calls, and Home takes no message that is long enough for more. So a list
of calls arrives as it was sent, or is not sent at all.
-/

import Optics.Core.Home
import Optics.Governance.Announcements

namespace Optics.GovernanceMessage

open Optics.Solidity

variable {Byte : Type} [ByteAlphabet Byte]

/-! ### Calls are read back -/

/-- The length of the data of a call, as a word. -/
def Call.lengthWord (call : Call Byte) : Bytes32 Byte := ⟨uintBytes 32 call.data.length, by simp⟩

section ReadCalls

variable (type : ℕ) (call : Call Byte) (rest : List Byte)

theorem Call.length_encode : call.encode.length = CALL_PREFIX_LEN + call.data.length := by
  simp [Call.encode, CALL_PREFIX_LEN, ← Nat.add_assoc]

theorem receiver_encode : receiver ⟨type, call.encode ++ rest⟩ = .ok call.receiver := by
  have h := View.index_append type [] (call.lengthWord.toList ++ call.data ++ rest) call.receiver
    (i := 0) rfl
  rw [receiver, ← h, Call.encode, Call.lengthWord]
  simp

theorem dataLen_encode (hlength : call.data.length < 256 ^ 32) :
    dataLen ⟨type, call.encode ++ rest⟩ = .ok call.data.length := by
  -- the word after the receiver, read back as a number below `2 ^ 256`
  have h := View.index_append type call.receiver.toList (call.data ++ rest) call.lengthWord
    (i := 32) (by simp)
  have hbytes : call.encode ++ rest =
      call.receiver.toList ++ call.lengthWord.toList ++ (call.data ++ rest) := by
    simp [Call.encode, Call.lengthWord]
  have hword : bytesUint call.lengthWord.toList = call.data.length :=
    (bytesUint_uintBytes 32 _).trans (Nat.mod_eq_of_lt hlength)
  rw [dataLen, hbytes, h, ok_bind, hword]

theorem data_encode (hlength : call.data.length < 256 ^ 32) :
    data ⟨type, call.encode ++ rest⟩ = .ok call.data := by
  have h := View.slice_append type (call.receiver.toList ++ call.lengthWord.toList) rest call.data
    (i := CALL_PREFIX_LEN) (by simp [CALL_PREFIX_LEN]) rfl Types.Data.code
  rw [data, dataLen_encode type call rest hlength, ok_bind]
  exact congrArg (fun slice => View.assertValid slice >>= fun slice => .ok slice.bytes) h

theorem nextCall_encode (hlength : call.data.length < 256 ^ 32) :
    nextCall ⟨Types.Call.code, call.encode ++ rest⟩ = .ok ⟨Types.Call.code, rest⟩ := by
  have hrest : (call.encode ++ rest).length - (CALL_PREFIX_LEN + call.data.length) =
      rest.length := by
    rw [List.length_append, call.length_encode, Nat.add_sub_cancel_left]
  have h := View.slice_append Types.Call.code call.encode [] rest call.length_encode.symm rfl
    Types.Call.code
  rw [List.append_nil] at h
  rw [nextCall, typeAssert_bind, dataLen_encode _ call rest hlength, ok_bind]
  simp only [View.len, hrest, h]
  rfl

end ReadCalls

/-- The loop reads what was written one call after the other. -/
theorem readCalls_encode (calls : List (Call Byte))
    (hlength : ∀ call ∈ calls, call.data.length < 256 ^ 32) :
    readCalls calls.length ⟨Types.Call.code, (calls.map Call.encode).flatten⟩ = .ok calls := by
  induction calls with
  | nil => rfl
  | cons call rest ih =>
    have hcall := hlength call List.mem_cons_self
    -- a call takes up at least its prefix, so the loop does not stop before it
    have hne :
        (View.mk Types.Call.code (call.encode ++ (rest.map Call.encode).flatten)).len ≠ 0 := by
      simp [View.len, call.length_encode, CALL_PREFIX_LEN]
    rw [List.map_cons, List.flatten_cons, List.length_cons, readCalls, if_neg hne]
    simp only [receiver_encode, data_encode _ call _ hcall, nextCall_encode call _ hcall, ok_bind]
    rw [ih fun call hmem => hlength call (List.mem_cons_of_mem _ hmem)]
    rfl

/-! ### A message within the size limit -/

section FormatCalls

variable {calls : List (Call Byte)}

theorem length_encode_le {call : Call Byte} (h : call ∈ calls) :
    CALL_PREFIX_LEN + call.data.length ≤ ((calls.map Call.encode).flatten).length := by
  obtain ⟨front, back, rfl⟩ := List.append_of_mem h
  simp only [List.map_append, List.map_cons, List.flatten_append, List.flatten_cons,
    List.length_append, Call.length_encode]
  omega

variable (calls) in
theorem length_mul_le :
    calls.length * CALL_PREFIX_LEN ≤ ((calls.map Call.encode).flatten).length := by
  induction calls with
  | nil => simp
  | cons call rest ih =>
    rw [List.map_cons, List.flatten_cons, List.length_append, call.length_encode, List.length_cons,
      Nat.succ_mul]
    omega

variable (calls) in
theorem length_formatCalls :
    (formatCalls calls).length = MSG_PREFIX_LEN + ((calls.map Call.encode).flatten).length := by
  simp [formatCalls, MSG_PREFIX_LEN, ← Nat.add_assoc]

variable (calls) in
theorem identifier_formatCalls (type : ℕ) :
    identifier ⟨type, formatCalls calls⟩ = .ok Types.Call.code := by
  have h := View.indexUint_append type []
    (uintBytes 1 calls.length ++ (calls.map Call.encode).flatten) (n := 1) Types.Call.code
    (i := 0) rfl
  rw [List.nil_append, ← List.append_assoc] at h
  exact h

/-- A list of calls is recognised as such. -/
theorem isValidCall_formatCalls (hne : calls ≠ []) :
    isValidCall (View.ref (formatCalls calls) 0) = .ok true := by
  obtain ⟨call, hcall⟩ := List.exists_mem_of_ne_nil calls hne
  have hlength : CALL_PREFIX_LEN ≤ (View.ref (formatCalls calls) 0).len := by
    have hle := length_encode_le hcall
    rw [View.ref, View.len, length_formatCalls]
    omega
  rw [isValidCall, View.ref, identifier_formatCalls, ok_bind]
  exact congrArg Except.ok (decide_eq_true ⟨rfl, hlength⟩)

/-- **What is formatted is what is read**, for less than 256 calls with data of less than
`2 ^ 256` bytes. -/
theorem getCalls_formatCalls (hcount : calls.length < 256)
    (hlength : ∀ call ∈ calls, call.data.length < 256 ^ 32) (type : ℕ) :
    getCalls ⟨type, formatCalls calls⟩ = .ok calls := by
  -- the second byte counts the calls, and nothing of the count is lost below 256
  have hcalls := View.indexUint_append type (uintBytes 1 Types.Call.code)
    (calls.map Call.encode).flatten (n := 1) calls.length (i := 1) (by simp)
  have hslice := View.slice_append type (uintBytes 1 Types.Call.code ++ uintBytes 1 calls.length) []
    (calls.map Call.encode).flatten (i := MSG_PREFIX_LEN) (by simp [MSG_PREFIX_LEN]) rfl
    Types.Call.code
  rw [List.append_nil] at hslice
  have hlen : (View.mk type (formatCalls calls)).len - MSG_PREFIX_LEN =
      ((calls.map Call.encode).flatten).length := by
    rw [View.len, length_formatCalls, Nat.add_sub_cancel_left]
  rw [getCalls, hlen, formatCalls, hcalls, ok_bind, hslice,
    Nat.mod_eq_of_lt (by simpa using hcount)]
  exact readCalls_encode calls hlength

/-- The size limit of Home leaves room for few calls. -/
theorem getCalls_of_length_le (hlimit : (formatCalls calls).length ≤ Home.MAX_MESSAGE_BODY_BYTES)
    (type : ℕ) : getCalls ⟨type, formatCalls calls⟩ = .ok calls := by
  rw [length_formatCalls, Home.MAX_MESSAGE_BODY_BYTES] at hlimit
  refine getCalls_formatCalls ?_ (fun call hcall => ?_) type
  -- each call takes at least 64 bytes, so there are at most 31 of them
  · have hle := length_mul_le calls
    rw [CALL_PREFIX_LEN] at hle
    omega
  · have hle := length_encode_le hcall
    -- the data of a call is part of a message of at most 2048 bytes
    have hsmall : call.data.length < 2 ^ 12 := by omega
    exact hsmall.trans (by decide)

end FormatCalls

end Optics.GovernanceMessage

namespace Optics.GovernanceRouter

open Optics.Solidity

variable {Byte : Type} [DecidableEq Byte] [ByteAlphabet Byte]

/-- The surroundings where the manager's Home is the contract itself, in a state of its
own, and the message goes to a router of some domain. -/
def Context.atHome (K : Crypto Byte) (homeCtx : Home.Context Byte) (home : Home Byte)
    (destination : UInt32) (recipient : Bytes32 Byte) (ctx : Context Byte) : Context Byte :=
  { ctx with
    homeAccepts := fun _ body => (home.dispatch K homeCtx destination recipient body).isOk }

/-- `callRemote` reverts, or the router of another chain recognises what is dispatched, reads
the calls that were sent and makes them one after the other. -/
def Arrives (ctx : Context Byte) (destination : UInt32) (calls : List (GovernanceMessage.Call Byte))
    (router : GovernanceRouter Byte) : Prop :=
  (∃ e, callRemote ctx destination calls router = .error e) ∨
    ∃ message, callRemote ctx destination calls router =
        .ok (router, [⟨destination, router.routers destination, message⟩]) ∧
      GovernanceMessage.isValidCall (View.ref message 0) = .ok true ∧
      (∃ view, GovernanceMessage.tryAsCall (View.ref message 0) = .ok (some view) ∧
        GovernanceMessage.getCalls view = .ok calls) ∧
      ∀ (remote : Context Byte) (origin : UInt32) (sender : Bytes32 Byte)
        (other : GovernanceRouter Byte), handle remote origin sender message other = (do
          onlyReplica remote other
          onlyGovernorRouter origin sender other
          dispatchCalls remote calls other)

theorem length_le_of_isOk {K : Crypto Byte} {homeCtx : Home.Context Byte} {home : Home Byte}
    {destination : UInt32} {recipient : Bytes32 Byte} {body : List Byte}
    (h : (home.dispatch K homeCtx destination recipient body).isOk = true) :
    body.length ≤ Home.MAX_MESSAGE_BODY_BYTES := by
  cases hdispatch : home.dispatch K homeCtx destination recipient body with
  | error e =>
    rw [hdispatch] at h
    cases h
  | ok result =>
    obtain ⟨-, hdispatch⟩ := require_bind_eq_ok.mp hdispatch
    exact (require_bind_eq_ok.mp hdispatch).1

/-- **Remote calls arrive as they were sent**, or are not sent. -/
theorem callRemote_arrives (K : Crypto Byte) (homeCtx : Home.Context Byte) (home : Home Byte)
    (ctx : Context Byte) (destination : UInt32) {calls : List (GovernanceMessage.Call Byte)}
    (hne : calls ≠ []) (router : GovernanceRouter Byte) :
    Arrives (ctx.atHome K homeCtx home destination (router.routers destination)) destination calls
      router := by
  generalize hhome : ctx.atHome K homeCtx home destination (router.routers destination) = ctx'
  cases hcall : callRemote ctx' destination calls router with
  | error e => exact .inl ⟨e, hcall⟩
  | ok result =>
    obtain ⟨router', sent⟩ := result
    have hquiet : exec ctx'.quiet (.callRemote destination calls) router = .ok (router', sent) :=
      hcall
    cases effect_of_exec hquiet with
    | callRemote _ _ haccepts =>
      subst hhome
      have hvalid := GovernanceMessage.isValidCall_formatCalls hne
      have hcalls := GovernanceMessage.getCalls_of_length_le (length_le_of_isOk haccepts)
      refine .inr ⟨GovernanceMessage.formatCalls calls, hcall, hvalid,
        ⟨_, tryAs_of hvalid, hcalls _⟩, fun remote origin sender other => ?_⟩
      -- the router that receives the message looks at its bytes alone
      have hpart : (Call.handle origin sender (GovernanceMessage.formatCalls calls)).calls =
          .ok calls := by
        rw [Call.calls, hvalid, ok_bind, if_pos rfl, GovernanceMessage.tryAsCall, tryAs_of hvalid]
        exact hcalls _
      rw [handle_call hvalid, hpart]
      rfl

/-- A call without data and one with three bytes of it, from the governor of domain 1. -/
theorem callRemote_arrives_sample :
    (callRemote ((sampleContext 11 1).atHome ⟨fun _ => 0, fun _ _ => none⟩
        ⟨sampleAccount 1, fun _ => false, .reverts⟩ (.fresh 1) 2 (sampleRouter 2)) 2
        [⟨sampleRouter 8, []⟩, ⟨sampleRouter 9, [1, 2, 3]⟩]
        (sampleChain.router._setRouter 2 (sampleRouter 2))).isOk = true ∧
      Arrives ((sampleContext 11 1).atHome ⟨fun _ => 0, fun _ _ => none⟩
        ⟨sampleAccount 1, fun _ => false, .reverts⟩ (.fresh 1) 2
        ((sampleChain.router._setRouter 2 (sampleRouter 2)).routers 2)) 2
        [⟨sampleRouter 8, []⟩, ⟨sampleRouter 9, [1, 2, 3]⟩]
        (sampleChain.router._setRouter 2 (sampleRouter 2)) :=
  ⟨by decide +kernel, callRemote_arrives _ _ _ _ 2 (List.cons_ne_nil _ _) _⟩

end Optics.GovernanceRouter
