/-
# The message library of governance

A governance message is one byte that names it, followed by its fields. A Call
message carries calls one after the other, each with its target and its data behind
their length. A TransferGovernor and a SetRouter message carry a domain and a word,
37 bytes in all.
-/

import Optics.Solidity.MemView

namespace Optics.GovernanceMessage

open Optics.Solidity

variable {Byte : Type}

/-- The types of views. -/
inductive Types
  | Invalid
  | Call
  | TransferGovernor
  | SetRouter
  | Data
  deriving DecidableEq, Repr

/-- The number of a type. -/
def Types.code : Types → ℕ
  | .Invalid => 0
  | .Call => 1
  | .TransferGovernor => 2
  | .SetRouter => 3
  | .Data => 4

def CALL_PREFIX_LEN : ℕ := 64
def MSG_PREFIX_LEN : ℕ := 2
def GOV_ACTION_LEN : ℕ := 37

/-- The struct `Call`: the contract to call and the call data. -/
structure Call (Byte : Type) where
  receiver : Bytes32 Byte
  data : List Byte

/-- `modifier typeAssert`. -/
def typeAssert (_view : View Byte) (_t : Types) : Except Revert Unit := _view.assertType _t.code

@[simp] theorem typeAssert_bind {β : Type} (t : Types) (bytes : List Byte)
    (f : Unit → Except Revert β) : (typeAssert ⟨t.code, bytes⟩ t >>= f) = f () := by
  simp [typeAssert, View.assertType]

variable [ByteAlphabet Byte]

/-! ### Fields -/

/-- `identifier`. -/
def identifier (_view : View Byte) : Except Revert ℕ := _view.indexUint 0 1

/-- `to`. -/
def receiver (_view : View Byte) : Except Revert (Bytes32 Byte) := _view.index 0 32

/-- `dataLen`. -/
def dataLen (_view : View Byte) : Except Revert ℕ := do
  let word ← _view.index 32 32
  .ok (bytesUint word.toList)

/-- `data`. -/
def data (_view : View Byte) : Except Revert (List Byte) := do
  let _dataLen ← dataLen _view
  let slice ← View.assertValid (_view.slice CALL_PREFIX_LEN _dataLen Types.Data.code)
  .ok slice.bytes

/-- `domain`. -/
def domain (_view : View Byte) : Except Revert UInt32 := do
  let value ← _view.indexUint 1 4
  .ok (UInt32.ofNat value)

/-- `router`. -/
def router (_view : View Byte) : Except Revert (Bytes32 Byte) := _view.index 5 32

/-- `governor`. -/
def governor (_view : View Byte) : Except Revert (Bytes32 Byte) := _view.index 5 32

/-! ### Conversions -/

/-- `isValidCall`. -/
def isValidCall (_view : View Byte) : Except Revert Bool := do
  let _identifier ← identifier _view
  .ok (_identifier = Types.Call.code ∧ CALL_PREFIX_LEN ≤ _view.len)

/-- Whether a view has the identifier of `t` and the length of an action. -/
def isValidAction (t : Types) (_view : View Byte) : Except Revert Bool := do
  let _identifier ← identifier _view
  .ok (_identifier = t.code ∧ _view.len = GOV_ACTION_LEN)

/-- `isValidTransferGovernor`. -/
def isValidTransferGovernor : View Byte → Except Revert Bool := isValidAction .TransferGovernor

/-- `isValidSetRouter`. -/
def isValidSetRouter : View Byte → Except Revert Bool := isValidAction .SetRouter

/-- The view under a new type if it passes the check of that type, and the null
view otherwise. -/
def tryAs (t : Types) (isValid : View Byte → Except Revert Bool) (_view : View Byte) :
    Except Revert (Option (View Byte)) := do
  if ← isValid _view then return some (_view.castTo t.code)
  return none

/-- `tryAsCall`. -/
def tryAsCall : View Byte → Except Revert (Option (View Byte)) := tryAs .Call isValidCall

/-- `tryAsTransferGovernor`. -/
def tryAsTransferGovernor : View Byte → Except Revert (Option (View Byte)) :=
  tryAs .TransferGovernor isValidTransferGovernor

/-- `tryAsSetRouter`. -/
def tryAsSetRouter : View Byte → Except Revert (Option (View Byte)) :=
  tryAs .SetRouter isValidSetRouter

/-- `mustBeTransferGovernor`. -/
def mustBeTransferGovernor (_view : View Byte) : Except Revert (View Byte) := do
  View.assertValid (← tryAsTransferGovernor _view)

/-- `mustBeSetRouter`. -/
def mustBeSetRouter (_view : View Byte) : Except Revert (View Byte) := do
  View.assertValid (← tryAsSetRouter _view)

/-! ### Formatting -/

/-- A call as it is packed into a Call message. -/
def Call.encode (_call : Call Byte) : List Byte :=
  _call.receiver.toList ++ uintBytes 32 _call.data.length ++ _call.data

/-- `formatCalls`. The number of calls is cut to one byte. -/
def formatCalls (_calls : List (Call Byte)) : List Byte :=
  uintBytes 1 Types.Call.code ++ uintBytes 1 _calls.length ++ (_calls.map Call.encode).flatten

/-- `formatTransferGovernor`. -/
def formatTransferGovernor (_domain : UInt32) (_governor : Bytes32 Byte) :
    Except Revert (List Byte) := do
  let _view ← mustBeTransferGovernor
    (View.ref (uintBytes 1 Types.TransferGovernor.code ++ uint32Bytes _domain ++
      _governor.toList) 0)
  .ok _view.bytes

/-- `formatSetRouter`. -/
def formatSetRouter (_domain : UInt32) (_router : Bytes32 Byte) : Except Revert (List Byte) := do
  let _view ← mustBeSetRouter
    (View.ref (uintBytes 1 Types.SetRouter.code ++ uint32Bytes _domain ++ _router.toList) 0)
  .ok _view.bytes

/-! ### Calls of a Call message -/

/-- `nextCall`. -/
def nextCall (_view : View Byte) : Except Revert (View Byte) := do
  typeAssert _view .Call
  let _dataLen ← dataLen _view
  let lastCallLen := CALL_PREFIX_LEN + _dataLen
  View.assertValid (_view.slice lastCallLen (_view.len - lastCallLen) Types.Call.code)

/-- The loop of `getCalls` over the calls from a position of the message, with the
slots of the array that are left. A message with more calls than slots reverts, and
slots that stay empty hold the zero call. -/
def readCalls : ℕ → View Byte → Except Revert (List (Call Byte))
  | slots, _msgPtr =>
    if _msgPtr.len = 0 then .ok (List.replicate slots ⟨0, []⟩)
    else
      match slots with
      | 0 => .error .assert
      | slots + 1 => do
        let _to ← receiver _msgPtr
        let _data ← data _msgPtr
        let next ← nextCall _msgPtr
        let rest ← readCalls slots next
        .ok (⟨_to, _data⟩ :: rest)

/-- `getCalls`. -/
def getCalls (_msg : View Byte) : Except Revert (List (Call Byte)) := do
  let _numCalls ← _msg.indexUint 1 1
  let _msgPtr ← View.assertValid
    (_msg.slice MSG_PREFIX_LEN (_msg.len - MSG_PREFIX_LEN) Types.Call.code)
  readCalls _numCalls _msgPtr

/-! ### What is formatted is read back -/

/-- A governance action, other than calls, with its fields. -/
inductive Action (Byte : Type)
  | transferGovernor (domain : UInt32) (governor : Bytes32 Byte)
  | setRouter (domain : UInt32) (router : Bytes32 Byte)

namespace Action

/-- The type of an action. -/
def type : Action Byte → Types
  | .transferGovernor .. => .TransferGovernor
  | .setRouter .. => .SetRouter

/-- The bytes of the message for an action. -/
def bytes : Action Byte → List Byte
  | .transferGovernor d g =>
    uintBytes 1 Types.TransferGovernor.code ++ uint32Bytes d ++ g.toList
  | .setRouter d r => uintBytes 1 Types.SetRouter.code ++ uint32Bytes d ++ r.toList

/-- The message for an action as a view of some type. -/
def view (a : Action Byte) (type : ℕ) : View Byte := ⟨type, a.bytes⟩

end Action

section ReadBack

variable (a : Action Byte) (type : ℕ) (d : UInt32) (w : Bytes32 Byte)

@[simp] theorem len_view : (a.view type).len = GOV_ACTION_LEN := by
  cases a <;> simp [Action.view, Action.bytes, View.len, GOV_ACTION_LEN]

@[simp] theorem identifier_view : identifier (a.view type) = .ok a.type.code := by
  cases a with
  | transferGovernor d g =>
    have h := View.indexUint_append (n := 1) type [] (uint32Bytes d ++ g.toList)
      Types.TransferGovernor.code (rfl : 0 = ([] : List Byte).length)
    rwa [List.nil_append, ← List.append_assoc] at h
  | setRouter d r =>
    have h := View.indexUint_append (n := 1) type [] (uint32Bytes d ++ r.toList)
      Types.SetRouter.code (rfl : 0 = ([] : List Byte).length)
    rwa [List.nil_append, ← List.append_assoc] at h

@[simp] theorem isValidCall_view : isValidCall (a.view type) = .ok false := by
  rw [isValidCall, identifier_view, ok_bind, len_view]
  cases a <;> rfl

@[simp] theorem isValidAction_view (t : Types) :
    isValidAction t (a.view type) = .ok (decide (a.type = t)) := by
  rw [isValidAction, identifier_view, ok_bind, len_view]
  cases a <;> cases t <;> rfl

/-- An action passes as a view of its own type. -/
theorem tryAs_view {t : Types} (h : a.type = t) :
    tryAs t (isValidAction t) (a.view type) = .ok (some (a.view t.code)) := by
  rw [tryAs, isValidAction_view, ok_bind, if_pos (by simpa using h)]
  rfl

/-- The bytes of an action: the identifier, the domain and the word. -/
theorem domain_append (code : ℕ) :
    domain ⟨type, uintBytes 1 code ++ uint32Bytes d ++ w.toList⟩ = .ok d := by
  have h := View.indexUint_append (n := 4) type (uintBytes 1 code) w.toList d.toNat
    (i := 1) (by simp)
  have hlt : d.toNat % 256 ^ 4 = d.toNat := Nat.mod_eq_of_lt d.toNat_lt
  rw [domain, uint32Bytes, h, hlt, ok_bind, UInt32.ofNat_toNat]

theorem index_append (code : ℕ) :
    (View.mk type (uintBytes 1 code ++ uint32Bytes d ++ w.toList)).index 5 32 = .ok w := by
  have h := View.index_append type (uintBytes 1 code ++ uint32Bytes d) [] w (i := 5) (by simp)
  rwa [List.append_nil] at h

@[simp] theorem domain_transferGovernor :
    domain ((Action.transferGovernor d w).view type) = .ok d := domain_append type d w _

@[simp] theorem domain_setRouter :
    domain ((Action.setRouter d w).view type) = .ok d := domain_append type d w _

@[simp] theorem governor_transferGovernor :
    governor ((Action.transferGovernor d w).view type) = .ok w := index_append type d w _

@[simp] theorem router_setRouter :
    router ((Action.setRouter d w).view type) = .ok w := index_append type d w _

@[simp] theorem formatTransferGovernor_eq :
    formatTransferGovernor d w = .ok (Action.transferGovernor d w).bytes := by
  have h : tryAsTransferGovernor ((Action.transferGovernor d w).view 0) = _ :=
    tryAs_view _ 0 rfl
  rw [formatTransferGovernor, mustBeTransferGovernor]
  change (tryAsTransferGovernor ((Action.transferGovernor d w).view 0) >>= _) >>= _ = _
  rw [h]
  rfl

@[simp] theorem formatSetRouter_eq :
    formatSetRouter d w = .ok (Action.setRouter d w).bytes := by
  have h : tryAsSetRouter ((Action.setRouter d w).view 0) = _ := tryAs_view _ 0 rfl
  rw [formatSetRouter, mustBeSetRouter]
  change (tryAsSetRouter ((Action.setRouter d w).view 0) >>= _) >>= _ = _
  rw [h]
  rfl

end ReadBack

end Optics.GovernanceMessage
