/-
# The message library of the bridge

A bridge message is a token id of 36 bytes followed by an action, and an action
is one byte that names it followed by its fields. Parsing gives each part a type;
the accessors check the type of the view they are given and read at fixed
offsets.

`action` takes the type of the action from its first byte, while `mustBeTransfer`
and its siblings look at the length only.
-/

import Optics.Solidity.MemView

namespace Optics.BridgeMessage

open Optics.Solidity

variable {Byte : Type}

/-- The types of views. -/
inductive Types
  | Invalid
  | TokenId
  | Message
  | Transfer
  | Details
  | RequestDetails
  deriving DecidableEq, Repr

/-- The number of a type. -/
def Types.code : Types → ℕ
  | .Invalid => 0
  | .TokenId => 1
  | .Message => 2
  | .Transfer => 3
  | .Details => 4
  | .RequestDetails => 5

/-- The conversion of a number to a type, which reverts on a number that names
none. -/
def Types.ofCode : ℕ → Except Revert Types
  | 0 => .ok .Invalid
  | 1 => .ok .TokenId
  | 2 => .ok .Message
  | 3 => .ok .Transfer
  | 4 => .ok .Details
  | 5 => .ok .RequestDetails
  | _ => .error .assert

@[simp] theorem Types.ofCode_code (t : Types) : Types.ofCode t.code = .ok t := by cases t <;> rfl

def TOKEN_ID_LEN : ℕ := 36
def TRANSFER_LEN : ℕ := 65
def DETAILS_LEN : ℕ := 66
def REQUEST_DETAILS_LEN : ℕ := 1

/-- `modifier typeAssert`. -/
def typeAssert (view : View Byte) (t : Types) : Except Revert Unit := view.assertType t.code

@[simp] theorem typeAssert_bind_eq_ok {β : Type} {view : View Byte} {t : Types}
    {f : Unit → Except Revert β} {b : β} :
    (typeAssert view t >>= f) = .ok b ↔ view.type = t.code ∧ f () = .ok b :=
  View.assertType_bind_eq_ok

@[simp] theorem typeAssert_bind {β : Type} (t : Types) (bytes : List Byte)
    (f : Unit → Except Revert β) : (typeAssert ⟨t.code, bytes⟩ t >>= f) = f () := by
  simp [typeAssert, View.assertType]

/-! ### Conversions -/

/-- The view under a new type if it has the length of that type. -/
def tryAs (t : Types) (length : ℕ) (view : View Byte) : Option (View Byte) :=
  if view.len = length then some (view.castTo t.code) else none

/-- `tryAsTransfer`. -/
def tryAsTransfer : View Byte → Option (View Byte) := tryAs .Transfer TRANSFER_LEN

/-- `tryAsDetails`. -/
def tryAsDetails : View Byte → Option (View Byte) := tryAs .Details DETAILS_LEN

/-- `tryAsRequestDetails`. -/
def tryAsRequestDetails : View Byte → Option (View Byte) :=
  tryAs .RequestDetails REQUEST_DETAILS_LEN

/-- `tryAsTokenId`. -/
def tryAsTokenId : View Byte → Option (View Byte) := tryAs .TokenId TOKEN_ID_LEN

/-- `isValidMessageLength`. -/
def isValidMessageLength (_view : View Byte) : Prop :=
  _view.len = TOKEN_ID_LEN + TRANSFER_LEN ∨ _view.len = TOKEN_ID_LEN + DETAILS_LEN ∨
    _view.len = TOKEN_ID_LEN + REQUEST_DETAILS_LEN

instance decidableIsValidMessageLength (_view : View Byte) :
    Decidable (isValidMessageLength _view) :=
  inferInstanceAs (Decidable (_ ∨ _ ∨ _))

/-- `tryAsMessage`. -/
def tryAsMessage (_message : View Byte) : Option (View Byte) :=
  if isValidMessageLength _message then some (_message.castTo Types.Message.code) else none

/-- `mustBeTransfer`. -/
def mustBeTransfer (_view : View Byte) : Except Revert (View Byte) :=
  View.assertValid (tryAsTransfer _view)

/-- `mustBeDetails`. -/
def mustBeDetails (_view : View Byte) : Except Revert (View Byte) :=
  View.assertValid (tryAsDetails _view)

/-- `mustBeRequestDetails`. -/
def mustBeRequestDetails (_view : View Byte) : Except Revert (View Byte) :=
  View.assertValid (tryAsRequestDetails _view)

/-- `mustBeTokenId`. -/
def mustBeTokenId (_view : View Byte) : Except Revert (View Byte) :=
  View.assertValid (tryAsTokenId _view)

/-- `mustBeMessage`. -/
def mustBeMessage (_view : View Byte) : Except Revert (View Byte) :=
  View.assertValid (tryAsMessage _view)

theorem tryAs_eq_some {t : Types} {length : ℕ} {view v : View Byte} :
    tryAs t length view = some v ↔ view.len = length ∧ v = view.castTo t.code := by
  unfold tryAs
  split_ifs with h <;> simp [h, eq_comm]

theorem mustBeMessage_eq_ok {view v : View Byte} :
    mustBeMessage view = .ok v ↔
      isValidMessageLength view ∧ v = view.castTo Types.Message.code := by
  rw [mustBeMessage, View.assertValid_eq_ok, tryAsMessage]
  split_ifs with h <;> simp [h, eq_comm]

variable [ByteAlphabet Byte]

/-! ### Types of actions -/

/-- `messageType`. -/
def messageType (_view : View Byte) : Except Revert Types := Types.ofCode (_view.type % 256)

/-- `actionType`. -/
def actionType (_action : View Byte) : Except Revert ℕ := _action.indexUint 0 1

/-- Whether an action has the identifier and the type of `t`. -/
def isAction (t : Types) (_action : View Byte) : Except Revert Bool := do
  let identifier ← actionType _action
  if identifier = t.code then
    let declared ← messageType _action
    .ok (declared = t)
  else .ok false

/-- `isTransfer`. -/
def isTransfer : View Byte → Except Revert Bool := isAction .Transfer

/-- `isDetails`. -/
def isDetails : View Byte → Except Revert Bool := isAction .Details

/-- `isRequestDetails`. -/
def isRequestDetails : View Byte → Except Revert Bool := isAction .RequestDetails

/-- `isValidAction`. -/
def isValidAction (_action : View Byte) : Except Revert Bool := do
  if ← isDetails _action then return true
  if ← isRequestDetails _action then return true
  isTransfer _action

/-! ### Formatting -/

/-- `formatTransfer`. -/
def formatTransfer (_to : Bytes32 Byte) (_amnt : ℕ) : Except Revert (View Byte) :=
  mustBeTransfer (View.ref (uintBytes 1 Types.Transfer.code ++ _to.toList ++ uintBytes 32 _amnt) 0)

/-- `formatDetails`. -/
def formatDetails (_name _symbol : Bytes32 Byte) (_decimals : UInt8) :
    Except Revert (View Byte) :=
  mustBeDetails (View.ref (uintBytes 1 Types.Details.code ++ _name.toList ++ _symbol.toList ++
    uintBytes 1 _decimals.toNat) 0)

/-- `formatRequestDetails`. -/
def formatRequestDetails : Except Revert (View Byte) :=
  mustBeRequestDetails (View.ref (uintBytes 1 Types.RequestDetails.code) 0)

/-- `formatTokenId`. -/
def formatTokenId (_domain : UInt32) (_id : Bytes32 Byte) : Except Revert (View Byte) :=
  mustBeTokenId (View.ref (uint32Bytes _domain ++ _id.toList) 0)

/-- `formatMessage`. -/
def formatMessage (_tokenId _action : View Byte) : Except Revert (List Byte) := do
  typeAssert _tokenId .TokenId
  let valid ← isValidAction _action
  require valid "!action"
  .ok (View.join [_tokenId, _action])

/-! ### Accessors -/

/-- `domain`. -/
def domain (_tokenId : View Byte) : Except Revert UInt32 := do
  typeAssert _tokenId .TokenId
  let value ← _tokenId.indexUint 0 4
  .ok (UInt32.ofNat value)

/-- `id`. -/
def id (_tokenId : View Byte) : Except Revert (Bytes32 Byte) := do
  typeAssert _tokenId .TokenId
  _tokenId.index 4 32

/-- `evmId`. -/
def evmId (_tokenId : View Byte) : Except Revert (Address Byte) := do
  typeAssert _tokenId .TokenId
  _tokenId.indexAddress 16

/-- `msgType`. -/
def msgType (_message : View Byte) : Except Revert ℕ := _message.indexUint TOKEN_ID_LEN 1

/-- `recipient`. -/
def recipient (_transferAction : View Byte) : Except Revert (Bytes32 Byte) := do
  typeAssert _transferAction .Transfer
  _transferAction.index 1 32

/-- `evmRecipient`. -/
def evmRecipient (_transferAction : View Byte) : Except Revert (Address Byte) := do
  typeAssert _transferAction .Transfer
  _transferAction.indexAddress 13

/-- `amnt`. -/
def amnt (_transferAction : View Byte) : Except Revert ℕ := do
  typeAssert _transferAction .Transfer
  _transferAction.indexUint 33 32

/-- `name`. -/
def name (_detailsAction : View Byte) : Except Revert (Bytes32 Byte) := do
  typeAssert _detailsAction .Details
  _detailsAction.index 1 32

/-- `symbol`. -/
def symbol (_detailsAction : View Byte) : Except Revert (Bytes32 Byte) := do
  typeAssert _detailsAction .Details
  _detailsAction.index 33 32

/-- `decimals`. -/
def decimals (_detailsAction : View Byte) : Except Revert UInt8 := do
  typeAssert _detailsAction .Details
  let value ← _detailsAction.indexUint 65 1
  .ok (UInt8.ofNat value)

/-- `tokenId`. -/
def tokenId (_message : View Byte) : Except Revert (View Byte) := do
  typeAssert _message .Message
  View.assertValid (_message.slice 0 TOKEN_ID_LEN Types.TokenId.code)

/-- `action`. A null view as action is refused where it is used. -/
def action (_message : View Byte) : Except Revert (View Byte) := do
  typeAssert _message .Message
  let _type ← msgType _message
  View.assertValid (_message.slice TOKEN_ID_LEN (_message.len - TOKEN_ID_LEN) _type)

/-! ### What is formatted is read back -/

/-- An action with its fields. -/
inductive Action (Byte : Type)
  | transfer (receiver : Bytes32 Byte) (amount : ℕ)
  | details (newName newSymbol : Bytes32 Byte) (newDecimals : UInt8)
  | requestDetails

/-- The type of an action. -/
def Action.type : Action Byte → Types
  | .transfer .. => .Transfer
  | .details .. => .Details
  | .requestDetails => .RequestDetails

/-- The bytes of an action after the identifier. -/
def Action.fields : Action Byte → List Byte
  | .transfer receiver amount => receiver.toList ++ uintBytes 32 amount
  | .details newName newSymbol newDecimals =>
    newName.toList ++ newSymbol.toList ++ uintBytes 1 newDecimals.toNat
  | .requestDetails => []

/-- Whether the fields of an action have their types: an amount is a `uint256`. -/
def Action.WellTyped : Action Byte → Prop
  | .transfer _ amount => amount < 2 ^ 256
  | _ => True

/-- The function that formats an action. -/
def Action.format : Action Byte → Except Revert (View Byte)
  | .transfer receiver amount => formatTransfer receiver amount
  | .details newName newSymbol newDecimals => formatDetails newName newSymbol newDecimals
  | .requestDetails => formatRequestDetails

/-- A message, from the fields of its token id and its action. -/
def format (_domain : UInt32) (_id : Bytes32 Byte) (a : Action Byte) :
    Except Revert (List Byte) := do
  let _tokenId ← formatTokenId _domain _id
  let _action ← a.format
  formatMessage _tokenId _action

/-- The view of an action as it is formatted. -/
def Action.view (a : Action Byte) : View Byte :=
  ⟨a.type.code, uintBytes 1 a.type.code ++ a.fields⟩

/-- The view of a token id as it is formatted. -/
def tokenIdView (_domain : UInt32) (_id : Bytes32 Byte) : View Byte :=
  ⟨Types.TokenId.code, uint32Bytes _domain ++ _id.toList⟩

/-- The bytes of a message as it is formatted. -/
def messageBytes (_domain : UInt32) (_id : Bytes32 Byte) (a : Action Byte) : List Byte :=
  (tokenIdView _domain _id).bytes ++ a.view.bytes

section ReadBack

variable (d : UInt32) (i : Bytes32 Byte) (a : Action Byte)

@[simp] theorem formatTransfer_eq (_to : Bytes32 Byte) (_amnt : ℕ) :
    formatTransfer _to _amnt = .ok (Action.transfer _to _amnt).view := by
  simp [formatTransfer, mustBeTransfer, tryAsTransfer, tryAs_eq_some, View.len, View.ref,
    View.castTo, Action.view, Action.type, Action.fields, TRANSFER_LEN]

@[simp] theorem formatDetails_eq (_name _symbol : Bytes32 Byte) (_decimals : UInt8) :
    formatDetails _name _symbol _decimals = .ok (Action.details _name _symbol _decimals).view := by
  simp [formatDetails, mustBeDetails, tryAsDetails, tryAs_eq_some, View.len, View.ref,
    View.castTo, Action.view, Action.type, Action.fields, DETAILS_LEN]

@[simp] theorem formatRequestDetails_eq :
    formatRequestDetails = .ok (Action.requestDetails : Action Byte).view := by
  simp [formatRequestDetails, mustBeRequestDetails, tryAsRequestDetails, tryAs_eq_some, View.len,
    View.ref, View.castTo, Action.view, Action.type, Action.fields, REQUEST_DETAILS_LEN]

@[simp] theorem formatTokenId_eq : formatTokenId d i = .ok (tokenIdView d i) := by
  simp [formatTokenId, mustBeTokenId, tryAsTokenId, tryAs_eq_some, View.len, View.ref,
    View.castTo, tokenIdView, TOKEN_ID_LEN]

@[simp] theorem domain_tokenIdView : domain (tokenIdView d i) = .ok d := by
  have h := View.indexUint_append (n := 4) Types.TokenId.code [] i.toList d.toNat
    (rfl : 0 = ([] : List Byte).length)
  have hlt : d.toNat % 256 ^ 4 = d.toNat := Nat.mod_eq_of_lt d.toNat_lt
  rw [List.nil_append] at h
  rw [domain, tokenIdView, typeAssert_bind, uint32Bytes, h, hlt, ok_bind, UInt32.ofNat_toNat]

@[simp] theorem id_tokenIdView : id (tokenIdView d i) = .ok i := by
  have hoffset : 4 = (uint32Bytes d : List Byte).length := by simp
  have h := View.index_append Types.TokenId.code _ [] i hoffset
  rw [List.append_nil] at h
  rw [id, tokenIdView, typeAssert_bind, h]

/-- The address of a token id is the low 20 bytes of the id. -/
@[simp] theorem evmId_tokenIdView : evmId (tokenIdView d i) = .ok (bytes32ToAddress i) := by
  have hoffset : 16 = (uint32Bytes d ++ i.toList.take 12 : List Byte).length := by simp
  have h := View.indexAddress_append Types.TokenId.code _ [] (bytes32ToAddress i) hoffset
  rw [List.append_nil, bytes32ToAddress, toList_drop, List.append_assoc,
    List.take_append_drop] at h
  rw [evmId, tokenIdView, typeAssert_bind, h, bytes32ToAddress]

@[simp] theorem actionType_view : actionType a.view = .ok a.type.code := by
  have h := View.indexUint_append (n := 1) a.type.code [] a.fields a.type.code
    (rfl : 0 = ([] : List Byte).length)
  have hlt : a.type.code % 256 ^ 1 = a.type.code := by cases a <;> rfl
  rw [List.nil_append, hlt] at h
  rw [actionType, Action.view, h]

@[simp] theorem messageType_view : messageType a.view = .ok a.type := by cases a <;> rfl

/-- The view of an action has the identifier and the type of exactly one type. -/
@[simp] theorem isAction_view (t : Types) : isAction t a.view = .ok (decide (a.type = t)) := by
  rw [isAction, actionType_view, ok_bind, messageType_view]
  by_cases h : a.type = t
  · simp [h]
  · have hcode : a.type.code ≠ t.code := by
      cases a <;> cases t <;> simp_all [Action.type, Types.code]
    simp [h, hcode]

@[simp] theorem isValidAction_view : isValidAction a.view = .ok true := by
  rw [isValidAction, isDetails, isRequestDetails, isTransfer, isAction_view, isAction_view,
    isAction_view]
  cases a <;> rfl

@[simp] theorem formatMessage_view :
    formatMessage (tokenIdView d i) a.view = .ok (messageBytes d i a) := by
  rw [formatMessage, isValidAction_view]
  simp [tokenIdView, require_of, View.join, messageBytes]

theorem format_eq : format d i a = .ok (messageBytes d i a) := by
  have haction : a.format = .ok a.view := by
    cases a with
    | transfer receiver amount => exact formatTransfer_eq receiver amount
    | details newName newSymbol newDecimals => exact formatDetails_eq newName newSymbol newDecimals
    | requestDetails => exact formatRequestDetails_eq
  rw [format, formatTokenId_eq, ok_bind, haction, ok_bind, formatMessage_view]

theorem mustBeMessage_messageBytes :
    mustBeMessage (View.ref (messageBytes d i a) 0) =
      .ok ⟨Types.Message.code, messageBytes d i a⟩ := by
  rw [mustBeMessage_eq_ok]
  refine ⟨?_, rfl⟩
  cases a <;>
    simp [isValidMessageLength, View.len, View.ref, messageBytes, tokenIdView, Action.view,
      Action.fields, TOKEN_ID_LEN, TRANSFER_LEN, DETAILS_LEN, REQUEST_DETAILS_LEN]

theorem tokenId_messageBytes :
    tokenId ⟨Types.Message.code, messageBytes d i a⟩ = .ok (tokenIdView d i) := by
  have hlength : TOKEN_ID_LEN = (tokenIdView d i).bytes.length := by
    simp [tokenIdView, TOKEN_ID_LEN]
  have h := View.slice_append Types.Message.code [] a.view.bytes (tokenIdView d i).bytes
    (rfl : 0 = _) hlength Types.TokenId.code
  rw [List.nil_append] at h
  rw [tokenId, typeAssert_bind, messageBytes, h]
  rfl

theorem action_messageBytes :
    action ⟨Types.Message.code, messageBytes d i a⟩ = .ok a.view := by
  have hlength : TOKEN_ID_LEN = (tokenIdView d i).bytes.length := by
    simp [tokenIdView, TOKEN_ID_LEN]
  have htype : msgType ⟨Types.Message.code, messageBytes d i a⟩ = .ok a.type.code := by
    have h := View.indexUint_append (n := 1) Types.Message.code _ a.fields a.type.code hlength
    have hlt : a.type.code % 256 ^ 1 = a.type.code := by cases a <;> rfl
    rwa [hlt, List.append_assoc] at h
  have h := View.slice_append Types.Message.code (tokenIdView d i).bytes [] a.view.bytes hlength
    (n := (messageBytes d i a).length - TOKEN_ID_LEN) (by simp [messageBytes, hlength])
    a.type.code
  rw [List.append_nil] at h
  rw [action, typeAssert_bind, htype, ok_bind]
  exact View.assertValid_eq_ok.mpr h

@[simp] theorem amnt_view (_to : Bytes32 Byte) (_amnt : ℕ) :
    amnt (Action.transfer _to _amnt).view = .ok (_amnt % 2 ^ 256) := by
  have hoffset : 33 = (uintBytes 1 Types.Transfer.code ++ _to.toList : List Byte).length := by simp
  have h := View.indexUint_append (n := 32) Types.Transfer.code _ [] _amnt hoffset
  rw [List.append_nil, List.append_assoc] at h
  have hpow : (256 : ℕ) ^ 32 = 2 ^ 256 := by norm_num
  rw [amnt, Action.view, Action.type, typeAssert_bind, Action.fields, h, hpow]

@[simp] theorem recipient_view (_to : Bytes32 Byte) (_amnt : ℕ) :
    recipient (Action.transfer _to _amnt).view = .ok _to := by
  have hoffset : 1 = (uintBytes 1 Types.Transfer.code : List Byte).length := by simp
  have h := View.index_append Types.Transfer.code _ (uintBytes 32 _amnt) _to hoffset
  rw [List.append_assoc] at h
  rw [recipient, Action.view, Action.type, typeAssert_bind, Action.fields, h]

section Details

variable (_name _symbol : Bytes32 Byte) (_decimals : UInt8)

@[simp] theorem name_view : name (Action.details _name _symbol _decimals).view = .ok _name := by
  have hoffset : 1 = (uintBytes 1 Types.Details.code : List Byte).length := by simp
  have h := View.index_append Types.Details.code _
    (_symbol.toList ++ uintBytes 1 _decimals.toNat) _name hoffset
  rw [name, Action.view, Action.type, typeAssert_bind, Action.fields, ← h]
  simp only [List.append_assoc]

@[simp] theorem symbol_view :
    symbol (Action.details _name _symbol _decimals).view = .ok _symbol := by
  have hoffset : 33 = (uintBytes 1 Types.Details.code ++ _name.toList : List Byte).length := by simp
  have h := View.index_append Types.Details.code _ (uintBytes 1 _decimals.toNat) _symbol hoffset
  rw [symbol, Action.view, Action.type, typeAssert_bind, Action.fields, ← h]
  simp only [List.append_assoc]

@[simp] theorem decimals_view :
    decimals (Action.details _name _symbol _decimals).view = .ok _decimals := by
  have hoffset : 65 =
      (uintBytes 1 Types.Details.code ++ _name.toList ++ _symbol.toList : List Byte).length := by
    simp
  have h := View.indexUint_append (n := 1) Types.Details.code _ [] _decimals.toNat hoffset
  have hlt : _decimals.toNat % 256 ^ 1 = _decimals.toNat := Nat.mod_eq_of_lt _decimals.toNat_lt
  rw [hlt, List.append_nil, List.append_assoc, List.append_assoc, ← List.append_assoc _name.toList]
    at h
  rw [decimals, Action.view, Action.type, typeAssert_bind, Action.fields, h, ok_bind,
    UInt8.ofNat_toNat]

end Details

end ReadBack

end Optics.BridgeMessage
