/-
# Bridge messages in the SDK

The SDK cuts the body of a bridge message up by offsets and tells the actions apart by
their length; the router looks at the first byte of the action and reads through typed
views. On everything that the contracts format the two agree, field by field, and on what
a prefill is looked up by.

Numbers and hex strings are converted by a library, of which it is asked that it reads what
it writes.
-/

import Optics.Bridge.RouterEffects
import Optics.Provider.MessageFormat

namespace Optics

open Optics.Solidity Optics.MessageFormat

/-- The conversions of `@ethersproject/bytes` and `BigNumber.from`, which throws on a string
that is no number. -/
structure EthersLibrary extends HexLibrary where
  bigNumber : String → Option ℕ

/-- The library reads what it writes, as bytes and as a number. -/
structure EthersLibrary.Lawful (E : EthersLibrary) : Prop where
  arrayify : E.toHexLibrary.Lawful
  bigNumber : ∀ bytes ≠ [], E.bigNumber (E.hexlify bytes) = some (bytesUint bytes)

namespace ParsedBridgeMessage

/-! ### Parsing -/

/-- What is thrown: by a library, or as an `Error` with a text. -/
inductive Thrown
  | library
  | error (text : String)
  deriving DecidableEq

/-- A call of a library. -/
def orThrow {α : Type} : Option α → Except Thrown α
  | some value => .ok value
  | none => .error .library

namespace ACTION_LEN

def identifier : ℕ := 1
def transfer : ℕ := 65
def details : ℕ := 66
def requestDetails : ℕ := 1

end ACTION_LEN

/-- `Action`. The receiver is called `to` there. -/
inductive Action
  | transfer (receiver : String) (amount : ℕ)
  | details (name symbol : String) (decimals : ℕ)
  | requestDetails
  deriving DecidableEq

end ParsedBridgeMessage

/-- `TokenIdentifier`. -/
structure TokenIdentifier where
  domain : ℕ
  id : String
  deriving DecidableEq

/-- `ParsedBridgeMessage`. -/
structure ParsedBridgeMessage where
  action : ParsedBridgeMessage.Action
  token : TokenIdentifier
  deriving DecidableEq

namespace ParsedBridgeMessage

variable (E : EthersLibrary)

/-- `parseAction`. -/
def parseAction (buf : List UInt8) : Except Thrown Action :=
  if buf.length = ACTION_LEN.requestDetails then .ok .requestDetails
  else if buf.length = ACTION_LEN.transfer then do
    let buf := slice buf ACTION_LEN.identifier buf.length
    let receiver := E.hexlify (slice buf 0 32)
    let amount ← orThrow (E.bigNumber (E.hexlify (slice buf 32 buf.length)))
    .ok (.transfer receiver amount)
  else if buf.length = ACTION_LEN.details then do
    let buf := slice buf ACTION_LEN.identifier buf.length
    let name := E.hexlify (slice buf 0 32)
    let symbol := E.hexlify (slice buf 32 64)
    -- the byte is there, so this is never `undefined`
    let decimals ← orThrow buf[64]?
    .ok (.details name symbol decimals.toNat)
  else .error (.error "Bad action")

/-- `parseBody`. -/
def parseBody (messageBody : String) : Except Thrown ParsedBridgeMessage := do
  let buf ← orThrow (E.arrayify messageBody)
  let tokenId := slice buf 0 36
  let domain ← orThrow (readUInt32BE tokenId 0)
  let id := E.hexlify (slice tokenId 4 36)
  let action ← parseAction E (slice buf 36 buf.length)
  .ok ⟨action, ⟨domain, id⟩⟩

section Hash

variable (K : Crypto UInt8)

/-- `get bodyHash`. -/
def bodyHash (body : String) : Except Thrown String := do
  let bytes ← orThrow (E.arrayify body)
  .ok (E.hexlify (K.keccak256 bytes).toList)

/-- `get prefillId`. -/
def prefillId (body : String) : Except Thrown String := bodyHash E K body

end Hash

/-- The type that the SDK gives an action. -/
def Action.type : Action → BridgeMessage.Types
  | .transfer .. => .Transfer
  | .details .. => .Details
  | .requestDetails => .RequestDetails

/-! ### What is formatted is parsed -/

/-- The fields of an action, as the SDK shows them. -/
def shown : BridgeMessage.Action UInt8 → Action
  | .transfer receiver amount => .transfer (E.hexlify receiver.toList) amount
  | .details newName newSymbol newDecimals =>
    .details (E.hexlify newName.toList) (E.hexlify newSymbol.toList) newDecimals.toNat
  | .requestDetails => .requestDetails

variable {E} (d : UInt32) (i : Bytes32 UInt8) {a : BridgeMessage.Action UInt8}

theorem slice_left {stop : ℕ} {front : List UInt8} (h : stop = front.length) (back : List UInt8) :
    slice (front ++ back) 0 stop = front := by
  rw [slice, List.take_left' h.symm, List.drop_zero]

theorem slice_right {start : ℕ} {front : List UInt8} (h : start = front.length)
    (back : List UInt8) : slice (front ++ back) start (front ++ back).length = back := by
  rw [slice, List.take_length, List.drop_left' h.symm]

/-- The identifier is cut off. -/
theorem slice_view : slice a.view.bytes ACTION_LEN.identifier a.view.bytes.length = a.fields :=
  slice_right (length_uintBytes 1 a.type.code).symm a.fields

/-- The actions that are formatted have the lengths that the SDK expects. -/
theorem length_view : a.view.bytes.length = match a with
    | .transfer .. => ACTION_LEN.transfer
    | .details .. => ACTION_LEN.details
    | .requestDetails => ACTION_LEN.requestDetails := by
  cases a <;>
    simp [BridgeMessage.Action.view, BridgeMessage.Action.fields, ACTION_LEN.transfer,
      ACTION_LEN.details, ACTION_LEN.requestDetails]

/-- The 32 bytes of an amount are its number. -/
theorem bigNumber_uintBytes (hlaw : E.Lawful) {amount : ℕ} (h : amount < 2 ^ 256) :
    E.bigNumber (E.hexlify (uintBytes 32 amount)) = some amount := by
  have hlt : amount < 256 ^ 32 := h.trans_eq (by norm_num)
  have hne : (uintBytes 32 amount : List UInt8) ≠ [] :=
    List.ne_nil_of_length_pos (by rw [length_uintBytes]; exact Nat.succ_pos 31)
  rw [hlaw.bigNumber _ hne, bytesUint_uintBytes, Nat.mod_eq_of_lt hlt]

theorem parseAction_view (hlaw : E.Lawful) (ha : a.WellTyped) :
    parseAction E a.view.bytes = .ok (shown E a) := by
  have hfields := slice_view (a := a)
  cases a with
  | requestDetails => rfl
  | transfer receiver amount =>
    have hlength : (BridgeMessage.Action.transfer receiver amount).view.bytes.length =
        ACTION_LEN.transfer := length_view
    -- the receiver and the amount are a word each
    have hreceiver : 32 = receiver.toList.length := by simp
    have hto := slice_left hreceiver (uintBytes 32 amount)
    have hamount := slice_right hreceiver (uintBytes 32 amount)
    rw [hlength] at hfields
    rw [parseAction, hlength, if_neg (by decide), if_pos rfl]
    simp only [hfields, BridgeMessage.Action.fields, hto, hamount, bigNumber_uintBytes hlaw ha]
    rfl
  | details newName newSymbol newDecimals =>
    have hlength : (BridgeMessage.Action.details newName newSymbol newDecimals).view.bytes.length =
        ACTION_LEN.details := length_view
    -- the decimals are the one byte after the two words
    have hwords : (newName.toList ++ newSymbol.toList).length = 64 := by simp
    have hname := slice_left (by simp : 32 = newName.toList.length)
      (newSymbol.toList ++ uintBytes 1 newDecimals.toNat)
    have hsymbol := slice_append (by simp : 32 = newName.toList.length)
      (by simp : 64 = 32 + newSymbol.toList.length) (uintBytes 1 newDecimals.toNat)
    have hdecimals : (newName.toList ++ (newSymbol.toList ++ uintBytes 1 newDecimals.toNat))[64]? =
        some newDecimals := by
      have hbyte : UInt8.ofNat newDecimals.toNat = newDecimals := UInt8.ofNat_toNat
      rw [← List.append_assoc, List.getElem?_append_right hwords.le, hwords]
      exact congrArg some hbyte
    rw [hlength] at hfields
    rw [parseAction, hlength, if_neg (by decide), if_neg (by decide), if_pos rfl]
    simp only [hfields, BridgeMessage.Action.fields, List.append_assoc, hname, hsymbol, hdecimals]
    rfl

theorem parseBody_messageBytes (hlaw : E.Lawful) (ha : a.WellTyped) {body : String}
    (hbody : E.arrayify body = some (BridgeMessage.messageBytes d i a)) :
    parseBody E body = .ok ⟨shown E a, ⟨d.toNat, E.hexlify i.toList⟩⟩ := by
  have hlength : 36 = (uint32Bytes d ++ i.toList : List UInt8).length := by simp
  have htokenId : slice (BridgeMessage.messageBytes d i a) 0 36 = uint32Bytes d ++ i.toList :=
    slice_left hlength a.view.bytes
  -- the SDK cuts the token id out first, and reads it by its own offsets
  have hdomain : readUInt32BE (uint32Bytes d ++ i.toList) 0 = some d.toNat :=
    readUInt32BE_append (List.length_nil (α := UInt8)).symm d i.toList
  have hid : slice (uint32Bytes d ++ i.toList) 4 36 = i.toList := by
    have h := slice_right (by simp : 4 = (uint32Bytes d : List UInt8).length) i.toList
    rwa [← hlength] at h
  have haction : slice (BridgeMessage.messageBytes d i a) 36
      (BridgeMessage.messageBytes d i a).length = a.view.bytes := slice_right hlength a.view.bytes
  rw [parseBody, hbody]
  simp only [orThrow, ok_bind, htokenId, hdomain, hid, haction, parseAction_view hlaw ha]

/-- What the accessors of the contracts read off the view of an action. -/
def ReadsAs (_action : View UInt8) : BridgeMessage.Action UInt8 → Prop
  | .transfer receiver amount =>
    BridgeMessage.recipient _action = .ok receiver ∧ BridgeMessage.amnt _action = .ok amount
  | .details newName newSymbol newDecimals =>
    BridgeMessage.name _action = .ok newName ∧ BridgeMessage.symbol _action = .ok newSymbol ∧
      BridgeMessage.decimals _action = .ok newDecimals
  | .requestDetails => True

theorem readsAs_view (ha : a.WellTyped) : ReadsAs a.view a := by
  cases a with
  | transfer receiver amount =>
    refine ⟨BridgeMessage.recipient_view receiver amount, ?_⟩
    rw [BridgeMessage.amnt_view, Nat.mod_eq_of_lt ha]
  | details newName newSymbol newDecimals =>
    exact ⟨BridgeMessage.name_view newName newSymbol newDecimals,
      BridgeMessage.symbol_view newName newSymbol newDecimals,
      BridgeMessage.decimals_view newName newSymbol newDecimals⟩
  | requestDetails => trivial

/-- **Bridge messages survive both decoders.** From a formatted message the contracts and
the SDK recover the token id, the type of the action and its fields; the action has one type
only; and the SDK looks a prefill up by the id that the router gives it. -/
theorem both_decoders (K : Crypto UInt8) (hlaw : E.Lawful) (ha : a.WellTyped) :
    ∃ _message, BridgeMessage.format d i a = .ok _message ∧
      (∃ _msg _tokenId _action,
        BridgeMessage.mustBeMessage (View.ref _message 0) = .ok _msg ∧
        BridgeMessage.tokenId _msg = .ok _tokenId ∧ BridgeMessage.action _msg = .ok _action ∧
        BridgeMessage.domain _tokenId = .ok d ∧ BridgeMessage.id _tokenId = .ok i ∧
        BridgeMessage.messageType _action = .ok a.type ∧ ReadsAs _action a ∧
        BridgeMessage.isTransfer _action = .ok (decide (a.type = .Transfer)) ∧
        BridgeMessage.isDetails _action = .ok (decide (a.type = .Details)) ∧
        BridgeMessage.isRequestDetails _action = .ok (decide (a.type = .RequestDetails)) ∧
        ∀ body, E.arrayify body = some _message →
          prefillId E K body =
            .ok (E.hexlify (BridgeRouter._preFillId K _tokenId _action).toList)) ∧
      ∀ body, E.arrayify body = some _message →
        parseBody E body = .ok ⟨shown E a, ⟨d.toNat, E.hexlify i.toList⟩⟩ := by
  refine ⟨BridgeMessage.messageBytes d i a, BridgeMessage.format_eq d i a, ?_, ?_⟩
  · refine ⟨_, _, _, BridgeMessage.mustBeMessage_messageBytes d i a,
      BridgeMessage.tokenId_messageBytes d i a, BridgeMessage.action_messageBytes d i a,
      BridgeMessage.domain_tokenIdView d i, BridgeMessage.id_tokenIdView d i,
      BridgeMessage.messageType_view a, readsAs_view ha, BridgeMessage.isAction_view a _,
      BridgeMessage.isAction_view a _, BridgeMessage.isAction_view a _, fun body hbody => ?_⟩
    -- the router hashes its two views one after the other, and the SDK the body as a whole
    have hid : BridgeRouter._preFillId K (BridgeMessage.tokenIdView d i) a.view =
        K.keccak256 (BridgeMessage.messageBytes d i a) := by
      simp [BridgeRouter._preFillId, View.joinKeccak, View.join, BridgeMessage.messageBytes]
    rw [prefillId, bodyHash, hbody, hid]
    rfl
  · exact fun body hbody => parseBody_messageBytes d i hlaw ha hbody

/-! ### A library -/

/-- A library of lower case hex strings. -/
def ethersLibrary : EthersLibrary where
  toHexLibrary := hexLibrary
  bigNumber text := (hexLibrary.arrayify text).map bytesUint

theorem ethersLibrary_lawful : ethersLibrary.Lawful where
  arrayify := hexLibrary_lawful
  bigNumber bytes _ := congrArg (Option.map bytesUint) (hexLibrary_lawful bytes)

/-- A Transfer of 5 units, packed, read back and parsed. -/
theorem both_decoders_sample :
    ethersLibrary.Lawful ∧
    (BridgeMessage.Action.transfer (0 : Bytes32 UInt8) 5).WellTyped ∧
    ∃ _message, BridgeMessage.format 1000 0 (.transfer 0 5) = .ok _message ∧
      parseBody ethersLibrary (ethersLibrary.hexlify _message) =
        .ok ⟨.transfer (ethersLibrary.hexlify (0 : Bytes32 UInt8).toList) 5,
          ⟨1000, ethersLibrary.hexlify (0 : Bytes32 UInt8).toList⟩⟩ := by
  have htyped : (BridgeMessage.Action.transfer (0 : Bytes32 UInt8) 5).WellTyped :=
    (by decide : (5 : ℕ) < 2 ^ 256)
  obtain ⟨_message, hformat, -, hparse⟩ := both_decoders (E := ethersLibrary) 1000 0
    ⟨fun _ => 0, fun _ _ => none⟩ ethersLibrary_lawful htyped
  exact ⟨ethersLibrary_lawful, htyped, _message, hformat,
    hparse _ (ethersLibrary_lawful.arrayify _message)⟩

end ParsedBridgeMessage

end Optics
