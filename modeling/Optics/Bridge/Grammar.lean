/-
# What counts as a bridge message

Three parsers take messages: `handle` checks the length of the whole message and goes by
the first byte of the action, while `preFill` and the SDK go by the length of the action
alone. They agree, and `handle` takes formatted messages only, as long as no action is
longer than its first byte says: a Transfer with one byte more, or a request for details
with the length of another action.
-/

import Optics.Bridge.Parsing
import Optics.Provider.BridgeMessage

namespace Optics.BridgeMessage

open Optics.Solidity Optics.Bridge Optics.TokenRegistry Optics.BridgeRouter

variable {K : Crypto UInt8} {E : EthersLibrary} {_message : List UInt8} {t : Types}

/-- The parsers of bridge messages. -/
inductive Parser
  | handle
  | preFill
  | parseBody

/-- A parser takes a message for an action of some type, in some state of the router. -/
inductive Takes (K : Crypto UInt8) (E : EthersLibrary) (_message : List UInt8) :
    Parser → Types → Prop
  | handle {ctx : Context UInt8} {_origin : UInt32} {_sender : Bytes32 UInt8}
      {chain : Chain UInt8} {result : Chain UInt8 × List (Dispatch UInt8)} {t : Types}
      (haccepted : BridgeRouter.handle K ctx _origin _sender _message chain = .ok result)
      (hbranch : Handled K ctx _origin _sender _message chain result t) :
      Takes K E _message .handle t
  | preFill {ctx : Context UInt8} {chain : Chain UInt8}
      {result : Chain UInt8 × List (Dispatch UInt8)}
      (haccepted : BridgeRouter.preFill K ctx _message chain = .ok result) :
      Takes K E _message .preFill .Transfer
  | parseBody {body : String} {parsed : ParsedBridgeMessage}
      (hbody : E.arrayify body = some _message)
      (haccepted : ParsedBridgeMessage.parseBody E body = .ok parsed) :
      Takes K E _message .parseBody parsed.action.type

/-- A message formatted with an action of a type. -/
def Formatted (t : Types) (_message : List UInt8) : Prop :=
  ∃ d i a, a.type = t ∧ a.WellTyped ∧ format d i a = .ok _message

/-- The grammar is kept for a message: what `handle` takes is formatted, with an action of
the type of the branch it goes into, and the parsers that take it agree on the type. -/
structure Grammatical (K : Crypto UInt8) (E : EthersLibrary) (_message : List UInt8) : Prop where
  formatted : ∀ t, Takes K E _message .handle t → Formatted t _message
  agree : ∀ p q t u, Takes K E _message p t → Takes K E _message q u → t = u

/-- An action that is longer than its first byte says, in a message of valid length. -/
def Overlong (_message : List UInt8) : Prop :=
  (identifierOf _message = Types.Transfer.code ∧ _message.length = 102) ∨
    (identifierOf _message = Types.RequestDetails.code ∧
      (_message.length = 101 ∨ _message.length = 102))

/-! ### Messages by their length -/

/-- The length of a message with an action of a type. -/
def messageLength : Types → ℕ
  | .Transfer => 101
  | .Details => 102
  | .RequestDetails => 37
  | _ => 0

theorem length_messageBytes (d : UInt32) (i : Bytes32 UInt8) (a : Action UInt8) :
    (messageBytes d i a).length = messageLength a.type := by
  cases a <;>
    simp [messageBytes, tokenIdView, Action.view, Action.fields, Action.type, messageLength]

theorem Formatted.length_eq (h : Formatted t _message) : _message.length = messageLength t := by
  obtain ⟨d, i, a, rfl, -, hformat⟩ := h
  rw [format_eq] at hformat
  rw [← Except.ok.inj hformat, length_messageBytes]

/-- A message falls into a domain, an id, an identifier and the fields of its action. -/
theorem eq_of_fields {d : UInt32} {i : Bytes32 UInt8} {a : Action UInt8}
    (hd : uint32Bytes d = _message.take 4) (hi : i.toList = (_message.drop 4).take 32)
    (hlength : TOKEN_ID_LEN < _message.length) (htype : a.type.code = identifierOf _message)
    (hfields : a.fields = _message.drop 37) : messageBytes d i a = _message := by
  -- the byte after the token id is there, so reading it as a number loses nothing
  have hidentifier : uintBytes 1 (identifierOf _message) = (_message.drop TOKEN_ID_LEN).take 1 := by
    have hone : ((_message.drop TOKEN_ID_LEN).take 1).length = 1 := by
      rw [List.length_take, List.length_drop]
      omega
    have h := uintBytes_bytesUint ((_message.drop TOKEN_ID_LEN).take 1)
    rwa [hone] at h
  have haction : (_message.drop TOKEN_ID_LEN).take 1 ++ _message.drop 37 = _message.drop 36 := by
    have h := List.take_append_drop 1 (_message.drop TOKEN_ID_LEN)
    rwa [List.drop_drop] at h
  have htokenId : (_message.drop 4).take 32 ++ _message.drop 36 = _message.drop 4 := by
    have h := List.take_append_drop 32 (_message.drop 4)
    rwa [List.drop_drop] at h
  rw [messageBytes, tokenIdView, Action.view, htype, hfields, hidentifier, haction, hd, hi,
    List.append_assoc, htokenId, List.take_append_drop]

theorem exists_word (bytes : List UInt8) (h : bytes.length = 32) :
    ∃ w : Bytes32 UInt8, w.toList = bytes := ⟨⟨bytes, h⟩, rfl⟩

/-- Bytes of the length of the fields of a type are the fields of an action of that type. -/
theorem exists_action {rest : List UInt8} (hlength : rest.length = messageLength t - 37)
    (hpos : 0 < messageLength t) :
    ∃ a : Action UInt8, a.type = t ∧ a.WellTyped ∧ a.fields = rest := by
  cases t with
  | Invalid | TokenId | Message => exact absurd hpos (by decide)
  | Transfer =>
    obtain ⟨receiver, hreceiver⟩ := exists_word (rest.take 32) (by
      rw [List.length_take, hlength]
      rfl)
    have hamount : (rest.drop 32).length = 32 := by
      rw [List.length_drop, hlength]
      rfl
    refine ⟨.transfer receiver (bytesUint (rest.drop 32)), rfl, ?_, ?_⟩
    · exact (bytesUint_lt _).trans_eq (by rw [hamount]; norm_num)
    · have h := uintBytes_bytesUint (rest.drop 32)
      rw [hamount] at h
      rw [Action.fields, hreceiver, h, List.take_append_drop]
  | Details =>
    obtain ⟨newName, hname⟩ := exists_word (rest.take 32) (by
      rw [List.length_take, hlength]
      rfl)
    obtain ⟨newSymbol, hsymbol⟩ := exists_word ((rest.drop 32).take 32) (by
      rw [List.length_take, List.length_drop, hlength]
      rfl)
    have hdecimals : ((rest.drop 32).drop 32).length = 1 := by
      rw [List.length_drop, List.length_drop, hlength]
      rfl
    -- one byte is less than 256, so nothing is lost in the `uint8`
    have hlt : bytesUint ((rest.drop 32).drop 32) < 256 :=
      (bytesUint_lt _).trans_eq (by rw [hdecimals]; rfl)
    have hnat : (UInt8.ofNat (bytesUint ((rest.drop 32).drop 32))).toNat =
        bytesUint ((rest.drop 32).drop 32) := by
      rw [UInt8.toNat_ofNat']
      exact Nat.mod_eq_of_lt hlt
    have h := uintBytes_bytesUint ((rest.drop 32).drop 32)
    rw [hdecimals] at h
    refine ⟨.details newName newSymbol (UInt8.ofNat (bytesUint ((rest.drop 32).drop 32))), rfl,
      trivial, ?_⟩
    rw [Action.fields, hname, hsymbol, hnat, h, List.append_assoc, List.take_append_drop,
      List.take_append_drop]
  | RequestDetails =>
    refine ⟨.requestDetails, rfl, trivial, ?_⟩
    exact (List.length_eq_zero_iff.mp hlength).symm

/-- Every message of the right length with an identifier is formatted. -/
theorem formatted_of_length (hidentifier : identifierOf _message = t.code)
    (hlength : _message.length = messageLength t) (hpos : 0 < messageLength t) :
    Formatted t _message := by
  have hlong : TOKEN_ID_LEN < _message.length := by
    rw [hlength, TOKEN_ID_LEN]
    cases t <;> simp_all [messageLength]
  have hd : uint32Bytes (bytesUint32 (_message.take 4)) = _message.take 4 := by
    apply uint32Bytes_bytesUint32
    rw [List.length_take]
    rw [TOKEN_ID_LEN] at hlong
    omega
  obtain ⟨i, hi⟩ := exists_word ((_message.drop 4).take 32) (by
    rw [List.length_take, List.length_drop]
    rw [TOKEN_ID_LEN] at hlong
    omega)
  have hrest : (_message.drop 37).length = messageLength t - 37 := by
    rw [List.length_drop, hlength]
  obtain ⟨a, htype, htyped, hfields⟩ := exists_action hrest hpos
  refine ⟨bytesUint32 (_message.take 4), i, a, htype, htyped, ?_⟩
  rw [format_eq, eq_of_fields hd hi hlong (htype ▸ hidentifier.symm) hfields]

/-! ### What the parsers take -/

/-- `handle` reads every field of the action, so the message is long enough for it. -/
theorem le_length_of_handled {ctx : Context UInt8} {_origin : UInt32} {_sender : Bytes32 UInt8}
    {chain : Chain UInt8} {result : Chain UInt8 × List (Dispatch UInt8)}
    (hlength : ValidLength _message)
    (h : Handled K ctx _origin _sender _message chain result t) :
    identifierOf _message = t.code ∧ messageLength t ≤ _message.length ∧ 0 < messageLength t := by
  have hlong := hlength.lt_length
  cases h with
  | transfer hidentifier hresult =>
    obtain ⟨-, -, -, n, -, -, hamnt, -⟩ := _handleTransfer_eq_ok.mp hresult
    -- the amount is the last field, and its 32 bytes have to be there
    obtain ⟨-, hread⟩ := typeAssert_bind_eq_ok.mp hamnt
    obtain ⟨hend, -⟩ := View.indexUint_eq_ok.mp hread
    rw [View.len, actionOf, List.length_drop, TOKEN_ID_LEN] at hend
    exact ⟨hidentifier, by rw [messageLength]; omega, by decide⟩
  | details hidentifier hresult =>
    obtain ⟨_, -, hresult⟩ := bind_eq_ok.mp hresult
    obtain ⟨-, hresult⟩ := require_bind_eq_ok.mp hresult
    obtain ⟨_, -, hresult⟩ := bind_eq_ok.mp hresult
    obtain ⟨_, -, hresult⟩ := bind_eq_ok.mp hresult
    obtain ⟨_, hdecimals, -⟩ := bind_eq_ok.mp hresult
    -- so has the byte of the decimals
    obtain ⟨-, hread⟩ := typeAssert_bind_eq_ok.mp hdecimals
    obtain ⟨value, hvalue, -⟩ := bind_eq_ok.mp hread
    obtain ⟨hend, -⟩ := View.indexUint_eq_ok.mp hvalue
    rw [View.len, actionOf, List.length_drop, TOKEN_ID_LEN] at hend
    exact ⟨hidentifier, by rw [messageLength]; omega, by decide⟩
  | requestDetails hidentifier _ => exact ⟨hidentifier, hlong, by decide⟩

/-- The SDK goes by the length alone. -/
theorem length_of_parseAction {buf : List UInt8} {a : ParsedBridgeMessage.Action}
    (h : ParsedBridgeMessage.parseAction E buf = .ok a) :
    buf.length + 36 = messageLength a.type ∧ 0 < messageLength a.type ∧ 0 < buf.length := by
  unfold ParsedBridgeMessage.parseAction at h
  split_ifs at h with hrequest htransfer hdetails
  · obtain rfl := Except.ok.inj h
    rw [hrequest]
    exact ⟨rfl, by decide, by decide⟩
  · obtain ⟨amount, -, h⟩ := bind_eq_ok.mp h
    obtain rfl := Except.ok.inj h
    rw [htransfer]
    exact ⟨rfl, (by decide : 0 < messageLength .Transfer), by decide⟩
  · obtain ⟨decimals, -, h⟩ := bind_eq_ok.mp h
    obtain rfl := Except.ok.inj h
    rw [hdetails]
    exact ⟨rfl, (by decide : 0 < messageLength .Details), by decide⟩

/-- **Lengths decide.** Where no action is overlong, a message has the length of the type
that a parser gives it. -/
theorem length_of_takes {p : Parser} (h : Takes K E _message p t) (hshort : ¬ Overlong _message) :
    _message.length = messageLength t ∧ 0 < messageLength t := by
  cases h with
  | handle haccepted hbranch =>
    obtain ⟨-, -, hlength, -⟩ := handle_eq_ok.mp haccepted
    obtain ⟨hidentifier, hle, hpos⟩ := le_length_of_handled hlength hbranch
    refine ⟨?_, hpos⟩
    rw [validLength_iff] at hlength
    cases t with
    | Invalid | TokenId | Message => exact absurd hpos (by decide)
    | Transfer =>
      -- of the two lengths with room for a Transfer, 102 is overlong
      have hne : _message.length ≠ 102 := fun h => hshort (.inl ⟨hidentifier, h⟩)
      change 101 ≤ _message.length at hle
      change _message.length = 101
      omega
    | Details =>
      change 102 ≤ _message.length at hle
      change _message.length = 102
      omega
    | RequestDetails =>
      -- no field is read, so every length has room for this identifier
      have hne : ¬ (_message.length = 101 ∨ _message.length = 102) :=
        fun h => hshort (.inr ⟨hidentifier, h⟩)
      change _message.length = 37
      omega
  | @preFill ctx chain result haccepted =>
    obtain ⟨chain', sent⟩ := result
    exact ⟨(preFill_eq_ok haccepted).1, by decide⟩
  | parseBody hbody haccepted =>
    -- the SDK never looks at the identifier
    rw [ParsedBridgeMessage.parseBody, hbody] at haccepted
    obtain ⟨buf, hbuf, haccepted⟩ := bind_eq_ok.mp haccepted
    obtain rfl := Except.ok.inj hbuf
    obtain ⟨domain, -, haccepted⟩ := bind_eq_ok.mp haccepted
    obtain ⟨a, hparse, haccepted⟩ := bind_eq_ok.mp haccepted
    obtain rfl := Except.ok.inj haccepted
    obtain ⟨hlength, hpos, hrest⟩ := length_of_parseAction hparse
    rw [MessageFormat.slice, List.take_length, List.length_drop] at hlength hrest
    refine ⟨?_, hpos⟩
    change _message.length = messageLength a.type
    omega

theorem grammatical_of_not_overlong (hshort : ¬ Overlong _message) : Grammatical K E _message where
  formatted t h := by
    obtain ⟨hlength, hpos⟩ := length_of_takes h hshort
    cases h with
    | handle haccepted hbranch =>
      obtain ⟨-, -, hvalid, -⟩ := handle_eq_ok.mp haccepted
      exact formatted_of_length (le_length_of_handled hvalid hbranch).1 hlength hpos
  agree p q t u ht hu := by
    obtain ⟨hlength, hpos⟩ := length_of_takes ht hshort
    obtain ⟨hlength', hpos'⟩ := length_of_takes hu hshort
    rw [hlength'] at hlength
    cases t <;> cases u <;> simp_all [messageLength]

/-! ### Overlong actions are taken -/

section Overlong

/-- An address other than 0. -/
def sampleAccount : Address UInt8 := List.Vector.replicate 20 1

/-- A router of another domain, that mints a token for everything and has been prefilled. -/
def mintingChain (d : UInt32) : Chain UInt8 where
  address := sampleAccount
  localDomain := if d = 0 then 1 else 0
  owner := 0
  remotes _ := 0
  representationToCanonical _ := ⟨1, 0⟩
  canonicalToRepresentation _ := sampleAccount
  liquidityProvider _ := sampleAccount
  tokens _ := some (BridgeToken.init sampleAccount)

/-- A router on a chain where every address is a token of local origin. -/
def originChain : Chain UInt8 where
  address := sampleAccount
  localDomain := 0
  owner := 0
  remotes _ := 0
  representationToCanonical _ := ⟨0, 0⟩
  canonicalToRepresentation _ := 0
  liquidityProvider _ := 0
  tokens _ := some (BridgeToken.init sampleAccount)

/-- A call of a Replica. -/
def replicaContext : Context UInt8 where
  sender := sampleAccount
  isReplica := true
  homeAccepts := true
  created := 0
  refuses _ := false

theorem domain_of (h : ValidLength _message) : ∃ d, domain (tokenIdOf _message) = .ok d := by
  have hend : 0 + 4 ≤ (tokenIdOf _message).len := by
    have hlong := h.lt_length
    rw [View.len, tokenIdOf, List.length_take]
    rw [TOKEN_ID_LEN] at hlong ⊢
    omega
  have hread := View.indexUint_eq_ok.mpr ⟨hend, rfl⟩
  exact ⟨_, typeAssert_bind_eq_ok.mpr ⟨rfl, by rw [hread]; rfl⟩⟩

theorem evmId_of (h : ValidLength _message) : ∃ a, evmId (tokenIdOf _message) = .ok a := by
  have hend : 16 + 20 ≤ (tokenIdOf _message).len := by
    have hlong := h.lt_length
    rw [View.len, tokenIdOf, List.length_take]
    rw [TOKEN_ID_LEN] at hlong ⊢
    omega
  exact ⟨_, typeAssert_bind_eq_ok.mpr ⟨rfl, dif_pos hend⟩⟩

theorem evmRecipient_of (h : 101 ≤ _message.length) :
    ∃ r, evmRecipient (transferOf _message) = .ok r := by
  have hend : 13 + 20 ≤ (transferOf _message).len := by
    rw [View.len, transferOf, List.length_drop, TOKEN_ID_LEN]
    omega
  exact ⟨_, typeAssert_bind_eq_ok.mpr ⟨rfl, dif_pos hend⟩⟩

theorem amnt_of (h : 101 ≤ _message.length) :
    ∃ n, amnt (transferOf _message) = .ok n ∧ n < 2 ^ 256 := by
  have hend : 33 + 32 ≤ (transferOf _message).len := by
    rw [View.len, transferOf, List.length_drop, TOKEN_ID_LEN]
    omega
  refine ⟨_, typeAssert_bind_eq_ok.mpr ⟨rfl, View.indexUint_eq_ok.mpr ⟨hend, rfl⟩⟩, ?_⟩
  have hword : (((transferOf _message).bytes.drop 33).take 32).length = 32 := by
    rw [List.length_take, List.length_drop]
    rw [View.len] at hend
    omega
  exact (bytesUint_lt _).trans_eq (by rw [hword]; norm_num)

/-- The branch of `handle` is that of the identifier. -/
theorem takes_handle {ctx : Context UInt8} {_origin : UInt32} {_sender : Bytes32 UInt8}
    {chain : Chain UInt8} {result : Chain UInt8 × List (Dispatch UInt8)}
    (hidentifier : identifierOf _message = t.code)
    (haccepted : BridgeRouter.handle K ctx _origin _sender _message chain = .ok result) :
    Takes K E _message .handle t := by
  obtain ⟨-, -, hvalid, u, hbranch⟩ := handle_eq_ok.mp haccepted
  obtain ⟨hcode, -⟩ := le_length_of_handled hvalid hbranch
  have htype : u = t := by
    have h := hcode.symm.trans hidentifier
    cases u <;> cases t <;> simp_all [Types.code]
  exact .handle haccepted (htype ▸ hbranch)

/-- `handle` takes every message with the identifier of a Transfer that has its fields. -/
theorem takes_transfer (hidentifier : identifierOf _message = Types.Transfer.code)
    (hvalid : ValidLength _message) (hlength : 101 ≤ _message.length) :
    Takes K E _message .handle .Transfer := by
  obtain ⟨d, hdomain⟩ := domain_of hvalid
  obtain ⟨r, hrecipient⟩ := evmRecipient_of hlength
  obtain ⟨n, hamnt, hlt⟩ := amnt_of hlength
  -- the chain has a domain other than that of the token, so it mints
  have hlocal : d ≠ (mintingChain d).localDomain := by
    change d ≠ if d = 0 then 1 else 0
    split_ifs with hzero
    · rw [hzero]
      decide
    · exact hzero
  have hensure : _ensureToken K replicaContext (tokenIdOf _message) (mintingChain d) =
      .ok (sampleAccount, mintingChain d, []) := by
    rw [_ensureToken, _getTokenAddress, hdomain, ok_bind, if_neg hlocal, ok_bind]
    rfl
  have hmint : ∃ t, BridgeToken.mint sampleAccount sampleAccount n
      (BridgeToken.init sampleAccount) = .ok t := by
    have hsum : 0 + n < UINT256 := (Nat.zero_add n).symm ▸ hlt
    simp only [BridgeToken.mint, BridgeToken.onlyOwner, BridgeToken._mint, require_bind_eq_ok,
      SafeMath.add_bind_eq_ok]
    exact ⟨_, rfl, by decide, hsum, hsum, rfl⟩
  obtain ⟨t, hmint⟩ := hmint
  have hpayee : (if (mintingChain d).liquidityProvider (K.keccak256 _message) = 0 then r
      else (mintingChain d).liquidityProvider (K.keccak256 _message)) = sampleAccount :=
    if_neg (by decide : sampleAccount ≠ 0)
  have hcirculate : ∀ providers, ∃ chain, circulate replicaContext sampleAccount sampleAccount n
      { mintingChain d with liquidityProvider := providers } = .ok chain := by
    intro providers
    have hremote : _isLocalOrigin sampleAccount
        { mintingChain d with liquidityProvider := providers } = false := rfl
    rw [circulate, hremote, if_neg Bool.false_ne_true]
    exact ⟨_, callToken_of rfl rfl hmint⟩
  obtain ⟨chain, hcirculate⟩ := hcirculate (Function.update (mintingChain d).liquidityProvider
    (K.keccak256 _message) 0)
  have haccepted : BridgeRouter.handle K replicaContext 0 0 _message (mintingChain d) =
      .ok (chain, []) :=
    (handle_transfer_eq_ok hidentifier).mpr ⟨⟨rfl, rfl, hvalid⟩, _, _, _, _, hensure, hrecipient,
      hamnt, hpayee.symm ▸ hcirculate⟩
  exact takes_handle hidentifier haccepted

/-- `handle` takes every message with the identifier of a request for details. -/
theorem takes_requestDetails (hidentifier : identifierOf _message = Types.RequestDetails.code)
    (hvalid : ValidLength _message) : Takes K E _message .handle .RequestDetails := by
  obtain ⟨a, hevmId⟩ := evmId_of hvalid
  have hformat : formatMessage (tokenIdOf _message) (Action.details 0 0 0).view =
      .ok (View.join [tokenIdOf _message, (Action.details 0 0 0).view]) := by
    rw [formatMessage, tokenIdOf, typeAssert_bind, isValidAction_view, ok_bind]
    rfl
  have hresult : _handleRequestDetails replicaContext 0 0 (tokenIdOf _message) originChain =
      .ok (originChain, [⟨0, 0, View.join [tokenIdOf _message, (Action.details 0 0 0).view]⟩]) := by
    rw [_handleRequestDetails, hevmId, ok_bind]
    change (do
      let _action ← formatDetails 0 0 0
      let _message ← formatMessage (tokenIdOf _message) _action
      let sent ← dispatch replicaContext 0 0 _message
      Except.ok (originChain, sent)) = _
    rw [formatDetails_eq, ok_bind, hformat]
    rfl
  have haccepted : BridgeRouter.handle K replicaContext 0 0 _message originChain = .ok _ :=
    handle_eq_ok.mpr ⟨rfl, rfl, hvalid, _, .requestDetails hidentifier hresult⟩
  exact takes_handle hidentifier haccepted

end Overlong

/-- **The grammar of bridge messages.** It is kept for a message if and only if the action
of the message is not overlong. -/
theorem grammatical_iff : Grammatical K E _message ↔ ¬ Overlong _message := by
  refine ⟨fun h hlong => ?_, grammatical_of_not_overlong⟩
  rcases hlong with ⟨hidentifier, hlength⟩ | ⟨hidentifier, hlength⟩
  · have hvalid : ValidLength _message := validLength_iff.mpr (.inr (.inl hlength))
    have hformatted := h.formatted _ (takes_transfer hidentifier hvalid (by omega))
    have hexact : _message.length = 101 := hformatted.length_eq
    omega
  · have hvalid : ValidLength _message := by
      rw [validLength_iff]
      omega
    have hexact : _message.length = 37 :=
      (h.formatted _ (takes_requestDetails hidentifier hvalid)).length_eq
    omega

/-! ### A Transfer with a byte too many -/

section Sample

def sampleHash : Crypto UInt8 := ⟨fun _ => 0, fun _ _ => none⟩

def sampleAccountOf (b : UInt8) : Address UInt8 := List.Vector.replicate 20 b

def sampleTokenId : TokenId UInt8 := ⟨2, addressToBytes32 (sampleAccountOf 6)⟩

/-- The router of domain 1, with a representation of a token of domain 2. -/
def sampleRegistered : Chain UInt8 :=
  registered sampleHash sampleTokenId (sampleAccountOf 4)
    { address := sampleAccountOf 3
      localDomain := 1
      owner := 0
      remotes := fun d => if d = 2 then addressToBytes32 (sampleAccountOf 2) else 0
      representationToCanonical := fun _ => ⟨0, 0⟩
      canonicalToRepresentation := fun _ => 0
      liquidityProvider := fun _ => 0
      tokens := fun r =>
        if r = sampleAccountOf 4 then some (BridgeToken.init (sampleAccountOf 3)) else none }

/-- A Transfer of 5 units to account 7, and one byte more. -/
def sampleOverlong : List UInt8 :=
  messageBytes sampleTokenId.domain sampleTokenId.id
    (.transfer (addressToBytes32 (sampleAccountOf 7)) 5) ++ [0]

/-- It is handled as a Transfer, and no formatted message is equal to it. -/
theorem not_grammatical :
    ¬ ∀ _message, Grammatical sampleHash ParsedBridgeMessage.ethersLibrary _message := by
  intro h
  have haccepted : ∃ result, BridgeRouter.handle sampleHash replicaContext 2
      (addressToBytes32 (sampleAccountOf 2)) sampleOverlong sampleRegistered = .ok result :=
    ⟨_, rfl⟩
  obtain ⟨result, haccepted⟩ := haccepted
  have htakes :
      Takes sampleHash ParsedBridgeMessage.ethersLibrary sampleOverlong .handle .Transfer :=
    takes_handle (by decide) haccepted
  have hlength := ((h sampleOverlong).formatted _ htakes).length_eq
  exact absurd hlength (by decide)

end Sample

end Optics.BridgeMessage
