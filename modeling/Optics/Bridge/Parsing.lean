/-
# Parsing any message of the bridge

A message of one of the three lengths falls into a token id and an action, and the first
byte of the action alone says how `handle` goes on. `preFill` looks at the length of the
action and not at that byte.
-/

import Optics.Bridge.RouterEffects

namespace Optics.BridgeMessage

open Optics.Solidity

variable {Byte : Type}

/-- The token id of a message. -/
def tokenIdOf (_message : List Byte) : View Byte :=
  ⟨Types.TokenId.code, _message.take TOKEN_ID_LEN⟩

/-- Whether a message has one of the three lengths. -/
def ValidLength (_message : List Byte) : Prop := isValidMessageLength (View.ref _message 0)

instance decidableValidLength (_message : List Byte) : Decidable (ValidLength _message) :=
  decidableIsValidMessageLength _

/-- The action of a message as a Transfer. -/
def transferOf (_message : List Byte) : View Byte :=
  ⟨Types.Transfer.code, _message.drop TOKEN_ID_LEN⟩

variable [ByteAlphabet Byte]

/-- The first byte of the action of a message. -/
def identifierOf (_message : List Byte) : ℕ := bytesUint ((_message.drop TOKEN_ID_LEN).take 1)

/-- The action of a message, with the type that its first byte names. -/
def actionOf (_message : List Byte) : View Byte :=
  ⟨identifierOf _message, _message.drop TOKEN_ID_LEN⟩

variable {_message : List Byte}

omit [ByteAlphabet Byte] in
theorem validLength_iff : ValidLength _message ↔
    _message.length = 101 ∨ _message.length = 102 ∨ _message.length = 37 := Iff.rfl

omit [ByteAlphabet Byte] in
theorem ValidLength.lt_length (h : ValidLength _message) : TOKEN_ID_LEN < _message.length := by
  rw [validLength_iff] at h
  rw [TOKEN_ID_LEN]
  omega

omit [ByteAlphabet Byte] in
theorem mustBeMessage_of (h : ValidLength _message) :
    mustBeMessage (View.ref _message 0) = .ok ⟨Types.Message.code, _message⟩ :=
  mustBeMessage_eq_ok.mpr ⟨h, rfl⟩

omit [ByteAlphabet Byte] in
theorem tokenId_of (h : ValidLength _message) :
    tokenId ⟨Types.Message.code, _message⟩ = .ok (tokenIdOf _message) := by
  have hslice : (View.mk Types.Message.code _message).slice 0 TOKEN_ID_LEN Types.TokenId.code =
      some (tokenIdOf _message) := by
    rw [View.slice, if_pos (by rw [View.len]; exact Nat.zero_add _ ▸ h.lt_length.le)]
    rfl
  rw [tokenId, typeAssert_bind, hslice]
  rfl

omit [ByteAlphabet Byte] in
theorem viewIndex_of_lt {i : ℕ} (h : i < _message.length) :
    viewIndex _message i 1 = .ok ((_message.drop i).take 1) := if_pos h

theorem action_of (h : ValidLength _message) :
    action ⟨Types.Message.code, _message⟩ = .ok (actionOf _message) := by
  have hslice : (View.mk Types.Message.code _message).slice TOKEN_ID_LEN
      (_message.length - TOKEN_ID_LEN) (identifierOf _message) = some (actionOf _message) := by
    have hend : TOKEN_ID_LEN + (_message.length - TOKEN_ID_LEN) ≤ _message.length :=
      (Nat.add_sub_of_le h.lt_length.le).le
    rw [View.slice, View.len, if_pos hend, actionOf, List.take_of_length_le (by simp)]
  have htype : msgType ⟨Types.Message.code, _message⟩ = .ok (identifierOf _message) := by
    rw [msgType, View.indexUint, viewIndex_of_lt h.lt_length]
    rfl
  rw [action, typeAssert_bind, htype, ok_bind, View.len, hslice]
  rfl

omit [ByteAlphabet Byte] in
theorem mustBeMessage_eq_error (h : ¬ ValidLength _message) :
    mustBeMessage (View.ref _message 0) = .error (.external "TypedMemView") := by
  have hinvalid : ¬ isValidMessageLength (View.ref _message 0) := h
  rw [mustBeMessage, tryAsMessage, if_neg hinvalid]
  rfl

/-- The first byte decides which type an action has. -/
theorem isAction_of (h : ValidLength _message) (t : Types) :
    isAction t (actionOf _message) = .ok (decide (identifierOf _message = t.code)) := by
  have hdrop : 0 < (_message.drop TOKEN_ID_LEN).length := by
    rw [List.length_drop]
    exact Nat.sub_pos_of_lt h.lt_length
  have htype : actionType (actionOf _message) = .ok (identifierOf _message) := by
    rw [actionType, View.indexUint, actionOf, viewIndex_of_lt hdrop, List.drop_zero]
    rfl
  rw [isAction, htype, ok_bind]
  split_ifs with hcode
  · have hofCode : messageType (actionOf _message) = .ok t := by
      rw [messageType, actionOf, hcode]
      cases t <;> rfl
    rw [hofCode, ok_bind, decide_eq_true hcode]
    simp
  · rw [decide_eq_false hcode]

end Optics.BridgeMessage

namespace Optics.BridgeRouter

open Optics.Solidity Optics.Bridge Optics.TokenRegistry Optics.BridgeMessage

variable {Byte : Type} [ByteAlphabet Byte] [DecidableEq Byte] {K : Crypto Byte} {ctx : Context Byte}
  {chain chain' : Chain Byte} {sent : List (Dispatch Byte)} {_message : List Byte}
  {_origin : UInt32} {_sender : Bytes32 Byte}

theorem handle_of (h : ValidLength _message) :
    handle K ctx _origin _sender _message chain = (do
      require ctx.isReplica "!replica"
      require (chain.remotes _origin = _sender) "!remote router"
      if identifierOf _message = Types.Transfer.code then
        _handleTransfer K ctx (tokenIdOf _message) (actionOf _message) chain
      else if identifierOf _message = Types.Details.code then
        _handleDetails K ctx (tokenIdOf _message) (actionOf _message) chain
      else if identifierOf _message = Types.RequestDetails.code then
        _handleRequestDetails ctx _origin _sender (tokenIdOf _message) chain
      else .error (.require "!valid action")) := by
  rw [handle, mustBeMessage_of h, ok_bind, tokenId_of h, ok_bind, action_of h, ok_bind, isTransfer,
    isDetails, isRequestDetails, isAction_of h, isAction_of h, isAction_of h]
  simp only [ok_bind, decide_eq_true_eq]

/-- The part of `handle` that carries out the action of a message. -/
inductive Handled (K : Crypto Byte) (ctx : Context Byte) (_origin : UInt32) (_sender : Bytes32 Byte)
    (_message : List Byte) (chain : Chain Byte) (result : Chain Byte × List (Dispatch Byte)) :
    Types → Prop
  | transfer (hidentifier : identifierOf _message = Types.Transfer.code)
      (hresult : _handleTransfer K ctx (tokenIdOf _message) (actionOf _message) chain =
        .ok result) : Handled K ctx _origin _sender _message chain result .Transfer
  | details (hidentifier : identifierOf _message = Types.Details.code)
      (hresult : _handleDetails K ctx (tokenIdOf _message) (actionOf _message) chain =
        .ok result) : Handled K ctx _origin _sender _message chain result .Details
  | requestDetails (hidentifier : identifierOf _message = Types.RequestDetails.code)
      (hresult : _handleRequestDetails ctx _origin _sender (tokenIdOf _message) chain =
        .ok result) : Handled K ctx _origin _sender _message chain result .RequestDetails

/-- **`handle` of any message** checks where it comes from and how long it is, and carries
out the action that its first byte names. -/
theorem handle_eq_ok {result : Chain Byte × List (Dispatch Byte)} :
    handle K ctx _origin _sender _message chain = .ok result ↔
      ctx.isReplica = true ∧ chain.remotes _origin = _sender ∧ ValidLength _message ∧
        ∃ t, Handled K ctx _origin _sender _message chain result t := by
  by_cases hlength : ValidLength _message
  · rw [handle_of hlength, require_bind_eq_ok, require_bind_eq_ok]
    refine and_congr_right fun _ => and_congr_right fun _ => ?_
    rw [and_iff_right hlength]
    constructor
    -- an identifier that is none of the three ends in the last error
    · intro h
      split_ifs at h with htransfer hdetails hrequest
      · exact ⟨_, .transfer htransfer h⟩
      · exact ⟨_, .details hdetails h⟩
      · exact ⟨_, .requestDetails hrequest h⟩
    · rintro ⟨t, h⟩
      cases h with
      | transfer hidentifier hresult => rw [if_pos hidentifier, hresult]
      -- the tests before this one are for other codes
      | details hidentifier hresult =>
        rw [if_neg (by rw [hidentifier]; decide), if_pos hidentifier, hresult]
      | requestDetails hidentifier hresult =>
        rw [if_neg (by rw [hidentifier]; decide), if_neg (by rw [hidentifier]; decide),
          if_pos hidentifier, hresult]
  · rw [handle, require_bind_eq_ok, require_bind_eq_ok, mustBeMessage_eq_error hlength]
    simp [hlength]

/-! ### A Transfer of any token -/

/-- `_ensureToken` finds a token, or deploys one. -/
theorem _ensureToken_eq_ok {_tokenId : View Byte} {_token : Address Byte}
    (h : _ensureToken K ctx _tokenId chain = .ok (_token, chain', sent)) :
    (_token ≠ 0 ∧ chain' = chain ∧ _getTokenAddress K _tokenId chain = .ok _token) ∨
      (_getTokenAddress K _tokenId chain = .ok 0 ∧
        _deployToken K ctx _tokenId chain = .ok (_token, chain')) := by
  obtain ⟨_local, hlookup, h⟩ := bind_eq_ok.mp h
  split_ifs at h with hzero
  · obtain ⟨⟨deployed, chain₁⟩, hdeploy, h⟩ := bind_eq_ok.mp h
    obtain ⟨messages, -, h⟩ := bind_eq_ok.mp h
    simp only [Except.ok.injEq, Prod.mk.injEq] at h
    obtain ⟨rfl, rfl, -⟩ := h
    exact .inr ⟨hzero ▸ hlookup, hdeploy⟩
  · simp only [Except.ok.injEq, Prod.mk.injEq] at h
    obtain ⟨rfl, rfl, -⟩ := h
    exact .inl ⟨hzero, rfl, hlookup⟩

/-- The chain in which a token is entered under a hash. -/
def entered (hash : Bytes32 Byte) (c : TokenId Byte) (_token : Address Byte)
    (chain : Chain Byte) : Chain Byte :=
  { chain with
    representationToCanonical := Function.update chain.representationToCanonical _token c
    canonicalToRepresentation := Function.update chain.canonicalToRepresentation hash _token }

/-- A token is deployed where there is no code, without supply, and entered under the hash
of the token id. -/
theorem _deployToken_eq_ok {_tokenId : View Byte} {_token : Address Byte}
    (h : _deployToken K ctx _tokenId chain = .ok (_token, chain')) :
    _token ≠ 0 ∧ chain.tokens _token = none ∧ ∃ c details,
      BridgeMessage.domain _tokenId = .ok c.domain ∧ BridgeMessage.id _tokenId = .ok c.id ∧
      chain' = entered (_tokenId.keccak K) c _token
        (chain.setToken _token { BridgeToken.init chain.address with token := details }) := by
  obtain ⟨hzero, hnone, details, hregister⟩ := register_of_deployToken K h
  obtain ⟨d, hdomain, hregister⟩ := bind_eq_ok.mp hregister
  obtain ⟨i, hid, hregister⟩ := bind_eq_ok.mp hregister
  obtain rfl := Except.ok.inj hregister
  exact ⟨hzero, hnone, ⟨d, i⟩, details, hdomain, hid, rfl⟩

omit [DecidableEq Byte] in
/-- A request for details changes nothing, whatever token id it is for. -/
theorem chain_eq_of_handleRequestDetails {_messageOrigin : UInt32}
    {_messageRemoteRouter : Bytes32 Byte} {_tokenId : View Byte}
    (h : _handleRequestDetails ctx _messageOrigin _messageRemoteRouter _tokenId chain =
      .ok (chain', sent)) : chain' = chain := by
  obtain ⟨_, -, h⟩ := bind_eq_ok.mp h
  obtain ⟨_, -, h⟩ := bind_eq_ok.mp h
  simp only [bind_eq_ok] at h
  obtain ⟨_, -, _, -, _, -, _, -, _, -, _, -, h⟩ := h
  exact (Prod.mk.inj (Except.ok.inj h)).1.symm

/-- A handled Transfer finds or deploys its token and puts the amount into circulation. -/
theorem _handleTransfer_eq_ok {_tokenId _action : View Byte} :
    _handleTransfer K ctx _tokenId _action chain = .ok (chain', sent) ↔
      ∃ _token chain₁ _recipient _amnt,
        _ensureToken K ctx _tokenId chain = .ok (_token, chain₁, sent) ∧
        BridgeMessage.evmRecipient _action = .ok _recipient ∧
        BridgeMessage.amnt _action = .ok _amnt ∧
        circulate ctx _token (payee (_preFillId K _tokenId _action) _recipient chain₁).1 _amnt
          (payee (_preFillId K _tokenId _action) _recipient chain₁).2 = .ok chain' := by
  constructor
  · intro h
    obtain ⟨⟨_token, chain₁, requests⟩, hensure, h⟩ := bind_eq_ok.mp h
    obtain ⟨_recipient, hrecipient, h⟩ := bind_eq_ok.mp h
    obtain ⟨_amnt, hamnt, h⟩ := bind_eq_ok.mp h
    obtain ⟨chain₂, hcirculate, h⟩ := bind_eq_ok.mp h
    obtain ⟨rfl, rfl⟩ := Prod.mk.inj (Except.ok.inj h)
    exact ⟨_token, chain₁, _recipient, _amnt, hensure, hrecipient, hamnt, hcirculate⟩
  · rintro ⟨_token, chain₁, _recipient, _amnt, hensure, hrecipient, hamnt, hcirculate⟩
    rw [_handleTransfer, hensure, ok_bind]
    simp only [hrecipient, hamnt, hcirculate, ok_bind]

omit [ByteAlphabet Byte] [DecidableEq Byte] in
/-- What is prefilled is told apart by the bytes of the message. -/
theorem _preFillId_of (t t' : ℕ) :
    _preFillId K ⟨t, _message.take TOKEN_ID_LEN⟩ ⟨t', _message.drop TOKEN_ID_LEN⟩ =
      K.keccak256 _message := by
  rw [_preFillId, View.joinKeccak, View.join]
  simp

/-- Whoever is paid, nobody is left to be paid for this message. -/
theorem payee_eq (_id : Bytes32 Byte) (_recipient : Address Byte) (chain : Chain Byte) :
    payee _id _recipient chain =
      (if chain.liquidityProvider _id = 0 then _recipient else chain.liquidityProvider _id,
        { chain with liquidityProvider := Function.update chain.liquidityProvider _id 0 }) := by
  by_cases hzero : chain.liquidityProvider _id = 0
  · have hupdate : Function.update chain.liquidityProvider _id 0 = chain.liquidityProvider :=
      Function.update_eq_self_iff.mpr hzero.symm
    rw [payee, if_neg (not_not.mpr hzero), if_pos hzero, hupdate]
  · rw [payee, if_pos hzero, if_neg hzero]

omit [DecidableEq Byte] in
theorem actionOf_eq (h : identifierOf _message = Types.Transfer.code) :
    actionOf _message = transferOf _message := by
  rw [actionOf, h]
  rfl

/-- **`handle` of any Transfer.** -/
theorem handle_transfer_eq_ok (hidentifier : identifierOf _message = Types.Transfer.code) :
    handle K ctx _origin _sender _message chain = .ok (chain', sent) ↔
      (ctx.isReplica = true ∧ chain.remotes _origin = _sender ∧ ValidLength _message) ∧
      ∃ _token chain₁ _recipient _amnt,
        _ensureToken K ctx (tokenIdOf _message) chain = .ok (_token, chain₁, sent) ∧
        BridgeMessage.evmRecipient (transferOf _message) = .ok _recipient ∧
        BridgeMessage.amnt (transferOf _message) = .ok _amnt ∧
        circulate ctx _token (if chain₁.liquidityProvider (K.keccak256 _message) = 0 then _recipient
            else chain₁.liquidityProvider (K.keccak256 _message)) _amnt
          { chain₁ with
            liquidityProvider :=
              Function.update chain₁.liquidityProvider (K.keccak256 _message) 0 } = .ok chain' := by
  have hid : _preFillId K (tokenIdOf _message) (transferOf _message) = K.keccak256 _message :=
    _preFillId_of _ _
  have hhandled : (∃ t, Handled K ctx _origin _sender _message chain (chain', sent) t) ↔
      _handleTransfer K ctx (tokenIdOf _message) (transferOf _message) chain =
        .ok (chain', sent) := by
    rw [← actionOf_eq hidentifier]
    constructor
    · rintro ⟨t, h⟩
      cases h with
      | transfer _ hresult => exact hresult
      -- the identifier of a Transfer is no other one's
      | details hother => exact absurd (hidentifier.symm.trans hother) (by decide)
      | requestDetails hother => exact absurd (hidentifier.symm.trans hother) (by decide)
    · exact fun hresult => ⟨_, .transfer hidentifier hresult⟩
  rw [handle_eq_ok, hhandled, _handleTransfer_eq_ok]
  simp only [hid, payee_eq, and_assoc]

/-! ### Prefilling -/

omit [ByteAlphabet Byte] [DecidableEq Byte] in
theorem mustBeTokenId_of (h : ValidLength _message) :
    mustBeTokenId (tokenIdOf _message) = .ok (tokenIdOf _message) := by
  have hlength : (tokenIdOf _message).len = TOKEN_ID_LEN := by
    have hlt := h.lt_length
    rw [View.len, tokenIdOf, List.length_take]
    omega
  exact View.assertValid_eq_ok.mpr (tryAs_eq_some.mpr ⟨hlength, rfl⟩)

omit [DecidableEq Byte] in
/-- Only the length makes an action a Transfer for `preFill`. -/
theorem mustBeTransfer_eq_ok {v : View Byte} (h : ValidLength _message) :
    mustBeTransfer (actionOf _message) = .ok v ↔
      _message.length = 101 ∧ v = transferOf _message := by
  rw [mustBeTransfer, View.assertValid_eq_ok, tryAsTransfer, tryAs_eq_some]
  refine and_congr ?_ Iff.rfl
  have hlt := h.lt_length
  rw [View.len, actionOf, List.length_drop, TOKEN_ID_LEN, TRANSFER_LEN]
  rw [TOKEN_ID_LEN] at hlt
  omega

/-- **`preFill` of any message.** -/
theorem preFill_eq_ok (h : preFill K ctx _message chain = .ok (chain', sent)) :
    _message.length = 101 ∧ chain.liquidityProvider (K.keccak256 _message) = 0 ∧
      ∃ _token _recipient _amnt t t', _token ≠ 0 ∧
        _getTokenAddress K (tokenIdOf _message) chain = .ok _token ∧
        BridgeMessage.evmRecipient (transferOf _message) = .ok _recipient ∧
        BridgeMessage.amnt (transferOf _message) = .ok _amnt ∧ chain.tokens _token = some t ∧
        BridgeToken.transferFrom chain.address ctx.sender _recipient (_applyPreFillFee _amnt) t =
          .ok t' ∧
        chain' = Chain.setToken _token t' { chain with
          liquidityProvider :=
            Function.update chain.liquidityProvider (K.keccak256 _message) ctx.sender } := by
  by_cases hlength : ValidLength _message
  · rw [preFill, mustBeMessage_of hlength, ok_bind, tokenId_of hlength, ok_bind,
      mustBeTokenId_of hlength, ok_bind, action_of hlength, ok_bind] at h
    obtain ⟨v, htransfer, h⟩ := bind_eq_ok.mp h
    obtain ⟨htotal, rfl⟩ := (mustBeTransfer_eq_ok hlength).mp htransfer
    have hid : _preFillId K (tokenIdOf _message) (transferOf _message) = K.keccak256 _message :=
      _preFillId_of _ _
    simp only [hid, require_bind_eq_ok] at h
    obtain ⟨hunfilled, h⟩ := h
    obtain ⟨_token, htoken, h⟩ := bind_eq_ok.mp h
    obtain ⟨_local, hlookup, htoken⟩ := bind_eq_ok.mp htoken
    obtain ⟨hne, htoken⟩ := require_bind_eq_ok.mp htoken
    obtain rfl := Except.ok.inj htoken
    obtain ⟨_recipient, hrecipient, h⟩ := bind_eq_ok.mp h
    obtain ⟨_amnt, hamnt, h⟩ := bind_eq_ok.mp h
    obtain ⟨chain₁, hcall, h⟩ := bind_eq_ok.mp h
    obtain ⟨t, t', hsome, hpay, rfl⟩ := callToken_eq_ok hcall
    obtain ⟨rfl, -⟩ := Prod.mk.inj (Except.ok.inj h)
    exact ⟨htotal, hunfilled, _local, _recipient, _amnt, t, t', hne, hlookup, hrecipient, hamnt,
      hsome, hpay, rfl⟩
  · rw [preFill, mustBeMessage_eq_error hlength] at h
    cases h

end Optics.BridgeRouter
