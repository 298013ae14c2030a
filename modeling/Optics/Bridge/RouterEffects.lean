/-
# What a call of the BridgeRouter does

A successful call replaces at most two tokens, makes at most one token a
representation, and dispatches messages that are formatted by the library. The
messages between routers are therefore given by a token id and an action, and
handling one of them can be described without its bytes.
-/

import Optics.Bridge.BridgeRouter

namespace Optics.BridgeRouter

open Optics.Solidity Optics.Bridge Optics.TokenRegistry Optics.BridgeMessage

variable {Byte : Type} [ByteAlphabet Byte]

/-- The bytes of an action for a token id. -/
def message (c : TokenId Byte) (a : Action Byte) : List Byte := messageBytes c.domain c.id a

theorem formatMessage_eq (c : TokenId Byte) (a : Action Byte) :
    formatMessage (view c) a.view = .ok (message c a) := formatMessage_view _ _ _

theorem formatTokenId_eq_view (_domain : UInt32) (_id : Bytes32 Byte) :
    formatTokenId _domain _id = .ok (view ⟨_domain, _id⟩) := formatTokenId_eq _ _

omit [ByteAlphabet Byte] in
theorem dispatch_eq_ok {ctx : Context Byte} {_destination : UInt32} {_recipient : Bytes32 Byte}
    {_body : List Byte} {sent : List (Dispatch Byte)}
    (h : dispatch ctx _destination _recipient _body = .ok sent) :
    sent = [⟨_destination, _recipient, _body⟩] := by
  unfold dispatch at h
  split_ifs at h
  exact (Except.ok.inj h).symm

variable [DecidableEq Byte] {K : Crypto Byte} {ctx : Context Byte} {chain chain' : Chain Byte}
  {sent : List (Dispatch Byte)}

/-- `send` replaces the token and dispatches one message for it. -/
theorem send_effect {_token : Address Byte} {_amount : ℕ} {_destination : UInt32}
    {_recipient : Bytes32 Byte}
    (h : send ctx _token _amount _destination _recipient chain = .ok (chain', sent)) :
    0 < _amount ∧ ∃ t t', chain.tokens _token = some t ∧ chain' = chain.setToken _token t' ∧
      sent = [⟨_destination, chain.remotes _destination,
        message (_tokenIdFor _token chain) (.transfer _recipient _amount)⟩] ∧
      ((_isLocalOrigin _token chain = true ∧
          BridgeToken.transferFrom chain.address ctx.sender chain.address _amount t = .ok t') ∨
        (_isLocalOrigin _token chain = false ∧
          BridgeToken.burn chain.address ctx.sender _amount t = .ok t')) := by
  simp only [send, _mustHaveRemote, bind_assoc, require_bind_eq_ok, ok_bind,
    formatTransfer_eq] at h
  obtain ⟨hamount, -, -, h⟩ := h
  -- both branches go on in the same way
  have htail : ∀ f, (callToken ctx _token f chain >>= fun chain₁ => do
      let _tokenId ← _formatTokenId _token chain₁
      let _message ← formatMessage _tokenId (Action.transfer _recipient _amount).view
      let messages ← dispatch ctx _destination (chain.remotes _destination) _message
      Except.ok (chain₁, messages)) = .ok (chain', sent) →
      ∃ t t', chain.tokens _token = some t ∧ chain' = chain.setToken _token t' ∧
        sent = [⟨_destination, chain.remotes _destination,
          message (_tokenIdFor _token chain) (.transfer _recipient _amount)⟩] ∧ f t = .ok t' := by
    intro f hf
    obtain ⟨chain₁, hcall, hf⟩ := bind_eq_ok.mp hf
    obtain ⟨t, t', hsome, hcalled, rfl⟩ := callToken_eq_ok hcall
    have hid : _tokenIdFor _token (chain.setToken _token t') = _tokenIdFor _token chain := rfl
    rw [_formatTokenId, hid, _serializeId_eq, ok_bind, formatMessage_eq, ok_bind] at hf
    obtain ⟨messages, hdispatch, hf⟩ := bind_eq_ok.mp hf
    obtain ⟨rfl, rfl⟩ := Prod.mk.inj (Except.ok.inj hf)
    exact ⟨t, t', hsome, rfl, dispatch_eq_ok hdispatch, hcalled⟩
  split_ifs at h with hlocal
  · obtain ⟨t, t', hsome, hchain, hsent, hcalled⟩ := htail _ h
    exact ⟨hamount, t, t', hsome, hchain, hsent, .inl ⟨hlocal, hcalled⟩⟩
  · obtain ⟨t, t', hsome, hchain, hsent, hcalled⟩ := htail _ h
    exact ⟨hamount, t, t', hsome, hchain, hsent, .inr ⟨Bool.eq_false_iff.mpr hlocal, hcalled⟩⟩

/-- `preFill` records the provider, who pays in some token. -/
theorem preFill_effect {_message : List Byte}
    (h : preFill K ctx _message chain = .ok (chain', sent)) :
    sent = [] ∧ ∃ _token t t' _recipient _amnt providers,
      chain.tokens _token = some t ∧
      BridgeToken.transferFrom chain.address ctx.sender _recipient _amnt t = .ok t' ∧
      chain' = { chain with liquidityProvider := providers }.setToken _token t' := by
  simp only [preFill, bind_eq_ok] at h
  obtain ⟨_, -, _, -, _, -, _, -, _, -, _, -, _token, -, _recipient, -, _, -, chain₁, hcall, h⟩ := h
  obtain ⟨t, t', hsome, hpay, rfl⟩ := callToken_eq_ok hcall
  obtain ⟨rfl, rfl⟩ := Prod.mk.inj (Except.ok.inj h)
  exact ⟨rfl, _token, t, t', _recipient, _, _, hsome, hpay, rfl⟩

/-- `enrollCustom` mints and burns one unit of the token, and registers it. -/
theorem enrollCustom_effect {_domain : UInt32} {_id : Bytes32 Byte} {_custom : Address Byte}
    (h : enrollCustom K ctx _domain _id _custom chain = .ok (chain', sent)) :
    sent = [] ∧ ∃ t t₁ t₂, chain.tokens _custom = some t ∧
      BridgeToken.mint chain.address chain.address 1 t = .ok t₁ ∧
      BridgeToken.burn chain.address chain.address 1 t₁ = .ok t₂ ∧
      chain' = registered K ⟨_domain, _id⟩ _custom (chain.setToken _custom t₂) := by
  simp only [enrollCustom, onlyOwner, require_bind_eq_ok, formatTokenId_eq_view, ok_bind,
    register_view] at h
  obtain ⟨-, h⟩ := h
  obtain ⟨chain₁, hfirst, h⟩ := bind_eq_ok.mp h
  obtain ⟨t, t₁, hsome, hmint, rfl⟩ := callToken_eq_ok hfirst
  obtain ⟨chain₂, hsecond, h⟩ := bind_eq_ok.mp h
  obtain ⟨u, t₂, hminted, hburn, rfl⟩ := callToken_eq_ok hsecond
  rw [Chain.setToken_tokens_self, Option.some.injEq] at hminted
  subst hminted
  rw [Chain.setToken_setToken] at h
  obtain ⟨rfl, rfl⟩ := Prod.mk.inj (Except.ok.inj h)
  exact ⟨rfl, t, t₁, t₂, hsome, hmint, hburn, rfl⟩

/-- `migrate` burns the sender's balance of the old representation and mints as
much of the current one. -/
theorem migrate_effect {_oldRepr : Address Byte}
    (h : migrate K ctx _oldRepr chain = .ok (chain', sent)) :
    sent = [] ∧ (chain.representationToCanonical _oldRepr).domain ≠ 0 ∧
      ∃ _new t t' u u', _new = chain.canonicalToRepresentation
          (idHash K (chain.representationToCanonical _oldRepr)) ∧
        chain.tokens _oldRepr = some t ∧
        BridgeToken.burn chain.address ctx.sender (t.balances ctx.sender) t = .ok t' ∧
        (chain.setToken _oldRepr t').tokens _new = some u ∧
        BridgeToken.mint chain.address ctx.sender (t.balances ctx.sender) u = .ok u' ∧
        chain' = (chain.setToken _oldRepr t').setToken _new u' := by
  simp only [migrate, require_bind_eq_ok, _representationForCanonical_eq, ok_bind] at h
  obtain ⟨hrepr, -, h⟩ := h
  obtain ⟨t, hview, h⟩ := bind_eq_ok.mp h
  obtain ⟨chain₁, hfirst, h⟩ := bind_eq_ok.mp h
  obtain ⟨t₀, t', hsome, hburn, rfl⟩ := callToken_eq_ok hfirst
  obtain rfl : t₀ = t := by
    rw [viewToken, hsome] at hview
    exact Except.ok.inj hview
  obtain ⟨chain₂, hsecond, h⟩ := bind_eq_ok.mp h
  obtain ⟨u, u', hnew, hmint, rfl⟩ := callToken_eq_ok hsecond
  obtain ⟨rfl, rfl⟩ := Prod.mk.inj (Except.ok.inj h)
  exact ⟨rfl, hrepr, _, t₀, t', u, u', rfl, hsome, hburn, hnew, hmint, rfl⟩

/-- A request for details is the only message that a new representation causes. -/
theorem _requestDetails_effect {c : TokenId Byte}
    (h : _requestDetails ctx (view c) chain = .ok sent) :
    ∀ m ∈ sent, m.body = message c .requestDetails := by
  rw [_requestDetails, view, domain_tokenIdView, ok_bind, ← view] at h
  dsimp only at h
  split_ifs at h
  · obtain rfl := Except.ok.inj h
    simp
  · rw [formatRequestDetails_eq, ok_bind, formatMessage_eq, ok_bind] at h
    obtain rfl := dispatch_eq_ok h
    simp

theorem requestDetails_effect {_domain : UInt32} {_id : Bytes32 Byte}
    (h : requestDetails ctx _domain _id chain = .ok (chain', sent)) :
    chain' = chain ∧ ∀ m ∈ sent, m.body = message ⟨_domain, _id⟩ .requestDetails := by
  simp only [requestDetails, onlyOwner, require_bind_eq_ok, formatTokenId_eq_view, ok_bind] at h
  obtain ⟨-, h⟩ := h
  obtain ⟨messages, hrequest, h⟩ := bind_eq_ok.mp h
  obtain ⟨rfl, rfl⟩ := Prod.mk.inj (Except.ok.inj h)
  exact ⟨rfl, _requestDetails_effect hrequest⟩

/-! ### Handling a message of a router -/

/-- `_ensureToken` finds a token, or deploys one and asks for its details. -/
theorem _ensureToken_effect {c : TokenId Byte} {_token : Address Byte}
    (h : _ensureToken K ctx (view c) chain = .ok (_token, chain', sent)) :
    (_token ≠ 0 ∧ chain' = chain ∧ sent = [] ∧
      _getTokenAddress K (view c) chain = .ok _token) ∨
    (_getTokenAddress K (view c) chain = .ok 0 ∧
      _deployToken K ctx (view c) chain = .ok (_token, chain') ∧
      ∀ m ∈ sent, m.body = message c .requestDetails) := by
  obtain ⟨_local, hlookup, h⟩ := bind_eq_ok.mp h
  split_ifs at h with hzero
  · obtain ⟨⟨deployed, chain₁⟩, hdeploy, h⟩ := bind_eq_ok.mp h
    obtain ⟨messages, hrequest, h⟩ := bind_eq_ok.mp h
    simp only [Except.ok.injEq, Prod.mk.injEq] at h
    obtain ⟨rfl, rfl, rfl⟩ := h
    exact .inr ⟨hzero ▸ hlookup, hdeploy, _requestDetails_effect hrequest⟩
  · simp only [Except.ok.injEq, Prod.mk.injEq] at h
    obtain ⟨rfl, rfl, rfl⟩ := h
    exact .inl ⟨hzero, rfl, rfl, hlookup⟩

/-- Paying a provider changes the table of providers only. -/
theorem payee_effect (_id : Bytes32 Byte) (_recipient : Address Byte) (chain : Chain Byte) :
    ∃ paid providers,
      payee _id _recipient chain = (paid, { chain with liquidityProvider := providers }) := by
  simp only [payee]
  split_ifs
  · exact ⟨_, _, rfl⟩
  · exact ⟨_recipient, chain.liquidityProvider, rfl⟩

theorem circulate_effect {_token _recipient : Address Byte} {_amnt : ℕ}
    (h : circulate ctx _token _recipient _amnt chain = .ok chain') :
    ∃ t t', chain.tokens _token = some t ∧ chain' = chain.setToken _token t' ∧
      ((_isLocalOrigin _token chain = true ∧
          BridgeToken.transfer chain.address _recipient _amnt t = .ok t') ∨
        (_isLocalOrigin _token chain = false ∧
          BridgeToken.mint chain.address _recipient _amnt t = .ok t')) := by
  unfold circulate at h
  split_ifs at h with hlocal
  · obtain ⟨t, t', hsome, hcalled, hchain⟩ := callToken_eq_ok h
    exact ⟨t, t', hsome, hchain, .inl ⟨hlocal, hcalled⟩⟩
  · obtain ⟨t, t', hsome, hcalled, hchain⟩ := callToken_eq_ok h
    exact ⟨t, t', hsome, hchain, .inr ⟨Bool.eq_false_iff.mpr hlocal, hcalled⟩⟩

/-- `_handleTransfer` puts the amount of the token into circulation. -/
theorem _handleTransfer_effect {c : TokenId Byte} {receiver : Bytes32 Byte} {n : ℕ}
    (h : _handleTransfer K ctx (view c) (Action.transfer receiver n).view chain =
      .ok (chain', sent)) :
    ∃ _token chain₁ _recipient providers,
      _ensureToken K ctx (view c) chain = .ok (_token, chain₁, sent) ∧
      circulate ctx _token _recipient (n % 2 ^ 256)
        { chain₁ with liquidityProvider := providers } = .ok chain' := by
  obtain ⟨⟨_token, chain₁, requests⟩, hensure, h⟩ := bind_eq_ok.mp h
  obtain ⟨_recipient, -, h⟩ := bind_eq_ok.mp h
  obtain ⟨paid, providers, hpayee⟩ :=
    payee_effect (_preFillId K (view c) (Action.transfer receiver n).view) _recipient chain₁
  simp only [hpayee, amnt_view, ok_bind] at h
  obtain ⟨chain₃, hcirculate, h⟩ := bind_eq_ok.mp h
  obtain ⟨rfl, rfl⟩ := Prod.mk.inj (Except.ok.inj h)
  exact ⟨_token, chain₁, paid, providers, hensure, hcirculate⟩

/-- `_handleDetails` changes what is displayed of a token. -/
theorem _handleDetails_effect {_tokenId _action : View Byte}
    (h : _handleDetails K ctx _tokenId _action chain = .ok (chain', sent)) :
    sent = [] ∧ ∃ _token t details, chain.tokens _token = some t ∧
      chain' = chain.setToken _token { t with token := details } := by
  simp only [_handleDetails, bind_eq_ok] at h
  obtain ⟨_token, -, _, -, _, -, _, -, _, -, chain₁, hcall, h⟩ := h
  obtain ⟨t, t', hsome, hset, rfl⟩ := callToken_eq_ok hcall
  obtain ⟨rfl, rfl⟩ := Prod.mk.inj (Except.ok.inj h)
  simp only [BridgeToken.setDetails, BridgeToken.onlyOwner, require_bind_eq_ok,
    Except.ok.injEq] at hset
  exact ⟨rfl, _token, t, _, hsome, by rw [← hset.2]⟩

omit [DecidableEq Byte] in
/-- `_handleRequestDetails` answers with the details of the token. -/
theorem _handleRequestDetails_effect {c : TokenId Byte} {_origin : UInt32}
    {_router : Bytes32 Byte}
    (h : _handleRequestDetails ctx _origin _router (view c) chain = .ok (chain', sent)) :
    chain' = chain ∧ ∃ name symbol decimals,
      sent = [⟨_origin, _router, message c (.details name symbol decimals)⟩] := by
  simp only [_handleRequestDetails, view, evmId_tokenIdView, ok_bind, require_bind_eq_ok,
    formatDetails_eq] at h
  obtain ⟨-, h⟩ := h
  obtain ⟨t, -, h⟩ := bind_eq_ok.mp h
  obtain ⟨name, -, h⟩ := bind_eq_ok.mp h
  obtain ⟨symbol, -, h⟩ := bind_eq_ok.mp h
  rw [formatMessage_view, ok_bind] at h
  obtain ⟨messages, hdispatch, h⟩ := bind_eq_ok.mp h
  obtain ⟨rfl, rfl⟩ := Prod.mk.inj (Except.ok.inj h)
  exact ⟨rfl, name, symbol, _, dispatch_eq_ok hdispatch⟩

/-- Handling a formatted message is handling its action. -/
theorem handle_message {_origin : UInt32} {_sender : Bytes32 Byte} {c : TokenId Byte}
    {a : Action Byte} :
    handle K ctx _origin _sender (message c a) chain = (do
      require ctx.isReplica "!replica"
      require (chain.remotes _origin = _sender) "!remote router"
      match a with
      | .transfer receiver n =>
        _handleTransfer K ctx (view c) (Action.transfer receiver n).view chain
      | .details name symbol decimals =>
        _handleDetails K ctx (view c) (Action.details name symbol decimals).view chain
      | .requestDetails => _handleRequestDetails ctx _origin _sender (view c) chain) := by
  rw [handle, message, mustBeMessage_messageBytes, ok_bind, tokenId_messageBytes, ok_bind,
    action_messageBytes, ok_bind, isTransfer, isDetails, isRequestDetails, isAction_view,
    isAction_view, isAction_view]
  cases a <;> rfl

end Optics.BridgeRouter
