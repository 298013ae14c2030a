/-
# The token registry

A token is of local origin or a representation of a token of another chain. The
registry keeps the representations of its chain in two tables: from the address
of a representation to the token id it stands for, and from the hash of a token id
to its current representation. An address whose entry has domain 0 is not a
representation.

The chain of a registry is the storage of the one contract that inherits it, the
BridgeRouter, together with the token contracts around it. Tokens are the only
contracts that are called, so code at an address means a token.
-/

import Optics.Bridge.BridgeMessage
import Optics.Bridge.BridgeToken
import Optics.Bridge.Encoding

namespace Optics

open Optics.Solidity

variable {Byte : Type}

/-- The struct `TokenId`. -/
structure TokenId (Byte : Type) where
  domain : UInt32
  id : Bytes32 Byte
  deriving DecidableEq

namespace Bridge

/-- A BridgeRouter with its address and domain, and the tokens of its chain. -/
structure Chain (Byte : Type) where
  address : Address Byte
  localDomain : UInt32
  owner : Address Byte
  remotes : UInt32 → Bytes32 Byte
  representationToCanonical : Address Byte → TokenId Byte
  canonicalToRepresentation : Bytes32 Byte → Address Byte
  liquidityProvider : Bytes32 Byte → Address Byte
  tokens : Address Byte → Option (BridgeToken Byte)

/-- What a call reads from outside: the sender, whether it is an enrolled Replica,
whether Home accepts a dispatch, the address a new contract gets, and which tokens
refuse to be called (a paused token, say). -/
structure Context (Byte : Type) where
  sender : Address Byte
  isReplica : Bool
  homeAccepts : Bool
  created : Address Byte
  refuses : Address Byte → Bool

namespace Chain

variable [DecidableEq Byte]

/-- The chain with another token at an address. -/
def setToken (_token : Address Byte) (t : BridgeToken Byte) (chain : Chain Byte) : Chain Byte :=
  { chain with tokens := Function.update chain.tokens _token (some t) }

section Fields

variable (a : Address Byte) (t : BridgeToken Byte) (chain : Chain Byte)

@[simp] theorem setToken_address : (chain.setToken a t).address = chain.address := rfl

@[simp] theorem setToken_localDomain : (chain.setToken a t).localDomain = chain.localDomain := rfl

@[simp] theorem setToken_owner : (chain.setToken a t).owner = chain.owner := rfl

@[simp] theorem setToken_remotes : (chain.setToken a t).remotes = chain.remotes := rfl

@[simp] theorem setToken_representationToCanonical :
    (chain.setToken a t).representationToCanonical = chain.representationToCanonical := rfl

@[simp] theorem setToken_canonicalToRepresentation :
    (chain.setToken a t).canonicalToRepresentation = chain.canonicalToRepresentation := rfl

@[simp] theorem setToken_tokens_self : (chain.setToken a t).tokens a = some t :=
  Function.update_self ..

theorem setToken_tokens_of_ne {b : Address Byte} (h : b ≠ a) :
    (chain.setToken a t).tokens b = chain.tokens b := Function.update_of_ne h ..

theorem setToken_setToken (t' : BridgeToken Byte) :
    (chain.setToken a t).setToken a t' = chain.setToken a t' := by
  simp [setToken]

variable {a t chain}

/-- What holds of every token holds after one that it holds of has been put there. -/
theorem forall_setToken {P : Address Byte → BridgeToken Byte → Prop} (hself : P a t)
    (hothers : ∀ b u, chain.tokens b = some u → P b u) :
    ∀ b u, (chain.setToken a t).tokens b = some u → P b u := by
  intro b u hu
  rcases eq_or_ne b a with rfl | hne
  · obtain rfl := Option.some.inj ((setToken_tokens_self ..).symm.trans hu)
    exact hself
  · rw [setToken_tokens_of_ne _ _ _ hne] at hu
    exact hothers b u hu

end Fields

end Chain

/-- A call of a token: it reverts where there is no code and where the token
refuses. -/
def callToken [DecidableEq Byte] (ctx : Context Byte) (_token : Address Byte)
    (f : BridgeToken Byte → Except Revert (BridgeToken Byte)) (chain : Chain Byte) :
    Except Revert (Chain Byte) :=
  match chain.tokens _token with
  | none => .error (.external "no contract")
  | some t =>
    if ctx.refuses _token then .error (.external "token refuses")
    else do
      let t ← f t
      .ok (chain.setToken _token t)

theorem callToken_eq_ok [DecidableEq Byte] {ctx : Context Byte} {_token : Address Byte}
    {f : BridgeToken Byte → Except Revert (BridgeToken Byte)} {chain chain' : Chain Byte}
    (h : callToken ctx _token f chain = .ok chain') :
    ∃ t t', chain.tokens _token = some t ∧ f t = .ok t' ∧ chain' = chain.setToken _token t' := by
  unfold callToken at h
  cases htoken : chain.tokens _token with
  | none => simp [htoken] at h
  | some t =>
    simp only [htoken] at h
    split_ifs at h
    obtain ⟨t', hcall, hchain⟩ := bind_eq_ok.mp h
    exact ⟨t, t', rfl, hcall, (Except.ok.inj hchain).symm⟩

theorem callToken_of [DecidableEq Byte] {ctx : Context Byte} {_token : Address Byte}
    {f : BridgeToken Byte → Except Revert (BridgeToken Byte)} {chain : Chain Byte}
    {t t' : BridgeToken Byte} (htoken : chain.tokens _token = some t)
    (hrefuses : ctx.refuses _token = false) (hcall : f t = .ok t') :
    callToken ctx _token f chain = .ok (chain.setToken _token t') := by
  simp only [callToken, htoken, hrefuses, Bool.false_eq_true, if_false, hcall, ok_bind]

end Bridge

namespace TokenRegistry

open Bridge

variable [ByteAlphabet Byte]

/-! ### Lookups -/

/-- `_isLocalOrigin`. -/
def _isLocalOrigin (_token : Address Byte) (chain : Chain Byte) : Bool :=
  if (chain.representationToCanonical _token).domain ≠ 0 then false
  else (chain.tokens _token).isSome

/-- `_tokenIdFor`. -/
def _tokenIdFor (_token : Address Byte) (chain : Chain Byte) : TokenId Byte :=
  let _id := chain.representationToCanonical _token
  if _id.domain = 0 then ⟨chain.localDomain, addressToBytes32 _token⟩ else _id

/-- `_serializeId`. -/
def _serializeId (_id : TokenId Byte) : Except Revert (View Byte) :=
  BridgeMessage.formatTokenId _id.domain _id.id

section Hash

variable (K : Crypto Byte)

/-- `_getTokenAddress`. -/
def _getTokenAddress (_tokenId : View Byte) (chain : Chain Byte) :
    Except Revert (Address Byte) := do
  let _domain ← BridgeMessage.domain _tokenId
  if _domain = chain.localDomain then BridgeMessage.evmId _tokenId
  else .ok (chain.canonicalToRepresentation (_tokenId.keccak K))

/-- `_mustHaveToken`. -/
def _mustHaveToken [DecidableEq Byte] (_tokenId : View Byte) (chain : Chain Byte) :
    Except Revert (Address Byte) := do
  let _local ← _getTokenAddress K _tokenId chain
  require (_local ≠ 0) "!token"
  .ok _local

/-- `_representationForCanonical`. -/
def _representationForCanonical (_tokenId : TokenId Byte) (chain : Chain Byte) :
    Except Revert (Address Byte) := do
  let _view ← _serializeId _tokenId
  .ok (chain.canonicalToRepresentation (_view.keccak K))

/-! ### New representations -/

variable [DecidableEq Byte]

/-- The writes that make a token the representation of a token id. -/
def register (_tokenId : View Byte) (_token : Address Byte) (chain : Chain Byte) :
    Except Revert (Chain Byte) := do
  let _domain ← BridgeMessage.domain _tokenId
  let _id ← BridgeMessage.id _tokenId
  .ok { chain with
    representationToCanonical :=
      Function.update chain.representationToCanonical _token ⟨_domain, _id⟩
    canonicalToRepresentation :=
      Function.update chain.canonicalToRepresentation (_tokenId.keccak K) _token }

/-- `_defaultDetails`. The symbol is a copy of the first word of the name, which
is 15 bytes long. -/
def _defaultDetails (_tokenId : View Byte) : Except Revert (List Byte × List Byte) := do
  let _id ← BridgeMessage.id _tokenId
  let _domain ← BridgeMessage.domain _tokenId
  let (_, _secondHalfId) := Encoding.encodeHex (bytesUint _id.toList)
  let _name := uintBytes 10 (Encoding.decimalUint32 _domain) ++ [ofByte 0x2e] ++
    uintBytes 4 _secondHalfId
  .ok (_name, _name)

/-- `_deployToken`, with the address of the new token. No contract is created
where there is one already. -/
def _deployToken (ctx : Context Byte) (_tokenId : View Byte) (chain : Chain Byte) :
    Except Revert (Address Byte × Chain Byte) := do
  let _token := ctx.created
  if _token = 0 ∨ (chain.tokens _token).isSome then .error (.external "create")
  else
    let chain := chain.setToken _token (BridgeToken.init chain.address)
    let (_name, _symbol) ← _defaultDetails _tokenId
    let chain ← callToken ctx _token (BridgeToken.setDetails chain.address _name _symbol 18) chain
    let chain ← register K _tokenId _token chain
    .ok (_token, chain)

end Hash

/-! ### Lookups and writes at a token id -/

section TokenIds

/-- The view of a token id. -/
def view (c : TokenId Byte) : View Byte := BridgeMessage.tokenIdView c.domain c.id

variable (K : Crypto Byte) (c : TokenId Byte)

/-- The hash of a token id. -/
def idHash : Bytes32 Byte := (view c).keccak K

theorem idHash_injective {K : Crypto Byte} (ideal : Crypto.IdealHash K) :
    Function.Injective (idHash K) := by
  intro c c' h
  have hbytes : (view c).bytes = (view c').bytes := ideal.injective h
  obtain ⟨hdomain, hid⟩ := List.append_inj hbytes (by simp)
  cases c
  cases c'
  simp only [TokenId.mk.injEq]
  exact ⟨uint32Bytes_injective hdomain, List.Vector.eq _ _ hid⟩

theorem _serializeId_eq : _serializeId c = .ok (view c) := BridgeMessage.formatTokenId_eq _ _

theorem _getTokenAddress_view (chain : Chain Byte) :
    _getTokenAddress K (view c) chain =
      .ok (if c.domain = chain.localDomain then bytes32ToAddress c.id
        else chain.canonicalToRepresentation (idHash K c)) := by
  rw [_getTokenAddress, view, BridgeMessage.domain_tokenIdView, BridgeMessage.evmId_tokenIdView,
    ok_bind]
  split_ifs
  · rfl
  · rfl

theorem _representationForCanonical_eq (chain : Chain Byte) :
    _representationForCanonical K c chain =
      .ok (chain.canonicalToRepresentation (idHash K c)) := by
  rw [_representationForCanonical, _serializeId_eq, ok_bind]
  rfl

variable [DecidableEq Byte]

/-- The chain in which a token represents a token id. -/
def registered (_token : Address Byte) (chain : Chain Byte) : Chain Byte :=
  { chain with
    representationToCanonical := Function.update chain.representationToCanonical _token c
    canonicalToRepresentation :=
      Function.update chain.canonicalToRepresentation (idHash K c) _token }

theorem register_view (_token : Address Byte) (chain : Chain Byte) :
    register K (view c) _token chain = .ok (registered K c _token chain) := by
  rw [register, view, BridgeMessage.domain_tokenIdView, BridgeMessage.id_tokenIdView]
  rfl

/-- A token is deployed at an address without code, with no supply and owned by the router,
and then registered. -/
theorem register_of_deployToken {ctx : Context Byte} {chain chain' : Chain Byte}
    {_tokenId : View Byte} {_token : Address Byte}
    (h : _deployToken K ctx _tokenId chain = .ok (_token, chain')) :
    _token ≠ 0 ∧ chain.tokens _token = none ∧ ∃ details,
      register K _tokenId _token
        (chain.setToken _token { BridgeToken.init chain.address with token := details }) =
          .ok chain' := by
  simp only [_deployToken] at h
  split_ifs at h with hcreate
  obtain ⟨hzero, hnone⟩ := not_or.mp hcreate
  obtain ⟨⟨name, symbol⟩, -, h⟩ := bind_eq_ok.mp h
  obtain ⟨chain₁, hdetails, h⟩ := bind_eq_ok.mp h
  obtain ⟨t, t', htoken, hset, rfl⟩ := callToken_eq_ok hdetails
  -- `setDetails` is a call of the token that was created a moment ago
  rw [Chain.setToken_tokens_self, Option.some.injEq] at htoken
  subst htoken
  simp only [BridgeToken.setDetails, require_bind_eq_ok, BridgeToken.onlyOwner,
    Except.ok.injEq] at hset
  obtain ⟨-, rfl⟩ := hset
  rw [Chain.setToken_setToken] at h
  obtain ⟨chain₂, hregister, h⟩ := bind_eq_ok.mp h
  obtain ⟨rfl, rfl⟩ := Prod.mk.inj (Except.ok.inj h)
  exact ⟨hzero, Option.not_isSome_iff_eq_none.mp hnone, _, hregister⟩

/-- The new token is registered under its token id. -/
theorem _deployToken_view {ctx : Context Byte} {chain chain' : Chain Byte}
    {_token : Address Byte} (h : _deployToken K ctx (view c) chain = .ok (_token, chain')) :
    _token ≠ 0 ∧ chain.tokens _token = none ∧ ∃ details, chain' = registered K c _token
      (chain.setToken _token { BridgeToken.init chain.address with token := details }) := by
  obtain ⟨hzero, hnone, details, hregister⟩ := register_of_deployToken K h
  rw [register_view] at hregister
  exact ⟨hzero, hnone, details, (Except.ok.inj hregister).symm⟩

end TokenIds

end TokenRegistry

end Optics
