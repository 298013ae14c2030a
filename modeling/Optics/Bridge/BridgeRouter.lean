/-
# The BridgeRouter

`send` takes tokens out of circulation, into escrow if they originate on this
chain and by burning them otherwise, and dispatches a message for them; `handle`
puts the tokens of a message into circulation on its chain, out of escrow or by
minting. A liquidity provider may pay a recipient ahead of the message and is paid
by the message instead. The owner may enroll a custom representation, to which
holders of older ones migrate.

A call answers with the new chain and the messages it dispatches.
-/

import Optics.Bridge.TokenRegistry

namespace Optics.BridgeRouter

open Optics.Solidity Optics.Bridge Optics.TokenRegistry

variable {Byte : Type}

/-- `PRE_FILL_FEE_NUMERATOR`. -/
def PRE_FILL_FEE_NUMERATOR : ℕ := 9995

/-- `PRE_FILL_FEE_DENOMINATOR`. -/
def PRE_FILL_FEE_DENOMINATOR : ℕ := 10000

/-- What a call hands to `dispatch` of Home. -/
structure Dispatch (Byte : Type) where
  destination : UInt32
  recipient : Bytes32 Byte
  body : List Byte

/-- The functions that change the state. -/
inductive Call (Byte : Type)
  | handle (origin : UInt32) (sender : Bytes32 Byte) (message : List Byte)
  | requestDetails (domain : UInt32) (id : Bytes32 Byte)
  | send (token : Address Byte) (amount : ℕ) (destination : UInt32) (recipient : Bytes32 Byte)
  | preFill (message : List Byte)
  | enrollCustom (domain : UInt32) (id : Bytes32 Byte) (custom : Address Byte)
  | migrate (oldRepr : Address Byte)

/-- `dispatch` of Home. -/
def dispatch (ctx : Context Byte) (_destination : UInt32) (_recipient : Bytes32 Byte)
    (_body : List Byte) : Except Revert (List (Dispatch Byte)) :=
  if ctx.homeAccepts then .ok [⟨_destination, _recipient, _body⟩] else .error (.external "Home")

/-- A view call of a token, which reverts where there is no code. -/
def viewToken (_token : Address Byte) (chain : Chain Byte) : Except Revert (BridgeToken Byte) :=
  match chain.tokens _token with
  | some t => .ok t
  | none => .error (.external "no contract")

variable [ByteAlphabet Byte]

/-- `_applyPreFillFee`. The product wraps around. -/
def _applyPreFillFee (_amnt : ℕ) : ℕ :=
  _amnt * PRE_FILL_FEE_NUMERATOR % UINT256 / PRE_FILL_FEE_DENOMINATOR

/-- `_formatTokenId`. -/
def _formatTokenId (_token : Address Byte) (chain : Chain Byte) : Except Revert (View Byte) :=
  _serializeId (_tokenIdFor _token chain)

variable [DecidableEq Byte]

/-- `_mustHaveRemote`. -/
def _mustHaveRemote (_domain : UInt32) (chain : Chain Byte) : Except Revert (Bytes32 Byte) := do
  let _remote := chain.remotes _domain
  require (_remote ≠ 0) "!remote"
  .ok _remote

/-- `modifier onlyOwner`. -/
def onlyOwner (ctx : Context Byte) (chain : Chain Byte) : Except Revert Unit :=
  require (ctx.sender = chain.owner) "Ownable: caller is not the owner"

/-! ### Sending -/

/-- `send`. -/
def send (ctx : Context Byte) (_token : Address Byte) (_amount : ℕ) (_destination : UInt32)
    (_recipient : Bytes32 Byte) (chain : Chain Byte) :
    Except Revert (Chain Byte × List (Dispatch Byte)) := do
  require (0 < _amount) "!amnt"
  require (_recipient ≠ 0) "!recip"
  let _remote ← _mustHaveRemote _destination chain
  let chain ←
    if _isLocalOrigin _token chain then
      -- hold the tokens in escrow
      callToken ctx _token
        (BridgeToken.transferFrom chain.address ctx.sender chain.address _amount) chain
    else
      callToken ctx _token (BridgeToken.burn chain.address ctx.sender _amount) chain
  let _action ← BridgeMessage.formatTransfer _recipient _amount
  let _tokenId ← _formatTokenId _token chain
  let _message ← BridgeMessage.formatMessage _tokenId _action
  let sent ← dispatch ctx _destination _remote _message
  .ok (chain, sent)

section Hash

variable (K : Crypto Byte)

/-! ### Fast liquidity -/

/-- `_preFillId`. -/
def _preFillId (_tokenId _action : View Byte) : Bytes32 Byte :=
  View.joinKeccak K [_tokenId, _action]

/-- `preFill`. -/
def preFill (ctx : Context Byte) (_message : List Byte) (chain : Chain Byte) :
    Except Revert (Chain Byte × List (Dispatch Byte)) := do
  let _msg ← BridgeMessage.mustBeMessage (View.ref _message 0)
  let _tokenId ← BridgeMessage.tokenId _msg
  let _tokenId ← BridgeMessage.mustBeTokenId _tokenId
  let _action ← BridgeMessage.action _msg
  let _action ← BridgeMessage.mustBeTransfer _action
  let _id := _preFillId K _tokenId _action
  require (chain.liquidityProvider _id = 0) "!unfilled"
  let chain :=
    { chain with liquidityProvider := Function.update chain.liquidityProvider _id ctx.sender }
  let _token ← _mustHaveToken K _tokenId chain
  let _recipient ← BridgeMessage.evmRecipient _action
  let _amnt ← BridgeMessage.amnt _action
  let chain ← callToken ctx _token
    (BridgeToken.transferFrom chain.address ctx.sender _recipient (_applyPreFillFee _amnt)) chain
  .ok (chain, [])

/-! ### Custom representations -/

/-- `enrollCustom`. -/
def enrollCustom (ctx : Context Byte) (_domain : UInt32) (_id : Bytes32 Byte)
    (_custom : Address Byte) (chain : Chain Byte) :
    Except Revert (Chain Byte × List (Dispatch Byte)) := do
  onlyOwner ctx chain
  let chain ← callToken ctx _custom (BridgeToken.mint chain.address chain.address 1) chain
  let chain ← callToken ctx _custom (BridgeToken.burn chain.address chain.address 1) chain
  let _tokenId ← BridgeMessage.formatTokenId _domain _id
  let chain ← register K _tokenId _custom chain
  .ok (chain, [])

/-- `migrate`. -/
def migrate (ctx : Context Byte) (_oldRepr : Address Byte) (chain : Chain Byte) :
    Except Revert (Chain Byte × List (Dispatch Byte)) := do
  let _id := chain.representationToCanonical _oldRepr
  require (_id.domain ≠ 0) "!repr"
  let _new ← _representationForCanonical K _id chain
  require (_new ≠ _oldRepr) "!different"
  let _old ← viewToken _oldRepr chain
  let _bal := _old.balances ctx.sender
  let chain ← callToken ctx _oldRepr (BridgeToken.burn chain.address ctx.sender _bal) chain
  let chain ← callToken ctx _new (BridgeToken.mint chain.address ctx.sender _bal) chain
  .ok (chain, [])

/-! ### Handling -/

/-- `_requestDetails`. -/
def _requestDetails (ctx : Context Byte) (_tokenId : View Byte) (chain : Chain Byte) :
    Except Revert (List (Dispatch Byte)) := do
  let _destination ← BridgeMessage.domain _tokenId
  let _remote := chain.remotes _destination
  if _remote = 0 then .ok []
  else
    let _action ← BridgeMessage.formatRequestDetails
    let _message ← BridgeMessage.formatMessage _tokenId _action
    dispatch ctx _destination _remote _message

/-- `requestDetails`. -/
def requestDetails (ctx : Context Byte) (_domain : UInt32) (_id : Bytes32 Byte)
    (chain : Chain Byte) : Except Revert (Chain Byte × List (Dispatch Byte)) := do
  onlyOwner ctx chain
  let _tokenId ← BridgeMessage.formatTokenId _domain _id
  let sent ← _requestDetails ctx _tokenId chain
  .ok (chain, sent)

/-- `_ensureToken`. -/
def _ensureToken (ctx : Context Byte) (_tokenId : View Byte) (chain : Chain Byte) :
    Except Revert (Address Byte × Chain Byte × List (Dispatch Byte)) := do
  let _local ← _getTokenAddress K _tokenId chain
  if _local = 0 then
    let (_local, chain) ← _deployToken K ctx _tokenId chain
    let sent ← _requestDetails ctx _tokenId chain
    .ok (_local, chain, sent)
  else .ok (_local, chain, [])

/-- Who a transfer is paid to: the liquidity provider if it has been prefilled,
who is then forgotten, and the recipient otherwise. -/
def payee (_id : Bytes32 Byte) (_recipient : Address Byte) (chain : Chain Byte) :
    Address Byte × Chain Byte :=
  let _lp := chain.liquidityProvider _id
  if _lp ≠ 0 then
    (_lp, { chain with liquidityProvider := Function.update chain.liquidityProvider _id 0 })
  else (_recipient, chain)

/-- Tokens put into circulation: out of escrow if they are of local origin, and
minted otherwise. -/
def circulate (ctx : Context Byte) (_token _recipient : Address Byte) (_amnt : ℕ)
    (chain : Chain Byte) : Except Revert (Chain Byte) :=
  if _isLocalOrigin _token chain then
    callToken ctx _token (BridgeToken.transfer chain.address _recipient _amnt) chain
  else
    callToken ctx _token (BridgeToken.mint chain.address _recipient _amnt) chain

/-- `_handleTransfer`. -/
def _handleTransfer (ctx : Context Byte) (_tokenId _action : View Byte) (chain : Chain Byte) :
    Except Revert (Chain Byte × List (Dispatch Byte)) := do
  let (_token, chain, sent) ← _ensureToken K ctx _tokenId chain
  let _recipient ← BridgeMessage.evmRecipient _action
  let (_recipient, chain) := payee (_preFillId K _tokenId _action) _recipient chain
  let _amnt ← BridgeMessage.amnt _action
  let chain ← circulate ctx _token _recipient _amnt chain
  .ok (chain, sent)

/-- `_handleDetails`. -/
def _handleDetails (ctx : Context Byte) (_tokenId _action : View Byte) (chain : Chain Byte) :
    Except Revert (Chain Byte × List (Dispatch Byte)) := do
  let _token ← _mustHaveToken K _tokenId chain
  require (¬ _isLocalOrigin _token chain) "!remote origin"
  let _name ← BridgeMessage.name _action
  let _symbol ← BridgeMessage.symbol _action
  let _decimals ← BridgeMessage.decimals _action
  let chain ← callToken ctx _token (BridgeToken.setDetails chain.address
    (TypeCasts.coerceString _name) (TypeCasts.coerceString _symbol) _decimals) chain
  .ok (chain, [])

/-- `_handleRequestDetails`. -/
def _handleRequestDetails (ctx : Context Byte) (_messageOrigin : UInt32)
    (_messageRemoteRouter : Bytes32 Byte) (_tokenId : View Byte) (chain : Chain Byte) :
    Except Revert (Chain Byte × List (Dispatch Byte)) := do
  let _token ← BridgeMessage.evmId _tokenId
  require (_isLocalOrigin _token chain) "!local origin"
  let _bridgeToken ← viewToken _token chain
  let _name ← TypeCasts.coerceBytes32 _bridgeToken.token.name
  let _symbol ← TypeCasts.coerceBytes32 _bridgeToken.token.symbol
  let _action ← BridgeMessage.formatDetails _name _symbol _bridgeToken.token.decimals
  let _message ← BridgeMessage.formatMessage _tokenId _action
  let sent ← dispatch ctx _messageOrigin _messageRemoteRouter _message
  .ok (chain, sent)

/-- `handle`. -/
def handle (ctx : Context Byte) (_origin : UInt32) (_sender : Bytes32 Byte)
    (_message : List Byte) (chain : Chain Byte) :
    Except Revert (Chain Byte × List (Dispatch Byte)) := do
  require ctx.isReplica "!replica"
  require (chain.remotes _origin = _sender) "!remote router"
  let _msg ← BridgeMessage.mustBeMessage (View.ref _message 0)
  let _tokenId ← BridgeMessage.tokenId _msg
  let _action ← BridgeMessage.action _msg
  if ← BridgeMessage.isTransfer _action then
    _handleTransfer K ctx _tokenId _action chain
  else if ← BridgeMessage.isDetails _action then
    _handleDetails K ctx _tokenId _action chain
  else if ← BridgeMessage.isRequestDetails _action then
    _handleRequestDetails ctx _origin _sender _tokenId chain
  else .error (.require "!valid action")

/-- One call. -/
def exec (ctx : Context Byte) :
    Call Byte → Chain Byte → Except Revert (Chain Byte × List (Dispatch Byte))
  | .handle origin sender message => handle K ctx origin sender message
  | .requestDetails domain id => requestDetails ctx domain id
  | .send token amount destination recipient => send ctx token amount destination recipient
  | .preFill message => preFill K ctx message
  | .enrollCustom domain id custom => enrollCustom K ctx domain id custom
  | .migrate oldRepr => migrate K ctx oldRepr

end Hash

end Optics.BridgeRouter
