/-
# One BridgeRouter along its runs

Anybody may call the router, with any message that Replicas are able to deliver, and the
tokens of its chain; new tokens appear, and the owner may enroll other routers. A call that
reverts changes nothing. The calls of the router that succeed are kept in a history, with
the chain before and after each of them.
-/

import Optics.Bridge.Invariant
import Optics.Bridge.Parsing

namespace Optics.Bridge

open Optics.Solidity Optics.TokenRegistry Optics.Math.Transition

variable {Byte : Type}

/-- A call of the router that succeeded. -/
structure Moment (Byte : Type) where
  before : Chain Byte
  ctx : Context Byte
  call : BridgeRouter.Call Byte
  after : Chain Byte

/-- A router on its chain, with its history. -/
structure Station (Byte : Type) where
  chain : Chain Byte
  history : List (Moment Byte)

namespace Station

/-- One step: a call of the router or of a token, a new token, or a change of the owner
and the enrolled routers. -/
inductive Label (Byte : Type)
  | call (ctx : Context Byte) (call : BridgeRouter.Call Byte)
  | token (sender token : Address Byte) (call : BridgeToken.Call Byte)
  | launch (sender token : Address Byte)
  | configure (owner : Address Byte) (remotes : UInt32 → Bytes32 Byte)

variable [ByteAlphabet Byte] [DecidableEq Byte] (K : Crypto Byte)

/-- A transaction that calls the router. -/
def callRouter (ctx : Context Byte) (call : BridgeRouter.Call Byte) (s : Station Byte) :
    Except Revert (Station Byte) := do
  let (chain, _) ← BridgeRouter.exec K ctx call s.chain
  .ok ⟨chain, s.history ++ [⟨s.chain, ctx, call, chain⟩]⟩

/-- A transaction that calls a token. -/
def callTokenOf (sender token : Address Byte) (call : BridgeToken.Call Byte) (s : Station Byte) :
    Except Revert (Station Byte) := do
  let chain ← callByAccount sender token call s.chain
  .ok { s with chain := chain }

/-- The steps of a router on its chain. -/
inductive Step (s : Station Byte) : Label Byte → Station Byte → Prop
  | call (ctx : Context Byte) (call : BridgeRouter.Call Byte) (s' : Station Byte)
      (hstep : callStep (fun _ => callRouter K ctx call) s () s') : Step s (.call ctx call) s'
  | token (sender token : Address Byte) (call : BridgeToken.Call Byte) (s' : Station Byte)
      (hstep : callStep (fun _ => callTokenOf sender token call) s () s') :
      Step s (.token sender token call) s'
  | launch (sender token : Address Byte) (hzero : token ≠ 0)
      (hnone : s.chain.tokens token = none) :
      Step s (.launch sender token)
        { s with chain := s.chain.setToken token (BridgeToken.init sender) }
  | configure (owner : Address Byte) (remotes : UInt32 → Bytes32 Byte) :
      Step s (.configure owner remotes)
        { s with chain := { s.chain with owner := owner, remotes := remotes } }

/-- A router that starts on some chain. -/
def system (Start : Chain Byte → Prop) : System (Station Byte) (Label Byte) where
  init s := Start s.chain ∧ s.history = []
  step := Step K

variable {K} {s t : Station Byte} {ctx : Context Byte} {call : BridgeRouter.Call Byte}
  {label : Label Byte}

theorem callRouter_eq_ok (h : callRouter K ctx call s = .ok t) :
    ∃ chain sent, BridgeRouter.exec K ctx call s.chain = .ok (chain, sent) ∧
      t = ⟨chain, s.history ++ [⟨s.chain, ctx, call, chain⟩]⟩ := by
  obtain ⟨⟨chain, sent⟩, hexec, h⟩ := bind_eq_ok.mp h
  exact ⟨chain, sent, hexec, (Except.ok.inj h).symm⟩

theorem callTokenOf_eq_ok {sender token : Address Byte}
    {call : BridgeToken.Call Byte}
    (h : callTokenOf sender token call s = .ok t) : ∃ u u', s.chain.tokens token = some u ∧
      BridgeToken.exec sender call u = .ok u' ∧
      t = { s with chain := s.chain.setToken token u' } := by
  obtain ⟨chain, hcall, h⟩ := bind_eq_ok.mp h
  obtain ⟨u, u', hsome, hexec, rfl⟩ := callByAccount_eq_ok hcall
  exact ⟨u, u', hsome, hexec, (Except.ok.inj h).symm⟩

end Station

/-! ### The tables of a chain -/

variable [ByteAlphabet Byte]

/-- A change that leaves the tables of the registry alone and removes no token. -/
structure Chain.SameTables (chain chain' : Chain Byte) : Prop where
  localDomain : chain'.localDomain = chain.localDomain
  representationToCanonical : chain'.representationToCanonical = chain.representationToCanonical
  canonicalToRepresentation : chain'.canonicalToRepresentation = chain.canonicalToRepresentation
  tokens : ∀ r, (chain.tokens r).isSome = true → (chain'.tokens r).isSome = true
  zero : chain.tokens 0 = none → chain'.tokens 0 = none

namespace Chain.SameTables

variable {chain chain' chain'' : Chain Byte} {r : Address Byte} {t t' : BridgeToken Byte}

theorem refl (chain : Chain Byte) : chain.SameTables chain := ⟨rfl, rfl, rfl, fun _ => id, id⟩

theorem trans (h : chain.SameTables chain') (h' : chain'.SameTables chain'') :
    chain.SameTables chain'' where
  localDomain := h'.localDomain.trans h.localDomain
  representationToCanonical := h'.representationToCanonical.trans h.representationToCanonical
  canonicalToRepresentation := h'.canonicalToRepresentation.trans h.canonicalToRepresentation
  tokens r hr := h'.tokens r (h.tokens r hr)
  zero hzero := h'.zero (h.zero hzero)

theorem setProviders (providers : Bytes32 Byte → Address Byte) :
    chain.SameTables { chain with liquidityProvider := providers } :=
  ⟨rfl, rfl, rfl, fun _ => id, id⟩

variable [DecidableEq Byte]

omit [ByteAlphabet Byte] in
theorem isSome_setToken {x : Address Byte} (hx : (chain.tokens x).isSome = true) :
    ((chain.setToken r t).tokens x).isSome = true := by
  by_cases hxr : x = r
  · rw [hxr, Chain.setToken_tokens_self]
    rfl
  · rwa [Chain.setToken_tokens_of_ne _ _ _ hxr]

/-- A token at an address other than 0. -/
theorem addToken (hr : r ≠ 0) : chain.SameTables (chain.setToken r t) := by
  refine ⟨rfl, rfl, rfl, fun _ => isSome_setToken, fun hzero => ?_⟩
  rwa [Chain.setToken_tokens_of_ne _ _ _ hr.symm]

/-- Another state of a token. -/
theorem setToken (hr : chain.tokens r = some t) : chain.SameTables (chain.setToken r t') := by
  refine ⟨rfl, rfl, rfl, fun _ => isSome_setToken, fun hzero => ?_⟩
  -- the token has code already, and address 0 has none
  have hne : (0 : Address Byte) ≠ r := by
    rintro rfl
    cases hzero.symm.trans hr
  rwa [Chain.setToken_tokens_of_ne _ _ _ hne]

end Chain.SameTables

end Optics.Bridge

namespace Optics.BridgeRouter

open Optics.Solidity Optics.Bridge Optics.TokenRegistry Optics.BridgeMessage

variable {Byte : Type} [ByteAlphabet Byte] [DecidableEq Byte] {K : Crypto Byte} {ctx : Context Byte}
  {chain chain' : Chain Byte} {sent : List (Dispatch Byte)} {_message : List Byte}

/-- What a Transfer for a token id without a token leaves behind. -/
structure Deployed (K : Crypto Byte) (_message : List Byte) (c : TokenId Byte) (n : ℕ)
    (_token : Address Byte) (chain chain' : Chain Byte) : Prop where
  reads : readTransfer _message = .ok (c, n)
  domain : BridgeMessage.domain (tokenIdOf _message) = .ok c.domain
  id : BridgeMessage.id (tokenIdOf _message) = .ok c.id
  missing : _getTokenAddress K (tokenIdOf _message) chain = .ok 0
  ne_zero : _token ≠ 0
  fresh : chain.tokens _token = none
  tables : ∃ t, (entered ((tokenIdOf _message).keccak K) c _token
    (chain.setToken _token t)).SameTables chain'
  paid : c.domain = 0 → n = 0

theorem circulate_tables {_token _recipient : Address Byte} {_amnt : ℕ}
    (h : circulate ctx _token _recipient _amnt chain = .ok chain') : chain.SameTables chain' := by
  obtain ⟨t, t', hsome, rfl, -⟩ := circulate_effect h
  exact .setToken hsome

/-- The deployed token of a token id of domain 0 passes for one of local origin, of which
the router has nothing. -/
theorem circulate_of_domain_zero {hash : Bytes32 Byte} {c : TokenId Byte}
    {_token _recipient : Address Byte} {_amnt : ℕ} {details : Token Byte}
    {providers : Bytes32 Byte → Address Byte}
    (h : circulate ctx _token _recipient _amnt
      { entered hash c _token (chain.setToken _token
        { BridgeToken.init chain.address with token := details }) with
          liquidityProvider := providers } = .ok chain') (hdomain : c.domain = 0) : _amnt = 0 := by
  obtain ⟨t, t', hsome, -, hcalled⟩ := circulate_effect h
  have htoken := (Chain.setToken_tokens_self _token
    { BridgeToken.init chain.address with token := details } chain).symm.trans hsome
  obtain rfl := Option.some.inj htoken
  rcases hcalled with ⟨-, htransfer⟩ | ⟨hremote, -⟩
  -- nothing of the new token is in the router's account
  · exact Nat.le_zero.mp (BridgeToken.transferred_of_eq_ok htransfer).le_balance
  · refine absurd (Chain.isLocalOrigin_iff.mpr ⟨?_, _, hsome⟩) (Bool.eq_false_iff.mp hremote)
    -- minting is for tokens with a domain other than 0, and this one has just got domain 0
    have hentry : (Function.update chain.representationToCanonical _token c _token).domain = 0 := by
      rw [Function.update_self, hdomain]
    exact hentry

omit [DecidableEq Byte] in
theorem readTransfer_of (hlength : ValidLength _message)
    (hidentifier : identifierOf _message = Types.Transfer.code) {c : TokenId Byte} {n : ℕ}
    (hdomain : BridgeMessage.domain (tokenIdOf _message) = .ok c.domain)
    (hid : BridgeMessage.id (tokenIdOf _message) = .ok c.id)
    (hamnt : BridgeMessage.amnt (actionOf _message) = .ok n) :
    readTransfer _message = .ok (c, n) := by
  rw [readTransfer, mustBeMessage_of hlength, ok_bind, tokenId_of hlength, ok_bind,
    action_of hlength, ok_bind, isTransfer, isAction_of hlength, ok_bind,
    require_of (by simpa using hidentifier), ok_bind, hdomain, ok_bind, hid, ok_bind, hamnt]
  rfl

/-- A handled message leaves the tables alone, or is a Transfer that deploys its token. -/
theorem handle_tables {_origin : UInt32} {_sender : Bytes32 Byte}
    (h : handle K ctx _origin _sender _message chain = .ok (chain', sent)) :
    chain.SameTables chain' ∨ ∃ c n _token, Deployed K _message c n _token chain chain' := by
  obtain ⟨-, -, hlength, t, hhandled⟩ := handle_eq_ok.mp h
  cases hhandled with
  | transfer hidentifier hresult =>
    obtain ⟨_token, chain₁, _recipient, n, hensure, -, hamnt, hcirculate⟩ :=
      _handleTransfer_eq_ok.mp hresult
    obtain ⟨paid, providers, hpayee⟩ :=
      payee_effect (_preFillId K (tokenIdOf _message) (actionOf _message)) _recipient chain₁
    rw [hpayee] at hcirculate
    -- paying a provider writes no table of the registry, and neither does the token
    have hcirculated := circulate_tables hcirculate
    rcases _ensureToken_eq_ok hensure with ⟨-, rfl, -⟩ | ⟨hmissing, hdeploy⟩
    · exact .inl ((Chain.SameTables.setProviders providers).trans hcirculated)
    · obtain ⟨hzero, hnone, c, details, hdomain, hid, rfl⟩ := _deployToken_eq_ok hdeploy
      refine .inr ⟨c, n, _token, ?_, hdomain, hid, hmissing, hzero, hnone,
        ⟨{ BridgeToken.init chain.address with token := details }, ?_⟩, ?_⟩
      · exact readTransfer_of hlength hidentifier hdomain hid hamnt
      · exact (Chain.SameTables.setProviders providers).trans hcirculated
      · exact fun hdomain => circulate_of_domain_zero hcirculate hdomain
  | details _ hresult =>
    obtain ⟨-, _token, t, details, hsome, rfl⟩ := _handleDetails_effect hresult
    exact .inl (.setToken hsome)
  | requestDetails _ hresult =>
    exact .inl (chain_eq_of_handleRequestDetails hresult ▸ .refl _)

/-- **What a call does to the tables.** Most calls leave them alone; `enrollCustom` enters
its token, and a Transfer may deploy and enter one. -/
theorem tables_of_exec {call : Call Byte} (h : exec K ctx call chain = .ok (chain', sent)) :
    chain.SameTables chain' ∨
    (∃ d i custom t, call = .enrollCustom d i custom ∧ (chain.tokens custom).isSome = true ∧
      chain' = registered K ⟨d, i⟩ custom (chain.setToken custom t)) ∨
    ∃ origin sender message c n _token, call = .handle origin sender message ∧
      Deployed K message c n _token chain chain' := by
  cases call with
  | handle origin sender message =>
    rcases handle_tables h with hsame | ⟨c, n, _token, hdeployed⟩
    · exact .inl hsame
    · exact .inr (.inr ⟨origin, sender, message, c, n, _token, rfl, hdeployed⟩)
  | requestDetails d i =>
    obtain ⟨rfl, -⟩ := requestDetails_effect h
    exact .inl (.refl _)
  | send token amount destination recipient =>
    obtain ⟨-, t, t', hsome, rfl, -⟩ := send_effect h
    exact .inl (.setToken hsome)
  | preFill message =>
    obtain ⟨-, token, t, t', -, -, providers, hsome, -, rfl⟩ := preFill_effect h
    exact .inl ((Chain.SameTables.setProviders providers).trans (.setToken hsome))
  | enrollCustom d i custom =>
    obtain ⟨-, t, -, t₂, hsome, -, -, rfl⟩ := enrollCustom_effect h
    exact .inr (.inl ⟨d, i, custom, t₂, rfl, by rw [hsome]; rfl, rfl⟩)
  | migrate oldRepr =>
    obtain ⟨-, -, new, t, t', u, u', -, hold, -, hnew, -, rfl⟩ := migrate_effect h
    exact .inl ((Chain.SameTables.setToken hold).trans (.setToken hnew))

end Optics.BridgeRouter
