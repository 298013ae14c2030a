/-
# Bridges between any number of domains

Every member domain has one BridgeRouter, and a message that a router dispatches
travels to the router of another domain, in any order and at most once. Between
deliveries anybody may call the routers and the tokens, and new tokens may appear.

The rules of the system are the assumptions under which the bridge is considered:
Replicas deliver the messages of routers only as they were dispatched, only fresh
tokens are enrolled, and no owner of a token burns what a router holds.
-/

import Mathlib.Data.Finset.Basic
import Optics.Bridge.RouterEffects
import Optics.Math.Transition

namespace Optics.Bridge

open Optics.Solidity Optics.TokenRegistry Optics.Math.Transition

variable {Byte : Type}

/-- A dispatched message on its way. -/
structure Transit (Byte : Type) extends BridgeRouter.Dispatch Byte where
  origin : UInt32
  sender : Bytes32 Byte

/-- The chains of the domains, and the messages in flight. -/
structure Network (Byte : Type) where
  chains : UInt32 → Chain Byte
  inFlight : List (Transit Byte)

/-- One step of the network. -/
inductive Label (Byte : Type)
  | call (domain : UInt32) (ctx : Context Byte) (call : BridgeRouter.Call Byte)
  | deliver (ctx : Context Byte) (message : Transit Byte)
  | token (domain : UInt32) (sender token : Address Byte) (call : BridgeToken.Call Byte)
  | launch (domain : UInt32) (sender token : Address Byte)

namespace Chain

/-- `balanceOf` of the token at an address. -/
def balanceOf (_token _account : Address Byte) (chain : Chain Byte) : ℕ :=
  match chain.tokens _token with
  | some t => t.balances _account
  | none => 0

/-- `totalSupply` of the token at an address. -/
def totalSupply (_token : Address Byte) (chain : Chain Byte) : ℕ :=
  match chain.tokens _token with
  | some t => t.supply
  | none => 0

variable [ByteAlphabet Byte]

/-- The entry of an address that was never registered. -/
def unregistered : TokenId Byte := ⟨0, 0⟩

/-- The address is registered as a representation of the token id. -/
def Represents (c : TokenId Byte) (_token : Address Byte) (chain : Chain Byte) : Prop :=
  chain.representationToCanonical _token = c ∧ c ≠ unregistered

end Chain

variable [ByteAlphabet Byte] [DecidableEq Byte] (K : Crypto Byte)

/-- A token call by an account of the chain. -/
def callByAccount (sender _token : Address Byte) (call : BridgeToken.Call Byte)
    (chain : Chain Byte) : Except Revert (Chain Byte) :=
  match chain.tokens _token with
  | none => .error (.external "no contract")
  | some t => do
    let t ← BridgeToken.exec sender call t
    .ok (chain.setToken _token t)

theorem callByAccount_eq_ok {sender _token : Address Byte} {call : BridgeToken.Call Byte}
    {chain chain' : Chain Byte} (h : callByAccount sender _token call chain = .ok chain') :
    ∃ t t', chain.tokens _token = some t ∧ BridgeToken.exec sender call t = .ok t' ∧
      chain' = chain.setToken _token t' := by
  unfold callByAccount at h
  cases htoken : chain.tokens _token with
  | none => simp [htoken] at h
  | some t =>
    simp only [htoken] at h
    obtain ⟨t', hcall, hchain⟩ := bind_eq_ok.mp h
    exact ⟨t, t', rfl, hcall, (Except.ok.inj hchain).symm⟩

namespace Network

/-- The network after a chain has changed and dispatched messages. -/
def commit (s : Network Byte) (domain : UInt32) (inFlight : List (Transit Byte))
    (result : Chain Byte × List (BridgeRouter.Dispatch Byte)) : Network Byte where
  chains := Function.update s.chains domain result.1
  inFlight := inFlight ++
    result.2.map fun m => ⟨m, domain, addressToBytes32 result.1.address⟩

/-- A transaction that calls the router of a domain. -/
def callRouter (domain : UInt32) (ctx : Context Byte) (call : BridgeRouter.Call Byte)
    (s : Network Byte) : Except Revert (Network Byte) := do
  let result ← BridgeRouter.exec K ctx call (s.chains domain)
  .ok (s.commit domain s.inFlight result)

/-- A transaction that calls a token of a domain. -/
def callTokenOf (domain : UInt32) (sender token : Address Byte) (call : BridgeToken.Call Byte)
    (s : Network Byte) : Except Revert (Network Byte) := do
  let chain ← callByAccount sender token call (s.chains domain)
  .ok { s with chains := Function.update s.chains domain chain }

/-- Delivering a message consumes it, whether `handle` reverts or not. -/
def deliver (ctx : Context Byte) (m : Transit Byte) (rest : List (Transit Byte))
    (s : Network Byte) : Network Byte :=
  match BridgeRouter.handle K ctx m.origin m.sender m.body (s.chains m.destination) with
  | .ok result => s.commit m.destination rest result
  | .error _ => { s with inFlight := rest }

/-- A new token, owned by the account that deploys it. -/
def launch (domain : UInt32) (sender token : Address Byte) (s : Network Byte) : Network Byte :=
  let chain := (s.chains domain).setToken token (BridgeToken.init sender)
  { s with chains := Function.update s.chains domain chain }

end Network

/-- A custom token is enrolled for a token of another domain, while it has no
supply and has never been enrolled. -/
def FreshCustom (chain : Chain Byte) : BridgeRouter.Call Byte → Prop
  | .enrollCustom domain _ custom =>
    domain ≠ chain.localDomain ∧ chain.totalSupply custom = 0 ∧
      chain.representationToCanonical custom = Chain.unregistered ∧
      ∀ hash, chain.canonicalToRepresentation hash ≠ custom
  | _ => True

variable (members : Finset UInt32)

/-- A call of `handle` outside a delivery does not come from a Replica, or is for
a message of some other contract. -/
def NotFromRouter (s : Network Byte) (ctx : Context Byte) : BridgeRouter.Call Byte → Prop
  | .handle origin sender _ => ctx.isReplica → sender ≠ 0 ∧
      (origin ∈ members → sender ≠ addressToBytes32 (s.chains origin).address)
  | _ => True

/-- The steps of the network. A call that reverts changes nothing. -/
inductive Step (s : Network Byte) : Label Byte → Network Byte → Prop
  | call (domain : UInt32) (ctx : Context Byte) (call : BridgeRouter.Call Byte)
      (s' : Network Byte) (hdomain : domain ∈ members)
      (hsender : ctx.sender ≠ (s.chains domain).address)
      (hrouter : NotFromRouter members s ctx call) (hfresh : FreshCustom (s.chains domain) call)
      (hstep : callStep (fun _ => Network.callRouter K domain ctx call) s () s') :
      Step s (.call domain ctx call) s'
  | deliver (ctx : Context Byte) (m : Transit Byte) (before after : List (Transit Byte))
      (hdomain : m.destination ∈ members)
      (hrecipient : m.recipient = addressToBytes32 (s.chains m.destination).address)
      (hinFlight : s.inFlight = before ++ m :: after) :
      Step s (.deliver ctx m) (s.deliver K ctx m (before ++ after))
  | token (domain : UInt32) (sender token : Address Byte) (call : BridgeToken.Call Byte)
      (s' : Network Byte) (hdomain : domain ∈ members)
      (hsender : sender ≠ (s.chains domain).address)
      (hburn : ∀ n, call ≠ .burn (s.chains domain).address n)
      (hstep : callStep (fun _ => Network.callTokenOf domain sender token call) s () s') :
      Step s (.token domain sender token call) s'
  | launch (domain : UInt32) (sender token : Address Byte) (hdomain : domain ∈ members)
      (hsender : sender ≠ (s.chains domain).address) (hzero : token ≠ 0)
      (hnone : (s.chains domain).tokens token = none) :
      Step s (.launch domain sender token) (s.launch domain sender token)

/-- A chain before the bridge is used: the router knows the routers of the other
members, its tables are empty, and it has approved nobody. -/
structure Chain.Initial (chains : UInt32 → Chain Byte) (domain : UInt32) : Prop where
  localDomain : (chains domain).localDomain = domain
  remotes : ∀ remote, (chains domain).remotes remote =
    if remote ∈ members ∧ remote ≠ domain then addressToBytes32 (chains remote).address else 0
  representationToCanonical : ∀ token,
    (chains domain).representationToCanonical token = Chain.unregistered
  canonicalToRepresentation : ∀ hash, (chains domain).canonicalToRepresentation hash = 0
  zero : (chains domain).tokens 0 = none
  tokens : ∀ token t, (chains domain).tokens token = some t →
    t.Solvent ∧ ∀ spender, t.allowances (chains domain).address spender = 0

/-- The bridges of the member domains as a transition system. -/
def system : System (Network Byte) (Label Byte) where
  init s := (∀ domain ∈ members, Chain.Initial members s.chains domain) ∧ s.inFlight = []
  step := Step K members

/-! ### Amounts in flight -/

section Amounts

/-- The token id and the amount of a Transfer message, read as `handle` reads
them. -/
def readTransfer (_message : List Byte) : Except Revert (TokenId Byte × ℕ) := do
  let _msg ← BridgeMessage.mustBeMessage (View.ref _message 0)
  let _tokenId ← BridgeMessage.tokenId _msg
  let _action ← BridgeMessage.action _msg
  let transfer ← BridgeMessage.isTransfer _action
  require transfer "!transfer"
  let _domain ← BridgeMessage.domain _tokenId
  let _id ← BridgeMessage.id _tokenId
  let _amnt ← BridgeMessage.amnt _action
  .ok (⟨_domain, _id⟩, _amnt)

/-- What a message moves of a token. -/
def amountFor (c : TokenId Byte) (_message : List Byte) : ℕ :=
  match readTransfer _message with
  | .ok (c', amount) => if c' = c then amount else 0
  | .error _ => 0

/-- The sum of the amounts of a token that are dispatched but not yet handled. -/
def Network.inFlightAmount (s : Network Byte) (c : TokenId Byte) : ℕ :=
  (s.inFlight.map fun m => amountFor c m.body).sum

omit [DecidableEq Byte] in
theorem readTransfer_message (c : TokenId Byte) (a : BridgeMessage.Action Byte) :
    readTransfer (BridgeRouter.message c a) = match a with
      | .transfer _ n => .ok (c, n % 2 ^ 256)
      | _ => .error (.require "!transfer") := by
  rw [readTransfer, BridgeRouter.message, BridgeMessage.mustBeMessage_messageBytes, ok_bind,
    BridgeMessage.tokenId_messageBytes, ok_bind, BridgeMessage.action_messageBytes, ok_bind,
    BridgeMessage.isTransfer, BridgeMessage.isAction_view, ok_bind]
  cases a with
  | transfer receiver n =>
    rw [require_of (by rfl), BridgeMessage.domain_tokenIdView, BridgeMessage.id_tokenIdView,
      BridgeMessage.amnt_view]
    rfl
  | details name symbol decimals =>
    rw [require_of_not (by simp [BridgeMessage.Action.type])]
    rfl
  | requestDetails =>
    rw [require_of_not (by simp [BridgeMessage.Action.type])]
    rfl

@[simp] theorem amountFor_transfer (c c' : TokenId Byte) (receiver : Bytes32 Byte) (n : ℕ) :
    amountFor c (BridgeRouter.message c' (.transfer receiver n)) =
      if c' = c then n % 2 ^ 256 else 0 := by
  rw [amountFor, readTransfer_message]

@[simp] theorem amountFor_details (c c' : TokenId Byte) (name symbol : Bytes32 Byte)
    (decimals : UInt8) :
    amountFor c (BridgeRouter.message c' (.details name symbol decimals)) = 0 := by
  rw [amountFor, readTransfer_message]

@[simp] theorem amountFor_requestDetails (c c' : TokenId Byte) :
    amountFor c (BridgeRouter.message c' .requestDetails) = 0 := by
  rw [amountFor, readTransfer_message]

end Amounts

end Optics.Bridge
