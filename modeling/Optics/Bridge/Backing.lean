/-
# Bridged tokens are backed

Every function of the router keeps the network sound, with the amounts of the
messages it dispatches owed on top. Handling a Transfer message pays what the
message owed, out of escrow on the home chain of the token and by minting
elsewhere. In every reachable state the escrow of a token therefore covers its
representations and the amounts in flight.
-/

import Mathlib.Data.Set.Finite.Lattice
import Optics.Bridge.Invariant

namespace Optics.Bridge

open Optics.Solidity Optics.TokenRegistry Optics.Math Optics.Math.Transition
open Optics.BridgeMessage (Action)
open Optics.BridgeRouter (Dispatch message)

variable {Byte : Type} [ByteAlphabet Byte] [DecidableEq Byte]

/-- A message of a router: an action for a token id, where a transfer moves
something. -/
def Formatted (body : List Byte) : Prop :=
  ∃ c a, body = message c a ∧ ∀ receiver n, a = Action.transfer receiver n → 0 < n % 2 ^ 256

/-- What a list of messages moves of a token. -/
def sentAmount (c : TokenId Byte) (sent : List (Dispatch Byte)) : ℕ :=
  (sent.map fun m => amountFor c m.body).sum

variable {K : Crypto Byte} {members : Finset UInt32} {chains : UInt32 → Chain Byte}
  {owed owed' : TokenId Byte → ℕ} {d : UInt32} {ctx : Context Byte} {chain' : Chain Byte}
  {sent : List (Dispatch Byte)}

/-- A successful call of the router keeps the network sound and the setup of the
chain as it is, and dispatches formatted messages. -/
structure Kept (K : Crypto Byte) (members : Finset UInt32) (chains : UInt32 → Chain Byte)
    (owed : TokenId Byte → ℕ) (d : UInt32) (chain' : Chain Byte) (sent : List (Dispatch Byte)) :
    Prop where
  sound : Sound K members (Function.update chains d chain') fun c => owed c + sentAmount c sent
  address : chain'.address = (chains d).address
  remotes : chain'.remotes = (chains d).remotes
  formatted : ∀ m ∈ sent, Formatted m.body

/-- Without messages nothing more is owed. -/
theorem Kept.of_nil (h : Sound K members (Function.update chains d chain') owed)
    (haddress : chain'.address = (chains d).address)
    (hremotes : chain'.remotes = (chains d).remotes) :
    Kept K members chains owed d chain' [] :=
  ⟨h.owe_less fun _ => le_rfl, haddress, hremotes, by simp⟩

theorem formatted_requestDetails {c : TokenId Byte}
    (h : ∀ m ∈ sent, m.body = message c .requestDetails) :
    (∀ m ∈ sent, Formatted m.body) ∧ ∀ c', sentAmount c' sent = 0 := by
  constructor
  · intro m hm
    exact ⟨c, _, h m hm, by simp⟩
  · intro c'
    rw [sentAmount, List.sum_eq_zero]
    intro n hn
    obtain ⟨m, hm, rfl⟩ := List.mem_map.mp hn
    rw [h m hm, amountFor_requestDetails]

/-- One transfer sends its amount of its own token, and of no other. -/
theorem sentAmount_transfer (c c' : TokenId Byte) (destination : UInt32)
    (remote receiver : Bytes32 Byte) (n : ℕ) :
    sentAmount c [(⟨destination, remote, message c' (.transfer receiver n)⟩ : Dispatch Byte)] =
      if c' = c then n % 2 ^ 256 else 0 := by
  rw [sentAmount, List.map_singleton, List.sum_singleton, amountFor_transfer]

/-! ### Calls of the router -/

section Calls

variable (h : Sound K members chains owed) (hd : d ∈ members)
include h hd

/-- Sending takes out of circulation what the message moves. -/
theorem kept_send (hsender : ctx.sender ≠ (chains d).address) {_token : Address Byte}
    {_amount : ℕ} {_destination : UInt32} {_recipient : Bytes32 Byte}
    (hsend : BridgeRouter.send ctx _token _amount _destination _recipient (chains d) =
      .ok (chain', sent)) : Kept K members chains owed d chain' sent := by
  obtain ⟨hpos, t, t', htoken, rfl, rfl, hmoved⟩ := BridgeRouter.send_effect hsend
  have hsolvent := (h.chain d hd).solvent _ t htoken
  have hmod : _amount % 2 ^ 256 ≤ _amount := Nat.mod_le _ _
  -- what is sent was part of a balance, so it fits the message
  have hformatted : _amount ≤ t.balances ctx.sender → ∀ m ∈ [(⟨_destination,
      (chains d).remotes _destination, message (_tokenIdFor _token (chains d))
        (.transfer _recipient _amount)⟩ : Dispatch Byte)], Formatted m.body := by
    intro hle m hm
    obtain rfl := List.mem_singleton.mp hm
    refine ⟨_, _, rfl, fun receiver n heq => ?_⟩
    obtain ⟨rfl, rfl⟩ := Action.transfer.inj heq
    have hlt : _amount < 2 ^ 256 :=
      (hle.trans (hsolvent.balance_le _)).trans_lt hsolvent.supply_lt
    rwa [Nat.mod_eq_of_lt hlt]
  rcases hmoved with ⟨hlocal, hcall⟩ | ⟨hlocal, hcall⟩
  · obtain ⟨hdomain, -⟩ := Chain.isLocalOrigin_iff.mp hlocal
    obtain ⟨t₁, htransfer, -, happrove⟩ := BridgeToken.transferFrom_eq_ok hcall
    have hid : _tokenIdFor _token (chains d) = ⟨d, addressToBytes32 _token⟩ := by
      rw [_tokenIdFor, if_pos hdomain, h.localDomain d hd]
    refine ⟨?_, rfl, rfl, hformatted htransfer.le_balance⟩
    refine h.exchange_local hd rfl htoken
      (htransfer.keeps.trans (happrove.keeps fun heq => absurd heq hsender)) hdomain
      (fun _ => (happrove.supply_eq.trans htransfer.supply_eq).le) ?_ ?_
    · rw [happrove.balances_eq, htransfer.balances_recipient hsender.symm]
      rw [sentAmount_transfer, if_pos hid]
      omega
    · intro c hc
      rw [sentAmount_transfer, hid, if_neg (Ne.symm hc)]
      exact le_rfl
  · have hdomain : ((chains d).representationToCanonical _token).domain ≠ 0 := by
      intro hzero
      have htrue := Chain.isLocalOrigin_iff.mpr ⟨hzero, t, htoken⟩
      rw [hlocal] at htrue
      cases htrue
    obtain ⟨-, hburned⟩ := BridgeToken.burned_of_burn hcall
    have hid : _tokenIdFor _token (chains d) = (chains d).representationToCanonical _token := by
      rw [_tokenIdFor, if_neg hdomain]
    refine ⟨?_, rfl, rfl, hformatted hburned.le_balance⟩
    refine h.exchange_representation hd rfl htoken hburned.keeps hdomain ?_ ?_
    · have hsupply := hburned.supply_eq
      rw [sentAmount_transfer, if_pos hid]
      omega
    · intro c hc
      rw [sentAmount_transfer, hid, if_neg (Ne.symm hc)]
      exact le_rfl

/-- A provider pays out of its own balance. -/
theorem kept_preFill {_message : List Byte}
    (hfill : BridgeRouter.preFill K ctx _message (chains d) = .ok (chain', sent)) :
    Kept K members chains owed d chain' sent := by
  obtain ⟨rfl, r, t, t', recipient, amnt, providers, htoken, hpay, rfl⟩ :=
    BridgeRouter.preFill_effect hfill
  have hharmless := BridgeToken.harmless_of_transferFrom hpay
    ((h.chain d hd).allowances r t htoken)
  have hproviders := h.setProviders hd rfl providers
  exact Kept.of_nil (hproviders.exchange_harmless hd (Function.update_self ..) htoken
    hharmless).idem rfl rfl

/-- A fresh custom token has no supply, before and after it is enrolled. -/
theorem kept_enrollCustom (ideal : Crypto.IdealHash K) {_domain : UInt32} {_id : Bytes32 Byte}
    {_custom : Address Byte}
    (hfresh : FreshCustom (chains d) (.enrollCustom _domain _id _custom))
    (henroll : BridgeRouter.enrollCustom K ctx _domain _id _custom (chains d) =
      .ok (chain', sent)) : Kept K members chains owed d chain' sent := by
  obtain ⟨hdomain, hsupply, hunregistered, hnever⟩ := hfresh
  obtain ⟨rfl, t, t₁, t₂, htoken, hmint, hburn, rfl⟩ := BridgeRouter.enrollCustom_effect henroll
  obtain ⟨howner, hminted⟩ := BridgeToken.minted_of_mint hmint
  obtain ⟨-, hburned⟩ := BridgeToken.burned_of_burn hburn
  rw [Chain.totalSupply_of_some htoken] at hsupply
  have hsame : t₂.supply = t.supply := by
    have hafter := hburned.supply_eq
    have hbefore := hminted.supply_eq
    omega
  have hharmless : BridgeToken.Harmless (chains d).address t t₂ := by
    refine ⟨hminted.keeps.trans hburned.keeps, fun _ => hsame, ?_⟩
    rw [hburned.balances_eq, Function.update_self, hminted.balances_eq, Function.update_self]
    exact le_rfl
  have hexchange := h.exchange_harmless hd rfl htoken hharmless
  exact Kept.of_nil (hexchange.registered hd (Function.update_self ..) ideal
    (Chain.setToken_tokens_self ..) (hharmless.owner howner.symm) (hsame.trans hsupply)
    hunregistered (fun c => hnever _) hdomain).idem rfl rfl

/-- Between burning and minting, the migrated amount is owed. -/
theorem kept_migrate {_oldRepr : Address Byte}
    (hmigrate : BridgeRouter.migrate K ctx _oldRepr (chains d) = .ok (chain', sent)) :
    Kept K members chains owed d chain' sent := by
  obtain ⟨rfl, hdomain, new, t, t', u, u', hnew, htoken, hburn, hu, hmint, rfl⟩ :=
    BridgeRouter.migrate_effect hmigrate
  obtain ⟨-, hburned⟩ := BridgeToken.burned_of_burn hburn
  obtain ⟨-, hminted⟩ := BridgeToken.minted_of_mint hmint
  generalize hc : (chains d).representationToCanonical _oldRepr = c at hdomain hnew
  have hbalance := hburned.supply_eq
  have hsupply := hminted.supply_eq
  have hmid : Sound K members
      (Function.update chains d ((chains d).setToken _oldRepr t'))
      (Function.update owed c (owed c + t.balances ctx.sender)) := by
    refine h.exchange_representation hd rfl htoken hburned.keeps (hc ▸ hdomain) ?_ ?_
    · rw [hc, Function.update_self]
      omega
    · intro c' hc'
      rw [hc] at hc'
      rw [Function.update_of_ne hc']
  -- the current representation of the same token id
  have hself : Function.update chains d ((chains d).setToken _oldRepr t') d =
      (chains d).setToken _oldRepr t' := Function.update_self ..
  have hsound := hself ▸ hmid.chain d hd
  have hlookup := (hsound.lookup c (hnew ▸ hsound.ne_zero hu)).1
  rw [Chain.setToken_canonicalToRepresentation, ← hnew] at hlookup
  refine Kept.of_nil (hmid.exchange_representation hd hself hu hminted.keeps (hlookup ▸ hdomain)
    ?_ ?_).idem rfl rfl
  · rw [hlookup, Function.update_self]
    omega
  · intro c' hc'
    rw [hlookup] at hc'
    rw [Function.update_of_ne hc']

/-- Putting a positive amount into circulation pays it, if the token is the one of
local origin or a representation for the token id. -/
theorem sound_circulate {r _recipient : Address Byte} {n : ℕ} {c : TokenId Byte} (hn : 0 < n)
    {chain : Chain Byte} (hchain : chains d = chain)
    (htoken : c = ⟨d, addressToBytes32 r⟩ ∧ _isLocalOrigin r chain = true ∨
      chain.representationToCanonical r = c ∧ chain.Issues c r)
    (hcirculate : BridgeRouter.circulate ctx r _recipient n chain = .ok chain')
    (howed : owed' c + n ≤ owed c) (hothers : ∀ c', c' ≠ c → owed' c' ≤ owed c') :
    Sound K members (Function.update chains d chain') owed' ∧
      chain'.address = chain.address ∧ chain'.remotes = chain.remotes := by
  obtain ⟨t, t', hr, rfl, hmoved⟩ := BridgeRouter.circulate_effect hcirculate
  refine ⟨?_, rfl, rfl⟩
  rcases htoken with ⟨rfl, hlocal⟩ | ⟨hcanonical, -, u, hu, -, hzero⟩
  · -- out of escrow
    obtain ⟨-, hcall⟩ := hmoved.resolve_right fun hmint => by
      rw [hlocal] at hmint
      exact Bool.noConfusion hmint.1
    have htransfer := BridgeToken.transferred_of_eq_ok hcall
    refine h.exchange_local hd hchain hr htransfer.keeps (Chain.isLocalOrigin_iff.mp hlocal).1
      (fun _ => htransfer.supply_eq.le) ?_ hothers
    have hbalance := htransfer.balances_le_add (x := chain.address)
    omega
  · obtain rfl := Option.some.inj (hr.symm.trans hu)
    by_cases hdomain : c.domain = 0
    · -- of a token for domain 0 there is nothing to pay with
      have hlocal : _isLocalOrigin r chain = true :=
        Chain.isLocalOrigin_iff.mpr ⟨hcanonical ▸ hdomain, t, hr⟩
      obtain ⟨-, hcall⟩ := hmoved.resolve_right fun hmint => by
        rw [hlocal] at hmint
        exact Bool.noConfusion hmint.1
      have hle := (BridgeToken.transferred_of_eq_ok hcall).le_balance
      have hsupply := ((hchain ▸ h.chain d hd).solvent r t hr).balance_le chain.address
      have hnone := hzero hdomain
      omega
    · have hlocal : _isLocalOrigin r chain = false := by
        rw [_isLocalOrigin, if_pos (hcanonical ▸ hdomain)]
      obtain ⟨-, hcall⟩ := hmoved.resolve_left fun hpay => by
        rw [hlocal] at hpay
        exact Bool.noConfusion hpay.1
      obtain ⟨-, hminted⟩ := BridgeToken.minted_of_mint hcall
      have hsupply := hminted.supply_eq
      refine h.exchange_representation hd hchain hr hminted.keeps (hcanonical ▸ hdomain) ?_ ?_
      · rw [hcanonical]
        omega
      · rwa [hcanonical]

/-- What `_ensureToken` finds or deploys is the token to pay with. -/
theorem sound_ensureToken (ideal : Crypto.IdealHash K) {r : Address Byte} {c : TokenId Byte}
    (hpos : 0 < owed c)
    (hensure : BridgeRouter._ensureToken K ctx (view c) (chains d) = .ok (r, chain', sent)) :
    Sound K members (Function.update chains d chain') owed ∧ chain'.address = (chains d).address ∧
      chain'.remotes = (chains d).remotes ∧
      (∀ m ∈ sent, m.body = message c .requestDetails) ∧
      (c = ⟨d, addressToBytes32 r⟩ ∧ _isLocalOrigin r chain' = true ∨
        chain'.representationToCanonical r = c ∧ chain'.Issues c r) := by
  have hsound := h.chain d hd
  have hlocalDomain := h.localDomain d hd
  -- what is owed on the home chain of the token is in escrow
  have hhome : c.domain = d → c.id = addressToBytes32 (bytes32ToAddress c.id) ∧
      _isLocalOrigin (bytes32ToAddress c.id) (chains d) = true := by
    rintro rfl
    refine Chain.exists_of_escrow_pos (hpos.trans_le ?_)
    have hle := h.owed_le c
    rwa [reserve, if_pos hd] at hle
  rcases BridgeRouter._ensureToken_effect hensure with
    ⟨hr, rfl, rfl, hlookup⟩ | ⟨hlookup, hdeploy, hrequests⟩
  · refine ⟨by rwa [Function.update_eq_self], rfl, rfl, by simp, ?_⟩
    rw [_getTokenAddress_view, Except.ok.injEq, hlocalDomain] at hlookup
    split_ifs at hlookup with hdomain
    · obtain ⟨hid, horigin⟩ := hhome hdomain
      rw [hlookup] at hid horigin
      refine .inl ⟨?_, horigin⟩
      rw [← hdomain, ← hid]
    · rw [← hlookup]
      exact .inr (hsound.lookup c (hlookup ▸ hr))
  · rw [_getTokenAddress_view, Except.ok.injEq, hlocalDomain] at hlookup
    have hdomain : c.domain ≠ (chains d).localDomain := by
      rw [hlocalDomain]
      intro heq
      rw [if_pos heq] at hlookup
      obtain ⟨-, horigin⟩ := hhome heq
      rw [hlookup] at horigin
      obtain ⟨-, t, ht⟩ := Chain.isLocalOrigin_iff.mp horigin
      exact hsound.ne_zero ht rfl
    obtain ⟨hr, hnone, details, rfl⟩ := _deployToken_view K c hdeploy
    have hadd := h.addToken hd rfl hnone hr
      (BridgeToken.solvent_init (chains d).address details) fun _ => rfl
    have hself := Chain.setToken_tokens_self r
      { BridgeToken.init (chains d).address with token := details } (chains d)
    refine ⟨(hadd.registered hd (Function.update_self ..) ideal hself rfl rfl
      (hsound.unregistered_of_none hnone) (hsound.lookup_ne_of_none hnone hr)
      hdomain).idem, rfl, rfl, hrequests, .inr ⟨Function.update_self .., ?_⟩⟩
    exact ⟨hdomain, _, hself, rfl, fun _ => rfl⟩

/-- Handling a transfer pays what its message owed. -/
theorem kept_handleTransfer (ideal : Crypto.IdealHash K) {c : TokenId Byte}
    {receiver : Bytes32 Byte} {n : ℕ} (hn : 0 < n % 2 ^ 256)
    (hhandle : BridgeRouter._handleTransfer K ctx (view c) (Action.transfer receiver n).view
      (chains d) = .ok (chain', sent))
    (howed : owed' c + n % 2 ^ 256 ≤ owed c) (hothers : ∀ c', c' ≠ c → owed' c' ≤ owed c') :
    Kept K members chains owed' d chain' sent := by
  obtain ⟨r, chain₁, recipient, providers, hensure, hcirculate⟩ :=
    BridgeRouter._handleTransfer_effect hhandle
  obtain ⟨hsound, haddress, hremotes, hrequests, htoken⟩ :=
    sound_ensureToken h hd ideal (by omega) hensure
  have hproviders := hsound.setProviders hd (Function.update_self ..) providers
  obtain ⟨hpaid, haddress', hremotes'⟩ := sound_circulate hproviders.idem hd hn
    (Function.update_self ..) htoken hcirculate howed hothers
  obtain ⟨hformatted, hnothing⟩ := formatted_requestDetails hrequests
  refine ⟨hpaid.idem.owe_less fun c' => ?_, haddress'.trans haddress, hremotes'.trans hremotes,
    hformatted⟩
  rw [hnothing, Nat.add_zero]

/-- Details change nothing but what is displayed. -/
theorem kept_handleDetails {_tokenId _action : View Byte}
    (hhandle : BridgeRouter._handleDetails K ctx _tokenId _action (chains d) =
      .ok (chain', sent)) : Kept K members chains owed d chain' sent := by
  obtain ⟨rfl, r, t, details, htoken, rfl⟩ := BridgeRouter._handleDetails_effect hhandle
  have hharmless : BridgeToken.Harmless (chains d).address t { t with token := details } :=
    ⟨⟨fun hsolvent => ⟨hsolvent.covered, hsolvent.supply_lt⟩, fun howner => howner,
      fun hzero => hzero⟩, fun _ => rfl, le_rfl⟩
  exact Kept.of_nil (h.exchange_harmless hd rfl htoken hharmless) rfl rfl

/-- Handling a formatted message pays what the message owed. -/
theorem kept_handle (ideal : Crypto.IdealHash K) {_origin : UInt32} {_sender : Bytes32 Byte}
    {body : List Byte} (hbody : Formatted body)
    (hhandle : BridgeRouter.handle K ctx _origin _sender body (chains d) = .ok (chain', sent))
    (howed : ∀ c, owed c = owed' c + amountFor c body) :
    Kept K members chains owed' d chain' sent := by
  obtain ⟨c, a, rfl, hpos⟩ := hbody
  rw [BridgeRouter.handle_message, require_bind_eq_ok, require_bind_eq_ok] at hhandle
  obtain ⟨-, -, hhandle⟩ := hhandle
  have hless : Sound K members chains owed' :=
    h.owe_less fun c' => (howed c').symm ▸ Nat.le_add_right _ _
  cases a with
  | transfer receiver n =>
    refine kept_handleTransfer h hd ideal (hpos receiver n rfl) hhandle ?_ fun c' _ => ?_
    · rw [howed c, amountFor_transfer, if_pos rfl]
    · rw [howed c']
      exact Nat.le_add_right _ _
  | details name symbol decimals => exact kept_handleDetails hless hd hhandle
  | requestDetails =>
    obtain ⟨rfl, name, symbol, decimals, rfl⟩ :=
      BridgeRouter._handleRequestDetails_effect hhandle
    refine ⟨?_, rfl, rfl, ?_⟩
    · rw [Function.update_eq_self]
      exact hless.owe_less fun c' => by simp [sentAmount]
    · intro m hm
      obtain rfl := List.mem_singleton.mp hm
      exact ⟨c, _, rfl, by simp⟩

/-- Every call of the router that is not the delivery of a message. -/
theorem kept_exec (ideal : Crypto.IdealHash K) (hsender : ctx.sender ≠ (chains d).address)
    {call : BridgeRouter.Call Byte} (hfresh : FreshCustom (chains d) call)
    (hhandle : ∀ origin sender body, call ≠ .handle origin sender body)
    (hexec : BridgeRouter.exec K ctx call (chains d) = .ok (chain', sent)) :
    Kept K members chains owed d chain' sent := by
  cases call with
  | handle origin sender body => exact absurd rfl (hhandle origin sender body)
  | requestDetails domain id =>
    obtain ⟨rfl, hrequests⟩ := BridgeRouter.requestDetails_effect hexec
    obtain ⟨hformatted, hnothing⟩ := formatted_requestDetails hrequests
    refine ⟨?_, rfl, rfl, hformatted⟩
    rw [Function.update_eq_self]
    exact h.owe_less fun c' => by rw [hnothing, Nat.add_zero]
  | send token amount destination recipient => exact kept_send h hd hsender hexec
  | preFill body => exact kept_preFill h hd hexec
  | enrollCustom domain id custom => exact kept_enrollCustom h hd ideal hfresh hexec
  | migrate oldRepr => exact kept_migrate h hd hexec

end Calls

/-! ### Runs of the network -/

/-- The network is sound with the amounts in flight owed, the routers know each
other, and the messages in flight are those of routers. -/
structure Invariant (K : Crypto Byte) (members : Finset UInt32) (s : Network Byte) : Prop where
  sound : Sound K members s.chains s.inFlightAmount
  remotes : ∀ d ∈ members, ∀ e, (s.chains d).remotes e =
    if e ∈ members ∧ e ≠ d then addressToBytes32 (s.chains e).address else 0
  formatted : ∀ m ∈ s.inFlight, Formatted m.body

section Runs

variable {s s' : Network Byte} {label : Label Byte}

/-- The routers still know each other after a chain has changed. -/
theorem Invariant.remotes_update (h : Invariant K members s)
    (haddress : chain'.address = (s.chains d).address)
    (hremotes : chain'.remotes = (s.chains d).remotes) :
    ∀ d' ∈ members, ∀ e, (Function.update s.chains d chain' d').remotes e =
      if e ∈ members ∧ e ≠ d' then addressToBytes32 (Function.update s.chains d chain' e).address
      else 0 := by
  intro d' hd' e
  have hsame : ∀ e, (Function.update s.chains d chain' e).address = (s.chains e).address := by
    intro e
    rcases eq_or_ne e d with rfl | hne
    · rw [Function.update_self, haddress]
    · rw [Function.update_of_ne hne]
  rw [hsame, ← h.remotes d' hd' e]
  rcases eq_or_ne d' d with rfl | hne
  · rw [Function.update_self, hremotes]
  · rw [Function.update_of_ne hne]

/-- The invariant after a transaction that dispatches nothing. -/
theorem Invariant.update (h : Invariant K members s)
    (hsound : Sound K members (Function.update s.chains d chain') s.inFlightAmount)
    (haddress : chain'.address = (s.chains d).address)
    (hremotes : chain'.remotes = (s.chains d).remotes) :
    Invariant K members { s with chains := Function.update s.chains d chain' } :=
  ⟨hsound, h.remotes_update haddress hremotes, h.formatted⟩

/-- The invariant after a chain has changed and dispatched messages. -/
theorem Invariant.commit (h : Invariant K members s)
    {rest : List (Transit Byte)} (hrest : ∀ m ∈ rest, m ∈ s.inFlight)
    (hkept : Kept K members s.chains (fun c => (rest.map fun m => amountFor c m.body).sum) d
      chain' sent) : Invariant K members (s.commit d rest (chain', sent)) where
  sound := by
    refine hkept.sound.owe_less fun c => ?_
    simp [Network.inFlightAmount, Network.commit, sentAmount, Function.comp_def]
  remotes := h.remotes_update hkept.address hkept.remotes
  formatted m hm := by
    rcases List.mem_append.mp hm with hm | hm
    · exact h.formatted m (hrest m hm)
    · obtain ⟨m', hm', rfl⟩ := List.mem_map.mp hm
      exact hkept.formatted m' hm'

/-- A call of `handle` that no router caused reverts. -/
theorem not_handle_of_notFromRouter (h : Invariant K members s) (hd : d ∈ members)
    {origin : UInt32} {sender : Bytes32 Byte} {body : List Byte}
    (hrouter : NotFromRouter members s ctx (.handle origin sender body))
    {result : Chain Byte × List (Dispatch Byte)} :
    BridgeRouter.exec K ctx (.handle origin sender body) (s.chains d) ≠ .ok result := by
  intro hexec
  simp only [BridgeRouter.exec, BridgeRouter.handle, require_bind_eq_ok] at hexec
  obtain ⟨hreplica, hremote, -⟩ := hexec
  obtain ⟨hzero, hother⟩ := hrouter hreplica
  rw [h.remotes d hd] at hremote
  split_ifs at hremote with hmember
  · exact hother hmember.1 hremote.symm
  · exact hzero hremote.symm

/-- Every step of the network keeps the invariant. -/
theorem Invariant.step (ideal : Crypto.IdealHash K) (h : Invariant K members s)
    (hstep : (system K members).step s label s') : Invariant K members s' := by
  cases hstep with
  | call domain ctx call _ hdomain hsender hrouter hfresh hstep =>
    refine callStep_cases (P := fun _ => Invariant K members) hstep (fun s' hcall => ?_) h
    obtain ⟨⟨chain', sent⟩, hexec, hcommit⟩ := bind_eq_ok.mp hcall
    obtain rfl := Except.ok.inj hcommit
    refine h.commit (fun m hm => hm) ?_
    refine kept_exec h.sound hdomain ideal hsender hfresh ?_ hexec
    rintro origin sender body rfl
    exact not_handle_of_notFromRouter h hdomain hrouter hexec
  | deliver ctx m before after hdomain hrecipient hinFlight =>
    have hrest : ∀ m' ∈ before ++ after, m' ∈ s.inFlight := by
      intro m' hm'
      rw [hinFlight]
      rcases List.mem_append.mp hm' with hm' | hm'
      · exact List.mem_append_left _ hm'
      · exact List.mem_append_right _ (List.mem_cons_of_mem _ hm')
    have howed : ∀ c, s.inFlightAmount c =
        ((before ++ after).map fun m => amountFor c m.body).sum + amountFor c m.body := by
      intro c
      simp only [Network.inFlightAmount, hinFlight, List.map_append, List.map_cons,
        List.sum_append, List.sum_cons]
      omega
    have hmem : m ∈ s.inFlight := by
      rw [hinFlight]
      exact List.mem_append_right _ List.mem_cons_self
    unfold Network.deliver
    split
    · next result hhandle =>
      exact h.commit hrest
        (kept_handle h.sound hdomain ideal (h.formatted m hmem) hhandle howed)
    · refine ⟨h.sound.owe_less fun c => ?_, h.remotes, fun m' hm' => h.formatted m' (hrest m' hm')⟩
      rw [howed c]
      exact Nat.le_add_right _ _
  | token domain sender token call _ hdomain hsender hburn hstep =>
    refine callStep_cases (P := fun _ => Invariant K members) hstep (fun s' hexec => ?_) h
    obtain ⟨chain', hcall, hs'⟩ := bind_eq_ok.mp hexec
    obtain rfl := Except.ok.inj hs'
    obtain ⟨t, t', htoken, hcalled, rfl⟩ := callByAccount_eq_ok hcall
    have hharmless := BridgeToken.harmless_of_exec hcalled
      ((h.sound.chain domain hdomain).allowances token t htoken) hsender hburn
    exact h.update (h.sound.exchange_harmless hdomain rfl htoken hharmless) rfl rfl
  | launch domain sender token hdomain hsender hzero hnone =>
    refine h.update (h.sound.addToken hdomain rfl hnone hzero ?_ fun _ => rfl) rfl rfl
    exact BridgeToken.solvent_init sender _

theorem invariant_init (hinit : (system K members).init s) : Invariant K members s := by
  obtain ⟨hchains, hnone⟩ := hinit
  refine ⟨⟨fun d hd => (hchains d hd).localDomain, fun d hd => ?_, fun c => ?_⟩,
    fun d hd => (hchains d hd).remotes, by simp [hnone]⟩
  · have hchain := hchains d hd
    refine ⟨hchain.zero, fun r t ht => (hchain.tokens r t ht).1,
      fun r t ht => (hchain.tokens r t ht).2, fun r hr => ?_, fun c hc => ?_, ?_⟩
    · exact absurd (hchain.representationToCanonical r) hr
    · exact absurd (hchain.canonicalToRepresentation _) hc
    · have hempty : {r | (s.chains d).representationToCanonical r ≠ Chain.unregistered} = ∅ := by
        ext r
        simp [hchain.representationToCanonical r]
      rw [hempty]
      exact Set.finite_empty
  · have hnothing : s.inFlightAmount c = 0 := by simp [Network.inFlightAmount, hnone]
    rw [hnothing]
    refine Covered.of_forall_eq_zero fun x hx => ?_
    -- nothing is registered for a token id yet
    obtain ⟨hd, hc, hx⟩ := hx
    rw [(hchains x.1 hd).representationToCanonical x.2] at hx
    exact absurd (congrArg TokenId.domain hx).symm hc

theorem invariant_of_reachable (ideal : Crypto.IdealHash K)
    (h : (system K members).Reachable s) : Invariant K members s :=
  h.invariant (fun _ => invariant_init) fun _ _ _ _ hs hstep => hs.step ideal hstep

/-! ### Backing -/

theorem Chain.escrow_le_balanceOf (r : Address Byte) (chain : Chain Byte) :
    chain.escrow (addressToBytes32 r) ≤ chain.balanceOf r chain.address := by
  rw [Chain.escrow, bytes32ToAddress_addressToBytes32]
  split_ifs
  · exact le_rfl
  · exact Nat.zero_le _

theorem Invariant.finite_representations (h : Invariant K members s) (c : TokenId Byte) :
    {x : UInt32 × Address Byte | x.1 ∈ members ∧ x.1 ≠ d ∧
      (s.chains x.1).Represents c x.2}.Finite := by
  have hall : (⋃ D ∈ members, Prod.mk D '' {r | (s.chains D).representationToCanonical r ≠
      Chain.unregistered}).Finite :=
    Set.Finite.biUnion members.finite_toSet fun D hD => (h.sound.chain D hD).finite.image _
  refine hall.subset ?_
  rintro ⟨D, r⟩ ⟨hD, -, hr, hc⟩
  rw [← hr] at hc
  simp only [Set.mem_iUnion]
  exact ⟨D, hD, r, hc, rfl⟩

/-- **Bridged tokens are backed.** In every reachable state of the network, the
balance of the router of a domain in one of its tokens is at least the supply of
all representations of the token on the other domains together with the amounts of
the token that are dispatched but not yet handled. -/
theorem backed (ideal : Crypto.IdealHash K) (h : (system K members).Reachable s)
    (hd : d ∈ members) (token : Address Byte) :
    ∃ representations : Finset (UInt32 × Address Byte),
      (∀ x, x ∈ representations ↔ x.1 ∈ members ∧ x.1 ≠ d ∧
        (s.chains x.1).Represents ⟨d, addressToBytes32 token⟩ x.2) ∧
      ∑ x ∈ representations, (s.chains x.1).totalSupply x.2 +
          s.inFlightAmount ⟨d, addressToBytes32 token⟩ ≤
        (s.chains d).balanceOf token (s.chains d).address := by
  have hinvariant := invariant_of_reachable ideal h
  have hfinite := hinvariant.finite_representations (d := d) ⟨d, addressToBytes32 token⟩
  refine ⟨hfinite.toFinset, fun x => by rw [Set.Finite.mem_toFinset]; rfl, ?_⟩
  have hcovered := hinvariant.sound.covered ⟨d, addressToBytes32 token⟩
  have hreserve := Chain.escrow_le_balanceOf token (s.chains d)
  rw [← Sound.reserve_self hd] at hreserve
  refine le_trans ?_ hreserve
  by_cases hzero : d = 0
  · -- representations of a token of domain 0 have no supply
    have hsum : ∑ x ∈ hfinite.toFinset, (s.chains x.1).totalSupply x.2 = 0 := by
      refine Finset.sum_eq_zero fun x hx => ?_
      obtain ⟨hmember, -, hx, hne⟩ := hfinite.mem_toFinset.mp hx
      obtain ⟨-, t, ht, -, hsupply⟩ :=
        (hinvariant.sound.chain x.1 hmember).representation x.2 (hx ▸ hne)
      rw [Chain.totalSupply_of_some ht, hsupply (hx ▸ hzero)]
    rw [hsum, Nat.zero_add]
    exact hcovered.owed_le
  · refine hcovered hfinite.toFinset fun x hx => ?_
    obtain ⟨hmember, -, hx, -⟩ := hfinite.mem_toFinset.mp hx
    exact ⟨hmember, hzero, hx⟩

end Runs

/-! ### A sample run

An account of domain 1 launches a token, mints 100 of it, approves the router for
60, and sends 40 of them to domain 2. -/

section Sample

def sampleAddress (n : ℕ) : Address ℕ := List.Vector.replicate 20 n

def sampleCrypto : Crypto ℕ := Crypto.withIdealHash fun _ _ => none

def sampleMembers : Finset UInt32 := {1, 2}

/-- The router of a domain and its chain, before the bridge is used. -/
def sampleChain (domain : UInt32) : Chain ℕ where
  address := sampleAddress domain.toNat
  localDomain := domain
  owner := 0
  remotes remote := if remote ∈ sampleMembers ∧ remote ≠ domain then
    addressToBytes32 (sampleAddress remote.toNat) else 0
  representationToCanonical _ := Chain.unregistered
  canonicalToRepresentation _ := 0
  liquidityProvider _ := 0
  tokens _ := none

def sampleContext : Context ℕ where
  sender := sampleAddress 3
  isReplica := false
  homeAccepts := true
  created := 0
  refuses _ := false

/-- A call of the token by its owner. -/
def sampleTokenCall (call : BridgeToken.Call ℕ) : Network ℕ → Network ℕ :=
  afterCall (fun _ => Network.callTokenOf 1 (sampleAddress 3) (sampleAddress 4) call) ()

def sampleSend : Network ℕ → Network ℕ :=
  afterCall (fun _ => Network.callRouter sampleCrypto 1 sampleContext
    (.send (sampleAddress 4) 40 2 (addressToBytes32 (sampleAddress 6)))) ()

def sampleLaunched : Network ℕ :=
  Network.launch 1 (sampleAddress 3) (sampleAddress 4) ⟨sampleChain, []⟩

def sampleApproved : Network ℕ :=
  sampleTokenCall (.approve (sampleAddress 1) 60)
    (sampleTokenCall (.mint (sampleAddress 3) 100) sampleLaunched)

theorem sampleInitial (domain : UInt32) : Chain.Initial sampleMembers sampleChain domain where
  localDomain := rfl
  remotes _ := rfl
  representationToCanonical _ := rfl
  canonicalToRepresentation _ := rfl
  zero := rfl
  tokens _ _ h := nomatch h

theorem reachable_sampleApproved :
    (system sampleCrypto sampleMembers).Reachable sampleApproved := by
  have hstart : (system sampleCrypto sampleMembers).Reachable ⟨sampleChain, []⟩ :=
    System.reachable_init ⟨fun domain _ => sampleInitial domain, rfl⟩
  have hlaunched := hstart.step (Step.launch 1 (sampleAddress 3) (sampleAddress 4)
    (by decide) (by decide) (by decide) rfl)
  have hminted := hlaunched.step (Step.token 1 (sampleAddress 3) (sampleAddress 4)
    (.mint (sampleAddress 3) 100) _ (by decide) (by decide) nofun (callStep_afterCall _ _ _))
  exact hminted.step (Step.token 1 (sampleAddress 3) (sampleAddress 4)
    (.approve (sampleAddress 1) 60) _ (by decide) (by decide +kernel) nofun
    (callStep_afterCall _ _ _))

/-- After the sample run the 40 that are in flight are backed. -/
theorem backed_sample :
    (sampleSend sampleApproved).inFlightAmount ⟨1, addressToBytes32 (sampleAddress 4)⟩ = 40 ∧
    ∃ representations : Finset (UInt32 × Address ℕ),
      (∀ x, x ∈ representations ↔ x.1 ∈ sampleMembers ∧ x.1 ≠ 1 ∧
        ((sampleSend sampleApproved).chains x.1).Represents
          ⟨1, addressToBytes32 (sampleAddress 4)⟩ x.2) ∧
      ∑ x ∈ representations, ((sampleSend sampleApproved).chains x.1).totalSupply x.2 +
          (sampleSend sampleApproved).inFlightAmount ⟨1, addressToBytes32 (sampleAddress 4)⟩ ≤
        ((sampleSend sampleApproved).chains 1).balanceOf (sampleAddress 4)
          ((sampleSend sampleApproved).chains 1).address := by
  have hideal : Crypto.IdealHash sampleCrypto := Crypto.withIdealHash_ideal _
  refine ⟨by decide +kernel, backed hideal ?_ (by decide) _⟩
  exact reachable_sampleApproved.step (Step.call 1 sampleContext
    (.send (sampleAddress 4) 40 2 (addressToBytes32 (sampleAddress 6))) _ (by decide)
    (by decide +kernel) trivial trivial (callStep_afterCall _ _ _))

end Sample

end Optics.Bridge
