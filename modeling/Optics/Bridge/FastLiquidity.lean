/-
# Fast liquidity

A provider pays the recipient of a Transfer in advance, less a fee, and the Transfer pays
the provider when it is handled. What is prefilled is told apart by the bytes of the
message alone, so the bytes stand for a queue of at most one prefill: the pending one is
that of the last call with these bytes, unless this call handled a Transfer.
-/

import Optics.Bridge.Backing
import Optics.Bridge.RouterRuns
import Optics.Math.Log

namespace Optics.Bridge

open Optics.Solidity Optics.TokenRegistry Optics.BridgeMessage Optics.BridgeRouter Optics.Math
  Optics.Math.Transition

variable {Byte : Type} [ByteAlphabet Byte] [DecidableEq Byte]

/-- What a call does to the prefill of a message: one provider makes it, or a Transfer with
these bytes is handled and nobody is left. -/
def fill (message : List Byte) (m : Moment Byte) : Option (Option (Address Byte)) :=
  match m.call with
  | .preFill body => if body = message then some (some m.ctx.sender) else none
  | .handle _ _ body =>
    if body = message ∧ identifierOf body = Types.Transfer.code then some none else none
  | _ => none

/-- The provider of the pending prefill of a message. -/
def pending (message : List Byte) (history : List (Moment Byte)) : Option (Address Byte) :=
  (Log.last (fill message) history).join

/-- A call moves an amount of a token from one account to another, and nothing else. -/
def Moment.Pays (_token sender recipient : Address Byte) (n : ℕ) (m : Moment Byte) : Prop :=
  ∃ t t₁ t', m.before.tokens _token = some t ∧
    BridgeToken.Transferred sender recipient n t t₁ ∧ t'.balances = t₁.balances ∧
    m.after.tokens = Function.update m.before.tokens _token (some t')

/-- A call puts an amount of a token into one account, out of the escrow of the router or by
minting, and nothing else. A token that is new had no balances. -/
def Moment.Credits (_token account : Address Byte) (n : ℕ) (m : Moment Byte) : Prop :=
  ∃ t t', (m.before.tokens _token = some t ∨
      m.before.tokens _token = none ∧ ∀ x, t.balances x = 0) ∧
    (BridgeToken.Transferred m.before.address account n t t' ∨
      BridgeToken.Minted account n t t') ∧
    m.after.tokens = Function.update m.before.tokens _token (some t')

/-- The prefill of a message by a provider, which no handled Transfer has consumed since. -/
structure Prefilled (message : List Byte) (provider : Address Byte) (history : List (Moment Byte))
    (f : Moment Byte) : Prop where
  call : f.call = .preFill message
  sender : f.ctx.sender = provider
  unconsumed : ∃ past since, history = past ++ f :: since ∧ ∀ m ∈ since, fill message m = none

/-- What handling a Transfer does after the calls before it: the pending provider is
credited, who has paid the recipient for it, or the recipient if there is none. -/
structure Settles (K : Crypto Byte) (front : List (Moment Byte)) (m : Moment Byte)
    (message : List Byte) (_token _recipient : Address Byte) (n : ℕ) : Prop where
  token : ∃ chain sent,
    _ensureToken K m.ctx (tokenIdOf message) m.before = .ok (_token, chain, sent)
  recipient : BridgeMessage.evmRecipient (transferOf message) = .ok _recipient
  amnt : BridgeMessage.amnt (transferOf message) = .ok n
  credits : m.Credits _token ((pending message front).getD _recipient) n
  paid : ∀ provider, pending message front = some provider → n * 9995 < 2 ^ 256 →
    ∃ f, Prefilled message provider front f ∧
      f.Pays _token provider _recipient (n * 9995 / 10000)

/-- What a successful call is after the calls before it. -/
structure Settled (K : Crypto Byte) (front : List (Moment Byte)) (m : Moment Byte) : Prop where
  handle : ∀ origin sender message, m.call = .handle origin sender message →
    identifierOf message = Types.Transfer.code →
      ∃ _token _recipient n, Settles K front m message _token _recipient n
  preFill : ∀ message, m.call = .preFill message → pending message front = none

/-- A router of which nobody has prefilled a message. -/
def Chain.Unfilled (chain : Chain Byte) : Prop := ∀ id, chain.liquidityProvider id = 0

/-- No custom representation is enrolled. -/
def Station.NoCustom (_ : Station Byte) : Label Byte → Prop
  | .call _ (.enrollCustom _ _ _) => False
  | _ => True

/-! ### Pending prefills -/

section Pending

variable {message message' : List Byte} {history : List (Moment Byte)} {m f : Moment Byte}
  {provider : Address Byte}

theorem pending_concat_of_none (h : fill message m = none) :
    pending message (history ++ [m]) = pending message history := by
  rw [pending, Log.last_concat, h]
  rfl

theorem pending_concat_of_some {answer : Option (Address Byte)}
    (h : fill message m = some answer) : pending message (history ++ [m]) = answer := by
  rw [pending, Log.last_concat, h]
  rfl

theorem fill_preFill (h : m.call = .preFill message') :
    fill message m = if message' = message then some (some m.ctx.sender) else none := by
  rw [fill, h]

theorem fill_handle {origin : UInt32} {sender : Bytes32 Byte}
    (h : m.call = .handle origin sender message') :
    fill message m = if message' = message ∧ identifierOf message' = Types.Transfer.code then
      some none else none := by
  rw [fill, h]

theorem Prefilled.concat (h : Prefilled message provider history f) (hm : fill message m = none) :
    Prefilled message provider (history ++ [m]) f := by
  obtain ⟨past, since, rfl, hsince⟩ := h.unconsumed
  refine ⟨h.call, h.sender, past, since ++ [m], by simp, fun m' hm' => ?_⟩
  rcases List.mem_append.mp hm' with hold | hnew
  · exact hsince m' hold
  · exact List.mem_singleton.mp hnew ▸ hm

end Pending

/-! ### What leaves the prefills alone -/

/-- A change that leaves the providers and the tokens found alone. -/
structure Chain.SameProviders (K : Crypto Byte) (chain chain' : Chain Byte) : Prop where
  providers : chain'.liquidityProvider = chain.liquidityProvider
  lookups : ∀ message r, r ≠ 0 → _getTokenAddress K (tokenIdOf message) chain = .ok r →
    _getTokenAddress K (tokenIdOf message) chain' = .ok r

section Lookups

variable {K : Crypto Byte} {ctx : Context Byte} {chain chain' : Chain Byte} {v : View Byte}

omit [DecidableEq Byte] in
/-- A lookup reads one entry of one table. -/
theorem getTokenAddress_congr (hlocal : chain'.localDomain = chain.localDomain)
    (hentry : chain'.canonicalToRepresentation (v.keccak K) =
      chain.canonicalToRepresentation (v.keccak K)) :
    _getTokenAddress K v chain' = _getTokenAddress K v chain := by
  rw [_getTokenAddress, _getTokenAddress, hlocal, hentry]

omit [DecidableEq Byte] in
theorem Chain.SameProviders.of_sameTables (h : chain.SameTables chain')
    (hproviders : chain'.liquidityProvider = chain.liquidityProvider) :
    chain.SameProviders K chain' := by
  refine ⟨hproviders, fun message r _ hr => ?_⟩
  rw [getTokenAddress_congr h.localDomain (congrFun h.canonicalToRepresentation _), hr]

/-- Entering a token for a token id that had none changes no other lookup. -/
theorem Chain.SameProviders.entered (ideal : Crypto.IdealHash K) {message : List Byte}
    {c : TokenId Byte} {_token : Address Byte} {t : BridgeToken Byte}
    (hmissing : _getTokenAddress K (tokenIdOf message) chain = .ok 0) :
    chain.SameProviders K
      (entered ((tokenIdOf message).keccak K) c _token (chain.setToken _token t)) := by
  refine ⟨rfl, fun message' r hr hfound => ?_⟩
  rw [← hfound]
  refine getTokenAddress_congr rfl (Function.update_of_ne (fun heq => hr ?_) _ _)
  have hview : tokenIdOf message' = tokenIdOf message :=
    congrArg (View.mk Types.TokenId.code) (ideal.injective heq)
  rw [hview, hmissing] at hfound
  exact (Except.ok.inj hfound).symm

theorem ensureToken_sameProviders (ideal : Crypto.IdealHash K) {message : List Byte}
    {_token : Address Byte} {sent : List (Dispatch Byte)}
    (h : _ensureToken K ctx (tokenIdOf message) chain = .ok (_token, chain', sent)) :
    chain.SameProviders K chain' := by
  rcases _ensureToken_eq_ok h with ⟨-, rfl, -⟩ | ⟨hmissing, hdeploy⟩
  · exact ⟨rfl, fun _ _ _ hr => hr⟩
  · obtain ⟨-, -, c, details, -, -, rfl⟩ := _deployToken_eq_ok hdeploy
    exact .entered ideal hmissing

end Lookups

/-! ### Handling a Transfer -/

section Transfers

variable {K : Crypto Byte} {ctx : Context Byte} {chain chain' : Chain Byte}
  {sent : List (Dispatch Byte)} {message : List Byte}

/-- What `circulate` does to the chain that `_ensureToken` leaves. -/
theorem credits_of_circulate {m : Moment Byte} {_token account : Address Byte} {n : ℕ}
    {providers : Bytes32 Byte → Address Byte}
    (hensure : _ensureToken K ctx (tokenIdOf message) m.before = .ok (_token, chain, sent))
    (hcirculate : circulate ctx _token account n { chain with liquidityProvider := providers } =
      .ok m.after) : m.Credits _token account n := by
  obtain ⟨t, t', hsome, hafter, hmoved⟩ := circulate_effect hcirculate
  rcases _ensureToken_eq_ok hensure with ⟨-, rfl, -⟩ | ⟨-, hdeploy⟩
  · refine ⟨t, t', .inl hsome, ?_, by rw [hafter]; rfl⟩
    rcases hmoved with ⟨-, htransfer⟩ | ⟨-, hmint⟩
    · exact .inl (BridgeToken.transferred_of_eq_ok htransfer)
    · exact .inr (BridgeToken.minted_of_mint hmint).2
  -- a token that is deployed for this Transfer is credited out of nothing
  · obtain ⟨-, hnone, c, details, -, -, rfl⟩ := _deployToken_eq_ok hdeploy
    have htoken : some { BridgeToken.init m.before.address with token := details } = some t :=
      (Chain.setToken_tokens_self _ _ _).symm.trans hsome
    have hbalances : ∀ x, t.balances x = 0 := Option.some.inj htoken ▸ fun _ => rfl
    refine ⟨t, t', .inr ⟨hnone, hbalances⟩, ?_, ?_⟩
    · rcases hmoved with ⟨-, htransfer⟩ | ⟨-, hmint⟩
      · exact .inl (BridgeToken.transferred_of_eq_ok htransfer)
      · exact .inr (BridgeToken.minted_of_mint hmint).2
    · rw [hafter]
      exact Function.update_idem ..

/-- A call that neither prefills nor handles a Transfer, nor enrolls a custom
representation, leaves the providers and the tokens found alone. -/
theorem sameProviders_of_exec {call : BridgeRouter.Call Byte}
    (h : BridgeRouter.exec K ctx call chain = .ok (chain', sent)) :
    (∃ message, call = .preFill message) ∨ (∃ d i custom, call = .enrollCustom d i custom) ∨
      (∃ origin sender message, call = .handle origin sender message ∧
        identifierOf message = Types.Transfer.code) ∨
      (∀ message, fill message ⟨chain, ctx, call, chain'⟩ = none) ∧
        chain.SameProviders K chain' := by
  cases call with
  | handle origin sender message =>
    by_cases hidentifier : identifierOf message = Types.Transfer.code
    · exact .inr (.inr (.inl ⟨origin, sender, message, rfl, hidentifier⟩))
    · obtain ⟨-, -, -, t, hhandled⟩ := handle_eq_ok.mp h
      refine .inr (.inr (.inr ⟨fun _ => if_neg fun hand => hidentifier hand.2, ?_⟩))
      cases hhandled with
      | transfer hother => exact absurd hother hidentifier
      | details _ hresult =>
        obtain ⟨-, _token, t, details, -, rfl⟩ := _handleDetails_effect hresult
        exact ⟨rfl, fun _ _ _ hr => hr⟩
      | requestDetails _ hresult =>
        obtain rfl := chain_eq_of_handleRequestDetails hresult
        exact ⟨rfl, fun _ _ _ hr => hr⟩
  | requestDetails d i =>
    obtain ⟨rfl, -⟩ := requestDetails_effect h
    exact .inr (.inr (.inr ⟨fun _ => rfl, rfl, fun _ _ _ hr => hr⟩))
  | send token amount destination recipient =>
    obtain ⟨-, t, t', -, rfl, -⟩ := send_effect h
    exact .inr (.inr (.inr ⟨fun _ => rfl, rfl, fun _ _ _ hr => hr⟩))
  | preFill message => exact .inl ⟨message, rfl⟩
  | enrollCustom d i custom => exact .inr (.inl ⟨d, i, custom, rfl⟩)
  | migrate oldRepr =>
    obtain ⟨-, -, new, t, t', u, u', -, -, -, -, -, rfl⟩ := migrate_effect h
    exact .inr (.inr (.inr ⟨fun _ => rfl, rfl, fun _ _ _ hr => hr⟩))

end Transfers

/-! ### Along a run -/

/-- A pending prefill has been paid, in the token that its Transfer would be paid in now. -/
structure Funded (K : Crypto Byte) (s : Station Byte) (message : List Byte)
    (provider : Address Byte) : Prop where
  ne_zero : provider ≠ 0
  prefilled : ∃ f _token _recipient n, Prefilled message provider s.history f ∧ _token ≠ 0 ∧
    _getTokenAddress K (tokenIdOf message) s.chain = .ok _token ∧
    BridgeMessage.evmRecipient (transferOf message) = .ok _recipient ∧
    BridgeMessage.amnt (transferOf message) = .ok n ∧
    f.Pays _token provider _recipient (_applyPreFillFee n)

/-- The invariant of fast liquidity. -/
structure Station.Fronted (K : Crypto Byte) (s : Station Byte) : Prop where
  providers : ∀ message,
    s.chain.liquidityProvider (K.keccak256 message) = (pending message s.history).getD 0
  funded : ∀ message provider, pending message s.history = some provider →
    Funded K s message provider
  settled : Log.Grounded (Settled K) s.history

section Runs

variable {K : Crypto Byte} {s : Station Byte} {ctx : Context Byte} {chain chain' : Chain Byte}
  {sent : List (Dispatch Byte)} {message : List Byte} {provider : Address Byte}

theorem Funded.of_sameProviders (h : Funded K s message provider)
    (hsame : s.chain.SameProviders K chain') : Funded K ⟨chain', s.history⟩ message provider := by
  obtain ⟨f, _token, _recipient, n, hf, hne, hlookup, hrest⟩ := h.prefilled
  exact ⟨h.ne_zero, f, _token, _recipient, n, hf, hne, hsame.lookups _ _ hne hlookup, hrest⟩

/-- A call that does not concern the message. -/
theorem Funded.concat {m : Moment Byte} (h : Funded K s message provider)
    (hm : fill message m = none) : Funded K ⟨s.chain, s.history ++ [m]⟩ message provider := by
  obtain ⟨f, _token, _recipient, n, hf, hrest⟩ := h.prefilled
  exact ⟨h.ne_zero, f, _token, _recipient, n, hf.concat hm, hrest⟩

/-- A change of the chain without a call of the router. -/
theorem Station.Fronted.of_sameProviders (h : s.Fronted K)
    (hsame : s.chain.SameProviders K chain') : Station.Fronted K ⟨chain', s.history⟩ where
  providers message := (congrFun hsame.providers _).trans (h.providers message)
  funded message provider hpending := (h.funded message provider hpending).of_sameProviders hsame
  settled := h.settled

/-- A call that neither prefills nor handles a Transfer. -/
theorem Station.Fronted.other (h : s.Fronted K) {m : Moment Byte}
    (hm : ∀ message, fill message m = none) (hsame : s.chain.SameProviders K chain')
    (hsettled : Settled K s.history m) : Station.Fronted K ⟨chain', s.history ++ [m]⟩ where
  providers message := by
    rw [pending_concat_of_none (hm message)]
    exact (congrFun hsame.providers _).trans (h.providers message)
  funded message provider hpending := by
    rw [pending_concat_of_none (hm message)] at hpending
    exact ((h.funded message provider hpending).of_sameProviders hsame).concat (hm message)
  settled := h.settled.concat hsettled

/-- Who is pending after a call that fills one message was put there by it, or was
pending for another message before. -/
theorem pending_concat_cases {history : List (Moment Byte)} {m : Moment Byte}
    {answer : Option (Address Byte)} (hself : fill message m = some answer)
    (hother : ∀ message', message ≠ message' → fill message' m = none) {message' : List Byte}
    (h : pending message' (history ++ [m]) = some provider) :
    message = message' ∧ answer = some provider ∨
      fill message' m = none ∧ pending message' history = some provider := by
  by_cases hmessage : message = message'
  · subst hmessage
    rw [pending_concat_of_some hself] at h
    exact .inl ⟨rfl, h⟩
  · rw [pending_concat_of_none (hother _ hmessage)] at h
    exact .inr ⟨hother _ hmessage, h⟩

/-- A call that writes the provider of one message, as it fills that message. -/
theorem providers_concat (ideal : Crypto.IdealHash K) {history : List (Moment Byte)}
    {m : Moment Byte} {answer : Option (Address Byte)}
    (h : ∀ message,
      chain.liquidityProvider (K.keccak256 message) = (pending message history).getD 0)
    (hself : fill message m = some answer)
    (hother : ∀ message', message ≠ message' → fill message' m = none)
    (hchain : chain'.liquidityProvider =
      Function.update chain.liquidityProvider (K.keccak256 message) (answer.getD 0))
    (message' : List Byte) :
    chain'.liquidityProvider (K.keccak256 message') =
      (pending message' (history ++ [m])).getD 0 := by
  rw [hchain]
  by_cases hmessage : message = message'
  · subst hmessage
    rw [pending_concat_of_some hself]
    exact Function.update_self ..
  · rw [pending_concat_of_none (hother _ hmessage), ← h message']
    exact Function.update_of_ne (fun heq => hmessage (ideal.injective heq).symm) _ _

/-- A prefill. -/
theorem Station.Fronted.preFill (ideal : Crypto.IdealHash K) (h : s.Fronted K) {m : Moment Byte}
    (hm : m = ⟨s.chain, ctx, .preFill message, chain'⟩)
    (hexec : BridgeRouter.preFill K ctx message s.chain = .ok (chain', sent)) :
    Station.Fronted K ⟨chain', s.history ++ [m]⟩ := by
  obtain ⟨-, hunfilled, _token, _recipient, n, t, t', hne, hlookup, hrecipient, hamnt, hsome, hpay,
    hchain⟩ := preFill_eq_ok hexec
  obtain ⟨t₁, htransferred, -, happroved⟩ := BridgeToken.transferFrom_eq_ok hpay
  have hcall : m.call = .preFill message := hm ▸ rfl
  have hself : fill message m = some (some ctx.sender) := by
    rw [fill_preFill hcall, if_pos rfl, hm]
  have hother : ∀ message', message ≠ message' → fill message' m = none := fun message' hne => by
    rw [fill_preFill hcall, if_neg hne]
  -- nobody can send from account 0, so the provider is somebody
  have hsender : ctx.sender ≠ 0 := by
    obtain ⟨_, htransfer, -⟩ := bind_eq_ok.mp hpay
    exact (require_bind_eq_ok.mp htransfer).1
  have hpending : pending message s.history = none := by
    cases hp : pending message s.history with
    | none => rfl
    | some p =>
      -- the invariant would put the provider where the call found nobody
      have hprovider := h.providers message
      rw [hp, hunfilled] at hprovider
      exact absurd hprovider.symm (h.funded message p hp).ne_zero
  constructor
  case providers =>
    refine providers_concat ideal h.providers hself hother ?_
    rw [hchain]
    rfl
  case funded =>
    intro message' provider hprovider
    rcases pending_concat_cases hself hother hprovider with ⟨rfl, hfilled⟩ | ⟨hnone, hbefore⟩
    · obtain rfl := Option.some.inj hfilled
      have hpays : m.Pays _token ctx.sender _recipient (_applyPreFillFee n) := by
        rw [hm]
        exact ⟨t, t₁, t', hsome, htransferred, happroved.balances_eq, hchain ▸ rfl⟩
      have hprefilled : Prefilled message ctx.sender (s.history ++ [m]) m :=
        ⟨hcall, hm ▸ rfl, s.history, [], rfl, by simp⟩
      exact ⟨hsender, m, _token, _recipient, n, hprefilled, hne, hchain ▸ hlookup, hrecipient,
        hamnt, hpays⟩
    · obtain ⟨hp, f, r, a, k, hf, hrest⟩ := (h.funded message' provider hbefore).concat hnone
      exact ⟨hp, f, r, a, k, hf, hchain ▸ hrest⟩
  case settled =>
    refine h.settled.concat ⟨fun origin sender body hhandle => ?_, fun message' hfill => ?_⟩
    · cases hcall.symm.trans hhandle
    · obtain rfl := BridgeRouter.Call.preFill.inj (hcall.symm.trans hfill)
      exact hpending

/-- A handled Transfer. -/
theorem Station.Fronted.handle (ideal : Crypto.IdealHash K) (h : s.Fronted K) {m : Moment Byte}
    {origin : UInt32} {sender : Bytes32 Byte}
    (hm : m = ⟨s.chain, ctx, .handle origin sender message, chain'⟩)
    (hidentifier : identifierOf message = Types.Transfer.code)
    (hexec : BridgeRouter.handle K ctx origin sender message s.chain = .ok (chain', sent)) :
    Station.Fronted K ⟨chain', s.history ++ [m]⟩ := by
  obtain ⟨-, _token, chain₁, _recipient, n, hensure, hrecipient, hamnt, hcirculate⟩ :=
    (handle_transfer_eq_ok hidentifier).mp hexec
  have hsame := ensureToken_sameProviders ideal hensure
  have hcall : m.call = .handle origin sender message := hm ▸ rfl
  have hself : fill message m = some none := by
    rw [fill_handle hcall, if_pos ⟨rfl, hidentifier⟩]
  have hother : ∀ message', message ≠ message' → fill message' m = none := fun message' hne => by
    rw [fill_handle hcall, if_neg fun hand => hne hand.1]
  obtain ⟨t, t', -, hchain, -⟩ := circulate_effect hcirculate
  -- the entry of the table is the pending provider, and 0 stands for none
  have haccount : (if chain₁.liquidityProvider (K.keccak256 message) = 0 then _recipient
      else chain₁.liquidityProvider (K.keccak256 message)) =
        (pending message s.history).getD _recipient := by
    rw [hsame.providers, h.providers message]
    cases hp : pending message s.history with
    | none => exact if_pos rfl
    | some p => exact if_neg (h.funded message p hp).ne_zero
  constructor
  case providers =>
    refine providers_concat ideal h.providers hself hother ?_
    rw [hchain, ← hsame.providers]
    rfl
  case funded =>
    intro message' provider hprovider
    rcases pending_concat_cases hself hother hprovider with ⟨rfl, hfilled⟩ | ⟨hnone, hbefore⟩
    · cases hfilled
    · -- the token that a later Transfer finds does not change when this one is paid
      have hmoved : s.chain.SameProviders K { chain' with
          liquidityProvider := s.chain.liquidityProvider } :=
        ⟨rfl, fun body r hr hlookup => hchain ▸ hsame.lookups body r hr hlookup⟩
      obtain ⟨hp, f, r, a, k, hf, hrest⟩ :=
        ((h.funded message' provider hbefore).of_sameProviders hmoved).concat hnone
      exact ⟨hp, f, r, a, k, hf, hrest⟩
  case settled =>
    refine h.settled.concat ⟨fun origin' sender' message' hhandle _ => ?_, fun body hfill => ?_⟩
    · obtain ⟨-, -, rfl⟩ := BridgeRouter.Call.handle.inj (hcall.symm.trans hhandle)
      refine ⟨_token, _recipient, n, ⟨chain₁, sent, hm ▸ hensure⟩, hrecipient, hamnt, ?_, ?_⟩
      · rw [← haccount, hm]
        exact credits_of_circulate hensure hcirculate
      · intro provider hprovider hsmall
        obtain ⟨-, f, found, a, k, hf, hne, hlookup, ha, hk, hpays⟩ :=
          h.funded message provider hprovider
        obtain rfl := Except.ok.inj (ha.symm.trans hrecipient)
        obtain rfl := Except.ok.inj (hk.symm.trans hamnt)
        -- the token that was paid is still the one to be found
        have htoken : found = _token := by
          rcases _ensureToken_eq_ok hensure with ⟨-, -, hfound⟩ | ⟨hmissing, -⟩
          · exact Except.ok.inj (hlookup.symm.trans hfound)
          · exact absurd (Except.ok.inj (hlookup.symm.trans hmissing)) hne
        have hfee : _applyPreFillFee k = k * 9995 / 10000 :=
          congrArg (· / 10000) (Nat.mod_eq_of_lt hsmall)
        exact ⟨f, hf, hfee ▸ htoken ▸ hpays⟩
    · cases hcall.symm.trans hfill

/-- A call of the router. -/
theorem Station.Fronted.exec (ideal : Crypto.IdealHash K) (h : s.Fronted K)
    {call : BridgeRouter.Call Byte} (hcustom : s.NoCustom (.call ctx call))
    (hexec : BridgeRouter.exec K ctx call s.chain = .ok (chain', sent)) :
    Station.Fronted K ⟨chain', s.history ++ [⟨s.chain, ctx, call, chain'⟩]⟩ := by
  rcases sameProviders_of_exec hexec with ⟨message, rfl⟩ | ⟨d, i, custom, rfl⟩ |
    ⟨origin, sender, message, rfl, hidentifier⟩ | ⟨hfill, hsame⟩
  · exact h.preFill ideal rfl hexec
  · exact hcustom.elim
  · exact h.handle ideal rfl hidentifier hexec
  -- what fills no message is neither a Transfer nor a prefill
  · refine h.other hfill hsame ⟨fun origin sender message hcall hidentifier => ?_, ?_⟩
    · have hnone := (fill_handle hcall).symm.trans (hfill message)
      rw [if_pos ⟨rfl, hidentifier⟩] at hnone
      cases hnone
    · intro message hcall
      have hnone := (fill_preFill hcall).symm.trans (hfill message)
      rw [if_pos rfl] at hnone
      cases hnone

/-- **Fast liquidity.** Every handled Transfer credits its amount to the provider of the
pending prefill with the same bytes, who has paid the recipient, or else to the recipient;
and nobody prefills a message again while a prefill of it is pending. -/
theorem fast_liquidity (ideal : Crypto.IdealHash K)
    (h : ((Station.system K Chain.Unfilled).restrict Station.NoCustom).Reachable s) :
    Log.Grounded (Settled K) s.history := by
  suffices hfronted : s.Fronted K from hfronted.settled
  refine h.invariant ?_ ?_
  · rintro s ⟨hunfilled, hnil⟩
    constructor
    case providers =>
      intro message
      rw [hnil, hunfilled]
      rfl
    case funded =>
      intro message provider hpending
      rw [hnil] at hpending
      cases hpending
    case settled => exact hnil ▸ Log.Grounded.nil
  · rintro s label t - hs ⟨hstep, hcustom⟩
    cases hstep with
    | call ctx call _ hcall =>
      refine callStep_cases (P := fun _ t : Station Byte => t.Fronted K) hcall (fun t hok => ?_) hs
      obtain ⟨chain', sent, hexec, rfl⟩ := Station.callRouter_eq_ok hok
      exact hs.exec ideal hcustom hexec
    | token sender token call _ hcall =>
      refine callStep_cases (P := fun _ t : Station Byte => t.Fronted K) hcall (fun t hok => ?_) hs
      obtain ⟨u, u', -, -, rfl⟩ := Station.callTokenOf_eq_ok hok
      exact hs.of_sameProviders ⟨rfl, fun _ _ _ hr => hr⟩
    | launch sender token => exact hs.of_sameProviders ⟨rfl, fun _ _ _ hr => hr⟩
    | configure owner remotes => exact hs.of_sameProviders ⟨rfl, fun _ _ _ hr => hr⟩

end Runs

/-! ### A sample run

Account 3 prefills a Transfer of 2 units to account 6, which costs 1 unit, and the Transfer
is handled out of the escrow of the router of domain 1. -/

section Sample

/-- A token of which the router has 2 units in escrow, and a provider 1 unit. -/
def sampleEscrow : BridgeToken ℕ :=
  { BridgeToken.init (sampleAddress 3) with
    balances := fun x => if x = sampleAddress 1 then 2 else if x = sampleAddress 3 then 1 else 0
    allowances := fun x y => if x = sampleAddress 3 ∧ y = sampleAddress 1 then 1 else 0
    supply := 3 }

/-- The token after the provider has paid. -/
def samplePaid : BridgeToken ℕ :=
  match BridgeToken.transferFrom (sampleAddress 1) (sampleAddress 3) (sampleAddress 6) 1
    sampleEscrow with
  | .ok t => t
  | .error _ => sampleEscrow

def sampleMarket : Chain ℕ := (sampleChain 1).setToken (sampleAddress 4) sampleEscrow

def sampleTransfer : List ℕ :=
  message ⟨1, addressToBytes32 (sampleAddress 4)⟩ (.transfer (addressToBytes32 (sampleAddress 6)) 2)

def sampleReplica : Context ℕ := { sampleContext with isReplica := true }

/-- The chain after the prefill. -/
def sampleFilled : Chain ℕ :=
  Chain.setToken (sampleAddress 4) samplePaid { sampleMarket with
    liquidityProvider := Function.update sampleMarket.liquidityProvider
      (sampleCrypto.keccak256 sampleTransfer) sampleContext.sender }

def samplePrefill : Moment ℕ := ⟨sampleMarket, sampleContext, .preFill sampleTransfer, sampleFilled⟩

theorem sampleFilled_liquidityProvider : sampleFilled.liquidityProvider =
    Function.update sampleMarket.liquidityProvider (sampleCrypto.keccak256 sampleTransfer)
      (sampleAddress 3) := rfl

theorem validLength_sampleTransfer : ValidLength sampleTransfer := by decide

theorem preFillId_sampleTransfer :
    _preFillId sampleCrypto (tokenIdOf sampleTransfer) (transferOf sampleTransfer) =
      sampleCrypto.keccak256 sampleTransfer := _preFillId_of _ _

theorem preFill_sampleMarket :
    BridgeRouter.preFill sampleCrypto sampleContext sampleTransfer sampleMarket =
      .ok (sampleFilled, []) := by
  have hlength := validLength_sampleTransfer
  have htransfer : mustBeTransfer (actionOf sampleTransfer) = .ok (transferOf sampleTransfer) :=
    (mustBeTransfer_eq_ok hlength).mpr ⟨by decide, rfl⟩
  have hunfilled : sampleMarket.liquidityProvider (sampleCrypto.keccak256 sampleTransfer) = 0 := rfl
  rw [BridgeRouter.preFill, mustBeMessage_of hlength, ok_bind, tokenId_of hlength, ok_bind,
    mustBeTokenId_of hlength, ok_bind, action_of hlength, ok_bind, htransfer, ok_bind]
  simp only [preFillId_sampleTransfer, require_of hunfilled, ok_bind]
  rfl

theorem handle_sampleFilled : ∃ chain,
    BridgeRouter.handle sampleCrypto sampleReplica 2 (addressToBytes32 (sampleAddress 2))
      sampleTransfer sampleFilled = .ok (chain, []) := by
  have hidentifier : identifierOf sampleTransfer = Types.Transfer.code := by decide
  have hensure : _ensureToken sampleCrypto sampleReplica (tokenIdOf sampleTransfer) sampleFilled =
      .ok (sampleAddress 4, sampleFilled, []) := rfl
  have hrecipient : BridgeMessage.evmRecipient (transferOf sampleTransfer) =
      .ok (sampleAddress 6) := rfl
  have hamnt : BridgeMessage.amnt (transferOf sampleTransfer) = .ok 2 := rfl
  have hprovider : sampleFilled.liquidityProvider (sampleCrypto.keccak256 sampleTransfer) =
      sampleAddress 3 := by
    rw [sampleFilled_liquidityProvider, Function.update_self]
  have hcirculate : ∀ providers, ∃ chain, circulate sampleReplica (sampleAddress 4)
      (sampleAddress 3) 2 { sampleFilled with liquidityProvider := providers } = .ok chain :=
    fun _ => ⟨_, rfl⟩
  obtain ⟨chain, hcirculate⟩ := hcirculate (Function.update sampleFilled.liquidityProvider
    (sampleCrypto.keccak256 sampleTransfer) 0)
  refine ⟨chain, (handle_transfer_eq_ok hidentifier).mpr
    ⟨⟨rfl, rfl, validLength_sampleTransfer⟩, _, _, _, _, hensure, hrecipient, hamnt, ?_⟩⟩
  rw [hprovider, if_neg (by decide), hcirculate]

/-- The Transfer is handled after the prefill, which was pending. -/
theorem fast_liquidity_sample :
    ∃ m : Moment ℕ, m.call = .handle 2 (addressToBytes32 (sampleAddress 2)) sampleTransfer ∧
      pending sampleTransfer [samplePrefill] = some (sampleAddress 3) ∧
      Crypto.IdealHash sampleCrypto ∧
      ((Station.system sampleCrypto Chain.Unfilled).restrict Station.NoCustom).Reachable
        ⟨m.after, [samplePrefill, m]⟩ ∧
      Log.Grounded (Settled sampleCrypto) [samplePrefill, m] := by
  obtain ⟨chain, hhandle⟩ := handle_sampleFilled
  let m : Moment ℕ := ⟨sampleFilled, sampleReplica,
    .handle 2 (addressToBytes32 (sampleAddress 2)) sampleTransfer, chain⟩
  have hstart : ((Station.system sampleCrypto Chain.Unfilled).restrict Station.NoCustom).Reachable
      ⟨sampleMarket, []⟩ := System.reachable_init ⟨fun _ => rfl, rfl⟩
  have hprefill : Station.Step sampleCrypto ⟨sampleMarket, []⟩
      (.call sampleContext (.preFill sampleTransfer)) ⟨sampleFilled, [samplePrefill]⟩ := by
    refine .call _ _ _ (.inl ?_)
    change (BridgeRouter.preFill sampleCrypto sampleContext sampleTransfer sampleMarket >>= _) = _
    rw [preFill_sampleMarket]
    rfl
  have htransfer : Station.Step sampleCrypto ⟨sampleFilled, [samplePrefill]⟩
      (.call sampleReplica (.handle 2 (addressToBytes32 (sampleAddress 2)) sampleTransfer))
      ⟨chain, [samplePrefill, m]⟩ := by
    refine .call _ _ _ (.inl ?_)
    change (BridgeRouter.handle sampleCrypto sampleReplica 2 _ sampleTransfer sampleFilled >>=
      _) = _
    rw [hhandle]
    rfl
  have hhandled := (hstart.step ⟨hprefill, trivial⟩).step ⟨htransfer, trivial⟩
  exact ⟨m, rfl, rfl, Crypto.withIdealHash_ideal _, hhandled,
    fast_liquidity (Crypto.withIdealHash_ideal _) hhandled⟩

end Sample

end Optics.Bridge
