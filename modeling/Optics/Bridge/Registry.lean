/-
# Both tables of the registry

The registry answers in both directions: which token represents a token id, and which
token id a token represents. `_deployToken` writes the two tables for a token that did not
exist before, while `enrollCustom` writes them for any token and any token id. The tables
agree as long as no token is enrolled that represents another token id already, and nothing
is entered under domain 0 or under the chain's own domain.
-/

import Optics.Bridge.Backing
import Optics.Bridge.RouterRuns

namespace Optics.Bridge

open Optics.Solidity Optics.TokenRegistry Optics.BridgeMessage Optics.Math.Transition

variable {Byte : Type} [ByteAlphabet Byte]

/-- A chain before anything is registered. -/
structure Chain.Unregistered (chain : Chain Byte) : Prop where
  representationToCanonical : ∀ r, chain.representationToCanonical r = unregistered
  canonicalToRepresentation : ∀ hash, chain.canonicalToRepresentation hash = 0
  zero : chain.tokens 0 = none

/-- The tables agree: a token id and its representation lead to each other, tokens of local
origin are in neither table, and `_tokenIdFor` takes `_getTokenAddress` back. -/
structure Chain.Consistent (K : Crypto Byte) (chain : Chain Byte) : Prop where
  representation : ∀ c, chain.canonicalToRepresentation (idHash K c) ≠ 0 →
    chain.representationToCanonical (chain.canonicalToRepresentation (idHash K c)) = c ∧
      c.domain ≠ 0 ∧ c.domain ≠ chain.localDomain
  localOrigin : ∀ r, _isLocalOrigin r chain = true →
    chain.representationToCanonical r = unregistered ∧
      ∀ hash, chain.canonicalToRepresentation hash ≠ r
  tokenIdFor : ∀ c r, c.domain ≠ chain.localDomain → _getTokenAddress K (view c) chain = .ok r →
    r ≠ 0 → _tokenIdFor r chain = c

/-- The invariant behind it. -/
structure Chain.Registered (K : Crypto Byte) (chain : Chain Byte) : Prop where
  zero : chain.tokens 0 = none
  code : ∀ hash, chain.canonicalToRepresentation hash ≠ 0 →
    (chain.tokens (chain.canonicalToRepresentation hash)).isSome = true
  lookup : ∀ c, chain.canonicalToRepresentation (idHash K c) ≠ 0 →
    chain.representationToCanonical (chain.canonicalToRepresentation (idHash K c)) = c
  listed : ∀ hash, chain.canonicalToRepresentation hash ≠ 0 →
    chain.representationToCanonical (chain.canonicalToRepresentation hash) ≠ unregistered
  remote : ∀ r, chain.representationToCanonical r ≠ unregistered →
    (chain.representationToCanonical r).domain ≠ 0 ∧
      (chain.representationToCanonical r).domain ≠ chain.localDomain

/-- A token id under which nothing may be entered: nobody has a token for it on this chain,
and it is not of a remote domain. -/
def Chain.Unenterable (c : TokenId Byte) (chain : Chain Byte) : Prop :=
  (c.domain = chain.localDomain ∧ bytes32ToAddress c.id = 0) ∨
    (c.domain = 0 ∧ c.domain ≠ chain.localDomain)

/-- The owner enrolls a token for a token id of a remote domain only, and none that
represents another token id at the time. No Transfer is handled that would deploy a token
for domain 0 or for the chain's own domain; one for domain 0 with an amount fails anyway. -/
def Station.Careful (K : Crypto Byte) (s : Station Byte) : Label Byte → Prop
  | .call ctx (.enrollCustom d i custom) => ctx.sender = s.chain.owner →
    d ≠ 0 ∧ d ≠ s.chain.localDomain ∧
      ∀ c ≠ ⟨d, i⟩, s.chain.canonicalToRepresentation (idHash K c) ≠ custom
  | .call ctx (.handle origin sender message) => ctx.isReplica = true →
    s.chain.remotes origin = sender → ∀ c n, readTransfer message = .ok (c, n) →
      s.chain.Unenterable c → c.domain = 0 ∧ n ≠ 0
  | _ => True

namespace Chain.Registered

variable {K : Crypto Byte} {chain chain' : Chain Byte} {c : TokenId Byte} {r : Address Byte}

theorem of_unregistered (h : chain.Unregistered) : chain.Registered K where
  zero := h.zero
  code hash hne := absurd (h.canonicalToRepresentation hash) hne
  lookup _ hne := absurd (h.canonicalToRepresentation _) hne
  listed hash hne := absurd (h.canonicalToRepresentation hash) hne
  remote r hne := absurd (h.representationToCanonical r) hne

theorem of_sameTables (h : chain.Registered K) (hsame : chain.SameTables chain') :
    chain'.Registered K := by
  obtain ⟨hlocal, hrepr, hcanonical, htokens, hzero⟩ := hsame
  constructor
  case zero => exact hzero h.zero
  case code => exact fun hash hne => hcanonical ▸ htokens _ (h.code hash (hcanonical ▸ hne))
  case lookup =>
    rw [hcanonical, hrepr]
    exact h.lookup
  case listed =>
    rw [hcanonical, hrepr]
    exact h.listed
  case remote =>
    rw [hrepr, hlocal]
    exact h.remote

/-- **A new entry.** What is entered for a remote token id leads back to it, if the token
represents nothing else and the hash stands for no other token id. -/
theorem entered [DecidableEq Byte] (h : chain.Registered K) {hash : Bytes32 Byte}
    (htoken : (chain.tokens r).isSome = true) (hdomain : c.domain ≠ 0)
    (hlocal : c.domain ≠ chain.localDomain) (hhash : ∀ c', idHash K c' = hash → c' = c)
    (hother : ∀ c' ≠ c, chain.canonicalToRepresentation (idHash K c') ≠ r) :
    (BridgeRouter.entered hash c r chain).Registered K := by
  have hc : c ≠ unregistered := by
    rintro rfl
    exact hdomain rfl
  constructor
  case zero => exact h.zero
  case code =>
    intro hash' hne
    change Function.update chain.canonicalToRepresentation hash r hash' ≠ 0 at hne
    change (chain.tokens (Function.update chain.canonicalToRepresentation hash r hash')).isSome = _
    by_cases hself : hash' = hash
    · rwa [hself, Function.update_self]
    · rw [Function.update_of_ne hself] at hne ⊢
      exact h.code hash' hne
  case lookup =>
    intro c' hne
    change Function.update chain.canonicalToRepresentation hash r (idHash K c') ≠ 0 at hne
    change Function.update chain.representationToCanonical r c
      (Function.update chain.canonicalToRepresentation hash r (idHash K c')) = c'
    by_cases hself : idHash K c' = hash
    · rw [hself, Function.update_self, Function.update_self, hhash c' hself]
    · rw [Function.update_of_ne hself] at hne ⊢
      -- another token id that leads to the new token would now be led back to the wrong id
      by_cases hval : chain.canonicalToRepresentation (idHash K c') = r
      · rw [hval, Function.update_self]
        by_contra hcc
        exact hother c' (Ne.symm hcc) hval
      · rw [Function.update_of_ne hval, h.lookup c' hne]
  case listed =>
    intro hash' hne
    change Function.update chain.canonicalToRepresentation hash r hash' ≠ 0 at hne
    change Function.update chain.representationToCanonical r c
      (Function.update chain.canonicalToRepresentation hash r hash') ≠ unregistered
    by_cases hself : hash' = hash
    · rwa [hself, Function.update_self, Function.update_self]
    · rw [Function.update_of_ne hself] at hne ⊢
      by_cases hval : chain.canonicalToRepresentation hash' = r
      · rwa [hval, Function.update_self]
      · rw [Function.update_of_ne hval]
        exact h.listed hash' hne
  case remote =>
    intro r' hne
    change Function.update chain.representationToCanonical r c r' ≠ unregistered at hne
    change (Function.update chain.representationToCanonical r c r').domain ≠ 0 ∧
      (Function.update chain.representationToCanonical r c r').domain ≠ chain.localDomain
    by_cases hself : r' = r
    · rw [hself, Function.update_self]
      exact ⟨hdomain, hlocal⟩
    · rw [Function.update_of_ne hself] at hne ⊢
      exact h.remote r' hne

/-- What the tables promise to those who look something up. -/
theorem consistent (h : chain.Registered K) : chain.Consistent K := by
  have hrepresentation : ∀ c, chain.canonicalToRepresentation (idHash K c) ≠ 0 →
      chain.representationToCanonical (chain.canonicalToRepresentation (idHash K c)) = c ∧
        c.domain ≠ 0 ∧ c.domain ≠ chain.localDomain := by
    intro c hne
    have hlookup := h.lookup c hne
    have hremote := h.remote _ (h.listed _ hne)
    rw [hlookup] at hremote
    exact ⟨hlookup, hremote⟩
  constructor
  case representation => exact hrepresentation
  case localOrigin =>
    intro r hlocal
    obtain ⟨hdomain, t, htoken⟩ := isLocalOrigin_iff.mp hlocal
    -- domain 0 marks what is not in the table, and no entry has it
    have hunregistered : chain.representationToCanonical r = unregistered := by
      by_contra hne
      exact (h.remote r hne).1 hdomain
    refine ⟨hunregistered, fun hash heq => ?_⟩
    -- The address 0 has no code, so the entry would be one of a token.
    have hne : chain.canonicalToRepresentation hash ≠ 0 := by
      rw [heq]
      rintro rfl
      cases h.zero.symm.trans htoken
    exact h.listed hash hne (heq ▸ hunregistered)
  case tokenIdFor =>
    intro c r hdomain hlookup hr
    rw [_getTokenAddress_view, if_neg hdomain] at hlookup
    obtain rfl := Except.ok.inj hlookup
    obtain ⟨hc, hzero, -⟩ := hrepresentation c hr
    simp only [_tokenIdFor, hc, if_neg hzero]

end Chain.Registered

/-! ### Along a run -/

section Runs

variable {K : Crypto Byte} {chain chain' : Chain Byte} {c : TokenId Byte}

/-- The address of a token id is part of its id. -/
theorem evmId_eq {_tokenId : View Byte} {i : Bytes32 Byte} {a : Address Byte}
    (hid : BridgeMessage.id _tokenId = .ok i) (hevm : BridgeMessage.evmId _tokenId = .ok a) :
    a = bytes32ToAddress i := by
  obtain ⟨-, hid⟩ := typeAssert_bind_eq_ok.mp hid
  obtain ⟨-, hevm⟩ := typeAssert_bind_eq_ok.mp hevm
  apply List.Vector.eq
  rw [(View.toList_of_indexAddress hevm).2, bytes32ToAddress, toList_drop,
    (View.toList_of_index hid).2, List.drop_take, List.drop_drop]

/-- The bytes of a message tell its token id. -/
theorem eq_of_idHash_eq (ideal : Crypto.IdealHash K) {_message : List Byte} {c' : TokenId Byte}
    (hdomain : BridgeMessage.domain (tokenIdOf _message) = .ok c.domain)
    (hid : BridgeMessage.id (tokenIdOf _message) = .ok c.id)
    (h : idHash K c' = (tokenIdOf _message).keccak K) : c' = c := by
  have hview : tokenIdOf _message = view c' := by
    -- the hash is that of the 36 bytes of the token id
    have hbytes : (view c').bytes = (tokenIdOf _message).bytes := ideal.injective h
    exact congrArg (View.mk Types.TokenId.code) hbytes.symm
  rw [hview, view, domain_tokenIdView] at hdomain
  rw [hview, view, id_tokenIdView] at hid
  cases c
  cases c'
  rw [TokenId.mk.injEq]
  exact ⟨Except.ok.inj hdomain, Except.ok.inj hid⟩

variable [DecidableEq Byte]

/-- A token is deployed for a token id that cannot be entered only by a Transfer that says
so. -/
theorem deployed_unenterable {_message : List Byte} {n : ℕ} {_token : Address Byte}
    (h : BridgeRouter.Deployed K _message c n _token chain chain')
    (hdomain : c.domain = 0 ∨ c.domain = chain.localDomain) : chain.Unenterable c := by
  -- a token id of the local domain is looked up by its address part, which was 0
  by_cases hlocal : c.domain = chain.localDomain
  · refine .inl ⟨hlocal, ?_⟩
    have hmissing := h.missing
    rw [_getTokenAddress, h.domain, ok_bind, if_pos hlocal] at hmissing
    exact (evmId_eq h.id hmissing).symm
  · exact .inr ⟨hdomain.resolve_right hlocal, hlocal⟩

theorem Chain.Registered.deployed (ideal : Crypto.IdealHash K) (h : chain.Registered K)
    {_message : List Byte} {n : ℕ} {_token : Address Byte}
    (hdeployed : BridgeRouter.Deployed K _message c n _token chain chain')
    (hcareful : chain.Unenterable c → c.domain = 0 ∧ n ≠ 0) : chain'.Registered K := by
  -- for domain 0 the new token would pass for a local one, and could pay nothing out
  have hremote : ¬ (c.domain = 0 ∨ c.domain = chain.localDomain) := by
    intro hdomain
    obtain ⟨hzero, hn⟩ := hcareful (deployed_unenterable hdeployed hdomain)
    exact hn (hdeployed.paid hzero)
  obtain ⟨hzero, hlocal⟩ := not_or.mp hremote
  obtain ⟨t, htables⟩ := hdeployed.tables
  have hadded : (chain.setToken _token t).Registered K :=
    h.of_sameTables (.addToken hdeployed.ne_zero)
  refine (hadded.entered (r := _token) ?_ hzero hlocal ?_ ?_).of_sameTables htables
  · rw [Chain.setToken_tokens_self]
    rfl
  · exact fun c' hhash => eq_of_idHash_eq ideal hdeployed.domain hdeployed.id hhash
  · -- what is in the table has code, and the new token had none
    intro c' _ hval
    have hne : chain.canonicalToRepresentation (idHash K c') ≠ 0 := hval ▸ hdeployed.ne_zero
    have hcode := h.code _ hne
    have hval : chain.canonicalToRepresentation (idHash K c') = _token := hval
    rw [hval, hdeployed.fresh] at hcode
    cases hcode

theorem Chain.Registered.exec (ideal : Crypto.IdealHash K) {s : Station Byte} {ctx : Context Byte}
    {call : BridgeRouter.Call Byte} {sent : List (BridgeRouter.Dispatch Byte)}
    (h : s.chain.Registered K) (hcareful : s.Careful K (.call ctx call))
    (hexec : BridgeRouter.exec K ctx call s.chain = .ok (chain', sent)) : chain'.Registered K := by
  rcases BridgeRouter.tables_of_exec hexec with hsame | hcustom | hhandle
  · exact h.of_sameTables hsame
  · obtain ⟨d, i, custom, t, rfl, htoken, rfl⟩ := hcustom
    obtain ⟨howner, -⟩ := require_bind_eq_ok.mp hexec
    -- `enrollCustom` checks nothing about the token id, so the owner has to
    obtain ⟨hzero, hlocal, hother⟩ := hcareful howner
    obtain ⟨t₀, htoken⟩ := Option.isSome_iff_exists.mp htoken
    refine (h.of_sameTables (.setToken htoken)).entered ?_ hzero hlocal ?_ hother
    · rw [Chain.setToken_tokens_self]
      rfl
    · exact fun c' hhash => idHash_injective ideal hhash
  · obtain ⟨origin, sender, message, c, n, token, rfl, hdeployed⟩ := hhandle
    obtain ⟨hreplica, hremote, -⟩ := BridgeRouter.handle_eq_ok.mp hexec
    exact h.deployed ideal hdeployed (hcareful hreplica hremote c n hdeployed.reads)

/-- **The tables agree.** On a router that starts without entries they do in every run in
which the owner and the messages are careful. -/
theorem registry_consistent (ideal : Crypto.IdealHash K) {s : Station Byte}
    (h : ((Station.system K Chain.Unregistered).restrict (Station.Careful K)).Reachable s) :
    s.chain.Consistent K := by
  suffices hregistered : s.chain.Registered K from hregistered.consistent
  refine h.invariant (P := fun s : Station Byte => s.chain.Registered K) ?_ ?_
  · exact fun s hinit => .of_unregistered hinit.1
  · rintro s label t - hs ⟨hstep, hcareful⟩
    cases hstep with
    | call ctx call _ hcall =>
      refine callStep_cases (P := fun _ t : Station Byte => t.chain.Registered K) hcall
        (fun t hok => ?_) hs
      obtain ⟨chain', sent, hexec, rfl⟩ := Station.callRouter_eq_ok hok
      exact hs.exec ideal hcareful hexec
    | token sender token call _ hcall =>
      refine callStep_cases (P := fun _ t : Station Byte => t.chain.Registered K) hcall
        (fun t hok => ?_) hs
      obtain ⟨u, u', hsome, -, rfl⟩ := Station.callTokenOf_eq_ok hok
      exact hs.of_sameTables (.setToken hsome)
    | launch sender token hzero => exact hs.of_sameTables (.addToken hzero)
    | configure owner remotes => exact ⟨hs.zero, hs.code, hs.lookup, hs.listed, hs.remote⟩

end Runs

/-! ### Sample runs

Account 3 launches a token at address 4 and hands it to the router of domain 1, and the
owner of the router enrolls it for tokens of domain 2. -/

section Sample

variable {K : Crypto ℕ} {custom : Address ℕ} {s : Station ℕ}

def sampleStation : Station ℕ := ⟨{ sampleChain 1 with owner := sampleAddress 5 }, []⟩

def sampleOwner : Context ℕ := { sampleContext with sender := sampleAddress 5 }

def sampleToken : BridgeToken ℕ := .init (sampleAddress 1)

/-- One unit minted and burnt leaves the token as it was. -/
theorem mint_burn_sampleToken :
    ∃ t, BridgeToken.mint (sampleAddress 1) (sampleAddress 1) 1 sampleToken = .ok t ∧
      BridgeToken.burn (sampleAddress 1) (sampleAddress 1) 1 t = .ok sampleToken := by
  refine ⟨_, rfl, ?_⟩
  have hbalances : Function.update (Function.update (fun _ => 0) (sampleAddress 1) 1)
      (sampleAddress 1) 0 = (fun _ => 0 : Address ℕ → ℕ) := by
    funext x
    by_cases hx : x = sampleAddress 1
    · rw [hx, Function.update_self]
    · rw [Function.update_of_ne hx, Function.update_of_ne hx]
  exact congrArg (fun balances => Except.ok { sampleToken with balances := balances }) hbalances

/-- The token in the hands of the router, before it is enrolled. -/
def sampleLaunch : Station ℕ :=
  let launched := sampleStation.chain.setToken (sampleAddress 4) (.init (sampleAddress 3))
  ⟨launched.setToken (sampleAddress 4) sampleToken, []⟩

def sampleId (n : ℕ) : TokenId ℕ := ⟨2, addressToBytes32 (sampleAddress n)⟩

/-- The chain after an enrollment. -/
def sampleEnroll (n : ℕ) (s : Station ℕ) : Station ℕ :=
  let chain := registered sampleCrypto (sampleId n) (sampleAddress 4)
    (s.chain.setToken (sampleAddress 4) sampleToken)
  ⟨chain, s.history ++ [⟨s.chain, sampleOwner,
    .enrollCustom 2 (addressToBytes32 (sampleAddress n)) (sampleAddress 4), chain⟩]⟩

theorem sampleEnroll_tokens (n : ℕ) :
    (sampleEnroll n s).chain.tokens (sampleAddress 4) = some sampleToken :=
  Chain.setToken_tokens_self (sampleAddress 4) sampleToken s.chain

theorem sampleEnroll_canonicalToRepresentation (n : ℕ) :
    (sampleEnroll n s).chain.canonicalToRepresentation =
      Function.update s.chain.canonicalToRepresentation (idHash sampleCrypto (sampleId n))
        (sampleAddress 4) := rfl

theorem sampleEnroll_representationToCanonical (n : ℕ) :
    (sampleEnroll n s).chain.representationToCanonical =
      Function.update s.chain.representationToCanonical (sampleAddress 4) (sampleId n) := rfl

theorem step_sampleEnroll (n : ℕ) (howner : s.chain.owner = sampleAddress 5)
    (haddress : s.chain.address = sampleAddress 1)
    (htoken : s.chain.tokens (sampleAddress 4) = some sampleToken) :
    Station.Step sampleCrypto s (.call sampleOwner
      (.enrollCustom 2 (addressToBytes32 (sampleAddress n)) (sampleAddress 4)))
      (sampleEnroll n s) := by
  refine .call _ _ _ (.inl ?_)
  obtain ⟨t₁, hmint, hburn⟩ := mint_burn_sampleToken
  have hfirst : callToken sampleOwner (sampleAddress 4)
      (BridgeToken.mint s.chain.address s.chain.address 1) s.chain =
        .ok (s.chain.setToken (sampleAddress 4) t₁) :=
    callToken_of htoken rfl (haddress.symm ▸ hmint)
  have hsecond : callToken sampleOwner (sampleAddress 4)
      (BridgeToken.burn (s.chain.setToken (sampleAddress 4) t₁).address
        (s.chain.setToken (sampleAddress 4) t₁).address 1) (s.chain.setToken (sampleAddress 4) t₁) =
        .ok (s.chain.setToken (sampleAddress 4) sampleToken) := by
    rw [callToken_of (Chain.setToken_tokens_self ..) rfl (haddress.symm ▸ hburn),
      Chain.setToken_setToken]
  have hsender : sampleOwner.sender = s.chain.owner := howner.symm
  have hexec : BridgeRouter.exec sampleCrypto sampleOwner
      (.enrollCustom 2 (addressToBytes32 (sampleAddress n)) (sampleAddress 4)) s.chain =
        .ok ((sampleEnroll n s).chain, []) := by
    rw [BridgeRouter.exec, BridgeRouter.enrollCustom, BridgeRouter.onlyOwner,
      require_of hsender, ok_bind, hfirst, ok_bind, hsecond, ok_bind,
      BridgeRouter.formatTokenId_eq_view, ok_bind, register_view]
    rfl
  change (BridgeRouter.exec sampleCrypto sampleOwner _ s.chain >>= _) = _
  rw [hexec]
  rfl

/-- The token is launched and handed over. -/
theorem reachable_sampleLaunch {C : Station ℕ → Station.Label ℕ → Prop}
    (hlaunch : ∀ s sender token, C s (.launch sender token))
    (htoken : ∀ s sender token call, C s (.token sender token call)) :
    ((Station.system sampleCrypto Chain.Unregistered).restrict C).Reachable sampleLaunch := by
  have hstart : ((Station.system sampleCrypto Chain.Unregistered).restrict C).Reachable
      sampleStation := System.reachable_init ⟨⟨fun _ => rfl, fun _ => rfl, rfl⟩, rfl⟩
  have hlaunched := hstart.step ⟨Station.Step.launch (sampleAddress 3) (sampleAddress 4)
    (by decide) rfl, hlaunch _ _ _⟩
  refine hlaunched.step ⟨Station.Step.token (sampleAddress 3) (sampleAddress 4)
    (.transferOwnership (sampleAddress 1)) _ (.inl ?_), htoken _ _ _ _⟩
  rfl

/-- Enrolling one token for two token ids leaves the first of them with a representation
that stands for the second. -/
theorem not_registry_consistent :
    ¬ ∀ s, (Station.system sampleCrypto Chain.Unregistered).Reachable s →
      s.chain.Consistent sampleCrypto := by
  intro h
  have hlaunch := (reachable_sampleLaunch (C := fun _ _ => True) (fun _ _ _ => trivial)
    fun _ _ _ _ => trivial).of_restrict
  have htwice := (hlaunch.step (step_sampleEnroll 6 rfl rfl rfl)).step
    (step_sampleEnroll 7 rfl rfl (sampleEnroll_tokens 6))
  obtain ⟨hrepresentation, -, -⟩ := h _ htwice
  have hne : idHash sampleCrypto (sampleId 6) ≠ idHash sampleCrypto (sampleId 7) :=
    fun heq => absurd (idHash_injective (Crypto.withIdealHash_ideal _) heq) (by decide)
  have hlookup : (sampleEnroll 7 (sampleEnroll 6 sampleLaunch)).chain.canonicalToRepresentation
      (idHash sampleCrypto (sampleId 6)) = sampleAddress 4 := by
    rw [sampleEnroll_canonicalToRepresentation, Function.update_of_ne hne,
      sampleEnroll_canonicalToRepresentation, Function.update_self]
  have hentry : (sampleEnroll 7 (sampleEnroll 6 sampleLaunch)).chain.representationToCanonical
      (sampleAddress 4) = sampleId 7 := by
    rw [sampleEnroll_representationToCanonical, Function.update_self]
  obtain ⟨hback, -⟩ := hrepresentation (sampleId 6) (by rw [hlookup]; decide)
  rw [hlookup, hentry] at hback
  exact absurd hback (by decide)

/-- Enrolled once, the token and the token id lead to each other. -/
theorem registry_consistent_sample :
    Crypto.IdealHash sampleCrypto ∧
    ((Station.system sampleCrypto Chain.Unregistered).restrict
      (Station.Careful sampleCrypto)).Reachable (sampleEnroll 6 sampleLaunch) ∧
    (sampleEnroll 6 sampleLaunch).chain.canonicalToRepresentation
      (idHash sampleCrypto (sampleId 6)) = sampleAddress 4 ∧
    (sampleEnroll 6 sampleLaunch).chain.Consistent sampleCrypto := by
  have hlaunch := reachable_sampleLaunch (C := Station.Careful sampleCrypto)
    (fun _ _ _ => trivial) fun _ _ _ _ => trivial
  have hcareful : sampleLaunch.Careful sampleCrypto (.call sampleOwner
      (.enrollCustom 2 (addressToBytes32 (sampleAddress 6)) (sampleAddress 4))) := by
    refine fun _ => ⟨by decide, by decide, fun c _ heq => ?_⟩
    exact absurd heq (by decide : (0 : Address ℕ) ≠ sampleAddress 4)
  have hreach := hlaunch.step ⟨step_sampleEnroll 6 rfl rfl rfl, hcareful⟩
  refine ⟨Crypto.withIdealHash_ideal _, hreach, ?_,
    registry_consistent (Crypto.withIdealHash_ideal _) hreach⟩
  rw [sampleEnroll_canonicalToRepresentation, Function.update_self]

end Sample

end Optics.Bridge
