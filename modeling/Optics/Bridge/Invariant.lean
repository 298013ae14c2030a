/-
# The invariant of the bridges

A chain is sound when its router owns the representations, each table of the
registry agrees with the other, and the tokens are solvent. The network is sound
when its chains are and, for every token id, the escrow of the home chain covers
the representations on the other chains together with the amount that is owed.

Every function changes the network by a few moves: a token and the owed amounts
change against each other, a token appears, or a token becomes a representation.
The owed amounts are a parameter, so that a function may owe what it has burned
until it mints.
-/

import Mathlib.Data.Set.Finite.Basic
import Optics.Bridge.Network

namespace Optics.Bridge

open Optics.Solidity Optics.TokenRegistry Optics.Math

variable {Byte : Type} [ByteAlphabet Byte]

namespace Chain

/-- A token of another domain that the router owns. Of a token for domain 0, which
the registry takes for one of local origin, there is no supply. -/
def Issues (c : TokenId Byte) (_token : Address Byte) (chain : Chain Byte) : Prop :=
  c.domain ≠ chain.localDomain ∧
    ∃ t, chain.tokens _token = some t ∧ t.owner = chain.address ∧ (c.domain = 0 → t.supply = 0)

/-- The tokens and the tables of a chain are in order. -/
structure Sound (K : Crypto Byte) (chain : Chain Byte) : Prop where
  zero : chain.tokens 0 = none
  solvent : ∀ r t, chain.tokens r = some t → t.Solvent
  allowances : ∀ r t, chain.tokens r = some t → ∀ x, t.allowances chain.address x = 0
  representation : ∀ r, chain.representationToCanonical r ≠ unregistered →
    chain.Issues (chain.representationToCanonical r) r
  lookup : ∀ c, chain.canonicalToRepresentation (idHash K c) ≠ 0 →
    chain.representationToCanonical (chain.canonicalToRepresentation (idHash K c)) = c ∧
      chain.Issues c (chain.canonicalToRepresentation (idHash K c))
  finite : {r | chain.representationToCanonical r ≠ unregistered}.Finite

/-- The tokens that the router holds for a token id, when it is the id of a token
of local origin. -/
def escrow [DecidableEq Byte] (_id : Bytes32 Byte) (chain : Chain Byte) : ℕ :=
  if addressToBytes32 (bytes32ToAddress _id) = _id ∧
      _isLocalOrigin (bytes32ToAddress _id) chain = true then
    chain.balanceOf (bytes32ToAddress _id) chain.address
  else 0

variable {K : Crypto Byte} {chain : Chain Byte} {c : TokenId Byte} {r r' : Address Byte}
  {t t' : BridgeToken Byte}

omit [ByteAlphabet Byte] in
theorem isLocalOrigin_iff :
    _isLocalOrigin r chain = true ↔
      (chain.representationToCanonical r).domain = 0 ∧ ∃ t, chain.tokens r = some t := by
  unfold _isLocalOrigin
  split_ifs with h
  · simp [h]
  · simp [Option.isSome_iff_exists, not_not.mp h]

omit [ByteAlphabet Byte] in
theorem balanceOf_of_some {x : Address Byte} (h : chain.tokens r = some t) :
    chain.balanceOf r x = t.balances x := by
  rw [balanceOf, h]

omit [ByteAlphabet Byte] in
theorem totalSupply_of_some (h : chain.tokens r = some t) : chain.totalSupply r = t.supply := by
  rw [totalSupply, h]

namespace Sound

theorem ne_zero (h : chain.Sound K) (htoken : chain.tokens r = some t) : r ≠ 0 := by
  rintro rfl
  rw [h.zero] at htoken
  cases htoken

/-- Where there is no token, none was ever registered. -/
theorem unregistered_of_none (h : chain.Sound K) (hnone : chain.tokens r = none) :
    chain.representationToCanonical r = unregistered := by
  by_contra hne
  obtain ⟨-, t, htoken, -⟩ := h.representation r hne
  rw [hnone] at htoken
  cases htoken

theorem lookup_ne_of_none (h : chain.Sound K) (hnone : chain.tokens r = none) (hr : r ≠ 0)
    (c : TokenId Byte) : chain.canonicalToRepresentation (idHash K c) ≠ r := by
  rintro rfl
  obtain ⟨-, -, t, htoken, -⟩ := h.lookup c hr
  rw [hnone] at htoken
  cases htoken

variable [DecidableEq Byte]

/-- A token may change as long as it stays sound for the router. -/
theorem setToken (h : chain.Sound K) (htoken : chain.tokens r = some t)
    (hkeep : BridgeToken.Keeps chain.address t t')
    (hsupply : (chain.representationToCanonical r).domain = 0 → t.owner = chain.address →
      t.supply = 0 → t'.supply = 0) : (chain.setToken r t').Sound K := by
  have hissues : ∀ c r', (r' = r → (chain.representationToCanonical r).domain = c.domain) →
      chain.Issues c r' → (chain.setToken r t').Issues c r' := by
    rintro c r' hdomain ⟨hlocal, u, hu, howner, hzero⟩
    rcases eq_or_ne r' r with rfl | hne
    · obtain rfl := Option.some.inj (htoken.symm.trans hu)
      refine ⟨hlocal, t', setToken_tokens_self .., hkeep.owner howner, fun hc => ?_⟩
      exact hsupply ((hdomain rfl).trans hc) howner (hzero hc)
    · exact ⟨hlocal, u, (setToken_tokens_of_ne _ _ _ hne).trans hu, howner, hzero⟩
  refine ⟨?_, ?_, ?_, ?_, ?_, h.finite⟩
  · rw [setToken_tokens_of_ne _ _ _ (h.ne_zero htoken).symm]
    exact h.zero
  · exact forall_setToken (P := fun _ u => u.Solvent)
      (hkeep.solvent (h.solvent _ _ htoken)) h.solvent
  · exact forall_setToken (P := fun _ u => ∀ x, u.allowances chain.address x = 0)
      (hkeep.allowances (h.allowances _ _ htoken)) h.allowances
  · intro r' hr'
    refine hissues _ r' ?_ (h.representation r' hr')
    rintro rfl
    rfl
  · intro c hc
    obtain ⟨hcanonical, hissue⟩ := h.lookup c hc
    refine ⟨hcanonical, hissues c _ (fun heq => ?_) hissue⟩
    rw [setToken_canonicalToRepresentation] at heq
    rw [← heq, hcanonical]

/-- A token may appear where there was no code. -/
theorem addToken (h : chain.Sound K) (hnone : chain.tokens r = none) (hr : r ≠ 0)
    (hsolvent : t.Solvent) (hallow : ∀ x, t.allowances chain.address x = 0) :
    (chain.setToken r t).Sound K := by
  have hissues : ∀ c r', chain.Issues c r' → (chain.setToken r t).Issues c r' := by
    rintro c r' ⟨hlocal, u, hu, hrest⟩
    have hne : r' ≠ r := by
      rintro rfl
      rw [hnone] at hu
      cases hu
    exact ⟨hlocal, u, (setToken_tokens_of_ne _ _ _ hne).trans hu, hrest⟩
  refine ⟨?_, ?_, ?_, fun r' hr' => hissues _ _ (h.representation r' hr'),
    fun c hc => ⟨(h.lookup c hc).1, hissues _ _ (h.lookup c hc).2⟩, h.finite⟩
  · rw [setToken_tokens_of_ne _ _ _ hr.symm]
    exact h.zero
  · exact forall_setToken (P := fun _ u => u.Solvent) hsolvent h.solvent
  · exact forall_setToken (P := fun _ u => ∀ x, u.allowances chain.address x = 0) hallow
      h.allowances

/-- A token that was never registered may become a representation. -/
theorem registered (ideal : Crypto.IdealHash K) (h : chain.Sound K)
    (hfresh : chain.representationToCanonical r = unregistered)
    (hnever : ∀ c, chain.canonicalToRepresentation (idHash K c) ≠ r)
    (hissues : chain.Issues c r) : (TokenRegistry.registered K c r chain).Sound K := by
  refine ⟨h.zero, h.solvent, h.allowances, ?_, ?_, ?_⟩
  · intro r' hr'
    rcases eq_or_ne r' r with rfl | hne
    · simp only [TokenRegistry.registered, Function.update_self]
      exact hissues
    · simp only [TokenRegistry.registered, Function.update_of_ne hne] at hr' ⊢
      exact h.representation r' hr'
  · intro c' hc'
    rcases eq_or_ne c' c with rfl | hne
    · simp only [TokenRegistry.registered, Function.update_self, true_and]
      exact hissues
    · have hhash : idHash K c' ≠ idHash K c := fun heq => hne (idHash_injective ideal heq)
      simp only [TokenRegistry.registered, Function.update_of_ne hhash,
        Function.update_of_ne (hnever c')] at hc' ⊢
      exact h.lookup c' hc'
  · refine (h.finite.insert r).subset fun r' hr' => ?_
    rcases eq_or_ne r' r with rfl | hne
    · exact Set.mem_insert _ _
    · refine Set.mem_insert_of_mem _ ?_
      simpa [TokenRegistry.registered, Function.update_of_ne hne] using hr'

omit [DecidableEq Byte] in
theorem setProviders (h : chain.Sound K) (providers : Bytes32 Byte → Address Byte) :
    Sound K { chain with liquidityProvider := providers } :=
  ⟨h.zero, h.solvent, h.allowances, h.representation, h.lookup, h.finite⟩

end Sound

/-! ### Escrow -/

section Escrow

variable [DecidableEq Byte] {i : Bytes32 Byte}

theorem escrow_of_localOrigin (hlocal : _isLocalOrigin r chain = true)
    (htoken : chain.tokens r = some t) :
    chain.escrow (addressToBytes32 r) = t.balances chain.address := by
  rw [escrow, bytes32ToAddress_addressToBytes32, if_pos ⟨rfl, hlocal⟩, balanceOf_of_some htoken]

theorem escrow_of_not_localOrigin (hlocal : _isLocalOrigin r chain = false) :
    chain.escrow (addressToBytes32 r) = 0 := by
  rw [escrow, bytes32ToAddress_addressToBytes32, if_neg]
  rintro ⟨-, htrue⟩
  rw [hlocal] at htrue
  cases htrue

/-- Where there is an escrow, the id is that of a token of local origin. -/
theorem exists_of_escrow_pos (h : 0 < chain.escrow i) :
    i = addressToBytes32 (bytes32ToAddress i) ∧
      _isLocalOrigin (bytes32ToAddress i) chain = true := by
  unfold escrow at h
  split_ifs at h with hid
  · exact ⟨hid.1.symm, hid.2⟩
  · cases h

/-- The escrow of one id depends on one address. -/
theorem escrow_congr {chain' : Chain Byte} (haddress : chain'.address = chain.address)
    (hlocal : i = addressToBytes32 (bytes32ToAddress i) →
      _isLocalOrigin (bytes32ToAddress i) chain' = _isLocalOrigin (bytes32ToAddress i) chain ∧
        chain'.tokens (bytes32ToAddress i) = chain.tokens (bytes32ToAddress i)) :
    chain'.escrow i = chain.escrow i := by
  unfold escrow
  by_cases hid : addressToBytes32 (bytes32ToAddress i) = i
  · obtain ⟨horigin, htokens⟩ := hlocal hid.symm
    rw [horigin, balanceOf, balanceOf, htokens, haddress]
  · rw [if_neg (fun h => hid h.1), if_neg (fun h => hid h.1)]

theorem escrow_setToken_of_ne (hne : i ≠ addressToBytes32 r) :
    (chain.setToken r t).escrow i = chain.escrow i := by
  refine escrow_congr rfl fun hid => ?_
  have hr : bytes32ToAddress i ≠ r := fun heq => hne (heq ▸ hid)
  unfold _isLocalOrigin
  rw [setToken_tokens_of_ne _ _ _ hr]
  exact ⟨rfl, rfl⟩

end Escrow

end Chain

/-! ### The network -/

/-- An address of a chain that is registered for a token id. -/
def holder (members : Finset UInt32) (chains : UInt32 → Chain Byte) (c : TokenId Byte)
    (x : UInt32 × Address Byte) : Prop :=
  x.1 ∈ members ∧ c.domain ≠ 0 ∧ (chains x.1).representationToCanonical x.2 = c

/-- The supply of a token at an address of a chain. -/
def held (chains : UInt32 → Chain Byte) (x : UInt32 × Address Byte) : ℕ :=
  (chains x.1).totalSupply x.2

/-- The escrow of the home chain of a token id. -/
def reserve [DecidableEq Byte] (members : Finset UInt32) (chains : UInt32 → Chain Byte)
    (c : TokenId Byte) : ℕ :=
  if c.domain ∈ members then (chains c.domain).escrow c.id else 0

/-- The chains are sound, and every escrow covers the representations and the owed
amount. -/
structure Sound [DecidableEq Byte] (K : Crypto Byte) (members : Finset UInt32)
    (chains : UInt32 → Chain Byte) (owed : TokenId Byte → ℕ) : Prop where
  localDomain : ∀ d ∈ members, (chains d).localDomain = d
  chain : ∀ d ∈ members, (chains d).Sound K
  covered : ∀ c, Covered (holder members chains c) (held chains) (owed c)
    (reserve members chains c)

namespace Sound

variable [DecidableEq Byte] {K : Crypto Byte} {members : Finset UInt32}
  {chains : UInt32 → Chain Byte} {owed owed' : TokenId Byte → ℕ} {d : UInt32}
  {chain chain' : Chain Byte} {r : Address Byte} {t t' : BridgeToken Byte} {c : TokenId Byte}

theorem owed_le (h : Sound K members chains owed) (c : TokenId Byte) :
    owed c ≤ reserve members chains c := (h.covered c).owed_le

omit [ByteAlphabet Byte] [DecidableEq Byte] in
theorem forall_update {P : UInt32 → Chain Byte → Prop} (hself : P d chain')
    (hothers : ∀ d' ∈ members, P d' (chains d')) :
    ∀ d' ∈ members, P d' (Function.update chains d chain' d') := by
  apply (Function.forall_update_iff chains fun d' chain => d' ∈ members → P d' chain).mpr
  exact ⟨fun _ => hself, fun d' _ hd' => hothers d' hd'⟩

/-- A sound chain may take the place of another as long as everything stays covered. -/
theorem of_covered (h : Sound K members chains owed) (hd : d ∈ members)
    (hsound : chain'.Sound K) (hdomain : chain'.localDomain = (chains d).localDomain)
    (hcovered : ∀ c, Covered (holder members (Function.update chains d chain') c)
      (held (Function.update chains d chain')) (owed' c)
      (reserve members (Function.update chains d chain') c)) :
    Sound K members (Function.update chains d chain') owed' where
  localDomain := forall_update (P := fun d chain => chain.localDomain = d)
    (hdomain.trans (h.localDomain d hd)) h.localDomain
  chain := forall_update (P := fun _ chain => chain.Sound K) hsound h.chain
  covered := hcovered

/-- Changes of one chain that lower no escrow and raise no supply. -/
theorem update (h : Sound K members chains owed) (hd : d ∈ members)
    (hsound : chain'.Sound K) (hdomain : chain'.localDomain = (chains d).localDomain)
    (hsupply : ∀ r, (chain'.representationToCanonical r).domain ≠ 0 → chain'.totalSupply r = 0 ∨
      chain'.representationToCanonical r = (chains d).representationToCanonical r ∧
        chain'.totalSupply r ≤ (chains d).totalSupply r)
    (hescrow : ∀ i, (chains d).escrow i ≤ chain'.escrow i) (howed : ∀ c, owed' c ≤ owed c) :
    Sound K members (Function.update chains d chain') owed' := by
  refine h.of_covered hd hsound hdomain fun c => (h.covered c).mono ?_ (howed c) ?_
  · rintro ⟨d', r⟩ ⟨hd', hc, hr⟩
    simp only [held, holder] at hr ⊢
    rcases eq_or_ne d' d with rfl | hne
    · rw [Function.update_self] at hr ⊢
      rcases hsupply r (hr ▸ hc) with hzero | ⟨hcanonical, hle⟩
      · exact .inl hzero
      · exact .inr ⟨⟨hd', hc, hcanonical ▸ hr⟩, hle⟩
    · rw [Function.update_of_ne hne] at hr ⊢
      exact .inr ⟨⟨hd', hc, hr⟩, le_rfl⟩
  · unfold reserve
    split_ifs with hmember
    · rcases eq_or_ne c.domain d with heq | hne
      · rw [heq, Function.update_self]
        exact hescrow c.id
      · rw [Function.update_of_ne hne]
    · exact le_rfl

/-! ### The move that exchanges a token -/

section Exchange

omit [ByteAlphabet Byte] in
theorem holder_setToken :
    holder members (Function.update chains d ((chains d).setToken r t')) c =
      holder members chains c := by
  funext ⟨d', r'⟩
  simp only [holder]
  rcases eq_or_ne d' d with rfl | hne
  · rw [Function.update_self]
    rfl
  · rw [Function.update_of_ne hne]

omit [ByteAlphabet Byte] in
theorem held_setToken :
    held (Function.update chains d ((chains d).setToken r t')) =
      Function.update (held chains) (d, r) t'.supply := by
  funext ⟨d', r'⟩
  rcases eq_or_ne (d', r') (d, r) with heq | hne
  · obtain ⟨rfl, rfl⟩ := Prod.mk.inj heq
    rw [Function.update_self, held, Function.update_self]
    exact Chain.totalSupply_of_some (Chain.setToken_tokens_self ..)
  · rw [Function.update_of_ne hne]
    simp only [held]
    rcases eq_or_ne d' d with rfl | hd
    · have hr : r' ≠ r := fun heq => hne (by rw [heq])
      rw [Function.update_self, Chain.totalSupply, Chain.totalSupply,
        Chain.setToken_tokens_of_ne _ _ _ hr]
    · rw [Function.update_of_ne hd]

theorem reserve_setToken_of_ne (hne : c ≠ ⟨d, addressToBytes32 r⟩) :
    reserve members (Function.update chains d ((chains d).setToken r t')) c =
      reserve members chains c := by
  unfold reserve
  split_ifs
  · rcases eq_or_ne c.domain d with heq | hd
    · have hid : c.id ≠ addressToBytes32 r := by
        rintro hid
        apply hne
        rw [← heq, ← hid]
      rw [heq, Function.update_self, Chain.escrow_setToken_of_ne hid]
    · rw [Function.update_of_ne hd]
  · rfl

theorem reserve_update_self (hd : d ∈ members) {i : Bytes32 Byte} :
    reserve members (Function.update chains d chain) ⟨d, i⟩ = chain.escrow i := by
  rw [reserve, if_pos hd, Function.update_self]

theorem reserve_self (hd : d ∈ members) {i : Bytes32 Byte} :
    reserve members chains ⟨d, i⟩ = (chains d).escrow i := by
  rw [reserve, if_pos hd]

variable (h : Sound K members chains owed) (hd : d ∈ members) (hchain : chains d = chain)
  (htoken : chain.tokens r = some t) (hkeep : BridgeToken.Keeps chain.address t t')
include h hd hchain htoken hkeep

/-- The supply of a representation and the owed amount change against each
other. -/
theorem exchange_representation (hdomain : (chain.representationToCanonical r).domain ≠ 0)
    (hle : t'.supply + owed' (chain.representationToCanonical r) ≤
      t.supply + owed (chain.representationToCanonical r))
    (hothers : ∀ c, c ≠ chain.representationToCanonical r → owed' c ≤ owed c) :
    Sound K members (Function.update chains d (chain.setToken r t')) owed' := by
  subst hchain
  have hsound := (h.chain d hd).setToken htoken hkeep fun hzero => absurd hzero hdomain
  refine h.of_covered hd hsound rfl fun c => ?_
  -- a representation is not in escrow, before or after
  have hreserve : reserve members (Function.update chains d ((chains d).setToken r t')) c =
      reserve members chains c := by
    rcases eq_or_ne c ⟨d, addressToBytes32 r⟩ with rfl | hne
    · have hfalse : ∀ chain : Chain Byte, (chain.representationToCanonical r).domain ≠ 0 →
          _isLocalOrigin r chain = false := by
        intro chain hchain
        rw [_isLocalOrigin, if_pos hchain]
      rw [reserve_update_self hd, reserve_self hd,
        Chain.escrow_of_not_localOrigin (hfalse ((chains d).setToken r t') hdomain),
        Chain.escrow_of_not_localOrigin (hfalse (chains d) hdomain)]
    · exact reserve_setToken_of_ne hne
  rw [holder_setToken, held_setToken, hreserve]
  have hheld : held chains (d, r) = t.supply := Chain.totalSupply_of_some htoken
  rcases eq_or_ne c ((chains d).representationToCanonical r) with rfl | hne
  · exact (h.covered _).holding_exchange ⟨hd, hdomain, rfl⟩ (hheld ▸ hle)
  · refine (h.covered c).mono (fun x hx => .inr ⟨hx, ?_⟩) (hothers c hne) le_rfl
    have hxr : x ≠ (d, r) := by
      rintro rfl
      exact hne hx.2.2.symm
    rw [Function.update_of_ne hxr]

/-- The escrow of a token of local origin and the owed amount change against each
other. -/
theorem exchange_local (hdomain : (chain.representationToCanonical r).domain = 0)
    (hsupply : t.owner = chain.address → t'.supply ≤ t.supply)
    (hle : owed' ⟨d, addressToBytes32 r⟩ + t.balances chain.address ≤
      owed ⟨d, addressToBytes32 r⟩ + t'.balances chain.address)
    (hothers : ∀ c, c ≠ ⟨d, addressToBytes32 r⟩ → owed' c ≤ owed c) :
    Sound K members (Function.update chains d (chain.setToken r t')) owed' := by
  subst hchain
  have hsound := (h.chain d hd).setToken htoken hkeep fun _ howner hzero =>
    Nat.le_zero.mp (hzero ▸ hsupply howner)
  refine h.of_covered hd hsound rfl fun c => ?_
  rw [holder_setToken, held_setToken]
  -- no token id has the token as a representation
  have hheld : ∀ c x, holder members chains c x →
      Function.update (held chains) (d, r) t'.supply x ≤ held chains x := by
    rintro c x ⟨-, hc, hx⟩
    have hxr : x ≠ (d, r) := by
      rintro rfl
      exact hc (hx ▸ hdomain)
    rw [Function.update_of_ne hxr]
  rcases eq_or_ne c ⟨d, addressToBytes32 r⟩ with rfl | hne
  · have hbefore : _isLocalOrigin r (chains d) = true :=
      Chain.isLocalOrigin_iff.mpr ⟨hdomain, t, htoken⟩
    have hafter : _isLocalOrigin r ((chains d).setToken r t') = true :=
      Chain.isLocalOrigin_iff.mpr ⟨hdomain, t', Chain.setToken_tokens_self ..⟩
    have hcovered := h.covered ⟨d, addressToBytes32 r⟩
    rw [reserve_self hd, Chain.escrow_of_localOrigin hbefore htoken] at hcovered
    rw [reserve_update_self hd,
      Chain.escrow_of_localOrigin hafter (Chain.setToken_tokens_self ..)]
    exact (hcovered.reserve_exchange hle).mono (fun x hx => .inr ⟨hx, hheld _ x hx⟩) le_rfl
      le_rfl
  · rw [reserve_setToken_of_ne hne]
    exact (h.covered c).mono (fun x hx => .inr ⟨hx, hheld c x hx⟩) (hothers c hne) le_rfl

omit hkeep in
/-- A change that is harmless to the router keeps the network sound. -/
theorem exchange_harmless (hharmless : BridgeToken.Harmless chain.address t t') :
    Sound K members (Function.update chains d (chain.setToken r t')) owed := by
  by_cases hdomain : (chain.representationToCanonical r).domain = 0
  · refine h.exchange_local hd hchain htoken hharmless.toKeeps hdomain
      (fun howner => (hharmless.supply howner).le) ?_ fun c _ => le_rfl
    have hbalance := hharmless.balance
    omega
  · refine h.exchange_representation hd hchain htoken hharmless.toKeeps hdomain ?_ fun c _ => le_rfl
    -- the router owns its representations
    have hregistered : chain.representationToCanonical r ≠ Chain.unregistered := by
      intro heq
      exact hdomain (congrArg TokenId.domain heq)
    obtain ⟨-, u, hu, howner, -⟩ := (hchain ▸ h.chain d hd).representation r hregistered
    obtain rfl := Option.some.inj (htoken.symm.trans hu)
    rw [hharmless.supply howner]

end Exchange

/-! ### New tokens and new representations -/

section Moves

variable (h : Sound K members chains owed) (hd : d ∈ members) (hchain : chains d = chain)
include h hd hchain

/-- A token may appear where there was no code. -/
theorem addToken (hnone : chain.tokens r = none) (hr : r ≠ 0) (hsolvent : t.Solvent)
    (hallow : ∀ x, t.allowances chain.address x = 0) :
    Sound K members (Function.update chains d (chain.setToken r t)) owed := by
  subst hchain
  have hunregistered := (h.chain d hd).unregistered_of_none hnone
  refine h.update hd ((h.chain d hd).addToken hnone hr hsolvent hallow) rfl ?_ ?_ fun c => le_rfl
  · intro r' hr'
    have hne : r' ≠ r := by
      rintro rfl
      exact hr' (congrArg TokenId.domain hunregistered)
    refine .inr ⟨rfl, ?_⟩
    rw [Chain.totalSupply, Chain.totalSupply, Chain.setToken_tokens_of_ne _ _ _ hne]
  · intro i
    rcases eq_or_ne i (addressToBytes32 r) with rfl | hne
    · have hfalse : _isLocalOrigin r (chains d) = false := by
        rw [Bool.eq_false_iff]
        intro htrue
        obtain ⟨-, u, hu⟩ := Chain.isLocalOrigin_iff.mp htrue
        rw [hnone] at hu
        cases hu
      rw [Chain.escrow_of_not_localOrigin hfalse]
      exact Nat.zero_le _
    · rw [Chain.escrow_setToken_of_ne hne]

/-- A token without supply that was never registered may become a
representation. -/
theorem registered (ideal : Crypto.IdealHash K) (htoken : chain.tokens r = some t)
    (howner : t.owner = chain.address) (hsupply : t.supply = 0)
    (hfresh : chain.representationToCanonical r = Chain.unregistered)
    (hnever : ∀ c, chain.canonicalToRepresentation (idHash K c) ≠ r)
    (hdomain : c.domain ≠ chain.localDomain) :
    Sound K members (Function.update chains d (TokenRegistry.registered K c r chain)) owed := by
  subst hchain
  have hissues : (chains d).Issues c r := ⟨hdomain, t, htoken, howner, fun _ => hsupply⟩
  refine h.update hd ((h.chain d hd).registered ideal hfresh hnever hissues) rfl ?_ ?_
    fun c => le_rfl
  · intro r' hr'
    rcases eq_or_ne r' r with rfl | hne
    · exact .inl ((Chain.totalSupply_of_some htoken).trans hsupply)
    · exact .inr ⟨Function.update_of_ne hne _ _, le_rfl⟩
  · intro i
    rcases eq_or_ne i (addressToBytes32 r) with rfl | hne
    · -- the router cannot hold anything of a token without supply
      have hbalance : t.balances (chains d).address = 0 :=
        Nat.le_zero.mp (hsupply ▸ ((h.chain d hd).solvent r t htoken).balance_le _)
      have hlocal : _isLocalOrigin r (chains d) = true :=
        Chain.isLocalOrigin_iff.mpr ⟨congrArg TokenId.domain hfresh, t, htoken⟩
      rw [Chain.escrow_of_localOrigin hlocal htoken, hbalance]
      exact Nat.zero_le _
    · have hescrow : (TokenRegistry.registered K c r (chains d)).escrow i =
          (chains d).escrow i := by
        refine Chain.escrow_congr rfl fun hid => ⟨?_, rfl⟩
        have hr : bytes32ToAddress i ≠ r := fun heq => hne (heq ▸ hid)
        simp only [_isLocalOrigin, TokenRegistry.registered, Function.update_of_ne hr]
      exact hescrow.ge

/-- The table of providers does not matter. -/
theorem setProviders (providers : Bytes32 Byte → Address Byte) :
    Sound K members (Function.update chains d { chain with liquidityProvider := providers })
      owed := by
  subst hchain
  exact h.update hd ((h.chain d hd).setProviders providers) rfl (fun _ _ => .inr ⟨rfl, le_rfl⟩)
    (fun _ => le_rfl) fun _ => le_rfl

end Moves

/-- Two moves of one chain in a row. -/
theorem idem (h : Sound K members (Function.update (Function.update chains d chain) d chain')
    owed) : Sound K members (Function.update chains d chain') owed := by
  rwa [Function.update_idem] at h

theorem owe_less (h : Sound K members chains owed) (howed : ∀ c, owed' c ≤ owed c) :
    Sound K members chains owed' :=
  ⟨h.localDomain, h.chain, fun c => (h.covered c).mono (fun _ hx => .inr ⟨hx, le_rfl⟩) (howed c)
    le_rfl⟩

end Sound

end Optics.Bridge
