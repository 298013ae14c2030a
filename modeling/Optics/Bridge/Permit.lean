/-
# Permits

An account can approve a spender by a signature that anybody may hand in. What is signed
names the token by its display name, and the owner of the token changes that name at any
time, so a signature that has become invalid can become valid again. What rules out a
second use is the nonce of the signer alone: it counts the permits of that signer over the
whole history of the token, whatever the token was called.
-/

import Optics.Bridge.BridgeToken
import Optics.Math.Numbering
import Optics.Math.Transition

namespace Optics

open Optics.Math Optics.Math.Transition Optics.Solidity

variable {Byte : Type}

/-- The storage of a token with the nonces of its permits. -/
structure PermitToken (Byte : Type) extends BridgeToken Byte where
  nonces : Address Byte → BitVec 256

/-- What an owner signs. -/
structure Permit (Byte : Type) where
  name : List Byte
  chainId : BitVec 256
  verifyingContract : Address Byte
  owner : Address Byte
  spender : Address Byte
  value : BitVec 256
  nonce : BitVec 256
  deadline : BitVec 256

namespace PermitToken

/-- What a call reads of the chain. -/
structure Block where
  timestamp : BitVec 256
  chainid : BitVec 256

/-- The arguments of `permit`. -/
structure Args (Byte : Type) where
  _owner : Address Byte
  _spender : Address Byte
  _value : BitVec 256
  _deadline : BitVec 256
  _v : UInt8
  _r : Bytes32 Byte
  _s : Bytes32 Byte

/-- What changes the storage. -/
inductive Call (Byte : Type)
  | plain (msgSender : Address Byte) (call : BridgeToken.Call Byte)
  | permit (block : Block) (args : Args Byte)

variable [ByteAlphabet Byte] (K : Crypto Byte)
  (recover : Bytes32 Byte → UInt8 → Bytes32 Byte → Bytes32 Byte → Option (Address Byte))
  (this : Address Byte)

/-! ### Digests -/

/-- `_PERMIT_TYPEHASH`. -/
def _PERMIT_TYPEHASH : Bytes32 Byte :=
  K.keccak256 (asciiBytes
    "Permit(address owner,address spender,uint256 value,uint256 nonce,uint256 deadline)")

/-- `_EIP712_STRUCTURED_DATA_VERSION`. -/
def _EIP712_STRUCTURED_DATA_VERSION : Bytes32 Byte := K.keccak256 (asciiBytes "1")

/-- `_EIP712_PREFIX_AND_VERSION`, packed. -/
def _EIP712_PREFIX_AND_VERSION : List Byte := [ofByte 0x19, ofByte 0x01]

/-- `domainSeparator`, at the chain id and the name that it reads. -/
def domainSeparator (_chainId : BitVec 256) (name : List Byte) : Bytes32 Byte :=
  K.keccak256 (abiEncode [
    K.keccak256 (asciiBytes
      "EIP712Domain(string name,string version,uint256 chainId,address verifyingContract)"),
    K.keccak256 name,
    _EIP712_STRUCTURED_DATA_VERSION K,
    uint256Word _chainId,
    addressToBytes32 this])

/-- The hash of the struct that `permit` builds. -/
def hashStruct (_owner _spender : Address Byte) (_value _nonce _deadline : BitVec 256) :
    Bytes32 Byte :=
  K.keccak256 (abiEncode [
    _PERMIT_TYPEHASH K,
    addressToBytes32 _owner,
    addressToBytes32 _spender,
    uint256Word _value,
    uint256Word _nonce,
    uint256Word _deadline])

/-- The digest that `permit` builds. -/
def typedDataHash (separator _hashStruct : Bytes32 Byte) : Bytes32 Byte :=
  K.keccak256 (_EIP712_PREFIX_AND_VERSION ++ separator.toList ++ _hashStruct.toList)

/-- `ecrecover`, which answers the zero address when there is nothing to recover. -/
def ecrecover (_digest : Bytes32 Byte) (_v : UInt8) (_r _s : Bytes32 Byte) : Address Byte :=
  (recover _digest _v _r _s).getD 0

/-! ### The functions of a token -/

variable [DecidableEq Byte]

/-- `permit`. -/
def permit (block : Block) (args : Args Byte) (t : PermitToken Byte) :
    Except Revert (PermitToken Byte) := do
  require (block.timestamp ≤ args._deadline) "ERC20Permit: expired deadline"
  require (args._owner ≠ 0) "ERC20Permit: owner zero address"
  let _nonce := t.nonces args._owner
  let _hashStruct := hashStruct K args._owner args._spender args._value _nonce args._deadline
  let _digest := typedDataHash K (domainSeparator K this block.chainid t.token.name) _hashStruct
  -- the zero address never gets this far, so nothing to recover is not the owner
  let _signer := ecrecover recover _digest args._v args._r args._s
  require (_signer = args._owner) "ERC20Permit: invalid signature"
  -- not checked, and undone with everything else when the approval reverts
  let nonces := Function.update t.nonces args._owner (_nonce + 1)
  let ledger ← BridgeToken._approve args._owner args._spender args._value.toNat t.toBridgeToken
  .ok { toBridgeToken := ledger, nonces := nonces }

/-- One call. The other functions of the token do not look at the nonces. -/
def exec : Call Byte → PermitToken Byte → Except Revert (PermitToken Byte)
  | .plain msgSender call, t => do
    let ledger ← BridgeToken.exec msgSender call t.toBridgeToken
    .ok { t with toBridgeToken := ledger }
  | .permit block args, t => permit K recover this block args t

end PermitToken

/-! ### What is signed -/

namespace Permit

open PermitToken

variable [ByteAlphabet Byte] (K : Crypto Byte)

/-- The digest of a permit. -/
def digest (p : Permit Byte) : Bytes32 Byte :=
  typedDataHash K (domainSeparator K p.verifyingContract p.chainId p.name)
    (hashStruct K p.owner p.spender p.value p.nonce p.deadline)

/-- The permit that a call of `permit` asks for: it is for this token as it is called now,
on this chain, and for the next nonce of the owner. -/
def ofCall (this : Address Byte) (block : Block) (args : Args Byte) (t : PermitToken Byte) :
    Permit Byte where
  name := t.token.name
  chainId := block.chainid
  verifyingContract := this
  owner := args._owner
  spender := args._spender
  value := args._value
  nonce := t.nonces args._owner
  deadline := args._deadline

variable {K}

/-- A digest belongs to one permit. -/
theorem digest_injective (hinjective : Function.Injective K.keccak256) :
    Function.Injective (digest K) := by
  intro p q h
  have hpacked := hinjective h
  rw [List.append_assoc, List.append_assoc] at hpacked
  -- the two hashes have a word each, and so do their preimages' parts
  obtain ⟨hdomain, hstruct⟩ := toList_append_inj (List.append_cancel_left hpacked)
  have hseparator := abiEncode_injective (hinjective hdomain)
  have hhash := abiEncode_injective (hinjective (List.Vector.eq _ _ hstruct))
  simp only [List.cons.injEq, hinjective.eq_iff, uint256Word_injective.eq_iff,
    addressToBytes32_injective.eq_iff, true_and, and_true] at hseparator hhash
  obtain ⟨hname, hchain, hcontract⟩ := hseparator
  obtain ⟨howner, hspender, hvalue, hnonce, hdeadline⟩ := hhash
  cases p
  cases q
  simp_all

end Permit

namespace PermitToken

variable [ByteAlphabet Byte] [DecidableEq Byte] {K : Crypto Byte}
  {recover : Bytes32 Byte → UInt8 → Bytes32 Byte → Bytes32 Byte → Option (Address Byte)}
  {this : Address Byte} {block : Block} {args : Args Byte} {t t' : PermitToken Byte}

/-! ### The effect of a permit -/

/-- The token after a permit: the allowance is set and the nonce is used up. -/
def grant (p : Permit Byte) (t : PermitToken Byte) : PermitToken Byte :=
  { t with
    allowances := Function.update t.allowances p.owner
      (Function.update (t.allowances p.owner) p.spender p.value.toNat)
    nonces := Function.update t.nonces p.owner (t.nonces p.owner + 1) }

omit [DecidableEq Byte] in
theorem ecrecover_eq_iff {_digest : Bytes32 Byte} {_v : UInt8} {_r _s : Bytes32 Byte}
    {signer : Address Byte} (h : signer ≠ 0) :
    ecrecover recover _digest _v _r _s = signer ↔ recover _digest _v _r _s = some signer := by
  unfold ecrecover
  cases recover _digest _v _r _s with
  | none => simp [h.symm]
  | some other => simp

/-- When a permit goes through, and what it grants. -/
theorem permit_eq_ok : permit K recover this block args t = .ok t' ↔
    block.timestamp ≤ args._deadline ∧ args._owner ≠ 0 ∧ args._spender ≠ 0 ∧
      recover ((Permit.ofCall this block args t).digest K) args._v args._r args._s =
        some args._owner ∧
      t' = t.grant (Permit.ofCall this block args t) := by
  simp only [permit, BridgeToken._approve, require_bind_eq_ok, bind_assoc]
  refine and_congr_right fun _ => and_congr_right fun howner => ?_
  rw [ecrecover_eq_iff howner]
  constructor
  · rintro ⟨hsigner, -, hspender, h⟩
    exact ⟨hspender, hsigner, (Except.ok.inj h).symm⟩
  · rintro ⟨hspender, hsigner, rfl⟩
    exact ⟨hsigner, howner, hspender, rfl⟩

/-- What a permit changes of a token: the allowance that was signed and the nonce of the
signer. -/
structure Granted (p : Permit Byte) (t t' : PermitToken Byte) : Prop where
  allowance : t'.allowances p.owner p.spender = p.value.toNat
  allowances : ∀ owner spender, (owner, spender) ≠ (p.owner, p.spender) →
    t'.allowances owner spender = t.allowances owner spender
  nonce : t'.nonces p.owner = t.nonces p.owner + 1
  nonces : ∀ owner, owner ≠ p.owner → t'.nonces owner = t.nonces owner
  owner_eq : t'.owner = t.owner
  supply_eq : t'.supply = t.supply
  balances_eq : t'.balances = t.balances
  token_eq : t'.token = t.token

omit [ByteAlphabet Byte] in
theorem granted_grant (p : Permit Byte) (t : PermitToken Byte) : Granted p t (t.grant p) where
  allowance := by simp [grant]
  allowances := by
    intro owner spender hne
    rcases eq_or_ne owner p.owner with rfl | howner
    · have hspender : spender ≠ p.spender := fun h => hne (by rw [h])
      simp [grant, hspender]
    · simp [grant, howner]
  nonce := by simp [grant]
  nonces := fun owner howner => by simp [grant, howner]
  owner_eq := rfl
  supply_eq := rfl
  balances_eq := rfl
  token_eq := rfl

/-! ### Runs -/

/-- A token, the digests that accounts have signed, and the permits that went through. -/
structure State (Byte : Type) where
  token : PermitToken Byte
  signed : List (Address Byte × Bytes32 Byte)
  accepted : List (Permit Byte)

/-- What happens: an account signs a digest, or the token is called. -/
inductive Label (Byte : Type)
  | sign (signer : Address Byte) (digest : Bytes32 Byte)
  | call (c : Call Byte)

/-- The permits that a call asks for. -/
def Call.permits (this : Address Byte) (t : PermitToken Byte) : Call Byte → List (Permit Byte)
  | .plain _ _ => []
  | .permit block args => [Permit.ofCall this block args t]

/-- A call of the token in a run. -/
def State.exec (K : Crypto Byte)
    (recover : Bytes32 Byte → UInt8 → Bytes32 Byte → Bytes32 Byte → Option (Address Byte))
    (this : Address Byte) (c : Call Byte) (s : State Byte) : Except Revert (State Byte) := do
  let token ← PermitToken.exec K recover this c s.token
  .ok { s with token := token, accepted := s.accepted ++ c.permits this s.token }

/-- Signatures cannot be forged: one that recovers to the owner of the permit is on a digest
that the owner has signed. -/
def State.Unforged (K : Crypto Byte)
    (recover : Bytes32 Byte → UInt8 → Bytes32 Byte → Bytes32 Byte → Option (Address Byte))
    (this : Address Byte) (s : State Byte) : Call Byte → Prop
  | .plain _ _ => True
  | .permit block args =>
    recover ((Permit.ofCall this block args s.token).digest K) args._v args._r args._s =
      some args._owner →
    (args._owner, (Permit.ofCall this block args s.token).digest K) ∈ s.signed

/-- The runs of a new token. Accounts may have signed anything before. -/
def system (K : Crypto Byte)
    (recover : Bytes32 Byte → UInt8 → Bytes32 Byte → Bytes32 Byte → Option (Address Byte))
    (this : Address Byte) : System (State Byte) (Label Byte) where
  init s := (∃ sender details,
      s.token = { BridgeToken.init sender with token := details, nonces := fun _ => 0 }) ∧
    s.accepted = []
  step s label s' :=
    match label with
    | .sign signer digest => s' = { s with signed := s.signed ++ [(signer, digest)] }
    | .call c => s.Unforged K recover this c ∧ callStep (State.exec K recover this) s c s'

/-- The nonces count the permits of each owner. -/
structure State.Counted (K : Crypto Byte) (s : State Byte) : Prop where
  nonces : ∀ owner,
    s.token.nonces owner = BitVec.ofNat 256 (Numbering.uses Permit.owner s.accepted owner)
  numbered : Numbering.Numbered Permit.owner Permit.nonce (BitVec.ofNat 256) s.accepted
  signed : ∀ p ∈ s.accepted, (p.owner, p.digest K) ∈ s.signed

namespace State.Counted

variable {s s' : State Byte} {c : Call Byte}

theorem init (h : (system K recover this).init s) : s.Counted K := by
  obtain ⟨⟨sender, details, htoken⟩, haccepted⟩ := h
  refine ⟨fun owner => ?_, ?_, ?_⟩
  · rw [htoken, haccepted]
    rfl
  · rw [haccepted]
    exact Numbering.Numbered.nil
  · rw [haccepted]
    exact fun p hp => by cases hp

/-- Signing more changes nothing. -/
theorem sign (h : s.Counted K) (entry : Address Byte × Bytes32 Byte) :
    State.Counted K { s with signed := s.signed ++ [entry] } where
  nonces := h.nonces
  numbered := h.numbered
  signed p hp := List.mem_append_left _ (h.signed p hp)

/-- A permit that takes the nonce of its owner and that the owner has signed. -/
theorem permit {p : Permit Byte} (h : s.Counted K) (hnonce : p.nonce = s.token.nonces p.owner)
    (hsigned : (p.owner, p.digest K) ∈ s.signed) :
    State.Counted K { s with token := s.token.grant p, accepted := s.accepted ++ [p] } where
  nonces owner := by
    rw [Numbering.uses_append]
    rcases eq_or_ne owner p.owner with rfl | hne
    -- the counter wraps where the number does, so no bound is needed here
    · rw [(granted_grant p s.token).nonce, h.nonces, Numbering.uses_singleton_self,
        BitVec.ofNat_add]
      rfl
    · rw [(granted_grant p s.token).nonces owner hne, h.nonces,
        Numbering.uses_singleton_of_ne hne.symm]
      rfl
  numbered := Numbering.numbered_concat.mpr ⟨h.numbered, hnonce.trans (h.nonces p.owner)⟩
  signed q hq := by
    rcases List.mem_append.mp hq with hq | hq
    · exact h.signed q hq
    · obtain rfl := List.mem_singleton.mp hq
      exact hsigned

/-- Step lemma: a call of the token. -/
theorem exec (h : s.Counted K) (hforge : s.Unforged K recover this c)
    (hexec : State.exec K recover this c s = .ok s') : s'.Counted K := by
  obtain ⟨token, htoken, hs'⟩ := bind_eq_ok.mp hexec
  obtain rfl := Except.ok.inj hs'
  cases c with
  | plain msgSender call =>
    -- no other function touches the nonces
    obtain ⟨ledger, -, hledger⟩ := bind_eq_ok.mp htoken
    obtain rfl := Except.ok.inj hledger
    refine ⟨?_, ?_, ?_⟩
    all_goals rw [Call.permits, List.append_nil]
    · exact h.nonces
    · exact h.numbered
    · exact h.signed
  | permit block args =>
    obtain ⟨-, -, -, hrecover, rfl⟩ := permit_eq_ok.mp htoken
    exact h.permit rfl (hforge hrecover)

/-- **Run lemma.** In every run the nonces count the permits. -/
theorem of_reachable (h : (system K recover this).Reachable s) : s.Counted K := by
  refine h.invariant (fun s hinit => init hinit) ?_
  intro s label s' _ hcounted hstep
  cases label with
  | sign signer digest =>
    obtain rfl := hstep
    exact hcounted.sign _
  | call c =>
    obtain ⟨hforge, hstep⟩ := hstep
    exact callStep_cases (P := fun _ t => t.Counted K) hstep
      (fun t hexec => hcounted.exec hforge hexec) hcounted

/-- As long as no nonce has come round, no permit went through twice. -/
theorem accepted_nodup (h : s.Counted K)
    (hroom : ∀ owner, Numbering.uses Permit.owner s.accepted owner ≤ 2 ^ 256) :
    s.accepted.Nodup := by
  refine List.Nodup.of_map (fun p => (p.owner, p.nonce)) (h.numbered.nodup fun owner => ?_)
  intro m hm n hn heq
  -- numbers below the modulus are told apart by their remainders
  have hvalue := congrArg BitVec.toNat heq
  rw [BitVec.toNat_ofNat, BitVec.toNat_ofNat,
    Nat.mod_eq_of_lt (lt_of_lt_of_le hm (hroom owner)),
    Nat.mod_eq_of_lt (lt_of_lt_of_le hn (hroom owner))] at hvalue
  exact hvalue

end State.Counted

/-! ### Signatures work once and only as signed -/

/-- What a permit does in a run: it grants what the owner signed, for this token as it is
called at that time, on this chain, and for the nonce that the owner has at that time. -/
structure Permitted (K : Crypto Byte) (this : Address Byte) (block : Block) (args : Args Byte)
    (s s' : State Byte) : Prop where
  deadline : block.timestamp ≤ args._deadline
  signed : (args._owner, (Permit.ofCall this block args s.token).digest K) ∈ s.signed
  only : ∀ p, p.digest K = (Permit.ofCall this block args s.token).digest K →
    p = Permit.ofCall this block args s.token
  granted : Granted (Permit.ofCall this block args s.token) s.token s'.token
  accepted : s'.accepted = s.accepted ++ [Permit.ofCall this block args s.token]

/-- **Permits.** In every run of a token, whatever it is called and whoever calls it, a
permit that goes through grants what its owner signed for this token, this chain, the
current name and the current nonce, and nothing else. A permit that does not go through
changes nothing. And what was signed takes effect at most once. -/
theorem permits_used_once (hinjective : Function.Injective K.keccak256) {s : State Byte}
    (h : (system K recover this).Reachable s) :
    (∀ block args s', (system K recover this).step s (.call (.permit block args)) s' →
      Permitted K this block args s s' ∨
        (∃ e, permit K recover this block args s.token = .error e) ∧ s' = s) ∧
    (∀ p ∈ s.accepted, (p.owner, p.digest K) ∈ s.signed) ∧
    ((∀ owner, Numbering.uses Permit.owner s.accepted owner ≤ 2 ^ 256) →
      (s.accepted.map (Permit.digest K)).Nodup) := by
  have hcounted := State.Counted.of_reachable h
  refine ⟨?_, hcounted.signed, fun hroom => ?_⟩
  · rintro block args s' ⟨hforge, hexec | ⟨⟨e, herror⟩, rfl⟩⟩
    · left
      obtain ⟨token, htoken, hs'⟩ := bind_eq_ok.mp hexec
      obtain rfl := Except.ok.inj hs'
      obtain ⟨hdeadline, -, -, hrecover, rfl⟩ := permit_eq_ok.mp htoken
      exact ⟨hdeadline, hforge hrecover, fun p hp => Permit.digest_injective hinjective hp,
        granted_grant _ _, rfl⟩
    · refine .inr ⟨⟨e, ?_⟩, rfl⟩
      rcases bind_eq_error.mp herror with herror | ⟨token, -, herror⟩
      · exact herror
      · cases herror
  · exact (hcounted.accepted_nodup hroom).map (Permit.digest_injective hinjective)

/-! ### A token that is renamed and gets its name back -/

/-- The token of a sample run, owned by `9`, under its first name. -/
def sampleToken : PermitToken ℕ :=
  { BridgeToken.init ⟨List.replicate 20 9, rfl⟩ with
    token := ⟨[1], [], 18⟩
    nonces := fun _ => 0 }

def sampleOwner : Address ℕ := ⟨List.replicate 20 1, rfl⟩

def sampleSpender : Address ℕ := ⟨List.replicate 20 2, rfl⟩

/-- A permit with a signature that is yet to be filled in. -/
def sampleArgs (_r : Bytes32 ℕ) : Args ℕ where
  _owner := sampleOwner
  _spender := sampleSpender
  _value := 5
  _deadline := 10
  _v := 27
  _r := _r
  _s := 0

/-- The signature of the owner is the digest that is signed. -/
def sampleRecover (_digest : Bytes32 ℕ) (_v : UInt8) (_r _s : Bytes32 ℕ) : Option (Address ℕ) :=
  if _r = _digest then some sampleOwner else none

theorem exec_setDetails {msgSender : Address Byte} {newName newSymbol : List Byte}
    {newDecimals : UInt8} (h : msgSender = t.owner) :
    exec K recover this (.plain msgSender (.setDetails newName newSymbol newDecimals)) t =
      .ok { t with token := ⟨newName, newSymbol, newDecimals⟩ } := by
  simp only [exec, BridgeToken.exec, BridgeToken.setDetails, BridgeToken.onlyOwner,
    require_of h, ok_bind]

/-- The permit is used, the token is renamed and gets its name back: the signature does not
work again. -/
theorem permits_used_once_renamed :
    ∃ (s : State ℕ) (args : Args ℕ), s.accepted.length = 1 ∧ s.token.token = sampleToken.token ∧
      s.token.allowances args._owner args._spender = 5 ∧
      (s.accepted.map (Permit.digest (Crypto.withIdealHash fun _ _ => none))).Nodup ∧
      ∀ t, permit (Crypto.withIdealHash fun _ _ => none) sampleRecover 0 ⟨3, 1⟩ args s.token ≠
        .ok t := by
  have hinjective := (Crypto.withIdealHash_ideal fun _ _ => none).injective
  generalize hK : Crypto.withIdealHash (fun _ _ => none) = K at hinjective ⊢
  let p := Permit.ofCall 0 ⟨3, 1⟩ (sampleArgs 0) sampleToken
  let args := sampleArgs (p.digest K)
  -- deployed, signed, used, and then renamed; the last state is the third one again
  let s₀ : State ℕ := ⟨sampleToken, [], []⟩
  let s₁ : State ℕ := ⟨sampleToken, [(p.owner, p.digest K)], []⟩
  let s₂ : State ℕ := ⟨sampleToken.grant p, s₁.signed, [p]⟩
  let s₃ : State ℕ := { s₂ with token := { s₂.token with token := ⟨[2], [], 18⟩ } }
  have hpermit : permit K sampleRecover 0 ⟨3, 1⟩ args sampleToken = .ok s₂.token := by
    have hdeadline : (3 : BitVec 256) ≤ 10 := by decide
    have howner : sampleOwner ≠ 0 := by decide
    have hspender : sampleSpender ≠ 0 := by decide
    exact permit_eq_ok.mpr ⟨hdeadline, howner, hspender, if_pos rfl, rfl⟩
  have hstart : (system K sampleRecover 0).Reachable s₀ :=
    System.reachable_init ⟨⟨_, _, rfl⟩, rfl⟩
  have hsign : (system K sampleRecover 0).step s₀ (.sign p.owner (p.digest K)) s₁ := rfl
  have hsigned := hstart.step hsign
  have hstep : (system K sampleRecover 0).step s₁ (.call (.permit ⟨3, 1⟩ args)) s₂ := by
    refine ⟨fun _ => List.mem_singleton_self _, .inl ?_⟩
    exact bind_eq_ok.mpr ⟨_, hpermit, rfl⟩
  have hrename : (system K sampleRecover 0).step s₂
      (.call (.plain sampleToken.owner (.setDetails [2] [] 18))) s₃ :=
    ⟨trivial, .inl (bind_eq_ok.mpr ⟨_, exec_setDetails rfl, rfl⟩)⟩
  have hrestore : (system K sampleRecover 0).step s₃
      (.call (.plain sampleToken.owner (.setDetails [1] [] 18))) s₂ :=
    ⟨trivial, .inl (bind_eq_ok.mpr ⟨_, exec_setDetails rfl, rfl⟩)⟩
  have hrestored := ((hsigned.step hstep).step hrename).step hrestore
  refine ⟨s₂, args, rfl, rfl, ?_, ?_, fun t hagain => ?_⟩
  · rcases (permits_used_once hinjective hsigned).1 _ _ _ hstep with hpermitted | ⟨-, heq⟩
    · exact hpermitted.granted.allowance
    · have hlength : 1 = 0 := congrArg (fun s => s.accepted.length) heq
      cases hlength
  · refine (permits_used_once hinjective hrestored).2.2 fun owner => ?_
    exact Numbering.uses_le_length.trans Nat.one_le_two_pow
  · -- the signed permit has nonce 0, and the one that is asked for has nonce 1
    obtain ⟨-, -, -, hrecover, -⟩ := permit_eq_ok.mp hagain
    have hdigest : p.digest K = (Permit.ofCall 0 ⟨3, 1⟩ args s₂.token).digest K := by
      by_contra hne
      cases (if_neg hne).symm.trans hrecover
    have hnonce : (0 : BitVec 256) = 0 + 1 :=
      congrArg Permit.nonce (Permit.digest_injective hinjective hdigest)
    exact absurd hnonce (by decide)

end PermitToken

end Optics
