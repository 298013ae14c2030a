/-
# The details of a token on another chain

A chain that has deployed a representation asks the chain of the token for its name,
symbol and decimals, and sets the details that come back. A name or symbol travels as one
word: the contracts write it from the left, read it as a string that ends at its first
zero byte, and refuse what does not fit.

So a name of at most 32 bytes arrives whole if it has no zero byte, and up to its first
zero byte otherwise.
-/

import Mathlib.Data.List.TakeWhile
import Optics.Bridge.Backing
import Optics.Bridge.RouterEffects

namespace Optics.TypeCasts

open Optics.Solidity

variable {Byte : Type} [ByteAlphabet Byte]

/-- A string up to its first zero byte. -/
def terminated (_s : List Byte) : List Byte := _s.takeWhile fun b => toByte b ≠ 0

theorem coerceString_eq (_buf : Bytes32 Byte) : coerceString _buf = terminated _buf.toList := rfl

theorem terminated_append_replicate (_s : List Byte) (n : ℕ) :
    terminated (_s ++ List.replicate n (ofByte 0)) = terminated _s := by
  induction _s with
  | nil =>
    cases n with
    | zero => rfl
    | succ n => simp [terminated, List.replicate_succ, ByteAlphabet.toByte_ofByte]
  | cons b rest ih =>
    simp only [terminated, List.cons_append, List.takeWhile_cons] at ih ⊢
    rw [ih]

/-- Only a zero byte shortens a string. -/
theorem terminated_eq_self_iff {_s : List Byte} :
    terminated _s = _s ↔ ∀ b ∈ _s, toByte b ≠ 0 := by
  rw [terminated, List.takeWhile_eq_self_iff]
  simp

/-- The word of a string that fits, padded on the right. -/
theorem toList_of_coerceBytes32 {_s : List Byte} {w : Bytes32 Byte} (hshort : _s.length < 256)
    (h : coerceBytes32 _s = .ok w) :
    _s.length ≤ 32 ∧ w.toList = _s ++ List.replicate (32 - _s.length) (ofByte 0) := by
  rw [coerceBytes32, Nat.mod_eq_of_lt hshort, View.index] at h
  split_ifs at h with hempty
  · -- nothing is read of an empty string
    obtain rfl := List.length_eq_zero_iff.mp hempty
    obtain rfl := Except.ok.inj h
    exact ⟨Nat.zero_le 32, rfl⟩
  · obtain ⟨bytes, hindex, h⟩ := bind_eq_ok.mp h
    obtain ⟨-, rfl⟩ := View.viewIndex_eq_ok.mp hindex
    split_ifs at h with hfits
    have hall : ((View.ref _s 0).bytes.drop 0).take _s.length = _s := List.take_length
    simp only [hall] at h hfits
    obtain rfl := Except.ok.inj h
    exact ⟨hfits, rfl⟩

/-- The length of a string is read whole, or what is read of it is too long for a word as
well. -/
def Measured (_s : List Byte) : Prop := _s.length < 256 ∨ 32 < _s.length % 256

/-- What is longer than a word in the length that is read is refused. -/
theorem mod_le_of_coerceBytes32 {_s : List Byte} {w : Bytes32 Byte}
    (h : coerceBytes32 _s = .ok w) : _s.length % 256 ≤ 32 := by
  rw [coerceBytes32, View.index] at h
  split_ifs at h with hempty
  · exact hempty ▸ Nat.zero_le 32
  · obtain ⟨bytes, hindex, h⟩ := bind_eq_ok.mp h
    obtain ⟨-, rfl⟩ := View.viewIndex_eq_ok.mp hindex
    split_ifs at h with hfits
    have hlength : (((View.ref _s 0).bytes.drop 0).take (_s.length % 256)).length =
        _s.length % 256 := List.length_take_of_le (Nat.mod_le _ _)
    exact hlength ▸ hfits

/-- **A word carries a string that fits up to its first zero byte.** -/
theorem coerceString_of_coerceBytes32 {_s : List Byte} {w : Bytes32 Byte}
    (hmeasured : Measured _s) (h : coerceBytes32 _s = .ok w) :
    _s.length ≤ 32 ∧ coerceString w = terminated _s := by
  have hshort := hmeasured.resolve_right (Nat.not_lt.mpr (mod_le_of_coerceBytes32 h))
  obtain ⟨hfits, hbytes⟩ := toList_of_coerceBytes32 hshort h
  refine ⟨hfits, ?_⟩
  rw [coerceString_eq, hbytes, terminated_append_replicate]

end Optics.TypeCasts

namespace Optics.BridgeRouter

open Optics.Solidity Optics.Bridge Optics.TokenRegistry Optics.BridgeMessage Optics.TypeCasts

variable {Byte : Type} [ByteAlphabet Byte] [DecidableEq Byte] {K : Crypto Byte}
  {ctx ctx' : Context Byte} {home home' remote remote' : Chain Byte}
  {sent sent' : List (Dispatch Byte)} {_origin _origin' : UInt32}
  {_sender _sender' : Bytes32 Byte}

omit [DecidableEq Byte] in
/-- `_handleRequestDetails` reads the token, which is of local origin, and answers with
the words of its name and symbol. -/
theorem _handleRequestDetails_eq_ok {_tokenId : TokenId Byte} {chain chain' : Chain Byte}
    (h : _handleRequestDetails ctx _origin _sender (view _tokenId) chain = .ok (chain', sent)) :
    _isLocalOrigin (bytes32ToAddress _tokenId.id) chain = true ∧ ∃ t _name _symbol,
      chain.tokens (bytes32ToAddress _tokenId.id) = some t ∧
      coerceBytes32 t.token.name = .ok _name ∧ coerceBytes32 t.token.symbol = .ok _symbol ∧
      sent = [⟨_origin, _sender,
        message _tokenId (.details _name _symbol t.token.decimals)⟩] := by
  simp only [_handleRequestDetails, view, evmId_tokenIdView, ok_bind, require_bind_eq_ok,
    formatDetails_eq] at h
  obtain ⟨hlocal, h⟩ := h
  obtain ⟨t, htoken, h⟩ := bind_eq_ok.mp h
  obtain ⟨_name, hname, h⟩ := bind_eq_ok.mp h
  obtain ⟨_symbol, hsymbol, h⟩ := bind_eq_ok.mp h
  rw [formatMessage_view, ok_bind] at h
  obtain ⟨messages, hdispatch, h⟩ := bind_eq_ok.mp h
  obtain ⟨-, rfl⟩ := Prod.mk.inj (Except.ok.inj h)
  have hsome : chain.tokens (bytes32ToAddress _tokenId.id) = some t := by
    unfold viewToken at htoken
    split at htoken
    next u hu => rw [hu, Except.ok.inj htoken]
    next => cases htoken
  exact ⟨hlocal, t, _name, _symbol, hsome, hname, hsymbol, dispatch_eq_ok hdispatch⟩

/-- `_handleDetails` sets the details of the representation to the strings that the words
hold. -/
theorem _handleDetails_eq_ok {_tokenId : TokenId Byte} {_name _symbol : Bytes32 Byte}
    {_decimals : UInt8} {chain chain' : Chain Byte}
    (h : _handleDetails K ctx (view _tokenId) (Action.details _name _symbol _decimals).view chain =
      .ok (chain', sent)) :
    ∃ _token t, _mustHaveToken K (view _tokenId) chain = .ok _token ∧
      _isLocalOrigin _token chain = false ∧ chain.tokens _token = some t ∧
      chain' = chain.setToken _token
        { t with token := ⟨coerceString _name, coerceString _symbol, _decimals⟩ } := by
  obtain ⟨_token, hmust, h⟩ := bind_eq_ok.mp h
  simp only [require_bind_eq_ok, name_view, symbol_view, decimals_view, ok_bind] at h
  obtain ⟨hremote, h⟩ := h
  obtain ⟨chain₁, hcall, h⟩ := bind_eq_ok.mp h
  obtain ⟨t, t', htoken, hset, rfl⟩ := callToken_eq_ok hcall
  obtain ⟨rfl, -⟩ := Prod.mk.inj (Except.ok.inj h)
  simp only [BridgeToken.setDetails, BridgeToken.onlyOwner, require_bind_eq_ok,
    Except.ok.injEq] at hset
  obtain ⟨-, rfl⟩ := hset
  exact ⟨_token, t, hmust, by simpa using hremote, htoken, rfl⟩

/-- What another chain shows of a string that was not refused. -/
structure Carried (_s shown : List Byte) : Prop where
  length_le : _s.length ≤ 32
  shown_eq : shown = terminated _s
  /-- The string arrives whole just if it has no zero byte. -/
  whole_iff : shown = _s ↔ ∀ b ∈ _s, toByte b ≠ 0

omit [DecidableEq Byte] in
theorem carried_of_coerceBytes32 {_s : List Byte} {w : Bytes32 Byte}
    (h : coerceBytes32 _s = .ok w) (hmeasured : Measured _s) : Carried _s (coerceString w) := by
  obtain ⟨hfits, hshown⟩ := coerceString_of_coerceBytes32 hmeasured h
  exact ⟨hfits, hshown, hshown ▸ terminated_eq_self_iff⟩

/-- **Details are carried or refused.** Once a request for the details of a token has been
handled on its chain and the answer on another one, the representation there has the
decimals of the token, and a name and a symbol have arrived, if they have fewer than 256 bytes
or a length that is not cut to one that fits. -/
theorem details_carried {c : TokenId Byte} {m : Dispatch Byte}
    (hrequest : handle K ctx _origin _sender (message c .requestDetails) home = .ok (home', sent))
    (hm : m ∈ sent)
    (hdetails : handle K ctx' _origin' _sender' m.body remote = .ok (remote', sent')) :
    ∃ t _repr u, _isLocalOrigin (bytes32ToAddress c.id) home = true ∧
      home.tokens (bytes32ToAddress c.id) = some t ∧
      _mustHaveToken K (view c) remote = .ok _repr ∧ remote'.tokens _repr = some u ∧
      u.token.decimals = t.token.decimals ∧
      (Measured t.token.name → Carried t.token.name u.token.name) ∧
      (Measured t.token.symbol → Carried t.token.symbol u.token.symbol) := by
  rw [handle_message, require_bind_eq_ok, require_bind_eq_ok] at hrequest
  obtain ⟨hlocal, t, _name, _symbol, htoken, hname, hsymbol, rfl⟩ :=
    _handleRequestDetails_eq_ok hrequest.2.2
  obtain rfl := List.mem_singleton.mp hm
  rw [handle_message, require_bind_eq_ok, require_bind_eq_ok] at hdetails
  obtain ⟨_repr, u, hmust, -, -, rfl⟩ := _handleDetails_eq_ok hdetails.2.2
  exact ⟨t, _repr, _, hlocal, htoken, hmust, Chain.setToken_tokens_self .., rfl,
    carried_of_coerceBytes32 hname, carried_of_coerceBytes32 hsymbol⟩

/-! ### A token seen from domain 2

The token at address 4 of domain 1 has a chosen name, and address 7 of domain 2 is its
representation. -/

section Sample

def sampleDetails (name : List ℕ) : Token ℕ := ⟨name, [0x53], 6⟩

def sampleCanonical : TokenId ℕ := ⟨1, addressToBytes32 (sampleAddress 4)⟩

/-- Domain 1 with the token. -/
def sampleHome (name : List ℕ) : Chain ℕ :=
  (sampleChain 1).setToken (sampleAddress 4)
    { BridgeToken.init (sampleAddress 3) with token := sampleDetails name }

/-- Domain 2 with the representation. -/
def sampleRemote : Chain ℕ :=
  registered sampleCrypto sampleCanonical (sampleAddress 7)
    ((sampleChain 2).setToken (sampleAddress 7) (BridgeToken.init (sampleAddress 2)))

/-- Domain 2 once the representation has its details. -/
def sampleRemoteShowing (w : Bytes32 ℕ) : Chain ℕ :=
  sampleRemote.setToken (sampleAddress 7)
    { BridgeToken.init (sampleAddress 2) with token := ⟨coerceString w, [0x53], 6⟩ }

def sampleCarrier : Context ℕ := { sampleContext with isReplica := true }

/-- The request for the details of the token, and the answer. -/
def sampleAnswer (w : Bytes32 ℕ) : Dispatch ℕ :=
  ⟨2, addressToBytes32 (sampleAddress 2),
    message sampleCanonical (.details w (List.Vector.cons 0x53 (List.Vector.replicate 31 0)) 6)⟩

theorem handle_sampleHome {name : List ℕ} {w : Bytes32 ℕ} (h : coerceBytes32 name = .ok w) :
    handle sampleCrypto sampleCarrier 2 (addressToBytes32 (sampleAddress 2))
      (message sampleCanonical .requestDetails) (sampleHome name) =
      .ok (sampleHome name, [sampleAnswer w]) := by
  have hlocal : _isLocalOrigin (bytes32ToAddress sampleCanonical.id) (sampleHome name) = true :=
    rfl
  have htoken : viewToken (bytes32ToAddress sampleCanonical.id) (sampleHome name) =
      .ok { BridgeToken.init (sampleAddress 3) with token := sampleDetails name } := rfl
  have hsymbol : coerceBytes32 [0x53] =
      .ok (List.Vector.cons 0x53 (List.Vector.replicate 31 0) : Bytes32 ℕ) := rfl
  rw [handle_message, require_of (by rfl), ok_bind, require_of (by rfl), ok_bind]
  simp only [_handleRequestDetails, view, evmId_tokenIdView, ok_bind, require_of hlocal, htoken,
    sampleDetails, h, hsymbol, formatDetails_eq, formatMessage_view]
  rfl

theorem handle_sampleRemote (w : Bytes32 ℕ) :
    handle sampleCrypto sampleCarrier 1 (addressToBytes32 (sampleAddress 1))
      (sampleAnswer w).body sampleRemote =
      .ok (sampleRemoteShowing w, []) := by
  have hmust : _mustHaveToken sampleCrypto (view sampleCanonical) sampleRemote =
      .ok (sampleAddress 7) := by
    rw [_mustHaveToken, _getTokenAddress_view, ok_bind, if_neg (by decide)]
    simp only [sampleRemote, registered, Function.update_self]
    rfl
  have hremote : ¬ _isLocalOrigin (sampleAddress 7) sampleRemote = true := by decide
  have hcall : callToken sampleCarrier (sampleAddress 7)
      (BridgeToken.setDetails sampleRemote.address (coerceString w) [0x53] 6) sampleRemote =
      .ok (sampleRemoteShowing w) := callToken_of rfl rfl rfl
  rw [sampleAnswer, handle_message, require_of (by rfl), ok_bind, require_of (by rfl), ok_bind]
  have hsymbol : coerceString (List.Vector.cons 0x53 (List.Vector.replicate 31 0) : Bytes32 ℕ) =
      [0x53] := rfl
  simp only [_handleDetails, hmust, ok_bind, require_of hremote, name_view, symbol_view,
    decimals_view, hsymbol, hcall]

/-- A name of one byte. -/
theorem details_carried_sample :
    ∃ t _repr u, _isLocalOrigin (bytes32ToAddress sampleCanonical.id) (sampleHome [0x41]) = true ∧
      (sampleHome [0x41]).tokens (bytes32ToAddress sampleCanonical.id) = some t ∧
      _mustHaveToken sampleCrypto (view sampleCanonical) sampleRemote = .ok _repr ∧
      (sampleRemoteShowing (List.Vector.cons 0x41 (List.Vector.replicate 31 0))).tokens _repr =
        some u ∧
      u.token.decimals = t.token.decimals ∧
      (Measured t.token.name → Carried t.token.name u.token.name) ∧
      (Measured t.token.symbol → Carried t.token.symbol u.token.symbol) :=
  details_carried (handle_sampleHome (by rfl)) (List.mem_singleton.mpr rfl) (handle_sampleRemote _)

/-- Domain 2 asks for the details of the token, is answered, and shows another name. -/
def ShownAs (name shown : List ℕ) : Prop :=
  ∃ answer remote u, handle sampleCrypto sampleCarrier 2 (addressToBytes32 (sampleAddress 2))
      (message sampleCanonical .requestDetails) (sampleHome name) =
      .ok (sampleHome name, [answer]) ∧
    handle sampleCrypto sampleCarrier 1 (addressToBytes32 (sampleAddress 1)) answer.body
      sampleRemote = .ok (remote, []) ∧
    remote.tokens (sampleAddress 7) = some u ∧ u.token.name = shown

theorem shownAs_of {name : List ℕ} {w : Bytes32 ℕ} (h : coerceBytes32 name = .ok w) :
    ShownAs name (coerceString w) :=
  ⟨_, _, _, handle_sampleHome h, handle_sampleRemote w, Chain.setToken_tokens_self .., rfl⟩

/-- The reading stops at a zero byte inside the name, and of a name of 256 bytes the
length is lost before it is written. -/
theorem not_details_whole :
    ShownAs [0x41, 0x00, 0x42] [0x41] ∧ ShownAs (List.replicate 256 0x41) [] := by
  constructor
  · have hpadded : coerceBytes32 [0x41, 0x00, 0x42] =
        .ok (⟨[0x41, 0x00, 0x42] ++ List.replicate 29 0, rfl⟩ : Bytes32 ℕ) := rfl
    exact shownAs_of hpadded
  · have hlost : coerceBytes32 (List.replicate 256 (0x41 : ℕ)) = .ok 0 := by
      rw [coerceBytes32, List.length_replicate]
      rfl
    exact shownAs_of hlost

end Sample

end Optics.BridgeRouter
