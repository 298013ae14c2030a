/-
# What Home and Replica share

Both contracts hold the updater's address, a state and the latest signed root,
and both check the updater's signature on a pair of roots. The signed digest
binds the pair to the home domain, so a signature is good on the Home of that
domain and on each of its Replicas. A conflict is a pair of valid signatures on
the same old root and different new roots.
-/

import Optics.Solidity.Basic

namespace Optics.Common

open Optics.Solidity

variable {Byte : Type} [ByteAlphabet Byte]

/-- The enumeration `States`. -/
inductive States
  | UnInitialized
  | Active
  | Failed
  deriving DecidableEq, Repr

/-- The ASCII bytes of `"OPTICS"`. -/
def opticsBytes : List Byte := [0x4f, 0x50, 0x54, 0x49, 0x43, 0x53].map ofByte

/-- A signature as it is presented with the two roots it is meant to cover. -/
structure SignedUpdate (Byte : Type) where
  oldRoot : Bytes32 Byte
  newRoot : Bytes32 Byte
  signature : List Byte

/-- The updates lead from one root to another, each starting where the last
one ended. -/
def UpdateChain : Bytes32 Byte → List (SignedUpdate Byte) → Bytes32 Byte → Prop
  | start, [], finish => start = finish
  | start, u :: rest, finish => u.oldRoot = start ∧ UpdateChain u.newRoot rest finish

omit [ByteAlphabet Byte] in
theorem UpdateChain.append {a b c : Bytes32 Byte} {first second : List (SignedUpdate Byte)}
    (h : UpdateChain a first b) (h' : UpdateChain b second c) :
    UpdateChain a (first ++ second) c := by
  induction first generalizing a with
  | nil => exact h ▸ h'
  | cons u rest ih => exact ⟨h.1, ih h.2⟩

omit [ByteAlphabet Byte] in
theorem UpdateChain.snoc {start : Bytes32 Byte} {chain : List (SignedUpdate Byte)}
    {u : SignedUpdate Byte} (h : UpdateChain start chain u.oldRoot) :
    UpdateChain start (chain ++ [u]) u.newRoot :=
  h.append ⟨rfl, rfl⟩

section Signatures

variable (K : Crypto Byte)

/-- `_homeDomainHash`. -/
def _homeDomainHash (homeDomain : UInt32) : Bytes32 Byte :=
  K.keccak256 (uint32Bytes homeDomain ++ opticsBytes)

/-- The digest that the updater signs. -/
def updateDigest (homeDomain : UInt32) (oldRoot newRoot : Bytes32 Byte) : Bytes32 Byte :=
  K.toEthSignedMessageHash
    (K.keccak256 ((_homeDomainHash K homeDomain).toList ++ oldRoot.toList ++ newRoot.toList))

variable [DecidableEq Byte]

/-- `_isUpdaterSignature`. It reverts on a malformed signature. -/
def _isUpdaterSignature (homeDomain : UInt32) (updater : Address Byte)
    (oldRoot newRoot : Bytes32 Byte) (signature : List Byte) : Except Revert Bool := do
  let signer ← K.ecdsaRecover (updateDigest K homeDomain oldRoot newRoot) signature
  .ok (signer = updater)

/-- The condition of `doubleUpdate`. The conjuncts are evaluated from the left,
and the second signature is not looked at when the first is not the updater's. -/
def isDoubleUpdate (homeDomain : UInt32) (updater : Address Byte)
    (oldRoot newRoot₀ newRoot₁ : Bytes32 Byte) (signature signature₂ : List Byte) :
    Except Revert Bool := do
  let first ← _isUpdaterSignature K homeDomain updater oldRoot newRoot₀ signature
  if first then
    let second ← _isUpdaterSignature K homeDomain updater oldRoot newRoot₁ signature₂
    .ok (second && newRoot₀ ≠ newRoot₁)
  else .ok false

end Signatures

/-! ### What a valid signature is -/

section Signed

variable {K : Crypto Byte} [DecidableEq Byte] {homeDomain : UInt32} {updater : Address Byte}
  {oldRoot newRoot newRoot₀ newRoot₁ : Bytes32 Byte} {signature signature₂ : List Byte}

/-- The signature is the address's signature on the pair of roots. -/
def IsSignedBy (K : Crypto Byte) (homeDomain : UInt32) (signer : Address Byte)
    (update : SignedUpdate Byte) : Prop :=
  K.recover (updateDigest K homeDomain update.oldRoot update.newRoot) update.signature = some signer

theorem _isUpdaterSignature_eq_true :
    _isUpdaterSignature K homeDomain updater oldRoot newRoot signature = .ok true ↔
      IsSignedBy K homeDomain updater ⟨oldRoot, newRoot, signature⟩ := by
  rw [_isUpdaterSignature, bind_eq_ok, IsSignedBy]
  constructor
  · rintro ⟨signer, hrecover, hsigner⟩
    have heq : signer = updater := by simpa using hsigner
    exact heq ▸ Crypto.ecdsaRecover_eq_ok.mp hrecover
  · intro hrecover
    exact ⟨updater, Crypto.ecdsaRecover_eq_ok.mpr hrecover, by simp⟩

/-- The only error of a signature check is that of the recovery. -/
theorem eq_of_isUpdaterSignature_eq_error {e : Revert}
    (h : _isUpdaterSignature K homeDomain updater oldRoot newRoot signature = .error e) :
    e = .external "ECDSA" := by
  rcases bind_eq_error.mp h with hrecover | ⟨signer, -, hrest⟩
  · exact Crypto.eq_of_ecdsaRecover_eq_error hrecover
  · cases hrest

/-- A double update is a conflict between two signatures of the updater. -/
theorem isDoubleUpdate_eq_true :
    isDoubleUpdate K homeDomain updater oldRoot newRoot₀ newRoot₁ signature signature₂ = .ok true ↔
      IsSignedBy K homeDomain updater ⟨oldRoot, newRoot₀, signature⟩ ∧
        IsSignedBy K homeDomain updater ⟨oldRoot, newRoot₁, signature₂⟩ ∧
        newRoot₀ ≠ newRoot₁ := by
  rw [← _isUpdaterSignature_eq_true, ← _isUpdaterSignature_eq_true, isDoubleUpdate, bind_eq_ok]
  constructor
  · rintro ⟨first, hfirst, hrest⟩
    cases first with
    | false => simp at hrest
    | true =>
      rw [if_pos rfl, bind_eq_ok] at hrest
      obtain ⟨second, hsecond, hconflict⟩ := hrest
      obtain ⟨rfl, hne⟩ : second = true ∧ newRoot₀ ≠ newRoot₁ := by simpa using hconflict
      exact ⟨hfirst, hsecond, hne⟩
  · rintro ⟨hfirst, hsecond, hne⟩
    refine ⟨true, hfirst, ?_⟩
    rw [if_pos rfl, hsecond]
    simp [hne]

theorem eq_of_isDoubleUpdate_eq_error {e : Revert}
    (h : isDoubleUpdate K homeDomain updater oldRoot newRoot₀ newRoot₁ signature signature₂ =
      .error e) : e = .external "ECDSA" := by
  rcases bind_eq_error.mp h with hfirst | ⟨first, -, hrest⟩
  · exact eq_of_isUpdaterSignature_eq_error hfirst
  · split_ifs at hrest
    rcases bind_eq_error.mp hrest with hsecond | ⟨second, -, hrest⟩
    · exact eq_of_isUpdaterSignature_eq_error hsecond
    · cases hrest

end Signed

end Optics.Common
