/-
# Reverts, hashing and memory views

A call either returns or reverts, and a revert is an error that the caller of
the transaction sees. The two cryptographic primitives are parameters: keccak
and signature recovery. What the security arguments assume of keccak is stated
once, as a predicate on the parameter, and is met by a concrete hash over the
alphabet of natural numbers.
-/

import Mathlib.Logic.Equiv.List
import Optics.Solidity.Bytes

namespace Optics.Solidity

variable {Byte : Type}

/-! ### Reverts -/

/-- Why a call reverted: a failed `require`, a failed `assert`, or a revert of
a library or contract that was called. -/
inductive Revert
  | require (reason : String)
  | assert
  | external (callee : String)
  deriving DecidableEq, Repr

/-- `require(condition, reason)`. -/
def require (condition : Prop) [Decidable condition] (reason : String) : Except Revert Unit :=
  if condition then .ok () else .error (.require reason)

section Except

variable {ε α β : Type} {x : Except ε α} {f : α → Except ε β} {b : β}

theorem bind_eq_ok : (x >>= f) = .ok b ↔ ∃ a, x = .ok a ∧ f a = .ok b := by
  cases x with
  | error e => simp [bind, Except.bind]
  | ok a => simp [bind, Except.bind]

theorem bind_eq_error {e : ε} :
    (x >>= f) = .error e ↔ x = .error e ∨ ∃ a, x = .ok a ∧ f a = .error e := by
  cases x with
  | error e => simp [bind, Except.bind]
  | ok a => simp [bind, Except.bind]

@[simp] theorem ok_bind (a : α) : (Except.ok a >>= f : Except ε β) = f a := rfl

@[simp] theorem error_bind (e : ε) : (Except.error e >>= f : Except ε β) = .error e := rfl

end Except

section Require

variable {condition : Prop} [Decidable condition] {reason : String}
  {β : Type} {f : Unit → Except Revert β} {b : β}

@[simp] theorem require_eq_ok : require condition reason = .ok () ↔ condition := by
  unfold require
  split_ifs with h <;> simp [h]

theorem require_of (h : condition) : require condition reason = .ok () := require_eq_ok.mpr h

theorem require_of_not (h : ¬ condition) :
    require condition reason = .error (.require reason) := if_neg h

@[simp] theorem require_bind_eq_ok :
    (require condition reason >>= f) = .ok b ↔ condition ∧ f () = .ok b := by
  unfold require
  split_ifs with h <;> simp [h]

theorem require_bind_eq_error {e : Revert} :
    (require condition reason >>= f) = .error e ↔
      (¬ condition ∧ e = .require reason) ∨ (condition ∧ f () = .error e) := by
  unfold require
  split_ifs with h <;> simp [h, eq_comm]

end Require

/-! ### Hashing and signatures -/

/-- The cryptographic primitives: `keccak256` and the address that
`ECDSA.recover` returns for a digest and a signature, if it does not revert. -/
structure Crypto (Byte : Type) where
  keccak256 : List Byte → Bytes32 Byte
  recover : Bytes32 Byte → List Byte → Option (Address Byte)

namespace Crypto

/-- `keccak256(abi.encodePacked(a, b))` of two words. -/
def hashPair (K : Crypto Byte) (a b : Bytes32 Byte) : Bytes32 Byte :=
  K.keccak256 (a.toList ++ b.toList)

/-- `ECDSA.recover`. -/
def ecdsaRecover (K : Crypto Byte) (digest : Bytes32 Byte) (signature : List Byte) :
    Except Revert (Address Byte) :=
  match K.recover digest signature with
  | some signer => .ok signer
  | none => .error (.external "ECDSA")

@[simp] theorem ecdsaRecover_eq_ok {K : Crypto Byte} {digest : Bytes32 Byte}
    {signature : List Byte} {signer : Address Byte} :
    K.ecdsaRecover digest signature = .ok signer ↔ K.recover digest signature = some signer := by
  unfold ecdsaRecover
  split <;> simp_all

theorem eq_of_ecdsaRecover_eq_error {K : Crypto Byte} {digest : Bytes32 Byte}
    {signature : List Byte} {e : Revert} (h : K.ecdsaRecover digest signature = .error e) :
    e = .external "ECDSA" := by
  unfold ecdsaRecover at h
  split at h
  · cases h
  · exact (Except.error.inj h).symm

variable [ByteAlphabet Byte]

/-- The ASCII bytes of `"\x19Ethereum Signed Message:\n32"`. -/
def ethSignedMessagePrefix : List Byte :=
  [0x19, 0x45, 0x74, 0x68, 0x65, 0x72, 0x65, 0x75, 0x6d, 0x20, 0x53, 0x69, 0x67, 0x6e,
    0x65, 0x64, 0x20, 0x4d, 0x65, 0x73, 0x73, 0x61, 0x67, 0x65, 0x3a, 0x0a, 0x33, 0x32].map ofByte

/-- `ECDSA.toEthSignedMessageHash`. -/
def toEthSignedMessageHash (K : Crypto Byte) (hash : Bytes32 Byte) : Bytes32 Byte :=
  K.keccak256 (ethSignedMessagePrefix ++ hash.toList)

/-- Keccak as an ideal hash: injective, and never the zero word. -/
structure IdealHash (K : Crypto Byte) : Prop where
  injective : Function.Injective K.keccak256
  ne_zero : ∀ bytes, K.keccak256 bytes ≠ 0

namespace IdealHash

variable {K : Crypto Byte} (ideal : IdealHash K)
include ideal

theorem hashPair_injective : Function.Injective2 K.hashPair := by
  intro a b c d h
  obtain ⟨hfirst, hsecond⟩ := toList_append_inj (ideal.injective h)
  exact ⟨hfirst, List.Vector.eq _ _ hsecond⟩

theorem hashPair_ne_zero (a b : Bytes32 Byte) : K.hashPair a b ≠ 0 := ideal.ne_zero _

theorem toEthSignedMessageHash_injective : Function.Injective K.toEthSignedMessageHash :=
  fun _ _ h => List.Vector.eq _ _ (List.append_cancel_left (ideal.injective h))

end IdealHash

end Crypto

/-! ### An alphabet with an ideal hash -/

instance byteAlphabetNat : ByteAlphabet ℕ where
  ofByte b := b.toNat
  toByte n := UInt8.ofNat n
  toByte_ofByte _ := UInt8.ofNat_toNat

/-- A hash of byte strings over `ℕ` that puts an encoding of the whole string
into the first byte. -/
def idealKeccak (bytes : List ℕ) : Bytes32 ℕ :=
  ⟨(Encodable.encode bytes + 1) :: List.replicate 31 0, by simp⟩

/-- The ideal hash together with a signature recovery. -/
def Crypto.withIdealHash (recover : Bytes32 ℕ → List ℕ → Option (Address ℕ)) : Crypto ℕ where
  keccak256 := idealKeccak
  recover := recover

theorem Crypto.withIdealHash_ideal (recover : Bytes32 ℕ → List ℕ → Option (Address ℕ)) :
    IdealHash (Crypto.withIdealHash recover) where
  injective a b h := by
    have hhead := congrArg (fun w : Bytes32 ℕ => w.toList.head?) h
    simpa [withIdealHash, idealKeccak, List.Vector.toList] using hhead
  ne_zero bytes h := by
    have hhead := congrArg (fun w : Bytes32 ℕ => w.toList.head?) h
    exact Nat.succ_ne_zero _ (Option.some.inj hhead)

/-! ### Memory views -/

/-- `TypedMemView.index`: `n` bytes from offset `i`, reverting when the view is
too short. -/
def viewIndex (view : List Byte) (i n : ℕ) : Except Revert (List Byte) :=
  if i + n ≤ view.length then .ok ((view.drop i).take n) else .error (.external "TypedMemView")

/-- `TypedMemView.index` of a whole word. -/
def viewWord (view : List Byte) (i : ℕ) : Except Revert (Bytes32 Byte) :=
  if h : i + 32 ≤ view.length then
    .ok ⟨(view.drop i).take 32, by simp; omega⟩
  else .error (.external "TypedMemView")

/-- `TypedMemView.slice` followed by `clone`: the bytes of a range inside the
view. A range outside gives the null view, which cannot be cloned. -/
def viewClone (view : List Byte) (i n : ℕ) : Except Revert (List Byte) :=
  viewIndex view i n

/-- `uint32(view.indexUint(i, 4))`. -/
def viewUint32 [ByteAlphabet Byte] (view : List Byte) (i : ℕ) : Except Revert UInt32 := do
  let bytes ← viewIndex view i 4
  .ok (bytesUint32 bytes)

section View

variable (front back : List Byte) {i : ℕ}

theorem viewIndex_append (word : List Byte) (h : i = front.length) {n : ℕ}
    (hn : n = word.length) :
    viewIndex (front ++ word ++ back) i n = .ok word := by
  subst h hn
  simp [viewIndex]

theorem viewWord_append (w : Bytes32 Byte) (h : i = front.length) :
    viewWord (front ++ w.toList ++ back) i = .ok w := by
  subst h
  rw [viewWord, dif_pos (by simp)]
  congr 1
  apply List.Vector.eq
  simp [List.Vector.toList]

theorem viewUint32_append [ByteAlphabet Byte] (x : UInt32) (h : i = front.length) :
    viewUint32 (front ++ uint32Bytes x ++ back) i = .ok x := by
  rw [viewUint32, viewIndex_append front back _ h (by simp)]
  simp

end View

end Optics.Solidity
