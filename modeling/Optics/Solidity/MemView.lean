/-
# Typed memory views

The message formats of the applications are read through `TypedMemView`: a view
is a range of bytes in memory with a type, which is a number that only the code
using the view gives a meaning to. Slicing outside a view gives the null view,
which no later step accepts; reading outside a view reverts.
-/

import Optics.Solidity.Basic

namespace Optics.Solidity

variable {Byte : Type}

/-- A view other than the null view. -/
structure View (Byte : Type) where
  type : ℕ
  bytes : List Byte

namespace View

/-- `ref`. -/
def ref (bytes : List Byte) (newType : ℕ) : View Byte := ⟨newType, bytes⟩

/-- `len`. -/
def len (view : View Byte) : ℕ := view.bytes.length

/-- `castTo`. -/
def castTo (view : View Byte) (newType : ℕ) : View Byte := { view with type := newType }

/-- `assertType`. -/
def assertType (view : View Byte) (expected : ℕ) : Except Revert Unit :=
  if view.type = expected then .ok () else .error (.external "TypedMemView")

/-- `assertValid`, where the null view is `none`. -/
def assertValid : Option (View Byte) → Except Revert (View Byte)
  | some view => .ok view
  | none => .error (.external "TypedMemView")

/-- `slice`. A range outside the view gives the null view. -/
def slice (view : View Byte) (i n newType : ℕ) : Option (View Byte) :=
  if i + n ≤ view.len then some ⟨newType, (view.bytes.drop i).take n⟩ else none

/-- `index` of `n` bytes, aligned to the left of a word. -/
def index [ByteAlphabet Byte] (view : View Byte) (i n : ℕ) : Except Revert (Bytes32 Byte) := do
  if n = 0 then return 0
  let bytes ← viewIndex view.bytes i n
  if h : bytes.length ≤ 32 then
    .ok ⟨bytes ++ List.replicate (32 - bytes.length) (ofByte 0), by simp; omega⟩
  else .error (.external "TypedMemView")

/-- `indexUint` of at most 32 bytes. -/
def indexUint [ByteAlphabet Byte] (view : View Byte) (i n : ℕ) : Except Revert ℕ := do
  let bytes ← viewIndex view.bytes i n
  .ok (bytesUint bytes)

/-- `indexAddress`. -/
def indexAddress (view : View Byte) (i : ℕ) : Except Revert (Address Byte) :=
  if h : i + 20 ≤ view.len then
    .ok ⟨(view.bytes.drop i).take 20, by simp [len] at h ⊢; omega⟩
  else .error (.external "TypedMemView")

/-- `join`. -/
def join (views : List (View Byte)) : List Byte := (views.map bytes).flatten

/-- `keccak`. -/
def keccak (K : Crypto Byte) (view : View Byte) : Bytes32 Byte := K.keccak256 view.bytes

/-- `joinKeccak`. -/
def joinKeccak (K : Crypto Byte) (views : List (View Byte)) : Bytes32 Byte :=
  K.keccak256 (join views)

@[simp] theorem assertType_eq_ok {view : View Byte} {expected : ℕ} :
    view.assertType expected = .ok () ↔ view.type = expected := by
  unfold assertType
  split_ifs with h <;> simp [h]

@[simp] theorem assertType_bind_eq_ok {β : Type} {view : View Byte} {expected : ℕ}
    {f : Unit → Except Revert β} {b : β} :
    (view.assertType expected >>= f) = .ok b ↔ view.type = expected ∧ f () = .ok b := by
  unfold assertType
  split_ifs with h <;> simp [h]

@[simp] theorem assertValid_eq_ok {view : Option (View Byte)} {v : View Byte} :
    assertValid view = .ok v ↔ view = some v := by
  cases view <;> simp [assertValid]

/-! ### Reading what was written -/

section Append

variable (type : ℕ) (front back : List Byte) {i : ℕ}

theorem slice_append (word : List Byte) (h : i = front.length) {n : ℕ} (hn : n = word.length)
    (newType : ℕ) :
    (View.mk type (front ++ word ++ back)).slice i n newType = some ⟨newType, word⟩ := by
  subst h hn
  simp [slice, len]

theorem indexUint_append [ByteAlphabet Byte] {n : ℕ} (x : ℕ) (h : i = front.length) :
    (View.mk type (front ++ uintBytes n x ++ back)).indexUint i n = .ok (x % 256 ^ n) := by
  rw [indexUint, viewIndex_append front back _ h (by simp)]
  simp

theorem index_append [ByteAlphabet Byte] (w : Bytes32 Byte) (h : i = front.length) :
    (View.mk type (front ++ w.toList ++ back)).index i 32 = .ok w := by
  rw [index, if_neg (by decide), viewIndex_append front back _ h (by simp)]
  simp only [ok_bind, List.Vector.toList_length, le_refl, dite_true, Nat.sub_self,
    List.replicate_zero, List.append_nil]
  rfl

theorem indexAddress_append (a : Address Byte) (h : i = front.length) :
    (View.mk type (front ++ a.toList ++ back)).indexAddress i = .ok a := by
  subst h
  rw [indexAddress, dif_pos (by simp [len])]
  congr 1
  apply List.Vector.eq
  simp [List.Vector.toList]

end Append

/-! ### What a successful read says -/

section Read

variable {view : View Byte} {i : ℕ}

theorem viewIndex_eq_ok {bytes word : List Byte} {n : ℕ} :
    viewIndex bytes i n = .ok word ↔ i + n ≤ bytes.length ∧ word = (bytes.drop i).take n := by
  unfold viewIndex
  split_ifs with h <;> simp [h, eq_comm]

theorem indexUint_eq_ok [ByteAlphabet Byte] {n x : ℕ} : view.indexUint i n = .ok x ↔
    i + n ≤ view.len ∧ x = bytesUint ((view.bytes.drop i).take n) := by
  rw [indexUint, bind_eq_ok]
  simp only [viewIndex_eq_ok, Except.ok.injEq]
  constructor
  · rintro ⟨word, ⟨hlen, rfl⟩, rfl⟩
    exact ⟨hlen, rfl⟩
  · rintro ⟨hlen, rfl⟩
    exact ⟨_, ⟨hlen, rfl⟩, rfl⟩

theorem toList_of_index [ByteAlphabet Byte] {w : Bytes32 Byte} (h : view.index i 32 = .ok w) :
    i + 32 ≤ view.len ∧ w.toList = (view.bytes.drop i).take 32 := by
  rw [index, if_neg (by decide)] at h
  obtain ⟨word, hword, h⟩ := bind_eq_ok.mp h
  obtain ⟨hlen, rfl⟩ := viewIndex_eq_ok.mp hword
  have hlength : ((view.bytes.drop i).take 32).length = 32 := by
    rw [List.length_take, List.length_drop]
    omega
  rw [dif_pos hlength.le] at h
  refine ⟨hlen, ?_⟩
  rw [← Except.ok.inj h]
  simp only [List.Vector.toList_mk, hlength, Nat.sub_self, List.replicate_zero, List.append_nil]

theorem toList_of_indexAddress {a : Address Byte} (h : view.indexAddress i = .ok a) :
    i + 20 ≤ view.len ∧ a.toList = (view.bytes.drop i).take 20 := by
  unfold indexAddress at h
  split_ifs at h with hlen
  exact ⟨hlen, by rw [← Except.ok.inj h]; rfl⟩

end Read

end View

end Optics.Solidity
