/-
# The message library

A message is the packed concatenation of origin, sender, nonce, destination and
recipient, 76 bytes in all, followed by the body. The accessors read it back by
offsets and revert when the bytes are missing.
-/

import Optics.Solidity.Basic

namespace Optics.Message

open Optics.Solidity

variable {Byte : Type} [ByteAlphabet Byte]

def PREFIX_LENGTH : ℕ := 76

/-- `formatMessage`. -/
def formatMessage (originDomain : UInt32) (sender : Bytes32 Byte) (nonce destinationDomain : UInt32)
    (recipient : Bytes32 Byte) (messageBody : List Byte) : List Byte :=
  uint32Bytes originDomain ++ sender.toList ++ uint32Bytes nonce ++
    uint32Bytes destinationDomain ++ recipient.toList ++ messageBody

/-- `origin`. -/
def origin (message : List Byte) : Except Revert UInt32 := viewUint32 message 0

/-- `nonce`. -/
def nonce (message : List Byte) : Except Revert UInt32 := viewUint32 message 36

/-- `destination`. -/
def destination (message : List Byte) : Except Revert UInt32 := viewUint32 message 40

section Words

omit [ByteAlphabet Byte]

/-- `sender`. -/
def sender (message : List Byte) : Except Revert (Bytes32 Byte) := viewWord message 4

/-- `recipient`. -/
def recipient (message : List Byte) : Except Revert (Bytes32 Byte) := viewWord message 44

/-- `recipientAddress`. -/
def recipientAddress (message : List Byte) : Except Revert (Address Byte) := do
  let word ← recipient message
  .ok (bytes32ToAddress word)

/-- `body`, cloned. The subtraction of a short length wraps in the source, which
gives a null view; both ways the clone reverts. -/
def body (message : List Byte) : Except Revert (List Byte) :=
  viewClone message PREFIX_LENGTH (message.length - PREFIX_LENGTH)

end Words

section Leaf

variable (K : Crypto Byte)

/-- `messageHash`. -/
def messageHash (_origin : UInt32) (_sender : Bytes32 Byte) (_nonce _destination : UInt32)
    (_recipient : Bytes32 Byte) (_body : List Byte) : Bytes32 Byte :=
  K.keccak256 (formatMessage _origin _sender _nonce _destination _recipient _body)

/-- `leaf`. -/
def leaf (message : List Byte) : Except Revert (Bytes32 Byte) := do
  let origin ← origin message
  let sender ← sender message
  let nonce ← nonce message
  let destination ← destination message
  let recipient ← recipient message
  let body ← body message
  .ok (messageHash K origin sender nonce destination recipient body)

end Leaf

section Format

variable (o n d : UInt32) (s r : Bytes32 Byte) (b : List Byte)

theorem length_formatMessage :
    (formatMessage o s n d r b).length = PREFIX_LENGTH + b.length := by
  simp [formatMessage, PREFIX_LENGTH]
  omega

@[simp] theorem origin_formatMessage : origin (formatMessage o s n d r b) = .ok o := by
  have h := viewUint32_append [] (s.toList ++ uint32Bytes n ++ uint32Bytes d ++ r.toList ++ b) o
    (rfl : 0 = ([] : List Byte).length)
  simpa [origin, formatMessage] using h

@[simp] theorem sender_formatMessage : sender (formatMessage o s n d r b) = .ok s := by
  have hoffset : 4 = (uint32Bytes o : List Byte).length := by simp
  have h := viewWord_append _ (uint32Bytes n ++ uint32Bytes d ++ r.toList ++ b) s hoffset
  simpa [sender, formatMessage] using h

@[simp] theorem nonce_formatMessage : nonce (formatMessage o s n d r b) = .ok n := by
  have hoffset : 36 = (uint32Bytes o ++ s.toList).length := by simp
  have h := viewUint32_append _ (uint32Bytes d ++ r.toList ++ b) n hoffset
  simpa [nonce, formatMessage] using h

@[simp] theorem destination_formatMessage :
    destination (formatMessage o s n d r b) = .ok d := by
  have hoffset : 40 = (uint32Bytes o ++ s.toList ++ uint32Bytes n).length := by simp
  have h := viewUint32_append _ (r.toList ++ b) d hoffset
  simpa [destination, formatMessage] using h

@[simp] theorem recipient_formatMessage : recipient (formatMessage o s n d r b) = .ok r := by
  have hoffset : 44 = (uint32Bytes o ++ s.toList ++ uint32Bytes n ++ uint32Bytes d).length := by
    simp
  have h := viewWord_append _ b r hoffset
  simpa [recipient, formatMessage] using h

@[simp] theorem recipientAddress_formatMessage :
    recipientAddress (formatMessage o s n d r b) = .ok (bytes32ToAddress r) := by
  simp [recipientAddress]

@[simp] theorem body_formatMessage : body (formatMessage o s n d r b) = .ok b := by
  have hoffset : PREFIX_LENGTH =
      (uint32Bytes o ++ s.toList ++ uint32Bytes n ++ uint32Bytes d ++ r.toList).length := by
    simp [PREFIX_LENGTH]
  have h := viewIndex_append _ [] b hoffset rfl
  rw [body, viewClone, length_formatMessage, Nat.add_sub_cancel_left]
  simpa [formatMessage] using h

@[simp] theorem leaf_formatMessage (K : Crypto Byte) :
    leaf K (formatMessage o s n d r b) = .ok (K.keccak256 (formatMessage o s n d r b)) := by
  simp [leaf, messageHash]

end Format

/-- Every string of true bytes that is long enough is a message. -/
theorem exists_formatMessage {bytes : List UInt8} (h : PREFIX_LENGTH ≤ bytes.length) :
    ∃ o s n d r b, formatMessage o s n d r b = bytes := by
  rw [PREFIX_LENGTH] at h
  have hint : ∀ i, i + 4 ≤ bytes.length →
      uint32Bytes (bytesUint32 ((bytes.drop i).take 4)) = (bytes.drop i).take 4 :=
    fun i hi => uint32Bytes_bytesUint32 (by rw [List.length_take, List.length_drop]; omega)
  have hword : ∀ i, i + 32 ≤ bytes.length →
      ∃ w : Bytes32 UInt8, w.toList = (bytes.drop i).take 32 :=
    fun i hi => ⟨⟨(bytes.drop i).take 32, by rw [List.length_take, List.length_drop]; omega⟩, rfl⟩
  have hsplit : ∀ i n, (bytes.drop i).take n ++ bytes.drop (i + n) = bytes.drop i := fun i n => by
    rw [← List.drop_drop, List.take_append_drop]
  obtain ⟨s, hs⟩ := hword 4 (by omega)
  obtain ⟨r, hr⟩ := hword 44 (by omega)
  refine ⟨bytesUint32 ((bytes.drop 0).take 4), s, bytesUint32 ((bytes.drop 36).take 4),
    bytesUint32 ((bytes.drop 40).take 4), r, bytes.drop 76, ?_⟩
  rw [formatMessage, hs, hr, hint 0 (by omega), hint 36 (by omega), hint 40 (by omega)]
  -- the six pieces put together again, the last one first
  simp only [List.append_assoc]
  rw [hsplit 44 32, hsplit 40 4, hsplit 36 4, hsplit 4 32, hsplit 0 4]
  rfl

end Optics.Message
