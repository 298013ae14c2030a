/-
# One message format in three languages

The contracts pack a message, the agents write and read it field by field, and
the SDK cuts it up by offsets. All three agree on every message and on every
string of at least 76 bytes, over the true bytes. Leaves are therefore the same
value however they are computed: from the bytes, from the raw message of the
agents, from its parsed form, or from the fields that the contract reads.

The SDK handles byte strings as hex strings. The library that converts them is a
parameter, of which it is asked that `arrayify` undoes `hexlify`.
-/

import Optics.Agents.ReplicaProcessor

namespace Optics.MessageFormat

open Optics.Solidity Optics.KeyValue Optics.Message Optics.MessageIndex
open Optics.ReplicaProcessor

/-! ### The message of the contracts -/

/-- The fields of a message, packed by `formatMessage`. -/
def format (m : OpticsMessage UInt8) : List UInt8 :=
  formatMessage m.origin m.sender m.nonce m.destination m.recipient m.body

/-- What the accessors of the library read off a view. -/
def accessors (message : List UInt8) : Except Revert (OpticsMessage UInt8) := do
  .ok ⟨← origin message, ← sender message, ← nonce message, ← destination message,
    ← recipient message, ← body message⟩

/-! ### The message of the SDK -/

/-- The conversions of `@ethersproject/bytes`. `arrayify` throws on a string that
is not hex. -/
structure HexLibrary where
  arrayify : String → Option (List UInt8)
  hexlify : List UInt8 → String

/-- `arrayify` reads what `hexlify` writes. -/
def HexLibrary.Lawful (H : HexLibrary) : Prop :=
  ∀ bytes, H.arrayify (H.hexlify bytes) = some bytes

/-- `Buffer.readUInt32BE`, which throws when the bytes are missing. -/
def readUInt32BE (buf : List UInt8) (offset : ℕ) : Option ℕ :=
  if offset + 4 ≤ buf.length then some (bytesUint ((buf.drop offset).take 4)) else none

/-- `Buffer.slice`, clamped to the buffer. -/
def slice (buf : List UInt8) (start stop : ℕ) : List UInt8 := (buf.take stop).drop start

/-- `ParsedMessage`. -/
structure ParsedMessage where
  origin : ℕ
  sender : String
  nonce : ℕ
  destination : ℕ
  recipient : String
  body : String

section SDK

variable (H : HexLibrary)

/-- `parseMessage`. The field `origin` is called `from` there. -/
def parseMessage (message : String) : Option ParsedMessage := do
  let buf ← H.arrayify message
  let origin ← readUInt32BE buf 0
  let sender := H.hexlify (slice buf 4 36)
  let nonce ← readUInt32BE buf 36
  let destination ← readUInt32BE buf 40
  let recipient := H.hexlify (slice buf 44 76)
  let body := H.hexlify (slice buf 76 buf.length)
  some ⟨origin, sender, nonce, destination, recipient, body⟩

/-- A hex string as an argument of type `bytes32`. -/
def toBytes32 (text : String) : Option (Bytes32 UInt8) := do
  let bytes ← H.arrayify text
  if h : bytes.length = 32 then some ⟨bytes, h⟩ else none

/-- A number as an argument of type `uint32`. -/
def toUint32 (n : ℕ) : Option UInt32 :=
  if n < 2 ^ 32 then some (UInt32.ofNat n) else none

/-- The parsed fields, passed to `formatMessage`. -/
def ParsedMessage.format (m : ParsedMessage) : Option (List UInt8) := do
  some (formatMessage (← toUint32 m.origin) (← toBytes32 H m.sender) (← toUint32 m.nonce)
    (← toUint32 m.destination) (← toBytes32 H m.recipient) (← H.arrayify m.body))

/-- The fields of a message, as the SDK shows them. -/
def shown (m : OpticsMessage UInt8) : ParsedMessage :=
  ⟨m.origin.toNat, H.hexlify m.sender.toList, m.nonce.toNat, m.destination.toNat,
    H.hexlify m.recipient.toList, H.hexlify m.body⟩

end SDK

/-! ### Writing and reading back -/

section Format

variable (m : OpticsMessage UInt8)

theorem length_format : (format m).length = 76 + m.body.length :=
  length_formatMessage m.origin m.nonce m.destination m.sender m.recipient m.body

theorem writeTo_eq_format : writeTo m = format m := rfl

@[simp] theorem accessors_format : accessors (format m) = .ok m := by
  simp [accessors, format]

@[simp] theorem readFrom_format : OpticsMessage.readFrom (format m) = .ok m :=
  readFrom_formatMessage m.origin m.nonce m.destination m.sender m.recipient m.body

theorem readUInt32BE_append {offset : ℕ} {front : List UInt8} (h : offset = front.length)
    (x : UInt32) (back : List UInt8) :
    readUInt32BE (front ++ (uint32Bytes x ++ back)) offset = some x.toNat := by
  subst h
  have hx : x.toNat < 256 ^ 4 := x.toNat_lt
  rw [readUInt32BE, if_pos (by simp), List.drop_left, List.take_left' (length_uint32Bytes x),
    uint32Bytes, bytesUint_uintBytes, Nat.mod_eq_of_lt hx]

theorem slice_append {start stop : ℕ} {front middle : List UInt8} (h : start = front.length)
    (h' : stop = start + middle.length) (back : List UInt8) :
    slice (front ++ (middle ++ back)) start stop = middle := by
  subst h h'
  rw [slice, ← List.append_assoc, List.take_left' List.length_append, List.drop_left]

/-- The SDK parses the packed fields, from whichever hex string it gets them. -/
theorem parseMessage_format (H : HexLibrary) {text : String}
    (h : H.arrayify text = some (format m)) : parseMessage H text = some (shown H m) := by
  have horigin : readUInt32BE (format m) 0 = some m.origin.toNat := by
    have hoffset : 0 = ([] : List UInt8).length := rfl
    have hread := readUInt32BE_append hoffset m.origin
      (m.sender.toList ++ (uint32Bytes m.nonce ++ (uint32Bytes m.destination ++
        (m.recipient.toList ++ m.body))))
    simpa [format, formatMessage] using hread
  have hsender : slice (format m) 4 36 = m.sender.toList := by
    have hstart : 4 = (uint32Bytes m.origin : List UInt8).length := by simp
    have hread := slice_append hstart (by simp : 36 = 4 + m.sender.toList.length)
      (uint32Bytes m.nonce ++ (uint32Bytes m.destination ++ (m.recipient.toList ++ m.body)))
    simpa [format, formatMessage] using hread
  have hnonce : readUInt32BE (format m) 36 = some m.nonce.toNat := by
    have hoffset : 36 = (uint32Bytes m.origin ++ m.sender.toList).length := by simp
    have hread := readUInt32BE_append hoffset m.nonce
      (uint32Bytes m.destination ++ (m.recipient.toList ++ m.body))
    simpa [format, formatMessage] using hread
  have hdestination : readUInt32BE (format m) 40 = some m.destination.toNat := by
    have hoffset : 40 =
        (uint32Bytes m.origin ++ m.sender.toList ++ uint32Bytes m.nonce).length := by simp
    have hread := readUInt32BE_append hoffset m.destination (m.recipient.toList ++ m.body)
    simpa [format, formatMessage] using hread
  have hrecipient : slice (format m) 44 76 = m.recipient.toList := by
    have hstart : 44 = (uint32Bytes m.origin ++ m.sender.toList ++ uint32Bytes m.nonce ++
        uint32Bytes m.destination).length := by simp
    have hread := slice_append hstart (by simp : 76 = 44 + m.recipient.toList.length) m.body
    simpa [format, formatMessage] using hread
  have hbody : slice (format m) 76 (format m).length = m.body := by
    have hstart : 76 = (uint32Bytes m.origin ++ m.sender.toList ++ uint32Bytes m.nonce ++
        uint32Bytes m.destination ++ m.recipient.toList).length := by simp
    have hread := slice_append hstart (length_format m) []
    rw [List.append_nil] at hread
    exact hread
  simp [parseMessage, h, horigin, hsender, hnonce, hdestination, hrecipient, hbody, shown]

/-- The parsed fields pack to the message again. -/
theorem format_shown {H : HexLibrary} (hlaw : H.Lawful) :
    (shown H m).format H = some (format m) := by
  have huint : ∀ x : UInt32, toUint32 x.toNat = some x := fun x => by
    rw [toUint32, if_pos x.toNat_lt, UInt32.ofNat_toNat]
  have hword : ∀ w : Bytes32 UInt8, toBytes32 H (H.hexlify w.toList) = some w := fun w => by
    simp only [toBytes32, hlaw w.toList, Option.bind_eq_bind, Option.bind_some]
    exact dif_pos w.toList_length
  simp [ParsedMessage.format, shown, huint, hword, hlaw m.body, format]

end Format

/-! ### Every long enough string is a message -/

theorem exists_format {bytes : List UInt8} (h : 76 ≤ bytes.length) : ∃ m, format m = bytes := by
  obtain ⟨o, s, n, d, r, b, hbytes⟩ := exists_formatMessage h
  exact ⟨⟨o, s, n, d, r, b⟩, hbytes⟩

theorem readUint32_cases (bytes : List UInt8) :
    readUint32 bytes = .error .ioError ∨
      ∃ x rest, readUint32 bytes = .ok (x, rest) ∧ bytes.length = 4 + rest.length := by
  by_cases h : 4 ≤ bytes.length
  · refine Or.inr ⟨bytesUint32 (bytes.take 4), bytes.drop 4, ?_, by rw [List.length_drop]; omega⟩
    rw [readUint32, readExact, if_pos h, ok_bind]
  · refine Or.inl ?_
    rw [readUint32, readExact, if_neg h]
    rfl

theorem readWord_cases (bytes : List UInt8) :
    readWord bytes = .error .ioError ∨
      ∃ w rest, readWord bytes = .ok (w, rest) ∧ bytes.length = 32 + rest.length := by
  by_cases h : 32 ≤ bytes.length
  · have hlength : (bytes.take 32).length = 32 := by simpa using h
    refine Or.inr ⟨⟨bytes.take 32, hlength⟩, bytes.drop 32, ?_, by rw [List.length_drop]; omega⟩
    rw [readWord, dif_pos h]
  · refine Or.inl ?_
    rw [readWord, dif_neg h]

/-- A short string runs out in one of the five fixed fields. -/
theorem readFrom_of_short {bytes : List UInt8} (h : bytes.length < 76) :
    OpticsMessage.readFrom bytes = .error .ioError := by
  rw [OpticsMessage.readFrom]
  obtain herror | ⟨o, afterOrigin, hread, horigin⟩ := readUint32_cases bytes
  · rw [herror]
    rfl
  rw [hread, ok_bind]
  obtain herror | ⟨s, afterSender, hread, hsender⟩ := readWord_cases afterOrigin
  · simp only [herror]
    rfl
  simp only [hread, ok_bind]
  obtain herror | ⟨n, afterNonce, hread, hnonce⟩ := readUint32_cases afterSender
  · simp only [herror]
    rfl
  simp only [hread, ok_bind]
  obtain herror | ⟨d, afterDestination, hread, hdestination⟩ := readUint32_cases afterNonce
  · simp only [herror]
    rfl
  simp only [hread, ok_bind]
  obtain herror | ⟨r, rest, hread, hrecipient⟩ := readWord_cases afterDestination
  · simp only [herror]
    rfl
  -- all five fields were read, so the string was not short
  omega

/-- **One format.** Contract, agents and SDK write and read messages alike: each
decoder recovers the fields of a packed message; each string of at least 76
bytes is packed from what each decoder finds in it, and has one leaf; shorter
strings are refused by the agents; and raw committed messages are read back. -/
theorem one_format (K : Crypto UInt8) (H : HexLibrary) (hlaw : H.Lawful) :
    (∀ m : OpticsMessage UInt8,
      writeTo m = formatMessage m.origin m.sender m.nonce m.destination m.recipient m.body ∧
      accessors (writeTo m) = .ok m ∧
      OpticsMessage.readFrom (writeTo m) = .ok m ∧
      ∀ text, H.arrayify text = some (writeTo m) →
        parseMessage H text = some ⟨m.origin.toNat, H.hexlify m.sender.toList, m.nonce.toNat,
          m.destination.toNat, H.hexlify m.recipient.toList, H.hexlify m.body⟩) ∧
    (∀ bytes : List UInt8, 76 ≤ bytes.length →
      (∃ m, accessors bytes = .ok m ∧ format m = bytes) ∧
      (∃ m, OpticsMessage.readFrom bytes = .ok m ∧ writeTo m = bytes) ∧
      ∀ text, H.arrayify text = some bytes →
        ∃ m, parseMessage H text = some m ∧ m.format H = some bytes) ∧
    (∀ bytes : List UInt8, bytes.length < 76 →
      OpticsMessage.readFrom bytes = .error .ioError) ∧
    (∀ (bytes : List UInt8) (leafIndex : UInt32) (committedRoot : Bytes32 UInt8),
      76 ≤ bytes.length →
      RawCommittedMessage.leaf K ⟨leafIndex, committedRoot, bytes⟩ = K.keccak256 bytes ∧
      (∃ message, CommittedMessage.tryFrom ⟨leafIndex, committedRoot, bytes⟩ = .ok message ∧
        message.toLeaf K = K.keccak256 bytes) ∧
      Message.leaf K bytes = .ok (K.keccak256 bytes)) ∧
    ∀ raw : RawCommittedMessage UInt8,
      RawCommittedMessage.readFrom raw.writeTo = .ok (raw, []) := by
  refine ⟨fun m => ⟨writeTo_eq_format m, accessors_format m, readFrom_format m, fun text htext =>
    parseMessage_format m H htext⟩, ?_, fun bytes h => readFrom_of_short h, ?_,
    RawCommittedMessage.readFrom_writeTo⟩
  · intro bytes h
    obtain ⟨m, rfl⟩ := exists_format h
    exact ⟨⟨m, accessors_format m, rfl⟩, ⟨m, readFrom_format m, rfl⟩, fun text htext =>
      ⟨shown H m, parseMessage_format m H htext, format_shown m hlaw⟩⟩
  · intro bytes leafIndex committedRoot h
    obtain ⟨m, rfl⟩ := exists_format h
    refine ⟨rfl, ⟨⟨leafIndex, committedRoot, m⟩, ?_, rfl⟩, ?_⟩
    · rw [CommittedMessage.tryFrom, readFrom_format, ok_bind]
    · exact leaf_formatMessage m.origin m.nonce m.destination m.sender m.recipient m.body K

/-! ### A hex library -/

/-- The character of a lower case hex digit. -/
def hexDigit (n : ℕ) : Char := Char.ofNat (if n < 10 then 48 + n else 87 + n)

/-- The value of a hex digit of either case. -/
def hexValue (c : Char) : Option ℕ :=
  if 48 ≤ c.toNat ∧ c.toNat ≤ 57 then some (c.toNat - 48)
  else if 97 ≤ c.toNat ∧ c.toNat ≤ 102 then some (c.toNat - 87)
  else if 65 ≤ c.toNat ∧ c.toNat ≤ 70 then some (c.toNat - 55)
  else none

/-- Two digits to a byte. A digit left over is refused. -/
def hexBytes : List Char → Option (List UInt8)
  | [] => some []
  | [_] => none
  | high :: low :: rest => do
    some (UInt8.ofNat (16 * (← hexValue high) + (← hexValue low)) :: (← hexBytes rest))

def hexDigits : List UInt8 → List Char
  | [] => []
  | b :: rest => hexDigit (b.toNat / 16) :: hexDigit (b.toNat % 16) :: hexDigits rest

/-- Hex strings with the mark `0x`, lower case when written. -/
def hexLibrary : HexLibrary where
  arrayify text :=
    match text.toList with
    | '0' :: 'x' :: digits => hexBytes digits
    | _ => none
  hexlify bytes := String.ofList ('0' :: 'x' :: hexDigits bytes)

theorem hexValue_hexDigit : ∀ n < 16, hexValue (hexDigit n) = some n := by decide

theorem hexBytes_hexDigits (bytes : List UInt8) : hexBytes (hexDigits bytes) = some bytes := by
  induction bytes with
  | nil => rfl
  | cons b rest ih =>
    have hb : b.toNat < 256 := b.toNat_lt
    have hhigh := hexValue_hexDigit (b.toNat / 16) (by omega)
    have hlow := hexValue_hexDigit (b.toNat % 16) (by omega)
    have hbyte : 16 * (b.toNat / 16) + b.toNat % 16 = b.toNat := Nat.div_add_mod b.toNat 16
    simp only [hexDigits, hexBytes, hhigh, hlow, ih, Option.bind_eq_bind, Option.bind_some]
    rw [hbyte, UInt8.ofNat_toNat]

theorem hexLibrary_lawful : hexLibrary.Lawful := fun bytes => by
  simp only [hexLibrary, String.toList_ofList]
  exact hexBytes_hexDigits bytes

def sampleMessage : OpticsMessage UInt8 := ⟨1000, 0, 7, 2000, 0, [42]⟩

/-- The hex string of a message, parsed. -/
theorem one_format_sample :
    hexLibrary.Lawful ∧
    parseMessage hexLibrary (hexLibrary.hexlify (writeTo sampleMessage)) =
      some ⟨1000, hexLibrary.hexlify (0 : Bytes32 UInt8).toList, 7, 2000,
        hexLibrary.hexlify (0 : Bytes32 UInt8).toList, "0x2a"⟩ := by
  obtain ⟨hmessage, -⟩ := one_format ⟨fun _ => 0, fun _ _ => none⟩ hexLibrary hexLibrary_lawful
  obtain ⟨-, -, -, hparse⟩ := hmessage sampleMessage
  exact ⟨hexLibrary_lawful, hparse _ (hexLibrary_lawful _)⟩

end Optics.MessageFormat
