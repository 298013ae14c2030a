/-
# Encoded numbers are numerals

The loop of `decimalUint32` puts one digit above the last, and the loops of
`encodeHex` push two digits in below, with bitwise ors of words that never overlap.
So what they return are the numerals of their arguments, read as big-endian words,
and no shift loses a bit of them. The counters of a loop of `encodeHex` do not
depend on its argument.
-/

import Optics.Bridge.TokenRegistry
import Optics.Math.Numerals

namespace Optics.Encoding

open Optics.Solidity Optics.Math

/-! ### Digits in ASCII -/

/-- The digits `0` to `9`. -/
def asciiDecimal : Numerals UInt8 where
  base := 10
  glyph d := UInt8.ofNat (0x30 + d)
  digit b := if 0x30 ≤ b ∧ b ≤ 0x39 then some (b.toNat - 0x30) else none
  base_pos := by decide
  digit_glyph := by decide

/-- The digits `0` to `9` and `a` to `f`. -/
def asciiHex : Numerals UInt8 where
  base := 16
  glyph d := UInt8.ofNat (if d < 10 then 0x30 + d else 0x61 + (d - 10))
  digit b :=
    if 0x30 ≤ b ∧ b ≤ 0x39 then some (b.toNat - 0x30)
    else if 0x61 ≤ b ∧ b ≤ 0x66 then some (b.toNat - 0x61 + 10)
    else none
  base_pos := by decide
  digit_glyph := by decide

/-- An or with a word shifted above another one is a sum. -/
theorem or_shiftLeft {low i : ℕ} (h : low < 2 ^ i) (high : ℕ) :
    low ||| high <<< i = high * 2 ^ i + low := by
  rw [Nat.or_comm, ← Nat.shiftLeft_add_eq_or_of_lt h, Nat.shiftLeft_eq]

/-! ### Decimal digits -/

theorem toNat_asciiDecimal_glyph {d : ℕ} (h : d < 10) :
    (asciiDecimal.glyph d).toNat = d + 0x30 := by
  have hsmall : 0x30 + d < 2 ^ 8 := by omega
  rw [asciiDecimal, UInt8.toNat_ofNat', Nat.mod_eq_of_lt hsmall, Nat.add_comm]

/-- The rounds left put the numeral of the number left above what is encoded. -/
theorem decimalLoop_eq (rounds i _num : ℕ) {_encoded : ℕ} (h : _encoded < 2 ^ (i * 8)) :
    decimalLoop rounds i _num _encoded =
      bytesUint (asciiDecimal.numeral rounds _num) * 2 ^ (i * 8) + _encoded := by
  induction rounds generalizing i _num _encoded with
  | zero => simp [decimalLoop, Numerals.numeral, bytesUint]
  | succ rounds ih =>
    have hdigit : _num % 10 < 10 := Nat.mod_lt _ (by decide)
    have hpow : 2 ^ ((i + 1) * 8) = 256 * 2 ^ (i * 8) := by rw [Nat.succ_mul, pow_add]; ring
    have hnext : (_num % 10 + 0x30) * 2 ^ (i * 8) + _encoded < 2 ^ ((i + 1) * 8) :=
      calc (_num % 10 + 0x30) * 2 ^ (i * 8) + _encoded
          < (_num % 10 + 0x30) * 2 ^ (i * 8) + 2 ^ (i * 8) := Nat.add_lt_add_left h _
        _ = (_num % 10 + 0x30 + 1) * 2 ^ (i * 8) := (Nat.succ_mul ..).symm
        _ ≤ 256 * 2 ^ (i * 8) := Nat.mul_le_mul_right _ (by omega)
        _ = 2 ^ ((i + 1) * 8) := hpow.symm
    have hglyph : (toByte (asciiDecimal.glyph (_num % 10))).toNat = _num % 10 + 0x30 :=
      toNat_asciiDecimal_glyph hdigit
    have hnumeral : asciiDecimal.numeral (rounds + 1) _num =
      asciiDecimal.numeral rounds (_num / 10) ++ [asciiDecimal.glyph (_num % 10)] := rfl
    rw [decimalLoop, or_shiftLeft h, ih (i + 1) (_num / 10) hnext, hpow, hnumeral,
      bytesUint_append_singleton, hglyph]
    ring

/-- `decimalUint32` is the word of the ten digits. -/
theorem decimalUint32_eq (_num : UInt32) :
    decimalUint32 _num = bytesUint (asciiDecimal.numeral 10 _num.toNat) := by
  rw [decimalUint32, decimalLoop_eq 10 0 _ (by decide)]
  simp

/-! ### Hexadecimal digits -/

theorem _nibbleHex_eq (_byte : ℕ) :
    _nibbleHex _byte = (asciiHex.glyph (_byte % 16)).toNat := by
  have hlookup : ∀ d < 16, NIBBLE_LOOKUP.getD d 0 = (asciiHex.glyph d).toNat := by decide
  have hmask : _byte &&& 0x0f = _byte % 16 := Nat.and_two_pow_sub_one_eq_mod _byte 4
  rw [_nibbleHex, hmask, hlookup _ (Nat.mod_lt _ (by decide))]

theorem _byteHex_eq (_byte : ℕ) : _byteHex _byte = bytesUint (asciiHex.numeral 2 _byte) := by
  have hlow : _nibbleHex _byte < 2 ^ 8 := by
    rw [_nibbleHex_eq]
    exact (asciiHex.glyph _).toNat_lt
  have hshift : _byte >>> 4 = _byte / 16 := Nat.shiftRight_eq_div_pow _byte 4
  rw [_byteHex, Nat.or_comm, or_shiftLeft hlow, hshift, _nibbleHex_eq, _nibbleHex_eq]
  have hnumeral : asciiHex.numeral 2 _byte =
    [asciiHex.glyph (_byte / 16 % 16), asciiHex.glyph (_byte % 16)] := rfl
  rw [hnumeral]
  simp [bytesUint, toByte]

/-- The two digits of a byte follow what the half holds already. -/
theorem or_byteHex (front : List UInt8) (y : ℕ) :
    bytesUint front <<< 16 ||| _byteHex (y % 256) =
      bytesUint (front ++ asciiHex.numeral 2 y) := by
  have hbyte : asciiHex.numeral 2 (y % 256) = asciiHex.numeral 2 y := by
    have hhigh : y % 256 / 16 % 16 = y / 16 % 16 := by omega
    have hlow : y % 256 % 16 = y % 16 := by omega
    simp only [Numerals.numeral, asciiHex, hhigh, hlow]
  have hlt : bytesUint (asciiHex.numeral 2 y) < 2 ^ 16 :=
    (bytesUint_lt _).trans_eq (by rw [Numerals.length_numeral]; rfl)
  have hpow : 256 ^ 2 = 2 ^ 16 := rfl
  rw [_byteHex_eq, hbyte, Nat.or_comm, or_shiftLeft hlt, bytesUint_append, Numerals.length_numeral,
    hpow]

/-! ### The rounds of `encodeHex` -/

/-- The counters of the rounds of a loop, and the counter that leaves it. -/
def hexCounters (guard : UInt8 → Bool) : ℕ → UInt8 → Option (List UInt8 × UInt8)
  | 0, _ => none
  | fuel + 1, i =>
    if guard i then
      (hexCounters guard fuel (i - 1)).map fun (counters, stop) => (i :: counters, stop)
    else some ([], i)

/-- What one round does to the half. -/
def hexRound (last : UInt8) (_bytes _half : ℕ) (i : UInt8) : ℕ :=
  let _half := _half ||| _byteHex ((_bytes >>> (i * 8).toNat) % 256)
  if i ≠ last then (_half <<< 16) % 2 ^ 256 else _half

/-- A loop is its rounds, one after the other. -/
theorem hexLoop_eq (guard : UInt8 → Bool) (last : UInt8) (_bytes fuel : ℕ) (i : UInt8) (_half : ℕ) :
    hexLoop guard last _bytes fuel i _half =
      (hexCounters guard fuel i).map fun r => r.1.foldl (hexRound last _bytes) _half := by
  induction fuel generalizing i _half with
  | zero => rfl
  | succ fuel ih =>
    unfold hexLoop hexCounters
    by_cases hguard : guard i
    · rw [if_pos hguard, if_pos hguard, Option.map_map]
      exact ih _ _
    · rw [if_neg hguard, if_neg hguard]
      rfl

/-- More fuel changes nothing for a loop that ends. -/
theorem hexCounters_add {guard : UInt8 → Bool} {fuel : ℕ} {i : UInt8} {r : List UInt8 × UInt8}
    (h : hexCounters guard fuel i = some r) (more : ℕ) :
    hexCounters guard (fuel + more) i = some r := by
  induction fuel generalizing i r with
  | zero => cases h
  | succ fuel ih =>
    rw [Nat.succ_add]
    unfold hexCounters at h ⊢
    by_cases hguard : guard i
    · rw [if_pos hguard] at h ⊢
      obtain ⟨r', hrest, hr⟩ := Option.map_eq_some_iff.mp h
      rw [ih hrest, Option.map_some, hr]
    · rw [if_neg hguard] at h ⊢
      exact h

/-- The `n` counters down to `last`. -/
def countdown (last n : ℕ) : List UInt8 :=
  (List.range n).reverse.map fun k => UInt8.ofNat (last + k)

theorem countdown_succ (last n : ℕ) :
    countdown last (n + 1) = UInt8.ofNat (last + n) :: countdown last n := by
  simp [countdown, List.range_succ]

/-- A round takes the byte its counter points to. -/
theorem shiftRight_counter (_bytes : ℕ) {j : ℕ} (h : j < 32) :
    _bytes >>> (UInt8.ofNat j * 8).toNat = _bytes / 256 ^ j := by
  have hcounter : (UInt8.ofNat j * 8).toNat = 8 * j := by
    have height : (8 : UInt8).toNat = 8 := rfl
    rw [UInt8.toNat_mul, UInt8.toNat_ofNat', height]
    omega
  have hpow : 2 ^ (8 * j) = 256 ^ j := pow_mul 2 8 j
  rw [hcounter, Nat.shiftRight_eq_div_pow, hpow]

/-- Before its shift, a round leaves the digits of one more byte. -/
theorem or_byteHex_counter (_bytes : ℕ) {j : ℕ} (h : j < 32) (done : ℕ) :
    bytesUint (asciiHex.numeral (2 * done) (_bytes / 256 ^ (j + 1))) <<< 16 |||
        _byteHex ((_bytes >>> (UInt8.ofNat j * 8).toNat) % 256) =
      bytesUint (asciiHex.numeral (2 * (done + 1)) (_bytes / 256 ^ j)) := by
  have hquotient : _bytes / 256 ^ (j + 1) = _bytes / 256 ^ j / asciiHex.base ^ 2 := by
    rw [pow_succ, ← Nat.div_div_eq_div_mul]
    rfl
  rw [shiftRight_counter _bytes h, or_byteHex, hquotient, ← Numerals.numeral_add, Nat.mul_succ]

/-- A half with room for two more digits loses none when it is shifted. -/
theorem shiftLeft_lt {text : List UInt8} (h : text.length + 2 ≤ 32) :
    bytesUint text <<< 16 < 2 ^ 256 :=
  calc bytesUint text <<< 16 = bytesUint text * 256 ^ 2 := Nat.shiftLeft_eq ..
    _ < 256 ^ text.length * 256 ^ 2 := Nat.mul_lt_mul_of_pos_right (bytesUint_lt text) (by decide)
    _ = 256 ^ (text.length + 2) := (pow_add ..).symm
    _ ≤ 256 ^ 32 := Nat.pow_le_pow_right (by decide) h
    _ = 2 ^ 256 := (pow_mul 2 8 32).symm

/-- **The rounds of a half.** Before a round the half has the digits of the bytes above
the counter, and room for two more; after the last round it has those of all. -/
theorem foldl_hexRound (_bytes last n done : ℕ) (hfit : done + (n + 1) ≤ 16)
    (hlast : last + n < 32) :
    (countdown last (n + 1)).foldl (hexRound (UInt8.ofNat last) _bytes)
        (bytesUint (asciiHex.numeral (2 * done) (_bytes / 256 ^ (last + n + 1))) <<< 16) =
      bytesUint (asciiHex.numeral (2 * (done + (n + 1))) (_bytes / 256 ^ last)) := by
  induction n generalizing done with
  | zero =>
    have hlast' : ¬ UInt8.ofNat (last + 0) ≠ UInt8.ofNat last := not_not.mpr rfl
    rw [countdown_succ, List.foldl_cons, hexRound, or_byteHex_counter _bytes hlast, if_neg hlast']
    rfl
  | succ n ih =>
    have hne : UInt8.ofNat (last + (n + 1)) ≠ UInt8.ofNat last := by
      intro heq
      have hnat := congrArg UInt8.toNat heq
      rw [UInt8.toNat_ofNat', UInt8.toNat_ofNat'] at hnat
      omega
    have hroom : (asciiHex.numeral (2 * (done + 1)) (_bytes / 256 ^ (last + (n + 1)))).length + 2
        ≤ 32 := by
      rw [Numerals.length_numeral]
      omega
    have hdone : done + 1 + (n + 1) = done + (n + 1 + 1) := by omega
    rw [countdown_succ, List.foldl_cons, hexRound, or_byteHex_counter _bytes hlast, if_pos hne,
      Nat.mod_eq_of_lt (shiftLeft_lt hroom)]
    exact hdone ▸ ih (done + 1) (by omega) (by omega)

/-- A loop runs sixteen times, down to `last`, and is left at `stop`. Fuel for one more
round is enough. -/
structure SixteenRounds (guard : UInt8 → Bool) (start last stop : UInt8) : Prop where
  counters : ∀ more,
    hexCounters guard (17 + more) start = some (countdown last.toNat 16, stop)
  rounds : ∀ _bytes more _half, hexLoop guard last _bytes (17 + more) start _half =
    some ((countdown last.toNat 16).foldl (hexRound last _bytes) _half)

theorem sixteenRounds {guard : UInt8 → Bool} {start last stop : UInt8}
    (h : hexCounters guard 17 start = some (countdown last.toNat 16, stop)) :
    SixteenRounds guard start last stop where
  counters := hexCounters_add h
  rounds _bytes more _half := by rw [hexLoop_eq, hexCounters_add h, Option.map_some]

theorem sixteenRounds_first : SixteenRounds (fun i => i > 15) 31 16 15 :=
  sixteenRounds (by decide)

theorem sixteenRounds_second : SixteenRounds (fun i => i < 255) 15 0 255 :=
  sixteenRounds (by decide)

/-- All sixteen rounds of a half, from an empty one. -/
theorem foldl_countdown (_bytes last : ℕ) (hlast : last + 15 < 32) :
    (countdown last 16).foldl (hexRound (UInt8.ofNat last) _bytes) 0 =
      bytesUint (asciiHex.numeral 32 (_bytes / 256 ^ last)) := by
  have hempty : bytesUint (asciiHex.numeral (2 * 0) (_bytes / 256 ^ (last + 15 + 1))) <<< 16 = 0 :=
    Nat.zero_shiftLeft 16
  have hrounds := foldl_hexRound _bytes last 15 0 (by decide) hlast
  rwa [hempty] at hrounds

theorem firstHalf_eq (_bytes : ℕ) :
    firstHalf _bytes = some (bytesUint (asciiHex.numeral 32 (_bytes / 256 ^ 16))) := by
  rw [firstHalf, sixteenRounds_first.rounds _bytes 239]
  exact congrArg some (foldl_countdown _bytes 16 (by decide))

theorem secondHalf_eq (_bytes : ℕ) :
    secondHalf _bytes = some (bytesUint (asciiHex.numeral 32 _bytes)) := by
  have hrounds := foldl_countdown _bytes 0 (by decide)
  rw [pow_zero, Nat.div_one] at hrounds
  rw [secondHalf, sixteenRounds_second.rounds _bytes 239]
  exact congrArg some hrounds

/-- `encodeHex` is the words of the high and of the low digits. -/
theorem encodeHex_eq (_bytes : ℕ) :
    encodeHex _bytes = (bytesUint (asciiHex.numeral 32 (_bytes / 256 ^ 16)),
      bytesUint (asciiHex.numeral 32 _bytes)) := by
  rw [encodeHex, Option.get_of_eq_some _ (firstHalf_eq _bytes),
    Option.get_of_eq_some _ (secondHalf_eq _bytes)]

/-! ### The texts -/

/-- The bytes that `decimalUint32` returns. -/
def decimalText (_num : UInt32) : List UInt8 := uintBytes 10 (decimalUint32 _num)

/-- The bytes of the two halves that `encodeHex` returns. -/
def hexText (_bytes : BitVec 256) : List UInt8 :=
  uintBytes 32 (encodeHex _bytes.toNat).1 ++ uintBytes 32 (encodeHex _bytes.toNat).2

theorem uintBytes_numeral (N : Numerals UInt8) (n x : ℕ) :
    uintBytes n (bytesUint (N.numeral n x)) = N.numeral n x := by
  have hbytes := uintBytes_bytesUint (N.numeral n x)
  rwa [Numerals.length_numeral] at hbytes

theorem decimalText_eq (_num : UInt32) : decimalText _num = asciiDecimal.numeral 10 _num.toNat := by
  rw [decimalText, decimalUint32_eq, uintBytes_numeral]

theorem hexText_eq (_bytes : BitVec 256) : hexText _bytes = asciiHex.numeral 64 _bytes.toNat := by
  have hhigh : _bytes.toNat / 256 ^ 16 = _bytes.toNat / asciiHex.base ^ 32 := rfl
  rw [hexText, encodeHex_eq, uintBytes_numeral, uintBytes_numeral, hhigh, ← Numerals.numeral_add]

theorem read_decimalText (_num : UInt32) :
    asciiDecimal.read (decimalText _num) = some _num.toNat := by
  have hlt : _num.toNat < asciiDecimal.base ^ 10 := _num.toNat_lt.trans (by decide)
  rw [decimalText_eq, Numerals.read_numeral, Nat.mod_eq_of_lt hlt]

theorem read_hexText (_bytes : BitVec 256) :
    asciiHex.read (hexText _bytes) = some _bytes.toNat := by
  have hlt : _bytes.toNat < asciiHex.base ^ 64 := _bytes.isLt.trans_eq (pow_mul 2 4 64)
  rw [hexText_eq, Numerals.read_numeral, Nat.mod_eq_of_lt hlt]

theorem decimalUint32_injective : Function.Injective decimalUint32 := by
  intro a b h
  have htext : decimalText a = decimalText b := by rw [decimalText, decimalText, h]
  have hread := congrArg asciiDecimal.read htext
  rw [read_decimalText, read_decimalText] at hread
  exact UInt32.toNat_inj.mp (Option.some.inj hread)

theorem encodeHex_injective :
    Function.Injective fun _bytes : BitVec 256 => encodeHex _bytes.toNat := by
  intro a b h
  replace h : encodeHex a.toNat = encodeHex b.toNat := h
  have htext : hexText a = hexText b := by rw [hexText, hexText, h]
  have hread := congrArg asciiHex.read htext
  rw [read_hexText, read_hexText] at hread
  exact BitVec.eq_of_toNat_eq (Option.some.inj hread)

theorem bytesUint_numeral_lt (N : Numerals UInt8) (n x : ℕ) :
    bytesUint (N.numeral n x) < 256 ^ n :=
  (bytesUint_lt _).trans_eq (by rw [Numerals.length_numeral])

theorem decimalUint32_lt (_num : UInt32) : decimalUint32 _num < 2 ^ 80 := by
  rw [decimalUint32_eq]
  exact (bytesUint_numeral_lt asciiDecimal 10 _num.toNat).trans_eq (pow_mul 2 8 10).symm

theorem encodeHex_lt (_bytes : ℕ) :
    (encodeHex _bytes).1 < 2 ^ 256 ∧ (encodeHex _bytes).2 < 2 ^ 256 := by
  have hpow : 256 ^ 32 = 2 ^ 256 := (pow_mul 2 8 32).symm
  rw [encodeHex_eq, ← hpow]
  constructor
  · dsimp only
    exact bytesUint_numeral_lt asciiHex 32 (_bytes / 256 ^ 16)
  · dsimp only
    exact bytesUint_numeral_lt asciiHex 32 _bytes

/-- **Encoded numbers.** The ten bytes of `decimalUint32` are decimal digits and the 64
bytes of `encodeHex` lowercase hexadecimal ones, they stand for the argument, and the
words have no other bytes. So different numbers are encoded differently. Each loop of
`encodeHex` runs sixteen times, and only the counter that has wrapped around leaves the
second one. -/
theorem encodings_exact :
    (∀ _num, asciiDecimal.read (decimalText _num) = some _num.toNat ∧
      decimalUint32 _num < 2 ^ 80) ∧
    (∀ _bytes, asciiHex.read (hexText _bytes) = some _bytes.toNat ∧
      (encodeHex _bytes.toNat).1 < 2 ^ 256 ∧ (encodeHex _bytes.toNat).2 < 2 ^ 256) ∧
    Function.Injective decimalUint32 ∧
    (Function.Injective fun _bytes : BitVec 256 => encodeHex _bytes.toNat) ∧
    SixteenRounds (fun i => i > 15) 31 16 15 ∧
    SixteenRounds (fun i => i < 255) 15 0 255 ∧
    ∀ i : UInt8, i < 255 ∨ i = 0 - 1 := by
  refine ⟨fun _num => ⟨read_decimalText _num, decimalUint32_lt _num⟩,
    fun _bytes => ⟨read_hexText _bytes, encodeHex_lt _bytes.toNat⟩, decimalUint32_injective,
    encodeHex_injective, sixteenRounds_first, sixteenRounds_second, fun i => ?_⟩
  have hwrap : ((0 : UInt8) - 1).toNat = 255 := rfl
  have hbound : (255 : UInt8).toNat = 255 := rfl
  have hi := i.toNat_lt
  rw [UInt8.lt_iff_toNat_lt, ← UInt8.toNat_inj, hwrap, hbound]
  omega

end Optics.Encoding

/-! ### The default name of a token -/

namespace Optics.TokenRegistry

open Optics.Solidity Optics.Math Optics.Encoding

variable {Byte : Type} [ByteAlphabet Byte]

/-- `[decimal domain].[last four hexadecimal digits of the id]`. -/
def defaultName (c : TokenId Byte) : List UInt8 :=
  asciiDecimal.numeral 10 c.domain.toNat ++ [0x2e] ++ asciiHex.numeral 4 (bytesUint c.id.toList)

theorem _defaultDetails_view (c : TokenId Byte) :
    _defaultDetails (view c) =
      .ok ((defaultName c).map ofByte, (defaultName c).map ofByte) := by
  have hdecimal : (uintBytes 10 (decimalUint32 c.domain) : List Byte) =
      (asciiDecimal.numeral 10 c.domain.toNat).map ofByte := by
    rw [uintBytes_eq_map]
    exact congrArg _ (decimalText_eq c.domain)
  have hhex : (uintBytes 4 (encodeHex (bytesUint c.id.toList)).2 : List Byte) =
      (asciiHex.numeral 4 (bytesUint c.id.toList)).map ofByte := by
    generalize bytesUint c.id.toList = _id
    have hsplit : asciiHex.numeral 32 _id =
      asciiHex.numeral 28 (_id / asciiHex.base ^ 4) ++ asciiHex.numeral 4 _id :=
        Numerals.numeral_add asciiHex 28 4 _id
    have hlow := uintBytes_bytesUint_append
      (asciiHex.numeral 28 (_id / asciiHex.base ^ 4)) (asciiHex.numeral 4 _id)
    rw [Numerals.length_numeral] at hlow
    rw [uintBytes_eq_map, encodeHex_eq, hsplit]
    dsimp only
    rw [hlow]
  rw [_defaultDetails, view, BridgeMessage.id_tokenIdView, BridgeMessage.domain_tokenIdView]
  simp only [ok_bind, hdecimal, hhex, defaultName, List.map_append, List.map_singleton]

/-- **Default names.** Tokens have the same one when they are of the same domain and
the last sixteen bits of their ids are the same. -/
theorem defaultName_eq_iff {c c' : TokenId Byte} :
    defaultName c = defaultName c' ↔ c.domain = c'.domain ∧
      bytesUint c.id.toList % 2 ^ 16 = bytesUint c'.id.toList % 2 ^ 16 := by
  have hfit : ∀ c : TokenId Byte, c.domain.toNat % asciiDecimal.base ^ 10 = c.domain.toNat :=
    fun c => Nat.mod_eq_of_lt (c.domain.toNat_lt.trans (by decide))
  have hdomain : asciiDecimal.numeral 10 c.domain.toNat = asciiDecimal.numeral 10 c'.domain.toNat ↔
      c.domain = c'.domain := by
    rw [Numerals.numeral_eq_iff, hfit, hfit, UInt32.toNat_inj]
  have hid : asciiHex.numeral 4 (bytesUint c.id.toList) =
      asciiHex.numeral 4 (bytesUint c'.id.toList) ↔
        bytesUint c.id.toList % 2 ^ 16 = bytesUint c'.id.toList % 2 ^ 16 :=
    Numerals.numeral_eq_iff asciiHex
  rw [← hdomain, ← hid, defaultName, defaultName]
  constructor
  · intro h
    obtain ⟨hleft, hright⟩ := List.append_inj h (by simp)
    exact ⟨(List.append_inj hleft (by simp)).1, hright⟩
  · rintro ⟨hleft, hright⟩
    rw [hleft, hright]

end Optics.TokenRegistry
