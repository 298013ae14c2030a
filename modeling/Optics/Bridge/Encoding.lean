/-
# Encodings of numbers and strings

The default name of a token is made from the decimal digits of its domain and the
last hexadecimal digits of its id. The loops keep the counters of the source: the
second loop of `encodeHex` counts a `uint8` down past zero and stops when it has
wrapped around.

Names and symbols travel in messages as words, as strings padded with zeros.
-/

import Optics.Solidity.MemView

namespace Optics.Encoding

open Optics.Solidity

/-- The rounds of the loop of `decimalUint32` from `i` on. -/
def decimalLoop : ℕ → ℕ → ℕ → ℕ → ℕ
  | 0, _, _, _encoded => _encoded
  | rounds + 1, i, _num, _encoded =>
    decimalLoop rounds (i + 1) (_num / 10) (_encoded ||| ((_num % 10 + 0x30) <<< (i * 8)))

/-- `decimalUint32`, a `uint80`. -/
def decimalUint32 (_num : UInt32) : ℕ := decimalLoop 10 0 _num.toNat 0

/-- The bytes of `NIBBLE_LOOKUP`, `"0123456789abcdef"`. -/
def NIBBLE_LOOKUP : List ℕ :=
  [0x30, 0x31, 0x32, 0x33, 0x34, 0x35, 0x36, 0x37, 0x38, 0x39, 0x61, 0x62, 0x63, 0x64, 0x65, 0x66]

/-- `_nibbleHex`. -/
def _nibbleHex (_byte : ℕ) : ℕ := NIBBLE_LOOKUP.getD (_byte &&& 0x0f) 0

/-- `_byteHex`. -/
def _byteHex (_byte : ℕ) : ℕ := (_nibbleHex (_byte >>> 4) <<< 8) ||| _nibbleHex _byte

/-- A loop of `encodeHex`: it runs while `guard` holds of the counter and shifts
the half in every round but the one at `last`. Without fuel there is no answer. -/
def hexLoop (guard : UInt8 → Bool) (last : UInt8) (_bytes : ℕ) : ℕ → UInt8 → ℕ → Option ℕ
  | 0, _, _ => none
  | fuel + 1, i, _half =>
    if guard i then
      let _b := (_bytes >>> (i * 8).toNat) % 256
      let _half := _half ||| _byteHex _b
      let _half := if i ≠ last then (_half <<< 16) % 2 ^ 256 else _half
      hexLoop guard last _bytes fuel (i - 1) _half
    else some _half

/-- The first loop of `encodeHex`, `for (uint8 i = 31; i > 15; i -= 1)`. -/
def firstHalf (_bytes : ℕ) : Option ℕ := hexLoop (fun i => i > 15) 16 _bytes 256 31 0

/-- The second loop of `encodeHex`, `for (uint8 i = 15; i < 255; i -= 1)`. -/
def secondHalf (_bytes : ℕ) : Option ℕ := hexLoop (fun i => i < 255) 0 _bytes 256 15 0

/-- Whether the loop ends within its fuel depends on the counter only. -/
theorem isSome_hexLoop (guard : UInt8 → Bool) (last : UInt8) (_bytes _bytes' fuel : ℕ) (i : UInt8)
    (_half _half' : ℕ) :
    (hexLoop guard last _bytes fuel i _half).isSome =
      (hexLoop guard last _bytes' fuel i _half').isSome := by
  induction fuel generalizing i _half _half' with
  | zero => rfl
  | succ fuel ih =>
    unfold hexLoop
    by_cases hguard : guard i
    · rw [if_pos hguard, if_pos hguard]
      exact ih _ _ _
    · rw [if_neg hguard, if_neg hguard]
      rfl

theorem isSome_firstHalf (_bytes : ℕ) : (firstHalf _bytes).isSome := by
  rw [firstHalf, isSome_hexLoop _ _ _bytes 0 _ _ 0 0]
  decide +kernel

theorem isSome_secondHalf (_bytes : ℕ) : (secondHalf _bytes).isSome := by
  rw [secondHalf, isSome_hexLoop _ _ _bytes 0 _ _ 0 0]
  decide +kernel

/-- `encodeHex`. -/
def encodeHex (_bytes : ℕ) : ℕ × ℕ :=
  ((firstHalf _bytes).get (isSome_firstHalf _bytes),
    (secondHalf _bytes).get (isSome_secondHalf _bytes))

end Optics.Encoding

namespace Optics.TypeCasts

open Optics.Solidity

variable {Byte : Type} [ByteAlphabet Byte]

/-- `coerceBytes32`. The length is cut to a `uint8`. -/
def coerceBytes32 (_s : List Byte) : Except Revert (Bytes32 Byte) :=
  (View.ref _s 0).index 0 (_s.length % 256)

/-- `coerceString`: the bytes before the first zero. -/
def coerceString (_buf : Bytes32 Byte) : List Byte :=
  _buf.toList.takeWhile fun b => toByte b ≠ 0

end Optics.TypeCasts
