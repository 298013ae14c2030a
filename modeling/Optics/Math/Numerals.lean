/-
# Numerals of a fixed width

A numeral system has a glyph for every digit and reads a glyph back as its digit.
The numeral of a number has a fixed number of glyphs, the most significant first,
and reads back as the number, cut to what fits the width. Numerals are built from
either end: the last glyph is the remainder, and a numeral starts with a numeral of
the quotient.
-/

import Mathlib.Algebra.Order.Group.Nat
import Mathlib.Data.List.Basic
import Mathlib.Tactic.Ring

namespace Optics.Math

/-- The glyphs of the digits below a base, and the digit that a glyph stands for, if it
does for one. -/
structure Numerals (γ : Type*) where
  base : ℕ
  glyph : ℕ → γ
  digit : γ → Option ℕ
  base_pos : 0 < base
  digit_glyph : ∀ d < base, digit (glyph d) = some d

namespace Numerals

variable {γ : Type*} (N : Numerals γ)

/-- The `n` low digits of `x`, most significant first. -/
def numeral : ℕ → ℕ → List γ
  | 0, _ => []
  | n + 1, x => numeral n (x / N.base) ++ [N.glyph (x % N.base)]

/-- The number a text stands for, if each of its glyphs is a digit. -/
def read (text : List γ) : Option ℕ :=
  text.foldlM (fun value g => (N.digit g).map (value * N.base + ·)) 0

@[simp] theorem length_numeral (n x : ℕ) : (N.numeral n x).length = n := by
  induction n generalizing x with
  | zero => rfl
  | succ n ih => rw [numeral, List.length_append, ih, List.length_singleton]

theorem read_append_singleton (text : List γ) (g : γ) :
    N.read (text ++ [g]) =
      (N.read text).bind fun value => (N.digit g).map (value * N.base + ·) := by
  simp [read, List.foldlM_append]

/-- **Round trip.** A numeral stands for the number, as far as it fits. -/
theorem read_numeral (n x : ℕ) : N.read (N.numeral n x) = some (x % N.base ^ n) := by
  induction n generalizing x with
  | zero => rw [pow_zero, Nat.mod_one]; rfl
  | succ n ih =>
    have hlast : N.digit (N.glyph (x % N.base)) = some (x % N.base) :=
      N.digit_glyph _ (Nat.mod_lt _ N.base_pos)
    rw [numeral, read_append_singleton, ih, Option.bind_some, hlast, Option.map_some, pow_succ',
      Nat.mod_mul]
    congr 1
    ring

/-- A numeral of more digits starts with a numeral of the quotient. -/
theorem numeral_add (m n x : ℕ) :
    N.numeral (m + n) x = N.numeral m (x / N.base ^ n) ++ N.numeral n x := by
  induction n generalizing x with
  | zero => rw [numeral, pow_zero, Nat.div_one, List.append_nil, Nat.add_zero]
  | succ n ih =>
    rw [← Nat.add_assoc, numeral, ih, Nat.div_div_eq_div_mul, ← pow_succ', List.append_assoc]
    rfl

/-- What does not fit the width is not in the numeral. -/
theorem numeral_mod (n x : ℕ) : N.numeral n (x % N.base ^ n) = N.numeral n x := by
  induction n generalizing x with
  | zero => rfl
  | succ n ih =>
    rw [numeral, numeral, pow_succ', Nat.mod_mul_right_div_self, ih, Nat.mod_mul_right_mod]

/-- Two numerals are the same when the numbers are, as far as they fit. -/
theorem numeral_eq_iff {n x y : ℕ} :
    N.numeral n x = N.numeral n y ↔ x % N.base ^ n = y % N.base ^ n := by
  constructor
  · intro h
    have hread := congrArg N.read h
    rw [read_numeral, read_numeral] at hread
    exact Option.some.inj hread
  · intro h
    rw [← numeral_mod, h, numeral_mod]

end Numerals

end Optics.Math
