/-
# Typed tables over one flat store

Tables with keys and values of their own types lie in one store of untyped rows and
cells. If no two keys share a row, across all tables, and every value survives its
encoding, then a read finds the last value put under its table and key, whatever was put
elsewhere in between.
-/

import Mathlib.Logic.Function.Basic
import Optics.Math.Log

namespace Optics.Math

open Log

/-- Where the rows of each table are, and how cells are written and read. -/
structure Layout {T : Type*} (Key Value : T → Type*) (Row Cell ε : Type*) where
  row : Sigma Key → Row
  encode : ∀ t, Value t → Cell
  decode : ∀ t, Cell → Except ε (Value t)
  row_injective : Function.Injective row
  decode_encode : ∀ t v, decode t (encode t v) = .ok v

namespace Layout

variable {T : Type*} {Key Value : T → Type*} {Row Cell ε : Type*}

/-- A value under a key of a table. -/
abbrev Put (Key Value : T → Type*) := Σ a : Sigma Key, Value a.1

/-- What a put says of a key. -/
def Put.at [DecidableEq (Sigma Key)] (a : Sigma Key) (p : Put Key Value) : Option (Value a.1) :=
  if h : p.1 = a then some (h ▸ p.2) else none

section At

variable [DecidableEq (Sigma Key)] {a b : Sigma Key}

@[simp] theorem Put.at_self (v : Value a.1) : Put.at a (⟨a, v⟩ : Put Key Value) = some v :=
  dif_pos rfl

theorem Put.at_of_ne (h : b ≠ a) (v : Value b.1) : Put.at a (⟨b, v⟩ : Put Key Value) = none :=
  dif_neg h

theorem Put.at_eq_some {p : Put Key Value} {v : Value a.1} :
    Put.at a p = some v ↔ p = ⟨a, v⟩ := by
  constructor
  · intro h
    obtain ⟨b, w⟩ := p
    by_cases heq : b = a
    · subst heq
      rw [Put.at_self, Option.some_inj] at h
      rw [h]
    · rw [Put.at_of_ne heq] at h
      cases h
  · rintro rfl
    exact Put.at_self v

end At

variable (L : Layout Key Value Row Cell ε) {db : Row → Option Cell} {log : List (Put Key Value)}

/-- The read of a key. -/
def get (db : Row → Option Cell) (a : Sigma Key) : Except ε (Option (Value a.1)) :=
  match db (L.row a) with
  | none => .ok none
  | some cell => (L.decode a.1 cell).map some

/-- The store after a put. -/
def put [DecidableEq Row] (db : Row → Option Cell) (p : Put Key Value) : Row → Option Cell :=
  Function.update db (L.row p.1) (some (L.encode p.1.1 p.2))

/-- Every row holds the last value put under its key. -/
def Holds [DecidableEq (Sigma Key)] (db : Row → Option Cell) (log : List (Put Key Value)) : Prop :=
  ∀ a, db (L.row a) = (last (Put.at a) log).map (L.encode a.1)

theorem holds_nil [DecidableEq (Sigma Key)] : L.Holds (fun _ => none) [] := fun _ => rfl

theorem put_row_self [DecidableEq Row] (p : Put Key Value) :
    L.put db p (L.row p.1) = some (L.encode p.1.1 p.2) :=
  Function.update_self _ _ _

theorem put_row_of_ne [DecidableEq Row] {p : Put Key Value} {a : Sigma Key} (h : p.1 ≠ a) :
    L.put db p (L.row a) = db (L.row a) := by
  have hrow : L.row a ≠ L.row p.1 := fun heq => h (L.row_injective heq).symm
  exact Function.update_of_ne hrow _ _

namespace Holds

variable [DecidableEq (Sigma Key)] {L}

/-- A read finds the last value. -/
theorem get (h : L.Holds db log) (a : Sigma Key) : L.get db a = .ok (last (Put.at a) log) := by
  rw [Layout.get, h a]
  cases last (Put.at a) log with
  | none => rfl
  | some value =>
    rw [Option.map_some]
    dsimp only
    rw [L.decode_encode]
    rfl

variable [DecidableEq Row]

theorem put (h : L.Holds db log) (p : Put Key Value) : L.Holds (L.put db p) (log ++ [p]) := by
  intro a
  obtain ⟨b, v⟩ := p
  rw [last_concat]
  -- a put into another row leaves both sides as they were
  by_cases heq : b = a
  · subst heq
    rw [Put.at_self]
    exact L.put_row_self ⟨b, v⟩
  · rw [Put.at_of_ne heq]
    exact (L.put_row_of_ne heq).trans (h a)

/-- **Reads after many puts.** -/
theorem foldl (h : L.Holds db log) (puts : List (Put Key Value)) :
    L.Holds (puts.foldl L.put db) (log ++ puts) := by
  induction puts generalizing db log with
  | nil => rwa [List.append_nil]
  | cons p rest ih =>
    have hrest := ih (h.put p)
    rwa [List.append_assoc, List.singleton_append] at hrest

/-- Putting again what is there changes nothing. -/
theorem put_of_last (h : L.Holds db log) {a : Sigma Key} {v : Value a.1}
    (hlast : last (Put.at a) log = some v) : L.put db ⟨a, v⟩ = db := by
  have hrow : db (L.row a) = some (L.encode a.1 v) := by
    rw [h a, hlast]
    rfl
  rw [Layout.put, ← hrow, Function.update_eq_self]

end Holds

end Layout

end Optics.Math
