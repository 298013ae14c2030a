/-
# The queue is a list

A queue that was initialised answers every sequence of calls as a plain list does: with
the same results and the same reverts. What it returns for an enqueued item is the number
of items enqueued so far, which the list has to count. As long as that number stays below
`2 ^ 128 - 1` no index wraps.
-/

import Optics.Libs.Queue
import Optics.Math.Transition

namespace Optics.QueueLib

open Optics.Solidity Optics.Math.Transition

variable {α : Type}

/-- A call of the library. The number of items to dequeue may be any. -/
inductive Op (α : Type)
  | init
  | enqueue (item : α)
  | enqueueMany (items : List α)
  | dequeue
  | dequeueMany (number : ℕ)
  | contains (item : α)
  | lastItem
  | peek
  | length
  | isEmpty

/-- What a call returns. -/
inductive Answer (α : Type)
  | none
  | index (last : ℕ)
  | item (item : α)
  | items (items : List α)
  | truth (b : Bool)
  | number (n : ℕ)
  deriving DecidableEq

/-- The number of items that a call enqueues. -/
def Op.enqueued : Op α → ℕ
  | .enqueue _ => 1
  | .enqueueMany items => items.length
  | _ => 0

section Exec

variable [Zero α] [DecidableEq α]

/-- A call on a queue. -/
def Queue.exec : Op α → Queue α → Except Revert (Answer α × Queue α)
  | .init, q => .ok (.none, q.init)
  | .enqueue item, q => .ok (.index (q.enqueue item).last.toNat, q.enqueue item)
  | .enqueueMany items, q => .ok (.index (q.enqueueMany items).last.toNat, q.enqueueMany items)
  | .dequeue, q => do
    let (item, q) ← q.dequeue
    .ok (.item item, q)
  | .dequeueMany number, q => do
    let (items, q) ← q.dequeueMany number
    .ok (.items items, q)
  | .contains item, q => .ok (.truth (q.contains item), q)
  | .lastItem, q => .ok (.item q.lastItem, q)
  | .peek, q => do
    let item ← q.peek
    .ok (.item item, q)
  | .length, q => .ok (.number q.length, q)
  | .isEmpty, q => .ok (.truth q.isEmpty, q)

/-- A plain list, and how many items were ever put into it. -/
structure Fifo (α : Type) where
  items : List α
  enqueued : ℕ

/-- The same call on a plain list. -/
def Fifo.exec : Op α → Fifo α → Except Revert (Answer α × Fifo α)
  | .init, s => .ok (.none, s)
  | .enqueue item, s =>
    .ok (.index (s.enqueued + 1), ⟨s.items ++ [item], s.enqueued + 1⟩)
  | .enqueueMany items, s =>
    .ok (.index (s.enqueued + items.length), ⟨s.items ++ items, s.enqueued + items.length⟩)
  | .dequeue, s =>
    match s.items with
    | [] => .error (.require "Empty")
    | item :: rest => .ok (.item item, ⟨rest, s.enqueued⟩)
  | .dequeueMany number, s =>
    if number ≤ s.items.length then
      .ok (.items (s.items.take number), ⟨s.items.drop number, s.enqueued⟩)
    else .error (.require "Insufficient")
  | .contains item, s => .ok (.truth (decide (item ∈ s.items)), s)
  | .lastItem, s => .ok (.item (s.items.getLastD 0), s)
  | .peek, s =>
    match s.items with
    | [] => .error (.require "Empty")
    | item :: _ => .ok (.item item, s)
  | .length, s => .ok (.number s.items.length, s)
  | .isEmpty, s => .ok (.truth s.items.isEmpty, s)

end Exec

/-! ### The refinement -/

/-- The queue holds the items of the list, its last index counts what was enqueued, and
the calls that are left enqueue few enough. -/
structure Refines [Zero α] (calls : List (Op α)) (q : Queue α) (s : Fifo α) : Prop where
  represents : q.Represents s.items
  last : q.last.toNat = s.enqueued
  room : s.enqueued + (calls.map Op.enqueued).sum < 2 ^ 128 - 1

section Refinement

variable [Zero α] {q : Queue α} {s : Fifo α} {calls : List (Op α)} {call : Op α}

theorem Refines.last_lt (h : Refines calls q s) : q.last.toNat + 1 < 2 ^ 128 := by
  have hroom := h.room
  have hlast := h.last
  omega

/-- A call that enqueues nothing leaves as much room. -/
theorem Refines.tail (h : Refines (call :: calls) q s) (hnone : call.enqueued = 0) :
    Refines calls q s := by
  refine ⟨h.represents, h.last, ?_⟩
  have hroom := h.room
  rwa [List.map_cons, List.sum_cons, hnone, Nat.zero_add] at hroom

/-- The items may change if the last index does not. -/
theorem Refines.of_represents {q' : Queue α} {items : List α} (h : Refines calls q s)
    (hitems : q'.Represents items) (hlast : q'.last = q.last) :
    Refines calls q' ⟨items, s.enqueued⟩ :=
  ⟨hitems, (congrArg BitVec.toNat hlast).trans h.last, h.room⟩

variable [DecidableEq α]

/-- Each call is the call on the list. -/
theorem Refines.alike (h : Refines (call :: calls) q s) :
    Alike (Refines calls) q s (Queue.exec call q) (Fifo.exec call s) := by
  have hitems := h.represents
  have hlast := h.last_lt
  cases call with
  | init =>
    rw [Queue.exec, hitems.init_eq]
    exact .answered _ _ _ (h.tail rfl)
  | enqueue item =>
    have hcount : (q.enqueue item).last.toNat = s.enqueued + 1 := by
      rw [Queue.toNat_last_enqueue hlast, h.last]
    rw [Queue.exec, hcount]
    refine .answered _ _ _ ⟨hitems.enqueue item hlast, hcount, ?_⟩
    have hroom := h.room
    simp only [List.map_cons, List.sum_cons, Op.enqueued] at hroom
    dsimp only
    omega
  -- the bound on all items that will be enqueued leaves room for these
  | enqueueMany items =>
    have hroom := h.room
    simp only [List.map_cons, List.sum_cons, Op.enqueued] at hroom
    have hlast := h.last
    obtain ⟨hmore, hcount⟩ := hitems.enqueueMany items (by omega)
    rw [h.last] at hcount
    rw [Queue.exec, hcount]
    refine .answered _ _ _ ⟨hmore, hcount, ?_⟩
    dsimp only
    omega
  | dequeue =>
    obtain ⟨items, enqueued⟩ := s
    cases items with
    | nil =>
      rw [Queue.exec, hitems.dequeue_nil]
      exact .refused _ (h.tail rfl)
    -- `last` stays where it is, so the counter does too
    | cons item items =>
      obtain ⟨q', hdequeue, hrest, -, hsame⟩ := hitems.dequeue_cons hlast
      rw [Queue.exec, hdequeue, ok_bind]
      exact .answered _ _ _ ((h.tail rfl).of_represents hrest hsame)
  | dequeueMany number =>
    rw [Queue.exec, Fifo.exec]
    -- the check comes before the loop, so a refusal has dequeued nothing
    rcases Nat.lt_or_ge s.items.length number with hlt | hle
    · rw [hitems.dequeueMany_of_lt hlt, if_neg (Nat.not_le.mpr hlt)]
      exact .refused _ (h.tail rfl)
    · obtain ⟨q', hdequeue, hrest, hsame⟩ := hitems.dequeueMany_of_le hle hlast
      rw [hdequeue, if_pos hle, ok_bind]
      exact .answered _ _ _ ((h.tail rfl).of_represents hrest hsame)
  | contains item =>
    have hcontains : q.contains item = decide (item ∈ s.items) := by
      rw [Bool.eq_iff_iff, hitems.contains_iff, decide_eq_true_iff]
    rw [Queue.exec, hcontains]
    exact .answered _ _ _ (h.tail rfl)
  | lastItem =>
    rw [Queue.exec, hitems.lastItem_eq]
    exact .answered _ _ _ (h.tail rfl)
  | peek =>
    obtain ⟨items, enqueued⟩ := s
    cases items with
    | nil =>
      rw [Queue.exec, hitems.peek_nil]
      exact .refused _ (h.tail rfl)
    | cons item items =>
      rw [Queue.exec, hitems.peek_cons, ok_bind]
      exact .answered _ _ _ (h.tail rfl)
  | length =>
    rw [Queue.exec, hitems.length_eq]
    exact .answered _ _ _ (h.tail rfl)
  | isEmpty =>
    rw [Queue.exec, hitems.isEmpty_eq]
    exact .answered _ _ _ (h.tail rfl)

omit [DecidableEq α] in
theorem refines_init (h : (calls.map Op.enqueued).sum < 2 ^ 128 - 1) :
    Refines calls (Queue.fresh : Queue α).init ⟨[], 0⟩ :=
  ⟨Queue.represents_init, rfl, by rwa [Nat.zero_add]⟩

/-- **The queue is a list.** An initialised queue answers any calls as a plain list does,
reverts included, as long as fewer than `2 ^ 128 - 1` items are enqueued. Afterwards it
holds the items of the list between its indices, zeros elsewhere, and zero for the last
item of an empty queue. -/
theorem queue_is_list (calls : List (Op α)) (h : (calls.map Op.enqueued).sum < 2 ^ 128 - 1) :
    let q := (Queue.fresh : Queue α).init
    let s : Fifo α := ⟨[], 0⟩
    let q' := (answers Queue.exec calls q).2
    let s' := (answers Fifo.exec calls s).2
    (answers Queue.exec calls q).1 = (answers Fifo.exec calls s).1 ∧ q'.Represents s'.items ∧
      (∀ slot, slot < q'.first.toNat ∨ q'.last.toNat < slot → q'.queue slot = 0) ∧
      (q'.isEmpty = true → q'.lastItem = 0) := by
  intro q s q' s'
  obtain ⟨hanswers, hend⟩ := answers_of_alike (refines_init h) fun _ _ _ _ hrefines =>
    hrefines.alike
  refine ⟨hanswers, hend.represents, hend.represents.clear, fun hempty => ?_⟩
  rw [hend.represents.isEmpty_eq] at hempty
  rw [hend.represents.lastItem_eq, List.isEmpty_iff.mp hempty]
  rfl

end Refinement

/-- Two items, one of them zero, come out in order, and there is no third. -/
theorem queue_is_list_twice :
    (answers Queue.exec [.enqueueMany [0, 3], .init, .dequeue, .dequeueMany 2, .peek, .dequeueMany 1,
        .dequeue, .lastItem] (Queue.fresh : Queue ℕ).init).1 =
      [.ok (.index 2), .ok .none, .ok (.item 0), .error (.require "Insufficient"), .ok (.item 3),
        .ok (.items [3]), .error (.require "Empty"), .ok (.item 0)] :=
  (queue_is_list _ (by decide)).1

end Optics.QueueLib
