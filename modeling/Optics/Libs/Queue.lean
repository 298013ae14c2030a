/-
# The queue library

`QueueLib.Queue` keeps its items in a sparse mapping between two 128-bit
indices. The representation relation ties it to a plain list: the items lie in
order between the indices, and every slot outside the live range is zero, which
is what allows enqueueing a zero without a write. Each operation is then the
list operation of the same name.
-/

import Mathlib.Data.List.Basic
import Optics.Solidity.Basic

namespace Optics.QueueLib

open Optics.Solidity

variable {α : Type}

/-- The struct `Queue`. -/
structure Queue (α : Type) where
  first : BitVec 128
  last : BitVec 128
  queue : ℕ → α

/-- `_length`, computed in `uint128`. -/
def _length (last first : BitVec 128) : ℕ := (last + 1 - first).toNat

namespace Queue

/-- `length`. -/
def length (q : Queue α) : ℕ := _length q.last q.first

/-- `lastItem`. -/
def lastItem (q : Queue α) : α := q.queue q.last.toNat

/-- `isEmpty`. -/
def isEmpty (q : Queue α) : Bool := decide (q.last < q.first)

/-- `peek`. -/
def peek (q : Queue α) : Except Revert α := do
  require (q.isEmpty = false) "Empty"
  .ok (q.queue q.first.toNat)

section DecidableEq

variable [DecidableEq α]

/-- `contains`: a linear scan from `first` to `last`. -/
def contains (q : Queue α) (item : α) : Bool :=
  (List.range' q.first.toNat (q.last.toNat + 1 - q.first.toNat)).any fun i => q.queue i == item

end DecidableEq

section Zero

variable [Zero α]

/-- A queue in fresh storage. -/
def fresh : Queue α := ⟨0, 0, fun _ => 0⟩

/-- `initialize`. -/
def init (q : Queue α) : Queue α :=
  if q.first = 0 then { q with first := 1 } else q

variable [DecidableEq α]

/-- `enqueue` of one item. A zero is not written. -/
def enqueue (q : Queue α) (item : α) : Queue α :=
  let last := q.last + 1
  { q with
    last := last
    queue := if item ≠ 0 then Function.update q.queue last.toNat item else q.queue }

/-- `dequeue` of one item. A zero is not deleted. -/
def dequeue (q : Queue α) : Except Revert (α × Queue α) := do
  require (_length q.last q.first ≠ 0) "Empty"
  let item := q.queue q.first.toNat
  .ok (item, { q with
    queue := if item ≠ 0 then Function.update q.queue q.first.toNat 0 else q.queue
    first := q.first + 1 })

/-- `enqueue` of several items. The last index is written once, after the loop. -/
def enqueueMany (q : Queue α) (items : List α) : Queue α :=
  let (last, queue) := items.foldl (fun (last, queue) item =>
    let last := last + 1
    (last, if item ≠ 0 then Function.update queue last.toNat item else queue)) (q.last, q.queue)
  { q with queue := queue, last := last }

/-- The loop of `dequeueMany`. A zero is deleted too. -/
def dequeueLoop : ℕ → BitVec 128 → (ℕ → α) → List α × BitVec 128 × (ℕ → α)
  | 0, first, queue => ([], first, queue)
  | n + 1, first, queue =>
    let item := queue first.toNat
    let (items, first, queue) := dequeueLoop n (first + 1) (Function.update queue first.toNat 0)
    (item :: items, first, queue)

/-- `dequeue` of several items. -/
def dequeueMany (q : Queue α) (number : ℕ) : Except Revert (List α × Queue α) := do
  require (number ≤ _length q.last q.first) "Insufficient"
  let (items, first, queue) := dequeueLoop number q.first q.queue
  .ok (items, { q with queue := queue, first := first })

/-- A successful dequeue shortens the queue. -/
theorem length_dequeue_lt {q q' : Queue α} {item : α} (h : q.dequeue = .ok (item, q')) :
    q'.length < q.length := by
  rw [dequeue, require_bind_eq_ok] at h
  obtain ⟨hne, h⟩ := h
  obtain ⟨-, rfl⟩ := Prod.mk.inj (Except.ok.inj h)
  rw [_length, ne_eq, ← BitVec.toNat_zero (w := 128), BitVec.toNat_inj] at hne
  simp only [length, _length]
  bv_omega

end Zero

/-! ### Queues as lists -/

/-- The queue holds exactly the listed items, in order, and zeros elsewhere. -/
structure Represents [Zero α] (q : Queue α) (items : List α) : Prop where
  first_pos : 0 < q.first.toNat
  last_eq : q.last.toNat + 1 = q.first.toNat + items.length
  get : ∀ i (h : i < items.length), q.queue (q.first.toNat + i) = items[i]
  clear : ∀ j, j < q.first.toNat ∨ q.last.toNat < j → q.queue j = 0

section Represents

variable [Zero α] {q : Queue α} {items : List α} {item : α}

theorem represents_init : Represents (init (fresh : Queue α)) [] where
  first_pos := Nat.one_pos
  last_eq := rfl
  get i h := absurd h (by simp)
  clear _ _ := rfl

theorem Represents.length_lt (h : Represents q items) : items.length < 2 ^ 128 := by
  have hlast := q.last.isLt
  have hfirst := h.first_pos
  have heq := h.last_eq
  omega

theorem Represents._length_eq (h : Represents q items) :
    _length q.last q.first = items.length := by
  have hlen := h.length_lt
  have hfirst := q.first.isLt
  have heq := h.last_eq
  rw [_length, BitVec.toNat_sub, BitVec.toNat_add]
  have hone : (1 : BitVec 128).toNat = 1 := rfl
  rw [hone, heq]
  omega

theorem Represents.length_eq (h : Represents q items) : q.length = items.length := h._length_eq

theorem Represents.lastItem_eq (h : Represents q items) :
    q.lastItem = items.getLastD 0 := by
  rcases List.eq_nil_or_concat' items with rfl | ⟨front, last, rfl⟩
  · have heq := h.last_eq
    exact h.clear _ (.inl (by simp at heq; omega))
  · have heq := h.last_eq
    simp only [List.length_append, List.length_singleton] at heq
    have hget := h.get front.length (by simp)
    rw [lastItem, show q.last.toNat = q.first.toNat + front.length by omega, hget]
    simp

variable [DecidableEq α]

theorem Represents.contains_iff (h : Represents q items) :
    q.contains item = true ↔ item ∈ items := by
  have hcount : q.last.toNat + 1 - q.first.toNat = items.length := by
    have heq := h.last_eq
    omega
  simp only [contains, hcount, List.any_eq_true, List.mem_range'_1, beq_iff_eq]
  constructor
  · rintro ⟨j, ⟨hge, hlt⟩, rfl⟩
    obtain ⟨i, rfl⟩ := Nat.exists_eq_add_of_le hge
    have hi : i < items.length := by omega
    rw [h.get i hi]
    exact List.getElem_mem hi
  · intro hmem
    obtain ⟨i, hi, rfl⟩ := List.getElem_of_mem hmem
    exact ⟨q.first.toNat + i, ⟨by omega, by omega⟩, h.get i hi⟩

/-- Enqueueing appends, as long as the last index does not wrap. -/
theorem Represents.enqueue (h : Represents q items) (item : α)
    (hroom : q.last.toNat + 1 < 2 ^ 128) : Represents (q.enqueue item) (items ++ [item]) := by
  have hlast : (q.last + 1).toNat = q.last.toNat + 1 := by
    rw [BitVec.toNat_add]
    exact Nat.mod_eq_of_lt hroom
  have heq := h.last_eq
  -- A zero is not written, but beyond the last index there is a zero already.
  have hslot : ∀ j,
      (q.enqueue item).queue j = if j = q.last.toNat + 1 then item else q.queue j := by
    intro j
    by_cases hzero : item = 0
    · simp only [Queue.enqueue, hzero, ne_eq, not_true_eq_false, if_false]
      split_ifs with hj
      · exact h.clear j (.inr (by omega))
      · rfl
    · simp only [Queue.enqueue, hzero, ne_eq, not_false_eq_true, if_true, hlast,
        Function.update_apply]
  refine ⟨h.first_pos, ?_, fun i hi => ?_, fun j hj => ?_⟩
  · simp only [Queue.enqueue, hlast, List.length_append, List.length_singleton]
    omega
  · rw [hslot]
    simp only [List.length_append, List.length_singleton] at hi
    change (if q.first.toNat + i = _ then _ else q.queue (q.first.toNat + i)) = _
    rcases Nat.lt_succ_iff_lt_or_eq.mp hi with hlt | rfl
    · rw [if_neg (by omega), h.get i hlt, List.getElem_append_left hlt]
    · rw [if_pos (by omega)]
      simp
  · simp only [Queue.enqueue, hlast] at hj
    rw [hslot, if_neg (by omega)]
    exact h.clear j (by omega)

theorem Represents.dequeue_nil (h : Represents q []) :
    q.dequeue = .error (.require "Empty") := by
  rw [Queue.dequeue, require_of_not (by simp [h._length_eq])]
  rfl

/-- Dequeueing takes the head and leaves the tail, as long as the first index
does not wrap. -/
theorem Represents.dequeue_cons (h : Represents q (item :: items))
    (hroom : q.last.toNat + 1 < 2 ^ 128) :
    ∃ q', q.dequeue = .ok (item, q') ∧ Represents q' items ∧
      q'.first.toNat = q.first.toNat + 1 ∧ q'.last = q.last := by
  have heq := h.last_eq
  simp only [List.length_cons] at heq
  have hhead : q.queue q.first.toNat = item := h.get 0 (Nat.succ_pos _)
  have hfirst : (q.first + 1).toNat = q.first.toNat + 1 := by
    have hlt : q.first.toNat + 1 < 2 ^ 128 := by omega
    rw [BitVec.toNat_add]
    exact Nat.mod_eq_of_lt hlt
  -- Whatever the item was, its slot is zero afterwards.
  have hslot : ∀ j, (if item ≠ 0 then Function.update q.queue q.first.toNat 0 else q.queue) j =
      if j = q.first.toNat then 0 else q.queue j := by
    intro j
    by_cases hzero : item = 0
    · simp only [hzero, ne_eq, not_true_eq_false, if_false]
      split_ifs with hj
      · rw [hj, hhead, hzero]
      · rfl
    · simp only [hzero, ne_eq, not_false_eq_true, if_true, Function.update_apply]
  refine ⟨⟨q.first + 1, q.last,
    if item ≠ 0 then Function.update q.queue q.first.toNat 0 else q.queue⟩,
    ?_, ⟨?_, ?_, fun i hi => ?_, fun j hj => ?_⟩, hfirst, rfl⟩
  · rw [Queue.dequeue, require_of (by simp [h._length_eq]), hhead]
    rfl
  · rw [hfirst]
    omega
  · rw [hfirst]
    change q.last.toNat + 1 = _
    omega
  · simp only [hfirst, hslot]
    rw [if_neg (by omega), show q.first.toNat + 1 + i = q.first.toNat + (i + 1) by omega,
      h.get (i + 1) (by simpa using hi)]
    simp
  · simp only [hfirst] at hj
    simp only [hslot]
    split_ifs with hj'
    · rfl
    · exact h.clear j (by omega)

omit [DecidableEq α] in
theorem Represents.isEmpty_eq (h : Represents q items) : q.isEmpty = items.isEmpty := by
  have heq := h.last_eq
  cases items with
  | nil =>
    rw [List.length_nil] at heq
    exact decide_eq_true (BitVec.lt_def.mpr (by omega))
  | cons item items =>
    rw [List.length_cons] at heq
    refine decide_eq_false fun hlt => ?_
    rw [BitVec.lt_def] at hlt
    omega

omit [DecidableEq α] in
theorem Represents.peek_nil (h : Represents q []) : q.peek = .error (.require "Empty") := by
  rw [peek, h.isEmpty_eq, require_of_not (by simp)]
  rfl

omit [DecidableEq α] in
theorem Represents.peek_cons (h : Represents q (item :: items)) : q.peek = .ok item := by
  rw [peek, h.isEmpty_eq, require_of (by rfl), ok_bind]
  exact congrArg _ (h.get 0 (Nat.succ_pos _))

omit [DecidableEq α] in
/-- Initialising again does nothing. -/
theorem Represents.init_eq (h : Represents q items) : q.init = q := by
  refine if_neg fun hzero => ?_
  have hpos := h.first_pos
  rw [hzero] at hpos
  exact Nat.lt_irrefl 0 hpos

theorem toNat_last_enqueue (hroom : q.last.toNat + 1 < 2 ^ 128) :
    (q.enqueue item).last.toNat = q.last.toNat + 1 := by
  change (q.last + 1).toNat = _
  rw [BitVec.toNat_add]
  exact Nat.mod_eq_of_lt hroom

theorem enqueueMany_cons (q : Queue α) (item : α) (more : List α) :
    q.enqueueMany (item :: more) = (q.enqueue item).enqueueMany more := rfl

/-- Enqueueing several items appends them, as long as the last index does not wrap. -/
theorem Represents.enqueueMany (h : Represents q items) (more : List α)
    (hroom : q.last.toNat + more.length < 2 ^ 128) :
    Represents (q.enqueueMany more) (items ++ more) ∧
      (q.enqueueMany more).last.toNat = q.last.toNat + more.length := by
  induction more generalizing q items with
  | nil => exact ⟨(List.append_nil items).symm ▸ h, rfl⟩
  | cons item more ih =>
    rw [List.length_cons] at hroom ⊢
    have hone : q.last.toNat + 1 < 2 ^ 128 := by omega
    have hlast : (q.enqueue item).last.toNat = q.last.toNat + 1 := toNat_last_enqueue hone
    obtain ⟨hrest, hend⟩ := ih (h.enqueue item hone) (by omega)
    rw [enqueueMany_cons, List.append_cons]
    exact ⟨hrest, by omega⟩

/-- Deleting a zero changes nothing, so a loop of deletions dequeues one by one. -/
theorem dequeue_eq (hne : _length q.last q.first ≠ 0) :
    q.dequeue = .ok (q.queue q.first.toNat,
      ⟨q.first + 1, q.last, Function.update q.queue q.first.toNat 0⟩) := by
  rw [dequeue, require_of hne, ok_bind]
  by_cases hzero : q.queue q.first.toNat = 0
  · have hsame : Function.update q.queue q.first.toNat 0 = q.queue := by
      rw [← hzero, Function.update_eq_self]
    simp [hzero, hsame]
  · simp [hzero]

/-- Dequeueing several items takes them from the front. -/
theorem Represents.dequeueLoop (h : Represents q items) {n : ℕ} (hn : n ≤ items.length)
    (hroom : q.last.toNat + 1 < 2 ^ 128) :
    ∃ first queue, Queue.dequeueLoop n q.first q.queue = (items.take n, first, queue) ∧
      Represents ⟨first, q.last, queue⟩ (items.drop n) := by
  induction n generalizing q items with
  | zero => exact ⟨q.first, q.queue, rfl, h⟩
  | succ n ih =>
    cases items with
    | nil => cases hn
    | cons item items =>
      obtain ⟨q', hdequeue, hrest, -, hlast⟩ := h.dequeue_cons hroom
      rw [dequeue_eq (by simp [h._length_eq])] at hdequeue
      obtain ⟨hitem, rfl⟩ := Prod.mk.inj (Except.ok.inj hdequeue)
      obtain ⟨first, queue, hloop, hend⟩ := ih hrest (Nat.le_of_succ_le_succ hn) hroom
      refine ⟨first, queue, ?_, hend⟩
      rw [Queue.dequeueLoop]
      dsimp only at hloop ⊢
      rw [hloop, hitem]
      rfl

theorem Represents.dequeueMany_of_le (h : Represents q items) {n : ℕ} (hn : n ≤ items.length)
    (hroom : q.last.toNat + 1 < 2 ^ 128) :
    ∃ q', q.dequeueMany n = .ok (items.take n, q') ∧ Represents q' (items.drop n) ∧
      q'.last = q.last := by
  obtain ⟨first, queue, hloop, hrest⟩ := h.dequeueLoop hn hroom
  refine ⟨_, ?_, hrest, rfl⟩
  rw [dequeueMany, require_of (by rwa [h._length_eq]), ok_bind, hloop]

omit [DecidableEq α] in
theorem Represents.dequeueMany_of_lt (h : Represents q items) {n : ℕ} (hn : items.length < n) :
    q.dequeueMany n = .error (.require "Insufficient") := by
  rw [dequeueMany, require_of_not (by rw [h._length_eq]; omega)]
  rfl

end Represents

end Queue

end Optics.QueueLib
