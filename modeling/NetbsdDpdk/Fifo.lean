import Mathlib.Data.List.Basic

/-! Bounded first-in first-out queues: a full queue refuses, a queue never holds more than its
capacity, and bursts move as many elements as there is room for. -/

namespace NetbsdDpdk

@[ext]
structure Fifo (cap : Nat) (α : Type*) where
  items : List α
  length_le : items.length ≤ cap

namespace Fifo

variable {cap : Nat} {α : Type*}

def empty : Fifo cap α := ⟨[], Nat.zero_le cap⟩

def count (q : Fifo cap α) : Nat := q.items.length

def freeCount (q : Fifo cap α) : Nat := cap - q.count

def enqueue (q : Fifo cap α) (a : α) : Option (Fifo cap α) :=
  if h : q.items.length < cap then
    some ⟨q.items ++ [a], by simp only [List.length_append, List.length_singleton]; omega⟩
  else none

def enqueueBurst (q : Fifo cap α) (as : List α) : Fifo cap α :=
  ⟨q.items ++ as.take q.freeCount, by
    have := q.length_le
    simp only [List.length_append, List.length_take, freeCount, count]
    omega⟩

def dequeue (q : Fifo cap α) : Option (α × Fifo cap α) :=
  match h : q.items with
  | [] => none
  | a :: as => some (a, ⟨as, by
      have := q.length_le
      simp only [h, List.length_cons] at this
      omega⟩)

def dequeueBurst (q : Fifo cap α) (k : Nat) : List α × Fifo cap α :=
  (q.items.take k, ⟨q.items.drop k, by
    have := q.length_le
    simp only [List.length_drop]
    omega⟩)

@[simp] theorem empty_items : (empty : Fifo cap α).items = [] := rfl

@[simp] theorem dequeueBurst_fst (q : Fifo cap α) (k : Nat) :
    (q.dequeueBurst k).1 = q.items.take k := rfl

@[simp] theorem dequeueBurst_snd_items (q : Fifo cap α) (k : Nat) :
    (q.dequeueBurst k).2.items = q.items.drop k := rfl

theorem enqueue_eq_some_iff {q r : Fifo cap α} {a : α} :
    q.enqueue a = some r ↔ q.items.length < cap ∧ r.items = q.items ++ [a] := by
  unfold enqueue
  split
  · next h => simp [Fifo.ext_iff, h, eq_comm]
  · next h => simp [h]

theorem enqueue_eq_none_iff {q : Fifo cap α} {a : α} :
    q.enqueue a = none ↔ q.items.length = cap := by
  have := q.length_le
  unfold enqueue
  split
  · next h => simp; omega
  · next h => simp; omega

theorem dequeue_eq_some_iff {q r : Fifo cap α} {a : α} :
    q.dequeue = some (a, r) ↔ q.items = a :: r.items := by
  obtain ⟨items, hlen⟩ := q
  obtain ⟨rest, hrest⟩ := r
  cases items with
  | nil => simp [dequeue]
  | cons b bs => simp [dequeue]

theorem dequeue_eq_none_iff {q : Fifo cap α} : q.dequeue = none ↔ q.items = [] := by
  obtain ⟨items, hlen⟩ := q
  cases items <;> simp [dequeue]

theorem enqueueBurst_items_of_le {q : Fifo cap α} {as : List α} (h : as.length ≤ q.freeCount) :
    (q.enqueueBurst as).items = q.items ++ as := by
  simp [enqueueBurst, List.take_of_length_le h]

end Fifo

end NetbsdDpdk
