import Mathlib.Data.List.Basic

/-! A bounded ring with one consumer whose producers do not synchronise: a producer first reads
the position it will write, and later writes the cell and publishes the position behind it.
Positions are counted from the creation of the ring and do not wrap. -/

namespace NetbsdDpdk

open List

/-- The cells in front of the producer position, and the position of the consumer. -/
structure SharedRing (cap : Nat) (α : Type) where
  cells : List α := []
  consTail : Nat := 0

namespace SharedRing

variable {cap : Nat} {α : Type} {r r' : SharedRing cap α} {x y : α} {h : Nat}

def items (r : SharedRing cap α) : List α := r.cells.drop r.consTail

/-- A producer reads the two positions: `none` if the ring is full. -/
def reserve (r : SharedRing cap α) : Option Nat :=
  if r.cells.length - r.consTail < cap then some r.cells.length else none

/-- The producer writes cell `h`. What others have published from `h` on since it read the
position is lost. -/
def publish (r : SharedRing cap α) (h : Nat) (x : α) : SharedRing cap α :=
  { r with cells := r.cells.take h ++ [x] }

def dequeue (r : SharedRing cap α) : Option (α × SharedRing cap α) :=
  r.items.head?.map fun x => (x, { r with consTail := r.consTail + 1 })

def Sound (r : SharedRing cap α) : Prop := r.consTail ≤ r.cells.length

theorem reserve_eq_some (hreserve : r.reserve = some h) : h = r.cells.length := by
  unfold reserve at hreserve
  split at hreserve
  · exact (Option.some.inj hreserve).symm
  · cases hreserve

theorem Sound.publish (hr : r.Sound) : (r.publish r.cells.length x).Sound := by
  simp only [Sound, SharedRing.publish, take_length, length_append, length_singleton]
  exact Nat.le_succ_of_le hr

theorem items_publish (hr : r.Sound) : (r.publish r.cells.length x).items = r.items ++ [x] := by
  simp only [items, SharedRing.publish, take_length]
  exact drop_append_of_le_length hr

theorem dequeue_eq_some (hdeq : r.dequeue = some (x, r')) :
    r.items = x :: r'.items ∧ r'.cells = r.cells ∧ r'.consTail = r.consTail + 1 := by
  obtain ⟨y, hy, heq⟩ := Option.map_eq_some_iff.mp hdeq
  cases heq
  refine ⟨?_, rfl, rfl⟩
  obtain ⟨ys, hys⟩ := head?_eq_some_iff.mp hy
  rw [hys, items, ← drop_drop]
  exact congrArg _ (congrArg (List.drop 1) hys).symm

theorem Sound.dequeue (hdeq : r.dequeue = some (x, r')) : r'.Sound := by
  obtain ⟨hitems, hcells, htail⟩ := dequeue_eq_some hdeq
  have hlength : r.items.length ≠ 0 := by simp [hitems]
  simp only [items, length_drop] at hlength
  simp only [Sound, hcells, htail]
  omega

theorem mem_items_of_dequeue (hdeq : r.dequeue = some (x, r')) (hy : y ∈ r.items) :
    y = x ∨ y ∈ r'.items := by
  rw [(dequeue_eq_some hdeq).1] at hy
  exact mem_cons.mp hy

end SharedRing

end NetbsdDpdk
