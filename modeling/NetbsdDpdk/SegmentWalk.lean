import NetbsdDpdk.ReceiveApi

/-! `service_get_next_buffer_segment_and_detach_first` of `api.c`. It writes `*pdesc` before it
reads it back to detach that buffer: what it detaches is the segment that it returns, and the rest
of the chain behind that is out of reach. -/

namespace NetbsdDpdk

variable {n : Nat}

structure NextSegment (n : Nat) where
  desc : Fin n
  len : Nat
  data : Fin n × Nat

def Memory.segment (mem : Memory n) (p : Fin n) : NextSegment n :=
  ⟨p, (mem.cell p).dataLen, mtod mem p⟩

def Memory.detached (mem : Memory n) (p : Fin n) : Memory n :=
  mem.modify p fun m => { m with next := none, nbSegs := 1 }

def getNextBufferSegmentAndDetachFirst (mem : Memory n) (pdesc : Fin n) :
    Option (NextSegment n) × Memory n :=
  match mem.next pdesc with
  | none => (none, mem)
  | some mbuf =>
    -- `orig` is `*pdesc` behind the assignment to it
    (some (mem.segment mbuf), mem.detached mbuf)

def detachWalk : Nat → Memory n → Fin n → Option (List (NextSegment n) × Memory n)
  | 0, _, _ => none
  | fuel + 1, mem, pdesc =>
    let r := getNextBufferSegmentAndDetachFirst mem pdesc
    match r.1 with
    | none => some ([], r.2)
    | some seg => (detachWalk fuel r.2 seg.desc).map fun w => (seg :: w.1, w.2)

/-- The calls visit the segments `xs` behind `x`, and each segment that was left behind can be sent
or released on its own. -/
def DetachesAll (mem : Memory n) (x : Fin n) (xs : List (Fin n)) : Prop :=
  ∃ fuel mem', detachWalk fuel mem x = some (xs.map mem.segment, mem') ∧
    ∀ y ∈ (x :: xs).dropLast, mem'.next y = none ∧ (mem'.cell y).nbSegs = 1

theorem detachWalk_last {mem : Memory n} {x : Fin n} (hx : mem.next x = none) (fuel : Nat) :
    detachWalk (fuel + 1) mem x = some ([], mem) := by
  simp [detachWalk, getNextBufferSegmentAndDetachFirst, hx]

theorem detachWalk_of_next {mem mem' : Memory n} {x y : Fin n} {segs : List (NextSegment n)}
    {fuel : Nat} (hx : mem.next x = some y) (h : detachWalk fuel mem x = some (segs, mem')) :
    segs = [mem.segment y] ∧ mem' = mem.detached y := by
  have hy : (mem.detached y).next y = none := by
    simp [Memory.next, Memory.detached]
  cases fuel with
  | zero => cases h
  | succ fuel =>
    rw [detachWalk, getNextBufferSegmentAndDetachFirst, hx] at h
    obtain ⟨w, hw, heq⟩ := Option.map_eq_some_iff.mp h
    cases fuel with
    | zero => cases hw
    | succ fuel =>
      have hw' : detachWalk (fuel + 1) (mem.detached y) y = some w := hw
      rw [detachWalk_last hy] at hw'
      cases hw'
      cases heq
      exact ⟨rfl, rfl⟩

/-- The walk detaches all segments exactly if there is only one. -/
theorem detachesAll_iff {mem : Memory n} {x : Fin n} {xs : List (Fin n)}
    (hchain : LinkedFrom mem.next (some x) (x :: xs)) : DetachesAll mem x xs ↔ xs = [] := by
  constructor
  · rintro ⟨fuel, mem', hwalk, hbehind⟩
    cases xs with
    | nil => rfl
    | cons y ys =>
      -- the first segment still leads to the second
      have hxy : x ≠ y := by
        have hnodup := hchain.nodup
        simp only [List.nodup_cons, List.mem_cons, not_or] at hnodup
        exact hnodup.1.1
      have hnext : mem.next x = some y := hchain.2.1
      obtain ⟨-, rfl⟩ := detachWalk_of_next hnext hwalk
      have hx := (hbehind x (by simp)).1
      rw [Memory.next, Memory.detached, Memory.modify_cell_of_ne _ _ hxy] at hx
      cases hnext.symm.trans hx
  · rintro rfl
    exact ⟨1, mem, detachWalk_last hchain.2 0, by simp⟩

def threeSegments : Memory 20 where
  cell p :=
    { dataLen := 7 + p
      nbSegs := 3 - p
      next := if p.val = 0 then some 1 else if p.val = 1 then some 2 else none }

theorem detachesAll_iff_one :
    LinkedFrom threeSegments.next (some 2) [2] ∧ DetachesAll threeSegments 2 [] := by
  have hchain : LinkedFrom threeSegments.next (some 2) [2] := ⟨rfl, rfl⟩
  exact ⟨hchain, (detachesAll_iff hchain).mpr rfl⟩

theorem detach_loses_rest : LinkedFrom threeSegments.next (some 0) [0, 1, 2] ∧
    ∃ mem', detachWalk 2 threeSegments 0 = some ([⟨1, 8, (1, 0)⟩], mem') ∧
      mem'.next 0 = some 1 ∧ (mem'.cell 0).nbSegs = 3 ∧ mem'.next 1 = none :=
  ⟨⟨rfl, rfl, rfl, rfl⟩, _, rfl, rfl, rfl, rfl⟩

end NetbsdDpdk
