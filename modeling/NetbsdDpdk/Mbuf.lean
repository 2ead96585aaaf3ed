import NetbsdDpdk.LinkedChain
import Mathlib.Algebra.Ring.Int.Defs
import Mathlib.Algebra.Ring.Nat
import Mathlib.Data.List.Count
import Mathlib.Data.List.FinRange

/-! The packet buffers of DPDK: `struct rte_mbuf`, the memory that holds them, and the functions
of `rte_mbuf.h` that walk and free a chain of segments. -/

namespace NetbsdDpdk

open List

/-- `struct rte_mbuf` in a memory of `n` of them. `buf` is the memory at `buf_addr`; `dataOff`,
`dataLen` and `refcnt` are 16-bit, `pktLen` is 32-bit and `nbSegs` 8-bit. -/
structure RteMbuf (n : Nat) where
  buf : Nat → UInt8 := fun _ => 0
  dataOff : Nat := 0
  dataLen : Nat := 0
  pktLen : Nat := 0
  nbSegs : Nat := 1
  refcnt : Nat := 0
  pool : Nat := 0
  next : Option (Fin n) := none

def bytesAt (buf : Nat → UInt8) (off len : Nat) : List UInt8 :=
  (List.range len).map fun k => buf (off + k)

theorem bytesAt_add (buf : Nat → UInt8) (off a b : Nat) :
    bytesAt buf off (a + b) = bytesAt buf off a ++ bytesAt buf (off + a) b := by
  simp [bytesAt, range_add, Nat.add_assoc, Function.comp_def]

def RteMbuf.data {n : Nat} (m : RteMbuf n) : List UInt8 := bytesAt m.buf m.dataOff m.dataLen

/-- All the buffers, the objects in the mempools, and two histories: the segments that were freed,
and the objects that were put back, with their pool. -/
@[ext]
structure Memory (n : Nat) where
  cell : Fin n → RteMbuf n
  mempool : List (Nat × Fin n) := []
  freed : List (Fin n) := []
  returned : List (Nat × Fin n) := []

namespace Memory

scoped instance pointerLawfulBEq (n : Nat) : LawfulBEq (Fin n) := inferInstance

variable {n : Nat}

def next (mem : Memory n) (p : Fin n) : Option (Fin n) := (mem.cell p).next

def modify (mem : Memory n) (p : Fin n) (f : RteMbuf n → RteMbuf n) : Memory n :=
  { mem with cell := Function.update mem.cell p (f (mem.cell p)) }

def setNext (mem : Memory n) (p : Fin n) (q : Option (Fin n)) : Memory n :=
  mem.modify p fun m => { m with next := q }

def put (mem : Memory n) (pool : Nat) (p : Fin n) : Memory n :=
  { mem with mempool := (pool, p) :: mem.mempool, returned := (pool, p) :: mem.returned }

def putBulk (mem : Memory n) (pool : Nat) (ps : List (Fin n)) : Memory n :=
  { mem with
    mempool := ps.reverse.map (Prod.mk pool) ++ mem.mempool
    returned := ps.reverse.map (Prod.mk pool) ++ mem.returned }

def bytes (mem : Memory n) (xs : List (Fin n)) : List UInt8 :=
  xs.flatMap fun x => (mem.cell x).data

@[simp] theorem modify_cell_self (mem : Memory n) (p : Fin n) (f : RteMbuf n → RteMbuf n) :
    (mem.modify p f).cell p = f (mem.cell p) := by simp [modify]

theorem modify_cell_of_ne (mem : Memory n) {p x : Fin n} (f : RteMbuf n → RteMbuf n)
    (h : x ≠ p) : (mem.modify p f).cell x = mem.cell x := by simp [modify, h]

@[simp] theorem setNext_next (mem : Memory n) (p : Fin n) (q : Option (Fin n)) :
    (mem.setNext p q).next = Function.update mem.next p q := by
  funext x
  by_cases h : x = p
  · subst h
    simp [next, setNext]
  · simp [next, setNext, modify_cell_of_ne _ _ h, h]

theorem setNext_cell (mem : Memory n) (p x : Fin n) (q : Option (Fin n)) :
    (mem.setNext p q).cell x = { mem.cell x with next := (mem.setNext p q).next x } := by
  by_cases h : x = p
  · subst h
    simp [setNext, next]
  · simp [setNext, next, modify_cell_of_ne _ _ h]

theorem bytes_append (mem : Memory n) (xs ys : List (Fin n)) :
    mem.bytes (xs ++ ys) = mem.bytes xs ++ mem.bytes ys := by simp [bytes]

theorem bytes_congr {mem mem' : Memory n} {xs : List (Fin n)}
    (h : ∀ x ∈ xs, (mem'.cell x).data = (mem.cell x).data) : mem'.bytes xs = mem.bytes xs := by
  induction xs with
  | nil => rfl
  | cons x xs ih =>
    simp only [bytes, flatMap_cons] at ih ⊢
    rw [h x (by simp), ih fun y hy => h y (by simp [hy])]

/-- `__rte_pktmbuf_prefree_seg`: drop a reference; true when it was the last one. -/
def prefreeSeg (mem : Memory n) (p : Fin n) : Memory n × Bool :=
  let refcnt := (mem.cell p).refcnt
  let mem := { mem with freed := p :: mem.freed }
  if refcnt = 1 ∨ (refcnt + 65535) % 65536 = 0 then
    (mem.modify p fun m => { m with refcnt := 0 }, true)
  else
    (mem.modify p fun m => { m with refcnt := (refcnt + 65535) % 65536 }, false)

def freeSeg (mem : Memory n) (p : Fin n) : Memory n :=
  match mem.prefreeSeg p with
  | (mem, true) => (mem.setNext p none).put (mem.cell p).pool p
  | (mem, false) => mem

def freeChain : Nat → Memory n → Option (Fin n) → Option (Memory n)
  | _, mem, none => some mem
  | 0, _, some _ => none
  | fuel + 1, mem, some p => freeChain fuel (mem.freeSeg p) (mem.next p)

def lastseg (mem : Memory n) (p : Fin n) : Option (Fin n) := lastFrom mem.next n p

def reclaimTo (mem : Memory n) (pools : Fin n → Nat) (xs : List (Fin n)) : Memory n where
  cell x := if x ∈ xs then { mem.cell x with refcnt := 0, next := none } else mem.cell x
  mempool := (xs.reverse.map fun x => (pools x, x)) ++ mem.mempool
  freed := xs.reverse ++ mem.freed
  returned := (xs.reverse.map fun x => (pools x, x)) ++ mem.returned

def reclaim (mem : Memory n) (xs : List (Fin n)) : Memory n :=
  mem.reclaimTo (fun x => (mem.cell x).pool) xs

section Reclaim

variable {pools pools' : Fin n → Nat} {xs : List (Fin n)} {x : Fin n}

theorem reclaimTo_cell_of_notMem (mem : Memory n) (h : x ∉ xs) :
    (mem.reclaimTo pools xs).cell x = mem.cell x := by simp [reclaimTo, h]

theorem reclaimTo_cell_of_mem (mem : Memory n) (h : x ∈ xs) :
    (mem.reclaimTo pools xs).cell x = { mem.cell x with refcnt := 0, next := none } := by
  simp [reclaimTo, h]

@[simp] theorem reclaimTo_pool (mem : Memory n) (pools : Fin n → Nat) (xs : List (Fin n))
    (x : Fin n) : ((mem.reclaimTo pools xs).cell x).pool = (mem.cell x).pool := by
  by_cases h : x ∈ xs <;> simp [reclaimTo, h]

@[simp] theorem reclaimTo_nil (mem : Memory n) (pools : Fin n → Nat) :
    mem.reclaimTo pools [] = mem := by
  simp [reclaimTo]

theorem reclaimTo_congr (mem : Memory n) (h : ∀ x ∈ xs, pools x = pools' x) :
    mem.reclaimTo pools xs = mem.reclaimTo pools' xs := by
  have hmap : (xs.reverse.map fun x => (pools x, x)) = xs.reverse.map fun x => (pools' x, x) :=
    map_congr_left fun x hx => by rw [h x (by simpa using hx)]
  simp only [reclaimTo, hmap]

theorem reclaimTo_append (mem : Memory n) (pools : Fin n → Nat) (xs ys : List (Fin n)) :
    mem.reclaimTo pools (xs ++ ys) = (mem.reclaimTo pools xs).reclaimTo pools ys := by
  ext1
  · funext x
    by_cases hx : x ∈ xs <;> by_cases hy : x ∈ ys <;> simp [reclaimTo, hx, hy]
  · simp [reclaimTo]
  · simp [reclaimTo]
  · simp [reclaimTo]

theorem reclaimTo_reclaimTo (mem : Memory n) {ys : List (Fin n)} (h : ∀ y ∈ ys, y ∉ xs) :
    (mem.reclaimTo pools xs).reclaimTo pools' ys =
      mem.reclaimTo (fun x => if x ∈ xs then pools x else pools' x) (xs ++ ys) := by
  have hx : mem.reclaimTo (fun x => if x ∈ xs then pools x else pools' x) xs =
      mem.reclaimTo pools xs := reclaimTo_congr mem fun x hx => if_pos hx
  rw [reclaimTo_append, hx]
  exact reclaimTo_congr _ fun y hy => (if_neg (h y hy)).symm

theorem reclaim_append (mem : Memory n) (xs ys : List (Fin n)) :
    mem.reclaim (xs ++ ys) = (mem.reclaim xs).reclaim ys := by
  simp only [reclaim, reclaimTo_append, reclaimTo_pool]

end Reclaim

theorem prefreeSeg_eq {mem : Memory n} {p : Fin n} (h : (mem.cell p).refcnt = 1) :
    mem.prefreeSeg p =
      ({ mem with freed := p :: mem.freed }.modify p fun m => { m with refcnt := 0 }, true) := by
  simp [prefreeSeg, h]

theorem freeSeg_eq_reclaim {mem : Memory n} {p : Fin n} (h : (mem.cell p).refcnt = 1) :
    mem.freeSeg p = mem.reclaim [p] := by
  rw [freeSeg, prefreeSeg_eq h]
  ext1
  · funext x
    by_cases hx : x = p
    · subst hx
      simp [put, setNext, modify, reclaim, reclaimTo]
    · simp [put, setNext, modify, reclaim, reclaimTo, hx]
  · simp [put, setNext, modify, reclaim, reclaimTo]
  · simp [put, setNext, modify, reclaim, reclaimTo]
  · simp [put, setNext, modify, reclaim, reclaimTo]

theorem modify_field {α : Type*} (mem : Memory n) (p x : Fin n)
    (f : RteMbuf n → RteMbuf n) (g : RteMbuf n → α) :
    g ((mem.modify p f).cell x) = if x = p then g (f (mem.cell x)) else g (mem.cell x) := by
  by_cases hx : x = p
  · rw [hx, modify_cell_self, if_pos rfl]
  · rw [modify_cell_of_ne _ _ hx, if_neg hx]

theorem freeSeg_field {α : Type*} (mem : Memory n) (p c : Fin n)
    (g : RteMbuf n → α) (hrefcnt : ∀ e refcnt, g { e with refcnt } = g e)
    (hnext : ∀ e next, g { e with next } = g e) : g ((mem.freeSeg p).cell c) = g (mem.cell c) := by
  by_cases hlast : (mem.cell p).refcnt = 1 ∨ ((mem.cell p).refcnt + 65535) % 65536 = 0
  · simp only [freeSeg, prefreeSeg, hlast, if_true, put, setNext, modify_field _ _ _ _ g, hrefcnt,
      hnext, ite_self]
  · simp only [freeSeg, prefreeSeg, hlast, if_false, modify_field _ _ _ _ g, hrefcnt, ite_self]

theorem freeSeg_frame (rte : Memory n) (p : Fin n) :
    (rte.freeSeg p).freed = p :: rte.freed ∧
      ∀ y, y ≠ p → (rte.freeSeg p).cell y = rte.cell y := by
  by_cases hlast : (rte.cell p).refcnt = 1 ∨ ((rte.cell p).refcnt + 65535) % 65536 = 0
  · refine ⟨by simp [freeSeg, prefreeSeg, hlast, put, setNext, modify], fun y hy => ?_⟩
    simp [freeSeg, prefreeSeg, hlast, put, setNext, modify, hy]
  · refine ⟨by simp [freeSeg, prefreeSeg, hlast, modify], fun y hy => ?_⟩
    simp [freeSeg, prefreeSeg, hlast, modify, hy]

theorem freeChain_eq_reclaim {mem : Memory n} {p : Option (Fin n)} {xs : List (Fin n)}
    {fuel : Nat} (hlink : LinkedFrom mem.next p xs) (href : ∀ x ∈ xs, (mem.cell x).refcnt = 1)
    (hfuel : xs.length ≤ fuel) : freeChain fuel mem p = some (mem.reclaim xs) := by
  induction xs generalizing mem p fuel with
  | nil =>
    cases hlink
    cases fuel <;> simp [freeChain, reclaim]
  | cons x xs ih =>
    obtain ⟨rfl, htail⟩ := hlink
    obtain ⟨hx, -⟩ := nodup_cons.mp (LinkedFrom.nodup (p := some x) ⟨rfl, htail⟩)
    obtain ⟨fuel, rfl, hf⟩ := exists_fuel hfuel
    have hcell : ∀ y ∈ xs, (mem.reclaim [x]).cell y = mem.cell y := fun y hy =>
      reclaimTo_cell_of_notMem mem (by simp; rintro rfl; exact hx hy)
    rw [freeChain, freeSeg_eq_reclaim (href x (by simp)),
      ih (htail.congr fun y hy => by simp [next, hcell y hy])
        (fun y hy => by rw [hcell y hy]; exact href y (by simp [hy])) hf,
      ← reclaim_append, singleton_append]

theorem lastseg_eq {mem : Memory n} {p y : Fin n} {xs : List (Fin n)}
    (h : LinkedFrom mem.next (some p) (xs ++ [y])) : mem.lastseg p = some y := by
  have hlen := h.length_le
  simp only [Fintype.card_fin, length_append, length_singleton] at hlen
  exact lastFrom_eq h (by omega)

end Memory

end NetbsdDpdk
