import Mathlib.Algebra.Group.Nat.Even
import Mathlib.Data.Fintype.Card
import Mathlib.Tactic.Common

/-! Per-CPU storage: `percpu_alloc` sizes it by the number of lcores, and `percpu_getref` looks a
part of it up by the number of the lcore it runs on. -/

namespace NetbsdDpdk

abbrev rteMaxLcore : Nat := 128

abbrev Lcore := Fin rteMaxLcore

/-- `rte_zmalloc`: its blocks lie in the lower half of the address space. -/
structure RteHeap where
  rteZmalloc : Nat → Option Nat
  inside : ∀ n p, rteZmalloc n = some p → p + n ≤ 2 ^ 47

structure Percpu where
  pccSize : Nat
  pccData : Nat

def sizeofPercpu : Nat := 16

def getCpuCount (lcores : Finset Lcore) : Nat := lcores.card

def getCurrentCpu (c : Lcore) : Nat := c.val

def percpuBytes (lcores : Finset Lcore) (size : Nat) : Nat :=
  (sizeofPercpu + size * getCpuCount lcores) % 2 ^ 64

def percpuAlloc (heap : RteHeap) (lcores : Finset Lcore) (size : Nat) : Option Percpu :=
  (heap.rteZmalloc (percpuBytes lcores size)).map fun pc => ⟨size, pc + sizeofPercpu⟩

namespace Percpu

def percpuGetrefCpuid (pc : Percpu) (cpuid : Nat) : Nat :=
  (pc.pccData + pc.pccSize * cpuid) % 2 ^ 64

def percpuGetref (pc : Percpu) (c : Lcore) : Nat := pc.percpuGetrefCpuid (getCurrentCpu c)

/-- The parts of the lcores lie between `first` and `last` and do not overlap. -/
def PartsApart (pc : Percpu) (lcores : Finset Lcore) (size first last : Nat) : Prop :=
  (∀ c ∈ lcores, first ≤ pc.percpuGetref c ∧ pc.percpuGetref c + size ≤ last) ∧
    ∀ c ∈ lcores, ∀ d ∈ lcores, c ≠ d →
      pc.percpuGetref c + size ≤ pc.percpuGetref d ∨ pc.percpuGetref d + size ≤ pc.percpuGetref c

end Percpu

variable {lcores : Finset Lcore} {size p : Nat} {heap : RteHeap}

theorem mul_lcore_le (size : Nat) (c : Lcore) : size * c.val ≤ size * 127 :=
  Nat.mul_le_mul_left size (Nat.le_of_lt_succ c.isLt)

theorem percpuBytes_of_lt (h : sizeofPercpu + size * lcores.card < 2 ^ 64) :
    percpuBytes lcores size = sizeofPercpu + size * lcores.card :=
  Nat.mod_eq_of_lt h

/-- A block that is large enough for one part is too small for the multiplication to overflow. -/
theorem percpuGetref_eq (c : Lcore) (hp : p + sizeofPercpu + size ≤ 2 ^ 47) :
    (Percpu.mk size (p + sizeofPercpu)).percpuGetref c = p + sizeofPercpu + size * c.val := by
  have hmul := mul_lcore_le size c
  apply Nat.mod_eq_of_lt
  show p + sizeofPercpu + size * c.val < 2 ^ 64
  omega

/-- The parts of the lcores are apart exactly if the size does not wrap and the ids have no gaps. -/
theorem percpu_apart_iff (hne : lcores.Nonempty) (hsize : 0 < size)
    (hp : heap.rteZmalloc (percpuBytes lcores size) = some p) :
    ∃ pc, percpuAlloc heap lcores size = some pc ∧
      (pc.PartsApart lcores size (p + sizeofPercpu) (p + percpuBytes lcores size) ↔
        sizeofPercpu + size * lcores.card < 2 ^ 64 ∧ ∀ c ∈ lcores, c.val < lcores.card) := by
  have hheap := heap.inside _ p hp
  refine ⟨⟨size, p + sizeofPercpu⟩, by rw [percpuAlloc, hp]; rfl, ?_, ?_⟩
  · rintro ⟨hin, -⟩
    obtain ⟨c₀, hc₀⟩ := hne
    have hfirst := hin c₀ hc₀
    have hroom : p + sizeofPercpu + size ≤ 2 ^ 47 := by omega
    have hcard : size * lcores.card ≤ size * 128 :=
      Nat.mul_le_mul_left size (by simpa using Finset.card_le_univ lcores)
    have hlt : sizeofPercpu + size * lcores.card < 2 ^ 64 := by
      rw [sizeofPercpu] at hroom ⊢
      omega
    refine ⟨hlt, fun c hc => ?_⟩
    have hlast := (hin c hc).2
    rw [percpuGetref_eq c hroom, percpuBytes_of_lt hlt] at hlast
    have hle : size * (c.val + 1) ≤ size * lcores.card := by
      rw [Nat.mul_succ]
      omega
    exact Nat.le_of_mul_le_mul_left hle hsize
  · rintro ⟨hlt, hnum⟩
    rw [percpuBytes_of_lt hlt] at hheap
    have hone : size ≤ size * lcores.card := Nat.le_mul_of_pos_right size hne.card_pos
    have hroom : p + sizeofPercpu + size ≤ 2 ^ 47 := by omega
    have hnext {c d : Nat} (hcd : c < d) : size * c + size ≤ size * d := by
      rw [← Nat.mul_succ]
      exact Nat.mul_le_mul_left size hcd
    constructor
    · intro c hc
      have hpart := hnext (hnum c hc)
      rw [percpuGetref_eq c hroom, percpuBytes_of_lt hlt]
      omega
    · intro c _ d _ hcd
      rw [percpuGetref_eq c hroom, percpuGetref_eq d hroom]
      rcases Nat.lt_or_gt_of_ne (Fin.val_ne_of_ne hcd) with hlt | hgt
      · have := hnext hlt
        omega
      · have := hnext hgt
        omega

def smallHeap : RteHeap where
  rteZmalloc n := if n ≤ 1024 then some 4096 else none
  inside n p h := by
    split at h
    · cases h
      omega
    · cases h

theorem percpu_apart_iff_two : ∃ pc, percpuAlloc smallHeap {0, 1} 8 = some pc ∧
    pc.PartsApart {0, 1} 8 4112 4128 := by
  obtain ⟨pc, halloc, hiff⟩ :=
    percpu_apart_iff ⟨0, by decide⟩ (show 0 < 8 by decide)
      (show smallHeap.rteZmalloc (percpuBytes {0, 1} 8) = some 4096 by decide)
  exact ⟨pc, halloc, hiff.mpr ⟨by decide, by decide⟩⟩

theorem lone_lcore_outside : ∃ pc, percpuAlloc smallHeap {1} 8 = some pc ∧
    percpuBytes {1} 8 = 24 ∧ pc.percpuGetref 1 = 4096 + 24 :=
  ⟨⟨8, 4112⟩, rfl, by decide, by decide⟩

end NetbsdDpdk
