import Mathlib.Data.List.Basic
import Mathlib.Data.Nat.Bitwise
import Mathlib.Data.Nat.ModEq

/-! A ring with one producer and one consumer that run side by side. The positions are 32-bit
numbers that wrap; each side moves its head first, then reads or writes the cells, and publishes its
tail. A producer that finds the ring full, or the number of free entries, has read a consumer
position that may be old by then. -/

namespace NetbsdDpdk

open List

structure SpscRing (j : Nat) (α : Type) where
  cell : BitVec 32 → Option α := fun _ => none
  prodHead : BitVec 32 := 0
  prodTail : BitVec 32 := 0
  consHead : BitVec 32 := 0
  consTail : BitVec 32 := 0

namespace SpscRing

variable {j : Nat} {α : Type}

def mask (j : Nat) : BitVec 32 := BitVec.ofNat 32 (2 ^ j - 1)

def freeCount (r : SpscRing j α) : BitVec 32 := (r.consTail - r.prodTail - 1#32) &&& mask j

def freeEntries (r : SpscRing j α) : BitVec 32 := mask j + r.consTail - r.prodHead

def reserve (r : SpscRing j α) : Option (SpscRing j α) :=
  if r.freeEntries < 1#32 then none else some { r with prodHead := r.prodHead + 1#32 }

def overQuota (r : SpscRing j α) (watermark : BitVec 32) : Bool :=
  watermark < mask j + 1#32 - r.freeEntries + 1#32

def publish (r : SpscRing j α) (x : α) : SpscRing j α :=
  { r with
    cell := Function.update r.cell (r.prodTail &&& mask j) (some x)
    prodTail := r.prodHead }

def enqueue (r : SpscRing j α) (x : α) : Option (SpscRing j α) := r.reserve.map fun r => r.publish x

def enqueueBulk (r : SpscRing j α) (xs : List α) : Option (SpscRing j α) :=
  if r.freeEntries.toNat < xs.length then none else xs.foldlM enqueue r

def look (r : SpscRing j α) (n : Nat) : SpscRing j α :=
  let entries := r.prodTail - r.consHead
  { r with consHead := r.consHead + BitVec.ofNat 32 (min n entries.toNat) }

def taken (r : SpscRing j α) : List α :=
  (List.range (r.consHead - r.consTail).toNat).filterMap fun i =>
    r.cell ((r.consTail + BitVec.ofNat 32 i) &&& mask j)

def release (r : SpscRing j α) : SpscRing j α := { r with consTail := r.consHead }

structure Ordered (r : SpscRing j α) : Prop where
  small : j < 32
  taken : (r.consHead - r.consTail).toNat ≤ (r.prodTail - r.consTail).toNat
  filled : (r.prodTail - r.consTail).toNat ≤ (r.prodHead - r.consTail).toNat
  size : (r.prodHead - r.consTail).toNat < 2 ^ j

structure Holds (r : SpscRing j α) (xs : List α) : Prop extends Ordered r where
  length : (r.prodTail - r.consTail).toNat = xs.length
  cells : ∀ i x, xs[i]? = some x → r.cell ((r.consTail + BitVec.ofNat 32 i) &&& mask j) = some x

theorem toNat_mask (hj : j < 32) : (mask j).toNat = 2 ^ j - 1 := by
  have hpow : 2 ^ j < 2 ^ 32 := Nat.pow_lt_pow_right (by omega) hj
  rw [mask, BitVec.toNat_ofNat, Nat.mod_eq_of_lt (by omega)]

theorem toNat_and_mask (hj : j < 32) (p : BitVec 32) : (p &&& mask j).toNat = p.toNat % 2 ^ j := by
  rw [BitVec.toNat_and, toNat_mask hj, Nat.and_two_pow_sub_one_eq_mod]

section

variable {r : SpscRing j α} {xs : List α} {x : α}

theorem Ordered.toNat_freeEntries (h : Ordered r) :
    r.freeEntries.toNat = 2 ^ j - 1 - (r.prodHead - r.consTail).toNat := by
  obtain ⟨hj, -, -, hsize⟩ := h
  have hpow : 2 ^ j < 2 ^ 32 := Nat.pow_lt_pow_right (by omega) hj
  have hmask := toNat_mask hj
  simp only [freeEntries, BitVec.toNat_sub, BitVec.toNat_add, hmask] at hsize ⊢
  omega

theorem Ordered.toNat_freeCount (h : Ordered r) (hp : r.prodHead = r.prodTail) :
    r.freeCount.toNat = 2 ^ j - 1 - (r.prodTail - r.consTail).toNat := by
  obtain ⟨hj, -, -, hsize⟩ := h
  rw [hp] at hsize
  obtain ⟨u, hu⟩ : ∃ u, (r.prodTail - r.consTail).toNat = u := ⟨_, rfl⟩
  rw [hu] at hsize
  have hpow : 2 ^ j < 2 ^ 32 := Nat.pow_lt_pow_right (by omega) hj
  have hdiff : (r.consTail - r.prodTail - 1#32).toNat = 2 ^ 32 - 1 - u := by
    simp only [BitVec.toNat_sub, BitVec.toNat_ofNat] at hu ⊢
    omega
  rw [freeCount, toNat_and_mask hj, hdiff, hu]
  obtain ⟨c, hc⟩ : 2 ^ j ∣ 2 ^ 32 := Nat.pow_dvd_pow 2 (by omega)
  obtain ⟨d, rfl⟩ : ∃ d, c = d + 1 := ⟨c - 1, by
    have : c ≠ 0 := by
      rintro rfl
      simp at hc
    omega⟩
  rw [Nat.mul_add, Nat.mul_one] at hc
  have hsplit : 2 ^ 32 - 1 - u = 2 ^ j * d + (2 ^ j - 1 - u) := by omega
  rw [hsplit, Nat.mul_add_mod, Nat.mod_eq_of_lt (by omega)]

theorem and_mask_ne (hj : j < 32) {p q : BitVec 32} (hne : p ≠ q) (hpq : (p - q).toNat < 2 ^ j) :
    p &&& mask j ≠ q &&& mask j := by
  intro heq
  have hmod : p.toNat % 2 ^ j = q.toNat % 2 ^ j := by
    rw [← toNat_and_mask hj, heq, toNat_and_mask hj]
  obtain ⟨d, hd⟩ : ∃ d, (p - q).toNat = d := ⟨_, rfl⟩
  rw [hd] at hpq
  have hsum : p.toNat = (q.toNat + d) % 2 ^ 32 := by
    rw [BitVec.toNat_sub] at hd
    omega
  rw [hsum, Nat.mod_mod_of_dvd _ (Nat.pow_dvd_pow 2 (by omega))] at hmod
  have hzero : d ≡ 0 [MOD 2 ^ j] := Nat.ModEq.add_left_cancel' q.toNat hmod
  have hd0 : d = 0 := hzero.eq_of_lt_of_lt hpq (Nat.two_pow_pos j)
  apply hne
  apply BitVec.eq_of_toNat_eq
  omega

theorem Holds.reserve {r' : SpscRing j α} (h : Holds r xs) (hres : r.reserve = some r') :
    Holds r' xs := by
  simp only [SpscRing.reserve] at hres
  split at hres
  · cases hres
  · next hroom =>
    cases hres
    have hfree := h.toNat_freeEntries
    rw [BitVec.lt_def, BitVec.toNat_ofNat] at hroom
    have hsize : (r.prodHead + 1#32 - r.consTail).toNat = (r.prodHead - r.consTail).toNat + 1 := by
      have := h.size
      have hpow : 2 ^ j < 2 ^ 32 := Nat.pow_lt_pow_right (by omega) h.small
      simp only [BitVec.toNat_sub, BitVec.toNat_add, BitVec.toNat_ofNat] at this ⊢
      omega
    have hfilled := h.filled
    exact ⟨⟨h.small, h.taken, by dsimp only; omega, by dsimp only; omega⟩, h.length, h.cells⟩

theorem Holds.reserve_isSome (h : Holds r xs) (hp : r.prodHead = r.prodTail)
    (hroom : xs.length < 2 ^ j - 1) : r.reserve.isSome = true := by
  have hfree := h.toNat_freeEntries
  rw [hp, h.length] at hfree
  have hle : ¬ r.freeEntries < 1#32 := by
    rw [BitVec.lt_def, BitVec.toNat_ofNat]
    omega
  simp [SpscRing.reserve, hle]

theorem Holds.publish (h : Holds r xs) (hp : r.prodHead = r.prodTail + 1#32) (x : α) :
    Holds (r.publish x) (xs ++ [x]) := by
  have hsize := h.size
  have hlen := h.length
  have htaken := h.taken
  have hpow : 2 ^ j < 2 ^ 32 := Nat.pow_lt_pow_right (by omega) h.small
  have hone : (r.prodHead - r.consTail).toNat = (r.prodTail - r.consTail).toNat + 1 := by
    have hfilled := h.filled
    rw [hp] at hfilled ⊢
    simp only [BitVec.toNat_sub, BitVec.toNat_add, BitVec.toNat_ofNat] at hfilled ⊢
    omega
  refine ⟨⟨h.small, htaken.trans ?_, le_rfl, hsize⟩, ?_, ?_⟩
  · exact show _ ≤ (r.prodHead - r.consTail).toNat by omega
  · rw [length_append, length_singleton]
    exact show (r.prodHead - r.consTail).toNat = _ by omega
  · intro i y hy
    show Function.update r.cell (r.prodTail &&& mask j) (some x)
      ((r.consTail + BitVec.ofNat 32 i) &&& mask j) = some y
    have hi := (List.getElem?_eq_some_iff.mp hy).1
    rw [length_append, length_singleton] at hi
    have hpos : r.prodTail = r.consTail + BitVec.ofNat 32 xs.length := by
      rw [← hlen, BitVec.ofNat_toNat, BitVec.setWidth_eq, BitVec.add_comm, BitVec.sub_add_cancel]
    by_cases hlast : i = xs.length
    · subst hlast
      obtain rfl : x = y := by simpa using hy
      rw [← hpos, Function.update_self]
    · rw [getElem?_append_left (by omega)] at hy
      have hne : r.prodTail &&& mask j ≠ (r.consTail + BitVec.ofNat 32 i) &&& mask j := by
        apply and_mask_ne h.small
        · intro heq
          rw [heq, BitVec.toNat_sub, BitVec.toNat_add, BitVec.toNat_ofNat] at hlen
          omega
        · rw [hpos]
          simp only [BitVec.toNat_sub, BitVec.toNat_add, BitVec.toNat_ofNat]
          omega
      rw [Function.update_of_ne hne.symm]
      exact h.cells i y hy

theorem Holds.look (h : Holds r xs) (n : Nat) : Holds (r.look n) xs := by
  refine ⟨⟨h.small, ?_, h.filled, h.size⟩, h.length, h.cells⟩
  have htaken := h.taken
  simp only [SpscRing.look, BitVec.toNat_sub, BitVec.toNat_add, BitVec.toNat_ofNat] at htaken ⊢
  omega

theorem Holds.taken_eq (h : Holds r xs) :
    r.taken = xs.take (r.consHead - r.consTail).toNat := by
  have hle := h.taken
  rw [h.length] at hle
  rw [SpscRing.taken]
  generalize (r.consHead - r.consTail).toNat = m at hle ⊢
  induction m with
  | zero => simp
  | succ m ih =>
    have hm : xs[m]? = some (xs.get ⟨m, hle⟩) := getElem?_eq_getElem hle
    have hcell := h.cells m _ hm
    rw [range_succ, filterMap_append, ih (by omega), take_add_one, hm]
    simp [hcell]

theorem Holds.release (h : Holds r xs) :
    Holds r.release (xs.drop (r.consHead - r.consTail).toNat) := by
  have htaken := h.taken
  have hfilled := h.filled
  have hsize := h.size
  have hlen := h.length
  obtain ⟨d, hd⟩ : ∃ d, (r.consHead - r.consTail).toNat = d := ⟨_, rfl⟩
  have hpos : r.consHead = r.consTail + BitVec.ofNat 32 d := by
    rw [← hd, BitVec.ofNat_toNat, BitVec.setWidth_eq, BitVec.add_comm, BitVec.sub_add_cancel]
  have hback : ∀ p : BitVec 32, d ≤ (p - r.consTail).toNat →
      (p - r.consHead).toNat = (p - r.consTail).toNat - d := by
    intro p hp
    simp only [BitVec.toNat_sub] at hd hp ⊢
    omega
  rw [hd] at htaken ⊢
  refine ⟨⟨h.small, ?_, ?_, ?_⟩, ?_, ?_⟩
  · simp [SpscRing.release]
  · show (r.prodTail - r.consHead).toNat ≤ (r.prodHead - r.consHead).toNat
    rw [hback _ htaken, hback _ (htaken.trans hfilled)]
    omega
  · show (r.prodHead - r.consHead).toNat < 2 ^ j
    rw [hback _ (htaken.trans hfilled)]
    omega
  · show (r.prodTail - r.consHead).toNat = _
    rw [hback _ htaken, length_drop]
    omega
  · intro i x hx
    rw [getElem?_drop] at hx
    have hcell := h.cells (d + i) x hx
    show r.cell ((r.consHead + BitVec.ofNat 32 i) &&& mask j) = some x
    rw [hpos, BitVec.add_assoc, ← BitVec.ofNat_add]
    exact hcell

theorem reserve_positions {r' : SpscRing j α} (hres : r.reserve = some r') :
    r'.prodHead = r.prodHead + 1#32 ∧ r'.prodTail = r.prodTail := by
  simp only [SpscRing.reserve] at hres
  split at hres
  · cases hres
  · cases hres
    exact ⟨rfl, rfl⟩

theorem Holds.enqueue {r' : SpscRing j α} (h : Holds r xs) (hp : r.prodHead = r.prodTail)
    (henq : r.enqueue x = some r') : Holds r' (xs ++ [x]) ∧ r'.prodHead = r'.prodTail := by
  obtain ⟨r₁, hres, rfl⟩ := Option.map_eq_some_iff.mp henq
  obtain ⟨hhead, htail⟩ := reserve_positions hres
  exact ⟨(h.reserve hres).publish (by rw [hhead, htail, hp]) x, rfl⟩

theorem Holds.enqueue_isSome (h : Holds r xs) (hp : r.prodHead = r.prodTail)
    (hroom : xs.length < 2 ^ j - 1) (x : α) : (r.enqueue x).isSome = true := by
  rw [SpscRing.enqueue, Option.isSome_map]
  exact h.reserve_isSome hp hroom

theorem Holds.enqueueBulk {r' : SpscRing j α} {ys : List α} (h : Holds r xs)
    (hp : r.prodHead = r.prodTail) (henq : r.enqueueBulk ys = some r') :
    Holds r' (xs ++ ys) ∧ r'.prodHead = r'.prodTail := by
  obtain ⟨-, hall⟩ := Option.ite_none_left_eq_some.mp henq
  clear henq
  induction ys generalizing r xs with
  | nil =>
    cases hall
    exact ⟨by simpa using h, hp⟩
  | cons y ys ih =>
    rw [foldlM_cons] at hall
    obtain ⟨r₁, hr₁, hrest⟩ := Option.bind_eq_some_iff.mp hall
    obtain ⟨h₁, hp₁⟩ := h.enqueue hp hr₁
    have hys := ih h₁ hp₁ hrest
    rwa [append_assoc] at hys

end

end SpscRing

end NetbsdDpdk
