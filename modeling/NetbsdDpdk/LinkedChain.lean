import Mathlib.Data.List.Nodup
import Mathlib.Data.Fintype.Card
import Mathlib.Logic.Function.Basic

/-! Singly linked chains in a heap, given by the function that reads the link of a cell. -/

namespace NetbsdDpdk

open Function

variable {α : Type*}

/-- Following `next` from `p` visits exactly `xs`, in order, and then stops. -/
def LinkedFrom (next : α → Option α) : Option α → List α → Prop
  | p, [] => p = none
  | p, x :: xs => p = some x ∧ LinkedFrom next (next x) xs

namespace LinkedFrom

variable {next next' : α → Option α} {p q : Option α} {xs ys : List α} {x y : α}

@[simp] theorem nil_iff : LinkedFrom next p [] ↔ p = none := Iff.rfl

@[simp] theorem cons_iff :
    LinkedFrom next p (x :: xs) ↔ p = some x ∧ LinkedFrom next (next x) xs := Iff.rfl

@[simp] theorem none_iff : LinkedFrom next none xs ↔ xs = [] := by
  cases xs <;> simp

theorem some_iff :
    LinkedFrom next (some x) xs ↔ ∃ ys, xs = x :: ys ∧ LinkedFrom next (next x) ys := by
  cases xs with
  | nil => simp
  | cons z zs =>
    constructor
    · rintro ⟨h, hzs⟩
      cases h
      exact ⟨zs, rfl, hzs⟩
    · rintro ⟨ys, h, hys⟩
      cases h
      exact ⟨rfl, hys⟩

theorem exists_concat (h : LinkedFrom next (some x) xs) : ∃ ys y, xs = ys ++ [y] := by
  obtain ⟨ys, rfl, -⟩ := some_iff.mp h
  exact (List.eq_nil_or_concat' _).resolve_left (List.cons_ne_nil x ys)

theorem head?_eq (h : LinkedFrom next p xs) : xs.head? = p := by
  cases xs with
  | nil => exact h.symm
  | cons x xs => exact h.1.symm

theorem unique (hx : LinkedFrom next p xs) (hy : LinkedFrom next p ys) : xs = ys := by
  induction xs generalizing p ys with
  | nil => simp_all
  | cons x xs ih =>
    obtain ⟨rfl, hx⟩ := hx
    obtain ⟨zs, rfl, hz⟩ := some_iff.mp hy
    rw [ih hx hz]

theorem congr (h : LinkedFrom next p xs) (heq : ∀ x ∈ xs, next' x = next x) :
    LinkedFrom next' p xs := by
  induction xs generalizing p with
  | nil => exact h
  | cons x xs ih =>
    obtain ⟨rfl, hx⟩ := h
    refine ⟨rfl, ?_⟩
    rw [heq x (by simp)]
    exact ih hx fun y hy => heq y (by simp [hy])

theorem append_cons (h : LinkedFrom next p (xs ++ y :: ys)) :
    LinkedFrom next (next y) ys := by
  induction xs generalizing p with
  | nil => exact h.2
  | cons x xs ih => exact ih h.2

theorem nodup (h : LinkedFrom next p xs) : xs.Nodup := by
  induction xs generalizing p with
  | nil => exact List.nodup_nil
  | cons x xs ih =>
    obtain ⟨rfl, hx⟩ := h
    refine List.nodup_cons.mpr ⟨fun hmem => ?_, ih hx⟩
    obtain ⟨us, vs, rfl⟩ := List.append_of_mem hmem
    have hlen := congrArg List.length (unique hx (append_cons hx))
    simp at hlen
    omega

theorem length_le [Fintype α] (h : LinkedFrom next p xs) : xs.length ≤ Fintype.card α :=
  h.nodup.length_le_card

theorem extend (h : LinkedFrom next p (xs ++ [y])) (hy : LinkedFrom next' (some y) ys)
    (heq : ∀ x ∈ xs, next' x = next x) : LinkedFrom next' p (xs ++ ys) := by
  induction xs generalizing p with
  | nil =>
    obtain ⟨rfl, -⟩ := h
    exact hy
  | cons x xs ih =>
    obtain ⟨rfl, h⟩ := h
    refine ⟨rfl, ?_⟩
    rw [heq x (by simp)]
    exact ih h fun z hz => heq z (by simp [hz])

theorem snoc {z : α} (h : LinkedFrom next p (xs ++ [z])) (hz : next' z = some y)
    (hy : next' y = none) (heq : ∀ x ∈ xs, next' x = next x) :
    LinkedFrom next' p (xs ++ [z] ++ [y]) := by
  rw [List.append_assoc]
  exact h.extend ⟨rfl, hz, hy⟩ heq

section Update

variable [DecidableEq α]

theorem update_of_notMem (h : LinkedFrom next p xs) (hy : y ∉ xs) :
    LinkedFrom (update next y q) p xs :=
  h.congr fun _ hx => Function.update_of_ne (ne_of_mem_of_not_mem hx hy) _ _

theorem redirect (h : LinkedFrom next p (xs ++ y :: ys)) {zs : List α}
    (hz : LinkedFrom next q zs) (hy : y ∉ zs) :
    LinkedFrom (update next y q) p (xs ++ y :: zs) := by
  have hnd := h.nodup
  induction xs generalizing p with
  | nil =>
    obtain ⟨rfl, -⟩ := h
    refine ⟨rfl, ?_⟩
    rw [Function.update_self]
    exact hz.update_of_notMem hy
  | cons x xs ih =>
    obtain ⟨rfl, h⟩ := h
    have hne : x ≠ y := by
      rintro rfl
      simp at hnd
    refine ⟨rfl, ?_⟩
    rw [Function.update_of_ne hne]
    exact ih h (List.nodup_cons.mp hnd).2

theorem cut (h : LinkedFrom next p (xs ++ y :: ys)) :
    LinkedFrom (update next y none) p (xs ++ [y]) :=
  h.redirect (none_iff.mpr rfl) (by simp)

theorem join (h : LinkedFrom next p (xs ++ [y])) {zs : List α}
    (hz : LinkedFrom next q zs) (hy : y ∉ zs) :
    LinkedFrom (update next y q) p (xs ++ y :: zs) :=
  h.redirect hz hy

end Update

end LinkedFrom

theorem exists_fuel {len fuel : Nat} (h : len + 1 ≤ fuel) : ∃ f, fuel = f + 1 ∧ len ≤ f :=
  ⟨fuel - 1, by omega, by omega⟩

def walkFrom (next : α → Option α) : Nat → Option α → Option (List α)
  | _, none => some []
  | 0, some _ => none
  | fuel + 1, some x => (walkFrom next fuel (next x)).map (x :: ·)

theorem walkFrom_eq {next : α → Option α} {p : Option α} {xs : List α} {fuel : Nat}
    (h : LinkedFrom next p xs) (hfuel : xs.length ≤ fuel) : walkFrom next fuel p = some xs := by
  induction xs generalizing p fuel with
  | nil =>
    cases h
    cases fuel <;> rfl
  | cons x xs ih =>
    obtain ⟨rfl, h⟩ := h
    obtain ⟨fuel, rfl, hf⟩ := exists_fuel hfuel
    simp [walkFrom, ih h hf]

theorem linkedFrom_of_walkFrom {next : α → Option α} {p : Option α} {xs : List α} {fuel : Nat}
    (h : walkFrom next fuel p = some xs) : LinkedFrom next p xs := by
  induction fuel generalizing p xs with
  | zero =>
    cases p with
    | none =>
      cases h
      rfl
    | some x => cases h
  | succ fuel ih =>
    cases p with
    | none =>
      cases h
      rfl
    | some x =>
      obtain ⟨ys, hys, rfl⟩ := Option.map_eq_some_iff.mp h
      exact ⟨rfl, ih hys⟩

def lastFrom (next : α → Option α) : Nat → α → Option α
  | 0, _ => none
  | fuel + 1, x =>
    match next x with
    | none => some x
    | some y => lastFrom next fuel y

theorem lastFrom_eq {next : α → Option α} {x y : α} {xs : List α} {fuel : Nat}
    (h : LinkedFrom next (some x) (xs ++ [y])) (hfuel : xs.length < fuel) :
    lastFrom next fuel x = some y := by
  induction xs generalizing x fuel with
  | nil =>
    obtain ⟨hx, hy⟩ := h
    cases hx
    obtain ⟨fuel, rfl, hf⟩ := exists_fuel hfuel
    simp only [LinkedFrom] at hy
    simp [lastFrom, hy]
  | cons z zs ih =>
    obtain ⟨hx, hz⟩ := h
    cases hx
    obtain ⟨fuel, rfl, hf⟩ := exists_fuel hfuel
    obtain ⟨w, hw⟩ : ∃ w, next z = some w := by
      cases zs with
      | nil => exact ⟨y, hz.1⟩
      | cons w ws => exact ⟨w, hz.1⟩
    rw [hw] at hz
    simp only [lastFrom, hw]
    exact ih hz hf

end NetbsdDpdk
