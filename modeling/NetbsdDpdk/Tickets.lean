import Mathlib.Logic.Function.Basic

/-! Positions between a tail and a head that are handed out in ranges, one range to a thread at a
time. The head moves when a range is handed out; the tail moves over the range that begins there,
when its owner gives it back. -/

namespace NetbsdDpdk

open Function

variable {T : Type*}

structure Tickets (tail head : Nat) (own : T → Option (Nat × Nat)) : Prop where
  le : tail ≤ head
  inside : ∀ {t a b}, own t = some (a, b) → tail ≤ a ∧ a < b ∧ b ≤ head
  apart : ∀ {t u a b c d}, t ≠ u → own t = some (a, b) → own u = some (c, d) → b ≤ c ∨ d ≤ a
  cover : ∀ {p}, tail ≤ p → p < head → ∃ t a b, own t = some (a, b) ∧ a ≤ p ∧ p < b

namespace Tickets

variable {tail head n b : Nat} {own : T → Option (Nat × Nat)} {t : T}

/-- While something is handed out, somebody has the range that begins at the tail. -/
theorem exists_turn (h : Tickets tail head own) (hlt : tail < head) :
    ∃ t b, own t = some (tail, b) := by
  obtain ⟨t, a, b, hown, ha, -⟩ := h.cover (Nat.le_refl _) hlt
  have heq : a = tail := Nat.le_antisymm ha (h.inside hown).1
  exact ⟨t, b, heq ▸ hown⟩

variable [DecidableEq T]

theorem take (h : Tickets tail head own) (hnone : own t = none) (hn : 0 < n) :
    Tickets tail (head + n) (update own t (some (head, head + n))) := by
  have hsplit : ∀ {u a b}, update own t (some (head, head + n)) u = some (a, b) →
      u = t ∧ a = head ∧ b = head + n ∨ u ≠ t ∧ own u = some (a, b) := by
    intro u a b hu
    by_cases heq : u = t
    · subst heq
      rw [update_self] at hu
      cases hu
      exact .inl ⟨rfl, rfl, rfl⟩
    · exact .inr ⟨heq, by rwa [update_of_ne heq] at hu⟩
  have hle := h.le
  refine ⟨by omega, fun hu => ?_, fun huv hu hv => ?_, fun {p} hp hlt => ?_⟩
  · rcases hsplit hu with ⟨-, rfl, rfl⟩ | ⟨-, hu⟩
    · omega
    · have := h.inside hu
      omega
  · rcases hsplit hu with ⟨hut, rfl, rfl⟩ | ⟨-, hu'⟩ <;>
      rcases hsplit hv with ⟨hvt, rfl, rfl⟩ | ⟨-, hv'⟩
    · exact absurd (hut.trans hvt.symm) huv
    · exact .inr (h.inside hv').2.2
    · exact .inl (h.inside hu').2.2
    · exact h.apart huv hu' hv'
  · by_cases hold : p < head
    · obtain ⟨u, a, b, hu, hab⟩ := h.cover hp hold
      have hne : u ≠ t := by
        rintro rfl
        rw [hnone] at hu
        cases hu
      exact ⟨u, a, b, by rwa [update_of_ne hne], hab⟩
    · exact ⟨t, head, head + n, update_self .., by omega⟩

theorem serve (h : Tickets tail head own) (hown : own t = some (tail, b)) :
    Tickets b head (update own t none) := by
  have hkept : ∀ {u a c}, update own t none u = some (a, c) →
      u ≠ t ∧ own u = some (a, c) := by
    intro u a c hu
    have hne : u ≠ t := by
      rintro rfl
      rw [update_self] at hu
      cases hu
    exact ⟨hne, by rwa [update_of_ne hne] at hu⟩
  have htb := h.inside hown
  refine ⟨htb.2.2, fun hu => ?_, fun huv hu hv => h.apart huv (hkept hu).2 (hkept hv).2,
    fun {p} hp hlt => ?_⟩
  · obtain ⟨hne, hu⟩ := hkept hu
    have := h.inside hu
    have := h.apart hne hu hown
    omega
  · obtain ⟨u, a, c, hu, hac⟩ := h.cover (by omega) hlt
    have hne : u ≠ t := by
      rintro rfl
      rw [hown] at hu
      cases hu
      omega
    exact ⟨u, a, c, by rwa [update_of_ne hne], hac⟩

end Tickets

end NetbsdDpdk
