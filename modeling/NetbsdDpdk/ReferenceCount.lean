import Mathlib.Data.List.Count
import Mathlib.Data.List.Nodup
import Mathlib.Data.List.Perm.Basic
import Mathlib.Logic.Function.Basic

/-! Objects that several holders share: the list of the references, an object once for every
holder, and counters that agree with it. -/

namespace NetbsdDpdk

open List

variable {α : Type*} [DecidableEq α] {refcnt refcnt' : α → Nat} {held held' : List α} {d : α}

def Counts (refcnt : α → Nat) (held : List α) : Prop := ∀ d ∈ held, refcnt d = held.count d

namespace Counts

theorem perm (h : Counts refcnt held) (hperm : held.Perm held') : Counts refcnt held' := by
  intro d hd
  rw [h d (hperm.mem_iff.mpr hd), hperm.count_eq]

theorem congr (h : Counts refcnt held) (heq : ∀ d ∈ held, refcnt' d = refcnt d) :
    Counts refcnt' held := by
  intro d hd
  rw [heq d hd, h d hd]

theorem append {new : List α} (h : Counts refcnt held) (hnd : new.Nodup)
    (hnew : ∀ d ∈ new, refcnt d = 1 ∧ d ∉ held) : Counts refcnt (new ++ held) := by
  intro d hd
  rw [count_append]
  by_cases hmem : d ∈ new
  · rw [count_eq_one_of_mem hnd hmem, count_eq_zero_of_not_mem (hnew d hmem).2]
    exact (hnew d hmem).1
  · rw [count_eq_zero_of_not_mem hmem, Nat.zero_add]
    exact h d ((mem_append.mp hd).resolve_left hmem)

theorem le_length (h : Counts refcnt held) (hd : d ∈ held) : refcnt d ≤ held.length := by
  rw [h d hd]
  exact count_le_length

theorem pos (h : Counts refcnt held) (hd : d ∈ held) : 0 < refcnt d := by
  rw [h d hd]
  exact count_pos_iff.mpr hd

theorem cons (h : Counts refcnt held) (hd : refcnt' d = held.count d + 1)
    (hother : ∀ e ∈ held, e ≠ d → refcnt' e = refcnt e) : Counts refcnt' (d :: held) := by
  intro e he
  by_cases hed : e = d
  · subst hed
    rw [hd, count_cons_self]
  · have hmem : e ∈ held := by simpa [hed] using he
    rw [hother e hmem hed, h e hmem, count_cons_of_ne (Ne.symm hed)]

theorem tail (h : Counts refcnt (d :: held)) (hd : d ∈ held → refcnt' d = refcnt d - 1)
    (hother : ∀ e ∈ held, e ≠ d → refcnt' e = refcnt e) : Counts refcnt' held := by
  intro e he
  by_cases hed : e = d
  · subst hed
    have hcount := h e (by simp)
    rw [count_cons_self] at hcount
    rw [hd he, hcount]
    omega
  · rw [hother e he hed, h e (mem_cons_of_mem _ he), count_cons_of_ne (Ne.symm hed)]

theorem eq_one_iff (h : Counts refcnt (d :: held)) : refcnt d = 1 ↔ d ∉ held := by
  rw [h d (by simp), count_cons_self, ← count_eq_zero]
  omega

end Counts

end NetbsdDpdk
