import Mathlib.Algebra.BigOperators.Group.Finset.Basic
import Mathlib.Algebra.Order.BigOperators.Group.Finset
import Mathlib.Data.List.Nodup

/-! Tokens and places. A flow from one distribution of tokens to another touches finitely many
places and is described by the tokens that it loses and those that it adds; whether a token lies
somewhere, and never in two places, is read off these two lists. -/

namespace NetbsdDpdk

open List

variable {P β : Type*}

def Located (c : P → List β) (x : β) : Prop := ∃ p, x ∈ c p

structure Fresh (c : P → List β) (new : List β) : Prop where
  nodup : new.Nodup
  notLocated : ∀ x ∈ new, ¬ Located c x

theorem Fresh.nil {c : P → List β} : Fresh c [] := ⟨nodup_nil, by simp⟩

variable [DecidableEq β]

def total (c : P → List β) (ps : Finset P) (x : β) : Nat := ∑ p ∈ ps, (c p).count x

def AtMostOnce (c : P → List β) : Prop := ∀ ps x, total c ps x ≤ 1

section Total

variable {c c' : P → List β} {ps qs : Finset P} {x : β} {p q : P}

theorem total_pos_iff : 0 < total c ps x ↔ ∃ p ∈ ps, x ∈ c p := by
  rw [total, Finset.sum_pos_iff]
  simp only [count_pos_iff]

theorem AtMostOnce.nodup (h : AtMostOnce c) (p : P) : (c p).Nodup := by
  rw [nodup_iff_count_le_one]
  intro x
  simpa [total] using h {p} x

variable [DecidableEq P]

theorem AtMostOnce.unique (h : AtMostOnce c) (hp : x ∈ c p) (hq : x ∈ c q) : p = q := by
  by_contra hne
  have hle := h {p, q} x
  rw [total, Finset.sum_pair hne] at hle
  have := count_pos_iff.mpr hp
  have := count_pos_iff.mpr hq
  omega

theorem AtMostOnce.of_unique (hnodup : ∀ p, (c p).Nodup)
    (hunique : ∀ x p q, x ∈ c p → x ∈ c q → p = q) : AtMostOnce c := by
  intro ps x
  induction ps using Finset.induction_on with
  | empty => simp [total]
  | insert p ps hp ih =>
    rw [total, Finset.sum_insert hp, ← total]
    have hone := nodup_iff_count_le_one.mp (hnodup p) x
    by_contra hgt
    have hpos : 0 < total c ps x := by omega
    obtain ⟨q, hq, hxq⟩ := total_pos_iff.mp hpos
    have hxp : x ∈ c p := count_pos_iff.mp (by omega)
    exact hp (hunique x p q hxp hxq ▸ hq)

end Total

/-- `c'` comes from `c` by losing the tokens `lost`, adding the tokens `new` and moving others
between finitely many places. -/
def Flow (lost new : List β) (c c' : P → List β) : Prop :=
  ∃ ps : Finset P, (∀ r, r ∉ ps → c' r = c r) ∧
    ∀ x, total c ps x + new.count x = total c' ps x + lost.count x

namespace Flow

variable {lost new : List β} {c c' : P → List β} {ps : Finset P} {x : β}

theorem refl (h : ∀ r, c' r = c r) : Flow [] [] c c' :=
  ⟨∅, fun r _ => h r, fun x => by simp [total]⟩

theorem balance {lost' new' : List β} (h : Flow lost new c c')
    (hcount : ∀ x, new.count x + lost'.count x = new'.count x + lost.count x) :
    Flow lost' new' c c' := by
  obtain ⟨ps, hsame, htotal⟩ := h
  refine ⟨ps, hsame, fun x => ?_⟩
  have := hcount x
  have := htotal x
  omega

variable [DecidableEq P]

theorem update (c : P → List β) (p : P) (new : List β) :
    Flow (c p) new c (Function.update c p new) := by
  refine ⟨{p}, fun r hr => Function.update_of_ne (by simpa using hr) _ _, fun x => ?_⟩
  simp only [total, Finset.sum_singleton, Function.update_self]
  omega

theorem exists_balance (h : Flow lost new c c') :
    ∃ ps : Finset P, (∀ r, r ∉ ps → c' r = c r) ∧ ∀ qs x, ps ⊆ qs →
      total c qs x + new.count x = total c' qs x + lost.count x := by
  obtain ⟨ps, hsame, hcount⟩ := h
  refine ⟨ps, hsame, fun qs x hsub => ?_⟩
  have hrest : ∑ p ∈ qs \ ps, (c' p).count x = ∑ p ∈ qs \ ps, (c p).count x := by
    apply Finset.sum_congr rfl
    intro p hp
    rw [hsame p (Finset.mem_sdiff.mp hp).2]
  have hx := hcount x
  simp only [total] at hx ⊢
  rw [← Finset.sum_sdiff hsub, ← Finset.sum_sdiff hsub, hrest]
  omega

theorem trans {lost' new' : List β} {c'' : P → List β} (h : Flow lost new c c')
    (h' : Flow lost' new' c' c'') : Flow (lost ++ lost') (new ++ new') c c'' := by
  obtain ⟨ps, hsame, hbalance⟩ := h.exists_balance
  obtain ⟨qs, hsame', hbalance'⟩ := h'.exists_balance
  refine ⟨ps ∪ qs, fun r hr => ?_, fun x => ?_⟩
  · rw [Finset.mem_union, not_or] at hr
    rw [hsame' r hr.2, hsame r hr.1]
  · have hx := hbalance (ps ∪ qs) x Finset.subset_union_left
    have hx' := hbalance' (ps ∪ qs) x Finset.subset_union_right
    simp only [count_append]
    omega

theorem located_of_notMem_lost (h : Flow lost new c c') (hx : Located c x) (hlost : x ∉ lost) :
    Located c' x := by
  obtain ⟨ps, -, hbalance⟩ := h.exists_balance
  obtain ⟨p, hp⟩ := hx
  have hx := hbalance (insert p ps) x (Finset.subset_insert p ps)
  have hpos : 0 < total c (insert p ps) x :=
    total_pos_iff.mpr ⟨p, Finset.mem_insert_self p ps, hp⟩
  rw [count_eq_zero_of_not_mem hlost] at hx
  obtain ⟨q, -, hq⟩ := total_pos_iff.mp (show 0 < total c' (insert p ps) x by omega)
  exact ⟨q, hq⟩

theorem located_or_mem_new (h : Flow lost new c c') (hx : Located c' x) :
    Located c x ∨ x ∈ new := by
  obtain ⟨ps, -, hbalance⟩ := h.exists_balance
  obtain ⟨p, hp⟩ := hx
  have hx := hbalance (insert p ps) x (Finset.subset_insert p ps)
  have hpos : 0 < total c' (insert p ps) x :=
    total_pos_iff.mpr ⟨p, Finset.mem_insert_self p ps, hp⟩
  by_cases hnew : x ∈ new
  · exact .inr hnew
  · rw [count_eq_zero_of_not_mem hnew] at hx
    obtain ⟨q, -, hq⟩ := total_pos_iff.mp (show 0 < total c (insert p ps) x by omega)
    exact .inl ⟨q, hq⟩

theorem atMostOnce (h : Flow lost new c c') (hc : AtMostOnce c) (hnew : Fresh c new) :
    AtMostOnce c' := by
  obtain ⟨ps, -, hbalance⟩ := h.exists_balance
  intro qs x
  have hsub : total c' qs x ≤ total c' (ps ∪ qs) x :=
    Finset.sum_le_sum_of_subset Finset.subset_union_right
  have hx := hbalance (ps ∪ qs) x Finset.subset_union_left
  have hle := hc (ps ∪ qs) x
  by_cases hmem : x ∈ new
  · have hzero : total c (ps ∪ qs) x = 0 := by
      by_contra hpos
      obtain ⟨p, -, hp⟩ := total_pos_iff.mp (Nat.pos_of_ne_zero hpos)
      exact hnew.notLocated x hmem ⟨p, hp⟩
    have hone := nodup_iff_count_le_one.mp hnew.nodup x
    omega
  · rw [count_eq_zero_of_not_mem hmem] at hx
    omega

theorem not_located_of_mem_lost (h : Flow lost new c c') (hc : AtMostOnce c)
    (hlost : x ∈ lost) (hnew : x ∉ new) : ¬ Located c' x := by
  obtain ⟨ps, -, hbalance⟩ := h.exists_balance
  rintro ⟨p, hp⟩
  have hx := hbalance (insert p ps) x (Finset.subset_insert p ps)
  have hle := hc (insert p ps) x
  have hpos : 0 < total c' (insert p ps) x :=
    total_pos_iff.mpr ⟨p, Finset.mem_insert_self p ps, hp⟩
  have := count_pos_iff.mpr hlost
  rw [count_eq_zero_of_not_mem hnew] at hx
  omega

end Flow

end NetbsdDpdk
