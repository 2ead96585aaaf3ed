import NetbsdDpdk.LinkedChain

/-! Queues of chains in a heap: the cells of a record are chained by one link, and the first cells
of the records by another one. -/

namespace NetbsdDpdk

open List Function

variable {α : Type*}

/-- Following `link` from `p` visits the first cells of the records `rs`; each record is a chain of
`next`, and only its first cell has a `link`. -/
def RecordsFrom (next link : α → Option α) : Option α → List (List α) → Prop
  | p, [] => p = none
  | _, [] :: _ => False
  | p, (x :: xs) :: rs =>
    p = some x ∧ LinkedFrom next (next x) xs ∧ (∀ y ∈ xs, link y = none) ∧
      RecordsFrom next link (link x) rs

namespace RecordsFrom

variable {next link next' link' : α → Option α} {p q : Option α} {x y : α} {r xs : List α}
  {rs ss : List (List α)}

@[simp] theorem nil_iff : RecordsFrom next link p [] ↔ p = none := Iff.rfl

theorem of_none (h : RecordsFrom next link none rs) : rs = [] := by
  match rs with
  | [] => rfl
  | [] :: _ => exact h.elim
  | (_ :: _) :: _ => exact absurd h.1 (by simp)

theorem of_some (h : RecordsFrom next link (some x) rs) :
    ∃ xs ss, rs = (x :: xs) :: ss ∧ LinkedFrom next (next x) xs ∧ (∀ y ∈ xs, link y = none) ∧
      RecordsFrom next link (link x) ss := by
  match rs with
  | [] => exact absurd h (by simp)
  | [] :: _ => exact h.elim
  | (z :: zs) :: ss =>
    obtain ⟨hz, hlinked, hinner, hrest⟩ := h
    cases hz
    exact ⟨zs, ss, rfl, hlinked, hinner, hrest⟩

theorem eq_none_iff (h : RecordsFrom next link p rs) : p = none ↔ rs = [] := by
  match rs with
  | [] => simpa using h
  | [] :: _ => exact h.elim
  | (_ :: _) :: _ => simp [h.1]

theorem flatten_eq_nil_iff (h : RecordsFrom next link p rs) : rs.flatten = [] ↔ rs = [] := by
  match rs with
  | [] => simp
  | [] :: _ => exact h.elim
  | (_ :: _) :: _ => simp

theorem congr (h : RecordsFrom next link p rs)
    (heq : ∀ x ∈ rs.flatten, next' x = next x ∧ link' x = link x) :
    RecordsFrom next' link' p rs := by
  induction rs generalizing p with
  | nil => exact h
  | cons r rs ih =>
    match r with
    | [] => exact h.elim
    | x :: xs =>
      obtain ⟨hp, hlinked, hinner, hrest⟩ := h
      have hx := heq x (by simp)
      have hxs : ∀ y ∈ xs, next' y = next y ∧ link' y = link y := fun y hy => heq y (by simp [hy])
      refine ⟨hp, ?_, ?_, ?_⟩
      · rw [hx.1]
        exact hlinked.congr fun y hy => (hxs y hy).1
      · intro y hy
        rw [(hxs y hy).2]
        exact hinner y hy
      · rw [hx.2]
        apply ih hrest
        intro y hy
        exact heq y (by simp only [flatten_cons, mem_append]; exact .inr hy)

theorem heads (h : RecordsFrom next link p rs) : LinkedFrom link p (rs.filterMap List.head?) := by
  induction rs generalizing p with
  | nil => exact h
  | cons r rs ih =>
    match r with
    | [] => exact h.elim
    | x :: xs =>
      obtain ⟨hp, -, -, hrest⟩ := h
      exact ⟨hp, ih hrest⟩

theorem record (h : RecordsFrom next link p rs) (hr : r ∈ rs) :
    ∃ x xs, r = x :: xs ∧ LinkedFrom next (some x) (x :: xs) := by
  induction rs generalizing p with
  | nil => cases hr
  | cons s rs ih =>
    match s with
    | [] => exact h.elim
    | x :: xs =>
      obtain ⟨-, hlinked, -, hrest⟩ := h
      rcases mem_cons.mp hr with rfl | hr
      · exact ⟨x, xs, rfl, rfl, hlinked⟩
      · exact ih hrest hr

theorem getLast?_flatten (h : RecordsFrom next link p rs) :
    rs.flatten.getLast? = rs.getLast?.bind List.getLast? := by
  cases rs using List.reverseRecOn with
  | nil => rfl
  | append_singleton rs r =>
    obtain ⟨x, xs, rfl, -⟩ := h.record (r := r) (by simp)
    have hlast : (rs ++ [x :: xs]).flatten = rs.flatten ++ (x :: xs) := by simp
    rw [hlast, getLast?_append_of_ne_nil _ (by simp)]
    simp

theorem length_le (h : RecordsFrom next link p rs) : rs.length ≤ rs.flatten.length := by
  induction rs generalizing p with
  | nil => simp
  | cons r rs ih =>
    match r with
    | [] => exact h.elim
    | x :: xs =>
      have hrest := ih h.2.2.2
      simp only [length_cons, flatten_cons, length_append]
      omega

theorem snoc [DecidableEq α] (h : RecordsFrom next link p (rs ++ [x :: xs]))
    (hnd : (rs ++ [x :: xs]).flatten.Nodup) (hs : RecordsFrom next link q ss)
    (hdis : ∀ y ∈ ss.flatten, y ≠ x) :
    RecordsFrom next (update link x q) p (rs ++ (x :: xs) :: ss) := by
  induction rs generalizing p with
  | nil =>
    obtain ⟨hp, hlinked, hinner, -⟩ := h
    have hx : x ∉ xs := by
      have hnd' : (x :: xs).Nodup := by simpa using hnd
      exact (nodup_cons.mp hnd').1
    refine ⟨hp, hlinked, ?_, ?_⟩
    · intro y hy
      rw [update_of_ne (ne_of_mem_of_not_mem hy hx)]
      exact hinner y hy
    · rw [update_self]
      exact hs.congr fun y hy => ⟨rfl, update_of_ne (hdis y hy) _ _⟩
  | cons r rs ih =>
    match r with
    | [] => exact h.elim
    | z :: zs =>
      obtain ⟨hp, hlinked, hinner, hrest⟩ := h
      have hsplit : (z :: zs ++ (rs ++ [x :: xs]).flatten).Nodup := by simpa using hnd
      obtain ⟨-, hnd', hne⟩ := nodup_append.mp hsplit
      have hxmem : x ∈ (rs ++ [x :: xs]).flatten := by simp
      refine ⟨hp, hlinked, ?_, ?_⟩
      · intro y hy
        rw [update_of_ne (hne y (by simp [hy]) x hxmem)]
        exact hinner y hy
      · rw [update_of_ne (hne z (by simp) x hxmem)]
        exact ih hrest hnd'

end RecordsFrom

end NetbsdDpdk
