import NetbsdDpdk.SharedData

/-! The loops of `m_copym`: what they store where, and the bytes that the first of them skips. -/

namespace NetbsdDpdk

open List MbufMem

variable {k n : Nat} {m m' : CloneMem k n} {x y : Fin k} {xs cs zs : List (Fin k)} {fuel off : Nat}

namespace CloneMem

namespace CopyLoop

variable {l l' : CopyLoop k n}

theorem store_mbuf (l : CopyLoop k n) (v : Option (Fin k)) (z : Fin k) :
    (l.store v).m.mem.mbuf z = { l.m.mem.mbuf z with
      mNext := if l.np = some z then v else l.m.mem.mNext z } := by
  cases h : l.np with
  | none => simp [store, h, MbufMem.mNext]
  | some w =>
    by_cases hz : z = w
    · subst hz
      simp [store, h]
    · simp [store, h, modify_mbuf_of_ne _ _ hz, Ne.symm hz, MbufMem.mNext]

theorem store_kept (l : CopyLoop k n) (v : Option (Fin k)) :
    (l.store v).m.mem.rte = l.m.mem.rte ∧ (l.store v).m.mem.mbCache = l.m.mem.mbCache ∧
      (l.store v).m.attached = l.m.attached ∧
      (l.store v).top = if l.np = none then v else l.top := by
  cases h : l.np <;> simp [store, h, MbufMem.modify]

theorem place_mbuf (l : CopyLoop k n) (b : Mbuf k n) (off count : Nat) {z : Fin k} (hz : z ≠ y) :
    (l.place y b off count).m.mem.mbuf z = { l.m.mem.mbuf z with
      mNext := if l.np = some z then some y else l.m.mem.mNext z } := by
  simp only [place, modify_mbuf_of_ne _ _ hz, store_mbuf]

theorem place_mbuf_self (l : CopyLoop k n) (b : Mbuf k n) (off count : Nat) (hy : l.np ≠ some y) :
    (l.place y b off count).m.mem.mbuf y = { l.m.mem.mbuf y with
      mLen := count, mData := b.mData + off } := by
  simp only [place, modify_mbuf_self, store_mbuf, if_neg hy, mNext]

theorem place_kept (l : CopyLoop k n) (y : Fin k) (b : Mbuf k n) (off count : Nat) :
    (l.place y b off count).m.mem.rte = l.m.mem.rte ∧
      (l.place y b off count).m.mem.mbCache = l.m.mem.mbCache ∧
      (l.place y b off count).m.attached = l.m.attached ∧
      (l.place y b off count).top = if l.np = none then some y else l.top := by
  obtain ⟨hrte, hcache, hatt, htop⟩ := l.store_kept (some y)
  exact ⟨hrte, hcache, hatt, htop⟩

theorem store_cloned (l : CopyLoop k n) (v : Option (Fin k)) : (l.store v).cloned = l.cloned := by
  cases h : l.np <;> simp [store, h]

theorem run_succ {pool len : Nat} {r : Option (Fin k) × Bool × CloneMem k n}
    (hrun : run pool (fuel + 1) l (some x) off (len + 1) = some r) :
    (∃ m, r = (none, l.cloned, m)) ∨ ∃ md y m, (l.m.mem.mbuf x).mPaddr = some md ∧
        l.m.mGetIndirect pool md (l.m.mem.mbuf x).mType = some (some y, m) ∧
        ∃ l' count, { l with m }.place y (l.m.mem.mbuf x) off count = l' ∧
          count = min (len + 1) ((l.m.mem.mbuf x).mLen - off) ∧
          (if off + count = (l.m.mem.mbuf x).mLen then
            run pool fuel l' (l'.m.mem.mNext x) 0
              (if len + 1 = mCopyall then len + 1 else len + 1 - count)
          else run pool fuel l' (some x) (off + count)
            (if len + 1 = mCopyall then len + 1 else len + 1 - count)) = some r := by
  cases hmd : (l.m.mem.mbuf x).mPaddr with
  | none => simp [run, hmd] at hrun
  | some md =>
    cases hext : (l.m.mem.mbuf x).mExtSize with
    | some size => simp [run, hmd, hext] at hrun
    | none =>
      cases hget : l.m.mGetIndirect pool md (l.m.mem.mbuf x).mType with
      | none => simp [run, hmd, hext, hget] at hrun
      | some g =>
        obtain ⟨o, m⟩ := g
        cases o with
        | none =>
          left
          simp only [run, hmd, hext, hget, Option.map_eq_some_iff, store_cloned] at hrun
          obtain ⟨m', -, heq⟩ := hrun
          exact ⟨m', heq.symm⟩
        | some y =>
          right
          simp only [run, hmd, hext, hget] at hrun
          exact ⟨md, y, m, rfl, hget, _, _, rfl, rfl, hrun⟩

theorem run_zero (pool fuel off : Nat) (l : CopyLoop k n) (p : Option (Fin k)) :
    run pool fuel l p off 0 = some (l.top, l.cloned, l.m) := by
  cases fuel <;> cases p <;> rfl

theorem run_none {pool len : Nat} {r : Option (Fin k) × Bool × CloneMem k n}
    (hrun : run pool fuel l none off len = some r) : r = (l.top, l.cloned, l.m) := by
  cases len with
  | zero =>
    rw [run_zero] at hrun
    exact (Option.some.inj hrun).symm
  | succ len =>
    have hall : (if len + 1 = mCopyall then some (l.top, l.cloned, l.m) else none) = some r := by
      cases fuel <;> exact hrun
    exact (Option.some.inj (Option.ite_none_right_eq_some.mp hall).2).symm

theorem length_mbufData {d : Fin n} (h : m.dataBuffer x = some d) :
    (m.mbufData x).length = (m.mem.mbuf x).mLen := by
  simp [CloneMem.mbufData, h, bytesAt]

end CopyLoop

theorem skipOff_links {p : Option (Fin k)} (hlink : LinkedFrom m.mem.mNext p xs)
    (hoff : off ≤ m.mem.lenOf xs) (hfuel : xs.length ≤ fuel) :
    ∃ rest off', m.skipOff fuel p off = some (rest.head?, off') ∧ rest <:+ xs ∧
      LinkedFrom m.mem.mNext rest.head? rest ∧ (∀ x ∈ rest.head?, off' ≤ (m.mem.mbuf x).mLen) ∧
      m.mem.lenOf rest + off = m.mem.lenOf xs + off' := by
  induction xs generalizing p off fuel with
  | nil =>
    obtain rfl : off = 0 := by simpa using hoff
    cases hlink
    exact ⟨[], 0, by cases fuel <;> rfl, suffix_refl _, rfl, by simp, rfl⟩
  | cons x xs ih =>
    obtain ⟨rfl, hrest⟩ := hlink
    cases off with
    | zero =>
      exact ⟨x :: xs, 0, by cases fuel <;> rfl, suffix_refl _, ⟨rfl, hrest⟩, by simp, rfl⟩
    | succ off =>
      obtain ⟨fuel, rfl, hf⟩ := exists_fuel hfuel
      by_cases hin : off + 1 < (m.mem.mbuf x).mLen
      · refine ⟨x :: xs, off + 1, by simp [skipOff, hin], suffix_refl _, ⟨rfl, hrest⟩, ?_, rfl⟩
        intro z hz
        cases hz
        omega
      · rw [lenOf_cons] at hoff
        obtain ⟨rest, off', hskip, hsuf, hlink', hin', hlen⟩ := ih hrest
          (show off + 1 - (m.mem.mbuf x).mLen ≤ m.mem.lenOf xs by omega) hf
        refine ⟨rest, off', by simp [skipOff, hin, hskip], hsuf.trans (suffix_cons x xs), hlink',
          hin', by rw [lenOf_cons]; omega⟩

@[simp] theorem chainData_nil (m : CloneMem k n) : m.chainData [] = [] := rfl

@[simp] theorem chainData_cons (m : CloneMem k n) (x : Fin k) (xs : List (Fin k)) :
    m.chainData (x :: xs) = m.mbufData x ++ m.chainData xs := rfl

@[simp] theorem chainData_append (m : CloneMem k n) (xs ys : List (Fin k)) :
    m.chainData (xs ++ ys) = m.chainData xs ++ m.chainData ys := flatMap_append

theorem length_chainData (hbuf : ∀ z ∈ xs, ∃ d, m.dataBuffer z = some d) :
    (m.chainData xs).length = m.mem.lenOf xs := by
  induction xs with
  | nil => rfl
  | cons x xs ih =>
    obtain ⟨d, hd⟩ := hbuf x (by simp)
    have hxs := ih fun z hz => hbuf z (.tail _ hz)
    rw [chainData_cons, length_append, CopyLoop.length_mbufData hd, hxs, lenOf_cons]

theorem skipOff_spec {p : Option (Fin k)} (hlink : LinkedFrom m.mem.mNext p xs)
    (hbuf : ∀ z ∈ xs, ∃ d, m.dataBuffer z = some d) (hoff : off ≤ m.mem.lenOf xs)
    (hfuel : xs.length ≤ fuel) :
    ∃ rest off', m.skipOff fuel p off = some (rest.head?, off') ∧ rest <:+ xs ∧
      LinkedFrom m.mem.mNext rest.head? rest ∧ (∀ x ∈ rest.head?, off' ≤ (m.mem.mbuf x).mLen) ∧
      m.mem.lenOf rest + off = m.mem.lenOf xs + off' ∧
      (m.chainData rest).drop off' = (m.chainData xs).drop off := by
  obtain ⟨rest, off', hskip, hsuf, hlink', hin, hlen⟩ := skipOff_links hlink hoff hfuel
  refine ⟨rest, off', hskip, hsuf, hlink', hin, hlen, ?_⟩
  obtain ⟨pre, rfl⟩ := hsuf
  have hpre := length_chainData fun z hz => hbuf z (mem_append_left rest hz)
  rw [lenOf_append] at hlen
  have hoff' : off = (m.chainData pre).length + off' := by omega
  rw [chainData_append, hoff', drop_length_add_append]

theorem Ledger.dataBuffer (h : Ledger m xs cs) : ∀ z ∈ xs, ∃ d, m.dataBuffer z = some d := by
  intro z hz
  obtain ⟨d, hd, hatt, -⟩ := h.direct z hz
  exact ⟨d, by simp [CloneMem.dataBuffer, hd, hatt]⟩

end CloneMem

end NetbsdDpdk
