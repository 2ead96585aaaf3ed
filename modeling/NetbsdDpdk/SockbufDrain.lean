import NetbsdDpdk.SockbufInvariant
import NetbsdDpdk.SoReceiveSpec

/-! Mbufs leave a socket buffer from its front, a few bytes, an mbuf or a whole record at a time;
then what is left is linked to the buffer again. -/

namespace NetbsdDpdk

open List Option RcvLoop

open MbufMem

variable {k n : Nat} {mem mem' : MbufMem k n} {sb sb' : Sockbuf k} {m next : Option (Fin k)}
  {x : Fin k} {xs zs : List (Fin k)} {rs : List (List (Fin k))} {len fuel : Nat}

structure SbFront (mem : MbufMem k n) (sb : Sockbuf k) (m next : Option (Fin k))
    (xs : List (Fin k)) (rs : List (List (Fin k))) : Prop where
  linked : LinkedFrom mem.mNext m xs
  inner : ∀ y ∈ xs.tail, mem.mNextpkt y = none
  behind : RecordsFrom mem.mNext mem.mNextpkt next rs
  nodup : (xs ++ rs.flatten).Nodup
  lastrecord : rs ≠ [] → sb.sbLastrecord = rs.getLast?.bind List.head?
  mbtail : ∀ y, (xs ++ rs.flatten).getLast? = some y → sb.sbMbtail = some y
  cc : sb.sbCc = mem.lenOf (xs ++ rs.flatten)
  mbcnt : sb.sbMbcnt = mSize * (xs ++ rs.flatten).length
  plain : ∀ y ∈ xs ++ rs.flatten, mem.Plain y
  cache : mem.mbCache.Nodup
  apart : ∀ y ∈ xs ++ rs.flatten, y ∉ mem.mbCache

theorem SbInv.front_cons (h : SbInv mem sb ((x :: xs) :: rs)) :
    SbFront mem sb (some x) (mem.mNextpkt x) (x :: xs) rs := by
  obtain ⟨-, hlinked, hinner, hrest⟩ := h.recs.records
  have hflat : ((x :: xs) :: rs).flatten = (x :: xs) ++ rs.flatten := by simp
  have htail := h.recs.mbtail
  rw [← h.recs.records.getLast?_flatten, hflat] at htail
  refine ⟨⟨rfl, hlinked⟩, hinner, hrest, hflat ▸ h.recs.nodup, ?_, ?_, ?_, ?_, ?_, h.cache, ?_⟩
  · intro hne
    rw [h.recs.lastrecord, getLast?_cons_of_ne_nil hne]
  · intro y hy
    rw [htail, hy]
  · rw [← hflat]
    exact h.recs.cc
  · rw [← hflat]
    exact h.recs.mbcnt
  · rw [← hflat]
    exact h.plain
  · rw [← hflat]
    exact h.apart

theorem SbInv.front (h : SbInv mem sb rs) : ∃ xs ss, rs.flatten = xs ++ ss.flatten ∧
    SbFront mem sb sb.sbMb (sb.sbMb.bind mem.mNextpkt) xs ss := by
  match rs, h with
  | [], h =>
    have hmb : sb.sbMb = none := h.recs.records
    refine ⟨[], [], rfl, ?_⟩
    rw [hmb]
    exact ⟨rfl, by simp, rfl, by simp, fun hne => absurd rfl hne, by simp, h.recs.cc, h.recs.mbcnt,
      by simp, h.cache, by simp⟩
  | [] :: _, h => exact h.recs.records.elim
  | (x :: xs) :: ss, h =>
    have hmb : sb.sbMb = some x := h.recs.records.1
    refine ⟨x :: xs, ss, by simp, ?_⟩
    rw [hmb]
    exact h.front_cons

namespace SbFront

theorem pop (h : SbFront mem sb m next (x :: xs) rs)
    (heq : ∀ y ∈ xs ++ rs.flatten, mem'.mbuf y = mem.mbuf y)
    (hcache : mem'.mbCache = mem.mbCache ∨ mem'.mbCache = x :: mem.mbCache) :
    SbFront mem' (sb.sbfree (mem.mbuf x)) (mem.mNext x) next xs rs := by
  obtain ⟨hx, hnd⟩ : x ∉ xs ++ rs.flatten ∧ (xs ++ rs.flatten).Nodup :=
    nodup_cons.mp (by simpa using h.nodup)
  have hsame : ∀ y ∈ xs ++ rs.flatten, mem.SameData mem' y := fun y hy => .of_eq (heq y hy)
  have hapart : ∀ y ∈ (x :: xs) ++ rs.flatten, y ∉ mem.mbCache := h.apart
  refine ⟨?_, ?_, ?_, hnd, h.lastrecord, ?_, ?_, ?_, ?_, ?_, ?_⟩
  · apply h.linked.2.congr
    intro y hy
    rw [mNext, heq y (by simp [hy]), mNext]
  · intro y hy
    have hmem : y ∈ xs := mem_of_mem_tail hy
    rw [mNextpkt, heq y (by simp [hmem])]
    exact h.inner y hmem
  · apply h.behind.congr
    intro y hy
    simp only [mNext, mNextpkt, heq y (mem_append_right _ hy), and_self]
  · intro y hy
    apply h.mbtail y
    rw [cons_append, getLast?_cons_of_ne_nil]
    · exact hy
    · intro hnil
      simp [hnil] at hy
  · have hcc := h.cc
    rw [cons_append, lenOf_cons] at hcc
    rw [lenOf_congr hsame]
    simp only [Sockbuf.sbfree]
    omega
  · have hmbcnt := h.mbcnt
    have hext := (h.plain x (by simp)).1
    simp only [cons_append, length_cons] at hmbcnt
    simp only [Sockbuf.sbfree, Sockbuf.mbufCharge, hext, getD_none]
    push_cast at hmbcnt ⊢
    rw [hmbcnt]
    ring
  · intro y hy
    exact (h.plain y (by simpa using .inr (by simpa using hy))).of_eq (heq y hy)
  · rcases hcache with hcache | hcache
    · rw [hcache]
      exact h.cache
    · rw [hcache]
      exact nodup_cons.mpr ⟨hapart x (by simp), h.cache⟩
  · intro y hy
    have hold : y ∉ mem.mbCache := hapart y (by simpa using .inr (by simpa using hy))
    rcases hcache with hcache | hcache
    · rwa [hcache]
    · rw [hcache]
      exact not_mem_cons_of_ne_of_not_mem (ne_of_mem_of_not_mem hy hx) hold

theorem pop_mFree (h : SbFront mem sb m next (x :: xs) rs) :
    SbFront (mem.mFree x).1 (sb.sbfree (mem.mbuf x)) (mem.mNext x) next xs rs := by
  have hx : x ∉ xs ++ rs.flatten := (nodup_cons.mp (by simpa using h.nodup)).1
  apply h.pop
  · intro y hy
    exact mem.mFree_mbuf_of_ne (ne_of_mem_of_not_mem hy hx)
  · exact .inr (by simp)

theorem step (h : SbFront mem sb m (some x) [] rs) :
    ∃ ys ss, rs = (x :: ys) :: ss ∧ SbFront mem sb (some x) (mem.mNextpkt x) (x :: ys) ss := by
  obtain ⟨ys, ss, rfl, hlinked, hinner, hrest⟩ := h.behind.of_some
  have hflat : [] ++ ((x :: ys) :: ss).flatten = (x :: ys) ++ ss.flatten := by simp
  refine ⟨ys, ss, rfl, ⟨rfl, hlinked⟩, hinner, hrest, hflat ▸ h.nodup, ?_, ?_, ?_, ?_, ?_, h.cache,
    ?_⟩
  · intro hne
    rw [h.lastrecord (by simp), getLast?_cons_of_ne_nil hne]
  all_goals rw [← hflat]
  · exact h.mbtail
  · exact h.cc
  · exact h.mbcnt
  · exact h.plain
  · exact h.apart

theorem trim (h : SbFront mem sb m next (x :: xs) rs) (hlen : len ≤ (mem.mbuf x).mLen) :
    SbFront (mem.modify x fun m => { m with mLen := m.mLen - len, mData := m.mData + len })
      { sb with sbCc := sb.sbCc - len } m next (x :: xs) rs := by
  obtain ⟨mem', hmem'⟩ : ∃ mem', mem.modify x (fun m =>
    { m with mLen := m.mLen - len, mData := m.mData + len }) = mem' := ⟨_, rfl⟩
  have hself : mem'.mbuf x = { mem.mbuf x with
      mLen := (mem.mbuf x).mLen - len, mData := (mem.mbuf x).mData + len } := by
    rw [← hmem', modify_mbuf_self]
  have hother : ∀ y, y ≠ x → mem'.mbuf y = mem.mbuf y := by
    intro y hy
    rw [← hmem', modify_mbuf_of_ne _ _ hy]
  have hmarks : ∀ y, mem'.mNext y = mem.mNext y ∧ mem'.mNextpkt y = mem.mNextpkt y ∧
      (mem.Plain y → mem'.Plain y) := by
    intro y
    by_cases hy : y = x
    · subst hy
      rw [mNext, mNextpkt, Plain, Plain, hself]
      exact ⟨rfl, rfl, id⟩
    · rw [mNext, mNextpkt, Plain, Plain, hother y hy]
      exact ⟨rfl, rfl, id⟩
  have hcache : mem'.mbCache = mem.mbCache := by rw [← hmem']; rfl
  have hx : x ∉ xs ++ rs.flatten := (nodup_cons.mp (by simpa using h.nodup)).1
  rw [hmem']
  refine ⟨?_, ?_, ?_, h.nodup, h.lastrecord, h.mbtail, ?_, h.mbcnt, ?_, hcache ▸ h.cache, ?_⟩
  · exact h.linked.congr fun y _ => (hmarks y).1
  · intro y hy
    rw [(hmarks y).2.1]
    exact h.inner y hy
  · exact h.behind.congr fun y _ => ⟨(hmarks y).1, (hmarks y).2.1⟩
  · have hcc := h.cc
    rw [cons_append, lenOf_cons] at hcc ⊢
    rw [hself, lenOf_congr fun y hy =>
      .of_eq (hother y (ne_of_mem_of_not_mem hy hx))]
    simp only
    omega
  · intro y hy
    exact (hmarks y).2.2 (h.plain y hy)
  · intro y hy
    rw [hcache]
    exact h.apart y hy

end SbFront

structure Settled (mem : MbufMem k n) (sb : Sockbuf k) (m next : Option (Fin k))
    (mem' : MbufMem k n) (sb' : Sockbuf k) : Prop where
  mbuf : ∀ y, mem'.mbuf y =
    { mem.mbuf y with mNextpkt := if m = some y then next else mem.mNextpkt y }
  mbCache : mem'.mbCache = mem.mbCache
  mb : sb'.sbMb = m.or next
  lastrecord : if next = none then sb'.sbLastrecord = m
    else sb'.sbLastrecord = sb.sbLastrecord ∨
      (next.bind mem.mNextpkt = none ∧ sb'.sbLastrecord = next)
  mbtail : sb'.sbMbtail = if m.or next = none then none else sb.sbMbtail
  cc : sb'.sbCc = sb.sbCc
  mbcnt : sb'.sbMbcnt = sb.sbMbcnt

theorem Settled.mb_of_ne_none (h : Settled mem sb m next mem' sb') (hne : m ≠ none) :
    sb'.sbMb = m := by
  obtain ⟨x, rfl⟩ := ne_none_iff_exists'.mp hne
  rw [h.mb, some_or]

namespace SbFront

theorem settle_lastrecord (h : SbFront mem sb m next xs rs) (hs : Settled mem sb m next mem' sb')
    (hne : rs ≠ []) :
    sb'.sbLastrecord = rs.getLast?.bind List.head? := by
  have hnext : next ≠ none := fun hnone => hne (h.behind.eq_none_iff.mp hnone)
  have hlast := hs.lastrecord
  rw [if_neg hnext] at hlast
  rcases hlast with hlast | ⟨hone, hlast⟩
  · rw [hlast]
    exact h.lastrecord hne
  · obtain ⟨y, rfl⟩ := ne_none_iff_exists'.mp hnext
    obtain ⟨ys, ss, rfl, -, -, hrest⟩ := h.behind.of_some
    have hy : mem.mNextpkt y = none := hone
    rw [hy] at hrest
    obtain rfl := hrest.of_none
    rw [hlast]
    rfl

theorem settle_records (h : SbFront mem sb m next xs rs) (hs : Settled mem sb m next mem' sb') :
    RecordsFrom mem'.mNext mem'.mNextpkt sb'.sbMb (if xs = [] then rs else xs :: rs) := by
  have hnext : ∀ y, mem'.mNext y = mem.mNext y := by
    intro y
    rw [mNext, hs.mbuf, mNext]
  have hnextpkt : ∀ y, mem'.mNextpkt y = if m = some y then next else mem.mNextpkt y := by
    intro y
    rw [mNextpkt, hs.mbuf]
  rw [hs.mb]
  cases xs with
  | nil =>
    have hm : m = none := h.linked
    rw [if_pos rfl, hm, none_or]
    apply h.behind.congr
    intro y _
    rw [hnext, hnextpkt, hm]
    exact ⟨rfl, rfl⟩
  | cons x xs =>
    have hm : m = some x := h.linked.1
    obtain ⟨hx, -⟩ : x ∉ xs ++ rs.flatten ∧ _ := nodup_cons.mp (by simpa using h.nodup)
    have hother : ∀ y ∈ xs ++ rs.flatten, mem'.mNextpkt y = mem.mNextpkt y := by
      intro y hy
      have hxy : x ≠ y := (ne_of_mem_of_not_mem hy hx).symm
      rw [hnextpkt, hm, if_neg (by simpa using hxy)]
    rw [if_neg (by simp), hm, some_or]
    refine ⟨rfl, ?_, ?_, ?_⟩
    · rw [hnext]
      exact h.linked.2.congr fun y _ => hnext y
    · intro y hy
      rw [hother y (by simp [hy])]
      exact h.inner y hy
    · rw [hnextpkt, hm, if_pos rfl]
      exact h.behind.congr fun y hy => ⟨hnext y, hother y (mem_append_right _ hy)⟩

theorem settle (h : SbFront mem sb m next xs rs) (hs : Settled mem sb m next mem' sb') :
    ∃ rs', rs'.flatten = xs ++ rs.flatten ∧ SbInv mem' sb' rs' := by
  obtain ⟨rs', hrs'⟩ : ∃ rs', (if xs = [] then rs else xs :: rs) = rs' := ⟨_, rfl⟩
  have hflat : rs'.flatten = xs ++ rs.flatten := by
    rw [← hrs']
    split
    · simp [*]
    · simp
  have hrecords := h.settle_records hs
  rw [hrs'] at hrecords
  have hdata : ∀ y, mem.SameData mem' y := by
    intro y
    constructor <;> rw [hs.mbuf]
  refine ⟨rs', hflat, ⟨hrecords, hflat ▸ h.nodup, ?_, ?_, ?_, ?_⟩, ?_, ?_, ?_⟩
  · by_cases hne : rs = []
    · have hnext : next = none := h.behind.eq_none_iff.mpr hne
      have hlast := hs.lastrecord
      rw [if_pos hnext, ← h.linked.head?_eq] at hlast
      rw [hlast, ← hrs', hne]
      cases xs <;> rfl
    · rw [h.settle_lastrecord hs hne, ← hrs']
      split
      · rfl
      · rw [getLast?_cons_of_ne_nil hne]
  · rw [← hrecords.getLast?_flatten, hflat, hs.mbtail, ← hs.mb]
    cases hlast : (xs ++ rs.flatten).getLast? with
    | none =>
      have hnil : rs'.flatten = [] := by rw [hflat]; exact getLast?_eq_none_iff.mp hlast
      rw [if_pos (hrecords.eq_none_iff.mpr (hrecords.flatten_eq_nil_iff.mp hnil))]
    | some y =>
      have hne : rs' ≠ [] := by
        rintro rfl
        simp [← hflat] at hlast
      rw [if_neg fun hnone => hne (hrecords.eq_none_iff.mp hnone)]
      exact h.mbtail y hlast
  · rw [hs.cc, h.cc, hflat]
    exact congrArg Int.ofNat (lenOf_congr fun y _ => hdata y).symm
  · rw [hs.mbcnt, h.mbcnt, hflat]
  · intro y hy
    rw [hflat] at hy
    rw [Plain, hs.mbuf]
    exact h.plain y hy
  · rw [hs.mbCache]
    exact h.cache
  · intro y hy
    rw [hflat] at hy
    rw [hs.mbCache]
    exact h.apart y hy

end SbFront

/-! `sbdrop` and `sbflush`. -/

namespace Drop

variable {d d' : Drop k n}

theorem settled (d : Drop k n) : Settled d.mem d.sb d.m d.next d.settle.1 d.settle.2.1 := by
  cases hm : d.m with
  | none =>
    cases hnext : d.next with
    | none => constructor <;> simp [settle, hm, hnext, mNextpkt]
    | some y =>
      by_cases hy : (d.mem.mbuf y).mNextpkt = none
      · constructor <;> simp [settle, hm, hnext, hy, mNextpkt]
      · constructor <;> simp [settle, hm, hnext, hy, mNextpkt]
  | some x =>
    have hmbuf : ∀ y, (d.mem.modify x fun m => { m with mNextpkt := d.next }).mbuf y =
        { d.mem.mbuf y with
          mNextpkt := if some x = some y then d.next else d.mem.mNextpkt y } := by
      intro y
      by_cases hy : y = x
      · subst hy
        simp
      · simp [modify_mbuf_of_ne _ _ hy, Ne.symm hy, mNextpkt]
    have hmem : d.settle.1 = d.mem.modify x fun m => { m with mNextpkt := d.next } := by
      simp [settle, hm]
    refine ⟨by rw [hmem]; exact hmbuf, by rw [hmem]; rfl, ?_, ?_, ?_, ?_, ?_⟩
    all_goals cases hnext : d.next <;> simp [settle, hm, hnext]

theorem keeping_front : Keeping fun (d : Drop k n) len xs rs =>
    SbFront d.mem d.sb d.m d.next xs rs ∧ len ≤ d.mem.lenOf (xs ++ rs.flatten) where
  head h := h.1.linked.head?_eq.symm
  nodup h := h.1.nodup
  length_le h := h.1.behind.length_le
  next := by
    rintro d len rs ⟨h, hlen⟩
    cases hnext : d.next with
    | none =>
      have hnil : rs = [] := h.behind.eq_none_iff.mp hnext
      simp [hnil] at hlen
    | some x =>
      rw [hnext] at h
      obtain ⟨ys, ss, rfl, hfront⟩ := h.step
      exact ⟨x, ys, ss, rfl, rfl, hfront, by simpa using hlen⟩
  trim h hlt := ⟨h.1.trim (le_of_lt hlt), Nat.zero_le _⟩
  free := by
    rintro d len x xs rs slot ⟨h, hle⟩ - -
    have hx : x ∉ xs ++ rs.flatten := (nodup_cons.mp (by simpa using h.nodup)).1
    rw [cons_append, lenOf_cons] at hle
    refine ⟨h.pop_mFree, ?_⟩
    rw [lenOf_free _ hx]
    exact Nat.sub_le_iff_le_add'.mpr hle

end Drop

theorem SbInv.drop (slot : Option TxSlot) (h : SbInv mem sb rs) (hlen : (len : Int) ≤ sb.sbCc) :
    ∃ mem' sb' slot' rs', sbdrop mem sb slot len = some (mem', sb', slot') ∧
      SbInv mem' sb' rs' := by
  obtain ⟨xs, ss, -, hfront⟩ := h.front
  have hlen' : len ≤ mem.lenOf (xs ++ ss.flatten) := by
    have hcc := hfront.cc
    omega
  obtain ⟨d, ys, ts, hdrop, ⟨hfront', -⟩, -⟩ :=
    Drop.keeping_front.sbdrop mem sb slot ⟨hfront, hlen'⟩
  obtain ⟨rs', -, hinv⟩ := hfront'.settle d.settled
  exact ⟨d.settle.1, d.settle.2.1, d.settle.2.2, rs', hdrop, hinv⟩

theorem wrap32_le {a : Int} (h : 0 ≤ a) : ((wrap32 a).toNat : Int) ≤ a := by
  have hle : wrap32 a ≤ a := by
    rw [wrap32, Int.bmod_def]
    split <;> omega
  omega

theorem SbInv.flush {slot slot' : Option TxSlot} (h : SbInv mem sb rs)
    (hflush : sbflush fuel mem sb slot = some (mem', sb', slot')) : ∃ rs', SbInv mem' sb' rs' := by
  induction fuel generalizing mem sb slot rs with
  | zero =>
    rw [sbflush] at hflush
    split at hflush
    · obtain ⟨rfl, rfl, -⟩ : mem = mem' ∧ sb = sb' ∧ slot = slot' := by simpa using hflush
      exact ⟨rs, h⟩
    · simp at hflush
  | succ fuel ih =>
    rw [sbflush] at hflush
    split at hflush
    · obtain ⟨rfl, rfl, -⟩ : mem = mem' ∧ sb = sb' ∧ slot = slot' := by simpa using hflush
      exact ⟨rs, h⟩
    · have hcc : (((wrap32 sb.sbCc).toNat : Nat) : Int) ≤ sb.sbCc := by
        apply wrap32_le
        rw [h.recs.cc]
        omega
      obtain ⟨mem₁, sb₁, slot₁, rs₁, hdrop, h₁⟩ := h.drop slot hcc
      simp only [hdrop] at hflush
      exact ih h₁ hflush

/-! `sbdroprecord`. -/

theorem SbFront.of_mb {p : Option (Fin k)} (h : SbFront mem sb m next xs rs) :
    SbFront mem { sb with sbMb := p } m next xs rs :=
  ⟨h.linked, h.inner, h.behind, h.nodup, h.lastrecord, h.mbtail, h.cc, h.mbcnt, h.plain, h.cache,
    h.apart⟩

theorem freeRecord_front (h : SbFront mem sb (some x) next (x :: xs) rs) (hfuel : xs.length < fuel)
    :
    ∃ mem' sb', freeRecord fuel mem sb x = some (mem', sb') ∧ sb'.sbMb = sb.sbMb ∧
      SbFront mem' sb' none next [] rs := by
  induction xs generalizing mem sb x fuel with
  | nil =>
    obtain ⟨fuel, rfl⟩ : ∃ f, fuel = f + 1 := ⟨fuel - 1, by omega⟩
    have hx : mem.mNext x = none := h.linked.2
    have hpop := h.pop_mFree
    rw [hx] at hpop
    refine ⟨(mem.mFree x).1, sb.sbfree (mem.mbuf x), ?_, rfl, hpop⟩
    have hfree : mem.mFree x = ((mem.mFree x).1, none) := by rw [← hx]; rfl
    rw [freeRecord, hfree]
  | cons y ys ih =>
    obtain ⟨fuel, rfl⟩ : ∃ f, fuel = f + 1 := ⟨fuel - 1, by omega⟩
    have hx : mem.mNext x = some y := h.linked.2.1
    have hpop := h.pop_mFree
    rw [hx] at hpop
    obtain ⟨mem', sb', hrest, hmb, hfront⟩ := ih hpop (by simpa using hfuel)
    refine ⟨mem', sb', ?_, hmb, hfront⟩
    have hfree : mem.mFree x = ((mem.mFree x).1, some y) := by rw [← hx]; rfl
    rw [freeRecord, hfree]
    exact hrest

theorem settled_emptyFixup (mem : MbufMem k n) (sb : Sockbuf k) :
    Settled mem sb none sb.sbMb mem sb.emptyFixup := by
  cases hmb : sb.sbMb <;>
    constructor <;> simp [Sockbuf.emptyFixup, hmb, mNextpkt]

theorem SbInv.droprecord (h : SbInv mem sb rs) :
    ∃ mem' sb' rs', sbdroprecord mem sb = some (mem', sb') ∧ SbInv mem' sb' rs' := by
  obtain ⟨xs, ss, -, hfront⟩ := h.front
  cases hmb : sb.sbMb with
  | none =>
    rw [hmb] at hfront
    have hsettled := settled_emptyFixup mem sb
    rw [hmb] at hsettled
    obtain ⟨rs', -, hinv⟩ := hfront.settle hsettled
    exact ⟨mem, sb.emptyFixup, rs', by simp [sbdroprecord, hmb], hinv⟩
  | some x =>
    rw [hmb] at hfront
    obtain ⟨xs, rfl⟩ : ∃ ys, xs = x :: ys := by
      cases xs with
      | nil => exact absurd hfront.linked (by simp)
      | cons y ys =>
        obtain ⟨heq, -⟩ := hfront.linked
        cases heq
        exact ⟨ys, rfl⟩
    have hfuel : xs.length < k := by
      have hcard := length_le_of_nodup hfront.nodup
      rw [cons_append, length_cons, length_append] at hcard
      omega
    obtain ⟨mem₁, sb₁, hfree, hmb₁, hfront₁⟩ :=
      freeRecord_front (hfront.of_mb (p := mem.mNextpkt x)) hfuel
    have hsettled := settled_emptyFixup mem₁ sb₁
    rw [hmb₁] at hsettled
    obtain ⟨rs', -, hinv⟩ := hfront₁.settle hsettled
    exact ⟨mem₁, sb₁.emptyFixup, rs', by simp [sbdroprecord, hmb, hfree], hinv⟩

/-! `soreceive`. -/

theorem settled_sbsync (s : RcvSocket k n) (next : Option (Fin k)) :
    Settled s.mem s.soRcv s.soRcv.sbMb next (sbsync s next).mem (sbsync s next).soRcv := by
  cases hmb : s.soRcv.sbMb with
  | none =>
    cases next with
    | none => constructor <;> simp [sbsync, hmb, mNextpkt]
    | some y =>
      by_cases hy : (s.mem.mbuf y).mNextpkt = none
      · constructor <;> simp [sbsync, hmb, hy, mNextpkt]
      · constructor <;> simp [sbsync, hmb, hy, mNextpkt]
  | some x =>
    have hmem : (sbsync s next).mem = (moveUp s (some x) next).mem := by
      simp [sbsync, hmb, moveUp]
    refine ⟨?_, by rw [hmem]; rfl, ?_, ?_, ?_, ?_, ?_⟩
    · intro y
      rw [hmem]
      exact moveUp_mbuf s (some x) next y
    all_goals cases next <;> simp [sbsync, hmb]

theorem settled_moveUp (s : RcvSocket k n) (next : Option (Fin k)) :
    Settled s.mem s.soRcv s.soRcv.sbMb next (moveUp s s.soRcv.sbMb next).mem
      (moveUp s s.soRcv.sbMb next).soRcv := by
  refine ⟨moveUp_mbuf s _ next, ?_, ?_, ?_, ?_, ?_, ?_⟩
  all_goals
    cases hmb : s.soRcv.sbMb <;> cases next <;>
      simp [moveUp, Sockbuf.emptyFixup, hmb, MbufMem.modify]

namespace RcvLoop

variable {l l' : RcvLoop k n} {head : Option (Fin n)}

def cutOff (l : RcvLoop k n) (h p : Fin n) (x : Fin k) : RcvLoop k n :=
  ((l.take h p x).release h p x).store none

theorem cutOff_mbuf {h p : Fin n} {y : Fin k} (hy : y ≠ x) (hmp : l.mp ≠ some y) :
    (l.cutOff h p x).sock.mem.mbuf y = l.sock.mem.mbuf y := by
  have hmp' : ((l.take h p x).release h p x).mp = some x := by
    by_cases hp : p = h <;> simp [release, hp, take]
  rw [cutOff, store_mbuf, hmp', if_neg (by simpa using Ne.symm hy), release_mbuf_of_ne _ _ _ hy,
    take_mbuf, if_neg hmp]

theorem cutOff_mbCache (l : RcvLoop k n) (h p : Fin n) (x : Fin k) :
    (l.cutOff h p x).sock.mem.mbCache =
      if p = h then l.sock.mem.mbCache else x :: l.sock.mem.mbCache := by
  have hstore : ∀ (l : RcvLoop k n) v, (l.store v).sock.mem.mbCache = l.sock.mem.mbCache := by
    intro l v
    cases hmp : l.mp <;> simp [store, hmp, MbufMem.modify]
  have htake : (l.take h p x).sock.mem.mbCache = l.sock.mem.mbCache := by
    simp only [take, hstore]
  rw [cutOff, hstore]
  by_cases hp : p = h
  · rw [release, if_neg (by simpa using hp), htake, if_pos hp]
  · simp [release, hp, htake]

theorem cutOff_soRcv {h p : Fin n} (hmp : l.mp ≠ some x) :
    (l.cutOff h p x).sock.soRcv =
      { l.sock.soRcv.sbfree (l.sock.mem.mbuf x) with sbMb := l.sock.mem.mNext x } := by
  rw [cutOff, store_soRcv]
  by_cases hp : p = h <;> simp [release, hp, take, mNext, store_mbuf, hmp]

theorem round_eq {succ : Option (Fin k)} (hround : l.round head x = some (l', succ)) :
    ∃ h p, head = some h ∧ (l.sock.mem.mbuf x).mPaddr = some p ∧
      succ = (l.cutOff h p x).sock.soRcv.sbMb ∧
      l' = { l.cutOff h p x with
        sock := moveUp (l.cutOff h p x).sock succ (l.sock.mem.mNextpkt x) } := by
  cases head with
  | none => simp [round] at hround
  | some h =>
    cases hp : (l.sock.mem.mbuf x).mPaddr with
    | none => simp [round, hp] at hround
    | some p =>
      have hmb : (l.cutOff h p x).sock.soRcv.sbMb = (l.take h p x).sock.soRcv.sbMb := by
        rw [cutOff, store_soRcv]
        by_cases hph : p = h <;> simp [release, hph]
      simp only [round, hp, Option.some.injEq, Prod.mk.injEq] at hround
      obtain ⟨rfl, rfl⟩ := hround
      exact ⟨h, p, rfl, rfl, hmb.symm, rfl⟩

theorem round_inv {succ : Option (Fin k)} (h : SbInv l.sock.mem l.sock.soRcv rs)
    (hmb : l.sock.soRcv.sbMb = some x) (hmp : ∀ y ∈ rs.flatten, l.mp ≠ some y)
    (hround : l.round head x = some (l', succ)) :
    ∃ rs', SbInv l'.sock.mem l'.sock.soRcv rs' ∧ (∀ y ∈ rs'.flatten, l'.mp ≠ some y) ∧
      (succ ≠ none → l'.sock.soRcv.sbMb = succ) := by
  obtain ⟨hd, p, -, -, rfl, rfl⟩ := round_eq hround
  obtain ⟨xs, ss, rfl, -, -, -⟩ := (hmb ▸ h.recs.records).of_some
  have hfront := h.front_cons
  have hflat : ((x :: xs) :: ss).flatten = x :: (xs ++ ss.flatten) := by simp
  rw [hflat] at hmp
  have hx : x ∉ xs ++ ss.flatten := (nodup_cons.mp (by simpa using hfront.nodup)).1
  have hsoRcv := cutOff_soRcv (h := hd) (p := p) (hmp x (by simp))
  have hpop : SbFront (l.cutOff hd p x).sock.mem (l.sock.soRcv.sbfree (l.sock.mem.mbuf x))
      (l.sock.mem.mNext x) (l.sock.mem.mNextpkt x) xs ss := by
    refine hfront.pop (fun y hy => ?_) ?_
    · exact cutOff_mbuf (ne_of_mem_of_not_mem hy hx) (hmp y (mem_cons_of_mem _ hy))
    · rw [cutOff_mbCache]
      split
      · exact .inl rfl
      · exact .inr rfl
  have hcut := hpop.of_mb (p := l.sock.mem.mNext x)
  rw [← hsoRcv] at hcut
  have hsb : (l.cutOff hd p x).sock.soRcv.sbMb = l.sock.mem.mNext x := by rw [hsoRcv]
  have hsettled := settled_moveUp (l.cutOff hd p x).sock (l.sock.mem.mNextpkt x)
  rw [← hsb] at hcut
  obtain ⟨rs', hflat', hinv⟩ := hcut.settle hsettled
  refine ⟨rs', hinv, ?_, ?_⟩
  · have hmp' : (l.cutOff hd p x).mp = some x := by
      by_cases hp : p = hd <;> simp [cutOff, release, hp, take]
    intro y hy heq
    rw [hflat'] at hy
    have hxy : x = y := by simpa [hmp'] using heq
    exact hx (hxy ▸ hy)
  · exact hsettled.mb_of_ne_none

theorem loop_inv {oob : Bool} {p : Option (Fin k)} (h : SbInv l.sock.mem l.sock.soRcv rs)
    (hp : p ≠ none → l.sock.soRcv.sbMb = p)
    (hmp : ∀ y ∈ rs.flatten, l.mp ≠ some y) (hloop : loop head oob fuel l p = some l') :
    ∃ rs', SbInv l'.sock.mem l'.sock.soRcv rs' := by
  induction fuel generalizing l p rs with
  | zero =>
    cases p with
    | none =>
      cases hloop
      exact ⟨rs, h⟩
    | some x => simp [loop] at hloop
  | succ fuel ih =>
    cases p with
    | none =>
      cases hloop
      exact ⟨rs, h⟩
    | some x =>
      rw [loop] at hloop
      split at hloop
      · cases hloop
        exact ⟨rs, h⟩
      · cases hround : l.round head x with
        | none => simp [hround] at hloop
        | some r =>
          obtain ⟨l₁, succ⟩ := r
          obtain ⟨rs₁, h₁, hmp₁, hsucc⟩ := round_inv h (hp (by simp)) hmp hround
          simp only [hround] at hloop
          split at hloop
          · cases hloop
            exact ⟨rs₁, h₁⟩
          · exact ih h₁ hsucc hmp₁ hloop

end RcvLoop

theorem takeAddr_inv {s : RcvSocket k n} (wantAddr : Bool) (h : SbInv s.mem s.soRcv rs)
    (hmb : s.soRcv.sbMb = some x) :
    ∃ rs', SbInv (takeAddr s x wantAddr).1.mem (takeAddr s x wantAddr).1.soRcv rs' ∧
      ((takeAddr s x wantAddr).2 ≠ none →
        (takeAddr s x wantAddr).1.soRcv.sbMb = (takeAddr s x wantAddr).2) := by
  obtain ⟨xs, ss, rfl, -, -, -⟩ := (hmb ▸ h.recs.records).of_some
  have hfront := h.front_cons
  have hx : x ∉ xs ++ ss.flatten := (nodup_cons.mp (by simpa using hfront.nodup)).1
  obtain ⟨mem₁, hmem₁⟩ : ∃ mem₁, (if wantAddr then
      s.mem.modify x fun m => { m with mNext := none } else (s.mem.mFree x).1) = mem₁ := ⟨_, rfl⟩
  have hpop : SbFront mem₁ (s.soRcv.sbfree (s.mem.mbuf x)) (s.mem.mNext x) (s.mem.mNextpkt x)
      xs ss := by
    rw [← hmem₁]
    cases wantAddr with
    | false => exact hfront.pop_mFree
    | true =>
      rw [if_pos rfl]
      refine hfront.pop (fun y hy => ?_) (.inl rfl)
      exact modify_mbuf_of_ne _ _ (ne_of_mem_of_not_mem hy hx)
  obtain ⟨s₁, hs₁⟩ : ∃ s₁ : RcvSocket k n, { s with
      mem := mem₁
      soRcv := { s.soRcv.sbfree (s.mem.mbuf x) with sbMb := s.mem.mNext x } } = s₁ := ⟨_, rfl⟩
  have htake : takeAddr s x wantAddr = (sbsync s₁ (s.mem.mNextpkt x), s.mem.mNext x) := by
    rw [← hs₁, ← hmem₁]
    rfl
  have hsettled := settled_sbsync s₁ (s.mem.mNextpkt x)
  have hfront₁ : SbFront s₁.mem s₁.soRcv s₁.soRcv.sbMb (s.mem.mNextpkt x) xs ss := by
    rw [← hs₁]
    exact hpop.of_mb
  obtain ⟨rs', -, hinv⟩ := hfront₁.settle hsettled
  rw [htake]
  have hmb₁ : s₁.soRcv.sbMb = s.mem.mNext x := by rw [← hs₁]
  refine ⟨rs', hinv, fun hne => ?_⟩
  rw [hsettled.mb_of_ne_none (hmb₁ ▸ hne), hmb₁]

theorem SbInv.receive {s : RcvSocket k n} {wantAddr : Bool} {r : SoReceived k n}
    (h : SbInv s.mem s.soRcv rs) (hr : soreceive s wantAddr = some r) :
    ∃ rs', SbInv r.sock.mem r.sock.soRcv rs' := by
  cases hmb : s.soRcv.sbMb with
  | none =>
    have hr' : s.nothingReceived = r := by simpa [soreceive, hmb] using hr
    have hsame : r.sock.mem = s.mem ∧ r.sock.soRcv = s.soRcv := by
      rw [← hr', RcvSocket.nothingReceived]
      split_ifs <;> exact ⟨rfl, rfl⟩
    rw [hsame.1, hsame.2]
    exact ⟨rs, h⟩
  | some x =>
    obtain ⟨⟨s₁, p⟩, hs₁⟩ : ∃ r, (if s.prAddr then takeAddr s x wantAddr else (s, some x)) = r :=
      ⟨_, rfl⟩
    obtain ⟨rs₁, h₁, hp⟩ : ∃ rs₁, SbInv s₁.mem s₁.soRcv rs₁ ∧ (p ≠ none → s₁.soRcv.sbMb = p) := by
      cases haddr : s.prAddr with
      | false =>
        obtain ⟨rfl, rfl⟩ : s = s₁ ∧ some x = p := by simpa [haddr] using hs₁
        exact ⟨rs, h, fun _ => hmb⟩
      | true =>
        have htake := takeAddr_inv wantAddr h hmb
        have heq : takeAddr s x wantAddr = (s₁, p) := by simpa [haddr] using hs₁
        rw [heq] at htake
        exact htake
    simp only [soreceive, hmb, hs₁] at hr
    cases p with
    | none =>
      cases hr
      exact ⟨rs₁, h₁⟩
    | some y =>
      simp only at hr
      split at hr
      · cases hr
      · obtain ⟨l, hloop, rfl⟩ := map_eq_some_iff.mp hr
        exact loop_inv (l := { sock := s₁ }) h₁ hp (by simp) hloop

/-! Every sequence of the routines. -/

theorem SbState.Initial.inv {s : SbState k n} (h : s.Initial) : SbInv s.sock.mem s.sock.soRcv [] :=
  let e := h.soRcv
  ⟨⟨e.mb, by simp, e.lastrecord, e.mbtail, e.cc, e.mbcnt⟩, by simp, h.cache, by simp⟩

theorem sbStep_inv {s s' : SbState k n} {a : SbAction k n} (hstep : sbStep s a = some s')
    (h : SbInv s.sock.mem s.sock.soRcv rs) : ∃ rs', SbInv s'.sock.mem s'.sock.soRcv rs' := by
  cases a with
  | others sock slot =>
    obtain ⟨hleaves, rfl⟩ := guarded_eq_some.mp hstep
    exact ⟨rs, h.others hleaves⟩
  | appendstream x =>
    obtain ⟨ms, hwalk, hrest⟩ := bind_eq_some_iff.mp hstep
    obtain ⟨⟨hins, hone⟩, hrest⟩ := guard_bind_eq_some.mp hrest
    obtain ⟨⟨mem', sb', slot'⟩, happ, hs'⟩ := bind_eq_some_iff.mp hrest
    cases hs'
    exact h.appendstream (hins.insertion h.recs) (linkedFrom_of_walkFrom hwalk) hone happ
  | appendaddr pool asa m0 pktLen control =>
    obtain ⟨ws, hws, hrest⟩ := bind_eq_some_iff.mp hstep
    obtain ⟨ms, hms, hrest⟩ := bind_eq_some_iff.mp hrest
    obtain ⟨hins, hrest⟩ := guard_bind_eq_some.mp hrest
    obtain ⟨⟨done, mem', sb'⟩, happ, hs'⟩ := bind_eq_some_iff.mp hrest
    cases hs'
    exact h.appendaddr (hins.insertion h.recs) (linkedFrom_of_walkFrom hws)
      (linkedFrom_of_walkFrom hms) happ
  | drop len =>
    obtain ⟨hlen, hrest⟩ := guard_bind_eq_some.mp hstep
    obtain ⟨mem', sb', slot', rs', hdrop, h'⟩ := h.drop s.slot hlen
    obtain ⟨r, hr, hs'⟩ := bind_eq_some_iff.mp hrest
    rw [hdrop] at hr
    cases hr
    cases hs'
    exact ⟨rs', h'⟩
  | droprecord =>
    obtain ⟨mem', sb', rs', hdrop, h'⟩ := h.droprecord
    obtain ⟨r, hr, hs'⟩ := bind_eq_some_iff.mp hstep
    rw [hdrop] at hr
    cases hr
    cases hs'
    exact ⟨rs', h'⟩
  | flush fuel =>
    obtain ⟨⟨mem', sb', slot'⟩, hflush, hs'⟩ := bind_eq_some_iff.mp hstep
    cases hs'
    exact h.flush hflush
  | receive wantAddr =>
    obtain ⟨r, hr, hs'⟩ := bind_eq_some_iff.mp hstep
    cases hs'
    exact h.receive hr

/-- In every run the receive buffer stays a list of records with its pointers and counters. -/
theorem sockbuf_of_run {s₀ s : SbState k n} {as : List (SbAction k n)} (hinit : s₀.Initial)
    (hrun : Run sbStep (fun _ _ => True) s₀ as s) :
    ∃ rs, SbRecords s.sock.mem s.sock.soRcv rs := by
  obtain ⟨rs, hinv⟩ := hrun.invariant (I := fun s => ∃ rs, SbInv s.sock.mem s.sock.soRcv rs)
    (fun _ _ _ ⟨_, h⟩ _ hstep => sbStep_inv hstep h) ⟨[], hinit.inv⟩
  exact ⟨rs, hinv.recs⟩

def datagramBuffer : SbState 5 5 where
  sock := {
    mem := {
      mbuf := fun x => {
        mNext := if x = 0 then some 1 else none
        mLen := 3, mData := 128, mPaddr := if x < 3 then some x else none }
      mbCache := [3, 4]
      rte := { cell := fun _ => { refcnt := 1 }, mempool := [(0, 3), (0, 4)] } }
    soRcv := { sbHiwat := 65536, sbMbmax := 65536 }
    prAddr := true
    prConnRequired := false }

theorem sockbuf_of_run_datagrams : ∃ s, Run sbStep (fun _ _ => True) datagramBuffer
    [.appendaddr 0 [1, 2] (some 0) 6 none, .appendaddr 0 [1, 2] (some 2) 3 none, .receive true,
      .drop 3] s ∧
    s.sock.soRcv.sbCc = 2 ∧ ∃ rs, SbRecords s.sock.mem s.sock.soRcv rs :=
  Run.exists_and_of_runActions (by decide +kernel) fun _ hrun _ =>
    sockbuf_of_run ⟨⟨rfl, rfl, rfl, rfl, rfl⟩, by decide⟩ hrun

end NetbsdDpdk
