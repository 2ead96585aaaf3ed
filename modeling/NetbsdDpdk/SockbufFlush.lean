import NetbsdDpdk.AppendAddr

/-! `sbflush` (`uipc_socket2.c`) goes on while `sb_mbcnt` is not zero, but each of its rounds drops
by byte count, which is zero once only empty mbufs are left. Every round that starts with a record
ends with at least one record less. -/

namespace NetbsdDpdk

open List MbufMem

variable {k n : Nat} {mem mem' mem'' : MbufMem k n} {sb : Sockbuf k} {m next : Option (Fin k)}
  {x : Fin k} {xs fs gs : List (Fin k)} {rs : List (List (Fin k))}

/-- The mbufs `fs` have been passed to `MFREE`, in this order, and no other; an mbuf that is left
can have got another `m_nextpkt`. -/
structure Released (mem : MbufMem k n) (fs : List (Fin k)) (mem' : MbufMem k n) : Prop where
  cache : mem'.mbCache = fs.reverse ++ mem.mbCache
  rte : mem'.rte = (fs.filterMap fun x => (mem.mbuf x).mPaddr).foldl Memory.freeSeg mem.rte
  other : ∀ y ∉ fs, ∃ np, mem'.mbuf y = { mem.mbuf y with mNextpkt := np }

namespace Released

theorem refl (mem : MbufMem k n) : Released mem [] mem :=
  ⟨rfl, rfl, fun _ _ => ⟨_, rfl⟩⟩

theorem paddr (h : Released mem fs mem') {y : Fin k} (hy : y ∉ fs) :
    (mem'.mbuf y).mPaddr = (mem.mbuf y).mPaddr := by
  obtain ⟨np, hnp⟩ := h.other y hy
  rw [hnp]

theorem trans (h : Released mem fs mem') (h' : Released mem' gs mem'') (hnd : (fs ++ gs).Nodup) :
    Released mem (fs ++ gs) mem'' where
  cache := by rw [h'.cache, h.cache, reverse_append, append_assoc]
  rte := by
    have hapart : ∀ y ∈ gs, y ∉ fs := fun y hy hmem => (nodup_append'.mp hnd).2.2 hmem hy
    have hpaddr : (gs.filterMap fun x => (mem'.mbuf x).mPaddr) =
        gs.filterMap fun x => (mem.mbuf x).mPaddr :=
      filterMap_congr fun y hy => h.paddr (hapart y hy)
    rw [h'.rte, hpaddr, h.rte, filterMap_append, foldl_append]
  other y hy := by
    obtain ⟨np, hnp⟩ := h.other y fun hmem => hy (mem_append_left _ hmem)
    obtain ⟨np', hnp'⟩ := h'.other y fun hmem => hy (mem_append_right _ hmem)
    exact ⟨np', by rw [hnp', hnp]⟩

theorem single (mem : MbufMem k n) (x : Fin k) : Released mem [x] (mem.mFree x).1 := by
  refine ⟨?_, ?_, fun y hy => ⟨_, mem.mFree_mbuf_of_ne (by simpa using hy)⟩⟩
  · cases hp : (mem.mbuf x).mPaddr <;> simp [mFree, hp, MbufMem.modify]
  · cases hp : (mem.mbuf x).mPaddr <;> simp [mFree, hp]

end Released

structure Flushing (mem : MbufMem k n) (sb : Sockbuf k) (m next : Option (Fin k))
    (xs : List (Fin k)) (rs : List (List (Fin k))) : Prop where
  linked : LinkedFrom mem.mNext m xs
  heads : LinkedFrom mem.mNextpkt next (rs.filterMap List.head?)
  chains : ∀ r ∈ rs, r ≠ [] ∧ LinkedFrom mem.mNext r.head? r
  nodup : (xs ++ rs.flatten).Nodup
  cc : sb.sbCc = mem.lenOf (xs ++ rs.flatten)
  mbcnt : sb.sbMbcnt = mem.chargeOf (xs ++ rs.flatten)

theorem SbHolds.flushing (h : SbHolds mem sb rs) : Flushing mem sb none sb.sbMb [] rs :=
  ⟨rfl, h.heads, h.chains, h.nodup, h.cc, h.mbcnt⟩

namespace Flushing

theorem eq_nil (h : Flushing mem sb m none xs rs) : rs = [] := by
  cases rs with
  | nil => rfl
  | cons r ss =>
    obtain ⟨y, ys, rfl⟩ := exists_cons_of_ne_nil (h.chains r (by simp)).1
    have hheads := h.heads
    rw [filterMap_cons_some (by rfl)] at hheads
    exact absurd hheads.1 (by simp)

theorem take (h : Flushing mem sb m (some x) [] rs) :
    ∃ ys ss, rs = (x :: ys) :: ss ∧
      Flushing mem sb (some x) (mem.mNextpkt x) (x :: ys) ss := by
  cases rs with
  | nil => simpa using h.heads
  | cons r ss =>
    obtain ⟨hne, hchain⟩ := h.chains r (by simp)
    obtain ⟨y, ys, rfl⟩ := exists_cons_of_ne_nil hne
    have hheads := h.heads
    rw [filterMap_cons_some (by rfl)] at hheads
    obtain ⟨hxy, hrest⟩ := hheads
    obtain rfl : x = y := by simpa using hxy
    have hflat : [] ++ ((x :: ys) :: ss).flatten = (x :: ys) ++ ss.flatten := by simp
    refine ⟨ys, ss, rfl, hchain, hrest, fun r hr => h.chains r (by simp [hr]), ?_, ?_, ?_⟩
    · rw [← hflat]
      exact h.nodup
    · rw [← hflat]
      exact h.cc
    · rw [← hflat]
      exact h.mbcnt

theorem free (h : Flushing mem sb m next (x :: xs) rs) :
    Flushing (mem.mFree x).1 (sb.sbfree (mem.mbuf x)) (mem.mFree x).2 next xs rs := by
  have hnd : (x :: (xs ++ rs.flatten)).Nodup := by simpa using h.nodup
  obtain ⟨hx, hnd⟩ := nodup_cons.mp hnd
  have hsame : ∀ y ∈ xs ++ rs.flatten, mem.SameData (mem.mFree x).1 y := fun y hy =>
    .of_eq (mem.mFree_mbuf_of_ne (ne_of_mem_of_not_mem hy hx))
  refine ⟨?_, ?_, ?_, hnd, ?_, ?_⟩
  · rw [mFree_mNext]
    exact h.linked.2
  · rw [mFree_mNextpkt]
    exact h.heads
  · rw [mFree_mNext]
    exact h.chains
  · have hcc := h.cc
    rw [cons_append, lenOf_cons] at hcc
    rw [lenOf_congr hsame]
    simp only [Sockbuf.sbfree]
    omega
  · have hmbcnt := h.mbcnt
    rw [cons_append, chargeOf_cons] at hmbcnt
    rw [chargeOf_congr hsame]
    simp only [Sockbuf.sbfree]
    omega

end Flushing

/-- What was left of the buffer in `mem` is `ys` and `ss` in `mem'`, and what stood before them has
been freed. -/
structure FlushedTo (mem : MbufMem k n) (xs : List (Fin k)) (rs : List (List (Fin k)))
    (mem' : MbufMem k n) (ys : List (Fin k)) (ss : List (List (Fin k))) : Prop where
  freed : ∃ fs, xs ++ rs.flatten = fs ++ (ys ++ ss.flatten) ∧ Released mem fs mem'
  fewer : ss.length ≤ rs.length

namespace FlushedTo

variable {ys zs : List (Fin k)} {ss ts : List (List (Fin k))}

theorem refl (mem : MbufMem k n) (xs : List (Fin k)) (rs : List (List (Fin k))) :
    FlushedTo mem xs rs mem xs rs :=
  ⟨⟨[], rfl, .refl mem⟩, le_refl _⟩

theorem trans (h : FlushedTo mem xs rs mem' ys ss) (h' : FlushedTo mem' ys ss mem'' zs ts)
    (hnd : (xs ++ rs.flatten).Nodup) : FlushedTo mem xs rs mem'' zs ts := by
  obtain ⟨fs, hsplit, hrel⟩ := h.freed
  obtain ⟨gs, hsplit', hrel'⟩ := h'.freed
  have hwhole : xs ++ rs.flatten = (fs ++ gs) ++ (zs ++ ts.flatten) := by
    rw [hsplit, hsplit', append_assoc]
  rw [hwhole] at hnd
  exact ⟨⟨fs ++ gs, hwhole, hrel.trans hrel' (List.Nodup.of_append_left hnd)⟩,
    le_trans h'.fewer h.fewer⟩

theorem free (mem : MbufMem k n) (x : Fin k) (xs : List (Fin k)) (rs : List (List (Fin k))) :
    FlushedTo mem (x :: xs) rs (mem.mFree x).1 xs rs :=
  ⟨⟨[x], rfl, .single mem x⟩, le_refl _⟩

end FlushedTo

theorem length_le_flatten {α : Type*} {rs : List (List α)} (h : ∀ r ∈ rs, r ≠ []) :
    rs.length ≤ rs.flatten.length := by
  induction rs with
  | nil => exact le_refl _
  | cons r rs ih =>
    have hr : 0 < r.length := length_pos_iff.mpr (h r (by simp))
    have hrs := ih fun s hs => h s (by simp [hs])
    rw [flatten_cons, length_append, length_cons]
    omega

namespace Drop

variable {d : Drop k n}

/-- All bytes of the buffer are dropped, so no mbuf is cut. -/
theorem keeping_flush (mem₀ : MbufMem k n) {xs₀ : List (Fin k)} {rs₀ : List (List (Fin k))}
    (hnd : (xs₀ ++ rs₀.flatten).Nodup) : Keeping fun (d : Drop k n) len xs rs =>
      Flushing d.mem d.sb d.m d.next xs rs ∧ len = d.mem.lenOf (xs ++ rs.flatten) ∧
        FlushedTo mem₀ xs₀ rs₀ d.mem xs rs where
  head h := h.1.linked.head?_eq.symm
  nodup h := h.1.nodup
  length_le h := length_le_flatten fun r hr => (h.1.chains r hr).1
  next := by
    rintro d len rs ⟨h, hlen, hto⟩
    cases hnext : d.next with
    | none =>
      -- the panic: no record is left, so no byte is
      rw [hnext] at h
      simp [h.eq_nil] at hlen
    | some x =>
      rw [hnext] at h
      obtain ⟨ys, ss, rfl, htaken⟩ := h.take
      obtain ⟨fs, hsplit, hrel⟩ := hto.freed
      exact ⟨x, ys, ss, rfl, rfl, htaken, by simpa using hlen, ⟨fs, by simpa using hsplit, hrel⟩,
        le_trans (by simp) hto.fewer⟩
  trim := by
    rintro d len x xs rs ⟨-, hlen, -⟩ hlt
    rw [cons_append, lenOf_cons] at hlen
    omega
  free := by
    rintro d len x xs rs slot ⟨h, hlen, hto⟩ - -
    have hx : x ∉ xs ++ rs.flatten := (nodup_cons.mp (by simpa using h.nodup)).1
    rw [cons_append, lenOf_cons] at hlen
    refine ⟨h.free, ?_, hto.trans (.free d.mem x xs rs) hnd⟩
    rw [lenOf_free _ hx]
    exact Nat.sub_eq_of_eq_add' hlen

theorem settle_none (h : d.m = none) : d.settle.1 = d.mem ∧ d.settle.2.1.sbMb = d.next ∧
    d.settle.2.1.sbCc = d.sb.sbCc ∧ d.settle.2.1.sbMbcnt = d.sb.sbMbcnt ∧
    (d.next = none → d.settle.2.1.sbMbtail = none ∧ d.settle.2.1.sbLastrecord = none) := by
  cases hnext : d.next with
  | none => simp [settle, h, hnext]
  | some y => by_cases hy : (d.mem.mbuf y).mNextpkt = none <;> simp [settle, h, hnext, hy]

end Drop

theorem Flushing.round (slot : Option TxSlot) (h : Flushing mem sb none sb.sbMb [] rs)
    (hne : rs ≠ []) :
    ∃ mem' sb' slot' ss, sbdrop mem sb slot (mem.lenOf rs.flatten) = some (mem', sb', slot') ∧
      Flushing mem' sb' none sb'.sbMb [] ss ∧ FlushedTo mem [] rs mem' [] ss ∧
      ss.length < rs.length ∧ mem'.lenOf ss.flatten = 0 ∧
      (ss = [] → sb'.sbMbtail = none ∧ sb'.sbLastrecord = none) := by
  obtain ⟨x, hmb⟩ : ∃ x, sb.sbMb = some x := by
    cases hmb : sb.sbMb with
    | none => exact absurd (hmb ▸ h).eq_nil hne
    | some x => exact ⟨x, rfl⟩
  rw [hmb] at h
  obtain ⟨ys, ss, rfl, htaken⟩ := h.take
  have hflat : ((x :: ys) :: ss).flatten = (x :: ys) ++ ss.flatten := by simp
  have hstart : Flushing mem sb sb.sbMb (sb.sbMb.bind mem.mNextpkt) (x :: ys) ss := by
    rw [hmb]
    exact htaken
  obtain ⟨d, zs, ts, hdrop, ⟨hleft, hzero, hto⟩, hhead⟩ :=
    (Drop.keeping_flush mem htaken.nodup).sbdrop mem sb slot ⟨hstart, rfl, .refl _ _ _⟩
  obtain rfl : zs = [] := by
    cases zs with
    | nil => rfl
    | cons z zs =>
      rw [cons_append, lenOf_cons] at hzero
      exact absurd (Nat.eq_zero_of_add_eq_zero_right hzero.symm) (hhead z (by simp))
  have hm : d.m = none := hleft.linked
  rw [hm] at hleft
  obtain ⟨hmem, hfront, hcc, hmbcnt, hends⟩ := Drop.settle_none hm
  refine ⟨d.settle.1, d.settle.2.1, d.settle.2.2, ts, hflat ▸ hdrop, ?_, ?_, ?_, ?_, ?_⟩
  · rw [hmem, hfront]
    exact ⟨hleft.linked, hleft.heads, hleft.chains, hleft.nodup, hcc.trans hleft.cc,
      hmbcnt.trans hleft.mbcnt⟩
  · rw [hmem]
    obtain ⟨fs, hsplit, hrel⟩ := hto.freed
    exact ⟨⟨fs, by rw [nil_append, hflat, hsplit], hrel⟩, le_trans hto.fewer (by simp)⟩
  · have hfewer := hto.fewer
    rw [length_cons]
    omega
  · rw [hmem]
    exact hzero.symm
  · rintro rfl
    exact hends hleft.heads

theorem Flushing.flush (slot : Option TxSlot) (h : Flushing mem sb none sb.sbMb [] rs)
    (hlen : mem.lenOf rs.flatten < 2147483648)
    (hends : rs = [] → sb.sbMbtail = none ∧ sb.sbLastrecord = none) :
    ∃ mem' sb' slot',
      (∀ fuel, rs.length ≤ fuel → sbflush fuel mem sb slot = some (mem', sb', slot')) ∧
      Flushing mem' sb' none sb'.sbMb [] [] ∧ FlushedTo mem [] rs mem' [] [] ∧
      sb'.sbMbtail = none ∧ sb'.sbLastrecord = none := by
  induction hcount : rs.length using Nat.strong_induction_on generalizing mem sb slot rs with
  | _ count ih =>
    by_cases hne : rs = []
    · subst hne
      have hzero : sb.sbMbcnt = 0 := h.mbcnt
      refine ⟨mem, sb, slot, fun fuel _ => ?_, h, .refl _ _ _, hends rfl⟩
      cases fuel <;> simp [sbflush, hzero]
    · have hcc : (wrap32 sb.sbCc).toNat = mem.lenOf rs.flatten := by
        rw [h.cc, nil_append, wrap32, Int.bmod_eq_of_le (by omega) (by omega)]
        rfl
      have hpos : sb.sbMbcnt ≠ 0 := by
        have hlength := length_le_flatten fun r hr => (h.chains r hr).1
        have hrs := length_pos_iff.mpr hne
        have hflat : rs.flatten ≠ [] := length_pos_iff.mp (by omega)
        rw [h.mbcnt]
        exact ne_of_gt (mem.chargeOf_pos hflat)
      obtain ⟨mem₁, sb₁, slot₁, ss, hdrop, hleft, hto, hfewer, hzero, hends₁⟩ := h.round slot hne
      obtain ⟨mem', sb', slot', hflush, hempty, hto', hend⟩ :=
        ih ss.length (by omega) slot₁ hleft (by omega) hends₁ rfl
      refine ⟨mem', sb', slot', fun fuel hfuel => ?_, hempty, hto.trans hto' h.nodup, hend⟩
      obtain ⟨fuel, rfl⟩ : ∃ f, fuel = f + 1 := ⟨fuel - 1, by omega⟩
      rw [sbflush, if_neg hpos, hcc]
      simp only [hdrop]
      exact hflush fuel (by omega)

/-- `sbflush` returns after at most one round for each record, whatever the lengths of the mbufs
are. Each queued mbuf has gone to `MFREE` once, in the order of the queue, and nothing else has. -/
theorem sbflush_frees_queue (h : SbHolds mem sb rs) (slot : Option TxSlot)
    (hlen : mem.lenOf rs.flatten < 2147483648) :
    ∃ mem' sb' slot',
      (∀ fuel, rs.length ≤ fuel → sbflush fuel mem sb slot = some (mem', sb', slot')) ∧
      mem'.mbCache = rs.flatten.reverse ++ mem.mbCache ∧ mem'.mbCache.Nodup ∧
      mem'.rte = (rs.flatten.filterMap fun x => (mem.mbuf x).mPaddr).foldl Memory.freeSeg mem.rte ∧
      sb'.sbCc = 0 ∧ sb'.sbMbcnt = 0 ∧ sb'.sbMb = none ∧ sb'.sbMbtail = none ∧
      sb'.sbLastrecord = none := by
  have hends : rs = [] → sb.sbMbtail = none ∧ sb.sbLastrecord = none := by
    rintro rfl
    exact ⟨h.mbtail, h.lastrecord⟩
  obtain ⟨mem', sb', slot', hflush, hempty, hto, hmbtail, hlast⟩ :=
    h.flushing.flush slot hlen hends
  obtain ⟨fs, hsplit, hrel⟩ := hto.freed
  obtain rfl : rs.flatten = fs := by simpa using hsplit
  have hnd : (rs.flatten.reverse ++ mem.mbCache).Nodup := by
    rw [List.nodup_append']
    refine ⟨List.nodup_reverse.mpr h.nodup, h.cache, fun y hy => ?_⟩
    exact h.apart y (List.mem_reverse.mp hy)
  exact ⟨mem', sb', slot', hflush, hrel.cache, hrel.cache ▸ hnd, hrel.rte, hempty.cc,
    hempty.mbcnt, hempty.heads.symm ▸ rfl, hmbtail, hlast⟩

def flushMemory : MbufMem 8 8 where
  mbuf x :=
    { mNext := if x = 0 then some 1 else if x = 3 then some 4 else none
      mNextpkt := if x = 0 then some 2 else if x = 2 then some 3 else none
      mLen := if x = 1 then 700 else 0
      mPaddr := some x }
  mbCache := [5]
  rte := { cell := fun _ => { refcnt := 1 } }

def flushBuffer : Sockbuf 8 where
  sbCc := 700
  sbMbcnt := 10240
  sbMb := some 0
  sbMbtail := some 4
  sbLastrecord := some 3

theorem sbflush_frees_queue_empty_records : ∃ mem' sb' slot',
    sbflush 3 flushMemory flushBuffer none = some (mem', sb', slot') ∧
      mem'.mbCache = [4, 3, 2, 1, 0, 5] ∧ sb'.sbMb = none := by
  have hholds : SbHolds flushMemory flushBuffer [[0, 1], [2], [3, 4]] := by
    refine ⟨⟨rfl, by decide, by decide, rfl⟩, ?_, by decide, rfl, rfl, by decide, by decide,
      by decide, by decide⟩
    intro r hr
    simp only [List.mem_cons, List.not_mem_nil, or_false] at hr
    obtain rfl | rfl | rfl := hr
    · exact ⟨by decide, rfl, by decide, rfl⟩
    · exact ⟨by decide, rfl, rfl⟩
    · exact ⟨by decide, rfl, by decide, rfl⟩
  obtain ⟨mem', sb', slot', hflush, hcache, -, -, -, -, hmb, -⟩ :=
    sbflush_frees_queue hholds none (by decide)
  exact ⟨mem', sb', slot', hflush 3 (by decide), hcache, hmb⟩

end NetbsdDpdk
