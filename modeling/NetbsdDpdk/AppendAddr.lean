import NetbsdDpdk.DatagramReceive

/-! `sbappendaddr` is all or nothing (`uipc_socket2.c`): it either returns 0 and has changed
nothing, or the address, the control mbufs and the data are one new record behind the others. The
mbufs may have any flags. -/

namespace NetbsdDpdk

open List

open MbufMem

variable {k n : Nat} {mem mem₁ mem' : MbufMem k n} {sb sb' : Sockbuf k} {rs : List (List (Fin k))}
  {ws ms : List (Fin k)} {m0 control : Option (Fin k)} {x : Fin k} {asa : List UInt8}
  {pool pktLen : Nat}

/-- The socket buffer holds the records `rs`, linked by `m_nextpkt` and each by `m_next`; none of
their mbufs is free. -/
structure SbHolds (mem : MbufMem k n) (sb : Sockbuf k) (rs : List (List (Fin k))) : Prop where
  heads : LinkedFrom mem.mNextpkt sb.sbMb (rs.filterMap List.head?)
  chains : ∀ r ∈ rs, r ≠ [] ∧ LinkedFrom mem.mNext r.head? r
  nodup : rs.flatten.Nodup
  lastrecord : sb.sbLastrecord = rs.getLast?.bind List.head?
  mbtail : sb.sbMbtail = rs.getLast?.bind List.getLast?
  cc : sb.sbCc = mem.lenOf rs.flatten
  mbcnt : sb.sbMbcnt = mem.chargeOf rs.flatten
  cache : mem.mbCache.Nodup
  apart : ∀ y ∈ rs.flatten, y ∉ mem.mbCache

structure Detached (mem : MbufMem k n) (rs : List (List (Fin k))) (ys : List (Fin k)) : Prop where
  nodup : ys.Nodup
  new : ∀ y ∈ ys, y ∉ rs.flatten
  used : ∀ y ∈ ys, y ∉ mem.mbCache

theorem SbInv.holds (h : SbInv mem sb rs) : SbHolds mem sb rs := by
  refine ⟨h.recs.records.heads, fun r hr => ?_, h.recs.nodup, h.recs.lastrecord, h.recs.mbtail,
    h.recs.cc, ?_, h.cache, h.apart⟩
  · obtain ⟨y, ys, rfl, hchain⟩ := h.recs.records.record hr
    exact ⟨cons_ne_nil y ys, rfl, hchain.2⟩
  · rw [h.recs.mbcnt, chargeOf_plain fun y hy => (h.plain y hy).1]

structure Spliced (mem : MbufMem k n) (rs : List (List (Fin k))) (x : Fin k) (asa : List UInt8)
    (ys : List (Fin k)) (mem₁ : MbufMem k n) : Prop where
  chain : LinkedFrom mem₁.mNext (mem₁.mNext x) ys
  same : ∀ y, y ≠ x → mem.SameData mem₁ y ∧ mem₁.mNextpkt y = mem.mNextpkt y
  next : ∀ y ∈ rs.flatten, mem₁.mNext y = mem.mNext y
  nextpkt : mem₁.mNextpkt x = none
  cache : mem.mbCache = x :: mem₁.mbCache
  type : (mem₁.mbuf x).mType = .soname
  len : (mem₁.mbuf x).mLen = asa.length
  bytes : mem₁.dataBytes x asa.length = asa

namespace MbufMem

theorem joinAddr_rte (mem : MbufMem k n) (x : Fin k) (last m0 control : Option (Fin k)) :
    (mem.joinAddr x last m0 control).rte = mem.rte := by
  cases last <;> rfl

theorem mGet_paddr (h : mem.mGet pool .soname = some (some x, mem₁)) :
    (mem₁.mbuf x).mType = .soname ∧ ∃ p, (mem₁.mbuf x).mPaddr = some p := by
  rcases mGet_eq_some h with ⟨-, hx, -⟩ | ⟨y, cache, p, rte, -, hx, rfl⟩
  · cases hx
  · cases hx
    exact ⟨by simp, p, by simp⟩

theorem dataBytes_storeData {p : Fin n} (hp : (mem.mbuf x).mPaddr = some p) (bs : List UInt8) :
    (mem.storeData x bs).dataBytes x bs.length = bs := by
  have hmbuf := storeData_mbuf mem x x bs
  have hrte : ((mem.storeData x bs).rte.cell p).buf =
      writeBytes (mem.rte.cell p).buf (mem.mbuf x).mData.toNat bs := by
    simp [storeData, hp, Memory.modify]
  simp only [dataBytes, hmbuf, hp, hrte]
  exact bytesAt_writeBytes _ _ _

end MbufMem

theorem spliced_joinAddr (h : SbHolds mem sb rs) (hown : Detached mem rs (ws ++ ms))
    (hws : LinkedFrom mem.mNext control ws) (hms : LinkedFrom mem.mNext m0 ms)
    (hget : mem.mGet pool .soname = some (some x, mem₁)) :
    Spliced mem rs x asa (ws ++ ms) ((mem₁.storeData x asa).joinAddr x ws.getLast? m0 control) := by
  obtain ⟨htype, p, hp⟩ := mGet_paddr hget
  have hgot : mem.Got x (mem₁.storeData x asa) := by
    rcases mGet_cases hget with ⟨hnone, -⟩ | ⟨y, hy, hgot⟩
    · cases hnone
    · cases hy
      exact hgot.storeData asa
  have hx : x ∈ mem.mbCache := by
    rw [hgot.cache]
    exact mem_cons_self
  have hxrs : x ∉ rs.flatten := fun hmem => h.apart x hmem hx
  have hxown : x ∉ ws ++ ms := fun hmem => hown.used x hmem hx
  have hjoin y := joinAddr_mbuf (mem₁.storeData x asa) x y ws.getLast? m0 control
  refine ⟨hgot.joinAddr_linked hws hms hxown hown.nodup, ?_, ?_, ?_, ?_, ?_, ?_, ?_⟩
  · intro y hy
    have hother := hgot.other y hy
    constructor
    · constructor <;> rw [hjoin y, hother]
    · rw [mNextpkt, hjoin y, hother, mNextpkt]
  · intro y hy
    have hyx : y ≠ x := ne_of_mem_of_not_mem hy hxrs
    have hlast : ws.getLast? ≠ some y := fun hlast =>
      hown.new y (mem_append_left _ (mem_of_getLast? hlast)) hy
    rw [mNext, hjoin y, if_neg hyx, if_neg hlast, mNext, mNext, hgot.other y hyx]
  · rw [mNextpkt, hjoin x]
    exact hgot.nextpkt
  · rw [joinAddr_mbCache]
    exact hgot.cache
  · rw [hjoin x, storeData_mbuf]
    exact htype
  · rw [hjoin x, storeData_mbuf]
    exact if_pos rfl
  · have hstored := dataBytes_storeData hp asa
    simp only [dataBytes, hjoin x, joinAddr_rte]
    exact hstored

structure AddrAppended (mem : MbufMem k n) (sb : Sockbuf k) (rs : List (List (Fin k))) (x : Fin k)
    (asa : List UInt8) (ws ms : List (Fin k)) (mem' : MbufMem k n) (sb' : Sockbuf k) : Prop where
  free : x ∈ mem.mbCache
  holds : SbHolds mem' sb' (rs ++ [x :: (ws ++ ms)])
  type : (mem'.mbuf x).mType = .soname
  len : (mem'.mbuf x).mLen = asa.length
  bytes : mem'.dataBytes x asa.length = asa
  kept : ∀ y, y ≠ x → mem.SameData mem' y
  cc : sb'.sbCc = sb.sbCc + (asa.length + mem.lenOf ws + mem.lenOf ms : Nat)
  hiwat : sb'.sbHiwat = sb.sbHiwat

theorem sblinkrecord_rte (mem : MbufMem k n) (sb : Sockbuf k) (x : Fin k) :
    (sblinkrecord mem sb x).1.rte = mem.rte := by
  cases hrec : sb.sbLastrecord <;> simp [sblinkrecord, hrec]

theorem Spliced.heads {ys : List (Fin k)} (hspl : Spliced mem rs x asa ys mem₁)
    (h : SbHolds mem sb rs) (hx : x ∉ rs.flatten) :
    LinkedFrom (sblinkrecord mem₁ sb x).1.mNextpkt
      (if sb.sbLastrecord = none then some x else sb.sbMb)
      ((rs ++ [x :: ys]).filterMap List.head?) := by
  have hlink y : (sblinkrecord mem₁ sb x).1.mNextpkt y =
      if sb.sbLastrecord = some y then some x else mem₁.mNextpkt y := by
    rw [mNextpkt, sblinkrecord_mbuf]
  cases rs using List.reverseRecOn with
  | nil =>
    have hlast : sb.sbLastrecord = none := h.lastrecord
    refine ⟨if_pos hlast, ?_⟩
    rw [hlink, if_neg (by simp [hlast]), hspl.nextpkt]
    rfl
  | append_singleton rs r =>
    obtain ⟨hne, -⟩ := h.chains r (by simp)
    obtain ⟨z, zs, rfl⟩ := exists_cons_of_ne_nil hne
    have hlast : sb.sbLastrecord = some z := by simpa using h.lastrecord
    have hheads : LinkedFrom mem.mNextpkt sb.sbMb (rs.filterMap List.head? ++ [z]) := by
      simpa using h.heads
    have hzx : z ≠ x := by
      intro heq
      exact hx (by simp [heq])
    have hmem {y : Fin k} (hy : y ∈ rs.filterMap List.head?) : y ∈ rs.flatten := by
      obtain ⟨r, hr, hhead⟩ := mem_filterMap.mp hy
      exact mem_flatten.mpr ⟨r, hr, mem_of_mem_head? hhead⟩
    have hz : (sblinkrecord mem₁ sb x).1.mNextpkt z = some x := by
      rw [hlink, if_pos hlast]
    have hend : (sblinkrecord mem₁ sb x).1.mNextpkt x = none := by
      rw [hlink, hlast, if_neg (by simpa using hzx), hspl.nextpkt]
    have hkeep : ∀ y ∈ rs.filterMap List.head?,
        (sblinkrecord mem₁ sb x).1.mNextpkt y = mem.mNextpkt y := by
      intro y hy
      have hyz : z ≠ y := by
        intro heq
        exact (nodup_append.mp hheads.nodup).2.2 y hy z (by simp) heq.symm
      have hyx : y ≠ x := ne_of_mem_of_not_mem (a := y) (by simp [hmem hy]) hx
      rw [hlink, hlast, if_neg (by simpa using hyz), (hspl.same y hyx).2]
    have hnew := hheads.snoc hz hend hkeep
    rw [hlast, if_neg (by simp)]
    simpa using hnew

theorem Spliced.chains {ys : List (Fin k)} (hspl : Spliced mem rs x asa ys mem₁)
    (h : SbHolds mem sb rs) :
    ∀ r ∈ rs ++ [x :: ys], r ≠ [] ∧ LinkedFrom (sblinkrecord mem₁ sb x).1.mNext r.head? r := by
  rw [sblinkrecord_mNext]
  intro r hr
  rcases mem_append.mp hr with hr | hr
  · obtain ⟨hne, hchain⟩ := h.chains r hr
    exact ⟨hne, hchain.congr fun z hz => hspl.next z (mem_flatten.mpr ⟨r, hr, hz⟩)⟩
  · rw [mem_singleton.mp hr]
    exact ⟨cons_ne_nil _ _, rfl, hspl.chain⟩

theorem Spliced.detached {ys : List (Fin k)} (hspl : Spliced mem rs x asa ys mem₁)
    (h : SbHolds mem sb rs) (hown : Detached mem rs ys) : Detached mem₁ rs (x :: ys) := by
  have hxcache : x ∈ mem.mbCache := by
    rw [hspl.cache]
    exact mem_cons_self
  have hnd : (x :: mem₁.mbCache).Nodup := hspl.cache ▸ h.cache
  refine ⟨nodup_cons.mpr ⟨fun hmem => hown.used x hmem hxcache, hown.nodup⟩, ?_, ?_⟩
  · exact forall_mem_cons.mpr ⟨fun hmem => h.apart x hmem hxcache, hown.new⟩
  · refine forall_mem_cons.mpr ⟨(nodup_cons.mp hnd).1, fun y hy hmem => ?_⟩
    refine hown.used y hy ?_
    rw [hspl.cache]
    exact mem_cons_of_mem _ hmem

theorem Spliced.appended (hspl : Spliced mem rs x asa (ws ++ ms) mem₁) (h : SbHolds mem sb rs)
    (hown : Detached mem rs (ws ++ ms)) :
    ∃ mem' sb', appendRecord mem₁ sb x = some (mem', sb') ∧
      AddrAppended mem sb rs x asa ws ms mem' sb' := by
  obtain ⟨y, hlast, happ⟩ := appendRecord_eq sb hspl.chain
  refine ⟨_, _, happ, ?_⟩
  have hall := hspl.detached h hown
  have hxcache : x ∈ mem.mbCache := by
    rw [hspl.cache]
    exact mem_cons_self
  have hx : x ∉ rs.flatten := hall.new x mem_cons_self
  have hflat : (rs ++ [x :: (ws ++ ms)]).flatten = rs.flatten ++ x :: (ws ++ ms) := by simp
  have hdata := sblinkrecord_sameData mem₁ sb x
  have hkept z (hz : z ≠ x) : mem.SameData (sblinkrecord mem₁ sb x).1 z :=
    (hspl.same z hz).1.trans (hdata z)
  have hold z (hz : z ∈ rs.flatten) : mem.SameData (sblinkrecord mem₁ sb x).1 z :=
    hkept z (ne_of_mem_of_not_mem hz hx)
  have hnew z (hz : z ∈ ws ++ ms) : mem.SameData mem₁ z :=
    (hspl.same z (ne_of_mem_of_not_mem hz (nodup_cons.mp hall.nodup).1)).1
  have hlen : mem₁.lenOf (x :: (ws ++ ms)) = asa.length + mem.lenOf ws + mem.lenOf ms := by
    rw [lenOf_cons, hspl.len, lenOf_congr hnew, lenOf_append, Nat.add_assoc]
  have hcachend : (x :: mem₁.mbCache).Nodup := hspl.cache ▸ h.cache
  have hcache : (sblinkrecord mem₁ sb x).1.mbCache = mem₁.mbCache := sblinkrecord_mbCache mem₁ sb x
  refine ⟨hxcache, ⟨hspl.heads h hx, hspl.chains h, ?_, ?_, ?_, ?_, ?_, ?_, ?_⟩, ?_, ?_, ?_, hkept,
    ?_, rfl⟩
  · rw [hflat]
    refine nodup_append.mpr ⟨h.nodup, hall.nodup, ?_⟩
    intro z hz w hw heq
    exact hall.new w hw (heq ▸ hz)
  · simp
  · simpa using hlast.symm
  · show sb.sbCc + mem₁.lenOf (x :: (ws ++ ms)) = _
    rw [hflat, lenOf_append, lenOf_congr hold, lenOf_congr fun z _ => hdata z, h.cc]
    push_cast
    rfl
  · show sb.sbMbcnt + mem₁.chargeOf (x :: (ws ++ ms)) = _
    rw [hflat, chargeOf_append, chargeOf_congr hold, chargeOf_congr fun z _ => hdata z, h.mbcnt]
  · rw [hcache]
    exact (nodup_cons.mp hcachend).2
  · rw [hflat, hcache]
    intro z hz
    rcases mem_append.mp hz with hz | hz
    · intro hzcache
      refine h.apart z hz ?_
      rw [hspl.cache]
      exact mem_cons_of_mem _ hzcache
    · exact hall.used z hz
  · rw [(hdata x).type]
    exact hspl.type
  · rw [(hdata x).len]
    exact hspl.len
  · simp only [dataBytes, (hdata x).paddr, (hdata x).data, sblinkrecord_rte]
    exact hspl.bytes
  · show sb.sbCc + mem₁.lenOf (x :: (ws ++ ms)) = _
    rw [hlen]

theorem sbappendaddr_cases (sb : Sockbuf k) (pool : Nat) (asa : List UInt8)
    (hws : LinkedFrom mem.mNext control ws) (hms : LinkedFrom mem.mNext m0 ms)
    (hpkt : m0 ≠ none → pktLen = mem.lenOf ms) :
    sbappendaddr mem sb pool asa m0 pktLen control = some (false, mem, sb) ∨
      (mem.mGet pool .soname = none ∧ sbappendaddr mem sb pool asa m0 pktLen control = none) ∨
      ∃ x mem₁, mem.mGet pool .soname = some (some x, mem₁) ∧
        ((asa.length + mem.lenOf ws + mem.lenOf ms : Nat) : Int) ≤ sb.sbspace ∧
        sbappendaddr mem sb pool asa m0 pktLen control =
          (appendRecord ((mem₁.storeData x asa).joinAddr x ws.getLast? m0 control) sb x).map
            (Prod.mk true) := by
  have hspace := controlSpace_eq hws (by simpa using hws.length_le)
  have hdata : (if m0 = none then 0 else pktLen) = mem.lenOf ms := by
    by_cases hm : m0 = none
    · rw [if_pos hm]
      rw [hm] at hms
      rw [LinkedFrom.none_iff.mp hms]
      rfl
    · rw [if_neg hm]
      exact hpkt hm
  have hsum : asa.length + mem.lenOf ms + mem.lenOf ws =
      asa.length + mem.lenOf ws + mem.lenOf ms := by
    omega
  simp only [sbappendaddr, hspace, hdata, hsum]
  by_cases hroom : ((asa.length + mem.lenOf ws + mem.lenOf ms : Nat) : Int) > sb.sbspace
  · rw [if_pos hroom]
    exact .inl rfl
  · rw [if_neg hroom]
    cases hget : mem.mGet pool .soname with
    | none => exact .inr (.inl ⟨rfl, rfl⟩)
    | some r =>
      obtain ⟨o, mem₁⟩ := r
      rcases mGet_cases hget with ⟨rfl, rfl⟩ | ⟨x, rfl, -⟩
      · exact .inl rfl
      · exact .inr (.inr ⟨x, mem₁, rfl, Int.not_lt.mp hroom, rfl⟩)

/-- If `sbappendaddr` returns 0, the buffer and all mbufs are as before. If it returns 1, the
records are the old ones and one of the address, the control and the data mbufs in this order,
`sb_cc` has grown by their lengths, and not above `sb_hiwat`. It returns unless `m_get` ends the
process for want of a data buffer. -/
theorem sbappendaddr_all_or_nothing (h : SbHolds mem sb rs) (hown : Detached mem rs (ws ++ ms))
    (hws : LinkedFrom mem.mNext control ws) (hms : LinkedFrom mem.mNext m0 ms)
    (hpkt : m0 ≠ none → pktLen = mem.lenOf ms) (pool : Nat) (asa : List UInt8) :
    (∀ mem' sb', sbappendaddr mem sb pool asa m0 pktLen control = some (false, mem', sb') →
      mem' = mem ∧ sb' = sb) ∧
    (∀ mem' sb', sbappendaddr mem sb pool asa m0 pktLen control = some (true, mem', sb') →
      (∃ x, AddrAppended mem sb rs x asa ws ms mem' sb') ∧ sb'.sbCc ≤ sb'.sbHiwat) ∧
    (sbappendaddr mem sb pool asa m0 pktLen control = none → mem.mGet pool .soname = none) := by
  rcases sbappendaddr_cases sb pool asa hws hms hpkt with
    hzero | ⟨hget, hnone⟩ | ⟨x, mem₁, hget, hroom, hone⟩
  · rw [hzero]
    refine ⟨fun mem' sb' heq => ?_, fun mem' sb' heq => ?_, fun heq => ?_⟩
    · cases heq
      exact ⟨rfl, rfl⟩
    · cases heq
    · cases heq
  · rw [hnone]
    refine ⟨fun mem' sb' heq => ?_, fun mem' sb' heq => ?_, fun _ => hget⟩
    · cases heq
    · cases heq
  · obtain ⟨mem₂, sb₂, happ, hdone⟩ := (spliced_joinAddr h hown hws hms hget).appended h hown
    rw [hone, happ]
    refine ⟨fun mem' sb' heq => ?_, fun mem' sb' heq => ?_, fun heq => ?_⟩
    · cases heq
    · cases heq
      refine ⟨⟨x, hdone⟩, ?_⟩
      have hspace : sb.sbspace ≤ sb.sbHiwat - sb.sbCc := min_le_left _ _
      rw [hdone.cc, hdone.hiwat]
      omega
    · cases heq

def addrMemory : MbufMem 7 7 where
  mbuf x :=
    { mNext := if x = 1 then some 2 else if x = 3 then some 4 else none
      mLen := x.val + 1
      mExtSize := if x = 4 then some 2048 else none }
  mbCache := [5, 6]
  rte := { cell := fun _ => {}, mempool := [(0, 0)] }

def addrBuffer : Sockbuf 7 where
  sbCc := 1
  sbHiwat := 100
  sbMbcnt := 2048
  sbMbmax := 100000
  sbMb := some 0
  sbMbtail := some 0
  sbLastrecord := some 0

theorem sbappendaddr_all_or_nothing_control :
    ∃ mem' sb', sbappendaddr addrMemory addrBuffer 0 [16, 2] (some 3) 9 (some 1) =
        some (true, mem', sb') ∧
      (∃ x, AddrAppended addrMemory addrBuffer [[0]] x [16, 2] [1, 2] [3, 4] mem' sb') ∧
      sb'.sbCc ≤ sb'.sbHiwat := by
  have hholds : SbHolds addrMemory addrBuffer [[0]] := by
    refine ⟨⟨rfl, rfl⟩, ?_, by decide, rfl, rfl, by decide, by decide, by decide, by decide⟩
    exact List.forall_mem_singleton.mpr ⟨by decide, rfl, rfl⟩
  have hown : Detached addrMemory [[0]] ([1, 2] ++ [3, 4]) := ⟨by decide, by decide, by decide⟩
  have hws : LinkedFrom addrMemory.mNext (some 1) [1, 2] := ⟨rfl, by decide, rfl⟩
  have hms : LinkedFrom addrMemory.mNext (some 3) [3, 4] := ⟨rfl, by decide, rfl⟩
  have hpkt : some (3 : Fin 7) ≠ none → 9 = addrMemory.lenOf [3, 4] := by decide
  obtain ⟨-, hone, -⟩ := sbappendaddr_all_or_nothing hholds hown hws hms hpkt 0 [16, 2]
  have hres : (sbappendaddr addrMemory addrBuffer 0 [16, 2] (some 3) 9 (some 1)).map Prod.fst =
      some true := by
    decide +kernel
  obtain ⟨⟨b, mem', sb'⟩, hr, hfst⟩ := Option.map_eq_some_iff.mp hres
  cases hfst
  exact ⟨mem', sb', hr, hone mem' sb' hr⟩

end NetbsdDpdk
