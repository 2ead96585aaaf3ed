import NetbsdDpdk.SockbufRecords

/-! The five views that a socket buffer has of its mbufs stay in step: the two counters, the two
pointers to its end and the links of the mbufs, over every sequence of the routines that append to
the buffer, drop from it and receive from it. -/

namespace NetbsdDpdk

open List Option

open MbufMem

variable {k n : Nat} {mem mem' mem₂ : MbufMem k n} {sb : Sockbuf k} {rs : List (List (Fin k))}
  {x : Fin k} {xs ms ws : List (Fin k)} {s : SbState k n} {fuel : Nat} {sb' : Sockbuf k}

namespace MbufMem

def Plain (mem : MbufMem k n) (x : Fin k) : Prop :=
  (mem.mbuf x).mExtSize = none ∧ (mem.mbuf x).mEor = false

theorem Plain.of_eq (h : mem.Plain x) (heq : mem'.mbuf x = mem.mbuf x) :
    mem'.Plain x := by
  rw [Plain, heq]
  exact h

theorem chargeOf_plain (h : ∀ x ∈ xs, (mem.mbuf x).mExtSize = none) :
    mem.chargeOf xs = mSize * xs.length := by
  induction xs with
  | nil => simp [chargeOf]
  | cons x xs ih =>
    have hx := h x (by simp)
    have hxs := ih fun y hy => h y (by simp [hy])
    rw [chargeOf_cons, hxs]
    simp only [Sockbuf.mbufCharge, hx, getD_none, length_cons]
    push_cast
    ring

theorem mFree_mbuf (mem : MbufMem k n) (x y : Fin k) :
    (mem.mFree x).1.mbuf y =
      { mem.mbuf y with mPaddr := if y = x then none else (mem.mbuf y).mPaddr } := by
  by_cases hy : y = x
  · subst hy
    cases hp : (mem.mbuf y).mPaddr with
    | none =>
      have hsame : (mem.mFree y).1.mbuf y = mem.mbuf y := by simp [mFree, hp]
      rw [hsame, if_pos rfl, ← hp]
    | some p => simp [mFree, hp]
  · simp [mFree_mbuf_of_ne mem hy, hy]

theorem mFree_mNextpkt (mem : MbufMem k n) (x : Fin k) :
    (mem.mFree x).1.mNextpkt = mem.mNextpkt := by
  funext y
  rw [mNextpkt, mFree_mbuf, mNextpkt]

end MbufMem

structure SbInv (mem : MbufMem k n) (sb : Sockbuf k) (rs : List (List (Fin k))) : Prop where
  recs : SbRecords mem sb rs
  plain : ∀ x ∈ rs.flatten, mem.Plain x
  cache : mem.mbCache.Nodup
  apart : ∀ x ∈ rs.flatten, x ∉ mem.mbCache

theorem SbRecords.congr (h : SbRecords mem sb rs)
    (heq : ∀ x ∈ rs.flatten, mem'.mbuf x = mem.mbuf x) : SbRecords mem' sb rs where
  records := h.records.congr fun x hx => by
    simp only [mNext, mNextpkt, heq x hx, and_self]
  nodup := h.nodup
  lastrecord := h.lastrecord
  mbtail := h.mbtail
  cc := by
    rw [h.cc]
    congr 1
    exact (lenOf_congr fun x hx => .of_eq (heq x hx)).symm
  mbcnt := h.mbcnt

theorem RecordsFrom.walk {next link : Fin k → Option (Fin k)} {p : Option (Fin k)}
    (h : RecordsFrom next link p rs) :
    ((walkFrom link k p).getD []).flatMap (fun x => (walkFrom next k (some x)).getD []) =
      rs.flatten := by
  have hheads : walkFrom link k p = some (rs.filterMap List.head?) := by
    apply walkFrom_eq h.heads
    simpa using h.heads.length_le
  rw [hheads, getD_some]
  clear hheads
  induction rs generalizing p with
  | nil => rfl
  | cons r rs ih =>
    match r with
    | [] => exact h.elim
    | x :: xs =>
      obtain ⟨-, hlinked, -, hrest⟩ := h
      have hchain : LinkedFrom next (some x) (x :: xs) := ⟨rfl, hlinked⟩
      have hwalk : walkFrom next k (some x) = some (x :: xs) := by
        apply walkFrom_eq hchain
        simpa using hchain.length_le
      simp only [filterMap_cons, head?_cons, flatMap_cons, hwalk, getD_some, flatten_cons, ih hrest]

theorem SbRecords.queued (h : SbRecords s.sock.mem s.sock.soRcv rs) :
    s.queued = rs.flatten := h.records.walk

namespace SbInv

theorem others (h : SbInv s.sock.mem s.sock.soRcv rs) (hmem : s.sock.mem.Leaves s.queued mem') :
    SbInv mem' s.sock.soRcv rs := by
  obtain ⟨hnd, hkept⟩ := hmem
  rw [h.recs.queued] at hkept
  refine ⟨h.recs.congr fun x hx => (hkept x hx).1, ?_, hnd, fun x hx => (hkept x hx).2⟩
  intro x hx
  exact (h.plain x hx).of_eq (hkept x hx).1

end SbInv

/-! Appending to a stream. -/

theorem SbRecords.toRep (h : SbRecords mem sb rs) (hplain : ∀ x ∈ rs.flatten, mem.Plain x)
    (hone : sb.sbMb.bind mem.mNextpkt = none) : SbRep mem sb rs.flatten := by
  have hcharge := chargeOf_plain fun x hx => (hplain x hx).1
  match rs with
  | [] =>
    have hmb : sb.sbMb = none := h.records
    have hlast : sb.sbLastrecord = none := by simpa using h.lastrecord
    have htail : sb.sbMbtail = none := by simpa using h.mbtail
    exact ⟨hmb, htail, hlast.trans hmb.symm, by simp, h.cc, h.mbcnt.trans hcharge.symm⟩
  | [] :: _ => exact h.records.elim
  | (x :: xs) :: ss =>
    obtain ⟨hmb, hlinked, -, hrest⟩ := h.records
    have hnp : mem.mNextpkt x = none := by simpa [hmb] using hone
    rw [hnp] at hrest
    obtain rfl := hrest.of_none
    have hflat : [x :: xs].flatten = x :: xs := by simp
    refine ⟨?_, ?_, ?_, ?_, h.cc, h.mbcnt.trans hcharge.symm⟩
    · rw [hflat]
      exact ⟨hmb, hlinked⟩
    · rw [hflat]
      simpa using h.mbtail
    · rw [hmb]
      simpa using h.lastrecord
    · rw [hflat]
      intro y hy
      cases hy
      exact hnp

theorem SbRep.toRecords (h : SbRep mem sb xs) (hplain : ∀ x ∈ xs, mem.Plain x)
    (hnp : ∀ x ∈ xs, mem.mNextpkt x = none) :
    ∃ rs, rs.flatten = xs ∧ SbRecords mem sb rs := by
  have hcharge := chargeOf_plain fun x hx => (hplain x hx).1
  match xs with
  | [] =>
    have hmb : sb.sbMb = none := h.linked
    exact ⟨[], rfl, hmb, nodup_nil, h.last.trans hmb, h.tail, h.cc, h.mbcnt.trans hcharge⟩
  | x :: xs =>
    obtain ⟨hmb, hlinked⟩ := h.linked
    have hflat : [x :: xs].flatten = x :: xs := by simp
    refine ⟨[x :: xs], hflat, ?_, ?_, ?_, ?_, ?_, ?_⟩
    · refine ⟨hmb, hlinked, fun y hy => hnp y (by simp [hy]), ?_⟩
      rw [hnp x (by simp)]
      rfl
    · rw [hflat]
      exact h.linked.nodup
    · rw [h.last, hmb]
      rfl
    · exact h.tail
    · rw [hflat]
      exact h.cc
    · rw [hflat]
      exact h.mbcnt.trans hcharge

namespace Compress

variable {c c' : Compress k n} {x : Fin k}

theorem round_nextpkt (c : Compress k n) (x : Fin k) :
    (c.round x).1.mem.mNextpkt = c.mem.mNextpkt := by
  rcases round_cases c x with ⟨-, r, eor, hround⟩ | hround
  · rw [hround]
    exact c.mem.mFree_mNextpkt x
  · rw [hround]
    funext y
    exact link_nextpkt c x y

theorem round_eor (c : Compress k n) (x : Fin k) :
    (c.round x).1.eor = (c.eor || (c.mem.mbuf x).mEor) ∧
      ∀ y, ((c.round x).1.mem.mbuf y).mEor = true → (c.mem.mbuf y).mEor = true := by
  have hfree : ∀ y, ((c.mem.mFree x).1.mbuf y).mEor = (c.mem.mbuf y).mEor := by
    intro y
    rw [mFree_mbuf]
  by_cases hd : c.discards x = true
  · simp only [round, hd, if_true, true_and]
    intro y hy
    rw [← hfree y]
    exact hy
  · by_cases hm : c.merges x = true
    · simp only [round, hd, hm, Bool.false_eq_true, if_true, if_false, true_and]
      intro y hy
      rw [← hfree y]
      exact hy
    · simp only [round, hd, hm, Bool.false_eq_true, if_false]
      refine ⟨rfl, fun y hy => ?_⟩
      by_cases hyx : y = x
      · subst hyx
        simp [link] at hy
      · by_cases hn : c.n = some y
        · simpa [link, hn, modify_mbuf_of_ne _ _ hyx] using hy
        · rw [link_mbuf_of_ne hyx hn] at hy
          exact hy

theorem loop_nextpkt {m : Option (Fin k)} (h : loop fuel c m = some c') :
    c'.mem.mNextpkt = c.mem.mNextpkt := by
  induction fuel generalizing c m with
  | zero =>
    cases m with
    | none =>
      cases h
      rfl
    | some x => simp [loop] at h
  | succ fuel ih =>
    cases m with
    | none =>
      cases h
      rfl
    | some x =>
      have hrest : loop fuel (c.round x).1 (c.round x).2 = some c' := h
      rw [ih hrest, round_nextpkt]

theorem loop_eor {m : Option (Fin k)} (h : loop fuel c m = some c')
    (hms : LinkedFrom c.mem.mNext m ms) (hn : ∀ x ∈ ms, c.n ≠ some x) (heor : c.eor = false)
    (hms' : ∀ x ∈ ms, (c.mem.mbuf x).mEor = false) :
    c'.eor = false ∧ ∀ y, (c'.mem.mbuf y).mEor = true → (c.mem.mbuf y).mEor = true := by
  induction ms generalizing c m fuel with
  | nil =>
    cases hms
    cases fuel with
    | zero =>
      cases h
      exact ⟨heor, fun _ hy => hy⟩
    | succ fuel =>
      cases h
      exact ⟨heor, fun _ hy => hy⟩
  | cons x ms ih =>
    obtain ⟨rfl, hrest⟩ := hms
    have hx : x ∉ ms := (nodup_cons.mp (LinkedFrom.nodup (p := some x) ⟨rfl, hrest⟩)).1
    obtain ⟨hc₁, hmono⟩ := round_eor c x
    cases fuel with
    | zero => simp [loop] at h
    | succ fuel =>
      have hkept : ∀ y ∈ ms, (c.round x).1.mem.mNext y = c.mem.mNext y ∧
          (c.round x).1.n ≠ some y := by
        intro y hy
        have hyx : y ≠ x := ne_of_mem_of_not_mem hy hx
        have hyn : c.n ≠ some y := hn y (by simp [hy])
        rcases round_cases c x with ⟨-, r, eor, hround⟩ | hround
        · rw [hround]
          exact ⟨by rw [mFree_mNext], hyn⟩
        · rw [hround]
          refine ⟨by rw [mNext, link_mbuf_of_ne hyx hyn, mNext], ?_⟩
          simpa [link] using Ne.symm hyx
      have hnext : (c.round x).2 = c.mem.mNext x := by
        rcases round_cases c x with ⟨-, r, eor, hround⟩ | hround <;> rw [hround]
      have hlinked : LinkedFrom (c.round x).1.mem.mNext (c.round x).2 ms := by
        rw [hnext]
        exact hrest.congr fun y hy => (hkept y hy).1
      have heor₁ : (c.round x).1.eor = false := by
        rw [hc₁, heor, hms' x (by simp)]
        rfl
      have hms₁ : ∀ y ∈ ms, ((c.round x).1.mem.mbuf y).mEor = false := by
        intro y hy
        have hold := hms' y (by simp [hy])
        by_contra hne
        have htrue := hmono y (by simpa using hne)
        rw [hold] at htrue
        cases htrue
      have hloop : loop fuel (c.round x).1 (c.round x).2 = some c' := h
      obtain ⟨hend, hmono'⟩ := ih hloop hlinked (fun y hy => (hkept y hy).2) heor₁ hms₁
      exact ⟨hend, fun y hy => hmono y (hmono' y hy)⟩

end Compress

structure Insertion (mem : MbufMem k n) (rs : List (List (Fin k))) (ms : List (Fin k)) :
    Prop where
  nodup : ms.Nodup
  new : ∀ x ∈ ms, x ∉ rs.flatten
  used : ∀ x ∈ ms, x ∉ mem.mbCache
  nextpkt : ∀ x ∈ ms, mem.mNextpkt x = none
  plain : ∀ x ∈ ms, mem.Plain x

theorem SbState.Insertable.insertion (h : s.Insertable ms)
    (hrecs : SbRecords s.sock.mem s.sock.soRcv rs) :
    Insertion s.sock.mem rs ms := by
  obtain ⟨hnd, hms⟩ := h
  rw [hrecs.queued] at hms
  exact ⟨hnd, fun x hx => (hms x hx).1, fun x hx => (hms x hx).2.1, fun x hx => (hms x hx).2.2.1,
    fun x hx => (hms x hx).2.2.2⟩

theorem sbappendstream_marks {slot slot' : Option TxSlot}
    (h : sbappendstream mem sb slot x = some (mem', sb', slot'))
    (hms : LinkedFrom mem.mNext (some x) ms) (htail : ∀ y ∈ ms, sb.sbMbtail ≠ some y)
    (heor : ∀ y ∈ ms, (mem.mbuf y).mEor = false) :
    mem'.mNextpkt = mem.mNextpkt ∧
      ∀ y, (mem'.mbuf y).mEor = true → (mem.mbuf y).mEor = true := by
  simp only [sbappendstream, sbcompress, Option.map_map, map_eq_some_iff] at h
  obtain ⟨c, hloop, hc⟩ := h
  obtain ⟨hend, hmono⟩ := Compress.loop_eor hloop hms htail rfl heor
  have hfinish : c.finish = (c.mem, c.sb) := by simp [Compress.finish, hend]
  have hmem : c.mem = mem' := by simpa [hfinish] using congrArg Prod.fst hc
  rw [← hmem]
  exact ⟨Compress.loop_nextpkt hloop, hmono⟩

theorem SbInv.appendstream {slot slot' : Option TxSlot} (h : SbInv mem sb rs)
    (hins : Insertion mem rs ms)
    (hms : LinkedFrom mem.mNext (some x) ms) (hone : sb.sbMb.bind mem.mNextpkt = none)
    (happ : sbappendstream mem sb slot x = some (mem', sb', slot')) :
    ∃ rs', SbInv mem' sb' rs' := by
  have hrep := h.recs.toRep h.plain hone
  have hinner : ∀ y ∈ rs.flatten, mem.mNextpkt y = none := by
    intro y hy
    match rs, h.recs.records with
    | (z :: zs) :: ss, hrecords =>
      obtain ⟨hmb, -, hnp, hrest⟩ := hrecords
      have hz : mem.mNextpkt z = none := by simpa [hmb] using hone
      rw [hz] at hrest
      obtain rfl := hrest.of_none
      have hy' : y = z ∨ y ∈ zs := by simpa using hy
      rcases hy' with rfl | hy'
      · exact hz
      · exact hnp y hy'
  have htail : ∀ y ∈ ms, sb.sbMbtail ≠ some y := by
    intro y hy hlast
    rw [hrep.tail] at hlast
    exact hins.new y hy (mem_of_getLast? hlast)
  obtain ⟨mem₁, sb₁, ys, happ₁, hrep₁, happended, -, -⟩ :=
    @sbappendstream_spec k n _ _ _ slot _ _ hrep hms hins.new hins.nextpkt
  rw [happ] at happ₁
  obtain ⟨rfl, rfl, -⟩ : mem' = mem₁ ∧ sb' = sb₁ ∧ _ := by simpa using happ₁
  obtain ⟨hnextpkt, hmono⟩ :=
    sbappendstream_marks happ hms htail fun y hy => (hins.plain y hy).2
  have hys : ∀ y ∈ ys, y ∈ ms := fun y hy => happended.sub.subset hy
  have hplain : ∀ y ∈ rs.flatten ++ ys, mem'.Plain y := by
    intro y hy
    have hold : mem.Plain y ∧ mem.SameData mem' y := by
      rcases mem_append.mp hy with hy | hy
      · exact ⟨h.plain y hy, happended.same y (.inl fun hmem => hins.new y hmem hy)⟩
      · exact ⟨hins.plain y (hys y hy), happended.same y (.inr hy)⟩
    refine ⟨hold.2.ext.trans hold.1.1, ?_⟩
    by_contra hne
    have htrue := hmono y (by simpa using hne)
    rw [hold.1.2] at htrue
    cases htrue
  have hnp : ∀ y ∈ rs.flatten ++ ys, mem'.mNextpkt y = none := by
    intro y hy
    rw [hnextpkt]
    rcases mem_append.mp hy with hy | hy
    · exact hinner y hy
    · exact hins.nextpkt y (hys y hy)
  obtain ⟨rs', hflat, hrecs⟩ := hrep₁.toRecords hplain hnp
  obtain ⟨fs, hcache, hperm⟩ := happended.cache
  have hnd : (fs ++ ys).Nodup := hperm.nodup_iff.mpr hins.nodup
  have hfs : ∀ y ∈ fs, y ∈ ms := fun y hy => hperm.subset (mem_append_left _ hy)
  refine ⟨rs', hrecs, by rwa [hflat], ?_, ?_⟩
  · rw [hcache]
    refine nodup_append.mpr ⟨(nodup_append.mp hnd).1, h.cache, ?_⟩
    rintro y hy z hz rfl
    exact hins.used y (hfs y hy) hz
  · rw [hflat, hcache]
    intro y hy hmem
    rcases mem_append.mp hy with hy | hy
    · rcases mem_append.mp hmem with hmem | hmem
      · exact hins.new y (hfs y hmem) hy
      · exact h.apart y hy hmem
    · rcases mem_append.mp hmem with hmem | hmem
      · exact (nodup_append.mp hnd).2.2 y hmem y hy rfl
      · exact hins.used y (hys y hy) hmem

/-! Appending a record. -/

theorem sballocChain_eq (sb : Sockbuf k) (h : LinkedFrom mem.mNext (mem.mNext x) xs)
    (hfuel : xs.length < fuel) :
    ∃ y, (x :: xs).getLast? = some y ∧ sballocChain mem fuel sb x =
      some ({ sb with sbCc := sb.sbCc + mem.lenOf (x :: xs),
                      sbMbcnt := sb.sbMbcnt + mem.chargeOf (x :: xs) }, y) := by
  obtain ⟨fuel, rfl⟩ : ∃ f, fuel = f + 1 := ⟨fuel - 1, by omega⟩
  induction xs generalizing x sb fuel with
  | nil =>
    have hx : mem.mNext x = none := h
    refine ⟨x, rfl, ?_⟩
    simp [sballocChain, hx, Sockbuf.sballoc, lenOf, chargeOf]
  | cons z zs ih =>
    obtain ⟨hx, hrest⟩ := h
    have hlen : zs.length < fuel := by simpa using hfuel
    obtain ⟨fuel, rfl⟩ : ∃ f, fuel = f + 1 := ⟨fuel - 1, by omega⟩
    obtain ⟨y, hlast, halloc⟩ := ih (sb.sballoc (mem.mbuf x)) hrest fuel hlen
    refine ⟨y, by simpa using hlast, ?_⟩
    have hstep : sballocChain mem (fuel + 1 + 1) sb x =
        sballocChain mem (fuel + 1) (sb.sballoc (mem.mbuf x)) z := by
      rw [sballocChain]
      simp only [hx]
    rw [hstep, halloc, lenOf_cons mem x, chargeOf_cons mem x]
    simp only [Sockbuf.sballoc]
    push_cast
    rw [Int.add_assoc, Int.add_assoc]

theorem appendRecord_eq (sb : Sockbuf k) (h : LinkedFrom mem.mNext (mem.mNext x) xs) :
    ∃ y, (x :: xs).getLast? = some y ∧ appendRecord mem sb x =
      some ((sblinkrecord mem sb x).1, { sb with
          sbCc := sb.sbCc + mem.lenOf (x :: xs)
          sbMbcnt := sb.sbMbcnt + mem.chargeOf (x :: xs)
          sbMb := if sb.sbLastrecord = none then some x else sb.sbMb
          sbLastrecord := some x
          sbMbtail := some y }) := by
  have hchain : LinkedFrom mem.mNext (some x) (x :: xs) := ⟨rfl, h⟩
  have hfuel : xs.length < k := by
    have hlen := hchain.length_le
    simp only [length_cons, Fintype.card_fin] at hlen
    omega
  obtain ⟨y, hlast, halloc⟩ := sballocChain_eq sb h hfuel
  refine ⟨y, hlast, ?_⟩
  cases hrec : sb.sbLastrecord with
  | none => simp [appendRecord, halloc, sblinkrecord, hrec]
  | some z => simp [appendRecord, halloc, sblinkrecord, hrec]

theorem sblinkrecord_mbuf (mem : MbufMem k n) (sb : Sockbuf k) (x y : Fin k) :
    (sblinkrecord mem sb x).1.mbuf y = { mem.mbuf y with
      mNextpkt := if sb.sbLastrecord = some y then some x else mem.mNextpkt y } := by
  cases hrec : sb.sbLastrecord with
  | none => simp [sblinkrecord, hrec, mNextpkt]
  | some z =>
    by_cases hy : y = z
    · subst hy
      simp [sblinkrecord, hrec]
    · simp [sblinkrecord, hrec, modify_mbuf_of_ne _ _ hy, Ne.symm hy, mNextpkt]

theorem sblinkrecord_mbCache (mem : MbufMem k n) (sb : Sockbuf k) (x : Fin k) :
    (sblinkrecord mem sb x).1.mbCache = mem.mbCache := by
  cases hrec : sb.sbLastrecord <;> simp [sblinkrecord, hrec, MbufMem.modify]

theorem sblinkrecord_mNext (mem : MbufMem k n) (sb : Sockbuf k) (x : Fin k) :
    (sblinkrecord mem sb x).1.mNext = mem.mNext := by
  funext y
  rw [mNext, sblinkrecord_mbuf, mNext]

theorem sblinkrecord_sameData (mem : MbufMem k n) (sb : Sockbuf k) (x y : Fin k) :
    mem.SameData (sblinkrecord mem sb x).1 y := by
  constructor <;> rw [sblinkrecord_mbuf]

theorem SbRecords.linkrecord (h : SbRecords mem sb rs)
    (hnew : LinkedFrom mem.mNext (mem.mNext x) xs) (hins : Insertion mem rs (x :: xs)) :
    RecordsFrom (sblinkrecord mem sb x).1.mNext (sblinkrecord mem sb x).1.mNextpkt
      (if sb.sbLastrecord = none then some x else sb.sbMb) (rs ++ [x :: xs]) := by
  have hrecord : RecordsFrom mem.mNext mem.mNextpkt (some x) [x :: xs] := by
    refine ⟨rfl, hnew, fun y hy => hins.nextpkt y (by simp [hy]), ?_⟩
    rw [hins.nextpkt x (by simp)]
    rfl
  rw [sblinkrecord_mNext]
  cases rs using List.reverseRecOn with
  | nil =>
    have hlast : sb.sbLastrecord = none := by simpa using h.lastrecord
    have hmem : (sblinkrecord mem sb x).1 = mem := by simp [sblinkrecord, hlast]
    rw [hmem, if_pos hlast]
    exact hrecord
  | append_singleton rs r =>
    obtain ⟨z, zs, rfl, -⟩ := h.records.record (r := r) (by simp)
    have hlast : sb.sbLastrecord = some z := by simpa using h.lastrecord
    have hlink : (sblinkrecord mem sb x).1.mNextpkt =
        Function.update mem.mNextpkt z (some x) := by
      funext y
      rw [mNextpkt, sblinkrecord_mbuf, hlast]
      by_cases hy : y = z
      · subst hy
        simp
      · simp [hy, Ne.symm hy]
    rw [hlink, hlast, if_neg (by simp), append_assoc]
    apply h.records.snoc h.nodup hrecord
    intro y hy heq
    have hyins : y ∈ x :: xs := by simpa using hy
    exact hins.new y hyins (by simp [heq])

theorem SbInv.appendRecord (h : SbInv mem sb rs) (hnew : LinkedFrom mem.mNext (mem.mNext x) xs)
    (hins : Insertion mem rs (x :: xs)) (happ : appendRecord mem sb x = some (mem', sb')) :
    SbInv mem' sb' (rs ++ [x :: xs]) := by
  obtain ⟨y, hlast, happ₁⟩ := appendRecord_eq sb hnew
  rw [happ] at happ₁
  obtain ⟨rfl, rfl⟩ : mem' = _ ∧ sb' = _ := by simpa using happ₁
  have hflat : (rs ++ [x :: xs]).flatten = rs.flatten ++ (x :: xs) := by simp
  have hsame := sblinkrecord_sameData mem sb x
  have hcharge := chargeOf_plain fun z hz => (hins.plain z hz).1
  refine ⟨⟨h.recs.linkrecord hnew hins, ?_, ?_, ?_, ?_, ?_⟩, ?_, ?_, ?_⟩
  · rw [hflat]
    refine nodup_append.mpr ⟨h.recs.nodup, hins.nodup, ?_⟩
    rintro z hz w hw rfl
    exact hins.new z hw hz
  · simp
  · simpa using hlast.symm
  · show sb.sbCc + mem.lenOf (x :: xs) = (sblinkrecord mem sb x).1.lenOf _
    rw [lenOf_congr fun z _ => hsame z, hflat, lenOf_append, h.recs.cc]
    simp [lenOf]
  · show sb.sbMbcnt + mem.chargeOf (x :: xs) = _
    rw [hcharge, h.recs.mbcnt, hflat, length_append]
    push_cast
    ring
  · intro z hz
    rw [hflat] at hz
    have hplain : mem.Plain z := by
      rcases mem_append.mp hz with hz | hz
      · exact h.plain z hz
      · exact hins.plain z hz
    rw [Plain, sblinkrecord_mbuf]
    exact hplain
  · rw [sblinkrecord_mbCache]
    exact h.cache
  · rw [hflat, sblinkrecord_mbCache]
    intro z hz
    rcases mem_append.mp hz with hz | hz
    · exact h.apart z hz
    · exact hins.used z hz

namespace MbufMem

structure Got (mem : MbufMem k n) (x : Fin k) (mem' : MbufMem k n) : Prop where
  cache : mem.mbCache = x :: mem'.mbCache
  other : ∀ y, y ≠ x → mem'.mbuf y = mem.mbuf y
  nextpkt : mem'.mNextpkt x = none
  plain : mem'.Plain x

theorem mGet_cases {pool : Nat} {type : MbufType} {o : Option (Fin k)}
    (h : mem.mGet pool type = some (o, mem')) :
    (o = none ∧ mem' = mem) ∨ ∃ x, o = some x ∧ mem.Got x mem' := by
  rcases mGet_eq_some h with ⟨-, rfl, rfl⟩ | ⟨x, cache, p, rte, hcache, rfl, rfl⟩
  · exact .inl ⟨rfl, rfl⟩
  · refine .inr ⟨x, rfl, hcache, fun y hy => ?_, ?_, ?_⟩
    · rw [modify_mbuf_of_ne _ _ hy]
    · simp [mNextpkt]
    · simp [Plain]

theorem storeData_mbuf (mem : MbufMem k n) (x y : Fin k) (bs : List UInt8) :
    (mem.storeData x bs).mbuf y =
      { mem.mbuf y with mLen := if y = x then bs.length else (mem.mbuf y).mLen } := by
  have hmbuf : (mem.storeData x bs).mbuf =
      (mem.modify x fun m => { m with mLen := bs.length }).mbuf := by
    simp only [storeData]
    split <;> rfl
  rw [hmbuf]
  by_cases hy : y = x
  · subst hy
    simp
  · simp [modify_mbuf_of_ne _ _ hy, hy]

theorem storeData_mbCache (mem : MbufMem k n) (x : Fin k) (bs : List UInt8) :
    (mem.storeData x bs).mbCache = mem.mbCache := by
  simp only [storeData]
  split <;> rfl

theorem Got.storeData (h : mem.Got x mem') (bs : List UInt8) :
    mem.Got x (mem'.storeData x bs) := by
  refine ⟨?_, ?_, ?_, ?_⟩
  · rw [storeData_mbCache]
    exact h.cache
  · intro y hy
    rw [storeData_mbuf, if_neg hy, h.other y hy]
  · rw [mNextpkt, storeData_mbuf]
    exact h.nextpkt
  · rw [Plain, storeData_mbuf]
    exact h.plain

theorem controlSpace_eq {p : Option (Fin k)} (h : LinkedFrom mem.mNext p ws)
    (hfuel : ws.length ≤ fuel) :
    mem.controlSpace fuel p = some (mem.lenOf ws, ws.getLast?) := by
  induction ws generalizing p fuel with
  | nil =>
    cases h
    cases fuel <;> rfl
  | cons x ws ih =>
    obtain ⟨rfl, hrest⟩ := h
    obtain ⟨fuel, rfl, hf⟩ := exists_fuel hfuel
    cases ws with
    | nil =>
      have hx : mem.mNext x = none := hrest
      simp [controlSpace, hx, lenOf]
    | cons y ws =>
      have hx : mem.mNext x = some y := hrest.1
      have hspace := ih hrest hf
      rw [hx] at hspace
      simp only [controlSpace, hx, hspace, map_some, lenOf_cons, getLast?_cons_cons]

theorem joinAddr_mbuf (mem : MbufMem k n) (x y : Fin k) (last m0 control : Option (Fin k)) :
    (mem.joinAddr x last m0 control).mbuf y = { mem.mbuf y with
      mNext := if y = x then (if last = none then m0 else control)
        else if last = some y then m0 else mem.mNext y } := by
  by_cases hy : y = x
  · subst hy
    cases last with
    | none => simp [joinAddr]
    | some z =>
      by_cases hz : y = z
      · subst hz
        simp [joinAddr]
      · simp [joinAddr, modify_mbuf_of_ne _ _ hz]
  · cases last with
    | none => simp [joinAddr, modify_mbuf_of_ne _ _ hy, hy, mNext]
    | some z =>
      by_cases hz : y = z
      · subst hz
        simp [joinAddr, modify_mbuf_of_ne _ _ hy, hy]
      · simp [joinAddr, modify_mbuf_of_ne _ _ hy, modify_mbuf_of_ne _ _ hz, hy, Ne.symm hz, mNext]

theorem joinAddr_mbCache (mem : MbufMem k n) (x : Fin k) (last m0 control : Option (Fin k)) :
    (mem.joinAddr x last m0 control).mbCache = mem.mbCache := by
  cases last <;> rfl

theorem joinAddr_linked {m0 control : Option (Fin k)} (hws : LinkedFrom mem.mNext control ws)
    (hms : LinkedFrom mem.mNext m0 ms) (hx : x ∉ ws ++ ms) (hdis : ∀ y ∈ ws, y ∉ ms) :
    LinkedFrom (mem.joinAddr x ws.getLast? m0 control).mNext
      ((mem.joinAddr x ws.getLast? m0 control).mNext x) (ws ++ ms) := by
  have hnext : ∀ y, (mem.joinAddr x ws.getLast? m0 control).mNext y =
      if y = x then (if ws.getLast? = none then m0 else control)
        else if ws.getLast? = some y then m0 else mem.mNext y := by
    intro y
    rw [mNext, joinAddr_mbuf]
  rw [hnext x, if_pos rfl]
  cases ws using List.reverseRecOn with
  | nil =>
    apply hms.congr
    intro y hy
    have hyx : y ≠ x := fun heq => hx (by simpa [heq] using hy)
    rw [hnext y, if_neg hyx]
    simp
  | append_singleton ws w =>
    have hjoin := hws.join hms (hdis w (by simp))
    rw [append_assoc, singleton_append]
    have hlast : (ws ++ [w]).getLast? = some w := by simp
    rw [hlast] at hnext ⊢
    rw [if_neg (by simp)]
    apply hjoin.congr
    intro y hy
    have hyx : y ≠ x := fun heq => hx (by simpa [heq] using hy)
    rw [hnext y, if_neg hyx]
    by_cases hyw : y = w
    · subst hyw
      simp
    · simp [hyw, Ne.symm hyw]

theorem Got.joinAddr_linked {m0 control : Option (Fin k)} (hgot : mem.Got x mem')
    (hws : LinkedFrom mem.mNext control ws)
    (hms : LinkedFrom mem.mNext m0 ms) (hx : x ∉ ws ++ ms) (hnd : (ws ++ ms).Nodup) :
    LinkedFrom (mem'.joinAddr x ws.getLast? m0 control).mNext
      ((mem'.joinAddr x ws.getLast? m0 control).mNext x) (ws ++ ms) := by
  have hkept : ∀ y ∈ ws ++ ms, mem'.mNext y = mem.mNext y := by
    intro y hy
    rw [mNext, hgot.other y (ne_of_mem_of_not_mem hy hx), mNext]
  apply MbufMem.joinAddr_linked (hws.congr fun y hy => hkept y (by simp [hy]))
    (hms.congr fun y hy => hkept y (by simp [hy])) hx
  intro y hy hy'
  exact (nodup_append.mp hnd).2.2 y hy y hy' rfl

end MbufMem

namespace SbInv

variable {ws ms : List (Fin k)} {m0 control : Option (Fin k)}

theorem joinAddr (h : SbInv mem sb rs) (hins : Insertion mem rs (ws ++ ms))
    (hws : LinkedFrom mem.mNext control ws) (hms : LinkedFrom mem.mNext m0 ms)
    (hgot : mem.Got x mem') (hjoin : mem'.joinAddr x ws.getLast? m0 control = mem₂) :
    SbInv mem₂ sb rs ∧ LinkedFrom mem₂.mNext (mem₂.mNext x) (ws ++ ms) ∧
      Insertion mem₂ rs (x :: (ws ++ ms)) := by
  have hx : x ∈ mem.mbCache := by simp [hgot.cache]
  have hxrs : x ∉ rs.flatten := fun hmem => h.apart x hmem hx
  have hxins : x ∉ ws ++ ms := fun hmem => hins.used x hmem hx
  have hjoined : LinkedFrom mem₂.mNext (mem₂.mNext x) (ws ++ ms) := by
    rw [← hjoin]
    exact hgot.joinAddr_linked hws hms hxins hins.nodup
  have hrs : ∀ y ∈ rs.flatten, mem₂.mbuf y = mem.mbuf y := by
    intro y hy
    have hyx : y ≠ x := ne_of_mem_of_not_mem hy hxrs
    have hyw : ws.getLast? ≠ some y := fun hlast =>
      hins.new y (by simp [mem_of_getLast? hlast]) hy
    rw [← hjoin, joinAddr_mbuf, if_neg hyx, if_neg hyw, mNext, hgot.other y hyx]
  have hmarks : ∀ y, mem₂.mNextpkt y = mem'.mNextpkt y ∧ (mem'.Plain y → mem₂.Plain y) := by
    intro y
    have hmbuf := joinAddr_mbuf mem' x y ws.getLast? m0 control
    rw [hjoin] at hmbuf
    constructor
    · rw [mNextpkt, hmbuf, mNextpkt]
    · intro hy
      rw [Plain, hmbuf]
      exact hy
  have hcache : mem.mbCache = x :: mem₂.mbCache := by
    rw [hgot.cache, ← hjoin, joinAddr_mbCache]
  have hnd : (x :: mem₂.mbCache).Nodup := hcache ▸ h.cache
  have hsub : ∀ y, y ∉ mem.mbCache → y ∉ mem₂.mbCache := by
    intro y hy hmem
    exact hy (by simp [hcache, hmem])
  refine ⟨⟨h.recs.congr hrs, ?_, (nodup_cons.mp hnd).2, ?_⟩, hjoined,
    ⟨nodup_cons.mpr ⟨hxins, hins.nodup⟩, ?_, ?_, ?_, ?_⟩⟩
  · intro y hy
    exact (h.plain y hy).of_eq (hrs y hy)
  · intro y hy
    exact hsub y (h.apart y hy)
  · intro y hy
    rcases mem_cons.mp hy with rfl | hy
    · exact hxrs
    · exact hins.new y hy
  · intro y hy
    rcases mem_cons.mp hy with rfl | hy
    · exact (nodup_cons.mp hnd).1
    · exact hsub y (hins.used y hy)
  · intro y hy
    rw [(hmarks y).1]
    rcases mem_cons.mp hy with rfl | hy
    · exact hgot.nextpkt
    · rw [mNextpkt, hgot.other y (ne_of_mem_of_not_mem hy hxins)]
      exact hins.nextpkt y hy
  · intro y hy
    apply (hmarks y).2
    rcases mem_cons.mp hy with rfl | hy
    · exact hgot.plain
    · exact (hins.plain y hy).of_eq (hgot.other y (ne_of_mem_of_not_mem hy hxins))

theorem appendaddr {pool pktLen : Nat} {asa : List UInt8} {done : Bool} (h : SbInv mem sb rs)
    (hins : Insertion mem rs (ws ++ ms))
    (hws : LinkedFrom mem.mNext control ws) (hms : LinkedFrom mem.mNext m0 ms)
    (happ : sbappendaddr mem sb pool asa m0 pktLen control = some (done, mem', sb')) :
    ∃ rs', SbInv mem' sb' rs' := by
  have hspace := controlSpace_eq hws (by simpa using hws.length_le)
  simp only [sbappendaddr, hspace] at happ
  by_cases hroom : ((asa.length + (if m0 = none then 0 else pktLen) + mem.lenOf ws : Nat) : Int) >
      sb.sbspace
  · rw [if_pos hroom] at happ
    obtain ⟨-, rfl, rfl⟩ : false = done ∧ mem = mem' ∧ sb = sb' := by simpa using happ
    exact ⟨rs, h⟩
  rw [if_neg hroom] at happ
  cases hget : mem.mGet pool .soname with
  | none => simp [hget] at happ
  | some r =>
    obtain ⟨o, mem₁⟩ := r
    rcases mGet_cases hget with ⟨rfl, rfl⟩ | ⟨x, rfl, hgot⟩
    · obtain ⟨-, rfl, rfl⟩ : false = done ∧ mem₁ = mem' ∧ sb = sb' := by simpa [hget] using happ
      exact ⟨rs, h⟩
    · simp only [hget, map_eq_some_iff] at happ
      obtain ⟨⟨mem₂, sb₂⟩, happ₂, heq⟩ := happ
      obtain ⟨-, rfl, rfl⟩ : true = done ∧ mem₂ = mem' ∧ sb₂ = sb' := by simpa using heq
      obtain ⟨hinv, hjoined, hins'⟩ := h.joinAddr hins hws hms (hgot.storeData asa) rfl
      exact ⟨_, hinv.appendRecord hjoined hins' happ₂⟩

end SbInv

end NetbsdDpdk
