import NetbsdDpdk.SockbufDrain
import NetbsdDpdk.Transmit

/-! `app_glue_receivefrom` hands a datagram to the application: the packet buffers of its data, and
the address it came from in the bytes before them. -/

namespace NetbsdDpdk

open List

open MbufMem

variable {k n : Nat}

def sockaddrInSize : Nat := 16

namespace MbufMem

def storeBefore (mem : MbufMem k n) (p : Option (Fin n)) (off : Int) (bs : List UInt8) :
    MbufMem k n :=
  match p with
  | none => mem
  | some p =>
    { mem with rte := mem.rte.modify p fun m =>
        { m with buf := writeBytes m.buf (off - bs.length).toNat bs } }

@[simp] theorem storeBefore_mbuf (mem : MbufMem k n) (p : Option (Fin n)) (off : Int)
    (bs : List UInt8) : (mem.storeBefore p off bs).mbuf = mem.mbuf := by
  cases p <;> rfl

@[simp] theorem storeBefore_mbCache (mem : MbufMem k n) (p : Option (Fin n)) (off : Int)
    (bs : List UInt8) : (mem.storeBefore p off bs).mbCache = mem.mbCache := by
  cases p <;> rfl

def dataBytes (mem : MbufMem k n) (x : Fin k) (len : Nat) : List UInt8 :=
  match (mem.mbuf x).mPaddr with
  | some p => bytesAt (mem.rte.cell p).buf (mem.mbuf x).mData.toNat len
  | none => []

end MbufMem

/-- The result, `*buf`, and the socket. The data pointer of an mbuf goes on pointing into the packet
buffer it came with; `none` where the code follows a null pointer. -/
def appGlueReceivefrom (s : RcvSocket k n) : Option (Int × Option (Fin n) × RcvSocket k n) :=
  match soreceive s true with
  | none => none
  | some r =>
    if r.rc = 0 then
      match r.mp0, r.paddr with
      | some x, some a =>
        let buf := (r.sock.mem.mbuf x).mPaddr
        let mem := r.sock.mem.modify x fun m => { m with mPaddr := none }
        let mem := mem.storeBefore (s.mem.mbuf x).mPaddr (mem.mbuf x).mData
          (mem.dataBytes a sockaddrInSize)
        match mem.mFreem k (some x) with
        | none => none
        | some mem =>
          (mem.mFreem k (some a)).map fun mem => (0, buf, { r.sock with mem := mem })
      | _, _ => none
    else some (r.rc, none, r.sock)

structure Mbuf.HasData (m : Mbuf k n) (g : Seg n) : Prop where
  type : m.mType = .data
  paddr : m.mPaddr = some g.paddr
  data : m.mData = g.data
  len : m.mLen = g.len

/-- The first record is the address mbuf `a`, with the packet buffer `pa`, and the mbufs `xs`, which
carry `gs`; every mbuf has a packet buffer of its own. -/
structure DatagramRecord (s : RcvSocket k n) (a : Fin k) (pa : Fin n) (xs : List (Fin k))
    (gs : List (Seg n)) (rs : List (List (Fin k))) : Prop where
  atomic : s.prAddr = true
  records : SbRecords s.mem s.soRcv ((a :: xs) :: rs)
  soname : (s.mem.mbuf a).mType = .soname
  paddr : (s.mem.mbuf a).mPaddr = some pa
  data : List.Forall₂ (fun x g => (s.mem.mbuf x).HasData g) xs gs
  nonempty : xs ≠ []
  own : (pa :: gs.map Seg.paddr).Nodup

structure DatagramDelivered (s : RcvSocket k n) (a : Fin k) (xs : List (Fin k)) (gs : List (Seg n))
    (rs : List (List (Fin k))) (rc : Int) (buf : Option (Fin n)) (s' : RcvSocket k n) : Prop where
  zero : rc = 0
  first : buf = gs.head?.map Seg.paddr
  chain : LinkedFrom s'.mem.rte.next buf (gs.map Seg.paddr)
  head : ∀ p ∈ buf, (s'.mem.rte.cell p).pktLen = (gs.map Seg.len).sum ∧
    (s'.mem.rte.cell p).nbSegs = gs.length
  kept : ∀ g ∈ gs, s'.mem.rte.timesReturned g.paddr = s.mem.rte.timesReturned g.paddr
  address : ∀ g ∈ gs.head?,
    bytesAt (s'.mem.rte.cell g.paddr).buf (g.data - sockaddrInSize).toNat sockaddrInSize =
      s.mem.dataBytes a sockaddrInSize
  cache : s'.mem.mbCache.Perm (a :: xs ++ s.mem.mbCache)
  rest : SbRecords s'.mem s'.soRcv rs

namespace RcvLoop

variable {l l' : RcvLoop k n} {h p : Fin n} {x : Fin k} {xs ys : List (Fin k)}

theorem cutOff_mbuf_of_freed (l : RcvLoop k n) (hp : p ≠ h) (hmp : l.mp ≠ some x) (y : Fin k) :
    (l.cutOff h p x).sock.mem.mbuf y = { l.sock.mem.mbuf y with
      mNext := if y = x then none else if l.mp = some y then some x else l.sock.mem.mNext y
      mPaddr := if y = x then none else (l.sock.mem.mbuf y).mPaddr } := by
  have hmp' : ((l.take h p x).release h p x).mp = some x := by simp [release, hp, take]
  have hrel : ((l.take h p x).release h p x).sock.mem = ((l.take h p x).sock.mem.mFree x).1 := by
    simp [release, hp]
  rw [cutOff, store_mbuf, hmp', hrel, mFree_mbuf, take_mbuf]
  by_cases hy : y = x
  · subst hy
    simp
  · simp [hy, Ne.symm hy, mNext]

structure Freed (l : RcvLoop k n) (ys : List (Fin k)) (l' : RcvLoop k n) : Prop where
  cache : l'.sock.mem.mbCache = ys.reverse ++ l.sock.mem.mbCache
  paddr : ∀ y ∈ ys, (l'.sock.mem.mbuf y).mPaddr = none
  other : ∀ y, y ∉ ys → (l'.sock.mem.mbuf y).mPaddr = (l.sock.mem.mbuf y).mPaddr ∧
    (l.mp ≠ some y → l'.sock.mem.mNext y = l.sock.mem.mNext y)
  mp0 : l'.mp0 = if l.mp = none then ys.head? else l.mp0
  place : ∀ w, l.mp = some w → l'.sock.mem.mNext w = ys.head?
  linked : LinkedFrom l'.sock.mem.mNext ys.head? ys

theorem round_freed (hp : (l.sock.mem.mbuf x).mPaddr = some p) (hne : p ≠ h) (hmp : l.mp ≠ some x) :
    ∃ l', l.round (some h) x = some (l', l.sock.mem.mNext x) ∧ Freed l [x] l' ∧
      l'.mp = some x ∧ ∀ y, (l'.sock.mem.mbuf y).mType = (l.sock.mem.mbuf y).mType := by
  obtain ⟨⟨l', succ⟩, hround⟩ : ∃ r, l.round (some h) x = some r := by simp [round, hp]
  obtain ⟨h', p', hh', hp', rfl, hl'⟩ := round_eq hround
  cases hh'
  obtain rfl : p = p' := by simpa [hp] using hp'
  have hsucc : (l.cutOff h p x).sock.soRcv.sbMb = l.sock.mem.mNext x := by rw [cutOff_soRcv hmp]
  have hnext : ∀ y, l'.sock.mem.mNext y =
      if y = x then none else if l.mp = some y then some x else l.sock.mem.mNext y := by
    intro y
    rw [mNext, hl', moveUp_mbuf, cutOff_mbuf_of_freed l hne hmp]
  have hpaddr : ∀ y, (l'.sock.mem.mbuf y).mPaddr =
      if y = x then none else (l.sock.mem.mbuf y).mPaddr := by
    intro y
    rw [hl', moveUp_mbuf, cutOff_mbuf_of_freed l hne hmp]
  refine ⟨l', by rw [hround, hsucc], ⟨?_, ?_, ?_, ?_, ?_, ?_⟩, ?_, ?_⟩
  · have hcache := l.cutOff_mbCache h p x
    rw [if_neg hne] at hcache
    rw [hl', (settled_moveUp _ _).mbCache, hcache]
    rfl
  · intro y hy
    rw [hpaddr, if_pos (by simpa using hy)]
  · intro y hy
    have hyx : y ≠ x := by simpa using hy
    rw [hpaddr, hnext, if_neg hyx, if_neg hyx]
    exact ⟨rfl, fun hy' => if_neg hy'⟩
  · rw [hl', cutOff, store_mp0]
    simp [release, hne, take, store_mp0]
  · intro w hw
    have hwx : w ≠ x := by
      rintro rfl
      exact hmp hw
    rw [hnext, if_neg hwx, if_pos hw]
    rfl
  · refine ⟨rfl, ?_⟩
    rw [hnext, if_pos rfl]
    rfl
  · rw [hl']
    simp [cutOff, release, hne, take]
  · intro y
    rw [hl', moveUp_mbuf, cutOff_mbuf_of_freed l hne hmp]

theorem Freed.trans {l'' : RcvLoop k n} (h : Freed l [x] l') (h' : Freed l' ys l'')
    (hmp : l'.mp = some x) (hx : x ∉ ys) (hys : ∀ y ∈ ys, l.mp ≠ some y) :
    Freed l (x :: ys) l'' := by
  have hxpaddr : (l''.sock.mem.mbuf x).mPaddr = none := by
    rw [(h'.other x hx).1]
    exact h.paddr x (by simp)
  refine ⟨?_, ?_, ?_, ?_, ?_, ?_⟩
  · rw [h'.cache, h.cache]
    simp
  · intro y hy
    rcases mem_cons.mp hy with rfl | hy
    · exact hxpaddr
    · exact h'.paddr y hy
  · intro y hy
    obtain ⟨hyx, hyys⟩ : y ≠ x ∧ y ∉ ys := by simpa using hy
    have hfirst := h.other y (by simpa using hyx)
    have hrest := h'.other y hyys
    refine ⟨hrest.1.trans hfirst.1, fun hy' => ?_⟩
    rw [hrest.2 (by simpa [hmp] using Ne.symm hyx), hfirst.2 hy']
  · rw [h'.mp0, hmp, if_neg (by simp), h.mp0]
    rfl
  · intro w hw
    have hwx : w ≠ x := by
      rintro rfl
      have hlinked := h.place w hw
      have hnone := h.linked.2
      rw [hlinked] at hnone
      cases hnone
    have hwys : w ∉ ys := fun hmem => hys w hmem hw
    rw [(h'.other w hwys).2 (by simpa [hmp] using Ne.symm hwx), h.place w hw]
    rfl
  · refine ⟨rfl, ?_⟩
    rw [h'.place x hmp]
    exact h'.linked

theorem loop_freed {m : Option (Fin k)} {fuel : Nat} (hne : xs ≠ [])
    (hlink : LinkedFrom l.sock.mem.mNext m xs)
    (hdata : ∀ x ∈ xs, (l.sock.mem.mbuf x).mType = .data ∧
      ∃ p, (l.sock.mem.mbuf x).mPaddr = some p ∧ p ≠ h)
    (hmp : ∀ x ∈ xs, l.mp ≠ some x) (hfuel : xs.length ≤ fuel) :
    ∃ l' ys, loop (some h) false fuel l m = some l' ∧ ys <+: xs ∧ ys ≠ [] ∧ Freed l ys l' := by
  induction xs generalizing l m fuel with
  | nil => exact absurd rfl hne
  | cons x xs ih =>
    obtain ⟨rfl, hrest⟩ := hlink
    have hx : x ∉ xs := (nodup_cons.mp (LinkedFrom.nodup (p := some x) ⟨rfl, hrest⟩)).1
    obtain ⟨fuel, rfl, hf⟩ := exists_fuel hfuel
    obtain ⟨htype, p, hp, hph⟩ := hdata x (by simp)
    obtain ⟨l₁, hround, hfreed, hmp₁, htype₁⟩ := round_freed hp hph (hmp x (by simp))
    have hloop : loop (some h) false (fuel + 1) l (some x) =
        if l₁.eor then some l₁ else loop (some h) false fuel l₁ (l.sock.mem.mNext x) := by
      rw [loop, if_neg (by simp [htype]), hround]
    by_cases hend : l₁.eor = true ∨ xs = []
    · refine ⟨l₁, [x], ?_, by simp, by simp, hfreed⟩
      rw [hloop]
      rcases hend with heor | rfl
      · rw [if_pos heor]
      · have hnone : l.sock.mem.mNext x = none := hrest
        rw [hnone]
        cases fuel <;> simp [loop]
    · obtain ⟨heor, hxs⟩ := not_or.mp hend
      have hkept : ∀ y ∈ xs, l₁.sock.mem.mNext y = l.sock.mem.mNext y ∧
          (l₁.sock.mem.mbuf y).mPaddr = (l.sock.mem.mbuf y).mPaddr := by
        intro y hy
        have hold := hfreed.other y (by simpa using ne_of_mem_of_not_mem hy hx)
        exact ⟨hold.2 (hmp y (by simp [hy])), hold.1⟩
      obtain ⟨l', ys, hrun, hpre, hys, hfreed'⟩ := ih hxs (hrest.congr fun y hy => (hkept y hy).1)
        (fun y hy => by
          rw [htype₁, (hkept y hy).2]
          exact hdata y (by simp [hy]))
        (fun y hy => by simpa [hmp₁] using (ne_of_mem_of_not_mem hy hx).symm)
        hf
      refine ⟨l', x :: ys, ?_, cons_prefix_cons.mpr ⟨rfl, hpre⟩, by simp, ?_⟩
      · rw [hloop, if_neg heor, hrun]
      · apply hfreed.trans hfreed' hmp₁ fun hmem => hx (hpre.subset hmem)
        intro y hy
        exact hmp y (by simp [hpre.subset hy])

end RcvLoop

theorem MbufMem.mFreem_of_none {mem : MbufMem k n} {p : Option (Fin k)} {ys : List (Fin k)}
    {fuel : Nat} (hlink : LinkedFrom mem.mNext p ys)
    (hnone : ∀ y ∈ ys, (mem.mbuf y).mPaddr = none) (hfuel : ys.length ≤ fuel) :
    mem.mFreem fuel p = some { mem with mbCache := ys.reverse ++ mem.mbCache } := by
  induction ys generalizing mem p fuel with
  | nil =>
    cases hlink
    cases fuel <;> rfl
  | cons y ys ih =>
    obtain ⟨rfl, hrest⟩ := hlink
    obtain ⟨fuel, rfl, hf⟩ := exists_fuel hfuel
    have hy := hnone y (by simp)
    have hfree : mem.mFree y = ({ mem with mbCache := y :: mem.mbCache }, mem.mNext y) := by
      simp [mFree, hy]
    obtain ⟨mem₁, hmem₁⟩ : ∃ mem₁, { mem with mbCache := y :: mem.mbCache } = mem₁ := ⟨_, rfl⟩
    have hnext : mem₁.mNext = mem.mNext := by
      rw [← hmem₁]
      rfl
    rw [← hnext] at hrest
    have hih := ih hrest (fun z hz => by rw [← hmem₁]; exact hnone z (by simp [hz]))
      hf
    rw [mFreem, hfree, hmem₁, ← hnext]
    simpa [← hmem₁] using hih

theorem MbufMem.mFreem_single {mem : MbufMem k n} {x : Fin k} {fuel : Nat}
    (hnext : mem.mNext x = none) (hfuel : 0 < fuel) :
    mem.mFreem fuel (some x) = some (mem.mFree x).1 := by
  obtain ⟨fuel, rfl⟩ : ∃ f, fuel = f + 1 := ⟨fuel - 1, by omega⟩
  have hfree : mem.mFree x = ((mem.mFree x).1, none) := by rw [← hnext]; rfl
  rw [mFreem, hfree]
  cases fuel <;> rfl

theorem takeAddr_mbuf (s : RcvSocket k n) (a y : Fin k) :
    (takeAddr s a true).1.mem.mbuf y = { s.mem.mbuf y with
      mNext := if y = a then none else s.mem.mNext y
      mNextpkt := if s.mem.mNext a = some y then s.mem.mNextpkt a else s.mem.mNextpkt y } := by
  obtain ⟨s₁, hs₁⟩ : ∃ s₁ : RcvSocket k n, { s with
      mem := s.mem.modify a fun m => { m with mNext := none }
      soRcv := { s.soRcv.sbfree (s.mem.mbuf a) with sbMb := s.mem.mNext a } } = s₁ := ⟨_, rfl⟩
  have htake : (takeAddr s a true).1 = sbsync s₁ (s.mem.mNextpkt a) := by
    rw [← hs₁]
    rfl
  rw [htake, (settled_sbsync s₁ _).mbuf, ← hs₁]
  by_cases hy : y = a
  · subst hy
    simp [mNextpkt]
  · simp only [mNextpkt, modify_mbuf_of_ne _ _ hy, if_neg hy]
    rfl

theorem takeAddr_mbCache (s : RcvSocket k n) (a : Fin k) :
    (takeAddr s a true).1.mem.mbCache = s.mem.mbCache :=
  (settled_sbsync _ _).mbCache

namespace DatagramRecord

variable {s : RcvSocket k n} {a : Fin k} {pa : Fin n} {xs : List (Fin k)} {gs : List (Seg n)}
  {rs : List (List (Fin k))}

theorem hasData {x : Fin k} (h : DatagramRecord s a pa xs gs rs) (hx : x ∈ xs) :
    ∃ g ∈ gs, (s.mem.mbuf x).HasData g := by
  have hdata := h.data
  clear h
  induction hdata with
  | nil => cases hx
  | @cons y g ys gs hy _ ih =>
    rcases mem_cons.mp hx with rfl | hx
    · exact ⟨g, by simp, hy⟩
    · obtain ⟨g', hg', hx'⟩ := ih hx
      exact ⟨g', by simp [hg'], hx'⟩

theorem soreceive_eq (h : DatagramRecord s a pa xs gs rs) :
    ∃ l ys, soreceive s true = some { rc := 0, sock := l.sock, paddr := some a, mp0 := l.mp0 } ∧
      ys <+: xs ∧ ys ≠ [] ∧ RcvLoop.Freed { sock := (takeAddr s a true).1 } ys l := by
  obtain ⟨hmb, hlinked, -, -⟩ := h.records.records
  have hmbuf := takeAddr_mbuf s a
  have hnd : (a :: xs).Nodup := by
    have hall := h.records.nodup
    rw [flatten_cons] at hall
    exact (nodup_append.mp hall).1
  have ha : a ∉ xs := (nodup_cons.mp hnd).1
  obtain ⟨s₁, hs₁⟩ : ∃ s₁, (takeAddr s a true).1 = s₁ := ⟨_, rfl⟩
  rw [hs₁] at hmbuf
  have htake : takeAddr s a true = (s₁, s.mem.mNext a) := by rw [← hs₁]; rfl
  have hlink : LinkedFrom s₁.mem.mNext (s.mem.mNext a) xs := by
    apply hlinked.congr
    intro y hy
    rw [mNext, hmbuf, if_neg (ne_of_mem_of_not_mem hy ha)]
  have hdata : ∀ x ∈ xs, (s₁.mem.mbuf x).mType = .data ∧
      ∃ p, (s₁.mem.mbuf x).mPaddr = some p ∧ p ≠ pa := by
    intro x hx
    obtain ⟨g, hg, hcar⟩ := h.hasData hx
    rw [hmbuf]
    refine ⟨hcar.type, g.paddr, hcar.paddr, ?_⟩
    rintro rfl
    exact (nodup_cons.mp h.own).1 (List.mem_map_of_mem hg)
  have hfuel : xs.length ≤ k := by simpa using hlinked.length_le
  obtain ⟨l, ys, hloop, hpre, hys, hfreed⟩ := RcvLoop.loop_freed (l := { sock := s₁ })
    h.nonempty hlink hdata (by simp) hfuel
  refine ⟨l, ys, ?_, hpre, hys, hs₁ ▸ hfreed⟩
  obtain ⟨x, xs, rfl⟩ := exists_cons_of_ne_nil h.nonempty
  have hx : s.mem.mNext a = some x := hlink.1
  have htype : (s₁.mem.mbuf x).mType = .data := (hdata x (by simp)).1
  rw [hx] at hloop htake
  simp [soreceive, hmb, h.atomic, h.paddr, htake, htype, hloop]

theorem receivefrom_eq (h : DatagramRecord s a pa xs gs rs) :
    ∃ s' ys, appGlueReceivefrom s = some (0, none, s') ∧ ys <+: xs ∧ ys ≠ [] ∧
      s'.mem.mbCache = a :: (ys.reverse ++ (ys.reverse ++ s.mem.mbCache)) := by
  obtain ⟨l, ys, hrecv, hpre, hys, hfreed⟩ := h.soreceive_eq
  obtain ⟨x, ys, rfl⟩ := exists_cons_of_ne_nil hys
  have hmp0 : l.mp0 = some x := hfreed.mp0
  have hx : (l.sock.mem.mbuf x).mPaddr = none := hfreed.paddr x (by simp)
  have ha : a ∉ x :: ys := by
    intro hmem
    have hnd := h.records.nodup
    rw [flatten_cons, cons_append] at hnd
    exact (nodup_cons.mp hnd).1 (mem_append_left _ (hpre.subset hmem))
  -- the address mbuf is alone, the data mbufs are still chained to each other
  have hanext : l.sock.mem.mNext a = none := by
    rw [(hfreed.other a ha).2 (by simp), mNext, takeAddr_mbuf, if_pos rfl]
  obtain ⟨mem₁, hmem₁⟩ : ∃ mem₁, (l.sock.mem.modify x fun m =>
    { m with mPaddr := none }).storeBefore (s.mem.mbuf x).mPaddr
      ((l.sock.mem.modify x fun m => { m with mPaddr := none }).mbuf x).mData
      ((l.sock.mem.modify x fun m => { m with mPaddr := none }).dataBytes a sockaddrInSize) =
      mem₁ := ⟨_, rfl⟩
  have hmbuf : ∀ y, mem₁.mbuf y = l.sock.mem.mbuf y := by
    intro y
    rw [← hmem₁, storeBefore_mbuf]
    by_cases hy : y = x
    · subst hy
      rw [modify_mbuf_self, ← hx]
    · rw [modify_mbuf_of_ne _ _ hy]
  have hcache : mem₁.mbCache = (x :: ys).reverse ++ s.mem.mbCache := by
    rw [← hmem₁, storeBefore_mbCache]
    exact hfreed.cache.trans (congrArg _ (takeAddr_mbCache s a))
  have hlink : LinkedFrom mem₁.mNext (some x) (x :: ys) := by
    apply hfreed.linked.congr
    intro y _
    rw [mNext, hmbuf, mNext]
  have hcard : (x :: ys).length ≤ k := by simpa using hlink.length_le
  have hfree₁ := mFreem_of_none hlink
    (fun y hy => by rw [hmbuf]; exact hfreed.paddr y hy) hcard
  obtain ⟨mem₂, hmem₂⟩ : ∃ mem₂ : MbufMem k n,
    { mem₁ with mbCache := (x :: ys).reverse ++ mem₁.mbCache } = mem₂ := ⟨_, rfl⟩
  rw [hmem₂] at hfree₁
  have hanext₂ : mem₂.mNext a = none := by
    rw [← hmem₂]
    show (mem₁.mbuf a).mNext = none
    rw [hmbuf]
    exact hanext
  have hfree₂ := mFreem_single hanext₂ a.pos
  refine ⟨{ l.sock with mem := (mem₂.mFree a).1 }, x :: ys, ?_, hpre, by simp, ?_⟩
  · simp only [appGlueReceivefrom, hrecv, if_true, hmp0, hx, hmem₁, hfree₁, hfree₂, Option.map_some]
  · show (mem₂.mFree a).1.mbCache = _
    have hmb : (mem₂.mFree a).1.mbCache = a :: mem₂.mbCache := by simp
    rw [hmb, ← hmem₂, hcache]

end DatagramRecord

/-- No datagram is delivered: `app_glue_receivefrom` returns 0 with a null pointer for `*buf`, and
the mbufs `ys` that it has taken come into the cache twice. -/
theorem datagram_never_delivered {s : RcvSocket k n} {a : Fin k} {pa : Fin n} {xs : List (Fin k)}
    {gs : List (Seg n)} {rs : List (List (Fin k))} (h : DatagramRecord s a pa xs gs rs) :
    ∃ s' ys, appGlueReceivefrom s = some (0, none, s') ∧ ys <+: xs ∧ ys ≠ [] ∧
      s'.mem.mbCache = a :: (ys.reverse ++ (ys.reverse ++ s.mem.mbCache)) ∧
      ∀ rc buf t, appGlueReceivefrom s = some (rc, buf, t) →
        ¬ DatagramDelivered s a xs gs rs rc buf t := by
  obtain ⟨s', ys, heq, hpre, hys, hcache⟩ := h.receivefrom_eq
  refine ⟨s', ys, heq, hpre, hys, hcache, ?_⟩
  rintro rc buf t ht hdel
  rw [heq] at ht
  cases ht
  obtain ⟨x, xs, rfl⟩ := List.exists_cons_of_ne_nil h.nonempty
  obtain ⟨g, hg, -⟩ := h.hasData (List.mem_cons_self (a := x))
  obtain ⟨g', gs', rfl⟩ := List.exists_cons_of_ne_nil (List.ne_nil_of_mem hg)
  have hfirst := hdel.first
  simp at hfirst

def waitingDatagram : RcvSocket 2 2 where
  mem := {
    mbuf := fun x => {
      mNext := if x = 0 then some 1 else none
      mType := if x = 0 then .soname else .data
      mData := 128, mLen := 16, mPaddr := some x }
    rte := { cell := fun _ => { dataOff := 128, dataLen := 16, refcnt := 1 } } }
  soRcv :=
    { sbCc := 32, sbMbcnt := 4096, sbMb := some 0, sbMbtail := some 1, sbLastrecord := some 0 }
  prAddr := true
  prConnRequired := false

theorem waitingDatagram_record :
    DatagramRecord waitingDatagram 0 0 [1] [⟨1, 128, 16⟩] [] where
  atomic := rfl
  records := ⟨⟨rfl, ⟨rfl, rfl⟩, by simp [waitingDatagram, mNextpkt], rfl⟩, by decide, rfl,
    rfl, rfl, rfl⟩
  soname := rfl
  paddr := rfl
  data := .cons ⟨rfl, rfl, rfl, rfl⟩ .nil
  nonempty := by simp
  own := by decide

theorem datagram_lost : DatagramRecord waitingDatagram 0 0 [1] [⟨1, 128, 16⟩] [] ∧
    ∃ s', appGlueReceivefrom waitingDatagram = some (0, none, s') ∧ s'.mem.mbCache = [0, 1, 1] ∧
      s'.mem.rte.timesReturned 1 = 1 ∧
      ¬ DatagramDelivered waitingDatagram 0 [1] [⟨1, 128, 16⟩] [] 0 none s' := by
  have hrun : (appGlueReceivefrom waitingDatagram).map (fun r =>
      (r.1, r.2.1, r.2.2.mem.mbCache, r.2.2.mem.rte.timesReturned 1)) =
        some (0, none, [0, 1, 1], 1) := by decide
  obtain ⟨⟨rc, buf, s'⟩, heq, hr⟩ := Option.map_eq_some_iff.mp hrun
  obtain ⟨rfl, rfl, hcache, hreturned⟩ : rc = 0 ∧ buf = none ∧ s'.mem.mbCache = [0, 1, 1] ∧
    s'.mem.rte.timesReturned 1 = 1 := by simpa using hr
  refine ⟨waitingDatagram_record, s', heq, hcache, hreturned, fun hdel => ?_⟩
  have hfirst := hdel.first
  simp at hfirst

theorem datagram_never_delivered_waiting :
    ∃ s', appGlueReceivefrom waitingDatagram = some (0, none, s') ∧
      ¬ DatagramDelivered waitingDatagram 0 [1] [⟨1, 128, 16⟩] [] 0 none s' := by
  obtain ⟨s', -, heq, -, -, -, hnot⟩ := datagram_never_delivered waitingDatagram_record
  exact ⟨s', heq, hnot 0 none s' heq⟩

end NetbsdDpdk
