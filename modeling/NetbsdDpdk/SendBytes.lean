import NetbsdDpdk.CopySpec

/-! The bytes of a send buffer: `sbappendstream` puts bytes at the end, `sbdrop` takes them from the
front, and neither changes what a copy refers to. -/

namespace NetbsdDpdk

open List MbufMem

variable {k n : Nat}

def mbufSize : Nat := 2048

theorem MbufMem.lenOf_lt_mCopyall (mem : MbufMem k n) {xs : List (Fin k)}
    (hk : k ≤ stackMbufsCount) (hnd : xs.Nodup) (hroom : ∀ x ∈ xs, 0 ≤ (mem.mbuf x).mData ∧
      (mem.mbuf x).mData + (mem.mbuf x).mLen ≤ mbufSize) : mem.lenOf xs < mCopyall := by
  have hsum : ∀ ys ⊆ xs, mem.lenOf ys ≤ ys.length * mbufSize := by
    intro ys hys
    induction ys with
    | nil => simp
    | cons y ys ih =>
      obtain ⟨hdata, hfits⟩ := hroom y (hys (by simp))
      have hrest := ih fun z hz => hys (by simp [hz])
      rw [lenOf_cons, length_cons, Nat.add_mul, Nat.one_mul]
      omega
  have hcard : xs.length ≤ k := by simpa using hnd.length_le_card
  have htotal := hsum xs (List.Subset.refl _)
  simp only [mbufSize, mCopyall, stackMbufsCount] at *
  omega

namespace CloneMem

variable {m m' : CloneMem k n} {x : Fin k} {xs ms cs zs : List (Fin k)} {data : List UInt8}

structure Carries (m : CloneMem k n) (xs cs : List (Fin k)) (data : List UInt8) : Prop where
  ledger : Ledger m xs cs
  room : ∀ x ∈ xs, 0 ≤ (m.mem.mbuf x).mData ∧
    (m.mem.mbuf x).mData + (m.mem.mbuf x).mLen ≤ mbufSize
  ext : ∀ x ∈ xs, (m.mem.mbuf x).mExtSize = none
  bytes : m.chainData xs = data

namespace Carries

theorem length (h : Carries m xs cs data) : data.length = m.mem.lenOf xs := by
  rw [← h.bytes, length_chainData h.ledger.dataBuffer]

theorem congr {cs' : List (Fin k)} (h : Carries m xs cs data) (hledger : Ledger m' xs cs')
    (hkeeps : ∀ x ∈ xs, Keeps m m' x) : Carries m' xs cs' data := by
  refine ⟨hledger, fun x hx => ?_, fun x hx => ?_, ?_⟩
  · rw [(hkeeps x hx).mbuf]
    exact h.room x hx
  · rw [(hkeeps x hx).mbuf]
    exact h.ext x hx
  · rw [← h.bytes]
    exact chainData_congr fun z hz => (hkeeps z hz).data

theorem relink (h : Carries m xs cs data) (hsame : ∀ z, m.mem.SameData m'.mem z)
    (hcache : m'.mem.mbCache = m.mem.mbCache) (hrte : m'.mem.rte = m.mem.rte)
    (hatt : m'.attached = m.attached) : Carries m' xs cs data := by
  have hbuffer : ∀ z, m'.dataBuffer z = m.dataBuffer z := fun z =>
    dataBuffer_congr (hsame z).paddr fun p _ => by rw [hatt]
  constructor
  · exact h.ledger.of_mPaddr (fun z => (hsame z).paddr) hcache hrte hatt
  · intro x hx
    rw [(hsame x).data, (hsame x).len]
    exact h.room x hx
  · intro x hx
    rw [(hsame x).ext]
    exact h.ext x hx
  · rw [← h.bytes]
    apply chainData_congr
    intro z _
    exact mbufData_congr (hsame z).data (hsame z).len (hbuffer z) fun c => by rw [hrte]

theorem free (h : Carries m (xs ++ x :: ms) cs data) (hk : k ≤ stackMbufsCount) :
    Carries { m with mem := (m.mem.mFree x).1 } (xs ++ ms) cs
      (m.chainData xs ++ m.chainData ms) := by
  have hcons : Ledger m (x :: (xs ++ ms)) cs := h.ledger.perm perm_middle (.refl _)
  have hx : x ∉ xs ++ ms := by
    have hnd := hcons.nodup
    rw [cons_append, nodup_cons] at hnd
    exact fun hmem => hnd.1 (mem_append_left _ hmem)
  have hmbuf : ∀ z ∈ xs ++ ms, (m.mem.mFree x).1.mbuf z = m.mem.mbuf z := fun z hz =>
    m.mem.mFree_mbuf_of_ne (ne_of_mem_of_not_mem hz hx)
  have hsub : ∀ z ∈ xs ++ ms, z ∈ xs ++ x :: ms := by
    intro z hz
    simp only [mem_append, mem_cons] at hz ⊢
    tauto
  refine ⟨hcons.mFree_direct hk, ?_, ?_, ?_⟩
  · intro z hz
    rw [hmbuf z hz]
    exact h.room z (hsub z hz)
  · intro z hz
    rw [hmbuf z hz]
    exact h.ext z (hsub z hz)
  · rw [← chainData_append]
    apply chainData_congr
    intro z hz
    have hz' : (m.mem.mFree x).1.mbuf z = m.mem.mbuf z := hmbuf z hz
    exact mbufData_congr (by rw [hz']) (by rw [hz'])
      (dataBuffer_congr (by rw [hz']) fun _ _ => rfl) fun c => (m.mem.mFree_dataKept x c).1

theorem free_empty (h : Carries m (xs ++ x :: ms) cs data) (hk : k ≤ stackMbufsCount)
    (hzero : (m.mem.mbuf x).mLen = 0) :
    Carries { m with mem := (m.mem.mFree x).1 } (xs ++ ms) cs data := by
  have hempty : m.mbufData x = [] := by
    obtain ⟨d, hd⟩ := h.ledger.dataBuffer x (by simp)
    apply eq_nil_of_length_eq_zero
    rw [CopyLoop.length_mbufData hd, hzero]
  have hbytes := h.bytes
  rw [chainData_append, chainData_cons, hempty, nil_append] at hbytes
  rw [← hbytes]
  exact h.free hk

theorem trim {len : Nat} (h : Carries m (x :: xs) cs data) (hlen : len ≤ (m.mem.mbuf x).mLen)
    (hself : m'.mem.mbuf x = { m.mem.mbuf x with
      mLen := (m.mem.mbuf x).mLen - len, mData := (m.mem.mbuf x).mData + len })
    (hother : ∀ z, z ≠ x → m'.mem.mbuf z = m.mem.mbuf z)
    (hcache : m'.mem.mbCache = m.mem.mbCache) (hrte : m'.mem.rte = m.mem.rte)
    (hatt : m'.attached = m.attached) : Carries m' (x :: xs) cs (data.drop len) := by
  obtain ⟨hdata, hroom⟩ := h.room x (by simp)
  obtain ⟨d, hd⟩ := h.ledger.dataBuffer x (by simp)
  have hpaddr : ∀ z, (m'.mem.mbuf z).mPaddr = (m.mem.mbuf z).mPaddr := by
    intro z
    by_cases hz : z = x
    · rw [hz, hself]
    · rw [hother z hz]
  have hbuffer : ∀ z, m'.dataBuffer z = m.dataBuffer z := fun z =>
    dataBuffer_congr (hpaddr z) fun p _ => by rw [hatt]
  have hx : x ∉ xs := by
    have hnd := h.ledger.nodup
    rw [cons_append, nodup_cons] at hnd
    exact fun hmem => hnd.1 (mem_append_left _ hmem)
  have hne : ∀ z ∈ xs, m'.mem.mbuf z = m.mem.mbuf z := fun z hz =>
    hother z (ne_of_mem_of_not_mem hz hx)
  constructor
  · exact h.ledger.of_mPaddr hpaddr hcache hrte hatt
  · intro z hz
    rcases mem_cons.mp hz with rfl | hz
    · rw [hself]
      dsimp only
      omega
    · rw [hne z hz]
      exact h.room z (by simp [hz])
  · intro z hz
    rcases mem_cons.mp hz with rfl | hz
    · rw [hself]
      exact h.ext z (by simp)
    · rw [hne z hz]
      exact h.ext z (by simp [hz])
  · have hrest : m'.chainData xs = m.chainData xs :=
      chainData_congr fun z hz => mbufData_congr (by rw [hne z hz]) (by rw [hne z hz]) (hbuffer z)
        fun c => by rw [hrte]
    have hfirst : m'.mbufData x = (m.mbufData x).drop len := by
      have hoff : ((m.mem.mbuf x).mData + len).toNat = (m.mem.mbuf x).mData.toNat + len := by omega
      have hsplit : (m.mem.mbuf x).mLen = len + ((m.mem.mbuf x).mLen - len) := by omega
      simp only [mbufData, hbuffer, hd, hself, hrte, hoff]
      conv_rhs => rw [hsplit, bytesAt_add]
      rw [drop_left' (by simp [bytesAt])]
    rw [← h.bytes, chainData_cons, chainData_cons, hrest, hfirst, drop_append_of_le_length]
    rw [CopyLoop.length_mbufData hd]
    exact hlen

end Carries

end CloneMem

open CloneMem

variable {att : Fin n → Option (Fin n)} {xs ms cs zs : List (Fin k)} {data : List UInt8}

/-! Appending: a chain without data is freed on the way, so the bytes of what is queued together
with what is still to be queued stay the same. -/

namespace Compress

variable {c c' : Compress k n} {x : Fin k}

theorem carries_link (h : Carries ⟨c.mem, att⟩ (xs ++ x :: ms) cs data) :
    Carries ⟨(c.link x).mem, att⟩ ((xs ++ [x]) ++ ms) cs data := by
  rw [append_assoc]
  refine h.relink (link_sameData c x) ?_ ?_ rfl
  · cases hn : c.n <;> simp [link, hn, MbufMem.modify]
  · cases hn : c.n <;> simp [link, hn]

theorem loop_carries {m : Option (Fin k)} {fuel : Nat} (hk : k ≤ stackMbufsCount)
    (h : c.Holds xs) (hms : LinkedFrom c.mem.mNext m ms)
    (hnp : ∀ x ∈ ms, (c.mem.mbuf x).mNextpkt = none)
    (hcar : Carries ⟨c.mem, att⟩ (xs ++ ms) cs data) (hloop : loop fuel c m = some c') :
    ∃ ys, c'.Holds ys ∧ Carries ⟨c'.mem, att⟩ ys cs data := by
  induction ms generalizing c m xs fuel with
  | nil =>
    cases hms
    have heq : c = c' := by
      cases fuel <;> simpa [loop] using hloop
    subst heq
    exact ⟨xs, h, by simpa using hcar⟩
  | cons x ms ih =>
    have hnd := hms.nodup
    obtain ⟨rfl, htail⟩ := hms
    obtain ⟨hx, -⟩ := nodup_cons.mp hnd
    have hdis : ∀ y ∈ x :: ms, y ∉ xs := by
      intro y hy hmem
      have hall := (nodup_append.mp hcar.ledger.nodup).1
      exact (nodup_append.mp hall).2.2 y hmem y hy rfl
    have hne : ∀ y ∈ ms, y ≠ x := fun y hy => ne_of_mem_of_not_mem hy hx
    cases fuel with
    | zero => cases hloop
    | succ fuel =>
      rcases round_cases c x with ⟨hzero, r, eor, hround⟩ | hround
      · have hfree : ∀ y ∈ ms, (c.mem.mFree x).1.mbuf y = c.mem.mbuf y := fun y hy =>
          c.mem.mFree_mbuf_of_ne (hne y hy)
        rw [loop, hround] at hloop
        refine ih (h.free (hdis x (by simp)) r eor) ?_ ?_ (hcar.free_empty hk hzero) hloop
        · rw [MbufMem.mFree_mNext]
          exact htail
        · intro y hy
          rw [hfree y hy]
          exact hnp y (by simp [hy])
      · rw [loop, hround] at hloop
        refine ih (h.link (hdis x (by simp)) (hnp x (by simp))) ?_ ?_ (carries_link hcar) hloop
        · apply htail.congr
          intro y hy
          have hn := h.n_ne (hdis y (by simp [hy]))
          rw [mNext, link_mbuf_of_ne (hne y hy) hn, mNext]
        · intro y hy
          rw [link_nextpkt]
          exact hnp y (by simp [hy])

end Compress

variable {m : CloneMem k n} {mem' : MbufMem k n} {sb sb' : Sockbuf k} {slot slot' : Option TxSlot}

theorem CloneMem.Keeps.of_mbuf {x : Fin k} (hmbuf : mem'.mbuf x = m.mem.mbuf x)
    (hdata : m.mem.rte.DataKept mem'.rte) : Keeps m ⟨mem', m.attached⟩ x :=
  ⟨hmbuf, dataBuffer_congr (congrArg Mbuf.mPaddr hmbuf) fun _ _ => rfl, fun c => (hdata c).1⟩

theorem sbappendstream_carries {x : Fin k} (hk : k ≤ stackMbufsCount) (hrep : SbRep m.mem sb xs)
    (hms : LinkedFrom m.mem.mNext (some x) ms) (hnp : ∀ y ∈ ms, (m.mem.mbuf y).mNextpkt = none)
    (hcar : Carries m (xs ++ ms) cs data)
    (happ : sbappendstream m.mem sb slot x = some (mem', sb', slot')) :
    ∃ ys, SbRep mem' sb' ys ∧ Carries ⟨mem', m.attached⟩ ys cs data ∧
      ∀ z ∈ cs, Keeps m ⟨mem', m.attached⟩ z := by
  have hnd := nodup_append.mp hcar.ledger.nodup
  have hdis : ∀ y ∈ ms, y ∉ xs := fun y hy hmem =>
    (nodup_append.mp hnd.1).2.2 y hmem y hy rfl
  obtain ⟨mem₁, sb₁, ys, happ₁, hrep', happended, -, -⟩ :=
    @sbappendstream_spec k n _ _ _ slot _ _ hrep hms hdis hnp
  have hstart : Compress.Holds { mem := m.mem, sb := sb, n := sb.sbMbtail } xs :=
    ⟨hrep.linked, hrep.tail, hrep.tail, hrep.single, hrep.cc, hrep.mbcnt⟩
  obtain ⟨⟨mem₂, sb₂⟩, hcompress, heq⟩ := Option.map_eq_some_iff.mp happ
  obtain ⟨c, hloop, hfinish⟩ := Option.map_eq_some_iff.mp hcompress
  obtain ⟨zs, hholds, hcar'⟩ := Compress.loop_carries hk hstart hms hnp hcar hloop
  rw [happ₁] at happ
  obtain ⟨rfl, rfl, rfl⟩ : mem₁ = mem' ∧ sb₁ = sb' ∧ _ = slot' := by simpa using happ
  obtain ⟨hsb, hcache, hrte, hmark, -⟩ := c.finish_spec
  have hsame : ∀ y, c.mem.SameData c.finish.1 y := by
    intro y
    obtain ⟨b, hb⟩ := hmark y
    constructor <;> rw [hb]
  rw [hfinish] at hsb hcache hrte hmark hsame
  obtain ⟨rfl, rfl⟩ : mem₂ = mem₁ ∧ { sb₂ with sbLastrecord := sb₂.sbMb } = sb₁ := by
    simpa using heq
  -- the chain that the loop leaves is the one that the buffer holds
  have hzs : zs = xs ++ ys := by
    refine LinkedFrom.unique (hholds.linked.congr ?_) (by simpa [← hsb] using hrep'.linked)
    intro y _
    obtain ⟨b, hb⟩ := hmark y
    show (mem₂.mbuf y).mNext = (c.mem.mbuf y).mNext
    rw [hb]
  refine ⟨xs ++ ys, hrep', hzs ▸ hcar'.relink hsame hcache hrte rfl, fun z hz => ?_⟩
  have hz' : ∀ y ∈ xs ++ ms, y ≠ z := fun y hy => hnd.2.2 y hy z hz
  refine .of_mbuf (happended.other z ?_ ?_) happended.rte
  · exact fun hmem => hz' z (by simp [hmem]) rfl
  · exact fun hmem => hz' z (by simp [hmem]) rfl

/-! Dropping. -/

namespace Drop

variable {d d' : Drop k n}

theorem keeping_carries (hk : k ≤ stackMbufsCount) (att : Fin n → Option (Fin n))
    (cs : List (Fin k)) (total : Nat) (data : List UInt8) : Keeping fun (d : Drop k n) len xs rs =>
      rs = [] ∧ d.Holds xs ∧ len ≤ total ∧ len ≤ d.mem.lenOf xs ∧
        ∃ bs, Carries ⟨d.mem, att⟩ xs cs bs ∧ bs.drop len = data.drop total where
  head h := h.2.1.linked.head?_eq.symm
  nodup h := by simpa [h.1] using h.2.1.linked.nodup
  length_le h := by simp [h.1]
  next h := by simpa using h.2.2.2.1
  trim := by
    rintro d len x xs rs ⟨hrs, h, -, -, bs, hcar, hbs⟩ hlt
    refine ⟨hrs, (h.trim (le_of_lt hlt)).holds, Nat.zero_le _, Nat.zero_le _, _,
      hcar.trim (le_of_lt hlt) ?_ ?_ rfl rfl rfl, hbs⟩
    · simp [Drop.trim]
    · intro z hz
      simp [Drop.trim, modify_mbuf_of_ne _ _ hz]
  free := by
    rintro d len x xs rs slot ⟨hrs, h, htotal, hle, bs, hcar, hbs⟩ hlen -
    have hholds : Drop.Holds { d with slot := slot } (x :: xs) :=
      ⟨h.linked, h.next, h.cc, h.mbcnt⟩
    have hfront : Carries ⟨d.mem, att⟩ ([] ++ x :: xs) cs bs := hcar
    have hfree : Carries ⟨(d.mem.mFree x).1, att⟩ xs cs (CloneMem.chainData ⟨d.mem, att⟩ xs) :=
      hfront.free hk
    rw [lenOf_cons] at hle
    refine ⟨hrs, hholds.free.1, by omega, ?_, _, hfree, ?_⟩
    · rw [lenOf_free _ (nodup_cons.mp h.linked.nodup).1]
      exact Nat.sub_le_iff_le_add'.mpr hle
    · obtain ⟨b, hb⟩ := hcar.ledger.dataBuffer x (by simp)
      have hfirst := CopyLoop.length_mbufData hb
      have hall : (CloneMem.mbufData ⟨d.mem, att⟩ x).length ≤ len := by rwa [hfirst]
      rw [← hbs, ← hcar.bytes, chainData_cons, drop_append, drop_eq_nil_of_le hall,
        hfirst, nil_append]

theorem settle_same (hnext : d.next = none) :
    d.settle.2.1.sbMb = d.m ∧ d.settle.1.mNext = d.mem.mNext ∧
      (∀ y, d.mem.SameData d.settle.1 y) ∧ d.settle.1.mbCache = d.mem.mbCache ∧
      d.settle.1.rte = d.mem.rte := by
  cases hm : d.m with
  | none =>
    have hset : d.settle.1 = d.mem := by simp [settle, hm]
    rw [hset]
    exact ⟨by simp [settle, hm, hnext], rfl, fun y => .of_eq rfl, rfl, rfl⟩
  | some x =>
    obtain ⟨mem', hmem'⟩ : ∃ mem', d.mem.modify x (fun m => { m with mNextpkt := none }) = mem' :=
      ⟨_, rfl⟩
    have hset : d.settle.1 = mem' := by simp [settle, hm, hnext, ← hmem']
    have hmbuf : ∀ y, ∃ np, mem'.mbuf y = { d.mem.mbuf y with mNextpkt := np } := by
      intro y
      by_cases hy : y = x
      · exact ⟨none, by rw [hy, ← hmem', modify_mbuf_self]⟩
      · exact ⟨_, by rw [← hmem', modify_mbuf_of_ne _ _ hy]⟩
    rw [hset]
    refine ⟨by simp [settle, hm, hnext], ?_, ?_, by rw [← hmem']; rfl, by rw [← hmem']; rfl⟩
    · funext y
      obtain ⟨np, hnp⟩ := hmbuf y
      rw [mNext, hnp, mNext]
    · intro y
      obtain ⟨np, hnp⟩ := hmbuf y
      constructor <;> rw [hnp]

end Drop

theorem sbdrop_carries {len : Nat} (hk : k ≤ stackMbufsCount) (hrep : SbRep m.mem sb xs)
    (hcar : Carries m xs cs data) (hlen : len ≤ m.mem.lenOf xs)
    (hdrop : sbdrop m.mem sb slot len = some (mem', sb', slot')) :
    ∃ zs, SbRep mem' sb' zs ∧ Carries ⟨mem', m.attached⟩ zs cs (data.drop len) ∧
      ∀ z ∈ cs, Keeps m ⟨mem', m.attached⟩ z := by
  obtain ⟨mem₁, sb₁, slot₁, fs, zs, hdrop₁, hrep', hdropped, -⟩ :=
    @sbdrop_spec k n _ _ _ _ slot hrep hlen
  have hnext : (sb.sbMb.bind fun x => (m.mem.mbuf x).mNextpkt) = none := by
    rw [← hrep.linked.head?_eq]
    cases hxs : xs.head? with
    | none => rfl
    | some x => exact hrep.single x hxs
  have hstart : Drop.Holds
      ⟨m.mem, sb, slot, sb.sbMb, sb.sbMb.bind fun x => (m.mem.mbuf x).mNextpkt⟩ xs :=
    ⟨hrep.linked, hnext, hrep.cc, hrep.mbcnt⟩
  obtain ⟨d₂, ws, ss, hsettle, ⟨-, hholds₂, -, -, bs, hcar₂, hbs⟩, -⟩ :=
    (Drop.keeping_carries hk m.attached cs len data).sbdrop m.mem sb slot
      ⟨rfl, hstart, le_rfl, hlen, data, hcar, rfl⟩
  rw [hsettle] at hdrop
  rw [hdrop₁] at hsettle
  obtain ⟨rfl, rfl, rfl⟩ : mem₁ = mem' ∧ sb₁ = sb' ∧ slot₁ = slot' := by
    simpa using hsettle.trans hdrop
  rw [drop_zero] at hbs
  subst hbs
  obtain ⟨hmb, hlinks, hsame, hcache, hrte⟩ := Drop.settle_same hholds₂.next
  have hset : d₂.settle = (mem₁, sb₁, slot₁) := (Option.some.inj hsettle).symm
  rw [hset] at hmb hlinks hsame hcache hrte
  -- the chain that the loops leave is the one that the buffer holds
  have hws : ws = zs := by
    have hlinked := hholds₂.linked
    rw [← hmb, ← hlinks] at hlinked
    exact hlinked.unique hrep'.linked
  subst hws
  refine ⟨ws, hrep', hcar₂.relink hsame hcache hrte rfl, fun z hz => ?_⟩
  refine .of_mbuf (hdropped.other z fun hmem => ?_) hdropped.rte
  exact (nodup_append.mp hcar.ledger.nodup).2.2 z hmem z hz rfl

end NetbsdDpdk
