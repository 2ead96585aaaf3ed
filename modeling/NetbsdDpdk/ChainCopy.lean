import NetbsdDpdk.SendBytes

/-! `m_copym` and `m_copydata` of any chain of mbufs (`uipc_mbuf.c`): the packet buffers of the
chain may be clones themselves, and the pools may run out at any mbuf of the copy. -/

namespace NetbsdDpdk

open List Option MbufMem

variable {k n : Nat}

theorem take_drop_append {α : Type*} (as bs : List α) {off len count : Nat} (hoff : off ≤ as.length)
    (hcount : count = min (as.length - off) len) :
    (as.drop off).take count ++ bs.take (len - count) = ((as ++ bs).drop off).take len := by
  rw [drop_append_of_le_length hoff, take_append, length_drop]
  by_cases hfull : len ≤ as.length - off
  · rw [show count = len by omega, Nat.sub_self, Nat.sub_eq_zero_of_le hfull]
  · have hwhole : (as.drop off).length ≤ count := by rw [length_drop]; omega
    have hwhole' : (as.drop off).length ≤ len := by rw [length_drop]; omega
    rw [take_of_length_le hwhole, take_of_length_le hwhole', show count = as.length - off by omega]

namespace CloneMem

variable {m m' : CloneMem k n} {x y : Fin k} {xs zs rest : List (Fin k)} {p : Option (Fin k)}
  {off len fuel pool : Nat}

/-- The mbufs `xs` can be copied from: none has external storage, and each has its data in a packet
buffer of one segment that is in use. No mbuf or packet buffer is in its pool twice. -/
structure Copyable (m : CloneMem k n) (xs : List (Fin k)) : Prop where
  used : ∀ x ∈ xs, x ∉ m.mem.mbCache
  ext : ∀ x ∈ xs, (m.mem.mbuf x).mExtSize = none
  paddr : ∀ x ∈ xs, ∃ p, (m.mem.mbuf x).mPaddr = some p ∧ m.mem.rte.next p = none ∧
    p ∉ m.freeCells ∧ m.owner p ∉ m.freeCells
  room : ∀ x ∈ xs, 0 ≤ (m.mem.mbuf x).mData ∧
    (m.mem.mbuf x).mData + (m.mem.mbuf x).mLen ≤ mbufSize
  cache : m.mem.mbCache.Nodup
  pool : m.freeCells.Nodup
  count : k ≤ stackMbufsCount

namespace Copyable

theorem dataBuffer (h : Copyable m xs) : ∀ x ∈ xs, ∃ d, m.dataBuffer x = some d := by
  intro x hx
  obtain ⟨p, hp, -⟩ := h.paddr x hx
  exact ⟨m.owner p, by simp [CloneMem.dataBuffer, hp, owner]⟩

theorem lenOf_lt (h : Copyable m xs) (hlink : LinkedFrom m.mem.mNext p xs) :
    m.mem.lenOf xs < mCopyall :=
  m.mem.lenOf_lt_mCopyall h.count hlink.nodup h.room

end Copyable

/-! `m_copydata`. -/

theorem readAt_eq {count : Nat} (hbuf : ∃ d, m.dataBuffer x = some d)
    (hstart : 0 ≤ (m.mem.mbuf x).mData) (hcount : off + count ≤ (m.mem.mbuf x).mLen) :
    m.readAt x off count = some (((m.mbufData x).drop off).take count) := by
  obtain ⟨d, hd⟩ := hbuf
  have hoff : ((m.mem.mbuf x).mData + off).toNat = (m.mem.mbuf x).mData.toNat + off := by omega
  obtain ⟨r, hr⟩ : ∃ r, (m.mem.mbuf x).mLen = off + (count + r) :=
    ⟨(m.mem.mbuf x).mLen - (off + count), by omega⟩
  simp only [readAt, mbufData, hd, hoff, hr, bytesAt_add]
  rw [drop_left' (by simp [bytesAt]), take_left' (by simp [bytesAt])]

theorem copydataLoop_eq (hlink : LinkedFrom m.mem.mNext p xs)
    (hbuf : ∀ x ∈ xs, ∃ d, m.dataBuffer x = some d) (hstart : ∀ x ∈ xs, 0 ≤ (m.mem.mbuf x).mData)
    (hoff : ∀ x ∈ xs.head?, off ≤ (m.mem.mbuf x).mLen) (hlen : off + len ≤ m.mem.lenOf xs)
    (hfuel : xs.length ≤ fuel) :
    m.copydataLoop fuel p off len = some (((m.chainData xs).drop off).take len) := by
  induction xs generalizing p off len fuel with
  | nil =>
    obtain rfl : len = 0 := by simp at hlen; omega
    cases fuel <;> simp [copydataLoop]
  | cons x xs ih =>
    cases len with
    | zero => cases fuel <;> simp [copydataLoop]
    | succ len =>
      obtain ⟨rfl, hrest⟩ := hlink
      obtain ⟨fuel, rfl, hf⟩ := exists_fuel hfuel
      have hx := hoff x (by simp)
      obtain ⟨d, hd⟩ := hbuf x (by simp)
      have hDlen := CopyLoop.length_mbufData hd
      rw [lenOf_cons] at hlen
      obtain ⟨count, hcount⟩ : ∃ c, min ((m.mem.mbuf x).mLen - off) (len + 1) = c := ⟨_, rfl⟩
      have hread : m.readAt x off count = _ := readAt_eq ⟨d, hd⟩ (hstart x (by simp)) (by omega)
      have hloop : m.copydataLoop fuel (m.mem.mNext x) 0 (len + 1 - count) = _ := ih hrest
        (fun z hz => hbuf z (.tail _ hz)) (fun z hz => hstart z (.tail _ hz))
        (fun z _ => Nat.zero_le _) (by omega) hf
      rw [copydataLoop, hcount, hread, bind_some, hloop, map_some, chainData_cons,
        drop_zero, take_drop_append _ _ (by omega) (by rw [hDlen, hcount])]

theorem mCopydata_eq (hlink : LinkedFrom m.mem.mNext p xs)
    (hbuf : ∀ x ∈ xs, ∃ d, m.dataBuffer x = some d) (hstart : ∀ x ∈ xs, 0 ≤ (m.mem.mbuf x).mData)
    (hlen : off + len ≤ m.mem.lenOf xs) :
    m.mCopydata p off len = some (((m.chainData xs).drop off).take len) := by
  have hcard : xs.length ≤ k := by simpa using hlink.length_le
  obtain ⟨rest, off', hskip, hsuf, hlink', hin, hrestLen, hbytes⟩ :=
    skipOff_spec hlink hbuf (show off ≤ m.mem.lenOf xs by omega) hcard
  have hsub : ∀ z ∈ rest, z ∈ xs := fun z hz => hsuf.subset hz
  have hloop := copydataLoop_eq hlink' (fun z hz => hbuf z (hsub z hz))
    (fun z hz => hstart z (hsub z hz)) hin (show off' + len ≤ m.mem.lenOf rest by omega)
    (hsuf.length_le.trans hcard)
  rw [mCopydata, hskip, bind_some, hloop, hbytes]

/-! One mbuf more in the copy. -/

structure Taken (m : CloneMem k n) (zs : List (Fin k)) (m' : CloneMem k n) : Prop where
  cache : m.mem.mbCache = zs ++ m'.mem.mbCache
  other : ∀ z, z ∉ zs → m'.mem.mbuf z = m.mem.mbuf z
  header : ∀ z ∈ zs, (m'.mem.mbuf z).mPkthdr = false
  pool : m.freeCells.Perm (m'.paddrs zs ++ m'.freeCells)
  clone : ∀ z ∈ zs, ∀ c, (m'.mem.mbuf z).mPaddr = some c → (m'.mem.rte.cell c).refcnt = 1 ∧
    m'.mem.rte.next c = none ∧ ∃ d, m'.attached c = some d ∧ d ∉ m.freeCells
  attached : ∀ c, c ∉ m.freeCells → m'.attached c = m.attached c
  next : ∀ c, c ∉ m.freeCells → m'.mem.rte.next c = m.mem.rte.next c
  buf : ∀ c, (m'.mem.rte.cell c).buf = (m.mem.rte.cell c).buf

structure GotIndirect (m : CloneMem k n) (pool : Nat) (md : Fin n) (y : Fin k) (m' : CloneMem k n) :
    Prop where
  other : ∀ z, z ≠ y → m'.mem.mbuf z = m.mem.mbuf z
  cache : m.mem.mbCache = y :: m'.mem.mbCache
  next : m'.mem.mNext y = none
  header : (m'.mem.mbuf y).mPkthdr = false
  free : m.freeCells.Nodup →
    m.freeCells.Perm ((m'.mem.mbuf y).mPaddr.toList ++ m'.freeCells)
  clone : ∀ c, (m'.mem.mbuf y).mPaddr = some c → (m'.mem.rte.cell c).refcnt = 1 ∧
    m'.mem.rte.next c = none ∧ m'.attached c = some (m.owner md)
  attached : ∀ c, (m'.mem.mbuf y).mPaddr ≠ some c → m'.attached c = m.attached c
  cells : ∀ c, (m'.mem.mbuf y).mPaddr ≠ some c → c ≠ md → m'.mem.rte.cell c = m.mem.rte.cell c
  segment : m'.mem.rte.next md = m.mem.rte.next md
  got : 0 < m.mem.rte.available pool → (m'.mem.mbuf y).mPaddr ≠ none
  available : m.mem.rte.available pool ≤ m'.mem.rte.available pool + 1
  missing : (m'.mem.mbuf y).mPaddr = none → m'.mem.rte = m.mem.rte
  refcnt : (m'.mem.mbuf y).mPaddr ≠ none →
    (m'.mem.rte.cell md).refcnt = ((m.mem.rte.cell md).refcnt + 1) % 65536
  entries : m'.mem.rte.mempool ⊆ m.mem.rte.mempool
  home : ∀ c, (m'.mem.rte.cell c).pool = (m.mem.rte.cell c).pool
  buf : ∀ c, (m'.mem.rte.cell c).buf = (m.mem.rte.cell c).buf

theorem mGetIndirect_eq (pool : Nat) {md : Fin n} {mbCache : List (Fin k)} (type : MbufType)
    (hcache : m.mem.mbCache = y :: mbCache) (hnext : m.mem.rte.next md = none)
    (hmd : md ∉ m.freeCells) :
    ∃ m', m.mGetIndirect pool md type = some (some y, m') ∧
      GotIndirect m pool md y m' := by
  cases hfind : m.mem.rte.mempool.find? fun e => e.1 == pool with
  | none =>
    have halloc : m.mem.rte.pktmbufAlloc pool = none := by simp [Memory.pktmbufAlloc, hfind]
    refine ⟨{ m with mem := { m.mem with mbCache }.modify y fun b =>
      { mType := type, mLen := b.mLen, mPktLen := b.mPktLen } },
      by simp [mGetIndirect, hcache, pktmbufClone, halloc], ?_⟩
    constructor
    · intro z hz
      simp [modify_mbuf_of_ne _ _ hz]
    · exact hcache
    · simp [mNext]
    · simp
    · intro _
      simp [freeCells]
    · simp
    · simp
    · simp
    · simp [Memory.next]
    · intro havail
      obtain ⟨e, he, -⟩ := Memory.exists_of_available havail
      rw [hfind] at he
      cases he
    · exact Nat.le_succ _
    · exact fun _ => rfl
    · simp
    · exact List.Subset.refl _
    · exact fun _ => rfl
    · exact fun _ => rfl
  | some e =>
    obtain ⟨pl, mc⟩ := e
    obtain ⟨m₁, hclone, hcl, hpool⟩ := pktmbufClone_some
      (m := { m with mem := { m.mem with mbCache } }) hfind hnext hmd
    refine ⟨{ m₁ with mem := m₁.mem.modify y fun b =>
      { mType := type, mLen := b.mLen, mPaddr := some mc, mPktLen := b.mPktLen } },
      by simp [mGetIndirect, hcache, hclone], ?_⟩
    have hmem : (pl, mc) ∈ m.mem.rte.mempool := mem_of_find?_eq_some hfind
    constructor
    · intro z hz
      simp only [modify_mbuf_of_ne _ _ hz]
      exact congrFun hcl.mbuf z
    · show m.mem.mbCache = y :: m₁.mem.mbCache
      rw [hcl.mbCache, hcache]
    · simp [mNext]
    · simp
    · intro _
      have hperm := (perm_cons_erase hmem).map Prod.snd
      simpa [freeCells, hpool] using hperm
    · simp [hcl.clone, hcl.attached, hcl.last, owner]
    · intro c hc
      have hne : c ≠ mc := by simpa [eq_comm] using hc
      simp [hcl.attached, Function.update_of_ne hne]
    · intro c hc hcmd
      have hne : c ≠ mc := by simpa [eq_comm] using hc
      exact hcl.other c hne hcmd
    · exact hcl.data.2
    · simp
    · have hcount := (perm_cons_erase hmem).countP_eq fun e => e.1 == pool
      rw [countP_cons] at hcount
      show m.mem.rte.available pool ≤ m₁.mem.rte.available pool + 1
      rw [Memory.available, Memory.available, hpool, hcount]
      show _ + (if _ then 1 else 0) ≤ _ + 1
      split
      · exact Nat.le_refl _
      · exact Nat.le_succ _
    · simp
    · exact fun _ => hcl.data.1
    · show m₁.mem.rte.mempool ⊆ _
      rw [hpool]
      exact erase_subset
    · exact hcl.home
    · exact hcl.buf

structure Copying (m : CloneMem k n) (l : CopyLoop k n) (zs : List (Fin k)) (bytes : List UInt8) :
    Prop where
  taken : Taken m zs l.m
  top : l.top = zs.head?
  np : l.np = zs.getLast?
  linked : LinkedFrom l.m.mem.mNext zs.head? zs
  cloned : (∀ z ∈ zs, (l.m.mem.mbuf z).mPaddr ≠ none) → l.cloned = true
  readable : l.cloned = true → ∀ z ∈ zs, (∃ d, l.m.dataBuffer z = some d) ∧
    0 ≤ (l.m.mem.mbuf z).mData
  whole : l.cloned = true → l.m.chainData zs = bytes

section Place

variable {l : CopyLoop k n} {m₁ : CloneMem k n} {bytes : List UInt8} {md : Fin n}
  {pool off count : Nat}

theorem Taken.clone_ne (h : Taken m zs m') (hsrc : Copyable m xs)
    (hgot : GotIndirect m' pool md y m₁)
    {z : Fin k} {c : Fin n} (hz : z ∈ zs) (hc : (m'.mem.mbuf z).mPaddr = some c) :
    (m₁.mem.mbuf y).mPaddr ≠ some c := by
  intro heq
  have hnd := h.pool.nodup_iff.mp hsrc.pool
  have hgotpool := hgot.free (nodup_append'.mp hnd).2.1
  have hfree : c ∈ m'.freeCells := hgotpool.mem_iff.mpr (by simp [heq])
  exact (nodup_append'.mp hnd).2.2 (mem_paddrs hz hc) hfree

theorem Taken.new_notMem (h : Taken m zs m') (hsrc : Copyable m xs)
    (hgot : GotIndirect m' pool md y m₁) :
    y ∉ zs := by
  have hnd := hsrc.cache
  rw [h.cache, hgot.cache] at hnd
  exact fun hmem => (nodup_append'.mp hnd).2.2 hmem (by simp)

theorem place_mPaddr (off count : Nat) (l : CopyLoop k n) (b : Mbuf k n) (hy : l.np ≠ some y)
    (z : Fin k) :
    ((l.place y b off count).m.mem.mbuf z).mPaddr = (l.m.mem.mbuf z).mPaddr := by
  by_cases hz : z = y
  · rw [hz, CopyLoop.place_mbuf_self _ _ _ _ hy]
  · rw [CopyLoop.place_mbuf _ _ _ _ hz]

theorem paddrs_place (off count : Nat) (l : CopyLoop k n) (b : Mbuf k n) (hnp : l.np ≠ some y)
    (hy : y ∉ zs) (hgot : GotIndirect l.m pool md y m₁) :
    ({ l with m := m₁ }.place y b off count).m.paddrs (zs ++ [y]) =
      l.m.paddrs zs ++ (m₁.mem.mbuf y).mPaddr.toList := by
  have hpaddr := place_mPaddr off count { l with m := m₁ } b hnp
  rw [paddrs, filterMap_append, filterMap_congr fun z hz => (hpaddr z).trans
    (by rw [hgot.other z (ne_of_mem_of_not_mem hz hy)])]
  congr 1
  cases hp : (m₁.mem.mbuf y).mPaddr <;> simp [hpaddr, hp]

theorem Taken.place (off count : Nat) (h : Taken m zs l.m) (hsrc : Copyable m xs) (hx : x ∈ xs)
    (hmd : (m.mem.mbuf x).mPaddr = some md) (hnp : ∀ z, l.np = some z → z ∈ zs)
    (hgot : GotIndirect l.m pool md y m₁) :
    Taken m (zs ++ [y]) ({ l with m := m₁ }.place y (l.m.mem.mbuf x) off count).m := by
  obtain ⟨p, hp, -, hpfree, hofree⟩ := hsrc.paddr x hx
  obtain rfl : p = md := by simpa [hmd] using hp.symm
  have hcache : m.mem.mbCache = zs ++ y :: m₁.mem.mbCache := by rw [h.cache, hgot.cache]
  have hy := h.new_notMem hsrc hgot
  have hnpy : l.np ≠ some y := fun hnpy => hy (hnp y hnpy)
  have hpaddr := place_mPaddr off count { l with m := m₁ } (l.m.mem.mbuf x) hnpy
  have hpaddrs := paddrs_place off count l (l.m.mem.mbuf x) hnpy hy hgot
  obtain ⟨l', hl'⟩ : ∃ l', { l with m := m₁ }.place y (l.m.mem.mbuf x) off count = l' := ⟨_, rfl⟩
  obtain ⟨hrte, hcache', hatt, -⟩ :=
    CopyLoop.place_kept { l with m := m₁ } y (l.m.mem.mbuf x) off count
  have hother : ∀ z, z ≠ y → l'.m.mem.mbuf z = { m₁.mem.mbuf z with
      mNext := if l.np = some z then some y else m₁.mem.mNext z } := by
    intro z hz
    rw [← hl', CopyLoop.place_mbuf _ _ _ _ hz]
  have hself : (l'.m.mem.mbuf y).mPkthdr = (m₁.mem.mbuf y).mPkthdr := by
    rw [← hl', CopyLoop.place_mbuf_self { l with m := m₁ } _ _ _ hnpy]
  rw [hl'] at hrte hcache' hatt hpaddr hpaddrs ⊢
  have hfree : l'.m.freeCells = m₁.freeCells := by rw [freeCells, hrte]; rfl
  have hnd₀ := h.pool.nodup_iff.mp hsrc.pool
  have hgotpool := hgot.free (nodup_append'.mp hnd₀).2.1
  have hsub : ∀ c ∈ l.m.freeCells, c ∈ m.freeCells := fun c hc =>
    h.pool.mem_iff.mpr (mem_append_right _ hc)
  have hynew : ∀ c, (m₁.mem.mbuf y).mPaddr = some c → c ∈ l.m.freeCells := fun c hc =>
    hgotpool.mem_iff.mpr (by simp [hc])
  have hkept : ∀ c, c ∉ m.freeCells → (m₁.mem.mbuf y).mPaddr ≠ some c := fun c hc heq =>
    hc (hsub c (hynew c heq))
  have hold : ∀ z ∈ zs, (m₁.mem.mbuf z).mPaddr = (l.m.mem.mbuf z).mPaddr := fun z hz => by
    rw [hgot.other z (ne_of_mem_of_not_mem hz hy)]
  refine ⟨?_, ?_, ?_, ?_, ?_, ?_, ?_, ?_⟩
  · rw [hcache', hcache, append_assoc]
    rfl
  · intro z hz
    obtain ⟨hzs, hzy⟩ : z ∉ zs ∧ z ≠ y := by simpa using hz
    rw [hother z hzy, if_neg fun hnpz => hzs (hnp z hnpz), MbufMem.mNext, hgot.other z hzy,
      h.other z hzs]
  · intro z hz
    rcases mem_append.mp hz with hz | hz
    · have hzy := ne_of_mem_of_not_mem hz hy
      rw [hother z hzy, hgot.other z hzy]
      exact h.header z hz
    · obtain rfl : z = y := by simpa using hz
      rw [hself, hgot.header]
  · rw [hpaddrs, hfree, append_assoc]
    exact h.pool.trans (hgotpool.append_left _)
  · intro z hz c hc
    rw [hpaddr] at hc
    rw [hrte, hatt]
    rcases mem_append.mp hz with hz | hz
    · rw [hold z hz] at hc
      obtain ⟨hone, hlast, d, hd, hdfree⟩ := h.clone z hz c hc
      have hcmem : c ∈ l.m.paddrs zs := mem_paddrs hz hc
      have hcy := h.clone_ne hsrc hgot hz hc
      have hcmd : c ≠ p := fun heq =>
        hpfree (heq ▸ h.pool.mem_iff.mpr (mem_append_left _ hcmem))
      refine ⟨?_, ?_, d, (hgot.attached c hcy).trans hd, hdfree⟩
      · show (m₁.mem.rte.cell c).refcnt = 1
        rw [hgot.cells c hcy hcmd, hone]
      · show m₁.mem.rte.next c = none
        rw [Memory.next, hgot.cells c hcy hcmd, ← Memory.next, hlast]
    · obtain rfl : z = y := by simpa using hz
      obtain ⟨hone, hlast, hown⟩ := hgot.clone c hc
      refine ⟨hone, hlast, l.m.owner p, hown, ?_⟩
      rw [owner, h.attached p hpfree]
      exact hofree
  · intro c hc
    rw [hatt]
    exact (hgot.attached c (hkept c hc)).trans (h.attached c hc)
  · intro c hc
    rw [hrte, ← h.next c hc]
    by_cases hcmd : c = p
    · rw [hcmd]
      exact hgot.segment
    · show m₁.mem.rte.next c = l.m.mem.rte.next c
      rw [Memory.next, hgot.cells c (hkept c hc) hcmd]
      rfl
  · intro c
    rw [hrte, ← h.buf c]
    exact hgot.buf c

theorem Taken.keeps (h : Taken m zs m') (hsrc : Copyable m xs) (hx : x ∈ xs) : Keeps m m' x := by
  have hout : x ∉ zs := fun hmem => hsrc.used x hx (by rw [h.cache]; exact mem_append_left _ hmem)
  have hmbuf := h.other x hout
  obtain ⟨p, hp, -, hfree, -⟩ := hsrc.paddr x hx
  refine ⟨hmbuf, dataBuffer_congr (by rw [hmbuf]) fun q hq => ?_, h.buf⟩
  obtain rfl : p = q := by simpa [hp] using hq
  exact h.attached p hfree

structure PlacedAt (m : CloneMem k n) (l : CopyLoop k n) (zs : List (Fin k)) (x y : Fin k)
    (off count : Nat) (m₁ : CloneMem k n) (l' : CopyLoop k n) : Prop where
  new : y ∉ zs
  other : ∀ z ∈ zs, l'.m.mem.mbuf z = { l.m.mem.mbuf z with
    mNext := if l.np = some z then some y else l.m.mem.mNext z }
  held : ∀ z ∈ zs, l'.m.dataBuffer z = l.m.dataBuffer z
  self : l'.m.mem.mbuf y = { m₁.mem.mbuf y with
    mLen := count, mData := (m.mem.mbuf x).mData + off }
  shared : (m₁.mem.mbuf y).mPaddr ≠ none → l'.m.dataBuffer y = m.dataBuffer x
  rte : l'.m.mem.rte = m₁.mem.rte

theorem Copying.placedAt (h : Copying m l zs bytes) (hsrc : Copyable m xs) (hx : x ∈ xs)
    (hmd : (m.mem.mbuf x).mPaddr = some md) (hgot : GotIndirect l.m pool md y m₁)
    (off count : Nat) : PlacedAt m l zs x y off count m₁
      ({ l with m := m₁ }.place y (l.m.mem.mbuf x) off count) := by
  have hxkeep := h.taken.keeps hsrc hx
  have hy := h.taken.new_notMem hsrc hgot
  have hnpy : l.np ≠ some y := fun hnpy => hy (mem_of_getLast? (h.np.symm.trans hnpy))
  obtain ⟨hrte, -, hatt, -⟩ :=
    CopyLoop.place_kept { l with m := m₁ } y (l.m.mem.mbuf x) off count
  have hself := CopyLoop.place_mbuf_self { l with m := m₁ } (l.m.mem.mbuf x) off count hnpy
  have hother : ∀ z ∈ zs, ({ l with m := m₁ }.place y (l.m.mem.mbuf x) off count).m.mem.mbuf z =
      { l.m.mem.mbuf z with mNext := if l.np = some z then some y else l.m.mem.mNext z } := by
    intro z hz
    have hzy := ne_of_mem_of_not_mem hz hy
    rw [CopyLoop.place_mbuf _ _ _ _ hzy, MbufMem.mNext, hgot.other z hzy]
    rfl
  refine ⟨hy, hother, fun z hz => ?_, by rw [hself, hxkeep.mbuf], fun hsome => ?_, hrte⟩
  · refine dataBuffer_congr (by rw [hother z hz]) fun c hc => ?_
    rw [hatt]
    exact hgot.attached c (h.taken.clone_ne hsrc hgot hz hc)
  · obtain ⟨c, hc⟩ := ne_none_iff_exists'.mp hsome
    rw [← hxkeep.buffer]
    have hmdx : (l.m.mem.mbuf x).mPaddr = some md := by rw [hxkeep.mbuf, hmd]
    simp only [dataBuffer, hself, hc, hatt, (hgot.clone c hc).2.2, hmdx, map_some, getD_some, owner]

theorem Copying.place (h : Copying m l zs bytes) (hsrc : Copyable m xs) (hx : x ∈ xs)
    (hmd : (m.mem.mbuf x).mPaddr = some md) (hgot : GotIndirect l.m pool md y m₁)
    (hcount : off + count ≤ (m.mem.mbuf x).mLen) :
    Copying m ({ l with m := m₁ }.place y (l.m.mem.mbuf x) off count) (zs ++ [y])
      (bytes ++ ((m.mbufData x).drop off).take count) := by
  have hnp : ∀ z, l.np = some z → z ∈ zs := fun z hz =>
    mem_of_getLast? (h.np.symm.trans hz)
  have htaken := h.taken.place off count hsrc hx hmd hnp hgot
  obtain ⟨hy, hother, hold, hself, hnew, hrte⟩ := h.placedAt hsrc hx hmd hgot off count
  obtain ⟨l', hl'⟩ : ∃ l', { l with m := m₁ }.place y (l.m.mem.mbuf x) off count = l' := ⟨_, rfl⟩
  have htop : l'.top = if l.np = none then some y else l.top := by
    rw [← hl']
    exact (CopyLoop.place_kept { l with m := m₁ } y (l.m.mem.mbuf x) off count).2.2.2
  have hcl : l'.cloned = (l.cloned && (m₁.mem.mbuf y).mPaddr.isSome) := by rw [← hl']; rfl
  have hlast : l'.np = some y := by rw [← hl']; rfl
  rw [hl'] at hother hold hself hnew hrte htaken ⊢
  have hshown : l'.cloned = true → l'.m.dataBuffer y = m.dataBuffer x := by
    intro hcloned
    rw [hcl, Bool.and_eq_true] at hcloned
    exact hnew (isSome_iff_ne_none.mp hcloned.2)
  have hbuf : ∀ c, (l'.m.mem.rte.cell c).buf = (l.m.mem.rte.cell c).buf := by
    intro c
    rw [hrte]
    exact hgot.buf c
  obtain ⟨hstart, -⟩ := hsrc.room x hx
  refine ⟨htaken, ?_, ?_, ?_, ?_, ?_, ?_⟩
  · rw [htop, h.np, h.top]
    cases zs <;> simp
  · rw [hlast]
    simp
  · have hnexty : l'.m.mem.mNext y = none := by
      rw [mNext, hself]
      exact hgot.next
    rcases eq_nil_or_concat' zs with rfl | ⟨ws, w, rfl⟩
    · exact ⟨rfl, hnexty⟩
    · have hnpw : l.np = some w := by simpa using h.np
      have hlinked := h.linked
      rw [head?_append_of_ne_nil _ (by simp)]
      refine hlinked.snoc ?_ hnexty fun z hz => ?_
      · rw [mNext, hother w (by simp), if_pos hnpw]
      · have hzw : z ≠ w := by
          rintro rfl
          have hdis := (nodup_append'.mp hlinked.nodup).2.2
          exact hdis hz (by simp)
        rw [mNext, hother z (by simp [hz]), if_neg (by simpa [hnpw] using Ne.symm hzw)]
  · intro hall
    rw [hcl, Bool.and_eq_true]
    refine ⟨h.cloned fun z hz => ?_, ?_⟩
    · have hz' := hall z (mem_append_left _ hz)
      rwa [hother z hz] at hz'
    · have hy' := hall y (by simp)
      rw [hself] at hy'
      exact isSome_iff_ne_none.mpr hy'
  · intro hcloned z hz
    have hcloned' := hcloned
    rw [hcl, Bool.and_eq_true] at hcloned'
    rcases mem_append.mp hz with hz | hz
    · obtain ⟨hd, hpos⟩ := h.readable hcloned'.1 z hz
      rw [hold z hz, hother z hz]
      exact ⟨hd, hpos⟩
    · obtain rfl : z = y := by simpa using hz
      rw [hshown hcloned, hself]
      exact ⟨hsrc.dataBuffer x hx, by simp only; omega⟩
  · intro hcloned
    have hcloned' := hcloned
    rw [hcl, Bool.and_eq_true] at hcloned'
    have hzs : l'.m.chainData zs = l.m.chainData zs := chainData_congr fun z hz =>
      mbufData_congr (by rw [hother z hz]) (by rw [hother z hz]) (hold z hz) hbuf
    rw [chainData_append, hzs, h.whole hcloned'.1]
    congr 1
    obtain ⟨d, hd⟩ := hsrc.dataBuffer x hx
    have hread := readAt_eq ⟨d, hd⟩ hstart hcount
    simp only [readAt, hd, Option.some.injEq] at hread
    rw [chainData_cons, chainData_nil, append_nil, mbufData, hshown hcloned, hself, hd, ← hread]
    simp only [hbuf, h.taken.buf]

end Place

/-! The exit for a failed allocation. -/

structure Returning (m : CloneMem k n) (zs : List (Fin k)) (m' : CloneMem k n) : Prop where
  cache : m.mem.mbCache.Perm (zs ++ m'.mem.mbCache)
  other : ∀ z, z ∉ m.mem.mbCache → m'.mem.mbuf z = m.mem.mbuf z
  pool : m.freeCells.Subperm (m'.paddrs zs ++ m'.freeCells)
  cells : (m'.paddrs zs).Nodup
  taken : ∀ c ∈ m'.paddrs zs, c ∈ m.freeCells
  clone : ∀ c ∈ m'.paddrs zs, (m'.mem.rte.cell c).refcnt = 1 ∧
    ∃ d, m'.attached c = some d ∧ d ∉ m.freeCells
  attached : ∀ c, c ∉ m.freeCells → m'.attached c = m.attached c
  buf : ∀ c, (m'.mem.rte.cell c).buf = (m.mem.rte.cell c).buf

theorem Taken.returning (h : Taken m zs m') (hsrc : Copyable m xs) : Returning m zs m' where
  cache := by rw [h.cache]
  other z hz := h.other z fun hmem => hz (by rw [h.cache]; exact mem_append_left _ hmem)
  pool := h.pool.subperm
  cells := (nodup_append'.mp (h.pool.nodup_iff.mp hsrc.pool)).1
  taken c hc := h.pool.mem_iff.mpr (mem_append_left _ hc)
  clone c hc := by
    obtain ⟨z, hz, hzc⟩ := mem_filterMap.mp hc
    obtain ⟨hone, -, hd⟩ := h.clone z hz c hzc
    exact ⟨hone, hd⟩
  attached := h.attached
  buf := h.buf

namespace Returning

theorem keeps (h : Returning m zs m') (hsrc : Copyable m xs) (hx : x ∈ xs) : Keeps m m' x := by
  have hmbuf := h.other x (hsrc.used x hx)
  obtain ⟨p, hp, -, hfree, -⟩ := hsrc.paddr x hx
  refine ⟨hmbuf, dataBuffer_congr (by rw [hmbuf]) fun q hq => ?_, h.buf⟩
  obtain rfl : p = q := by simpa [hp] using hq
  exact h.attached p hfree

theorem mFree_none (h : Returning m (y :: zs) m') (hy : (m'.mem.mbuf y).mPaddr = none) :
    Returning m zs (m'.mFree y).1 := by
  have hpaddrs : m'.paddrs (y :: zs) = m'.paddrs zs := by simp [paddrs, hy]
  have hfree : (m'.mFree y).1 =
      { m' with mem := { m'.mem with mbCache := y :: m'.mem.mbCache } } := by simp [mFree, hy]
  rw [hfree]
  exact ⟨h.cache.trans perm_middle.symm, h.other, hpaddrs ▸ h.pool, hpaddrs ▸ h.cells,
    fun c hc => h.taken c (hpaddrs ▸ hc), fun c hc => h.clone c (hpaddrs ▸ hc), h.attached, h.buf⟩

theorem mFree_some {c : Fin n} (h : Returning m (y :: zs) m') (hnd : m.mem.mbCache.Nodup)
    (hy : (m'.mem.mbuf y).mPaddr = some c) : Returning m zs (m'.mFree y).1 := by
  have hpaddrs : m'.paddrs (y :: zs) = c :: m'.paddrs zs := paddrs_cons hy
  obtain ⟨hone, d, hd, hdfree⟩ := h.clone c (by simp [hpaddrs])
  have hcfree : c ∈ m.freeCells := h.taken c (by simp [hpaddrs])
  have hcd : c ≠ d := fun heq => hdfree (heq ▸ hcfree)
  obtain ⟨hcout, hcells⟩ := nodup_cons.mp (hpaddrs ▸ h.cells)
  have hycache : y ∈ m.mem.mbCache := h.cache.mem_iff.mpr (by simp)
  have hyzs : y ∉ zs := by
    have hall := h.cache.nodup_iff.mp hnd
    rw [cons_append] at hall
    exact fun hmem => (nodup_cons.mp hall).1 (mem_append_left _ hmem)
  obtain ⟨-, hother, -, hpool⟩ := freeSeg_attached hone hd hcd
  have hrte : (m'.mFree y).1.mem.rte = (m'.freeSeg c).mem.rte := by simp [mFree, hy]
  have hatt : ∀ e, e ≠ c → (m'.mFree y).1.attached e = m'.attached e := fun e he =>
    mFree_attached m' (by simpa [hy] using Ne.symm he)
  have hpaddrs' : (m'.mFree y).1.paddrs zs = m'.paddrs zs := filterMap_congr fun z hz => by
    rw [mFree_mbuf_of_ne m' (ne_of_mem_of_not_mem hz hyzs)]
  have hfree : (c :: m'.freeCells).Sublist (m'.mFree y).1.freeCells := by
    rw [freeCells, freeCells, hrte, hpool, map_cons]
    split
    · exact .cons_cons c (sublist_cons_self _ _)
    · exact List.Sublist.refl _
  refine ⟨?_, ?_, ?_, by rw [hpaddrs']; exact hcells, ?_, ?_, ?_, ?_⟩
  · rw [mFree_mbCache]
    exact h.cache.trans perm_middle.symm
  · intro z hz
    rw [mFree_mbuf_of_ne m' (ne_of_mem_of_not_mem hycache hz).symm, h.other z hz]
  · have hold := h.pool
    rw [hpaddrs, cons_append] at hold
    rw [hpaddrs']
    exact (hold.trans perm_middle.symm.subperm).trans
      ((List.Sublist.refl (m'.paddrs zs)).append hfree).subperm
  · intro e he
    rw [hpaddrs'] at he
    exact h.taken e (by simp [hpaddrs, he])
  · intro e he
    rw [hpaddrs'] at he
    have hec : e ≠ c := ne_of_mem_of_not_mem he hcout
    have hefree : e ∈ m.freeCells := h.taken e (by simp [hpaddrs, he])
    obtain ⟨hone', f, hf, hffree⟩ := h.clone e (by simp [hpaddrs, he])
    exact ⟨by rw [hrte, hother e hec fun heq => hdfree (heq ▸ hefree), hone'], f,
      by rw [hatt e hec, hf], hffree⟩
  · intro e he
    rw [hatt e fun heq => he (heq ▸ hcfree), h.attached e he]
  · intro e
    rw [mFree_buf, h.buf]

theorem mFreem (h : Returning m zs m') (hnd : m.mem.mbCache.Nodup)
    (hlink : LinkedFrom m'.mem.mNext p zs) (hfuel : zs.length ≤ fuel) :
    ∃ m'', mFreem fuel m' p = some m'' ∧ Returning m [] m'' := by
  induction zs generalizing m' p fuel with
  | nil =>
    cases hlink
    exact ⟨m', by cases fuel <;> rfl, h⟩
  | cons y zs ih =>
    obtain ⟨rfl, hrest⟩ := hlink
    obtain ⟨fuel, rfl, hf⟩ := exists_fuel hfuel
    have hfreed : Returning m zs (m'.mFree y).1 := by
      cases hy : (m'.mem.mbuf y).mPaddr with
      | none => exact h.mFree_none hy
      | some c => exact h.mFree_some hnd hy
    have hlink' : LinkedFrom (m'.mFree y).1.mem.mNext (m'.mem.mNext y) zs := by
      rw [mFree_mNext]
      exact hrest
    obtain ⟨m'', hfree, hdone⟩ := ih hfreed hlink' hf
    exact ⟨m'', hfree, hdone⟩

end Returning

/-! The whole copy. -/

def lenLeft (len count : Nat) : Nat := if len = mCopyall then len else len - count

/-- One mbuf for each of the source from the one with the byte at `off` to the one with the last
byte, empty ones too. -/
def copyCount (m : CloneMem k n) : List (Fin k) → Nat → Nat → Nat
  | [], _, _ => 0
  | x :: xs, off, len =>
    if len = 0 then 0
    else if 0 < off ∧ (m.mem.mbuf x).mLen ≤ off then m.copyCount xs (off - (m.mem.mbuf x).mLen) len
    else m.copyCount xs 0 (lenLeft len (min len ((m.mem.mbuf x).mLen - off))) + 1

@[simp] theorem copyCount_zero (m : CloneMem k n) (xs : List (Fin k)) (off : Nat) :
    m.copyCount xs off 0 = 0 := by
  cases xs <;> simp [copyCount]

theorem copyCount_le (m : CloneMem k n) (xs : List (Fin k)) (off len : Nat) :
    m.copyCount xs off len ≤ xs.length := by
  induction xs generalizing off len with
  | nil => simp [copyCount]
  | cons x xs ih =>
    rw [copyCount, length_cons]
    split_ifs
    · omega
    · exact (ih _ _).trans (Nat.le_succ _)
    · exact Nat.succ_le_succ (ih _ _)

theorem skipOff_lt {off' : Nat} {q : Option (Fin k)} (h : m.skipOff fuel p off = some (q, off')) :
    ∀ x ∈ q, off' = 0 ∨ off' < (m.mem.mbuf x).mLen := by
  induction fuel generalizing p off with
  | zero =>
    cases off with
    | zero =>
      obtain ⟨rfl, rfl⟩ : p = q ∧ 0 = off' := by simpa [skipOff] using h
      exact fun _ _ => .inl rfl
    | succ off => simp [skipOff] at h
  | succ fuel ih =>
    cases off with
    | zero =>
      obtain ⟨rfl, rfl⟩ : p = q ∧ 0 = off' := by simpa [skipOff] using h
      exact fun _ _ => .inl rfl
    | succ off =>
      cases p with
      | none => simp [skipOff] at h
      | some x =>
        rw [skipOff] at h
        split at h
        · obtain ⟨rfl, rfl⟩ : some x = q ∧ off + 1 = off' := by simpa using h
          intro z hz
          cases hz
          exact .inr ‹_›
        · exact ih h

theorem copyCount_skipOff {off' : Nat} {q : Option (Fin k)} (hlink : LinkedFrom m.mem.mNext p xs)
    (hskip : m.skipOff fuel p off = some (q, off')) (hrest : LinkedFrom m.mem.mNext q rest) :
    m.copyCount xs off len = m.copyCount rest off' len := by
  induction xs generalizing p off fuel with
  | nil =>
    cases hlink
    cases off with
    | zero =>
      obtain ⟨rfl, rfl⟩ : none = q ∧ 0 = off' := by cases fuel <;> simpa [skipOff] using hskip
      rw [hrest.unique (show LinkedFrom m.mem.mNext none [] from rfl)]
    | succ off => cases fuel <;> simp [skipOff] at hskip
  | cons x xs ih =>
    obtain ⟨rfl, hxs⟩ := hlink
    cases off with
    | zero =>
      obtain ⟨rfl, rfl⟩ : some x = q ∧ 0 = off' := by cases fuel <;> simpa [skipOff] using hskip
      rw [hrest.unique (show LinkedFrom m.mem.mNext (some x) (x :: xs) from ⟨rfl, hxs⟩)]
    | succ off =>
      cases fuel with
      | zero => simp [skipOff] at hskip
      | succ fuel =>
        rw [skipOff] at hskip
        split at hskip
        · obtain ⟨rfl, rfl⟩ : some x = q ∧ off + 1 = off' := by simpa using hskip
          rw [hrest.unique (show LinkedFrom m.mem.mNext (some x) (x :: xs) from ⟨rfl, hxs⟩)]
        · next hout =>
          have hskipped : 0 < off + 1 ∧ (m.mem.mbuf x).mLen ≤ off + 1 := by omega
          rw [← ih hxs hskip, copyCount]
          by_cases hzero : len = 0
          · simp [hzero]
          · rw [if_neg hzero, if_pos hskipped]

theorem Copying.store_none {l : CopyLoop k n} {bytes : List UInt8} (h : Copying m l zs bytes) :
    l.store none = l := by
  obtain ⟨lm, top, np, cloned⟩ := l
  have htop : top = zs.head? := h.top
  have hnp : np = zs.getLast? := h.np
  rcases eq_nil_or_concat' zs with rfl | ⟨ws, w, rfl⟩
  · subst htop hnp
    rfl
  · have hlast : lm.mem.mNext w = none := h.linked.append_cons
    have hmbuf : (lm.mem.mbuf w) = { lm.mem.mbuf w with mNext := none } := by
      rw [← hlast]
      rfl
    simp only [getLast?_append, getLast?_singleton, some_or] at hnp
    subst hnp
    simp only [CopyLoop.store, MbufMem.modify, ← hmbuf, Function.update_eq_self]

theorem take_lenLeft (as bs : List UInt8) (len : Nat) (hoff : off ≤ as.length)
    (hshort : as.length + bs.length < mCopyall) :
    (as.drop off).take (min len (as.length - off)) ++
      bs.take (lenLeft len (min len (as.length - off))) = ((as ++ bs).drop off).take len := by
  by_cases hall : len = mCopyall
  · have hfirst : min len (as.length - off) = as.length - off := by omega
    rw [lenLeft, if_pos hall, hfirst, take_of_length_le (by rw [length_drop]),
      take_of_length_le (by omega), take_of_length_le (by
        rw [length_drop, length_append]
        omega), drop_append_of_le_length hoff]
  · rw [lenLeft, if_neg hall]
    exact take_drop_append as bs hoff (min_comm _ _)

def KeptByRounds (m : CloneMem k n) (pool : Nat) (xs : List (Fin k))
    (P : List (Fin k) → CloneMem k n → Prop) : Prop :=
  ∀ (l : CopyLoop k n) (zs : List (Fin k)) (bytes : List UInt8) (x y : Fin k) (md : Fin n)
    (m₁ : CloneMem k n) (off count : Nat), Copying m l zs bytes → x ∈ xs →
    (m.mem.mbuf x).mPaddr = some md → off + count ≤ (m.mem.mbuf x).mLen →
    GotIndirect l.m pool md y m₁ → P zs l.m →
    P (zs ++ [y]) ({ l with m := m₁ }.place y (l.m.mem.mbuf x) off count).m

theorem KeptByRounds.and {P Q : List (Fin k) → CloneMem k n → Prop} (hP : KeptByRounds m pool xs P)
    (hQ : KeptByRounds m pool xs Q) :
    KeptByRounds m pool xs fun zs m' => P zs m' ∧ Q zs m' :=
  fun l zs bytes x y md m₁ off count hcopy hx hmd hwithin hgot hzs =>
    ⟨hP l zs bytes x y md m₁ off count hcopy hx hmd hwithin hgot hzs.1,
      hQ l zs bytes x y md m₁ off count hcopy hx hmd hwithin hgot hzs.2⟩

theorem keptByRounds_available (pool : Nat) (hsrc : Copyable m xs) :
    KeptByRounds m pool xs fun zs m' =>
      m.mem.rte.available pool ≤ m'.mem.rte.available pool + zs.length ∧
      (zs.length ≤ m.mem.rte.available pool → ∀ z ∈ zs, (m'.mem.mbuf z).mPaddr ≠ none) := by
  intro l zs bytes x y md m₁ off count hcopy hx hmd _ hgot hzs
  have hplaced := hcopy.placedAt hsrc hx hmd hgot off count
  have havail := hgot.available
  obtain ⟨hleft, hgotten⟩ := hzs
  rw [hplaced.rte, length_append, length_singleton]
  refine ⟨by omega, fun hlen z hz => ?_⟩
  rcases mem_append.mp hz with hz | hz
  · rw [hplaced.other z hz]
    exact hgotten (by omega) z hz
  · obtain rfl : z = y := by simpa using hz
    rw [hplaced.self]
    exact hgot.got (by omega)

theorem Copying.run {P : List (Fin k) → CloneMem k n → Prop} {l : CopyLoop k n} {bytes : List UInt8}
    (h : Copying m l zs bytes)
    (hP : KeptByRounds m pool xs P) (hzs : P zs l.m) (hsrc : Copyable m xs)
    (hsub : ∀ z ∈ rest, z ∈ xs) (hlink : LinkedFrom m.mem.mNext rest.head? rest)
    (hoff : ∀ x ∈ rest.head?, off = 0 ∨ off < (m.mem.mbuf x).mLen)
    (hlen : len = mCopyall ∨ off + len ≤ m.mem.lenOf rest) (hshort : m.mem.lenOf rest < mCopyall)
    (hfuel : rest.length ≤ fuel) :
    ∃ l' top cloned m', CopyLoop.run pool fuel l rest.head? off len = some (top, cloned, m') ∧
      (m.copyCount rest off len ≤ l.m.mem.mbCache.length →
        (top, cloned, m') = (l'.top, l'.cloned, l'.m) ∧
        ∃ zs', Copying m l' zs' (bytes ++ ((m.chainData rest).drop off).take len) ∧ P zs' l'.m ∧
          zs'.length = zs.length + m.copyCount rest off len) ∧
      (l.m.mem.mbCache.length < m.copyCount rest off len → top = none ∧
        ∃ zs' bytes', Copying m l' zs' bytes' ∧ P zs' l'.m ∧
          zs'.length < zs.length + m.copyCount rest off len ∧ mFreem k l'.m l'.top = some m') := by
  induction rest generalizing l zs bytes off len fuel with
  | nil =>
    have hstop : CopyLoop.run pool fuel l none off len = some (l.top, l.cloned, l.m) := by
      cases len with
      | zero => exact CopyLoop.run_zero ..
      | succ len =>
        have hall : len + 1 = mCopyall := by simpa using hlen
        cases fuel <;> simp [CopyLoop.run, hall]
    exact ⟨l, l.top, l.cloned, l.m, hstop, fun _ => ⟨rfl, zs, by simpa using h, hzs, rfl⟩,
      by simp [copyCount]⟩
  | cons x rest ih =>
    cases len with
    | zero =>
      exact ⟨l, l.top, l.cloned, l.m, CopyLoop.run_zero ..,
        fun _ => ⟨rfl, zs, by simpa using h, hzs, by simp⟩, by simp⟩
    | succ len =>
      have hx : x ∈ xs := hsub x (by simp)
      have hkeep := h.taken.keeps hsrc hx
      obtain ⟨md, hmd, hnext, hmdfree, -⟩ := hsrc.paddr x hx
      have hext := hsrc.ext x hx
      obtain ⟨fuel, rfl, hf⟩ := exists_fuel hfuel
      have hin : off ≤ (m.mem.mbuf x).mLen := by
        have := hoff x (by simp)
        omega
      have hcount : m.copyCount (x :: rest) off (len + 1) = m.copyCount rest 0
          (lenLeft (len + 1) (min (len + 1) ((m.mem.mbuf x).mLen - off))) + 1 := by
        have hhere : ¬ (0 < off ∧ (m.mem.mbuf x).mLen ≤ off) := by
          have := hoff x (by simp)
          omega
        rw [copyCount, if_neg (Nat.succ_ne_zero len), if_neg hhere]
      have hmdx : (l.m.mem.mbuf x).mPaddr = some md := by rw [hkeep.mbuf, hmd]
      have hextx : (l.m.mem.mbuf x).mExtSize = none := by rw [hkeep.mbuf, hext]
      cases hcache : l.m.mem.mbCache with
      | nil =>
        -- no mbuf is left: what has been taken goes back
        obtain ⟨m'', hfree, -⟩ :=
          (h.taken.returning hsrc).mFreem hsrc.cache h.linked (by simpa using h.linked.length_le)
        rw [← h.top] at hfree
        refine ⟨l, none, l.cloned, m'', ?_, fun hle => ?_,
          fun _ => ⟨rfl, zs, bytes, h, hzs, by omega, hfree⟩⟩
        · have hget : l.m.mGetIndirect pool md (l.m.mem.mbuf x).mType = some (none, l.m) := by
            simp [mGetIndirect, hcache]
          have hrun : CopyLoop.run pool (fuel + 1) l (some x) off (len + 1) =
              (mFreem k (l.store none).m (l.store none).top).map fun m =>
                (none, (l.store none).cloned, m) := by
            simp only [CopyLoop.run, hmdx, hextx, hget]
          rw [head?_cons, hrun, h.store_none, hfree]
          rfl
        · rw [hcount, length_nil] at hle
          omega
      | cons y mbCache =>
        have hnextl : l.m.mem.rte.next md = none := by rw [h.taken.next md hmdfree, hnext]
        have hmdl : md ∉ l.m.freeCells := fun hmem =>
          hmdfree (h.taken.pool.mem_iff.mpr (mem_append_right _ hmem))
        obtain ⟨m₁, hget, hgot⟩ := mGetIndirect_eq pool (l.m.mem.mbuf x).mType hcache
          hnextl hmdl
        obtain ⟨count, hc⟩ : ∃ c, min (len + 1) ((m.mem.mbuf x).mLen - off) = c := ⟨_, rfl⟩
        obtain ⟨l₁, hl₁⟩ : ∃ l₁, { l with m := m₁ }.place y (l.m.mem.mbuf x) off count = l₁ :=
          ⟨_, rfl⟩
        have hwithin : off + count ≤ (m.mem.mbuf x).mLen := by omega
        have hplaced := h.place hsrc hx hmd hgot hwithin
        have hkept := hP l zs bytes x y md m₁ off count h hx hmd hwithin hgot hzs
        rw [hl₁] at hplaced hkept
        have hcache₁ : l₁.m.mem.mbCache = mbCache := by
          have hkept := (CopyLoop.place_kept { l with m := m₁ } y (l.m.mem.mbuf x) off count).2.1
          rw [hl₁] at hkept
          have hgotcache := hgot.cache
          rw [hcache, List.cons.injEq] at hgotcache
          rw [hkept, hgotcache.2]
        have hnext₁ : l₁.m.mem.mNext x = m.mem.mNext x := by
          rw [mNext, (hplaced.taken.keeps hsrc hx).mbuf, mNext]
        have hlenx : (l.m.mem.mbuf x).mLen = (m.mem.mbuf x).mLen := by rw [hkeep.mbuf]
        have hrun : CopyLoop.run pool (fuel + 1) l (some x) off (len + 1) =
            if off + count = (m.mem.mbuf x).mLen then
              CopyLoop.run pool fuel l₁ (m.mem.mNext x) 0 (lenLeft (len + 1) count)
            else CopyLoop.run pool fuel l₁ (some x) (off + count) (lenLeft (len + 1) count) := by
          simp only [CopyLoop.run, hmdx, hextx, hget, hlenx, hc, hl₁, hnext₁, lenLeft]
        obtain ⟨d, hd⟩ := hsrc.dataBuffer x hx
        have hfirst := CopyLoop.length_mbufData hd
        have hothers := length_chainData fun z hz => hsrc.dataBuffer z (hsub z (.tail x hz))
        rw [lenOf_cons] at hlen hshort
        have hbytes := take_lenLeft (m.mbufData x) (m.chainData rest) (len + 1)
          (show off ≤ _ by omega) (by omega)
        rw [hfirst, hc, ← chainData_cons] at hbytes
        rw [head?_cons, hrun, hcount, hc, length_cons, ← hbytes, ← append_assoc]
        by_cases hfull : off + count = (m.mem.mbuf x).mLen
        · have hlink' : LinkedFrom m.mem.mNext rest.head? rest := by
            rw [hlink.2.head?_eq]
            exact hlink.2
          have hlen' : lenLeft (len + 1) count = mCopyall ∨
              0 + lenLeft (len + 1) count ≤ m.mem.lenOf rest := by
            rw [lenLeft]
            split
            · exact .inl ‹_›
            · right
              omega
          obtain ⟨l', top, cloned, m', hrest, hdone, hfail⟩ := ih hplaced hkept
            (fun z hz => hsub z (.tail _ hz)) hlink' (fun z _ => .inl rfl) hlen' (by omega)
            (show rest.length ≤ fuel by simpa using hfuel)
          rw [hlink.2.head?_eq] at hrest
          rw [hcache₁] at hdone hfail
          refine ⟨l', top, cloned, m', by rw [if_pos hfull, hrest], fun hle => ?_, fun hlt => ?_⟩
          · obtain ⟨heq, zs', hcopy, hend, hsize⟩ := hdone (by omega)
            rw [length_append, length_singleton] at hsize
            exact ⟨heq, zs', by simpa using hcopy, hend, by omega⟩
          · obtain ⟨htop, zs', bytes', hcopy, hend, hsize, hfree⟩ := hfail (by omega)
            rw [length_append, length_singleton] at hsize
            exact ⟨htop, zs', bytes', hcopy, hend, by omega, hfree⟩
        · have hleft : lenLeft (len + 1) count = 0 := by
            rw [lenLeft]
            split
            · omega
            · omega
          refine ⟨l₁, l₁.top, l₁.cloned, l₁.m, ?_, fun _ => ⟨rfl, zs ++ [y], ?_⟩, ?_⟩
          · rw [if_neg hfull, hleft, CopyLoop.run_zero]
          · rw [hleft, take_zero, append_nil, copyCount_zero]
            exact ⟨hplaced, hkept, by simp⟩
          · rw [hleft, copyCount_zero]
            omega

theorem Copying.start (m : CloneMem k n) : Copying m { m } [] [] :=
  ⟨⟨rfl, fun _ _ => rfl, by simp, .refl _, by simp, fun _ _ => rfl, fun _ _ => rfl, fun _ => rfl⟩,
    rfl, rfl, rfl, fun _ => rfl, by simp, fun _ => rfl⟩

theorem mCopym_run {P : List (Fin k) → CloneMem k n → Prop} (h : Copyable m xs)
    (hlink : LinkedFrom m.mem.mNext (some x) xs)
    (hlen : off + len ≤ m.mem.lenOf xs ∨ off ≤ m.mem.lenOf xs ∧ len = mCopyall)
    (hP : KeptByRounds m pool xs P) (hnil : P [] m) :
    ∃ l top cloned m', m.mCopym pool (some x) off len = some (top, cloned, m') ∧
      (m.copyCount xs off len ≤ m.mem.mbCache.length → (top, cloned, m') = (l.top, l.cloned, l.m) ∧
        ∃ zs, Copying m l zs (((m.chainData xs).drop off).take len) ∧ P zs l.m ∧
          zs.length = m.copyCount xs off len) ∧
      (m.mem.mbCache.length < m.copyCount xs off len → top = none ∧
        ∃ zs bytes, Copying m l zs bytes ∧ P zs l.m ∧ zs.length < m.copyCount xs off len ∧
          mFreem k l.m l.top = some m') := by
  have hcard : xs.length ≤ k := by simpa using hlink.length_le
  have hle : off ≤ m.mem.lenOf xs := by omega
  obtain ⟨rest, off', hskip, hsuf, hlink', -, hrestLen, hbytes⟩ :=
    skipOff_spec hlink h.dataBuffer hle hcard
  have hshort := h.lenOf_lt hlink
  have hrange : len = mCopyall ∨ off' + len ≤ m.mem.lenOf rest := by omega
  have hshort' : m.mem.lenOf rest < mCopyall := by
    obtain ⟨pre, rfl⟩ := hsuf
    rw [lenOf_append] at hshort
    omega
  obtain ⟨l, top, cloned, m', hrun, hdone, hfail⟩ := (Copying.start m).run hP hnil h
    (fun z hz => hsuf.subset hz) hlink' (skipOff_lt hskip) hrange hshort'
    (hsuf.length_le.trans (hcard.trans (Nat.le_succ k)))
  rw [← copyCount_skipOff hlink hskip hlink', length_nil, Nat.zero_add] at hdone hfail
  rw [nil_append, hbytes] at hdone
  exact ⟨l, top, cloned, m', by rw [mCopym_some, hskip]; exact hrun, hdone, hfail⟩

/-- `m_copym` of a range of a chain never panics and leaves the chain alone. When there are mbufs
and packet buffers enough, the copy has the bytes of the range, and `m_copydata` reads the same from
both. When there are too few mbufs, the result is NULL and everything taken is free again. -/
theorem mCopym_copies {pool off len : Nat} (h : Copyable m xs)
    (hlink : LinkedFrom m.mem.mNext (some x) xs)
    (hlen : off + len ≤ m.mem.lenOf xs ∨ off ≤ m.mem.lenOf xs ∧ len = mCopyall) :
    ∃ top cloned m', m.mCopym pool (some x) off len = some (top, cloned, m') ∧
      (∀ z ∈ xs, m'.mem.mbuf z = m.mem.mbuf z ∧ m'.mbufData z = m.mbufData z) ∧
      (m.copyCount xs off len ≤ m.mem.mbCache.length →
        m.copyCount xs off len ≤ m.mem.rte.available pool → ∃ zs,
        LinkedFrom m'.mem.mNext top zs ∧
        m'.chainData zs = ((m.chainData xs).drop off).take len ∧
        ∀ a b, a + b ≤ m'.mem.lenOf zs → ∃ bytes, m'.mCopydata top a b = some bytes ∧
          m'.mCopydata (some x) (off + a) b = some bytes) ∧
      (m.mem.mbCache.length < m.copyCount xs off len → top = none ∧
        m.mem.mbCache.Perm m'.mem.mbCache ∧ m.freeCells.Subperm m'.freeCells) := by
  obtain ⟨l, top, cloned, m', hcopy, hdone, hfail⟩ := mCopym_run h hlink hlen
    (keptByRounds_available pool h) (by simp)
  have hback : m.mem.mbCache.length < m.copyCount xs off len → top = none ∧ Returning m [] m' := by
    intro hfew
    obtain ⟨htop, zs, bytes, hcopying, -, -, hfree⟩ := hfail hfew
    obtain ⟨m'', hfree', hback⟩ := (hcopying.taken.returning h).mFreem h.cache
      hcopying.linked (show zs.length ≤ k by simpa using hcopying.linked.length_le)
    rw [hcopying.top, hfree', Option.some.injEq] at hfree
    exact ⟨htop, hfree ▸ hback⟩
  refine ⟨top, cloned, m', hcopy, fun z hz => ?_, fun henough => ?_, fun hfew => ?_⟩
  · rcases Nat.lt_or_ge m.mem.mbCache.length (m.copyCount xs off len) with hfew | henough
    · have hkeep := (hback hfew).2.keeps h hz
      exact ⟨hkeep.mbuf, hkeep.data⟩
    · obtain ⟨heq, zs, hcopying, -⟩ := hdone henough
      have hkeep := hcopying.taken.keeps h hz
      cases heq
      exact ⟨hkeep.mbuf, hkeep.data⟩
  · obtain ⟨heq, zs, hcopying, ⟨-, hgot⟩, hcount⟩ := hdone henough
    clear hdone hfail hback
    cases heq
    intro havail
    have hcloned := hcopying.cloned (hgot (hcount ▸ havail))
    have hwhole := hcopying.whole hcloned
    have hreadable := hcopying.readable hcloned
    have hzs := length_chainData fun z hz => (hreadable z hz).1
    have hkeeps : ∀ z ∈ xs, Keeps m l.m z := fun z hz => hcopying.taken.keeps h hz
    have hsource : l.m.chainData xs = m.chainData xs :=
      chainData_congr fun z hz => (hkeeps z hz).data
    have hlinked : LinkedFrom l.m.mem.mNext l.top zs := hcopying.top ▸ hcopying.linked
    refine ⟨zs, hlinked, hwhole, fun a b hab => ?_⟩
    rw [hwhole, List.length_take, List.length_drop, length_chainData h.dataBuffer] at hzs
    have hxs : LinkedFrom l.m.mem.mNext (some x) xs := hlink.congr fun z hz => by
      rw [MbufMem.mNext, (hkeeps z hz).mbuf, MbufMem.mNext]
    have hlenOf : l.m.mem.lenOf xs = m.mem.lenOf xs :=
      MbufMem.lenOf_congr fun z hz => .of_eq (hkeeps z hz).mbuf
    have hcopyread := mCopydata_eq hlinked (fun z hz => (hreadable z hz).1)
      (fun z hz => (hreadable z hz).2) hab
    have hsourceread : l.m.mCopydata (some x) (off + a) b = _ := mCopydata_eq hxs
      (fun z hz => (hkeeps z hz).buffer ▸ h.dataBuffer z hz)
      (fun z hz => (hkeeps z hz).mbuf ▸ (h.room z hz).1) (by omega)
    refine ⟨_, hcopyread, ?_⟩
    rw [hsourceread, hsource, hwhole, List.drop_take, List.drop_drop, List.take_take,
      min_eq_left (by omega)]
  · obtain ⟨htop, hreturned⟩ := hback hfew
    exact ⟨htop, hreturned.cache, hreturned.pool⟩

def copySource : CloneMem 11 12 where
  mem :=
    { mbuf := fun x =>
        { mNext := if x = 0 then some 1 else if x = 1 then some 2 else none
          mLen := if x = 1 then 0 else 3
          mData := 128
          mPaddr := some (x.castAdd 1) }
      mbCache := [3, 4, 5]
      rte :=
        { cell := fun p => { buf := fun i => UInt8.ofNat (10 * p.val + i), refcnt := 1 }
          mempool := [(1, 4), (1, 5), (1, 6)] } }
  attached p := if p = 2 then some 3 else none

theorem mCopym_copies_clone : ∃ top cloned m',
    copySource.mCopym 1 (some 0) 1 4 = some (top, cloned, m') ∧ ∃ zs,
      LinkedFrom m'.mem.mNext top zs ∧ m'.chainData zs = [129, 130, 158, 159] := by
  have hsrc : Copyable copySource [0, 1, 2] :=
    ⟨by decide, by decide, by decide, by decide, by decide, by decide, by decide⟩
  have hlink : LinkedFrom copySource.mem.mNext (some 0) [0, 1, 2] :=
    ⟨rfl, by decide, by decide, rfl⟩
  obtain ⟨top, cloned, m', hcopy, -, hdone, -⟩ :
      ∃ top cloned m', copySource.mCopym 1 (some 0) 1 4 = some (top, cloned, m') ∧ _ :=
    mCopym_copies hsrc hlink (.inl (by decide))
  obtain ⟨zs, hzs, hbytes, -⟩ := hdone (by decide) (by decide)
  exact ⟨top, cloned, m', hcopy, zs, hzs, hbytes.trans (by decide)⟩

/-- The empty chain has the range of no bytes, but `m_copym0` reads the flags of its first mbuf. -/
theorem null_chain_not_copied : LinkedFrom copySource.mem.mNext none [] ∧
    0 + 0 ≤ copySource.mem.lenOf [] ∧ copySource.mCopym 1 none 0 0 = none :=
  ⟨rfl, by decide, rfl⟩

end CloneMem

end NetbsdDpdk
