import NetbsdDpdk.SharedBuffers

/-! Copies of whole packets (`m_copypacket`, `m_dup`, `m_copym`): which of them are packets of their
own, and what freeing, trimming and writing to one of the two chains does to the other. -/

namespace NetbsdDpdk

open List

open MbufMem

variable {k n : Nat}

namespace MbufMem

/-- The first loop of `m_adj`. Returns what it could not trim too. -/
def adjHead : Nat → MbufMem k n → Option (Fin k) → Nat → Option (MbufMem k n × Nat)
  | _, mem, none, len => some (mem, len)
  | 0, _, some _, _ => none
  | fuel + 1, mem, some x, len =>
    if len = 0 then some (mem, 0)
    else if (mem.mbuf x).mLen ≤ len then
      adjHead fuel (mem.modify x fun b => { b with mLen := 0 }) (mem.mNext x)
        (len - (mem.mbuf x).mLen)
    else some (mem.modify x fun b => { b with mLen := b.mLen - len, mData := b.mData + len }, 0)

/-- The scan of `m_adj` for the length of the chain and its last mbuf. -/
def adjScan : Nat → MbufMem k n → Fin k → Nat → Option (Nat × Fin k)
  | 0, _, _, _ => none
  | fuel + 1, mem, x, count =>
    let count := count + (mem.mbuf x).mLen
    match mem.mNext x with
    | none => some (count, x)
    | some y => adjScan fuel mem y count

def adjToss : Nat → MbufMem k n → Option (Fin k) → Option (MbufMem k n)
  | _, mem, none => some mem
  | 0, _, some _ => none
  | fuel + 1, mem, some y =>
    adjToss fuel (mem.modify y fun b => { b with mLen := 0 }) (mem.mNext y)

def adjCut : Nat → MbufMem k n → Option (Fin k) → Nat → Option (MbufMem k n)
  | _, mem, none, _ => some mem
  | 0, _, some _, _ => none
  | fuel + 1, mem, some x, count =>
    if count ≤ (mem.mbuf x).mLen then
      adjToss fuel (mem.modify x fun b => { b with mLen := count }) (mem.mNext x)
    else adjCut fuel mem (mem.mNext x) (count - (mem.mbuf x).mLen)

def setPktLen (mem : MbufMem k n) (mp : Fin k) (f : Int → Int) : MbufMem k n :=
  if (mem.mbuf mp).mPkthdr = true then
    mem.modify mp fun b => { b with mPktLen := f b.mPktLen }
  else mem

def mAdj (mem : MbufMem k n) (mp : Fin k) (reqLen : Int) : Option (MbufMem k n) :=
  if 0 ≤ reqLen then
    (adjHead k mem (some mp) reqLen.toNat).map fun r =>
      r.1.setPktLen mp fun len => len - (reqLen - r.2)
  else
    let len := (-reqLen).toNat
    (adjScan k mem mp 0).bind fun r =>
      if len ≤ (mem.mbuf r.2).mLen then
        let mem := mem.modify r.2 fun b => { b with mLen := b.mLen - len }
        some (mem.setPktLen mp fun pktLen => pktLen - len)
      else
        let count := r.1 - len
        adjCut k (mem.setPktLen mp fun _ => count) (some mp) count

structure Trims (mem mem' : MbufMem k n) (xs : List (Fin k)) : Prop where
  rte : mem'.rte = mem.rte
  mbCache : mem'.mbCache = mem.mbCache
  mNext : mem'.mNext = mem.mNext
  other : ∀ z, z ∉ xs → mem'.mbuf z = mem.mbuf z

namespace Trims

variable {mem mem' mem'' : MbufMem k n} {x : Fin k} {xs ys : List (Fin k)} {p : Option (Fin k)}

theorem refl (mem : MbufMem k n) (xs : List (Fin k)) : Trims mem mem xs :=
  ⟨rfl, rfl, rfl, fun _ _ => rfl⟩

theorem trans (h : Trims mem mem' xs) (h' : Trims mem' mem'' xs) : Trims mem mem'' xs where
  rte := h'.rte.trans h.rte
  mbCache := h'.mbCache.trans h.mbCache
  mNext := h'.mNext.trans h.mNext
  other z hz := (h'.other z hz).trans (h.other z hz)

theorem mono (h : Trims mem mem' xs) (hsub : ∀ z ∈ xs, z ∈ ys) : Trims mem mem' ys :=
  { h with other := fun z hz => h.other z fun hmem => hz (hsub z hmem) }

theorem modify {f : Mbuf k n → Mbuf k n} (hx : x ∈ xs)
    (hnext : (f (mem.mbuf x)).mNext = (mem.mbuf x).mNext) : Trims mem (mem.modify x f) xs where
  rte := rfl
  mbCache := rfl
  mNext := by
    funext z
    by_cases hz : z = x
    · rw [MbufMem.mNext, hz, modify_mbuf_self, hnext, MbufMem.mNext]
    · rw [MbufMem.mNext, modify_mbuf_of_ne _ _ hz, MbufMem.mNext]
  other z hz := modify_mbuf_of_ne _ _ fun heq => hz (heq ▸ hx)

theorem setPktLen (hx : x ∈ xs) (f : Int → Int) : Trims mem (mem.setPktLen x f) xs := by
  rw [MbufMem.setPktLen]
  split
  · exact modify hx rfl
  · exact refl mem xs

theorem step {f : Mbuf k n → Mbuf k n} (hnext : (f (mem.mbuf x)).mNext = (mem.mbuf x).mNext)
    (h : Trims (mem.modify x f) mem' xs) : Trims mem mem' (x :: xs) :=
  (modify (by simp) hnext).trans (h.mono fun _ hz => .tail _ hz)

theorem linked (h : Trims mem mem' ys) (hlink : LinkedFrom mem.mNext p xs) :
    LinkedFrom mem'.mNext p xs := by
  rw [h.mNext]
  exact hlink

theorem adjHead {fuel : Nat} (len : Nat) (hlink : LinkedFrom mem.mNext p xs)
    (hfuel : xs.length ≤ fuel) :
    ∃ r, MbufMem.adjHead fuel mem p len = some r ∧ Trims mem r.1 xs := by
  induction xs generalizing mem p fuel len with
  | nil =>
    cases hlink
    exact ⟨(mem, len), by cases fuel <;> rfl, refl mem []⟩
  | cons x xs ih =>
    obtain ⟨rfl, hrest⟩ := hlink
    obtain ⟨fuel, rfl, hf⟩ := exists_fuel hfuel
    by_cases hzero : len = 0
    · exact ⟨(mem, 0), by simp [adjHead, hzero], refl mem _⟩
    by_cases hall : (mem.mbuf x).mLen ≤ len
    · have htrim : Trims mem (mem.modify x fun b => { b with mLen := 0 }) [x] :=
        modify (by simp) rfl
      obtain ⟨r, hrun, htrims⟩ := ih (len - (mem.mbuf x).mLen) (htrim.linked hrest)
        hf
      exact ⟨r, by simp only [adjHead, if_neg hzero, if_pos hall, hrun],
        step rfl htrims⟩
    · have hcut : adjHead (fuel + 1) mem (some x) len = some (_, 0) :=
        (if_neg hzero).trans (if_neg hall)
      have htrim : Trims mem (mem.modify x fun b =>
          { b with mLen := b.mLen - len, mData := b.mData + len }) (x :: xs) :=
        modify (by simp) rfl
      exact ⟨_, hcut, htrim⟩

theorem adjScan {fuel : Nat} (count : Nat) (hlink : LinkedFrom mem.mNext (some x) xs)
    (hfuel : xs.length ≤ fuel) : ∃ r, MbufMem.adjScan fuel mem x count = some r ∧ r.2 ∈ xs := by
  induction xs generalizing x fuel count with
  | nil => cases hlink
  | cons y xs ih =>
    obtain ⟨hy, hrest⟩ := hlink
    obtain rfl : x = y := by simpa using hy
    obtain ⟨fuel, rfl, hf⟩ := exists_fuel hfuel
    cases hnext : mem.mNext x with
    | none => exact ⟨_, by simp only [adjScan, hnext]; rfl, by simp⟩
    | some z =>
      rw [hnext] at hrest
      obtain ⟨r, hrun, hmem⟩ := ih (count + (mem.mbuf x).mLen) hrest
        hf
      exact ⟨r, by simp only [adjScan, hnext, hrun], .tail _ hmem⟩

theorem adjToss {fuel : Nat} (hlink : LinkedFrom mem.mNext p xs) (hfuel : xs.length ≤ fuel) :
    ∃ mem', MbufMem.adjToss fuel mem p = some mem' ∧ Trims mem mem' xs := by
  induction xs generalizing mem p fuel with
  | nil =>
    cases hlink
    exact ⟨mem, by cases fuel <;> rfl, refl mem []⟩
  | cons x xs ih =>
    obtain ⟨rfl, hrest⟩ := hlink
    obtain ⟨fuel, rfl, hf⟩ := exists_fuel hfuel
    have htrim : Trims mem (mem.modify x fun b => { b with mLen := 0 }) [x] :=
      modify (by simp) rfl
    obtain ⟨mem', hrun, htrims⟩ := ih (htrim.linked hrest) hf
    exact ⟨mem', hrun, step rfl htrims⟩

theorem adjCut {fuel : Nat} (count : Nat) (hlink : LinkedFrom mem.mNext p xs)
    (hfuel : xs.length ≤ fuel) :
    ∃ mem', MbufMem.adjCut fuel mem p count = some mem' ∧ Trims mem mem' xs := by
  induction xs generalizing p fuel count with
  | nil =>
    cases hlink
    exact ⟨mem, by cases fuel <;> rfl, refl mem []⟩
  | cons x xs ih =>
    obtain ⟨rfl, hrest⟩ := hlink
    obtain ⟨fuel, rfl, hf⟩ := exists_fuel hfuel
    by_cases hhere : count ≤ (mem.mbuf x).mLen
    · have htrim : Trims mem (mem.modify x fun b => { b with mLen := count }) [x] :=
        modify (by simp) rfl
      obtain ⟨mem', hrun, htrims⟩ := adjToss (htrim.linked hrest)
        hf
      exact ⟨mem', by simp only [adjCut, if_pos hhere, hrun], step rfl htrims⟩
    · obtain ⟨mem', hrun, htrims⟩ := ih (count - (mem.mbuf x).mLen) hrest
        hf
      exact ⟨mem', by simp only [adjCut, if_neg hhere, hrun],
        htrims.mono fun _ hz => .tail _ hz⟩

theorem mAdj (hlink : LinkedFrom mem.mNext (some x) xs) (reqLen : Int) :
    ∃ mem', mem.mAdj x reqLen = some mem' ∧ Trims mem mem' xs := by
  have hcard : xs.length ≤ k := by simpa using hlink.length_le
  have hx : x ∈ xs := mem_of_mem_head? hlink.head?_eq
  by_cases hreq : 0 ≤ reqLen
  · obtain ⟨r, hrun, htrims⟩ := adjHead reqLen.toNat hlink hcard
    exact ⟨_, by rw [MbufMem.mAdj, if_pos hreq, hrun]; rfl, htrims.trans (setPktLen hx _)⟩
  · obtain ⟨r, hrun, hlast⟩ := adjScan 0 hlink hcard
    by_cases hlen : (-reqLen).toNat ≤ (mem.mbuf r.2).mLen
    · exact ⟨_, by simp only [MbufMem.mAdj, if_neg hreq, hrun, Option.bind_some, if_pos hlen]; rfl,
        (modify hlast rfl).trans (setPktLen hx _)⟩
    · have hhead : Trims mem (mem.setPktLen x fun _ => (r.1 - (-reqLen).toNat : Nat)) xs :=
        setPktLen hx _
      obtain ⟨mem', hcut, htrims⟩ := adjCut (r.1 - (-reqLen).toNat) (hhead.linked hlink)
        hcard
      exact ⟨mem', by
        simp only [MbufMem.mAdj, if_neg hreq, hrun, Option.bind_some, if_neg hlen, hcut],
        hhead.trans htrims⟩

end Trims

end MbufMem

namespace CloneMem

/-- `m_copym0`. What `deep` chooses stands behind the `abort` for mbufs with external storage. -/
def mCopym0 (m : CloneMem k n) (pool : Nat) (p : Option (Fin k)) (off len : Nat) (_deep : Bool) :
    Option (Option (Fin k) × Bool × CloneMem k n) := m.mCopym pool p off len

def mDup (m : CloneMem k n) (pool : Nat) (p : Option (Fin k)) (off len : Nat) :
    Option (Option (Fin k) × Bool × CloneMem k n) := m.mCopym0 pool p off len true

def mCopypacket (m : CloneMem k n) (x : Fin k) : Option (Fin k) × CloneMem k n := (some x, m)

def writeByte (m : CloneMem k n) (y : Fin k) (i : Nat) (v : UInt8) : CloneMem k n :=
  match m.dataBuffer y with
  | none => m
  | some d => m.updateRte fun rte => rte.modify d fun c =>
      { c with buf := Function.update c.buf ((m.mem.mbuf y).mData.toNat + i) v }

def WritesApart (m : CloneMem k n) (ys zs : List (Fin k)) : Prop :=
  ∀ y ∈ ys, ∀ i < (m.mem.mbuf y).mLen, ∀ v, (m.writeByte y i v).chainData zs = m.chainData zs

variable {m m' : CloneMem k n} {x y z : Fin k} {xs zs : List (Fin k)}

theorem writeByte_kept (m : CloneMem k n) (y z : Fin k) (i : Nat) (v : UInt8) :
    (m.writeByte y i v).dataBuffer z = m.dataBuffer z ∧
      (m.writeByte y i v).mem.mbuf z = m.mem.mbuf z := by
  cases hy : m.dataBuffer y with
  | none =>
    rw [writeByte, hy]
    exact ⟨rfl, rfl⟩
  | some d =>
    rw [writeByte, hy]
    exact ⟨rfl, rfl⟩

theorem writeByte_mbufData {d : Fin n} (hy : m.dataBuffer y = some d) (hz : m.dataBuffer z = some d)
    (i : Nat) (v : UInt8) {j : Nat} (hj : j < (m.mem.mbuf z).mLen)
    (hsame : (m.mem.mbuf z).mData.toNat + j = (m.mem.mbuf y).mData.toNat + i) :
    ((m.writeByte y i v).mbufData z)[j]? = some v := by
  obtain ⟨hbuffer, hmbuf⟩ := m.writeByte_kept y z i v
  have hbuf : ((m.writeByte y i v).mem.rte.cell d).buf =
      Function.update (m.mem.rte.cell d).buf ((m.mem.mbuf y).mData.toNat + i) v := by
    rw [writeByte, hy]
    simp [updateRte]
  simp only [mbufData, hbuffer, hz, hmbuf, hbuf, bytesAt]
  rw [getElem?_map, getElem?_range hj, Option.map_some, hsame, Function.update_self]

def Shows (m m' : CloneMem k n) (z x : Fin k) : Prop :=
  m'.dataBuffer z = m.dataBuffer x ∧ ∃ o : Nat, (m'.mem.mbuf z).mData = (m.mem.mbuf x).mData + o ∧
    o + (m'.mem.mbuf z).mLen ≤ (m.mem.mbuf x).mLen

theorem keptByRounds_shows (pool : Nat) (hsrc : Copyable m xs) :
    KeptByRounds m pool xs fun zs m' =>
      ∀ z ∈ zs, (m'.mem.mbuf z).mPaddr ≠ none → ∃ x ∈ xs, Shows m m' z x := by
  intro l zs bytes x y md m₁ off count hcopy hx hmd hwithin hgot hzs z hz hsome
  have hplaced := hcopy.placedAt hsrc hx hmd hgot off count
  rcases mem_append.mp hz with hz | hz
  · rw [hplaced.other z hz] at hsome
    obtain ⟨x', hx', hbuffer, o, hdata, hlen⟩ := hzs z hz hsome
    refine ⟨x', hx', (hplaced.held z hz).trans hbuffer, o, ?_, ?_⟩
    · rw [hplaced.other z hz, hdata]
    · rw [hplaced.other z hz]
      exact hlen
  · obtain rfl : z = y := by simpa using hz
    rw [hplaced.self] at hsome
    refine ⟨x, hx, hplaced.shared hsome, off, ?_, ?_⟩
    · rw [hplaced.self]
    · rw [hplaced.self]
      exact hwithin

theorem flatMap_inj {α β : Type*} {f g : α → List β} {l : List α}
    (hlen : ∀ a ∈ l, (f a).length = (g a).length) (h : l.flatMap f = l.flatMap g) :
    ∀ a ∈ l, f a = g a := by
  induction l with
  | nil => simp
  | cons b l ih =>
    rw [flatMap_cons, flatMap_cons] at h
    obtain ⟨hfirst, hrest⟩ := append_inj h (hlen b (by simp))
    exact forall_mem_cons.mpr ⟨hfirst, ih (fun a ha => hlen a (.tail _ ha)) hrest⟩

theorem mLen_eq_zero_of_chainData (hbuf : ∀ z ∈ zs, ∃ d, m.dataBuffer z = some d)
    (h : m.chainData zs = []) : ∀ z ∈ zs, (m.mem.mbuf z).mLen = 0 := by
  intro z hz
  obtain ⟨d, hd⟩ := hbuf z hz
  have hnil : m.mbufData z = [] := flatMap_eq_nil_iff.mp h z hz
  rw [← CopyLoop.length_mbufData hd, hnil, length_nil]

theorem writesApart_iff (hzs : ∀ z ∈ zs, ∃ d, m.dataBuffer z = some d)
    (hxs : ∀ z ∈ xs, ∃ d, m.dataBuffer z = some d) (hdata : ∀ z ∈ xs, 0 ≤ (m.mem.mbuf z).mData)
    (hshows : ∀ z ∈ zs, ∃ x ∈ xs, Shows m m z x) (hbytes : m.chainData zs = m.chainData xs) :
    (m.WritesApart zs xs ∧ m.WritesApart xs zs) ↔ m.chainData xs = [] := by
  constructor
  · rintro ⟨hapart, -⟩
    by_contra hne
    rw [← hbytes] at hne
    -- some mbuf of `zs` has a byte, and the mbuf of `xs` that it shows reads what is written there
    obtain ⟨z, hz, hzne⟩ : ∃ z ∈ zs, m.mbufData z ≠ [] := by
      by_contra hall
      push Not at hall
      exact hne (flatMap_eq_nil_iff.mpr hall)
    obtain ⟨d, hd⟩ := hzs z hz
    have hlen := CopyLoop.length_mbufData hd
    have hpos : 0 < (m.mem.mbuf z).mLen := by
      rw [← hlen]
      exact length_pos_iff.mpr hzne
    obtain ⟨x, hx, hbuffer, o, hstart, hwithin⟩ := hshows z hz
    rw [hd] at hbuffer
    have hread := hdata x hx
    have hxlen := CopyLoop.length_mbufData hbuffer.symm
    obtain ⟨b, hb⟩ : ∃ b, (m.mbufData x)[o]? = some b :=
      ⟨_, getElem?_eq_getElem (by omega)⟩
    have hwritten := writeByte_mbufData hd hbuffer.symm 0 (b + 1) (j := o) (by omega) (by omega)
    have hsame := flatMap_inj (fun y hy => by
      obtain ⟨e, he⟩ := hxs y hy
      obtain ⟨hkept, hmbuf⟩ := m.writeByte_kept z y 0 (b + 1)
      rw [CopyLoop.length_mbufData he, CopyLoop.length_mbufData (hkept.trans he), hmbuf])
      (hapart z hz 0 hpos (b + 1)) x hx
    rw [hsame, hb] at hwritten
    simp at hwritten
  · intro hnil
    constructor
    · intro z hz i hi
      rw [mLen_eq_zero_of_chainData hzs (hbytes.trans hnil) z hz] at hi
      omega
    · intro z hz i hi
      rw [mLen_eq_zero_of_chainData hxs hnil z hz] at hi
      omega

def Outlives (m : CloneMem k n) (x : Fin k) (xs : List (Fin k)) (z : Fin k) : Prop :=
  ∃ m', m.mFreem k (some z) = some m' ∧ LinkedFrom m'.mem.mNext (some x) xs ∧
    m'.chainData xs = m.chainData xs ∧ (∀ y ∈ xs, m'.mem.mbuf y = m.mem.mbuf y) ∧
    ∀ y ∈ xs, ∀ d, m'.dataBuffer y = some d → d ∉ m'.freeCells

theorem SharedBy.outlives {chains : List (List (Fin k))} {flights : List (List (Fin n))}
    (h : SharedBy m (zs :: chains) flights) (hxs : xs ∈ chains) (hx : xs.head? = some x)
    (hz : zs.head? = some z) : Outlives m x xs z := by
  have hcard : zs.length ≤ k := by simpa using (h.linked zs (by simp)).length_le
  have hmem : ∀ y ∈ xs, y ∈ chains.flatten := fun y hy => mem_flatten.mpr ⟨xs, hxs, hy⟩
  obtain ⟨m', hfree, hshared, hkeep⟩ := h.mFreem hcard
  rw [hz] at hfree
  refine ⟨m', hfree, hx ▸ hshared.linked xs hxs, ?_, fun y hy => (hkeep y (hmem y hy)).mbuf, ?_⟩
  · exact chainData_congr fun y hy => (hkeep y (hmem y hy)).data
  · intro y hy d hd
    rw [dataBuffer] at hd
    obtain ⟨p, hp, rfl⟩ := Option.map_eq_some_iff.mp hd
    exact hshared.accounts.owner_notMem_free
      (mem_append_left _ (mem_paddrs (hmem y hy) hp))

/-- `m_copypacket` is the packet itself; `m_dup` is `m_copym`, new mbufs over the same bytes, which
can be trimmed and freed apart from the packet but not written. -/
theorem packet_copies {pool : Nat} (h : Copyable m xs) (hlink : LinkedFrom m.mem.mNext (some x) xs)
    (hmbufs : xs.length ≤ m.mem.mbCache.length) (hpool : xs.length ≤ m.mem.rte.available pool) :
    m.mCopypacket x = (some x, m) ∧
    ∃ top m' zs, m.mDup pool (some x) 0 mCopyall = some (some top, true, m') ∧
      m.mCopym pool (some x) 0 mCopyall = some (some top, true, m') ∧
      LinkedFrom m'.mem.mNext (some top) zs ∧ (∀ z ∈ zs, z ∉ xs) ∧
      m'.chainData zs = m.chainData xs ∧ m'.chainData xs = m.chainData xs ∧
      (m'.mem.mbuf top).mPkthdr = false ∧
      (∀ reqLen, ∃ mem, m'.mem.mAdj top reqLen = some mem ∧
        (∀ y ∈ xs, mem.mbuf y = m.mem.mbuf y) ∧
        CloneMem.chainData { m' with mem } xs = m.chainData xs) ∧
      ((m'.WritesApart zs xs ∧ m'.WritesApart xs zs) ↔ m.chainData xs = []) ∧
      ∀ chains flights, SharedBy m chains flights → xs ∈ chains →
        (∀ y ∈ xs, ∃ p, (m.mem.mbuf y).mPaddr = some p ∧ m.attached p = none ∧
          (m.mem.rte.cell p).refcnt + xs.length ≤ 65535) →
        Outlives m' top zs x ∧ Outlives m' x xs top := by
  refine ⟨rfl, ?_⟩
  have hne : xs ≠ [] := by
    rintro rfl
    cases hlink
  have hlen : 0 + mCopyall ≤ m.mem.lenOf xs ∨ 0 ≤ m.mem.lenOf xs ∧ mCopyall = mCopyall :=
    .inr ⟨Nat.zero_le _, rfl⟩
  obtain ⟨l, top, cloned, m', hcopy, hdone, -⟩ := mCopym_run h hlink hlen
    ((keptByRounds_shows pool h).and (keptByRounds_available pool h)) ⟨by simp, by simp⟩
  have hcount : m.copyCount xs 0 mCopyall ≤ xs.length := m.copyCount_le _ _ _
  obtain ⟨heq, zs, hcopying, ⟨hshows, -, hall⟩, hzs⟩ := hdone (by omega)
  cases heq
  have hgot := hall (by omega)
  have hcloned := hcopying.cloned hgot
  have hkeep : ∀ y ∈ xs, Keeps m l.m y := fun y hy => hcopying.taken.keeps h hy
  have hsource : l.m.chainData xs = m.chainData xs := chainData_congr fun y hy => (hkeep y hy).data
  have hbytes : l.m.chainData zs = m.chainData xs := by
    have hwhole := hcopying.whole hcloned
    have hshort := h.lenOf_lt hlink
    rw [hwhole, List.drop_zero, List.take_of_length_le]
    rw [length_chainData h.dataBuffer]
    exact hshort.le
  have hnew : ∀ z ∈ zs, z ∉ xs := fun z hz hzx =>
    h.used z hzx (by rw [hcopying.taken.cache]; exact List.mem_append_left _ hz)
  obtain ⟨top, htop⟩ : ∃ top, zs.head? = some top := by
    obtain ⟨y, ys, rfl⟩ := List.exists_cons_of_ne_nil hne
    cases zs with
    | nil => simp [copyCount, mCopyall] at hzs
    | cons z zs => exact ⟨z, rfl⟩
  have hltop : l.top = some top := hcopying.top.trans htop
  have hlinked := hcopying.linked
  rw [htop] at hlinked
  rw [hltop, hcloned] at hcopy
  refine ⟨top, l.m, zs, hcopy, hcopy, hlinked, hnew, hbytes, hsource, ?_, ?_, ?_, ?_⟩
  · exact hcopying.taken.header top (List.mem_of_mem_head? htop)
  · intro reqLen
    obtain ⟨mem, hadj, htrims⟩ := Trims.mAdj hlinked reqLen
    have hsame : ∀ y ∈ xs, mem.mbuf y = l.m.mem.mbuf y := fun y hy =>
      htrims.other y fun hyz => hnew y hyz hy
    refine ⟨mem, hadj, fun y hy => (hsame y hy).trans (hkeep y hy).mbuf, ?_⟩
    rw [← hsource]
    refine chainData_congr fun y hy => Keeps.data ⟨hsame y hy, ?_, fun c => by rw [htrims.rte]⟩
    exact dataBuffer_congr (by rw [hsame y hy]) fun _ _ => rfl
  · have hread : (l.m.WritesApart _ xs ∧ l.m.WritesApart xs _) ↔ _ := writesApart_iff
      (fun z hz => (hcopying.readable hcloned z hz).1)
      (fun y hy => by rw [(hkeep y hy).buffer]; exact h.dataBuffer y hy)
      (fun y hy => by rw [(hkeep y hy).mbuf]; exact (h.room y hy).1)
      (fun z hz => by
        obtain ⟨y, hy, hbuffer, hshown⟩ := hshows z hz (hgot z hz)
        refine ⟨y, hy, hbuffer.trans (hkeep y hy).buffer.symm, ?_⟩
        rw [(hkeep y hy).mbuf]
        exact hshown)
      (hbytes.trans hsource.symm)
    rw [hread, hsource]
  · intro chains flights hshared hmem hdirect
    obtain ⟨top', cloned', m'', zs', hcopy', hlink', hshared', -⟩ := hshared.mCopym pool hmem hne
      h.count hdirect hlen
    rw [hlink.head?_eq, hcopy, Option.some.injEq] at hcopy'
    cases hcopy'
    obtain rfl : zs = zs' := hlinked.unique hlink'
    refine ⟨?_, hshared'.outlives hmem hlink.head?_eq htop⟩
    have hperm : (zs :: chains).Perm (xs :: zs :: chains.erase xs) :=
      ((List.perm_cons_erase hmem).cons zs).trans (List.Perm.swap ..)
    exact (hshared'.perm hperm (.refl _)).outlives (by simp) htop hlink.head?_eq

def packetOfTwo : CloneMem 15 10 where
  mem := {
    mbuf := fun y =>
      if y = 0 then
        { mNext := some 1, mPkthdr := true, mPktLen := 5, mData := 128, mLen := 3
          mPaddr := some 0 }
      else { mData := 128, mLen := 2, mPaddr := some 1 }
    mbCache := [2, 3, 4]
    rte := {
      cell := fun p => { refcnt := if p.val < 2 then 1 else 0, pool := if p.val < 5 then 0 else 1 }
      mempool := [(1, 5), (1, 6), (1, 7)] } }

theorem packetOfTwo_copyable : Copyable packetOfTwo [0, 1] :=
  ⟨by decide, by decide, by decide, by decide, by decide, by decide, by decide⟩

theorem packet_copies_two : ∃ top m' zs, packetOfTwo.mDup 1 (some 0) 0 mCopyall =
      some (some top, true, m') ∧ m'.chainData zs = [0, 0, 0, 0, 0] ∧
    (m'.mem.mbuf top).mPkthdr = false ∧
    ¬ (m'.WritesApart zs [0, 1] ∧ m'.WritesApart [0, 1] zs) := by
  have hbytes : packetOfTwo.chainData [0, 1] = [0, 0, 0, 0, 0] := by decide
  obtain ⟨-, top, m', zs, hdup, -, -, -, hcopy, -, hheader, -, hapart, -⟩ :
      _ ∧ ∃ top m' zs, packetOfTwo.mDup 1 (some 0) 0 mCopyall = some (some top, true, m') ∧ _ :=
    packet_copies packetOfTwo_copyable ⟨rfl, rfl, rfl⟩ (by decide) (by decide)
  rw [hbytes] at hcopy hapart
  exact ⟨top, m', zs, hdup, hcopy, hheader, fun hboth => by cases hapart.mp hboth⟩

/-- `m_copypacket` returns the packet itself; the other two return a chain without packet header,
and the packet reads what is written through the copy of `m_dup`. -/
theorem copies_not_packets : (packetOfTwo.mem.mbuf 0).mPkthdr = true ∧
    (packetOfTwo.mCopypacket 0).1 = some 0 ∧
    ∃ r, packetOfTwo.mDup 1 (some 0) 0 mCopyall = some r ∧
      packetOfTwo.mCopym 1 (some 0) 0 mCopyall = some r ∧
      ∃ top, r.1 = some top ∧ (r.2.2.mem.mbuf top).mPkthdr = false ∧
        (r.2.2.writeByte top 0 9).mbufData 0 ≠ r.2.2.mbufData 0 := by
  have hrun : (packetOfTwo.mDup 1 (some 0) 0 mCopyall).any (fun r => r.1.any fun top =>
      (r.2.2.mem.mbuf top).mPkthdr = false ∧
        (r.2.2.writeByte top 0 9).mbufData 0 ≠ r.2.2.mbufData 0) = true := by
    decide +kernel
  obtain ⟨r, hdup, hr⟩ := (Option.any_eq_true _ _).mp hrun
  obtain ⟨top, htop, hwritten⟩ := (Option.any_eq_true _ _).mp hr
  exact ⟨rfl, rfl, r, hdup, hdup, top, htop, of_decide_eq_true hwritten⟩

end CloneMem

end NetbsdDpdk
