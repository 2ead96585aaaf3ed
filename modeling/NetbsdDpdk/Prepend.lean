import NetbsdDpdk.PacketHeader
import NetbsdDpdk.SharedBuffers

/-! Space in front of a packet: `M_PREPEND`, on the mbufs that `m_get` and `m_gethdr` hand out. -/

namespace NetbsdDpdk

open List

variable {k n : Nat}

def Mbuf.inFront (b : Mbuf k n) (x : Fin k) (plen : Nat) : Mbuf k n :=
  { b with mNext := some x, mData := b.mData + 40, mLen := plen, mPktLen := plen }

namespace StructMem

variable {L : Layout k n} {s s' : StructMem k n} {pool : Nat} {type : MbufType} {x y : Fin k}
  {xs : List (Fin k)} {p : Fin n}

structure Got (s : StructMem k n) (pool : Nat) (type : MbufType) (hdr : Bool) (w : MbufWords)
    (x : Fin k) (p : Fin n) (s' : StructMem k n) : Prop where
  cache : s.core.mem.mbCache = x :: s'.core.mem.mbCache
  free : (pool, p) ∈ s.core.mem.rte.mempool
  mbuf : s'.mbuf x =
    { s.mbuf x with
      mNext := none, mNextpkt := none, mType := type, mEor := false, mExtSize := none
      mPkthdr := hdr, mPaddr := some p, mData := 128 }
  other : ∀ y, y ≠ x → s'.mbuf y = s.mbuf y
  words : s'.words x = w
  otherWords : ∀ y, y ≠ x → s'.words y = s.words y
  attached : s'.core.attached = s.core.attached
  buf : ∀ c, (s'.core.mem.rte.cell c).buf = (s.core.mem.rte.cell c).buf
  freed : s'.core.mem.rte.freed = s.core.mem.rte.freed
  mempool : s'.core.mem.rte.mempool ⊆ s.core.mem.rte.mempool
  home : ∀ c, (s'.core.mem.rte.cell c).pool = (s.core.mem.rte.cell c).pool

theorem dataBuffer_modify {f : Mbuf k n → Mbuf k n}
    (hpaddr : (f (s.mbuf x)).mPaddr = (s.mbuf x).mPaddr) :
    (s.modify x f).core.dataBuffer y = s.core.dataBuffer y := by
  refine CloneMem.dataBuffer_congr ?_ fun _ _ => rfl
  by_cases hy : y = x
  · rw [hy]
    exact (congrArg Mbuf.mPaddr (mbuf_modify s x f)).trans hpaddr
  · exact congrArg Mbuf.mPaddr (mbuf_modify_of_ne s f hy)

theorem keeps_modify {f : Mbuf k n → Mbuf k n} (hy : y ≠ x) :
    CloneMem.Keeps s.core (s.modify x f).core y where
  mbuf := mbuf_modify_of_ne s f hy
  buffer :=
    CloneMem.dataBuffer_congr (congrArg Mbuf.mPaddr (mbuf_modify_of_ne s f hy)) fun _ _ => rfl
  buf _ := rfl

theorem mGet_of_empty (L : Layout k n) (type : MbufType) (hcache : s.core.mem.mbCache = []) :
    s.mGet L pool type = some (none, s) := by
  rw [mGet, MbufMem.mGet, hcache]
  rfl

theorem mGet_of_unavailable (L : Layout k n) (type : MbufType) (hcache : s.core.mem.mbCache ≠ [])
    (hpool : s.core.mem.rte.available pool = 0) : s.mGet L pool type = none := by
  obtain ⟨x, cache, hx⟩ := exists_cons_of_ne_nil hcache
  have hfind : (s.core.mem.rte.mempool.find? fun e => e.1 == pool) = none := by
    rw [Memory.available, countP_eq_zero] at hpool
    exact find?_eq_none.mpr hpool
  rw [mGet, MbufMem.mGet, hx, Memory.pktmbufAlloc, hfind]
  rfl

theorem mGet_got (L : Layout k n) (type : MbufType) (hcache : s.core.mem.mbCache ≠ [])
    (hpool : 0 < s.core.mem.rte.available pool) :
    ∃ x p s', s.mGet L pool type = some (some x, s') ∧
      Got s pool type false { s.words x with otherFlags := 0, pktdat := L.mbufAddr x } x p s' := by
  obtain ⟨x, cache, hx⟩ := exists_cons_of_ne_nil hcache
  obtain ⟨⟨pool', p⟩, hfind, -⟩ := Memory.exists_of_available hpool
  obtain rfl : pool' = pool := by simpa using find?_some hfind
  have hget : s.core.mem.mGet pool' type = some (some x, { s.core.mem with
        mbCache := cache
        rte := { s.core.mem.rte with mempool := s.core.mem.rte.mempool.erase (pool', p) }.modify p
          fun c => { c with
            next := none, pktLen := 0, nbSegs := 1, dataOff := 128, dataLen := 0, refcnt := 1 }
        }.modify x fun b =>
          { b with
            mNext := none, mNextpkt := none, mType := type, mEor := false, mExtSize := none
            mPkthdr := false, mPaddr := some p, mData := 128 }) := by
    rw [MbufMem.mGet, hx, Memory.pktmbufAlloc, hfind]
    simp
  refine ⟨x, p, _, congrArg (Option.map _) hget, ?_⟩
  constructor
  · exact hx
  · exact mem_of_find?_eq_some hfind
  · simp [mbuf]
  · intro y hy
    simp [mbuf, MbufMem.modify_mbuf_of_ne _ _ hy]
  · exact words_setWords ..
  · exact fun y hy => words_setWords_of_ne _ _ hy
  · rfl
  · intro c
    simp [Memory.modify_field _ _ _ _ RteMbuf.buf]
  · rfl
  · exact erase_subset
  · intro c
    simp [Memory.modify_field _ _ _ _ RteMbuf.pool]

def hdrWords (w : MbufWords) (a : Int) : MbufWords :=
  { w with otherFlags := 0, pktdat := a, rcvif := 0, csumFlags := 0, csumData := 0, tags := [] }

theorem Got.dataBuffer {hdr : Bool} {w : MbufWords} (h : Got s pool type hdr w x p s') :
    s'.core.dataBuffer x = some (s.core.owner p) := by
  have hp : (s'.core.mem.mbuf x).mPaddr = some p := congrArg Mbuf.mPaddr h.mbuf
  rw [CloneMem.dataBuffer, hp, h.attached]
  rfl

theorem Got.keeps {hdr : Bool} {w : MbufWords} (h : Got s pool type hdr w x p s') (hy : y ≠ x) :
    CloneMem.Keeps s.core s'.core y where
  mbuf := h.other y hy
  buffer := CloneMem.dataBuffer_congr (congrArg Mbuf.mPaddr (h.other y hy)) fun q _ => by
    rw [h.attached]
  buf := h.buf

theorem mGethdr_got (L : Layout k n) (type : MbufType) (hcache : s.core.mem.mbCache ≠ [])
    (hpool : 0 < s.core.mem.rte.available pool) :
    ∃ x p s', s.mGethdr L pool type = some (some x, s') ∧
      Got s pool type true (hdrWords (s.words x) (L.bufAddr (s.core.owner p) + 128)) x p s' := by
  obtain ⟨x, p, s', hget, hgot⟩ := mGet_got L type hcache hpool
  have hdata : s'.dataAddr L x = L.bufAddr (s.core.owner p) + 128 := by
    rw [dataAddr, hgot.dataBuffer, hgot.mbuf]
  refine ⟨x, p, _, congrArg (Option.map _) hget, ?_⟩
  constructor
  · exact hgot.cache
  · exact hgot.free
  · simp [hgot.mbuf]
  · intro y hy
    simp [mbuf_modify_of_ne _ _ hy, hgot.other y hy]
  · simp [hgot.words, hdata, hdrWords]
  · intro y hy
    simp [words_setWords_of_ne _ _ hy, hgot.otherWords y hy]
  · exact hgot.attached
  · exact hgot.buf
  · exact hgot.freed
  · exact hgot.mempool
  · exact hgot.home

theorem mGethdr_of_empty (L : Layout k n) (type : MbufType) (hcache : s.core.mem.mbCache = []) :
    s.mGethdr L pool type = some (none, s) := by
  rw [mGethdr, mGet_of_empty L type hcache]
  rfl

theorem mGethdr_of_unavailable (L : Layout k n) (type : MbufType)
    (hcache : s.core.mem.mbCache ≠ []) (hpool : s.core.mem.rte.available pool = 0) :
    s.mGethdr L pool type = none := by
  rw [mGethdr, mGet_of_unavailable L type hcache hpool]
  rfl

inductive Wait
  | dontwait
  | wait
  deriving DecidableEq

def mLeadingspace (L : Layout k n) (s : StructMem k n) (x : Fin k) : Int :=
  if (s.mbuf x).mPkthdr = true then s.dataAddr L x - (s.words x).pktdat
  else s.dataAddr L x - (s.words x).rcvif

/-- `M_PREPEND`, whose branches depend on `how`. -/
def mPrependSpace (L : Layout k n) (s : StructMem k n) (pool : Nat) (x : Fin k) (plen : Nat) :
    Wait → Option (Option (Fin k) × StructMem k n)
  | .dontwait =>
    if plen ≤ s.mLeadingspace L x then
      some (some x, s.modify x fun b => { b with mData := b.mData - plen, mLen := b.mLen + plen })
    else some (some x, s)
  | .wait =>
    (s.mGethdr L pool .header).map fun r =>
      match r.1 with
      | none => (none, r.2)
      | some mn => (some mn, r.2.modify mn fun b => b.inFront x plen)

def Within (L : Layout k n) (s : StructMem k n) (x : Fin k) (len : Nat) : Prop :=
  ∃ d, s.core.dataBuffer x = some d ∧ 0 ≤ (s.mbuf x).mData ∧ (s.mbuf x).mData + len ≤ L.room d

/-- What `M_PREPEND` is for: `plen` bytes in front of the packet `xs` at `x`, or all of it freed. -/
def Prepended (L : Layout k n) (s : StructMem k n) (x : Fin k) (xs : List (Fin k)) (plen : Nat)
    (r : Option (Fin k)) (s' : StructMem k n) : Prop :=
  (r = none ∧ ∀ y ∈ xs, y ∈ s'.core.mem.mbCache) ∨
  ∃ y ys, r = some y ∧ LinkedFrom s'.core.mem.mNext (some y) ys ∧ plen ≤ (s'.mbuf y).mLen ∧
    s'.Within L y plen ∧ (s'.core.chainData ys).drop plen = s.core.chainData xs ∧
    (s'.mbuf y).mPkthdr = true ∧ (s'.mbuf y).mPktLen = (s.mbuf x).mPktLen + plen

structure DataPool (L : Layout k n) (s : StructMem k n) (pool : Nat) : Prop where
  direct : ∀ p, (pool, p) ∈ s.core.mem.rte.mempool → s.core.attached p = none
  room : ∀ p, (pool, p) ∈ s.core.mem.rte.mempool → L.room p = 2048

theorem mPrependSpace_dontwait (L : Layout k n) (s : StructMem k n) (pool : Nat) (x : Fin k)
    (plen : Nat) : ∃ s', s.mPrependSpace L pool x plen .dontwait = some (some x, s') ∧
      (s'.mbuf x).mPktLen = (s.mbuf x).mPktLen := by
  by_cases hspace : (plen : Int) ≤ s.mLeadingspace L x
  · exact ⟨_, if_pos hspace, by rw [mbuf_modify]⟩
  · exact ⟨s, if_neg hspace, rfl⟩

theorem mPrependSpace_wait {plen : Nat} (hpool : DataPool L s pool) (hplen : plen ≤ 1880)
    (hlink : LinkedFrom s.core.mem.mNext (some x) xs) (hused : ∀ y ∈ xs, y ∉ s.core.mem.mbCache)
    (hcache : s.core.mem.mbCache ≠ []) (havail : 0 < s.core.mem.rte.available pool) :
    ∃ y s', s.mPrependSpace L pool x plen .wait = some (some y, s') ∧
      LinkedFrom s'.core.mem.mNext (some y) (y :: xs) ∧ (s'.mbuf y).mLen = plen ∧
      s'.Within L y plen ∧ (s'.core.chainData (y :: xs)).drop plen = s.core.chainData xs ∧
      (s'.mbuf y).mPkthdr = true ∧ (s'.mbuf y).mPktLen = plen := by
  obtain ⟨y, p, s₁, hget, hgot⟩ := mGethdr_got L .header hcache havail
  have hy : ∀ z ∈ xs, z ≠ y := by
    rintro z hz rfl
    exact hused z hz (by rw [hgot.cache]; exact mem_cons_self)
  have hkeep : ∀ z ∈ xs, CloneMem.Keeps s.core (s₁.modify y fun b => b.inFront x plen).core z :=
    fun z hz => (hgot.keeps (hy z hz)).trans (keeps_modify (hy z hz))
  have hself : (s₁.modify y fun b => b.inFront x plen).mbuf y = (s₁.mbuf y).inFront x plen :=
    mbuf_modify ..
  have hbuffer : (s₁.modify y fun b => b.inFront x plen).core.dataBuffer y = some p := by
    rw [dataBuffer_modify rfl, hgot.dataBuffer, CloneMem.owner, hpool.direct p hgot.free]
    rfl
  rw [hgot.mbuf] at hself
  have hrun : s.mPrependSpace L pool x plen .wait =
      some (some y, s₁.modify y fun b => b.inFront x plen) := congrArg (Option.map _) hget
  refine ⟨y, _, hrun, ⟨rfl, ?_⟩, ?_, ?_, ?_, ?_, ?_⟩
  · rw [show MbufMem.mNext _ y = some x from congrArg Mbuf.mNext hself]
    exact hlink.congr fun z hz => congrArg Mbuf.mNext (hkeep z hz).mbuf
  · exact congrArg Mbuf.mLen hself
  · have hdata : ((s₁.modify y fun b => b.inFront x plen).mbuf y).mData = 168 :=
      congrArg Mbuf.mData hself
    have hroom := hpool.room p hgot.free
    exact ⟨p, hbuffer, by omega, by omega⟩
  · have hlen : (CloneMem.mbufData (s₁.modify y fun b => b.inFront x plen).core y).length = plen :=
      (CloneMem.CopyLoop.length_mbufData hbuffer).trans (congrArg Mbuf.mLen hself)
    rw [CloneMem.chainData, flatMap_cons, drop_left' hlen]
    exact CloneMem.chainData_congr fun z hz => (hkeep z hz).data
  · exact congrArg Mbuf.mPkthdr hself
  · exact congrArg Mbuf.mPktLen hself

/-- `M_PREPEND` does what it is for only where it may wait, gets its mbuf, and the packet header
said 0 before. -/
theorem mPrependSpace_iff {plen : Nat} (how : Wait) (hpool : DataPool L s pool) (hpos : 1 ≤ plen)
    (hplen : plen ≤ 64) (hlink : LinkedFrom s.core.mem.mNext (some x) xs)
    (hused : ∀ y ∈ xs, y ∉ s.core.mem.mbCache) :
    (∃ r s', s.mPrependSpace L pool x plen how = some (r, s') ∧ Prepended L s x xs plen r s') ↔
      how = .wait ∧ s.core.mem.mbCache ≠ [] ∧ 0 < s.core.mem.rte.available pool ∧
        (s.mbuf x).mPktLen = 0 := by
  have hx : x ∈ xs := List.mem_of_mem_head? hlink.head?_eq
  cases how with
  | dontwait =>
    obtain ⟨s₁, hrun, hlen⟩ := mPrependSpace_dontwait L s pool x plen
    constructor
    · rintro ⟨r, s', hsome, hlaw⟩
      cases hrun.symm.trans hsome
      obtain ⟨hnone, -⟩ | ⟨y, ys, hy, -, -, -, -, -, hpktlen⟩ := hlaw
      · cases hnone
      · cases hy
        omega
    · rintro ⟨hhow, -⟩
      cases hhow
  | wait =>
    by_cases hcache : s.core.mem.mbCache = []
    · -- the packet is lost: nothing of it is freed
      have hrun : s.mPrependSpace L pool x plen .wait = some (none, s) := by
        rw [mPrependSpace, mGethdr_of_empty L .header hcache]
        rfl
      constructor
      · rintro ⟨r, s', hsome, hlaw⟩
        cases hrun.symm.trans hsome
        obtain ⟨-, hfreed⟩ | ⟨y, ys, hy, -⟩ := hlaw
        · exact absurd (hfreed x hx) (hused x hx)
        · cases hy
      · rintro ⟨-, hne, -⟩
        exact absurd hcache hne
    · by_cases havail : s.core.mem.rte.available pool = 0
      · have hrun : s.mPrependSpace L pool x plen .wait = none := by
          rw [mPrependSpace, mGethdr_of_unavailable L .header hcache havail]
          rfl
        constructor
        · rintro ⟨r, s', hsome, -⟩
          cases hrun.symm.trans hsome
        · rintro ⟨-, -, hpos', -⟩
          omega
      · obtain ⟨y, s₁, hrun, hlink', hlen, hwithin, hbytes, hhdr, hpktlen⟩ :=
          mPrependSpace_wait hpool (show plen ≤ 1880 by omega) hlink hused hcache
            (Nat.pos_of_ne_zero havail)
        constructor
        · rintro ⟨r, s', hsome, hlaw⟩
          cases hrun.symm.trans hsome
          obtain ⟨hnone, -⟩ | ⟨z, zs, hz, -, -, -, -, -, hpktlen'⟩ := hlaw
          · cases hnone
          · cases hz
            exact ⟨rfl, hcache, Nat.pos_of_ne_zero havail, by omega⟩
        · rintro ⟨-, -, -, hzero⟩
          exact ⟨some y, s₁, hrun, .inr ⟨y, y :: xs, rfl, hlink', hlen.ge, hwithin, hbytes, hhdr,
            by omega⟩⟩

def packetOfTen (pktLen : Int) : StructMem 16 16 where
  core := { mem := {
    mbuf := fun _ =>
      { mPkthdr := true, mPktLen := pktLen, mData := 128, mLen := 10, mPaddr := some 2 }
    mbCache := [0, 1]
    rte := { cell := fun _ => {}, mempool := [(0, 0), (0, 1)] } } }
  words := fun _ => { rcvif := 1, pktdat := 4608 }

def packetOfTenLayout : Layout 16 16 where
  mbufAddr x := 4096 + 256 * x.val
  bufAddr p := 8192 + 4096 * p.val
  room _ := 2048
  apart := by decide

theorem packetOfTen_dataPool (pktLen : Int) :
    DataPool packetOfTenLayout (packetOfTen pktLen) 0 :=
  ⟨fun _ _ => rfl, fun _ _ => rfl⟩

theorem mPrependSpace_iff_empty : ∃ r s',
    (packetOfTen 0).mPrependSpace packetOfTenLayout 0 2 20 .wait = some (r, s') ∧
      Prepended packetOfTenLayout (packetOfTen 0) 2 [2] 20 r s' :=
  (mPrependSpace_iff .wait (packetOfTen_dataPool 0) (by decide) (by decide)
    (show LinkedFrom (packetOfTen 0).core.mem.mNext (some 2) [2] from ⟨rfl, rfl⟩) (by decide)).mpr
      ⟨rfl, by decide, by decide, rfl⟩

/-- The packet of the device with 10 bytes, and 14 bytes in front of it: without waiting its header
says 10 afterwards, and with a new mbuf it says 14. -/
theorem prepended_length_wrong :
    (∃ s', (packetOfTen 10).mPrependSpace packetOfTenLayout 0 2 14 .dontwait = some (some 2, s') ∧
      (s'.mbuf 2).mLen = 24 ∧ (s'.mbuf 2).mPktLen = 10) ∧
    ∃ s', (packetOfTen 10).mPrependSpace packetOfTenLayout 0 2 14 .wait = some (some 0, s') ∧
      (s'.mbuf 0).mPktLen = 14 :=
  ⟨⟨_, rfl, rfl, rfl⟩, _, rfl, rfl⟩

end StructMem

end NetbsdDpdk
