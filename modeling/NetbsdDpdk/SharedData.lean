import NetbsdDpdk.MbufCopy
import NetbsdDpdk.ReferenceCount
import NetbsdDpdk.SockbufSpec

/-! Who holds which packet buffer: those in use, each with the buffer that has its data, and the
reference counters that agree with it. The mbufs of a send buffer have packet buffers of their own,
and the mbufs of copies have clones that are attached to those. -/

namespace NetbsdDpdk

open List Function Memory

variable {k n : Nat}

def stackMbufsCount : Nat := 65535

namespace Memory

variable {mem : Memory n} {p : Fin n}

def available (mem : Memory n) (pool : Nat) : Nat := mem.mempool.countP fun e => e.1 == pool

theorem exists_of_available {pool : Nat} (h : 0 < mem.available pool) :
    ∃ e, mem.mempool.find? (fun e => e.1 == pool) = some e ∧
      ((mem.mempool.erase e).countP fun e => e.1 == pool) + 1 = mem.available pool := by
  obtain ⟨e₀, hmem, hpool⟩ := countP_pos_iff.mp h
  have hfound : (mem.mempool.find? fun e => e.1 == pool).isSome :=
    find?_isSome.mpr ⟨e₀, hmem, hpool⟩
  obtain ⟨e, he⟩ := Option.isSome_iff_exists.mp hfound
  have hperm := perm_cons_erase (mem_of_find?_eq_some he)
  refine ⟨e, he, ?_⟩
  have hpos : (e.1 == pool) = true := by simpa using find?_some he
  rw [available, hperm.countP_eq, countP_cons, if_pos hpos]

structure Dereferenced (mem : Memory n) (p : Fin n) (mem' : Memory n) : Prop where
  other : ∀ q, q ≠ p → mem'.cell q = mem.cell q
  buf : (mem'.cell p).buf = (mem.cell p).buf
  count : (mem.cell p).refcnt = 1 ∧ mem'.mempool = ((mem.cell p).pool, p) :: mem.mempool ∨
    1 < (mem.cell p).refcnt ∧ (mem'.cell p).refcnt = (mem.cell p).refcnt - 1 ∧
      mem'.next p = mem.next p ∧ mem'.mempool = mem.mempool

theorem freeSeg_dereferenced (hpos : 0 < (mem.cell p).refcnt) (hlt : (mem.cell p).refcnt < 65536) :
    Dereferenced mem p (mem.freeSeg p) := by
  obtain ⟨refcnt, hrefcnt⟩ : ∃ r, (mem.cell p).refcnt = r := ⟨_, rfl⟩
  rw [hrefcnt] at hpos hlt
  by_cases hone : refcnt = 1
  · have hlast : (mem.cell p).refcnt = 1 := hrefcnt.trans hone
    rw [freeSeg_eq_reclaim hlast]
    refine ⟨fun q hq => ?_, ?_, .inl ⟨hlast, ?_⟩⟩
    · exact reclaimTo_cell_of_notMem mem (by simpa using hq)
    · simp [reclaim, reclaimTo]
    · simp [reclaim, reclaimTo]
  · have hdown : (refcnt + 65535) % 65536 = refcnt - 1 := by omega
    have hfree : mem.freeSeg p = { mem with freed := p :: mem.freed }.modify p fun m =>
        { m with refcnt := refcnt - 1 } := by
      have hne : ¬ (refcnt = 1 ∨ refcnt - 1 = 0) := by omega
      simp only [freeSeg, prefreeSeg, hrefcnt, hdown, hne, if_false]
    rw [hfree]
    refine ⟨fun q hq => ?_, ?_, .inr ⟨by omega, ?_, ?_, rfl⟩⟩
    · rw [modify_cell_of_ne _ _ hq]
    · simp
    · simp [hrefcnt]
    · simp [next]

end Memory

namespace CloneMem

variable {m m' : CloneMem k n} {x y : Fin k} {xs cs : List (Fin k)} {hs hs' : List (Fin n)}
  {p q d : Fin n}

def paddrs (m : CloneMem k n) (ys : List (Fin k)) : List (Fin n) :=
  ys.filterMap fun y => (m.mem.mbuf y).mPaddr

def buffers (m : CloneMem k n) (ys : List (Fin k)) : List (Fin n) := ys.filterMap m.dataBuffer

def freeCells (m : CloneMem k n) : List (Fin n) := m.mem.rte.mempool.map Prod.snd

theorem paddrs_cons {ys : List (Fin k)} (h : (m.mem.mbuf y).mPaddr = some p) :
    m.paddrs (y :: ys) = p :: m.paddrs ys := by
  simp [paddrs, h]

theorem mem_paddrs {ys : List (Fin k)} (hy : y ∈ ys) (hp : (m.mem.mbuf y).mPaddr = some p) :
    p ∈ m.paddrs ys := mem_filterMap.mpr ⟨y, hy, hp⟩

theorem buffers_eq (m : CloneMem k n) (ys : List (Fin k)) :
    m.buffers ys = (m.paddrs ys).map m.owner := map_filterMap.symm

theorem dataBuffer_congr (hpaddr : (m'.mem.mbuf y).mPaddr = (m.mem.mbuf y).mPaddr)
    (hatt : ∀ p, (m.mem.mbuf y).mPaddr = some p → m'.attached p = m.attached p) :
    m'.dataBuffer y = m.dataBuffer y := by
  rw [dataBuffer, dataBuffer, hpaddr]
  cases hp : (m.mem.mbuf y).mPaddr with
  | none => rfl
  | some p => rw [Option.map_some, Option.map_some, hatt p hp]

@[simp] theorem updateRte_mbuf (m : CloneMem k n) (f : Memory n → Memory n) :
    (m.updateRte f).mem.mbuf = m.mem.mbuf := rfl

@[simp] theorem updateRte_mbCache (m : CloneMem k n) (f : Memory n → Memory n) :
    (m.updateRte f).mem.mbCache = m.mem.mbCache := rfl

theorem pktmbufDetach_mbufs (m : CloneMem k n) (p d : Fin n) :
    (m.pktmbufDetach p d).mem.mbuf = m.mem.mbuf ∧
      (m.pktmbufDetach p d).mem.mbCache = m.mem.mbCache := by
  simp only [pktmbufDetach]
  split <;> simp only [updateRte_mbuf, updateRte_mbCache, and_self]

theorem owner_eq_of_none (h : m.attached p = none) : m.owner p = p := by simp [owner, h]

theorem owner_eq_of_some (h : m.attached p = some d) : m.owner p = d := by simp [owner, h]

theorem pktmbufDetach_attached (m : CloneMem k n) (p d : Fin n) :
    (m.pktmbufDetach p d).attached = update m.attached p none := by
  simp only [pktmbufDetach]
  rw [apply_ite CloneMem.attached]
  exact ite_self _

theorem pktmbufDetach_field {α : Type*} (m : CloneMem k n) (p d c : Fin n) (g : RteMbuf n → α)
    (hrefcnt : ∀ e refcnt, g { e with refcnt } = g e)
    (hdata : ∀ e dataOff dataLen, g { e with dataOff, dataLen } = g e) :
    g ((m.pktmbufDetach p d).mem.rte.cell c) = g (m.mem.rte.cell c) := by
  simp only [pktmbufDetach]
  rw [apply_ite fun m : CloneMem k n => g (m.mem.rte.cell c)]
  simp only [updateRte, put, modify_field _ _ _ _ g, hrefcnt, hdata, ite_self]

theorem freeSeg_cases (m : CloneMem k n) (p : Fin n) :
    ∃ m₁, m.freeSeg p = m₁.updateRte (fun rte => rte.freeSeg p) ∧
      (m₁ = m ∨ ∃ d, m₁ = m.pktmbufDetach p d) := by
  by_cases hlast : (m.mem.rte.cell p).refcnt = 1 ∨ ((m.mem.rte.cell p).refcnt + 65535) % 65536 = 0
  · cases hatt : m.attached p with
    | none => exact ⟨m, by simp [freeSeg, hlast, hatt], .inl rfl⟩
    | some d => exact ⟨m.pktmbufDetach p d, by simp [freeSeg, hlast, hatt], .inr ⟨d, rfl⟩⟩
  · exact ⟨m, by simp [freeSeg, hlast], .inl rfl⟩

theorem freeSeg_mbufs (m : CloneMem k n) (p : Fin n) :
    (m.freeSeg p).mem.mbuf = m.mem.mbuf ∧ (m.freeSeg p).mem.mbCache = m.mem.mbCache := by
  obtain ⟨m₁, hfree, hm₁⟩ := m.freeSeg_cases p
  rw [hfree, updateRte_mbuf, updateRte_mbCache]
  rcases hm₁ with hm₁ | ⟨d, hm₁⟩
  · rw [hm₁]
    exact ⟨rfl, rfl⟩
  · rw [hm₁]
    exact m.pktmbufDetach_mbufs p d

theorem freeSeg_next (m : CloneMem k n) {c : Fin n} (hc : c ≠ p) :
    (m.freeSeg p).mem.rte.next c = m.mem.rte.next c := by
  obtain ⟨m₁, hfree, hm₁⟩ := m.freeSeg_cases p
  have hcell := (m₁.mem.rte.freeSeg_frame p).2 c hc
  rw [hfree, Memory.next, Memory.next]
  refine (congrArg RteMbuf.next hcell).trans ?_
  rcases hm₁ with hm₁ | ⟨d, hm₁⟩
  · rw [hm₁]
  · rw [hm₁, m.pktmbufDetach_field p d c RteMbuf.next (fun _ _ => rfl) fun _ _ _ => rfl]

theorem freeSeg_field {α : Type*} (m : CloneMem k n) (p c : Fin n) (g : RteMbuf n → α)
    (hrefcnt : ∀ e refcnt, g { e with refcnt } = g e) (hnext : ∀ e next, g { e with next } = g e)
    (hdata : ∀ e dataOff dataLen, g { e with dataOff, dataLen } = g e) :
    g ((m.freeSeg p).mem.rte.cell c) = g (m.mem.rte.cell c) := by
  obtain ⟨m₁, hfree, hm₁⟩ := m.freeSeg_cases p
  rw [hfree]
  refine (Memory.freeSeg_field _ p c g hrefcnt hnext).trans ?_
  rcases hm₁ with hm₁ | ⟨d, hm₁⟩
  · rw [hm₁]
  · rw [hm₁, m.pktmbufDetach_field p d c g hrefcnt hdata]

theorem freeSeg_buf (m : CloneMem k n) (p c : Fin n) :
    ((m.freeSeg p).mem.rte.cell c).buf = (m.mem.rte.cell c).buf :=
  m.freeSeg_field p c RteMbuf.buf (fun _ _ => rfl) (fun _ _ => rfl) fun _ _ _ => rfl

theorem freeSeg_attached_of_ne (m : CloneMem k n) (hq : q ≠ p) :
    (m.freeSeg p).attached q = m.attached q := by
  obtain ⟨m₁, hfree, hm₁⟩ := m.freeSeg_cases p
  rw [hfree]
  show m₁.attached q = m.attached q
  rcases hm₁ with hm₁ | ⟨d, hm₁⟩
  · rw [hm₁]
  · rw [hm₁, pktmbufDetach_attached, update_of_ne hq]

theorem mFree_mNext (m : CloneMem k n) (x : Fin k) : (m.mFree x).1.mem.mNext = m.mem.mNext := by
  funext z
  cases hp : (m.mem.mbuf x).mPaddr with
  | none => simp [mFree, hp, MbufMem.mNext]
  | some p =>
    obtain ⟨hmbuf, -⟩ := m.freeSeg_mbufs p
    by_cases hz : z = x
    · subst hz
      simp [mFree, hp, MbufMem.mNext, hmbuf]
    · simp [mFree, hp, MbufMem.mNext, MbufMem.modify_mbuf_of_ne _ _ hz, hmbuf]

theorem mFree_next {y : Fin k} {c : Fin n} (m : CloneMem k n)
    (hc : (m.mem.mbuf y).mPaddr ≠ some c) :
    (m.mFree y).1.mem.rte.next c = m.mem.rte.next c := by
  cases hp : (m.mem.mbuf y).mPaddr with
  | none => simp [CloneMem.mFree, hp]
  | some p =>
    have hcp : c ≠ p := fun heq => hc (heq ▸ hp)
    simp [CloneMem.mFree, hp, m.freeSeg_next hcp]

theorem mFree_attached {y : Fin k} {c : Fin n} (m : CloneMem k n)
    (hc : (m.mem.mbuf y).mPaddr ≠ some c) : (m.mFree y).1.attached c = m.attached c := by
  cases hp : (m.mem.mbuf y).mPaddr with
  | none => simp [CloneMem.mFree, hp]
  | some p =>
    have hcp : c ≠ p := fun heq => hc (heq ▸ hp)
    simp [CloneMem.mFree, hp, m.freeSeg_attached_of_ne hcp]

theorem mFree_mbuf_of_ne {y z : Fin k} (m : CloneMem k n) (hz : z ≠ y) :
    (m.mFree y).1.mem.mbuf z = m.mem.mbuf z := by
  cases hp : (m.mem.mbuf y).mPaddr with
  | none => simp [CloneMem.mFree, hp]
  | some p => simp [CloneMem.mFree, hp, MbufMem.modify_mbuf_of_ne _ _ hz, (m.freeSeg_mbufs p).1]

theorem mFree_buf (m : CloneMem k n) (y : Fin k) (c : Fin n) :
    ((m.mFree y).1.mem.rte.cell c).buf = (m.mem.rte.cell c).buf := by
  cases hp : (m.mem.mbuf y).mPaddr with
  | none => simp [CloneMem.mFree, hp]
  | some p => simp [CloneMem.mFree, hp, m.freeSeg_buf]

theorem mFree_mbCache (m : CloneMem k n) (y : Fin k) :
    (m.mFree y).1.mem.mbCache = y :: m.mem.mbCache := by
  cases hp : (m.mem.mbuf y).mPaddr with
  | none => simp [CloneMem.mFree, hp]
  | some p => simp [CloneMem.mFree, hp, MbufMem.modify, (m.freeSeg_mbufs p).2]

theorem pktmbufDetach_spec (hqd : q ≠ d) :
    let m' := m.pktmbufDetach q d
    let refcnt := ((m.mem.rte.cell d).refcnt + 65535) % 65536
    (∀ c, c ≠ q → c ≠ d → m'.mem.rte.cell c = m.mem.rte.cell c) ∧
      m'.mem.rte.cell q = { m.mem.rte.cell q with dataOff := 0, dataLen := 0 } ∧
      m'.mem.rte.cell d = { m.mem.rte.cell d with refcnt } ∧
      m'.mem.rte.mempool =
        if refcnt = 0 then ((m.mem.rte.cell d).pool, d) :: m.mem.rte.mempool
        else m.mem.rte.mempool := by
  have hd : (update m.mem.rte.cell q
      { m.mem.rte.cell q with dataOff := 0, dataLen := 0 }) d = m.mem.rte.cell d :=
    update_of_ne (Ne.symm hqd) _ _
  by_cases hzero : ((m.mem.rte.cell d).refcnt + 65535) % 65536 = 0
  · simp only [pktmbufDetach, updateRte, Memory.modify, hd, hzero, if_true, put, true_and,
      update_self, update_of_ne hqd]
    exact ⟨fun c hcq hcd => by rw [update_of_ne hcd, update_of_ne hcq], trivial⟩
  · simp only [pktmbufDetach, updateRte, Memory.modify, hd, hzero, if_false, true_and,
      update_self, update_of_ne hqd]
    exact ⟨fun c hcq hcd => by rw [update_of_ne hcd, update_of_ne hcq], trivial⟩

theorem freeSeg_attached (hone : (m.mem.rte.cell q).refcnt = 1) (hatt : m.attached q = some d)
    (hqd : q ≠ d) :
    let m' := m.freeSeg q
    let refcnt := ((m.mem.rte.cell d).refcnt + 65535) % 65536
    m'.attached = update m.attached q none ∧
      (∀ c, c ≠ q → c ≠ d → m'.mem.rte.cell c = m.mem.rte.cell c) ∧
      m'.mem.rte.cell d = { m.mem.rte.cell d with refcnt } ∧
      m'.mem.rte.mempool = ((m.mem.rte.cell q).pool, q) ::
        if refcnt = 0 then ((m.mem.rte.cell d).pool, d) :: m.mem.rte.mempool
        else m.mem.rte.mempool := by
  obtain ⟨hother₁, hq₁, hd₁, hpool₁⟩ := pktmbufDetach_spec (m := m) hqd
  have hatt₁ := m.pktmbufDetach_attached q d
  obtain ⟨m₁, hm₁⟩ : ∃ m₁, m.pktmbufDetach q d = m₁ := ⟨_, rfl⟩
  rw [hm₁] at hatt₁ hother₁ hq₁ hd₁ hpool₁
  have hfree : m.freeSeg q = m₁.updateRte fun rte => rte.freeSeg q := by
    simp [freeSeg, hone, hatt, hm₁]
  have hrte : (m.freeSeg q).mem.rte = m₁.mem.rte.reclaim [q] := by
    rw [hfree]
    apply freeSeg_eq_reclaim
    rw [hq₁]
    exact hone
  have hpool : (m.freeSeg q).mem.rte.mempool =
      ((m₁.mem.rte.cell q).pool, q) :: m₁.mem.rte.mempool := by
    rw [hrte]
    simp [reclaim, reclaimTo]
  have hcell : ∀ c, c ≠ q → (m.freeSeg q).mem.rte.cell c = m₁.mem.rte.cell c := by
    intro c hcq
    rw [hrte, reclaim, reclaimTo_cell_of_notMem _ (by simpa using hcq)]
  refine ⟨by rw [hfree]; exact hatt₁, fun c hcq hcd => ?_, ?_, ?_⟩
  · rw [hcell c hcq, hother₁ c hcq hcd]
  · rw [hcell d (Ne.symm hqd), hd₁]
  · rw [hpool, hpool₁, hq₁]

structure Keeps (m m' : CloneMem k n) (z : Fin k) : Prop where
  mbuf : m'.mem.mbuf z = m.mem.mbuf z
  buffer : m'.dataBuffer z = m.dataBuffer z
  buf : ∀ c, (m'.mem.rte.cell c).buf = (m.mem.rte.cell c).buf

theorem mbufData_congr {z : Fin k} (hdata : (m'.mem.mbuf z).mData = (m.mem.mbuf z).mData)
    (hlen : (m'.mem.mbuf z).mLen = (m.mem.mbuf z).mLen) (hbuffer : m'.dataBuffer z = m.dataBuffer z)
    (hbuf : ∀ c, (m'.mem.rte.cell c).buf = (m.mem.rte.cell c).buf) :
    m'.mbufData z = m.mbufData z := by
  simp only [mbufData, hbuffer, hdata, hlen, hbuf]

theorem Keeps.data {z : Fin k} (h : Keeps m m' z) : m'.mbufData z = m.mbufData z :=
  mbufData_congr (by rw [h.mbuf]) (by rw [h.mbuf]) h.buffer h.buf

theorem Keeps.trans {m'' : CloneMem k n} {z : Fin k} (h : Keeps m m' z) (h' : Keeps m' m'' z) :
    Keeps m m'' z :=
  ⟨h'.mbuf.trans h.mbuf, h'.buffer.trans h.buffer, fun c => (h'.buf c).trans (h.buf c)⟩

theorem chainData_congr {zs : List (Fin k)} (h : ∀ z ∈ zs, m'.mbufData z = m.mbufData z) :
    m'.chainData zs = m.chainData zs := flatMap_congr h

/-! The packet buffers in use. -/

structure Holding (m : CloneMem k n) (hs : List (Fin n)) : Prop where
  nodup : hs.Nodup
  clone : ∀ q ∈ hs, ∀ d, m.attached q = some d →
    m.attached d = none ∧ (m.mem.rte.cell q).refcnt = 1
  counts : Counts (fun p => (m.mem.rte.cell p).refcnt) (hs.map m.owner)
  pool : m.freeCells.Nodup
  free : ∀ p ∈ m.freeCells, p ∉ hs ∧ p ∉ hs.map m.owner

structure Released (m : CloneMem k n) (p : Fin n) (hs : List (Fin n)) (m' : CloneMem k n) :
    Prop where
  attached : m'.attached = Function.update m.attached p none
  other : ∀ c, c ≠ p → c ≠ m.owner p → m'.mem.rte.cell c = m.mem.rte.cell c
  less : m.owner p ∈ hs.map m.owner →
    (m'.mem.rte.cell (m.owner p)).refcnt = (m.mem.rte.cell (m.owner p)).refcnt - 1
  pool : m'.freeCells.Nodup
  free : ∀ c, c ∈ m'.freeCells ↔ c ∈ m.freeCells ∨
    (c = p ∨ c = m.owner p) ∧ c ∉ hs ∧ c ∉ hs.map m.owner
  entries : ∀ e ∈ m'.mem.rte.mempool, e ∈ m.mem.rte.mempool ∨ e.1 = (m.mem.rte.cell e.2).pool

namespace Holding

theorem perm (h : Holding m hs) (hperm : hs.Perm hs') : Holding m hs' :=
  ⟨hperm.nodup_iff.mp h.nodup, fun q hq => h.clone q (hperm.mem_iff.mpr hq),
    h.counts.perm (hperm.map _), h.pool,
    fun p hp => by rw [← hperm.mem_iff, ← (hperm.map m.owner).mem_iff]; exact h.free p hp⟩

theorem congr (h : Holding m hs)
    (hcell : ∀ p, p ∈ hs ∨ p ∈ hs.map m.owner → m'.attached p = m.attached p ∧
      (m'.mem.rte.cell p).refcnt = (m.mem.rte.cell p).refcnt ∧ p ∉ m'.freeCells)
    (hpool : m'.freeCells.Nodup) : Holding m' hs := by
  have hmap : hs.map m'.owner = hs.map m.owner := map_congr_left fun c hc => by
    rw [owner, (hcell c (.inl hc)).1, owner]
  refine ⟨h.nodup, ?_, ?_, hpool, ?_⟩
  · intro q hq d hd
    obtain ⟨hatt, hrefcnt, -⟩ := hcell q (.inl hq)
    rw [hatt] at hd
    have hown : d ∈ hs.map m.owner := List.mem_map.mpr ⟨q, hq, owner_eq_of_some hd⟩
    rw [(hcell d (.inr hown)).1, hrefcnt]
    exact h.clone q hq d hd
  · rw [hmap]
    exact h.counts.congr fun d hd => (hcell d (.inr hd)).2.1
  · intro p hp
    rw [hmap]
    exact ⟨fun hmem => (hcell p (.inl hmem)).2.2 hp, fun hmem => (hcell p (.inr hmem)).2.2 hp⟩

theorem of_same (h : Holding m hs) (hatt : m'.attached = m.attached)
    (hrefcnt : ∀ p, (m'.mem.rte.cell p).refcnt = (m.mem.rte.cell p).refcnt)
    (hfree : m'.freeCells = m.freeCells) : Holding m' hs := by
  refine h.congr (fun p hp => ⟨by rw [hatt], hrefcnt p, fun hmem => ?_⟩) (hfree ▸ h.pool)
  obtain ⟨hout, hown⟩ := h.free p (hfree ▸ hmem)
  exact hp.elim hout hown

theorem notMem_free (h : Holding m hs) (hp : p ∈ hs) : p ∉ m.freeCells := fun hfree =>
  (h.free p hfree).1 hp

theorem owner_notMem_free (h : Holding m hs) (hp : p ∈ hs) : m.owner p ∉ m.freeCells :=
  fun hfree => (h.free _ hfree).2 (List.mem_map_of_mem hp)

theorem attached_owner (h : Holding m hs) (hp : p ∈ hs) : m.attached (m.owner p) = none := by
  cases hatt : m.attached p with
  | none => rw [owner_eq_of_none hatt, hatt]
  | some d => rw [owner_eq_of_some hatt, (h.clone p hp d hatt).1]

theorem cons (h : Holding m hs) (md : Fin n) (hp : p ∈ m.freeCells)
    (hmd : md = p ∨ m.attached md = none ∧ md ∈ hs)
    (hatt : ∀ c, c ≠ p → m'.attached c = m.attached c)
    (hself : m'.attached p = none ∧ md = p ∨ m'.attached p = some md ∧ md ≠ p)
    (hone : (m'.mem.rte.cell p).refcnt = 1)
    (hmore : md ≠ p → (m'.mem.rte.cell md).refcnt = (m.mem.rte.cell md).refcnt + 1)
    (hother : ∀ c, c ≠ p → c ≠ md → (m'.mem.rte.cell c).refcnt = (m.mem.rte.cell c).refcnt)
    (hperm : m.freeCells.Perm (p :: m'.freeCells)) :
    Holding m' (p :: hs) ∧ (p :: hs).map m'.owner = md :: hs.map m.owner := by
  obtain ⟨hout, hown⟩ := h.free p hp
  have hne : ∀ c ∈ hs, c ≠ p := fun c hc => ne_of_mem_of_not_mem hc hout
  have hmdowner : m'.owner p = md := by
    rcases hself with ⟨hnone, rfl⟩ | ⟨hsome, -⟩
    · exact owner_eq_of_none hnone
    · exact owner_eq_of_some hsome
  have hmap : (p :: hs).map m'.owner = md :: hs.map m.owner := by
    rw [map_cons, hmdowner]
    exact congrArg _ (map_congr_left fun c hc => by rw [owner, hatt c (hne c hc), owner])
  have hnd := nodup_cons.mp (hperm.nodup_iff.mp h.pool)
  have hmdmem : md ≠ p → md ∈ hs.map m.owner := by
    intro hmdp
    obtain ⟨hnone, hmem⟩ := hmd.resolve_left hmdp
    exact List.mem_map.mpr ⟨md, hmem, owner_eq_of_none hnone⟩
  refine ⟨⟨nodup_cons.mpr ⟨hout, h.nodup⟩, ?_, ?_, hnd.2, ?_⟩, hmap⟩
  · intro q hq d hd
    rcases mem_cons.mp hq with rfl | hq
    · rcases hself with ⟨hnone, -⟩ | ⟨hsome, hmdq⟩
      · rw [hnone] at hd
        cases hd
      · obtain rfl : md = d := by simpa [hsome] using hd
        rw [hatt md hmdq]
        exact ⟨(hmd.resolve_left hmdq).1, hone⟩
    · rw [hatt q (hne q hq)] at hd
      obtain ⟨hnone, hqone⟩ := h.clone q hq d hd
      have hdown : d ∈ hs.map m.owner := List.mem_map.mpr ⟨q, hq, owner_eq_of_some hd⟩
      have hqmd : q ≠ md := by
        rintro rfl
        have hnone' := (hmd.resolve_left (hne q hq)).1
        rw [hnone'] at hd
        cases hd
      exact ⟨(hatt d (ne_of_mem_of_not_mem hdown hown)).trans hnone,
        (hother q (hne q hq) hqmd).trans hqone⟩
  · rw [hmap]
    refine h.counts.cons ?_ fun e he hemd => hother e (ne_of_mem_of_not_mem he hown) hemd
    by_cases hmdp : md = p
    · rw [hmdp, hone, count_eq_zero_of_not_mem hown]
    · rw [hmore hmdp, ← h.counts md (hmdmem hmdp)]
  · intro c hc
    obtain ⟨hcout, hcown⟩ := h.free c (hperm.mem_iff.mpr (.tail _ hc))
    have hcp : c ≠ p := fun heq => hnd.1 (heq ▸ hc)
    have hcmd : c ≠ md := by
      by_cases hmdp : md = p
      · rw [hmdp]
        exact hcp
      · exact fun heq => hcown (heq ▸ hmdmem hmdp)
    rw [hmap]
    simp [hcp, hcmd, hcout, hcown]

theorem append {new : List (Fin n)} (h : Holding m hs) (hnd : new.Nodup)
    (hout : ∀ p ∈ new, p ∉ hs ∧ p ∉ hs.map m.owner)
    (hnew : ∀ p ∈ new, m.attached p = none ∧ (m.mem.rte.cell p).refcnt = 1 ∧ p ∉ m.freeCells) :
    Holding m (new ++ hs) := by
  have hmap : (new ++ hs).map m.owner = new ++ hs.map m.owner := by
    rw [map_append, map_congr_left fun p hp => owner_eq_of_none (hnew p hp).1, List.map_id']
  refine ⟨nodup_append'.mpr ⟨hnd, h.nodup, fun p hp => (hout p hp).1⟩, ?_, ?_, h.pool, ?_⟩
  · intro q hq d hd
    rcases mem_append.mp hq with hq | hq
    · rw [(hnew q hq).1] at hd
      cases hd
    · exact h.clone q hq d hd
  · rw [hmap]
    exact h.counts.append hnd fun p hp => ⟨(hnew p hp).2.1, (hout p hp).2⟩
  · intro p hp
    rw [hmap, mem_append, mem_append, not_or, not_or]
    have hpnew : p ∉ new := fun hmem => (hnew p hmem).2.2 hp
    exact ⟨⟨hpnew, (h.free p hp).1⟩, hpnew, (h.free p hp).2⟩

theorem released_direct (h : Holding m (p :: hs)) (hatt : m.attached p = none)
    (hle : (m.mem.rte.cell p).refcnt ≤ 65535) : Released m p hs (m.freeSeg p) := by
  have hd := owner_eq_of_none hatt
  have hcounts := h.counts
  rw [map_cons, hd] at hcounts
  have hrte : (m.freeSeg p).mem.rte = m.mem.rte.freeSeg p := by
    simp [CloneMem.freeSeg, hatt, updateRte]
  obtain ⟨hother, -, hcount⟩ :=
    freeSeg_dereferenced (hcounts.pos (d := p) (by simp)) (by omega)
  have hpfree : p ∉ m.freeCells := h.notMem_free (by simp)
  refine ⟨?_, ?_, ?_, ?_, ?_, ?_⟩
  · rw [← hatt, update_eq_self]
    simp [CloneMem.freeSeg, hatt, updateRte]
  · intro c hc _
    rw [hrte, hother c hc]
  · rw [hd, hrte]
    intro hmem
    rcases hcount with ⟨hlast, -⟩ | ⟨-, hless, -⟩
    · exact absurd hmem (hcounts.eq_one_iff.mp hlast)
    · exact hless
  · rw [freeCells, hrte]
    rcases hcount with ⟨-, hmempool⟩ | ⟨-, -, -, hmempool⟩
    · rw [hmempool]
      exact nodup_cons.mpr ⟨hpfree, h.pool⟩
    · rw [hmempool]
      exact h.pool
  · intro c
    rw [freeCells, hrte, hd, or_self]
    rcases hcount with ⟨hlast, hmempool⟩ | ⟨hmore, -, -, hmempool⟩
    · have hgone := hcounts.eq_one_iff.mp hlast
      rw [hmempool, map_cons, mem_cons]
      constructor
      · rintro (rfl | hc)
        · exact .inr ⟨rfl, (nodup_cons.mp h.nodup).1, hgone⟩
        · exact .inl hc
      · rintro (hc | ⟨hc, -⟩)
        · exact .inr hc
        · exact .inl hc
    · have hheld : p ∈ hs.map m.owner := by
        by_contra hgone
        have hone := hcounts.eq_one_iff.mpr hgone
        omega
      rw [hmempool]
      constructor
      · exact .inl
      · rintro (hc | ⟨hc, -, hgone⟩)
        · exact hc
        · exact absurd (hc ▸ hheld) hgone
  · intro e he
    rw [hrte] at he
    rcases hcount with ⟨-, hmempool⟩ | ⟨-, -, -, hmempool⟩
    · rw [hmempool] at he
      rcases mem_cons.mp he with rfl | he
      · exact .inr rfl
      · exact .inl he
    · exact .inl (hmempool ▸ he)

theorem released_clone (h : Holding m (q :: hs)) (hatt : m.attached q = some d)
    (hle : (m.mem.rte.cell d).refcnt ≤ 65535) : Released m q hs (m.freeSeg q) := by
  have hd := owner_eq_of_some hatt
  obtain ⟨hdnone, hone⟩ := h.clone q (by simp) d hatt
  have hqd : q ≠ d := by
    rintro rfl
    rw [hdnone] at hatt
    cases hatt
  have hcounts := h.counts
  rw [map_cons, hd] at hcounts
  have hpos := hcounts.pos (d := d) (by simp)
  obtain ⟨hatt', hother, hdcell, hmempool⟩ := freeSeg_attached hone hatt hqd
  have hdown : ((m.mem.rte.cell d).refcnt + 65535) % 65536 = (m.mem.rte.cell d).refcnt - 1 := by
    omega
  rw [hdown] at hdcell hmempool
  have hqfree : q ∉ m.freeCells := h.notMem_free (by simp)
  have hdfree : d ∉ m.freeCells := hd ▸ h.owner_notMem_free (by simp)
  have hout : q ∉ hs := (nodup_cons.mp h.nodup).1
  have hqown : q ∉ hs.map m.owner := by
    intro hmem
    obtain ⟨c, hc, hcq⟩ := List.mem_map.mp hmem
    have hnone := h.attached_owner (.tail _ hc)
    rw [hcq, hatt] at hnone
    cases hnone
  refine ⟨hatt', fun c hc hcd => hother c hc (hd ▸ hcd), fun _ => by rw [hd, hdcell], ?_, ?_, ?_⟩
  · rw [freeCells, hmempool, map_cons]
    split
    · rw [map_cons]
      have hq : q ∉ d :: m.freeCells := by
        rw [mem_cons, not_or]
        exact ⟨hqd, hqfree⟩
      exact nodup_cons.mpr ⟨hq, nodup_cons.mpr ⟨hdfree, h.pool⟩⟩
    · exact nodup_cons.mpr ⟨hqfree, h.pool⟩
  · intro c
    rw [hd]
    by_cases hlast : (m.mem.rte.cell d).refcnt = 1
    · have hgone := hcounts.eq_one_iff.mp hlast
      have hdout : d ∉ hs := fun hmem =>
        hgone (List.mem_map.mpr ⟨d, hmem, owner_eq_of_none hdnone⟩)
      have hzero : (m.mem.rte.cell d).refcnt - 1 = 0 := by omega
      rw [freeCells, hmempool, if_pos hzero, map_cons, map_cons, mem_cons, mem_cons]
      constructor
      · rintro (rfl | rfl | hc)
        · exact .inr ⟨.inl rfl, hout, hqown⟩
        · exact .inr ⟨.inr rfl, hdout, hgone⟩
        · exact .inl hc
      · rintro (hc | ⟨hc | hc, -⟩)
        · exact .inr (.inr hc)
        · exact .inl hc
        · exact .inr (.inl hc)
    · have hheld : d ∈ hs.map m.owner := by
        by_contra hgone
        exact hlast (hcounts.eq_one_iff.mpr hgone)
      have hzero : (m.mem.rte.cell d).refcnt - 1 ≠ 0 := by omega
      rw [freeCells, hmempool, if_neg hzero, map_cons, mem_cons]
      constructor
      · rintro (rfl | hc)
        · exact .inr ⟨.inl rfl, hout, hqown⟩
        · exact .inl hc
      · rintro (hc | ⟨hc | hc, -, hgone⟩)
        · exact .inr hc
        · exact .inl hc
        · exact absurd (hc ▸ hheld) hgone
  · intro e he
    rw [hmempool] at he
    rcases mem_cons.mp he with rfl | he
    · exact .inr rfl
    · split at he
      · rcases mem_cons.mp he with rfl | he
        · exact .inr rfl
        · exact .inl he
      · exact .inl he

theorem released (h : Holding m (p :: hs)) (hle : (m.mem.rte.cell (m.owner p)).refcnt ≤ 65535) :
    Released m p hs (m.freeSeg p) := by
  cases hatt : m.attached p with
  | none => exact h.released_direct hatt (owner_eq_of_none hatt ▸ hle)
  | some d => exact h.released_clone hatt (owner_eq_of_some hatt ▸ hle)

theorem tail (h : Holding m (p :: hs)) (hrel : Released m p hs m') :
    Holding m' hs ∧ hs.map m'.owner = hs.map m.owner := by
  obtain ⟨hout, hnd⟩ := nodup_cons.mp h.nodup
  have hdnone : m.attached (m.owner p) = none := h.attached_owner (by simp)
  have hne : ∀ c ∈ hs, c ≠ p := fun c hc => ne_of_mem_of_not_mem hc hout
  have hatt : ∀ c, c ≠ p → m'.attached c = m.attached c := fun c hc => by
    rw [hrel.attached, update_of_ne hc]
  have hmap : hs.map m'.owner = hs.map m.owner := map_congr_left fun c hc => by
    rw [owner, hatt c (hne c hc), owner]
  have hown : ∀ c ∈ hs.map m.owner, c ≠ m.owner p → c ≠ p := by
    rintro c hc hcd rfl
    -- a clone has no data of others
    obtain ⟨e, he, hec⟩ := List.mem_map.mp hc
    have hnone := h.attached_owner (.tail _ he)
    rw [hec] at hnone
    exact hcd (owner_eq_of_none hnone).symm
  refine ⟨⟨hnd, ?_, ?_, hrel.pool, ?_⟩, hmap⟩
  · intro q hq e he
    rw [hatt q (hne q hq)] at he
    obtain ⟨hnone, hone⟩ := h.clone q (.tail _ hq) e he
    have hqd : q ≠ m.owner p := by
      rintro rfl
      rw [hdnone] at he
      cases he
    rw [hrel.other q (hne q hq) hqd]
    refine ⟨?_, hone⟩
    by_cases hep : e = p
    · rw [hep, hrel.attached, update_self]
    · rw [hatt e hep, hnone]
  · rw [hmap]
    refine h.counts.tail hrel.less fun c hc hcd => ?_
    show (m'.mem.rte.cell c).refcnt = _
    rw [hrel.other c (hown c hc hcd) hcd]
  · intro c hc
    rw [hmap]
    rcases (hrel.free c).mp hc with hc | ⟨-, hc⟩
    · obtain ⟨hc, hc'⟩ := h.free c hc
      exact ⟨fun hmem => hc (.tail _ hmem), fun hmem => hc' (.tail _ hmem)⟩
    · exact hc

end Holding

structure Ledger (m : CloneMem k n) (xs cs : List (Fin k)) : Prop where
  nodup : (xs ++ cs).Nodup
  used : ∀ y ∈ xs ++ cs, y ∉ m.mem.mbCache
  cache : m.mem.mbCache.Nodup
  direct : ∀ x ∈ xs, ∃ p, (m.mem.mbuf x).mPaddr = some p ∧ m.attached p = none ∧
    m.mem.rte.next p = none
  clone : ∀ y ∈ cs, ∃ q d, (m.mem.mbuf y).mPaddr = some q ∧ m.attached q = some d
  holding : Holding m (m.paddrs (xs ++ cs))

namespace Ledger

theorem perm {xs' cs' : List (Fin k)} (h : Ledger m xs cs) (hxs : xs.Perm xs')
    (hcs : cs.Perm cs') : Ledger m xs' cs' := by
  have hall : (xs ++ cs).Perm (xs' ++ cs') := hxs.append hcs
  exact ⟨hall.nodup_iff.mp h.nodup, fun y hy => h.used y (hall.mem_iff.mpr hy), h.cache,
    fun x hx => h.direct x (hxs.mem_iff.mpr hx), fun y hy => h.clone y (hcs.mem_iff.mpr hy),
    h.holding.perm (hall.filterMap _)⟩

theorem congr (h : Ledger m xs cs)
    (hpaddr : ∀ z ∈ xs ++ cs, (m'.mem.mbuf z).mPaddr = (m.mem.mbuf z).mPaddr)
    (hused : ∀ z ∈ xs ++ cs, z ∉ m'.mem.mbCache) (hcache : m'.mem.mbCache.Nodup)
    (hcell : ∀ p ∈ m.paddrs (xs ++ cs), m'.attached p = m.attached p ∧
      m'.mem.rte.next p = m.mem.rte.next p)
    (hholding : Holding m' (m.paddrs (xs ++ cs))) : Ledger m' xs cs := by
  have hpaddrs : m'.paddrs (xs ++ cs) = m.paddrs (xs ++ cs) := filterMap_congr hpaddr
  refine ⟨h.nodup, hused, hcache, ?_, ?_, hpaddrs ▸ hholding⟩
  · intro x hx
    have hx' : x ∈ xs ++ cs := mem_append_left _ hx
    obtain ⟨p, hp, hatt, hnext⟩ := h.direct x hx
    obtain ⟨hatt', hnext'⟩ := hcell p (mem_paddrs hx' hp)
    exact ⟨p, (hpaddr x hx').trans hp, hatt'.trans hatt, hnext'.trans hnext⟩
  · intro y hy
    have hy' : y ∈ xs ++ cs := mem_append_right _ hy
    obtain ⟨q, d, hq, hatt⟩ := h.clone y hy
    exact ⟨q, d, (hpaddr y hy').trans hq, (hcell q (mem_paddrs hy' hq)).1.trans hatt⟩

theorem of_mPaddr (h : Ledger m xs cs)
    (hpaddr : ∀ z, (m'.mem.mbuf z).mPaddr = (m.mem.mbuf z).mPaddr)
    (hcache : m'.mem.mbCache = m.mem.mbCache) (hrte : m'.mem.rte = m.mem.rte)
    (hatt : m'.attached = m.attached) : Ledger m' xs cs := by
  refine h.congr (fun z _ => hpaddr z) (by rw [hcache]; exact h.used)
    (by rw [hcache]; exact h.cache) (fun p _ => by rw [hatt, hrte]; exact ⟨rfl, rfl⟩) ?_
  exact h.holding.of_same hatt (fun p => by rw [hrte]) (by rw [freeCells, hrte, freeCells])

theorem exists_paddr (h : Ledger m xs cs) (hy : y ∈ xs ++ cs) :
    ∃ p, (m.mem.mbuf y).mPaddr = some p := by
  rcases mem_append.mp hy with hy | hy
  · obtain ⟨p, hp, -⟩ := h.direct y hy
    exact ⟨p, hp⟩
  · obtain ⟨q, d, hq, -⟩ := h.clone y hy
    exact ⟨q, hq⟩

theorem refcnt_le (h : Ledger m xs cs) (hk : k ≤ stackMbufsCount)
    (hd : d ∈ (m.paddrs (xs ++ cs)).map m.owner) :
    (m.mem.rte.cell d).refcnt ≤ (xs ++ cs).length ∧ (xs ++ cs).length ≤ 65535 := by
  have hle := h.holding.counts.le_length hd
  have hlen : (m.paddrs (xs ++ cs)).length ≤ (xs ++ cs).length := length_filterMap_le ..
  have hcard : (xs ++ cs).length ≤ k := by simpa using h.nodup.length_le_card
  rw [length_map] at hle
  simp only [stackMbufsCount] at hk
  omega

theorem mFree {xs' cs' : List (Fin k)} (h : Ledger m xs cs) (hk : k ≤ stackMbufsCount)
    (hheld : (xs ++ cs).Perm (y :: (xs' ++ cs'))) (hxs : xs' ⊆ xs) (hcs : cs' ⊆ cs) :
    Ledger (m.mFree y).1 xs' cs' ∧ ∀ z ∈ xs' ++ cs', Keeps m (m.mFree y).1 z := by
  obtain ⟨hy, hnd⟩ := nodup_cons.mp (hheld.nodup_iff.mp h.nodup)
  have hymem : y ∈ xs ++ cs := hheld.mem_iff.mpr (by simp)
  obtain ⟨p, hp⟩ := h.exists_paddr hymem
  have hholding : Holding m (p :: m.paddrs (xs' ++ cs')) := by
    rw [← paddrs_cons hp]
    exact h.holding.perm (hheld.filterMap _)
  have hle := h.refcnt_le hk (List.mem_map_of_mem (mem_paddrs hymem hp))
  obtain ⟨hholding', -⟩ := hholding.tail (hholding.released (hle.1.trans hle.2))
  have hne : ∀ q ∈ m.paddrs (xs' ++ cs'), (m.mem.mbuf y).mPaddr ≠ some q := by
    intro q hq heq
    obtain rfl : p = q := by simpa [hp] using heq
    exact (nodup_cons.mp hholding.nodup).1 hq
  have hmbuf : ∀ z ∈ xs' ++ cs', (m.mFree y).1.mem.mbuf z = m.mem.mbuf z := fun z hz =>
    mFree_mbuf_of_ne m (ne_of_mem_of_not_mem hz hy)
  refine ⟨⟨hnd, fun z hz => ?_, ?_, fun x hx => ?_, fun z hz => ?_, ?_⟩, fun z hz => ?_⟩
  · rw [mFree_mbCache]
    exact not_mem_cons_of_ne_of_not_mem (ne_of_mem_of_not_mem hz hy)
      (h.used z (hheld.mem_iff.mpr (.tail _ hz)))
  · rw [mFree_mbCache]
    exact nodup_cons.mpr ⟨h.used y hymem, h.cache⟩
  · have hx' : x ∈ xs' ++ cs' := mem_append_left _ hx
    obtain ⟨q, hq, hatt, hnext⟩ := h.direct x (hxs hx)
    have hqne := hne q (mem_paddrs hx' hq)
    exact ⟨q, by rw [hmbuf x hx', hq], (mFree_attached m hqne).trans hatt,
      (mFree_next m hqne).trans hnext⟩
  · have hz' : z ∈ xs' ++ cs' := mem_append_right _ hz
    obtain ⟨q, d, hq, hatt⟩ := h.clone z (hcs hz)
    exact ⟨q, d, by rw [hmbuf z hz', hq], (mFree_attached m (hne q (mem_paddrs hz' hq))).trans hatt⟩
  · have hpaddrs : (m.mFree y).1.paddrs (xs' ++ cs') = m.paddrs (xs' ++ cs') :=
      filterMap_congr fun z hz => by rw [hmbuf z hz]
    rw [hpaddrs]
    refine hholding'.of_same ?_ (fun q => ?_) ?_
    all_goals simp [CloneMem.mFree, hp, freeCells]
  · exact ⟨hmbuf z hz, dataBuffer_congr (by rw [hmbuf z hz]) fun q hq =>
      mFree_attached m (hne q (mem_paddrs hz hq)), mFree_buf m y⟩

theorem mFree_direct (h : Ledger m (x :: xs) cs) (hk : k ≤ stackMbufsCount) :
    Ledger { m with mem := (m.mem.mFree x).1 } xs cs := by
  obtain ⟨p, hp, hatt, -⟩ := h.direct x (by simp)
  have hsame : (m.mFree x).1 = { m with mem := (m.mem.mFree x).1 } := by
    simp [CloneMem.mFree, MbufMem.mFree, hp, freeSeg, hatt, updateRte]
  rw [← hsame]
  exact (h.mFree hk (by simp) (by simp) (by simp)).1

end Ledger

structure Cloned (m : CloneMem k n) (md mc : Fin n) (m' : CloneMem k n) : Prop where
  pool : mc ∈ m.mem.rte.mempool.map Prod.snd
  rest : (m.mem.rte.mempool.map Prod.snd).Nodup →
    (m'.mem.rte.mempool.map Prod.snd).Nodup ∧
      ∀ p ∈ m'.mem.rte.mempool.map Prod.snd, p ∈ m.mem.rte.mempool.map Prod.snd ∧ p ≠ mc
  attached : m'.attached = Function.update m.attached mc (some (m.owner md))
  mbuf : m'.mem.mbuf = m.mem.mbuf
  mbCache : m'.mem.mbCache = m.mem.mbCache
  other : ∀ c, c ≠ mc → c ≠ md → m'.mem.rte.cell c = m.mem.rte.cell c
  buf : ∀ c, (m'.mem.rte.cell c).buf = (m.mem.rte.cell c).buf
  home : ∀ c, (m'.mem.rte.cell c).pool = (m.mem.rte.cell c).pool
  clone : (m'.mem.rte.cell mc).refcnt = 1
  last : m'.mem.rte.next mc = none
  data : (m'.mem.rte.cell md).refcnt = ((m.mem.rte.cell md).refcnt + 1) % 65536 ∧
    m'.mem.rte.next md = m.mem.rte.next md

theorem pktmbufClone_some {pool pl : Nat} {md mc : Fin n}
    (hfind : m.mem.rte.mempool.find? (fun e => e.1 == pool) = some (pl, mc))
    (hnext : m.mem.rte.next md = none) (hmd : md ∉ m.mem.rte.mempool.map Prod.snd) :
    ∃ m', m.pktmbufClone pool md = some (some mc, m') ∧ Cloned m md mc m' ∧
      m'.mem.rte.mempool = m.mem.rte.mempool.erase (pl, mc) := by
  have hmem : (pl, mc) ∈ m.mem.rte.mempool := mem_of_find?_eq_some hfind
  have hmc : mc ∈ m.mem.rte.mempool.map Prod.snd := List.mem_map.mpr ⟨_, hmem, rfl⟩
  have hne : md ≠ mc := fun heq => hmd (heq ▸ hmc)
  obtain ⟨rte, hrte⟩ : ∃ rte, { m.mem.rte with mempool := m.mem.rte.mempool.erase (pl, mc) }.modify
    mc (fun c => { c with
      next := none, pktLen := 0, nbSegs := 1, dataOff := 128, dataLen := 0, refcnt := 1 }) = rte :=
    ⟨_, rfl⟩
  have halloc : m.mem.rte.pktmbufAlloc pool = some (mc, rte) := by
    simp [pktmbufAlloc, hfind, ← hrte]
  have hmd₁ : rte.cell md = m.mem.rte.cell md := by
    rw [← hrte]
    exact modify_cell_of_ne _ _ hne
  obtain ⟨m₂, hm₂⟩ : ∃ m₂, (m.updateRte fun _ => rte).pktmbufAttach mc md = m₂ := ⟨_, rfl⟩
  have hnext₂ : m₂.mem.rte.next md = none := by
    rw [← hm₂]
    simpa [pktmbufAttach, updateRte, Memory.next, modify_cell_of_ne _ _ hne, hmd₁] using
      hnext
  obtain ⟨n, rfl⟩ : ∃ j, n = j + 1 := ⟨n - 1, by have := md.pos; omega⟩
  have hsegs : cloneSegs pool (n + 1) (m.updateRte fun _ => rte) none mc md =
      some (1, true, m₂) := by
    simp only [cloneSegs, hm₂, hnext₂]
  obtain ⟨m', hm'⟩ : ∃ m', (m₂.updateRte fun rte => rte.modify mc fun c =>
      { c with nbSegs := 1 % 256, pktLen := (m.mem.rte.cell md).pktLen }) = m' := ⟨_, rfl⟩
  have hclone : m.pktmbufClone pool md = some (some mc, m') := by
    simp only [pktmbufClone, halloc, hsegs, if_true, hm']
  have hcell : ∀ c, c ≠ mc → m'.mem.rte.cell c = { m.mem.rte.cell c with
      refcnt := if c = md then ((m.mem.rte.cell md).refcnt + 1) % 65536
        else (m.mem.rte.cell c).refcnt } := by
    intro c hc
    have hc₁ : rte.cell c = m.mem.rte.cell c := by
      rw [← hrte]
      exact modify_cell_of_ne _ _ hc
    have hc₂ : m'.mem.rte.cell c = m₂.mem.rte.cell c := by
      rw [← hm']
      simp [updateRte, modify_cell_of_ne _ _ hc]
    rw [hc₂, ← hm₂]
    by_cases hcmd : c = md
    · subst hcmd
      simp [pktmbufAttach, updateRte, modify_cell_of_ne _ _ hc, hc₁]
    · simp [pktmbufAttach, updateRte, modify_cell_of_ne _ _ hc,
        modify_cell_of_ne _ _ hcmd, hc₁, hcmd]
  have hself : (m'.mem.rte.cell mc).buf = (m.mem.rte.cell mc).buf ∧
      (m'.mem.rte.cell mc).pool = (m.mem.rte.cell mc).pool ∧
      (m'.mem.rte.cell mc).refcnt = 1 ∧ m'.mem.rte.next mc = none := by
    rw [← hm', ← hm₂, ← hrte]
    simp [pktmbufAttach, updateRte, modify_cell_of_ne _ _ (Ne.symm hne), Memory.next]
  have hpool : m'.mem.rte.mempool = m.mem.rte.mempool.erase (pl, mc) := by
    rw [← hm', ← hm₂, ← hrte]
    rfl
  have hperm := (perm_cons_erase hmem).map Prod.snd
  refine ⟨m', hclone, ⟨hmc, ?_, by rw [← hm', ← hm₂]; rfl, by rw [← hm', ← hm₂]; rfl,
    by rw [← hm', ← hm₂]; rfl, ?_, ?_, ?_, hself.2.2.1, hself.2.2.2, ?_⟩, hpool⟩
  · intro hnd
    have hnd' := hperm.nodup_iff.mp hnd
    rw [map_cons] at hnd' hperm
    rw [hpool]
    refine ⟨(nodup_cons.mp hnd').2, fun p hp => ⟨hperm.mem_iff.mpr (.tail _ hp), ?_⟩⟩
    rintro rfl
    exact (nodup_cons.mp hnd').1 hp
  · intro c hc hcmd
    rw [hcell c hc, if_neg hcmd]
  · intro c
    by_cases hc : c = mc
    · subst hc
      exact hself.1
    · rw [hcell c hc]
  · intro c
    by_cases hc : c = mc
    · subst hc
      exact hself.2.1
    · rw [hcell c hc]
  · rw [Memory.next, hcell md hne, if_pos rfl]
    exact ⟨rfl, rfl⟩

end CloneMem

end NetbsdDpdk
