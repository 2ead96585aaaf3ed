import NetbsdDpdk.BufferAccounts
import NetbsdDpdk.Transition

/-! The send buffer of a stream socket as a queue of bytes: every sequence of appends, drops and
copies of a range, with the copies that are outstanding. -/

namespace NetbsdDpdk

open List

open CloneMem

variable {k n : Nat}

/-- `mbufs` and `bytes` are not in the code: the mbufs of its chain, and the bytes that were asked
for. -/
structure SndCopy (k : Nat) where
  top : Fin k
  mbufs : List (Fin k)
  bytes : List UInt8

/-- `appended` and `dropped` are not in the code: all bytes that were appended, and how many of them
have been dropped. -/
structure SndQueue (k n : Nat) where
  m : CloneMem k n
  sb : Sockbuf k := {}
  slot : Option TxSlot := none
  appended : List UInt8 := []
  dropped : Nat := 0
  copies : List (SndCopy k) := []

namespace SndQueue

def queued (s : SndQueue k n) : List (Fin k) := (walkFrom s.m.mem.mNext k s.sb.sbMb).getD []

def copied (s : SndQueue k n) : List (Fin k) := s.copies.flatMap SndCopy.mbufs

def held (s : SndQueue k n) : List (Fin k) := s.queued ++ s.copied

/-- The rest of the system leaves the send buffer and the copies alone, and frees nothing twice. -/
def Leaves (s : SndQueue k n) (m : CloneMem k n) : Prop :=
  s.m.mem.Leaves s.held m.mem ∧ (m.mem.rte.mempool.map Prod.snd).Nodup ∧
    (∀ y ∈ s.held, m.mbufData y = s.m.mbufData y) ∧
    ∀ p ∈ s.m.paddrs s.held ++ s.m.buffers s.held,
      m.attached p = s.m.attached p ∧
        (m.mem.rte.cell p).refcnt = (s.m.mem.rte.cell p).refcnt ∧
        m.mem.rte.next p = s.m.mem.rte.next p ∧ p ∉ m.mem.rte.mempool.map Prod.snd

instance (s : SndQueue k n) (m : CloneMem k n) : Decidable (s.Leaves m) :=
  inferInstanceAs (Decidable (_ ∧ _))

def Own (m : CloneMem k n) (y : Fin k) : Prop :=
  (0 ≤ (m.mem.mbuf y).mData ∧ (m.mem.mbuf y).mData + (m.mem.mbuf y).mLen ≤ mbufSize) ∧
    ∃ p, (m.mem.mbuf y).mPaddr = some p ∧ m.attached p = none ∧ m.mem.rte.next p = none ∧
      (m.mem.rte.cell p).refcnt = 1 ∧ p ∉ m.mem.rte.mempool.map Prod.snd

instance (m : CloneMem k n) (y : Fin k) : Decidable (Own m y) :=
  inferInstanceAs (Decidable (_ ∧ _))

/-- A chain that may be appended: unused mbufs with packet buffers of their own. -/
def Insertable (s : SndQueue k n) (ms : List (Fin k)) : Prop :=
  (ms.Nodup ∧ (s.m.paddrs ms).Nodup) ∧
    (∀ p ∈ s.m.paddrs ms, p ∉ s.m.paddrs s.held ∧ p ∉ s.m.buffers s.held) ∧
    ∀ y ∈ ms, s.m.mem.Unused s.held y ∧ Own s.m y

instance (s : SndQueue k n) (ms : List (Fin k)) : Decidable (s.Insertable ms) :=
  inferInstanceAs (Decidable (_ ∧ _))

structure Initial (s : SndQueue k n) : Prop where
  sb : s.sb.Empty
  appended : s.appended = []
  dropped : s.dropped = 0
  copies : s.copies = []
  cache : s.m.mem.mbCache.Nodup
  pool : (s.m.mem.rte.mempool.map Prod.snd).Nodup

end SndQueue

inductive SndAction (k n : Nat)
  | others (m : CloneMem k n) (slot : Option TxSlot)
  | append (x : Fin k)
  | drop (len : Nat)
  | copy (pool off len : Nat)
  | free (i : Nat)

/-- One step. A copy is of a range that the buffer has, and all its clones have been got. -/
def sndStep (s : SndQueue k n) : SndAction k n → Option (SndQueue k n)
  | .others m slot => do
    guard (s.Leaves m)
    return { s with m, slot }
  | .append x => do
    let ms ← walkFrom s.m.mem.mNext k (some x)
    guard (s.Insertable ms)
    let (mem, sb, slot) ← sbappendstream s.m.mem s.sb s.slot x
    return { s with
      m := ⟨mem, s.m.attached⟩, sb, slot, appended := s.appended ++ s.m.chainData ms }
  | .drop len => do
    guard ((len : Int) ≤ s.sb.sbCc)
    let (mem, sb, slot) ← sbdrop s.m.mem s.sb s.slot len
    return { s with m := ⟨mem, s.m.attached⟩, sb, slot, dropped := s.dropped + len }
  | .copy pool off len => do
    guard (0 < len ∧ ((off + len : Nat) : Int) ≤ s.sb.sbCc)
    let (top, cloned, m) ← s.m.mCopym pool s.sb.sbMb off len
    guard (cloned = true)
    let top ← top
    let mbufs ← walkFrom m.mem.mNext k (some top)
    let bytes := (s.appended.drop (s.dropped + off)).take len
    return { s with m, copies := ⟨top, mbufs, bytes⟩ :: s.copies }
  | .free i => do
    let c ← s.copies[i]?
    let m ← s.m.mFreem k (some c.top)
    return { s with m, copies := s.copies.eraseIdx i }

/-- For a copy there are free mbufs and packet buffers for all the mbufs that are queued. -/
def SndQueue.Ready (s : SndQueue k n) : SndAction k n → Prop
  | .others m _ => s.Leaves m
  | .append x => ∃ ms, walkFrom s.m.mem.mNext k (some x) = some ms ∧ s.Insertable ms
  | .drop len => (len : Int) ≤ s.sb.sbCc
  | .copy pool off len => (0 < len ∧ ((off + len : Nat) : Int) ≤ s.sb.sbCc) ∧
      s.queued.length ≤ s.m.mem.mbCache.length ∧ s.queued.length ≤ s.m.mem.rte.available pool
  | .free i => i < s.copies.length

structure SndRefines (s : SndQueue k n) : Prop where
  dropped : s.dropped ≤ s.appended.length
  cc : s.sb.sbCc = (s.appended.length - s.dropped : Nat)
  linked : LinkedFrom s.m.mem.mNext s.sb.sbMb s.queued
  bytes : s.m.chainData s.queued = s.appended.drop s.dropped
  copies : ∀ c ∈ s.copies, LinkedFrom s.m.mem.mNext (some c.top) c.mbufs ∧
    s.m.chainData c.mbufs = c.bytes
  kept : ∀ c ∈ s.copies, ∀ y ∈ c.mbufs, ∃ d, s.m.dataBuffer y = some d ∧
    0 < (s.m.mem.rte.cell d).refcnt ∧ d ∉ s.m.mem.rte.mempool.map Prod.snd

structure SndInv (s : SndQueue k n) (xs : List (Fin k)) : Prop where
  rep : SbRep s.m.mem s.sb xs
  carries : Carries s.m xs s.copied (s.appended.drop s.dropped)
  dropped : s.dropped ≤ s.appended.length
  copies : ∀ c ∈ s.copies, LinkedFrom s.m.mem.mNext (some c.top) c.mbufs ∧
    s.m.chainData c.mbufs = c.bytes

namespace CloneMem

variable {m : CloneMem k n} {xs cs zs : List (Fin k)} {p : Option (Fin k)} {data : List UInt8}

theorem Ledger.mFreem {fuel : Nat} (hk : k ≤ stackMbufsCount) (h : Ledger m xs (zs ++ cs))
    (hlink : LinkedFrom m.mem.mNext p zs) (hfuel : zs.length ≤ fuel) :
    ∃ m', m.mFreem fuel p = some m' ∧ Ledger m' xs cs ∧ ∀ z ∈ xs ++ cs, Keeps m m' z := by
  induction zs generalizing m p fuel with
  | nil =>
    cases hlink
    exact ⟨m, by cases fuel <;> rfl, h, fun z _ => ⟨rfl, rfl, fun _ => rfl⟩⟩
  | cons y zs ih =>
    obtain ⟨rfl, htail⟩ := hlink
    obtain ⟨fuel, rfl, hf⟩ := exists_fuel hfuel
    obtain ⟨hledger, hkeeps⟩ := h.mFree hk perm_middle (List.Subset.refl _) (by simp)
    have htail' : LinkedFrom (m.mFree y).1.mem.mNext (m.mem.mNext y) zs := by
      rw [mFree_mNext]
      exact htail
    obtain ⟨m', hfree, hledger', hkeeps'⟩ := ih hledger htail' hf
    refine ⟨m', hfree, hledger', fun z hz => ?_⟩
    have hz' : z ∈ xs ++ (zs ++ cs) := by
      simp only [mem_append] at hz ⊢
      tauto
    exact (hkeeps z hz').trans (hkeeps' z hz)

theorem Carries.copyable (h : Carries m xs cs data) (hk : k ≤ stackMbufsCount) : Copyable m xs := by
  have hledger := h.ledger
  refine ⟨fun x hx => hledger.used x (mem_append_left _ hx), h.ext, fun x hx => ?_, h.room,
    hledger.cache, hledger.holding.pool, hk⟩
  obtain ⟨q, hq, hatt, hnext⟩ := hledger.direct x hx
  have hfree := hledger.holding.notMem_free (mem_paddrs (mem_append_left cs hx) hq)
  exact ⟨q, hq, hnext, hfree, (owner_eq_of_none hatt).symm ▸ hfree⟩

theorem Ledger.copied {l : CopyLoop k n} {bytes : List UInt8} (h : Ledger m xs cs)
    (hcopy : Copying m l zs bytes) (hholding : Holding l.m (l.m.paddrs zs ++ m.paddrs (xs ++ cs)))
    (hgot : ∀ z ∈ zs, (l.m.mem.mbuf z).mPaddr ≠ none) :
    Ledger l.m xs (zs ++ cs) ∧ ∀ z ∈ xs ++ cs, Keeps m l.m z := by
  obtain ⟨htaken, -, -, hlinked, -⟩ := hcopy
  have hcache := h.cache
  rw [htaken.cache] at hcache
  have hnew : ∀ z ∈ xs ++ cs, z ∉ zs ∧ z ∉ l.m.mem.mbCache := fun z hz => by
    have hout := h.used z hz
    rw [htaken.cache, mem_append, not_or] at hout
    exact hout
  have hmbuf : ∀ z ∈ xs ++ cs, l.m.mem.mbuf z = m.mem.mbuf z := fun z hz =>
    htaken.other z (hnew z hz).1
  have hfree : ∀ z ∈ xs ++ cs, ∀ q, (m.mem.mbuf z).mPaddr = some q → q ∉ m.freeCells :=
    fun z hz q hq => h.holding.notMem_free (mem_paddrs hz hq)
  have hperm : (zs ++ (xs ++ cs)).Perm (xs ++ (zs ++ cs)) := by
    rw [← append_assoc, ← append_assoc]
    exact perm_append_comm.append_right _
  refine ⟨⟨?_, fun z hz => ?_, (nodup_append'.mp hcache).2.1, fun x hx => ?_, fun z hz => ?_,
    ?_⟩, fun z hz => ⟨hmbuf z hz, ?_, htaken.buf⟩⟩
  · exact hperm.nodup_iff.mp (nodup_append'.mpr ⟨hlinked.nodup, h.nodup,
      fun z hz hz' => (hnew z hz').1 hz⟩)
  · rcases mem_append.mp (hperm.mem_iff.mpr hz) with hz | hz
    · exact (nodup_append'.mp hcache).2.2 hz
    · exact (hnew z hz).2
  · have hx' : x ∈ xs ++ cs := mem_append_left _ hx
    obtain ⟨q, hq, hatt, hnext⟩ := h.direct x hx
    have hout := hfree x hx' q hq
    exact ⟨q, by rw [hmbuf x hx', hq], (htaken.attached q hout).trans hatt,
      (htaken.next q hout).trans hnext⟩
  · rcases mem_append.mp hz with hz | hz
    · obtain ⟨q, hq⟩ := Option.ne_none_iff_exists'.mp (hgot z hz)
      obtain ⟨-, -, d, hd, -⟩ := htaken.clone z hz q hq
      exact ⟨q, d, hq, hd⟩
    · have hz' : z ∈ xs ++ cs := mem_append_right _ hz
      obtain ⟨q, d, hq, hd⟩ := h.clone z hz
      exact ⟨q, d, by rw [hmbuf z hz', hq], (htaken.attached q (hfree z hz' q hq)).trans hd⟩
  · have hpaddrs : l.m.paddrs (xs ++ cs) = m.paddrs (xs ++ cs) :=
      filterMap_congr fun z hz => by rw [hmbuf z hz]
    rw [← hpaddrs] at hholding
    have hall : Holding l.m (l.m.paddrs (zs ++ (xs ++ cs))) := by
      rw [paddrs, filterMap_append]
      exact hholding
    exact hall.perm (hperm.filterMap _)
  · exact dataBuffer_congr (by rw [hmbuf z hz]) fun q hq => htaken.attached q (hfree z hz q hq)

theorem Carries.mCopym {pool off len : Nat} (h : Carries m xs cs data) (hk : k ≤ stackMbufsCount)
    (hlink : LinkedFrom m.mem.mNext p xs) (hpos : 0 < len) (hlen : off + len ≤ m.mem.lenOf xs) :
    ∃ top cloned m', m.mCopym pool p off len = some (top, cloned, m') ∧
      (top ≠ none → cloned = true → ∃ zs, Ledger m' xs (zs ++ cs) ∧
        (∀ z ∈ xs ++ cs, Keeps m m' z) ∧ LinkedFrom m'.mem.mNext top zs ∧
        m'.chainData zs = (data.drop off).take len) ∧
      (xs.length ≤ m.mem.mbCache.length → xs.length ≤ m.mem.rte.available pool →
        top ≠ none ∧ cloned = true) := by
  have hsrc := h.copyable hk
  obtain ⟨x, rest, rfl⟩ : ∃ x rest, xs = x :: rest := by
    cases xs with
    | nil =>
      rw [MbufMem.lenOf_nil] at hlen
      omega
    | cons x rest => exact ⟨x, rest, rfl⟩
  obtain ⟨rfl, -⟩ := id hlink
  have hall : (x :: rest ++ cs).length + m.mem.mbCache.length ≤ 65535 := by
    have hnd : (x :: rest ++ cs ++ m.mem.mbCache).Nodup :=
      nodup_append'.mpr ⟨h.ledger.nodup, h.ledger.cache, fun z hz => h.ledger.used z hz⟩
    have hcard : (x :: rest ++ cs ++ m.mem.mbCache).length ≤ k := by simpa using hnd.length_le_card
    rw [length_append] at hcard
    exact hcard.trans hk
  have hdirect : ∀ y ∈ x :: rest, ∀ q, (m.mem.mbuf y).mPaddr = some q →
      q ∈ m.paddrs (x :: rest ++ cs) ∧ m.attached q = none ∧
        (m.mem.rte.cell q).refcnt + m.mem.mbCache.length ≤ 65535 := by
    intro y hy q hq
    obtain ⟨q', hq', hatt, -⟩ := h.ledger.direct y hy
    obtain rfl : q' = q := by simpa [hq] using hq'.symm
    have hmem := mem_paddrs (mem_append_left cs hy) hq
    have hle := (h.ledger.refcnt_le hk (List.mem_map.mpr ⟨q', hmem, owner_eq_of_none hatt⟩)).1
    exact ⟨hmem, hatt, by omega⟩
  obtain ⟨l, top, cloned, m', hcopy, hdone, hfail⟩ := mCopym_run hsrc hlink (.inl hlen)
    ((CloneMem.keptByRounds (A := Holding) (fun _ _ h => h) (fun _ _ _ hperm h => h.perm hperm)
      (fun _ _ _ hatt hrte h => h.of_same hatt (fun p => by rw [hrte])
        (by rw [freeCells, hrte, freeCells]))
      (fun _ _ _ _ _ _ hgot hc hmd hmem hless h => (h.got hgot hc hmd hmem hless).1) hsrc
      hdirect).and (keptByRounds_available pool hsrc))
    ⟨fun _ => ⟨h.ledger.holding, by simp⟩, by simp⟩
  refine ⟨top, cloned, m', hcopy, fun htop hcloned => ?_, fun hcache hpool => ?_⟩
  · rcases Nat.lt_or_ge m.mem.mbCache.length (m.copyCount (x :: rest) off len) with hfew | henough
    · exact absurd (hfail hfew).1 htop
    · obtain ⟨heq, zs, hcopying, ⟨hholding, -⟩, hzs⟩ := hdone henough
      cases heq
      have hgot : ∀ z ∈ zs, (l.m.mem.mbuf z).mPaddr ≠ none := by
        intro z hz hnone
        obtain ⟨⟨d, hd⟩, -⟩ := hcopying.readable hcloned z hz
        simp [CloneMem.dataBuffer, hnone] at hd
      obtain ⟨hledger, hkeeps⟩ := h.ledger.copied hcopying (hholding (by omega)).1 hgot
      refine ⟨zs, hledger, hkeeps, hcopying.top ▸ hcopying.linked, ?_⟩
      rw [hcopying.whole hcloned, h.bytes]
  · have hcount : m.copyCount (x :: rest) off len ≤ (x :: rest).length := m.copyCount_le _ _ _
    obtain ⟨heq, zs, hcopying, ⟨-, -, hall⟩, hzs⟩ := hdone (by omega)
    cases heq
    have hcloned := hcopying.cloned (hall (by omega))
    refine ⟨?_, hcloned⟩
    rw [hcopying.top]
    rintro hnone
    obtain rfl := head?_eq_none_iff.mp hnone
    have hbytes := congrArg List.length (hcopying.whole hcloned)
    rw [chainData_nil, length_take, length_drop, length_chainData hsrc.dataBuffer] at hbytes
    simp only [length_nil] at hbytes
    omega

end CloneMem

variable {s s' : SndQueue k n} {xs : List (Fin k)}

namespace SndInv

theorem queued_eq (h : SndInv s xs) : s.queued = xs := by
  rw [SndQueue.queued, walkFrom_eq h.rep.linked (by simpa using h.rep.linked.length_le)]
  rfl

theorem lenOf_eq (h : SndInv s xs) : s.m.mem.lenOf xs = s.appended.length - s.dropped := by
  rw [← h.carries.length, length_drop]

theorem copies_congr {m' : CloneMem k n} {cs : List (SndCopy k)} (h : SndInv s xs)
    (hsub : cs ⊆ s.copies) (hmbuf : ∀ z ∈ cs.flatMap SndCopy.mbufs, m'.mem.mbuf z = s.m.mem.mbuf z)
    (hdata : ∀ z ∈ cs.flatMap SndCopy.mbufs, m'.mbufData z = s.m.mbufData z) :
    ∀ c ∈ cs, LinkedFrom m'.mem.mNext (some c.top) c.mbufs ∧ m'.chainData c.mbufs = c.bytes := by
  intro c hc
  obtain ⟨hlink, hbytes⟩ := h.copies c (hsub hc)
  have hin : ∀ z ∈ c.mbufs, z ∈ cs.flatMap SndCopy.mbufs := fun z hz =>
    mem_flatMap.mpr ⟨c, hc, hz⟩
  constructor
  · apply hlink.congr
    intro z hz
    rw [MbufMem.mNext, hmbuf z (hin z hz), MbufMem.mNext]
  · rw [← hbytes]
    exact chainData_congr fun z hz => hdata z (hin z hz)

theorem others {m : CloneMem k n} {slot : Option TxSlot} (h : SndInv s xs) (hleaves : s.Leaves m) :
    SndInv { s with m, slot } xs := by
  obtain ⟨⟨hcache, hmbufs⟩, hpool, hdata, hcells⟩ := hleaves
  rw [SndQueue.held, h.queued_eq] at hmbufs hdata hcells
  refine ⟨h.rep.congr fun x hx => (hmbufs x (by simp [hx])).1, ⟨?_, ?_, ?_, ?_⟩, h.dropped, ?_⟩
  · rw [buffers_eq] at hcells
    refine h.carries.ledger.congr (fun z hz => by rw [(hmbufs z hz).1])
      (fun z hz => (hmbufs z hz).2) hcache (fun p hp => ?_)
      (h.carries.ledger.holding.congr (fun p hp => ?_) hpool)
    · obtain ⟨hatt, -, hnext, -⟩ := hcells p (mem_append_left _ hp)
      exact ⟨hatt, hnext⟩
    · obtain ⟨hatt, hrefcnt, -, hfree⟩ := hcells p (mem_append.mpr hp)
      exact ⟨hatt, hrefcnt, hfree⟩
  · intro x hx
    show 0 ≤ (m.mem.mbuf x).mData ∧ _
    rw [(hmbufs x (by simp [hx])).1]
    exact h.carries.room x hx
  · intro x hx
    show (m.mem.mbuf x).mExtSize = none
    rw [(hmbufs x (by simp [hx])).1]
    exact h.carries.ext x hx
  · rw [← h.carries.bytes]
    exact chainData_congr fun z hz => hdata z (by simp [hz])
  · exact h.copies_congr (List.Subset.refl _)
      (fun z hz => (hmbufs z (mem_append_right _ hz)).1)
      fun z hz => hdata z (mem_append_right _ hz)

theorem insertable_carries {ms : List (Fin k)} (h : SndInv s xs) (hins : s.Insertable ms) :
    Carries s.m (xs ++ ms) s.copied ((s.appended ++ s.m.chainData ms).drop s.dropped) := by
  obtain ⟨⟨hnd, hcells⟩, hnew, hms⟩ := hins
  have hledger := h.carries.ledger
  have hheld : s.held = xs ++ s.copied := by rw [SndQueue.held, h.queued_eq]
  rw [hheld, buffers_eq] at hnew
  have hout : ∀ y ∈ ms, y ∉ xs ++ s.copied := fun y hy => by
    rw [← hheld]
    exact (hms y hy).1.1
  have hall : (ms ++ (xs ++ s.copied)).Perm (xs ++ ms ++ s.copied) := by
    rw [← append_assoc]
    exact perm_append_comm.append_right _
  have hown : ∀ p ∈ s.m.paddrs ms, s.m.attached p = none ∧ (s.m.mem.rte.cell p).refcnt = 1 ∧
      p ∉ s.m.freeCells := by
    intro p hp
    obtain ⟨y, hy, hyp⟩ := mem_filterMap.mp hp
    obtain ⟨-, q, hq, hatt, -, hone, hfree⟩ := (hms y hy).2
    obtain rfl : q = p := by simpa [hq] using hyp
    exact ⟨hatt, hone, hfree⟩
  refine ⟨⟨?_, ?_, hledger.cache, ?_, hledger.clone, ?_⟩, ?_, ?_, ?_⟩
  · refine hall.nodup_iff.mp (nodup_append.mpr ⟨hnd, hledger.nodup, ?_⟩)
    rintro y hy _ hz rfl
    exact hout y hy hz
  · intro y hy
    rcases mem_append.mp (hall.mem_iff.mpr hy) with hy | hy
    · exact (hms y hy).1.2.1
    · exact hledger.used y hy
  · intro y hy
    rcases mem_append.mp hy with hy | hy
    · exact hledger.direct y hy
    · obtain ⟨-, p, hp, hatt, hnext, -⟩ := (hms y hy).2
      exact ⟨p, hp, hatt, hnext⟩
  · have happend : Holding s.m (s.m.paddrs (ms ++ (xs ++ s.copied))) := by
      rw [paddrs, filterMap_append]
      exact hledger.holding.append hcells hnew hown
    exact happend.perm (hall.filterMap _)
  · intro y hy
    rcases mem_append.mp hy with hy | hy
    · exact h.carries.room y hy
    · exact (hms y hy).2.1
  · intro y hy
    rcases mem_append.mp hy with hy | hy
    · exact h.carries.ext y hy
    · exact (hms y hy).1.2.2.2.1
  · rw [chainData_append, h.carries.bytes, drop_append_of_le_length h.dropped]

theorem append {ms : List (Fin k)} {x : Fin k} {mem : MbufMem k n} {sb : Sockbuf k}
    {slot : Option TxSlot} (hk : k ≤ stackMbufsCount) (h : SndInv s xs)
    (hms : LinkedFrom s.m.mem.mNext (some x) ms) (hins : s.Insertable ms)
    (happ : sbappendstream s.m.mem s.sb s.slot x = some (mem, sb, slot)) :
    ∃ ys, SndInv { s with
      m := ⟨mem, s.m.attached⟩, sb, slot, appended := s.appended ++ s.m.chainData ms } ys := by
  obtain ⟨ys, hrep, hcar, hkeeps⟩ := sbappendstream_carries hk h.rep hms
    (fun y hy => (hins.2.2 y hy).1.2.2.1) (h.insertable_carries hins) happ
  refine ⟨ys, hrep, hcar, ?_, h.copies_congr (List.Subset.refl _) (fun z hz => (hkeeps z hz).mbuf)
    fun z hz => (hkeeps z hz).data⟩
  rw [length_append]
  exact h.dropped.trans (Nat.le_add_right _ _)

theorem drop {len : Nat} {mem : MbufMem k n} {sb : Sockbuf k} {slot : Option TxSlot}
    (hk : k ≤ stackMbufsCount) (h : SndInv s xs) (hlen : (len : Int) ≤ s.sb.sbCc)
    (hdrop : sbdrop s.m.mem s.sb s.slot len = some (mem, sb, slot)) :
    ∃ ys, SndInv { s with m := ⟨mem, s.m.attached⟩, sb, slot, dropped := s.dropped + len } ys := by
  have hlen' : len ≤ s.m.mem.lenOf xs := by
    have hcc := h.rep.cc
    omega
  obtain ⟨ys, hrep, hcar, hkeeps⟩ := sbdrop_carries hk h.rep h.carries hlen' hdrop
  refine ⟨ys, hrep, ?_, ?_, h.copies_congr (List.Subset.refl _) (fun z hz => (hkeeps z hz).mbuf)
    fun z hz => (hkeeps z hz).data⟩
  · rw [drop_drop] at hcar
    exact hcar
  · have hlenOf := h.lenOf_eq
    have hdropped := h.dropped
    show s.dropped + len ≤ s.appended.length
    omega

theorem range {off len : Nat} (h : SndInv s xs) (hlen : ((off + len : Nat) : Int) ≤ s.sb.sbCc) :
    off + len ≤ s.m.mem.lenOf xs := by
  have hcc := h.rep.cc
  omega

theorem copy {pool off len : Nat} {top : Fin k} {m : CloneMem k n} (hk : k ≤ stackMbufsCount)
    (h : SndInv s xs) (hpos : 0 < len) (hlen : ((off + len : Nat) : Int) ≤ s.sb.sbCc)
    (hcopy : s.m.mCopym pool s.sb.sbMb off len = some (some top, true, m))
    {mbufs : List (Fin k)} (hwalk : walkFrom m.mem.mNext k (some top) = some mbufs) :
    SndInv { s with
      m, copies := ⟨top, mbufs, (s.appended.drop (s.dropped + off)).take len⟩ :: s.copies } xs := by
  obtain ⟨_, _, _, hcopy', hspec, -⟩ := h.carries.mCopym hk h.rep.linked hpos (h.range hlen)
  cases hcopy.symm.trans hcopy'
  obtain ⟨zs, hledger, hkeeps, hlinked, hbytes⟩ := hspec (by simp) rfl
  obtain rfl : mbufs = zs := (linkedFrom_of_walkFrom hwalk).unique hlinked
  have hkept : ∀ x ∈ xs, Keeps s.m m x := fun x hx => hkeeps x (mem_append_left _ hx)
  refine ⟨h.rep.congr fun x hx => (hkept x hx).mbuf, h.carries.congr hledger hkept, h.dropped, ?_⟩
  intro c hc
  rcases mem_cons.mp hc with rfl | hc
  · refine ⟨hlinked, ?_⟩
    show m.chainData mbufs = _
    rw [hbytes, drop_drop]
  · exact h.copies_congr (List.Subset.refl _)
      (fun z hz => (hkeeps z (mem_append_right _ hz)).mbuf)
      (fun z hz => (hkeeps z (mem_append_right _ hz)).data) c hc

theorem freed {i : Nat} {c : SndCopy k} (hk : k ≤ stackMbufsCount) (h : SndInv s xs)
    (hc : s.copies[i]? = some c) :
    ∃ m, s.m.mFreem k (some c.top) = some m ∧
      Ledger m xs ((s.copies.eraseIdx i).flatMap SndCopy.mbufs) ∧
      ∀ z ∈ xs ++ (s.copies.eraseIdx i).flatMap SndCopy.mbufs, Keeps s.m m z := by
  obtain ⟨hi, hci⟩ := List.getElem?_eq_some_iff.mp hc
  have hperm : s.copied.Perm (c.mbufs ++ (s.copies.eraseIdx i).flatMap SndCopy.mbufs) := by
    have hcons : s.copies.Perm (c :: s.copies.eraseIdx i) := by
      rw [← hci]
      exact (getElem_cons_eraseIdx_perm hi).symm
    exact hcons.flatMap_right _
  have hledger := h.carries.ledger.perm (.refl _) hperm
  have hlink := (h.copies c (mem_of_getElem? hc)).1
  exact Ledger.mFreem hk hledger hlink (by simpa using hlink.length_le)

theorem free {i : Nat} {c : SndCopy k} {m : CloneMem k n} (hk : k ≤ stackMbufsCount)
    (h : SndInv s xs) (hc : s.copies[i]? = some c) (hfree : s.m.mFreem k (some c.top) = some m) :
    SndInv { s with m, copies := s.copies.eraseIdx i } xs := by
  obtain ⟨m', hfree', hledger', hkeeps⟩ := h.freed hk hc
  obtain rfl : m' = m := by simpa [hfree'] using hfree
  have hkept : ∀ x ∈ xs, Keeps s.m m' x := fun x hx => hkeeps x (mem_append_left _ hx)
  refine ⟨h.rep.congr fun x hx => (hkept x hx).mbuf, h.carries.congr hledger' hkept, h.dropped, ?_⟩
  exact h.copies_congr (eraseIdx_subset ..)
    (fun z hz => (hkeeps z (mem_append_right _ hz)).mbuf)
    fun z hz => (hkeeps z (mem_append_right _ hz)).data

theorem refines (h : SndInv s xs) : SndRefines s := by
  refine ⟨h.dropped, ?_, ?_, ?_, h.copies, ?_⟩
  · rw [h.rep.cc, h.lenOf_eq]
  · rw [h.queued_eq]
    exact h.rep.linked
  · rw [h.queued_eq]
    exact h.carries.bytes
  · intro c hc y hy
    have hy' : y ∈ s.copied := mem_flatMap.mpr ⟨c, hc, hy⟩
    obtain ⟨q, d, hq, hatt⟩ := h.carries.ledger.clone y hy'
    have hd : s.m.dataBuffer y = some d := by simp [dataBuffer, hq, hatt]
    have hmem : d ∈ (s.m.paddrs (xs ++ s.copied)).map s.m.owner :=
      List.mem_map.mpr ⟨q, mem_paddrs (by simp [hy']) hq, owner_eq_of_some hatt⟩
    have hholding := h.carries.ledger.holding
    exact ⟨d, hd, hholding.counts.pos hmem, fun hfree => (hholding.free d hfree).2 hmem⟩

theorem ready {a : SndAction k n} (hk : k ≤ stackMbufsCount) (h : SndInv s xs)
    (hready : s.Ready a) : ∃ t, sndStep s a = some t := by
  cases a with
  | others m slot => exact ⟨_, guarded_eq_some.mpr ⟨hready, rfl⟩⟩
  | append x =>
    obtain ⟨ms, hwalk, hins⟩ := hready
    have hnd := (nodup_append.mp (h.insertable_carries hins).ledger.nodup).1
    obtain ⟨mem, sb, ys, happ, -⟩ := @sbappendstream_spec k n _ _ _ s.slot _ _ h.rep
      (linkedFrom_of_walkFrom hwalk)
      (fun y hy hmem => (nodup_append.mp hnd).2.2 y hmem y hy rfl)
      (fun y hy => (hins.2.2 y hy).1.2.2.1)
    exact ⟨_, Option.bind_eq_some_iff.mpr ⟨ms, hwalk, guard_bind_eq_some.mpr ⟨hins,
      Option.bind_eq_some_iff.mpr ⟨_, happ, rfl⟩⟩⟩⟩
  | drop len =>
    have hlen : len ≤ s.m.mem.lenOf xs := by
      have hcc := h.rep.cc
      have hready' : (len : Int) ≤ s.sb.sbCc := hready
      omega
    obtain ⟨mem, sb, slot, fs, zs, hdrop, -⟩ := @sbdrop_spec k n _ _ _ _ s.slot h.rep hlen
    exact ⟨_, guard_bind_eq_some.mpr ⟨hready, Option.bind_eq_some_iff.mpr ⟨_, hdrop, rfl⟩⟩⟩
  | copy pool off len =>
    obtain ⟨⟨hpos, hlen⟩, hcache, hpool⟩ := hready
    rw [h.queued_eq] at hcache hpool
    obtain ⟨top, cloned, m, hcopy, hspec, hgot⟩ :=
      h.carries.mCopym hk h.rep.linked hpos (h.range hlen)
    obtain ⟨htop, rfl⟩ := hgot hcache hpool
    obtain ⟨zs, -, -, hlinked, -⟩ := hspec htop rfl
    obtain ⟨top, rfl⟩ := Option.ne_none_iff_exists'.mp htop
    have hwalk := walkFrom_eq hlinked (by simpa using hlinked.length_le)
    exact ⟨_, guard_bind_eq_some.mpr ⟨⟨hpos, hlen⟩, Option.bind_eq_some_iff.mpr ⟨_, hcopy,
      guard_bind_eq_some.mpr ⟨rfl, Option.bind_eq_some_iff.mpr ⟨top, rfl,
        Option.bind_eq_some_iff.mpr ⟨zs, hwalk, rfl⟩⟩⟩⟩⟩⟩
  | free i =>
    have hc : s.copies[i]? = some s.copies[i] := getElem?_eq_getElem hready
    obtain ⟨m, hfree, -⟩ := h.freed hk hc
    exact ⟨_, Option.bind_eq_some_iff.mpr ⟨_, hc, Option.bind_eq_some_iff.mpr ⟨m, hfree, rfl⟩⟩⟩

end SndInv

theorem SndQueue.Initial.inv (h : s.Initial) : SndInv s [] := by
  have hcopied : s.copied = [] := by rw [copied, h.copies, flatMap_nil]
  obtain ⟨hmb, hmbtail, hlastrecord, hcc, hmbcnt⟩ := h.sb
  refine ⟨⟨hmb, hmbtail, hlastrecord.trans hmb.symm, by simp, hcc, hmbcnt⟩, ⟨?_, ?_, ?_, ?_⟩,
    ?_, ?_⟩
  · rw [hcopied]
    exact ⟨by simp, by simp, h.cache, by simp, by simp, by simp [paddrs], by simp [paddrs],
      by simp [paddrs, Counts], h.pool, by simp [paddrs]⟩
  · simp
  · simp
  · rw [h.appended, drop_nil]
    rfl
  · rw [h.dropped]
    exact Nat.zero_le _
  · rw [h.copies]
    simp

theorem sndStep_inv {a : SndAction k n} (hk : k ≤ stackMbufsCount) (hstep : sndStep s a = some s')
    (h : SndInv s xs) : ∃ ys, SndInv s' ys := by
  cases a with
  | others m slot =>
    obtain ⟨hleaves, rfl⟩ := guarded_eq_some.mp hstep
    exact ⟨xs, h.others hleaves⟩
  | append x =>
    obtain ⟨ms, hwalk, hrest⟩ := Option.bind_eq_some_iff.mp hstep
    obtain ⟨hins, hrest⟩ := guard_bind_eq_some.mp hrest
    obtain ⟨⟨mem, sb, slot⟩, happ, hs'⟩ := Option.bind_eq_some_iff.mp hrest
    cases hs'
    exact h.append hk (linkedFrom_of_walkFrom hwalk) hins happ
  | drop len =>
    obtain ⟨hlen, hrest⟩ := guard_bind_eq_some.mp hstep
    obtain ⟨⟨mem, sb, slot⟩, hdrop, hs'⟩ := Option.bind_eq_some_iff.mp hrest
    cases hs'
    exact h.drop hk hlen hdrop
  | copy pool off len =>
    obtain ⟨⟨hpos, hlen⟩, hrest⟩ := guard_bind_eq_some.mp hstep
    obtain ⟨⟨o, cloned, m⟩, hcopy, hrest⟩ := Option.bind_eq_some_iff.mp hrest
    obtain ⟨hcloned, hrest⟩ := guard_bind_eq_some.mp hrest
    obtain ⟨top, htop, hrest⟩ := Option.bind_eq_some_iff.mp hrest
    obtain ⟨mbufs, hwalk, hs'⟩ := Option.bind_eq_some_iff.mp hrest
    cases hs'
    subst hcloned htop
    exact ⟨xs, h.copy hk hpos hlen hcopy hwalk⟩
  | free i =>
    obtain ⟨c, hc, hrest⟩ := Option.bind_eq_some_iff.mp hstep
    obtain ⟨m, hfree, hs'⟩ := Option.bind_eq_some_iff.mp hrest
    cases hs'
    exact ⟨xs, h.free hk hc hfree⟩

/-- Along every run the send buffer holds the bytes that were appended and not dropped, every copy
denotes the bytes that it was taken of, and no data of an outstanding copy is released; the routines
return wherever they may be called. -/
theorem sndQueue_of_run {s₀ s : SndQueue k n} {as : List (SndAction k n)}
    (hk : k ≤ stackMbufsCount) (hinit : s₀.Initial)
    (hrun : Run sndStep (fun _ _ => True) s₀ as s) :
    SndRefines s ∧ ∀ a, s.Ready a → ∃ t, sndStep s a = some t := by
  obtain ⟨xs, hinv⟩ := hrun.invariant (I := fun s => ∃ xs, SndInv s xs)
    (fun _ _ _ ⟨_, h⟩ _ hstep => sndStep_inv hk hstep h) ⟨[], hinit.inv⟩
  exact ⟨hinv.refines, fun a => hinv.ready hk⟩

def sendBuffer : SndQueue 6 6 where
  m := {
    mem := {
      mbuf := fun x => {
        mNext := if x = 0 then some 1 else none
        mLen := 3, mData := 128, mPaddr := if x < 2 then some x else none }
      mbCache := [2, 3, 4, 5]
      rte := {
        cell := fun x => { refcnt := 1, buf := fun i => UInt8.ofNat (16 * x.val + i) }
        mempool := [(1, 2), (1, 3), (1, 4), (1, 5)] } } }

theorem sndQueue_of_run_resend : sendBuffer.Initial ∧ ∃ s,
    Run sndStep (fun _ _ => True) sendBuffer [.append 0, .copy 1 1 4, .drop 5] s ∧
      (s.sb.sbCc = 1 ∧ s.copies.map SndCopy.bytes = [[129, 130, 144, 145]]) ∧ SndRefines s ∧
      ∃ t, sndStep s (.free 0) = some t := by
  have hinit : sendBuffer.Initial :=
    ⟨⟨rfl, rfl, rfl, rfl, rfl⟩, rfl, rfl, rfl, by decide, by decide⟩
  refine ⟨hinit, Run.exists_and_of_runActions (by decide +kernel) fun s hrun hs => ?_⟩
  obtain ⟨hrefines, hready⟩ := sndQueue_of_run (by decide) hinit hrun
  have hlen := congrArg List.length hs.2
  rw [List.length_map] at hlen
  have hone : s.Ready (.free 0) := by
    show 0 < s.copies.length
    rw [hlen]
    exact Nat.one_pos
  exact ⟨hrefines, hready (.free 0) hone⟩

end NetbsdDpdk
