import NetbsdDpdk.CopySpec
import NetbsdDpdk.DeviceTransmit

/-! How many mbufs a send buffer can hold. `sosend` looks at the space before it appends, `sb_mbcnt`
charges every mbuf with `MSIZE`, and `sbreserve` never allows more than `sb_max`; so the packets
that are copied out of the buffer stay below the range of the 8-bit `nb_segs`. -/

namespace NetbsdDpdk

open List Option

open MbufMem

variable {k n : Nat} {mem mem' : MbufMem k n} {xs : List (Fin k)} {x top : Fin k}
  {len fuel pool : Nat} {md : Fin n} {cloned : Bool}

def sbMax : Nat := 262144

def mclBytes : Nat := 2048

def sbMaxAdj : Nat := sbMax * mclBytes / (mSize + mclBytes)

def Sockbuf.sbreserve (sb : Sockbuf k) (cc : Nat) : Sockbuf k :=
  if cc = 0 ∨ sbMaxAdj < cc then sb
  else { sb with sbHiwat := cc, sbMbmax := (min (cc * 2) sbMax : Nat) }

namespace SndSocket

def queued (s : SndSocket k n) : List (Fin k) :=
  (walkFrom s.sock.mem.mNext k s.sock.soSnd.sbMb).getD []

structure Initial (s : SndSocket k n) : Prop where
  soSnd : s.sock.soSnd.Empty
  hiwat : s.sock.soSnd.sbHiwat ≤ sbMaxAdj
  mbmax : s.sock.soSnd.sbMbmax ≤ sbMax
  cache : s.sock.mem.mbCache.Nodup

end SndSocket

inductive SegAction (k n : Nat)
  | send (p : Fin n) (tcpError : Int)
  | ack (len : Nat)
  | reserve (cc : Nat)
  | others (t : SndSocket k n)

/-- `app_glue_send`, an acknowledgement of bytes that are there, a change of the limits, or
something else that leaves the send buffer alone. -/
def segStep (s : SndSocket k n) : SegAction k n → Option (SndSocket k n)
  | .send p tcpError => (s.appGlueSend p tcpError).map Prod.snd
  | .ack len =>
    if (len : Int) ≤ s.sock.soSnd.sbCc then
      (sbdrop s.sock.mem s.sock.soSnd s.sock.slot len).map fun r =>
        { s with sock := s.sock.update .snd r }
    else none
  | .reserve cc => some { s with sock := { s.sock with soSnd := s.sock.soSnd.sbreserve cc } }
  | .others t =>
    if s.sock.mem.Leaves s.queued t.sock.mem then
      some { t with sock := { t.sock with soSnd := s.sock.soSnd } }
    else none

structure SegInv (s : SndSocket k n) (xs : List (Fin k)) : Prop where
  bufs : TwoBuffers s.sock.mem s.sock.soSnd {} xs []
  hiwat : s.sock.soSnd.sbHiwat ≤ sbMaxAdj
  mbmax : s.sock.soSnd.sbMbmax ≤ sbMax
  cc : s.sock.soSnd.sbCc ≤ sbMaxAdj
  count : xs.length ≤ 128

theorem SegInv.of_initial {s : SndSocket k n} (h : s.Initial) : SegInv s [] where
  bufs := ⟨⟨h.soSnd.mb, h.soSnd.mbtail, by rw [h.soSnd.lastrecord, h.soSnd.mb], by simp,
    h.soSnd.cc, h.soSnd.mbcnt⟩, ⟨rfl, rfl, rfl, by simp, rfl, rfl⟩, by simp, by simp, h.cache⟩
  hiwat := h.hiwat
  mbmax := h.mbmax
  cc := by
    rw [h.soSnd.cc]
    decide
  count := by simp

theorem TwoBuffers.congr {a b : Sockbuf k} {ys : List (Fin k)} (h : TwoBuffers mem a b xs ys)
    (hmbuf : ∀ x ∈ xs ++ ys, mem'.mbuf x = mem.mbuf x)
    (hfree : ∀ x ∈ mem'.mbCache, x ∉ xs ∧ x ∉ ys) (hnd : mem'.mbCache.Nodup) :
    TwoBuffers mem' a b xs ys where
  fst := h.fst.congr fun x hx => hmbuf x (mem_append_left _ hx)
  snd := h.snd.congr fun x hx => hmbuf x (mem_append_right _ hx)
  apart := h.apart
  free := hfree
  nodup := hnd

theorem MbufMem.length_mul_le_chargeOf (mem : MbufMem k n) (xs : List (Fin k)) :
    (xs.length * mSize : Int) ≤ mem.chargeOf xs := by
  induction xs with
  | nil => simp
  | cons x xs ih =>
    have hx : (mSize : Int) ≤ Sockbuf.mbufCharge (mem.mbuf x) := by
      simp [Sockbuf.mbufCharge]
    rw [chargeOf_cons, length_cons]
    push_cast at ih ⊢
    rw [Int.add_mul]
    omega

theorem MbufMem.length_le_of_chargeOf (h : mem.chargeOf xs ≤ (sbMax : Int)) : xs.length ≤ 128 := by
  have hchain := mem.length_mul_le_chargeOf xs
  have hmax : (sbMax : Int) = 128 * mSize := by decide
  have hpos : (0 : Int) < mSize := by decide
  have hle := Int.le_of_mul_le_mul_right (hchain.trans (h.trans_eq hmax)) hpos
  omega

theorem MbufMem.length_lt_of_chargeOf (h : mem.chargeOf xs < (sbMax : Int)) : xs.length < 128 := by
  have hchain := mem.length_mul_le_chargeOf xs
  have hmax : (sbMax : Int) = 128 * mSize := by decide
  have hpos : (0 : Int) ≤ mSize := by decide
  have hlt := Int.lt_of_mul_lt_mul_right (hchain.trans_lt (h.trans_eq hmax)) hpos
  omega

theorem sbappendstream_empty {sb sb' : Sockbuf k} {slot slot' : Option TxSlot}
    (hlen : (mem.mbuf x).mLen = 0)
    (heor : (mem.mbuf x).mEor = false) (hnext : (mem.mbuf x).mNext = none)
    (h : sbappendstream mem sb slot x = some (mem', sb', slot')) :
    sb'.sbMbcnt = sb.sbMbcnt ∧ sb'.sbMb = sb.sbMb ∧ mem'.mNext = mem.mNext := by
  obtain ⟨k, rfl⟩ : ∃ j, k = j + 1 := ⟨k - 1, by have := x.pos; omega⟩
  have hdiscard : Compress.discards { mem, sb, n := sb.sbMbtail } x = true := by
    simp [Compress.discards, hlen, heor]
  have hloop : ∀ fuel (c : Compress (k + 1) n), Compress.loop fuel c none = some c := by
    intro fuel c
    cases fuel <;> rfl
  simp only [sbappendstream, sbcompress, Compress.loop, Compress.round, hdiscard, if_true, hnext,
    hloop, heor, map_some, Compress.finish, Bool.or_self, Option.some.injEq,
    Prod.mk.injEq] at h
  obtain ⟨rfl, rfl, -⟩ := h
  refine ⟨?_, ?_, mFree_mNext mem x⟩
  · dsimp only
    split <;> rfl
  · dsimp only
    split <;> rfl

namespace SndSocket

theorem sosend_cases {s s' : SndSocket k n} {resid tcpError rc : Int}
    (h : s.sosend top resid tcpError = some (rc, s')) :
    (∃ soError, { s with soError }.drop top rc = some (rc, s')) ∨
      resid ≤ s.sock.soSnd.sbspace ∧ s.prUsrreqSend top tcpError = some (rc, s') := by
  have hdrop : ∀ {t : SndSocket k n} {e : Int}, t.drop top e = some (rc, s') →
      t.drop top rc = some (rc, s') := by
    intro t e he
    obtain ⟨mem, hmem, heq⟩ := map_eq_some_iff.mp he
    cases heq
    exact he
  simp only [sosend] at h
  split_ifs at h with _ _ _ _ _ hspace
  case neg => exact .inr ⟨by omega, h⟩
  all_goals exact .inl ⟨_, hdrop h⟩

end SndSocket

section Steps

variable {s t : SndSocket k n} {xs : List (Fin k)}

theorem TwoBuffers.freed {mem₁ : MbufMem k n} {a b : Sockbuf k} {ys cache : List (Fin k)}
    (h : TwoBuffers mem a b xs ys) (hcache : mem.mbCache = x :: cache)
    (hother : ∀ y, y ≠ x → mem₁.mbuf y = mem.mbuf y) (hcache₁ : mem₁.mbCache = cache) :
    TwoBuffers (mem₁.mFree x).1 a b xs ys := by
  have hx := h.free x (by simp [hcache])
  refine h.congr ?_ ?_ ?_
  · intro y hy
    have hyx : y ≠ x := by
      rintro rfl
      exact (mem_append.mp hy).elim hx.1 hx.2
    rw [mem₁.mFree_mbuf_of_ne hyx, hother y hyx]
  · intro y hy
    rw [mFree_mbCache, hcache₁, ← hcache] at hy
    exact h.free y hy
  · rw [mFree_mbCache, hcache₁, ← hcache]
    exact h.nodup

theorem SegInv.send {p : Fin n} {tcpError : Int} (h : SegInv s xs)
    (hstep : segStep s (.send p tcpError) = some t) : ∃ ys, SegInv t ys := by
  obtain ⟨⟨rc, t'⟩, hsend, rfl⟩ := map_eq_some_iff.mp hstep
  obtain ⟨len, hlen⟩ : ∃ len, (s.sock.mem.rte.cell p).dataLen = len := ⟨_, rfl⟩
  obtain ⟨m, hm⟩ : ∃ m : Mbuf k n,
    devMbuf (s.sock.mem.rte.cell p).dataOff len p = m := ⟨_, rfl⟩
  cases hcache : s.sock.mem.mbCache with
  | nil =>
    simp only [SndSocket.appGlueSend, mDevget, hcache] at hsend
    cases hsend
    exact ⟨xs, h⟩
  | cons x cache =>
    simp only [SndSocket.appGlueSend, mDevget, hcache, hlen, hm] at hsend
    obtain ⟨mem₁, hmem₁⟩ : ∃ mem₁, s.sock.mem.placeChain [(x, m)] = mem₁ := ⟨_, rfl⟩
    rw [hmem₁] at hsend
    have hself : mem₁.mbuf x = { m with mNext := none, mNextpkt := none } := by
      rw [← hmem₁, placeChain_cons_self]
      rfl
    have hother : ∀ y, y ≠ x → mem₁.mbuf y = s.sock.mem.mbuf y := fun y hy => by
      rw [← hmem₁]
      exact placeChain_mbuf_of_notMem (by simpa using hy)
    have hcache₁ : mem₁.mbCache = cache := by
      rw [← hmem₁]
      simp [placeChain, hcache]
    rcases SndSocket.sosend_cases hsend with ⟨soError, hdrop⟩ | ⟨hspace, hpru⟩
    · -- the mbuf and its packet buffer are freed again
      have hnext : mem₁.mNext x = none := by rw [mNext, hself]
      have hfree := mFreem_single hnext x.pos
      simp only [SndSocket.drop, hfree, map_some] at hdrop
      cases hdrop
      exact ⟨xs, ⟨h.bufs.freed hcache hother hcache₁, h.hiwat, h.mbmax, h.cc, h.count⟩⟩
    · have hnd : (x :: ([] : List (Fin k × Mbuf k n)).map Prod.fst).Nodup := by simp
      obtain ⟨mem', a', zs, hres, hbufs, hsize, hcount⟩ :=
        h.bufs.append s.sock.slot m hnd (by simp [hcache])
      have happ : sbappendstream mem₁ s.sock.soSnd s.sock.slot x =
          some (mem', a', reflectTxSocketBuf s.sock.slot m.mLen) := by
        rw [← hmem₁]
        simpa using hres
      simp only [SndSocket.prUsrreqSend, happ, map_some] at hpru
      cases hpru
      have hcc := hsize.cc
      have hmlen : m.mLen = len := by rw [← hm]; rfl
      simp only [map_nil, sum_nil, hmlen] at hcc
      simp only [Sockbuf.sbspace] at hspace
      have hhiwat := h.hiwat
      have hmbmax := h.mbmax
      refine ⟨xs ++ zs, hbufs, hsize.hiwat.trans_le hhiwat, hsize.mbmax.trans_le hmbmax, ?_, ?_⟩
      · exact show a'.sbCc ≤ sbMaxAdj by omega
      · rcases Nat.eq_zero_or_pos len with hzero | hpos
        · -- the charge is what it was, so no mbuf has come
          have hsame := sbappendstream_empty (by rw [hself, ← hzero]; exact hmlen)
            (by rw [hself, ← hm]; rfl) (by rw [hself]) happ
          apply mem'.length_le_of_chargeOf
          rw [← hbufs.fst.mbcnt, hsame.1]
          omega
        · have hlt : xs.length < 128 := by
            apply s.sock.mem.length_lt_of_chargeOf
            rw [← h.bufs.fst.mbcnt]
            omega
          rw [length_append]
          simp only [length_nil] at hcount
          omega

theorem SegInv.ack (h : SegInv s xs) (hstep : segStep s (.ack len) = some t) :
    ∃ ys, SegInv t ys := by
  simp only [segStep] at hstep
  split at hstep
  · next hlen =>
    obtain ⟨mem', a', slot', zs, hres, hbufs, hsize, -, hcount⟩ := h.bufs.drop hlen
    rw [hres, map_some] at hstep
    cases hstep
    refine ⟨zs, hbufs, hsize.hiwat.trans_le h.hiwat, hsize.mbmax.trans_le h.mbmax, ?_,
      hcount.trans h.count⟩
    have hcc : a'.sbCc = s.sock.soSnd.sbCc + -len := hsize.cc
    have := h.cc
    exact show a'.sbCc ≤ sbMaxAdj by omega
  · cases hstep

theorem SegInv.reserve {cc : Nat} (h : SegInv s xs) (hstep : segStep s (.reserve cc) = some t) :
    SegInv t xs := by
  cases hstep
  by_cases hcc : cc = 0 ∨ sbMaxAdj < cc
  · have hsame : s.sock.soSnd.sbreserve cc = s.sock.soSnd := if_pos hcc
    rw [hsame]
    exact h
  · have hset : s.sock.soSnd.sbreserve cc =
        { s.sock.soSnd with sbHiwat := cc, sbMbmax := (min (cc * 2) sbMax : Nat) } := if_neg hcc
    rw [hset]
    obtain ⟨hfst, hsnd, hapart, hfree, hnd⟩ := h.bufs
    refine ⟨⟨⟨hfst.linked, hfst.tail, hfst.last, hfst.single, hfst.cc, hfst.mbcnt⟩, hsnd, hapart,
      hfree, hnd⟩, ?_, ?_, h.cc, h.count⟩
    · dsimp only
      omega
    · dsimp only
      omega

theorem SegInv.others {u : SndSocket k n} (h : SegInv s xs)
    (hstep : segStep s (.others u) = some t) : SegInv t xs := by
  simp only [segStep] at hstep
  split at hstep
  · next hspared =>
    cases hstep
    have hq : s.queued = xs := by
      have hlink := h.bufs.fst.linked
      rw [SndSocket.queued, walkFrom_eq hlink (by simpa using hlink.length_le)]
      rfl
    rw [hq] at hspared
    refine ⟨h.bufs.congr ?_ ?_ hspared.1, h.hiwat, h.mbmax, h.cc, h.count⟩
    · intro x hx
      exact (hspared.2 x (by simpa using hx)).1
    · intro x hx
      exact ⟨fun hx' => (hspared.2 x hx').2 hx, by simp⟩
  · cases hstep

theorem SegInv.step {a : SegAction k n} (h : ∃ xs, SegInv s xs) (hstep : segStep s a = some t) :
    ∃ xs, SegInv t xs := by
  obtain ⟨xs, h⟩ := h
  cases a with
  | send p tcpError => exact h.send hstep
  | ack len => exact h.ack hstep
  | reserve cc => exact ⟨xs, h.reserve hstep⟩
  | others u => exact ⟨xs, h.others hstep⟩

end Steps

namespace CloneMem

variable {m m' : CloneMem k n}

/-! Clones of packet buffers have nothing to do with the links between the mbufs. -/

theorem freeChain_mbufs {p : Option (Fin n)} (h : freeChain fuel m p = some m') :
    m'.mem.mbuf = m.mem.mbuf ∧ m'.mem.mbCache = m.mem.mbCache := by
  induction fuel generalizing m p with
  | zero =>
    cases p with
    | none =>
      cases h
      exact ⟨rfl, rfl⟩
    | some p => cases h
  | succ fuel ih =>
    cases p with
    | none =>
      cases h
      exact ⟨rfl, rfl⟩
    | some p =>
      obtain ⟨hmbuf, hcache⟩ := m.freeSeg_mbufs p
      obtain ⟨hmbuf', hcache'⟩ := ih h
      exact ⟨hmbuf'.trans hmbuf, hcache'.trans hcache⟩

theorem cloneSegs_mbufs {nseg : Nat} {prev : Option (Fin n)} {mi : Fin n} {ok : Bool}
    (h : cloneSegs pool fuel m prev mi md = some (nseg, ok, m')) :
    m'.mem.mbuf = m.mem.mbuf ∧ m'.mem.mbCache = m.mem.mbCache := by
  induction fuel generalizing m prev mi md nseg with
  | zero => cases h
  | succ fuel ih =>
    simp only [cloneSegs] at h
    split at h
    · cases h
      cases prev <;> exact ⟨rfl, rfl⟩
    split at h
    · cases h
      cases prev <;> exact ⟨rfl, rfl⟩
    · obtain ⟨⟨nseg', ok', m₂⟩, hrest, heq⟩ := map_eq_some_iff.mp h
      cases heq
      obtain ⟨hmbuf, hcache⟩ := ih hrest
      refine ⟨hmbuf.trans ?_, hcache.trans ?_⟩ <;> cases prev <;> rfl

theorem pktmbufClone_mbufs {o : Option (Fin n)} (h : m.pktmbufClone pool md = some (o, m')) :
    m'.mem.mbuf = m.mem.mbuf ∧ m'.mem.mbCache = m.mem.mbCache := by
  simp only [pktmbufClone] at h
  split at h
  · cases h
    exact ⟨rfl, rfl⟩
  split at h
  · cases h
  next hsegs =>
  obtain ⟨hmbuf, hcache⟩ := cloneSegs_mbufs hsegs
  split at h
  · cases h
    exact ⟨hmbuf, hcache⟩
  · obtain ⟨m₂, hfree, heq⟩ := map_eq_some_iff.mp h
    cases heq
    obtain ⟨hmbuf', hcache'⟩ := freeChain_mbufs hfree
    exact ⟨hmbuf'.trans hmbuf, hcache'.trans hcache⟩

theorem mGetIndirect_mbufs {type : MbufType} {y : Fin k}
    (h : m.mGetIndirect pool md type = some (some y, m')) :
    m.mem.mbCache = y :: m'.mem.mbCache ∧ m'.mem.mNext y = none ∧
      ∀ z, z ≠ y → m'.mem.mNext z = m.mem.mNext z := by
  cases hcache : m.mem.mbCache with
  | nil => simp [mGetIndirect, hcache] at h
  | cons y' cache =>
    simp only [mGetIndirect, hcache] at h
    obtain ⟨⟨o, m₁⟩, hclone, heq⟩ := map_eq_some_iff.mp h
    cases heq
    obtain ⟨hmbuf, hsame⟩ := pktmbufClone_mbufs hclone
    refine ⟨?_, ?_, ?_⟩
    · exact congrArg (y :: ·) hsame.symm
    · simp [mNext]
    · intro z hz
      simp only [mNext, modify_mbuf_of_ne _ _ hz, hmbuf]

namespace CopyLoop

variable {l : CopyLoop k n} {ws rest : List (Fin k)} {p o : Option (Fin k)}

structure Links (l : CopyLoop k n) (ws rest : List (Fin k)) (p : Option (Fin k)) : Prop where
  source : LinkedFrom l.m.mem.mNext p rest
  copy : LinkedFrom l.m.mem.mNext l.top ws
  last : l.np = ws.getLast?
  apart : ∀ w ∈ ws, w ∉ rest
  free : ∀ z ∈ l.m.mem.mbCache, z ∉ ws ∧ z ∉ rest
  nodup : l.m.mem.mbCache.Nodup

theorem Links.place {type : MbufType} {y : Fin k} (h : Links l ws (x :: rest) (some x))
    (hget : l.m.mGetIndirect pool md type = some (some y, m)) (b : Mbuf k n) (off count : Nat) :
    Links ({ l with m }.place y b off count) (ws ++ [y]) (x :: rest) (some x) := by
  obtain ⟨hcache, hynext, hother⟩ := mGetIndirect_mbufs hget
  have hyfree : y ∉ ws ∧ y ∉ x :: rest := h.free y (by simp [hcache])
  have hnp : l.np ≠ some y := fun hnp =>
    hyfree.1 (mem_of_mem_getLast? (h.last ▸ hnp))
  obtain ⟨-, hpcache, -, hptop⟩ := place_kept { l with m } y b off count
  obtain ⟨l', hl'⟩ : ∃ l', { l with m }.place y b off count = l' := ⟨_, rfl⟩
  rw [hl'] at hpcache hptop ⊢
  have hself : l'.m.mem.mNext y = none := by
    rw [← hl', mNext, place_mbuf_self { l with m } b off count hnp]
    exact hynext
  have hnext : ∀ z, z ≠ y → l'.m.mem.mNext z =
      if l.np = some z then some y else l.m.mem.mNext z := by
    intro z hz
    rw [← hl', mNext, place_mbuf _ _ _ _ hz]
    dsimp only
    rw [hother z hz]
  have hnd := h.nodup
  rw [hcache] at hnd
  refine ⟨h.source.congr ?_, ?_, ?_, ?_, ?_, ?_⟩
  · intro z hz
    have hzy : z ≠ y := ne_of_mem_of_not_mem hz hyfree.2
    have hznp : l.np ≠ some z := fun hnp =>
      h.apart z (mem_of_mem_getLast? (h.last ▸ hnp)) hz
    rw [hnext z hzy, if_neg hznp]
  · -- the new mbuf is the first one, or goes behind the last one
    rcases eq_nil_or_concat ws with rfl | ⟨vs, w, rfl⟩
    · have htop : l'.top = some y := hptop.trans (if_pos h.last)
      rw [htop]
      exact ⟨rfl, hself⟩
    · have hw : l.np = some w := by simp [h.last]
      have htop : l'.top = l.top := hptop.trans (if_neg (by simp [hw]))
      have hvnd := h.copy.nodup
      rw [concat_eq_append] at hvnd hyfree ⊢
      rw [htop]
      have hcopy := h.copy
      rw [concat_eq_append] at hcopy
      refine hcopy.snoc ?_ hself ?_
      · rw [hnext w (by rintro rfl; simp at hyfree), if_pos hw]
      · intro z hz
        have hzw : w ≠ z := fun hwz =>
          (nodup_append.mp hvnd).2.2 z hz w (by simp) hwz.symm
        have hzy : z ≠ y := ne_of_mem_of_not_mem (mem_append_left _ hz) hyfree.1
        rw [hnext z hzy, if_neg (by simpa [hw] using hzw)]
  · rw [← hl']
    simp [CopyLoop.place]
  · intro w hw
    rcases mem_append.mp hw with hw | hw
    · exact h.apart w hw
    · rw [mem_singleton.mp hw]
      exact hyfree.2
  · intro z hz
    rw [hpcache] at hz
    have hzfree := h.free z (by rw [hcache]; exact .tail _ hz)
    refine ⟨fun hmem => ?_, hzfree.2⟩
    rcases mem_append.mp hmem with hmem | hmem
    · exact hzfree.1 hmem
    · rw [mem_singleton.mp hmem] at hz
      exact (nodup_cons.mp hnd).1 hz
  · rw [hpcache]
    exact (nodup_cons.mp hnd).2

theorem Links.stop (h : Links l ws rest p) (heq : (some top, cloned, m') = (l.top, l.cloned, l.m)) :
    LinkedFrom m'.mem.mNext (some top) ws := by
  obtain ⟨htop, hrest⟩ := Prod.mk.inj heq
  obtain ⟨-, hm⟩ := Prod.mk.inj hrest
  rw [htop, hm]
  exact h.copy

theorem Links.run {off : Nat} (h : Links l ws rest p) (hin : ∀ x ∈ p, off ≤ (l.m.mem.mbuf x).mLen)
    (hall : len < mCopyall)
    (hrun : run pool fuel l p off len = some (some top, cloned, m')) :
    ∃ zs, LinkedFrom m'.mem.mNext (some top) (ws ++ zs) ∧ zs.length ≤ rest.length := by
  induction fuel generalizing l ws rest p off len with
  | zero =>
    cases p with
    | none => exact ⟨[], by simpa using h.stop (run_none hrun), by simp⟩
    | some x =>
      cases len with
      | zero => exact ⟨[], by simpa using h.stop (Option.some.inj hrun).symm, by simp⟩
      | succ len => cases hrun
  | succ fuel ih =>
    cases p with
    | none => exact ⟨[], by simpa using h.stop (run_none hrun), by simp⟩
    | some x =>
      cases len with
      | zero => exact ⟨[], by simpa using h.stop (Option.some.inj hrun).symm, by simp⟩
      | succ len =>
        obtain ⟨rest, rfl, -⟩ := LinkedFrom.some_iff.mp h.source
        rcases run_succ hrun with ⟨m₁, heq⟩ | ⟨md, y, m₁, -, hget, l', count, hl', hcount, hgo⟩
        · cases heq
        · have h' := h.place hget (l.m.mem.mbuf x) off count
          rw [hl'] at h'
          have hoff := hin x rfl
          rw [if_neg (show ¬ len + 1 = mCopyall by omega)] at hgo
          split at hgo
          · have hnext : Links l' (ws ++ [y]) rest (l'.m.mem.mNext x) :=
              ⟨h'.source.2, h'.copy, h'.last, fun w hw hmem => h'.apart w hw (.tail _ hmem),
                fun z hz => ⟨(h'.free z hz).1, fun hmem => (h'.free z hz).2 (.tail _ hmem)⟩,
                h'.nodup⟩
            obtain ⟨zs, hlink, hlen⟩ := ih hnext (by simp) (by omega) hgo
            refine ⟨y :: zs, by simpa using hlink, ?_⟩
            rw [length_cons, length_cons]
            omega
          · -- all bytes have been copied
            have hdone : len + 1 - count = 0 := by omega
            rw [hdone, run_zero] at hgo
            exact ⟨[y], h'.stop (Option.some.inj hgo).symm, by simp⟩

end CopyLoop

theorem mCopym_length {p : Option (Fin k)} {off : Nat} (hlink : LinkedFrom m.mem.mNext p xs)
    (hfree : ∀ z ∈ m.mem.mbCache, z ∉ xs)
    (hnd : m.mem.mbCache.Nodup) (hlen : off + len ≤ m.mem.lenOf xs) (hall : len < mCopyall)
    (hcopy : m.mCopym pool p off len = some (some top, cloned, m')) :
    ∃ ys, LinkedFrom m'.mem.mNext (some top) ys ∧ ys.length ≤ xs.length := by
  have hcard : xs.length ≤ k := by simpa using hlink.length_le
  have hle : off ≤ m.mem.lenOf xs := by omega
  obtain ⟨rest, off', hskip, hsuf, hlink', hin, -⟩ := skipOff_links hlink hle hcard
  have hrun := run_of_mCopym hcopy
  rw [hskip, bind_some] at hrun
  have hstart : CopyLoop.Links { m } [] rest rest.head? :=
    ⟨hlink', rfl, rfl, by simp,
      fun z hz => ⟨by simp, fun hmem => hfree z hz (hsuf.subset hmem)⟩, hnd⟩
  obtain ⟨zs, hzs, hcount⟩ := hstart.run hin hall hrun
  exact ⟨zs, hzs, hcount.trans hsuf.length_le⟩

end CloneMem

namespace Memory

theorem modify_nbSegs (rte : Memory n) (p x : Fin n) (f : RteMbuf n → RteMbuf n) :
    ((rte.modify p f).cell x).nbSegs =
      if x = p then (f (rte.cell x)).nbSegs else (rte.cell x).nbSegs := by
  by_cases hx : x = p
  · rw [hx, modify_cell_self, if_pos rfl]
  · rw [modify_cell_of_ne _ _ hx, if_neg hx]

theorem chainRteMbufs_nbSegs (rte : Memory n) (head : Fin n) (prev : Option (Fin n)) (p : Fin n)
    (d : Int) (l : Nat) :
    ((rte.chainRteMbufs head prev p d l).cell head).nbSegs =
      if prev = none then 1 else ((rte.cell head).nbSegs + 1) % 256 := by
  cases prev with
  | none => simp only [chainRteMbufs, setNext, modify_nbSegs, if_true, ite_self]
  | some q =>
    simp only [chainRteMbufs, setNext, modify_nbSegs, if_true, ite_self, reduceCtorEq, if_false]

end Memory

namespace IfState

theorem chainPacket_nbSegs (head : Fin n) {prev : Option (Fin n)} {p : Option (Fin k)} {c : Nat}
    (hlink : LinkedFrom mem.mNext p xs) (hpaddr : ∀ x ∈ xs, (mem.mbuf x).mPaddr ≠ none)
    (hprev : prev ≠ none → (mem.rte.cell head).nbSegs = c) (hfirst : prev = none → c = 0)
    (hne : prev = none → xs ≠ []) (hcount : c + xs.length < 256) (hfuel : xs.length ≤ fuel) :
    ∃ mem', chainPacket fuel mem head prev p = some mem' ∧
      (mem'.rte.cell head).nbSegs = c + xs.length := by
  induction xs generalizing mem prev p fuel c with
  | nil =>
    cases hlink
    refine ⟨mem, ?_, hprev fun hnone => hne hnone rfl⟩
    cases fuel <;> rfl
  | cons x xs ih =>
    have hx : x ∉ xs := (nodup_cons.mp hlink.nodup).1
    obtain ⟨rfl, hrest⟩ := hlink
    rw [length_cons] at hcount hfuel ⊢
    obtain ⟨fuel, rfl⟩ : ∃ j, fuel = j + 1 := ⟨fuel - 1, by omega⟩
    obtain ⟨p, hp⟩ := Option.ne_none_iff_exists'.mp (hpaddr x mem_cons_self)
    have hlink₁ : LinkedFrom (chainMbuf mem head prev x p).mNext (mem.mNext x) xs := by
      rw [chainMbuf_mNext]
      exact hrest
    have hpaddr₁ : ∀ y ∈ xs, ((chainMbuf mem head prev x p).mbuf y).mPaddr ≠ none := by
      intro y hy
      rw [chainMbuf_of_ne mem head prev (ne_of_mem_of_not_mem hy hx)]
      exact hpaddr y (mem_cons_of_mem _ hy)
    have hsegs : ((chainMbuf mem head prev x p).rte.cell head).nbSegs = c + 1 := by
      rw [chainMbuf, modify_rte, Memory.chainRteMbufs_nbSegs]
      split
      · next hnone => rw [hfirst hnone]
      · next hsome =>
        rw [hprev hsome]
        omega
    obtain ⟨mem', hrun, hrec⟩ : ∃ mem', chainPacket fuel _ head (some p) _ = some mem' ∧ _ :=
      ih hlink₁ hpaddr₁ (fun _ => hsegs) (by simp) (by simp) (by omega) (by omega)
    refine ⟨mem', ?_, by omega⟩
    simp only [chainPacket, hp, chainMbuf_mNext]
    exact hrun

end IfState

namespace SndSocket

/-- In every state that is reached from an empty send buffer there are at most 128 mbufs in it. What
is copied of it makes, behind one mbuf with the headers, a packet of at most 129 mbufs, and
`dpdk_if_start` puts their number into the 8-bit `nb_segs`. -/
theorem segments_counted {s t : SndSocket k n} {as : List (SegAction k n)} (hs : s.Initial)
    (hrun : Run segStep (fun _ _ => True) s as t) :
    ∃ xs, LinkedFrom t.sock.mem.mNext t.sock.soSnd.sbMb xs ∧ xs.length ≤ sbMax / mSize ∧
      ∀ attached pool (off len : Nat) top cloned m', off + len ≤ t.sock.soSnd.sbCc →
        CloneMem.mCopym ⟨t.sock.mem, attached⟩ pool t.sock.soSnd.sbMb off len =
          some (some top, cloned, m') →
        ∃ ys, LinkedFrom m'.mem.mNext (some top) ys ∧ ys.length + 1 ≤ 129 ∧
          ∀ (mem : MbufMem k n) h head fuel, LinkedFrom mem.mNext (some h) (h :: ys) →
            (∀ x ∈ h :: ys, (mem.mbuf x).mPaddr ≠ none) → (h :: ys).length ≤ fuel →
            ∃ mem', IfState.chainPacket fuel mem head none (some h) = some mem' ∧
              (mem'.rte.cell head).nbSegs = (h :: ys).length := by
  obtain ⟨xs, hinv⟩ : ∃ xs, SegInv t xs :=
    hrun.invariant (fun s a t hI _ hstep => SegInv.step hI hstep) ⟨[], SegInv.of_initial hs⟩
  refine ⟨xs, hinv.bufs.fst.linked, hinv.count, ?_⟩
  intro attached pool off len top cloned m' hin hcopy
  have hcc := hinv.cc
  have hlen := hinv.bufs.fst.cc
  have hmax : (sbMaxAdj : Int) < mCopyall := by decide
  obtain ⟨ys, hys, hshort⟩ := CloneMem.mCopym_length hinv.bufs.fst.linked
    (fun z hz => (hinv.bufs.free z hz).1) hinv.bufs.nodup
    (show off + len ≤ t.sock.mem.lenOf xs by omega) (show len < mCopyall by omega) hcopy
  have hle : ys.length + 1 ≤ 129 := Nat.succ_le_succ (hshort.trans hinv.count)
  refine ⟨ys, hys, hle, ?_⟩
  intro mem h head fuel hlink hpaddr hfuel
  obtain ⟨mem', hchain, hsegs⟩ := IfState.chainPacket_nbSegs head hlink hpaddr
    (fun hne => absurd rfl hne) (fun _ => rfl) (by simp)
    (show 0 + (h :: ys).length < 256 by simp only [length_cons]; omega) hfuel
  exact ⟨mem', hchain, hsegs.trans (Nat.zero_add _)⟩

def unsent : SndSocket 4 4 where
  sock := {
    mem := {
      mbuf := fun _ => {}
      mbCache := [0, 1, 2, 3]
      rte := { cell := fun _ => { refcnt := 1, dataLen := 3 }, mempool := [(1, 2), (1, 3)] } }
    soSnd := {}, soRcv := {}, slot := none }

theorem segments_counted_resend : unsent.Initial ∧ ∃ t,
    Run segStep (fun _ _ => True) unsent [.reserve 4096, .send 0 0, .send 1 0, .ack 2] t ∧
      (t.sock.soSnd.sbCc = 4 ∧ ((CloneMem.mCopym ⟨t.sock.mem, fun _ => none⟩ 1
        t.sock.soSnd.sbMb 0 4).bind Prod.fst).isSome = true) ∧
      ∃ top cloned m' ys, CloneMem.mCopym ⟨t.sock.mem, fun _ => none⟩ 1 t.sock.soSnd.sbMb 0 4 =
          some (some top, cloned, m') ∧
        LinkedFrom m'.mem.mNext (some top) ys ∧ ys.length + 1 ≤ 129 := by
  have hinit : unsent.Initial :=
    ⟨⟨rfl, rfl, rfl, rfl, rfl⟩, by decide, by decide, by decide⟩
  refine ⟨hinit, Run.exists_and_of_runActions (by decide +kernel) fun t hrun ht => ?_⟩
  obtain ⟨hcc, hsome⟩ := ht
  obtain ⟨top, htop⟩ := Option.isSome_iff_exists.mp hsome
  obtain ⟨⟨o, cloned, m'⟩, hcopy, rfl⟩ := Option.bind_eq_some_iff.mp htop
  obtain ⟨xs, -, -, hpacket⟩ := segments_counted hinit hrun
  obtain ⟨ys, hys, hcount, -⟩ := hpacket _ 1 0 4 top cloned m' (by omega) hcopy
  exact ⟨top, cloned, m', ys, hcopy, hys, hcount⟩

end SndSocket

end NetbsdDpdk
