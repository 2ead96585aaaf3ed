import NetbsdDpdk.MbufCopy
import Mathlib.Data.Nat.Init

/-! The words of `struct mbuf` that the model of the buffers leaves out, and what the functions that
hand out an mbuf leave in them from its earlier packet. -/

namespace NetbsdDpdk

variable {k n : Nat}

/-- The other words of `struct mbuf`; NULL is 0. `rcvif` is the first word behind `m_hdr`, which is
`m_dat` too, and `pktdat` the first one behind the packet header, which is both `m_pktdat` and
`m_ext_ref`. `otherFlags` is `m_flags` without `M_EXT`, `M_PKTHDR` and `M_EOR`; `tags` is the tag
list. -/
structure MbufWords where
  owner : Int := 0
  otherFlags : BitVec 32 := 0
  rcvif : Int := 0
  tags : List Nat := []
  csumFlags : BitVec 32 := 0
  csumData : BitVec 32 := 0
  segsz : BitVec 32 := 0
  pktdat : Int := 0
  deriving DecidableEq

def mCopyflags : BitVec 32 := 0x7ff0

def MbufWords.copyHdr (w v : MbufWords) : MbufWords :=
  { v with
    rcvif := w.rcvif, tags := w.tags, csumFlags := w.csumFlags, csumData := w.csumData
    segsz := w.segsz, otherFlags := w.otherFlags &&& mCopyflags }

def Mbuf.copyHdr (b c : Mbuf k n) : Mbuf k n :=
  { c with mPkthdr := b.mPkthdr, mEor := b.mEor, mExtSize := none, mPktLen := b.mPktLen }

/-- The addresses of the mbufs and of the data rooms, whose sizes are `buf_len`. No mbuf begins
inside a data room. -/
structure Layout (k n : Nat) where
  mbufAddr : Fin k → Int
  bufAddr : Fin n → Int
  room : Fin n → Nat
  apart : ∀ x p, ¬ (bufAddr p ≤ mbufAddr x ∧ mbufAddr x < bufAddr p + room p)

/-- The mbufs with all their words. `freedTags` is not in the code: the tags freed so far. -/
structure StructMem (k n : Nat) where
  core : CloneMem k n
  words : Fin k → MbufWords
  freedTags : List Nat := []

namespace StructMem

def mbuf (s : StructMem k n) (x : Fin k) : Mbuf k n := s.core.mem.mbuf x

def modify (s : StructMem k n) (x : Fin k) (f : Mbuf k n → Mbuf k n) : StructMem k n :=
  { s with core := { s.core with mem := s.core.mem.modify x f } }

def setWords (s : StructMem k n) (x : Fin k) (f : MbufWords → MbufWords) : StructMem k n :=
  { s with words := Function.update s.words x (f (s.words x)) }

/-- `m_data`. -/
def dataAddr (L : Layout k n) (s : StructMem k n) (x : Fin k) : Int :=
  match s.core.dataBuffer x with
  | some d => L.bufAddr d + (s.mbuf x).mData
  | none => (s.mbuf x).mData

def setDataAddr (L : Layout k n) (s : StructMem k n) (x : Fin k) (a : Int) : StructMem k n :=
  match s.core.dataBuffer x with
  | some d => s.modify x fun b => { b with mData := a - L.bufAddr d }
  | none => s.modify x fun b => { b with mData := a }

def mGet (L : Layout k n) (s : StructMem k n) (pool : Nat) (type : MbufType) :
    Option (Option (Fin k) × StructMem k n) :=
  (s.core.mem.mGet pool type).map fun r =>
    let s := { s with core := { s.core with mem := r.2 } }
    match r.1 with
    | none => (none, s)
    | some x => (some x, s.setWords x fun w => { w with otherFlags := 0, pktdat := L.mbufAddr x })

def mGethdr (L : Layout k n) (s : StructMem k n) (pool : Nat) (type : MbufType) :
    Option (Option (Fin k) × StructMem k n) :=
  (s.mGet L pool type).map fun r =>
    match r.1 with
    | none => (none, r.2)
    | some x =>
      let s := r.2.setWords x fun w =>
        { w with pktdat := r.2.dataAddr L x, rcvif := 0, csumFlags := 0, csumData := 0, tags := [] }
      (some x, s.modify x fun b => { b with mPkthdr := true })

/-- `m_devget`: `m_pkthdr.len` and `m_len` become `totlen`, but only `rcvif` of the other fields of
the packet header is written. -/
def mDevget (L : Layout k n) (s : StructMem k n) (buf : Int) (totlen : Nat) (off0 ifp : Int)
    (pdesc : Fin n) : Option (Fin k × StructMem k n) :=
  let offset := buf + off0 - L.bufAddr (s.core.owner pdesc)
  (s.core.mem.mDevget offset totlen pdesc).map fun r =>
    let s := { s with core := { s.core with mem := r.2 } }
    (r.1, s.setWords r.1 fun w =>
      { w with otherFlags := 0, pktdat := L.mbufAddr r.1, rcvif := ifp })

def mTagDeleteChain (s : StructMem k n) (x : Fin k) : StructMem k n :=
  { s with freedTags := (s.words x).tags ++ s.freedTags }.setWords x fun w => { w with tags := [] }

def mFree (s : StructMem k n) (x : Fin k) : StructMem k n × Option (Fin k) :=
  let s := if (s.mbuf x).mPkthdr = true then s.mTagDeleteChain x else s
  let r := s.core.mFree x
  ({ s with core := r.1 }, r.2)

def mFreem : Nat → StructMem k n → Option (Fin k) → Option (StructMem k n)
  | _, s, none => some s
  | 0, _, some _ => none
  | fuel + 1, s, some x => mFreem fuel (s.mFree x).1 (s.mFree x).2

def mMovePkthdr (L : Layout k n) (s : StructMem k n) (dst src : Fin k) : StructMem k n :=
  let s := (s.setWords dst (s.words src).copyHdr).modify dst (s.mbuf src).copyHdr
  let s := s.setDataAddr L dst (s.words dst).pktdat
  s.modify src fun c => { c with mPkthdr := false }

def mTagPrepend (s : StructMem k n) (x : Fin k) (t : Nat) : StructMem k n :=
  s.setWords x fun w => { w with tags := t :: w.tags }

def recycled (s : StructMem k n) (x : Fin k) (b : Mbuf k n) (w : MbufWords) : StructMem k n :=
  (s.modify x fun _ => b).setWords x fun _ => w

variable {s : StructMem k n} {x : Fin k}

@[simp] theorem mbuf_modify (s : StructMem k n) (x : Fin k) (f : Mbuf k n → Mbuf k n) :
    (s.modify x f).mbuf x = f (s.mbuf x) := MbufMem.modify_mbuf_self ..

theorem mbuf_modify_of_ne (s : StructMem k n) {x y : Fin k} (f : Mbuf k n → Mbuf k n)
    (h : y ≠ x) : (s.modify x f).mbuf y = s.mbuf y := MbufMem.modify_mbuf_of_ne _ _ h

@[simp] theorem words_modify (s : StructMem k n) (x : Fin k) (f : Mbuf k n → Mbuf k n) :
    (s.modify x f).words = s.words := rfl

@[simp] theorem words_setWords (s : StructMem k n) (x : Fin k) (f : MbufWords → MbufWords) :
    (s.setWords x f).words x = f (s.words x) := Function.update_self ..

theorem words_setWords_of_ne (s : StructMem k n) {x y : Fin k} (f : MbufWords → MbufWords)
    (h : y ≠ x) : (s.setWords x f).words y = s.words y := Function.update_of_ne h ..

@[simp] theorem core_setWords (s : StructMem k n) (x : Fin k) (f : MbufWords → MbufWords) :
    (s.setWords x f).core = s.core := rfl

@[simp] theorem mbuf_setWords (s : StructMem k n) (x y : Fin k) (f : MbufWords → MbufWords) :
    (s.setWords x f).mbuf y = s.mbuf y := rfl

theorem mDevget_words {rest : List (Fin k)} (hcache : s.core.mem.mbCache = x :: rest)
    (L : Layout k n) (buf : Int) (totlen : Nat) (off0 ifp : Int) (pdesc : Fin n) :
    ∃ t, s.mDevget L buf totlen off0 ifp pdesc = some (x, t) ∧
      t.words x = { s.words x with otherFlags := 0, pktdat := L.mbufAddr x, rcvif := ifp } ∧
      t.mbuf x = MbufMem.devMbuf (buf + off0 - L.bufAddr (s.core.owner pdesc)) totlen pdesc ∧
      t.freedTags = s.freedTags := by
  have hget : s.core.mem.mDevget (buf + off0 - L.bufAddr (s.core.owner pdesc)) totlen pdesc =
      some (x, s.core.mem.placeChain
        [(x, MbufMem.devMbuf (buf + off0 - L.bufAddr (s.core.owner pdesc)) totlen pdesc)]) := by
    rw [MbufMem.mDevget, hcache]
  refine ⟨_, congrArg (Option.map _) hget, ?_, ?_, rfl⟩
  · rw [words_setWords]
  · rw [mbuf_setWords, mbuf, MbufMem.placeChain_cons_self]
    rfl

theorem mFree_freedTags (h : (s.mbuf x).mPkthdr = true) :
    (s.mFree x).1.freedTags = (s.words x).tags ++ s.freedTags := by
  simp only [mFree, if_pos h]
  rfl

/-- The packets of two runs agree exactly if the earlier contents agree in the words that `m_devget`
does not write; and `MFREE` frees the tags of the earlier packet. -/
theorem mDevget_agree_iff {rest : List (Fin k)} (hcache : s.core.mem.mbCache = x :: rest)
    (L : Layout k n) (buf : Int) (totlen : Nat) (off0 ifp : Int) (pdesc : Fin n)
    (b₁ b₂ : Mbuf k n) (w₁ w₂ : MbufWords) :
    ∃ t₁ t₂, (s.recycled x b₁ w₁).mDevget L buf totlen off0 ifp pdesc = some (x, t₁) ∧
      (s.recycled x b₂ w₂).mDevget L buf totlen off0 ifp pdesc = some (x, t₂) ∧
      (t₁.mbuf x = t₂.mbuf x ∧ t₁.words x = t₂.words x ∧ (t₁.words x).tags = [] ↔
        w₁.tags = [] ∧ w₂.tags = [] ∧ w₁.csumFlags = w₂.csumFlags ∧ w₁.csumData = w₂.csumData ∧
          w₁.segsz = w₂.segsz ∧ w₁.owner = w₂.owner) ∧
      (t₁.mFree x).1.freedTags = w₁.tags ++ s.freedTags := by
  obtain ⟨t₁, hrun₁, hwords₁, hmbuf₁, htags₁⟩ :=
    mDevget_words (s := s.recycled x b₁ w₁) hcache L buf totlen off0 ifp pdesc
  obtain ⟨t₂, hrun₂, hwords₂, hmbuf₂, -⟩ :=
    mDevget_words (s := s.recycled x b₂ w₂) hcache L buf totlen off0 ifp pdesc
  have hsame : t₁.mbuf x = t₂.mbuf x := hmbuf₁.trans hmbuf₂.symm
  rw [recycled, words_setWords] at hwords₁ hwords₂
  refine ⟨t₁, t₂, hrun₁, hrun₂, ?_, ?_⟩
  · rw [hwords₁, hwords₂, MbufWords.mk.injEq]
    constructor
    · rintro ⟨-, ⟨howner, -, -, htags, hflags, hdata, hsegsz, -⟩, hnil⟩
      exact ⟨hnil, htags ▸ hnil, hflags, hdata, hsegsz, howner⟩
    · rintro ⟨hnil₁, hnil₂, hflags, hdata, hsegsz, howner⟩
      exact ⟨hsame, ⟨howner, rfl, rfl, hnil₁.trans hnil₂.symm, hflags, hdata, hsegsz, rfl⟩, hnil₁⟩
  · rw [mFree_freedTags (by rw [hmbuf₁]; rfl), hwords₁, htags₁]
    rfl

def twoMbufs : StructMem 13 14 where
  core := { mem := {
    mbuf := fun _ => {}
    mbCache := [0, 1]
    rte := { cell := fun _ => {}, mempool := [(0, 0), (0, 1)] } } }
  words := fun _ => {}

def twoMbufsLayout : Layout 13 14 where
  mbufAddr x := 4096 + 256 * x.val
  bufAddr p := 8192 + 4096 * p.val
  room _ := 2048
  apart := by decide

theorem mDevget_agree_iff_csum : ∃ t₁ t₂,
    (twoMbufs.recycled 0 {} {}).mDevget twoMbufsLayout 16512 60 0 1 2 = some (0, t₁) ∧
    (twoMbufs.recycled 0 {} { csumFlags := 0x40 }).mDevget twoMbufsLayout 16512 60 0 1 2 =
      some (0, t₂) ∧
    ¬ (t₁.mbuf 0 = t₂.mbuf 0 ∧ t₁.words 0 = t₂.words 0 ∧ (t₁.words 0).tags = []) := by
  obtain ⟨t₁, t₂, hrun₁, hrun₂, hagree, -⟩ := mDevget_agree_iff
    (show twoMbufs.core.mem.mbCache = 0 :: [1] from rfl) twoMbufsLayout 16512 60 0 1 2 {} {} {}
    { csumFlags := 0x40 }
  refine ⟨t₁, t₂, hrun₁, hrun₂, fun h => ?_⟩
  have hflags := (hagree.mp h).2.2.1
  revert hflags
  decide

/-- A packet with the tag 7 and `M_CSUM_IPv4` moves its header to another mbuf and is freed. The
next packet of the device has both of them, and `MFREE` frees the tag again; without the earlier
packet it has none. -/
theorem recycled_keeps_csum_and_tag :
    ∃ s₁ s₂ s₃ s₄ t t₀, twoMbufs.mGethdr twoMbufsLayout 0 .header = some (some 0, s₁) ∧
      ((s₁.mTagPrepend 0 7).setWords 0 fun w => { w with csumFlags := 0x40 }) = s₂ ∧
      s₂.mGet twoMbufsLayout 0 .header = some (some 1, s₃) ∧
      (((s₃.mMovePkthdr twoMbufsLayout 1 0).modify 1 fun b => { b with mNext := some 0 }).mFreem 2
        (some 1)) = some s₄ ∧ s₄.freedTags = [7] ∧
      s₄.mDevget twoMbufsLayout 16512 60 0 1 2 = some (0, t) ∧
      twoMbufs.mDevget twoMbufsLayout 16512 60 0 1 2 = some (0, t₀) ∧
      (t.words 0).csumFlags = 0x40 ∧ (t₀.words 0).csumFlags = 0 ∧
      (t.words 0).tags = [7] ∧ (t₀.words 0).tags = [] ∧ (t.mFree 0).1.freedTags = [7, 7] :=
  ⟨_, _, _, _, _, _, rfl, rfl, rfl, rfl, rfl, rfl, rfl, rfl, rfl, rfl, rfl, rfl⟩

end StructMem

end NetbsdDpdk
