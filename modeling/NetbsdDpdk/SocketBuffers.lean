import NetbsdDpdk.SockbufSpec
import Mathlib.Tactic.Ring

/-! The two buffers of a stream socket share the mbufs: what is done to one leaves the chain of
the other as it is. -/

namespace NetbsdDpdk

open List MbufMem

variable {k n : Nat}

namespace MbufMem

def placeChain (mem : MbufMem k n) : List (Fin k × Mbuf k n) → MbufMem k n
  | [] => mem
  | (x, m) :: ms =>
    let mem := mem.placeChain ms
    { mem with
      mbuf := Function.update mem.mbuf x
        { m with mNext := ms.head?.map Prod.fst, mNextpkt := none }
      mbCache := mem.mbCache.erase x }

variable {mem : MbufMem k n} {ms : List (Fin k × Mbuf k n)}

@[simp] theorem placeChain_cons_self (mem : MbufMem k n) (x : Fin k) (m : Mbuf k n)
    (ms : List (Fin k × Mbuf k n)) : (mem.placeChain ((x, m) :: ms)).mbuf x =
      { m with mNext := ms.head?.map Prod.fst, mNextpkt := none } := by
  simp [placeChain]

theorem placeChain_cons_of_ne (mem : MbufMem k n) {x y : Fin k} (m : Mbuf k n)
    (ms : List (Fin k × Mbuf k n)) (h : y ≠ x) :
    (mem.placeChain ((x, m) :: ms)).mbuf y = (mem.placeChain ms).mbuf y := by
  simp [placeChain, h]

theorem placeChain_mbuf_of_notMem {y : Fin k} (hy : y ∉ ms.map Prod.fst) :
    (mem.placeChain ms).mbuf y = mem.mbuf y := by
  induction ms with
  | nil => rfl
  | cons p ms ih =>
    obtain ⟨x, m⟩ := p
    simp only [map_cons, mem_cons, not_or] at hy
    rw [placeChain_cons_of_ne mem m ms hy.1, ih hy.2]

theorem placeChain_linked (hnd : (ms.map Prod.fst).Nodup) :
    LinkedFrom (mem.placeChain ms).mNext (ms.head?.map Prod.fst) (ms.map Prod.fst) := by
  induction ms with
  | nil => rfl
  | cons p ms ih =>
    obtain ⟨x, m⟩ := p
    simp only [map_cons, nodup_cons] at hnd
    refine ⟨rfl, ?_⟩
    have hx : (mem.placeChain ((x, m) :: ms)).mNext x = ms.head?.map Prod.fst := by
      simp [mNext]
    rw [hx]
    apply (ih hnd.2).congr
    intro y hy
    have hne : y ≠ x := ne_of_mem_of_not_mem hy hnd.1
    rw [mNext, placeChain_cons_of_ne mem m ms hne, mNext]

theorem placeChain_nextpkt {y : Fin k} (hy : y ∈ ms.map Prod.fst) :
    ((mem.placeChain ms).mbuf y).mNextpkt = none := by
  induction ms with
  | nil => simp at hy
  | cons p ms ih =>
    obtain ⟨x, m⟩ := p
    by_cases hx : y = x
    · subst hx
      simp
    · have hmem : y ∈ ms.map Prod.fst := by simpa [hx] using hy
      rw [placeChain_cons_of_ne mem m ms hx, ih hmem]

theorem placeChain_lenOf (hnd : (ms.map Prod.fst).Nodup) :
    (mem.placeChain ms).lenOf (ms.map Prod.fst) = (ms.map fun p => p.2.mLen).sum := by
  induction ms with
  | nil => rfl
  | cons p ms ih =>
    obtain ⟨x, m⟩ := p
    simp only [map_cons, nodup_cons] at hnd
    have hsame : ∀ y ∈ ms.map Prod.fst,
        (mem.placeChain ms).SameData (mem.placeChain ((x, m) :: ms)) y := by
      intro y hy
      have hne : y ≠ x := ne_of_mem_of_not_mem hy hnd.1
      exact .of_eq (placeChain_cons_of_ne mem m ms hne)
    rw [map_cons, lenOf_cons, lenOf_congr hsame, ih hnd.2]
    simp

theorem placeChain_mbCache (hnd : mem.mbCache.Nodup) :
    (mem.placeChain ms).mbCache.Nodup ∧ ∀ y, y ∈ (mem.placeChain ms).mbCache ↔
      y ∈ mem.mbCache ∧ y ∉ ms.map Prod.fst := by
  induction ms with
  | nil => exact ⟨hnd, by simp [placeChain]⟩
  | cons p ms ih =>
    obtain ⟨x, m⟩ := p
    obtain ⟨hnd', hiff⟩ := ih
    refine ⟨hnd'.erase x, ?_⟩
    intro y
    simp only [placeChain, hnd'.mem_erase_iff, hiff, map_cons, mem_cons, not_or]
    tauto

theorem placeChain_rte : (mem.placeChain ms).rte = mem.rte := by
  induction ms with
  | nil => rfl
  | cons p ms ih => exact ih

theorem placeChain_length :
    mem.mbCache.length ≤ (mem.placeChain ms).mbCache.length + ms.length := by
  induction ms with
  | nil => exact le_refl _
  | cons p ms ih =>
    have herase := @length_erase _ _ _ p.1 (mem.placeChain ms).mbCache
    simp only [placeChain, length_cons]
    split at herase <;> omega

end MbufMem

structure Resized (mem : MbufMem k n) (a : Sockbuf k) (len charge : Int) (count : Nat)
    (mem' : MbufMem k n) (a' : Sockbuf k) : Prop where
  cc : a'.sbCc = a.sbCc + len
  mbcnt : a'.sbMbcnt ≤ a.sbMbcnt + charge
  hiwat : a'.sbHiwat = a.sbHiwat
  mbmax : a'.sbMbmax = a.sbMbmax
  cache : mem.mbCache.length ≤ mem'.mbCache.length + count
  rte : mem.rte.DataKept mem'.rte

structure TwoBuffers (mem : MbufMem k n) (a b : Sockbuf k) (xs ys : List (Fin k)) : Prop where
  fst : SbRep mem a xs
  snd : SbRep mem b ys
  apart : ∀ x ∈ xs, x ∉ ys
  free : ∀ x ∈ mem.mbCache, x ∉ xs ∧ x ∉ ys
  nodup : mem.mbCache.Nodup

namespace TwoBuffers

variable {mem : MbufMem k n} {a b : Sockbuf k} {xs ys : List (Fin k)}

theorem symm (h : TwoBuffers mem a b xs ys) : TwoBuffers mem b a ys xs where
  fst := h.snd
  snd := h.fst
  apart x hy hx := h.apart x hx hy
  free x hx := (h.free x hx).symm
  nodup := h.nodup

theorem append (h : TwoBuffers mem a b xs ys) (slot : Option TxSlot) {x : Fin k} (m : Mbuf k n)
    {ms : List (Fin k × Mbuf k n)} (hnd : (x :: ms.map Prod.fst).Nodup)
    (hfree : ∀ y ∈ x :: ms.map Prod.fst, y ∈ mem.mbCache) :
    ∃ mem' a' zs, sbappendstream (mem.placeChain ((x, m) :: ms)) a slot x =
        some (mem', a', reflectTxSocketBuf slot m.mLen) ∧
      TwoBuffers mem' a' b (xs ++ zs) ys ∧
      Resized mem a (m.mLen + (ms.map fun p => p.2.mLen).sum : Nat)
        ((mem.placeChain ((x, m) :: ms)).chargeOf (x :: ms.map Prod.fst)) (ms.length + 1)
        mem' a' ∧ zs.length ≤ ms.length + 1 := by
  obtain ⟨mem₁, hmem₁⟩ : ∃ mem₁, mem.placeChain ((x, m) :: ms) = mem₁ := ⟨_, rfl⟩
  obtain ⟨hnd₁, hcache₁⟩ : mem₁.mbCache.Nodup ∧ ∀ y, y ∈ mem₁.mbCache ↔
      y ∈ mem.mbCache ∧ y ∉ x :: ms.map Prod.fst := by
    rw [← hmem₁]
    exact placeChain_mbCache h.nodup
  have hold : ∀ y, y ∉ x :: ms.map Prod.fst → mem₁.mbuf y = mem.mbuf y := by
    intro y hy
    rw [← hmem₁]
    exact placeChain_mbuf_of_notMem hy
  have hxs : ∀ y ∈ x :: ms.map Prod.fst, y ∉ xs := fun y hy => (h.free y (hfree y hy)).1
  have hys : ∀ y ∈ x :: ms.map Prod.fst, y ∉ ys := fun y hy => (h.free y (hfree y hy)).2
  have hrep₁ : SbRep mem₁ a xs := h.fst.congr fun y hy => hold y fun hc => hxs y hc hy
  have hlink : LinkedFrom mem₁.mNext (some x) (x :: ms.map Prod.fst) := by
    rw [← hmem₁]
    exact placeChain_linked hnd
  have hnp : ∀ y ∈ x :: ms.map Prod.fst, (mem₁.mbuf y).mNextpkt = none := by
    intro y hy
    rw [← hmem₁]
    exact placeChain_nextpkt hy
  have hlen : (mem₁.mbuf x).mLen = m.mLen := by
    rw [← hmem₁, placeChain_cons_self]
  obtain ⟨mem', a', zs, hres, hrep, happ, hhiwat, hmbmax⟩ :=
    sbappendstream_spec hrep₁ hlink hxs hnp
  obtain ⟨fs, hfs, hperm⟩ := happ.cache
  have hcells : ∀ y, y ∈ fs ∨ y ∈ zs ↔ y ∈ x :: ms.map Prod.fst := by
    intro y
    rw [← mem_append]
    exact hperm.mem_iff
  have hndfz := hperm.nodup_iff.mpr hnd
  rw [hlen] at hres
  have hcount : zs.length ≤ ms.length + 1 := by simpa using happ.sub.length_le
  refine ⟨mem', a', zs, by rw [hmem₁]; exact hres, ⟨hrep, ?_, ?_, ?_, ?_⟩,
    ⟨?_, ?_, hhiwat, hmbmax, ?_, ?_⟩, hcount⟩
  · have hrep₁' : SbRep mem₁ b ys := h.snd.congr fun y hy => hold y fun hc => hys y hc hy
    exact hrep₁'.congr fun y hy => happ.other y (fun hx => h.apart y hx hy) fun hc => hys y hc hy
  · intro y hy
    rcases mem_append.mp hy with hy | hy
    · exact h.apart y hy
    · exact hys y ((hcells y).mp (.inr hy))
  · intro y hy
    rw [hfs] at hy
    rcases mem_append.mp hy with hy | hy
    · have hc := (hcells y).mp (.inl hy)
      have hyz : y ∉ zs := fun hz => disjoint_of_nodup_append hndfz hy hz
      exact ⟨fun hm => (mem_append.mp hm).elim (hxs y hc) hyz, hys y hc⟩
    · obtain ⟨hy, hc⟩ := (hcache₁ y).mp hy
      have hyz : y ∉ zs := fun hz => hc ((hcells y).mp (.inr hz))
      exact ⟨fun hm => (mem_append.mp hm).elim (h.free y hy).1 hyz, (h.free y hy).2⟩
  · rw [hfs]
    refine nodup_append.mpr ⟨(nodup_append.mp hndfz).1, hnd₁, ?_⟩
    intro y hy z hz heq
    exact ((hcache₁ z).mp hz).2 ((hcells z).mp (.inl (heq ▸ hy)))
  · have hxs' : mem'.lenOf xs = mem₁.lenOf xs :=
      lenOf_congr fun y hy => happ.same y (.inl fun hc => hxs y hc hy)
    have hsum : mem₁.lenOf (x :: ms.map Prod.fst) =
        m.mLen + (ms.map fun p => p.2.mLen).sum := by
      rw [← hmem₁]
      exact placeChain_lenOf hnd
    rw [hrep.cc, lenOf_append, hxs', happ.len, hrep₁.cc, hsum]
    push_cast
    ring
  · have hxs' : mem'.chargeOf xs = mem₁.chargeOf xs :=
      chargeOf_congr fun y hy => happ.same y (.inl fun hc => hxs y hc hy)
    have hzs : mem'.chargeOf zs = mem₁.chargeOf zs :=
      chargeOf_congr fun y hy => happ.same y (.inr hy)
    have hle := mem₁.chargeOf_sublist happ.sub
    rw [hmem₁, hrep.mbcnt, chargeOf_append, hxs', hzs, hrep₁.mbcnt]
    omega
  · have hle : mem.mbCache.length ≤ mem₁.mbCache.length + (ms.length + 1) := by
      rw [← hmem₁]
      exact placeChain_length
    rw [hfs, length_append]
    omega
  · have hrte : mem₁.rte = mem.rte := by
      rw [← hmem₁]
      exact placeChain_rte
    rw [← hrte]
    exact happ.rte

theorem of_dropped {mem' : MbufMem k n} {a' : Sockbuf k} {fs zs : List (Fin k)}
    (h : TwoBuffers mem a b xs ys) (hrep : SbRep mem' a' zs) (hdrop : Dropped mem xs fs zs mem') :
    TwoBuffers mem' a' b zs ys := by
  have hsplit : ∀ y, y ∈ xs ↔ y ∈ fs ∨ y ∈ zs := by
    intro y
    rw [hdrop.split, mem_append]
  have hnd : (fs ++ zs).Nodup := by
    rw [← hdrop.split]
    exact h.fst.linked.nodup
  refine ⟨hrep, ?_, ?_, ?_, ?_⟩
  · exact h.snd.congr fun y hy => hdrop.other y fun hx => h.apart y hx hy
  · intro y hy
    exact h.apart y ((hsplit y).mpr (.inr hy))
  · intro y hy
    rw [hdrop.cache] at hy
    rcases mem_append.mp hy with hy | hy
    · have hf : y ∈ fs := mem_reverse.mp hy
      exact ⟨fun hz => disjoint_of_nodup_append hnd hf hz,
        h.apart y ((hsplit y).mpr (.inl hf))⟩
    · obtain ⟨hx, hy⟩ := h.free y hy
      exact ⟨fun hz => hx ((hsplit y).mpr (.inr hz)), hy⟩
  · rw [hdrop.cache]
    refine nodup_append.mpr
      ⟨nodup_reverse.mpr (nodup_append.mp hnd).1, h.nodup, ?_⟩
    intro y hy z hz heq
    exact (h.free z hz).1 ((hsplit z).mpr (.inl (heq ▸ mem_reverse.mp hy)))

theorem resized_of_dropped {mem' : MbufMem k n} {a' : Sockbuf k} {fs zs : List (Fin k)}
    {len : Int} (h : SbRep mem a xs) (hrep : SbRep mem' a' zs) (hdrop : Dropped mem xs fs zs mem')
    (hcc : a'.sbCc = a.sbCc + len) (hhiwat : a'.sbHiwat = a.sbHiwat)
    (hmbmax : a'.sbMbmax = a.sbMbmax) : Resized mem a len 0 0 mem' a' := by
  refine ⟨hcc, ?_, hhiwat, hmbmax, ?_, hdrop.rte⟩
  · have hzs := chargeOf_eq_of_ext hdrop.ext
    have hle : mem.chargeOf zs ≤ mem.chargeOf xs := by
      rw [hdrop.split]
      exact mem.chargeOf_sublist (sublist_append_right fs zs)
    rw [hrep.mbcnt, h.mbcnt, hzs]
    omega
  · rw [hdrop.cache, length_append]
    omega

theorem drop {slot : Option TxSlot} {len : Nat} (h : TwoBuffers mem a b xs ys)
    (hlen : (len : Int) ≤ a.sbCc) :
    ∃ mem' a' slot' zs, sbdrop mem a slot len = some (mem', a', slot') ∧
      TwoBuffers mem' a' b zs ys ∧ Resized mem a (-len) 0 0 mem' a' ∧
      Reflected slot len slot' ∧ zs.length ≤ xs.length := by
  have hcc := h.fst.cc
  obtain ⟨mem', a', slot', fs, zs, hres, hrep, hdrop, htotal, hrefl, hhiwat, hmbmax, -⟩ :=
    sbdrop_spec h.fst (show len ≤ mem.lenOf xs by omega)
  have hcc' : a'.sbCc = a.sbCc + -len := by
    rw [hrep.cc]
    omega
  have hcount : zs.length ≤ xs.length := by
    rw [hdrop.split, length_append]
    omega
  exact ⟨mem', a', slot', zs, hres, h.of_dropped hrep hdrop,
    resized_of_dropped h.fst hrep hdrop hcc' hhiwat hmbmax, hrefl, hcount⟩

theorem flush {slot : Option TxSlot} {fuel : Nat} (h : TwoBuffers mem a b xs ys)
    (hlen : a.sbCc < 2147483648) :
    ∃ mem' a' slot', sbflush (fuel + 1) mem a slot = some (mem', a', slot') ∧
      TwoBuffers mem' a' b [] ys ∧ Reflected slot a.sbCc slot' := by
  have hcc := h.fst.cc
  obtain ⟨mem', a', slot', hres, hrep, hdrop, hrefl, -⟩ :=
    sbflush_spec h.fst (show mem.lenOf xs < 2147483648 by omega)
  exact ⟨mem', a', slot', hres, h.of_dropped hrep hdrop, hcc ▸ hrefl⟩

end TwoBuffers

end NetbsdDpdk
