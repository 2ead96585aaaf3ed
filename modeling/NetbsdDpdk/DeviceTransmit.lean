import NetbsdDpdk.DatagramReceive

/-! The output routine of the network device (`device.c`): the packets of the interface queue are
turned into chains of `rte_mbuf`s, offered to the driver, and freed as far as they are still the
stack's. -/

namespace NetbsdDpdk

open List Option Memory Seg MbufMem

variable {k n : Nat} {gs : List (Seg n)} {mem : MbufMem k n} {xs : List (Fin k)} {x : Fin k}
  {g : Seg n} {head : Fin n}

/-- The first segment, the buffers as they were then, and whether the driver took the packet. -/
structure TxBurst (n : Nat) where
  head : Fin n
  rte : Memory n
  taken : Bool

/-- `bursts` is the history of the calls of the driver. -/
structure IfState (k n : Nat) where
  mem : MbufMem k n
  ifqHead : Option (Fin k)
  ifqTail : Option (Fin k)
  ifqLen : Nat
  bursts : List (TxBurst n) := []

namespace IfState

def ifDequeue (s : IfState k n) : Option (Fin k × IfState k n) :=
  match s.ifqHead with
  | none => none
  | some m =>
    let ifqHead := (s.mem.mbuf m).mNextpkt
    some (m, { s with
      mem := s.mem.modify m fun b => { b with mNextpkt := none }
      ifqHead
      ifqTail := if ifqHead = none then none else s.ifqTail
      ifqLen := s.ifqLen - 1 })

/-- One round of the `for` loop of `dpdk_if_start`: the packet buffer `p` of `tmp` is chained, and
the mbuf gives it up. -/
def chainMbuf (mem : MbufMem k n) (head : Fin n) (prev : Option (Fin n)) (tmp : Fin k)
    (p : Fin n) : MbufMem k n :=
  let m := mem.mbuf tmp
  let mem := { mem with rte := mem.rte.chainRteMbufs head prev p m.mData m.mLen }
  mem.modify tmp fun m => { m with mPaddr := none }

/-- The `for` loop of `dpdk_if_start`. Without a packet buffer `chain_rte_mbufs` would write through
a null pointer. -/
def chainPacket : Nat → MbufMem k n → Fin n → Option (Fin n) → Option (Fin k) →
    Option (MbufMem k n)
  | _, mem, _, _, none => some mem
  | 0, _, _, _, some _ => none
  | fuel + 1, mem, head, prev, some tmp =>
    match (mem.mbuf tmp).mPaddr with
    | none => none
    | some p =>
      let mem := chainMbuf mem head prev tmp p
      chainPacket fuel mem head (some p) (mem.mNext tmp)

def transmitMbuf (driver : IfState k n → Fin n → Bool) (s : IfState k n) (head : Fin n) :
    Option (IfState k n) :=
  let taken := driver s head
  let s := { s with bursts := s.bursts ++ [⟨head, s.mem.rte, taken⟩] }
  if taken then some s
  else (Memory.freeChain n s.mem.rte (some head)).map fun rte =>
    { s with mem := { s.mem with rte } }

def startRound (driver : IfState k n → Fin n → Bool) (s : IfState k n) :
    Option (Option (IfState k n)) :=
  match s.ifDequeue with
  | none => some none
  | some (m, s) => do
    let head ← (s.mem.mbuf m).mPaddr
    let mem ← chainPacket k s.mem head none (some m)
    let s ← transmitMbuf driver { s with mem } head
    let mem ← s.mem.mFreem k (some m)
    return some { s with mem }

def dpdkIfStart (driver : IfState k n → Fin n → Bool) : Nat → IfState k n → Option (IfState k n)
  | 0, _ => none
  | fuel + 1, s => do
    match ← s.startRound driver with
    | none => return s
    | some s => dpdkIfStart driver fuel s

end IfState

structure Chained (rte : Memory n) (gs : List (Seg n)) : Prop where
  linked : LinkedFrom rte.next (gs.head?.map Seg.paddr) (gs.map Seg.paddr)
  data : ∀ g ∈ gs, ((rte.cell g.paddr).dataOff : Int) = g.data ∧
    (rte.cell g.paddr).dataLen = g.len
  totals : ∀ h ∈ gs.head?, (rte.cell h.paddr).pktLen = (gs.map Seg.len).sum ∧
    (rte.cell h.paddr).nbSegs = gs.length

structure Seg.Fits (g : Seg n) : Prop where
  nonneg : 0 ≤ g.data
  data : g.data ≤ 65535
  len : g.len ≤ 65535

structure Mbuf.Holds (m : Mbuf k n) (g : Seg n) : Prop where
  paddr : m.mPaddr = some g.paddr
  data : m.mData = g.data
  len : m.mLen = g.len

theorem Seg.sum_len_le (h : ∀ g ∈ gs, g.Fits) :
    (gs.map Seg.len).sum ≤ gs.length * 65535 := by
  induction gs with
  | nil => simp
  | cons g gs ih =>
    have hg := (h g (by simp)).len
    have hgs := ih fun g' hg' => h g' (by simp [hg'])
    simp only [map_cons, sum_cons, length_cons]
    omega

namespace Chained

variable {rte : Memory n} {gs : List (Seg n)} {g h q : Seg n}

theorem first (hg : g.Fits) :
    Chained (rte.chainRteMbufs g.paddr none g.paddr g.data g.len) [g] := by
  have hcell := chainRteMbufs_first rte g.paddr g.data g.len
  obtain ⟨h0, hdata, hlen⟩ := hg
  rw [hcell]
  refine ⟨by simp [Memory.next], ?_, ?_⟩
  · intro e he
    rw [mem_singleton.mp he, modify_cell_self]
    dsimp only
    omega
  · intro e he
    cases he
    have hsum : ([g].map Seg.len).sum = g.len := by simp
    rw [modify_cell_self, hsum]
    exact ⟨Nat.mod_eq_of_lt (by omega), rfl⟩

theorem snoc (hc : Chained rte gs) (hh : gs.head? = some h) (hq : gs.getLast? = some q)
    (hg : g.paddr ∉ gs.map paddr) (hfits : ∀ e ∈ gs ++ [g], e.Fits)
    (hlen : (gs ++ [g]).length ≤ 255) :
    Chained (rte.chainRteMbufs h.paddr (some q.paddr) g.paddr g.data g.len) (gs ++ [g]) := by
  have hne : ∀ e ∈ gs, e.paddr ≠ g.paddr := fun e he =>
    ne_of_mem_of_not_mem (List.mem_map_of_mem he) hg
  have hhg := hne h (mem_of_mem_head? hh)
  have hqg := hne q (mem_of_mem_getLast? hq)
  have hself := chainRteMbufs_cell_self rte g.data g.len hhg.symm hqg.symm
  obtain ⟨h0, hdata, hlen'⟩ := hfits g (by simp)
  have hsum := sum_len_le hfits
  have hhead : (gs ++ [g]).head? = some h := by
    rw [head?_append, hh]
    rfl
  refine ⟨?_, ?_, ?_⟩
  · obtain ⟨bs, rfl⟩ := getLast?_eq_some_iff.mp hq
    have hnd := hc.linked.nodup
    rw [map_append, map_singleton] at hnd
    have hlink := hc.linked
    rw [hh, map_append, map_singleton] at hlink
    rw [hhead, map_append, map_append, map_singleton, map_singleton]
    refine hlink.snoc ?_ ?_ fun y hy => ?_
    · simp [Memory.next, chainRteMbufs_cell_of_ne rte g.data g.len hqg]
    · rw [Memory.next, hself]
    · have hyq : y ≠ q.paddr := fun he =>
        (nodup_append.mp hnd).2.2 y hy q.paddr (by simp) he
      have hyg : y ≠ g.paddr := fun he => hg (he ▸ by simp [hy])
      simp [Memory.next, chainRteMbufs_cell_of_ne rte g.data g.len hyg, hyq]
  · intro e he
    rcases mem_append.mp he with he | he
    · rw [chainRteMbufs_cell_of_ne rte g.data g.len (hne e he)]
      exact hc.data e he
    · rw [mem_singleton.mp he, hself]
      dsimp only
      omega
  · intro e he
    rw [hhead] at he
    cases he
    obtain ⟨hpkt, hseg⟩ := hc.totals h hh
    rw [chainRteMbufs_cell_of_ne rte g.data g.len hhg]
    simp only [if_true, hpkt, hseg, map_append, map_cons, map_nil, sum_append,
      sum_cons, sum_nil, length_append, length_singleton] at hsum hlen ⊢
    omega

end Chained

structure IsPacket (mem : MbufMem k n) (m : Fin k) (xs : List (Fin k)) (gs : List (Seg n)) :
    Prop where
  linked : LinkedFrom mem.mNext (some m) xs
  holds : List.Forall₂ (fun x g => (mem.mbuf x).Holds g) xs gs
  nodup : (gs.map Seg.paddr).Nodup
  fits : ∀ g ∈ gs, g.Fits
  length : xs.length ≤ 255

theorem IsPacket.head_mem {m : Fin k} (h : IsPacket mem m xs gs) : m ∈ xs := by
  obtain ⟨ys, rfl, -⟩ := LinkedFrom.some_iff.mp h.linked
  simp

theorem IsPacket.congr {mem' : MbufMem k n} {m : Fin k} (h : IsPacket mem m xs gs)
    (heq : ∀ x ∈ xs, mem'.mbuf x = mem.mbuf x) : IsPacket mem' m xs gs where
  linked := h.linked.congr fun x hx => by rw [mNext, heq x hx, mNext]
  holds := ((forall₂_and_left _ _).mpr ⟨heq, h.holds⟩).imp fun x g hx => by
    rw [hx.1]
    exact hx.2
  nodup := h.nodup
  fits := h.fits
  length := h.length

structure ChainFrame (mem mem' : MbufMem k n) (xs : List (Fin k)) (gs : List (Seg n)) : Prop where
  mNext : mem'.mNext = mem.mNext
  paddr : ∀ x ∈ xs, (mem'.mbuf x).mPaddr = none
  mbuf : ∀ y, y ∉ xs → mem'.mbuf y = mem.mbuf y
  mbCache : mem'.mbCache = mem.mbCache
  freed : mem'.rte.freed = mem.rte.freed
  cell : ∀ y, y ∉ gs.map Seg.paddr → mem'.rte.cell y = mem.rte.cell y

theorem Memory.chainRteMbufs_freed (rte : Memory n) (h : Fin n) (q : Option (Fin n)) (p : Fin n)
    (d : Int) (l : Nat) : (rte.chainRteMbufs h q p d l).freed = rte.freed := by
  cases q <;> rfl

namespace IfState

/-! One round of the loop over a packet. -/

theorem chainMbuf_self (mem : MbufMem k n) (head : Fin n) (prev : Option (Fin n)) (x : Fin k)
    (p : Fin n) : (chainMbuf mem head prev x p).mbuf x = { mem.mbuf x with mPaddr := none } := by
  rw [chainMbuf, modify_mbuf_self]

theorem chainMbuf_of_ne (mem : MbufMem k n) (head : Fin n) (prev : Option (Fin n)) {y : Fin k}
    (hy : y ≠ x) (p : Fin n) : (chainMbuf mem head prev x p).mbuf y = mem.mbuf y := by
  rw [chainMbuf, modify_mbuf_of_ne _ _ hy]

theorem chainMbuf_mNext (mem : MbufMem k n) (head : Fin n) (prev : Option (Fin n)) (x : Fin k)
    (p : Fin n) : (chainMbuf mem head prev x p).mNext = mem.mNext := by
  funext y
  by_cases hy : y = x
  · rw [mNext, hy, chainMbuf_self, mNext]
  · rw [mNext, chainMbuf_of_ne mem head prev hy, mNext]

theorem chainMbuf_rte (hg : (mem.mbuf x).Holds g) (head : Fin n) (prev : Option (Fin n)) :
    (chainMbuf mem head prev x g.paddr).rte =
      mem.rte.chainRteMbufs head prev g.paddr g.data g.len := by
  rw [chainMbuf, modify_rte, hg.data, hg.len]

theorem chained_round {rte : Memory n} {ds : List (Seg n)} (hds : Chained rte ds)
    (hhead : ∀ h ∈ (ds ++ [g]).head?, h.paddr = head)
    (hnd : ((ds ++ [g]).map paddr).Nodup) (hfits : ∀ e ∈ ds ++ [g], e.Fits)
    (hlen : (ds ++ [g]).length ≤ 255) :
    Chained (rte.chainRteMbufs head (ds.getLast?.map paddr) g.paddr g.data g.len) (ds ++ [g]) ∧
      ∀ y, y ∉ (ds ++ [g]).map paddr →
        (rte.chainRteMbufs head (ds.getLast?.map paddr) g.paddr g.data g.len).cell y =
          rte.cell y := by
  cases hq : ds.getLast? with
  | none =>
    rw [getLast?_eq_none_iff] at hq
    subst hq
    have hhg : g.paddr = head := hhead g rfl
    rw [← hhg, map_none]
    refine ⟨Chained.first (hfits g (by simp)), fun y hy => ?_⟩
    rw [chainRteMbufs_first, modify_cell_of_ne _ _ (by simpa using hy)]
  | some q =>
    obtain ⟨h, hh⟩ : ∃ h, ds.head? = some h := by
      cases ds with
      | nil => cases hq
      | cons d ds => exact ⟨d, rfl⟩
    have hhg : h.paddr = head := hhead h (by simp [hh])
    rw [map_append] at hnd
    have hgds : g.paddr ∉ ds.map paddr := fun hmem =>
      (nodup_append.mp hnd).2.2 g.paddr hmem g.paddr (by simp) rfl
    rw [map_some, ← hhg]
    refine ⟨hds.snoc hh hq hgds hfits hlen, fun y hy => ?_⟩
    simp only [map_append, map_cons, map_nil, mem_append, mem_singleton, not_or] at hy
    have hyh : y ≠ h.paddr := fun he =>
      hy.1 (he ▸ List.mem_map_of_mem (mem_of_mem_head? hh))
    have hyq : y ≠ q.paddr := fun he =>
      hy.1 (he ▸ List.mem_map_of_mem (mem_of_mem_getLast? hq))
    rw [chainRteMbufs_cell_of_ne _ _ _ hy.2]
    simp [hyh, hyq]

theorem chainFrame_cons {mem' : MbufMem k n} {prev : Option (Fin n)} (hg : (mem.mbuf x).Holds g)
    (hcell : ∀ y, y ∉ gs.map paddr →
      (chainMbuf mem head prev x g.paddr).rte.cell y = mem.rte.cell y)
    (hframe : ChainFrame (chainMbuf mem head prev x g.paddr) mem' xs gs) :
    ChainFrame mem mem' (x :: xs) gs := by
  refine ⟨hframe.mNext.trans (chainMbuf_mNext mem head prev x g.paddr), ?_, ?_, hframe.mbCache, ?_,
    fun y hy => (hframe.cell y hy).trans (hcell y hy)⟩
  · intro y hy
    by_cases hyx : y ∈ xs
    · exact hframe.paddr y hyx
    · rw [hframe.mbuf y hyx]
      rcases mem_cons.mp hy with rfl | hy
      · rw [chainMbuf_self]
      · exact absurd hy hyx
  · intro y hy
    rw [mem_cons, not_or] at hy
    rw [hframe.mbuf y hy.2, chainMbuf_of_ne mem head prev hy.1]
  · rw [hframe.freed, chainMbuf_rte hg, chainRteMbufs_freed]

theorem chainPacket_spec {prev : Option (Fin n)} {p : Option (Fin k)} {ds : List (Seg n)}
    {fuel : Nat} (hlink : LinkedFrom mem.mNext p xs)
    (hholds : List.Forall₂ (fun x g => (mem.mbuf x).Holds g) xs gs) (hds : Chained mem.rte ds)
    (hprev : ds.getLast?.map paddr = prev) (hhead : ∀ h ∈ (ds ++ gs).head?, h.paddr = head)
    (hnd : ((ds ++ gs).map paddr).Nodup) (hfits : ∀ g ∈ ds ++ gs, g.Fits)
    (hlen : (ds ++ gs).length ≤ 255) (hfuel : xs.length ≤ fuel) :
    ∃ mem', chainPacket fuel mem head prev p = some mem' ∧ Chained mem'.rte (ds ++ gs) ∧
      ChainFrame mem mem' xs (ds ++ gs) := by
  induction xs generalizing mem prev p ds gs fuel with
  | nil =>
    cases hlink
    cases hholds
    refine ⟨mem, by cases fuel <;> rfl, by simpa using hds, rfl, by simp, fun _ _ => rfl, rfl, rfl,
      fun _ _ => rfl⟩
  | cons x xs ih =>
    have hxnd := hlink.nodup
    obtain ⟨rfl, hrest⟩ := hlink
    obtain ⟨g, gs, hg, hgs, rfl⟩ := forall₂_cons_left_iff.mp hholds
    obtain ⟨fuel, rfl, hf⟩ := exists_fuel hfuel
    have hloop : chainPacket (fuel + 1) mem head prev (some x) =
        chainPacket fuel (chainMbuf mem head prev x g.paddr) head (some g.paddr)
          ((chainMbuf mem head prev x g.paddr).mNext x) := by
      simp only [chainPacket, hg.paddr]
    have hxs : ∀ y ∈ xs, y ≠ x := fun y hy =>
      ne_of_mem_of_not_mem hy (nodup_cons.mp hxnd).1
    have happ : ds ++ g :: gs = ds ++ [g] ++ gs := by simp
    rw [happ] at hhead hnd hfits hlen ⊢
    have hnd₁ : ((ds ++ [g]).map paddr).Nodup := by
      rw [map_append] at hnd
      exact (nodup_append.mp hnd).1
    have hlen₁ : (ds ++ [g]).length ≤ 255 := by
      rw [length_append] at hlen
      omega
    obtain ⟨hchained, hcell⟩ := chained_round hds
      (fun h hh => hhead h (by rw [head?_append, mem_def.mp hh]; rfl)) hnd₁
      (fun e he => hfits e (mem_append_left _ he)) hlen₁
    rw [hprev, ← chainMbuf_rte hg] at hchained hcell
    have hlink₁ : LinkedFrom (chainMbuf mem head prev x g.paddr).mNext
        ((chainMbuf mem head prev x g.paddr).mNext x) xs := by
      rw [chainMbuf_mNext]
      exact hrest
    have hholds₁ : List.Forall₂
        (fun y g' => ((chainMbuf mem head prev x g.paddr).mbuf y).Holds g') xs gs :=
      ((forall₂_and_left _ _).mpr ⟨hxs, hgs⟩).imp fun y _ hy => by
        rw [chainMbuf_of_ne mem head prev hy.1]
        exact hy.2
    have hprev₁ : (ds ++ [g]).getLast?.map paddr = some g.paddr := by simp
    obtain ⟨mem', hrun, hc, hframe⟩ := ih hlink₁ hholds₁ hchained hprev₁ hhead hnd hfits hlen
      hf
    refine ⟨mem', hloop.trans hrun, hc, chainFrame_cons hg (fun y hy => hcell y ?_) hframe⟩
    intro hmem
    rw [map_append] at hy
    exact hy (mem_append_left _ hmem)

structure Sent (driver : IfState k n → Fin n → Bool) (s s' : IfState k n) (xs : List (Fin k))
    (gs : List (Seg n)) (b : TxBurst n) : Prop where
  chained : Chained b.rte gs
  head : gs.head?.map Seg.paddr = some b.head
  taken : ∃ u, b.taken = driver u b.head
  bursts : s'.bursts = s.bursts ++ [b]
  freed : s'.mem.rte.freed =
    (if b.taken then [] else (gs.map Seg.paddr).reverse) ++ s.mem.rte.freed
  mbCache : s'.mem.mbCache = xs.reverse ++ s.mem.mbCache
  mbuf : ∀ y, y ∉ xs → s'.mem.mbuf y = s.mem.mbuf y

end IfState

theorem Memory.freeChain_freed {rte : Memory n} {p : Option (Fin n)} {xs : List (Fin n)}
    {fuel : Nat} (hlink : LinkedFrom rte.next p xs) (hfuel : xs.length ≤ fuel) :
    ∃ rte', freeChain fuel rte p = some rte' ∧ rte'.freed = xs.reverse ++ rte.freed := by
  induction xs generalizing rte p fuel with
  | nil =>
    cases hlink
    exact ⟨rte, by cases fuel <;> rfl, rfl⟩
  | cons x xs ih =>
    have hnd := nodup_cons.mp hlink.nodup
    obtain ⟨rfl, hrest⟩ := hlink
    obtain ⟨fuel, rfl, hf⟩ := exists_fuel hfuel
    obtain ⟨hfreed, hcell⟩ := freeSeg_frame rte x
    have hnext : ∀ y ∈ xs, (rte.freeSeg x).next y = rte.next y := fun y hy => by
      rw [next, hcell y (ne_of_mem_of_not_mem hy hnd.1), next]
    obtain ⟨rte', hrun, hfreed'⟩ := ih (hrest.congr hnext) hf
    exact ⟨rte', hrun, by rw [hfreed', hfreed]; simp⟩

namespace IfState

section Round

variable (driver : IfState k n → Fin n → Bool) {s : IfState k n} {m : Fin k} {xs : List (Fin k)}
  {gs : List (Seg n)}

theorem ifDequeue_packet (hm : s.ifqHead = some m) (hp : IsPacket s.mem m xs gs) :
    ∃ s₁, s.ifDequeue = some (m, s₁) ∧ IsPacket s₁.mem m xs gs ∧
      s₁.ifqHead = (s.mem.mbuf m).mNextpkt ∧ s₁.bursts = s.bursts ∧ s₁.mem.rte = s.mem.rte ∧
      s₁.mem.mbCache = s.mem.mbCache ∧ ∀ y, y ≠ m → s₁.mem.mbuf y = s.mem.mbuf y := by
  have hdeq : s.ifDequeue = some (m, { s with
      mem := s.mem.modify m fun b => { b with mNextpkt := none }
      ifqHead := (s.mem.mbuf m).mNextpkt
      ifqTail := if (s.mem.mbuf m).mNextpkt = none then none else s.ifqTail
      ifqLen := s.ifqLen - 1 }) := by
    simp only [ifDequeue, hm]
  refine ⟨_, hdeq, ?_, rfl, rfl, rfl, rfl, fun y hy => by
    rw [modify_mbuf_of_ne s.mem _ hy]⟩
  have hbuf : ∀ y, ∃ pkt, (s.mem.modify m fun b => { b with mNextpkt := none }).mbuf y =
      { s.mem.mbuf y with mNextpkt := pkt } := by
    intro y
    by_cases hy : y = m
    · subst hy
      exact ⟨none, modify_mbuf_self s.mem y _⟩
    · exact ⟨(s.mem.mbuf y).mNextpkt, modify_mbuf_of_ne s.mem _ hy⟩
  refine ⟨hp.linked.congr fun y _ => ?_, hp.holds.imp fun y g hg => ?_, hp.nodup, hp.fits,
    hp.length⟩
  · obtain ⟨pkt, hy⟩ := hbuf y
    rw [mNext, hy]
    rfl
  · obtain ⟨pkt, hy⟩ := hbuf y
    rw [hy]
    exact ⟨hg.paddr, hg.data, hg.len⟩

theorem transmitMbuf_freed {ps : List (Fin n)} (hlink : LinkedFrom s.mem.rte.next (some head) ps) :
    ∃ s' : IfState k n, transmitMbuf driver s head = some s' ∧
      s'.bursts = s.bursts ++ [⟨head, s.mem.rte, driver s head⟩] ∧
      s'.mem.rte.freed = (if driver s head then [] else ps.reverse) ++ s.mem.rte.freed ∧
      s'.ifqHead = s.ifqHead ∧ s'.mem.mbuf = s.mem.mbuf ∧ s'.mem.mbCache = s.mem.mbCache := by
  by_cases htaken : driver s head = true
  · refine ⟨{ s with bursts := s.bursts ++ [⟨head, s.mem.rte, driver s head⟩] }, ?_, rfl, ?_, rfl,
      rfl, rfl⟩
    · simp only [transmitMbuf, htaken, if_true]
    · simp [htaken]
  · obtain ⟨rte, hrun, hfreed⟩ := freeChain_freed hlink (by simpa using hlink.length_le)
    refine ⟨{ s with
      mem := { s.mem with rte }
      bursts := s.bursts ++ [⟨head, s.mem.rte, driver s head⟩] }, ?_, rfl, ?_, rfl, rfl, rfl⟩
    · simp only [transmitMbuf, hrun, map_some, if_neg htaken]
    · rw [if_neg htaken]
      exact hfreed

theorem startRound_sent (hm : s.ifqHead = some m) (hp : IsPacket s.mem m xs gs) :
    ∃ s' b, s.startRound driver = some (some s') ∧ Sent driver s s' xs gs b ∧
      s'.ifqHead = (s.mem.mbuf m).mNextpkt := by
  obtain ⟨s₁, hdeq, hp₁, hq, hbursts, hrte, hcache, hbuf⟩ := ifDequeue_packet hm hp
  have hlen : gs.length ≤ 255 := hp₁.holds.length_eq ▸ hp₁.length
  have hxk : xs.length ≤ k := by simpa using hp₁.linked.length_le
  obtain ⟨ys, rfl, -⟩ := LinkedFrom.some_iff.mp hp₁.linked
  obtain ⟨g, gs, hg, -, rfl⟩ := forall₂_cons_left_iff.mp hp₁.holds
  have hnil : Chained s₁.mem.rte [] := ⟨rfl, by simp, by simp⟩
  have hprev : ([] : List (Seg n)).getLast?.map paddr = none := rfl
  have hhead : ∀ h ∈ ([] ++ g :: gs).head?, h.paddr = g.paddr := by simp
  obtain ⟨mem, hchain, hc, hframe⟩ := chainPacket_spec hp₁.linked hp₁.holds hnil hprev hhead
    hp₁.nodup hp₁.fits hlen hxk
  rw [nil_append] at hc hframe
  obtain ⟨s₂, htx, hb₂, hf₂, hq₂, hm₂, hc₂⟩ := transmitMbuf_freed driver
    (s := { s₁ with mem }) hc.linked
  have hlink₂ : LinkedFrom s₂.mem.mNext (some m) (m :: ys) := by
    refine hp₁.linked.congr fun y _ => ?_
    rw [mNext, hm₂]
    exact congrFun hframe.mNext y
  have hnone₂ : ∀ y ∈ m :: ys, (s₂.mem.mbuf y).mPaddr = none := fun y hy => by
    rw [hm₂]
    exact hframe.paddr y hy
  have hfree := mFreem_of_none hlink₂ hnone₂ hxk
  have hround : s.startRound driver =
      some (some { s₂ with
        mem := { s₂.mem with mbCache := (m :: ys).reverse ++ s₂.mem.mbCache } }) := by
    simp only [startRound, hdeq, hg.paddr, hchain, htx, hfree, bind_eq_bind, bind_some]
    rfl
  refine ⟨_, ⟨g.paddr, mem.rte, driver { s₁ with mem } g.paddr⟩, hround,
    ⟨hc, rfl, ⟨_, rfl⟩, ?_, ?_, ?_, ?_⟩, hq₂.trans hq⟩
  · rw [hb₂, ← hbursts]
  · rw [hf₂, hframe.freed, hrte]
  · rw [hc₂, hframe.mbCache, hcache]
  · intro y hy
    rw [hm₂, hframe.mbuf y hy, hbuf y fun he => hy (he ▸ mem_cons_self)]

theorem dpdkIfStart_empty (h : s.ifqHead = none) (fuel : Nat) :
    dpdkIfStart driver (fuel + 1) s = some s := by
  simp [dpdkIfStart, startRound, ifDequeue, h]

/-- Every packet that `dpdk_if_start` dequeues: the driver is offered exactly its packet buffers,
in order, with the data pointers and lengths of the mbufs and the totals in the first. What the
driver refuses is freed, once; the mbufs go back to `mb_cache`, once, and `m_freem` frees no packet
buffer. Then the loop goes on with the rest of the queue, and it ends behind the last packet. -/
theorem dpdkIfStart_packet (hm : s.ifqHead = some m) (hp : IsPacket s.mem m xs gs) :
    ∃ s' b, s.startRound driver = some (some s') ∧ Sent driver s s' xs gs b ∧
      s'.ifqHead = (s.mem.mbuf m).mNextpkt ∧
      (∀ fuel, dpdkIfStart driver (fuel + 1) s = dpdkIfStart driver fuel s') ∧
      ((s.mem.mbuf m).mNextpkt = none → ∀ fuel, dpdkIfStart driver (fuel + 2) s = some s') := by
  obtain ⟨s', b, hround, hsent, hq⟩ := startRound_sent driver hm hp
  have hgo (fuel : Nat) : dpdkIfStart driver (fuel + 1) s = dpdkIfStart driver fuel s' := by
    simp only [dpdkIfStart, hround, bind_eq_bind, bind_some]
  refine ⟨s', b, hround, hsent, hq, hgo, fun hlast fuel => ?_⟩
  rw [hgo, dpdkIfStart_empty driver (hq.trans hlast)]

def twoMbufPacket : IfState 3 3 where
  mem := {
    mbuf := fun x => if x = 0 then { mNext := some 1, mData := 14, mLen := 40, mPaddr := some 1 }
      else { mData := 0, mLen := 100, mPaddr := some 0 }
    rte := { cell := fun _ => { refcnt := 1, dataOff := 128 } } }
  ifqHead := some 0
  ifqTail := some 0
  ifqLen := 1

theorem twoMbufPacket_isPacket :
    IsPacket twoMbufPacket.mem 0 [0, 1] [⟨1, 14, 40⟩, ⟨0, 0, 100⟩] := by
  refine ⟨⟨rfl, rfl, rfl⟩, .cons ⟨rfl, rfl, rfl⟩ (.cons ⟨rfl, rfl, rfl⟩ .nil), by decide, ?_,
    by decide⟩
  simp only [mem_cons, not_mem_nil, or_false, forall_eq_or_imp, forall_eq]
  constructor <;> constructor <;> decide

theorem dpdkIfStart_packet_refused : ∃ s' b,
    dpdkIfStart (fun _ _ => false) 2 twoMbufPacket = some s' ∧
      Sent (fun _ _ => false) twoMbufPacket s' [0, 1] [⟨1, 14, 40⟩, ⟨0, 0, 100⟩] b := by
  obtain ⟨s', b, -, hsent, -, -, hend⟩ :=
    dpdkIfStart_packet (fun _ _ => false) rfl twoMbufPacket_isPacket
  exact ⟨s', b, hend rfl 0, hsent⟩

end Round

structure Packet (k n : Nat) where
  head : Fin k
  mbufs : List (Fin k)
  segs : List (Seg n)

structure Queued (s : IfState k n) (ps : List (Packet k n)) : Prop where
  linked : LinkedFrom (fun x => (s.mem.mbuf x).mNextpkt) s.ifqHead (ps.map Packet.head)
  packets : ∀ p ∈ ps, IsPacket s.mem p.head p.mbufs p.segs
  apart : ps.Pairwise fun p q => ∀ x ∈ p.mbufs, x ∉ q.mbufs

/-- `dpdk_if_start` empties the queue: one burst for each packet, in order, of the packet's own
segments; the segments of the refused ones are freed, and every mbuf is back in the cache. -/
theorem dpdkIfStart_queue (driver : IfState k n → Fin n → Bool) {s : IfState k n}
    {ps : List (Packet k n)} (h : Queued s ps) :
    ∃ s' bs, (∀ fuel, ps.length < fuel → dpdkIfStart driver fuel s = some s') ∧
      s'.ifqHead = none ∧ s'.bursts = s.bursts ++ bs ∧
      List.Forall₂ (fun b p => Chained b.rte p.segs ∧ p.segs.head?.map Seg.paddr = some b.head ∧
        ∃ u, b.taken = driver u b.head) bs ps ∧
      s'.mem.rte.freed = ((bs.zip ps).flatMap fun o =>
        if o.1.taken then [] else o.2.segs.map Seg.paddr).reverse ++ s.mem.rte.freed ∧
      s'.mem.mbCache = (ps.flatMap Packet.mbufs).reverse ++ s.mem.mbCache := by
  induction ps generalizing s with
  | nil =>
    refine ⟨s, [], fun fuel hfuel => ?_, h.linked, by simp, .nil, rfl, by simp⟩
    obtain ⟨fuel, rfl⟩ := Nat.exists_eq_succ_of_ne_zero (Nat.ne_of_gt hfuel)
    exact dpdkIfStart_empty driver h.linked fuel
  | cons p ps ih =>
    obtain ⟨hhead, hrest⟩ := h.linked
    have hp := h.packets p (by simp)
    obtain ⟨hapart, hapart'⟩ := pairwise_cons.mp h.apart
    obtain ⟨s₁, b, hround, hsent, hq⟩ := startRound_sent driver hhead hp
    have hmbuf : ∀ q ∈ ps, ∀ x ∈ q.mbufs, s₁.mem.mbuf x = s.mem.mbuf x := fun q hq x hx =>
      hsent.mbuf x fun hx' => hapart q hq x hx' hx
    have hqueued : Queued s₁ ps := by
      refine ⟨?_, fun q hq => (h.packets q (by simp [hq])).congr (hmbuf q hq), hapart'⟩
      rw [hq]
      refine hrest.congr fun x hx => ?_
      obtain ⟨q, hq, rfl⟩ := List.mem_map.mp hx
      rw [hmbuf q hq q.head (h.packets q (by simp [hq])).head_mem]
    obtain ⟨s', bs, hrun, hnone, hbursts, hchained, hfreed, hcache⟩ := ih hqueued
    refine ⟨s', b :: bs, fun fuel hfuel => ?_, hnone, ?_,
      .cons ⟨hsent.chained, hsent.head, hsent.taken⟩ hchained, ?_, ?_⟩
    · obtain ⟨fuel, rfl⟩ := Nat.exists_eq_succ_of_ne_zero (Nat.ne_of_gt (Nat.zero_lt_of_lt hfuel))
      simp only [dpdkIfStart, hround, bind_eq_bind, bind_some]
      exact hrun fuel (Nat.lt_of_succ_lt_succ hfuel)
    · rw [hbursts, hsent.bursts, append_assoc, singleton_append]
    · rw [hfreed, hsent.freed, zip_cons_cons, flatMap_cons, reverse_append, append_assoc]
      cases b.taken <;> rfl
    · rw [hcache, hsent.mbCache, flatMap_cons, reverse_append, append_assoc]

theorem dpdkIfStart_queue_refused : ∃ s', dpdkIfStart (fun _ _ => false) 2 twoMbufPacket = some s' ∧
    s'.ifqHead = none ∧ s'.bursts.length = 1 ∧ s'.mem.mbCache = [1, 0] := by
  have h : Queued twoMbufPacket [⟨0, [0, 1], [⟨1, 14, 40⟩, ⟨0, 0, 100⟩]⟩] := by
    refine ⟨⟨rfl, rfl⟩, fun p hp => ?_, List.pairwise_singleton ..⟩
    rw [mem_singleton.mp hp]
    exact twoMbufPacket_isPacket
  obtain ⟨s', bs, hstart, hnone, hbursts, hchained, -, hcache⟩ :=
    dpdkIfStart_queue (fun _ _ => false) h
  exact ⟨s', hstart 2 (by decide), hnone, by rw [hbursts]; exact hchained.length_eq, hcache⟩

end IfState

end NetbsdDpdk
