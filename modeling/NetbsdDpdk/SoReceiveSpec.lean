import NetbsdDpdk.SoReceive

/-! What `app_glue_receive` makes of a record of data mbufs: the chain it links, for every length
of the record, and what has become of the packet buffers by then. -/

namespace NetbsdDpdk

open List MbufMem Memory

variable {k n : Nat} {x : Fin k} {xs : List (Fin k)}

structure Seg (n : Nat) where
  paddr : Fin n
  data : Int
  len : Nat

variable {g : Seg n} {gs : List (Seg n)}

namespace Memory

variable {mem : Memory n} {h q p y : Fin n}

def timesReturned (mem : Memory n) (p : Fin n) : Nat := (mem.returned.map Prod.snd).count p

theorem chainRteMbufs_first (mem : Memory n) (p : Fin n) (d : Int) (l : Nat) :
    mem.chainRteMbufs p none p d l = mem.modify p fun m =>
      { m with dataLen := l % 65536, pktLen := l % 4294967296, nbSegs := 1, next := none,
               dataOff := (d % 65536).toNat } := by
  simp [chainRteMbufs, modify, setNext]

theorem chainRteMbufs_cell_self (mem : Memory n) (d : Int) (l : Nat) (hh : p ≠ h) (hq : p ≠ q) :
    (mem.chainRteMbufs h (some q) p d l).cell p =
      { mem.cell p with dataLen := l % 65536, next := none, dataOff := (d % 65536).toNat } := by
  simp [chainRteMbufs, modify, setNext, hh, hq]

theorem chainRteMbufs_cell_of_ne (mem : Memory n) (d : Int) (l : Nat) (hy : y ≠ p) :
    (mem.chainRteMbufs h (some q) p d l).cell y =
      { mem.cell y with
        next := if y = q then some p else (mem.cell y).next
        pktLen := if y = h then ((mem.cell y).pktLen + l) % 4294967296 else (mem.cell y).pktLen
        nbSegs := if y = h then ((mem.cell y).nbSegs + 1) % 256 else (mem.cell y).nbSegs } := by
  by_cases hh : y = h
  · subst hh
    by_cases hq : y = q
    · subst hq
      simp [chainRteMbufs, modify, setNext, hy]
    · simp [chainRteMbufs, modify, setNext, hy, hq]
  · by_cases hq : y = q
    · subst hq
      simp [chainRteMbufs, modify, setNext, hy, hh]
    · simp [chainRteMbufs, modify, setNext, hy, hh, hq]

@[simp] theorem chainRteMbufs_returned (q : Option (Fin n)) (d : Int) (l : Nat) :
    (mem.chainRteMbufs h q p d l).returned = mem.returned := by
  cases q <;> rfl

def linkRecord (mem : Memory n) (h : Fin n) (prev : Option (Fin n)) : List (Seg n) → Memory n
  | [] => mem
  | g :: gs =>
    let mem := mem.chainRteMbufs h prev g.paddr g.data g.len
    linkRecord (if g.paddr ≠ h then mem.freeSeg g.paddr else mem) h (some g.paddr) gs

structure LinkedBehind (mem : Memory n) (h q : Fin n) (gs : List (Seg n)) (mem' : Memory n) :
    Prop where
  linked : LinkedFrom mem'.next (mem'.next q) (gs.map Seg.paddr)
  segs : ∀ g ∈ gs, (mem'.cell g.paddr).dataOff = (g.data % 65536).toNat ∧
    (mem'.cell g.paddr).dataLen = g.len % 65536
  pktLen : (mem'.cell h).pktLen = ((mem.cell h).pktLen + (gs.map Seg.len).sum) % 4294967296
  nbSegs : (mem'.cell h).nbSegs = ((mem.cell h).nbSegs + gs.length) % 256
  next_of_notMem : ∀ y, y ∉ gs.map Seg.paddr → y ≠ q → mem'.next y = mem.next y
  data_of_notMem : ∀ y, y ∉ gs.map Seg.paddr → (mem'.cell y).dataOff = (mem.cell y).dataOff ∧
    (mem'.cell y).dataLen = (mem.cell y).dataLen
  returned : ∀ y, mem'.timesReturned y = mem.timesReturned y + (gs.map Seg.paddr).count y

theorem chainRteMbufs_freeSeg (mem : Memory n) (hhg : h ≠ g.paddr) (hqg : q ≠ g.paddr)
    (href : (mem.cell g.paddr).refcnt = 1) :
    ∃ mem₁, (mem.chainRteMbufs h (some q) g.paddr g.data g.len).freeSeg g.paddr = mem₁ ∧
      (∀ y, y ≠ g.paddr → mem₁.cell y = { mem.cell y with
        next := if y = q then some g.paddr else (mem.cell y).next
        pktLen := if y = h then ((mem.cell y).pktLen + g.len) % 4294967296
          else (mem.cell y).pktLen
        nbSegs := if y = h then ((mem.cell y).nbSegs + 1) % 256 else (mem.cell y).nbSegs }) ∧
      mem₁.cell g.paddr = { mem.cell g.paddr with
        dataLen := g.len % 65536, next := none, dataOff := (g.data % 65536).toNat,
        refcnt := 0 } ∧
      ∀ y, mem₁.timesReturned y = mem.timesReturned y + [g.paddr].count y := by
  have hself := chainRteMbufs_cell_self mem g.data g.len (Ne.symm hhg) (Ne.symm hqg)
  have hfree : (mem.chainRteMbufs h (some q) g.paddr g.data g.len).freeSeg g.paddr =
      (mem.chainRteMbufs h (some q) g.paddr g.data g.len).reclaim [g.paddr] := by
    apply freeSeg_eq_reclaim
    rw [hself]
    exact href
  refine ⟨_, hfree, ?_, ?_, ?_⟩
  · intro y hy
    rw [reclaim, reclaimTo_cell_of_notMem _ (by simpa using hy),
      chainRteMbufs_cell_of_ne mem _ _ hy]
  · rw [reclaim, reclaimTo_cell_of_mem _ (by simp), hself]
  · intro y
    simp [timesReturned, reclaim, reclaimTo, count_cons]

theorem linkRecord_behind (hnd : (gs.map Seg.paddr).Nodup) (hh : h ∉ gs.map Seg.paddr)
    (hq : q ∉ gs.map Seg.paddr)
    (href : ∀ g ∈ gs, (mem.cell g.paddr).refcnt = 1) (hnext : mem.next q = none)
    (hlen : (mem.cell h).pktLen < 4294967296) (hseg : (mem.cell h).nbSegs < 256) :
    LinkedBehind mem h q gs (mem.linkRecord h (some q) gs) := by
  induction gs generalizing mem q with
  | nil =>
    simp only [linkRecord]
    constructor <;> simp_all [Nat.mod_eq_of_lt]
  | cons g gs ih =>
    simp only [map_cons, nodup_cons, mem_cons, not_or] at hnd hh hq
    obtain ⟨hg, hnd⟩ := hnd
    obtain ⟨hhg, hh⟩ := hh
    obtain ⟨hqg, hq⟩ := hq
    obtain ⟨mem₁, hfree, hcell, hcellg, hret⟩ :=
      chainRteMbufs_freeSeg mem hhg hqg (href g (by simp))
    rw [linkRecord, if_pos (Ne.symm hhg), hfree]
    have hne : ∀ g' ∈ gs, g'.paddr ≠ g.paddr := fun g' hg' =>
      ne_of_mem_of_not_mem (List.mem_map_of_mem hg') hg
    have href₁ : ∀ g' ∈ gs, (mem₁.cell g'.paddr).refcnt = 1 := by
      intro g' hg'
      rw [hcell _ (hne g' hg')]
      exact href g' (by simp [hg'])
    have hnext₁ : mem₁.next g.paddr = none := by simp [next, hcellg]
    have hrest := ih hnd hh hg href₁ hnext₁ (by rw [hcell h hhg]; simp; omega)
      (by rw [hcell h hhg]; simp; omega)
    have hnextq : (mem₁.linkRecord h (some g.paddr) gs).next q = some g.paddr := by
      rw [hrest.next_of_notMem q hq hqg]
      simp [next, hcell q hqg]
    constructor
    · rw [hnextq]
      exact ⟨rfl, hrest.linked⟩
    · intro g' hg'
      rcases mem_cons.mp hg' with rfl | hg'
      · rw [(hrest.data_of_notMem _ hg).1, (hrest.data_of_notMem _ hg).2, hcellg]
        simp
      · exact hrest.segs g' hg'
    · rw [hrest.pktLen, hcell h hhg]
      simp [Nat.add_assoc]
    · rw [hrest.nbSegs, hcell h hhg]
      simp only [if_true, Nat.mod_add_mod, length_cons]
      congr 1
      omega
    · intro y hy hyq
      simp only [map_cons, mem_cons, not_or] at hy
      rw [hrest.next_of_notMem y hy.2 hy.1]
      simp [next, hcell y hy.1, hyq]
    · intro y hy
      simp only [map_cons, mem_cons, not_or] at hy
      rw [(hrest.data_of_notMem y hy.2).1, (hrest.data_of_notMem y hy.2).2, hcell y hy.1]
      simp
    · intro y
      rw [hrest.returned y, hret y]
      simp only [map_cons, count_cons, count_nil]
      omega

end Memory

structure Mbuf.Carries (m : Mbuf k n) (g : Seg n) : Prop where
  type : m.mType = .data
  eor : m.mEor = false
  paddr : m.mPaddr = some g.paddr
  data : m.mData = g.data
  len : m.mLen = g.len

namespace RcvLoop

@[simp] theorem store_rte (l : RcvLoop k n) (v : Option (Fin k)) :
    (l.store v).sock.mem.rte = l.sock.mem.rte := by
  cases h : l.mp <;> simp [store, h]

@[simp] theorem store_soRcv (l : RcvLoop k n) (v : Option (Fin k)) :
    (l.store v).sock.soRcv = l.sock.soRcv := by
  cases h : l.mp <;> simp [store, h]

@[simp] theorem store_prev (l : RcvLoop k n) (v : Option (Fin k)) :
    (l.store v).prev = l.prev := by
  cases h : l.mp <;> simp [store, h]

@[simp] theorem store_eor (l : RcvLoop k n) (v : Option (Fin k)) :
    (l.store v).eor = l.eor := by
  cases h : l.mp <;> simp [store, h]

@[simp] theorem store_mp (l : RcvLoop k n) (v : Option (Fin k)) : (l.store v).mp = l.mp := by
  cases h : l.mp <;> simp [store, h]

theorem store_mp0 (l : RcvLoop k n) (v : Option (Fin k)) :
    (l.store v).mp0 = if l.mp = none then v else l.mp0 := by
  cases h : l.mp <;> simp [store, h]

theorem store_mbuf (l : RcvLoop k n) (v : Option (Fin k)) (y : Fin k) :
    (l.store v).sock.mem.mbuf y = { l.sock.mem.mbuf y with
      mNext := if l.mp = some y then v else (l.sock.mem.mbuf y).mNext } := by
  cases h : l.mp with
  | none => simp [store, h]
  | some x =>
    by_cases hy : y = x
    · subst hy
      simp [store, h]
    · simp [store, h, modify_mbuf_of_ne _ _ hy, Ne.symm hy]

@[simp] theorem moveUp_rte (s : RcvSocket k n) (m r : Option (Fin k)) :
    (moveUp s m r).mem.rte = s.mem.rte := by
  cases m <;> simp [moveUp]

@[simp] theorem moveUp_sbCc (s : RcvSocket k n) (m r : Option (Fin k)) :
    (moveUp s m r).soRcv.sbCc = s.soRcv.sbCc := by
  cases m <;> cases r <;> simp [moveUp, Sockbuf.emptyFixup]

@[simp] theorem moveUp_none_sbMb (s : RcvSocket k n) (r : Option (Fin k)) :
    (moveUp s none r).soRcv.sbMb = r := by
  cases r <;> simp [moveUp, Sockbuf.emptyFixup]

theorem moveUp_mbuf (s : RcvSocket k n) (m r : Option (Fin k)) (y : Fin k) :
    (moveUp s m r).mem.mbuf y = { s.mem.mbuf y with
      mNextpkt := if m = some y then r else (s.mem.mbuf y).mNextpkt } := by
  cases m with
  | none => simp [moveUp]
  | some x =>
    by_cases hy : y = x
    · subst hy
      simp [moveUp]
    · simp [moveUp, modify_mbuf_of_ne _ _ hy, Ne.symm hy]

structure RoundSpec (l : RcvLoop k n) (h : Fin n) (x : Fin k) (g : Seg n) (l' : RcvLoop k n) :
    Prop where
  rte : l'.sock.mem.rte =
    if g.paddr ≠ h then
      (l.sock.mem.rte.chainRteMbufs h l.prev g.paddr g.data g.len).freeSeg g.paddr
    else l.sock.mem.rte.chainRteMbufs h l.prev g.paddr g.data g.len
  prev : l'.prev = some g.paddr
  mp : l'.mp = some x
  mp0 : l'.mp0 = if l.mp = none then some x else l.mp0
  eor : l'.eor = false
  cc : l'.sock.soRcv.sbCc = l.sock.soRcv.sbCc - g.len
  other : ∀ y, y ≠ x → l.mp ≠ some y → ∃ np,
    l'.sock.mem.mbuf y = { l.sock.mem.mbuf y with mNextpkt := np }
  paddr_of_ne : ∀ y, y ≠ x → (l'.sock.mem.mbuf y).mPaddr = (l.sock.mem.mbuf y).mPaddr
  paddr_head : g.paddr = h → (l'.sock.mem.mbuf x).mPaddr = some h
  nextpkt : ∀ y, l.sock.mem.mNext x = some y →
    (l'.sock.mem.mbuf y).mNextpkt = (l.sock.mem.mbuf x).mNextpkt
  sbMb : l.sock.mem.mNext x = none → l'.sock.soRcv.sbMb = (l.sock.mem.mbuf x).mNextpkt

theorem take_mbuf (l : RcvLoop k n) (h p : Fin n) (x y : Fin k) :
    (l.take h p x).sock.mem.mbuf y = { l.sock.mem.mbuf y with
      mNext := if l.mp = some y then some x else (l.sock.mem.mbuf y).mNext } := by
  simp only [take, store_mbuf]

theorem release_mbuf_of_ne (l : RcvLoop k n) (h p : Fin n) {y : Fin k} (hy : y ≠ x) :
    (l.release h p x).sock.mem.mbuf y = l.sock.mem.mbuf y := by
  by_cases hp : p = h
  · simp [release, hp]
  · simp [release, hp, mFree_mbuf_of_ne _ hy]

theorem round_spec {l : RcvLoop k n} {h : Fin n} (hx : (l.sock.mem.mbuf x).Carries g)
    (heor : l.eor = false) (hmp : l.mp ≠ some x) :
    ∃ l', l.round (some h) x = some (l', l.sock.mem.mNext x) ∧ RoundSpec l h x g l' := by
  obtain ⟨-, hmeor, hpaddr, hdata, hlen⟩ := hx
  have hmb : (l.take h g.paddr x).sock.soRcv.sbMb = l.sock.mem.mNext x := by
    simp [take, MbufMem.mNext, store_mbuf, hmp]
  obtain ⟨l₁, hl₁⟩ : ∃ l₁, (l.take h g.paddr x).release h g.paddr x = l₁ := ⟨_, rfl⟩
  have hround : l.round (some h) x = some ({ l₁.store none with
      sock := moveUp (l₁.store none).sock (l.sock.mem.mNext x) (l.sock.mem.mbuf x).mNextpkt },
      l.sock.mem.mNext x) := by
    simp only [round, hpaddr, hmb, hl₁]
  refine ⟨_, hround, ?_⟩
  have hother : ∀ y, y ≠ x → l₁.sock.mem.mbuf y = { l.sock.mem.mbuf y with
      mNext := if l.mp = some y then some x else (l.sock.mem.mbuf y).mNext } := by
    intro y hy
    rw [← hl₁, release_mbuf_of_ne _ _ _ hy, take_mbuf]
  have hmp' : l₁.mp = some x := by
    rw [← hl₁]
    by_cases hp : g.paddr = h <;> simp [release, hp, take]
  constructor
  case rte =>
    rw [moveUp_rte, store_rte, ← hl₁]
    by_cases hp : g.paddr = h
    · simp [release, hp, take, hdata, hlen]
    · have hpaddr' : ((l.take h g.paddr x).sock.mem.mbuf x).mPaddr = some g.paddr := by
        rw [take_mbuf, hpaddr]
      simp only [release, ne_eq, hp, not_false_eq_true, if_true, mFree_rte hpaddr']
      simp [take, hdata, hlen]
  case prev =>
    rw [store_prev, ← hl₁]
    by_cases hp : g.paddr = h <;> simp [release, hp, take]
  case mp => simp [hmp']
  case mp0 =>
    rw [store_mp0, hmp', ← hl₁]
    by_cases hp : g.paddr = h <;> simp [release, hp, take, store_mp0]
  case eor =>
    rw [store_eor, ← hl₁]
    by_cases hp : g.paddr = h <;> simp [release, hp, take, heor, hmeor]
  case cc =>
    rw [moveUp_sbCc, store_soRcv, ← hl₁]
    by_cases hp : g.paddr = h <;> simp [release, hp, take, Sockbuf.sbfree, hlen]
  case other =>
    intro y hy hy'
    rw [moveUp_mbuf, store_mbuf, hother y hy, hmp', if_neg hy', if_neg (by simp [Ne.symm hy])]
    exact ⟨_, rfl⟩
  case paddr_of_ne =>
    intro y hy
    rw [moveUp_mbuf, store_mbuf, hother y hy]
  case paddr_head =>
    intro hp
    rw [moveUp_mbuf, store_mbuf, ← hl₁, release, if_neg (by simp [hp]), take_mbuf, hpaddr, hp]
  case nextpkt =>
    intro y hy
    simp [moveUp_mbuf, hy]
  case sbMb =>
    intro hnone
    simp [hnone]

structure LoopSpec (l : RcvLoop k n) (h : Fin n) (xs : List (Fin k)) (gs : List (Seg n))
    (l' : RcvLoop k n) : Prop where
  rte : l'.sock.mem.rte = l.sock.mem.rte.linkRecord h l.prev gs
  mp0 : l.mp ≠ none → l'.mp0 = l.mp0
  cc : l'.sock.soRcv.sbCc = l.sock.soRcv.sbCc - (gs.map Seg.len).sum
  paddr : ∀ y, y ∉ xs → (l'.sock.mem.mbuf y).mPaddr = (l.sock.mem.mbuf y).mPaddr
  sbMb : ∀ x ∈ xs.head?, l'.sock.soRcv.sbMb = (l.sock.mem.mbuf x).mNextpkt
  first : ∀ x ∈ xs.head?, l.mp = none → l'.mp0 = some x
  head : ∀ x ∈ xs.head?, ∀ g ∈ gs.head?, g.paddr = h → (l'.sock.mem.mbuf x).mPaddr = some h

theorem RoundSpec.carries {l l' : RcvLoop k n} {h : Fin n} (hr : RoundSpec l h x g l') (hx : x ∉ xs)
    (hmp : ∀ y ∈ xs, l.mp ≠ some y) (hlink : LinkedFrom l.sock.mem.mNext (l.sock.mem.mNext x) xs)
    (hc : List.Forall₂ (fun y g => (l.sock.mem.mbuf y).Carries g) xs gs) :
    LinkedFrom l'.sock.mem.mNext (l.sock.mem.mNext x) xs ∧
      List.Forall₂ (fun y g => (l'.sock.mem.mbuf y).Carries g) xs gs := by
  have hsame : ∀ y ∈ xs, ∃ np,
      l'.sock.mem.mbuf y = { l.sock.mem.mbuf y with mNextpkt := np } := by
    intro y hy
    exact hr.other y (ne_of_mem_of_not_mem hy hx) (hmp y hy)
  constructor
  · apply hlink.congr
    intro y hy
    obtain ⟨np, hnp⟩ := hsame y hy
    simp [mNext, hnp]
  · rw [forall₂_iff_get] at hc ⊢
    obtain ⟨hlen, hc⟩ := hc
    refine ⟨hlen, ?_⟩
    intro i hi hi'
    obtain ⟨np, hnp⟩ := hsame _ (List.get_mem xs ⟨i, hi⟩)
    obtain ⟨h1, h2, h3, h4, h5⟩ := hc i hi hi'
    rw [hnp]
    exact ⟨h1, h2, h3, h4, h5⟩

theorem loop_spec {h : Fin n} {m : Option (Fin k)} {l : RcvLoop k n} {fuel : Nat}
    (hlink : LinkedFrom l.sock.mem.mNext m xs)
    (hc : List.Forall₂ (fun x g => (l.sock.mem.mbuf x).Carries g) xs gs)
    (heor : l.eor = false) (hmp : ∀ x ∈ xs, l.mp ≠ some x) (hfuel : xs.length ≤ fuel) :
    ∃ l', loop (some h) false fuel l m = some l' ∧ LoopSpec l h xs gs l' := by
  -- the record is consumed from the front, the place `mp` always lies behind
  induction xs generalizing l m gs fuel with
  | nil =>
    cases hlink
    cases hc
    refine ⟨l, by cases fuel <;> rfl, ?_⟩
    constructor <;> simp [linkRecord]
  | cons x xs ih =>
    have hnd := hlink.nodup
    obtain ⟨rfl, htail⟩ := hlink
    obtain ⟨hx, -⟩ := nodup_cons.mp hnd
    cases hc with
    | @cons _ g _ gs hg hgs =>
    obtain ⟨fuel, rfl, hf⟩ := exists_fuel hfuel
    obtain ⟨l₁, hround, hr⟩ := round_spec (h := h) hg heor (hmp x (by simp))
    obtain ⟨hlink₁, hcar₁⟩ := hr.carries hx (fun y hy => hmp y (by simp [hy])) htail hgs
    have hmp₁ : ∀ y ∈ xs, l₁.mp ≠ some y := by
      intro y hy
      rw [hr.mp]
      simpa using ne_of_mem_of_not_mem hy hx |>.symm
    obtain ⟨l', hloop, hspec⟩ := ih hlink₁ hcar₁ hr.eor hmp₁ hf
    refine ⟨l', ?_, ?_⟩
    · rw [loop, if_neg (by simp [hg.type]), hround]
      simp [hr.eor, hloop]
    constructor
    · rw [hspec.rte, hr.prev, hr.rte]
      rfl
    · intro hmp0
      rw [hspec.mp0 (by simp [hr.mp]), hr.mp0, if_neg hmp0]
    · rw [hspec.cc, hr.cc]
      simp only [map_cons, sum_cons]
      omega
    · intro y hy
      simp only [mem_cons, not_or] at hy
      rw [hspec.paddr y hy.2, hr.paddr_of_ne y hy.1]
    · intro z hz
      cases hz
      cases xs with
      | nil =>
        cases hcar₁
        have hdone : l' = l₁ := by
          have hnil : l.sock.mem.mNext x = none := htail
          rw [hnil] at hloop
          cases fuel <;> simpa [loop, eq_comm] using hloop
        rw [hdone, hr.sbMb htail]
      | cons y ys =>
        rw [hspec.sbMb y (by simp), hr.nextpkt y htail.1]
    · intro z hz hmp0
      cases hz
      rw [hspec.mp0 (by simp [hr.mp]), hr.mp0, if_pos hmp0]
    · intro z hz g' hg' hh
      cases hz
      cases hg'
      rw [hspec.paddr x hx, hr.paddr_head hh]

end RcvLoop

/-- The first record of a stream socket: the data mbufs `xs`, each with a packet buffer of its own
that nobody else refers to. -/
structure DataRecord (s : RcvSocket k n) (xs : List (Fin k)) (gs : List (Seg n)) : Prop where
  stream : s.prAddr = false
  linked : LinkedFrom s.mem.mNext s.soRcv.sbMb xs
  carries : List.Forall₂ (fun x g => (s.mem.mbuf x).Carries g) xs gs
  nonempty : gs ≠ []
  nodup : (gs.map Seg.paddr).Nodup
  refcnt : ∀ g ∈ gs, (s.mem.rte.cell g.paddr).refcnt = 1

theorem appGlueReceive_eq {s : RcvSocket k n} (hr : DataRecord s xs (g :: gs)) :
    ∃ s', appGlueReceive s = some (0, some g.paddr, s') ∧
      s'.mem.rte = s.mem.rte.linkRecord g.paddr none (g :: gs) ∧
      s'.soRcv.sbCc = s.soRcv.sbCc - ((g :: gs).map Seg.len).sum ∧
      ∀ x ∈ xs.head?, s'.soRcv.sbMb = (s.mem.mbuf x).mNextpkt := by
  obtain ⟨hstream, hlink, hcar, -, -, -⟩ := hr
  have hlen : xs.length ≤ k := by simpa using hlink.length_le
  obtain ⟨l, hloop, hl⟩ := RcvLoop.loop_spec (l := { sock := s }) (h := g.paddr) hlink hcar rfl
    (by simp) hlen
  cases hcar with
  | @cons x _ xs _ hx hcar =>
  have hmb : s.soRcv.sbMb = some x := hlink.1
  have hso : soreceive s false = some { rc := 0, sock := l.sock, mp0 := some x } := by
    rw [hmb] at hloop
    simp [soreceive, hmb, hstream, hx.type, hx.paddr, hloop, hl.first x (by simp) rfl]
  have hpaddr : (l.sock.mem.mbuf x).mPaddr = some g.paddr := hl.head x (by simp) g (by simp) rfl
  refine ⟨_, by simp only [appGlueReceive, hso, hpaddr, if_true]; rfl, ?_, ?_, ?_⟩
  · rw [mFree_rte_of_none (by simp), modify_rte, hl.rte]
  · exact hl.cc
  · exact hl.sbMb

/-- The chain handed out for the record `gs`: its packet buffers in order, with the data of the
mbufs, the totals in the head, and none of them returned. -/
structure HandedOut (before after : Memory n) (gs : List (Seg n)) (buf : Option (Fin n)) :
    Prop where
  chain : LinkedFrom after.next buf (gs.map Seg.paddr)
  data : ∀ g ∈ gs, ((after.cell g.paddr).dataOff : Int) = g.data ∧
    (after.cell g.paddr).dataLen = g.len
  head : ∀ g ∈ gs.head?, (after.cell g.paddr).pktLen = (gs.map Seg.len).sum ∧
    (after.cell g.paddr).nbSegs = gs.length
  live : ∀ g ∈ gs, after.timesReturned g.paddr = before.timesReturned g.paddr

theorem linkRecord_record {mem : Memory n} (hnd : ((g :: gs).map Seg.paddr).Nodup)
    (href : ∀ g' ∈ g :: gs, (mem.cell g'.paddr).refcnt = 1) :
    let mem' := mem.linkRecord g.paddr none (g :: gs)
    LinkedFrom mem'.next (some g.paddr) ((g :: gs).map Seg.paddr) ∧
      (∀ g' ∈ g :: gs, (mem'.cell g'.paddr).dataOff = (g'.data % 65536).toNat ∧
        (mem'.cell g'.paddr).dataLen = g'.len % 65536) ∧
      (mem'.cell g.paddr).pktLen = (((g :: gs).map Seg.len).sum) % 4294967296 ∧
      (mem'.cell g.paddr).nbSegs = (g :: gs).length % 256 ∧
      ∀ y, mem'.timesReturned y = mem.timesReturned y + (gs.map Seg.paddr).count y := by
  simp only [map_cons, nodup_cons] at hnd
  obtain ⟨hg, hnd⟩ := hnd
  have hmem : mem.linkRecord g.paddr none (g :: gs) =
      (mem.chainRteMbufs g.paddr none g.paddr g.data g.len).linkRecord g.paddr (some g.paddr)
        gs := by simp [linkRecord]
  obtain ⟨mem₁, hmem₁⟩ : ∃ mem₁, mem.chainRteMbufs g.paddr none g.paddr g.data g.len = mem₁ :=
    ⟨_, rfl⟩
  have hcell : mem₁.cell g.paddr = { mem.cell g.paddr with
      dataLen := g.len % 65536, pktLen := g.len % 4294967296, nbSegs := 1, next := none
      dataOff := (g.data % 65536).toNat } := by
    rw [← hmem₁, chainRteMbufs_first, modify_cell_self]
  have href₁ : ∀ g' ∈ gs, (mem₁.cell g'.paddr).refcnt = 1 := by
    intro g' hg'
    have hne : g'.paddr ≠ g.paddr := ne_of_mem_of_not_mem (List.mem_map_of_mem hg') hg
    rw [← hmem₁, chainRteMbufs_first, modify_cell_of_ne _ _ hne]
    exact href g' (by simp [hg'])
  have hspec := linkRecord_behind hnd hg hg href₁ (by simp [Memory.next, hcell])
    (by rw [hcell]; exact Nat.mod_lt _ (by decide)) (by simp [hcell])
  rw [hmem, hmem₁]
  refine ⟨⟨rfl, hspec.linked⟩, ?_, ?_, ?_, ?_⟩
  · intro g' hg'
    rcases mem_cons.mp hg' with rfl | hg'
    · rw [(hspec.data_of_notMem _ hg).1, (hspec.data_of_notMem _ hg).2, hcell]
      exact ⟨rfl, rfl⟩
    · exact hspec.segs g' hg'
  · rw [hspec.pktLen, hcell]
    simp
  · rw [hspec.nbSegs, hcell, length_cons, Nat.add_comm]
  · intro y
    rw [hspec.returned y, ← hmem₁, timesReturned, chainRteMbufs_returned]
    rfl

/-- The record is handed out whole exactly if it is one segment with fields of 16 bits. -/
theorem appGlueReceive_handedOut_iff {s : RcvSocket k n} {xs : List (Fin k)} {gs : List (Seg n)}
    (hr : DataRecord s xs gs) :
    ∃ buf s', appGlueReceive s = some (0, buf, s') ∧
      (HandedOut s.mem.rte s'.mem.rte gs buf ↔
        ∃ g, gs = [g] ∧ 0 ≤ g.data ∧ g.data < 65536 ∧ g.len < 65536) := by
  cases gs with
  | nil => exact absurd rfl hr.nonempty
  | cons g gs =>
  obtain ⟨s', hres, hrte, -⟩ := appGlueReceive_eq hr
  obtain ⟨hchain, hdata, hpkt, hsegs, hret⟩ := linkRecord_record hr.nodup hr.refcnt
  rw [← hrte] at hchain hdata hpkt hsegs hret
  refine ⟨some g.paddr, s', hres, ?_⟩
  constructor
  · intro hout
    cases gs with
    | nil =>
      obtain ⟨hoff, hlen⟩ := hout.data g (by simp)
      rw [(hdata g (by simp)).1] at hoff
      rw [(hdata g (by simp)).2] at hlen
      exact ⟨g, rfl, by omega, by omega, by omega⟩
    | cons g' gs =>
      -- the second packet buffer has gone back to its mempool
      have hlive := hout.live g' (by simp)
      have hback := hret g'.paddr
      simp only [List.map_cons, List.count_cons_self] at hback
      omega
  · intro hone
    obtain ⟨g', hg', hlow, hoff, hlen⟩ := hone
    cases hg'
    obtain ⟨hoff', hlen'⟩ := hdata g (by simp)
    constructor
    · exact hchain
    · intro g' hg'
      cases List.mem_singleton.mp hg'
      omega
    · intro g' hg'
      cases hg'
      simp only [List.map_cons, List.map_nil, List.sum_cons, List.sum_nil, Nat.add_zero,
        List.length_singleton] at hpkt hsegs ⊢
      omega
    · intro g' hg'
      simpa using hret g'.paddr

def queuedRecord (k : Nat) : RcvSocket k k where
  mem := {
    mbuf := fun x => {
      mNext := if h : x.val + 1 < k then some ⟨x.val + 1, h⟩ else none
      mData := 128, mLen := 1, mPaddr := some x }
    rte := { cell := fun _ => { dataOff := 64, refcnt := 1 } } }
  soRcv := { sbCc := k, sbMb := if h : 0 < k then some ⟨0, h⟩ else none }

theorem appGlueReceive_handedOut_iff_single :
    ∃ buf s', appGlueReceive (queuedRecord 1) = some (0, buf, s') ∧
      HandedOut (queuedRecord 1).mem.rte s'.mem.rte [⟨0, 128, 1⟩] buf := by
  have hr : DataRecord (queuedRecord 1) [0] [⟨0, 128, 1⟩] :=
    ⟨rfl, by simp [queuedRecord, MbufMem.mNext],
      .cons ⟨rfl, rfl, rfl, rfl, rfl⟩ .nil, by simp, by simp, by simp [queuedRecord]⟩
  obtain ⟨buf, s', hres, hiff⟩ := appGlueReceive_handedOut_iff hr
  exact ⟨buf, s', hres, hiff.mpr ⟨_, rfl, by decide, by decide, by decide⟩⟩

theorem appGlueReceive_returns_second :
    DataRecord (queuedRecord 2) [0, 1] [⟨0, 128, 1⟩, ⟨1, 128, 1⟩] ∧
    ∃ buf s', appGlueReceive (queuedRecord 2) = some (0, buf, s') ∧
      LinkedFrom s'.mem.rte.next buf [0, 1] ∧ s'.mem.rte.returned = [(0, 1)] ∧
      ¬ HandedOut (queuedRecord 2).mem.rte s'.mem.rte [⟨0, 128, 1⟩, ⟨1, 128, 1⟩] buf := by
  have hrun : (appGlueReceive (queuedRecord 2)).any (fun r => r.1 = 0 ∧ r.2.1 = some 0 ∧
      r.2.2.mem.rte.next 0 = some 1 ∧ r.2.2.mem.rte.next 1 = none ∧
      r.2.2.mem.rte.returned = [(0, 1)]) = true := by decide +kernel
  constructor
  · exact ⟨rfl, by simp [queuedRecord, MbufMem.mNext],
      .cons ⟨rfl, rfl, rfl, rfl, rfl⟩ (.cons ⟨rfl, rfl, rfl, rfl, rfl⟩ .nil), by simp, by simp,
      by simp [queuedRecord]⟩
  · obtain ⟨⟨rc, buf, s'⟩, hres, hr⟩ := (Option.any_eq_true _ _).mp hrun
    simp only [decide_eq_true_eq] at hr
    obtain ⟨rfl, rfl, hnext, hlast, hret⟩ := hr
    refine ⟨some 0, s', hres, by simp [hnext, hlast], hret, fun hout => ?_⟩
    have hlive := hout.live ⟨1, 128, 1⟩ (by simp)
    simp [Memory.timesReturned, hret, queuedRecord] at hlive

end NetbsdDpdk
