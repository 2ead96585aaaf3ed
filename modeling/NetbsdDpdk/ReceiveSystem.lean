import NetbsdDpdk.ReceiveFree
import NetbsdDpdk.Transition

/-! One TCP socket of an application as a transition system: the server places chains on its
receive ring, the application reads, releases and closes, and the owners of the other buffers and
of the command channel do what they like. -/

namespace NetbsdDpdk

open List Option

open scoped Memory

variable {n : Nat}

/-- The socket, with the chains its application still has to release, the buffers in the hands of
the stack or the driver (`outside`), every segment ever placed on the ring, and the bytes placed and
delivered so far. -/
structure RxSystem (n : Nat) where
  rx : RxState n
  held : List (Fin n)
  outside : Fin n → Bool
  placed : List (Fin n)
  arrived : List UInt8
  delivered : List UInt8
  closed : Bool

inductive RxAction (n : Nat)
  | arrive (segs : List (Fin n × RteMbuf n))
  | alloc (pool : Nat) (p : Fin n) (m : RteMbuf n)
  | others (chan : CommandChannel) (ready : Fifo (dataRingsSize - 1) Nat) (readable : Bool)
  | receive (total : Nat)
  | release (p : Fin n)
  | close

def placeSegs (mem : Memory n) : List (Fin n × RteMbuf n) → Memory n
  | [] => mem
  | (p, m) :: rest => (placeSegs mem rest).modify p fun old =>
      { m with refcnt := 1, pool := old.pool, next := rest.head?.map Prod.fst }

/-- A chain the server can place: distinct buffers of its own, with their data within the 16-bit
offsets. -/
def ChainOk (s : RxSystem n) (segs : List (Fin n × RteMbuf n)) : Prop :=
  (segs.map Prod.fst).Nodup ∧
    ∀ x ∈ segs, s.outside x.1 = true ∧ x.2.dataOff + x.2.dataLen < 65536

instance (s : RxSystem n) (segs : List (Fin n × RteMbuf n)) : Decidable (ChainOk s segs) :=
  inferInstanceAs (Decidable (_ ∧ _))

def rxStep (s : RxSystem n) : RxAction n → Option (RxSystem n)
  | .arrive segs =>
    match segs.head? with
    | none => none
    | some (head, _) =>
      if ChainOk s segs ∧ s.closed = false then
        (s.rx.sock.rxRing.enqueue head).map fun rxRing =>
          { s with
            rx := { s.rx with
              mem := placeSegs s.rx.mem segs
              sock := { s.rx.sock with rxRing } }
            outside := fun x => s.outside x && decide (x ∉ segs.map Prod.fst)
            placed := segs.map Prod.fst ++ s.placed
            arrived := s.arrived ++ segs.flatMap fun x => x.2.data }
      else none
  | .alloc pool p m =>
    if (pool, p) ∈ s.rx.mem.mempool then
      some { s with
        rx := { s.rx with
          mem := { s.rx.mem with mempool := s.rx.mem.mempool.erase (pool, p) }.modify p fun old =>
            { m with refcnt := 1, pool := old.pool } }
        outside := fun x => s.outside x || decide (x = p) }
    else none
  | .others chan ready readable =>
    some { s with
      rx := { s.rx with chan, readyConnections := ready, readReadyToApp := readable } }
  | .receive total =>
    if s.closed then none
    else do
      let (r, rx) ← serviceReceive s.rx total
      match r with
      | none => return { s with rx }
      | some r =>
        let xs ← walkFrom rx.mem.next n (some r.pdesc)
        return { s with
          rx
          held := s.held ++ [r.pdesc]
          delivered := s.delivered ++ rx.mem.bytes xs }
  | .release p =>
    if p ∈ s.held then
      (serviceReleaseRxBuffer s.rx p).map fun rx => { s with rx, held := s.held.erase p }
    else none
  | .close =>
    if s.held = [] ∧ s.closed = false then
      (serviceClose s.rx).map fun rx => { s with rx, closed := true }
    else none

structure RxSystem.Initial (s : RxSystem n) : Prop where
  queued : s.rx.sock.queued = []
  shadow : s.rx.sock.shadow = none
  shadowNext : s.rx.sock.shadowNext = none
  held : s.held = []
  placed : s.placed = []
  freed : s.rx.mem.freed = []
  returned : s.rx.mem.returned = []
  arrived : s.arrived = []
  delivered : s.delivered = []
  closed : s.closed = false
  mempool : (s.rx.mem.mempool.map Prod.snd).Nodup
  outside : ∀ e ∈ s.rx.mem.mempool, s.outside e.2 = false

def RxSystem.heldSegs (s : RxSystem n) : List (Fin n) :=
  s.held.flatMap fun p => chainAt s.rx.mem (some p)

/-- `sh` and `cs` are what the socket keeps and what waits for it. Only the last segment of a held
chain can still be kept. -/
structure RxInv (s : RxSystem n) (sh : List (Fin n)) (cs : List (List (Fin n))) : Prop where
  shadow : ShadowLinked s.rx.mem s.rx.sock sh
  queued : Chains s.rx.mem s.rx.sock.queued cs
  nodup : (sh ++ cs.flatten).Nodup
  held : ∀ p ∈ s.held, ∃ as bs, LinkedFrom s.rx.mem.next (some p) (as ++ bs) ∧
    (bs = [] ∨ ∃ t, bs = [t] ∧ s.rx.sock.shadow = some t) ∧ ∀ x ∈ as, x ∉ sh ++ cs.flatten
  refcnt : ∀ x ∈ sh ++ cs.flatten ++ s.heldSegs, (s.rx.mem.cell x).refcnt = 1
  outside : ∀ x ∈ sh ++ cs.flatten ++ s.heldSegs, s.outside x = false
  mempool : ∀ e ∈ s.rx.mem.mempool, e.2 ∉ sh ++ cs.flatten ++ s.heldSegs ∧ s.outside e.2 = false
  mempool_nodup : (s.rx.mem.mempool.map Prod.snd).Nodup

variable {s t : RxSystem n} {sh : List (Fin n)} {cs : List (List (Fin n))} {p : Fin n}

open RxSystem

theorem RxInv.of_initial (h : s.Initial) : RxInv s [] [] where
  shadow := by simp [ShadowLinked, h.shadow, h.shadowNext]
  queued := by
    rw [h.queued]
    exact List.Forall₂.nil
  nodup := by simp
  held := by simp [h.held]
  refcnt := by simp [heldSegs, h.held]
  outside := by simp [heldSegs, h.held]
  mempool e he := ⟨by simp [heldSegs, h.held], h.outside e he⟩
  mempool_nodup := h.mempool

theorem RxSystem.mem_heldSegs {x : Fin n} :
    x ∈ s.heldSegs ↔ ∃ p ∈ s.held, x ∈ chainAt s.rx.mem (some p) := by
  simp [heldSegs]

section PlaceSegs

variable {mem : Memory n} {segs : List (Fin n × RteMbuf n)} {x : Fin n}

theorem placeSegs_cell_of_notMem (hx : x ∉ segs.map Prod.fst) :
    (placeSegs mem segs).cell x = mem.cell x := by
  induction segs with
  | nil => rfl
  | cons e rest ih =>
    simp only [map_cons, mem_cons, not_or] at hx
    rw [placeSegs, Memory.modify_cell_of_ne _ _ hx.1, ih hx.2]

theorem placeSegs_cell_of_mem (hnd : (segs.map Prod.fst).Nodup) {m : RteMbuf n} (hx : (x, m) ∈ segs)
    :
    ∃ next, (placeSegs mem segs).cell x =
      { m with refcnt := 1, pool := (mem.cell x).pool, next } := by
  induction segs with
  | nil => cases hx
  | cons e rest ih =>
    rw [map_cons, nodup_cons] at hnd
    rcases mem_cons.mp hx with rfl | hx
    · refine ⟨rest.head?.map Prod.fst, ?_⟩
      rw [placeSegs, Memory.modify_cell_self, placeSegs_cell_of_notMem hnd.1]
    · have hne : x ≠ e.1 := by
        rintro rfl
        exact hnd.1 (List.mem_map.mpr ⟨(e.1, m), hx, rfl⟩)
      rw [placeSegs, Memory.modify_cell_of_ne _ _ hne]
      exact ih hnd.2 hx

theorem placeSegs_linked (hnd : (segs.map Prod.fst).Nodup) :
    LinkedFrom (placeSegs mem segs).next (segs.head?.map Prod.fst) (segs.map Prod.fst) := by
  induction segs with
  | nil => rfl
  | cons e rest ih =>
    rw [map_cons, nodup_cons] at hnd
    refine ⟨rfl, ?_⟩
    rw [placeSegs, Memory.next, Memory.modify_cell_self]
    refine (ih hnd.2).congr fun y hy => ?_
    rw [Memory.next, Memory.next, Memory.modify_cell_of_ne _ _ (ne_of_mem_of_not_mem hy hnd.1)]

theorem placeSegs_mempool : (placeSegs mem segs).mempool = mem.mempool := by
  induction segs with
  | nil => rfl
  | cons e rest ih => exact ih

theorem placeSegs_freed : (placeSegs mem segs).freed = mem.freed := by
  induction segs with
  | nil => rfl
  | cons e rest ih => exact ih

theorem placeSegs_returned : (placeSegs mem segs).returned = mem.returned := by
  induction segs with
  | nil => rfl
  | cons e rest ih => exact ih

theorem placeSegs_pool : ((placeSegs mem segs).cell x).pool = (mem.cell x).pool := by
  induction segs with
  | nil => rfl
  | cons e rest ih =>
    by_cases hx : x = e.1
    · subst hx
      rw [placeSegs, Memory.modify_cell_self]
      exact ih
    · rw [placeSegs, Memory.modify_cell_of_ne _ _ hx]
      exact ih

theorem placeSegs_bytes (hnd : (segs.map Prod.fst).Nodup) :
    (placeSegs mem segs).bytes (segs.map Prod.fst) = segs.flatMap fun x => x.2.data := by
  rw [Memory.bytes, flatMap_map]
  refine flatMap_congr fun e he => ?_
  obtain ⟨next, hcell⟩ : ∃ next, (placeSegs mem segs).cell e.1 = _ :=
    placeSegs_cell_of_mem hnd he
  rw [hcell]
  rfl

end PlaceSegs

theorem RxInv.frame (h : RxInv s sh cs) (hshadow : t.rx.sock.shadow = s.rx.sock.shadow)
    (hshadowNext : t.rx.sock.shadowNext = s.rx.sock.shadowNext) (hheld : t.held = s.held)
    (hcell : ∀ x ∈ sh ++ cs.flatten ++ s.heldSegs, t.rx.mem.cell x = s.rx.mem.cell x) :
    ShadowLinked t.rx.mem t.rx.sock sh ∧ Chains t.rx.mem s.rx.sock.queued cs ∧
      (∀ p ∈ t.held, ∃ as bs, LinkedFrom t.rx.mem.next (some p) (as ++ bs) ∧
        (bs = [] ∨ ∃ t', bs = [t'] ∧ t.rx.sock.shadow = some t') ∧
        ∀ x ∈ as, x ∉ sh ++ cs.flatten) ∧ t.heldSegs = s.heldSegs := by
  have hnext : ∀ x ∈ sh ++ cs.flatten ++ s.heldSegs, t.rx.mem.next x = s.rx.mem.next x :=
    fun x hx => by rw [Memory.next, hcell x hx, Memory.next]
  have hlink : ∀ p ∈ s.held, ∀ xs, LinkedFrom s.rx.mem.next (some p) xs → ∀ x ∈ xs,
      t.rx.mem.next x = s.rx.mem.next x := by
    intro p hp xs hxs x hx
    refine hnext x (mem_append_right _ (mem_heldSegs.mpr ⟨p, hp, ?_⟩))
    rwa [chainAt_eq hxs]
  refine ⟨?_, ?_, ?_, ?_⟩
  · have hsh : ShadowLinked t.rx.mem s.rx.sock sh :=
      h.shadow.congr fun x hx => hcell x (by simp [hx])
    simpa only [ShadowLinked, hshadow, hshadowNext] using hsh
  · exact h.queued.congr fun x hx => hnext x (by
      simp only [mem_append, hx, or_true, true_or])
  · intro p hp
    rw [hheld] at hp
    obtain ⟨as, bs, hxs, hbs, has⟩ := h.held p hp
    refine ⟨as, bs, hxs.congr (hlink p hp _ hxs), ?_, has⟩
    rwa [hshadow]
  · rw [heldSegs, heldSegs, hheld]
    refine flatMap_congr fun p hp => ?_
    obtain ⟨as, bs, hxs, -, -⟩ := h.held p hp
    exact chainAt_congr hxs (hlink p hp _ hxs)

structure RxArrived (s t : RxSystem n) (segs : List (Fin n × RteMbuf n)) : Prop where
  ok : ChainOk s segs
  mem : t.rx.mem = placeSegs s.rx.mem segs
  kept : s.rx.sock.SameKept t.rx.sock
  queued : ∃ head, segs.head?.map Prod.fst = some head ∧
    t.rx.sock.queued = s.rx.sock.queued ++ [head]
  outside : t.outside = fun x => s.outside x && decide (x ∉ segs.map Prod.fst)
  placed : t.placed = segs.map Prod.fst ++ s.placed
  arrived : t.arrived = s.arrived ++ segs.flatMap fun x => x.2.data
  delivered : t.delivered = s.delivered
  held : t.held = s.held
  closed : t.closed = false ∧ s.closed = false

theorem rxStep_arrive {segs : List (Fin n × RteMbuf n)} (h : rxStep s (.arrive segs) = some t) :
    RxArrived s t segs := by
  cases hhead : segs.head? with
  | none => simp [rxStep, hhead] at h
  | some e =>
    simp only [rxStep, hhead] at h
    split at h
    · next hok =>
      obtain ⟨rxRing, hring, rfl⟩ := map_eq_some_iff.mp h
      refine ⟨hok.1, rfl, ⟨rfl, rfl, rfl, rfl⟩, ⟨e.1, by simp [hhead], ?_⟩, rfl, rfl, rfl, rfl, rfl,
        hok.2, hok.2⟩
      simp [LocalSocket.queued, (Fifo.enqueue_eq_some_iff.mp hring).2]
    · cases h

theorem RxInv.arrive {segs : List (Fin n × RteMbuf n)} (h : RxInv s sh cs)
    (hstep : rxStep s (.arrive segs) = some t) :
    RxInv t sh (cs ++ [segs.map Prod.fst]) ∧ t.heldSegs = s.heldSegs ∧
      ∀ x ∈ segs.map Prod.fst, x ∉ sh ++ cs.flatten ++ s.heldSegs := by
  have ha := rxStep_arrive hstep
  obtain ⟨hnd, hok⟩ := ha.ok
  have hfresh : ∀ x ∈ segs.map Prod.fst, x ∉ sh ++ cs.flatten ++ s.heldSegs := by
    intro x hx hlive
    obtain ⟨e, he, rfl⟩ := List.mem_map.mp hx
    have := (hok e he).1
    rw [h.outside e.1 hlive] at this
    cases this
  have hcell : ∀ x ∈ sh ++ cs.flatten ++ s.heldSegs, t.rx.mem.cell x = s.rx.mem.cell x :=
    fun x hx => by
      rw [ha.mem]
      exact placeSegs_cell_of_notMem fun hx' => hfresh x hx' hx
  obtain ⟨hsh, hcs, hheld, hsegs⟩ := h.frame ha.kept.shadow ha.kept.shadowNext ha.held hcell
  have hflat : (cs ++ [segs.map Prod.fst]).flatten = cs.flatten ++ segs.map Prod.fst := by simp
  have hnew : ∀ x ∈ segs.map Prod.fst, (t.rx.mem.cell x).refcnt = 1 := by
    intro x hx
    obtain ⟨e, he, rfl⟩ := List.mem_map.mp hx
    obtain ⟨next, hc⟩ : ∃ next, (placeSegs s.rx.mem segs).cell e.1 = _ :=
      placeSegs_cell_of_mem hnd he
    rw [ha.mem, hc]
  have hmem : ∀ x, x ∈ sh ++ (cs ++ [segs.map Prod.fst]).flatten ++ s.heldSegs ↔
      x ∈ sh ++ cs.flatten ++ s.heldSegs ∨ x ∈ segs.map Prod.fst := by
    intro x
    simp only [hflat, mem_append]
    tauto
  refine ⟨⟨hsh, ?_, ?_, ?_, ?_, ?_, ?_, ?_⟩, hsegs, hfresh⟩
  · obtain ⟨head, hhead, hq⟩ := ha.queued
    have hlink : LinkedFrom t.rx.mem.next (some head) (segs.map Prod.fst) := by
      rw [← hhead, ha.mem]
      exact placeSegs_linked hnd
    rw [hq]
    exact rel_append hcs (List.Forall₂.cons hlink List.Forall₂.nil)
  · rw [hflat, ← append_assoc]
    refine nodup_append.mpr ⟨h.nodup, hnd, ?_⟩
    rintro x hx y hy rfl
    exact hfresh x hy (mem_append_left _ hx)
  · intro p hp
    obtain ⟨as, bs, hlink, hbs, has⟩ := hheld p hp
    refine ⟨as, bs, hlink, hbs, fun x hx hx' => ?_⟩
    rw [hflat, ← append_assoc] at hx'
    rcases mem_append.mp hx' with hx' | hx'
    · exact has x hx hx'
    · refine hfresh x hx' (mem_append_right _ ?_)
      rw [← hsegs]
      refine mem_heldSegs.mpr ⟨p, hp, ?_⟩
      rw [chainAt_eq hlink]
      simp [hx]
  · intro x hx
    rw [hsegs, hmem] at hx
    rcases hx with hx | hx
    · rw [hcell x hx]
      exact h.refcnt x hx
    · exact hnew x hx
  · intro x hx
    rw [hsegs, hmem] at hx
    rw [ha.outside]
    rcases hx with hx | hx
    · simp [h.outside x hx]
    · simp only [hx, not_true, decide_false, Bool.and_false]
  · intro e he
    rw [ha.mem, placeSegs_mempool] at he
    obtain ⟨hlive, hout⟩ := h.mempool e he
    refine ⟨?_, by simp [ha.outside, hout]⟩
    rw [hsegs, hmem]
    rintro (hx | hx)
    · exact hlive hx
    · obtain ⟨e', he', heq⟩ := List.mem_map.mp hx
      have := (hok e' he').1
      rw [heq, hout] at this
      cases this
  · rw [ha.mem, placeSegs_mempool]
    exact h.mempool_nodup

structure RxAllocated (s t : RxSystem n) (pool : Nat) (p : Fin n) : Prop where
  free : (pool, p) ∈ s.rx.mem.mempool
  cell : ∀ x, x ≠ p → t.rx.mem.cell x = s.rx.mem.cell x
  pools : ∀ x, (t.rx.mem.cell x).pool = (s.rx.mem.cell x).pool
  mempool : t.rx.mem.mempool = s.rx.mem.mempool.erase (pool, p)
  freed : t.rx.mem.freed = s.rx.mem.freed
  returned : t.rx.mem.returned = s.rx.mem.returned
  outside : t.outside = fun x => s.outside x || decide (x = p)
  rest : t.rx.sock = s.rx.sock ∧ t.held = s.held ∧ t.placed = s.placed ∧
    t.arrived = s.arrived ∧ t.delivered = s.delivered ∧ t.closed = s.closed

theorem rxStep_alloc {pool : Nat} {m : RteMbuf n} (hstep : rxStep s (.alloc pool p m) = some t) :
    RxAllocated s t pool p := by
  simp only [rxStep] at hstep
  split at hstep
  · next hp =>
    cases hstep
    refine ⟨hp, fun x hx => ?_, fun x => ?_, rfl, rfl, rfl, rfl, rfl, rfl, rfl, rfl, rfl, rfl⟩
    · rw [Memory.modify_cell_of_ne _ _ hx]
    by_cases hx : x = p
    · subst hx
      rw [Memory.modify_cell_self]
    · rw [Memory.modify_cell_of_ne _ _ hx]
  · cases hstep

theorem RxInv.alloc {pool : Nat} {m : RteMbuf n} (h : RxInv s sh cs)
    (hstep : rxStep s (.alloc pool p m) = some t) :
    RxInv t sh cs ∧ t.heldSegs = s.heldSegs ∧ p ∉ sh ++ cs.flatten ++ s.heldSegs := by
  have ha := rxStep_alloc hstep
  obtain ⟨hsock, hheld, -⟩ := ha.rest
  have hlive := (h.mempool (pool, p) ha.free).1
  have hcell : ∀ x ∈ sh ++ cs.flatten ++ s.heldSegs, t.rx.mem.cell x = s.rx.mem.cell x :=
    fun x hx => ha.cell x (ne_of_mem_of_not_mem hx hlive)
  obtain ⟨hsh, hcs, hheld, hsegs⟩ := h.frame (by rw [hsock]) (by rw [hsock]) hheld hcell
  refine ⟨⟨hsh, by rwa [hsock], h.nodup, hheld, ?_, ?_, ?_, ?_⟩, hsegs, hlive⟩
  · intro x hx
    rw [hsegs] at hx
    rw [hcell x hx]
    exact h.refcnt x hx
  · intro x hx
    rw [hsegs] at hx
    simp [ha.outside, h.outside x hx, ne_of_mem_of_not_mem hx hlive]
  · intro e he
    have hndl := List.Nodup.of_map Prod.snd h.mempool_nodup
    rw [ha.mempool] at he
    obtain ⟨hne, he⟩ := (hndl.mem_erase_iff).mp he
    obtain ⟨hlive', hout⟩ := h.mempool e he
    refine ⟨by rwa [hsegs], ?_⟩
    have hep : e.2 ≠ p := fun hep =>
      hne (inj_on_of_nodup_map h.mempool_nodup he ha.free hep)
    simp [ha.outside, hout, hep]
  · rw [ha.mempool]
    exact (erase_sublist.map Prod.snd).nodup h.mempool_nodup

theorem RxInv.others {chan : CommandChannel} {ready : Fifo (dataRingsSize - 1) Nat}
    {readable : Bool}
    (h : RxInv s sh cs) (hstep : rxStep s (.others chan ready readable) = some t) :
    RxInv t sh cs := by
  cases hstep
  exact ⟨h.shadow, h.queued, h.nodup, h.held, h.refcnt, h.outside, h.mempool, h.mempool_nodup⟩

structure RxReceived (s t : RxSystem n) (sh : List (Fin n)) (cs : List (List (Fin n)))
    (total : Nat) (r : Fin n) (rs sh' : List (Fin n)) (cs' : List (List (Fin n))) : Prop where
  take : TakeSpec s.rx.mem (sh ++ cs.flatten)
    (shadowBytes s.rx.mem s.rx.sock sh ++ s.rx.mem.bytes cs.flatten)
    (ShadowFits s.rx.mem s.rx.sock sh ∧ (∀ x ∈ cs.flatten, SegFits s.rx.mem x) ∧
      ReadSafe s.rx total) t.rx.mem t.rx.sock r rs sh' cs'
  starts : ∀ p, s.rx.sock.shadow = some p → r = p
  rest : cs' <:+ cs
  held : t.held = s.held ++ [r]
  delivered : t.delivered = s.delivered ++ t.rx.mem.bytes rs
  arrived : t.arrived = s.arrived
  placed : t.placed = s.placed
  outside : t.outside = s.outside
  closed : t.closed = s.closed

theorem rxStep_receive {total : Nat} (h : RxInv s sh cs)
    (hstep : rxStep s (.receive total) = some t) :
    (sh = [] ∧ cs = [] ∧ ∃ rx, t = { s with rx } ∧ rx.mem = s.rx.mem ∧
      ShadowLinked rx.mem rx.sock [] ∧ rx.sock.queued = []) ∨
    ∃ r rs sh' cs', RxReceived s t sh cs total r rs sh' cs' := by
  simp only [rxStep] at hstep
  split at hstep
  · cases hstep
  · rcases serviceReceive_cases total h.shadow h.queued h.nodup with
      ⟨hsh, hcs, rx, hres, hrest⟩ | ⟨r, rx, rs, sh', cs', hres, hstart, hsuf, htake⟩
    · simp only [hres, bind_eq_bind, bind_some] at hstep
      cases hstep
      exact Or.inl ⟨hsh, hcs, rx, rfl, hrest⟩
    · have hwalk : walkFrom rx.mem.next n (some r.pdesc) = some rs :=
        walkFrom_eq htake.linked (by simpa using htake.linked.length_le)
      simp only [hres, hwalk, bind_eq_bind, bind_some] at hstep
      cases hstep
      exact Or.inr ⟨r.pdesc, rs, sh', cs', ⟨htake, hstart, hsuf, rfl, rfl, rfl, rfl, rfl, rfl⟩⟩

theorem ShadowLinked.shadow_eq {mem : Memory n} {sock : LocalSocket n}
    (h : ShadowLinked mem sock sh) : sock.shadow = sh.head? := by
  cases hs : sock.shadow with
  | none =>
    simp only [ShadowLinked, hs] at h
    rw [h.2]
    rfl
  | some p =>
    simp only [ShadowLinked, hs] at h
    obtain ⟨ys, rfl, -⟩ := h
    rfl

section Received

variable {sh' rs : List (Fin n)} {cs' : List (List (Fin n))} {total : Nat} {r : Fin n}

theorem RxReceived.mem_pend (hr : RxReceived s t sh cs total r rs sh' cs') {x : Fin n}
    (hx : x ∈ rs) : x ∈ sh ++ cs.flatten := by
  obtain ⟨as₀, hpend, hcase⟩ := hr.take.split
  rw [hpend]
  rcases hcase with rfl | ⟨t₀, ys, rfl, rfl⟩
  · exact mem_append_left _ hx
  · rcases mem_append.mp hx with hx | hx
    · exact mem_append_left _ hx
    · rw [mem_singleton.mp hx]
      simp

theorem RxReceived.returned (hr : RxReceived s t sh cs total r rs sh' cs')
    (hnd : (sh ++ cs.flatten).Nodup) :
    ∃ as bs, rs = as ++ bs ∧ (bs = [] ∨ ∃ t₀, bs = [t₀] ∧ t.rx.sock.shadow = some t₀) ∧
      sh ++ cs.flatten = as ++ (sh' ++ cs'.flatten) ∧ ∀ x ∈ as, x ∉ sh' ++ cs'.flatten := by
  obtain ⟨as₀, hpend, hcase⟩ := hr.take.split
  rw [hpend] at hnd
  have hdisj : ∀ x ∈ as₀, x ∉ sh' ++ cs'.flatten := fun x hx hx' =>
    (nodup_append.mp hnd).2.2 x hx x hx' rfl
  rcases hcase with rfl | ⟨t₀, ys, rfl, rfl⟩
  · exact ⟨rs, [], by simp, Or.inl rfl, hpend, hdisj⟩
  · refine ⟨as₀, [t₀], rfl, Or.inr ⟨t₀, rfl, ?_⟩, hpend, hdisj⟩
    rw [hr.take.shadow.shadow_eq]
    rfl

theorem RxReceived.held_chain (hr : RxReceived s t sh cs total r rs sh' cs') {as bs : List (Fin n)}
    (hlink : LinkedFrom s.rx.mem.next (some p) (as ++ bs))
    (hbs : bs = [] ∨ ∃ t₀, bs = [t₀] ∧ s.rx.sock.shadow = some t₀)
    (has : ∀ x ∈ as, x ∉ sh ++ cs.flatten) :
    bs = [] ∧ LinkedFrom t.rx.mem.next (some p) as ∨
      bs = [r] ∧ LinkedFrom t.rx.mem.next (some p) (as ++ rs) := by
  have hnext : ∀ x ∈ as, t.rx.mem.next x = s.rx.mem.next x := fun x hx => by
    rw [Memory.next, hr.take.frame x fun hx' => has x hx (hr.mem_pend hx'), Memory.next]
  rcases hbs with rfl | ⟨t₀, rfl, hshadow⟩
  · rw [append_nil] at hlink
    exact Or.inl ⟨rfl, hlink.congr hnext⟩
  · cases hr.starts t₀ hshadow
    exact Or.inr ⟨rfl, hlink.extend hr.take.linked hnext⟩

theorem RxReceived.live_iff (hr : RxReceived s t sh cs total r rs sh' cs') (h : RxInv s sh cs)
    (x : Fin n) :
    x ∈ sh' ++ cs'.flatten ++ t.heldSegs ↔ x ∈ sh ++ cs.flatten ++ s.heldSegs := by
  obtain ⟨as₀, bs₀, hrs, hbs₀, hpend, -⟩ := hr.returned h.nodup
  have hrheld : ∀ y ∈ rs, y ∈ t.heldSegs := fun y hy =>
    mem_heldSegs.mpr ⟨r, by simp [hr.held], by rwa [chainAt_eq hr.take.linked]⟩
  have hrmem : r ∈ rs := by
    obtain ⟨ys, rfl, -⟩ := LinkedFrom.some_iff.mp hr.take.linked
    simp
  constructor
  · intro hx
    rcases mem_append.mp hx with hx | hx
    · refine mem_append_left _ ?_
      rw [hpend]
      exact mem_append_right _ hx
    · obtain ⟨p, hp, hx⟩ := mem_heldSegs.mp hx
      rw [hr.held, mem_append, mem_singleton] at hp
      rcases hp with hp | rfl
      · obtain ⟨as, bs, hlink, hbs, has⟩ := h.held p hp
        have hold : ∀ y ∈ as, y ∈ sh ++ cs.flatten ++ s.heldSegs := fun y hy =>
          mem_append_right _ (mem_heldSegs.mpr ⟨p, hp, by rw [chainAt_eq hlink]; simp [hy]⟩)
        rcases hr.held_chain hlink hbs has with ⟨-, hlink'⟩ | ⟨-, hlink'⟩
        · rw [chainAt_eq hlink'] at hx
          exact hold x hx
        · rw [chainAt_eq hlink'] at hx
          rcases mem_append.mp hx with hx | hx
          · exact hold x hx
          · exact mem_append_left _ (hr.mem_pend hx)
      · rw [chainAt_eq hr.take.linked] at hx
        exact mem_append_left _ (hr.mem_pend hx)
  · intro hx
    rcases mem_append.mp hx with hx | hx
    · rw [hpend] at hx
      rcases mem_append.mp hx with hx | hx
      · exact mem_append_right _ (hrheld x (by simp [hrs, hx]))
      · exact mem_append_left _ hx
    · obtain ⟨p, hp, hx⟩ := mem_heldSegs.mp hx
      obtain ⟨as, bs, hlink, hbs, has⟩ := h.held p hp
      have hp' : p ∈ t.held := by simp [hr.held, hp]
      rw [chainAt_eq hlink] at hx
      refine mem_append_right _ ?_
      rcases hr.held_chain hlink hbs has with ⟨rfl, hlink'⟩ | ⟨rfl, hlink'⟩
      · exact mem_heldSegs.mpr ⟨p, hp', by rw [chainAt_eq hlink']; simpa using hx⟩
      · rcases mem_append.mp hx with hx | hx
        · exact mem_heldSegs.mpr ⟨p, hp', by rw [chainAt_eq hlink']; simp [hx]⟩
        · rw [mem_singleton.mp hx]
          exact hrheld r hrmem

theorem RxReceived.inv (hr : RxReceived s t sh cs total r rs sh' cs') (h : RxInv s sh cs) :
    RxInv t sh' cs' := by
  obtain ⟨as₀, bs₀, hrs, hbs₀, hpend, hdisj⟩ := hr.returned h.nodup
  have hsub : ∀ x, x ∈ sh' ++ cs'.flatten → x ∈ sh ++ cs.flatten := fun x hx => by
    rw [hpend]
    exact mem_append_right _ hx
  have hlive := hr.live_iff h
  refine ⟨hr.take.shadow, hr.take.queued, ?_, ?_, ?_, ?_, ?_, ?_⟩
  · have hnd := h.nodup
    rw [hpend] at hnd
    exact (nodup_append.mp hnd).2.1
  · intro p hp
    rw [hr.held, mem_append, mem_singleton] at hp
    rcases hp with hp | rfl
    · obtain ⟨as, bs, hlink, hbs, has⟩ := h.held p hp
      rcases hr.held_chain hlink hbs has with ⟨-, hlink'⟩ | ⟨-, hlink'⟩
      · exact ⟨as, [], by simpa using hlink', Or.inl rfl, fun x hx hx' => has x hx (hsub x hx')⟩
      · refine ⟨as ++ as₀, bs₀, by rwa [append_assoc, ← hrs], hbs₀, fun x hx => ?_⟩
        rcases mem_append.mp hx with hx | hx
        · exact fun hx' => has x hx (hsub x hx')
        · exact hdisj x hx
    · refine ⟨as₀, bs₀, ?_, hbs₀, hdisj⟩
      rw [← hrs]
      exact hr.take.linked
  · intro x hx
    rw [hr.take.relinked.refcnt]
    exact h.refcnt x ((hlive x).mp hx)
  · intro x hx
    rw [hr.outside]
    exact h.outside x ((hlive x).mp hx)
  · intro e he
    rw [hr.take.relinked.mempool] at he
    rw [hlive, hr.outside]
    exact h.mempool e he
  · rw [hr.take.relinked.mempool]
    exact h.mempool_nodup

end Received

theorem RxInv.receive_empty {rx : RxState n} (h : RxInv s [] []) (hmem : rx.mem = s.rx.mem)
    (hsh : ShadowLinked rx.mem rx.sock []) (hq : rx.sock.queued = []) :
    RxInv { s with rx } [] [] ∧ ({ s with rx } : RxSystem n).heldSegs = s.heldSegs := by
  have hsegs : ({ s with rx } : RxSystem n).heldSegs = s.heldSegs := by
    simp only [heldSegs, hmem]
  refine ⟨⟨hsh, ?_, h.nodup, ?_, ?_, ?_, ?_, ?_⟩, hsegs⟩
  · rw [hq]
    exact List.Forall₂.nil
  · intro p hp
    obtain ⟨as, bs, hlink, hbs, has⟩ := h.held p hp
    have hnone : s.rx.sock.shadow = none := h.shadow.shadow_eq
    rcases hbs with rfl | ⟨t₀, -, hshadow⟩
    · refine ⟨as, [], ?_, Or.inl rfl, has⟩
      rw [hmem]
      exact hlink
    · rw [hnone] at hshadow
      cases hshadow
  · rw [hsegs, hmem]
    exact h.refcnt
  · rw [hsegs]
    exact h.outside
  · rw [hsegs, hmem]
    exact h.mempool
  · rw [hmem]
    exact h.mempool_nodup

def RxSystem.toRelease (s : RxSystem n) (p : Fin n) : List (Fin n) :=
  (chainAt s.rx.mem (some p)).takeWhile fun x => some x ≠ s.rx.sock.shadow

def RxSystem.ReleaseApart (s : RxSystem n) (p : Fin n) : Prop :=
  ∀ q ∈ s.held.erase p, ∀ x ∈ s.toRelease p, x ∉ chainAt s.rx.mem (some q)

instance (s : RxSystem n) (p : Fin n) : Decidable (s.ReleaseApart p) :=
  inferInstanceAs (Decidable (∀ q ∈ _, ∀ x ∈ _, _))

theorem RxInv.toRelease_eq (h : RxInv s sh cs) {as bs : List (Fin n)}
    (hlink : LinkedFrom s.rx.mem.next (some p) (as ++ bs))
    (hbs : bs = [] ∨ ∃ t₀, bs = [t₀] ∧ s.rx.sock.shadow = some t₀)
    (has : ∀ x ∈ as, x ∉ sh ++ cs.flatten) :
    s.toRelease p = as ∧ ∀ x ∈ as, some x ≠ s.rx.sock.shadow := by
  have hne : ∀ x ∈ as, some x ≠ s.rx.sock.shadow := by
    intro x hx he
    rw [h.shadow.shadow_eq] at he
    exact has x hx (mem_append_left _ (mem_of_mem_head? he.symm))
  refine ⟨?_, hne⟩
  rw [toRelease, chainAt_eq hlink, takeWhile_append_of_pos (by simpa using hne)]
  rcases hbs with rfl | ⟨t₀, rfl, hshadow⟩
  · simp
  · simp [hshadow]

theorem RxInv.serviceReleaseRxBuffer_eq (h : RxInv s sh cs) (hp : p ∈ s.held) :
    ∃ pools, serviceReleaseRxBuffer s.rx p =
        some { s.rx with mem := s.rx.mem.reclaimTo pools (s.toRelease p) } ∧
      ∀ pool, (∀ x ∈ s.toRelease p, (s.rx.mem.cell x).pool = pool) →
        ∀ x ∈ s.toRelease p, pools x = pool := by
  obtain ⟨as, bs, hlink, hbs, has⟩ := h.held p hp
  obtain ⟨hto, hne⟩ := h.toRelease_eq hlink hbs has
  have hstop : bs = [] ∨ bs.head? = s.rx.sock.shadow := by
    rcases hbs with rfl | ⟨t₀, rfl, hshadow⟩
    · exact Or.inl rfl
    · exact Or.inr hshadow.symm
  have href : ∀ x ∈ as, (s.rx.mem.cell x).refcnt = 1 := fun x hx =>
    h.refcnt x (mem_append_right _ (mem_heldSegs.mpr ⟨p, hp, by rw [chainAt_eq hlink]; simp [hx]⟩))
  obtain ⟨pools, hres, hpools⟩ := releaseRxBuffer_eq hlink hstop hne href
    (by simpa using hlink.length_le)
  rw [hto]
  exact ⟨pools, by simp [serviceReleaseRxBuffer, hres], hpools⟩

theorem RxInv.release (h : RxInv s sh cs) (hapart : s.ReleaseApart p)
    (hstep : rxStep s (.release p) = some t) :
    ∃ pools, t = { s with
        rx := { s.rx with mem := s.rx.mem.reclaimTo pools (s.toRelease p) }
        held := s.held.erase p } ∧
      (∀ pool, (∀ x ∈ s.toRelease p, (s.rx.mem.cell x).pool = pool) →
        ∀ x ∈ s.toRelease p, pools x = pool) ∧
      RxInv t sh cs ∧ (s.toRelease p).Nodup ∧
      (∀ x ∈ s.toRelease p, x ∈ s.heldSegs ∧ x ∉ sh ++ cs.flatten ++ t.heldSegs) ∧
      ∀ x, x ∉ s.toRelease p →
        (x ∈ sh ++ cs.flatten ++ t.heldSegs ↔ x ∈ sh ++ cs.flatten ++ s.heldSegs) := by
  simp only [rxStep] at hstep
  split at hstep
  · next hp =>
    obtain ⟨as, bs, hlink, hbs, has⟩ := h.held p hp
    obtain ⟨hto, -⟩ := h.toRelease_eq hlink hbs has
    obtain ⟨pools, hres, hpools⟩ := h.serviceReleaseRxBuffer_eq hp
    rw [RxSystem.ReleaseApart, hto] at hapart
    rw [hto] at hres hpools ⊢
    have hheldAs : ∀ x ∈ as, x ∈ s.heldSegs := fun x hx =>
      mem_heldSegs.mpr ⟨p, hp, by rw [chainAt_eq hlink]; simp [hx]⟩
    simp only [hres, map_some, Option.some.injEq] at hstep
    subst hstep
    have hsegs : ({ s with
        rx := { s.rx with mem := s.rx.mem.reclaimTo pools as }
        held := s.held.erase p } : RxSystem n).heldSegs =
        (s.held.erase p).flatMap fun q => chainAt s.rx.mem (some q) := by
      refine flatMap_congr fun q hq => ?_
      obtain ⟨as', bs', hlink', -, -⟩ := h.held q (mem_of_mem_erase hq)
      refine chainAt_congr hlink' fun x hx => ?_
      have hx' : x ∉ as := fun hx' => hapart q hq x hx' (by rwa [chainAt_eq hlink'])
      rw [Memory.next, Memory.reclaimTo_cell_of_notMem s.rx.mem hx', Memory.next]
    have hcell : ∀ x, x ∉ as → (s.rx.mem.reclaimTo pools as).cell x = s.rx.mem.cell x :=
      fun x hx => Memory.reclaimTo_cell_of_notMem s.rx.mem hx
    have hgone : ∀ x ∈ as, x ∉ sh ++ cs.flatten ++
        (s.held.erase p).flatMap fun q => chainAt s.rx.mem (some q) := by
      intro x hx hx'
      rcases mem_append.mp hx' with hx' | hx'
      · exact has x hx hx'
      · obtain ⟨q, hq, hx'⟩ := mem_flatMap.mp hx'
        exact hapart q hq x hx hx'
    have hlive : ∀ x, x ∉ as → (x ∈ sh ++ cs.flatten ++
        (s.held.erase p).flatMap (fun q => chainAt s.rx.mem (some q)) ↔
          x ∈ sh ++ cs.flatten ++ s.heldSegs) := by
      intro x hx
      constructor
      · intro hx'
        rcases mem_append.mp hx' with hx' | hx'
        · exact mem_append_left _ hx'
        · obtain ⟨q, hq, hx'⟩ := mem_flatMap.mp hx'
          exact mem_append_right _
            (mem_heldSegs.mpr ⟨q, mem_of_mem_erase hq, hx'⟩)
      · intro hx'
        rcases mem_append.mp hx' with hx' | hx'
        · exact mem_append_left _ hx'
        · obtain ⟨q, hq, hx'⟩ := mem_heldSegs.mp hx'
          by_cases hqp : q = p
          · subst hqp
            rw [chainAt_eq hlink] at hx'
            rcases hbs with rfl | ⟨t₀, rfl, hshadow⟩
            · exact absurd (by simpa using hx') hx
            · rcases mem_append.mp hx' with hx' | hx'
              · exact absurd hx' hx
              · rw [mem_singleton.mp hx']
                rw [h.shadow.shadow_eq] at hshadow
                exact mem_append_left _ (mem_append_left _ (mem_of_mem_head? hshadow))
          · exact mem_append_right _ (mem_flatMap.mpr ⟨q, (mem_erase_of_ne hqp).mpr hq, hx'⟩)
    have hkeep : ∀ x, x ∈ sh ++ cs.flatten ++
        (s.held.erase p).flatMap (fun q => chainAt s.rx.mem (some q)) →
          x ∉ as ∧ x ∈ sh ++ cs.flatten ++ s.heldSegs := fun x hx =>
      have hx' : x ∉ as := fun hx' => hgone x hx' hx
      ⟨hx', (hlive x hx').mp hx⟩
    refine ⟨pools, rfl, hpools, ⟨?_, ?_, h.nodup, ?_, ?_, ?_, ?_, ?_⟩, ?_, ?_, ?_⟩
    · exact h.shadow.congr fun x hx =>
        hcell x fun hx' => has x hx' (mem_append_left _ hx)
    · refine h.queued.congr fun x hx => ?_
      rw [Memory.next, hcell x fun hx' => has x hx' (mem_append_right _ hx), Memory.next]
    · intro q hq
      obtain ⟨as', bs', hlink', hbs', has'⟩ := h.held q (mem_of_mem_erase hq)
      refine ⟨as', bs', hlink'.congr fun x hx => ?_, hbs', has'⟩
      have hx' : x ∉ as := fun hx' => hapart q hq x hx' (by rwa [chainAt_eq hlink'])
      rw [Memory.next, hcell x hx', Memory.next]
    · intro x hx
      rw [hsegs] at hx
      obtain ⟨hx', hx⟩ := hkeep x hx
      rw [hcell x hx']
      exact h.refcnt x hx
    · intro x hx
      rw [hsegs] at hx
      exact h.outside x (hkeep x hx).2
    · intro e he
      rw [hsegs]
      rcases mem_append.mp he with he | he
      · obtain ⟨x, hx, rfl⟩ := List.mem_map.mp he
        rw [mem_reverse] at hx
        exact ⟨hgone x hx, h.outside x (mem_append_right _ (hheldAs x hx))⟩
      · obtain ⟨hlive', hout⟩ := h.mempool e he
        exact ⟨fun hx => hlive' (hkeep e.2 hx).2, hout⟩
    · have hnd : as.Nodup := (nodup_append.mp hlink.nodup).1
      simp only [Memory.reclaimTo, map_append, List.map_map, Function.comp_def, List.map_id']
      refine nodup_append.mpr ⟨nodup_reverse.mpr hnd, h.mempool_nodup, ?_⟩
      rintro x hx y hy rfl
      obtain ⟨e, he, rfl⟩ := List.mem_map.mp hy
      rw [mem_reverse] at hx
      exact (h.mempool e he).1 (mem_append_right _ (hheldAs e.2 hx))
    · exact (nodup_append.mp hlink.nodup).1
    · intro x hx
      rw [hsegs]
      exact ⟨hheldAs x hx, hgone x hx⟩
    · intro x hx
      rw [hsegs]
      exact hlive x hx
  · cases hstep

end NetbsdDpdk
