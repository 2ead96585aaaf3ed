import NetbsdDpdk.ReceiveStream

/-! Where every received buffer ends: it is freed once, into the pool it came from, by a release
or by the flush of the close. -/

namespace NetbsdDpdk

open List RxSystem Memory

variable {n : Nat}

def RxSystem.returnedCount (s : RxSystem n) (x : Fin n) : Nat :=
  (s.rx.mem.returned.map Prod.snd).count x

structure AccountInv (s : RxSystem n) (sh : List (Fin n)) (cs : List (List (Fin n))) : Prop where
  shape : RxInv s sh cs
  returned : ∀ x, s.placed.count x =
    s.returnedCount x + if x ∈ sh ++ cs.flatten ++ s.heldSegs then 1 else 0
  freed : ∀ x, s.rx.mem.freed.count x = s.returnedCount x
  pools : ∀ e ∈ s.rx.mem.returned, e.1 = (s.rx.mem.cell e.2).pool
  closed : s.closed = true → s.held = [] ∧ sh = [] ∧ cs = []

/-- A release frees nothing that another held chain contains, and segments of one pool only; the
close finds a command buffer and a shadow that is cut. -/
def FreesOnce (s : RxSystem n) : RxAction n → Prop
  | .release p => s.ReleaseApart p ∧ ∀ x ∈ s.toRelease p, ∀ y ∈ s.toRelease p,
      (s.rx.mem.cell x).pool = (s.rx.mem.cell y).pool
  | .close => s.rx.chan.pool ≠ [] ∧
      ∀ p ∈ s.rx.sock.shadow, s.rx.mem.next p = none
  | _ => True

instance (s : RxSystem n) (a : RxAction n) : Decidable (FreesOnce s a) :=
  match a with
  | .release _ => inferInstanceAs (Decidable (_ ∧ ∀ x ∈ _, ∀ y ∈ _, _))
  | .close => inferInstanceAs (Decidable (_ ∧ ∀ p ∈ _, _))
  | .arrive _ | .alloc _ _ _ | .others _ _ _ | .receive _ => isTrue trivial

theorem AccountInv.of_initial {s : RxSystem n} (h : s.Initial) : AccountInv s [] [] where
  shape := RxInv.of_initial h
  returned x := by simp [h.placed, returnedCount, h.returned, heldSegs, h.held]
  freed x := by simp [h.freed, returnedCount, h.returned]
  pools e he := by simp [h.returned] at he
  closed hc := by simp [h.closed] at hc

theorem count_reclaimTo_returned (mem : Memory n) (pools : Fin n → Nat) (xs : List (Fin n))
    (x : Fin n) : (((mem.reclaimTo pools xs).returned).map Prod.snd).count x =
      xs.count x + (mem.returned.map Prod.snd).count x := by
  simp [reclaimTo, count_append, Function.comp_def]

theorem count_reclaimTo_freed (mem : Memory n) (pools : Fin n → Nat) (xs : List (Fin n))
    (x : Fin n) : (mem.reclaimTo pools xs).freed.count x = xs.count x + mem.freed.count x := by
  simp [reclaimTo, count_append]

section Steps

variable {s t : RxSystem n} {sh : List (Fin n)} {cs : List (List (Fin n))}

theorem AccountInv.arrive {segs : List (Fin n × RteMbuf n)} (h : AccountInv s sh cs)
    (hstep : rxStep s (.arrive segs) = some t) :
    AccountInv t sh (cs ++ [segs.map Prod.fst]) := by
  obtain ⟨hinv, hsegs, hfresh⟩ := h.shape.arrive hstep
  have ha := rxStep_arrive hstep
  have hret : t.rx.mem.returned = s.rx.mem.returned := by rw [ha.mem, placeSegs_returned]
  have hcount : ∀ x, t.returnedCount x = s.returnedCount x := fun x => by
    rw [returnedCount, hret, returnedCount]
  refine ⟨hinv, fun x => ?_, fun x => ?_, fun e he => ?_, fun hc => ?_⟩
  · rw [ha.placed, count_append, hcount, h.returned x, hsegs]
    by_cases hx : x ∈ segs.map Prod.fst
    · have hlive := hfresh x hx
      have hmem : x ∈ sh ++ (cs ++ [segs.map Prod.fst]).flatten ++ s.heldSegs := by
        simp only [flatten_append, flatten_singleton, mem_append, hx, or_true, true_or]
      rw [if_neg hlive, if_pos hmem, count_eq_one_of_mem ha.ok.1 hx]
      omega
    · rw [count_eq_zero_of_not_mem hx]
      have hiff : x ∈ sh ++ (cs ++ [segs.map Prod.fst]).flatten ++ s.heldSegs ↔
          x ∈ sh ++ cs.flatten ++ s.heldSegs := by
        simp only [flatten_append, flatten_singleton, mem_append, hx, or_false]
      simp only [hiff]
      omega
  · rw [hcount, ha.mem, placeSegs_freed]
    exact h.freed x
  · rw [hret] at he
    rw [ha.mem, placeSegs_pool]
    exact h.pools e he
  · simp [ha.closed.1] at hc

theorem AccountInv.alloc {pool : Nat} {p : Fin n} {m : RteMbuf n} (h : AccountInv s sh cs)
    (hstep : rxStep s (.alloc pool p m) = some t) : AccountInv t sh cs := by
  obtain ⟨hinv, hsegs, -⟩ := h.shape.alloc hstep
  have ha := rxStep_alloc hstep
  obtain ⟨-, hheld, hplaced, -, -, hclosed⟩ := ha.rest
  have hcount : ∀ x, t.returnedCount x = s.returnedCount x := fun x => by
    rw [returnedCount, ha.returned, returnedCount]
  refine ⟨hinv, fun x => ?_, fun x => ?_, fun e he => ?_, fun hc => ?_⟩
  · rw [hplaced, hcount, hsegs]
    exact h.returned x
  · rw [hcount, ha.freed]
    exact h.freed x
  · rw [ha.returned] at he
    rw [ha.pools]
    exact h.pools e he
  · rw [hheld]
    rw [hclosed] at hc
    exact h.closed hc

theorem AccountInv.others {chan : CommandChannel} {ready : Fifo (dataRingsSize - 1) Nat}
    {readable : Bool} (h : AccountInv s sh cs)
    (hstep : rxStep s (.others chan ready readable) = some t) : AccountInv t sh cs := by
  have hinv := h.shape.others hstep
  cases hstep
  exact ⟨hinv, h.returned, h.freed, h.pools, h.closed⟩

theorem AccountInv.receive {total : Nat} (h : AccountInv s sh cs)
    (hstep : rxStep s (.receive total) = some t) : ∃ sh' cs', AccountInv t sh' cs' := by
  have hopen : s.closed = false := by
    by_contra hc
    simp [rxStep, hc] at hstep
  rcases rxStep_receive h.shape hstep with
    ⟨rfl, rfl, rx, rfl, hmem, hsh, hq⟩ | ⟨r, rs, sh', cs', hr⟩
  · obtain ⟨hinv, hsegs⟩ := h.shape.receive_empty hmem hsh hq
    refine ⟨[], [], hinv, fun x => ?_, fun x => ?_, ?_, fun hc => ?_⟩
    · rw [hsegs]
      simpa only [returnedCount, hmem] using h.returned x
    · simpa only [returnedCount, hmem] using h.freed x
    · simpa only [hmem] using h.pools
    · simp [hopen] at hc
  · have hrel := hr.take.relinked
    have hcount : ∀ x, t.returnedCount x = s.returnedCount x := fun x => by
      rw [returnedCount, hrel.returned, returnedCount]
    refine ⟨sh', cs', hr.inv h.shape, fun x => ?_, fun x => ?_, fun e he => ?_, fun hc => ?_⟩
    · rw [hr.placed, hcount, h.returned x]
      simp only [hr.live_iff h.shape x]
    · rw [hcount, hrel.freed]
      exact h.freed x
    · rw [hrel.returned] at he
      rw [hrel.pool]
      exact h.pools e he
    · rw [hr.closed, hopen] at hc
      cases hc

theorem AccountInv.release {p : Fin n} (h : AccountInv s sh cs) (hok : FreesOnce s (.release p))
    (hstep : rxStep s (.release p) = some t) : AccountInv t sh cs := by
  obtain ⟨hapart, hpool⟩ := hok
  obtain ⟨pools, ht, hpools, hinv, hnd, hgone, hlive⟩ := h.shape.release hapart hstep
  have hmem : t.rx.mem = s.rx.mem.reclaimTo pools (s.toRelease p) := by rw [ht]
  have hcount : ∀ x, t.returnedCount x = (s.toRelease p).count x + s.returnedCount x := fun x => by
    rw [returnedCount, hmem, count_reclaimTo_returned, returnedCount]
  refine ⟨hinv, fun x => ?_, fun x => ?_, fun e he => ?_, fun hc => ?_⟩
  · have hplaced : t.placed = s.placed := by rw [ht]
    rw [hplaced, hcount, h.returned x]
    by_cases hx : x ∈ s.toRelease p
    · obtain ⟨hheld, hdead⟩ := hgone x hx
      rw [if_pos (mem_append_right _ hheld), if_neg hdead, count_eq_one_of_mem hnd hx]
      omega
    · rw [count_eq_zero_of_not_mem hx]
      simp only [hlive x hx]
      omega
  · rw [hcount, hmem, count_reclaimTo_freed, h.freed x]
  · rw [hmem, reclaimTo_pool]
    rw [hmem] at he
    rcases mem_append.mp he with he | he
    · obtain ⟨x, hx, rfl⟩ := List.mem_map.mp he
      rw [mem_reverse] at hx
      exact hpools _ (fun y hy => hpool y hy x hx) x hx
    · exact h.pools e he
  · have hclosed : s.closed = true := by rwa [ht] at hc
    have hnil := (h.closed hclosed).1
    simp [rxStep, hnil] at hstep

theorem RxInv.serviceClose_eq (h : RxInv s sh cs) (hok : FreesOnce s .close) :
    ∃ rx, serviceClose s.rx = some rx ∧ rx.mem = s.rx.mem.reclaim (cs.flatten ++ sh) ∧
      rx.sock.queued = [] ∧ rx.sock.shadow = none ∧ rx.sock.shadowNext = none := by
  obtain ⟨hchan, hcut⟩ := hok
  obtain ⟨b, pool, hpool⟩ := exists_cons_of_ne_nil hchan
  have hget : s.rx.chan.getFreeCommandBuf = some (b, { s.rx.chan with pool }) := by
    rw [CommandChannel.getFreeCommandBuf, hpool]
  obtain ⟨rx, hflush, hrest⟩ := flushRx_eq (s := { s.rx with
      chan := (CommandChannel.enqueueCommandBuf { s.rx.chan with pool } b
        (.close s.rx.ringsetIdx)).getD (CommandChannel.freeCommandBuf { s.rx.chan with pool } b) })
    h.shadow h.queued h.nodup (fun x hx => h.refcnt x (mem_append_left _ hx))
    (fun p hp => hcut p hp)
  exact ⟨rx, by simp only [serviceClose, hget, hflush], hrest⟩

theorem RxInv.close (h : RxInv s sh cs) (hok : FreesOnce s .close)
    (hstep : rxStep s .close = some t) :
    s.held = [] ∧ t.held = [] ∧ t.placed = s.placed ∧
      t.rx.mem = s.rx.mem.reclaim (cs.flatten ++ sh) ∧ RxInv t [] [] := by
  obtain ⟨rx, hclose, hmem, hq, hsh, hshn⟩ := h.serviceClose_eq hok
  simp only [rxStep] at hstep
  split at hstep
  · next hheld =>
    simp only [hclose, Option.map_some, Option.some.injEq] at hstep
    subst hstep
    have hpend : ∀ x ∈ cs.flatten ++ sh, x ∈ sh ++ cs.flatten ++ s.heldSegs := fun x hx =>
      mem_append_left _ (by
        rw [mem_append, or_comm, ← mem_append]
        exact hx)
    have hnil : ({ s with rx, closed := true } : RxSystem n).heldSegs = [] := by
      simp [heldSegs, hheld.1]
    refine ⟨hheld.1, hheld.1, rfl, hmem, ⟨?_, ?_, by simp, ?_, ?_, ?_, ?_, ?_⟩⟩
    · simp [ShadowLinked, hsh, hshn]
    · rw [hq]
      exact List.Forall₂.nil
    · simp [hheld.1]
    · simp [hnil]
    · simp [hnil]
    · intro e he
      refine ⟨by simp [hnil], ?_⟩
      rw [hmem] at he
      rcases mem_append.mp he with he | he
      · obtain ⟨x, hx, rfl⟩ := List.mem_map.mp he
        rw [mem_reverse] at hx
        exact h.outside x (hpend x hx)
      · exact (h.mempool e he).2
    · rw [hmem]
      simp only [reclaim, reclaimTo, map_append, List.map_map, Function.comp_def, List.map_id']
      refine nodup_append.mpr ⟨?_, h.mempool_nodup, ?_⟩
      · rw [nodup_reverse]
        exact nodup_append_comm.mp h.nodup
      · rintro x hx y hy rfl
        obtain ⟨e, he, rfl⟩ := List.mem_map.mp hy
        rw [mem_reverse] at hx
        exact (h.mempool e he).1 (hpend e.2 hx)
  · cases hstep

theorem AccountInv.close (h : AccountInv s sh cs) (hok : FreesOnce s .close)
    (hstep : rxStep s .close = some t) : AccountInv t [] [] := by
  obtain ⟨hheld, hheld', hplaced, hmem, hinv⟩ := h.shape.close hok hstep
  have hcount : ∀ x, t.returnedCount x = (cs.flatten ++ sh).count x + s.returnedCount x :=
    fun x => by
      rw [returnedCount, hmem, reclaim, count_reclaimTo_returned, returnedCount]
  have hnd : (cs.flatten ++ sh).Nodup := nodup_append_comm.mp h.shape.nodup
  refine ⟨hinv, fun x => ?_, fun x => ?_, fun e he => ?_, fun _ => ⟨hheld', rfl, rfl⟩⟩
  · have hempty : x ∉ [] ++ ([] : List (List (Fin n))).flatten ++ t.heldSegs := by
      simp [heldSegs, hheld']
    rw [hplaced, hcount, h.returned x, if_neg hempty]
    have hiff : x ∈ sh ++ cs.flatten ++ s.heldSegs ↔ x ∈ cs.flatten ++ sh := by
      simp only [heldSegs, hheld, flatMap_nil, append_nil, mem_append]
      exact or_comm
    by_cases hx : x ∈ cs.flatten ++ sh
    · rw [if_pos (hiff.mpr hx), count_eq_one_of_mem hnd hx]
      omega
    · rw [if_neg (mt hiff.mp hx), count_eq_zero_of_not_mem hx]
      omega
  · rw [hcount, hmem, reclaim, count_reclaimTo_freed, h.freed x]
  · rw [hmem, reclaim, reclaimTo_pool]
    rw [hmem] at he
    rcases mem_append.mp he with he | he
    · obtain ⟨x, hx, rfl⟩ := List.mem_map.mp he
      rfl
    · exact h.pools e he

theorem AccountInv.step {a : RxAction n} (h : ∃ sh cs, AccountInv s sh cs)
    (hok : FreesOnce s a) (hstep : rxStep s a = some t) : ∃ sh cs, AccountInv t sh cs := by
  obtain ⟨sh, cs, h⟩ := h
  cases a with
  | arrive segs => exact ⟨sh, _, h.arrive hstep⟩
  | alloc pool p m => exact ⟨sh, cs, h.alloc hstep⟩
  | others chan ready readable => exact ⟨sh, cs, h.others hstep⟩
  | receive total => exact h.receive hstep
  | release p => exact ⟨sh, cs, h.release hok hstep⟩
  | close => exact ⟨[], [], h.close hok hstep⟩

end Steps

/-- Exactly-once release, for the runs in which no release frees a segment that another held
chain contains and the close meets a cut shadow and a command buffer: no buffer is freed or
returned more often than it arrived, it goes back to its own pool, after the close all that
arrived has been returned, and the calls come to an end. -/
theorem returned_once {s₀ s : RxSystem n} {as : List (RxAction n)} (hinit : s₀.Initial)
    (hrun : Run rxStep FreesOnce s₀ as s) :
    (∀ x, s.returnedCount x ≤ s.placed.count x ∧ s.placed.count x ≤ s.returnedCount x + 1) ∧
      (∀ x, s.rx.mem.freed.count x = s.returnedCount x) ∧
      (∀ e ∈ s.rx.mem.returned, e.1 = (s.rx.mem.cell e.2).pool) ∧
      (s.closed = true → ∀ x, s.returnedCount x = s.placed.count x) ∧
      (∀ total, (serviceReceive s.rx total).isSome) ∧
      (∀ p ∈ s.held, (serviceReleaseRxBuffer s.rx p).isSome) ∧
      (FreesOnce s .close → (serviceClose s.rx).isSome) := by
  obtain ⟨sh, cs, h⟩ : ∃ sh cs, AccountInv s sh cs :=
    hrun.invariant (fun _ _ _ => AccountInv.step) ⟨[], [], AccountInv.of_initial hinit⟩
  refine ⟨fun x => ?_, h.freed, h.pools, fun hc x => ?_, fun total => ?_, fun p hp => ?_,
    fun hok => ?_⟩
  · have := h.returned x
    split at this <;> omega
  · obtain ⟨hheld, rfl, rfl⟩ := h.closed hc
    have hempty : x ∉ [] ++ ([] : List (List (Fin n))).flatten ++ s.heldSegs := by
      simp [RxSystem.heldSegs, hheld]
    have := h.returned x
    rw [if_neg hempty] at this
    omega
  · rcases serviceReceive_cases total h.shape.shadow h.shape.queued h.shape.nodup with
      ⟨-, -, rx, hres, -⟩ | ⟨r, rx, rs, sh', cs', hres, -⟩ <;> simp [hres]
  · obtain ⟨pools, hres, -⟩ := h.shape.serviceReleaseRxBuffer_eq hp
    simp [hres]
  · obtain ⟨rx, hres, -⟩ := h.shape.serviceClose_eq hok
    simp [hres]

theorem returned_once_read_release_close :
    ∃ s, Run rxStep FreesOnce (openedSocket 2)
        [.arrive [(0, segment [1, 2]), (1, segment [3, 4])], .receive 3, .release 0,
          .receive 0, .release 1, .close] s ∧
      (s.closed = true ∧ s.placed = [0, 1]) ∧ ∀ x, s.returnedCount x = s.placed.count x :=
  Run.exists_and_of_runActions (by decide +kernel) fun _ hrun hs =>
    (returned_once (openedSocket_initial 2) hrun).2.2.2.1 hs.1

/-- The chain of a first read ends in the kept segment; the second read continues from it. With
both chains released, the segment goes back twice, the second time out of the hands of whoever
allocated it in between. -/
theorem kept_segment_returned_twice :
    (openedSocket 2).Initial ∧
    ∃ s, Run rxStep (fun _ _ => True) (openedSocket 2)
        [.arrive [(0, segment [1, 2]), (1, segment [3, 4])], .receive 3, .receive 0,
          .release 0, .alloc 0 1 (segment []), .release 1] s ∧
      s.held = [] ∧ s.placed.count 1 = 1 ∧ s.returnedCount 1 = 2 ∧ s.outside 1 = true :=
  ⟨openedSocket_initial 2, Run.exists_of_runActions (by decide +kernel)⟩

end NetbsdDpdk
