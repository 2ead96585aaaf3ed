import NetbsdDpdk.ReceiveSystem

/-! The byte stream of a receiving socket: what the application has read, followed by what is
kept and waiting, is what the server has placed on the ring. -/

namespace NetbsdDpdk

open List

variable {n : Nat}

def RxSystem.pending (s : RxSystem n) (sh : List (Fin n)) (cs : List (List (Fin n))) :
    List UInt8 :=
  shadowBytes s.rx.mem s.rx.sock sh ++ s.rx.mem.bytes cs.flatten

structure StreamInv (s : RxSystem n) (sh : List (Fin n)) (cs : List (List (Fin n))) : Prop where
  shape : RxInv s sh cs
  shadowFits : ShadowFits s.rx.mem s.rx.sock sh
  segFits : ∀ x ∈ cs.flatten, SegFits s.rx.mem x
  stream : s.arrived = s.delivered ++ s.pending sh cs
  held : s.held.length ≤ 1

/-- The application reads only when it has released all it was given, and does not close. -/
def ReadsAfterRelease (s : RxSystem n) : RxAction n → Prop
  | .receive _ => s.held = []
  | .close => False
  | _ => True

/-- Every read that ends exactly on a segment end saves the right length and offset there. -/
def CutsRight (s : RxSystem n) : RxAction n → Prop
  | .receive total => ReadSafe s.rx total
  | _ => True

instance (s : RxSystem n) (a : RxAction n) : Decidable (ReadsAfterRelease s a) :=
  match a with
  | .receive _ => inferInstanceAs (Decidable (s.held = []))
  | .close => isFalse id
  | .arrive _ | .alloc _ _ _ | .others _ _ _ | .release _ => isTrue trivial

instance (s : RxSystem n) (a : RxAction n) : Decidable (CutsRight s a) :=
  match a with
  | .receive total => inferInstanceAs (Decidable (ReadSafe s.rx total))
  | .close | .arrive _ | .alloc _ _ _ | .others _ _ _ | .release _ => isTrue trivial

theorem StreamInv.of_initial {s : RxSystem n} (h : s.Initial) : StreamInv s [] [] where
  shape := RxInv.of_initial h
  shadowFits := trivial
  segFits := by simp
  stream := by simp [h.arrived, h.delivered, RxSystem.pending, shadowBytes, Memory.bytes]
  held := by simp [h.held]

section Steps

variable {s t : RxSystem n} {sh : List (Fin n)} {cs : List (List (Fin n))}

theorem StreamInv.pending_frame (h : StreamInv s sh cs) (hkept : s.rx.sock.SameKept t.rx.sock)
    (hcell : ∀ x ∈ sh ++ cs.flatten, t.rx.mem.cell x = s.rx.mem.cell x) :
    t.pending sh cs = s.pending sh cs ∧ ShadowFits t.rx.mem t.rx.sock sh ∧
      ∀ x ∈ cs.flatten, SegFits t.rx.mem x := by
  have hsh : ∀ x ∈ sh, t.rx.mem.cell x = s.rx.mem.cell x := fun x hx =>
    hcell x (mem_append_left _ hx)
  have hcs : ∀ x ∈ cs.flatten, t.rx.mem.cell x = s.rx.mem.cell x := fun x hx =>
    hcell x (mem_append_right _ hx)
  have hbytes : t.rx.mem.bytes cs.flatten = s.rx.mem.bytes cs.flatten :=
    Memory.bytes_congr fun x hx => by rw [hcs x hx]
  have hshadow : shadowBytes t.rx.mem t.rx.sock sh = shadowBytes s.rx.mem s.rx.sock sh := by
    rw [← shadowBytes_congr hsh]
    cases sh <;> simp [shadowBytes, hkept.delivered, hkept.remainder]
  refine ⟨by rw [RxSystem.pending, RxSystem.pending, hshadow, hbytes], ?_, fun x hx => ?_⟩
  · have hfits : ShadowFits t.rx.mem s.rx.sock sh := h.shadowFits.congr hsh
    cases sh with
    | nil => trivial
    | cons p ys => exact ⟨by rw [hkept.delivered, hkept.remainder]; exact hfits.1, hfits.2⟩
  · rw [SegFits, hcs x hx]
    exact h.segFits x hx

theorem StreamInv.arrive {segs : List (Fin n × RteMbuf n)} (h : StreamInv s sh cs)
    (hstep : rxStep s (.arrive segs) = some t) :
    StreamInv t sh (cs ++ [segs.map Prod.fst]) := by
  obtain ⟨hinv, -, hfresh⟩ := h.shape.arrive hstep
  have ha := rxStep_arrive hstep
  obtain ⟨hnd, hok⟩ := ha.ok
  obtain ⟨hpend, hsh, hcs⟩ := h.pending_frame ha.kept fun x hx => by
    rw [ha.mem]
    exact placeSegs_cell_of_notMem fun hx' => hfresh x hx' (mem_append_left _ hx)
  have hflat : (cs ++ [segs.map Prod.fst]).flatten = cs.flatten ++ segs.map Prod.fst := by simp
  refine ⟨hinv, hsh, fun x hx => ?_, ?_, by rw [ha.held]; exact h.held⟩
  · rw [hflat] at hx
    rcases mem_append.mp hx with hx | hx
    · exact hcs x hx
    · obtain ⟨e, he, rfl⟩ := List.mem_map.mp hx
      obtain ⟨next, hcell⟩ : ∃ next, (placeSegs s.rx.mem segs).cell e.1 = _ :=
        placeSegs_cell_of_mem hnd he
      rw [SegFits, ha.mem, hcell]
      exact (hok e he).2
  · have hnew : t.rx.mem.bytes (segs.map Prod.fst) = segs.flatMap fun x => x.2.data := by
      rw [ha.mem, placeSegs_bytes hnd]
    have hpend' : t.pending sh (cs ++ [segs.map Prod.fst]) =
        t.pending sh cs ++ segs.flatMap fun x => x.2.data := by
      rw [RxSystem.pending, hflat, Memory.bytes_append, hnew, ← append_assoc]
      rfl
    rw [hpend', hpend, ha.arrived, ha.delivered, h.stream, append_assoc]

theorem StreamInv.alloc {pool : Nat} {p : Fin n} {m : RteMbuf n} (h : StreamInv s sh cs)
    (hstep : rxStep s (.alloc pool p m) = some t) : StreamInv t sh cs := by
  obtain ⟨hinv, -, hlive⟩ := h.shape.alloc hstep
  have ha := rxStep_alloc hstep
  obtain ⟨hsock, hheld, -, harr, hdel, -⟩ := ha.rest
  obtain ⟨hpend, hsh, hcs⟩ := h.pending_frame (t := t) (by rw [hsock]; exact ⟨rfl, rfl, rfl, rfl⟩)
    fun x hx => ha.cell x (ne_of_mem_of_not_mem (mem_append_left _ hx) hlive)
  refine ⟨hinv, hsh, hcs, ?_, by rw [hheld]; exact h.held⟩
  rw [hpend, harr, hdel]
  exact h.stream

theorem StreamInv.others {chan : CommandChannel} {ready : Fifo (dataRingsSize - 1) Nat}
    {readable : Bool} (h : StreamInv s sh cs)
    (hstep : rxStep s (.others chan ready readable) = some t) : StreamInv t sh cs := by
  have hinv := h.shape.others hstep
  cases hstep
  exact ⟨hinv, h.shadowFits, h.segFits, h.stream, h.held⟩

theorem StreamInv.release {p : Fin n} (h : StreamInv s sh cs)
    (hstep : rxStep s (.release p) = some t) : StreamInv t sh cs := by
  -- with at most one chain held, a release cannot hit another chain
  have hp : p ∈ s.held := by
    by_contra hp
    simp [rxStep, hp] at hstep
  have herase : s.held.erase p = [] := by
    have hlen := length_erase_of_mem hp
    have := h.held
    exact eq_nil_of_length_eq_zero (by omega)
  have hapart : s.ReleaseApart p := by simp [RxSystem.ReleaseApart, herase]
  obtain ⟨pools, rfl, -, hinv, -, hgone, -⟩ := h.shape.release hapart hstep
  obtain ⟨hpend, hsh, hcs⟩ := h.pending_frame (t := { s with
    rx := { s.rx with mem := s.rx.mem.reclaimTo pools (s.toRelease p) }
    held := s.held.erase p }) ⟨rfl, rfl, rfl, rfl⟩ fun x hx =>
      Memory.reclaimTo_cell_of_notMem s.rx.mem fun hx' =>
        (hgone x hx').2 (mem_append_left _ hx)
  exact ⟨hinv, hsh, hcs, by rw [hpend]; exact h.stream, by simp [herase]⟩

theorem StreamInv.receive {total : Nat} (h : StreamInv s sh cs) (hheld : s.held = [])
    (hsafe : ReadSafe s.rx total) (hstep : rxStep s (.receive total) = some t) :
    ∃ sh' cs', StreamInv t sh' cs' := by
  rcases rxStep_receive h.shape hstep with
    ⟨rfl, rfl, rx, rfl, hmem, hsh, hq⟩ | ⟨r, rs, sh', cs', hr⟩
  · obtain ⟨hinv, -⟩ := h.shape.receive_empty hmem hsh hq
    refine ⟨[], [], hinv, trivial, by simp, ?_, h.held⟩
    simpa [RxSystem.pending, shadowBytes, Memory.bytes] using h.stream
  · obtain ⟨hbytes, hfits⟩ := hr.take.bytes ⟨h.shadowFits, h.segFits, hsafe⟩
    refine ⟨sh', cs', hr.inv h.shape, hfits, fun x hx => ?_, ?_, by simp [hr.held, hheld]⟩
    · have hx' : x ∉ rs := by
        obtain ⟨as, bs, hrs, hbs, hpend, hdisj⟩ := hr.returned h.shape.nodup
        have hnd := (nodup_append.mp (hr.inv h.shape).nodup)
        intro hx'
        rw [hrs] at hx'
        rcases mem_append.mp hx' with hx' | hx'
        · exact hdisj x hx' (mem_append_right _ hx)
        · rcases hbs with rfl | ⟨t₀, rfl, hshadow⟩
          · simp at hx'
          · rw [mem_singleton.mp hx'] at hx
            rw [hr.take.shadow.shadow_eq] at hshadow
            exact hnd.2.2 t₀ (mem_of_mem_head? hshadow) t₀ hx rfl
      have hx'' : x ∈ cs.flatten := by
        obtain ⟨ds, hds⟩ := hr.rest
        rw [← hds, flatten_append]
        exact mem_append_right _ hx
      rw [SegFits, hr.take.frame x hx']
      exact h.segFits x hx''
    · rw [hr.arrived, hr.delivered, append_assoc, RxSystem.pending, hbytes]
      exact h.stream

end Steps

theorem StreamInv.step {s t : RxSystem n} {a : RxAction n}
    (h : ∃ sh cs, StreamInv s sh cs) (hok : ReadsAfterRelease s a ∧ CutsRight s a)
    (hstep : rxStep s a = some t) : ∃ sh cs, StreamInv t sh cs := by
  obtain ⟨sh, cs, h⟩ := h
  cases a with
  | arrive segs => exact ⟨sh, _, h.arrive hstep⟩
  | alloc pool p m => exact ⟨sh, cs, h.alloc hstep⟩
  | others chan ready readable => exact ⟨sh, cs, h.others hstep⟩
  | receive total => exact h.receive hok.1 hok.2 hstep
  | release p => exact ⟨sh, cs, h.release hstep⟩
  | close => exact hok.1.elim

/-- Receive-stream integrity, for the runs in which no read ends exactly on a segment end with a
wrong length saved for the segments behind it: what was delivered is always the front of what
arrived, every further read returns, and once one returns `-1` everything was delivered. -/
theorem delivered_prefix_arrived {s₀ s : RxSystem n} {as : List (RxAction n)}
    (hinit : s₀.Initial)
    (hrun : Run rxStep (fun s a => ReadsAfterRelease s a ∧ CutsRight s a) s₀ as s) :
    s.delivered <+: s.arrived ∧ ∀ total, ∃ r rx, serviceReceive s.rx total = some (r, rx) ∧
      (r = none → s.delivered = s.arrived) := by
  obtain ⟨sh, cs, h⟩ : ∃ sh cs, StreamInv s sh cs :=
    hrun.invariant (fun _ _ _ => StreamInv.step) ⟨[], [], StreamInv.of_initial hinit⟩
  refine ⟨⟨s.pending sh cs, h.stream.symm⟩, fun total => ?_⟩
  rcases serviceReceive_cases total h.shape.shadow h.shape.queued h.shape.nodup with
    ⟨rfl, rfl, rx, hres, -⟩ | ⟨r, rx, rs, sh', cs', hres, -⟩
  · refine ⟨none, rx, hres, fun _ => ?_⟩
    have hstream := h.stream
    simp only [RxSystem.pending, shadowBytes, List.flatten_nil, Memory.bytes, List.flatMap_nil,
      List.append_nil] at hstream
    exact hstream.symm
  · exact ⟨some r, rx, hres, fun hr => absurd hr (Option.some_ne_none r)⟩

def openedSocket (n : Nat) : RxSystem n where
  rx := {
    mem := { cell := fun _ => {} }
    sock := {}
    ringsetIdx := 0
    readReadyToApp := false
    readyConnections := Fifo.empty
    chan := ⟨[0, 1, 2, 3], Fifo.empty⟩ }
  held := []
  outside := fun _ => true
  placed := []
  arrived := []
  delivered := []
  closed := false

theorem openedSocket_initial (n : Nat) : (openedSocket n).Initial :=
  ⟨rfl, rfl, rfl, rfl, rfl, rfl, rfl, rfl, rfl, rfl, nodup_nil, fun _ he => nomatch he⟩

def segment (bs : List UInt8) : RteMbuf n :=
  { buf := fun k => bs.getD k 0, dataLen := bs.length, pktLen := bs.length }

theorem delivered_prefix_arrived_cut_inside :
    ∃ s, Run rxStep (fun s a => ReadsAfterRelease s a ∧ CutsRight s a) (openedSocket 2)
        [.arrive [(0, segment [1, 2]), (1, segment [3, 4])], .receive 3, .release 0,
          .receive 0] s ∧ s.delivered = [1, 2, 3, 4] ∧ s.delivered <+: s.arrived :=
  Run.exists_and_of_runActions (by decide +kernel) fun _ hrun _ =>
    (delivered_prefix_arrived (openedSocket_initial 2) hrun).1

theorem read_to_segment_end_loses_rest :
    (openedSocket 2).Initial ∧
    ∃ s, Run rxStep ReadsAfterRelease (openedSocket 2)
        [.arrive [(0, segment [1, 2]), (1, segment [3])], .receive 2, .release 0,
          .receive 1, .release 1] s ∧
      s.arrived = [1, 2, 3] ∧ s.delivered = [1, 2] ∧
      (serviceReceive s.rx 1).map (fun r => r.1.isNone) = some true :=
  ⟨openedSocket_initial 2, Run.exists_of_runActions (by decide +kernel)⟩

end NetbsdDpdk
