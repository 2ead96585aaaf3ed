import NetbsdDpdk.ReceiveCall

/-! The receive ring of a slot and the local cache of its application as one queue: what the
server puts in comes out in order, with nothing left out. -/

namespace NetbsdDpdk

open List

open ServiceState (refillRings)

structure RxResult where
  mbuf : Option RxItem
  sawEmpty : Bool
  deriving DecidableEq

/-- The two rings with the call under way. `enqueued`, `results` and `sawEmpty` are histories. -/
structure RxFifo where
  call : RxCall := {}
  sawEmpty : Bool := false
  enqueued : List RxItem := []
  results : List RxResult := []

namespace RxCall

def inHand (c : RxCall) : Option RxItem :=
  match c.pc with
  | .idle => none
  | .popped mbuf | .cleared mbuf | .counted mbuf | .refilled mbuf | .taken mbuf => mbuf

def content (c : RxCall) : List RxItem := c.inHand.toList ++ c.cache.items ++ c.rx.items

def LooksAtRx (c : RxCall) : Prop :=
  match c.pc with
  | .cleared _ | .counted _ => True
  | _ => False

instance (c : RxCall) : Decidable c.LooksAtRx := by
  unfold LooksAtRx
  rcases c.pc <;> infer_instance

theorem popCache_items (c : RxCall) :
    c.popCache.1.toList ++ c.popCache.2.items = c.cache.items := by
  unfold popCache
  cases hpop : c.cache.dequeue with
  | none => rfl
  | some p =>
    obtain ⟨x, rest⟩ := p
    have hitems := Fifo.dequeue_eq_some_iff.mp hpop
    simp [hitems]

theorem refillRings_items (cache : Fifo 63 RxItem) (rx : Fifo (dataRingsSize - 1) RxItem) :
    (refillRings cache rx).1.items ++ (refillRings cache rx).2.items = cache.items ++ rx.items := by
  simp only [refillRings]
  generalize hroom : (if cache.freeCount > maxPktBurst then maxPktBurst else cache.freeCount) = room
  have hle : room ≤ cache.freeCount := by
    rw [← hroom]
    split <;> omega
  have hfit : (rx.items.take room).length ≤ cache.freeCount := by
    have htake := length_take_le room rx.items
    omega
  rw [Fifo.dequeueBurst_fst, Fifo.enqueueBurst_items_of_le hfit, Fifo.dequeueBurst_snd_items,
    append_assoc, take_append_drop]

theorem content_advance {c : RxCall} (hpc : ∀ mbuf, c.pc ≠ .taken mbuf) :
    c.advance.content = c.content := by
  obtain ⟨pc, cache, rx⟩ := c
  match pc with
  | .idle =>
    have hpop := popCache_items ⟨.idle, cache, rx⟩
    simp [content, inHand, advance, hpop]
  | .popped mbuf => rfl
  | .cleared mbuf =>
    by_cases hcount : 0 < rx.count
    · simp [content, inHand, advance, hcount]
    · simp [content, inHand, advance, hcount]
  | .counted mbuf =>
    have hrefill := refillRings_items cache rx
    simp [content, inHand, advance, hrefill]
  | .refilled none =>
    have hpop := popCache_items ⟨.refilled none, cache, rx⟩
    simp [content, inHand, advance, hpop]
  | .refilled (some x) => rfl
  | .taken mbuf => exact absurd rfl (hpc mbuf)

theorem looksAtRx_of_sawEmpty {c : RxCall} (hknows : c.Knows) (h : c.advance.SawEmpty) :
    c.SawEmpty ∨ c.LooksAtRx ∧ c.rx.items = [] := by
  by_cases hlooks : c.LooksAtRx
  · exact (sawEmpty_advance hknows h).2.imp_right fun hnil => ⟨hlooks, hnil⟩
  · -- only the second pop is left: what the call knows then it knew before
    left
    obtain ⟨pc, cache, rx⟩ := c
    match pc with
    | .cleared _ | .counted _ => exact absurd trivial hlooks
    | .refilled none =>
      cases hpop : cache.dequeue with
      | none => exact Fifo.dequeue_eq_none_iff.mp hpop
      | some p => simp [advance, SawEmpty, popCache, hpop] at h

theorem content_enqueue {c : RxCall} {x : RxItem} {rx : Fifo (dataRingsSize - 1) RxItem}
    (hrx : rx.items = c.rx.items ++ [x]) : RxCall.content { c with rx } = c.content ++ [x] := by
  simp [content, inHand, hrx]

end RxCall

namespace RxFifo

def returned (s : RxFifo) : List RxItem := s.results.filterMap RxResult.mbuf

def advance (s : RxFifo) : RxFifo where
  call := s.call.advance
  sawEmpty :=
    if s.call.pc = .idle then false
    else s.sawEmpty || (decide s.call.LooksAtRx && s.call.rx.items.isEmpty)
  enqueued := s.enqueued
  results :=
    match s.call.pc with
    | .taken mbuf => s.results ++ [⟨mbuf, s.sawEmpty⟩]
    | _ => s.results

end RxFifo

inductive FifoAction
  | enqueue (x : RxItem)
  | advance

def fifoStep (s : RxFifo) : FifoAction → Option RxFifo
  | .enqueue x => do
    let rx ← s.call.rx.enqueue x
    return { s with call := { s.call with rx }, enqueued := s.enqueued ++ [x] }
  | .advance => some s.advance

structure FifoInv (s : RxFifo) : Prop where
  knows : s.call.Knows
  order : s.enqueued = s.returned ++ s.call.content
  empty : s.call.SawEmpty → s.sawEmpty = true
  null : ∀ r ∈ s.results, r.mbuf = none → r.sawEmpty = true

namespace FifoInv

variable {s t : RxFifo}

theorem returned_advance (s : RxFifo) :
    s.advance.returned ++ s.advance.call.content = s.returned ++ s.call.content := by
  by_cases htaken : ∃ mbuf, s.call.pc = .taken mbuf
  · obtain ⟨mbuf, hpc⟩ := htaken
    have hresults : s.advance.results = s.results ++ [⟨mbuf, s.sawEmpty⟩] := by
      simp [RxFifo.advance, hpc]
    have hcall : s.call.advance = { s.call with pc := .idle } := by simp [RxCall.advance, hpc]
    have hcontent : s.call.content = mbuf.toList ++ s.call.advance.content := by
      simp [hcall, RxCall.content, RxCall.inHand, hpc]
    have hfilter : [(⟨mbuf, s.sawEmpty⟩ : RxResult)].filterMap RxResult.mbuf = mbuf.toList := by
      cases mbuf <;> rfl
    rw [RxFifo.returned, hresults, filterMap_append, hfilter, hcontent, append_assoc]
    rfl
  · have hpc : ∀ mbuf, s.call.pc ≠ .taken mbuf := fun mbuf h => htaken ⟨mbuf, h⟩
    have hresults : s.advance.results = s.results := by
      simp only [RxFifo.advance]
    rw [RxFifo.returned, hresults]
    exact congrArg (s.returned ++ ·) (RxCall.content_advance hpc)

theorem empty_advance (h : FifoInv s) (hempty : s.advance.call.SawEmpty) :
    s.advance.sawEmpty = true := by
  have hidle : s.call.pc ≠ .idle := by
    intro hpc
    simp [RxFifo.advance, RxCall.advance, RxCall.SawEmpty, hpc] at hempty
  rcases RxCall.looksAtRx_of_sawEmpty h.knows hempty with hsaw | ⟨hlooks, hnil⟩
  · simp [RxFifo.advance, hidle, h.empty hsaw]
  · simp [RxFifo.advance, hidle, hlooks, hnil]

theorem null_advance (h : FifoInv s) :
    ∀ r ∈ s.advance.results, r.mbuf = none → r.sawEmpty = true := by
  intro r hr hmbuf
  simp only [RxFifo.advance] at hr
  split at hr
  · next mbuf hpc =>
    rcases mem_append.mp hr with hold | hnew
    · exact h.null r hold hmbuf
    · obtain rfl : r = ⟨mbuf, s.sawEmpty⟩ := by simpa using hnew
      have hsaw : s.call.SawEmpty := by
        cases hmbuf
        simp [RxCall.SawEmpty, hpc]
      exact h.empty hsaw
  · exact h.null r hr hmbuf

theorem advance (h : FifoInv s) : FifoInv s.advance where
  knows := h.knows.advance
  order := h.order.trans (returned_advance s).symm
  empty := h.empty_advance
  null := h.null_advance

theorem enqueue {x : RxItem} {rx : Fifo (dataRingsSize - 1) RxItem} (h : FifoInv s)
    (hrx : s.call.rx.enqueue x = some rx) :
    FifoInv { s with call := { s.call with rx }, enqueued := s.enqueued ++ [x] } := by
  have hitems := (Fifo.enqueue_eq_some_iff.mp hrx).2
  refine ⟨h.knows.enqueue hitems, ?_, h.empty, h.null⟩
  show s.enqueued ++ [x] = s.returned ++ RxCall.content { s.call with rx }
  rw [RxCall.content_enqueue hitems, h.order, append_assoc]

theorem step {a : FifoAction} (h : FifoInv s) (hstep : fifoStep s a = some t) : FifoInv t := by
  cases a with
  | enqueue x =>
    obtain ⟨rx, hrx, rfl⟩ := looked_eq_some.mp hstep
    exact h.enqueue hrx
  | advance =>
    cases hstep
    exact h.advance

theorem start : FifoInv {} :=
  ⟨trivial, rfl, fun h => h.elim, fun r hr => by cases hr⟩

end FifoInv

/-- Buffers are returned in the order they were enqueued, none lost or repeated, and a call returns
none only if it saw the ring empty. -/
theorem rxFifo_of_run {s : RxFifo} {as : List FifoAction}
    (hrun : Run fifoStep (fun _ _ => True) {} as s) :
    s.returned <+: s.enqueued ∧
      s.enqueued = s.returned ++ s.call.inHand.toList ++ s.call.cache.items ++ s.call.rx.items ∧
      (s.call.pc = .idle → s.enqueued = s.returned ++ s.call.cache.items ++ s.call.rx.items) ∧
      ∀ r ∈ s.results, r.mbuf = none → r.sawEmpty = true := by
  have h : FifoInv s := hrun.invariant (fun _ _ _ h _ hstep => h.step hstep) FifoInv.start
  have horder : s.enqueued =
      s.returned ++ s.call.inHand.toList ++ s.call.cache.items ++ s.call.rx.items := by
    rw [h.order, RxCall.content]
    simp only [List.append_assoc]
  refine ⟨⟨s.call.content, h.order.symm⟩, horder, fun hidle => ?_, h.null⟩
  have hhand : s.call.inHand = none := by simp [RxCall.inHand, hidle]
  simpa [hhand] using horder

theorem rxFifo_of_run_drained : ∃ s,
    Run fifoStep (fun _ _ => True) {}
      ([.enqueue (.data ⟨1, 0⟩), .advance, .enqueue (.data ⟨2, 0⟩)] ++
        List.replicate 5 .advance ++ [.enqueue (.data ⟨3, 0⟩)] ++ List.replicate 16 .advance) s ∧
      s.results.map RxResult.mbuf =
        [some (.data ⟨1, 0⟩), some (.data ⟨2, 0⟩), some (.data ⟨3, 0⟩), none] ∧
      s.returned <+: s.enqueued :=
  Run.exists_and_of_runActions (by decide +kernel) fun _ hrun _ => (rxFifo_of_run hrun).1

end NetbsdDpdk
