import NetbsdDpdk.ReceiveCall

/-! Readable events of one connection. The server puts a buffer on the receive ring and then raises
`read_ready_to_app`, with an event for the selector if the flag was clear; the application clears
the flag and then looks at the ring. Whatever comes between these steps, data that waits is data
that the application will ask for. -/

namespace NetbsdDpdk

section Watermark

variable {cap : Nat} {α : Type}

def enobufs : Int := 105

def edquot : Int := 122

/-- The ring has `cap + 1` entries, one of which stays free. -/
def spEnqueueBulk (watermark : Nat) (q : Fifo cap α) (x : α) : Int × Fifo cap α :=
  match q.enqueue x with
  | none => (-enobufs, q)
  | some r => (if cap + 1 - q.freeCount + 1 > watermark then -edquot else 0, r)

theorem spEnqueueBulk_ne_zero (q : Fifo cap α) (x : α) : (spEnqueueBulk 1 q x).1 ≠ 0 := by
  have hfree : q.freeCount ≤ cap := Nat.sub_le _ _
  unfold spEnqueueBulk
  split
  · simp [enobufs]
  · rw [if_pos (by omega)]
    simp [edquot]

theorem spEnqueueBulk_items (watermark : Nat) (q : Fifo cap α) (x : α) :
    (spEnqueueBulk watermark q x).2 = q ∨
      (spEnqueueBulk watermark q x).2.items = q.items ++ [x] := by
  unfold spEnqueueBulk
  split
  · exact .inl rfl
  · next r hr => exact .inr (Fifo.enqueue_eq_some_iff.mp hr).2

end Watermark

inductive MarkPc
  | idle
  | marking (submitted : Bool)
  | announcing (submitted : Bool)
  deriving DecidableEq

inductive ReadyEntry
  | readable
  | other
  deriving DecidableEq

/-- `noticed` and `returned` are not in the code: the application has taken a READABLE event and no
`service_dequeue_rx_buf` has returned since, and the last one to return gave a buffer. -/
structure WakeupState where
  call : RxCall := {}
  readReadyToApp : Bool := false
  events : List ReadyEntry := []
  server : MarkPc := .idle
  noticed : Bool := false
  returned : Bool := false

inductive WakeupAction
  | submit (mbuf : RxItem)
  | markReadable
  | testAndSet
  | announce
  | otherEvent
  | select
  | receive

/-- One step of the server, of other connections on the selector, or of the application, which is in
one of its two functions at a time. -/
def wakeupStep (s : WakeupState) : WakeupAction → Option WakeupState
  | .submit mbuf => do
    guard (s.server = .idle)
    let enqueued := spEnqueueBulk 1 s.call.rx mbuf
    return { s with
      call := { s.call with rx := enqueued.2 }
      server := if enqueued.1 ≠ 0 then .marking true else .idle }
  | .markReadable => do
    guard (s.server = .idle)
    return { s with server := .marking false }
  | .testAndSet =>
    match s.server with
    | .marking submitted =>
      if s.readReadyToApp then some { s with server := .idle }
      else some { s with readReadyToApp := true, server := .announcing submitted }
    | _ => none
  | .announce =>
    match s.server with
    | .announcing _ => some { s with events := s.events ++ [.readable], server := .idle }
    | _ => none
  | .otherEvent => some { s with events := s.events ++ [.other] }
  | .select =>
    match s.call.pc, s.events with
    | .idle, e :: es => some { s with events := es, noticed := s.noticed || e = .readable }
    | _, _ => none
  | .receive =>
    match s.call.pc with
    | .popped _ => some { s with call := s.call.advance, readReadyToApp := false }
    | .taken mbuf =>
      some { s with call := s.call.advance, noticed := false, returned := mbuf.isSome }
    | _ => some { s with call := s.call.advance }

namespace WakeupState

def Settled (s : WakeupState) : Prop :=
  s.server ≠ .marking true ∧ s.server ≠ .announcing true

def Waiting (s : WakeupState) : Prop := s.call.rx.items ≠ [] ∨ s.call.cache.items ≠ []

/-- Data that waits is announced, noticed, or left by a call that returned a buffer. -/
def ReadableKept (s : WakeupState) : Prop :=
  s.Settled → s.Waiting → .readable ∈ s.events ∨ s.noticed = true ∨ s.returned = true

def ToClear (s : WakeupState) : Prop :=
  match s.call.pc with
  | .idle | .popped _ => True
  | _ => False

end WakeupState

structure WakeupInv (s : WakeupState) : Prop where
  knows : s.call.Knows
  flag : s.readReadyToApp = true →
    .readable ∈ s.events ∨ (∃ b, s.server = .announcing b) ∨ (s.noticed = true ∧ s.ToClear)
  overlooked : s.call.SawEmpty → s.Settled → s.call.rx.items ≠ [] → .readable ∈ s.events
  kept : s.ReadableKept

namespace WakeupInv

variable {s t : WakeupState}

theorem start : WakeupInv {} where
  knows := trivial
  flag h := by simp at h
  overlooked h := h.elim
  kept _ hwait := by simp [WakeupState.Waiting] at hwait

theorem submit (h : WakeupInv s) (hserver : s.server = .idle) (x : RxItem) :
    WakeupInv { s with
      call := { s.call with rx := (spEnqueueBulk 1 s.call.rx x).2 }
      server := .marking true } where
  knows := by
    rcases spEnqueueBulk_items 1 s.call.rx x with hsame | hmore
    · rw [hsame]
      exact h.knows
    · exact h.knows.enqueue hmore
  flag hflag := (h.flag hflag).imp_right fun hor => hor.imp_left fun ⟨b, hb⟩ => by
    rw [hserver] at hb
    cases hb
  overlooked _ hset := absurd rfl hset.1
  kept hset := absurd rfl hset.1

theorem suppressed (h : WakeupInv s) {b : Bool} (hserver : s.server = .marking b)
    (hup : s.readReadyToApp = true) : WakeupInv { s with server := .idle } := by
  -- a flag that is up already stands for an event, so that the mark has nothing to do
  have hflag : .readable ∈ s.events ∨ (s.noticed = true ∧ s.ToClear) := by
    rcases h.flag hup with hevent | ⟨b', hb'⟩ | htaken
    · exact .inl hevent
    · rw [hserver] at hb'
      cases hb'
    · exact .inr htaken
  refine ⟨h.knows, fun _ => hflag.imp_right .inr, fun hsaw _ hrx => ?_, fun _ _ => ?_⟩
  · rcases hflag with hevent | ⟨-, hclear⟩
    · exact hevent
    · -- a call that has seen both rings empty cleared the flag before it looked
      exfalso
      revert hsaw hclear
      cases hpc : s.call.pc <;> simp [WakeupState.ToClear, RxCall.SawEmpty, hpc]
  · exact hflag.imp_right fun htaken => .inl htaken.1

theorem raised (h : WakeupInv s) {b : Bool} (hserver : s.server = .marking b) :
    WakeupInv { s with readReadyToApp := true, server := .announcing b } := by
  have hset : WakeupState.Settled { s with readReadyToApp := true, server := .announcing b } →
      s.Settled := by
    rintro ⟨-, hb⟩
    cases b
    · simp [WakeupState.Settled, hserver]
    · exact absurd rfl hb
  exact ⟨h.knows, fun _ => .inr (.inl ⟨b, rfl⟩), fun hsaw hs => h.overlooked hsaw (hset hs),
    fun hs => h.kept (hset hs)⟩

theorem announce (h : WakeupInv s) :
    WakeupInv { s with events := s.events ++ [.readable], server := .idle } where
  knows := h.knows
  flag _ := .inl (by simp)
  overlooked _ _ _ := by simp
  kept _ _ := .inl (by simp)

theorem otherEvent (h : WakeupInv s) : WakeupInv { s with events := s.events ++ [.other] } where
  knows := h.knows
  flag hflag := (h.flag hflag).imp_left (List.mem_append_left _)
  overlooked hsaw hset hrx := List.mem_append_left _ (h.overlooked hsaw hset hrx)
  kept hset hwait := (h.kept hset hwait).imp_left (List.mem_append_left _)

theorem select (h : WakeupInv s) {e : ReadyEntry} {es : List ReadyEntry}
    (hpc : s.call.pc = .idle) (hevents : s.events = e :: es) :
    WakeupInv { s with events := es, noticed := s.noticed || e = .readable } := by
  have hmem : .readable ∈ s.events →
      .readable ∈ es ∨ (s.noticed || decide (e = .readable)) = true := by
    intro hmem
    rw [hevents] at hmem
    rcases List.mem_cons.mp hmem with rfl | hrest
    · exact .inr (by simp)
    · exact .inl hrest
  have hclear : s.ToClear := by simp [WakeupState.ToClear, hpc]
  refine ⟨h.knows, fun hflag => ?_, fun hsaw => ?_, fun hset hwait => ?_⟩
  · rcases h.flag hflag with hevent | hann | ⟨htaken, -⟩
    · exact (hmem hevent).imp_right fun hn => .inr ⟨hn, hclear⟩
    · exact .inr (.inl hann)
    · exact .inr (.inr ⟨by simp [htaken], hclear⟩)
  · simp [RxCall.SawEmpty, hpc] at hsaw
  · rcases h.kept hset hwait with hevent | htaken | hret
    · exact (hmem hevent).imp_right .inl
    · exact .inr (.inl (by simp [htaken]))
    · exact .inr (.inr hret)

theorem waiting_of_advance
    (hwait : s.call.advance.rx.items ≠ [] ∨ s.call.advance.cache.items ≠ []) : s.Waiting := by
  by_contra hnone
  obtain ⟨hrx, hcache⟩ := not_or.mp hnone
  obtain ⟨hrx', hcache'⟩ := RxCall.advance_of_nil (not_not.mp hrx) (not_not.mp hcache)
  exact hwait.elim (absurd hrx') (absurd hcache')

theorem receive (h : WakeupInv s)
    (hclear : s.ToClear → WakeupState.ToClear { s with call := s.call.advance }) :
    WakeupInv { s with call := s.call.advance } where
  knows := h.knows.advance
  flag hflag := (h.flag hflag).imp_right (Or.imp_right fun htaken => ⟨htaken.1, hclear htaken.2⟩)
  overlooked hsaw hset hrx := by
    obtain ⟨hsame, hsaw | hnil⟩ := RxCall.sawEmpty_advance h.knows hsaw
    · exact h.overlooked hsaw hset (hsame ▸ hrx)
    · exact absurd (hsame ▸ hnil) hrx
  kept hset hwait := h.kept hset (waiting_of_advance hwait)

theorem clear (h : WakeupInv s) {mbuf : Option RxItem} (hpc : s.call.pc = .popped mbuf) :
    WakeupInv { s with call := s.call.advance, readReadyToApp := false } where
  knows := h.knows.advance
  flag hflag := by simp at hflag
  overlooked hsaw := by simp [RxCall.SawEmpty, RxCall.advance, hpc] at hsaw
  kept hset hwait := h.kept hset (waiting_of_advance hwait)

theorem finish (h : WakeupInv s) {mbuf : Option RxItem} (hpc : s.call.pc = .taken mbuf) :
    WakeupInv { s with
      call := s.call.advance, noticed := false, returned := mbuf.isSome } := by
  -- the call returns. If it returns NULL, what is on the ring came after it had looked, and is
  -- announced
  have hadvance : s.call.advance = { s.call with pc := .idle } := by simp [RxCall.advance, hpc]
  refine ⟨h.knows.advance, fun hflag => ?_, fun hsaw => ?_, fun hset hwait => ?_⟩
  · rcases h.flag hflag with hevent | hann | ⟨-, hclear⟩
    · exact .inl hevent
    · exact .inr (.inl hann)
    · simp [WakeupState.ToClear, hpc] at hclear
  · simp [RxCall.SawEmpty, hadvance] at hsaw
  · cases mbuf with
    | some x => exact .inr (.inr rfl)
    | none =>
      have hsaw : s.call.SawEmpty := by simp [RxCall.SawEmpty, hpc]
      rcases waiting_of_advance hwait with hrx | hcache
      · exact .inl (h.overlooked hsaw hset hrx)
      · exact absurd (hsaw.cache h.knows) hcache

theorem step {a : WakeupAction} (h : WakeupInv s) (hstep : wakeupStep s a = some t) :
    WakeupInv t := by
  cases a with
  | submit mbuf =>
    obtain ⟨hserver, rfl⟩ := guarded_eq_some.mp hstep
    rw [if_pos (spEnqueueBulk_ne_zero s.call.rx mbuf)]
    exact h.submit hserver mbuf
  | markReadable =>
    obtain ⟨hserver, rfl⟩ := guarded_eq_some.mp hstep
    have hset : s.Settled := by simp [WakeupState.Settled, hserver]
    exact ⟨h.knows, fun hflag => (h.flag hflag).imp_right (Or.imp_left fun ⟨b, hb⟩ => by
      rw [hserver] at hb
      cases hb), fun hsaw _ => h.overlooked hsaw hset, fun _ => h.kept hset⟩
  | testAndSet =>
    cases hserver : s.server with
    | marking b =>
      by_cases hup : s.readReadyToApp = true
      · obtain rfl : { s with server := .idle } = t := by
          simpa [wakeupStep, hserver, hup] using hstep
        exact h.suppressed hserver hup
      · obtain rfl : { s with readReadyToApp := true, server := .announcing b } = t := by
          simpa [wakeupStep, hserver, hup] using hstep
        exact h.raised hserver
    | idle => simp [wakeupStep, hserver] at hstep
    | announcing b => simp [wakeupStep, hserver] at hstep
  | announce =>
    cases hserver : s.server with
    | announcing b =>
      obtain rfl : { s with events := s.events ++ [.readable], server := .idle } = t := by
        simpa [wakeupStep, hserver] using hstep
      exact h.announce
    | idle => simp [wakeupStep, hserver] at hstep
    | marking b => simp [wakeupStep, hserver] at hstep
  | otherEvent =>
    cases hstep
    exact h.otherEvent
  | select =>
    cases hpc : s.call.pc with
    | idle =>
      cases hevents : s.events with
      | nil => simp [wakeupStep, hpc, hevents] at hstep
      | cons e es =>
        obtain rfl : { s with events := es, noticed := s.noticed || e = .readable } = t := by
          simpa [wakeupStep, hpc, hevents] using hstep
        exact h.select hpc hevents
    | popped _ | cleared _ | counted _ | refilled _ | taken _ => simp [wakeupStep, hpc] at hstep
  | receive =>
    cases hpc : s.call.pc with
    | popped mbuf =>
      obtain rfl : { s with call := s.call.advance, readReadyToApp := false } = t := by
        simpa [wakeupStep, hpc] using hstep
      exact h.clear hpc
    | taken mbuf =>
      obtain rfl : { s with
          call := s.call.advance, noticed := false, returned := mbuf.isSome } = t := by
        simpa [wakeupStep, hpc] using hstep
      exact h.finish hpc
    | idle =>
      obtain rfl : { s with call := s.call.advance } = t := by simpa [wakeupStep, hpc] using hstep
      exact h.receive fun _ => by simp [WakeupState.ToClear, RxCall.advance, hpc]
    | cleared _ | counted _ | refilled _ =>
      obtain rfl : { s with call := s.call.advance } = t := by simpa [wakeupStep, hpc] using hstep
      exact h.receive fun hclear => by simp [WakeupState.ToClear, hpc] at hclear

end WakeupInv

/-- Data that waits on the receive ring is announced, noticed or behind a buffer just returned. -/
theorem readableKept_of_run {s : WakeupState} {as : List WakeupAction}
    (hrun : Run wakeupStep (fun _ _ => True) {} as s) : s.ReadableKept :=
  (hrun.invariant (I := WakeupInv) (fun _ _ _ h _ hstep => h.step hstep) WakeupInv.start).kept

theorem readableKept_of_run_suppressed : ∃ s,
    Run wakeupStep (fun _ _ => True) {}
      [.submit (.data ⟨1, 0⟩), .testAndSet, .announce, .select, .receive,
        .submit (.data ⟨2, 0⟩), .testAndSet, .receive, .receive, .receive, .receive, .receive] s ∧
      (s.call.cache.items = [.data ⟨2, 0⟩] ∧ s.events = []) ∧ s.ReadableKept :=
  Run.exists_and_of_runActions (by decide +kernel) fun _ hrun _ => readableKept_of_run hrun

end NetbsdDpdk
