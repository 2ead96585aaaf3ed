import NetbsdDpdk.ReadyFlags

/-! `service_select` on one selector: the events on its ring are taken in batches and matched with
the sets of the call. What the call is not interested in is gone from the ring when it returns. -/

namespace NetbsdDpdk

open List

/-- `struct service_fdset`, with the first `returned_idx` entries of `returned_sockets`. A set that
`service_fdzero` has initialised lists every socket whose returned flag is up. -/
structure FdSet where
  interestedFlags : Slot → Bool
  returnedFlags : Slot → Bool
  returnedSockets : List Slot
  listed : ∀ i, returnedFlags i = true → i ∈ returnedSockets

namespace FdSet

def zero : FdSet where
  interestedFlags _ := false
  returnedFlags _ := false
  returnedSockets := []
  listed _ h := nomatch h

def set (fd : FdSet) (sock : Slot) : FdSet :=
  { fd with interestedFlags := fun i => if i = sock then true else fd.interestedFlags i }

/-- `service_fdclear`, which leaves `returned_sockets`. -/
def clear (fd : FdSet) (sock : Slot) : FdSet where
  interestedFlags i := if i = sock then false else fd.interestedFlags i
  returnedFlags i := if i = sock then false else fd.returnedFlags i
  returnedSockets := fd.returnedSockets
  listed i h := by
    split at h
    · cases h
    · exact fd.listed i h

def reset (fd : FdSet) : FdSet where
  interestedFlags := fd.interestedFlags
  returnedFlags i := if i ∈ fd.returnedSockets then false else fd.returnedFlags i
  returnedSockets := []
  listed i h := by
    split at h
    · cases h
    · next hnot => exact absurd (fd.listed i h) hnot

def update (fd : FdSet) (idx : Slot) : FdSet :=
  if fd.interestedFlags idx = true ∧ fd.returnedFlags idx = false then
    { interestedFlags := fd.interestedFlags
      returnedFlags := fun i => if i = idx then true else fd.returnedFlags i
      returnedSockets := fd.returnedSockets ++ [idx]
      listed := fun i h => by
        split at h
        · simp_all
        · exact List.mem_append_left _ (fd.listed i h) }
  else fd

variable {fd : FdSet} {i idx : Slot}

theorem update_interestedFlags : (fd.update idx).interestedFlags = fd.interestedFlags := by
  unfold update
  split <;> rfl

theorem update_of_not_interested (h : fd.interestedFlags idx = false) : fd.update idx = fd :=
  if_neg (by simp [h])

theorem update_returnedFlags : (fd.update idx).returnedFlags i = true ↔
    fd.returnedFlags i = true ∨ (i = idx ∧ fd.interestedFlags idx = true) := by
  unfold update
  split
  · by_cases h : i = idx <;> simp_all
  · by_cases h : i = idx
    · subst h
      simp_all
    · simp [h]

end FdSet

structure SelectSets where
  readfdset : Option FdSet := none
  writefdset : Option FdSet := none
  excfdset : Option FdSet := none

namespace SelectSets

def fdset (sets : SelectSets) : ReadyBit → Option FdSet
  | .readable => sets.readfdset
  | .writable => sets.writefdset
  | .closed => sets.excfdset

def wants (sets : SelectSets) (e : ReadyEvent) : Bool :=
  (sets.fdset e.bit).any fun fd => fd.interestedFlags e.ringsetIdx

def reported (sets : SelectSets) (e : ReadyEvent) : Bool :=
  (sets.fdset e.bit).any fun fd => fd.returnedFlags e.ringsetIdx

def reset (sets : SelectSets) : SelectSets where
  readfdset := sets.readfdset.map FdSet.reset
  writefdset := sets.writefdset.map FdSet.reset
  excfdset := sets.excfdset.map FdSet.reset

def ret (sets : SelectSets) : Nat :=
  (sets.readfdset.elim 0 fun fd => fd.returnedSockets.length) +
    (sets.writefdset.elim 0 fun fd => fd.returnedSockets.length) +
    (sets.excfdset.elim 0 fun fd => fd.returnedSockets.length)

def handle (sets : SelectSets) (e : ReadyEvent) : SelectSets :=
  match e.bit with
  | .readable => { sets with readfdset := sets.readfdset.map fun fd => fd.update e.ringsetIdx }
  | .closed => { sets with excfdset := sets.excfdset.map fun fd => fd.update e.ringsetIdx }
  | .writable => { sets with writefdset := sets.writefdset.map fun fd => fd.update e.ringsetIdx }

variable {sets : SelectSets} {e x : ReadyEvent} {events : List ReadyEvent}

theorem fdset_handle (sets : SelectSets) (e : ReadyEvent) (bit : ReadyBit) :
    (sets.handle e).fdset bit = if bit = e.bit
      then (sets.fdset bit).map fun fd => fd.update e.ringsetIdx else sets.fdset bit := by
  obtain ⟨idx, b⟩ := e
  cases b <;> cases bit <;> rfl

theorem wants_handle : (sets.handle e).wants x = sets.wants x := by
  unfold wants
  rw [fdset_handle]
  split
  · cases sets.fdset x.bit with
    | none => rfl
    | some fd => simp [FdSet.update_interestedFlags]
  · rfl

theorem reported_handle :
    (sets.handle e).reported x = true ↔ sets.reported x = true ∨ (x = e ∧ sets.wants e = true) := by
  unfold reported wants
  rw [fdset_handle]
  by_cases hbit : x.bit = e.bit
  · have heq : x = e ↔ x.ringsetIdx = e.ringsetIdx := by
      cases x
      cases e
      simp_all
    rw [if_pos hbit, heq, hbit]
    cases sets.fdset e.bit with
    | none => simp
    | some fd => simp [FdSet.update_returnedFlags]
  · have hne : x ≠ e := fun h => hbit (congrArg _ h)
    simp [hbit, hne]

theorem handle_of_not_wants (h : sets.wants e = false) : sets.handle e = sets := by
  obtain ⟨r, w, c⟩ := sets
  obtain ⟨idx, b⟩ := e
  -- the set is NULL, or the socket is not in it
  cases b with
  | readable => cases r <;> simp_all [handle, wants, fdset, FdSet.update_of_not_interested]
  | writable => cases w <;> simp_all [handle, wants, fdset, FdSet.update_of_not_interested]
  | closed => cases c <;> simp_all [handle, wants, fdset, FdSet.update_of_not_interested]

def handleAll (sets : SelectSets) (events : List ReadyEvent) : SelectSets :=
  events.foldl handle sets

theorem wants_handleAll : (sets.handleAll events).wants x = sets.wants x := by
  induction events generalizing sets with
  | nil => rfl
  | cons e events ih =>
    have hcons : sets.handleAll (e :: events) = (sets.handle e).handleAll events := rfl
    rw [hcons, ih, wants_handle]

theorem reported_handleAll : (sets.handleAll events).reported x = true ↔
    sets.reported x = true ∨ (x ∈ events ∧ sets.wants x = true) := by
  induction events generalizing sets with
  | nil => simp [handleAll]
  | cons e events ih =>
    have hcons : sets.handleAll (e :: events) = (sets.handle e).handleAll events := rfl
    rw [hcons, ih, reported_handle, wants_handle, mem_cons]
    grind

theorem handleAll_of_not_wants (h : ∀ e ∈ events, sets.wants e = false) :
    sets.handleAll events = sets := by
  induction events with
  | nil => rfl
  | cons e events ih =>
    have hcons : sets.handleAll (e :: events) = (sets.handle e).handleAll events := rfl
    rw [hcons, handle_of_not_wants (h e mem_cons_self)]
    exact ih fun x hx => h x (mem_cons_of_mem _ hx)

theorem ret_reset : sets.reset.ret = 0 := by
  obtain ⟨r, w, c⟩ := sets
  cases r <;> cases w <;> cases c <;> rfl

theorem ret_ne_zero (h : sets.reported e = true) : sets.ret ≠ 0 := by
  obtain ⟨fd, hfd, hflag⟩ := (Option.any_eq_true ..).mp h
  have hpos : fd.returnedSockets.length ≠ 0 := by
    have hmem := fd.listed _ hflag
    exact Nat.ne_of_gt (length_pos_of_mem hmem)
  obtain ⟨idx, b⟩ := e
  cases b with
  | readable | writable | closed =>
    simp only [fdset] at hfd
    simp only [ret, hfd, Option.elim_some]
    omega

end SelectSets

inductive Timeout
  | null
  | zero
  | positive
  deriving DecidableEq

structure SelectCall where
  sets : SelectSets
  timeout : Timeout
  exitAfterCheck : Bool := false

/-- `owed` are the events that were dequeued without being wanted, and neither wanted by a call that
has returned since nor answered; `missed` are those of them that a call which wanted them has
returned without. -/
structure SelectState where
  ring : List ReadyEvent := []
  call : Option SelectCall := none
  anyEventReceived : Slot → Bool := fun _ => false
  owed : List ReadyEvent := []
  missed : List ReadyEvent := []

inductive SelectAction
  | post (e : ReadyEvent)
  | call (sets : SelectSets) (timeout : Timeout)
  | look
  | clear (sock : Slot) (f : ReadyFlag)

namespace SelectState

def finish (s : SelectState) (c : SelectCall) : SelectState :=
  { s with
    call := none
    owed := s.owed.filter fun e => !c.sets.wants e
    missed := s.missed ++ s.owed.filter fun e => c.sets.wants e && !c.sets.reported e }

def drain (s : SelectState) (c : SelectCall) : SelectState where
  ring := []
  call := some { c with sets := c.sets.handleAll s.ring }
  anyEventReceived i := s.anyEventReceived i || s.ring.any fun e => e.ringsetIdx == i
  owed := s.owed ++ s.ring.filter fun e => !c.sets.wants e
  missed := s.missed

/-- One round from `restart_waiting`. A round on an empty ring returns `-1`, or sleeps in
`pselect` and comes back. -/
def look (s : SelectState) (c : SelectCall) : SelectState :=
  if c.sets.ret ≠ 0 then s.finish c
  else if s.ring = [] then
    if c.exitAfterCheck = true ∨ c.timeout = .zero then s.finish c
    else { s with call := some { c with exitAfterCheck := c.timeout ≠ .null } }
  else s.drain c

end SelectState

/-- The server posts events at any time, and one thread of the application calls `service_select`
and answers events by a receive, an accept or a send. -/
def selectStep (s : SelectState) : SelectAction → Option SelectState
  | .post e => some { s with ring := s.ring ++ [e] }
  | .call sets timeout => do
    guard (s.call.isNone = true)
    return { s with call := some { sets := sets.reset, timeout := timeout } }
  | .look => do
    let c ← s.call
    return s.look c
  | .clear sock f => some { s with owed := s.owed.filter fun e => e ≠ ⟨sock, f.bit⟩ }

namespace SelectState

variable {s t : SelectState} {c : SelectCall}

def Ends (s : SelectState) (c : SelectCall) : Prop :=
  if s.ring = [] then c.exitAfterCheck = true ∨ c.timeout = .zero
  else ∃ e ∈ s.ring, c.sets.wants e = true

instance (s : SelectState) (c : SelectCall) : Decidable (s.Ends c) := by
  unfold Ends
  infer_instance

def Reposted (s : SelectState) (c : SelectCall) : Prop :=
  ∀ e ∈ s.owed, c.sets.wants e = true → e ∈ s.ring

instance (s : SelectState) (c : SelectCall) : Decidable (s.Reposted c) := by
  unfold Reposted
  infer_instance

end SelectState

/-- In the round with which a call comes to its end, what it wants of the owed events is on the
ring once more. -/
def SelectSafe (s : SelectState) : SelectAction → Prop
  | .look => ∀ c ∈ s.call, c.sets.ret = 0 → s.Ends c → s.Reposted c
  | .post _ | .call _ _ | .clear _ _ => True

instance (s : SelectState) (a : SelectAction) : Decidable (SelectSafe s a) := by
  rcases a <;> unfold SelectSafe <;> infer_instance

structure SelectInv (s : SelectState) : Prop where
  missed : s.missed = []
  reports : ∀ c ∈ s.call, c.sets.ret ≠ 0 →
    ∀ e ∈ s.owed, c.sets.wants e = true → c.sets.reported e = true

namespace SelectState

variable {s t : SelectState} {c : SelectCall}

theorem finish_missed_iff (h : s.missed = []) : (s.finish c).missed = [] ↔
    ∀ e ∈ s.owed, c.sets.wants e = true → c.sets.reported e = true := by
  simp [finish, h, filter_eq_nil_iff]

theorem reported_drain {e : ReadyEvent} (he : e ∈ s.ring) (hwants : c.sets.wants e = true) :
    (c.sets.handleAll s.ring).reported e = true :=
  SelectSets.reported_handleAll.mpr (.inr ⟨he, hwants⟩)

theorem exists_wants_of_ret (hret : c.sets.ret = 0) (hdrain : (c.sets.handleAll s.ring).ret ≠ 0) :
    ∃ e ∈ s.ring, c.sets.wants e = true := by
  by_contra hnone
  push Not at hnone
  rw [SelectSets.handleAll_of_not_wants fun e he => Bool.not_eq_true _ ▸ hnone e he] at hdrain
  exact hdrain hret

theorem mem_drain_owed {e : ReadyEvent} (he : e ∈ (s.drain c).owed)
    (hwants : c.sets.wants e = true) : e ∈ s.owed := by
  rcases mem_append.mp he with howed | hnew
  · exact howed
  · have := of_mem_filter hnew
    simp [hwants] at this

end SelectState

namespace SelectInv

open SelectState

variable {s t : SelectState} {c : SelectCall}

theorem finish (h : SelectInv s)
    (hreports : ∀ e ∈ s.owed, c.sets.wants e = true → c.sets.reported e = true) :
    SelectInv (s.finish c) :=
  ⟨(finish_missed_iff h.missed).mpr hreports, fun _ hnone => nomatch hnone⟩

theorem drain (h : SelectInv s) (hret : c.sets.ret = 0) (hring : s.ring ≠ [])
    (hsafe : s.Ends c → s.Reposted c) : SelectInv (s.drain c) where
  missed := h.missed
  reports c' hc' hret' e he hwants := by
    cases hc'
    rw [SelectSets.wants_handleAll] at hwants
    have hends : s.Ends c := by
      rw [Ends, if_neg hring]
      exact exists_wants_of_ret hret hret'
    exact reported_drain (hsafe hends e (mem_drain_owed he hwants) hwants) hwants

theorem look (h : SelectInv s) (hc : s.call = some c)
    (hsafe : c.sets.ret = 0 → s.Ends c → s.Reposted c) : SelectInv (s.look c) := by
  unfold SelectState.look
  split
  · next hret => exact h.finish (h.reports c hc hret)
  · next hret =>
    have hret := not_not.mp hret
    split
    · next hring =>
      split
      · next hends =>
        have hreposted := hsafe hret (by rwa [Ends, if_pos hring])
        refine h.finish fun e he hwants => ?_
        have hmem := hreposted e he hwants
        rw [hring] at hmem
        cases hmem
      · refine ⟨h.missed, fun c' hc' hret' => ?_⟩
        cases hc'
        exact absurd hret hret'
    · next hring => exact h.drain hret hring (hsafe hret)

theorem step {a : SelectAction} (h : SelectInv s) (hsafe : SelectSafe s a)
    (hstep : selectStep s a = some t) : SelectInv t := by
  cases a with
  | post e =>
    cases hstep
    exact ⟨h.missed, h.reports⟩
  | call sets timeout =>
    obtain ⟨_, rfl⟩ := guarded_eq_some.mp hstep
    refine ⟨h.missed, fun c hc hret => ?_⟩
    cases hc
    exact absurd SelectSets.ret_reset hret
  | look =>
    obtain ⟨c, hc, rfl⟩ := looked_eq_some.mp hstep
    exact h.look hc (hsafe c hc)
  | clear sock f =>
    cases hstep
    exact ⟨h.missed, fun c hc hret e he => h.reports c hc hret e (mem_of_mem_filter he)⟩

end SelectInv

namespace SelectState

variable {s : SelectState} {c : SelectCall}

theorem finish_nil_missed_iff (h : s.missed = []) (hret : c.sets.ret = 0) (hring : s.ring = []) :
    (s.finish c).missed = [] ↔ s.Reposted c := by
  rw [finish_missed_iff h, Reposted, hring]
  refine forall₂_congr fun e he => imp_congr_right fun hwants => ?_
  exact ⟨fun hreported => absurd hret (SelectSets.ret_ne_zero hreported), fun hmem => nomatch hmem⟩

theorem finish_drain_missed_iff (h : s.missed = []) (hret : c.sets.ret = 0) :
    ((s.drain c).finish { c with sets := c.sets.handleAll s.ring }).missed = [] ↔
      s.Reposted c := by
  rw [finish_missed_iff (s := s.drain c) h]
  simp only [SelectSets.wants_handleAll, SelectSets.reported_handleAll]
  constructor
  · intro hall e he hwants
    rcases hall e (mem_append_left _ he) hwants with hreported | hmem
    · exact absurd hret (SelectSets.ret_ne_zero hreported)
    · exact hmem.1
  · intro hreposted e he hwants
    exact .inr ⟨hreposted e (mem_drain_owed he hwants) hwants, hwants⟩

theorem exists_run_look (h : s.missed = []) (hc : s.call = some c) (hret : c.sets.ret = 0)
    (hends : s.Ends c) : ∃ looks t, (∀ a ∈ looks, a = SelectAction.look) ∧
      Run selectStep (fun _ _ => True) s looks t ∧ t.call = none ∧
      (t.missed = [] ↔ s.Reposted c) := by
  by_cases hring : s.ring = []
  · rw [Ends, if_pos hring] at hends
    have hlook : selectStep s .look = some (s.finish c) := by
      simp [selectStep, hc, look, hret, hring, hends]
    exact ⟨[.look], s.finish c, by simp, Run.single trivial hlook, rfl,
      finish_nil_missed_iff h hret hring⟩
  · rw [Ends, if_neg hring] at hends
    obtain ⟨e, he, hwants⟩ := hends
    have hret' := SelectSets.ret_ne_zero (reported_drain he hwants)
    have hlook : selectStep s .look = some (s.drain c) := by
      simp [selectStep, hc, look, hret, hring]
    have hagain : selectStep (s.drain c) .look =
        some ((s.drain c).finish { c with sets := c.sets.handleAll s.ring }) := by
      have hcall : (s.drain c).call = some { c with sets := c.sets.handleAll s.ring } := rfl
      simp [selectStep, hcall, look, hret']
    exact ⟨[.look] ++ [.look], _, by simp,
      (Run.single trivial hlook).trans (Run.single trivial hagain), rfl,
      finish_drain_missed_iff h hret⟩

end SelectState

structure SelectStart (s : SelectState) : Prop where
  call : s.call = none
  owed : s.owed = []
  missed : s.missed = []

/-- Under `SelectSafe` `select` misses no event, and it is needed where a call is about to end. -/
theorem missed_of_run {s₀ s : SelectState} {as : List SelectAction} (hstart : SelectStart s₀)
    (hrun : Run selectStep SelectSafe s₀ as s) :
    s.missed = [] ∧ ∀ c, s.call = some c → c.sets.ret = 0 → s.Ends c →
      ∃ looks t, (∀ a ∈ looks, a = SelectAction.look) ∧
        Run selectStep (fun _ _ => True) s looks t ∧ t.call = none ∧
        (t.missed = [] ↔ SelectSafe s .look) := by
  have hinv : SelectInv s := by
    refine hrun.invariant (fun _ _ _ h hsafe hstep => h.step hsafe hstep)
      ⟨hstart.missed, fun c hc => ?_⟩
    rw [hstart.call] at hc
    cases hc
  refine ⟨hinv.missed, fun c hc hret hends => ?_⟩
  have hsafe : SelectSafe s .look ↔ s.Reposted c := by
    simp only [SelectSafe, hc, Option.mem_some_iff, forall_eq']
    exact ⟨fun h => h hret hends, fun h _ _ => h⟩
  rw [hsafe]
  exact SelectState.exists_run_look hinv.missed hc hret hends

def askReadable (sock : Slot) : SelectSets := { readfdset := some (FdSet.zero.set sock) }

def askWritable (sock : Slot) : SelectSets := { writefdset := some (FdSet.zero.set sock) }

theorem missed_of_run_reposted : ∃ s, Run selectStep SelectSafe {}
    [.post ⟨0, .readable⟩, .call (askWritable 0) .zero, .look, .look, .post ⟨0, .readable⟩,
      .call (askReadable 0) .zero, .look, .look] s ∧
    s.call.isNone = true ∧ s.missed = [] :=
  Run.exists_and_of_runActions (by decide +kernel) fun _ hrun _ =>
    (missed_of_run ⟨rfl, rfl, rfl⟩ hrun).1

/-- A call that waits for room to send dequeues a readable event, and the next call, which asks
for it, returns `-1` on an empty ring. -/
theorem readable_event_swallowed : ∃ s, Run selectStep (fun _ _ => True) {}
    [.post ⟨0, .readable⟩, .call (askWritable 0) .zero, .look, .look,
      .call (askReadable 0) .zero, .look] s ∧
    s.call.isNone = true ∧ s.missed = [⟨0, .readable⟩] :=
  Run.exists_of_runActions (by decide +kernel)

end NetbsdDpdk
