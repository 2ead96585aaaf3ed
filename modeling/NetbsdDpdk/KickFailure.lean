import NetbsdDpdk.TransmitKick

/-! A call of `service_socket_kick` that gets no command through leaves `write_done_from_app` set,
and every later call is suppressed by it. -/

namespace NetbsdDpdk

open List CommandChannel

def serviceSocketKick (i : Slot) (s : KickState) : Int × KickState :=
  if s.writeDoneFromApp then (0, { s with kicked := s.enqueued })
  else
    match s.chan.getFreeCommandBuf with
    | none => (-1, { s with writeDoneFromApp := true })
    | some (b, chan) =>
      match chan.enqueueCommandBuf b (.txKick i) with
      | none => (0, { s with
          writeDoneFromApp := true, chan := chan.freeCommandBuf b, kicked := s.enqueued })
      | some chan => (0, { s with writeDoneFromApp := true, chan := chan, kicked := s.enqueued })

namespace CommandChannel

def Available (chan : CommandChannel) : Prop :=
  chan.pool ≠ [] ∧ chan.ring.items.length < commandPoolSize - 1

def buffers (chan : CommandChannel) : List Nat := chan.pool ++ chan.ring.items.map Prod.fst

end CommandChannel

/-- With the flag set the call returns before it asks for a command; else, where none is to be had,
it has to report that and to leave everything as it was. -/
def FailsWell (i : Slot) (s : KickState) : Prop :=
  s.writeDoneFromApp = false → ¬ s.chan.Available →
    (serviceSocketKick i s).1 ≠ 0 ∧
      (serviceSocketKick i s).2.chan.buffers.Perm s.chan.buffers ∧
      (serviceSocketKick i s).2.writeDoneFromApp = false

def kicks (i : Slot) : KickState → List CommandChannel → KickState
  | s, [] => s
  | s, chan :: chans => kicks i (serviceSocketKick i { s with chan := chan }).2 chans

def AllFailWell (i : Slot) : KickState → List CommandChannel → Prop
  | _, [] => True
  | s, chan :: chans => FailsWell i { s with chan := chan } ∧
      AllFailWell i (serviceSocketKick i { s with chan := chan }).2 chans

def Serves (i : Slot) (s t : KickState) : Prop :=
  ∃ as, (∀ a ∈ as, a = .process ∨ a = .serve false) ∧ Run (kickStep i) (fun _ _ => True) s as t

def Transmits (i : Slot) (s : KickState) : Prop :=
  ∃ t, Serves i s t ∧ ∀ m ∈ s.txRing.items, m ∈ t.sent

/-- Calls for which no command is to be had, and then one for which there is: that one sends its
TX_KICK unless the flag was set before all of them, a TX_KICK is on the ring behind it, and the
server passes on what is on `tx_ring`. -/
def Repeatable (i : Slot) (s : KickState) (chans : List CommandChannel) (chan : CommandChannel) :
    Prop :=
  AllFailWell i s chans ∧
    (s.writeDoneFromApp = false →
      ∃ b, (serviceSocketKick i { kicks i s chans with chan := chan }).2.chan.ring.items =
        chan.ring.items ++ [(b, .txKick i)]) ∧
    (serviceSocketKick i { kicks i s chans with chan := chan }).2.chan.HasTxKick i ∧
    Transmits i (serviceSocketKick i { kicks i s chans with chan := chan }).2

variable {i : Slot} {s t : KickState}

theorem run_serviceSocketKick (happ : s.app = .idle) :
    ∃ as, Run (kickStep i) (fun _ _ => True) s as (serviceSocketKick i s).2 := by
  cases hflag : s.writeDoneFromApp with
  | true =>
    refine ⟨[.kick], Run.single trivial ?_⟩
    simp [kickStep, guard, happ, hflag, serviceSocketKick]
  | false =>
    have hmark : kickStep i s .kick = some { s with writeDoneFromApp := true, app := .marked } := by
      simp [kickStep, guard, happ, hflag]
    cases hget : s.chan.getFreeCommandBuf with
    | none =>
      refine ⟨_, (Run.single trivial hmark).snoc (a := .allocate) trivial ?_⟩
      simp [kickStep, hget, serviceSocketKick, hflag, ← happ]
    | some p =>
      obtain ⟨b, chan⟩ := p
      have hgot : kickStep i { s with writeDoneFromApp := true, app := .marked } .allocate =
          some { s with writeDoneFromApp := true, chan := chan, app := .got b } := by
        simp [kickStep, hget]
      refine ⟨_, ((Run.single trivial hmark).snoc trivial hgot).snoc (a := .enqueue) trivial ?_⟩
      cases hput : chan.enqueueCommandBuf b (.txKick i) with
      | none => simp [kickStep, hget, hput, serviceSocketKick, hflag, ← happ]
      | some chan' => simp [kickStep, hget, hput, serviceSocketKick, hflag, ← happ]

namespace Serves

theorem trans {u : KickState} (h : Serves i s t) (h' : Serves i t u) : Serves i s u := by
  obtain ⟨as, has, hrun⟩ := h
  obtain ⟨bs, hbs, hrun'⟩ := h'
  refine ⟨as ++ bs, fun a ha => ?_, hrun.trans hrun'⟩
  exact (mem_append.mp ha).elim (has a) (hbs a)

theorem serve (h : s.serve false = some t) : Serves i s t :=
  ⟨[.serve false], by simp, Run.single trivial h⟩

theorem process (hserver : s.server = .idle) (h : s.process i = some t) : Serves i s t :=
  ⟨[.process], by simp, Run.single trivial (guard_bind_eq_some.mpr ⟨hserver, h⟩)⟩

theorem sending {ms : List Nat} (hserver : s.server = .sending ms) :
    Serves i s { s with sent := s.sent ++ ms, server := .entering } := by
  induction ms generalizing s with
  | nil =>
    apply serve
    simp [KickState.serve, hserver]
  | cons m ms ih =>
    have hstep : s.serve false = some { s with sent := s.sent ++ [m], server := .sending ms } := by
      simp [KickState.serve, hserver]
    have hrest := ih (s := { s with sent := s.sent ++ [m], server := .sending ms }) rfl
    simp only [append_assoc, singleton_append] at hrest
    exact (serve hstep).trans hrest

theorem counted {n : Nat} (hserver : s.server = .counted n) :
    ∃ t, Serves i s t ∧ t.server = .entering ∧ t.sent = s.sent ++ s.txRing.items.take n ∧
      t.txRing.items = s.txRing.items.drop n := by
  have hstep : s.serve false = some { s with
      txRing := (s.txRing.dequeueBurst n).2
      dequeued := s.dequeued + (s.txRing.dequeueBurst n).1.length
      server := .sending (s.txRing.dequeueBurst n).1 } := by
    simp [KickState.serve, hserver]
  exact ⟨_, (serve hstep).trans (sending rfl), rfl, rfl, rfl⟩

theorem cleared (hserver : s.server = .cleared) :
    ∃ t, Serves i s t ∧ ∀ m ∈ s.sent ++ s.txRing.items, m ∈ t.sent := by
  by_cases hzero : s.txRing.count = 0
  · have hnil : s.txRing.items = [] := length_eq_zero_iff.mp hzero
    refine ⟨{ s with server := .idle }, serve ?_, by simp [hnil]⟩
    simp [KickState.serve, hserver, hzero]
  · have hstep : s.serve false = some { s with server := .counted s.txRing.count } := by
      simp [KickState.serve, hserver, hzero]
    obtain ⟨t, ht, -, hsent, -⟩ :=
      counted (i := i) (s := { s with server := .counted s.txRing.count }) rfl
    refine ⟨t, (serve hstep).trans ht, fun m hm => ?_⟩
    rw [hsent]
    simpa [Fifo.count] using hm

theorem entering (hserver : s.server = .entering) :
    ∃ t, Serves i s t ∧ ∀ m ∈ s.sent ++ s.txRing.items, m ∈ t.sent := by
  have hstep : s.serve false = some { s with writeDoneFromApp := false, server := .cleared } := by
    simp [KickState.serve, hserver]
  obtain ⟨t, ht, hall⟩ :=
    cleared (i := i) (s := { s with writeDoneFromApp := false, server := .cleared }) rfl
  exact ⟨t, (serve hstep).trans ht, hall⟩

theorem idle {cmds : List (Nat × ServiceCmd)} (hserver : s.server = .idle)
    (hring : s.chan.ring.items = cmds) (hkick : s.chan.HasTxKick i) :
    ∃ t, Serves i s t ∧ ∀ m ∈ s.sent ++ s.txRing.items, m ∈ t.sent := by
  induction cmds generalizing s with
  | nil =>
    obtain ⟨b, hmem⟩ := hkick
    simp [hring] at hmem
  | cons c cmds ih =>
    obtain ⟨b, cmd⟩ := c
    obtain ⟨ring, hdeq⟩ : ∃ ring, s.chan.ring.dequeue = some ((b, cmd), ring) := by
      cases hdeq : s.chan.ring.dequeue with
      | none => simp [Fifo.dequeue_eq_none_iff.mp hdeq] at hring
      | some p =>
        obtain ⟨c, ring⟩ := p
        have heq := Fifo.dequeue_eq_some_iff.mp hdeq
        rw [hring] at heq
        cases heq
        exact ⟨ring, rfl⟩
    have hitems : ring.items = cmds := by
      have heq := Fifo.dequeue_eq_some_iff.mp hdeq
      rw [hring] at heq
      cases heq
      rfl
    have hstep : s.process i = some { s with
        chan := { s.chan with pool := b :: s.chan.pool, ring := ring }
        server := if cmd = .txKick i then .entering else .idle } := by
      simp [KickState.process, dequeueCommandBuf, hdeq, freeCommandBuf]
    by_cases hcmd : cmd = .txKick i
    · rw [if_pos hcmd] at hstep
      obtain ⟨t, ht, hall⟩ := entering (i := i) (s := { s with
        chan := { s.chan with pool := b :: s.chan.pool, ring := ring }, server := .entering }) rfl
      exact ⟨t, (process hserver hstep).trans ht, hall⟩
    · rw [if_neg hcmd] at hstep
      have hrest : CommandChannel.HasTxKick
          { s.chan with pool := b :: s.chan.pool, ring := ring } i := by
        obtain ⟨b', hmem⟩ := hkick
        rw [hring] at hmem
        rcases mem_cons.mp hmem with heq | hmem
        · cases heq
          exact absurd rfl hcmd
        · exact ⟨b', hitems ▸ hmem⟩
      obtain ⟨t, ht, hall⟩ := ih (s := { s with
        chan := { s.chan with pool := b :: s.chan.pool, ring := ring }, server := .idle }) rfl
        hitems hrest
      exact ⟨t, (process hserver hstep).trans ht, hall⟩

end Serves

theorem transmits_of_hasTxKick (hkick : s.chan.HasTxKick i) : Transmits i s := by
  cases hserver : s.server with
  | idle =>
    obtain ⟨t, ht, hall⟩ := Serves.idle hserver rfl hkick
    exact ⟨t, ht, fun m hm => hall m (mem_append_right _ hm)⟩
  | entering =>
    obtain ⟨t, ht, hall⟩ := Serves.entering (i := i) hserver
    exact ⟨t, ht, fun m hm => hall m (mem_append_right _ hm)⟩
  | cleared =>
    obtain ⟨t, ht, hall⟩ := Serves.cleared (i := i) hserver
    exact ⟨t, ht, fun m hm => hall m (mem_append_right _ hm)⟩
  | counted n =>
    obtain ⟨u, hu, hentering, hsent, hring⟩ := Serves.counted (i := i) hserver
    obtain ⟨t, ht, hall⟩ := Serves.entering (i := i) hentering
    refine ⟨t, hu.trans ht, fun m hm => hall m ?_⟩
    rw [hsent, hring, append_assoc, take_append_drop]
    exact mem_append_right _ hm
  | sending ms =>
    obtain ⟨t, ht, hall⟩ := Serves.entering (i := i)
      (s := { s with sent := s.sent ++ ms, server := .entering }) rfl
    exact ⟨t, (Serves.sending hserver).trans ht, fun m hm => hall m (mem_append_right _ hm)⟩

theorem serviceSocketKick_flag (i : Slot) (s : KickState) :
    (serviceSocketKick i s).2.writeDoneFromApp = true := by
  unfold serviceSocketKick
  split
  · assumption
  · split
    · rfl
    · split <;> rfl

theorem failsWell_iff : FailsWell i s ↔ s.writeDoneFromApp = true ∨ s.chan.Available := by
  constructor
  · intro h
    by_contra hfails
    obtain ⟨hclear, hlack⟩ := not_or.mp hfails
    have hflag := (h (by simpa using hclear) hlack).2.2
    simp [serviceSocketKick_flag] at hflag
  · rintro (hset | havail) hclear hlack
    · simp [hset] at hclear
    · exact absurd havail hlack

theorem allFailWell_of_flag {chans : List CommandChannel} (hset : s.writeDoneFromApp = true) :
    AllFailWell i s chans := by
  induction chans generalizing s with
  | nil => trivial
  | cons chan chans ih =>
    exact ⟨failsWell_iff.mpr (.inl hset), ih (serviceSocketKick_flag i _)⟩

theorem kicks_flag {chans : List CommandChannel} (hset : s.writeDoneFromApp = true) :
    (kicks i s chans).writeDoneFromApp = true := by
  induction chans generalizing s with
  | nil => exact hset
  | cons chan chans ih => exact ih (serviceSocketKick_flag i _)

theorem serviceSocketKick_sends (hclear : s.writeDoneFromApp = false) (havail : s.chan.Available) :
    ∃ b, (serviceSocketKick i s).2.chan.ring.items = s.chan.ring.items ++ [(b, .txKick i)] := by
  obtain ⟨hpool, hroom⟩ := havail
  cases hget : s.chan.getFreeCommandBuf with
  | none => exact absurd (getFreeCommandBuf_eq_none.mp hget) hpool
  | some p =>
    obtain ⟨b, chan⟩ := p
    have hring := (getFreeCommandBuf_eq_some hget).2
    cases hput : chan.enqueueCommandBuf b (.txKick i) with
    | none =>
      have hfull := enqueueCommandBuf_eq_none.mp hput
      rw [hring] at hfull
      omega
    | some chan' =>
      obtain ⟨-, -, hitems⟩ := enqueueCommandBuf_eq_some hput
      refine ⟨b, ?_⟩
      simp only [serviceSocketKick, hclear, hget, hput, hitems, hring, Bool.false_eq_true, if_false]

/-- For every state of the slot, and calls for which no command is to be had, followed by one for
which there is one: failures are reported and undone, and a TX_KICK gets through for what is on
`tx_ring`, exactly if nothing fails. Either the flag is clear and no call comes before the last one,
or it is set and the TX_KICK that it stands for is still on the ring. -/
theorem repeatable_iff {chans : List CommandChannel} {chan : CommandChannel}
    (hlack : ∀ c ∈ chans, ¬ c.Available) (havail : chan.Available) :
    Repeatable i s chans chan ↔
      s.writeDoneFromApp = false ∧ chans = [] ∨ s.writeDoneFromApp = true ∧ chan.HasTxKick i := by
  have hsuppressed (hset : s.writeDoneFromApp = true) :
      (serviceSocketKick i { kicks i s chans with chan := chan }).2.chan = chan := by
    simp [serviceSocketKick, kicks_flag hset]
  constructor
  · rintro ⟨hall, -, hkick, -⟩
    cases hflag : s.writeDoneFromApp with
    | true => exact .inr ⟨rfl, hsuppressed hflag ▸ hkick⟩
    | false =>
      refine .inl ⟨rfl, ?_⟩
      cases chans with
      | nil => rfl
      | cons c chans =>
        have hset := (failsWell_iff.mp hall.1).resolve_right (hlack c (by simp))
        exact absurd (hflag.symm.trans hset) (by simp)
  · rintro (⟨hclear, rfl⟩ | ⟨hset, hkick⟩)
    · obtain ⟨b, hitems⟩ :=
        serviceSocketKick_sends (i := i) (s := { s with chan := chan }) hclear havail
      have hkick : (serviceSocketKick i { s with chan := chan }).2.chan.HasTxKick i :=
        ⟨b, by simp [hitems]⟩
      exact ⟨trivial, fun _ => ⟨b, hitems⟩, hkick, transmits_of_hasTxKick hkick⟩
    · rw [← hsuppressed hset] at hkick
      exact ⟨allFailWell_of_flag hset, fun hclear => absurd (hclear.symm.trans hset) (by simp),
        hkick, transmits_of_hasTxKick hkick⟩

def loadedSlot : KickState :=
  { type := .stream, chan := ⟨[], Fifo.empty⟩, txRing := ⟨[7], by decide⟩ }

/-- A first call that finds a command, and calls that find none while an earlier TX_KICK waits. -/
theorem repeatable_iff_loaded :
    Repeatable 0 loadedSlot [] ⟨[10], Fifo.empty⟩ ∧
      Repeatable 0 { loadedSlot with writeDoneFromApp := true } [⟨[], Fifo.empty⟩, ⟨[], Fifo.empty⟩]
        ⟨[11], ⟨[(10, .txKick 0)], by decide⟩⟩ := by
  constructor
  · exact (repeatable_iff (by simp) ⟨by simp, by decide⟩).mpr (.inl ⟨rfl, rfl⟩)
  · exact (repeatable_iff (by simp [Available]) ⟨by simp, by decide⟩).mpr
      (.inr ⟨rfl, 10, by simp⟩)

/-- The second call finds the flag of the first and sends nothing. -/
theorem failed_kick_disables_kicks :
    ¬ Repeatable 0 loadedSlot [⟨[], Fifo.empty⟩] ⟨[10], Fifo.empty⟩ := by
  intro hrep
  obtain ⟨b, hitems⟩ := hrep.2.1 rfl
  have hnone : (serviceSocketKick 0 { kicks 0 loadedSlot [⟨[], Fifo.empty⟩] with
      chan := ⟨[10], Fifo.empty⟩ }).2.chan.ring.items = [] := by decide
  rw [hnone] at hitems
  cases hitems

end NetbsdDpdk
