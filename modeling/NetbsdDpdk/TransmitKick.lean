import NetbsdDpdk.Command
import NetbsdDpdk.Transition

/-! How the server learns of buffers on a transmit ring. `service_socket_kick` sends a TX_KICK only
if it finds `write_done_from_app` clear; `service_on_transmission_opportunity` clears the flag
before each count of the ring, and is also called without a kick. -/

namespace NetbsdDpdk

inductive KickPc
  | idle
  | marked
  | got (cmd : Nat)
  deriving DecidableEq

inductive TxPc
  | idle
  | entering
  | cleared
  | counted (ringEntries : Nat)
  | sending (mbufs : List Nat)
  deriving DecidableEq

/-- `sent`, `enqueued`, `dequeued` and `kicked` are not in the code: the buffers passed to the
stack, the numbers of buffers put on the ring and taken off it, and how many had been put there when
`service_socket_kick` last returned 0. -/
structure KickState where
  type : SoType
  chan : CommandChannel
  writeDoneFromApp : Bool := false
  txRing : Fifo (dataRingsSize - 1) Nat := Fifo.empty
  app : KickPc := .idle
  server : TxPc := .idle
  sent : List Nat := []
  enqueued : Nat := 0
  dequeued : Nat := 0
  kicked : Nat := 0

inductive KickAction
  | send (mbufs : List Nat)
  | kick
  | allocate
  | enqueue
  | pool (bufs : List Nat)
  | command (buf : Nat) (cmd : ServiceCmd)
  | process
  | opportunity
  | serve (refused : Bool)

namespace KickState

/-- `rte_ring_sp_enqueue_bulk` takes all of the buffers or none. -/
def send (s : KickState) (mbufs : List Nat) : KickState :=
  if mbufs.length ≤ s.txRing.freeCount then
    { s with
      txRing := s.txRing.enqueueBurst mbufs
      enqueued := s.enqueued + mbufs.length }
  else s

/-- The command's buffer goes back to the pool; only TX_KICK for the slot concerns it. -/
def process (s : KickState) (i : Slot) : Option KickState := do
  let (b, cmd, chan) ← s.chan.dequeueCommandBuf
  return { s with
    chan := chan.freeCommandBuf b
    server := if cmd = .txKick i then .entering else .idle }

/-- A datagram socket frees the rest of the burst and returns when a buffer is refused. -/
def serve (s : KickState) (refused : Bool) : Option KickState :=
  match s.server with
  | .idle => none
  | .entering => some { s with writeDoneFromApp := false, server := .cleared }
  | .cleared =>
    some { s with server := if s.txRing.count = 0 then .idle else .counted s.txRing.count }
  | .counted ringEntries =>
    some { s with
      txRing := (s.txRing.dequeueBurst ringEntries).2
      dequeued := s.dequeued + (s.txRing.dequeueBurst ringEntries).1.length
      server := .sending (s.txRing.dequeueBurst ringEntries).1 }
  | .sending [] => some { s with server := .entering }
  | .sending (m :: ms) =>
    if s.type = .dgram ∧ refused then some { s with server := .idle }
    else some { s with sent := s.sent ++ [m], server := .sending ms }

end KickState

/-- One step for the slot `i`. `pool` and `command` are what others do to the channel. -/
def kickStep (i : Slot) (s : KickState) : KickAction → Option KickState
  | .send mbufs => do
    guard (s.app = .idle)
    return s.send mbufs
  | .kick => do
    guard (s.app = .idle)
    return if s.writeDoneFromApp then { s with kicked := s.enqueued }
      else { s with writeDoneFromApp := true, app := .marked }
  | .allocate =>
    match s.app with
    | .marked =>
      match s.chan.getFreeCommandBuf with
      | none => some { s with app := .idle }
      | some (b, chan) => some { s with chan := chan, app := .got b }
    | _ => none
  | .enqueue =>
    match s.app with
    | .got b =>
      match s.chan.enqueueCommandBuf b (.txKick i) with
      | none => some { s with chan := s.chan.freeCommandBuf b, app := .idle, kicked := s.enqueued }
      | some chan => some { s with chan := chan, app := .idle, kicked := s.enqueued }
    | _ => none
  | .pool bufs => some { s with chan := { s.chan with pool := bufs } }
  | .command b cmd => do
    let chan ← s.chan.enqueueCommandBuf b cmd
    return { s with chan := chan }
  | .process => do
    guard (s.server = .idle)
    s.process i
  | .opportunity => do
    guard (s.server = .idle)
    return { s with server := .entering }
  | .serve refused => s.serve refused

def KickOk (s : KickState) : KickAction → Prop
  | .allocate => s.chan.pool ≠ []
  | .enqueue => s.chan.ring.items.length < commandPoolSize - 1
  | _ => True

def CommandChannel.HasTxKick (chan : CommandChannel) (i : Slot) : Prop :=
  ∃ b, (b, ServiceCmd.txKick i) ∈ chan.ring.items

def TxPc.inBurst : TxPc → Nat
  | .counted ringEntries => ringEntries
  | _ => 0

/-- Every buffer that was on the ring when a kick returned 0 has been taken off since, or a TX_KICK
is on its way, or the server will count the ring again or has just counted the buffer. -/
def KicksKept (i : Slot) (s : KickState) : Prop :=
  s.kicked ≤ s.dequeued ∨ s.chan.HasTxKick i ∨ s.server = .entering ∨ s.server = .cleared ∨
    s.kicked ≤ s.dequeued + s.server.inBurst

structure KickInv (i : Slot) (s : KickState) : Prop where
  balance : s.enqueued = s.dequeued + s.txRing.count
  counted : s.server.inBurst ≤ s.txRing.count
  kicked_le : s.kicked ≤ s.enqueued
  flag : s.writeDoneFromApp = true → s.chan.HasTxKick i ∨ s.server = .entering ∨ s.app ≠ .idle
  kept : KicksKept i s

theorem CommandChannel.HasTxKick.enqueue {chan chan' : CommandChannel} {i : Slot} {b : Nat}
    {cmd : ServiceCmd} (h : chan.enqueueCommandBuf b cmd = some chan')
    (hkick : chan.HasTxKick i ∨ cmd = .txKick i) : chan'.HasTxKick i := by
  obtain ⟨-, -, hitems⟩ := enqueueCommandBuf_eq_some h
  rcases hkick with ⟨b', hmem⟩ | rfl
  · exact ⟨b', by simp [hitems, hmem]⟩
  · exact ⟨b, by simp [hitems]⟩

namespace KickInv

variable {i : Slot} {s t : KickState}

theorem send (h : KickInv i s) (mbufs : List Nat) : KickInv i (s.send mbufs) := by
  unfold KickState.send
  split
  · next hroom =>
    have hitems := Fifo.enqueueBurst_items_of_le hroom
    have hcount : (s.txRing.enqueueBurst mbufs).count = s.txRing.count + mbufs.length := by
      rw [Fifo.count, hitems, List.length_append, Fifo.count]
    have hbalance := h.balance
    refine ⟨?_, ?_, Nat.le_trans h.kicked_le (Nat.le_add_right _ _), h.flag, h.kept⟩
    · simp only [hcount]
      omega
    · simp only [hcount]
      exact Nat.le_trans h.counted (Nat.le_add_right _ _)
  · exact h

theorem suppressed (h : KickInv i s) (happ : s.app = .idle) (hup : s.writeDoneFromApp = true) :
    KickInv i { s with kicked := s.enqueued } := by
  -- a kick that finds the flag set: the TX_KICK of the kick that set it is still to be answered
  refine ⟨h.balance, h.counted, Nat.le_refl _, h.flag, ?_⟩
  rcases h.flag hup with hkick | henter | hbusy
  · exact .inr (.inl hkick)
  · exact .inr (.inr (.inl henter))
  · exact absurd happ hbusy

theorem marked (h : KickInv i s) :
    KickInv i { s with writeDoneFromApp := true, app := .marked } :=
  ⟨h.balance, h.counted, h.kicked_le, fun _ => .inr (.inr (by simp)), h.kept⟩

theorem allocated (h : KickInv i s) {b : Nat} {chan : CommandChannel}
    (hchan : s.chan.getFreeCommandBuf = some (b, chan)) :
    KickInv i { s with chan := chan, app := .got b } := by
  have hring := (CommandChannel.getFreeCommandBuf_eq_some hchan).2
  have hsame : chan.HasTxKick i ↔ s.chan.HasTxKick i := by
    rw [CommandChannel.HasTxKick, hring, CommandChannel.HasTxKick]
  refine ⟨h.balance, h.counted, h.kicked_le, fun _ => .inr (.inr (by simp)), ?_⟩
  exact h.kept.imp_right (Or.imp_left hsame.mpr)

theorem enqueued (h : KickInv i s) {b : Nat} {chan : CommandChannel}
    (hchan : s.chan.enqueueCommandBuf b (.txKick i) = some chan) :
    KickInv i { s with chan := chan, app := .idle, kicked := s.enqueued } := by
  have hkick : chan.HasTxKick i := .enqueue hchan (.inr rfl)
  exact ⟨h.balance, h.counted, Nat.le_refl _, fun _ => .inl hkick, .inr (.inl hkick)⟩

theorem command (h : KickInv i s) {b : Nat} {cmd : ServiceCmd} {chan : CommandChannel}
    (hchan : s.chan.enqueueCommandBuf b cmd = some chan) : KickInv i { s with chan := chan } where
  balance := h.balance
  counted := h.counted
  kicked_le := h.kicked_le
  flag hup := (h.flag hup).imp_left fun hkick => .enqueue hchan (.inl hkick)
  kept := h.kept.imp_right (Or.imp_left fun hkick => .enqueue hchan (.inl hkick))

theorem process (h : KickInv i s) (hserver : s.server = .idle) (ht : s.process i = some t) :
    KickInv i t := by
  obtain ⟨⟨b, cmd, chan⟩, hchan, rfl⟩ := looked_eq_some.mp ht
  obtain ⟨hring, -⟩ := CommandChannel.dequeueCommandBuf_eq_some hchan
  by_cases hcmd : cmd = .txKick i
  · simp only [if_pos hcmd]
    exact ⟨h.balance, Nat.zero_le _, h.kicked_le, fun _ => .inr (.inl rfl), .inr (.inr (.inl rfl))⟩
  · have hkick : s.chan.HasTxKick i → (chan.freeCommandBuf b).HasTxKick i := by
      rintro ⟨b', hmem⟩
      rw [hring] at hmem
      rcases List.mem_cons.mp hmem with heq | hmem
      · cases heq
        exact absurd rfl hcmd
      · exact ⟨b', hmem⟩
    simp only [if_neg hcmd, ← hserver]
    exact ⟨h.balance, h.counted, h.kicked_le, fun hup => (h.flag hup).imp_left hkick,
      h.kept.imp_right (Or.imp_left hkick)⟩

theorem entering (h : KickInv i s) : KickInv i { s with server := .entering } :=
  ⟨h.balance, Nat.zero_le _, h.kicked_le, fun _ => .inr (.inl rfl), .inr (.inr (.inl rfl))⟩

theorem serve (h : KickInv i s) {refused : Bool} (ht : s.serve refused = some t) :
    KickInv i t := by
  -- the steps of `service_on_transmission_opportunity`. The flag is cleared before the count, so
  -- whatever is not counted is announced by a kick that finds it clear
  have hbalance := h.balance
  have hkept := h.kept
  have hle := h.kicked_le
  unfold KickState.serve at ht
  split at ht
  · cases ht
  · cases ht
    exact ⟨hbalance, Nat.zero_le _, hle, fun hup => by simp at hup, .inr (.inr (.inr (.inl rfl)))⟩
  · next hserver =>
    cases ht
    have hflag : s.writeDoneFromApp = true → s.chan.HasTxKick i ∨ s.app ≠ .idle := fun hup =>
      (h.flag hup).imp_right fun hor => hor.resolve_left (by simp [hserver])
    split
    · next hzero =>
      refine ⟨hbalance, Nat.zero_le _, hle, fun hup => (hflag hup).imp_right .inr, .inl ?_⟩
      dsimp only
      omega
    · refine ⟨hbalance, Nat.le_refl _, hle, fun hup => (hflag hup).imp_right .inr,
        .inr (.inr (.inr (.inr ?_)))⟩
      simp only [TxPc.inBurst]
      omega
  · next ringEntries hserver =>
    cases ht
    have hcounted := h.counted
    simp only [hserver, TxPc.inBurst] at hcounted
    have hburst : (s.txRing.dequeueBurst ringEntries).1.length = ringEntries := by
      rw [Fifo.dequeueBurst_fst, List.length_take]
      exact Nat.min_eq_left hcounted
    refine ⟨?_, Nat.zero_le _, hle, fun hup => ?_, ?_⟩
    · simp only [hburst, Fifo.count, Fifo.dequeueBurst_snd_items, List.length_drop] at *
      omega
    · exact (h.flag hup).imp_right fun hor => .inr (hor.resolve_left (by simp [hserver]))
    · simp only [KicksKept, hserver, TxPc.inBurst] at hkept
      simp only [KicksKept, hburst]
      rcases hkept with hdone | hkick | hbad | hbad | hnow
      · exact .inl (by omega)
      · exact .inr (.inl hkick)
      · cases hbad
      · cases hbad
      · exact .inl hnow
  · cases ht
    exact h.entering
  · next m ms hserver =>
    have hnext : ∀ pc : TxPc, pc.inBurst = 0 → ∀ sent,
        KickInv i { s with sent := sent, server := pc } := by
      intro pc hpc sent
      refine ⟨hbalance, by simp [hpc], hle, fun hup => ?_, ?_⟩
      · exact (h.flag hup).imp_right fun hor => .inr (hor.resolve_left (by simp [hserver]))
      · simp only [KicksKept, hserver, TxPc.inBurst] at hkept
        rcases hkept with hdone | hkick | hbad | hbad | hnow
        · exact .inl hdone
        · exact .inr (.inl hkick)
        · cases hbad
        · cases hbad
        · exact .inl hnow
    split at ht
    · cases ht
      exact hnext .idle rfl s.sent
    · cases ht
      exact hnext (.sending ms) rfl _

theorem step {a : KickAction} (h : KickInv i s) (hok : KickOk s a)
    (ht : kickStep i s a = some t) : KickInv i t := by
  cases a with
  | send mbufs =>
    obtain ⟨-, rfl⟩ := guarded_eq_some.mp ht
    exact h.send mbufs
  | kick =>
    obtain ⟨happ, rfl⟩ := guarded_eq_some.mp ht
    split
    · next hup => exact h.suppressed happ hup
    · exact h.marked
  | allocate =>
    cases happ : s.app with
    | marked =>
      cases hchan : s.chan.getFreeCommandBuf with
      | none => exact absurd (CommandChannel.getFreeCommandBuf_eq_none.mp hchan) hok
      | some p =>
        obtain ⟨b, chan⟩ := p
        obtain rfl : { s with chan := chan, app := .got b } = t := by
          simpa [kickStep, happ, hchan] using ht
        exact h.allocated hchan
    | idle => simp [kickStep, happ] at ht
    | got b => simp [kickStep, happ] at ht
  | enqueue =>
    cases happ : s.app with
    | got b =>
      cases hchan : s.chan.enqueueCommandBuf b (.txKick i) with
      | none => exact absurd (CommandChannel.enqueueCommandBuf_eq_none.mp hchan) (Nat.ne_of_lt hok)
      | some chan =>
        obtain rfl : { s with chan := chan, app := .idle, kicked := s.enqueued } = t := by
          simpa [kickStep, happ, hchan] using ht
        exact h.enqueued hchan
    | idle => simp [kickStep, happ] at ht
    | marked => simp [kickStep, happ] at ht
  | pool bufs =>
    cases ht
    exact ⟨h.balance, h.counted, h.kicked_le, h.flag, h.kept⟩
  | command b cmd =>
    obtain ⟨chan, hchan, rfl⟩ := looked_eq_some.mp ht
    exact h.command hchan
  | process =>
    obtain ⟨hserver, ht⟩ := guard_bind_eq_some.mp ht
    exact h.process hserver ht
  | opportunity =>
    obtain ⟨-, rfl⟩ := guarded_eq_some.mp ht
    exact h.entering
  | serve refused => exact h.serve ht

end KickInv

structure KickStart (s : KickState) : Prop where
  flag : s.writeDoneFromApp = false
  app : s.app = .idle
  server : s.server = .idle
  counts : s.enqueued = s.dequeued + s.txRing.count ∧ s.kicked = 0

theorem KickStart.kickInv {s : KickState} (h : KickStart s) (i : Slot) : KickInv i s := by
  obtain ⟨hbalance, hkicked⟩ := h.counts
  refine ⟨hbalance, ?_, ?_, fun hup => ?_, .inl ?_⟩
  · simp [h.server, TxPc.inBurst]
  · omega
  · simp [h.flag] at hup
  · omega

/-- Under `KickOk` no buffer for which a kick returned 0 is forgotten by the server. -/
theorem kicksKept_of_run {i : Slot} {s₀ s : KickState} {as : List KickAction}
    (hstart : KickStart s₀) (hrun : Run (kickStep i) KickOk s₀ as s) : KicksKept i s :=
  (hrun.invariant (fun _ _ _ h hok hstep => h.step hok hstep) (hstart.kickInv i)).kept

instance (s : KickState) (a : KickAction) : Decidable (KickOk s a) := by
  cases a <;> unfold KickOk <;> infer_instance

/-- A datagram is refused while a second buffer is already on the ring. The server leaves it there,
and the kick for it is on the command ring. -/
def refusedRun : List KickAction :=
  [.send [1], .kick, .allocate, .enqueue, .process, .serve false, .serve false,
    .send [2], .kick, .allocate, .enqueue, .serve false, .serve true]

theorem kicksKept_of_run_refused : ∃ s,
    Run (kickStep 0) KickOk { type := .dgram, chan := ⟨[10, 11], Fifo.empty⟩ } refusedRun s ∧
      (s.txRing.items = [2] ∧ s.server = .idle ∧ s.kicked = 2) ∧ KicksKept 0 s :=
  Run.exists_and_of_runActions (by decide +kernel) fun _ hrun _ =>
    kicksKept_of_run ⟨rfl, rfl, rfl, rfl, rfl⟩ hrun

end NetbsdDpdk
