import NetbsdDpdk.Service

/-! The ways of a command buffer, one access to the pool or a ring at a time. Every call of `api.c`
that sends a command takes a buffer, fills it in, puts it on the command ring and gives it back
where the ring is full; an accepted connection travels in one from the stack over the `rx_ring` of
its listener to the application and back (`ring_ops.h`, `api.c`, `service_server_side.h`,
`service_loop.c`, `rte_wrappers.c`, `app_glue.c`). -/

namespace NetbsdDpdk

inductive Thread
  | app (a : Nat)
  | server
  deriving DecidableEq

/-- What a function still does once it is done with a buffer. -/
inductive After
  | done
  | flush (i : Slot)
  | acceptQueue (so : SocketPtr)
  deriving DecidableEq

/-- How far a thread is in a function that uses a command buffer. -/
inductive Pc
  | next (after : After)
  /-- Before `service_get_free_command_buf`. -/
  | wants (cmd : ServiceCmd)
  | filled (b : Nat) (cmd : ServiceCmd)
  /-- Before `service_free_command_buf`. -/
  | releasing (b : Nat) (after : After)
  /-- `service_accept` with what it took off the ring, before it looks for a free slot. -/
  | accepting (b : Nat) (so : SocketPtr)
  /-- `notify_app_about_accepted_sock` for a connection of a listener on slot `l`. -/
  | announcing (so : SocketPtr) (l : Slot) (listener : SocketPtr)
  | posting (b : Nat) (so : SocketPtr) (l : Slot) (listener : SocketPtr)
  | processing (b : Nat) (cmd : ServiceCmd)
  deriving DecidableEq

abbrev Pc.idle : Pc := .next .done

/-- A socket of the stack. `listening` is `SO_ACCEPTCONN`; `connected` tells that `solisten`
refuses it, because it is or was connected or is a datagram socket; `accepted` that `soaccept`
and `closed` that `soclose` or `soabort` was called on it. -/
structure AcceptSocket where
  used : Bool := false
  listening : Bool := false
  connected : Bool := false
  acceptPresent : Bool := false
  queue : List SocketPtr := []
  glueingBlock : Option Slot := none
  faddr : Nat := 0
  fport : Nat := 0
  accepted : Bool := false
  closed : Bool := false
  deriving DecidableEq

inductive RxUse
  | command
  | packet
  deriving DecidableEq

/-- A pointer taken off: what it is used as, what it was, the socket that then owned the slot and,
for a command buffer, the socket that it was posted for. -/
structure RxTaken where
  use : RxUse
  item : RxItem
  owner : Option SocketPtr
  postedFor : Option SocketPtr
  deriving DecidableEq

/-- `postedFor` and `taken` are not in the code: for which listener `service_post_accepted` last
posted a buffer, and what was taken off the receive rings. -/
structure CommandState where
  chan : CommandChannel
  pc : Thread → Pc := fun _ => .idle
  freeConnections : Fifo (connectionPoolSize - 1) Slot
  rx : Slot → Fifo (dataRingsSize - 1) RxItem := fun _ => Fifo.empty
  cache : Nat → Slot → Fifo 63 RxItem := fun _ _ => Fifo.empty
  sat : Slot → Option SocketPtr := fun _ => none
  sock : SocketPtr → AcceptSocket := fun _ => {}
  postedFor : Nat → Option SocketPtr := fun _ => none
  taken : List RxTaken := []

namespace CommandState

def setPc (s : CommandState) (t : Thread) (pc : Pc) : CommandState :=
  { s with pc := Function.update s.pc t pc }

def setRx (s : CommandState) (i : Slot) (rx : Fifo (dataRingsSize - 1) RxItem) : CommandState :=
  { s with rx := Function.update s.rx i rx }

def setCache (s : CommandState) (a : Nat) (i : Slot) (cache : Fifo 63 RxItem) : CommandState :=
  { s with cache := Function.update s.cache a (Function.update (s.cache a) i cache) }

def setSat (s : CommandState) (i : Slot) (so : Option SocketPtr) : CommandState :=
  { s with sat := Function.update s.sat i so }

def modifySock (s : CommandState) (so : SocketPtr) (f : AcceptSocket → AcceptSocket) :
    CommandState :=
  { s with sock := Function.update s.sock so (f (s.sock so)) }

section Fields

variable (s : CommandState) (th : Thread) (pc : Pc) (i : Slot) (so x : SocketPtr)
  (f : AcceptSocket → AcceptSocket)

@[simp] theorem setPc_sat : (s.setPc th pc).sat = s.sat := rfl

@[simp] theorem setPc_sock : (s.setPc th pc).sock = s.sock := rfl

@[simp] theorem setPc_self : (s.setPc th pc).pc th = pc := Function.update_self _ _ _

@[simp] theorem setSat_sock (o : Option SocketPtr) : (s.setSat i o).sock = s.sock := rfl

@[simp] theorem modifySock_self : (s.modifySock so f).sock so = f (s.sock so) :=
  Function.update_self _ _ _

theorem modifySock_of_ne {so x : SocketPtr} (hx : x ≠ so) :
    (s.modifySock so f).sock x = s.sock x :=
  Function.update_of_ne hx _ _

@[simp] theorem modifySock_sat : (s.modifySock so f).sat = s.sat := rfl

end Fields

def takenOff (s : CommandState) (use : RxUse) (i : Slot) (item : RxItem) : RxTaken :=
  ⟨use, item, s.sat i, match item with
    | .accepted b _ _ _ => s.postedFor b
    | .data _ => none⟩

def taking (s : CommandState) (use : RxUse) (i : Slot) (items : List RxItem) : CommandState :=
  { s with taken := s.taken ++ items.map (s.takenOff use i) }

def Listening (s : CommandState) (i : Slot) : Prop :=
  ∃ so, s.sat i = some so ∧ (s.sock so).listening = true

instance (s : CommandState) (i : Slot) : Decidable (s.Listening i) :=
  decidable_of_iff (∃ so ∈ s.sat i, (s.sock so).listening = true) Iff.rfl

def get (s : CommandState) (t : Thread) : Option CommandState :=
  match s.pc t with
  | .wants cmd =>
    match s.chan.getFreeCommandBuf with
    | none => some (s.setPc t .idle)
    | some (b, chan) => some ({ s with chan }.setPc t (.filled b cmd))
  | .announcing so l listener =>
    match s.chan.getFreeCommandBuf with
    | none => some (s.setPc t (.next (.acceptQueue listener)))
    | some (b, chan) => some ({ s with chan }.setPc t (.posting b so l listener))
  | _ => none

end CommandState

def ServiceCmd.after : ServiceCmd → After
  | .close i => .flush i
  | _ => .done

/-- Every caller of `service_enqueue_command_buf` but `service_dequeue_rx_buf` looks at its
result. -/
def ServiceCmd.isUnchecked : ServiceCmd → Bool
  | .rxKick _ => true
  | _ => false

/-- The commands that an application sends without a new slot or a connection to hand over. -/
def ServiceCmd.isCall : ServiceCmd → Bool
  | .close _ => true
  | .rxKick _ => false
  | cmd => cmd.isPlain

namespace CommandState

def enqueue (s : CommandState) (t : Thread) : Option CommandState :=
  match s.pc t with
  | .filled b cmd =>
    match s.chan.enqueueCommandBuf b cmd with
    | some chan => some ({ s with chan }.setPc t (.next cmd.after))
    | none => some (s.setPc t (if cmd.isUnchecked then .idle else .releasing b cmd.after))
  | _ => none

/-- `service_free_command_buf`. -/
def release (s : CommandState) (t : Thread) : Option CommandState :=
  match s.pc t with
  | .releasing b after => some ({ s with chan := s.chan.freeCommandBuf b }.setPc t (.next after))
  | _ => none

def openSocket (s : CommandState) (a : Nat) (type : SoType) (parent : Option Selector) :
    CommandState :=
  match s.freeConnections.dequeue with
  | none => s
  | some (i, freeConnections) =>
    { s with freeConnections }.setPc (.app a) (.wants (.openSocket i parent type a))

/-- `service_accept` up to the pointer that it uses as a command. Where it is a packet buffer the
model follows the call no further. -/
def accept (s : CommandState) (a : Nat) (l : Slot) : CommandState :=
  match (s.rx l).dequeue with
  | none => s
  | some (.data buf, rx) => (s.setRx l rx).taking .command l [.data buf]
  | some (.accepted b so ipaddr port, rx) =>
    ((s.setRx l rx).taking .command l [.accepted b so ipaddr port]).setPc (.app a)
      (.accepting b so)

/-- `service_accept` with the buffer in its hands: DECLINE if there is no free slot, otherwise
SET_SOCKET_RING. -/
def chooseSlot (s : CommandState) (a : Nat) : Option CommandState :=
  match s.pc (.app a) with
  | .accepting b so =>
    match s.freeConnections.dequeue with
    | none => some (s.setPc (.app a) (.filled b (.decline so)))
    | some (i, freeConnections) =>
      some ({ s with freeConnections }.setPc (.app a) (.filled b (.setSocketRing i none so a)))
  | _ => none

def receive (s : CommandState) (a : Nat) (i : Slot) : CommandState :=
  let (x, cache, rx) := ServiceState.dequeueRings (s.cache a i) (s.rx i)
  let moved := (s.rx i).items.take ((s.rx i).count - rx.count)
  (((s.setRx i rx).setCache a i cache).taking .packet i (moved ++ x.toList)).setPc (.app a)
    (.wants (.rxKick i))

def flush (s : CommandState) (a : Nat) : Option CommandState :=
  match s.pc (.app a) with
  | .next (.flush i) =>
    some ((((s.setRx i Fifo.empty).setCache a i Fifo.empty).taking .packet i
      ((s.cache a i).items ++ (s.rx i).items)).setPc (.app a) .idle)
  | _ => none

def dequeue (s : CommandState) : Option CommandState :=
  s.chan.dequeueCommandBuf.map fun (b, cmd, chan) =>
    { s with chan }.setPc .server (.processing b cmd)

/-- The sockets still queued at a listener that is closed: `soaccept` on each, or `soabort`. -/
def endQueue (s : CommandState) (present : Bool) : List SocketPtr → CommandState
  | [] => s
  | so :: rest =>
    (s.modifySock so fun t =>
      if present then { t with accepted := true } else { t with closed := true }).endQueue
        present rest

/-- `app_glue_close_socket`: the queue of a socket with connections to accept is accepted and
forgotten; otherwise `soclose` aborts the queue. -/
def closeSocket (s : CommandState) (so : SocketPtr) : CommandState :=
  (s.endQueue (s.sock so).acceptPresent (s.sock so).queue).modifySock so fun t =>
    { t with queue := [], acceptPresent := false, closed := true }

/-- The effect of a command in `process_commands`. `created` is what `app_glue_create_socket`
returns and `ok` whether `PRU_LISTEN` or the connect succeeds; LISTEN and SET_SOCKET_SELECT use
the socket of the slot unchecked. -/
def perform (s : CommandState) (created : Option SocketPtr) (ok : Bool) :
    ServiceCmd → Option CommandState
  | .openSocket i _ type _ =>
    match created with
    | none => some s
    | some so =>
      some ((s.setSat i (some so)).modifySock so fun _ =>
        { used := true, connected := type = .dgram, glueingBlock := some i })
  | .connectBind i isConnect _ _ =>
    match s.sat i with
    | none => some s
    | some so =>
      some (s.modifySock so fun t =>
        { t with connected := t.connected || isConnect && ok && !t.listening })
  | .listenSocket i =>
    match s.sat i with
    | none => none
    | some so =>
      some (s.modifySock so fun t => { t with listening := t.listening || ok && !t.connected })
  | .setSocketRing i _ so _ =>
    some ((s.setSat i (some so)).modifySock so fun t => { t with glueingBlock := some i })
  | .setSocketSelect i _ _ => if s.sat i = none then none else some s
  | .close i =>
    match s.sat i with
    | none => some s
    | some so =>
      some { (s.closeSocket so).setSat i none with
        freeConnections := (s.freeConnections.enqueue i).getD s.freeConnections }
  | .decline so => some (s.closeSocket so)
  | _ => some s

def acceptFirst (s : CommandState) : Option CommandState :=
  match s.pc .server with
  | .next (.acceptQueue so) =>
    match (s.sock so).queue, (s.sock so).glueingBlock with
    | [], _ =>
      some ((s.modifySock so fun t => { t with acceptPresent := false }).setPc .server .idle)
    | _ :: _, none => none
    | so2 :: rest, some l =>
      some (((s.modifySock so fun t => { t with queue := rest }).modifySock so2 fun t =>
        { t with accepted := true }).setPc .server (.announcing so2 l so))
  | _ => none

def post (s : CommandState) : Option CommandState :=
  match s.pc .server with
  | .posting b so l listener =>
    match (s.rx l).enqueue (.accepted b so (s.sock so).faddr (s.sock so).fport) with
    | none => some (s.setPc .server (.releasing b (.acceptQueue listener)))
    | some rx =>
      some ({ s.setRx l rx with
        postedFor := Function.update s.postedFor b (some listener) }.setPc .server
          (.next (.acceptQueue listener)))
  | _ => none

def submit (s : CommandState) (i : Slot) (id : Nat) : CommandState :=
  match (s.rx i).enqueue (.data ⟨id, 0⟩) with
  | none => s
  | some rx => s.setRx i rx

def start (pool : List Nat) : CommandState where
  chan := ⟨pool, Fifo.empty⟩
  freeConnections :=
    ⟨(List.finRange connectionPoolSize).take (connectionPoolSize - 1), length_freeSlots⟩

end CommandState

inductive CommandAction
  | call (a : Nat) (cmd : ServiceCmd)
  | openSocket (a : Nat) (type : SoType) (parent : Option Selector)
  | get (t : Thread)
  | enqueue (t : Thread)
  | release (t : Thread)
  | accept (a : Nat) (l : Slot)
  | chooseSlot (a : Nat)
  | receive (a : Nat) (i : Slot)
  | flush (a : Nat)
  | dequeue
  | perform (created : Option SocketPtr) (ok : Bool)
  | onAccept (so : SocketPtr)
  | acceptFirst
  | post
  | submit (i : Slot) (id : Nat)
  | newconn (so so2 : SocketPtr) (faddr fport : Nat)
  | gone (so : SocketPtr)

/-- One step. A thread begins a function when it is in none. The network's events are the server's
too: data, a completed connection, and the end of a closed socket. New sockets are created at
addresses that are not in use. -/
def commandStep (s : CommandState) : CommandAction → Option CommandState
  | .call a cmd => do
    guard (s.pc (.app a) = .idle ∧ cmd.isCall = true)
    return s.setPc (.app a) (.wants cmd)
  | .openSocket a type parent => do
    guard (s.pc (.app a) = .idle)
    return s.openSocket a type parent
  | .get t => s.get t
  | .enqueue t => s.enqueue t
  | .release t => s.release t
  | .accept a l => do
    guard (s.pc (.app a) = .idle)
    return s.accept a l
  | .chooseSlot a => s.chooseSlot a
  | .receive a i => do
    guard (s.pc (.app a) = .idle)
    return s.receive a i
  | .flush a => s.flush a
  | .dequeue => do
    guard (s.pc .server = .idle)
    s.dequeue
  | .perform created ok =>
    match s.pc .server with
    | .processing b cmd => do
      guard (∀ so ∈ created, (s.sock so).used = false)
      let s ← s.perform created ok cmd
      return s.setPc .server (.releasing b .done)
    | _ => none
  | .onAccept so => do
    guard (s.pc .server = .idle ∧ (s.sock so).acceptPresent = true)
    return s.setPc .server (.next (.acceptQueue so))
  | .acceptFirst => s.acceptFirst
  | .post => s.post
  | .submit i id => do
    let so ← s.sat i
    guard (s.pc .server = .idle ∧ (s.sock so).connected = true)
    return s.submit i id
  | .newconn so so2 faddr fport => do
    guard (s.pc .server = .idle ∧ (s.sock so).used = true ∧ (s.sock so).listening = true ∧
      (s.sock so).closed = false ∧ (s.sock so2).used = false)
    return (s.modifySock so fun t =>
      { t with queue := t.queue ++ [so2], acceptPresent := true }).modifySock so2 fun _ =>
        { used := true, connected := true, faddr, fport }
  | .gone so => do
    guard (s.pc .server = .idle ∧ (s.sock so).closed = true)
    return s.modifySock so fun _ => {}

end NetbsdDpdk
