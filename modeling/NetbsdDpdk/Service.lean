import Mathlib.Logic.Function.Basic
import NetbsdDpdk.ReceiveApi
import NetbsdDpdk.Transition

/-! The connection slots between the applications and the server: the calls of `api.c` that take
and give back a slot, the processing of their commands, and the rings of each slot. A received or
sent chain of packet buffers is a token here; it carries the connection it was made for. -/

namespace NetbsdDpdk

/-- A chain of packet buffers on a ring. `gen` is not in the code: the connection on the slot that
the chain belongs to. -/
structure Buf where
  id : Nat
  gen : Nat
  deriving DecidableEq, Repr

inductive RxItem
  | data (buf : Buf)
  | accepted (cmd : Nat) (socketDescr : SocketPtr) (ipaddr port : Nat)
  deriving DecidableEq, Repr

structure SlotRings where
  txRing : Fifo (dataRingsSize - 1) Buf := Fifo.empty
  rxRing : Fifo (dataRingsSize - 1) RxItem := Fifo.empty

structure Satellite where
  socket : Option SocketPtr := none
  ringsetIdx : Option Slot := none
  parentIdx : Option Selector := none
  apppid : Nat := 0
  deriving DecidableEq

/-- A socket as far as the service knows it: its glueing block, whether `app_glue_close_socket` was
called on it, and, not in the code, its connection. -/
structure StackSocket where
  type : SoType
  glueingBlock : Option Slot := none
  closed : Bool := false
  conn : Option (Slot × Nat) := none
  deriving DecidableEq

/-- `held` is the connection that was opened or accepted and is not closed yet. -/
structure LocalDesc where
  held : Option Nat := none
  closing : Option Nat := none
  localCache : Fifo 63 RxItem := Fifo.empty
  shadow : Option RxItem := none
  select : Option Selector := none

/-- `sent`, `returned` and `flushed` are histories: for every chain passed on, its connection and
the one it was done for. -/
structure ServiceState where
  freeConnections : Fifo (connectionPoolSize - 1) Slot
  chan : CommandChannel
  rings : Slot → SlotRings
  sat : Slot → Satellite
  sock : SocketPtr → Option StackSocket
  app : Nat → Slot → LocalDesc
  gen : Slot → Nat
  sent : List (Nat × Nat) := []
  returned : List (Nat × Nat) := []
  flushed : List (Nat × Nat) := []

theorem length_freeSlots :
    ((List.finRange connectionPoolSize).take (connectionPoolSize - 1)).length ≤
      connectionPoolSize - 1 := by
  decide

namespace ServiceState

def setDesc (s : ServiceState) (a : Nat) (i : Slot) (d : LocalDesc) : ServiceState :=
  { s with app := Function.update s.app a (Function.update (s.app a) i d) }

def setRings (s : ServiceState) (i : Slot) (r : SlotRings) : ServiceState :=
  { s with rings := Function.update s.rings i r }

def setSat (s : ServiceState) (i : Slot) (t : Satellite) : ServiceState :=
  { s with sat := Function.update s.sat i t }

def setSock (s : ServiceState) (so : SocketPtr) (t : Option StackSocket) : ServiceState :=
  { s with sock := Function.update s.sock so t }

def takeSlot (s : ServiceState) : Option (Slot × ServiceState) :=
  s.freeConnections.dequeue.map fun (i, freeConnections) =>
    (i, { s with freeConnections, gen := Function.update s.gen i (s.gen i + 1) })

/-- `service_reset_local_descriptor`: the local cache is left as it is. -/
def resetLocalDescriptor (s : ServiceState) (a : Nat) (i : Slot) : ServiceState :=
  s.setDesc a i { s.app a i with shadow := none }

def hold (s : ServiceState) (a : Nat) (i : Slot) (parent : Option Selector) : ServiceState :=
  let d := s.app a i
  s.setDesc a i { d with
    held := some (s.gen i)
    select := if parent = none then d.select else parent }

structure Taken where
  rc : Int
  slot : Option Slot
  state : ServiceState

def openSocket (s : ServiceState) (a : Nat) (type : SoType) (parent : Option Selector) : Taken :=
  match s.takeSlot with
  | none => ⟨-1, none, s⟩
  | some (i, s) =>
    match s.chan.getFreeCommandBuf with
    | none => ⟨-2, some i, s⟩
    | some (b, chan) =>
      match chan.enqueueCommandBuf b (.openSocket i parent type a) with
      | none => ⟨-3, some i, { s with chan := chan.freeCommandBuf b }⟩
      | some chan => ⟨i, some i, ({ s with chan }.resetLocalDescriptor a i).hold a i parent⟩

/-- `service_accept` on the listening slot `l`; `none` where what it dequeues is not a pending
accept. -/
def accept (s : ServiceState) (a : Nat) (l : Slot) : Option Taken :=
  match (s.rings l).rxRing.dequeue with
  | none => some ⟨-1, none, s⟩
  | some (.data _, _) => none
  | some (.accepted b socketDescr _ _, rxRing) =>
    let s := s.setRings l { s.rings l with rxRing }
    match s.takeSlot with
    | none =>
      match s.chan.enqueueCommandBuf b (.decline socketDescr) with
      | none => some ⟨-4, none, { s with chan := s.chan.freeCommandBuf b }⟩
      | some chan => some ⟨-3, none, { s with chan }⟩
    | some (i, s) =>
      let s := s.resetLocalDescriptor a i
      match s.chan.enqueueCommandBuf b (.setSocketRing i none socketDescr a) with
      | none => some ⟨-2, some i, { s with chan := s.chan.freeCommandBuf b }⟩
      | some chan => some ⟨i, some i, { s with chan }.hold a i none⟩

/-- The first half of `service_close`: the command. The application gives the descriptor up; the
call tells nothing about a failure. -/
def closeCommand (s : ServiceState) (a : Nat) (i : Slot) : ServiceState :=
  let d := s.app a i
  match s.chan.getFreeCommandBuf with
  | none => s.setDesc a i { d with held := none }
  | some (b, chan) =>
    let chan := (chan.enqueueCommandBuf b (.close i)).getD (chan.freeCommandBuf b)
    { s with chan }.setDesc a i { d with held := none, closing := d.held }

def chains (items : List RxItem) : List Buf :=
  items.filterMap fun
    | .data b => some b
    | .accepted .. => none

def handledFor (g : Nat) (bs : List Buf) : List (Nat × Nat) :=
  bs.map fun b => (b.gen, g)

/-- The second half of `service_close`: `service_flush_rx` for the connection `g` being closed. -/
def flushRx (s : ServiceState) (a : Nat) (i : Slot) (g : Nat) : ServiceState :=
  let d := s.app a i
  let r := s.rings i
  let freed := chains (d.localCache.items ++ r.rxRing.items ++ d.shadow.toList)
  let s := s.setRings i { r with rxRing := Fifo.empty }
  let s := s.setDesc a i { d with closing := none, localCache := Fifo.empty, shadow := none }
  { s with flushed := s.flushed ++ handledFor g freed }

def enqueueTxBuf (s : ServiceState) (i : Slot) (id : Nat) : ServiceState :=
  match (s.rings i).txRing.enqueue ⟨id, s.gen i⟩ with
  | none => s
  | some txRing => s.setRings i { s.rings i with txRing }

/-- A command without a check of the slot: taken, filled in, and given back when the ring is
full. -/
def command (s : ServiceState) (cmd : ServiceCmd) : ServiceState :=
  match s.chan.getFreeCommandBuf with
  | none => s
  | some (b, chan) =>
    { s with chan := (chan.enqueueCommandBuf b cmd).getD (chan.freeCommandBuf b) }

def refillRings (cache : Fifo 63 RxItem) (rx : Fifo (dataRingsSize - 1) RxItem) :
    Fifo 63 RxItem × Fifo (dataRingsSize - 1) RxItem :=
  let room := if cache.freeCount > maxPktBurst then maxPktBurst else cache.freeCount
  let (xs, rx) := rx.dequeueBurst room
  (cache.enqueueBurst xs, rx)

/-- The rings of `service_dequeue_rx_buf`: the local cache, a burst from the receive ring into it,
and the cache again if it was empty. -/
def dequeueRings (cache : Fifo 63 RxItem) (rx : Fifo (dataRingsSize - 1) RxItem) :
    Option RxItem × Fifo 63 RxItem × Fifo (dataRingsSize - 1) RxItem :=
  match cache.dequeue with
  | some (x, cache) => (some x, refillRings cache rx)
  | none =>
    let (cache, rx) := refillRings cache rx
    match cache.dequeue with
    | some (x, cache) => (some x, cache, rx)
    | none => (none, cache, rx)

/-- One chain from the rings for the connection `g`; the cut may keep a part of it as the shadow. -/
def receiveRings (s : ServiceState) (a : Nat) (i : Slot) (g : Nat) (keep : Bool) : ServiceState :=
  let d := s.app a i
  let (x, localCache, rxRing) := dequeueRings d.localCache (s.rings i).rxRing
  let s := s.setRings i { s.rings i with rxRing }
  let s := s.setDesc a i { d with localCache, shadow := if keep then x else d.shadow }
  { s with
    chan := s.chan.sendRxKick i
    returned := s.returned ++ handledFor g (chains x.toList) }

/-- The kept part that `service_receive` returns first; the cut may keep a part of it again. -/
def receiveShadow (s : ServiceState) (a : Nat) (i : Slot) (g : Nat) (keep : Bool) :
    ServiceState :=
  let d := s.app a i
  let s := { s with returned := s.returned ++ handledFor g (chains d.shadow.toList) }
  if keep then s else s.setDesc a i { d with shadow := none }

/-- With a kept part `service_receive` goes on to the rings only if the part does not suffice
(`more`); `keep` tells whether the last chain is cut inside. -/
def receive (s : ServiceState) (a : Nat) (i : Slot) (g : Nat) (more keep : Bool) : ServiceState :=
  match (s.app a i).shadow, more with
  | none, _ => s.receiveRings a i g keep
  | some _, false => s.receiveShadow a i g keep
  | some _, true => (s.receiveShadow a i g false).receiveRings a i g keep

/-- On a socket with its glueing block; a datagram socket stops behind the first chain that is
refused. -/
def onTransmissionOpportunity (s : ServiceState) (so : SocketPtr) (refused : Option Nat) :
    ServiceState :=
  match s.sock so with
  | none => s
  | some t =>
    match t.glueingBlock, t.conn with
    | some i, some (_, g) =>
      let bs := (s.rings i).txRing.items
      let passed := match t.type, refused with
        | .dgram, some k => bs.take (k + 1)
        | _, _ => bs
      let s := s.setRings i { s.rings i with txRing := Fifo.empty }
      { s with sent := s.sent ++ handledFor g passed }
    | _, _ => s

/-- One round of `user_data_available_cbk`. A socket that was closed has nothing to receive. -/
def submitRxBuf (s : ServiceState) (i : Slot) (so : SocketPtr) (id : Nat) :
    Option ServiceState := do
  let t ← s.sock so
  if t.closed then none
  let (_, g) ← t.conn
  let rxRing ← (s.rings i).rxRing.enqueue (.data ⟨id, g⟩)
  return s.setRings i { s.rings i with rxRing }

/-- `notify_app_about_accepted_sock`: a new socket of the listening slot `l`. -/
def notifyAccepted (s : ServiceState) (l : Slot) (so : SocketPtr) (ipaddr port : Nat) :
    ServiceState :=
  let s := s.setSock so (some { type := .stream })
  match s.chan.getFreeCommandBuf with
  | none => s
  | some (b, chan) =>
    match (s.rings l).rxRing.enqueue (.accepted b so ipaddr port) with
    | none => { s with chan := chan.freeCommandBuf b }
    | some rxRing => { s with chan }.setRings l { s.rings l with rxRing }

def link (s : ServiceState) (i : Slot) (parent : Option Selector) (pid : Nat) (so : SocketPtr)
    (t : StackSocket) : ServiceState :=
  (s.setSat i ⟨some so, some i, parent, pid⟩).setSock so
    (some { t with glueingBlock := some i, conn := some (i, s.gen i) })

def closeSocket (s : ServiceState) (so : SocketPtr) : ServiceState :=
  s.setSock so ((s.sock so).map fun t => { t with closed := true })

/-- `created` is what `app_glue_create_socket` returns and `refused` the chain at which a datagram
socket stops sending. -/
def processCommand (s : ServiceState) (created : Option SocketPtr) (refused : Option Nat) :
    ServiceCmd → ServiceState
  | .openSocket i parent type pid =>
    match created with
    | some so => s.link i parent pid so { type }
    | none => s
  | .setSocketRing i parent so pid =>
    let parent := if parent = none then (s.sat i).parentIdx else parent
    match s.sock so with
    | some t => s.link i parent pid so t
    | none => s.setSat i ⟨some so, some i, parent, pid⟩
  | .close i =>
    match (s.sat i).socket with
    | some so =>
      let s := s.closeSocket so
      let s := s.setSat i { s.sat i with socket := none, ringsetIdx := none, parentIdx := none }
      { s with freeConnections := (s.freeConnections.enqueue i).getD s.freeConnections }
    | none => s
  | .txKick i =>
    match (s.sat i).socket with
    | some so => s.onTransmissionOpportunity so refused
    | none => s
  | .setSocketSelect i parent pid => s.setSat i { s.sat i with parentIdx := parent, apppid := pid }
  | .decline so => s.closeSocket so
  | _ => s

def Idle (s : ServiceState) (a : Nat) : Prop := ∀ i, (s.app a i).closing = none

instance (s : ServiceState) (a : Nat) : Decidable (s.Idle a) :=
  inferInstanceAs (Decidable (∀ i, (s.app a i).closing = none))

def start (pool : List Nat) : ServiceState where
  freeConnections :=
    ⟨(List.finRange connectionPoolSize).take (connectionPoolSize - 1), length_freeSlots⟩
  chan := ⟨pool, Fifo.empty⟩
  rings _ := {}
  sat _ := {}
  sock _ := none
  app _ _ := {}
  gen _ := 0

end ServiceState

/-- The commands that neither link nor unlink a slot and carry no socket. -/
def ServiceCmd.isPlain : ServiceCmd → Bool
  | .openSocket .. | .setSocketRing .. | .close _ | .decline _ | .accepted .. => false
  | _ => true

inductive ServiceAction
  | openSocket (a : Nat) (type : SoType) (parent : Option Selector)
  | accept (a : Nat) (l : Slot)
  | send (a : Nat) (i : Slot) (id : Nat)
  | receive (a : Nat) (i : Slot) (more keep : Bool)
  | command (a : Nat) (cmd : ServiceCmd)
  | close (a : Nat) (i : Slot)
  | flush (a : Nat) (i : Slot)
  | process (created : Option SocketPtr) (refused : Option Nat)
  | transmit (so : SocketPtr) (refused : Option Nat)
  | deliver (i : Slot) (so : SocketPtr) (id : Nat)
  | accepted (l : Slot) (so : SocketPtr) (ipaddr port : Nat)
  | gone (so : SocketPtr)

/-- One step. An application calls nothing else between the two halves of `service_close`, and works
on the descriptors it holds. -/
def serviceStep (s : ServiceState) : ServiceAction → Option ServiceState
  | .openSocket a type parent => do
    guard (s.Idle a)
    return (s.openSocket a type parent).state
  | .accept a l => do
    guard (s.Idle a)
    let _ ← (s.app a l).held
    let r ← s.accept a l
    return r.state
  | .send a i id => do
    guard (s.Idle a)
    let _ ← (s.app a i).held
    return s.enqueueTxBuf i id
  | .receive a i more keep => do
    guard (s.Idle a)
    let g ← (s.app a i).held
    return s.receive a i g more keep
  | .command a cmd => do
    guard (s.Idle a ∧ cmd.isPlain = true)
    return s.command cmd
  | .close a i => do
    guard (s.Idle a)
    let _ ← (s.app a i).held
    return s.closeCommand a i
  | .flush a i => do
    let g ← (s.app a i).closing
    return s.flushRx a i g
  | .process created refused => do
    let (b, cmd, chan) ← s.chan.dequeueCommandBuf
    guard (∀ so ∈ created, s.sock so = none)
    let s := { s with chan }.processCommand created refused cmd
    return { s with chan := s.chan.freeCommandBuf b }
  | .transmit so refused => return s.onTransmissionOpportunity so refused
  | .deliver i so id => do
    let t ← s.sock so
    guard (t.glueingBlock = some i ∨ (s.sat i).socket = some so)
    s.submitRxBuf i so id
  | .accepted l so ipaddr port => do
    guard (s.sock so = none ∧ (s.sat l).socket ≠ none)
    return s.notifyAccepted l so ipaddr port
  | .gone so => do
    let t ← s.sock so
    guard (t.closed = true)
    return s.setSock so none

section Inversion

variable {s t : ServiceState} {a : Nat} {i : Slot} {so : SocketPtr}

theorem serviceStep_openSocket {type : SoType} {parent : Option Selector} :
    serviceStep s (.openSocket a type parent) = some t ↔
      s.Idle a ∧ (s.openSocket a type parent).state = t := by
  simp [serviceStep, Option.bind_eq_some_iff]

theorem serviceStep_accept : serviceStep s (.accept a i) = some t ↔
    s.Idle a ∧ (s.app a i).held ≠ none ∧ ∃ r, s.accept a i = some r ∧ r.state = t := by
  simp [serviceStep, Option.bind_eq_some_iff, ← Option.isSome_iff_ne_none, Option.isSome_iff_exists]

theorem serviceStep_send {id : Nat} : serviceStep s (.send a i id) = some t ↔
    s.Idle a ∧ (s.app a i).held ≠ none ∧ s.enqueueTxBuf i id = t := by
  simp [serviceStep, Option.bind_eq_some_iff, ← Option.isSome_iff_ne_none, Option.isSome_iff_exists]

theorem serviceStep_receive {more keep : Bool} : serviceStep s (.receive a i more keep) = some t ↔
    s.Idle a ∧ ∃ g, (s.app a i).held = some g ∧ s.receive a i g more keep = t := by
  simp [serviceStep, Option.bind_eq_some_iff]

theorem serviceStep_command {cmd : ServiceCmd} : serviceStep s (.command a cmd) = some t ↔
    (s.Idle a ∧ cmd.isPlain = true) ∧ s.command cmd = t := by
  simp [serviceStep, Option.bind_eq_some_iff]

theorem serviceStep_close : serviceStep s (.close a i) = some t ↔
    s.Idle a ∧ (s.app a i).held ≠ none ∧ s.closeCommand a i = t := by
  simp [serviceStep, Option.bind_eq_some_iff, ← Option.isSome_iff_ne_none, Option.isSome_iff_exists]

theorem serviceStep_flush : serviceStep s (.flush a i) = some t ↔
    ∃ g, (s.app a i).closing = some g ∧ s.flushRx a i g = t := by
  simp [serviceStep, Option.bind_eq_some_iff]

theorem serviceStep_process {created : Option SocketPtr} {refused : Option Nat} :
    serviceStep s (.process created refused) = some t ↔
      ∃ b cmd chan, s.chan.dequeueCommandBuf = some (b, cmd, chan) ∧
        (∀ so ∈ created, s.sock so = none) ∧
        ∃ u, { s with chan }.processCommand created refused cmd = u ∧
          { u with chan := u.chan.freeCommandBuf b } = t := by
  simp [serviceStep, Option.bind_eq_some_iff]

theorem serviceStep_deliver {id : Nat} : serviceStep s (.deliver i so id) = some t ↔
    ∃ st, s.sock so = some st ∧ (st.glueingBlock = some i ∨ (s.sat i).socket = some so) ∧
      s.submitRxBuf i so id = some t := by
  simp [serviceStep, Option.bind_eq_some_iff]

theorem serviceStep_accepted {ipaddr port : Nat} :
    serviceStep s (.accepted i so ipaddr port) = some t ↔
      (s.sock so = none ∧ (s.sat i).socket ≠ none) ∧ s.notifyAccepted i so ipaddr port = t := by
  simp [serviceStep, Option.bind_eq_some_iff]

theorem serviceStep_gone : serviceStep s (.gone so) = some t ↔
    ∃ st, s.sock so = some st ∧ st.closed = true ∧ s.setSock so none = t := by
  simp [serviceStep, Option.bind_eq_some_iff]

end Inversion

end NetbsdDpdk
