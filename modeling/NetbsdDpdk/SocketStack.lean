import NetbsdDpdk.Service

/-! The sockets of the stack as the server drives them: the five lists of the glue
(`app_glue.c`), the life of a `struct socket` (`uipc_socket.c`, `uipc_socket2.c`), the part of TCP
that decides when a closed socket goes away (`tcp_usrreq.c`, `tcp_subr.c`), and the commands that
link a socket to a slot (`service_loop.c`). -/

namespace NetbsdDpdk

inductive TcpState
  | closed | listen | synSent | synReceived | established | closeWait | finWait1 | closing
  | lastAck | finWait2 | timeWait
  deriving DecidableEq, Repr

def TcpState.haveEstablished : TcpState → Bool
  | .closed | .listen | .synSent | .synReceived => false
  | _ => true

inductive Pcb
  | tcp (state : TcpState)
  | udp
  deriving DecidableEq, Repr

inductive ReadyList
  | read | write | accept | closed | waiter
  deriving DecidableEq, Repr

/-- `struct socket`. `live` tells whether it is out of the pool; a socket in the pool keeps what
was written there until `soget` hands it out again. `linger` is `so_linger` if `SO_LINGER` is set,
`sndSpace` the outcome of `sbspace(&so->so_snd) >= so_snd.sb_lowat`. -/
structure Socket where
  live : Bool := false
  type : SoType := .stream
  acceptConn : Bool := false
  linger : Option Nat := none
  connecting : Bool := false
  connected : Bool := false
  disconnecting : Bool := false
  disconnected : Bool := false
  cantSendMore : Bool := false
  noFdRef : Bool := false
  aborting : Bool := false
  soError : Bool := false
  sndSpace : Bool := false
  pcb : Option Pcb := none
  head : Option SocketPtr := none
  queue : List SocketPtr := []
  upcall2 : Bool := false
  glueingBlock : Option Slot := none
  present : ReadyList → Bool := fun _ => false

/-- A call of an accounting hook: for which socket, on which slot, and the `ringset_idx` and the
`socket` that the slot had. -/
structure HookCall where
  so : SocketPtr
  slot : Slot
  ringsetIdx : Option Slot
  socket : Option SocketPtr

structure SocketStack where
  sock : SocketPtr → Socket
  lists : ReadyList → List SocketPtr
  sat : Slot → Satellite
  hooks : List HookCall := []

def Socket.writable (t : Socket) : Bool :=
  (t.sndSpace && (t.connected || t.type = .dgram)) || t.cantSendMore || t.soError

namespace SocketStack

def start : SocketStack := ⟨fun _ => {}, fun _ => [], fun _ => {}, []⟩

def modify (s : SocketStack) (so : SocketPtr) (f : Socket → Socket) : SocketStack :=
  { s with sock := Function.update s.sock so (f (s.sock so)) }

def setSat (s : SocketStack) (i : Slot) (t : Satellite) : SocketStack :=
  { s with sat := Function.update s.sat i t }

def setPresent (s : SocketStack) (k : ReadyList) (so : SocketPtr) (b : Bool) : SocketStack :=
  s.modify so fun t => { t with present := Function.update t.present k b }

def insert (s : SocketStack) (k : ReadyList) (so : SocketPtr) : SocketStack :=
  if (s.sock so).present k then s
  else
    let s := s.setPresent k so true
    { s with lists := Function.update s.lists k (s.lists k ++ [so]) }

/-- `TAILQ_REMOVE`, and the flag with it. -/
def unlink (s : SocketStack) (k : ReadyList) (so : SocketPtr) : SocketStack :=
  let s := s.setPresent k so false
  { s with lists := Function.update s.lists k ((s.lists k).erase so) }

def remove (s : SocketStack) (k : ReadyList) (so : SocketPtr) : SocketStack :=
  if (s.sock so).present k then s.unlink k so else s

def sockReadable (s : SocketStack) (so : SocketPtr) : SocketStack :=
  let t := s.sock so
  if t.disconnected then s.insert .closed so
  else match t.type, t.pcb with
    | .stream, some (.tcp .listen) => s.insert .accept so
    | .stream, some (.tcp .established) => s.insert .read so
    | .stream, some (.tcp _) => s
    | _, _ => s.insert .read so

def sockWriteSpace (s : SocketStack) (so : SocketPtr) : SocketStack :=
  let t := s.sock so
  if t.disconnected then s.insert .closed so
  else match t.type, t.pcb with
    | .stream, some (.tcp .established) => if t.writable then s.insert .write so else s
    | .stream, some (.tcp _) => s
    | _, _ => if t.writable then s.insert .write so else s

/-- For either buffer: `app_glue_so_upcall2` tests `band | POLLIN`, which is never zero, and so does
both. -/
def sowakeup (s : SocketStack) (so : SocketPtr) : SocketStack :=
  if (s.sock so).upcall2 then (s.sockReadable so).sockWriteSpace so else s

/-- The accounting hooks, on a socket that is in use: one in the pool has no data to drop and takes
none. -/
def reflect (s : SocketStack) (so : SocketPtr) : SocketStack :=
  match (s.sock so).live, (s.sock so).glueingBlock with
  | true, some i =>
    { s with hooks := s.hooks ++ [⟨so, i, (s.sat i).ringsetIdx, (s.sat i).socket⟩] }
  | _, _ => s

def soisconnected (s : SocketStack) (so : SocketPtr) : SocketStack :=
  let s := s.modify so fun t =>
    { t with connecting := false, disconnecting := false, connected := true }
  (s.sowakeup so).sowakeup so

def soisdisconnecting (s : SocketStack) (so : SocketPtr) : SocketStack :=
  let s := s.modify so fun t =>
    { t with connecting := false, disconnecting := true, cantSendMore := true }
  (s.sowakeup so).sowakeup so

def soisdisconnected (s : SocketStack) (so : SocketPtr) : SocketStack :=
  let s := s.modify so fun t => { t with
    connecting := false
    connected := false
    disconnecting := false
    disconnected := true
    cantSendMore := true }
  (s.sowakeup so).sowakeup so

def socantsendmore (s : SocketStack) (so : SocketPtr) : SocketStack :=
  (s.modify so fun t => { t with cantSendMore := true }).sowakeup so

/-- `sorflush`: `socantrcvmore`, and what the buffer held is dropped. -/
def sorflush (s : SocketStack) (so : SocketPtr) : SocketStack :=
  (s.sowakeup so).reflect so

def soput (s : SocketStack) (so : SocketPtr) : SocketStack :=
  s.modify so fun t => { t with live := false }

/-- `sofree`. A socket on an accept queue is on `so_q`, where `soqremque(so, 0)` does not find
it. -/
def sofree (s : SocketStack) (so : SocketPtr) : SocketStack :=
  let t := s.sock so
  if t.pcb.isSome || !t.noFdRef || t.head.isSome then s
  else
    let s := (s.reflect so).modify so fun t => { t with sndSpace := false }
    let s := s.sorflush so
    if t.aborting then s else s.soput so

def tcpClose (s : SocketStack) (so : SocketPtr) : SocketStack :=
  ((s.soisdisconnected so).modify so fun t => { t with pcb := none }).sofree so

def tcpDrop (s : SocketStack) (so : SocketPtr) (error : Bool) : SocketStack :=
  (s.modify so fun t => { t with soError := t.soError || error }).tcpClose so

def setTcpState (s : SocketStack) (so : SocketPtr) (state : TcpState) : SocketStack :=
  s.modify so fun t => { t with pcb := some (.tcp state) }

def tcpUsrclosed (s : SocketStack) (so : SocketPtr) : TcpState → SocketStack
  | .closed | .listen | .synSent => s.tcpClose so
  | .synReceived | .established => s.setTcpState so .finWait1
  | .closeWait => s.setTcpState so .lastAck
  | .finWait2 | .timeWait => s.soisdisconnected so
  | _ => s

def tcpDisconnect (s : SocketStack) (so : SocketPtr) (state : TcpState) : SocketStack :=
  if !state.haveEstablished then s.tcpClose so
  else if (s.sock so).linger = some 0 then s.tcpDrop so false
  else ((s.soisdisconnecting so).reflect so).tcpUsrclosed so state

def detach (s : SocketStack) (so : SocketPtr) : SocketStack :=
  match (s.sock so).pcb with
  | some (.tcp state) => s.tcpDisconnect so state
  | some .udp => (s.modify so fun t => { t with pcb := none }).sofree so
  | none => s

/-- `PRU_DISCONNECT`, from `sodisconnect`. -/
def disconnect (s : SocketStack) (so : SocketPtr) : SocketStack :=
  match (s.sock so).pcb with
  | some (.tcp state) => s.tcpDisconnect so state
  | _ => s.modify so fun t => { t with connected := false }

/-- `soqremque(so2, 1)` for the first socket of the accept queue of `so`. -/
def dequeueAccept (s : SocketStack) (so so2 : SocketPtr) : SocketStack :=
  (s.modify so fun t => { t with queue := t.queue.erase so2 }).modify so2 fun t =>
    { t with head := none }

def soabort (s : SocketStack) (so : SocketPtr) : SocketStack :=
  let s := s.modify so fun t => { t with aborting := true }
  let s := match (s.sock so).pcb with
    | some (.tcp _) => s.tcpDrop so true
    | _ => s
  (s.modify so fun t => { t with aborting := false }).sofree so

def abortQueue (s : SocketStack) (so : SocketPtr) : List SocketPtr → SocketStack
  | [] => s
  | so2 :: rest => ((s.dequeueAccept so so2).soabort so2).abortQueue so rest

/-- The end of `soclose`; it panics on a socket that was closed before. -/
def discard (s : SocketStack) (so : SocketPtr) : Option SocketStack :=
  if (s.sock so).noFdRef then none
  else some ((s.modify so fun t => { t with noFdRef := true }).sofree so)

/-- `soclose` behind the accept queue. `sowait` does not wait here, so with a positive linger time
the loop on a socket that stays connected does not end. -/
def socloseSelf (s : SocketStack) (so : SocketPtr) : Option SocketStack :=
  let t := s.sock so
  if t.pcb.isNone then s.discard so
  else if t.connected then
    let s := if t.disconnecting then s else s.disconnect so
    if t.linger.isSome && (s.sock so).connected then none
    else (s.detach so).discard so
  else (s.detach so).discard so

def soclose (s : SocketStack) (so : SocketPtr) : Option SocketStack :=
  let s := if (s.sock so).acceptConn then s.abortQueue so (s.sock so).queue else s
  s.socloseSelf so

def soaccept (s : SocketStack) (so : SocketPtr) : Option SocketStack :=
  if (s.sock so).noFdRef then some (s.modify so fun t => { t with noFdRef := false }) else none

/-- The loop of `app_glue_close_socket` over the accept queue: what it accepts is forgotten. -/
def orphanQueue (s : SocketStack) (so : SocketPtr) : List SocketPtr → Option SocketStack
  | [] => some s
  | so2 :: rest => do
    let s ← (s.dequeueAccept so so2).soaccept so2
    s.orphanQueue so rest

def closeAccept (s : SocketStack) (so : SocketPtr) : Option SocketStack :=
  if (s.sock so).present .accept then do
    let s ← s.orphanQueue so (s.sock so).queue
    return s.unlink .accept so
  else some s

/-- `app_glue_close_socket`. The list of waiters is left as it is. -/
def closeSocket (s : SocketStack) (so : SocketPtr) : Option SocketStack := do
  let s := (s.remove .read so).remove .write so
  let s ← s.closeAccept so
  (s.remove .closed so).soclose so

/-- It reads the peer's address behind `so_pcb`, which is NULL on a connection that was dropped in
the queue. -/
def userOnAccept (s : SocketStack) (so : SocketPtr) : List SocketPtr → Option SocketStack
  | [] => some s
  | so2 :: rest => do
    let s ← (s.dequeueAccept so so2).soaccept so2
    guard ((s.sock so2).pcb.isSome)
    (s.modify so2 fun t => { t with upcall2 := true }).userOnAccept so rest

/-- `soget` and the protocol's attach: a zeroed socket with a control block. -/
def soget (s : SocketStack) (so : SocketPtr) (t : Socket) : SocketStack :=
  s.modify so fun _ => t

def link (s : SocketStack) (i : Slot) (parent : Option Selector) (pid : Nat) (so : SocketPtr) :
    SocketStack :=
  let s := s.setSat i ⟨some so, some i, parent, pid⟩
  (s.modify so fun t => { t with glueingBlock := some i }).reflect so

def openSocket (s : SocketStack) (i : Slot) (parent : Option Selector) (type : SoType) (pid : Nat)
    (so : SocketPtr) : SocketStack :=
  let pcb := match type with
    | .stream => Pcb.tcp .closed
    | .dgram => Pcb.udp
  (s.soget so { live := true, type, pcb := some pcb, upcall2 := true }).link i parent pid so

def setSocketRing (s : SocketStack) (i : Slot) (parent : Option Selector) (pid : Nat)
    (so : SocketPtr) : SocketStack :=
  let parent := if parent = none then (s.sat i).parentIdx else parent
  (s.link i parent pid so).reflect so

/-- SET_SOCKET_SELECT; the receive function that it calls reads the type of a NULL socket. -/
def setSocketSelect (s : SocketStack) (i : Slot) (parent : Option Selector) (pid : Nat) :
    Option SocketStack := do
  let so ← (s.sat i).socket
  return (s.setSat i { s.sat i with parentIdx := parent, apppid := pid }).reflect so

def close (s : SocketStack) (i : Slot) : Option SocketStack :=
  match (s.sat i).socket with
  | none => some s
  | some so => do
    let s ← s.closeSocket so
    return s.setSat i { s.sat i with socket := none, ringsetIdx := none, parentIdx := none }

def listen (s : SocketStack) (i : Slot) : Option SocketStack := do
  let so ← (s.sat i).socket
  let t := s.sock so
  match t.pcb with
  | some (.tcp _) =>
    if t.connected || t.connecting || t.disconnecting then return s
    return s.modify so fun t => { t with
      pcb := some (.tcp .listen)
      acceptConn := t.acceptConn || t.queue.isEmpty }
  | _ => return s

def processTxEmpty (s : SocketStack) (i : Slot) : SocketStack :=
  match (s.sat i).socket with
  | none => s
  | some so =>
    if (s.sock so).present .waiter then s
    else
      let s := s.insert .waiter so
      if (s.sock so).type = .dgram then s.reflect so else s

def soshutdown (s : SocketStack) (i : Slot) (rd wr : Bool) : SocketStack :=
  match (s.sat i).socket with
  | none => s
  | some so =>
    let s := if rd then s.sorflush so else s
    if wr then
      let s := s.socantsendmore so
      match (s.sock so).pcb with
      | some (.tcp state) => s.tcpUsrclosed so state
      | _ => s
    else s

/-- `process_rx_ready_sockets`, `process_tx_ready_sockets`: one round on the list. -/
def processFirst (s : SocketStack) : ReadyList → Option SocketStack
  | .closed => do
    let so ← (s.lists .closed).head?
    return s.unlink .closed so
  | .accept => do
    let so ← (s.lists .accept).head?
    let s ← s.userOnAccept so (s.sock so).queue
    return s.unlink .accept so
  | .read => do
    let so ← (s.lists .read).head?
    return (s.unlink .read so).reflect so
  | .write => do
    let so ← (s.lists .write).head?
    return (s.unlink .write so).reflect so
  | .waiter => do
    -- the loop goes through the slot: it serves and removes the slot's socket, not the first one,
    -- and `TAILQ_REMOVE` on a socket that is not on the list follows a NULL or stale link
    let first ← (s.lists .waiter).head?
    let i ← (s.sock first).glueingBlock
    let so ← (s.sat i).socket
    guard ((s.sock so).present .waiter = true)
    let s := if (s.sock so).type = .dgram then s.reflect so else s
    return s.unlink .waiter so

def sonewconn (s : SocketStack) (so so2 : SocketPtr) : SocketStack :=
  let t := s.sock so
  let s := s.soget so2 { t with
    live := true
    acceptConn := false
    noFdRef := true
    connected := true
    soError := false
    aborting := false
    sndSpace := true
    pcb := some (.tcp .closed)
    head := some so
    queue := []
    upcall2 := false
    glueingBlock := none
    present := fun _ => false }
  let s := s.modify so fun t => { t with queue := t.queue ++ [so2] }
  s.sowakeup so

end SocketStack

/-- The socket of `create` and of `newconn` comes from the pool. -/
inductive StackAction
  | openSocket (i : Slot) (parent : Option Selector) (type : SoType) (pid : Nat) (so : SocketPtr)
  | setSocketRing (i : Slot) (parent : Option Selector) (pid : Nat) (so : SocketPtr)
  | setSocketSelect (i : Slot) (parent : Option Selector) (pid : Nat)
  | close (i : Slot)
  | decline (so : SocketPtr)
  | listen (i : Slot)
  | txPoolEmpty (i : Slot)
  | shutdown (i : Slot) (rd wr : Bool)
  | kick (i : Slot)
  | linger (i : Slot) (time : Option Nat)
  | process (k : ReadyList)
  | newconn (so so2 : SocketPtr)
  | abort (so so2 : SocketPtr)
  | connecting (so : SocketPtr)
  | connected (so : SocketPtr)
  | disconnected (so : SocketPtr)
  | tcpState (so : SocketPtr) (state : TcpState)
  | tcpClose (so : SocketPtr)
  | tcpDrop (so : SocketPtr)
  | buffers (so : SocketPtr) (sndSpace soError : Bool)
  | data (so : SocketPtr)

namespace SocketStack

def hasTcp (s : SocketStack) (so : SocketPtr) : Bool :=
  match (s.sock so).pcb with
  | some (.tcp _) => (s.sock so).live
  | _ => false

end SocketStack

/-- One step; `none` where an action does not apply, and where the server crashes, panics or does
not come back. `data` stands for data or an acknowledgement on a socket. -/
def stackStep (s : SocketStack) : StackAction → Option SocketStack
  | .openSocket i parent type pid so => do
    guard ((s.sock so).live = false)
    return s.openSocket i parent type pid so
  | .setSocketRing i parent pid so => return s.setSocketRing i parent pid so
  | .setSocketSelect i parent pid => s.setSocketSelect i parent pid
  | .close i => s.close i
  | .decline so => s.closeSocket so
  | .listen i => s.listen i
  | .txPoolEmpty i => return s.processTxEmpty i
  | .shutdown i rd wr => return s.soshutdown i rd wr
  | .kick i => do
    let so ← (s.sat i).socket
    return s.reflect so
  | .linger i time => do
    let so ← (s.sat i).socket
    return s.modify so fun t => { t with linger := time }
  | .process k => s.processFirst k
  | .newconn so so2 => do
    guard (s.hasTcp so = true ∧ (s.sock so).acceptConn = true ∧ (s.sock so2).live = false)
    return s.sonewconn so so2
  | .abort so so2 => do
    guard ((s.sock so).live = true ∧ so2 ∈ (s.sock so).queue)
    return (s.dequeueAccept so so2).soabort so2
  | .connecting so => do
    guard ((s.sock so).live = true)
    return s.modify so fun t =>
      { t with connecting := true, connected := false, disconnecting := false }
  | .connected so => do
    guard ((s.sock so).live = true)
    return s.soisconnected so
  | .disconnected so => do
    guard (s.hasTcp so = true)
    return s.soisdisconnected so
  | .tcpState so state => do
    guard (s.hasTcp so = true)
    return s.setTcpState so state
  | .tcpClose so => do
    guard (s.hasTcp so = true)
    return s.tcpClose so
  | .tcpDrop so => do
    guard (s.hasTcp so = true)
    return s.tcpDrop so true
  | .buffers so sndSpace soError => do
    guard ((s.sock so).live = true)
    return s.modify so fun t => { t with sndSpace, soError }
  | .data so => do
    guard ((s.sock so).live = true)
    return (s.reflect so).sowakeup so

end NetbsdDpdk
