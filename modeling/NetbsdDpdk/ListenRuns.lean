import NetbsdDpdk.SocketQueues
import NetbsdDpdk.Rounds
import NetbsdDpdk.Transition

/-! Connections on their way through the queues of a listening socket: set up by `sonewconn`,
completed by `soisconnected`, dropped by `sofree` and `soabort`, taken by `user_on_accept`, and
discarded by `app_glue_close_socket` and `soclose`. -/

namespace NetbsdDpdk

abbrev somaxconn : Int := 128

/-- `live` tells whether the socket is out of the pool, `pcb` whether `so_pcb` is set. -/
structure ListenSocket where
  live : Bool := false
  acceptConn : Bool := false
  acceptFilter : Bool := false
  connected : Bool := false
  disconnected : Bool := false
  noFdRef : Bool := false
  aborting : Nat := 0
  pcb : Bool := false
  upcall2 : Bool := false
  acceptPresent : Bool := false
  qlimit : Int := 0

/-- The sockets, with a history: the stamps of the connections completed at a listening socket, and
of those that `user_on_accept` has taken. -/
structure ListenState where
  queues : SocketQueues := .empty
  sock : SocketPtr → ListenSocket := fun _ => {}
  stamp : SocketPtr → Nat := fun _ => 0
  completed : SocketPtr → List Nat := fun _ => []
  accepted : SocketPtr → List Nat := fun _ => []
  clock : Nat := 0

/-- How the server comes to its end: `exit(1)`, a queue shorter than its counter, a panic, an
assertion, no data buffer for `m_get`, and a NULL pointer where an address mbuf, a control block, an
accept filter or what `notify_app_about_accepted_sock` needs should be. -/
inductive ListenFault
  | exit1 | nullSocket | panic | assertion | noBuffers | nullAddress | nullPcb | nullFilter | notify
  deriving DecidableEq, Repr

inductive ConnStatus
  | zero | isConfirming | isConnected
  deriving DecidableEq, Repr

/-- The free mbufs and data buffers, which a pass gives back as it goes, and the connections for
which `notify_app_about_accepted_sock` returns. -/
structure PassEnv where
  mbufs : Nat
  bufs : Nat
  notifies : SocketPtr → Bool

def PassEnv.mGet (env : PassEnv) : Except ListenFault Bool :=
  if env.mbufs = 0 then .ok false else if env.bufs = 0 then .error .noBuffers else .ok true

namespace ListenState

def modify (s : ListenState) (so : SocketPtr) (f : ListenSocket → ListenSocket) : ListenState :=
  { s with sock := Function.update s.sock so (f (s.sock so)) }

def soqinsque (s : ListenState) (head so : SocketPtr) : Soq → ListenState
  | .soQ0 => { s with queues := s.queues.soqinsque head so .soQ0 }
  | .soQ =>
    { s with
      queues := s.queues.soqinsque head so .soQ
      stamp := Function.update s.stamp so s.clock
      completed := Function.update s.completed head (s.completed head ++ [s.clock])
      clock := s.clock + 1 }

def soqremque (s : ListenState) (so : SocketPtr) (q : Soq) : ListenState :=
  { s with queues := (s.queues.soqremque so q).1 }

/-- A listening socket goes on the accept list. -/
def sorwakeup (s : ListenState) (so : SocketPtr) : ListenState :=
  if (s.sock so).upcall2 ∧ (s.sock so).pcb ∧ (s.sock so).acceptConn ∧
      (s.sock so).disconnected = false then
    s.modify so fun t => { t with acceptPresent := true }
  else s

def soget (s : ListenState) (so : SocketPtr) (t : ListenSocket) : ListenState :=
  { s with queues := s.queues.soget so, sock := Function.update s.sock so t }

def soput (s : ListenState) (so : SocketPtr) : ListenState :=
  s.modify so fun t => { t with live := false }

def release (s : ListenState) (so : SocketPtr) : ListenState :=
  if (s.sock so).aborting = 0 then s.soput so else s

def sofree (s : ListenState) (so : SocketPtr) : ListenState :=
  if (s.sock so).pcb = true ∨ (s.sock so).noFdRef = false then s
  else if (s.queues.soHead so).isSome then
    if (s.queues.soqremque so .soQ0).2 then (s.soqremque so .soQ0).release so else s
  else s.release so

/-- `tcp_close`: `soisdisconnected`, and `in_pcbdetach` with its `sofree`. -/
def tcpClose (s : ListenState) (so : SocketPtr) : ListenState :=
  (s.modify so fun t => { t with disconnected := true, connected := false, pcb := false }).sofree so

def pruAbort (s : ListenState) (so : SocketPtr) : ListenState :=
  let s := s.modify so fun t => { t with aborting := t.aborting + 1 }
  let s := if (s.sock so).pcb then s.tcpClose so else s
  s.modify so fun t => { t with aborting := t.aborting - 1 }

def soabort (s : ListenState) (so : SocketPtr) : Except ListenFault ListenState :=
  if (s.queues.soHead so).isSome then .error .assertion
  else if (s.sock so).pcb = false ∨ ((s.pruAbort so).sock so).aborting = 0 then
    .ok ((s.pruAbort so).sofree so)
  else .ok (s.pruAbort so)

/-- `soaccept` with an address mbuf or a NULL pointer; without a control block the call of the
protocol returns at once. -/
def soaccept (s : ListenState) (so : SocketPtr) (addr : Bool) : Except ListenFault ListenState :=
  if (s.sock so).noFdRef = false then .error .panic
  else if (s.sock so).disconnected = false ∧ (s.sock so).pcb = true ∧ addr = false then
    .error .nullAddress
  else .ok (s.modify so fun t => { t with noFdRef := false })

def Full (s : ListenState) (head : SocketPtr) : Prop :=
  (3 * (s.sock head).qlimit).tdiv 2 <
    (s.queues.soqlen (head, .soQ)).toInt + (s.queues.soqlen (head, .soQ0)).toInt

instance (s : ListenState) (head : SocketPtr) : Decidable (s.Full head) := by
  unfold Full
  infer_instance

def Listens (s : ListenState) (head : SocketPtr) : Prop :=
  (s.sock head).live = true ∧ (s.sock head).acceptConn = true ∧ (s.sock head).pcb = true

instance (s : ListenState) (head : SocketPtr) : Decidable (s.Listens head) := by
  unfold Listens
  infer_instance

def connQueue : ConnStatus → Soq
  | .zero => .soQ0
  | .isConfirming | .isConnected => .soQ

def child (t : ListenSocket) : ListenSocket where
  live := true
  acceptFilter := t.acceptFilter
  connected := t.connected
  disconnected := t.disconnected
  noFdRef := true

/-- `sonewconn`. What `soget` returns, and the outcomes of `soreserve` and of `PRU_ATTACH`, come
from outside. -/
def sonewconn (s : ListenState) (head : SocketPtr) (connstatus : ConnStatus)
    (got : Option SocketPtr) (reserved attached : Bool) : ListenState :=
  let connstatus := if (s.sock head).acceptFilter then .zero else connstatus
  if s.Full head then s
  else
    match got with
    | none => s
    | some so =>
      let s := s.soget so (child (s.sock head))
      if reserved = false then s.soput so
      else
        let s := s.soqinsque head so (connQueue connstatus)
        if attached = false then (s.soqremque so (connQueue connstatus)).soput so
        else
          let s := s.modify so fun t => { t with pcb := true }
          if connstatus = .zero then s
          else (s.sorwakeup head).modify so fun t =>
            { t with connected := t.connected || decide (connstatus = .isConnected) }

def soisconnected (s : ListenState) (so : SocketPtr) : Except ListenFault ListenState :=
  let s := s.modify so fun t => { t with connected := true }
  match s.queues.soHead so with
  | none => .ok (s.sorwakeup so)
  | some head =>
    if s.queues.soOnq so = some (head, .soQ0) then
      if (s.sock so).acceptFilter then .error .nullFilter
      else .ok (((s.soqremque so .soQ0).soqinsque head so .soQ).sorwakeup head)
    else .ok (s.sorwakeup so)

def solisten (s : ListenState) (so : SocketPtr) (backlog : Int) : ListenState :=
  if (s.sock so).connected then s
  else s.modify so fun t => { t with
    acceptConn := t.acceptConn || (s.queues.soq (so, .soQ)).isEmpty
    qlimit := min (max backlog 0) somaxconn }

def takeFirst (s : ListenState) (so so2 : SocketPtr) : ListenState :=
  { s.soqremque so2 .soQ with
    accepted := Function.update s.accepted so (s.accepted so ++ [s.stamp so2]) }

def announce (s : ListenState) (env : PassEnv) (so2 : SocketPtr) (addr : Bool) :
    RoundResult ListenState ListenFault :=
  match s.soaccept so2 addr with
  | .error e => .fault e
  | .ok s =>
    let s := s.modify so2 fun t => { t with upcall2 := true }
    if (s.sock so2).pcb = false then .fault .nullPcb
    else if env.notifies so2 = false then .fault .notify
    else .again s

def acceptRound (env : PassEnv) (so : SocketPtr) (s : ListenState) :
    RoundResult ListenState ListenFault :=
  if s.queues.soqlen (so, .soQ) = 0#16 then .done s
  else
    match (s.queues.soq (so, .soQ)).head?, env.mGet with
    | _, .error e => .fault e
    | none, .ok _ => .fault .nullSocket
    | some so2, .ok addr =>
      if (s.queues.soqremque so2 .soQ).2 = false then .fault .exit1
      else (s.takeFirst so so2).announce env so2 addr

def orphanRound (env : PassEnv) (so : SocketPtr) (s : ListenState) :
    RoundResult ListenState ListenFault :=
  if s.queues.soqlen (so, .soQ) = 0#16 then .done s
  else
    match (s.queues.soq (so, .soQ)).head?, env.mGet with
    | _, .error e => .fault e
    | none, .ok _ => .fault .nullSocket
    | some so2, .ok addr =>
      if (s.queues.soqremque so2 .soQ).2 = false then .done s
      else
        match (s.soqremque so2 .soQ).soaccept so2 addr with
        | .error e => .fault e
        | .ok s => .again s

def abortFirst (s : ListenState) (so2 : SocketPtr) (q : Soq) :
    RoundResult ListenState ListenFault :=
  match (s.soqremque so2 q).soabort so2 with
  | .error e => .fault e
  | .ok s => .again s

def abortRound (so : SocketPtr) (s : ListenState) : RoundResult ListenState ListenFault :=
  match s.queues.soq (so, .soQ0), s.queues.soq (so, .soQ) with
  | so2 :: _, _ => s.abortFirst so2 .soQ0
  | [], so2 :: _ => s.abortFirst so2 .soQ
  | [], [] => .done s

/-- `pcbLeft` tells whether the protocol keeps its control block after `PRU_DETACH`. -/
def discard (s : ListenState) (so : SocketPtr) (pcbLeft : Bool) : Except ListenFault ListenState :=
  if (s.sock so).noFdRef then .error .panic
  else
    .ok ((s.modify so fun t => { t with
      pcb := t.pcb && pcbLeft && !t.acceptConn
      noFdRef := true }).sofree so)

def soclose (s : ListenState) (so : SocketPtr) (pcbLeft : Bool) :
    Option (Except ListenFault ListenState) :=
  andThen (if (s.sock so).acceptConn then iterate (abortRound so) (s.queues.waiting so + 1) s
    else some (.ok s)) fun s => some (s.discard so pcbLeft)

def closeSocket (s : ListenState) (env : PassEnv) (so : SocketPtr) (pcbLeft : Bool) :
    Option (Except ListenFault ListenState) :=
  andThen (if (s.sock so).acceptPresent then
      andThen (iterate (orphanRound env so) (s.queues.waiting so + 1) s) fun s =>
        some (.ok (s.modify so fun t => { t with acceptPresent := false }))
    else some (.ok s)) fun s => s.soclose so pcbLeft

def userOnAccept (s : ListenState) (env : PassEnv) (so : SocketPtr) :
    Option (Except ListenFault ListenState) :=
  andThen (iterate (acceptRound env so) (s.queues.waiting so + 1) s) fun s =>
    some (.ok (s.modify so fun t => { t with acceptPresent := false }))

end ListenState

/-- The calls of the program, `tcpClose` for a connection that the network drops and `abort` for one
that `syn_cache_get` gives up after `sonewconn`. -/
inductive ListenAction
  | socreate (so : SocketPtr)
  | solisten (so : SocketPtr) (backlog : Int)
  | sonewconn (head : SocketPtr) (connstatus : ConnStatus) (got : Option SocketPtr)
      (reserved attached : Bool)
  | soisconnected (so : SocketPtr)
  | soqinsque (head so : SocketPtr) (q : Soq)
  | soqremque (so : SocketPtr) (q : Soq)
  | userOnAccept (so : SocketPtr) (env : PassEnv)
  | closeSocket (so : SocketPtr) (env : PassEnv) (pcbLeft : Bool)
  | soclose (so : SocketPtr) (pcbLeft : Bool)
  | tcpClose (so : SocketPtr)
  | abort (so : SocketPtr)

def returned {σ ε : Type} : Option (Except ε σ) → Option σ
  | some (.ok s) => some s
  | _ => none

open ListenState in
def listenStep (s : ListenState) : ListenAction → Option ListenState
  | .socreate so => do
    guard ((s.sock so).live = false)
    return s.soget so { live := true, pcb := true, upcall2 := true }
  | .solisten so backlog => do
    guard ((s.sock so).live = true ∧ (s.sock so).noFdRef = false)
    return s.solisten so backlog
  | .sonewconn head connstatus got reserved attached => do
    guard (s.Listens head ∧ ∀ so ∈ got, (s.sock so).live = false)
    return s.sonewconn head connstatus got reserved attached
  | .soisconnected so => do
    guard ((s.sock so).live = true)
    returned (some (s.soisconnected so))
  | .soqinsque head so q => return s.soqinsque head so q
  | .soqremque so q => return s.soqremque so q
  | .userOnAccept so env => returned (s.userOnAccept env so)
  | .closeSocket so env pcbLeft => do
    guard ((s.sock so).live = true)
    returned (s.closeSocket env so pcbLeft)
  | .soclose so pcbLeft => do
    guard ((s.sock so).live = true)
    returned (s.soclose so pcbLeft)
  | .tcpClose so => do
    guard ((s.sock so).live = true ∧ (s.sock so).pcb = true)
    return s.tcpClose so
  | .abort so => do
    guard ((s.sock so).live = true)
    returned (some ((s.soqremque so .soQ).soabort so))

/-- `soqinsque` is called as its callers do: for a socket without file reference on no queue, and a
listening socket that is not full. -/
def ListenUse (s : ListenState) : ListenAction → Prop
  | .soqinsque head so _ =>
    (s.Listens head ∧ ¬ s.Full head) ∧ (s.sock so).live = true ∧
      (s.sock so).noFdRef = true ∧ s.queues.soOnq so = none
  | _ => True

instance (s : ListenState) (a : ListenAction) : Decidable (ListenUse s a) := by
  cases a <;> unfold ListenUse <;> infer_instance

end NetbsdDpdk
