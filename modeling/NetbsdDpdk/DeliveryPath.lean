import NetbsdDpdk.ReceiveCall
import NetbsdDpdk.SocketClose

/-! The way of received data from the stack to the application: `so_rcv`, the list of readable
sockets, `process_rx_ready_sockets` with `user_data_available_cbk`, the receive ring, and the
RX_KICK commands that `service_dequeue_rx_buf` sends. One stream socket is followed; the list also
holds others. The application's call and the server's handlers are interleaved step by step. -/

namespace NetbsdDpdk

def TcpState.haveRcvdFin : TcpState → Bool
  | .closeWait | .closing | .lastAck | .timeWait => true
  | _ => false

def TcpState.acceptsData (state : TcpState) : Bool := state.haveEstablished && !state.haveRcvdFin

/-- Where the server stands. `rest` is `none` in a callback for RX_KICK, and holds the rounds left
in one from `process_rx_ready_sockets`. -/
inductive DeliveryPc
  | idle
  | appended
  | passing (left : Nat)
  | called (rest : Option Nat)
  | reading (ringFree : Nat) (rest : Option Nat)
  | submitting (mbuf : Nat) (segs : List Nat) (ringFree : Nat) (rest : Option Nat)
  deriving DecidableEq

inductive DeliveryCmd
  | rxKick
  | shutdown
  | other
  deriving DecidableEq

/-- `soRcv` holds the mbufs of the one record of a stream, `queueLen` is `read_sockets_queue_len`.
The last five fields are not in the code: the mbufs that have arrived and that were put on the ring,
whether data was announced since the last pass began, what had arrived when a pass with room on the
ring began after such an arrival, and the same for the passes that have ended. -/
structure DeliveryState where
  stack : SocketStack
  queueLen : Nat := 0
  soRcv : List Nat := []
  call : RxCall := {}
  commands : List DeliveryCmd := []
  server : DeliveryPc := .idle
  arrived : Nat := 0
  delivered : Nat := 0
  fresh : Bool := false
  due : Nat := 0
  settled : Nat := 0

inductive DeliveryAction
  | arrive (x : Nat) (xs : List Nat)
  | upcall
  | wake (x : SocketPtr)
  | leave (x : SocketPtr)
  | finAcked
  | pass
  | round
  | process
  | command (c : DeliveryCmd)
  | receive

namespace DeliveryState

def sock (s : DeliveryState) (so : SocketPtr) : Socket := s.stack.sock so

def setStack (s : DeliveryState) (stack : SocketStack) : DeliveryState :=
  { s with
    stack := stack
    queueLen := s.queueLen + ((stack.lists .read).length - (s.stack.lists .read).length) }

def accepts (s : DeliveryState) (so : SocketPtr) : Bool :=
  !(s.sock so).disconnected &&
    match (s.sock so).pcb with
    | some (.tcp state) => state.acceptsData
    | _ => false

def resume (s : DeliveryState) : Option Nat → DeliveryState
  | none => { s with server := .idle }
  | some left => { s with server := .passing left, queueLen := s.queueLen - 1 }

/-- The next step of the handler that the server is in. One `app_glue_receive` takes the record of a
stream whole. Other sockets concern other slots. -/
def round (s : DeliveryState) (so : SocketPtr) : Option DeliveryState :=
  match s.server with
  | .idle | .appended => none
  | .passing 0 => some { s with server := .idle, settled := s.due }
  | .passing (left + 1) =>
    match s.stack.lists .read with
    | [] => some { s with server := .idle, settled := s.due }
    | x :: _ =>
      if x = so then
        some { s with stack := s.stack.unlink .read x, server := .called (some left) }
      else
        some { s with
          stack := s.stack.unlink .read x, server := .passing left, queueLen := s.queueLen - 1 }
  | .called rest => some { s with server := .reading s.call.rx.freeCount rest }
  | .reading 0 rest => some (s.resume rest)
  | .reading (ringFree + 1) rest =>
    match s.soRcv with
    | [] => some (s.resume rest)
    | x :: xs => some { s with soRcv := [], server := .submitting x xs ringFree rest }
  | .submitting x xs ringFree rest =>
    match s.call.rx.enqueue (.data ⟨x, 0⟩) with
    | none => some (s.resume rest)
    | some rx => some { s with
        call := { s.call with rx := rx }
        delivered := s.delivered + (xs.length + 1)
        server := .reading ringFree rest }

def process (s : DeliveryState) (i : Slot) : Option DeliveryState :=
  match s.commands with
  | [] => none
  | .rxKick :: cs => some { s with commands := cs, server := .called none }
  | .shutdown :: cs => some { s.setStack (s.stack.soshutdown i false true) with commands := cs }
  | .other :: cs => some { s with commands := cs }

end DeliveryState

def deliveryStep (so : SocketPtr) (i : Slot) (s : DeliveryState) :
    DeliveryAction → Option DeliveryState
  | .arrive x xs => do
    guard (s.server = .idle ∧ s.accepts so = true)
    return { s with
      soRcv := s.soRcv ++ x :: xs
      arrived := s.arrived + (xs.length + 1)
      server := .appended }
  | .upcall => do
    guard (s.server = .appended)
    return { s.setStack (s.stack.sowakeup so) with server := .idle, fresh := true }
  | .wake x => do
    guard (s.server = .idle)
    return s.setStack (s.stack.sowakeup x)
  | .leave x => do
    guard (s.server = .idle ∧ x ≠ so)
    return { s with stack := s.stack.remove .read x }
  | .finAcked => do
    guard (s.server = .idle ∧ (s.sock so).pcb = some (.tcp .finWait1))
    return { s with stack := s.stack.setTcpState so .finWait2 }
  | .pass => do
    guard (s.server = .idle)
    return { s with
      server := .passing s.queueLen
      fresh := false
      due := if s.fresh ∧ 0 < s.call.rx.freeCount then s.arrived else s.due }
  | .round => s.round so
  | .process => do
    guard (s.server = .idle)
    s.process i
  | .command c => some { s with commands := s.commands ++ [c] }
  | .receive =>
    match s.call.pc with
    | .taken _ => some { s with call := s.call.advance, commands := s.commands ++ [.rxKick] }
    | _ => some { s with call := s.call.advance }

inductive Round (so : SocketPtr) (s : DeliveryState) : DeliveryState → Prop
  | ended {left : Nat} (hserver : s.server = .passing left)
      (hlast : left = 0 ∨ s.stack.lists .read = []) :
      Round so s { s with server := .idle, settled := s.due }
  | own {left : Nat} {xs : List SocketPtr} (hserver : s.server = .passing (left + 1))
      (hlist : s.stack.lists .read = so :: xs) :
      Round so s { s with stack := s.stack.unlink .read so, server := .called (some left) }
  | other {left : Nat} {x : SocketPtr} {xs : List SocketPtr}
      (hserver : s.server = .passing (left + 1)) (hlist : s.stack.lists .read = x :: xs)
      (hne : so ≠ x) :
      Round so s { s with
        stack := s.stack.unlink .read x, server := .passing left, queueLen := s.queueLen - 1 }
  | count {rest : Option Nat} (hserver : s.server = .called rest) :
      Round so s { s with server := .reading s.call.rx.freeCount rest }
  | stop {ringFree : Nat} {rest : Option Nat} (hserver : s.server = .reading ringFree rest)
      (hstop : ringFree = 0 ∨ s.soRcv = []) : Round so s (s.resume rest)
  | take {x : Nat} {xs : List Nat} {ringFree : Nat} {rest : Option Nat}
      (hserver : s.server = .reading (ringFree + 1) rest) (hdata : s.soRcv = x :: xs) :
      Round so s { s with soRcv := [], server := .submitting x xs ringFree rest }
  | refused {x : Nat} {xs : List Nat} {ringFree : Nat} {rest : Option Nat}
      (hserver : s.server = .submitting x xs ringFree rest)
      (hfull : s.call.rx.freeCount = 0) : Round so s (s.resume rest)
  | submit {x : Nat} {xs : List Nat} {ringFree : Nat} {rest : Option Nat}
      {rx : Fifo (dataRingsSize - 1) RxItem} (hserver : s.server = .submitting x xs ringFree rest)
      (hfree : rx.freeCount = s.call.rx.freeCount - 1) :
      Round so s { s with
        call := { s.call with rx := rx }
        delivered := s.delivered + (xs.length + 1)
        server := .reading ringFree rest }

theorem round_cases {so : SocketPtr} {s t : DeliveryState} (ht : s.round so = some t) :
    Round so s t := by
  unfold DeliveryState.round at ht
  split at ht
  · cases ht
  · cases ht
  · next hserver =>
    cases ht
    exact .ended hserver (.inl rfl)
  · next left hserver =>
    split at ht
    · next hnil =>
      cases ht
      exact .ended hserver (.inr hnil)
    · next x xs hlist =>
      split at ht
      · next heq =>
        cases ht
        subst heq
        exact .own hserver hlist
      · next hne =>
        cases ht
        exact .other hserver hlist (Ne.symm hne)
  · next rest hserver =>
    cases ht
    exact .count hserver
  · next rest hserver =>
    cases ht
    exact .stop hserver (.inl rfl)
  · next ringFree rest hserver =>
    split at ht
    · next hnil =>
      cases ht
      exact .stop hserver (.inr hnil)
    · next x xs hdata =>
      cases ht
      exact .take hserver hdata
  · next x xs ringFree rest hserver =>
    split at ht
    · next hnone =>
      cases ht
      have hlen := Fifo.enqueue_eq_none_iff.mp hnone
      exact .refused hserver (by simp [Fifo.freeCount, Fifo.count, hlen])
    · next rx hrx =>
      cases ht
      obtain ⟨-, hitems⟩ := Fifo.enqueue_eq_some_iff.mp hrx
      refine .submit hserver ?_
      simp only [Fifo.freeCount, Fifo.count, hitems, List.length_append, List.length_singleton]
      omega

end NetbsdDpdk
