import NetbsdDpdk.Fifo
import Mathlib.Algebra.Ring.Nat

/-! The command channel between the applications and the server (`service_common.h`,
`ring_ops.h`): a pool of command buffers and one ring that carries them. -/

namespace NetbsdDpdk

/-- `SERVICE_CONNECTION_POOL_SIZE`: the number of connection slots. -/
abbrev connectionPoolSize : Nat := 16

abbrev selectorPoolSize : Nat := 64

/-- `COMMAND_POOL_SIZE`: buffers in the pool and size of the ring, which holds one less. -/
abbrev commandPoolSize : Nat := 4096 * 2

abbrev dataRingsSize : Nat := 1024

abbrev maxPktBurst : Nat := 32

abbrev Slot := Fin connectionPoolSize

abbrev Selector := Fin selectorPoolSize

instance connectionPoolSize.neZero : NeZero connectionPoolSize := ⟨by decide⟩

instance selectorPoolSize.neZero : NeZero selectorPoolSize := ⟨by decide⟩

abbrev SocketPtr := Nat

inductive SoType
  | stream
  | dgram
  deriving DecidableEq, Repr

/-- `service_cmd_t`: the command and the fields that its sender fills in. A parent index of
`-1` is `none`. -/
inductive ServiceCmd
  | openSocket (ringsetIdx : Slot) (parentIdx : Option Selector) (type : SoType) (pid : Nat)
  | connectBind (ringsetIdx : Slot) (isConnect : Bool) (ipaddr port : Nat)
  | listenSocket (ringsetIdx : Slot)
  | setsockopt (ringsetIdx : Slot) (level optname optval : Nat)
  | txKick (ringsetIdx : Slot)
  | rxKick (ringsetIdx : Slot)
  | accepted (socketDescr : SocketPtr) (ipaddr port : Nat)
  | setSocketRing (ringsetIdx : Slot) (parentIdx : Option Selector) (socketDescr : SocketPtr)
      (pid : Nat)
  | setSocketSelect (ringsetIdx : Slot) (socketSelect : Option Selector) (pid : Nat)
  | close (ringsetIdx : Slot)
  | txPoolEmpty (ringsetIdx : Slot)
  | connectClient (ringsetIdx : Nat)
  | disconnectClient (ringsetIdx : Nat)
  | shutdown (ringsetIdx : Slot) (how : Nat)
  | decline (socketDescr : SocketPtr)
  deriving DecidableEq, Repr

structure CommandChannel where
  pool : List Nat
  ring : Fifo (commandPoolSize - 1) (Nat × ServiceCmd)

namespace CommandChannel

def getFreeCommandBuf (chan : CommandChannel) : Option (Nat × CommandChannel) :=
  match chan.pool with
  | [] => none
  | b :: pool => some (b, { chan with pool })

def freeCommandBuf (chan : CommandChannel) (b : Nat) : CommandChannel :=
  { chan with pool := b :: chan.pool }

def enqueueCommandBuf (chan : CommandChannel) (b : Nat) (cmd : ServiceCmd) :
    Option CommandChannel :=
  (chan.ring.enqueue (b, cmd)).map fun ring => { chan with ring }

def dequeueCommandBuf (chan : CommandChannel) : Option (Nat × ServiceCmd × CommandChannel) :=
  chan.ring.dequeue.map fun ((b, cmd), ring) => (b, cmd, { chan with ring })

variable {chan chan' : CommandChannel} {b : Nat} {cmd : ServiceCmd}

theorem getFreeCommandBuf_eq_some (h : chan.getFreeCommandBuf = some (b, chan')) :
    chan.pool = b :: chan'.pool ∧ chan'.ring = chan.ring := by
  unfold getFreeCommandBuf at h
  split at h
  · cases h
  · next hpool =>
    obtain ⟨rfl, rfl⟩ : _ ∧ _ := by simpa using h
    exact ⟨hpool, rfl⟩

theorem getFreeCommandBuf_eq_none : chan.getFreeCommandBuf = none ↔ chan.pool = [] := by
  unfold getFreeCommandBuf
  split <;> simp_all

theorem enqueueCommandBuf_eq_none :
    chan.enqueueCommandBuf b cmd = none ↔ chan.ring.items.length = commandPoolSize - 1 := by
  simp [enqueueCommandBuf, Fifo.enqueue_eq_none_iff]

theorem enqueueCommandBuf_eq_some (h : chan.enqueueCommandBuf b cmd = some chan') :
    chan.ring.items.length < commandPoolSize - 1 ∧ chan'.pool = chan.pool ∧
      chan'.ring.items = chan.ring.items ++ [(b, cmd)] := by
  obtain ⟨ring, hring, rfl⟩ := Option.map_eq_some_iff.mp h
  obtain ⟨hlt, hitems⟩ := Fifo.enqueue_eq_some_iff.mp hring
  exact ⟨hlt, rfl, hitems⟩

theorem dequeueCommandBuf_eq_some (h : chan.dequeueCommandBuf = some (b, cmd, chan')) :
    chan.ring.items = (b, cmd) :: chan'.ring.items ∧ chan'.pool = chan.pool := by
  obtain ⟨⟨⟨b', cmd'⟩, ring⟩, hring, heq⟩ := Option.map_eq_some_iff.mp h
  obtain ⟨rfl, rfl, rfl⟩ : b' = b ∧ cmd' = cmd ∧ { chan with ring } = chan' := by simpa using heq
  exact ⟨Fifo.dequeue_eq_some_iff.mp hring, rfl⟩

end CommandChannel

end NetbsdDpdk
