import NetbsdDpdk.Mbuf
import NetbsdDpdk.Command

/-! The receiving half of the application library (`ring_ops.h`, `api.c`): taking chains from the
receive ring, cutting them at the requested length, and giving their buffers back. -/

namespace NetbsdDpdk

variable {n : Nat}

/-- `shadow` is the segment at which the next read starts and `shadowNext` what is behind it. -/
structure LocalSocket (n : Nat) where
  rxRing : Fifo (dataRingsSize - 1) (Fin n) := Fifo.empty
  localCache : Fifo 63 (Fin n) := Fifo.empty
  shadow : Option (Fin n) := none
  shadowNext : Option (Fin n) := none
  shadowLenRemainder : Nat := 0
  shadowLenDelivered : Nat := 0
  select : Option Selector := none

/-- What the receiving functions of one socket read and write. -/
structure RxState (n : Nat) where
  mem : Memory n
  sock : LocalSocket n
  ringsetIdx : Slot
  readReadyToApp : Bool
  readyConnections : Fifo (dataRingsSize - 1) Nat
  chan : CommandChannel

structure Received (n : Nat) where
  pdesc : Fin n
  pbuffer : Fin n × Nat
  totalLen : Nat
  firstSegmentLen : Nat

def LocalSocket.popCache (sock : LocalSocket n) : Option (Fin n) × LocalSocket n :=
  match sock.localCache.dequeue with
  | some (p, localCache) => (some p, { sock with localCache })
  | none => (none, sock)

def LocalSocket.refillCache (sock : LocalSocket n) : LocalSocket n :=
  if 0 < sock.rxRing.count then
    let room := if sock.localCache.freeCount > maxPktBurst then maxPktBurst
      else sock.localCache.freeCount
    let (mbufs, rxRing) := sock.rxRing.dequeueBurst room
    { sock with rxRing, localCache := sock.localCache.enqueueBurst mbufs }
  else sock

/-- The receive kick at the end of `service_dequeue_rx_buf`; its enqueue is not checked. -/
def CommandChannel.sendRxKick (chan : CommandChannel) (ringsetIdx : Slot) : CommandChannel :=
  match chan.getFreeCommandBuf with
  | none => chan
  | some (b, chan) => (chan.enqueueCommandBuf b (.rxKick ringsetIdx)).getD chan

def dequeueRxBuf (s : RxState n) : Option (Fin n) × RxState n :=
  let (first, sock) := s.sock.popCache
  let sock := sock.refillCache
  let (mbuf, sock) := match first with
    | some p => (some p, sock)
    | none => sock.popCache
  (mbuf, { s with sock, readReadyToApp := false, chan := s.chan.sendRxKick s.ringsetIdx })

/-- The kept segment, with the length and the offset that were saved for it, linked to what is
behind it. -/
def getFromShadow (s : RxState n) : Option (Fin n) × RxState n :=
  match s.sock.shadow with
  | none => (none, s)
  | some p =>
    let dataLen := s.sock.shadowLenRemainder % 65536
    let pktLen := match s.mem.next p with
      | some q => (dataLen + (s.mem.cell q).pktLen) % 2 ^ 32
      | none => dataLen
    (some p, { s with
      mem := s.mem.modify p fun m => { m with
        dataLen
        dataOff := (m.dataOff + s.sock.shadowLenDelivered) % 65536
        pktLen
        next := s.sock.shadowNext }
      sock := { s.sock with shadow := none, shadowNext := none } })

/-- The segment where the `while` loop stops, the one before it and the length before. -/
def scanExact (mem : Memory n) (total : Nat) :
    Nat → Option (Fin n) → Option (Fin n) → Nat → Option (Option (Fin n) × Option (Fin n) × Nat)
  | _, none, prev, curr => some (none, prev, curr)
  | 0, some _, _, _ => none
  | fuel + 1, some tmp, prev, curr =>
    if (mem.cell tmp).dataLen + curr < total then
      scanExact mem total fuel (mem.next tmp) (some tmp) (curr + (mem.cell tmp).dataLen)
    else some (some tmp, prev, curr)

/-- The two cuts at the segment `tmp`, before the links are cleared: inside `tmp`, or right behind
it. -/
def cutAt (mem : Memory n) (sock : LocalSocket n) (mbuf tmp : Fin n) (curr total : Nat) :
    Memory n × LocalSocket n × Nat :=
  let len := (mem.cell tmp).dataLen
  if curr + len > total then
    let remainder := curr + len - total
    let delivered := len - remainder
    (mem.modify tmp fun m => { m with dataLen := delivered % 65536 },
      { sock with
        shadow := some tmp
        shadowNext := mem.next tmp
        shadowLenRemainder := remainder
        shadowLenDelivered := delivered },
      delivered)
  else
    let sock := match mem.next tmp with
      | none => sock
      | some q =>
        let sock := { sock with shadow := some q, shadowNext := mem.next q }
        match mem.next q with
        | none => sock
        | some r =>
          { sock with shadowLenRemainder := (mem.cell r).dataLen, shadowLenDelivered := 0 }
    (mem, sock, (mem.cell mbuf).dataLen)

/-- The memory, the descriptor, `*total_len` and `*first_segment_len` it leaves. -/
def tryReadExactAmount (mem : Memory n) (sock : LocalSocket n) (mbuf : Fin n) (total : Nat) :
    Option (Memory n × LocalSocket n × Nat × Nat) := do
  let (tmp, prev, curr) ← scanExact mem total n (some mbuf) none 0
  match tmp with
  | some tmp =>
    let (mem, sock, first) := cutAt mem sock mbuf tmp curr total
    let mem := mem.setNext tmp none
    let mem := match prev with
      | some prev => if curr = total then mem.setNext prev none else mem
      | none => mem
    return (mem, sock, total, first)
  | none => return (mem, sock, curr, (mem.cell mbuf).dataLen)

def notifyReadable (s : RxState n) : RxState n :=
  match s.sock.shadow, s.sock.select with
  | some _, some _ =>
    let mask := s.ringsetIdx.val ||| (1 <<< 16)
    { s with readyConnections := (s.readyConnections.enqueue mask).getD s.readyConnections }
  | _, _ => s

def mtod (mem : Memory n) (p : Fin n) : Fin n × Nat := (p, (mem.cell p).dataOff)

def receiveExactFromShadow (s : RxState n) (mbuf : Fin n) (total : Nat) :
    Option (Received n × RxState n) := do
  let (mem, sock, total2, first) ← tryReadExactAmount s.mem s.sock mbuf total
  let s := { s with mem, sock }
  let pbuffer := mtod s.mem mbuf
  if 0 < total2 ∧ total2 < total then
    match dequeueRxBuf s with
    | (none, s) =>
      return (⟨mbuf, pbuffer, total2, first⟩, notifyReadable s)
    | (some mbuf2, s) =>
      let (mem, sock, total3, _) ← tryReadExactAmount s.mem s.sock mbuf2 (total - total2)
      let last ← mem.lastseg mbuf
      let s := { s with mem := mem.setNext last (some mbuf2), sock }
      return (⟨mbuf, pbuffer, total2 + total3, first⟩, notifyReadable s)
  else
    return (⟨mbuf, pbuffer, total, first⟩, notifyReadable s)

def receiveAllFromShadow (s : RxState n) (mbuf : Fin n) : Option (Received n × RxState n) := do
  let (mbuf2, s) := dequeueRxBuf s
  let last ← s.mem.lastseg mbuf
  let mem := s.mem.setNext last mbuf2
  let mem := match mbuf2 with
    | some q => mem.modify mbuf fun m =>
        { m with pktLen := (m.pktLen + (mem.cell q).pktLen) % 2 ^ 32 }
    | none => mem
  return (⟨mbuf, mtod mem mbuf, (mem.cell mbuf).pktLen, (mem.cell mbuf).dataLen⟩,
    { s with mem })

/-- `service_receive` when no segment was kept; `none` in the result is the return value `-1`. -/
def receiveFromRing (s : RxState n) (total : Nat) :
    Option (Option (Received n) × RxState n) := do
  match dequeueRxBuf s with
  | (none, s) => return (none, s)
  | (some mbuf, s) =>
    if 0 < total then
      let (mem, sock, total2, first) ← tryReadExactAmount s.mem s.sock mbuf total
      return (some ⟨mbuf, mtod mem mbuf, total2, first⟩, notifyReadable { s with mem, sock })
    else
      let m := s.mem.cell mbuf
      return (some ⟨mbuf, mtod s.mem mbuf, m.pktLen, m.dataLen⟩, s)

/-- The outer `none` is a walk that does not come to an end. -/
def serviceReceive (s : RxState n) (total : Nat) : Option (Option (Received n) × RxState n) :=
  match getFromShadow s with
  | (none, s) => receiveFromRing s total
  | (some mbuf, s) =>
    if 0 < total then
      (receiveExactFromShadow s mbuf total).map fun (r, s) => (some r, s)
    else
      (receiveAllFromShadow s mbuf).map fun (r, s) => (some r, s)

/-- The inner loop of `service_release_rx_buffer`: up to `MAX_PKT_BURST` segments whose last
reference is dropped; it stops for good at the kept segment. -/
def releaseBurst (shadow : Option (Fin n)) :
    Nat → Memory n → Option (Fin n) → List (Fin n) →
      Option (Memory n × Option (Fin n) × List (Fin n))
  | _, mem, none, mbufs => some (mem, none, mbufs)
  | fuel, mem, some p, mbufs =>
    if mbufs.length < maxPktBurst then
      if some p = shadow then some (mem, none, mbufs)
      else match fuel with
        | 0 => none
        | fuel + 1 =>
          match mem.prefreeSeg p with
          | (mem', true) =>
            releaseBurst shadow fuel (mem'.setNext p none) (mem.next p) (mbufs ++ [p])
          | (mem', false) => releaseBurst shadow fuel mem' (mem.next p) mbufs
    else some (mem, some p, mbufs)

/-- `service_release_rx_buffer`: each burst goes to the pool of its first segment. -/
def releaseRxBuffer (shadow : Option (Fin n)) :
    Nat → Memory n → Option (Fin n) → Option (Memory n)
  | _, mem, none => some mem
  | 0, _, some _ => none
  | fuel + 1, mem, some p => do
    let (mem, mbuf, mbufs) ← releaseBurst shadow n mem (some p) []
    let mem := match mbufs with
      | [] => mem
      | first :: _ => mem.putBulk (mem.cell first).pool mbufs
    releaseRxBuffer shadow fuel mem mbuf

def serviceReleaseRxBuffer (s : RxState n) (pdesc : Fin n) : Option (RxState n) :=
  (releaseRxBuffer s.sock.shadow n s.mem (some pdesc)).map fun mem => { s with mem }

def flushRx (s : RxState n) : Option (RxState n) := do
  let mem ← (s.sock.localCache.items ++ s.sock.rxRing.items).foldlM
    (fun mem p => Memory.freeChain n mem (some p)) s.mem
  let mem ← Memory.freeChain n mem s.sock.shadow
  let mem ← Memory.freeChain n mem s.sock.shadowNext
  return { s with
    mem
    sock := { s.sock with
      localCache := Fifo.empty
      rxRing := Fifo.empty
      shadow := none
      shadowNext := none
      shadowLenRemainder := 0
      shadowLenDelivered := 0 } }

def serviceClose (s : RxState n) : Option (RxState n) :=
  match s.chan.getFreeCommandBuf with
  | none => some s
  | some (b, chan) =>
    flushRx { s with
      chan := (chan.enqueueCommandBuf b (.close s.ringsetIdx)).getD (chan.freeCommandBuf b) }

end NetbsdDpdk
