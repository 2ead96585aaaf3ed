import NetbsdDpdk.StackMbuf
import NetbsdDpdk.Command

/-! The two buffers of a stream socket: appending a chain of mbufs, dropping bytes from the front,
and the credit of the connection slot that both tell the application side. -/

namespace NetbsdDpdk

variable {k n : Nat}

def wrap32 (z : Int) : Int := z.bmod 4294967296

/-- `txExact` is not in the code: it is what `txSpace` would be without wrap-around. -/
structure TxSlot where
  ringsetIdx : Slot
  parentIdx : Option Selector := none
  txSpace : Int := 0
  txExact : Int := 0
  writeReadyToApp : Bool := false
  writeDoneFromApp : Bool := false
  readyConnections : Fifo (dataRingsSize - 1) Nat := Fifo.empty

namespace TxSlot

/-- `service_mark_writable`, without the signal to the application. -/
def markWritable (t : TxSlot) : TxSlot :=
  match t.parentIdx with
  | none => t
  | some _ =>
    if t.writeReadyToApp then t
    else
      let mask := t.ringsetIdx.val ||| (2 <<< 16)
      { t with
        writeReadyToApp := true
        readyConnections := (t.readyConnections.enqueue mask).getD t.readyConnections }

/-- `user_set_socket_tx_space`. -/
def setTxSpace (t : TxSlot) (count : Int) : TxSlot :=
  { t with txSpace := wrap32 count, txExact := count }

/-- `service_reflect_tx_socket_buf` for a socket with a glueing block. -/
def reflect (t : TxSlot) (count : Int) : TxSlot :=
  let u := { t with txSpace := wrap32 (t.txSpace + count), txExact := t.txExact + count }
  if t.txSpace = 0 ∧ 0 < count then u.markWritable else u

end TxSlot

def reflectTxSocketBuf (slot : Option TxSlot) (count : Int) : Option TxSlot :=
  slot.map fun t => t.reflect count

structure StreamSocket (k n : Nat) where
  mem : MbufMem k n
  soSnd : Sockbuf k
  soRcv : Sockbuf k
  slot : Option TxSlot

inductive Side
  | snd
  | rcv
  deriving DecidableEq

namespace StreamSocket

def buf (s : StreamSocket k n) : Side → Sockbuf k
  | .snd => s.soSnd
  | .rcv => s.soRcv

def update (s : StreamSocket k n) (side : Side)
    (r : MbufMem k n × Sockbuf k × Option TxSlot) : StreamSocket k n :=
  match side with
  | .snd => { s with mem := r.1, soSnd := r.2.1, slot := r.2.2 }
  | .rcv => { s with mem := r.1, soRcv := r.2.1, slot := r.2.2 }

end StreamSocket

structure Compress (k n : Nat) where
  mem : MbufMem k n
  sb : Sockbuf k
  n : Option (Fin k)
  eor : Bool := false

namespace Compress

def discards (c : Compress k n) (x : Fin k) : Bool :=
  let m := c.mem.mbuf x
  let o := match m.mNext with
    | some y => some y
    | none => c.n
  m.mLen == 0 && (!c.eor && !m.mEor || o.any fun y => decide ((c.mem.mbuf y).mType = m.mType))

/-- The data of `x` fits behind the last mbuf. `M_TRAILINGSPACE` is 0, so it has no bytes. -/
def merges (c : Compress k n) (x : Fin k) : Bool :=
  c.n.any fun y => !(c.mem.mbuf y).mEor && (c.mem.mbuf x).mLen == 0 &&
    decide ((c.mem.mbuf y).mType = (c.mem.mbuf x).mType)

def link (c : Compress k n) (x : Fin k) : Compress k n :=
  let mem := match c.n with
    | some y => c.mem.modify y fun m => { m with mNext := some x }
    | none => c.mem
  let sb := match c.n with
    | some _ => c.sb
    | none => { c.sb with sbMb := some x }
  { mem := mem.modify x fun m => { m with mEor := false, mNext := none }
    sb := { sb with sbMbtail := some x }.sballoc (mem.mbuf x)
    n := some x
    eor := c.eor || (c.mem.mbuf x).mEor }

def round (c : Compress k n) (x : Fin k) : Compress k n × Option (Fin k) :=
  let m := c.mem.mbuf x
  if c.discards x then
    let sb := if c.sb.sbLastrecord = some x then { c.sb with sbLastrecord := m.mNext } else c.sb
    ({ c with mem := (c.mem.mFree x).1, sb := sb, eor := c.eor || m.mEor }, m.mNext)
  else if c.merges x then
    ({ c with mem := (c.mem.mFree x).1, eor := c.eor || m.mEor }, m.mNext)
  else (c.link x, m.mNext)

def loop : Nat → Compress k n → Option (Fin k) → Option (Compress k n)
  | _, c, none => some c
  | 0, _, some _ => none
  | fuel + 1, c, some x =>
    let (c, m) := c.round x
    loop fuel c m

def finish (c : Compress k n) : MbufMem k n × Sockbuf k :=
  match c.eor, c.n with
  | true, some y => (c.mem.modify y fun m => { m with mEor := true }, c.sb)
  | _, _ => (c.mem, c.sb)

end Compress

def sbcompress (mem : MbufMem k n) (sb : Sockbuf k) (m last : Option (Fin k)) :
    Option (MbufMem k n × Sockbuf k) :=
  (Compress.loop k { mem := mem, sb := sb, n := last } m).map Compress.finish

def sbappendstream (mem : MbufMem k n) (sb : Sockbuf k) (slot : Option TxSlot) (x : Fin k) :
    Option (MbufMem k n × Sockbuf k × Option TxSlot) :=
  let slot := reflectTxSocketBuf slot (mem.mbuf x).mLen
  (sbcompress mem sb (some x) sb.sbMbtail).map fun (mem, sb) =>
    (mem, { sb with sbLastrecord := sb.sbMb }, slot)

structure Drop (k n : Nat) where
  mem : MbufMem k n
  sb : Sockbuf k
  slot : Option TxSlot
  m : Option (Fin k)
  next : Option (Fin k)

namespace Drop

def free (d : Drop k n) (x : Fin k) : Drop k n :=
  let (mem, succ) := d.mem.mFree x
  { d with mem := mem, sb := d.sb.sbfree (d.mem.mbuf x), m := succ }

def trim (d : Drop k n) (x : Fin k) (len : Nat) : Drop k n :=
  { d with
    mem := d.mem.modify x fun m => { m with mLen := m.mLen - len, mData := m.mData + len }
    sb := { d.sb with sbCc := d.sb.sbCc - len }
    slot := reflectTxSocketBuf d.slot len }

/-- The loop that drops `len` bytes; `none` for the panic, or out of fuel. -/
def bytes : Nat → Drop k n → Nat → Option (Drop k n)
  | _, d, 0 => some d
  | 0, _, _ + 1 => none
  | fuel + 1, d, len + 1 =>
    match d.m with
    | none =>
      match d.next with
      | none => none
      | some x => bytes fuel { d with m := some x, next := (d.mem.mbuf x).mNextpkt } (len + 1)
    | some x =>
      let mLen := (d.mem.mbuf x).mLen
      if len + 1 < mLen then some (d.trim x (len + 1))
      else
        bytes fuel ({ d with slot := reflectTxSocketBuf d.slot mLen }.free x) (len + 1 - mLen)

def empties : Nat → Drop k n → Option (Drop k n)
  | fuel, d =>
    match d.m with
    | none => some d
    | some x =>
      if (d.mem.mbuf x).mLen = 0 then
        match fuel with
        | 0 => none
        | fuel + 1 => empties fuel (d.free x)
      else some d

def settle (d : Drop k n) : MbufMem k n × Sockbuf k × Option TxSlot :=
  let mem := match d.m with
    | some x => d.mem.modify x fun m => { m with mNextpkt := d.next }
    | none => d.mem
  let sb := { d.sb with sbMb := d.m.or d.next }
  let sb := match sb.sbMb with
    | none => { sb with sbMbtail := none, sbLastrecord := none }
    | some x => if (mem.mbuf x).mNextpkt = none then { sb with sbLastrecord := some x } else sb
  (mem, sb, d.slot)

end Drop

def sbdrop (mem : MbufMem k n) (sb : Sockbuf k) (slot : Option TxSlot) (len : Nat) :
    Option (MbufMem k n × Sockbuf k × Option TxSlot) := do
  let next := sb.sbMb.bind fun x => (mem.mbuf x).mNextpkt
  let d ← Drop.bytes (2 * k + 1) { mem := mem, sb := sb, slot := slot, m := sb.sbMb, next := next }
    len
  let d ← Drop.empties k d
  return d.settle

def sbflush : Nat → MbufMem k n → Sockbuf k → Option TxSlot →
    Option (MbufMem k n × Sockbuf k × Option TxSlot)
  | fuel, mem, sb, slot =>
    if sb.sbMbcnt = 0 then some (mem, sb, slot)
    else
      match fuel with
      | 0 => none
      | fuel + 1 =>
        match sbdrop mem sb slot (wrap32 sb.sbCc).toNat with
        | none => none
        | some (mem, sb, slot) => sbflush fuel mem sb slot

end NetbsdDpdk
