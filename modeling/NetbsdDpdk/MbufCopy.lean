import NetbsdDpdk.SockbufRecords
import NetbsdDpdk.Transmit

/-! Copies of the data of a socket buffer (`uipc_mbuf.c`): `m_copym` takes new mbufs whose packet
buffers are clones, so that they share the bytes of the packet buffers they are attached to. -/

namespace NetbsdDpdk

variable {k n : Nat}

def mCopyall : Nat := 1000000000

/-- The mbufs, with the packet buffer whose data each indirect packet buffer shares. -/
structure CloneMem (k n : Nat) where
  mem : MbufMem k n
  attached : Fin n → Option (Fin n) := fun _ => none

namespace CloneMem

def updateRte (m : CloneMem k n) (f : Memory n → Memory n) : CloneMem k n :=
  { m with mem := { m.mem with rte := f m.mem.rte } }

def owner (m : CloneMem k n) (p : Fin n) : Fin n := (m.attached p).getD p

def dataBuffer (m : CloneMem k n) (x : Fin k) : Option (Fin n) :=
  (m.mem.mbuf x).mPaddr.map fun p => (m.attached p).getD p

def mbufData (m : CloneMem k n) (x : Fin k) : List UInt8 :=
  match m.dataBuffer x with
  | some d => bytesAt (m.mem.rte.cell d).buf (m.mem.mbuf x).mData.toNat (m.mem.mbuf x).mLen
  | none => []

def chainData (m : CloneMem k n) (xs : List (Fin k)) : List UInt8 := xs.flatMap m.mbufData

/-- `rte_pktmbuf_attach`: `mi` takes over `buf_addr` of `md`, but it is `md` that gets the
reference, whether its data is its own or not. -/
def pktmbufAttach (m : CloneMem k n) (mi md : Fin n) : CloneMem k n :=
  let m := m.updateRte fun rte =>
    (rte.modify md fun c => { c with refcnt := (c.refcnt + 1) % 65536 }).modify mi fun c =>
      { c with
        dataOff := (rte.cell md).dataOff, dataLen := (rte.cell md).dataLen
        next := none, pktLen := (rte.cell md).dataLen, nbSegs := 1 }
  { m with attached := Function.update m.attached mi (some (m.owner md)) }

/-- `rte_pktmbuf_detach` of `p`, and the reference that `p` held to `d` is dropped. The buffers of
the indirect pool have no room, so their data offset is 0. -/
def pktmbufDetach (m : CloneMem k n) (p d : Fin n) : CloneMem k n :=
  let m := m.updateRte fun rte => rte.modify p fun c => { c with dataOff := 0, dataLen := 0 }
  let m := { m with attached := Function.update m.attached p none }
  let refcnt := ((m.mem.rte.cell d).refcnt + 65535) % 65536
  let m := m.updateRte fun rte => rte.modify d fun c => { c with refcnt }
  if refcnt = 0 then m.updateRte fun rte => rte.put (rte.cell d).pool d else m

def freeSeg (m : CloneMem k n) (p : Fin n) : CloneMem k n :=
  let refcnt := (m.mem.rte.cell p).refcnt
  let m :=
    if refcnt = 1 ∨ (refcnt + 65535) % 65536 = 0 then
      match m.attached p with
      | some d => m.pktmbufDetach p d
      | none => m
    else m
  m.updateRte fun rte => rte.freeSeg p

def freeChain : Nat → CloneMem k n → Option (Fin n) → Option (CloneMem k n)
  | _, m, none => some m
  | 0, _, some _ => none
  | fuel + 1, m, some p => freeChain fuel (m.freeSeg p) (m.mem.rte.next p)

/-- The loop of `rte_pktmbuf_clone`: `mi` becomes a clone of the segment `md`, behind `prev`.
Returns the number of segments, and false where the pool was empty. -/
def cloneSegs (pool : Nat) :
    Nat → CloneMem k n → Option (Fin n) → Fin n → Fin n → Option (Nat × Bool × CloneMem k n)
  | 0, _, _, _, _ => none
  | fuel + 1, m, prev, mi, md =>
    let m := m.pktmbufAttach mi md
    let m := match prev with
      | some p => m.updateRte fun rte => rte.setNext p (some mi)
      | none => m
    match m.mem.rte.next md with
    | none => some (1, true, m)
    | some md =>
      match m.mem.rte.pktmbufAlloc pool with
      | none => some (1, false, m)
      | some (mj, rte) =>
        (cloneSegs pool fuel (m.updateRte fun _ => rte) (some mi) mj md).map fun (nseg, ok, m) =>
          (nseg + 1, ok, m)

def pktmbufClone (m : CloneMem k n) (pool : Nat) (md : Fin n) :
    Option (Option (Fin n) × CloneMem k n) :=
  match m.mem.rte.pktmbufAlloc pool with
  | none => some (none, m)
  | some (mc, rte) =>
    let pktLen := (m.mem.rte.cell md).pktLen
    match cloneSegs pool n (m.updateRte fun _ => rte) none mc md with
    | none => none
    | some (nseg, ok, m) =>
      let m := m.updateRte fun rte => rte.modify mc fun c => { c with nbSegs := nseg % 256, pktLen }
      if ok then some (some mc, m) else (freeChain n m (some mc)).map fun m => (none, m)

def mFree (m : CloneMem k n) (x : Fin k) : CloneMem k n × Option (Fin k) :=
  let succ := m.mem.mNext x
  let m := match (m.mem.mbuf x).mPaddr with
    | some p =>
      let m := m.freeSeg p
      { m with mem := m.mem.modify x fun b => { b with mPaddr := none } }
    | none => m
  ({ m with mem := { m.mem with mbCache := x :: m.mem.mbCache } }, succ)

def mFreem : Nat → CloneMem k n → Option (Fin k) → Option (CloneMem k n)
  | _, m, none => some m
  | 0, _, some _ => none
  | fuel + 1, m, some x =>
    let (m, succ) := m.mFree x
    mFreem fuel m succ

def mGetIndirect (m : CloneMem k n) (pool : Nat) (toClone : Fin n) (type : MbufType) :
    Option (Option (Fin k) × CloneMem k n) :=
  match m.mem.mbCache with
  | [] => some (none, m)
  | x :: mbCache =>
    let m := { m with mem := { m.mem with mbCache } }
    (m.pktmbufClone pool toClone).map fun (mc, m) =>
      (some x, { m with mem := m.mem.modify x fun b =>
        { b with
          mType := type, mNext := none, mNextpkt := none, mPaddr := mc, mData := 0, mEor := false
          mExtSize := none, mPkthdr := false } })

def skipOff (m : CloneMem k n) : Nat → Option (Fin k) → Nat → Option (Option (Fin k) × Nat)
  | _, p, 0 => some (p, 0)
  | 0, _, _ + 1 => none
  | _ + 1, none, _ + 1 => none
  | fuel + 1, some x, off + 1 =>
    if off + 1 < (m.mem.mbuf x).mLen then some (some x, off + 1)
    else m.skipOff fuel (m.mem.mNext x) (off + 1 - (m.mem.mbuf x).mLen)

/-- The variables of the second loop of `m_copym0`; `np` is where the next mbuf is stored. `cloned`
is not in the code: every clone has been got so far. -/
structure CopyLoop (k n : Nat) where
  m : CloneMem k n
  top : Option (Fin k) := none
  np : Option (Fin k) := none
  cloned : Bool := true

namespace CopyLoop

def store (l : CopyLoop k n) (v : Option (Fin k)) : CopyLoop k n :=
  match l.np with
  | none => { l with top := v }
  | some y =>
    { l with m := { l.m with mem := l.m.mem.modify y fun b => { b with mNext := v } } }

/-- The new mbuf `y` gets `count` bytes of the mbuf `b` from `off` on. -/
def place (l : CopyLoop k n) (y : Fin k) (b : Mbuf k n) (off count : Nat) : CopyLoop k n :=
  let cloned := l.cloned && (l.m.mem.mbuf y).mPaddr.isSome
  let l := l.store (some y)
  let mem := l.m.mem.modify y fun c => { c with mLen := count, mData := b.mData + off }
  { l with m := { l.m with mem }, np := some y, cloned }

/-- The second loop of `m_copym0`, with its exit for a failed allocation; `none` where the process
ends. Returns `cloned` too. -/
def run (pool : Nat) : Nat → CopyLoop k n → Option (Fin k) → Nat → Nat →
    Option (Option (Fin k) × Bool × CloneMem k n)
  | _, l, _, _, 0 => some (l.top, l.cloned, l.m)
  | _, l, none, _, len + 1 => if len + 1 = mCopyall then some (l.top, l.cloned, l.m) else none
  | 0, _, some _, _, _ + 1 => none
  | fuel + 1, l, some x, off, len + 1 =>
    let b := l.m.mem.mbuf x
    match b.mPaddr, b.mExtSize with
    | some md, none =>
      match l.m.mGetIndirect pool md b.mType with
      | none => none
      | some (none, m) =>
        let l := { l with m }.store none
        (l.m.mFreem k l.top).map fun m => (none, l.cloned, m)
      | some (some y, m) =>
        let count := min (len + 1) (b.mLen - off)
        let l := { l with m }.place y b off count
        let len := if len + 1 = mCopyall then len + 1 else len + 1 - count
        if off + count = b.mLen then run pool fuel l (l.m.mem.mNext x) 0 len
        else run pool fuel l (some x) (off + count) len
    | _, _ => none

end CopyLoop

/-- `m_copym`. With `off` 0 it reads `m_flags` of the first mbuf before it looks whether there is
one. -/
def mCopym (m : CloneMem k n) (pool : Nat) (p : Option (Fin k)) (off len : Nat) :
    Option (Option (Fin k) × Bool × CloneMem k n) :=
  if off = 0 ∧ p = none then none
  else (m.skipOff k p off).bind fun r => CopyLoop.run pool (k + 1) { m } r.1 r.2 len

theorem mCopym_some (m : CloneMem k n) (pool : Nat) (x : Fin k) (off len : Nat) :
    m.mCopym pool (some x) off len =
      (m.skipOff k (some x) off).bind fun r => CopyLoop.run pool (k + 1) { m } r.1 r.2 len :=
  if_neg (by simp)

theorem run_of_mCopym {m : CloneMem k n} {pool off len : Nat} {p : Option (Fin k)}
    {r : Option (Fin k) × Bool × CloneMem k n} (h : m.mCopym pool p off len = some r) :
    ((m.skipOff k p off).bind fun r => CopyLoop.run pool (k + 1) { m } r.1 r.2 len) = some r := by
  rw [mCopym] at h
  exact (Option.ite_none_left_eq_some.mp h).2

/-- What `memcpy` reads of the mbuf `x`, `count` bytes from `off` on; `none` without a packet
buffer. -/
def readAt (m : CloneMem k n) (x : Fin k) (off count : Nat) : Option (List UInt8) :=
  match m.dataBuffer x with
  | some d => some (bytesAt (m.mem.rte.cell d).buf ((m.mem.mbuf x).mData + off).toNat count)
  | none => if count = 0 then some [] else none

def copydataLoop (m : CloneMem k n) : Nat → Option (Fin k) → Nat → Nat → Option (List UInt8)
  | _, _, _, 0 => some []
  | 0, _, _, _ + 1 => none
  | _ + 1, none, _, _ + 1 => none
  | fuel + 1, some x, off, len + 1 =>
    let count := min ((m.mem.mbuf x).mLen - off) (len + 1)
    (m.readAt x off count).bind fun bs =>
      (m.copydataLoop fuel (m.mem.mNext x) 0 (len + 1 - count)).map fun rest => bs ++ rest

def mCopydata (m : CloneMem k n) (p : Option (Fin k)) (off len : Nat) : Option (List UInt8) :=
  (m.skipOff k p off).bind fun r => m.copydataLoop k r.1 r.2 len

end CloneMem

end NetbsdDpdk
