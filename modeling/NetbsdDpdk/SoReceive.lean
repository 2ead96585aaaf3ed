import NetbsdDpdk.StackMbuf
import Mathlib.Tactic.Ring

/-! `soreceive` takes the first record off a receive buffer, links the packet buffers of its mbufs
into one chain and frees the mbufs on the way; `app_glue_receive` hands the chain out. -/

namespace NetbsdDpdk

variable {k n : Nat}

/-- `chain_rte_mbufs`, with the wrap-around of the fields it writes. -/
def Memory.chainRteMbufs (mem : Memory n) (head : Fin n) (prev : Option (Fin n)) (mbuf : Fin n)
    (buf : Int) (length : Nat) : Memory n :=
  let mem := mem.modify mbuf fun m => { m with dataLen := length % 65536 }
  let mem := match prev with
    | none =>
      mem.modify head fun m => { m with pktLen := length % 4294967296, nbSegs := 1 }
    | some prev =>
      let mem := mem.modify head fun m => { m with pktLen := (m.pktLen + length) % 4294967296 }
      let mem := mem.setNext prev (some mbuf)
      mem.modify head fun m => { m with nbSegs := (m.nbSegs + 1) % 256 }
  let mem := mem.setNext mbuf none
  mem.modify mbuf fun m =>
    { m with dataOff := ((m.dataOff + (buf - m.dataOff)) % 65536 : Int).toNat }

structure RcvSocket (k n : Nat) where
  mem : MbufMem k n
  soRcv : Sockbuf k
  soError : Int := 0
  isConnected : Bool := true
  isConnecting : Bool := false
  cantRcvMore : Bool := false
  rcvAtMark : Bool := false
  prAddr : Bool := false
  prConnRequired : Bool := true

/-- `mp` is where the loop of `soreceive` stores the next mbuf: the caller's `mp0`, or the `m_next`
of an mbuf. -/
structure RcvLoop (k n : Nat) where
  sock : RcvSocket k n
  mp0 : Option (Fin k) := none
  mp : Option (Fin k) := none
  prev : Option (Fin n) := none
  eor : Bool := false

namespace RcvLoop

def store (l : RcvLoop k n) (v : Option (Fin k)) : RcvLoop k n :=
  match l.mp with
  | none => { l with mp0 := v }
  | some x =>
    { l with sock := { l.sock with
        mem := l.sock.mem.modify x fun m => { m with mNext := v } } }

def moveUp (s : RcvSocket k n) (m nextrecord : Option (Fin k)) : RcvSocket k n :=
  match m with
  | some y =>
    { s with
      mem := s.mem.modify y fun m => { m with mNextpkt := nextrecord }
      soRcv := if nextrecord = none then { s.soRcv with sbLastrecord := some y } else s.soRcv }
  | none => { s with soRcv := { s.soRcv with sbMb := nextrecord }.emptyFixup }

/-- The first half of a round: the mbuf `x` leaves the socket buffer for the place `mp`. -/
def take (l : RcvLoop k n) (h p : Fin n) (x : Fin k) : RcvLoop k n :=
  let m := l.sock.mem.mbuf x
  let s := { l.sock with rcvAtMark := false, soRcv := l.sock.soRcv.sbfree m }
  let l := { l with sock := s, eor := l.eor || m.mEor }.store (some x)
  let mem := { l.sock.mem with
    rte := l.sock.mem.rte.chainRteMbufs h l.prev p m.mData m.mLen }
  let s := { l.sock with mem := mem, soRcv := { l.sock.soRcv with sbMb := mem.mNext x } }
  { l with sock := s, mp := some x, prev := some p }

def release (l : RcvLoop k n) (h p : Fin n) (x : Fin k) : RcvLoop k n :=
  if p ≠ h then { l with sock := { l.sock with mem := (l.sock.mem.mFree x).1 } } else l

/-- One round of the loop for the mbuf `x`; `none` where the code follows a null `m_paddr`. -/
def round (head : Option (Fin n)) (l : RcvLoop k n) (x : Fin k) :
    Option (RcvLoop k n × Option (Fin k)) :=
  match head, (l.sock.mem.mbuf x).mPaddr with
  | some h, some p =>
    let nextrecord := (l.sock.mem.mbuf x).mNextpkt
    let l := l.take h p x
    let succ := l.sock.soRcv.sbMb
    let l := (l.release h p x).store none
    some ({ l with sock := moveUp l.sock succ nextrecord }, succ)
  | _, _ => none

def loop (head : Option (Fin n)) (oob : Bool) :
    Nat → RcvLoop k n → Option (Fin k) → Option (RcvLoop k n)
  | _, l, none => some l
  | 0, _, some _ => none
  | fuel + 1, l, some x =>
    if decide ((l.sock.mem.mbuf x).mType = .oobdata) ≠ oob then some l
    else
      match l.round head x with
      | none => none
      | some (l, m) => if l.eor then some l else loop head oob fuel l m

end RcvLoop

def sbsync (s : RcvSocket k n) (nextrecord : Option (Fin k)) : RcvSocket k n :=
  match s.soRcv.sbMb with
  | some x =>
    { s with
      mem := s.mem.modify x fun m => { m with mNextpkt := nextrecord }
      soRcv := if nextrecord = none then { s.soRcv with sbLastrecord := some x } else s.soRcv }
  | none =>
    match nextrecord with
    | none => { s with soRcv := { s.soRcv with sbMbtail := none, sbLastrecord := none } }
    | some y =>
      { s with soRcv :=
          if (s.mem.mbuf y).mNextpkt = none then
            { s.soRcv with sbMb := some y, sbLastrecord := some y }
          else { s.soRcv with sbMb := some y } }

structure SoReceived (k n : Nat) where
  rc : Int
  sock : RcvSocket k n
  paddr : Option (Fin k) := none
  mp0 : Option (Fin k) := none

def enotconn : Int := 57

def RcvSocket.nothingReceived (s : RcvSocket k n) : SoReceived k n :=
  if s.soError ≠ 0 then { rc := s.soError, sock := { s with soError := 0 } }
  else if s.cantRcvMore then { rc := -1, sock := s }
  else if !s.isConnected && !s.isConnecting && s.prConnRequired then { rc := enotconn, sock := s }
  else { rc := -1, sock := s }

/-- The branch for protocols that put an address before the data. Returns what follows the address
mbuf in the record. -/
def takeAddr (s : RcvSocket k n) (x : Fin k) (wantAddr : Bool) :
    RcvSocket k n × Option (Fin k) :=
  let nextrecord := (s.mem.mbuf x).mNextpkt
  let s := { s with soRcv := s.soRcv.sbfree (s.mem.mbuf x) }
  let succ := s.mem.mNext x
  let mem :=
    if wantAddr then s.mem.modify x fun m => { m with mNext := none } else (s.mem.mFree x).1
  (sbsync { s with mem := mem, soRcv := { s.soRcv with sbMb := succ } } nextrecord, succ)

/-- `soreceive` without `MSG_PEEK` and `MSG_OOB`. `wantAddr` tells whether the caller gave a place
for the address; `none` where the code stops the process or follows a null pointer. -/
def soreceive (s : RcvSocket k n) (wantAddr : Bool) : Option (SoReceived k n) :=
  match s.soRcv.sbMb with
  | none => some s.nothingReceived
  | some x =>
    let head := (s.mem.mbuf x).mPaddr
    let paddr := if s.prAddr && wantAddr then some x else none
    match if s.prAddr then takeAddr s x wantAddr else (s, some x) with
    | (s, none) => some { rc := 0, sock := s, paddr := paddr }
    | (s, some y) =>
      let oob := decide ((s.mem.mbuf y).mType = .oobdata)
      if (s.mem.mbuf y).mType = .control then none
      else
        (RcvLoop.loop head oob k { sock := s } (some y)).map fun l =>
          { rc := 0, sock := l.sock, paddr := paddr, mp0 := l.mp0 }

def appGlueReceive (s : RcvSocket k n) : Option (Int × Option (Fin n) × RcvSocket k n) :=
  match soreceive s false with
  | none => none
  | some r =>
    if r.rc = 0 then
      match r.mp0 with
      | none => none
      | some x =>
        let buf := (r.sock.mem.mbuf x).mPaddr
        let mem := r.sock.mem.modify x fun m => { m with mPaddr := none }
        some (0, buf, { r.sock with mem := (mem.mFree x).1 })
    else some (r.rc, none, r.sock)

end NetbsdDpdk
