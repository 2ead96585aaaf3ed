import NetbsdDpdk.TxCredit

/-! The transmit path: the application puts buffers on the ring of its slot as far as the
advertised space allows, the server takes them off and passes them to `sosend`, and
acknowledgements make room in the send buffer. -/

namespace NetbsdDpdk

open scoped Memory

variable {k n : Nat}

namespace MbufMem

def devMbuf (buf : Int) (totlen : Nat) (pdesc : Fin n) : Mbuf k n :=
  { mData := buf, mLen := totlen, mPaddr := some pdesc, mPkthdr := true, mPktLen := totlen }

def mDevget (mem : MbufMem k n) (buf : Int) (totlen : Nat) (pdesc : Fin n) :
    Option (Fin k × MbufMem k n) :=
  match mem.mbCache with
  | [] => none
  | x :: _ => some (x, mem.placeChain [(x, devMbuf buf totlen pdesc)])

def mFreem : Nat → MbufMem k n → Option (Fin k) → Option (MbufMem k n)
  | _, mem, none => some mem
  | 0, _, some _ => none
  | fuel + 1, mem, some x =>
    let (mem, succ) := mem.mFree x
    mFreem fuel mem succ

def mbufBytes (mem : MbufMem k n) (x : Fin k) : List UInt8 :=
  match (mem.mbuf x).mPaddr with
  | some p => bytesAt (mem.rte.cell p).buf (mem.mbuf x).mData.toNat (mem.mbuf x).mLen
  | none => []

end MbufMem

/-- `appended` is not in the code: all that has been appended to the send buffer. -/
structure SndSocket (k n : Nat) where
  sock : StreamSocket k n
  soError : Int := 0
  isConnected : Bool := true
  isConfirming : Bool := false
  cantSendMore : Bool := false
  appended : List UInt8 := []

namespace SndSocket

def drop (s : SndSocket k n) (top : Fin k) (error : Int) : Option (Int × SndSocket k n) :=
  (s.sock.mem.mFreem k (some top)).map fun mem => (error, { s with sock := { s.sock with mem } })

/-- `PRU_SEND`; `tcpError` is what `tcp_output` returns. -/
def prUsrreqSend (s : SndSocket k n) (top : Fin k) (tcpError : Int) :
    Option (Int × SndSocket k n) :=
  (sbappendstream s.sock.mem s.sock.soSnd s.sock.slot top).map fun r =>
    (tcpError, { s with
      sock := s.sock.update .snd r
      appended := s.appended ++ s.sock.mem.mbufBytes top })

/-- `sosend` without address, control data and flags; `resid` is `top->m_pkthdr.len`. -/
def sosend (s : SndSocket k n) (top : Fin k) (resid tcpError : Int) :
    Option (Int × SndSocket k n) :=
  if resid < 0 then s.drop top 22
  else if s.cantSendMore then s.drop top 32
  else if s.soError ≠ 0 then { s with soError := 0 }.drop top s.soError
  else if !s.isConnected && !s.isConfirming then s.drop top 57
  else if s.sock.soSnd.sbHiwat < resid then s.drop top 40
  else if s.sock.soSnd.sbspace < resid then s.drop top 35
  else s.prUsrreqSend top tcpError

def appGlueSend (s : SndSocket k n) (p : Fin n) (tcpError : Int) : Option (Int × SndSocket k n) :=
  let m := s.sock.mem.rte.cell p
  match s.sock.mem.mDevget m.dataOff m.dataLen p with
  | none => some (-1, s)
  | some (x, mem) => { s with sock := { s.sock with mem } }.sosend x m.dataLen tcpError

end SndSocket

/-- `burst` are the buffers the server has taken off the ring and not yet passed on, `serving` tells
that it is inside `service_on_transmission_opportunity`, and `credit` is how many buffers the
application may still send. `accepted` is not in the code: the data of all buffers that were put on
the ring. -/
structure TxSystem (k n : Nat) where
  so : SndSocket k n
  txRing : Fifo (dataRingsSize - 1) (Fin n) := Fifo.empty
  burst : List (Fin n) := []
  serving : Bool := false
  chan : CommandChannel
  credit : Nat := 0
  accepted : List UInt8 := []

namespace TxSystem

def modifySlot (s : TxSystem k n) (f : TxSlot → TxSlot) : TxSystem k n :=
  { s with so := { s.so with sock := { s.so.sock with slot := s.so.sock.slot.map f } } }

def sendCommand (s : TxSystem k n) (cmd : Slot → ServiceCmd) : TxSystem k n :=
  match s.so.sock.slot, s.chan.getFreeCommandBuf with
  | some t, some (b, chan) =>
    { s with chan := (chan.enqueueCommandBuf b (cmd t.ringsetIdx)).getD (chan.freeCommandBuf b) }
  | _, _ => s

def advertisedSpace (s : TxSystem k n) (freeBufsCount : Nat) : Int :=
  let ringSpace : Int := s.txRing.freeCount
  let rc := if ringSpace > freeBufsCount then (freeBufsCount : Int) else ringSpace
  let txSpace := ((s.so.sock.slot.map TxSlot.txSpace).getD 0).tdiv 1448
  if rc > txSpace then txSpace else rc

def getSocketTxSpace (s : TxSystem k n) (freeBufsCount : Nat) : Int × TxSystem k n :=
  let rc := s.advertisedSpace freeBufsCount
  if rc < 10 then
    (rc, (s.modifySlot fun t => { t with writeReadyToApp := false }).sendCommand .txPoolEmpty)
  else (rc, s)

def fill (s : TxSystem k n) (p : Fin n) (buf : Nat → UInt8) (off len : Nat) : TxSystem k n :=
  let write (m : RteMbuf n) : RteMbuf n :=
    { m with buf := buf, dataOff := off, dataLen := len % 65536, next := none }
  let mem := { s.so.sock.mem with rte := s.so.sock.mem.rte.modify p write }
  { s with so := { s.so with sock := { s.so.sock with mem } } }

/-- `service_send` of the buffer `p`, which the application has filled with `len` bytes at `off`. -/
def serviceSend (s : TxSystem k n) (p : Fin n) (buf : Nat → UInt8) (off len : Nat) :
    TxSystem k n :=
  let s := (s.fill p buf off len).modifySlot fun t => { t with writeReadyToApp := false }
  match s.txRing.enqueue p with
  | some txRing => { s with txRing, accepted := s.accepted ++ (s.so.sock.mem.rte.cell p).data }
  | none => s

def socketKick (s : TxSystem k n) : TxSystem k n :=
  if (s.so.sock.slot.map TxSlot.writeDoneFromApp).getD false then s
  else (s.modifySlot fun t => { t with writeDoneFromApp := true }).sendCommand .txKick

def poll (s : TxSystem k n) : TxSystem k n :=
  let s := s.modifySlot fun t => { t with writeDoneFromApp := false }
  if s.txRing.count = 0 then { s.modifySlot TxSlot.markWritable with serving := false }
  else
    let (burst, txRing) := s.txRing.dequeueBurst s.txRing.count
    { s with burst, txRing }

end TxSystem

inductive TxAction (n : Nat)
  | query (freeBufsCount : Nat)
  | send (p : Fin n) (buf : Nat → UInt8) (off len : Nat)
  | kick
  | opportunity
  | poll
  | sendNext (tcpError : Int)
  | ack (len : Nat)

namespace TxSystem

def waiting (s : TxSystem k n) : List (Fin n) := s.burst ++ s.txRing.items

def lens (s : TxSystem k n) : List Nat :=
  s.waiting.map fun p => (s.so.sock.mem.rte.cell p).dataLen

end TxSystem

/-- One step of either side. The application sends its own buffers, as many as the last look at the
space allowed; the server handles acknowledgements between two opportunities. -/
def txStep (s : TxSystem k n) : TxAction n → Option (TxSystem k n)
  | .query freeBufsCount =>
    let (rc, s) := s.getSocketTxSpace freeBufsCount
    some { s with credit := rc.toNat }
  | .send p buf off len =>
    if (0 < len ∧ len ≤ 1448) ∧ 0 < s.credit ∧ p ∉ s.waiting then
      some { s.serviceSend p buf off len with credit := s.credit - 1 }
    else none
  | .kick => some s.socketKick
  | .opportunity => if s.serving then none else some { s with serving := true }
  | .poll => if s.serving = true ∧ s.burst = [] then some s.poll else none
  | .sendNext tcpError =>
    match s.burst with
    | [] => none
    | p :: burst => (s.so.appGlueSend p tcpError).map fun (_, so) => { s with so, burst }
  | .ack len =>
    if s.serving = false ∧ (len : Int) ≤ s.so.sock.soSnd.sbCc then
      (sbdrop s.so.sock.mem s.so.sock.soSnd s.so.sock.slot len).map fun r =>
        { s with so := { s.so with sock := s.so.sock.update .snd r } }
    else none

structure TxSystem.Initial (s : TxSystem k n) (ys : List (Fin k)) : Prop where
  attached : s.so.sock.Attached ys
  connected : s.so.isConnected = true
  noError : s.so.soError = 0
  canSend : s.so.cantSendMore = false
  waiting : s.waiting = []
  accepted : s.accepted = []
  appended : s.so.appended = []

/-- Buffers of these lengths find room one after the other in a send buffer that holds `cc` bytes
in mbufs that count for `mbcnt`. -/
def Fits (hiwat mbmax : Int) : Int → Int → List Nat → Prop
  | _, _, [] => True
  | cc, mbcnt, l :: ls =>
    cc + l ≤ hiwat ∧ mbcnt + l ≤ mbmax ∧ Fits hiwat mbmax (cc + l) (mbcnt + mSize) ls

theorem Fits.mono {hiwat mbmax cc cc' mbcnt mbcnt' : Int} {ls : List Nat}
    (h : Fits hiwat mbmax cc mbcnt ls) (hcc : cc' ≤ cc) (hmbcnt : mbcnt' ≤ mbcnt) :
    Fits hiwat mbmax cc' mbcnt' ls := by
  induction ls generalizing cc cc' mbcnt mbcnt' with
  | nil => trivial
  | cons l ls ih =>
    obtain ⟨h₁, h₂, h₃⟩ := h
    exact ⟨by omega, by omega, ih h₃ (by omega) (by omega)⟩

theorem Fits.snoc {hiwat mbmax cc mbcnt : Int} {ls : List Nat} {l : Nat}
    (h : Fits hiwat mbmax cc mbcnt ls) (hcc : cc + (ls.sum : Nat) + l ≤ hiwat)
    (hmbcnt : mbcnt + (ls.length * mSize : Nat) + l ≤ mbmax) :
    Fits hiwat mbmax cc mbcnt (ls ++ [l]) := by
  induction ls generalizing cc mbcnt with
  | nil => simpa [Fits] using And.intro hcc hmbcnt
  | cons x xs ih =>
    obtain ⟨h₁, h₂, h₃⟩ := h
    refine ⟨h₁, h₂, ih h₃ ?_ ?_⟩
    · simp only [List.sum_cons] at hcc
      omega
    · simp only [List.length_cons, Nat.add_mul] at hmbcnt
      omega

/-- Each send finds room for its data behind all that is waiting, and an mbuf for each of the
waiting buffers. -/
def RoomForSend (s : TxSystem k n) : TxAction n → Prop
  | .send _ _ _ len =>
    s.so.sock.soSnd.sbCc + (s.lens.sum : Nat) + len ≤ s.so.sock.soSnd.sbHiwat ∧
      s.so.sock.soSnd.sbMbcnt + (s.lens.length * mSize : Nat) + len ≤ s.so.sock.soSnd.sbMbmax ∧
      s.waiting.length < s.so.sock.mem.mbCache.length
  | _ => True

instance (s : TxSystem k n) (a : TxAction n) : Decidable (RoomForSend s a) :=
  match a with
  | .send _ _ _ _ => inferInstanceAs (Decidable (_ ∧ _ ∧ _))
  | .query _ | .kick | .opportunity | .poll | .sendNext _ | .ack _ => isTrue trivial

structure TxInv (s : TxSystem k n) (xs ys : List (Fin k)) : Prop where
  bufs : TwoBuffers s.so.sock.mem s.so.sock.soSnd s.so.sock.soRcv xs ys
  connected : s.so.isConnected = true
  noError : s.so.soError = 0
  canSend : s.so.cantSendMore = false
  stream : s.accepted = s.so.appended ++ s.so.sock.mem.rte.bytes s.waiting
  room : Fits s.so.sock.soSnd.sbHiwat s.so.sock.soSnd.sbMbmax s.so.sock.soSnd.sbCc
    s.so.sock.soSnd.sbMbcnt s.lens
  mbufs : s.waiting.length ≤ s.so.sock.mem.mbCache.length

end NetbsdDpdk
