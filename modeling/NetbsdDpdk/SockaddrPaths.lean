import NetbsdDpdk.ByteOrder
import NetbsdDpdk.DatagramReceive
import NetbsdDpdk.Service

/-! The addresses between the applications and the stack. An application has the `sockaddr_in` of
Linux, the stack that of NetBSD, which begins with a length of its own; `sin_port` and `sin_addr`
are in network byte order on both sides. Connect and bind go through a command, and the glue
converts the port once more; a datagram carries the bytes of the address before its data. -/

namespace NetbsdDpdk

open List

variable {n : Nat}

def htons (v : UInt16) : UInt16 := .ofNat (bswap 2 v.toNat)

def htonl (v : UInt32) : UInt32 := .ofNat (bswap 4 v.toNat)

abbrev afInet : Nat := 2

structure InPart where
  sinPort : UInt16
  sinAddr : UInt32
  sinZero : Fin 8 → UInt8
  deriving DecidableEq

namespace InPart

def bytes (a : InPart) : List UInt8 :=
  bytesOf 2 a.sinPort.toNat ++ (bytesOf 4 a.sinAddr.toNat ++ List.ofFn a.sinZero)

def ofBytes (bs : List UInt8) : InPart where
  sinPort := .ofNat (valueOf (bs.take 2))
  sinAddr := .ofNat (valueOf ((bs.drop 2).take 4))
  sinZero i := (bs.drop 6).getD i 0

end InPart

structure LinuxSockaddrIn extends InPart where
  sinFamily : UInt16
  deriving DecidableEq

structure NetbsdSockaddrIn extends InPart where
  sinLen : UInt8
  sinFamily : UInt8
  deriving DecidableEq

namespace LinuxSockaddrIn

def bytes (x : LinuxSockaddrIn) : List UInt8 := bytesOf 2 x.sinFamily.toNat ++ x.toInPart.bytes

def ofBytes (bs : List UInt8) : LinuxSockaddrIn :=
  { InPart.ofBytes (bs.drop 2) with sinFamily := .ofNat (valueOf (bs.take 2)) }

def encode (addr : UInt32) (port : UInt16) (zero : Fin 8 → UInt8) : LinuxSockaddrIn where
  sinFamily := .ofNat afInet
  sinPort := htons port
  sinAddr := htonl addr
  sinZero := zero

def Same (x y : LinuxSockaddrIn) : Prop :=
  x.sinFamily = y.sinFamily ∧ x.sinAddr = y.sinAddr ∧ x.sinPort = y.sinPort

end LinuxSockaddrIn

namespace NetbsdSockaddrIn

def bytes (y : NetbsdSockaddrIn) : List UInt8 := y.sinLen :: y.sinFamily :: y.toInPart.bytes

def ofBytes (bs : List UInt8) : NetbsdSockaddrIn :=
  { InPart.ofBytes (bs.drop 2) with sinLen := bs.getD 0 0, sinFamily := bs.getD 1 0 }

end NetbsdSockaddrIn

structure PcbAddr where
  family : UInt8
  addr : UInt32
  port : UInt16
  deriving DecidableEq, Repr

structure SonameMbuf where
  mLen : Nat
  data : List UInt8

def SonameMbuf.pcbAddr (nam : SonameMbuf) : PcbAddr :=
  let sin := NetbsdSockaddrIn.ofBytes nam.data
  ⟨sin.sinFamily, sin.sinAddr, sin.sinPort⟩

inductive PcbError
  | einval | eafnosupport | eaddrnotavail
  deriving DecidableEq, Repr

def inPcbconnect (nam : SonameMbuf) : Except PcbError PcbAddr :=
  if nam.mLen ≠ sockaddrInSize then .error .einval
  else if nam.pcbAddr.family ≠ .ofNat afInet then .error .eafnosupport
  else if nam.pcbAddr.port = 0 then .error .eaddrnotavail
  else .ok nam.pcbAddr

/-- `service_connect`, where it gets a command buffer. -/
def serviceConnect (sock : Slot) (x : LinuxSockaddrIn) : Option ServiceCmd :=
  if x.sinFamily ≠ .ofNat afInet then none
  else some (.connectBind sock true x.sinAddr.toNat x.sinPort.toNat)

def appGlueV4Bind (ipaddr : UInt32) (port : UInt16) : SonameMbuf where
  mLen := sockaddrInSize
  data := NetbsdSockaddrIn.bytes
    { sinLen := .ofNat sockaddrInSize, sinFamily := .ofNat afInet, sinAddr := ipaddr
      sinPort := htons port, sinZero := fun _ => 0 }

structure BindTry where
  rand : UInt16
  sobind : NetbsdSockaddrIn → Bool × NetbsdSockaddrIn

/-- The loop that binds a local port; `none` where it still goes on behind the given turns.
`my_port` is not initialised. -/
def bindLoop (myPort : UInt16) : List BindTry → NetbsdSockaddrIn → Option NetbsdSockaddrIn
  | [], _ => none
  | turn :: turns, sin =>
    let port := if myPort ≠ 0 then myPort else turn.rand
    let (failed, sin) := turn.sobind { sin with sinAddr := 0, sinPort := htons port }
    if failed ∧ myPort = 0 then bindLoop myPort turns sin else some sin

/-- The address passed to `soconnect`. `sin` is what lies in the new mbuf, and `sizeof(struct
sockaddr)` is the same 16. -/
def appGlueV4Connect (sin : NetbsdSockaddrIn) (myPort : UInt16) (turns : List BindTry)
    (ipaddr : UInt32) (port : UInt16) : Option SonameMbuf :=
  (bindLoop myPort turns
      { sin with sinLen := .ofNat sockaddrInSize, sinFamily := .ofNat afInet }).map fun sin =>
    { mLen := sockaddrInSize
      data := NetbsdSockaddrIn.bytes
        { sin with sinFamily := .ofNat afInet, sinAddr := ipaddr, sinPort := htons port } }

def processConnect (sin : NetbsdSockaddrIn) (myPort : UInt16) (turns : List BindTry) :
    ServiceCmd → Option SonameMbuf
  | .connectBind _ true ipaddr port =>
    appGlueV4Connect sin myPort turns (.ofNat ipaddr) (.ofNat port)
  | _ => none

/-- The address goes before the data. `rte_pktmbuf_alloc` leaves 128 bytes there. -/
def serviceSendto (mem : Memory n) (p : Fin n) (length : Nat) (x : LinuxSockaddrIn) : Memory n :=
  mem.modify p fun m =>
    { m with dataLen := length, buf := writeBytes m.buf (m.dataOff - sockaddrInSize) x.bytes }

/-- Each buffer with its length and its address. -/
def serviceSendtoBulk (mem : Memory n) : List (Fin n × Nat × LinuxSockaddrIn) → Memory n
  | [] => mem
  | (p, length, x) :: rest => serviceSendtoBulk (serviceSendto mem p length x) rest

def appGlueSendto (mem : Memory n) (p : Fin n) : SonameMbuf where
  mLen := sockaddrInSize
  data := bytesAt (mem.cell p).buf ((mem.cell p).dataOff - sockaddrInSize) sockaddrInSize

/-- The address of the sender that `udp_input` puts before a datagram. -/
def sockaddrInInit (addr : UInt32) (port : UInt16) : NetbsdSockaddrIn where
  sinLen := .ofNat sockaddrInSize
  sinFamily := .ofNat afInet
  sinAddr := addr
  sinPort := port
  sinZero _ := 0

/-- The copy in `app_glue_receivefrom`: the address goes before the data, where the stack has it. -/
def copyAddress (m : RteMbuf n) (mData : Nat) (paddr : NetbsdSockaddrIn) : RteMbuf n :=
  { m with buf := writeBytes m.buf (mData - sockaddrInSize) paddr.bytes }

/-- The bytes before the data, where the packet buffer has it. -/
def serviceReceivefrom (m : RteMbuf n) : LinuxSockaddrIn :=
  .ofBytes (bytesAt m.buf (m.dataOff - sockaddrInSize) sockaddrInSize)

/-- The address stored for what was taken off the ring. -/
def serviceAccept (x : LinuxSockaddrIn) : RxItem → Option LinuxSockaddrIn
  | .accepted _ _ ipaddr port =>
    some { x with sinFamily := .ofNat afInet, sinAddr := .ofNat ipaddr, sinPort := .ofNat port }
  | .data _ => none

def ConnectAsSendto (x : LinuxSockaddrIn) : Prop :=
  ∀ sin myPort turns sock cmd nam, serviceConnect sock x = some cmd →
    processConnect sin myPort turns cmd = some nam →
      ∀ {n : Nat} (mem : Memory n) (p : Fin n) length,
      nam.pcbAddr = (appGlueSendto (serviceSendto mem p length x) p).pcbAddr

def BulkAsSendto (x : LinuxSockaddrIn) : Prop :=
  ∀ {n : Nat} (mem : Memory n) (sends : List (Fin n × Nat × LinuxSockaddrIn)) (p : Fin n) length,
    (sends.map Prod.fst).Nodup → (p, length, x) ∈ sends →
      (appGlueSendto (serviceSendtoBulk mem sends) p).pcbAddr =
        (appGlueSendto (serviceSendto mem p length x) p).pcbAddr

def SendtoInet (x : LinuxSockaddrIn) : Prop :=
  ∀ {n : Nat} (mem : Memory n) (p : Fin n) length,
    (appGlueSendto (serviceSendto mem p length x) p).pcbAddr.family = .ofNat afInet

/-- A datagram from the address `peer` is received with the address `x`. The pointers of the stack
and of the packet buffer are taken to be the same. -/
def ReceivefromGives (peer : PcbAddr) (x : LinuxSockaddrIn) : Prop :=
  ∀ {n : Nat} (m : RteMbuf n),
    (serviceReceivefrom (copyAddress m m.dataOff (sockaddrInInit peer.addr peer.port))).Same x

def AcceptGives (peer : PcbAddr) (x : LinuxSockaddrIn) : Prop :=
  ∀ y b so, ∃ z,
    serviceAccept y (.accepted b so peer.addr.toNat peer.port.toNat) = some z ∧ z.Same x

structure AddressesAgree (x : LinuxSockaddrIn) : Prop where
  connect : ConnectAsSendto x
  bulk : BulkAsSendto x
  family : SendtoInet x
  peers : ∀ sin myPort turns sock cmd nam, serviceConnect sock x = some cmd →
    processConnect sin myPort turns cmd = some nam →
      ReceivefromGives nam.pcbAddr x ∧ AcceptGives nam.pcbAddr x

/-! The two layouts over each other. -/

theorem uint16_of_bytes (v : UInt16) : UInt16.ofNat (valueOf (bytesOf 2 v.toNat)) = v := by
  have hlt : v.toNat < 256 ^ 2 := v.toNat_lt
  rw [valueOf_bytesOf, Nat.mod_eq_of_lt hlt, UInt16.ofNat_toNat]

theorem uint32_of_bytes (v : UInt32) : UInt32.ofNat (valueOf (bytesOf 4 v.toNat)) = v := by
  have hlt : v.toNat < 256 ^ 4 := v.toNat_lt
  rw [valueOf_bytesOf, Nat.mod_eq_of_lt hlt, UInt32.ofNat_toNat]

@[simp] theorem htons_htons (v : UInt16) : htons (htons v) = v := by
  have hlt : bswap 2 v.toNat < 65536 := by
    have hbytes := valueOf_bytesOf 2 (bswap 2 v.toNat)
    rw [bytesOf_bswap] at hbytes
    have hself : bswap 2 v.toNat = bswap 2 v.toNat % 256 ^ 2 := hbytes
    rw [hself]
    exact Nat.mod_lt _ (by decide)
  apply UInt16.toNat_inj.mp
  have hv := v.toNat_lt
  simp only [htons, UInt16.toNat_ofNat', Nat.mod_eq_of_lt hlt, bswap_bswap]
  omega

namespace InPart

@[simp] theorem length_bytes (a : InPart) : a.bytes.length = 14 := by simp [bytes]

@[simp] theorem ofBytes_bytes (a : InPart) : ofBytes a.bytes = a := by
  obtain ⟨port, addr, zero⟩ := a
  have hport : (bytesOf 2 port.toNat).length = 2 := length_bytesOf _ _
  have haddr : (bytesOf 4 addr.toNat).length = 4 := length_bytesOf _ _
  have hdrop : (bytesOf 2 port.toNat ++ (bytesOf 4 addr.toNat ++ List.ofFn zero)).drop 6 =
      List.ofFn zero := by
    rw [← append_assoc, drop_left' (by simp)]
  simp only [ofBytes, bytes, take_left' hport, drop_left' hport, take_left' haddr,
    hdrop, uint16_of_bytes, uint32_of_bytes, mk.injEq, true_and]
  funext i
  simp only [getD_eq_getElem?_getD, List.getElem?_ofFn, i.isLt, dif_pos, Option.getD_some]

end InPart

@[simp] theorem LinuxSockaddrIn.length_bytes (x : LinuxSockaddrIn) :
    x.bytes.length = sockaddrInSize := by simp [bytes, sockaddrInSize]

@[simp] theorem NetbsdSockaddrIn.length_bytes (y : NetbsdSockaddrIn) :
    y.bytes.length = sockaddrInSize := by simp [bytes, sockaddrInSize]

@[simp] theorem NetbsdSockaddrIn.ofBytes_bytes (y : NetbsdSockaddrIn) : ofBytes y.bytes = y := by
  simp [ofBytes, bytes]

theorem NetbsdSockaddrIn.ofBytes_linux (x : LinuxSockaddrIn) : ofBytes x.bytes =
    { x.toInPart with
      sinLen := .ofNat x.sinFamily.toNat, sinFamily := .ofNat (x.sinFamily.toNat / 256) } := by
  simp [ofBytes, LinuxSockaddrIn.bytes, bytesOf_succ]

theorem LinuxSockaddrIn.ofBytes_netbsd (y : NetbsdSockaddrIn) : ofBytes y.bytes =
    { y.toInPart with sinFamily := .ofNat (y.sinLen.toNat + 256 * y.sinFamily.toNat) } := by
  simp [ofBytes, NetbsdSockaddrIn.bytes, valueOf_cons]

/-! What each path does to an address. -/

theorem connect_reaches {sin : NetbsdSockaddrIn} {myPort : UInt16} {turns : List BindTry}
    {sock : Slot} {x : LinuxSockaddrIn} {cmd : ServiceCmd} {nam : SonameMbuf}
    (hcmd : serviceConnect sock x = some cmd)
    (hnam : processConnect sin myPort turns cmd = some nam) :
    nam.pcbAddr = ⟨.ofNat afInet, x.sinAddr, htons x.sinPort⟩ := by
  unfold serviceConnect at hcmd
  split at hcmd
  · cases hcmd
  · cases hcmd
    obtain ⟨sin', -, rfl⟩ := Option.map_eq_some_iff.mp hnam
    simp [SonameMbuf.pcbAddr]

theorem sendto_reaches (mem : Memory n) (p : Fin n) (length : Nat) (x : LinuxSockaddrIn) :
    (appGlueSendto (serviceSendto mem p length x) p).pcbAddr =
      ⟨.ofNat (x.sinFamily.toNat / 256), x.sinAddr, x.sinPort⟩ := by
  have hdata : (appGlueSendto (serviceSendto mem p length x) p).data = x.bytes := by
    simp only [appGlueSendto, serviceSendto, Memory.modify_cell_self]
    rw [← x.length_bytes]
    exact bytesAt_writeBytes _ _ _
  rw [SonameMbuf.pcbAddr, hdata, NetbsdSockaddrIn.ofBytes_linux]

theorem receivefrom_gives (m : RteMbuf n) (addr : UInt32) (port : UInt16) :
    serviceReceivefrom (copyAddress m m.dataOff (sockaddrInInit addr port)) =
      { sinFamily := 528, sinAddr := addr, sinPort := port, sinZero := fun _ => 0 } := by
  have hdata : bytesAt (copyAddress m m.dataOff (sockaddrInInit addr port)).buf
      (m.dataOff - sockaddrInSize) sockaddrInSize = (sockaddrInInit addr port).bytes := by
    rw [← (sockaddrInInit addr port).length_bytes]
    exact bytesAt_writeBytes _ _ _
  rw [serviceReceivefrom]
  show LinuxSockaddrIn.ofBytes (bytesAt _ (m.dataOff - sockaddrInSize) _) = _
  rw [hdata, LinuxSockaddrIn.ofBytes_netbsd]
  rfl

theorem serviceSendto_cell_of_ne (mem : Memory n) {p q : Fin n} (length : Nat) (x : LinuxSockaddrIn)
    (h : q ≠ p) : (serviceSendto mem p length x).cell q = mem.cell q :=
  Memory.modify_cell_of_ne _ _ h

theorem serviceSendtoBulk_cell_of_notMem {mem : Memory n}
    {sends : List (Fin n × Nat × LinuxSockaddrIn)}
    {q : Fin n} (h : q ∉ sends.map Prod.fst) :
    (serviceSendtoBulk mem sends).cell q = mem.cell q := by
  induction sends generalizing mem with
  | nil => rfl
  | cons send sends ih =>
    obtain ⟨p, length, x⟩ := send
    obtain ⟨hqp, hq⟩ : q ≠ p ∧ q ∉ sends.map Prod.fst := by simpa using h
    rw [serviceSendtoBulk, ih hq, serviceSendto_cell_of_ne mem length x hqp]

theorem bulkAsSendto (x : LinuxSockaddrIn) : BulkAsSendto x := by
  intro n mem sends p length hnd hmem
  induction sends generalizing mem with
  | nil => cases hmem
  | cons send sends ih =>
    obtain ⟨q, length', y⟩ := send
    obtain ⟨hq, hnd⟩ := nodup_cons.mp hnd
    rcases mem_cons.mp hmem with heq | hmem
    · cases heq
      have hcell : (serviceSendtoBulk (serviceSendto mem p length x) sends).cell p =
          (serviceSendto mem p length x).cell p := serviceSendtoBulk_cell_of_notMem hq
      rw [serviceSendtoBulk, appGlueSendto, hcell]
      rfl
    · rw [serviceSendtoBulk, ih (serviceSendto mem q length' y) hnd hmem, sendto_reaches,
        sendto_reaches]

theorem acceptGives_iff (peer : PcbAddr) (x : LinuxSockaddrIn) : AcceptGives peer x ↔
    x.sinFamily = .ofNat afInet ∧ peer.addr = x.sinAddr ∧ peer.port = x.sinPort := by
  simp only [AcceptGives, serviceAccept, Option.some.injEq, exists_eq_left', LinuxSockaddrIn.Same,
    UInt32.ofNat_toNat, UInt16.ofNat_toNat]
  constructor
  · intro h
    obtain ⟨hfamily, hpeer⟩ := h x 0 0
    exact ⟨hfamily.symm, hpeer⟩
  · rintro ⟨hfamily, hpeer⟩ y b so
    exact ⟨hfamily.symm, hpeer⟩

/-- Every address that `service_sendto` passes on is refused for its family. -/
theorem sendto_refused (mem : Memory n) (p : Fin n) (length : Nat) (addr : UInt32) (port : UInt16)
    (zero : Fin 8 → UInt8) :
    inPcbconnect (appGlueSendto (serviceSendto mem p length (.encode addr port zero)) p) =
      .error .eafnosupport := by
  have hfamily :
      (appGlueSendto (serviceSendto mem p length (.encode addr port zero)) p).pcbAddr.family =
        0 := by
    rw [sendto_reaches]
    show UInt8.ofNat ((UInt16.ofNat afInet).toNat / 256) = 0
    decide
  have hlen : (appGlueSendto (serviceSendto mem p length (.encode addr port zero)) p).mLen =
      sockaddrInSize := rfl
  rw [inPcbconnect, hlen, hfamily]
  rfl

theorem connect_exists (sock : Slot) (addr : UInt32) (port : UInt16) (zero : Fin 8 → UInt8) :
    ∃ sin turns cmd nam, serviceConnect sock (.encode addr port zero) = some cmd ∧
      processConnect sin 0 turns cmd = some nam :=
  ⟨sockaddrInInit 0 0, [⟨0, fun sin => (false, sin)⟩], _, _, rfl, rfl⟩

/-- An address does not mean the same on every path. Connect and sendto never reach the same, sendto
never reaches one of the right family, receivefrom never returns the right family, and accept
returns the address that a connect has reached only if its port is the same in both byte orders. -/
theorem addresses_never_agree (addr : UInt32) (port : UInt16) (zero : Fin 8 → UInt8) :
    ¬ AddressesAgree (.encode addr port zero) ∧ ¬ ConnectAsSendto (.encode addr port zero) ∧
      BulkAsSendto (.encode addr port zero) ∧ ¬ SendtoInet (.encode addr port zero) ∧
      (∀ peer, ¬ ReceivefromGives peer (.encode addr port zero)) ∧
      ∀ sin myPort turns sock cmd nam, serviceConnect sock (.encode addr port zero) = some cmd →
        processConnect sin myPort turns cmd = some nam →
          (AcceptGives nam.pcbAddr (.encode addr port zero) ↔ htons port = port) := by
  have hinet : ¬ SendtoInet (.encode addr port zero) := by
    intro h
    have hfamily := h (n := 1) { cell := fun _ => {} } 0 0
    rw [sendto_reaches] at hfamily
    revert hfamily
    show ¬ UInt8.ofNat ((UInt16.ofNat afInet).toNat / 256) = UInt8.ofNat afInet
    decide
  have hconnect : ¬ ConnectAsSendto (.encode addr port zero) := by
    intro h
    obtain ⟨sin, turns, cmd, nam, hcmd, hnam⟩ := connect_exists 0 addr port zero
    apply hinet
    intro n mem p length
    rw [← h sin 0 turns 0 cmd nam hcmd hnam mem p length, connect_reaches hcmd hnam]
  refine ⟨fun h => hconnect h.connect, hconnect, bulkAsSendto _, hinet, fun peer h => ?_, ?_⟩
  · have hfamily := (h (n := 1) {}).1
    rw [receivefrom_gives] at hfamily
    revert hfamily
    show ¬ (528 : UInt16) = UInt16.ofNat afInet
    decide
  · intro sin myPort turns sock cmd nam hcmd hnam
    rw [acceptGives_iff, connect_reaches hcmd hnam]
    simp [LinuxSockaddrIn.encode, eq_comm]

def loopbackHttp : LinuxSockaddrIn := .encode 0x7f000001 80 fun _ => 0

theorem connect_sendto_differ :
    ∃ cmd nam, serviceConnect 0 loopbackHttp = some cmd ∧
      processConnect (sockaddrInInit 0 0) 0 [⟨7, fun sin => (false, sin)⟩] cmd = some nam ∧
      inPcbconnect nam = .ok ⟨2, 0x0100007f, 80⟩ ∧
      (appGlueSendto (serviceSendto (n := 1) { cell := fun _ => { dataOff := 128 } } 0 9
        loopbackHttp) 0).pcbAddr = ⟨0, 0x0100007f, 0x5000⟩ ∧
      (serviceReceivefrom (copyAddress (n := 1) { dataOff := 128 } 128
        (sockaddrInInit 0x0100007f 0x5000))).sinFamily = 528 ∧
      ¬ AddressesAgree loopbackHttp := by
  have hsendto : (appGlueSendto (serviceSendto (n := 1) { cell := fun _ => { dataOff := 128 } } 0 9
      loopbackHttp) 0).pcbAddr = ⟨0, 0x0100007f, 0x5000⟩ := by decide +kernel
  refine ⟨_, _, rfl, rfl, by decide +kernel, hsendto, by decide +kernel, fun h => ?_⟩
  have hsame := h.connect (sockaddrInInit 0 0) 0 [⟨7, fun sin => (false, sin)⟩] 0 _ _ rfl rfl
    (n := 1) { cell := fun _ => { dataOff := 128 } } 0 9
  rw [hsendto] at hsame
  revert hsame
  decide +kernel

end NetbsdDpdk
