import NetbsdDpdk.ReadableWakeup

/-! What one connection slot remembers: the shared `service_socket_t`, the two rings, the
satellite data of the server and the local descriptors of the applications, over the successive
connections on the slot. Two histories of a free slot are compared by what the next connection
on it sees. -/

namespace NetbsdDpdk

/-- `service_socket_t`. The space for sending is set when a socket is attached and left out. -/
structure ServiceSocket where
  readReadyToApp : Bool := false
  writeReadyToApp : Bool := false
  writeDoneFromApp : Bool := false
  localIpaddr : Nat := 0
  localPort : Nat := 0

/-- `local_socket_descriptor_t`; `shadow` and `shadow_next` are addresses of packet buffers. -/
structure Descriptor where
  select : Option Selector := none
  localCache : Fifo 63 RxItem := Fifo.empty
  anyEventReceived : Bool := false
  shadow : Option Nat := none
  shadowNext : Option Nat := none
  shadowLenRemainder : Int := 0
  shadowLenDelievered : Int := 0
  localIpaddr : Nat := 0
  localPort : Nat := 0
  remoteIpaddr : Nat := 0
  remotePort : Nat := 0

/-- The slot as `service_init` and `service_app_init` leave it. `free` says that it is on
`free_connections_ring`; every application has a descriptor of its own for it. -/
structure SlotMemory where
  free : Bool := true
  shared : ServiceSocket := {}
  txRing : Fifo (dataRingsSize - 1) Nat := Fifo.empty
  rxRing : Fifo (dataRingsSize - 1) RxItem := Fifo.empty
  sat : Satellite := {}
  desc : Nat → Descriptor := fun _ => {}

namespace Descriptor

def reset (d : Descriptor) : Descriptor :=
  { d with shadow := none, shadowNext := none, shadowLenRemainder := 0, shadowLenDelievered := 0 }

def flush (d : Descriptor) : Descriptor := { d.reset with localCache := Fifo.empty }

end Descriptor

namespace SlotMemory

def setDesc (s : SlotMemory) (a : Nat) (d : Descriptor) : SlotMemory :=
  { s with desc := Function.update s.desc a d }

def openSocket (s : SlotMemory) (a : Nat) (parent : Option Selector) : SlotMemory :=
  let d := (s.desc a).reset
  { s with free := false }.setDesc a
    { d with select := if parent = none then d.select else parent }

/-- `service_accept` by `a`; the local address is that of the listening descriptor. -/
def accept (s : SlotMemory) (a : Nat) (listener : Descriptor) (ipaddr port : Nat) : SlotMemory :=
  { s with free := false }.setDesc a { (s.desc a).reset with
    remoteIpaddr := ipaddr
    remotePort := port
    localIpaddr := listener.localIpaddr
    localPort := listener.localPort }

def getsockname (s : SlotMemory) (a : Nat) (isLocal : Bool) : Nat × Nat :=
  if isLocal = true then
    if s.shared.localIpaddr ≠ 0 then (s.shared.localIpaddr, s.shared.localPort)
    else ((s.desc a).localIpaddr, (s.desc a).localPort)
  else ((s.desc a).remoteIpaddr, (s.desc a).remotePort)

/-- `service_mark_readable` without the event, which goes to another ring. -/
def markReadable (s : SlotMemory) : SlotMemory :=
  if s.sat.parentIdx = none then s
  else { s with shared := { s.shared with readReadyToApp := true } }

def markWritable (s : SlotMemory) : SlotMemory :=
  if s.sat.parentIdx = none then s
  else { s with shared := { s.shared with writeReadyToApp := true } }

def submitRxBuf (s : SlotMemory) (x : RxItem) : Bool × SlotMemory :=
  let enqueued := spEnqueueBulk 1 s.rxRing x
  let t := { s with rxRing := enqueued.2 }
  (enqueued.1 = -enobufs, if enqueued.1 ≠ 0 then t.markReadable else t)

/-- The loop of `user_data_available_cbk` with `ring_free` rounds to go, on a socket that has
`pending` to receive. -/
def dataAvailable (s : SlotMemory) : Nat → List RxItem → SlotMemory
  | 0, _ => s.markReadable
  | _ + 1, [] => s
  | ringFree + 1, x :: pending =>
    let submitted := s.submitRxBuf x
    if submitted.1 = true then if ringFree = 0 then submitted.2.markReadable else submitted.2
    else submitted.2.dataAvailable ringFree pending

def userDataAvailable (s : SlotMemory) (pending : List RxItem) : SlotMemory :=
  s.dataAvailable s.rxRing.freeCount pending

def postAccepted (s : SlotMemory) (x : RxItem) : SlotMemory :=
  match s.rxRing.enqueue x with
  | none => s
  | some rxRing => { s with rxRing }.markReadable

/-- All that is on the ring is sent or freed. For a closed socket that still has its glueing block
the ringset index is `-1`, and the flag that is cleared lies outside of the slots. A datagram socket
that refuses a chain returns without marking. -/
def onTransmissionOpportunity (s : SlotMemory) (refused : Bool) : SlotMemory :=
  let t := { s with
    txRing := Fifo.empty
    shared := { s.shared with
      writeDoneFromApp := s.sat.ringsetIdx.isNone && s.shared.writeDoneFromApp } }
  if refused = true then t else t.markWritable

def processOpen (s : SlotMemory) (i : Slot) (parent : Option Selector) (pid : Nat)
    (created : Option SocketPtr) : SlotMemory :=
  match created with
  | none => s
  | some so => { s with sat := ⟨some so, some i, parent, pid⟩ }

/-- `SERVICE_SET_SOCKET_RING_COMMAND` as `service_accept` sends it, with a parent index of `-1`. -/
def processSetSocketRing (s : SlotMemory) (i : Slot) (so : SocketPtr) (pid : Nat)
    (pending : List RxItem) : SlotMemory :=
  let t := { s with sat := ⟨some so, some i, s.sat.parentIdx, pid⟩ }
  (t.userDataAvailable pending).markWritable.markReadable

def processSetSocketSelect (s : SlotMemory) (select : Option Selector) (pid : Nat)
    (pending : List RxItem) : SlotMemory :=
  let t := { s with sat := { s.sat with parentIdx := select, apppid := pid } }
  (t.userDataAvailable pending).markWritable.markReadable

def processClose (s : SlotMemory) : SlotMemory :=
  if s.sat.socket = none then s
  else { s with
    free := true
    sat := { s.sat with socket := none, ringsetIdx := none, parentIdx := none } }

end SlotMemory

inductive SlotAction
  | openSocket (a : Nat) (parent : Option Selector)
  | accept (a : Nat) (listener : Descriptor) (ipaddr port : Nat)
  | bind (a : Nat) (ipaddr port : Nat)
  | connect (a : Nat) (ipaddr port : Nat)
  | setSocketSelect (a : Nat) (select : Option Selector)
  | select (a : Nat)
  | send (mbuf : Nat)
  | txSpace
  | kick
  | receive (a : Nat)
  | keep (a : Nat) (shadow shadowNext : Option Nat) (remainder delivered : Int)
  | acceptFrom
  | flush (a : Nat)
  | processOpen (parent : Option Selector) (pid : Nat) (created : Option SocketPtr)
  | processSetSocketRing (so : SocketPtr) (pid : Nat) (pending : List RxItem)
  | processSetSocketSelect (select : Option Selector) (pid : Nat) (pending : List RxItem)
  | processClose
  | deliver (pending : List RxItem)
  | postAccepted (x : RxItem)
  | transmit (refused : Bool)
  | markWritable

/-- The calls of the applications are not checked, and the sockets of earlier connections still act
on the slot. A slot is attached only while it is taken. Without a socket SET_SOCKET_SELECT ends the
server at a NULL pointer. -/
def slotStep (i : Slot) (s : SlotMemory) : SlotAction → Option SlotMemory
  | .openSocket a parent => do
    guard (s.free = true)
    return s.openSocket a parent
  | .accept a listener ipaddr port => do
    guard (s.free = true)
    return s.accept a listener ipaddr port
  | .bind a ipaddr port =>
    some (s.setDesc a { s.desc a with localIpaddr := ipaddr, localPort := port })
  | .connect a ipaddr port =>
    some (s.setDesc a { s.desc a with remoteIpaddr := ipaddr, remotePort := port })
  | .setSocketSelect a select => some (s.setDesc a { s.desc a with select := select })
  | .select a => some (s.setDesc a { s.desc a with anyEventReceived := true })
  | .send mbuf => some { s with
      txRing := (s.txRing.enqueue mbuf).getD s.txRing
      shared := { s.shared with writeReadyToApp := false } }
  | .txSpace => some { s with shared := { s.shared with writeReadyToApp := false } }
  | .kick => some { s with shared := { s.shared with writeDoneFromApp := true } }
  | .receive a =>
    let taken := ServiceState.dequeueRings (s.desc a).localCache s.rxRing
    let t := { s with
      rxRing := taken.2.2
      shared := { s.shared with readReadyToApp := false } }
    some (t.setDesc a { s.desc a with localCache := taken.2.1 })
  | .keep a shadow shadowNext remainder delivered => some (s.setDesc a { s.desc a with
      shadow := shadow
      shadowNext := shadowNext
      shadowLenRemainder := remainder
      shadowLenDelievered := delivered })
  | .acceptFrom => some { s with
      rxRing := (s.rxRing.dequeue.map Prod.snd).getD s.rxRing
      shared := { s.shared with readReadyToApp := false } }
  | .flush a => some ({ s with rxRing := Fifo.empty }.setDesc a (s.desc a).flush)
  | .processOpen parent pid created => do
    guard (s.free = false)
    return s.processOpen i parent pid created
  | .processSetSocketRing so pid pending => do
    guard (s.free = false)
    return s.processSetSocketRing i so pid pending
  | .processSetSocketSelect select pid pending => do
    guard (s.sat.socket ≠ none)
    return s.processSetSocketSelect select pid pending
  | .processClose => some s.processClose
  | .deliver pending => some (s.userDataAvailable pending)
  | .postAccepted x => some (s.postAccepted x)
  | .transmit refused => some (s.onTransmissionOpportunity refused)
  | .markWritable => some s.markWritable

structure Carried where
  readReadyToApp : Bool
  writeReadyToApp : Bool
  writeDoneFromApp : Bool
  anyEventReceived : Bool
  txRing : List Nat
  rxRing : List RxItem
  localCache : List RxItem
  deriving DecidableEq

structure Observed extends Carried where
  select : Option Selector
  parentIdx : Option Selector
  localName : Nat × Nat
  remoteName : Nat × Nat
  shadows : Option Nat × Option Nat
  shadowLens : Int × Int
  deriving DecidableEq

namespace SlotMemory

def carried (s : SlotMemory) (a : Nat) : Carried where
  readReadyToApp := s.shared.readReadyToApp
  writeReadyToApp := s.shared.writeReadyToApp
  writeDoneFromApp := s.shared.writeDoneFromApp
  anyEventReceived := (s.desc a).anyEventReceived
  txRing := s.txRing.items
  rxRing := s.rxRing.items
  localCache := (s.desc a).localCache.items

def observe (s : SlotMemory) (a : Nat) : Observed where
  toCarried := s.carried a
  select := (s.desc a).select
  parentIdx := s.sat.parentIdx
  localName := s.getsockname a true
  remoteName := s.getsockname a false
  shadows := ((s.desc a).shadow, (s.desc a).shadowNext)
  shadowLens := ((s.desc a).shadowLenRemainder, (s.desc a).shadowLenDelievered)

def reopen (s : SlotMemory) (i : Slot) (a : Nat) (parent : Option Selector)
    (created : Option SocketPtr) : SlotMemory :=
  (s.openSocket a parent).processOpen i parent a created

/-- The slot after `service_accept` and its command; `pending` is what the accepted socket has
received already. -/
def reaccept (s : SlotMemory) (i : Slot) (a : Nat) (listener : Descriptor) (ipaddr port : Nat)
    (so : SocketPtr) (pending : List RxItem) : SlotMemory :=
  (s.accept a listener ipaddr port).processSetSocketRing i so a pending

def link (s : SlotMemory) : Bool × Satellite × Nat := (s.free, s.sat, s.shared.localIpaddr)

variable {s t : SlotMemory}

theorem link_markReadable : s.markReadable.link = s.link := by
  unfold markReadable
  split <;> rfl

theorem link_markWritable : s.markWritable.link = s.link := by
  unfold markWritable
  split <;> rfl

theorem link_submitRxBuf (x : RxItem) : (s.submitRxBuf x).2.link = s.link := by
  simp only [submitRxBuf]
  split
  · exact link_markReadable
  · rfl

theorem link_dataAvailable (ringFree : Nat) (pending : List RxItem) :
    (s.dataAvailable ringFree pending).link = s.link := by
  induction pending generalizing s ringFree with
  | nil =>
    cases ringFree with
    | zero => exact link_markReadable
    | succ ringFree => rfl
  | cons x pending ih =>
    cases ringFree with
    | zero => exact link_markReadable
    | succ ringFree =>
      have hsubmit := link_submitRxBuf (s := s) x
      simp only [dataAvailable]
      split
      · split
        · exact link_markReadable.trans hsubmit
        · exact hsubmit
      · exact (ih ringFree).trans hsubmit

theorem link_postAccepted (x : RxItem) : (s.postAccepted x).link = s.link := by
  unfold postAccepted
  split
  · rfl
  · exact link_markReadable

theorem link_onTransmissionOpportunity (refused : Bool) :
    (s.onTransmissionOpportunity refused).link = s.link := by
  simp only [onTransmissionOpportunity]
  split
  · rfl
  · exact link_markWritable

end SlotMemory

structure SlotInv (s : SlotMemory) : Prop where
  unlinked : s.free = true → s.sat.socket = none ∧ s.sat.parentIdx = none
  address : s.shared.localIpaddr = 0

namespace SlotInv

open SlotMemory

variable {i : Slot} {s t : SlotMemory}

theorem of_link (h : SlotInv s) (hlink : t.link = s.link) : SlotInv t := by
  simp only [link, Prod.mk.injEq] at hlink
  obtain ⟨hfree, hsat, haddress⟩ := hlink
  exact ⟨fun ht => hsat ▸ h.unlinked (hfree ▸ ht), haddress.trans h.address⟩

theorem of_taken (h : SlotInv s) (hfree : t.free = false)
    (haddress : t.shared.localIpaddr = s.shared.localIpaddr) : SlotInv t :=
  ⟨fun ht => absurd (hfree ▸ ht) Bool.false_ne_true, haddress.trans h.address⟩

theorem callbacks (h : SlotInv t) (pending : List RxItem) :
    SlotInv (t.userDataAvailable pending).markWritable.markReadable :=
  h.of_link (link_markReadable.trans (link_markWritable.trans (link_dataAvailable _ _)))

theorem processOpen (h : SlotInv s) (hfree : s.free = false) (parent : Option Selector)
    (pid : Nat) (created : Option SocketPtr) : SlotInv (s.processOpen i parent pid created) := by
  cases created with
  | none => exact h
  | some so => exact h.of_taken hfree rfl

theorem processClose (h : SlotInv s) : SlotInv s.processClose := by
  unfold SlotMemory.processClose
  split
  · exact h
  · exact ⟨fun _ => ⟨rfl, rfl⟩, h.address⟩

theorem step {a : SlotAction} (h : SlotInv s) (hstep : slotStep i s a = some t) : SlotInv t := by
  cases a with
  | openSocket a parent | accept a listener ipaddr port =>
    obtain ⟨_, rfl⟩ := guarded_eq_some.mp hstep
    exact h.of_taken rfl rfl
  | bind | connect | setSocketSelect | select | send | txSpace | kick | receive | keep | acceptFrom
  | flush =>
    cases hstep
    exact h.of_link rfl
  | processOpen parent pid created =>
    obtain ⟨hfree, rfl⟩ := guarded_eq_some.mp hstep
    exact h.processOpen hfree parent pid created
  | processSetSocketRing so pid pending =>
    obtain ⟨hfree, rfl⟩ := guarded_eq_some.mp hstep
    have hinv : SlotInv { s with sat := ⟨some so, some i, s.sat.parentIdx, pid⟩ } :=
      h.of_taken hfree rfl
    exact hinv.callbacks pending
  | processSetSocketSelect select pid pending =>
    obtain ⟨hsocket, rfl⟩ := guarded_eq_some.mp hstep
    have hinv : SlotInv { s with sat := { s.sat with parentIdx := select, apppid := pid } } :=
      ⟨fun hfree => absurd (h.unlinked hfree).1 hsocket, h.address⟩
    exact hinv.callbacks pending
  | processClose =>
    cases hstep
    exact h.processClose
  | deliver pending =>
    cases hstep
    exact h.of_link (link_dataAvailable _ _)
  | postAccepted x =>
    cases hstep
    exact h.of_link (link_postAccepted x)
  | transmit refused =>
    cases hstep
    exact h.of_link (link_onTransmissionOpportunity refused)
  | markWritable =>
    cases hstep
    exact h.of_link link_markWritable

theorem of_run {as : List SlotAction} (hrun : Run (slotStep i) (fun _ _ => True) {} as s) :
    SlotInv s :=
  hrun.invariant (fun _ _ _ h _ hstep => h.step hstep) ⟨fun _ => ⟨rfl, rfl⟩, rfl⟩

end SlotInv

def fillRx (rx : Fifo (dataRingsSize - 1) RxItem) :
    Nat → List RxItem → Fifo (dataRingsSize - 1) RxItem
  | 0, _ => rx
  | _ + 1, [] => rx
  | ringFree + 1, x :: pending =>
    let enqueued := spEnqueueBulk 1 rx x
    if enqueued.1 = -enobufs then enqueued.2 else fillRx enqueued.2 ringFree pending

theorem fillRx_nil (rx : Fifo (dataRingsSize - 1) RxItem) (ringFree : Nat) :
    fillRx rx ringFree [] = rx := by
  cases ringFree <;> rfl

namespace SlotMemory

variable {i : Slot} {s t : SlotMemory} {a : Nat} {parent : Option Selector}

theorem markReadable_of_none (h : s.sat.parentIdx = none) : s.markReadable = s := if_pos h

theorem markWritable_of_none (h : s.sat.parentIdx = none) : s.markWritable = s := if_pos h

theorem dataAvailable_of_none (h : s.sat.parentIdx = none) (ringFree : Nat)
    (pending : List RxItem) :
    s.dataAvailable ringFree pending = { s with rxRing := fillRx s.rxRing ringFree pending } := by
  induction pending generalizing s ringFree with
  | nil =>
    rw [fillRx_nil]
    cases ringFree with
    | zero => exact markReadable_of_none h
    | succ ringFree => rfl
  | cons x pending ih =>
    cases ringFree with
    | zero => exact markReadable_of_none h
    | succ ringFree =>
      have hmark : SlotMemory.markReadable { s with rxRing := (spEnqueueBulk 1 s.rxRing x).2 } =
          { s with rxRing := (spEnqueueBulk 1 s.rxRing x).2 } := markReadable_of_none h
      simp only [dataAvailable, submitRxBuf, fillRx, hmark, ite_self, decide_eq_true_eq]
      split
      · rfl
      · exact ih (s := { s with rxRing := (spEnqueueBulk 1 s.rxRing x).2 }) h ringFree

theorem processSetSocketRing_of_none (h : s.sat.parentIdx = none) (so : SocketPtr) (pid : Nat)
    (pending : List RxItem) : s.processSetSocketRing i so pid pending = { s with
      sat := ⟨some so, some i, none, pid⟩
      rxRing := fillRx s.rxRing s.rxRing.freeCount pending } := by
  simp only [processSetSocketRing, userDataAvailable, h]
  rw [dataAvailable_of_none rfl, markWritable_of_none rfl, markReadable_of_none rfl]

theorem observe_reopen (h : SlotInv s) (hfree : s.free = true) (created : Option SocketPtr) :
    (s.reopen i a parent created).observe a =
      { toCarried := s.carried a
        select := if parent = none then (s.desc a).select else parent
        parentIdx := if created = none then none else parent
        localName := ((s.desc a).localIpaddr, (s.desc a).localPort)
        remoteName := ((s.desc a).remoteIpaddr, (s.desc a).remotePort)
        shadows := (none, none)
        shadowLens := (0, 0) } := by
  have hparent := (h.unlinked hfree).2
  cases created <;>
    simp [reopen, openSocket, processOpen, observe, carried, getsockname, setDesc,
      Descriptor.reset, h.address, hparent]

theorem observe_reaccept (h : SlotInv s) (hfree : s.free = true) (listener : Descriptor)
    (ipaddr port : Nat) (so : SocketPtr) (pending : List RxItem) :
    (s.reaccept i a listener ipaddr port so pending).observe a =
      { toCarried := { s.carried a with
          rxRing := (fillRx s.rxRing s.rxRing.freeCount pending).items }
        select := (s.desc a).select
        parentIdx := none
        localName := (listener.localIpaddr, listener.localPort)
        remoteName := (ipaddr, port)
        shadows := (none, none)
        shadowLens := (0, 0) } := by
  have hparent : (s.accept a listener ipaddr port).sat.parentIdx = none := (h.unlinked hfree).2
  rw [reaccept, processSetSocketRing_of_none hparent]
  simp [accept, observe, carried, getsockname, setDesc, Descriptor.reset, h.address]

structure SameForOpen (a : Nat) (parent : Option Selector) (s t : SlotMemory) : Prop where
  carried : s.carried a = t.carried a
  select : parent = none → (s.desc a).select = (t.desc a).select
  localName : (s.desc a).localIpaddr = (t.desc a).localIpaddr ∧
    (s.desc a).localPort = (t.desc a).localPort
  remoteName : (s.desc a).remoteIpaddr = (t.desc a).remoteIpaddr ∧
    (s.desc a).remotePort = (t.desc a).remotePort

structure SameForAccept (a : Nat) (s t : SlotMemory) : Prop where
  carried : s.carried a = t.carried a
  select : (s.desc a).select = (t.desc a).select

theorem observe_reopen_eq_iff (hs : SlotInv s) (ht : SlotInv t) (hsfree : s.free = true)
    (htfree : t.free = true) (created : Option SocketPtr) :
    (s.reopen i a parent created).observe a = (t.reopen i a parent created).observe a ↔
      SameForOpen a parent s t := by
  rw [observe_reopen hs hsfree, observe_reopen ht htfree]
  simp only [Observed.mk.injEq, Prod.mk.injEq, and_true, true_and]
  constructor
  · rintro ⟨hcarried, hselect, hlocal, hremote⟩
    refine ⟨hcarried, fun hparent => ?_, hlocal, hremote⟩
    simpa [hparent] using hselect
  · rintro ⟨hcarried, hselect, hlocal, hremote⟩
    refine ⟨hcarried, ?_, hlocal, hremote⟩
    split
    · next hparent => exact hselect hparent
    · rfl

theorem observe_reaccept_eq_iff (hs : SlotInv s) (ht : SlotInv t) (hsfree : s.free = true)
    (htfree : t.free = true) (listener : Descriptor) (ipaddr port : Nat) (so : SocketPtr) :
    (∀ pending, (s.reaccept i a listener ipaddr port so pending).observe a =
        (t.reaccept i a listener ipaddr port so pending).observe a) ↔ SameForAccept a s t := by
  constructor
  · intro hall
    have hnil := hall []
    rw [observe_reaccept hs hsfree, observe_reaccept ht htfree] at hnil
    simp only [fillRx_nil, Observed.mk.injEq, and_true] at hnil
    exact ⟨hnil.1, hnil.2⟩
  · intro hsame pending
    have hrx : s.rxRing = t.rxRing := Fifo.ext (congrArg Carried.rxRing hsame.carried)
    rw [observe_reaccept hs hsfree, observe_reaccept ht htfree, hrx, hsame.carried, hsame.select]

end SlotMemory

/-- Two pasts of a slot look the same to the next user exactly if they agree on what is not reset. -/
theorem reuse_observe_iff {i : Slot} {s t : SlotMemory} {as bs : List SlotAction}
    (hs : Run (slotStep i) (fun _ _ => True) {} as s) (hsfree : s.free = true)
    (ht : Run (slotStep i) (fun _ _ => True) {} bs t) (htfree : t.free = true) (a : Nat) :
    (∀ parent created,
      (s.reopen i a parent created).observe a = (t.reopen i a parent created).observe a ↔
        SlotMemory.SameForOpen a parent s t) ∧
    ∀ listener ipaddr port so,
      (∀ pending, (s.reaccept i a listener ipaddr port so pending).observe a =
        (t.reaccept i a listener ipaddr port so pending).observe a) ↔
        SlotMemory.SameForAccept a s t := by
  have hs := SlotInv.of_run hs
  have ht := SlotInv.of_run ht
  exact ⟨fun _ created => SlotMemory.observe_reopen_eq_iff hs ht hsfree htfree created,
    SlotMemory.observe_reaccept_eq_iff hs ht hsfree htfree⟩

def quietHistory : List SlotAction :=
  [.openSocket 0 (some 1), .processOpen (some 1) 0 (some 7), .flush 0, .processClose]

theorem reuse_observe_iff_quiet : ∃ t, Run (slotStep 0) (fun _ _ => True) {} quietHistory t ∧
    (t.free = true ∧ SlotMemory.carried {} 0 = t.carried 0 ∧ (t.desc 0).localIpaddr = 0 ∧
      (t.desc 0).localPort = 0 ∧ (t.desc 0).remoteIpaddr = 0 ∧ (t.desc 0).remotePort = 0) ∧
    (SlotMemory.reopen {} 0 0 (some 1) (some 8)).observe 0 =
      (t.reopen 0 0 (some 1) (some 8)).observe 0 := by
  refine Run.exists_and_of_runActions (by decide +kernel) fun t hrun ht => ?_
  obtain ⟨hfree, hcarried, hip, hport, hremoteIp, hremotePort⟩ := ht
  exact ((reuse_observe_iff Run.nil rfl hrun hfree 0).1 (some 1) (some 8)).mpr
    ⟨hcarried, nofun, ⟨hip.symm, hport.symm⟩, hremoteIp.symm, hremotePort.symm⟩

/-- A connection that received something, sent something that the server has not taken off the
ring, and was closed. -/
def usedHistory : List SlotAction :=
  [.openSocket 0 (some 0), .processOpen (some 0) 0 (some 7), .connect 0 1 80,
    .deliver [.data ⟨3, 0⟩], .select 0, .send 5, .flush 0, .processClose]

/-- The next connection finds the readable flag up, counts as connected, has the selector and the
peer of the old one if it gives none, and has a packet of the old one to send. -/
theorem used_slot_not_fresh : ∃ t, Run (slotStep 0) (fun _ _ => True) {} usedHistory t ∧
    t.free = true ∧
    ((SlotMemory.reopen {} 0 0 none (some 8)).observe 0 ≠ (t.reopen 0 0 none (some 8)).observe 0 ∧
      (t.reopen 0 0 none (some 8)).observe 0 = {
        readReadyToApp := true, writeReadyToApp := false, writeDoneFromApp := false
        anyEventReceived := true, txRing := [5], rxRing := [], localCache := []
        select := some 0, parentIdx := none, localName := (0, 0), remoteName := (1, 80)
        shadows := (none, none), shadowLens := (0, 0) }) ∧
    (SlotMemory.reaccept {} 0 0 {} 2 90 8 []).observe 0 ≠
      (t.reaccept 0 0 {} 2 90 8 []).observe 0 :=
  Run.exists_of_runActions (by decide +kernel)

end NetbsdDpdk
