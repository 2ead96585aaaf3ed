import NetbsdDpdk.DeliveryPath
import NetbsdDpdk.Transition

/-! A socket leaves the list of readable sockets with data still in `so_rcv` when the receive ring
is full. Three things cover for each other then: the ring that is full, the call of the application
that makes room, and the RX_KICK which that call sends. -/

namespace NetbsdDpdk

open SocketStack

theorem SocketStack.setPresent_sock (s : SocketStack) (k : ReadyList) (x : SocketPtr) (b : Bool)
    (y : SocketPtr) : (s.setPresent k x b).sock y = { s.sock y with
      present :=
        if y = x then Function.update (s.sock y).present k b else (s.sock y).present } := by
  by_cases heq : y = x
  · simp [heq, setPresent]
  · rw [setPresent, modify_sock_of_ne _ _ heq, if_neg heq]

theorem SocketStack.unlink_pcb (s : SocketStack) (k : ReadyList) (x y : SocketPtr) :
    ((s.unlink k x).sock y).pcb = (s.sock y).pcb := by
  rw [unlink, setPresent_sock]

structure Woken (s t : SocketStack) : Prop where
  sock : ∀ y, ∃ present, t.sock y = { s.sock y with present := present }
  sat : t.sat = s.sat
  mem : ∀ y ∈ s.lists .read, y ∈ t.lists .read
  flag : ∀ y, ((s.sock y).present .read = true → y ∈ s.lists .read) →
    (t.sock y).present .read = true → y ∈ t.lists .read

namespace Woken

variable {s t u : SocketStack}

theorem refl (s : SocketStack) : Woken s s :=
  ⟨fun y => ⟨(s.sock y).present, rfl⟩, rfl, fun _ h => h, fun _ h => h⟩

theorem trans (h : Woken s t) (h' : Woken t u) : Woken s u where
  sock y := by
    obtain ⟨p, hp⟩ := h.sock y
    obtain ⟨p', hp'⟩ := h'.sock y
    exact ⟨p', by rw [hp', hp]⟩
  sat := h'.sat.trans h.sat
  mem y hy := h'.mem y (h.mem y hy)
  flag y hy := h'.flag y (h.flag y hy)

theorem pcb (h : Woken s t) (y : SocketPtr) : (t.sock y).pcb = (s.sock y).pcb := by
  obtain ⟨present, hsock⟩ := h.sock y
  rw [hsock]

theorem insert (s : SocketStack) (k : ReadyList) (x : SocketPtr) : Woken s (s.insert k x) := by
  unfold SocketStack.insert
  split
  · exact refl s
  · refine ⟨fun y => ⟨_, setPresent_sock s k x true y⟩, rfl, fun y hy => ?_,
      fun y hflag hy => ?_⟩
    · by_cases hk : ReadyList.read = k
      · subst hk
        simpa using .inl hy
      · simpa [hk] using hy
    · dsimp only at hy
      rw [setPresent_sock] at hy
      by_cases hk : ReadyList.read = k
      · subst hk
        by_cases heq : y = x
        · simp [heq]
        · simpa using .inl (hflag (by simpa [heq] using hy))
      · have hpresent : (s.sock y).present .read = true := by
          by_cases heq : y = x
          · simpa [heq, hk] using hy
          · simpa [heq] using hy
        simpa [hk] using hflag hpresent

theorem sockReadable (s : SocketStack) (x : SocketPtr) : Woken s (s.sockReadable x) := by
  simp only [SocketStack.sockReadable]
  split
  · exact insert s .closed x
  · split
    · exact insert s .accept x
    · exact insert s .read x
    · exact refl s
    · exact insert s .read x

theorem sockWriteSpace (s : SocketStack) (x : SocketPtr) : Woken s (s.sockWriteSpace x) := by
  simp only [SocketStack.sockWriteSpace]
  repeat' split
  all_goals first | exact refl s | exact insert s _ x

theorem sowakeup (s : SocketStack) (x : SocketPtr) : Woken s (s.sowakeup x) := by
  unfold SocketStack.sowakeup
  split
  · exact (sockReadable s x).trans (sockWriteSpace _ x)
  · exact refl s

end Woken

namespace SocketStack

variable {s : SocketStack} {so : SocketPtr}

theorem insert_lists_of_ne (s : SocketStack) {j k : ReadyList} (so : SocketPtr) (hjk : j ≠ k) :
    (s.insert k so).lists j = s.lists j := by
  unfold insert
  split
  · rfl
  · simp [hjk]

theorem mem_insert_self {k : ReadyList} (hflag : (s.sock so).present k = true → so ∈ s.lists k) :
    so ∈ (s.insert k so).lists k := by
  unfold insert
  split
  · next hpresent => exact hflag hpresent
  · simp

theorem sockWriteSpace_read (s : SocketStack) (so : SocketPtr) :
    (s.sockWriteSpace so).lists .read = s.lists .read := by
  simp only [sockWriteSpace]
  repeat' split
  all_goals first | rfl | exact insert_lists_of_ne s so (by simp)

theorem mem_sowakeup_iff {state : TcpState} (hup : (s.sock so).upcall2 = true)
    (hstream : (s.sock so).type = .stream) (hpcb : (s.sock so).pcb = some (.tcp state))
    (hflag : (s.sock so).present .read = true → so ∈ s.lists .read) :
    so ∈ (s.sowakeup so).lists .read ↔
      ((s.sock so).disconnected = false ∧ state = .established) ∨ so ∈ s.lists .read := by
  rw [sowakeup, if_pos hup, sockWriteSpace_read]
  cases hdisc : (s.sock so).disconnected with
  | true => simp [sockReadable, hdisc, insert_lists_of_ne]
  | false =>
    cases state with
    | established =>
      simpa [sockReadable, hdisc, hstream, hpcb] using mem_insert_self hflag
    | listen => simp [sockReadable, hdisc, hstream, hpcb, insert_lists_of_ne]
    | closed | synSent | synReceived | closeWait | finWait1 | closing | lastAck | finWait2
    | timeWait => simp [sockReadable, hdisc, hstream, hpcb]

end SocketStack

structure Attached (so : SocketPtr) (i : Slot) (s : SocketStack) : Prop where
  linked : (s.sat i).socket = some so
  upcall : (s.sock so).upcall2 = true
  stream : (s.sock so).type = .stream
  tcp : ∃ state, (s.sock so).pcb = some (.tcp state) ∧ state.haveEstablished = true ∧
    (state = .established → (s.sock so).disconnected = false)
  flag : (s.sock so).present .read = true → so ∈ s.lists .read

namespace Attached

variable {so x : SocketPtr} {i : Slot} {s t : SocketStack}

theorem woken (h : Attached so i s) (hw : Woken s t) : Attached so i t := by
  obtain ⟨present, hsock⟩ := hw.sock so
  refine ⟨hw.sat ▸ h.linked, ?_, ?_, ?_, hw.flag so h.flag⟩
  · rw [hsock]
    exact h.upcall
  · rw [hsock]
    exact h.stream
  · rw [hsock]
    exact h.tcp

theorem modify (h : Attached so i s) {f : Socket → Socket}
    (hup : (f (s.sock so)).upcall2 = (s.sock so).upcall2)
    (htype : (f (s.sock so)).type = (s.sock so).type)
    (hpresent : (f (s.sock so)).present = (s.sock so).present)
    (htcp : ∃ state, (f (s.sock so)).pcb = some (.tcp state) ∧ state.haveEstablished = true ∧
      (state = .established → (f (s.sock so)).disconnected = false)) :
    Attached so i (s.modify so f) where
  linked := h.linked
  upcall := by rw [modify_sock_self, hup, h.upcall]
  stream := by rw [modify_sock_self, htype, h.stream]
  tcp := by rwa [modify_sock_self]
  flag := by
    rw [modify_sock_self, hpresent]
    exact h.flag

theorem setTcpState (h : Attached so i s) {state : TcpState} (hest : state.haveEstablished = true)
    (hne : state ≠ .established) : Attached so i (s.setTcpState so state) :=
  h.modify rfl rfl rfl ⟨state, rfl, hest, fun heq => absurd heq hne⟩

theorem unlink (h : Attached so i s) (x : SocketPtr) : Attached so i (s.unlink .read x) := by
  have hsock := setPresent_sock s .read x false so
  refine ⟨h.linked, ?_, ?_, ?_, fun hflag => ?_⟩
  · exact (congrArg Socket.upcall2 hsock).trans h.upcall
  · exact (congrArg Socket.type hsock).trans h.stream
  · obtain ⟨state, hpcb, hrest⟩ := h.tcp
    refine ⟨state, (congrArg Socket.pcb hsock).trans hpcb, hrest.1, fun heq => ?_⟩
    exact (congrArg Socket.disconnected hsock).trans (hrest.2 heq)
  · have hpresent : (if so = x then Function.update (s.sock so).present .read false
        else (s.sock so).present) .read = true :=
      (congrArg (fun t => t.present .read) hsock).symm.trans hflag
    by_cases heq : so = x
    · simp [heq] at hpresent
    · have hmem : so ∈ (s.lists .read).erase x :=
        (List.mem_erase_of_ne heq).mpr (h.flag (by simpa [heq] using hpresent))
      simpa [SocketStack.unlink] using hmem

theorem socantsendmore (h : Attached so i s) : Attached so i (s.socantsendmore so) :=
  (h.modify rfl rfl rfl h.tcp).woken (Woken.sowakeup _ so)

theorem soisdisconnected (h : Attached so i s)
    (hpcb : (s.sock so).pcb ≠ some (.tcp .established)) :
    Attached so i (s.soisdisconnected so) := by
  obtain ⟨state, hstate, hest, -⟩ := h.tcp
  have hne : state ≠ .established := by
    rintro rfl
    exact hpcb hstate
  have hmod : Attached so i (s.modify so fun t => { t with
      connecting := false, connected := false, disconnecting := false, disconnected := true,
      cantSendMore := true }) :=
    h.modify rfl rfl rfl ⟨state, hstate, hest, fun heq => absurd heq hne⟩
  exact (hmod.woken (Woken.sowakeup _ so)).woken (Woken.sowakeup _ so)

theorem soshutdown (h : Attached so i s) : Attached so i (s.soshutdown i false true) ∧
    ((s.soshutdown i false true).sock so).pcb ≠ some (.tcp .established) ∧
    (so ∈ s.lists .read → so ∈ (s.soshutdown i false true).lists .read) := by
  obtain ⟨u, hu⟩ : ∃ u, s.socantsendmore so = u := ⟨_, rfl⟩
  have hatt : Attached so i u := hu ▸ h.socantsendmore
  have hmem : so ∈ s.lists .read → so ∈ u.lists .read := fun hin =>
    hu ▸ (Woken.sowakeup (s.modify so fun t => { t with cantSendMore := true }) so).mem so hin
  obtain ⟨state, hpcb, hest, -⟩ := hatt.tcp
  have heq : s.soshutdown i false true = u.tcpUsrclosed so state := by
    simp [SocketStack.soshutdown, h.linked, hu, hpcb]
  rw [heq]
  cases state with
  | closed | listen | synSent | synReceived => simp [TcpState.haveEstablished] at hest
  | established | closeWait =>
    refine ⟨hatt.setTcpState rfl (by simp), ?_, hmem⟩
    simp [tcpUsrclosed, SocketStack.setTcpState]
  | finWait2 | timeWait =>
    have hne : (u.sock so).pcb ≠ some (.tcp .established) := by simp [hpcb]
    refine ⟨hatt.soisdisconnected hne, ?_, fun hin => ?_⟩
    · have hsame : ((u.soisdisconnected so).sock so).pcb = (u.sock so).pcb :=
        congrArg Prod.fst (soisdisconnected_control u so)
      exact fun hbad => hne (hsame.symm.trans hbad)
    · exact (Woken.sowakeup _ so).mem so ((Woken.sowakeup _ so).mem so (hmem hin))
  | finWait1 | closing | lastAck => exact ⟨hatt, by simp [tcpUsrclosed, hpcb], hmem⟩

end Attached

def DeliveryPc.claimed : DeliveryPc → Option Nat
  | .reading ringFree _ => some ringFree
  | .submitting _ _ ringFree _ => some (ringFree + 1)
  | _ => none

namespace DeliveryState

variable {so : SocketPtr} {s : DeliveryState}

def Established (s : DeliveryState) (so : SocketPtr) : Prop :=
  (s.sock so).pcb = some (.tcp .established)

def Kicked (s : DeliveryState) : Prop := .rxKick ∈ s.commands ∨ s.call.Inside

def Covered (s : DeliveryState) (so : SocketPtr) : Prop :=
  so ∈ s.stack.lists .read ∨ s.call.rx.freeCount = 0 ∨ s.Kicked

/-- The callback never submits more than the ring has room for, and more room was made by a call
that is still to be heard of. -/
def RoomKnown (s : DeliveryState) : Prop :=
  ∀ n ∈ s.server.claimed, n ≤ s.call.rx.freeCount ∧ (s.call.rx.freeCount = n ∨ s.Kicked)

theorem RoomKnown.of_none (h : s.server.claimed = none) : s.RoomKnown := by
  intro n hn
  rw [h] at hn
  cases hn

def BetweenCallbacks (s : DeliveryState) : Prop :=
  match s.server with
  | .idle | .passing _ => True
  | _ => False

end DeliveryState

structure DeliveryInv (so : SocketPtr) (i : Slot) (s : DeliveryState) : Prop where
  attached : Attached so i s.stack
  room : s.RoomKnown
  covered : s.BetweenCallbacks → s.Established so → s.soRcv ≠ [] → s.Covered so

namespace DeliveryInv

variable {so : SocketPtr} {i : Slot} {s t : DeliveryState}

theorem upcall (h : DeliveryInv so i s) :
    DeliveryInv so i { s.setStack (s.stack.sowakeup so) with server := .idle, fresh := true } := by
  have hw := Woken.sowakeup s.stack so
  refine ⟨h.attached.woken hw, .of_none rfl, fun _ hest _ => ?_⟩
  have hpcb : (s.stack.sock so).pcb = some (.tcp .established) := (hw.pcb so).symm.trans hest
  obtain ⟨state, hstate, -, hdisc⟩ := h.attached.tcp
  have heq : state = .established := by simpa [hpcb] using hstate.symm
  have hmem := mem_sowakeup_iff h.attached.upcall h.attached.stream hstate h.attached.flag
  exact .inl (hmem.mpr (.inl ⟨hdisc heq, heq⟩))

theorem wake (h : DeliveryInv so i s) (hserver : s.server = .idle) (x : SocketPtr) :
    DeliveryInv so i (s.setStack (s.stack.sowakeup x)) := by
  have hw := Woken.sowakeup s.stack x
  refine ⟨h.attached.woken hw, h.room, fun _ hest hdata => ?_⟩
  have hbetween : s.BetweenCallbacks := by simp [DeliveryState.BetweenCallbacks, hserver]
  exact (h.covered hbetween ((hw.pcb so).symm.trans hest) hdata).imp_left (hw.mem so)

theorem leave (h : DeliveryInv so i s) {x : SocketPtr} (hx : x ≠ so) :
    DeliveryInv so i { s with stack := s.stack.remove .read x } := by
  unfold remove
  split
  · refine ⟨h.attached.unlink x, h.room, fun hb hest hdata => ?_⟩
    have hpcb := unlink_pcb s.stack .read x so
    refine (h.covered hb (hpcb.symm.trans hest) hdata).imp_left fun hmem => ?_
    simpa [unlink] using (List.mem_erase_of_ne hx.symm).mpr hmem
  · exact h

theorem finAcked (h : DeliveryInv so i s) :
    DeliveryInv so i { s with stack := s.stack.setTcpState so .finWait2 } :=
  ⟨h.attached.setTcpState rfl (by simp), h.room, fun _ hest _ => by
    simp [DeliveryState.Established, DeliveryState.sock, setTcpState] at hest⟩

theorem pass (h : DeliveryInv so i s) (hserver : s.server = .idle) (due : Nat) :
    DeliveryInv so i { s with server := .passing s.queueLen, fresh := false, due := due } where
  attached := h.attached
  room := .of_none rfl
  covered _ := h.covered (by simp [DeliveryState.BetweenCallbacks, hserver])

theorem process (h : DeliveryInv so i s) (hserver : s.server = .idle)
    (ht : s.process i = some t) : DeliveryInv so i t := by
  have hbetween : s.BetweenCallbacks := by simp [DeliveryState.BetweenCallbacks, hserver]
  have hidle : s.server.claimed = none := by rw [hserver]; rfl
  unfold DeliveryState.process at ht
  split at ht
  · cases ht
  · cases ht
    exact ⟨h.attached, .of_none rfl, fun hb => hb.elim⟩
  · cases ht
    obtain ⟨hatt, hne, -⟩ := h.attached.soshutdown
    exact ⟨hatt, .of_none hidle, fun _ hest => absurd hest hne⟩
  · next cs hcs =>
    cases ht
    refine ⟨h.attached, ?_, fun _ hest hdata => ?_⟩
    · exact .of_none hidle
    · have hcov := h.covered hbetween hest hdata
      simpa [DeliveryState.Covered, DeliveryState.Kicked, hcs] using hcov

/-- A step of the application's call: room appears on the ring only inside a call, and a call ends
only with a kick. -/
theorem receive_cases (ht : deliveryStep so i s .receive = some t) :
    ∃ cs, t = { s with call := s.call.advance, commands := cs } ∧ (s.Kicked → t.Kicked) := by
  cases hpc : s.call.pc with
  | taken mbuf =>
    obtain rfl : { s with call := s.call.advance, commands := s.commands ++ [.rxKick] } = t := by
      simpa [deliveryStep, hpc] using ht
    exact ⟨_, rfl, fun _ => .inl (by simp)⟩
  | idle | popped _ | cleared _ | counted _ | refilled _ =>
    obtain rfl : { s with call := s.call.advance } = t := by simpa [deliveryStep, hpc] using ht
    refine ⟨_, rfl, fun hkick => hkick.imp_right fun hinside => ?_⟩
    rcases hinside.advance with hin | ⟨mbuf, hpc'⟩
    · exact hin
    · rw [hpc] at hpc'
      cases hpc'

theorem receive (h : DeliveryInv so i s) (ht : deliveryStep so i s .receive = some t) :
    DeliveryInv so i t := by
  obtain ⟨cs, rfl, hkick⟩ := receive_cases ht
  obtain ⟨hle, hmade⟩ := s.call.freeCount_advance
  have hmade' : s.call.advance.rx.freeCount = s.call.rx.freeCount ∨
      DeliveryState.Kicked { s with call := s.call.advance, commands := cs } :=
    hmade.imp_right fun hin => .inr hin
  refine ⟨h.attached, fun n hn => ?_, fun hb hest hdata => ?_⟩
  · obtain ⟨hroom, hknown⟩ := h.room n hn
    refine ⟨hroom.trans hle, ?_⟩
    rcases hmade' with hsame | hk
    · exact hknown.imp hsame.trans hkick
    · exact .inr hk
  · rcases h.covered hb hest hdata with hmem | hfull | hk
    · exact .inl hmem
    · exact .inr (hmade'.imp_left fun hsame => hsame.trans hfull)
    · exact .inr (.inr (hkick hk))

theorem command (h : DeliveryInv so i s) (c : DeliveryCmd) :
    DeliveryInv so i { s with commands := s.commands ++ [c] } := by
  have hkick : s.Kicked → DeliveryState.Kicked { s with commands := s.commands ++ [c] } :=
    Or.imp_left (List.mem_append_left _)
  exact ⟨h.attached, fun n hn => (h.room n hn).imp_right (Or.imp_right hkick),
    fun hb hest hdata => (h.covered hb hest hdata).imp_right (Or.imp_right hkick)⟩

theorem resume (h : DeliveryInv so i s) (rest : Option Nat)
    (hcovered : s.soRcv ≠ [] → s.Covered so) : DeliveryInv so i (s.resume rest) := by
  -- the callback ends: there is nothing left, or no room but what a call has made since
  cases rest with
  | none =>
    exact ⟨h.attached, .of_none rfl,
      fun _ _ => hcovered⟩
  | some left =>
    exact ⟨h.attached, .of_none rfl,
      fun _ _ => hcovered⟩

theorem round (h : DeliveryInv so i s) (ht : s.round so = some t) : DeliveryInv so i t := by
  have hroom : ∀ n ∈ s.server.claimed, _ := h.room
  cases round_cases ht with
  | ended hserver =>
    exact ⟨h.attached, .of_none rfl, fun _ =>
      h.covered (by simp [DeliveryState.BetweenCallbacks, hserver])⟩
  | own => exact ⟨h.attached.unlink so, .of_none rfl, fun hb => hb.elim⟩
  | @other left x xs hserver hlist hne =>
    refine ⟨h.attached.unlink x, .of_none rfl, fun _ hest hdata => ?_⟩
    have hbetween : s.BetweenCallbacks := by simp [DeliveryState.BetweenCallbacks, hserver]
    have hpcb := unlink_pcb s.stack .read x so
    refine (h.covered hbetween (hpcb.symm.trans hest) hdata).imp_left fun hmem => ?_
    simpa [unlink] using (List.mem_erase_of_ne hne).mpr hmem
  | count =>
    refine ⟨h.attached, fun n hn => ?_, fun hb => hb.elim⟩
    cases hn
    exact ⟨le_refl _, .inl rfl⟩
  | @stop ringFree rest hserver hstop =>
    apply h.resume
    intro hdata
    obtain ⟨-, hfull⟩ := hroom ringFree (by simp [hserver, DeliveryPc.claimed])
    rcases hstop with rfl | hnil
    · exact .inr hfull
    · exact absurd hnil hdata
  | @take x xs ringFree rest hserver hdata =>
    refine ⟨h.attached, fun n hn => ?_, fun hb => hb.elim⟩
    cases hn
    exact hroom _ (by simp [hserver, DeliveryPc.claimed])
  | @refused x xs ringFree rest hserver hfull =>
    exact h.resume rest fun _ => .inr (.inl hfull)
  | @submit x xs ringFree rest rx hserver hfree =>
    obtain ⟨hclaim, hknown⟩ := hroom (ringFree + 1) (by simp [hserver, DeliveryPc.claimed])
    refine ⟨h.attached, fun n hn => ?_, fun hb => hb.elim⟩
    cases hn
    refine ⟨by simp only [hfree]; omega, hknown.imp_left fun hsame => ?_⟩
    simp only [hfree]
    omega

theorem step {a : DeliveryAction} (h : DeliveryInv so i s)
    (ht : deliveryStep so i s a = some t) : DeliveryInv so i t := by
  cases a with
  | arrive x xs =>
    obtain ⟨-, rfl⟩ := guarded_eq_some.mp ht
    exact ⟨h.attached, .of_none rfl, fun hb => hb.elim⟩
  | upcall =>
    obtain ⟨-, rfl⟩ := guarded_eq_some.mp ht
    exact h.upcall
  | wake x =>
    obtain ⟨hserver, rfl⟩ := guarded_eq_some.mp ht
    exact h.wake hserver x
  | leave x =>
    obtain ⟨⟨-, hx⟩, rfl⟩ := guarded_eq_some.mp ht
    exact h.leave hx
  | finAcked =>
    obtain ⟨-, rfl⟩ := guarded_eq_some.mp ht
    exact h.finAcked
  | pass =>
    obtain ⟨hserver, rfl⟩ := guarded_eq_some.mp ht
    exact h.pass hserver _
  | round => exact h.round ht
  | process =>
    obtain ⟨hserver, ht⟩ := guard_bind_eq_some.mp ht
    exact h.process hserver ht
  | command c =>
    cases ht
    exact h.command c
  | receive => exact h.receive ht

end DeliveryInv

structure Attaching (so : SocketPtr) (i : Slot) (s : DeliveryState) : Prop where
  attached : Attached so i s.stack
  server : s.server = .called none ∨ s.server = .idle ∧ s.soRcv = []
  counted : (s.stack.lists .read).length ≤ s.queueLen
  arrived : s.arrived = s.delivered + s.soRcv.length
  quiet : s.fresh = false ∧ s.due = 0 ∧ s.settled = 0

theorem Attaching.deliveryInv {so : SocketPtr} {i : Slot} {s : DeliveryState}
    (h : Attaching so i s) : DeliveryInv so i s := by
  rcases h.server with hserver | ⟨hserver, hnil⟩
  · refine ⟨h.attached, .of_none (by rw [hserver]; rfl), fun hb => ?_⟩
    simp [DeliveryState.BetweenCallbacks, hserver] at hb
  · exact ⟨h.attached, .of_none (by rw [hserver]; rfl), fun _ _ hdata => absurd hnil hdata⟩

/-- While data waits in the receive buffer, the next pass, a full ring or a kick covers it. -/
theorem covered_of_run {so : SocketPtr} {i : Slot} {s₀ s : DeliveryState}
    {as : List DeliveryAction} (hstart : Attaching so i s₀)
    (hrun : Run (deliveryStep so i) (fun _ _ => True) s₀ as s) (hidle : s.server = .idle)
    (hest : s.Established so) (hdata : s.soRcv ≠ []) : s.Covered so := by
  have hinv : DeliveryInv so i s :=
    hrun.invariant (fun _ _ _ h _ hstep => h.step hstep) hstart.deliveryInv
  exact hinv.covered (by simp [DeliveryState.BetweenCallbacks, hidle]) hest hdata

def attachedStack : SocketStack :=
  { SocketStack.start with
    sock := Function.update SocketStack.start.sock 1
      { live := true, connected := true, pcb := some (.tcp .established), upcall2 := true,
        glueingBlock := some 0 }
    sat := Function.update SocketStack.start.sat 0 { socket := some 1, ringsetIdx := some 0 } }

theorem attachedStack_attached : Attached 1 0 attachedStack where
  linked := by simp [attachedStack]
  upcall := by simp [attachedStack]
  stream := by simp [attachedStack]
  tcp := ⟨.established, by simp [attachedStack], rfl, by simp [attachedStack]⟩
  flag := by simp [attachedStack]

def attaching (rx : Fifo (dataRingsSize - 1) RxItem) : DeliveryState :=
  { stack := attachedStack, call := { rx := rx }, server := .called none }

theorem attaching_attaching (rx : Fifo (dataRingsSize - 1) RxItem) :
    Attaching 1 0 (attaching rx) :=
  ⟨attachedStack_attached, .inl rfl, Nat.zero_le _, rfl, rfl, rfl, rfl⟩

def fullRing : Fifo (dataRingsSize - 1) RxItem :=
  ⟨List.replicate (dataRingsSize - 1) (.data ⟨0, 0⟩), List.length_replicate.le⟩

def fullRingRun : List DeliveryAction :=
  [.round, .round, .arrive 7 [], .upcall, .pass, .round, .round, .round, .round,
    .receive, .receive, .receive, .receive, .receive, .receive]

theorem covered_of_run_full : ∃ s,
    Run (deliveryStep 1 0) (fun _ _ => True) (attaching fullRing) fullRingRun s ∧
      (s.soRcv = [7] ∧ 1 ∉ s.stack.lists .read ∧ s.call.rx.freeCount = 32 ∧ s.server = .idle ∧
        (s.sock 1).pcb = some (.tcp .established)) ∧ s.Covered 1 := by
  refine Run.exists_and_of_runActions (by decide +kernel) fun s hrun hs => ?_
  obtain ⟨hdata, -, -, hidle, hest⟩ := hs
  exact covered_of_run (attaching_attaching fullRing) hrun hidle hest (by simp [hdata])

end NetbsdDpdk
