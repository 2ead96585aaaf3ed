import NetbsdDpdk.SocketFrame

/-! How far `soclose` gets. A socket whose protocol control block goes away at once is freed there;
an established connection stays behind and is freed by TCP later. -/

namespace NetbsdDpdk

open Socket

/-- `soclose` frees the socket: it has no control block, or one that does not outlive the close. -/
def Socket.closeFrees (t : Socket) : Bool :=
  match t.pcb with
  | some (.tcp state) => !state.haveEstablished || decide (t.linger = some 0)
  | _ => true

def Socket.control (t : Socket) : Option Pcb × Option Nat := (t.pcb, t.linger)

theorem Socket.closeFrees_congr {t t' : Socket} (h : t'.control = t.control) :
    t'.closeFrees = t.closeFrees := by
  have hpcb : t'.pcb = t.pcb := congrArg Prod.fst h
  have hlinger : t'.linger = t.linger := congrArg Prod.snd h
  simp only [closeFrees, hpcb, hlinger]

namespace SocketStack

variable {s t : SocketStack} {so : SocketPtr}

/-! Waking up and freeing write the flags of the lists, the room in the send buffer and the mark of
the pool. A view `f` of a socket that does not look at these is kept. -/

section View

variable {α : Type*} {f : Socket → α}

theorem insert_view (hf : ∀ t p, f { t with present := p } = f t) (s : SocketStack) (k : ReadyList)
    (so : SocketPtr) : f ((s.insert k so).sock so) = f (s.sock so) := by
  unfold insert
  split
  · rfl
  · simp [setPresent, hf]

theorem unlink_view (hf : ∀ t p, f { t with present := p } = f t) (s : SocketStack) (k : ReadyList)
    (so : SocketPtr) : f ((s.unlink k so).sock so) = f (s.sock so) := by
  simp [unlink, setPresent, hf]

theorem sockReadable_view (hf : ∀ t p, f { t with present := p } = f t) (s : SocketStack)
    (so : SocketPtr) : f ((s.sockReadable so).sock so) = f (s.sock so) := by
  simp only [sockReadable]
  split
  · exact insert_view hf s _ so
  · split <;> first | rfl | exact insert_view hf s _ so

theorem sockWriteSpace_view (hf : ∀ t p, f { t with present := p } = f t) (s : SocketStack)
    (so : SocketPtr) : f ((s.sockWriteSpace so).sock so) = f (s.sock so) := by
  simp only [sockWriteSpace]
  repeat' split
  all_goals first | rfl | exact insert_view hf s _ so

theorem sowakeup_view (hf : ∀ t p, f { t with present := p } = f t) (s : SocketStack)
    (so : SocketPtr) : f ((s.sowakeup so).sock so) = f (s.sock so) := by
  unfold sowakeup
  split
  · rw [sockWriteSpace_view hf, sockReadable_view hf]
  · rfl

@[simp] theorem reflect_sock (s : SocketStack) (so : SocketPtr) : (s.reflect so).sock = s.sock := by
  unfold reflect
  split <;> rfl

theorem sorflush_view (hf : ∀ t p, f { t with present := p } = f t) (s : SocketStack)
    (so : SocketPtr) : f ((s.sorflush so).sock so) = f (s.sock so) := by
  rw [sorflush, reflect_sock, sowakeup_view hf]

theorem sofree_view (hf : ∀ t p, f { t with present := p } = f t)
    (hsnd : ∀ t b, f { t with sndSpace := b } = f t) (hlive : ∀ t b, f { t with live := b } = f t)
    (s : SocketStack) (so : SocketPtr) : f ((s.sofree so).sock so) = f (s.sock so) := by
  have hflush : f (((((s.reflect so).modify so fun t =>
      { t with sndSpace := false })).sorflush so).sock so) = f (s.sock so) := by
    rw [sorflush_view hf, modify_sock_self, hsnd, reflect_sock]
  simp only [sofree]
  split
  · rfl
  · split
    · exact hflush
    · rw [soput, modify_sock_self, hlive]
      exact hflush

end View

theorem unlink_control (s : SocketStack) (k : ReadyList) (so : SocketPtr) :
    ((s.unlink k so).sock so).control = (s.sock so).control := unlink_view (fun _ _ => rfl) s k so

theorem sowakeup_control (s : SocketStack) (so : SocketPtr) :
    ((s.sowakeup so).sock so).control = (s.sock so).control := sowakeup_view (fun _ _ => rfl) s so

theorem sorflush_control (s : SocketStack) (so : SocketPtr) :
    ((s.sorflush so).sock so).control = (s.sock so).control := sorflush_view (fun _ _ => rfl) s so

theorem sofree_control (s : SocketStack) (so : SocketPtr) :
    ((s.sofree so).sock so).control = (s.sock so).control :=
  sofree_view (fun _ _ => rfl) (fun _ _ => rfl) (fun _ _ => rfl) s so

theorem soisdisconnecting_control (s : SocketStack) (so : SocketPtr) :
    ((s.soisdisconnecting so).sock so).control = (s.sock so).control := by
  simp only [soisdisconnecting, sowakeup_control, modify_sock_self]
  rfl

theorem soisdisconnected_control (s : SocketStack) (so : SocketPtr) :
    ((s.soisdisconnected so).sock so).control = (s.sock so).control := by
  simp only [soisdisconnected, sowakeup_control, modify_sock_self]
  rfl

theorem tcpClose_pcb (s : SocketStack) (so : SocketPtr) : ((s.tcpClose so).sock so).pcb = none := by
  have hfree :=
    sofree_control ((s.soisdisconnected so).modify so fun t => { t with pcb := none }) so
  rw [modify_sock_self] at hfree
  exact congrArg Prod.fst hfree

theorem tcpUsrclosed_established {state : TcpState} (hstate : state.haveEstablished = true)
    (hpcb : (s.sock so).pcb = some (.tcp state)) :
    ∃ state' : TcpState, state'.haveEstablished = true ∧
      ((s.tcpUsrclosed so state).sock so).control = (some (.tcp state'), (s.sock so).linger) := by
  have hsame : (s.sock so).control = (some (.tcp state), (s.sock so).linger) := by
    rw [Socket.control, hpcb]
  cases state with
  | closed | listen | synSent | synReceived => simp [TcpState.haveEstablished] at hstate
  | established => exact ⟨.finWait1, rfl, by simp [tcpUsrclosed, setTcpState, Socket.control]⟩
  | closeWait => exact ⟨.lastAck, rfl, by simp [tcpUsrclosed, setTcpState, Socket.control]⟩
  | finWait2 | timeWait => exact ⟨_, hstate, (soisdisconnected_control s so).trans hsame⟩
  | finWait1 | closing | lastAck => exact ⟨_, hstate, hsame⟩

theorem tcpDisconnect_pcb {state : TcpState} (hpcb : (s.sock so).pcb = some (.tcp state))
    (hfrees : (s.sock so).closeFrees = true) : ((s.tcpDisconnect so state).sock so).pcb = none := by
  simp only [closeFrees, hpcb, Bool.or_eq_true, decide_eq_true_eq] at hfrees
  unfold tcpDisconnect
  split
  · exact tcpClose_pcb s so
  · next hest =>
    rw [if_pos (hfrees.resolve_left hest)]
    exact tcpClose_pcb _ so

theorem tcpDisconnect_stays {state : TcpState} (hpcb : (s.sock so).pcb = some (.tcp state))
    (hstays : (s.sock so).closeFrees = false) :
    ((s.tcpDisconnect so state).sock so).closeFrees = false := by
  simp only [closeFrees, hpcb, Bool.or_eq_false_iff, decide_eq_false_iff_not,
    Bool.not_eq_false'] at hstays
  obtain ⟨hest, hlinger⟩ := hstays
  have hcontrol : (((s.soisdisconnecting so).reflect so).sock so).control =
      (s.sock so).control := by
    rw [reflect_sock, soisdisconnecting_control]
  have hpcb' : (((s.soisdisconnecting so).reflect so).sock so).pcb = some (.tcp state) :=
    (congrArg Prod.fst hcontrol).trans hpcb
  have hlinger' : (((s.soisdisconnecting so).reflect so).sock so).linger = (s.sock so).linger :=
    congrArg Prod.snd hcontrol
  obtain ⟨state', hest', hclosed⟩ := tcpUsrclosed_established hest hpcb'
  rw [hlinger'] at hclosed
  have hpcb'' := congrArg Prod.fst hclosed
  have hlinger'' := congrArg Prod.snd hclosed
  simp only [Socket.control] at hpcb'' hlinger''
  rw [tcpDisconnect, hest, if_neg (by simp), if_neg hlinger]
  simp [closeFrees, hpcb'', hlinger'', hest', hlinger]

theorem detach_pcb (hfrees : (s.sock so).closeFrees = true) :
    ((s.detach so).sock so).pcb = none := by
  unfold detach
  split
  · next state hpcb => exact tcpDisconnect_pcb hpcb hfrees
  · have hfree := sofree_control (s.modify so fun t => { t with pcb := none }) so
    rw [modify_sock_self] at hfree
    exact congrArg Prod.fst hfree
  · next hpcb => exact hpcb

theorem detach_stays (hstays : (s.sock so).closeFrees = false) :
    ((s.detach so).sock so).closeFrees = false := by
  unfold detach
  split
  · next state hpcb => exact tcpDisconnect_stays hpcb hstays
  · next hpcb => simp [closeFrees, hpcb] at hstays
  · next hpcb => simp [closeFrees, hpcb] at hstays

theorem disconnect_closeFrees (s : SocketStack) (so : SocketPtr) :
    ((s.disconnect so).sock so).closeFrees = (s.sock so).closeFrees := by
  unfold disconnect
  split
  · next state hpcb =>
    cases hfrees : (s.sock so).closeFrees with
    | true => simp [closeFrees, tcpDisconnect_pcb hpcb hfrees]
    | false => exact tcpDisconnect_stays hpcb hfrees
  · simp [closeFrees]

theorem pcb_ne_none_of_stays {t : Socket} (h : t.closeFrees = false) : t.pcb ≠ none := by
  intro hpcb
  simp [closeFrees, hpcb] at h

theorem socloseSelf_cases (h : s.socloseSelf so = some t) :
    ∃ u, (u = s ∨ u = s.detach so ∨ u = (s.disconnect so).detach so) ∧ u.discard so = some t ∧
      ((s.sock so).closeFrees = true ↔ (u.sock so).pcb = none) := by
  have hiff {v : SocketStack} (hv : (v.sock so).closeFrees = (s.sock so).closeFrees) :
      (s.sock so).closeFrees = true ↔ ((v.detach so).sock so).pcb = none := by
    constructor
    · intro hfrees
      exact detach_pcb (hv.trans hfrees)
    · intro hpcb
      by_contra hstays
      exact pcb_ne_none_of_stays (detach_stays (hv.trans (by simpa using hstays))) hpcb
  simp only [socloseSelf] at h
  split at h
  · next hpcb =>
    rw [Option.isNone_iff_eq_none] at hpcb
    exact ⟨s, .inl rfl, h, by simp [closeFrees, hpcb]⟩
  · split at h
    · split at h
      · simp only [Option.ite_none_left_eq_some] at h
        exact ⟨_, .inr (.inl rfl), h.2, hiff rfl⟩
      · simp only [Option.ite_none_left_eq_some] at h
        exact ⟨_, .inr (.inr rfl), h.2, hiff (disconnect_closeFrees s so)⟩
    · exact ⟨_, .inr (.inl rfl), h, hiff rfl⟩

theorem touches_of_closing {u : SocketStack}
    (h : u = s ∨ u = s.detach so ∨ u = (s.disconnect so).detach so) : Touches so s u := by
  rcases h with rfl | rfl | rfl
  · exact Touches.refl so _
  · exact touches_detach s so
  · exact (touches_disconnect s so).trans (touches_detach _ so)

theorem discard_eq_some : s.discard so = some t ↔
    (s.sock so).noFdRef = false ∧
      (s.modify so fun t => { t with noFdRef := true }).sofree so = t := by
  cases hno : (s.sock so).noFdRef <;> simp [discard, hno]

theorem sofree_dead (hpcb : (s.sock so).pcb = none) (hno : (s.sock so).noFdRef = true)
    (hhead : (s.sock so).head = none) (hidle : (s.sock so).aborting = false) :
    ((s.sofree so).sock so).live = false := by
  simp [sofree, hpcb, hno, hhead, hidle, soput]

theorem sofree_of_pcb (hpcb : (s.sock so).pcb ≠ none) : s.sofree so = s := by
  simp [sofree, Option.isSome_iff_ne_none.mpr hpcb]

end SocketStack

end NetbsdDpdk
