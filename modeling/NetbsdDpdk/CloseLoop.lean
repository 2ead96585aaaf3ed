import NetbsdDpdk.AcceptPass

/-! `app_glue_close_socket` with its three loops: over the connections that wait on a listening
socket, over its two queues in `soclose`, and the wait for a connection that lingers. -/

namespace NetbsdDpdk

open List

open SocketStack

open AcceptPass

/-- The calls of a protocol that a close makes. They return, and each concerns its own socket. -/
structure Usrreq where
  disconnect : SocketStack → SocketPtr → SocketStack × Bool
  detach : SocketStack → SocketPtr → SocketStack
  abort : SocketStack → SocketPtr → SocketStack
  disconnect_touches : ∀ s so, Touches so s (disconnect s so).1
  detach_touches : ∀ s so, Touches so s (detach s so)
  abort_touches : ∀ s so, Touches so s (abort s so)

/-- `tcp_usrreq` and `udp_usrreq`. -/
def inetUsrreq : Usrreq where
  disconnect s so := (s.disconnect so, false)
  detach s so := s.detach so
  abort s so :=
    match (s.sock so).pcb with
    | some (.tcp _) => s.tcpDrop so true
    | _ => s
  disconnect_touches := SocketStack.touches_disconnect
  detach_touches := SocketStack.touches_detach
  abort_touches s so := by
    split
    · exact SocketStack.touches_tcpDrop s so true
    · exact Touches.refl so s

def soqremque (s : SocketStack) (so so2 : SocketPtr) : SocketStack :=
  if (s.sock so2).head = some so then s.dequeueAccept so so2 else s

/-- A round of the loop of `app_glue_close_socket`: a connection is accepted and forgotten. -/
def orphanRound (so : SocketPtr) (w : AcceptPass) : RoundResult AcceptPass AcceptFault :=
  match (w.stack.sock so).queue with
  | [] => .done w
  | so2 :: _ =>
    match w.mGetSoname with
    | .error e => .fault e
    | .ok addr =>
      -- the loop is left with the address mbuf, and without removing anything
      if (w.stack.sock so2).head ≠ some so then
        .done { w with mbufs := w.mbufs - 1, bufs := if addr then w.bufs - 1 else w.bufs }
      else
        match soacceptNam (w.stack.dequeueAccept so so2) so2 addr with
        | .error e => .fault e
        | .ok s => .again { w with stack := s }

def acceptAll (fuel : Nat) (w : AcceptPass) (so : SocketPtr) :
    Option (Except AcceptFault SocketStack) :=
  if (w.stack.sock so).present .accept then
    andThen (iterate (orphanRound so) fuel w) fun w => some (.ok (w.stack.unlink .accept so))
  else some (.ok w.stack)

structure AbortLoop where
  stack : SocketStack
  q0 : List SocketPtr

namespace Usrreq

variable (P : Usrreq)

def soabort (s : SocketStack) (so : SocketPtr) : SocketStack :=
  let s := P.abort (s.modify so fun t => { t with aborting := true }) so
  (s.modify so fun t => { t with aborting := false }).sofree so

def abortRound (so : SocketPtr) (c : AbortLoop) : RoundResult AbortLoop AcceptFault :=
  match c.q0, (c.stack.sock so).queue with
  | so2 :: q0, _ =>
    .again ⟨P.soabort (c.stack.modify so2 fun t => { t with head := none }) so2, q0⟩
  | [], so2 :: _ => .again ⟨P.soabort (soqremque c.stack so so2) so2, []⟩
  | [], [] => .done c

/-- A round of the loop that waits: `sowait` returns 0 at once, and nothing has changed. -/
def lingerRound (so : SocketPtr) (s : SocketStack) : RoundResult SocketStack AcceptFault :=
  if (s.sock so).connected then .again s else .done s

/-- `soclose` from `drop` on. -/
def drop (s : SocketStack) (so : SocketPtr) : Option (Except AcceptFault SocketStack) :=
  let s := if (s.sock so).pcb = none then s else P.detach s so
  if (s.sock so).noFdRef then some (.error .panic)
  else some (.ok ((s.modify so fun t => { t with noFdRef := true }).sofree so))

def sodisconnect (s : SocketStack) (so : SocketPtr) : SocketStack × Bool :=
  if (s.sock so).disconnecting then (s, false) else P.disconnect s so

/-- `soclose` behind the queues. `SS_NBIO` is never set here, so a socket that lingers is waited
for. -/
def socloseSelf (fuel : Nat) (s : SocketStack) (so : SocketPtr) :
    Option (Except AcceptFault SocketStack) :=
  if (s.sock so).pcb ≠ none ∧ (s.sock so).connected then
    let (s, error) := P.sodisconnect s so
    if error = false ∧ (s.sock so).linger.isSome then
      andThen (iterate (lingerRound so) fuel s) fun s => P.drop s so
    else P.drop s so
  else P.drop s so

def abortAll (fuel : Nat) (s : SocketStack) (q0 : List SocketPtr) (so : SocketPtr) :
    Option (Except AcceptFault SocketStack) :=
  if (s.sock so).acceptConn then
    andThen (iterate (P.abortRound so) fuel ⟨s, q0⟩) fun c => some (.ok c.stack)
  else some (.ok s)

def emptyQueues (fuel : Nat) (w : AcceptPass) (q0 : List SocketPtr) (so : SocketPtr) :
    Option (Except AcceptFault SocketStack) :=
  andThen (acceptAll fuel { w with stack := (w.stack.remove .read so).remove .write so } so)
    fun s => P.abortAll fuel (s.remove .closed so) q0 so

def closeSocket (fuel : Nat) (w : AcceptPass) (q0 : List SocketPtr) (so : SocketPtr) :
    Option (Except AcceptFault SocketStack) :=
  andThen (P.emptyQueues fuel w q0 so) fun s => P.socloseSelf fuel s so

def Lingers (s : SocketStack) (so : SocketPtr) : Prop :=
  ((s.sock so).pcb ≠ none ∧ (s.sock so).connected = true) ∧ (P.sodisconnect s so).2 = false ∧
    ((P.sodisconnect s so).1.sock so).linger.isSome ∧
    ((P.sodisconnect s so).1.sock so).connected = true

end Usrreq

def OrphanOk (w : AcceptPass) (so2 : SocketPtr) : Prop :=
  if w.mbufs = 0 then (w.stack.sock so2).disconnected = true ∨ (w.stack.sock so2).pcb = none
  else w.bufs ≠ 0

def AcceptOk (w : AcceptPass) (so : SocketPtr) : Prop :=
  (w.stack.sock so).present .accept = true → ∀ so2 ∈ (w.stack.sock so).queue, OrphanOk w so2

def TcpState.outlives (state : TcpState) (linger : Option Nat) : Bool :=
  state.haveEstablished && linger != some 0 && state != .finWait2 && state != .timeWait

/-- The close of a socket in this state waits for ever: `SO_LINGER` is set, and `PRU_DISCONNECT` was
called before, or does not disconnect it. -/
def Socket.lingers (t : Socket) : Bool :=
  t.connected && t.linger.isSome &&
    match t.pcb with
    | none => false
    | some .udp => t.disconnecting
    | some (.tcp state) => t.disconnecting || state.outlives t.linger

variable {P : Usrreq} {s : SocketStack} {so so2 : SocketPtr}

/-! The wait. -/

def Usrreq.atDrop (P : Usrreq) (s : SocketStack) (so : SocketPtr) : SocketStack :=
  if (s.sock so).pcb ≠ none ∧ (s.sock so).connected then (P.sodisconnect s so).1 else s

theorem Usrreq.socloseSelf_of_lingers (h : P.Lingers s so) (fuel : Nat) :
    P.socloseSelf fuel s so = none := by
  obtain ⟨hconn, herror, hlinger, hstays⟩ := h
  have hwait : iterate (lingerRound so) fuel (P.sodisconnect s so).1 = none := by
    refine iterate_eq_none (I := fun s => (s.sock so).connected = true) ?_ hstays fuel
    intro s hs
    exact ⟨s, by simp [lingerRound, hs], hs⟩
  simp only [socloseSelf, if_pos hconn, herror, hlinger, and_self, if_true, hwait]
  rfl

theorem Usrreq.socloseSelf_of_not_lingers (h : ¬ P.Lingers s so) (fuel : Nat) :
    P.socloseSelf (fuel + 1) s so = P.drop (P.atDrop s so) so := by
  by_cases hconn : (s.sock so).pcb ≠ none ∧ (s.sock so).connected = true
  · simp only [socloseSelf, atDrop, if_pos hconn]
    split
    · next hwait =>
      have hdone : ((P.sodisconnect s so).1.sock so).connected = false := by
        by_contra hstays
        exact h ⟨hconn, hwait.1, hwait.2, by simpa using hstays⟩
      simp [iterate, lingerRound, hdone, andThen]
    · rfl
  · simp only [socloseSelf, atDrop, if_neg hconn]

theorem Usrreq.drop_ok_iff (P : Usrreq) (s : SocketStack) (so : SocketPtr) :
    (∃ t, P.drop s so = some (.ok t)) ↔ (s.sock so).noFdRef = false := by
  have hkept : ((if (s.sock so).pcb = none then s else P.detach s so).sock so).noFdRef =
      (s.sock so).noFdRef := by
    split
    · rfl
    · exact (P.detach_touches s so).noFdRef
  simp only [Usrreq.drop, hkept]
  cases hno : (s.sock so).noFdRef <;> simp

theorem Usrreq.atDrop_noFdRef (P : Usrreq) (s : SocketStack) (so : SocketPtr) :
    ((P.atDrop s so).sock so).noFdRef = (s.sock so).noFdRef := by
  unfold atDrop sodisconnect
  split
  · split
    · rfl
    · exact (P.disconnect_touches s so).noFdRef
  · rfl

theorem Usrreq.steady_socloseSelf (P : Usrreq) (s : SocketStack) (so : SocketPtr) :
    Steady fun fuel => P.socloseSelf fuel s so := by
  unfold socloseSelf
  split
  · dsimp only
    split
    · exact (steady_iterate _ _).andThen fun _ => steady_const _
    · exact steady_const _
  · exact steady_const _

theorem Usrreq.socloseSelf_returns_iff :
    (∃ t, Returns (fun fuel => P.socloseSelf fuel s so) t) ↔
      (s.sock so).noFdRef = false ∧ ¬ P.Lingers s so := by
  by_cases hlingers : P.Lingers s so
  · have hnever : ¬ ∃ t, Returns (fun fuel => P.socloseSelf fuel s so) t := by
      rintro ⟨t, fuel, ht⟩
      simp only [socloseSelf_of_lingers hlingers] at ht
      cases ht
    simp [hnever, hlingers]
  · have hdrop := P.drop_ok_iff (P.atDrop s so) so
    rw [P.atDrop_noFdRef] at hdrop
    simp only [hlingers, not_false_eq_true, and_true, ← hdrop]
    constructor
    · rintro ⟨t, fuel, ht⟩
      have hmore := P.steady_socloseSelf s so fuel (fuel + 1) t (Nat.le_succ fuel) ht
      exact ⟨t, socloseSelf_of_not_lingers hlingers fuel ▸ hmore⟩
    · rintro ⟨t, ht⟩
      exact ⟨t, 1, (socloseSelf_of_not_lingers hlingers 0).trans ht⟩

/-! The queues. What a close looks at later is not touched by emptying them. -/

def Socket.closing (t : Socket) : Option Pcb × Option Nat × Bool × Bool × Bool :=
  (t.pcb, t.linger, t.connected, t.disconnecting, t.noFdRef)

structure Emptying (so : SocketPtr) (s u : SocketStack) : Prop where
  queues : Queues u
  closing : (u.sock so).closing = (s.sock so).closing
  queue : ∀ l, (u.sock l).queue.Sublist (s.sock l).queue

namespace Emptying

variable {t u : SocketStack}

theorem refl (h : Queues s) : Emptying so s s := ⟨h, rfl, fun _ => List.Sublist.refl _⟩

theorem trans (h : Emptying so s t) (h' : Emptying so t u) : Emptying so s u :=
  ⟨h'.queues, h'.closing.trans h.closing, fun l => (h'.queue l).trans (h.queue l)⟩

theorem of_touches (h : Queues s) (ht : Touches so2 s t) (hne : so2 ≠ so) : Emptying so s t := by
  refine ⟨h.touches ht, by rw [ht.other so hne.symm], fun l => ?_⟩
  have hqueue : (t.sock l).queue = (s.sock l).queue := congrArg SocketCore.queue (ht.core_eq l)
  rw [hqueue]

theorem unlink (h : Queues s) (k : ReadyList) : Emptying so s (s.unlink k so) := by
  have ht := touches_unlink s k so
  refine ⟨h.touches ht, unlink_view (fun _ _ => rfl) s k so, fun l => ?_⟩
  have hqueue : ((s.unlink k so).sock l).queue = (s.sock l).queue :=
    congrArg SocketCore.queue (ht.core_eq l)
  rw [hqueue]

theorem remove (h : Queues s) (k : ReadyList) (so : SocketPtr) :
    Emptying so s (s.remove k so) := by
  unfold SocketStack.remove
  split
  · exact unlink h k
  · exact refl h

theorem dequeue (h : Queues s) (hmem : so2 ∈ (s.sock so).queue) :
    Emptying so s (s.dequeueAccept so so2) := by
  have hne := h.ne_of_mem hmem
  refine ⟨h.dequeueAccept hmem, ?_, fun l => ?_⟩
  · rw [dequeueAccept_sock_head hne]
    rfl
  · by_cases hl : l = so
    · rw [hl, dequeueAccept_sock_head hne]
      exact erase_sublist
    · by_cases hl2 : l = so2
      · rw [hl2, dequeueAccept_sock_self hne]
      · rw [dequeueAccept_sock_of_ne hl hl2]

end Emptying

/-! Accepting what waits. -/

section Orphan

variable {w w' : AcceptPass} {rest : List SocketPtr}

def orphaned (s : SocketStack) (so so2 : SocketPtr) : SocketStack :=
  (s.dequeueAccept so so2).modify so2 fun t => { t with noFdRef := false }

theorem orphaned_emptying (h : Queues s) (hmem : so2 ∈ (s.sock so).queue) :
    Emptying so s (orphaned s so so2) := by
  have hne := h.ne_of_mem hmem
  have hdeq := Emptying.dequeue h hmem
  have hsock {l : SocketPtr} (hl : l ≠ so2) :
      (orphaned s so so2).sock l = (s.dequeueAccept so so2).sock l :=
    modify_sock_of_ne _ _ hl
  refine ⟨?_, ?_, fun l => ?_⟩
  · rw [orphaned, accepted_eq h hmem]
    exact h.accept hmem false
  · rw [hsock hne.symm]
    exact hdeq.closing
  · by_cases hl : l = so2
    · subst hl
      rw [orphaned, modify_sock_self]
      exact hdeq.queue l
    · rw [hsock hl]
      exact hdeq.queue l

theorem orphanRound_spec (hq : Queues w.stack) (hl : (w.stack.sock so).queue = so2 :: rest) :
    (OrphanOk w so2 → orphanRound so w = .again { w with stack := orphaned w.stack so so2 }) ∧
      (¬ OrphanOk w so2 → ∃ e, orphanRound so w = .fault e) := by
  have hmem : so2 ∈ (w.stack.sock so).queue := hl ▸ mem_cons_self
  obtain ⟨-, hhead, hno, -⟩ := hq.queued so so2 hmem
  have hnam addr : soacceptNam (w.stack.dequeueAccept so so2) so2 addr =
      if (w.stack.sock so2).disconnected = false ∧ (w.stack.sock so2).pcb ≠ none ∧ addr = false
        then .error .nullAddress else .ok (orphaned w.stack so so2) := by
    simp only [soacceptNam, modify_sock_self, dequeueAccept_sock_self (hq.ne_of_mem hmem), hno,
      Bool.true_eq_false, if_false]
    rfl
  simp only [orphanRound, hl, mGetSoname, OrphanOk, hhead, hnam]
  by_cases hmbufs : w.mbufs = 0
  · cases (w.stack.sock so2).disconnected <;> cases (w.stack.sock so2).pcb <;> simp [hmbufs]
  · by_cases hbufs : w.bufs = 0 <;> simp [hmbufs, hbufs]

theorem orphan_ends_iff (hq : Queues w.stack) (hl : (w.stack.sock so).queue = rest) :
    (∃ w', Halts (orphanRound so) w (.ok w')) ↔ ∀ so2 ∈ rest, OrphanOk w so2 := by
  induction rest generalizing w with
  | nil =>
    have hround : orphanRound so w = .done w := by simp [orphanRound, hl]
    exact iff_of_true ⟨w, (Halts.done_iff hround).mpr rfl⟩ (by simp)
  | cons so2 rest ih =>
    have hmem : so2 ∈ (w.stack.sock so).queue := hl ▸ mem_cons_self
    have hne := hq.ne_of_mem hmem
    by_cases hok : OrphanOk w so2
    · have hround := (orphanRound_spec hq hl).1 hok
      have hl' : ((orphaned w.stack so so2).sock so).queue = rest := by
        rw [orphaned, modify_sock_of_ne _ _ hne.symm]
        exact dequeueAccept_queue hq hl
      have hrest : ∀ l ∈ rest, OrphanOk { w with stack := orphaned w.stack so so2 } l ↔
          OrphanOk w l := by
        intro l hlmem
        obtain ⟨hl2, hlso⟩ := hq.ne_of_mem_rest hl hlmem
        have hsock : (orphaned w.stack so so2).sock l = w.stack.sock l := by
          rw [orphaned, modify_sock_of_ne _ _ hl2, dequeueAccept_sock_of_ne hlso hl2]
        simp only [OrphanOk, hsock]
      have hih := ih (w := { w with stack := orphaned w.stack so so2 })
        (orphaned_emptying hq hmem).queues hl'
      simp only [Halts.again_iff hround, hih, forall_mem_cons, hok, true_and]
      exact forall₂_congr hrest
    · obtain ⟨e, hround⟩ := (orphanRound_spec hq hl).2 hok
      simp [Halts.fault_iff hround, hok]

theorem orphanRound_cases (so : SocketPtr) (hq : Queues w.stack) :
    orphanRound so w = .done w ∨ (∃ e, orphanRound so w = .fault e) ∨
      ∃ so2 ∈ (w.stack.sock so).queue,
        orphanRound so w = .again { w with stack := orphaned w.stack so so2 } := by
  cases hl : (w.stack.sock so).queue with
  | nil => exact .inl (by simp [orphanRound, hl])
  | cons so2 rest =>
    by_cases hok : OrphanOk w so2
    · exact .inr (.inr ⟨so2, mem_cons_self, (orphanRound_spec hq hl).1 hok⟩)
    · exact .inr (.inl ((orphanRound_spec hq hl).2 hok))

theorem orphan_emptying (hq : Queues w.stack) (h : Halts (orphanRound so) w (.ok w')) :
    Emptying so w.stack w'.stack := by
  refine Halts.rule (I := fun v => Emptying so w.stack v.stack)
    (J := fun v => Emptying so w.stack v.stack) ?_ ?_ (Emptying.refl hq) h
  · intro v v' hv hround
    rcases orphanRound_cases so hv.queues with heq | ⟨e, heq⟩ | ⟨so2, hmem, heq⟩
    all_goals rw [heq] at hround; cases hround
    exact hv.trans (orphaned_emptying hv.queues hmem)
  · intro v v' hv hround
    rcases orphanRound_cases so hv.queues with heq | ⟨e, heq⟩ | ⟨so2, hmem, heq⟩
    all_goals rw [heq] at hround; cases hround
    exact hv

end Orphan

/-! Aborting what is left. -/

section Abort

variable {c : AbortLoop} {q0 : List SocketPtr}

def Incomplete (s : SocketStack) (so : SocketPtr) (q0 : List SocketPtr) : Prop :=
  ∀ so2 ∈ q0, so2 ≠ so ∧ ∀ l, so2 ∉ (s.sock l).queue

theorem Incomplete.emptying {u : SocketStack} (h : Incomplete s so q0) (he : Emptying so s u) :
    Incomplete u so q0 :=
  fun so2 hmem => ⟨(h so2 hmem).1, fun l hq => (h so2 hmem).2 l ((he.queue l).subset hq)⟩

theorem Usrreq.soabort_emptying (hq : Queues s) (hne : so2 ≠ so) :
    Emptying so s (P.soabort s so2) :=
  Emptying.of_touches hq
    (touches_aborting (hq.idle so2) (P.abort_touches _ so2)) hne

theorem forget_emptying (hq : Queues s) (hne : so2 ≠ so) (hout : ∀ l, so2 ∉ (s.sock l).queue) :
    Emptying so s (s.modify so2 fun t => { t with head := none }) := by
  refine ⟨hq.modify hout rfl (hq.idle so2) fun _ => rfl, ?_, fun l => ?_⟩
  · rw [modify_sock_of_ne _ _ hne.symm]
  · by_cases hl : l = so2
    · subst hl
      rw [modify_sock_self]
    · rw [modify_sock_of_ne _ _ hl]

theorem Usrreq.abortRound_cases (P : Usrreq) (so : SocketPtr) (hq : Queues c.stack)
    (hinc : Incomplete c.stack so c.q0) :
    P.abortRound so c = .done c ∨
      ∃ c', P.abortRound so c = .again c' ∧ Emptying so c.stack c'.stack ∧ c'.q0 ⊆ c.q0 ∧
        c'.q0.length + (c'.stack.sock so).queue.length <
          c.q0.length + (c.stack.sock so).queue.length := by
  obtain ⟨s, q0⟩ := c
  replace hq : Queues s := hq
  cases q0 with
  | cons so2 q0 =>
    obtain ⟨hne, hout⟩ := hinc so2 mem_cons_self
    have hforget := forget_emptying hq hne hout
    have habort := hforget.trans (P.soabort_emptying hforget.queues hne)
    have hlength := (habort.queue so).length_le
    refine .inr ⟨_, rfl, habort, subset_cons_self so2 q0, ?_⟩
    simp only [length_cons]
    omega
  | nil =>
    cases hl : (s.sock so).queue with
    | nil => exact .inl (by simp [abortRound, hl])
    | cons so2 rest =>
      have hmem : so2 ∈ (s.sock so).queue := hl ▸ mem_cons_self
      have hne := hq.ne_of_mem hmem
      have hdeq := Emptying.dequeue hq hmem
      have habort := P.soabort_emptying hdeq.queues hne
      have hround : P.abortRound so ⟨s, []⟩ =
          .again ⟨P.soabort (s.dequeueAccept so so2) so2, []⟩ := by
        simp only [abortRound, hl, soqremque, if_pos (hq.queued so so2 hmem).2.1]
      have hlength := (habort.queue so).length_le
      rw [dequeueAccept_queue hq hl] at hlength
      refine .inr ⟨_, hround, hdeq.trans habort, List.Subset.refl [], ?_⟩
      simp only [length_cons]
      omega

theorem Usrreq.abort_ends (P : Usrreq) (hq : Queues c.stack) (hinc : Incomplete c.stack so c.q0) :
    ∃ c', Halts (P.abortRound so) c (.ok c') := by
  refine Halts.of_measure (I := fun c => Queues c.stack ∧ Incomplete c.stack so c.q0)
    (fun c => c.q0.length + (c.stack.sock so).queue.length) ?_ ⟨hq, hinc⟩
  rintro c ⟨hq, hinc⟩
  rcases P.abortRound_cases so hq hinc with hdone | ⟨c', hround, hempty, hsub, hlt⟩
  · exact .inl ⟨c, hdone⟩
  · refine .inr ⟨c', hround, ⟨hempty.queues, fun so2 hmem => ?_⟩, hlt⟩
    exact hinc.emptying hempty so2 (hsub hmem)

theorem Usrreq.abort_emptying {c' : AbortLoop} (hq : Queues c.stack)
    (hinc : Incomplete c.stack so c.q0) (h : Halts (P.abortRound so) c (.ok c')) :
    Emptying so c.stack c'.stack := by
  refine Halts.rule (I := fun v => Emptying so c.stack v.stack ∧ Incomplete v.stack so v.q0)
    (J := fun v => Emptying so c.stack v.stack) ?_ ?_ ⟨Emptying.refl hq, hinc⟩ h
  · rintro v v' ⟨hv, hvinc⟩ hround
    rcases P.abortRound_cases so hv.queues hvinc with heq | ⟨v₁, heq, hempty, hsub, -⟩
    · rw [heq] at hround
      cases hround
    · rw [heq] at hround
      cases hround
      exact ⟨hv.trans hempty, fun so2 hmem => hvinc.emptying hempty so2 (hsub hmem)⟩
  · rintro v v' ⟨hv, hvinc⟩ hround
    rcases P.abortRound_cases so hv.queues hvinc with heq | ⟨v₁, heq, -⟩
    · rw [heq] at hround
      cases hround
      exact hv
    · rw [heq] at hround
      cases hround

end Abort

/-! Both loops. -/

section EmptyQueues

variable {w : AcceptPass} {q0 : List SocketPtr} {u : SocketStack}

theorem steady_abortAll (P : Usrreq) (so : SocketPtr) (q0 : List SocketPtr) (s : SocketStack) :
    Steady fun fuel => P.abortAll fuel s q0 so := by
  unfold Usrreq.abortAll
  split
  · exact (steady_iterate _ _).andThen fun _ => steady_const _
  · exact steady_const _

theorem steady_acceptAll (w : AcceptPass) (so : SocketPtr) :
    Steady fun fuel => acceptAll fuel w so := by
  unfold acceptAll
  split
  · exact (steady_iterate _ _).andThen fun _ => steady_const _
  · exact steady_const _

theorem acceptAll_returns_iff (so : SocketPtr) (hq : Queues w.stack) :
    (∃ u, Returns (fun fuel => acceptAll fuel w so) u) ↔ AcceptOk w so := by
  unfold AcceptOk
  cases hpresent : (w.stack.sock so).present .accept with
  | false =>
    refine iff_of_true ⟨w.stack, 0, ?_⟩ (fun h => absurd h Bool.false_ne_true)
    simp [acceptAll, hpresent]
  | true =>
    have hthen u := returns_andThen (t := u)
      (g := fun _ w => some (.ok (w.stack.unlink .accept so)))
      (steady_iterate (orphanRound so) w) fun _ => steady_const _
    simp only [acceptAll, hpresent, if_true, hthen, returns_const, true_implies]
    rw [← orphan_ends_iff hq rfl]
    constructor
    · rintro ⟨-, w', hw', -⟩
      exact ⟨w', hw'⟩
    · rintro ⟨w', hw'⟩
      exact ⟨_, w', hw', rfl⟩

theorem acceptAll_emptying (hq : Queues w.stack)
    (h : Returns (fun fuel => acceptAll fuel w so) u) : Emptying so w.stack u := by
  obtain ⟨fuel, hfuel⟩ := h
  unfold acceptAll at hfuel
  split at hfuel
  · obtain ⟨w', hw', hu⟩ := andThen_eq_ok.mp hfuel
    cases hu
    have hempty := orphan_emptying hq ⟨fuel, hw'⟩
    exact hempty.trans (Emptying.unlink hempty.queues .accept)
  · cases hfuel
    exact Emptying.refl hq

theorem Usrreq.abortAll_returns (P : Usrreq) (hq : Queues s) (hinc : Incomplete s so q0) :
    ∃ u, Returns (fun fuel => P.abortAll fuel s q0 so) u := by
  unfold abortAll
  split
  · obtain ⟨c, fuel, hc⟩ := P.abort_ends (c := ⟨s, q0⟩) hq hinc
    exact ⟨c.stack, fuel, andThen_eq_ok.mpr ⟨c, hc, rfl⟩⟩
  · exact ⟨s, 0, rfl⟩

theorem Usrreq.abortAll_emptying (hq : Queues s) (hinc : Incomplete s so q0)
    (h : Returns (fun fuel => P.abortAll fuel s q0 so) u) : Emptying so s u := by
  obtain ⟨fuel, hfuel⟩ := h
  unfold abortAll at hfuel
  split at hfuel
  · obtain ⟨c, hc, hu⟩ := andThen_eq_ok.mp hfuel
    cases hu
    exact P.abort_emptying (c := ⟨s, q0⟩) hq hinc ⟨fuel, hc⟩
  · cases hfuel
    exact Emptying.refl hq

theorem Usrreq.emptyQueues_returns (P : Usrreq) :
    Returns (fun fuel => P.emptyQueues fuel w q0 so) u ↔
      ∃ v, Returns (fun fuel => acceptAll fuel
          { w with stack := (w.stack.remove .read so).remove .write so } so) v ∧
        Returns (fun fuel => P.abortAll fuel (v.remove .closed so) q0 so) u :=
  returns_andThen (g := fun fuel (v : SocketStack) => P.abortAll fuel (v.remove .closed so) q0 so)
    (steady_acceptAll _ so) fun _ => steady_abortAll P so q0 _

theorem remove_view {α : Type*} {f : Socket → α} (hf : ∀ t p, f { t with present := p } = f t)
    (s : SocketStack) (k : ReadyList) (so : SocketPtr) :
    f ((s.remove k so).sock so) = f (s.sock so) := by
  unfold remove
  split
  · exact unlink_view hf s k so
  · rfl

theorem remove_present_of_ne {k k' : ReadyList} (hk : k' ≠ k) (s : SocketStack) :
    ((s.remove k so).sock so).present k' = (s.sock so).present k' := by
  unfold remove
  split
  · simp [unlink, setPresent, hk]
  · rfl

theorem touches_remove (s : SocketStack) (k : ReadyList) (so : SocketPtr) :
    Touches so s (s.remove k so) := by
  unfold remove
  split
  · exact touches_unlink s k so
  · exact Touches.refl so s

theorem acceptOk_congr (hq : Queues w.stack) (ht : Touches so w.stack s)
    (hpresent : (s.sock so).present .accept = (w.stack.sock so).present .accept) :
    AcceptOk { w with stack := s } so ↔ AcceptOk w so := by
  simp only [AcceptOk, hpresent, ht.queue]
  refine imp_congr_right fun _ => forall₂_congr fun so2 hmem => ?_
  simp only [OrphanOk, ht.other so2 (hq.ne_of_mem hmem)]

theorem Usrreq.emptyQueues_returns_iff (P : Usrreq) (hq : Queues w.stack)
    (hinc : Incomplete w.stack so q0) :
    (∃ u, Returns (fun fuel => P.emptyQueues fuel w q0 so) u) ↔ AcceptOk w so := by
  obtain ⟨s, hs⟩ : ∃ s, (w.stack.remove .read so).remove .write so = s := ⟨_, rfl⟩
  have hread := Emptying.remove hq .read so
  have hempty : Emptying so w.stack s := hs ▸ hread.trans (Emptying.remove hread.queues .write so)
  have htouch : Touches so w.stack s :=
    hs ▸ (touches_remove _ .read so).trans (touches_remove _ .write so)
  have hpresent : (s.sock so).present .accept = (w.stack.sock so).present .accept := by
    rw [← hs, remove_present_of_ne (by decide), remove_present_of_ne (by decide)]
  have haccept := acceptAll_returns_iff (w := { w with stack := s }) so hempty.queues
  rw [acceptOk_congr hq htouch hpresent] at haccept
  rw [← haccept]
  simp only [P.emptyQueues_returns, hs]
  constructor
  · rintro ⟨-, v, hv, -⟩
    exact ⟨v, hv⟩
  · rintro ⟨v, hv⟩
    have hv' := hempty.trans (acceptAll_emptying hempty.queues hv)
    have hclosed := hv'.trans (Emptying.remove hv'.queues .closed so)
    obtain ⟨u, hu⟩ := P.abortAll_returns hclosed.queues (hinc.emptying hclosed)
    exact ⟨u, v, hv, hu⟩

theorem Usrreq.emptyQueues_emptying (hq : Queues w.stack) (hinc : Incomplete w.stack so q0)
    (h : Returns (fun fuel => P.emptyQueues fuel w q0 so) u) : Emptying so w.stack u := by
  obtain ⟨v, hv, hu⟩ := P.emptyQueues_returns.mp h
  have hread := Emptying.remove hq .read so
  have hlists := hread.trans (Emptying.remove hread.queues .write so)
  have hv' := hlists.trans (acceptAll_emptying hlists.queues hv)
  have hclosed := hv'.trans (Emptying.remove hv'.queues .closed so)
  exact hclosed.trans (P.abortAll_emptying hclosed.queues (hinc.emptying hclosed) hu)

end EmptyQueues

/-! The protocols of the stack. -/

section Inet

def Socket.waiting (t : Socket) : Option Nat × Bool := (t.linger, t.connected)

theorem soisdisconnected_waiting (s : SocketStack) (so : SocketPtr) :
    ((s.soisdisconnected so).sock so).waiting = ((s.sock so).linger, false) := by
  simp only [soisdisconnected,
    sowakeup_view (f := Socket.waiting) (fun _ _ => rfl), modify_sock_self]
  rfl

theorem soisdisconnecting_waiting (s : SocketStack) (so : SocketPtr) :
    ((s.soisdisconnecting so).sock so).waiting = (s.sock so).waiting := by
  simp only [soisdisconnecting,
    sowakeup_view (f := Socket.waiting) (fun _ _ => rfl), modify_sock_self]
  rfl

theorem tcpClose_waiting (s : SocketStack) (so : SocketPtr) :
    ((s.tcpClose so).sock so).waiting = ((s.sock so).linger, false) := by
  rw [tcpClose, sofree_view (f := Socket.waiting) (fun _ _ => rfl)
    (fun _ _ => rfl) (fun _ _ => rfl), modify_sock_self]
  exact soisdisconnected_waiting s so

theorem tcpUsrclosed_waiting {state : TcpState} (hstate : state.haveEstablished = true)
    (s : SocketStack) (so : SocketPtr) :
    ((s.tcpUsrclosed so state).sock so).waiting =
      ((s.sock so).linger,
        (s.sock so).connected && (state != .finWait2 && state != .timeWait)) := by
  have hsame : (s.sock so).waiting = ((s.sock so).linger, (s.sock so).connected && true) := by
    rw [Bool.and_true]
    rfl
  cases state with
  | closed | listen | synSent | synReceived => simp [TcpState.haveEstablished] at hstate
  | established | closeWait =>
    simp only [tcpUsrclosed, setTcpState, modify_sock_self]
    exact hsame
  | finWait1 | closing | lastAck => exact hsame
  | finWait2 | timeWait =>
    rw [tcpUsrclosed, soisdisconnected_waiting]
    simp

theorem tcpDisconnect_waiting (s : SocketStack) (so : SocketPtr) (state : TcpState) :
    ((s.tcpDisconnect so state).sock so).waiting =
      ((s.sock so).linger, (s.sock so).connected && state.outlives (s.sock so).linger) := by
  unfold tcpDisconnect TcpState.outlives
  split
  · next hstate =>
    have hnot : state.haveEstablished = false := by simpa using hstate
    simp [tcpClose_waiting, hnot]
  · next hstate =>
    have hest : state.haveEstablished = true := by simpa using hstate
    split
    · next hlinger => simp [tcpDrop, tcpClose_waiting, hlinger]
    · next hlinger =>
      have hdis : (((s.soisdisconnecting so).reflect so).sock so).waiting =
          (s.sock so).waiting := by
        rw [reflect_sock, soisdisconnecting_waiting]
      have hlinger' := congrArg Prod.fst hdis
      have hconn' := congrArg Prod.snd hdis
      simp only [Socket.waiting] at hlinger' hconn'
      have hne : ((s.sock so).linger != some 0) = true := by simpa using hlinger
      rw [tcpUsrclosed_waiting hest, hlinger', hconn', hest, hne, Bool.true_and, Bool.and_assoc,
        Bool.true_and]

theorem Socket.lingers_congr {t t' : Socket} (h : t'.closing = t.closing) :
    t'.lingers = t.lingers := by
  simp only [closing, Prod.mk.injEq] at h
  simp only [lingers, h]

theorem inet_lingers_iff : inetUsrreq.Lingers s so ↔ (s.sock so).lingers = true := by
  unfold Usrreq.Lingers Usrreq.sodisconnect Socket.lingers
  cases hpcb : (s.sock so).pcb with
  | none => simp
  | some pcb =>
    cases hconn : (s.sock so).connected with
    | false => simp
    | true =>
      cases hdis : (s.sock so).disconnecting with
      | true => cases pcb <;> simp [hconn]
      | false =>
        cases pcb with
        | udp => simp [inetUsrreq, disconnect, hpcb]
        | tcp state =>
          have hwaiting := tcpDisconnect_waiting s so state
          simp only [Socket.waiting, Prod.mk.injEq, hconn, Bool.true_and] at hwaiting
          simp [inetUsrreq, disconnect, hpcb, hwaiting]

end Inet

theorem Usrreq.closeSocket_returns (P : Usrreq) {w : AcceptPass} {q0 : List SocketPtr}
    (hq : Queues w.stack) (hinc : Incomplete w.stack so q0) :
    (∃ t, Returns (fun fuel => P.closeSocket fuel w q0 so) t) ↔
      (w.stack.sock so).noFdRef = false ∧
        ∃ u, Returns (fun fuel => P.emptyQueues fuel w q0 so) u ∧ ¬ P.Lingers u so := by
  have hsteady : Steady fun fuel => P.emptyQueues fuel w q0 so :=
    (steady_acceptAll _ so).andThen fun v => steady_abortAll P so q0 (v.remove .closed so)
  have hthen t := returns_andThen (t := t) (g := fun fuel v => P.socloseSelf fuel v so)
    hsteady fun v => P.steady_socloseSelf v so
  have hno {u : SocketStack} (hu : Returns (fun fuel => P.emptyQueues fuel w q0 so) u) :
      (u.sock so).noFdRef = (w.stack.sock so).noFdRef := by
    have hclosing := (P.emptyQueues_emptying hq hinc hu).closing
    simp only [Socket.closing, Prod.mk.injEq] at hclosing
    exact hclosing.2.2.2.2
  simp only [closeSocket, hthen]
  constructor
  · rintro ⟨t, u, hu, ht⟩
    obtain ⟨hfd, hlingers⟩ := P.socloseSelf_returns_iff.mp ⟨t, ht⟩
    exact ⟨hno hu ▸ hfd, u, hu, hlingers⟩
  · rintro ⟨hfd, u, hu, hlingers⟩
    obtain ⟨t, ht⟩ := P.socloseSelf_returns_iff.mpr ⟨(hno hu).trans hfd, hlingers⟩
    exact ⟨t, u, hu, ht⟩

/-! What returns is what `SocketStack.closeSocket` says, which has no fuel and no pools. -/

section Coarse

variable {w w' : AcceptPass} {rest : List SocketPtr} {t : SocketStack}

theorem orphanQueue_of_ends (hq : Queues w.stack) (hl : (w.stack.sock so).queue = rest)
    (h : Halts (orphanRound so) w (.ok w')) : w.stack.orphanQueue so rest = some w'.stack := by
  induction rest generalizing w with
  | nil =>
    have hround : orphanRound so w = .done w := by simp [orphanRound, hl]
    cases (Halts.done_iff hround).mp h
    rfl
  | cons so2 rest ih =>
    have hmem : so2 ∈ (w.stack.sock so).queue := hl ▸ mem_cons_self
    have hok : OrphanOk w so2 := (orphan_ends_iff hq hl).mp ⟨w', h⟩ so2 mem_cons_self
    have hround := (orphanRound_spec hq hl).1 hok
    have hl' : ((orphaned w.stack so so2).sock so).queue = rest := by
      rw [orphaned, modify_sock_of_ne _ _ (hq.ne_of_mem hmem).symm]
      exact dequeueAccept_queue hq hl
    rw [orphanQueue, soaccept_dequeued hq hmem]
    exact ih (w := { w with stack := orphaned w.stack so so2 })
      (orphaned_emptying hq hmem).queues hl' ((Halts.again_iff hround).mp h)

theorem abortQueue_of_ends {c : AbortLoop} (hq : Queues s) (hl : (s.sock so).queue = rest)
    (h : Halts (inetUsrreq.abortRound so) ⟨s, []⟩ (.ok c)) : s.abortQueue so rest = c.stack := by
  induction rest generalizing s with
  | nil =>
    have hround : inetUsrreq.abortRound so ⟨s, []⟩ = .done ⟨s, []⟩ := by
      simp [Usrreq.abortRound, hl]
    cases (Halts.done_iff hround).mp h
    rfl
  | cons so2 rest ih =>
    have hmem : so2 ∈ (s.sock so).queue := hl ▸ mem_cons_self
    have hne := hq.ne_of_mem hmem
    have hround : inetUsrreq.abortRound so ⟨s, []⟩ =
        .again ⟨(s.dequeueAccept so so2).soabort so2, []⟩ := by
      simp only [Usrreq.abortRound, hl, soqremque, if_pos (hq.queued so so2 hmem).2.1]
      rfl
    have habort := touches_soabort ((hq.dequeueAccept hmem).idle so2)
    have hl' : (((s.dequeueAccept so so2).soabort so2).sock so).queue = rest := by
      rw [habort.other so hne.symm]
      exact dequeueAccept_queue hq hl
    exact ih (hq.abort hmem) hl' ((Halts.again_iff hround).mp h)

theorem detach_discard_of_drop (h : inetUsrreq.drop s so = some (.ok t)) :
    (s.detach so).discard so = some t := by
  have hdetach : (if (s.sock so).pcb = none then s else s.detach so) = s.detach so := by
    split
    · next hpcb => simp [SocketStack.detach, hpcb]
    · rfl
  have hdrop : inetUsrreq.drop s so = if ((s.detach so).sock so).noFdRef then some (.error .panic)
      else
        some (.ok (((s.detach so).modify so fun t => { t with noFdRef := true }).sofree so)) := by
    simp only [Usrreq.drop, inetUsrreq, hdetach]
  rw [hdrop] at h
  split at h
  · cases h
  · next hfd =>
    cases h
    rw [SocketStack.discard, if_neg hfd]

theorem disconnect_linger (s : SocketStack) (so : SocketPtr) :
    ((s.disconnect so).sock so).linger = (s.sock so).linger := by
  unfold disconnect
  split
  · next state _ => exact congrArg Prod.fst (tcpDisconnect_waiting s so state)
  · rw [modify_sock_self]

theorem socloseSelf_of_returns
    (h : Returns (fun fuel => inetUsrreq.socloseSelf fuel s so) t) : s.socloseSelf so = some t := by
  have hnot : ¬ inetUsrreq.Lingers s so := (inetUsrreq.socloseSelf_returns_iff.mp ⟨t, h⟩).2
  obtain ⟨fuel, hfuel⟩ := h
  have hmore := inetUsrreq.steady_socloseSelf s so fuel (fuel + 1) t (Nat.le_succ fuel) hfuel
  have hdrop := (Usrreq.socloseSelf_of_not_lingers hnot fuel).symm.trans hmore
  have hdiscard := detach_discard_of_drop hdrop
  cases hpcb : (s.sock so).pcb with
  | none =>
    have hdetach : s.detach so = s := by simp [detach, hpcb]
    simpa [socloseSelf, Usrreq.atDrop, hpcb, hdetach] using hdiscard
  | some pcb =>
    cases hconn : (s.sock so).connected with
    | false => simpa [socloseSelf, Usrreq.atDrop, hpcb, hconn] using hdiscard
    | true =>
      obtain ⟨s', hs'⟩ :
          ∃ s', (if (s.sock so).disconnecting then s else s.disconnect so) = s' := ⟨_, rfl⟩
      have hself : (inetUsrreq.sodisconnect s so).1 = s' := by
        rw [← hs', Usrreq.sodisconnect]
        split <;> rfl
      have hlinger : (s'.sock so).linger = (s.sock so).linger := by
        rw [← hs']
        split
        · rfl
        · exact disconnect_linger s so
      have hwait : ((s.sock so).linger.isSome && (s'.sock so).connected) = false := by
        by_contra hstays
        rw [Bool.not_eq_false, Bool.and_eq_true] at hstays
        refine hnot ⟨⟨by simp [hpcb], hconn⟩, ?_, by rw [hself, hlinger]; exact hstays.1, ?_⟩
        · rw [Usrreq.sodisconnect]
          split <;> rfl
        · rw [hself]
          exact hstays.2
      have hatDrop : inetUsrreq.atDrop s so = s' := by
        rw [Usrreq.atDrop, if_pos ⟨by simp [hpcb], hconn⟩, hself]
      rw [hatDrop] at hdiscard
      simp only [socloseSelf, hpcb, hconn, hs', hwait, Option.isNone_some,
        Bool.false_eq_true, if_false, if_true]
      exact hdiscard

end Coarse

/-- A close comes back, for any protocol, exactly if the accept queue can be emptied, the socket was
not closed before and it does not linger; for the protocols of the stack, whether it lingers is seen
on the socket. -/
theorem closeSocket_returns_iff {as : List StackAction} (w : AcceptPass)
    (hrun : Run stackStep (fun _ _ => True) SocketStack.start as w.stack) (so : SocketPtr)
    (q0 : List SocketPtr) (hq0 : Incomplete w.stack so q0) :
    (∀ P : Usrreq, (∃ t, Returns (fun fuel => P.closeSocket fuel w q0 so) t) ↔
      AcceptOk w so ∧ (w.stack.sock so).noFdRef = false ∧
        ∃ u, Returns (fun fuel => P.emptyQueues fuel w q0 so) u ∧ ¬ P.Lingers u so) ∧
    ((∃ t, Returns (fun fuel => inetUsrreq.closeSocket fuel w q0 so) t) ↔
      AcceptOk w so ∧ (w.stack.sock so).noFdRef = false ∧ (w.stack.sock so).lingers = false) := by
  have hq : Queues w.stack := hrun.invariant (fun _ _ _ h _ hstep => h.step hstep) Queues.start
  constructor
  · intro P
    rw [P.closeSocket_returns hq hq0, ← P.emptyQueues_returns_iff hq hq0]
    constructor
    · rintro ⟨hfd, u, hu, hlingers⟩
      exact ⟨⟨u, hu⟩, hfd, u, hu, hlingers⟩
    · rintro ⟨-, hfd, hu⟩
      exact ⟨hfd, hu⟩
  · have hsame {u : SocketStack}
        (hu : Returns (fun fuel => inetUsrreq.emptyQueues fuel w q0 so) u) :
        ¬ inetUsrreq.Lingers u so ↔ (w.stack.sock so).lingers = false := by
      rw [inet_lingers_iff,
        Socket.lingers_congr (inetUsrreq.emptyQueues_emptying hq hq0 hu).closing]
      simp
    rw [inetUsrreq.closeSocket_returns hq hq0, ← inetUsrreq.emptyQueues_returns_iff hq hq0]
    constructor
    · rintro ⟨hfd, u, hu, hlingers⟩
      exact ⟨⟨u, hu⟩, hfd, (hsame hu).mp hlingers⟩
    · rintro ⟨⟨u, hu⟩, hfd, hlingers⟩
      exact ⟨hfd, u, hu, (hsame hu).mpr hlingers⟩

def lingerSet (time : Nat) : List StackAction :=
  [.openSocket 0 none .stream 7 1, .connecting 1, .tcpState 1 .established, .connected 1,
    .linger 0 (some time)]

theorem closeSocket_returns_iff_reset :
    ∃ s, Run stackStep (fun _ _ => True) SocketStack.start (lingerSet 0) s ∧
      ((s.sat 0).socket = some 1 ∧ (s.sock 1).queue = [] ∧ (s.sock 1).noFdRef = false ∧
        (s.sock 1).lingers = false) ∧
      ∃ t, Returns (fun fuel => inetUsrreq.closeSocket fuel ⟨s, 0, 0, 0, 0⟩ [] 1) t := by
  refine Run.exists_and_of_runActions (by decide +kernel) fun s hrun hs => ?_
  obtain ⟨-, hqueue, hfd, hlingers⟩ := hs
  refine (closeSocket_returns_iff ⟨s, 0, 0, 0, 0⟩ hrun 1 [] (by simp [Incomplete])).2.mpr ?_
  exact ⟨fun _ so2 hmem => by simp [hqueue] at hmem, hfd, hlingers⟩

/-- Where the loops of a close return, the step of the stack for it is their result. -/
theorem closeSocket_eq_of_returns {as : List StackAction} {w : AcceptPass} {so : SocketPtr}
    {t : SocketStack} (hrun : Run stackStep (fun _ _ => True) SocketStack.start as w.stack)
    (h : Returns (fun fuel => inetUsrreq.closeSocket fuel w [] so) t) :
    w.stack.closeSocket so = some t := by
  have hq : Queues w.stack := hrun.invariant (fun _ _ _ h _ hstep => h.step hstep) Queues.start
  obtain ⟨fuel, hfuel⟩ := h
  obtain ⟨u, hqueues, hself⟩ := andThen_eq_ok.mp hfuel
  obtain ⟨v, haccept, habort⟩ := andThen_eq_ok.mp hqueues
  have hread := Emptying.remove hq .read so
  have hlists := hread.trans (Emptying.remove hread.queues .write so)
  have hv := (hlists.trans (acceptAll_emptying hlists.queues ⟨fuel, haccept⟩)).queues
  have haccept' : ((w.stack.remove .read so).remove .write so).closeAccept so = some v := by
    unfold acceptAll at haccept
    unfold closeAccept
    split at haccept
    · next hpresent =>
      obtain ⟨w', hends, hunlink⟩ := andThen_eq_ok.mp haccept
      cases hunlink
      rw [if_pos hpresent, orphanQueue_of_ends hlists.queues rfl ⟨fuel, hends⟩]
      rfl
    · next hpresent =>
      cases haccept
      rw [if_neg hpresent]
  have habort' : (if ((v.remove .closed so).sock so).acceptConn then
      (v.remove .closed so).abortQueue so ((v.remove .closed so).sock so).queue
      else v.remove .closed so) = u := by
    unfold Usrreq.abortAll at habort
    split at habort
    · next hlistening =>
      obtain ⟨c, hends, hu⟩ := andThen_eq_ok.mp habort
      cases hu
      rw [if_pos hlistening]
      exact abortQueue_of_ends (Emptying.remove hv .closed so).queues rfl ⟨fuel, hends⟩
    · next hlistening =>
      cases habort
      rw [if_neg hlistening]
  simp only [closeSocket, haccept', soclose, habort', Option.bind_eq_bind, Option.bind_some]
  exact socloseSelf_of_returns ⟨fuel, hself⟩

theorem closeSocket_eq_of_returns_reset : ∃ s,
    Run stackStep (fun _ _ => True) SocketStack.start (lingerSet 0) s ∧
      (inetUsrreq.closeSocket 1 ⟨s, 0, 0, 0, 0⟩ [] 1).any Except.isOk = true ∧
      ∃ t, s.closeSocket 1 = some t := by
  refine Run.exists_and_of_runActions (by decide +kernel) fun s hrun hs => ?_
  obtain ⟨r, hr, hok⟩ := (Option.any_eq_true _ _).mp hs
  cases r with
  | error => cases hok
  | ok t => exact ⟨t, closeSocket_eq_of_returns (w := ⟨s, 0, 0, 0, 0⟩) hrun ⟨1, hr⟩⟩

theorem linger_never_returns :
    ∃ s, Run stackStep (fun _ _ => True) SocketStack.start (lingerSet 5) s ∧
      ((s.sat 0).socket = some 1 ∧ (s.sock 1).present .accept = false ∧
        (s.sock 1).acceptConn = false ∧ (s.sock 1).lingers = true) ∧
      ∀ fuel, inetUsrreq.closeSocket fuel ⟨s, 1, 1, 1, 1⟩ [] 1 = none := by
  refine Run.exists_and_of_runActions (by decide +kernel) fun s hrun hs fuel => ?_
  obtain ⟨-, haccept, hlistening, hlingers⟩ := hs
  have hqueues : inetUsrreq.emptyQueues fuel ⟨s, 1, 1, 1, 1⟩ [] 1 =
      some (.ok (((s.remove .read 1).remove .write 1).remove .closed 1)) := by
    simp [Usrreq.emptyQueues, acceptAll, Usrreq.abortAll, andThen, remove_present_of_ne,
      remove_view (f := Socket.acceptConn) (fun _ _ => rfl), haccept, hlistening]
  have hclosing : ((((s.remove .read 1).remove .write 1).remove .closed 1).sock 1).closing =
      (s.sock 1).closing := by
    simp only [remove_view (f := Socket.closing) (fun _ _ => rfl)]
  rw [Usrreq.closeSocket, hqueues]
  exact Usrreq.socloseSelf_of_lingers
    (inet_lingers_iff.mpr ((Socket.lingers_congr hclosing).trans hlingers)) fuel

end NetbsdDpdk
