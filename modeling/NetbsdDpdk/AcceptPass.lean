import NetbsdDpdk.AcceptQueue
import NetbsdDpdk.Rounds
import NetbsdDpdk.Transition

/-! The pass of `user_on_accept` over the accept queue of a listening socket (`app_glue.c`), with
the address mbuf that it takes and the announcement that it posts, and every way in which it can
fail. -/

namespace NetbsdDpdk

open List SocketStack

/-- How a pass ends the server: no data buffer for `m_get`, a socket that is not on the queue, a
panic, a NULL pointer or a stale slot. -/
inductive AcceptFault
  | noBuffers | notQueued | panic | nullAddress | nullPcb | nullParent | staleParent
  deriving DecidableEq, Repr

/-- The sockets, the free mbufs of `mb_cache`, packet buffers of `mb_data` and command buffers, and
the free entries of the listener's `rx_ring`. -/
structure AcceptPass where
  stack : SocketStack
  mbufs : Nat
  bufs : Nat
  cmds : Nat
  room : Nat

namespace AcceptPass

def mGetSoname (w : AcceptPass) : Except AcceptFault Bool :=
  if w.mbufs = 0 then .ok false else if w.bufs = 0 then .error .noBuffers else .ok true

/-- `soaccept`, with an address mbuf or a NULL pointer. -/
def soacceptNam (s : SocketStack) (so2 : SocketPtr) (addr : Bool) :
    Except AcceptFault SocketStack :=
  if (s.sock so2).noFdRef = false then .error .panic
  else
    let s := s.modify so2 fun t => { t with noFdRef := false }
    if (s.sock so2).disconnected = false ∧ (s.sock so2).pcb ≠ none ∧ addr = false then
      .error .nullAddress
    else .ok s

def notifyAccepted (w : AcceptPass) (parent : Option Slot) : Except AcceptFault AcceptPass :=
  if w.cmds = 0 then .ok w
  else
    match parent with
    | none => .error .nullParent
    | some i =>
      if (w.stack.sat i).ringsetIdx = none then .error .staleParent
      else if w.room = 0 then .ok w
      else .ok { w with cmds := w.cmds - 1, room := w.room - 1 }

def acceptOne (w : AcceptPass) (so so2 : SocketPtr) : Except AcceptFault AcceptPass :=
  match w.mGetSoname with
  | .error e => .error e
  | .ok addr =>
    if (w.stack.sock so2).head ≠ some so then .error .notQueued
    else
      match soacceptNam (w.stack.dequeueAccept so so2) so2 addr with
      | .error e => .error e
      | .ok s =>
        let s := s.modify so2 fun t => { t with upcall2 := true }
        if (s.sock so2).pcb = none then .error .nullPcb
        else notifyAccepted { w with stack := s } (s.sock so).glueingBlock

def acceptRound (so : SocketPtr) (w : AcceptPass) : RoundResult AcceptPass AcceptFault :=
  match (w.stack.sock so).queue with
  | [] => .done w
  | so2 :: _ =>
    match w.acceptOne so so2 with
    | .ok w => .again w
    | .error e => .fault e

def ParentOk (w : AcceptPass) (so : SocketPtr) : Prop :=
  ∃ i, (w.stack.sock so).glueingBlock = some i ∧ (w.stack.sat i).ringsetIdx ≠ none

def ConnOk (w : AcceptPass) (so2 : SocketPtr) : Prop :=
  (w.stack.sock so2).pcb ≠ none ∧ (w.mbufs ≠ 0 ∨ (w.stack.sock so2).disconnected = true)

/-- Every connection on the queue is sound and the parent is, unless the pass first ends the process
for want of data buffers. -/
def Safe (w : AcceptPass) (so : SocketPtr) : Prop :=
  (w.stack.sock so).queue = [] ∨ (w.mbufs ≠ 0 ∧ w.bufs = 0) ∨
    (∀ so2 ∈ (w.stack.sock so).queue, w.ConnOk so2) ∧ (w.cmds = 0 ∨ w.ParentOk so)

end AcceptPass

/-- The pass ends, and not by a NULL pointer, a stale parent or a panic. -/
def AcceptPass.Survives : Except AcceptFault AcceptPass → Prop
  | .ok _ => True
  | .error e => e = .noBuffers

namespace AcceptPass

variable {w w' : AcceptPass} {so so2 : SocketPtr} {rest : List SocketPtr}

def accepted (s : SocketStack) (so so2 : SocketPtr) : SocketStack :=
  (s.dequeueAccept so so2).modify so2 fun t => { t with noFdRef := false, upcall2 := true }

theorem accepted_sock_of_ne {s : SocketStack} {l : SocketPtr} (hl : l ≠ so) (hl2 : l ≠ so2) :
    (accepted s so so2).sock l = s.sock l := by
  rw [accepted, modify_sock_of_ne _ _ hl2, dequeueAccept_sock_of_ne hl hl2]

theorem accepted_sock_head {s : SocketStack} (hne : so2 ≠ so) :
    (accepted s so so2).sock so = { s.sock so with queue := (s.sock so).queue.erase so2 } := by
  rw [accepted, modify_sock_of_ne _ _ hne.symm, dequeueAccept_sock_head hne]

theorem acceptOne_eq (hq : Queues w.stack) (hmem : so2 ∈ (w.stack.sock so).queue)
    (hbufs : w.mbufs = 0 ∨ w.bufs ≠ 0) :
    w.acceptOne so so2 =
      if (w.stack.sock so2).disconnected = false ∧ (w.stack.sock so2).pcb ≠ none ∧ w.mbufs = 0 then
        .error .nullAddress
      else if (w.stack.sock so2).pcb = none then .error .nullPcb
      else notifyAccepted { w with stack := accepted w.stack so so2 }
        (w.stack.sock so).glueingBlock := by
  have hne := hq.ne_of_mem hmem
  obtain ⟨-, hhead, hno, -⟩ := hq.queued so so2 hmem
  have hself := dequeueAccept_sock_self (s := w.stack) hne
  have haddr : w.mGetSoname = .ok (decide (w.mbufs ≠ 0)) := by
    by_cases hmbufs : w.mbufs = 0
    · simp [mGetSoname, hmbufs]
    · have hb := hbufs.resolve_left hmbufs
      simp [mGetSoname, hmbufs, hb]
  have hacc : ((w.stack.dequeueAccept so so2).modify so2 fun t =>
      { t with noFdRef := false }).modify so2 (fun t => { t with upcall2 := true }) =
      accepted w.stack so so2 := by
    simp [accepted, SocketStack.modify]
  simp only [acceptOne, haddr, hhead, soacceptNam, hself, hno, modify_sock_self]
  by_cases hnull : (w.stack.sock so2).disconnected = false ∧ (w.stack.sock so2).pcb ≠ none ∧
      w.mbufs = 0
  · simp [hnull]
  · simp [hnull, hacc, hself, accepted_sock_head hne]

theorem notifyAccepted_ok {parent : Option Slot}
    (h : w.cmds = 0 ∨ ∃ i, parent = some i ∧ (w.stack.sat i).ringsetIdx ≠ none) :
    ∃ w', w.notifyAccepted parent = .ok w' ∧ w'.stack = w.stack ∧ w'.mbufs = w.mbufs ∧
      w'.bufs = w.bufs ∧ (w.cmds = 0 → w'.cmds = 0) := by
  by_cases hcmds : w.cmds = 0
  · exact ⟨w, by simp [notifyAccepted, hcmds], rfl, rfl, rfl, id⟩
  · obtain ⟨i, rfl, hring⟩ := h.resolve_left hcmds
    by_cases hroom : w.room = 0
    · exact ⟨w, by simp [notifyAccepted, hcmds, hring, hroom], rfl, rfl, rfl, id⟩
    · refine ⟨{ w with cmds := w.cmds - 1, room := w.room - 1 }, ?_, rfl, rfl, rfl, fun h => ?_⟩
      · simp [notifyAccepted, hcmds, hring, hroom]
      · exact absurd h hcmds

theorem notifyAccepted_fault {parent : Option Slot}
    (h : ¬ (w.cmds = 0 ∨ ∃ i, parent = some i ∧ (w.stack.sat i).ringsetIdx ≠ none)) :
    ∃ e, w.notifyAccepted parent = .error e ∧ e ≠ .noBuffers := by
  obtain ⟨hcmds, hparent⟩ := not_or.mp h
  cases parent with
  | none => exact ⟨.nullParent, by simp [notifyAccepted, hcmds], by decide⟩
  | some i =>
    have hring : (w.stack.sat i).ringsetIdx = none := by
      by_contra hne
      exact hparent ⟨i, rfl, hne⟩
    exact ⟨.staleParent, by simp [notifyAccepted, hcmds, hring], by decide⟩

theorem acceptRound_of_connOk (hq : Queues w.stack) (hl : (w.stack.sock so).queue = so2 :: rest)
    (hbufs : w.mbufs = 0 ∨ w.bufs ≠ 0) (hconn : w.ConnOk so2) :
    acceptRound so w =
      match notifyAccepted { w with stack := accepted w.stack so so2 }
        (w.stack.sock so).glueingBlock with
      | .ok w => .again w
      | .error e => .fault e := by
  have hmem : so2 ∈ (w.stack.sock so).queue := hl ▸ mem_cons_self
  have hnull : ¬ ((w.stack.sock so2).disconnected = false ∧ (w.stack.sock so2).pcb ≠ none ∧
      w.mbufs = 0) := by
    rintro ⟨hdis, -, hmbufs⟩
    rcases hconn.2 with h | h
    · exact h hmbufs
    · simp [hdis] at h
  simp only [acceptRound, hl, acceptOne_eq hq hmem hbufs, if_neg hnull, if_neg hconn.1]

theorem acceptRound_again (hq : Queues w.stack) (hl : (w.stack.sock so).queue = so2 :: rest)
    (hbufs : w.mbufs = 0 ∨ w.bufs ≠ 0) (hconn : w.ConnOk so2)
    (hparent : w.cmds = 0 ∨ w.ParentOk so) :
    ∃ w₁, acceptRound so w = .again w₁ ∧ w₁.stack = accepted w.stack so so2 ∧
      w₁.mbufs = w.mbufs ∧ (w₁.mbufs = 0 ∨ w₁.bufs ≠ 0) ∧ (w.cmds = 0 → w₁.cmds = 0) ∧
      (w₁.stack.sock so).queue = rest ∧ Queues w₁.stack := by
  have hmem : so2 ∈ (w.stack.sock so).queue := hl ▸ mem_cons_self
  obtain ⟨w₁, hnotify, hstack, hmbufs, hbufs₁, hcmds⟩ :=
    notifyAccepted_ok (w := { w with stack := accepted w.stack so so2 }) hparent
  have hround := acceptRound_of_connOk hq hl hbufs hconn
  rw [hnotify] at hround
  refine ⟨w₁, hround, hstack, hmbufs, ?_, hcmds, ?_, ?_⟩
  · rwa [hmbufs, hbufs₁]
  · rw [hstack, accepted_sock_head (hq.ne_of_mem hmem), hl, erase_cons_head]
  · rw [hstack]
    exact hq.accept hmem true

theorem acceptRound_of_not_connOk (hq : Queues w.stack)
    (hl : (w.stack.sock so).queue = so2 :: rest) (hbufs : w.mbufs = 0 ∨ w.bufs ≠ 0)
    (hconn : ¬ w.ConnOk so2) : ∃ e, acceptRound so w = .fault e ∧ e ≠ .noBuffers := by
  have hmem : so2 ∈ (w.stack.sock so).queue := hl ▸ mem_cons_self
  by_cases hpcb : (w.stack.sock so2).pcb = none
  · refine ⟨.nullPcb, ?_, by decide⟩
    simp [acceptRound, hl, acceptOne_eq hq hmem hbufs, hpcb]
  · obtain ⟨hmbufs, hdis⟩ := not_or.mp fun h => hconn ⟨hpcb, h⟩
    refine ⟨.nullAddress, ?_, by decide⟩
    have hmbufs' : w.mbufs = 0 := not_not.mp hmbufs
    have hdis' : (w.stack.sock so2).disconnected = false := by simpa using hdis
    simp [acceptRound, hl, acceptOne_eq hq hmem hbufs, hpcb, hmbufs', hdis']

theorem not_survives_of_fault {e : AcceptFault} (h : acceptRound so w = .fault e)
    (he : e ≠ .noBuffers) : ¬ ∃ r, Halts (acceptRound so) w r ∧ Survives r := by
  rintro ⟨r, hends, hsurvives⟩
  rw [(Halts.fault_iff h).mp hends] at hsurvives
  exact he hsurvives

theorem survives_iff (hq : Queues w.stack) (hl : (w.stack.sock so).queue = rest)
    (hbufs : w.mbufs = 0 ∨ w.bufs ≠ 0) :
    (∃ r, Halts (acceptRound so) w r ∧ Survives r) ↔
      rest = [] ∨ (∀ so2 ∈ rest, w.ConnOk so2) ∧ (w.cmds = 0 ∨ w.ParentOk so) := by
  induction rest generalizing w with
  | nil =>
    have hround : acceptRound so w = .done w := by simp [acceptRound, hl]
    exact ⟨fun _ => .inl rfl, fun _ => ⟨.ok w, (Halts.done_iff hround).mpr rfl, trivial⟩⟩
  | cons so2 rest ih =>
    have hmem : so2 ∈ (w.stack.sock so).queue := hl ▸ mem_cons_self
    have hne := hq.ne_of_mem hmem
    by_cases hconn : w.ConnOk so2
    · have hround := acceptRound_of_connOk hq hl hbufs hconn
      by_cases hparent : w.cmds = 0 ∨ w.ParentOk so
      · obtain ⟨w₁, hagain, hstack, hmbufs, hbufs₁, hcmds, hl₁, hq₁⟩ :=
          acceptRound_again hq hl hbufs hconn hparent
        have hglue : (w₁.stack.sock so).glueingBlock = (w.stack.sock so).glueingBlock := by
          rw [hstack, accepted_sock_head hne]
        have hparent₁ : w₁.cmds = 0 ∨ w₁.ParentOk so := by
          refine hparent.imp hcmds fun ⟨i, hi, hring⟩ => ⟨i, hglue.trans hi, ?_⟩
          rw [hstack]
          exact hring
        have hconns : ∀ l ∈ rest, w₁.ConnOk l ↔ w.ConnOk l := by
          intro l hlmem
          obtain ⟨hl2, hlso⟩ := hq.ne_of_mem_rest hl hlmem
          have hsock : w₁.stack.sock l = w.stack.sock l := by
            rw [hstack, accepted_sock_of_ne hlso hl2]
          rw [ConnOk, ConnOk, hsock, hmbufs]
        have hih := ih hq₁ hl₁ hbufs₁
        simp only [Halts.again_iff hagain, hih, hparent, hparent₁, and_true]
        constructor
        · rintro (rfl | hall)
          · exact .inr (by simpa using hconn)
          · refine .inr fun l hlmem => ?_
            rcases mem_cons.mp hlmem with rfl | hlmem
            · exact hconn
            · exact (hconns l hlmem).mp (hall l hlmem)
        · rintro (hnil | hall)
          · cases hnil
          · exact .inr fun l hlmem => (hconns l hlmem).mpr (hall l (.tail _ hlmem))
      · obtain ⟨e, hnotify, he⟩ :=
          notifyAccepted_fault (w := { w with stack := accepted w.stack so so2 }) hparent
        have hfault : acceptRound so w = .fault e := by rw [hround, hnotify]
        refine iff_of_false (not_survives_of_fault hfault he) ?_
        rintro (hnil | ⟨-, hok⟩)
        · cases hnil
        · exact hparent hok
    · obtain ⟨e, hfault, he⟩ := acceptRound_of_not_connOk hq hl hbufs hconn
      refine iff_of_false (not_survives_of_fault hfault he) ?_
      rintro (hnil | ⟨hall, -⟩)
      · cases hnil
      · exact hconn (hall so2 (by simp))

theorem acceptRound_noBuffers (hl : (w.stack.sock so).queue = so2 :: rest)
    (hbufs : ¬ (w.mbufs = 0 ∨ w.bufs ≠ 0)) : acceptRound so w = .fault .noBuffers := by
  obtain ⟨hm, hb⟩ := not_or.mp hbufs
  simp [acceptRound, hl, acceptOne, mGetSoname, hm, not_not.mp hb]

theorem survives_iff_safe (hq : Queues w.stack) :
    (∃ r, Halts (acceptRound so) w r ∧ Survives r) ↔ w.Safe so := by
  by_cases hbufs : w.mbufs = 0 ∨ w.bufs ≠ 0
  · have hnot : ¬ (w.mbufs ≠ 0 ∧ w.bufs = 0) := by
      rintro ⟨hm, hb⟩
      exact hbufs.elim hm fun h => h hb
    rw [survives_iff hq rfl hbufs, Safe]
    tauto
  · obtain ⟨hm, hb⟩ := not_or.mp hbufs
    have hb' : w.bufs = 0 := not_not.mp hb
    refine iff_of_true ?_ (.inr (.inl ⟨hm, hb'⟩))
    cases hl : (w.stack.sock so).queue with
    | nil =>
      have hround : acceptRound so w = .done w := by simp [acceptRound, hl]
      exact ⟨.ok w, (Halts.done_iff hround).mpr rfl, trivial⟩
    | cons so2 rest =>
      exact ⟨.error .noBuffers, (Halts.fault_iff (acceptRound_noBuffers hl hbufs)).mpr rfl, rfl⟩

theorem userOnAccept_of_ends (hq : Queues w.stack) (hl : (w.stack.sock so).queue = rest)
    (hbufs : w.mbufs = 0 ∨ w.bufs ≠ 0) (hends : Halts (acceptRound so) w (.ok w')) :
    w.stack.userOnAccept so rest = some w'.stack := by
  induction rest generalizing w with
  | nil =>
    have hround : acceptRound so w = .done w := by simp [acceptRound, hl]
    cases (Halts.done_iff hround).mp hends
    rfl
  | cons so2 rest ih =>
    have hmem : so2 ∈ (w.stack.sock so).queue := hl ▸ mem_cons_self
    have hne := hq.ne_of_mem hmem
    by_cases hsafe : w.ConnOk so2 ∧ (w.cmds = 0 ∨ w.ParentOk so)
    · obtain ⟨hconn, hparent⟩ := hsafe
      obtain ⟨w₁, hagain, hstack, -, hbufs₁, -, hl₁, hq₁⟩ :=
        acceptRound_again hq hl hbufs hconn hparent
      have hrest := ih hq₁ hl₁ hbufs₁ ((Halts.again_iff hagain).mp hends)
      have hpcb : (w.stack.sock so2).pcb.isSome := Option.isSome_iff_ne_none.mpr hconn.1
      have hself := dequeueAccept_sock_self (s := w.stack) hne
      rw [hstack] at hrest
      rw [userOnAccept, soaccept_dequeued hq hmem]
      simp only [Option.bind_eq_bind, Option.bind_some, modify_sock_self, hself, hpcb,
        guard, if_true]
      rw [← hrest, accepted]
      simp [SocketStack.modify]
    · exfalso
      have hfail : ¬ ∃ r, Halts (acceptRound so) w r ∧ Survives r := by
        rw [survives_iff hq hl hbufs]
        rintro (hnil | ⟨hall, hparent⟩)
        · cases hnil
        · exact hsafe ⟨hall so2 (by simp), hparent⟩
      exact hfail ⟨.ok w', hends, trivial⟩

end AcceptPass

/-- In every reachable state the accept pass ends without a fault exactly if it is `Safe`. -/
theorem acceptPass_survives_iff {as : List StackAction} {s : SocketStack}
    (hrun : Run stackStep (fun _ _ => True) SocketStack.start as s) (so : SocketPtr)
    (mbufs bufs cmds room : Nat) :
    (∃ r, Halts (AcceptPass.acceptRound so) ⟨s, mbufs, bufs, cmds, room⟩ r ∧
        AcceptPass.Survives r) ↔
      AcceptPass.Safe ⟨s, mbufs, bufs, cmds, room⟩ so := by
  have hq : Queues s := hrun.invariant (fun _ _ _ h _ hstep => h.step hstep) Queues.start
  exact AcceptPass.survives_iff_safe hq

def completed : List StackAction :=
  [.openSocket 0 none .stream 7 1, .listen 0, .newconn 1 2]

theorem acceptPass_survives_iff_completed :
    ∃ s, Run stackStep (fun _ _ => True) SocketStack.start completed s ∧
      ((s.sock 1).queue = [2] ∧ (s.sock 2).pcb ≠ none ∧ (s.sock 1).glueingBlock = some 0 ∧
        (s.sat 0).ringsetIdx ≠ none) ∧
      ∃ r, Halts (AcceptPass.acceptRound 1) ⟨s, 1, 1, 1, 1⟩ r ∧ AcceptPass.Survives r := by
  refine Run.exists_and_of_runActions (by decide +kernel) fun s hrun hs => ?_
  obtain ⟨hqueue, hpcb, hglue, hring⟩ := hs
  refine (acceptPass_survives_iff hrun 1 1 1 1 1).mpr (.inr (.inr ⟨?_, .inr ⟨0, hglue, hring⟩⟩))
  intro so2 hmem
  rw [hqueue, List.mem_singleton] at hmem
  subst hmem
  exact ⟨hpcb, .inl Nat.one_ne_zero⟩

/-- Where the loop of `user_on_accept` ends, the step of the stack for it is its result. -/
theorem userOnAccept_eq_of_halts {as : List StackAction} {w w' : AcceptPass} {so : SocketPtr}
    (hrun : Run stackStep (fun _ _ => True) SocketStack.start as w.stack)
    (hends : Halts (AcceptPass.acceptRound so) w (.ok w')) :
    w.stack.userOnAccept so (w.stack.sock so).queue = some w'.stack := by
  have hq : Queues w.stack := hrun.invariant (fun _ _ _ h _ hstep => h.step hstep) Queues.start
  by_cases hbufs : w.mbufs = 0 ∨ w.bufs ≠ 0
  · exact AcceptPass.userOnAccept_of_ends hq rfl hbufs hends
  · cases hl : (w.stack.sock so).queue with
    | nil =>
      have hround : AcceptPass.acceptRound so w = .done w := by simp [AcceptPass.acceptRound, hl]
      cases (Halts.done_iff hround).mp hends
      rfl
    | cons so2 rest =>
      cases (Halts.fault_iff (AcceptPass.acceptRound_noBuffers hl hbufs)).mp hends

theorem userOnAccept_eq_of_halts_completed : ∃ s,
    Run stackStep (fun _ _ => True) SocketStack.start completed s ∧
      (iterate (AcceptPass.acceptRound 1) 2 ⟨s, 1, 1, 1, 1⟩).any Except.isOk = true ∧
      ∃ t, s.userOnAccept 1 (s.sock 1).queue = some t := by
  refine Run.exists_and_of_runActions (by decide +kernel) fun s hrun hs => ?_
  obtain ⟨r, hr, hok⟩ := (Option.any_eq_true _ _).mp hs
  cases r with
  | error => cases hok
  | ok w' => exact ⟨_, userOnAccept_eq_of_halts (w := ⟨s, 1, 1, 1, 1⟩) hrun ⟨2, hr⟩⟩

def resetInQueue : List StackAction := completed ++ [.tcpDrop 2]

theorem reset_crashes_accept :
    ∃ s, Run stackStep (fun _ _ => True) SocketStack.start resetInQueue s ∧
      (s.lists .accept = [1] ∧ (s.sock 1).queue = [2] ∧ (s.sock 2).pcb = none) ∧
      ∀ r, Halts (AcceptPass.acceptRound 1) ⟨s, 1, 1, 1, 1⟩ r → r = .error .nullPcb := by
  refine Run.exists_and_of_runActions (by decide +kernel) fun s hrun hs => ?_
  obtain ⟨-, hqueue, hpcb⟩ := hs
  have hq : Queues s := hrun.invariant (fun _ _ _ h _ hstep => h.step hstep) Queues.start
  have hmem : 2 ∈ (s.sock 1).queue := by simp [hqueue]
  have hround : AcceptPass.acceptRound 1 ⟨s, 1, 1, 1, 1⟩ = .fault .nullPcb := by
    have hone := AcceptPass.acceptOne_eq (w := ⟨s, 1, 1, 1, 1⟩) hq hmem (.inr Nat.one_ne_zero)
    simp only [AcceptPass.acceptRound, hqueue, hone, hpcb]
    simp
  exact fun r hends => (Halts.fault_iff hround).mp hends

end NetbsdDpdk
