import NetbsdDpdk.BackPressure

/-! Data that arrives on a connection whose sending side was shut down. The glue puts a readable
socket on its list in ESTABLISHED only, while TCP accepts data in FIN_WAIT_1 and FIN_WAIT_2 too:
what arrives there waits until something else brings the server to the socket. -/

namespace NetbsdDpdk

open List DeliveryPc SocketStack

/-- The data of an arrival is announced in ESTABLISHED, or while the socket is on the list. -/
def ArrivalSafe (so : SocketPtr) (s : DeliveryState) : DeliveryAction → Prop
  | .upcall => ((s.sock so).disconnected = false ∧ (s.sock so).pcb = some (.tcp .established)) ∨
      so ∈ s.stack.lists .read
  | _ => True

/-- An arrival puts the socket on the list, where it stays for the next pass; and a pass that began
with room after an arrival has brought everything to the ring that had arrived then. -/
def ArrivalsHold (so : SocketPtr) (s : DeliveryState) : Prop :=
  (s.fresh = true → so ∈ s.stack.lists .read) ∧ s.settled ≤ s.delivered

namespace DeliveryPc

def inPass : DeliveryPc → Bool
  | .passing _ | .called (some _) | .reading _ (some _) | .submitting _ _ _ (some _) => true
  | _ => false

def held : DeliveryPc → Nat
  | .submitting _ xs _ _ => xs.length + 1
  | _ => 0

def uncounted : DeliveryPc → Nat
  | .called (some _) | .reading _ (some _) | .submitting _ _ _ (some _) => 1
  | _ => 0

end DeliveryPc

def DeliveryState.StillDue (s : DeliveryState) (so : SocketPtr) : Prop :=
  match s.server with
  | .passing left => so ∈ (s.stack.lists .read).take left ∧ 0 < s.call.rx.freeCount
  | .called (some _) => 0 < s.call.rx.freeCount
  | .reading ringFree (some _) => 0 < ringFree
  | .submitting _ _ _ (some _) => True
  | _ => False

structure ArrivalInv (so : SocketPtr) (i : Slot) (s : DeliveryState) : Prop where
  base : DeliveryInv so i s
  counted : (s.stack.lists .read).length + s.server.uncounted ≤ s.queueLen
  balance : s.arrived = s.delivered + s.server.held + s.soRcv.length
  emptied : s.server.held ≠ 0 → s.soRcv = []
  due_le : s.due ≤ s.arrived
  due : s.due ≤ s.delivered ∨ s.StillDue so
  fresh : s.fresh = true → s.server.inPass = false ∧ so ∈ s.stack.lists .read
  settled : s.settled ≤ s.delivered

namespace SocketStack

variable {s : SocketStack} {so x : SocketPtr}

theorem remove_read_sublist (s : SocketStack) (x : SocketPtr) :
    ((s.remove .read x).lists .read).Sublist (s.lists .read) := by
  unfold remove
  split
  · simpa [unlink] using erase_sublist
  · exact List.Sublist.refl _

theorem mem_remove_of_ne (hx : so ≠ x) (hmem : so ∈ s.lists .read) :
    so ∈ (s.remove .read x).lists .read := by
  unfold remove
  split
  · simpa [unlink] using (mem_erase_of_ne hx).mpr hmem
  · exact hmem

end SocketStack

namespace ArrivalInv

variable {so : SocketPtr} {i : Slot} {s t : DeliveryState}

theorem start (h : Attaching so i s) : ArrivalInv so i s := by
  obtain ⟨hfresh, hdue, hsettled⟩ := h.quiet
  have hserver : s.server = .called none ∨ s.server = .idle := h.server.imp_right And.left
  have hheld : s.server.held = 0 := by rcases hserver with h | h <;> rw [h] <;> rfl
  have huncounted : s.server.uncounted = 0 := by rcases hserver with h | h <;> rw [h] <;> rfl
  refine ⟨h.deliveryInv, ?_, ?_, fun hne => absurd hheld hne, by omega, .inl (by omega), ?_,
    by omega⟩
  · rw [huncounted]
    exact h.counted
  · rw [hheld]
    exact h.arrived
  · simp [hfresh]

theorem inPass_of_stillDue (h : s.StillDue so) : s.server.inPass = true := by
  unfold DeliveryState.StillDue at h
  split at h
  · next hserver => rw [hserver]; rfl
  · next hserver => rw [hserver]; rfl
  · next hserver => rw [hserver]; rfl
  · next hserver => rw [hserver]; rfl
  · exact h.elim

theorem due_le_delivered (h : ArrivalInv so i s) (hout : s.server.inPass = false) :
    s.due ≤ s.delivered := by
  rcases h.due with hle | hstill
  · exact hle
  · simp [inPass_of_stillDue hstill] at hout

theorem not_fresh (h : ArrivalInv so i s) (hin : s.server.inPass = true) : ¬ s.fresh = true := by
  intro hf
  rw [(h.fresh hf).1] at hin
  cases hin

theorem setStack (h : ArrivalInv so i s) (hserver : s.server = .idle) {stack : SocketStack}
    {queueLen : Nat} {commands : List DeliveryCmd}
    (hbase : DeliveryInv so i { s with stack := stack, queueLen := queueLen, commands := commands })
    (hlen : (stack.lists .read).length ≤ queueLen)
    (hmem : so ∈ s.stack.lists .read → so ∈ stack.lists .read) :
    ArrivalInv so i { s with stack := stack, queueLen := queueLen, commands := commands } where
  base := hbase
  counted := by simpa [hserver, uncounted] using hlen
  balance := h.balance
  emptied := h.emptied
  due_le := h.due_le
  due := .inl (h.due_le_delivered (by rw [hserver]; rfl))
  fresh hf := (h.fresh hf).imp_right hmem
  settled := h.settled

theorem arrive (h : ArrivalInv so i s) (hserver : s.server = .idle) (x : Nat) (xs : List Nat)
    (hbase : DeliveryInv so i { s with
      soRcv := s.soRcv ++ x :: xs, arrived := s.arrived + (xs.length + 1), server := .appended }) :
    ArrivalInv so i { s with
      soRcv := s.soRcv ++ x :: xs, arrived := s.arrived + (xs.length + 1)
      server := .appended } := by
  have hidle : s.server.inPass = false := by rw [hserver]; rfl
  have hbalance := h.balance
  have hcounted := h.counted
  simp only [hserver, held, uncounted] at hbalance hcounted
  refine ⟨hbase, hcounted, ?_, fun hheld => absurd rfl hheld, ?_,
    .inl (h.due_le_delivered hidle), fun hf => ⟨rfl, (h.fresh hf).2⟩, h.settled⟩
  · simp only [held, length_append, length_cons]
    omega
  · exact h.due_le.trans (Nat.le_add_right _ _)

theorem upcall (h : ArrivalInv so i s) (hserver : s.server = .appended)
    (hsafe : ArrivalSafe so s .upcall) :
    ArrivalInv so i { s.setStack (s.stack.sowakeup so) with server := .idle, fresh := true } := by
  have hout : s.server.inPass = false := by rw [hserver]; rfl
  have hcounted := h.counted
  have hbalance := h.balance
  simp only [hserver, held, uncounted] at hbalance hcounted
  obtain ⟨state, hpcb, -⟩ := h.base.attached.tcp
  have hatt := h.base.attached
  have hmem : so ∈ (s.stack.sowakeup so).lists .read := by
    refine (mem_sowakeup_iff hatt.upcall hatt.stream hpcb hatt.flag).mpr ?_
    refine hsafe.imp_left fun hest => ⟨hest.1, ?_⟩
    simpa using hpcb.symm.trans hest.2
  refine ⟨h.base.upcall, ?_, hbalance, fun hheld => absurd rfl hheld, h.due_le,
    .inl (h.due_le_delivered hout), fun _ => ⟨rfl, hmem⟩, h.settled⟩
  simp only [DeliveryState.setStack, uncounted]
  omega

theorem pass (h : ArrivalInv so i s) (hserver : s.server = .idle) :
    ArrivalInv so i { s with
      server := .passing s.queueLen
      fresh := false
      due := if s.fresh ∧ 0 < s.call.rx.freeCount then s.arrived else s.due } := by
  -- a pass begins: the counter covers the whole list, so that the socket will be served
  have hidle : s.server.inPass = false := by rw [hserver]; rfl
  have hcounted := h.counted
  have hbalance := h.balance
  simp only [hserver, held, uncounted] at hbalance hcounted
  refine ⟨h.base.pass hserver _, hcounted, hbalance, fun hheld => absurd rfl hheld, ?_, ?_,
    fun hf => absurd hf (by simp), h.settled⟩
  · dsimp only
    split
    · exact le_refl _
    · exact h.due_le
  · dsimp only
    split
    · next hroom =>
      refine .inr ⟨?_, hroom.2⟩
      dsimp only
      rw [take_of_length_le (by simpa using hcounted)]
      exact (h.fresh hroom.1).2
    · exact .inl (h.due_le_delivered hidle)

theorem command (h : ArrivalInv so i s) (c : DeliveryCmd) :
    ArrivalInv so i { s with commands := s.commands ++ [c] } :=
  ⟨h.base.command c, h.counted, h.balance, h.emptied, h.due_le, h.due, h.fresh, h.settled⟩

theorem receive (h : ArrivalInv so i s) (ht : deliveryStep so i s .receive = some t) :
    ArrivalInv so i t := by
  have hbase := h.base.receive ht
  obtain ⟨cs, rfl, -⟩ := DeliveryInv.receive_cases ht
  have hle := s.call.freeCount_advance.1
  refine ⟨hbase, h.counted, h.balance, h.emptied, h.due_le, h.due.imp_right fun hstill => ?_,
    h.fresh, h.settled⟩
  unfold DeliveryState.StillDue at hstill ⊢
  split at hstill
  · next hserver =>
    simp only [hserver]
    exact ⟨hstill.1, hstill.2.trans_le hle⟩
  · next hserver =>
    simp only [hserver]
    exact hstill.trans_le hle
  · next hserver =>
    simp only [hserver]
    exact hstill
  · next hserver => simp only [hserver]
  · exact hstill.elim

theorem process (h : ArrivalInv so i s) (hserver : s.server = .idle)
    (ht : s.process i = some t) : ArrivalInv so i t := by
  have hbase := h.base.process hserver ht
  have hcounted := h.counted
  have hbalance := h.balance
  simp only [hserver, held, uncounted] at hbalance hcounted
  have hidle : s.server.inPass = false := by rw [hserver]; rfl
  unfold DeliveryState.process at ht
  split at ht
  · cases ht
  · cases ht
    exact ⟨hbase, hcounted, hbalance, fun hheld => absurd rfl hheld, h.due_le,
      .inl (h.due_le_delivered hidle), fun hf => ⟨rfl, (h.fresh hf).2⟩, h.settled⟩
  · cases ht
    refine h.setStack hserver hbase ?_ h.base.attached.soshutdown.2.2
    simp only [DeliveryState.setStack]
    omega
  · cases ht
    exact h.setStack hserver hbase hcounted id

theorem resume (h : ArrivalInv so i s) {ringFree : Nat} {rest : Option Nat}
    (hserver : s.server = .reading ringFree rest) (hbase : DeliveryInv so i (s.resume rest))
    (hdue : s.due ≤ s.delivered) : ArrivalInv so i (s.resume rest) := by
  have hcounted := h.counted
  have hbalance := h.balance
  rw [hserver] at hcounted hbalance
  cases rest with
  | none =>
    exact ⟨hbase, hcounted, hbalance, fun hne => absurd rfl hne, h.due_le, .inl hdue,
      fun hf => ⟨rfl, (h.fresh hf).2⟩, h.settled⟩
  | some left =>
    have hold := h.not_fresh (by rw [hserver]; rfl)
    refine ⟨hbase, ?_, hbalance, fun hne => absurd rfl hne, h.due_le, .inl hdue,
      fun hf => absurd hf hold, h.settled⟩
    simp only [uncounted] at hcounted
    simp only [DeliveryState.resume, uncounted]
    omega

theorem round (h : ArrivalInv so i s) (ht : s.round so = some t) : ArrivalInv so i t := by
  have hbase := h.base.round ht
  have hcounted := h.counted
  have hbalance := h.balance
  have hdue := h.due
  have hdue_le := h.due_le
  have hfresh := h.fresh
  cases round_cases ht with
  | ended hserver hlast =>
    have hold := h.not_fresh (by rw [hserver]; rfl)
    rw [hserver] at hcounted hbalance
    have hle : s.due ≤ s.delivered := by
      rcases hdue with hle | hstill
      · exact hle
      · simp only [DeliveryState.StillDue, hserver] at hstill
        rcases hlast with rfl | hnil
        · simp at hstill
        · simp [hnil] at hstill
    exact ⟨hbase, hcounted, hbalance, fun hne => absurd rfl hne, hdue_le, .inl hle,
      fun hf => absurd hf hold, hle⟩
  | own hserver hlist =>
    simp only [hserver, uncounted, hlist, length_cons] at hcounted
    have hold := h.not_fresh (by rw [hserver]; rfl)
    rw [hserver] at hbalance
    refine ⟨hbase, ?_, hbalance, fun hne => absurd rfl hne, hdue_le, ?_,
      fun hf => absurd hf hold, h.settled⟩
    · simpa [unlink, hlist, uncounted] using hcounted
    · refine hdue.imp_right fun hstill => ?_
      simp only [DeliveryState.StillDue, hserver] at hstill
      exact hstill.2
  | @other left x xs hserver hlist hne =>
    simp only [hserver, uncounted, hlist, length_cons] at hcounted
    have hold := h.not_fresh (by rw [hserver]; rfl)
    rw [hserver] at hbalance
    refine ⟨hbase, ?_, hbalance, fun hne => absurd rfl hne, hdue_le, ?_,
      fun hf => absurd hf hold, h.settled⟩
    · simp [unlink, hlist, uncounted]
      omega
    · refine hdue.imp_right fun hstill => ?_
      simp only [DeliveryState.StillDue, hserver, hlist, take_succ_cons, mem_cons] at hstill
      obtain ⟨hor, hroom⟩ := hstill
      simp only [DeliveryState.StillDue, unlink, setPresent_lists, hlist,
        Function.update_self, erase_cons_head]
      exact ⟨hor.resolve_left hne, hroom⟩
  | @count rest hserver =>
    rw [hserver] at hcounted hbalance hfresh
    cases rest with
    | none =>
      exact ⟨hbase, hcounted, hbalance, fun hne => absurd rfl hne, hdue_le,
        hdue.imp_right fun hstill => by simp [DeliveryState.StillDue, hserver] at hstill, hfresh,
        h.settled⟩
    | some left =>
      exact ⟨hbase, hcounted, hbalance, fun hne => absurd rfl hne, hdue_le,
        hdue.imp_right fun hstill => by simpa [DeliveryState.StillDue, hserver] using hstill,
        hfresh, h.settled⟩
  | @stop ringFree rest hserver hstop =>
    apply h.resume hserver hbase
    rcases hdue with hle | hstill
    · exact hle
    · rcases hstop with rfl | hnil
      · cases rest <;> simp [DeliveryState.StillDue, hserver] at hstill
      · simp only [hserver, held, hnil, length_nil] at hbalance
        omega
  | @take x xs ringFree rest hserver hdata =>
    rw [hserver] at hcounted hfresh
    simp only [hserver, held, hdata, length_cons] at hbalance
    refine ⟨hbase, ?_, ?_, fun _ => rfl, hdue_le, ?_, ?_, h.settled⟩
    · cases rest <;> exact hcounted
    · simp only [held, length_nil]
      omega
    · refine hdue.imp_right fun hstill => ?_
      cases rest with
      | none => simp [DeliveryState.StillDue, hserver] at hstill
      | some left => trivial
    · cases rest <;> exact hfresh
  | @refused x xs ringFree rest hserver hfull =>
    obtain ⟨hclaim, -⟩ := h.base.room (ringFree + 1) (by simp [hserver, claimed])
    omega
  | @submit x xs ringFree rest rx hserver hfree =>
    have hnil : s.soRcv = [] := h.emptied (by simp [hserver, held])
    rw [hserver] at hcounted hfresh
    simp only [hserver, held, hnil, length_nil] at hbalance
    refine ⟨hbase, ?_, ?_, fun hne => absurd rfl hne, hdue_le, .inl ?_, ?_, ?_⟩
    · cases rest <;> exact hcounted
    · simp only [held, hnil, length_nil]
      omega
    · dsimp only
      omega
    · cases rest <;> exact hfresh
    · exact h.settled.trans (Nat.le_add_right _ _)

theorem step {a : DeliveryAction} (h : ArrivalInv so i s) (hsafe : ArrivalSafe so s a)
    (ht : deliveryStep so i s a = some t) : ArrivalInv so i t := by
  have hbase := h.base.step ht
  cases a with
  | arrive x xs =>
    obtain ⟨⟨hserver, -⟩, rfl⟩ := guarded_eq_some.mp ht
    exact h.arrive hserver x xs hbase
  | upcall =>
    obtain ⟨hserver, rfl⟩ := guarded_eq_some.mp ht
    exact h.upcall hserver hsafe
  | wake x =>
    obtain ⟨hserver, rfl⟩ := guarded_eq_some.mp ht
    have hcounted := h.counted
    simp only [hserver, uncounted] at hcounted
    refine h.setStack hserver hbase ?_ ((Woken.sowakeup s.stack x).mem so)
    omega
  | leave x =>
    obtain ⟨⟨hserver, hx⟩, rfl⟩ := guarded_eq_some.mp ht
    have hcounted := h.counted
    simp only [hserver, uncounted] at hcounted
    refine h.setStack hserver hbase ?_ fun hmem => ?_
    · exact (remove_read_sublist s.stack x).length_le.trans hcounted
    · exact mem_remove_of_ne hx.symm hmem
  | finAcked =>
    obtain ⟨⟨hserver, -⟩, rfl⟩ := guarded_eq_some.mp ht
    have hcounted := h.counted
    simp only [hserver, uncounted] at hcounted
    exact h.setStack hserver hbase hcounted id
  | pass =>
    obtain ⟨hserver, rfl⟩ := guarded_eq_some.mp ht
    exact h.pass hserver
  | round => exact h.round ht
  | process =>
    obtain ⟨hserver, ht⟩ := guard_bind_eq_some.mp ht
    exact h.process hserver ht
  | command c =>
    cases ht
    exact h.command c
  | receive => exact h.receive ht

end ArrivalInv

/-- Under `ArrivalSafe` nothing that arrived is left behind, and what it asks of an upcall is
needed. -/
theorem arrivalsHold_of_run {so : SocketPtr} {i : Slot} {s₀ s : DeliveryState}
    {as : List DeliveryAction} (hstart : Attaching so i s₀)
    (hrun : Run (deliveryStep so i) (ArrivalSafe so) s₀ as s) :
    ArrivalsHold so s ∧ ∀ t, deliveryStep so i s .upcall = some t →
      (ArrivalsHold so t ↔ ArrivalSafe so s .upcall) := by
  have hinv : ArrivalInv so i s :=
    hrun.invariant (fun _ _ _ h hsafe hstep => h.step hsafe hstep) (ArrivalInv.start hstart)
  refine ⟨⟨fun hf => (hinv.fresh hf).2, hinv.settled⟩,
    fun t ht => ⟨fun hhold => ?_, fun hsafe => ?_⟩⟩
  · obtain ⟨-, rfl⟩ := guarded_eq_some.mp ht
    obtain ⟨state, hpcb, -⟩ := hinv.base.attached.tcp
    have hatt := hinv.base.attached
    have hmem := (SocketStack.mem_sowakeup_iff hatt.upcall hatt.stream hpcb hatt.flag).mp
      (hhold.1 rfl)
    refine hmem.imp_left fun hest => ⟨hest.1, ?_⟩
    rw [← hest.2]
    exact hpcb
  · have hnext := hinv.step hsafe ht
    exact ⟨fun hf => (hnext.fresh hf).2, hnext.settled⟩

instance (so : SocketPtr) (s : DeliveryState) (a : DeliveryAction) :
    Decidable (ArrivalSafe so s a) := by
  rcases a <;> unfold ArrivalSafe <;> infer_instance

def shutdownRun : List DeliveryAction :=
  [.round, .round, .arrive 5 [6], .upcall, .command .shutdown, .process, .arrive 7 [], .upcall,
    .pass, .round, .round, .round, .round, .round, .round]

theorem arrivalsHold_of_run_shutdown : ∃ s,
    Run (deliveryStep 1 0) (ArrivalSafe 1) (attaching Fifo.empty) shutdownRun s ∧
      s.settled = 3 ∧ ArrivalsHold 1 s :=
  Run.exists_and_of_runActions (by decide +kernel) fun _ hrun _ =>
    (arrivalsHold_of_run (attaching_attaching Fifo.empty) hrun).1

def lateArrival : List DeliveryAction :=
  [.round, .round, .command .shutdown, .process, .pass, .round, .round, .round, .round,
    .arrive 7 [], .upcall, .pass, .round]

/-- The peer goes on sending after the pass that follows the shutdown: the socket is not put on the
list, and the next pass delivers nothing although the ring is empty. -/
theorem half_closed_not_delivered : ∃ s,
    Run (deliveryStep 1 0) (fun _ _ => True) (attaching Fifo.empty) lateArrival s ∧
      (s.soRcv = [7] ∧ 1 ∉ s.stack.lists .read ∧ s.call.rx.items = [] ∧
        ¬ s.settled ≤ s.delivered) ∧ ¬ ArrivalsHold 1 s :=
  Run.exists_and_of_runActions (by decide +kernel) fun _ _ hs hhold => hs.2.2.2 hhold.2

end NetbsdDpdk
