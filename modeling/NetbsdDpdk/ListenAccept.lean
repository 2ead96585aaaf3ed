import NetbsdDpdk.AcceptQueue
import NetbsdDpdk.ListenInvariant

/-! The pass of `user_on_accept` over `so_q`, from any state that a run reaches: it never finds the
queue at odds with its counter, and it takes the completed connections in their order. -/

namespace NetbsdDpdk

open List Function SocketStack SocketQueues

def ConnPasses (env : PassEnv) (s : ListenState) (so2 : SocketPtr) : Prop :=
  (env.mbufs ≠ 0 → env.bufs ≠ 0) ∧ (s.sock so2).pcb = true ∧
    (env.mbufs ≠ 0 ∨ (s.sock so2).disconnected = true) ∧ env.notifies so2 = true

instance (env : PassEnv) (s : ListenState) (so2 : SocketPtr) :
    Decidable (ConnPasses env s so2) := by
  unfold ConnPasses
  infer_instance

def ListenFault.elsewhere : ListenFault → Bool
  | .noBuffers | .nullAddress | .nullPcb | .notify => true
  | _ => false

theorem PassEnv.mGet_eq (env : PassEnv) : env.mGet =
    if env.mbufs ≠ 0 → env.bufs ≠ 0 then .ok (decide (env.mbufs ≠ 0)) else .error .noBuffers := by
  unfold mGet
  by_cases hm : env.mbufs = 0
  · simp [hm]
  · by_cases hb : env.bufs = 0
    · simp [hm, hb]
    · simp [hm, hb]

namespace ListenState

variable {s t : ListenState} {so so2 : SocketPtr} {rest : List SocketPtr} {env : PassEnv}
  {addr : Bool}

structure Taken (s t : ListenState) (so so2 : SocketPtr) (rest : List SocketPtr) : Prop where
  inv : ListenInv t
  queue : t.queues.soq (so, .soQ) = rest
  accepted : t.accepted so = s.accepted so ++ [s.stamp so2]
  stamp : t.stamp = s.stamp
  sock : ∀ y, y ≠ so2 → t.sock y = s.sock y
  waiting : t.queues.waiting so < s.queues.waiting so

/-! The first connection of a queue that is not empty. -/

theorem first_mem (hq : s.queues.soq (so, .soQ) = so2 :: rest) : so2 ∈ s.queues.soq (so, .soQ) := by
  rw [hq]
  exact mem_cons_self

theorem soqlen_ne_zero (h : ListenInv s) (hq : s.queues.soq (so, .soQ) = so2 :: rest) :
    s.queues.soqlen (so, .soQ) ≠ 0#16 := by
  intro hzero
  rw [soqlen_eq_zero_iff h.queues (h.room so), hq] at hzero
  cases hzero

theorem soqremque_first (h : ListenInv s) (hq : s.queues.soq (so, .soQ) = so2 :: rest) :
    (s.queues.soqremque so2 .soQ).2 = true ∧
      (s.soqremque so2 .soQ).queues.soq (so, .soQ) = rest ∧
      (s.soqremque so2 .soQ).queues.soOnq so2 = none := by
  have hmem := first_mem hq
  refine ⟨by rw [soqremque_eq h.queues hmem], ?_, ?_⟩
  · simp [soqremque, soqremque_soq h.queues hmem, hq]
  · simp [soqremque, soqremque_soOnq h.queues hmem]

theorem first_noFdRef (h : ListenInv s) (hq : s.queues.soq (so, .soQ) = so2 :: rest) :
    (s.sock so2).noFdRef = true := by
  refine (h.waits so2 ?_).2
  rw [(h.queues.onq so2 _).mpr (first_mem hq)]
  exact Option.some_ne_none _

theorem waiting_takeFirst (h : ListenInv s) (hq : s.queues.soq (so, .soQ) = so2 :: rest) :
    (s.soqremque so2 .soQ).queues.waiting so < s.queues.waiting so := by
  have hless := waiting_soqremque h.queues (first_mem hq)
  simp only [soqremque]
  omega

theorem takeFirst_inv (h : ListenInv s) (hq : s.queues.soq (so, .soQ) = so2 :: rest) :
    ListenInv (s.takeFirst so so2) := by
  have hrem := h.soqremque so2 .soQ
  obtain ⟨-, hrest, -⟩ := soqremque_first h hq
  refine ⟨hrem.queues, hrem.room, hrem.waits, hrem.listener, hrem.opened, hrem.filter, hrem.limit,
    ?_⟩
  intro l
  by_cases hl : l = so
  · subst hl
    obtain ⟨hsub, hincr, hpast⟩ := h.order l
    refine ⟨?_, hincr, hpast⟩
    have heq : (s.takeFirst l so2).accepted l ++
        ((s.takeFirst l so2).queues.soq (l, .soQ)).map (s.takeFirst l so2).stamp =
        s.accepted l ++ (s.queues.soq (l, .soQ)).map s.stamp := by
      have hqueue : (s.takeFirst l so2).queues.soq (l, .soQ) = rest := hrest
      rw [hqueue, hq]
      simp [takeFirst, soqremque]
    rw [heq]
    exact hsub
  · obtain ⟨hsub, hincr, hpast⟩ := hrem.order l
    refine ⟨?_, hincr, hpast⟩
    simpa only [takeFirst, soqremque, update_of_ne hl] using hsub

def referred (s : ListenState) (so2 : SocketPtr) : ListenState :=
  (s.modify so2 fun t => { t with noFdRef := false }).modify so2 fun t => { t with upcall2 := true }

theorem soaccept_eq (hno : (s.sock so2).noFdRef = true) :
    s.soaccept so2 addr =
      if (s.sock so2).disconnected = false ∧ (s.sock so2).pcb = true ∧ addr = false then
        .error .nullAddress
      else .ok (s.modify so2 fun t => { t with noFdRef := false }) := by
  unfold soaccept
  rw [hno]
  rfl

theorem soaccept_queues (ht : s.soaccept so2 addr = .ok t) : t.queues = s.queues := by
  unfold soaccept at ht
  split at ht
  · cases ht
  · split at ht
    · cases ht
    · cases ht
      rfl

theorem announce_eq (hno : (s.sock so2).noFdRef = true) :
    s.announce env so2 addr =
      if (s.sock so2).disconnected = false ∧ (s.sock so2).pcb = true ∧ addr = false then
        .fault .nullAddress
      else if (s.sock so2).pcb = false then .fault .nullPcb
      else if env.notifies so2 = false then .fault .notify
      else .again (s.referred so2) := by
  unfold announce
  rw [soaccept_eq hno]
  by_cases hnull : (s.sock so2).disconnected = false ∧ (s.sock so2).pcb = true ∧ addr = false
  · simp only [if_pos hnull]
  · simp only [if_neg hnull, modify, update_self, referred]

theorem referred_inv (h : ListenInv s) (hout : s.queues.soOnq so2 = none) :
    ListenInv (s.referred so2) := by
  have haccept : ListenInv (s.modify so2 fun t => { t with noFdRef := false }) := by
    refine h.modify (fun hne => absurd hout hne) ?_ (fun _ _ => rfl) (h.filter so2) (h.limit so2)
    exact fun q hne => ⟨(h.listener so2 q hne).1, (h.listener so2 q hne).2.1, rfl⟩
  exact haccept.frame rfl rfl rfl (fun hp _ => hp) rfl rfl

theorem acceptRound_cons (env : PassEnv) (h : ListenInv s)
    (hq : s.queues.soq (so, .soQ) = so2 :: rest) :
    acceptRound env so s =
      if env.mbufs ≠ 0 → env.bufs ≠ 0 then
        if (s.sock so2).disconnected = false ∧ (s.sock so2).pcb = true ∧
            decide (env.mbufs ≠ 0) = false then .fault .nullAddress
        else if (s.sock so2).pcb = false then .fault .nullPcb
        else if env.notifies so2 = false then .fault .notify
        else .again ((s.takeFirst so so2).referred so2)
      else .fault .noBuffers := by
  have hfirst := first_noFdRef h hq
  have hno : ((s.takeFirst so so2).sock so2).noFdRef = true := hfirst
  obtain ⟨hok, -⟩ := soqremque_first h hq
  unfold acceptRound
  rw [if_neg (soqlen_ne_zero h hq), hq, env.mGet_eq]
  by_cases hbufs : env.mbufs ≠ 0 → env.bufs ≠ 0
  · simp only [if_pos hbufs, head?_cons, hok, Bool.true_eq_false, if_false]
    rw [announce_eq hno]
    rfl
  · simp only [if_neg hbufs]

theorem acceptRound_nil (h : ListenInv s) (hq : s.queues.soq (so, .soQ) = []) :
    acceptRound env so s = .done s :=
  if_pos ((soqlen_eq_zero_iff h.queues (h.room so) .soQ).mpr hq)

theorem taken_referred (h : ListenInv s) (hq : s.queues.soq (so, .soQ) = so2 :: rest) :
    Taken s ((s.takeFirst so so2).referred so2) so so2 rest := by
  obtain ⟨-, hrest, hout⟩ := soqremque_first h hq
  refine ⟨referred_inv (takeFirst_inv h hq) hout, hrest, ?_, rfl, ?_, waiting_takeFirst h hq⟩
  · simp [referred, modify, takeFirst]
  · intro y hy
    simp [referred, modify, hy, takeFirst, soqremque]

theorem acceptRound_spec (env : PassEnv) (h : ListenInv s)
    (hq : s.queues.soq (so, .soQ) = so2 :: rest) :
    (ConnPasses env s so2 ∧ ∃ t, acceptRound env so s = .again t ∧ Taken s t so so2 rest) ∨
      (¬ ConnPasses env s so2 ∧
        ∃ e : ListenFault, e.elsewhere = true ∧ acceptRound env so s = .fault e) := by
  have hround := acceptRound_cons env h hq
  by_cases hbufs : env.mbufs ≠ 0 → env.bufs ≠ 0
  · rw [if_pos hbufs] at hround
    by_cases hnull : (s.sock so2).disconnected = false ∧ (s.sock so2).pcb = true ∧
        decide (env.mbufs ≠ 0) = false
    · rw [if_pos hnull] at hround
      refine .inr ⟨fun hpass => ?_, .nullAddress, rfl, hround⟩
      rcases hpass.2.2.1 with hm | hdis
      · exact absurd hm (by simpa using hnull.2.2)
      · rw [hdis] at hnull
        cases hnull.1
    · rw [if_neg hnull] at hround
      by_cases hpcb : (s.sock so2).pcb = false
      · rw [if_pos hpcb] at hround
        refine .inr ⟨fun hpass => ?_, .nullPcb, rfl, hround⟩
        obtain ⟨-, htrue, -⟩ := hpass
        rw [hpcb] at htrue
        cases htrue
      · rw [if_neg hpcb] at hround
        rw [Bool.not_eq_false] at hpcb
        by_cases hnot : env.notifies so2 = false
        · rw [if_pos hnot] at hround
          refine .inr ⟨fun hpass => ?_, .notify, rfl, hround⟩
          obtain ⟨-, -, -, htrue⟩ := hpass
          rw [hnot] at htrue
          cases htrue
        · rw [if_neg hnot] at hround
          rw [Bool.not_eq_false] at hnot
          refine .inl ⟨⟨hbufs, hpcb, ?_, hnot⟩, _, hround, taken_referred h hq⟩
          by_contra hneither
          obtain ⟨hm, hdis⟩ := not_or.mp hneither
          rw [Bool.not_eq_true] at hdis
          exact hnull ⟨hdis, hpcb, by simpa using hm⟩
  · rw [if_neg hbufs] at hround
    exact .inr ⟨fun hpass => hbufs hpass.1, .noBuffers, rfl, hround⟩

structure TookAll (s t : ListenState) (so : SocketPtr) : Prop where
  inv : ListenInv t
  queue : t.queues.soq (so, .soQ) = []
  accepted : t.accepted so = s.accepted so ++ (s.queues.soq (so, .soQ)).map s.stamp

theorem pass_spec (h : ListenInv s) (env : PassEnv) (so : SocketPtr) :
    ((∀ so2 ∈ s.queues.soq (so, .soQ), ConnPasses env s so2) ∧
      ∃ t, TookAll s t so ∧ ∀ r, Halts (acceptRound env so) s r ↔ r = .ok t) ∨
    (¬ (∀ so2 ∈ s.queues.soq (so, .soQ), ConnPasses env s so2) ∧
      ∃ e : ListenFault, e.elsewhere = true ∧
        ∀ r, Halts (acceptRound env so) s r ↔ r = .error e) := by
  obtain ⟨queue, hq⟩ : ∃ queue, s.queues.soq (so, .soQ) = queue := ⟨_, rfl⟩
  induction queue generalizing s with
  | nil =>
    refine .inl ⟨by simp [hq], s, ⟨h, hq, by simp [hq]⟩, fun r => ?_⟩
    exact Halts.done_iff (acceptRound_nil h hq)
  | cons so2 rest ih =>
    rcases acceptRound_spec env h hq with ⟨hpass, t, ht, htaken⟩ | ⟨hfail, e, he, hfault⟩
    · have hnodup := h.queues.nodup (so, .soQ)
      rw [hq] at hnodup
      have hrest : (∀ y ∈ t.queues.soq (so, .soQ), ConnPasses env t y) ↔
          ∀ y ∈ rest, ConnPasses env s y := by
        rw [htaken.queue]
        refine forall₂_congr fun y hy => ?_
        have hne : y ≠ so2 := fun heq => (nodup_cons.mp hnodup).1 (heq ▸ hy)
        simp only [ConnPasses, htaken.sock y hne]
      rw [hq, forall_mem_cons, ← hrest]
      rcases ih htaken.inv htaken.queue with ⟨hall, u, hu, hhalts⟩ | ⟨hnot, e, he, hhalts⟩
      · refine .inl ⟨⟨hpass, hall⟩, u, ⟨hu.inv, hu.queue, ?_⟩, fun r => ?_⟩
        · rw [hu.accepted, htaken.accepted, htaken.queue, htaken.stamp, hq]
          simp
        · rw [Halts.again_iff ht]
          exact hhalts r
      · refine .inr ⟨fun hboth => hnot hboth.2, e, he, fun r => ?_⟩
        rw [Halts.again_iff ht]
        exact hhalts r
    · refine .inr ⟨fun hall => hfail (hall so2 ?_), e, he, fun r => Halts.fault_iff hfault⟩
      rw [hq]
      exact mem_cons_self

theorem acceptRound_again (h : ListenInv s) (ht : acceptRound env so s = .again t) :
    ListenInv t ∧ t.queues.waiting so < s.queues.waiting so := by
  cases hq : s.queues.soq (so, .soQ) with
  | nil =>
    rw [acceptRound_nil h hq] at ht
    cases ht
  | cons so2 rest =>
    rcases acceptRound_spec env h hq with ⟨-, u, hu, htaken⟩ | ⟨-, e, -, hfault⟩
    · rw [hu] at ht
      cases ht
      exact ⟨htaken.inv, htaken.waiting⟩
    · rw [hfault] at ht
      cases ht

theorem userOnAccept_inv (h : ListenInv s) (ht : s.userOnAccept env so = some (.ok t)) :
    ListenInv t := by
  obtain ⟨u, hu, hlast⟩ := andThen_eq_ok.mp ht
  have hinv : ListenInv u := by
    rcases pass_spec h env so with ⟨-, v, hv, hhalts⟩ | ⟨-, e, -, hhalts⟩
    · have heq := (hhalts (.ok u)).mp ⟨_, hu⟩
      cases heq
      exact hv.inv
    · have heq := (hhalts (.ok u)).mp ⟨_, hu⟩
      cases heq
  cases hlast
  exact hinv.frame rfl rfl rfl (fun hp _ => hp) rfl rfl

/-! The loop of `app_glue_close_socket`. -/

theorem orphanRound_spec (h : ListenInv s) (env : PassEnv) (so : SocketPtr) :
    orphanRound env so s = .done s ∨ (∃ t, orphanRound env so s = .again t ∧ ListenInv t ∧
        t.queues.waiting so < s.queues.waiting so) ∨ ∃ e, orphanRound env so s = .fault e := by
  cases hq : s.queues.soq (so, .soQ) with
  | nil =>
    refine .inl (if_pos ?_)
    exact (soqlen_eq_zero_iff h.queues (h.room so) .soQ).mpr hq
  | cons so2 rest =>
    obtain ⟨hok, -, hout⟩ := soqremque_first h hq
    unfold orphanRound
    rw [if_neg (soqlen_ne_zero h hq), hq, env.mGet_eq]
    by_cases hbufs : env.mbufs ≠ 0 → env.bufs ≠ 0
    · simp only [if_pos hbufs, head?_cons, hok, Bool.true_eq_false, if_false]
      cases hacc : (s.soqremque so2 .soQ).soaccept so2 (decide (env.mbufs ≠ 0)) with
      | error e => exact .inr (.inr ⟨e, rfl⟩)
      | ok t =>
        refine .inr (.inl ⟨t, rfl, (h.soqremque so2 .soQ).soaccept hout hacc, ?_⟩)
        rw [soaccept_queues hacc]
        exact waiting_takeFirst h hq
    · simp only [if_neg hbufs]
      exact .inr (.inr ⟨_, rfl⟩)

theorem orphanRound_again (h : ListenInv s) (ht : orphanRound env so s = .again t) :
    ListenInv t ∧ t.queues.waiting so < s.queues.waiting so := by
  rcases orphanRound_spec h env so with hdone | ⟨u, hu, hinv⟩ | ⟨e, he⟩
  · rw [hdone] at ht
    cases ht
  · rw [hu] at ht
    cases ht
    exact hinv
  · rw [he] at ht
    cases ht

theorem orphanRound_done (h : ListenInv s) (ht : orphanRound env so s = .done t) : ListenInv t := by
  rcases orphanRound_spec h env so with hdone | ⟨u, hu, -⟩ | ⟨e, he⟩
  · rw [hdone] at ht
    cases ht
    exact h
  · rw [hu] at ht
    cases ht
  · rw [he] at ht
    cases ht

theorem orphan_inv (h : ListenInv s) {fuel : Nat}
    (ht : iterate (orphanRound env so) fuel s = some (.ok t)) : ListenInv t :=
  Halts.rule (fun _ _ ha hb => (orphanRound_again ha hb).1)
    (fun _ _ ha hb => orphanRound_done ha hb) h ⟨_, ht⟩

theorem acceptPart_inv (h : ListenInv s)
    (ht : (if (s.sock so).acceptPresent then
      andThen (iterate (orphanRound env so) (s.queues.waiting so + 1) s) fun s =>
        some (.ok (s.modify so fun t => { t with acceptPresent := false }))
      else some (.ok s)) = some (.ok t)) : ListenInv t := by
  split at ht
  · obtain ⟨u, hu, hlast⟩ := andThen_eq_ok.mp ht
    cases hlast
    exact (orphan_inv h hu).frame rfl rfl rfl (fun hp _ => hp) rfl rfl
  · cases ht
    exact h

theorem closeSocket_inv (h : ListenInv s) {pcbLeft : Bool}
    (ht : s.closeSocket env so pcbLeft = some (.ok t)) : ListenInv t := by
  obtain ⟨u, hu, hclose⟩ := andThen_eq_ok.mp ht
  exact soclose_inv (acceptPart_inv h hu) hclose

/-! None of the three calls with a loop runs on for ever. -/

theorem userOnAccept_isSome (h : ListenInv s) (env : PassEnv) (so : SocketPtr) :
    (s.userOnAccept env so).isSome = true := by
  refine andThen_isSome ?_ fun _ _ => rfl
  exact iterate_isSome (I := ListenInv) (fun s => s.queues.waiting so)
    (fun _ _ ha hb => acceptRound_again ha hb) h (Nat.lt_succ_self _)

theorem soclose_isSome (h : ListenInv s) (so : SocketPtr) (pcbLeft : Bool) :
    (s.soclose so pcbLeft).isSome = true := by
  refine andThen_isSome ?_ fun _ _ => rfl
  split
  · exact iterate_isSome (I := ListenInv) (fun s => s.queues.waiting so)
      (fun _ _ ha hb => abortRound_again ha hb) h (Nat.lt_succ_self _)
  · rfl

theorem closeSocket_isSome (h : ListenInv s) (env : PassEnv) (so : SocketPtr) (pcbLeft : Bool) :
    (s.closeSocket env so pcbLeft).isSome = true := by
  refine andThen_isSome ?_ fun u hu => soclose_isSome (acceptPart_inv h hu) so pcbLeft
  split
  · refine andThen_isSome ?_ fun _ _ => rfl
    exact iterate_isSome (I := ListenInv) (fun s => s.queues.waiting so)
      (fun _ _ ha hb => orphanRound_again ha hb) h (Nat.lt_succ_self _)
  · rfl

end ListenState

theorem returned_eq_some {σ ε : Type} {o : Option (Except ε σ)} {t : σ} :
    returned o = some t ↔ o = some (.ok t) := by
  rcases o with _ | _ | u <;> simp [returned]

theorem ListenInv.step {s t : ListenState} {a : ListenAction} (h : ListenInv s)
    (hok : ListenUse s a) (hstep : listenStep s a = some t) : ListenInv t := by
  cases a with
  | socreate so =>
    obtain ⟨hdead, rfl⟩ := guarded_eq_some.mp hstep
    exact h.soget hdead rfl rfl (show (0 : Int) ≤ 128 by decide)
  | solisten so backlog =>
    obtain ⟨hguard, rfl⟩ := guarded_eq_some.mp hstep
    exact h.solisten hguard.2 hguard.1 backlog
  | sonewconn head connstatus got reserved attached =>
    obtain ⟨hguard, rfl⟩ := guarded_eq_some.mp hstep
    exact h.sonewconn hguard.1 hguard.2 connstatus reserved attached
  | soisconnected so =>
    obtain ⟨-, hret⟩ := guard_bind_eq_some.mp hstep
    exact h.soisconnected (Option.some.inj (returned_eq_some.mp hret))
  | soqinsque head so q =>
    cases hstep
    obtain ⟨⟨hlistens, hfull⟩, hlive, hno, hout⟩ := hok
    exact h.soqinsque hout ⟨hlive, hno⟩ (h.referenced hlistens) (h.waiting_lt hfull)
  | soqremque so q =>
    cases hstep
    exact h.soqremque so q
  | userOnAccept so env => exact ListenState.userOnAccept_inv h (returned_eq_some.mp hstep)
  | closeSocket so env pcbLeft =>
    obtain ⟨-, hret⟩ := guard_bind_eq_some.mp hstep
    exact ListenState.closeSocket_inv h (returned_eq_some.mp hret)
  | soclose so pcbLeft =>
    obtain ⟨-, hret⟩ := guard_bind_eq_some.mp hstep
    exact ListenState.soclose_inv h (returned_eq_some.mp hret)
  | tcpClose so =>
    obtain ⟨-, rfl⟩ := guarded_eq_some.mp hstep
    exact h.tcpClose so
  | abort so =>
    obtain ⟨-, hret⟩ := guard_bind_eq_some.mp hstep
    exact (h.soqremque so .soQ).soabort (Option.some.inj (returned_eq_some.mp hret))

structure QueuesAgree (Q : SocketQueues) : Prop where
  len : ∀ a, (Q.soqlen a).toInt = (Q.soq a).length
  back : ∀ a, ∀ x ∈ Q.soq a, Q.soHead x = some a.1 ∧ Q.soOnq x = some a
  once : ∀ a, (Q.soq a).Nodup
  exclusive : ∀ a b x, x ∈ Q.soq a → x ∈ Q.soq b → a = b
  off : ∀ x, (∀ a, x ∉ Q.soq a) → Q.soHead x = none

theorem ListenInv.agree {s : ListenState} (h : ListenInv s) : QueuesAgree s.queues := by
  refine ⟨fun a => toInt_soqlen h.queues (h.room a.1) a.2, ?_, h.queues.nodup,
    fun a b x ha hb => h.queues.unique ha hb, ?_⟩
  · intro a x hx
    have honq := (h.queues.onq x a).mpr hx
    refine ⟨?_, honq⟩
    rw [h.queues.head, honq]
    rfl
  · intro x hx
    rw [h.queues.soHead_none_iff]
    by_contra hne
    obtain ⟨a, ha⟩ := Option.ne_none_iff_exists'.mp hne
    exact hx a ((h.queues.onq x a).mp ha)

theorem listenInv_start : ListenInv {} := by
  refine ⟨consistent_empty, fun h => ?_, fun x hx => absurd rfl hx,
    fun h q hne => absurd rfl hne, fun h hacc => Bool.noConfusion hacc, fun x => rfl, fun x => ?_,
    fun h => ⟨?_, List.Pairwise.nil, fun n hn => ?_⟩⟩
  · exact Nat.zero_le _
  · exact (show (0 : Int) ≤ 128 by decide)
  · exact List.Sublist.refl _
  · cases hn

theorem listenInv_of_run {as : List ListenAction} {t : ListenState}
    (hrun : Run listenStep ListenUse {} as t) : ListenInv t :=
  hrun.invariant (I := ListenInv) (fun _ _ _ h hok hstep => h.step hok hstep) listenInv_start

namespace ListenState

/-- The pass ends with the queue empty, and what waited there has been accepted in this order. -/
def AcceptsAll (s : ListenState) (env : PassEnv) (so : SocketPtr) : Prop :=
  ∃ t, Halts (acceptRound env so) s (.ok t) ∧ t.queues.soq (so, .soQ) = [] ∧
    t.accepted so = s.accepted so ++ (s.queues.soq (so, .soQ)).map s.stamp

/-- In every state that a run reaches, the queues agree with their counters and back pointers, and
connections are accepted at most once and in the order of completion. A pass of `user_on_accept`
ends, not by `exit(1)`, and takes everything exactly if each connection on the queue still has its
control block and the pools serve it. The calls with a loop end. -/
theorem accepts_all_iff {as : List ListenAction} {t : ListenState}
    (hrun : Run listenStep ListenUse {} as t) :
    QueuesAgree t.queues ∧ (∀ h, InOrderOf t h) ∧
      ∀ env so, (∃ r, Halts (acceptRound env so) t r) ∧
        (∀ r, Halts (acceptRound env so) t r → r ≠ .error .exit1 ∧ r ≠ .error .nullSocket) ∧
        (t.AcceptsAll env so ↔ ∀ so2 ∈ t.queues.soq (so, .soQ), ConnPasses env t so2) ∧
        (t.userOnAccept env so).isSome = true ∧
        ∀ pcbLeft, (t.closeSocket env so pcbLeft).isSome = true ∧
          (t.soclose so pcbLeft).isSome = true := by
  have hinv := listenInv_of_run hrun
  refine ⟨hinv.agree, hinv.order, fun env so => ?_⟩
  have hends := And.intro (userOnAccept_isSome hinv env so) fun pcbLeft =>
    And.intro (closeSocket_isSome hinv env so pcbLeft) (soclose_isSome hinv so pcbLeft)
  rcases pass_spec hinv env so with ⟨hall, u, hu, hhalts⟩ | ⟨hnot, e, he, hhalts⟩
  · refine ⟨⟨_, (hhalts _).mpr rfl⟩, fun r hr => ?_, iff_of_true ?_ hall, hends⟩
    · rw [(hhalts r).mp hr]
      constructor <;> intro heq <;> cases heq
    · exact ⟨u, (hhalts _).mpr rfl, hu.queue, hu.accepted⟩
  · refine ⟨⟨_, (hhalts _).mpr rfl⟩, fun r hr => ?_, iff_of_false ?_ hnot, hends⟩
    · rw [(hhalts r).mp hr]
      constructor <;> intro heq <;> cases heq <;> cases he
    · intro hacc
      obtain ⟨u, hu, -⟩ := hacc
      have heq := (hhalts _).mp hu
      cases heq

def lateCompletion : List ListenAction :=
  [.socreate 1, .solisten 1 32000, .sonewconn 1 .zero (some 2) true true,
    .sonewconn 1 .isConnected (some 3) true true, .sonewconn 1 .isConnected (some 4) true true,
    .soisconnected 2, .sonewconn 1 .isConnected (some 5) true false]

theorem accepts_all_iff_late :
    ∃ t, Run listenStep ListenUse {} lateCompletion t ∧
      (t.queues.soq (1, .soQ) = [3, 4, 2] ∧
        ∀ so2 ∈ t.queues.soq (1, .soQ), ConnPasses ⟨1, 1, fun _ => true⟩ t so2) ∧
      QueuesAgree t.queues ∧ t.AcceptsAll ⟨1, 1, fun _ => true⟩ 1 := by
  refine Run.exists_and_of_runActions (by decide +kernel) fun t hrun ht => ?_
  obtain ⟨hagree, -, hpass⟩ := accepts_all_iff hrun
  exact ⟨hagree, (hpass _ 1).2.2.1.mpr ht.2⟩

def twoCompleted : List ListenAction :=
  [.socreate 1, .solisten 1 32000, .sonewconn 1 .isConnected (some 2) true true,
    .sonewconn 1 .isConnected (some 3) true true]

theorem ends_of_fault {t : ListenState} {env : PassEnv} {so : SocketPtr} {e : ListenFault}
    (hround : acceptRound env so t = .fault e) :
    Halts (acceptRound env so) t (.error e) ∧ ¬ t.AcceptsAll env so := by
  refine ⟨(Halts.fault_iff hround).mpr rfl, fun hall => ?_⟩
  obtain ⟨u, hu, -⟩ := hall
  have heq := (Halts.fault_iff hround).mp hu
  cases heq

/-- With no free mbuf the pass ends at the NULL address of the first connection. If the first of two
connections is reset while it waits, `sofree` leaves it on `so_q`, and the pass ends at its NULL
`so_pcb`. In both cases the second connection is not accepted. -/
theorem pass_ends_early :
    (∃ t, Run listenStep ListenUse {} twoCompleted t ∧
      (t.queues.soq (1, .soQ) = [2, 3] ∧ (t.sock 2).pcb = true ∧
        (t.sock 2).disconnected = false) ∧
      Halts (acceptRound ⟨0, 0, fun _ => true⟩ 1) t (.error .nullAddress) ∧
      ¬ t.AcceptsAll ⟨0, 0, fun _ => true⟩ 1) ∧
    ∃ t, Run listenStep ListenUse {} (twoCompleted ++ [.tcpClose 2]) t ∧
      (t.queues.soq (1, .soQ) = [2, 3] ∧ (t.sock 2).pcb = false ∧
        (t.sock 2).disconnected = true) ∧
      Halts (acceptRound ⟨1, 1, fun _ => true⟩ 1) t (.error .nullPcb) ∧
      ¬ t.AcceptsAll ⟨1, 1, fun _ => true⟩ 1 := by
  constructor
  all_goals
    refine Run.exists_and_of_runActions (by decide +kernel) fun t hrun ht => ends_of_fault ?_
    rw [acceptRound_cons _ (listenInv_of_run hrun) ht.1, ht.2.1, ht.2.2]
    simp

end ListenState

/-! The stack of `SocketStack` has one queue for a listening socket, which is `so_q`. -/

namespace SocketQueues

structure Refines (Q : SocketQueues) (k : SocketStack) : Prop where
  queue : ∀ so, (k.sock so).queue = Q.soq (so, .soQ)
  head : ∀ so, ∀ x ∈ Q.soq (so, .soQ), (k.sock x).head = some so

variable {Q : SocketQueues} {k : SocketStack} {so so2 : SocketPtr}

theorem Refines.soqremque (h : Refines Q k) (hQ : Q.Consistent) (hmem : so2 ∈ Q.soq (so, .soQ))
    (hne : so2 ≠ so) : Refines (Q.soqremque so2 .soQ).1 (k.dequeueAccept so so2) := by
  have hqueue l : ((k.dequeueAccept so so2).sock l).queue =
      (Q.soqremque so2 .soQ).1.soq (l, .soQ) := by
    rw [soqremque_soq hQ hmem]
    by_cases hl : l = so
    · subst hl
      rw [dequeueAccept_sock_head hne, update_self, h.queue]
    · have ha : (l, Soq.soQ) ≠ (so, .soQ) := fun ha => hl (congrArg Prod.fst ha)
      rw [update_of_ne ha]
      by_cases hl2 : l = so2
      · subst hl2
        rw [dequeueAccept_sock_self hne]
        exact h.queue l
      · rw [dequeueAccept_sock_of_ne hl hl2, h.queue]
  refine ⟨hqueue, fun l x hx => ?_⟩
  have hold : x ∈ Q.soq (l, .soQ) ∧ x ≠ so2 := by
    rw [soqremque_soq hQ hmem] at hx
    by_cases hl : l = so
    · subst hl
      rw [update_self] at hx
      exact ⟨mem_of_mem_erase hx, fun heq => by
        rw [heq, (hQ.nodup _).mem_erase_iff] at hx
        exact hx.1 rfl⟩
    · have ha : (l, Soq.soQ) ≠ (so, .soQ) := fun ha => hl (congrArg Prod.fst ha)
      rw [update_of_ne ha] at hx
      refine ⟨hx, fun heq => ha ?_⟩
      exact hQ.unique (heq ▸ hx) hmem
  rw [← h.head l x hold.1]
  by_cases hxso : x = so
  · rw [hxso, dequeueAccept_sock_head hne]
  · rw [dequeueAccept_sock_of_ne hxso hold.2]

theorem sonewconn_sock (k : SocketStack) (hne : so2 ≠ so) (l : SocketPtr) :
    ((k.sonewconn so so2).sock l).queue =
      (if l = so then (k.sock so).queue ++ [so2] else if l = so2 then [] else (k.sock l).queue) ∧
    ((k.sonewconn so so2).sock l).head = if l = so2 then some so else (k.sock l).head := by
  have hcore := (touches_sowakeup ((k.soget so2 { k.sock so with
      live := true, acceptConn := false, noFdRef := true, connected := true, soError := false,
      aborting := false, sndSpace := true, pcb := some (.tcp .closed), head := some so, queue := [],
      upcall2 := false, glueingBlock := none, present := fun _ => false }).modify so
      fun t => { t with queue := t.queue ++ [so2] }) so).core_eq l
  have hqueue : ((k.sonewconn so so2).sock l).queue = _ := congrArg SocketCore.queue hcore
  have hhead : ((k.sonewconn so so2).sock l).head = _ := congrArg SocketCore.head hcore
  rw [hqueue, hhead]
  by_cases hl : l = so
  · subst hl
    simp [Socket.core, SocketStack.soget, SocketStack.modify, hne.symm]
  · by_cases hl2 : l = so2
    · subst hl2
      simp [Socket.core, SocketStack.soget, SocketStack.modify, hne]
    · simp [Socket.core, SocketStack.soget, SocketStack.modify, hl, hl2]

theorem Refines.sonewconn (h : Refines Q k) (hQ : Q.Consistent) (hout : Q.soOnq so2 = none)
    (hnil : ∀ q, Q.soq (so2, q) = []) (hne : so2 ≠ so) :
    Refines ((Q.soget so2).soqinsque so so2 .soQ) (k.sonewconn so so2) := by
  have hsoq l : ((Q.soget so2).soqinsque so so2 .soQ).soq (l, .soQ) =
      if l = so then Q.soq (so, .soQ) ++ [so2] else Q.soq (l, .soQ) := by
    by_cases hl : l = so
    · subst hl
      simp [soqinsque, soget, hne.symm]
    · by_cases hl2 : l = so2
      · subst hl2
        simp [soqinsque, soget, hne, hnil]
      · simp [soqinsque, soget, hl, hl2]
  refine ⟨fun l => ?_, fun l x hx => ?_⟩
  · rw [(sonewconn_sock k hne l).1, hsoq, h.queue so, h.queue l]
    by_cases hl2 : l = so2
    · simp [hl2, hne, hnil]
    · simp [hl2]
  · rw [hsoq] at hx
    rw [(sonewconn_sock k hne x).2]
    by_cases hx2 : x = so2
    · rw [if_pos hx2]
      by_cases hl : l = so
      · rw [hl]
      · rw [if_neg hl, hx2] at hx
        exact absurd hx (hQ.notMem hout _)
    · rw [if_neg hx2]
      by_cases hl : l = so
      · rw [if_pos hl] at hx
        rw [hl]
        rcases mem_append.mp hx with hold | hnew
        · exact h.head so x hold
        · exact absurd (mem_singleton.mp hnew) hx2
      · rw [if_neg hl] at hx
        exact h.head l x hx

/-- The accept queues of the stack are the queues `so_q`, with what `soqinsque` and `soqremque` do
to them. -/
theorem accept_queue_refines (h : Refines Q k) (hQ : Q.Consistent) (hne : so2 ≠ so) :
    (Q.soOnq so2 = none → (∀ q, Q.soq (so2, q) = []) →
      Refines ((Q.soget so2).soqinsque so so2 .soQ) (k.sonewconn so so2)) ∧
    (so2 ∈ Q.soq (so, .soQ) → Refines (Q.soqremque so2 .soQ).1 (k.dequeueAccept so so2)) :=
  ⟨fun hout hnil => h.sonewconn hQ hout hnil hne, fun hmem => h.soqremque hQ hmem hne⟩

def twoOnQueue : SocketQueues :=
  (((empty.soget 2).soqinsque 1 2 .soQ).soget 3).soqinsque 1 3 .soQ

def twoOnStack : SocketStack := (SocketStack.start.sonewconn 1 2).sonewconn 1 3

theorem accept_queue_refines_two : (twoOnStack.sock 1).queue = [2, 3] ∧
    Refines (twoOnQueue.soqremque 2 .soQ).1 (twoOnStack.dequeueAccept 1 2) := by
  have hc : ((empty.soget 2).soqinsque 1 2 .soQ).Consistent :=
    (consistent_empty.soget rfl fun _ => rfl).soqinsque rfl
  have hc2 : twoOnQueue.Consistent := (hc.soget rfl fun _ => rfl).soqinsque rfl
  have h : Refines ((empty.soget 2).soqinsque 1 2 .soQ) (SocketStack.start.sonewconn 1 2) :=
    (accept_queue_refines ⟨fun _ => rfl, by simp [empty]⟩ consistent_empty (by decide)).1 rfl
      fun _ => rfl
  have h2 : Refines twoOnQueue twoOnStack :=
    (accept_queue_refines h hc (by decide)).1 rfl fun _ => rfl
  exact ⟨rfl, (accept_queue_refines h2 hc2 (by decide)).2 (by decide)⟩

end SocketQueues

end NetbsdDpdk
