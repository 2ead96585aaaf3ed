import NetbsdDpdk.AcceptQueue

/-! Sockets and slots point at each other. A socket in use that has a slot is the socket of that
slot, and the accounting hooks find the slot set up for it. This lasts as long as a close frees the
socket that it takes off the slot. -/

namespace NetbsdDpdk

open SocketStack

structure Linked (s : SocketStack) : Prop where
  slot : ∀ so i, (s.sock so).live = true → (s.sock so).glueingBlock = some i →
    (s.sat i).socket = some so
  back : ∀ i so, (s.sat i).socket = some so → (s.sock so).live = true ∧
    (s.sock so).noFdRef = false ∧ (s.sock so).glueingBlock = some i ∧ (s.sat i).ringsetIdx = some i
  hooks : ∀ h ∈ s.hooks, h.ringsetIdx = some h.slot ∧ h.socket = some h.so

namespace Linked

variable {s t : SocketStack} {so so2 : SocketPtr} {i : Slot} {f : Socket → Socket}

theorem hook (h : Linked s) {call : HookCall} (hcall : s.CalledFor so call) :
    call.ringsetIdx = some call.slot ∧ call.socket = some call.so := by
  obtain ⟨hlive, hglue, heq⟩ := hcall
  have hsat := h.slot so call.slot hlive hglue
  have hidx := (h.back call.slot so hsat).2.2.2
  rw [heq]
  exact ⟨hidx, hsat⟩

theorem touches (h : Linked s) (ht : Touches so s t) : Linked t := by
  have hglue so' : (t.sock so').glueingBlock = (s.sock so').glueingBlock :=
    congrArg SocketCore.glueingBlock (ht.core_eq so')
  have hno so' : (t.sock so').noFdRef = (s.sock so').noFdRef :=
    congrArg SocketCore.noFdRef (ht.core_eq so')
  refine ⟨fun so' i hlive hi => ?_, fun i so' hsat => ?_, fun call hmem => ?_⟩
  · rw [ht.sat]
    rw [hglue] at hi
    by_cases heq : so' = so
    · subst heq
      exact h.slot so' i (ht.live_of_live hlive) hi
    · rw [ht.other so' heq] at hlive
      exact h.slot so' i hlive hi
  · rw [ht.sat] at hsat ⊢
    obtain ⟨hlive, href, hi, hidx⟩ := h.back i so' hsat
    refine ⟨?_, (hno so').trans href, (hglue so').trans hi, hidx⟩
    by_cases heq : so' = so
    · subst heq
      rcases ht.live with hsame | ⟨-, hnoref, -⟩
      · rw [hsame, hlive]
      · simp [href] at hnoref
    · rw [ht.other so' heq, hlive]
  · rcases ht.hooks call hmem with hold | hcall
    · exact h.hooks call hold
    · exact h.hook hcall

theorem modify (h : Linked s) (hout : ∀ i, (s.sat i).socket ≠ some so)
    (hglue : (f (s.sock so)).glueingBlock = none) : Linked (s.modify so f) := by
  refine ⟨fun so' i hlive hi => ?_, fun i so' hsat => ?_, h.hooks⟩
  · by_cases heq : so' = so
    · rw [heq, modify_sock_self, hglue] at hi
      simp at hi
    · rw [modify_sock_of_ne _ _ heq] at hlive hi
      exact h.slot so' i hlive hi
  · have heq : so' ≠ so := fun heq => hout i (heq ▸ hsat)
    rw [modify_sock_of_ne _ _ heq]
    exact h.back i so' hsat

theorem modify_queue (h : Linked s) (queue : List SocketPtr → List SocketPtr) :
    Linked (s.modify so fun t => { t with queue := queue t.queue }) := by
  have hkept so' :
      ((s.modify so fun t => { t with queue := queue t.queue }).sock so').live =
        (s.sock so').live ∧
      ((s.modify so fun t => { t with queue := queue t.queue }).sock so').noFdRef =
        (s.sock so').noFdRef ∧
      ((s.modify so fun t => { t with queue := queue t.queue }).sock so').glueingBlock =
        (s.sock so').glueingBlock := by
    by_cases heq : so' = so
    · rw [heq, modify_sock_self]
      exact ⟨rfl, rfl, rfl⟩
    · rw [modify_sock_of_ne _ _ heq]
      exact ⟨rfl, rfl, rfl⟩
  refine ⟨fun so' i hlive hi => ?_, fun i so' hsat => ?_, h.hooks⟩
  · exact h.slot so' i ((hkept so').1 ▸ hlive) ((hkept so').2.2 ▸ hi)
  · obtain ⟨hlive, href, hi, hidx⟩ := h.back i so' hsat
    exact ⟨(hkept so').1.trans hlive, (hkept so').2.1.trans href, (hkept so').2.2.trans hi, hidx⟩

theorem ne_of_dead (h : Linked s) (hdead : (s.sock so).live = false) (i : Slot) :
    (s.sat i).socket ≠ some so := by
  intro hsat
  have hlive := (h.back i so hsat).1
  simp [hdead] at hlive

theorem ne_of_unlinked (h : Linked s) (hglue : (s.sock so).glueingBlock = none) (i : Slot) :
    (s.sat i).socket ≠ some so := by
  intro hsat
  have hi := (h.back i so hsat).2.2.1
  simp [hglue] at hi

theorem ne_of_queued (h : Linked s) (hq : Queues s) (hmem : so2 ∈ (s.sock so).queue) (i : Slot) :
    (s.sat i).socket ≠ some so2 := by
  intro hsat
  have href := (h.back i so2 hsat).2.1
  simp [(hq.queued so so2 hmem).2.2.1] at href

theorem glue_of_queued (h : Linked s) (hq : Queues s) (hmem : so2 ∈ (s.sock so).queue) :
    (s.sock so2).glueingBlock = none := by
  cases hglue : (s.sock so2).glueingBlock with
  | none => rfl
  | some i => exact absurd (h.slot so2 i (hq.queued so so2 hmem).1 hglue) (h.ne_of_queued hq hmem i)

theorem dequeueAccept (h : Linked s) (hq : Queues s) (hmem : so2 ∈ (s.sock so).queue) :
    Linked (s.dequeueAccept so so2) := by
  apply (h.modify_queue fun queue => queue.erase so2).modify (h.ne_of_queued hq hmem)
  rw [modify_sock_of_ne _ _ (hq.ne_of_mem hmem)]
  exact h.glue_of_queued hq hmem

theorem accept (h : Linked s) (hq : Queues s) (hmem : so2 ∈ (s.sock so).queue) (up : Bool) :
    Linked ((s.dequeueAccept so so2).modify so2 fun t =>
      { t with noFdRef := false, upcall2 := up }) := by
  apply (h.dequeueAccept hq hmem).modify (h.ne_of_queued hq hmem)
  rw [dequeueAccept_sock_self (hq.ne_of_mem hmem)]
  exact h.glue_of_queued hq hmem

theorem abort (h : Linked s) (hq : Queues s) (hmem : so2 ∈ (s.sock so).queue) :
    Linked ((s.dequeueAccept so so2).soabort so2) :=
  (h.dequeueAccept hq hmem).touches
    (touches_soabort ((hq.dequeueAccept hmem).idle so2))

theorem setSat (h : Linked s) {sat : Satellite} (hsocket : sat.socket = (s.sat i).socket)
    (hidx : sat.ringsetIdx = (s.sat i).ringsetIdx) : Linked (s.setSat i sat) := by
  have hkept j : ((s.setSat i sat).sat j).socket = (s.sat j).socket ∧
      ((s.setSat i sat).sat j).ringsetIdx = (s.sat j).ringsetIdx := by
    by_cases hj : j = i
    · simp [hj, SocketStack.setSat, hsocket, hidx]
    · simp [hj, SocketStack.setSat]
  refine ⟨fun so j hlive hj => (hkept j).1.trans (h.slot so j hlive hj), fun j so hsat => ?_,
    h.hooks⟩
  rw [(hkept j).1] at hsat
  rw [(hkept j).2]
  exact h.back j so hsat

theorem link (h : Linked s) (hsat : (s.sat i).socket = none) (hlive : (s.sock so).live = true)
    (href : (s.sock so).noFdRef = false) (hglue : (s.sock so).glueingBlock = none)
    (parent : Option Selector) (pid : Nat) : Linked (s.link i parent pid so) := by
  apply Linked.touches _ (touches_reflect _ so)
  refine ⟨fun so' j hlive' hj => ?_, fun j so' hsat' => ?_, h.hooks⟩
  · by_cases heq : so' = so
    · subst heq
      rw [modify_sock_self] at hj
      cases hj
      simp [SocketStack.setSat]
    · rw [modify_sock_of_ne _ _ heq] at hlive' hj
      have hold := h.slot so' j hlive' hj
      have hne : j ≠ i := by
        rintro rfl
        simp [hsat] at hold
      simpa [SocketStack.setSat, hne] using hold
  · by_cases hj : j = i
    · subst hj
      obtain rfl : so = so' := by simpa [SocketStack.setSat] using hsat'
      rw [modify_sock_self]
      exact ⟨hlive, href, rfl, by simp [SocketStack.setSat]⟩
    · have hold : (s.sat j).socket = some so' := by simpa [SocketStack.setSat, hj] using hsat'
      have heq : so' ≠ so := fun heq => h.ne_of_unlinked hglue j (heq ▸ hold)
      rw [modify_sock_of_ne _ _ heq]
      simpa [SocketStack.setSat, hj] using h.back j so' hold

theorem before_discard (h : Linked s) (hq : Queues s) (ht : s.closeSocket so = some t) :
    ∃ u, Queues u ∧ Linked u ∧ u.sat = s.sat ∧
      (u.sock so).glueingBlock = (s.sock so).glueingBlock ∧ u.discard so = some t ∧
      ((s.sock so).closeFrees = true ↔ (u.sock so).pcb = none) := by
  obtain ⟨I, hI⟩ : ∃ I : SocketStack → Prop, ∀ u, I u ↔ Queues u ∧ Linked u ∧ u.sat = s.sat ∧
      (u.sock so).glueingBlock = (s.sock so).glueingBlock ∧
      (u.sock so).control = (s.sock so).control := ⟨_, fun _ => Iff.rfl⟩
  have hunlink v k (hv : I v) : I (v.unlink k so) := by
    obtain ⟨hq, hl, hsat, hglue, hcontrol⟩ := (hI v).mp hv
    have htouch := touches_unlink v k so
    exact (hI _).mpr ⟨hq.touches htouch, hl.touches htouch, htouch.sat.trans hsat,
      htouch.glueingBlock.trans hglue, (unlink_control v k so).trans hcontrol⟩
  have horphan v so2 (hv : I v) (hmem : so2 ∈ (v.sock so).queue) :
      I ((v.dequeueAccept so so2).modify so2 fun t =>
        { t with noFdRef := false, upcall2 := false }) := by
    obtain ⟨hq, hl, hsat, hglue, hcontrol⟩ := (hI v).mp hv
    have hne := hq.ne_of_mem hmem
    refine (hI _).mpr ⟨hq.accept hmem false, hl.accept hq hmem false, hsat, ?_, ?_⟩
    all_goals rw [modify_sock_of_ne _ _ hne.symm, dequeueAccept_sock_head hne]
    · exact hglue
    · exact hcontrol
  have habort v so2 (hv : I v) (hmem : so2 ∈ (v.sock so).queue) :
      I ((v.dequeueAccept so so2).soabort so2) := by
    obtain ⟨hq, hl, hsat, hglue, hcontrol⟩ := (hI v).mp hv
    have hne := hq.ne_of_mem hmem
    have htouch := touches_soabort ((hq.dequeueAccept hmem).idle so2)
    refine (hI _).mpr ⟨hq.abort hmem, hl.abort hq hmem, htouch.sat.trans hsat, ?_, ?_⟩
    all_goals rw [htouch.other so hne.symm, dequeueAccept_sock_head hne]
    · exact hglue
    · exact hcontrol
  obtain ⟨v, hv, hclose⟩ := closeSocket_rule (fun v hv => ((hI v).mp hv).1) hunlink
    horphan habort ((hI s).mpr ⟨hq, h, rfl, rfl, rfl⟩) ht
  obtain ⟨hqv, hlv, hsat, hglue, hcontrol⟩ := (hI v).mp hv
  obtain ⟨u, hu, hdiscard, hpcb⟩ := socloseSelf_cases hclose
  have htouch : Touches so v u := touches_of_closing hu
  rw [Socket.closeFrees_congr hcontrol] at hpcb
  exact ⟨u, hqv.touches htouch, hlv.touches htouch, htouch.sat.trans hsat,
    htouch.glueingBlock.trans hglue, hdiscard, hpcb⟩

theorem decline (h : Linked s) (hq : Queues s) (hglue : (s.sock so).glueingBlock = none)
    (ht : s.closeSocket so = some t) : Linked t := by
  obtain ⟨u, -, hu, -, hglue', hdiscard, -⟩ := h.before_discard hq ht
  rw [hglue] at hglue'
  obtain ⟨-, rfl⟩ := discard_eq_some.mp hdiscard
  have hmod : Linked (u.modify so fun t => { t with noFdRef := true }) :=
    hu.modify (hu.ne_of_unlinked hglue') hglue'
  exact hmod.touches (touches_sofree _ so)

theorem close (h : Linked s) (hq : Queues s)
    (hfrees : (s.sat i).socket.all (fun so => (s.sock so).closeFrees) = true)
    (ht : s.close i = some t) : Linked t := by
  -- CLOSE takes the socket off its slot, and the socket is gone with it
  unfold SocketStack.close at ht
  split at ht
  · cases ht
    exact h
  · next so hsat =>
    rw [hsat] at hfrees
    obtain ⟨v, hclose, rfl⟩ := looked_eq_some.mp ht
    obtain ⟨u, hqu, hu, hsatu, -, hdiscard, hpcb⟩ := h.before_discard hq hclose
    obtain ⟨href, rfl⟩ := discard_eq_some.mp hdiscard
    have htouch := touches_sofree (u.modify so fun t => { t with noFdRef := true }) so
    have hdead :
        (((u.modify so fun t => { t with noFdRef := true }).sofree so).sock so).live = false := by
      apply sofree_dead
      all_goals rw [modify_sock_self]
      · exact hpcb.mp hfrees
      · exact hqu.referenced so href
      · exact hqu.idle so
    have hsat' : (u.sat i).socket = some so := hsatu ▸ hsat
    have hother {so' : SocketPtr} (hne : so' ≠ so) :
        ((u.modify so fun t => { t with noFdRef := true }).sofree so).sock so' = u.sock so' := by
      rw [htouch.other so' hne, modify_sock_of_ne _ _ hne]
    refine ⟨fun so' j hlive hj => ?_, fun j so' hj => ?_, fun call hmem => ?_⟩
    · have hne : so' ≠ so := by
        rintro rfl
        simp [SocketStack.setSat, hdead] at hlive
      have hold := hu.slot so' j (hother hne ▸ hlive) (hother hne ▸ hj)
      have hji : j ≠ i := by
        rintro rfl
        rw [hsat', Option.some.injEq] at hold
        exact hne hold.symm
      simpa [SocketStack.setSat, hji, htouch.sat] using hold
    · have hji : j ≠ i := by
        rintro rfl
        simp [SocketStack.setSat] at hj
      have hold : (u.sat j).socket = some so' := by
        simpa [SocketStack.setSat, hji, htouch.sat] using hj
      have hback := hu.back j so' hold
      have hne : so' ≠ so := by
        rintro rfl
        have hi := (hu.back i so' hsat').2.2.1
        rw [hback.2.2.1, Option.some.injEq] at hi
        exact hji hi
      simpa [SocketStack.setSat, hji, htouch.sat, hother hne] using hback
    · rcases htouch.hooks call hmem with hold | ⟨hlive, hglue, heq⟩
      · exact hu.hooks call hold
      · rw [modify_sock_self] at hlive hglue
        exact hu.hook ⟨hlive, hglue, heq⟩

theorem processAccept (h : Linked s) (hq : Queues s) (ht : s.processFirst .accept = some t) :
    Linked t := by
  simp only [processFirst, Option.bind_eq_bind, Option.bind_eq_some_iff,
    Option.pure_def, Option.some.injEq] at ht
  obtain ⟨so, -, u, haccept, rfl⟩ := ht
  have hu : Queues u ∧ Linked u :=
    userOnAccept_rule (I := fun u => Queues u ∧ Linked u) (fun _ hv => hv.1)
      (fun _ _ hv hmem => ⟨hv.1.accept hmem true, hv.2.accept hv.1 hmem true⟩) ⟨hq, h⟩ rfl haccept
  exact hu.2.touches (touches_unlink u .accept so)

theorem sonewconn (h : Linked s) (hdead : (s.sock so2).live = false) :
    Linked (s.sonewconn so so2) := by
  apply Linked.touches _ (touches_sowakeup _ so)
  apply modify_queue _ fun queue => queue ++ [so2]
  exact h.modify (h.ne_of_dead hdead) rfl

end Linked

/-- An OPEN or SET_SOCKET_RING names a slot without a socket and, for the latter, an accepted
connection without a slot; a CLOSE frees the socket; a DECLINE names a socket without a slot. -/
def LinkSafe (s : SocketStack) : StackAction → Prop
  | .openSocket i _ _ _ _ => (s.sat i).socket = none
  | .setSocketRing i _ _ so => (s.sat i).socket = none ∧ (s.sock so).live = true ∧
      (s.sock so).noFdRef = false ∧ (s.sock so).glueingBlock = none
  | .close i => (s.sat i).socket.all (fun so => (s.sock so).closeFrees) = true
  | .decline so => (s.sock so).glueingBlock = none
  | _ => True

instance (s : SocketStack) (a : StackAction) : Decidable (LinkSafe s a) := by
  rcases a <;> unfold LinkSafe <;> infer_instance

theorem stackStep_linked {s t : SocketStack} {a : StackAction} (h : Linked s) (hq : Queues s)
    (hok : LinkSafe s a) (ht : stackStep s a = some t) : Linked t := by
  by_cases ha : a.isPlain = true
  · obtain ⟨so, htouch⟩ := stackStep_touches ha ht
    exact h.touches htouch
  · cases a with
    | openSocket i parent type pid so =>
      obtain ⟨hdead, rfl⟩ := guarded_eq_some.mp ht
      apply Linked.link (h.modify (h.ne_of_dead hdead) rfl) hok
      all_goals rw [modify_sock_self]
    | setSocketRing i parent pid so =>
      obtain ⟨hsat, hlive, href, hglue⟩ := hok
      cases ht
      exact (h.link hsat hlive href hglue _ pid).touches (touches_reflect _ so)
    | setSocketSelect i parent pid =>
      obtain ⟨so, -, rfl⟩ := looked_eq_some.mp ht
      apply Linked.touches _ (touches_reflect _ so)
      exact h.setSat rfl rfl
    | close i => exact h.close hq hok ht
    | decline so => exact h.decline hq hok ht
    | process k =>
      cases k with
      | accept => exact h.processAccept hq ht
      | read | write | closed | waiter => exact absurd rfl ha
    | newconn so so2 =>
      obtain ⟨⟨-, -, hdead⟩, rfl⟩ := guarded_eq_some.mp ht
      exact h.sonewconn hdead
    | abort so so2 =>
      obtain ⟨⟨-, hmem⟩, rfl⟩ := guarded_eq_some.mp ht
      exact h.abort hq hmem
    | listen | txPoolEmpty | shutdown | kick | linger | connecting | connected | disconnected
    | tcpState | tcpClose | tcpDrop | buffers | data => exact absurd rfl ha

/-- Every socket in use that has a slot is the socket of that slot, and so was every one that an
accounting hook was called for. -/
def LinksHold (s : SocketStack) : Prop :=
  (∀ so i, (s.sock so).live = true → (s.sock so).glueingBlock = some i →
    (s.sat i).socket = some so ∧ (s.sat i).ringsetIdx = some i) ∧
  ∀ h ∈ s.hooks, h.ringsetIdx = some h.slot ∧ h.socket = some h.so

/-- Under `LinkSafe` sockets and slots refer to each other, and so they did at every hook. -/
theorem linksHold_of_run {as : List StackAction} {s : SocketStack}
    (hrun : Run stackStep LinkSafe SocketStack.start as s) : LinksHold s := by
  have hinv : Queues s ∧ Linked s :=
    hrun.invariant (I := fun s => Queues s ∧ Linked s)
      (fun _ _ _ h hok hstep => ⟨h.1.step hstep, stackStep_linked h.2 h.1 hok hstep⟩)
      ⟨Queues.start, ⟨by simp [start], by simp [start],
        by simp [start]⟩⟩
  refine ⟨fun so i hlive hglue => ?_, hinv.2.hooks⟩
  have hsat := hinv.2.slot so i hlive hglue
  exact ⟨hsat, (hinv.2.back i so hsat).2.2.2⟩

def reopened : List StackAction :=
  [.openSocket 0 none .dgram 7 1, .kick 0, .close 0, .openSocket 0 none .stream 8 2, .data 2]

theorem linksHold_of_run_reopened :
    ∃ s, Run stackStep LinkSafe SocketStack.start reopened s ∧ s.hooks.length = 6 ∧
      LinksHold s :=
  Run.exists_and_of_runActions (by decide +kernel) fun _ hrun _ => linksHold_of_run hrun

def lingering : List StackAction :=
  [.openSocket 0 none .stream 7 1, .connecting 1, .tcpState 1 .established, .connected 1,
    .close 0, .data 1, .openSocket 0 none .dgram 8 2, .data 1]

theorem lingering_breaks_link :
    ∃ s, Run stackStep (fun _ _ => True) SocketStack.start lingering s ∧
      ((∃ h ∈ s.hooks, h.so = 1 ∧ h.ringsetIdx = none) ∧
        (∃ h ∈ s.hooks, h.so = 1 ∧ h.socket = some 2) ∧ (s.sock 1).live = true ∧
        (s.sock 1).glueingBlock = some 0 ∧ (s.sat 0).socket = some 2) ∧ ¬ LinksHold s := by
  refine Run.exists_and_of_runActions (by decide +kernel) fun s _ hs hlinks => ?_
  obtain ⟨-, -, hlive, hglue, hsat⟩ := hs
  have hlinked := (hlinks.1 1 0 hlive hglue).1
  simp [hsat] at hlinked

end NetbsdDpdk
