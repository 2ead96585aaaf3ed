import NetbsdDpdk.AcceptQueue

/-! The five lists of the glue. A socket is on a list exactly when its flag says so, once, and only
while it is in use. Every socket with an upcall that goes back to the pool breaks this: the wakeup
inside `sofree` puts it on a list just before. -/

namespace NetbsdDpdk

open Option

open SocketStack

structure Ready (s : SocketStack) : Prop where
  listed : ∀ k so, so ∈ s.lists k ↔ (s.sock so).present k = true
  nodup : ∀ k, (s.lists k).Nodup
  live : ∀ so k, (s.sock so).present k = true →
    (s.sock so).live = true ∧ (s.sock so).upcall2 = true
  slots : ∀ i so, (s.sat i).socket = some so → (s.sock so).live = true ∧
    (s.sock so).upcall2 = true ∧ (s.sock so).glueingBlock = some i
  waiter : ∀ so i so', (s.sock so).present .waiter = true →
    (s.sock so).glueingBlock = some i → (s.sat i).socket = some so' → so' = so

def Socket.Kept (t : Socket) : Prop :=
  t.upcall2 = true → t.live = true ∧ (t.noFdRef = false ∨ t.head ≠ none)

def TcpState.usrclosedCloses : TcpState → Bool
  | .closed | .listen | .synSent => true
  | _ => false

theorem Socket.Kept.touches {s t : SocketStack} {so : SocketPtr} (h : (s.sock so).Kept)
    (ht : Touches so s t) : (t.sock so).Kept := by
  intro hup
  rw [ht.upcall2] at hup
  obtain ⟨hlive, hheld⟩ := h hup
  refine ⟨?_, by rwa [ht.noFdRef, ht.head]⟩
  rcases ht.live with hsame | ⟨-, hno, hhead⟩
  · rw [hsame, hlive]
  · rcases hheld with href | hhead'
    · simp [href] at hno
    · exact absurd hhead hhead'

namespace SocketStack

theorem insert_live (s : SocketStack) (k : ReadyList) (so : SocketPtr) :
    ((s.insert k so).sock so).live = (s.sock so).live := by
  unfold insert
  split
  · rfl
  · simp [setPresent]

theorem sockReadable_live (s : SocketStack) (so : SocketPtr) :
    ((s.sockReadable so).sock so).live = (s.sock so).live := by
  simp only [sockReadable]
  split
  · exact insert_live s _ so
  · split <;> first | rfl | exact insert_live s _ so

theorem sockWriteSpace_live (s : SocketStack) (so : SocketPtr) :
    ((s.sockWriteSpace so).sock so).live = (s.sock so).live := by
  simp only [sockWriteSpace]
  repeat' split
  all_goals first | rfl | exact insert_live s _ so

theorem sowakeup_live (s : SocketStack) (so : SocketPtr) :
    ((s.sowakeup so).sock so).live = (s.sock so).live := by
  unfold sowakeup
  split
  · rw [sockWriteSpace_live, sockReadable_live]
  · rfl

end SocketStack

namespace Ready

variable {s t : SocketStack} {so so2 : SocketPtr} {i : Slot} {k : ReadyList} {f : Socket → Socket}

theorem modify (h : Ready s) (hpresent : (f (s.sock so)).present = (s.sock so).present)
    (hglue : (f (s.sock so)).glueingBlock = (s.sock so).glueingBlock)
    (hlive : (s.sock so).upcall2 = true → (s.sock so).live = true →
      (f (s.sock so)).live = true ∧ (f (s.sock so)).upcall2 = true) : Ready (s.modify so f) := by
  have hp so' : ((s.modify so f).sock so').present = (s.sock so').present := by
    by_cases heq : so' = so
    · rw [heq, modify_sock_self, hpresent]
    · rw [modify_sock_of_ne _ _ heq]
  have hg so' : ((s.modify so f).sock so').glueingBlock = (s.sock so').glueingBlock := by
    by_cases heq : so' = so
    · rw [heq, modify_sock_self, hglue]
    · rw [modify_sock_of_ne _ _ heq]
  have hl so' (hlv : (s.sock so').live = true) (hup : (s.sock so').upcall2 = true) :
      ((s.modify so f).sock so').live = true ∧ ((s.modify so f).sock so').upcall2 = true := by
    by_cases heq : so' = so
    · subst heq
      rw [modify_sock_self]
      exact hlive hup hlv
    · rw [modify_sock_of_ne _ _ heq]
      exact ⟨hlv, hup⟩
  refine ⟨fun k so' => hp so' ▸ h.listed k so', h.nodup, fun so' k hk => ?_, fun i so' hsat => ?_,
    fun so' i so'' hk hi hsat => ?_⟩
  · obtain ⟨hlv, hup⟩ := h.live so' k (hp so' ▸ hk)
    exact hl so' hlv hup
  · obtain ⟨hlv, hup, hi⟩ := h.slots i so' hsat
    obtain ⟨hlv', hup'⟩ := hl so' hlv hup
    exact ⟨hlv', hup', (hg so').trans hi⟩
  · exact h.waiter so' i so'' (hp so' ▸ hk) (hg so' ▸ hi) hsat

theorem of_eq (h : Ready s) (hsock : t.sock = s.sock) (hlists : t.lists = s.lists)
    (hsat : t.sat = s.sat) : Ready t := by
  obtain ⟨sock, lists, sat, hooks⟩ := t
  obtain rfl : sock = s.sock := hsock
  obtain rfl : lists = s.lists := hlists
  obtain rfl : sat = s.sat := hsat
  exact ⟨h.listed, h.nodup, h.live, h.slots, h.waiter⟩

theorem reflect (h : Ready s) (so : SocketPtr) : Ready (s.reflect so) := by
  unfold SocketStack.reflect
  split
  · exact h.of_eq rfl rfl rfl
  · exact h

theorem notMem_of_dead (h : Ready s) (hdead : (s.sock so).live = false) (k : ReadyList) :
    (s.sock so).present k = false := by
  cases hk : (s.sock so).present k with
  | false => rfl
  | true =>
    have hlive := (h.live so k hk).1
    simp [hdead] at hlive

theorem setList (h : Ready s) {b : Bool} {l : List SocketPtr} (hnodup : l.Nodup)
    (hself : so ∈ l ↔ b = true) (hother : ∀ so' ≠ so, (so' ∈ l ↔ so' ∈ s.lists k))
    (hlive : b = true → (s.sock so).live = true ∧ (s.sock so).upcall2 = true)
    (hwaiter : b = true → k = .waiter → ∃ i, (s.sat i).socket = some so) :
    Ready { s.setPresent k so b with
      lists := Function.update (s.setPresent k so b).lists k l } := by
  have hsock {so' : SocketPtr} (hne : so' ≠ so) : (s.setPresent k so b).sock so' = s.sock so' :=
    modify_sock_of_ne _ _ hne
  have hpresent : ((s.setPresent k so b).sock so).present =
      Function.update (s.sock so).present k b := by
    simp [setPresent]
  have hcore so' : ((s.setPresent k so b).sock so').core = (s.sock so').core ∧
      ((s.setPresent k so b).sock so').live = (s.sock so').live := by
    by_cases heq : so' = so
    · simp [heq, setPresent, Socket.core]
    · rw [hsock heq]
      exact ⟨rfl, rfl⟩
  have hup so' : ((s.setPresent k so b).sock so').upcall2 = (s.sock so').upcall2 :=
    congrArg SocketCore.upcall2 (hcore so').1
  have hglue so' : ((s.setPresent k so b).sock so').glueingBlock = (s.sock so').glueingBlock :=
    congrArg SocketCore.glueingBlock (hcore so').1
  refine ⟨fun j so' => ?_, fun j => ?_, fun so' j hj => ?_, fun i so' hsat => ?_,
    fun so' i so'' hk hi hsat => ?_⟩
  · by_cases hj : j = k
    · subst hj
      by_cases heq : so' = so
      · subst heq
        simpa [hpresent] using hself
      · simpa [hsock heq] using (hother so' heq).trans (h.listed j so')
    · by_cases heq : so' = so
      · subst heq
        simpa [hpresent, hj] using h.listed j so'
      · simpa [hsock heq, hj] using h.listed j so'
  · by_cases hj : j = k
    · subst hj
      simpa using hnodup
    · simpa [hj] using h.nodup j
  · dsimp only at hj ⊢
    rw [(hcore so').2, hup so']
    by_cases heq : so' = so
    · subst heq
      rw [hpresent] at hj
      by_cases hjk : j = k
      · subst hjk
        exact hlive (by simpa using hj)
      · exact h.live so' j (by simpa [hjk] using hj)
    · rw [hsock heq] at hj
      exact h.live so' j hj
  · dsimp only
    rw [(hcore so').2, hup so', hglue so']
    exact h.slots i so' hsat
  · dsimp only at hk hi
    rw [hglue so'] at hi
    by_cases heq : so' = so
    · subst heq
      rw [hpresent] at hk
      by_cases hkw : k = .waiter
      · subst hkw
        -- the socket of a slot points back to it
        obtain ⟨j, hj⟩ := hwaiter (by simpa using hk) rfl
        have hij : j = i := Option.some.inj ((h.slots j so' hj).2.2.symm.trans hi)
        subst hij
        exact Option.some.inj (hsat.symm.trans hj)
      · exact h.waiter so' i so'' (by simpa [Ne.symm hkw] using hk) hi hsat
    · rw [hsock heq] at hk
      exact h.waiter so' i so'' hk hi hsat

theorem insert (h : Ready s) (hlive : (s.sock so).live = true)
    (hup : (s.sock so).upcall2 = true) (hwaiter : k = .waiter → ∃ i, (s.sat i).socket = some so) :
    Ready (s.insert k so) := by
  unfold SocketStack.insert
  split
  · exact h
  · next hnot =>
    have hout : so ∉ s.lists k := fun hmem => hnot ((h.listed k so).mp hmem)
    apply h.setList
    · rw [← List.concat_eq_append]
      exact (h.nodup k).concat hout
    · simp
    · intro so' hne
      show so' ∈ s.lists k ++ [so] ↔ so' ∈ s.lists k
      simp [hne]
    · exact fun _ => ⟨hlive, hup⟩
    · exact fun _ => hwaiter

theorem unlink (h : Ready s) (k : ReadyList) (so : SocketPtr) : Ready (s.unlink k so) := by
  apply h.setList
  · exact (h.nodup k).erase so
  · simpa using (h.nodup k).not_mem_erase
  · intro so' hne
    exact List.mem_erase_of_ne hne
  · simp
  · simp

theorem sockReadable (h : Ready s) (hlive : (s.sock so).live = true)
    (hup : (s.sock so).upcall2 = true) : Ready (s.sockReadable so) := by
  simp only [SocketStack.sockReadable]
  split
  · exact h.insert hlive hup (by simp)
  · split
    · exact h.insert hlive hup (by simp)
    · exact h.insert hlive hup (by simp)
    · exact h
    · exact h.insert hlive hup (by simp)

theorem sockWriteSpace (h : Ready s) (hlive : (s.sock so).live = true)
    (hup : (s.sock so).upcall2 = true) : Ready (s.sockWriteSpace so) := by
  have hif : Ready (if (s.sock so).writable then s.insert .write so else s) := by
    split
    · exact h.insert hlive hup (by simp)
    · exact h
  simp only [SocketStack.sockWriteSpace]
  split
  · exact h.insert hlive hup (by simp)
  · split
    · exact hif
    · exact h
    · exact hif

theorem sowakeup (h : Ready s) (hlive : (s.sock so).upcall2 = true → (s.sock so).live = true) :
    Ready (s.sowakeup so) := by
  unfold SocketStack.sowakeup
  split
  · next hup =>
    have htouch := touches_sockReadable s so
    apply (h.sockReadable (hlive hup) hup).sockWriteSpace
    · rw [sockReadable_live, hlive hup]
    · rw [htouch.upcall2, hup]
  · exact h

theorem wakeups (h : Ready s) (hlive : (s.sock so).upcall2 = true → (s.sock so).live = true) :
    Ready ((s.sowakeup so).sowakeup so) := by
  apply (h.sowakeup hlive).sowakeup
  rw [(touches_sowakeup s so).upcall2, sowakeup_live]
  exact hlive

theorem modify_wakeups (h : Ready s) (hlive : (s.sock so).upcall2 = true → (s.sock so).live = true)
    (hcore : (f (s.sock so)).core = (s.sock so).core)
    (hlive' : (f (s.sock so)).live = (s.sock so).live)
    (hpresent : (f (s.sock so)).present = (s.sock so).present) :
    Ready (((s.modify so f).sowakeup so).sowakeup so) := by
  have hup : (f (s.sock so)).upcall2 = (s.sock so).upcall2 := congrArg SocketCore.upcall2 hcore
  have hglue : (f (s.sock so)).glueingBlock = (s.sock so).glueingBlock :=
    congrArg SocketCore.glueingBlock hcore
  apply (h.modify hpresent hglue fun hu hl => ⟨hlive'.trans hl, hup.trans hu⟩).wakeups
  rw [modify_sock_self, hup, hlive']
  exact hlive

theorem sorflush (h : Ready s) (hlive : (s.sock so).upcall2 = true → (s.sock so).live = true) :
    Ready (s.sorflush so) :=
  (h.sowakeup hlive).reflect so

theorem sofree (h : Ready s) (hkept : (s.sock so).Kept) : Ready (s.sofree so) := by
  -- `sofree` puts back only a socket without an upcall, which is on no list
  have htouch : Touches so s ((s.reflect so).modify so fun t => { t with sndSpace := false }) :=
    (touches_reflect s so).trans (touches_modify _ so _ rfl rfl)
  have hmod : Ready ((s.reflect so).modify so fun t => { t with sndSpace := false }) :=
    (h.reflect so).modify rfl rfl fun hup hlive => ⟨hlive, hup⟩
  have hflush := hmod.sorflush fun hup => (hkept.touches htouch hup).1
  simp only [SocketStack.sofree]
  split
  · exact h
  · next hcond =>
    simp only [Bool.or_eq_true, not_or, Bool.not_eq_true, Bool.not_eq_false',
      isSome_eq_false_iff, isNone_iff_eq_none] at hcond
    obtain ⟨⟨-, hno⟩, hhead⟩ := hcond
    split
    · exact hflush
    · have hquiet : (s.sock so).upcall2 = false := by
        by_contra hup
        rcases (hkept (by simpa using hup)).2 with href | hhead'
        · simp [href] at hno
        · exact hhead' hhead
      apply hflush.modify rfl rfl
      intro hup
      have htouch' := htouch.trans ((touchesRule so).sorflush _)
      rw [htouch'.upcall2, hquiet] at hup
      simp at hup

theorem soisdisconnected (h : Ready s)
    (hlive : (s.sock so).upcall2 = true → (s.sock so).live = true) :
    Ready (s.soisdisconnected so) :=
  h.modify_wakeups hlive rfl rfl rfl

theorem tcpClose (h : Ready s) (hkept : (s.sock so).Kept) : Ready (s.tcpClose so) := by
  have htouch := (touches_soisdisconnected s so).trans
    (touches_modify _ so (fun t => { t with pcb := none }) rfl rfl)
  apply Ready.sofree _ (hkept.touches htouch)
  exact (h.soisdisconnected fun hup => (hkept hup).1).modify rfl rfl fun hup hlive => ⟨hlive, hup⟩

theorem tcpDrop (h : Ready s) (hkept : (s.sock so).Kept) (error : Bool) :
    Ready (s.tcpDrop so error) := by
  apply Ready.tcpClose
  · exact h.modify rfl rfl fun hup hlive => ⟨hlive, hup⟩
  · exact hkept.touches (touches_modify s so _ rfl rfl)

theorem setTcpState (h : Ready s) (so : SocketPtr) (state : TcpState) :
    Ready (s.setTcpState so state) :=
  h.modify rfl rfl fun hup hlive => ⟨hlive, hup⟩

theorem tcpUsrclosed (h : Ready s) {state : TcpState}
    (hlive : (s.sock so).upcall2 = true → (s.sock so).live = true)
    (hkept : state.usrclosedCloses = true → (s.sock so).Kept) :
    Ready (s.tcpUsrclosed so state) := by
  cases state with
  | closed | listen | synSent => exact h.tcpClose (hkept rfl)
  | synReceived | established | closeWait => exact h.setTcpState so _
  | finWait2 | timeWait => exact h.soisdisconnected hlive
  | finWait1 | closing | lastAck => exact h

theorem tcpDisconnect (h : Ready s) (hkept : (s.sock so).Kept) (state : TcpState) :
    Ready (s.tcpDisconnect so state) := by
  unfold SocketStack.tcpDisconnect
  split
  · exact h.tcpClose hkept
  · split
    · exact h.tcpDrop hkept false
    · have htouch := ((touchesRule so).soisdisconnecting s).trans
        (touches_reflect _ so)
      have hdis : Ready (s.soisdisconnecting so) :=
        h.modify_wakeups (fun hup => (hkept hup).1) rfl rfl rfl
      have hkept' := hkept.touches htouch
      exact (hdis.reflect so).tcpUsrclosed (fun hup => (hkept' hup).1) fun _ => hkept'

theorem detach (h : Ready s) (hkept : (s.sock so).Kept) : Ready (s.detach so) := by
  unfold SocketStack.detach
  split
  · exact h.tcpDisconnect hkept _
  · apply Ready.sofree
    · exact h.modify rfl rfl fun hup hlive => ⟨hlive, hup⟩
    · exact hkept.touches (touches_modify s so _ rfl rfl)
  · exact h

theorem disconnect (h : Ready s) (hkept : (s.sock so).Kept) : Ready (s.disconnect so) := by
  unfold SocketStack.disconnect
  split
  · exact h.tcpDisconnect hkept _
  · exact h.modify rfl rfl fun hup hlive => ⟨hlive, hup⟩

theorem closing (h : Ready s) (hkept : (s.sock so).Kept)
    (hu : t = s ∨ t = s.detach so ∨ t = (s.disconnect so).detach so) : Ready t := by
  -- before `discard` the socket has its file reference, so nothing of a close frees it
  rcases hu with rfl | rfl | rfl
  · exact h
  · exact h.detach hkept
  · exact (h.disconnect hkept).detach (hkept.touches (touches_disconnect s so))

theorem kept_of_quiet (hup : (s.sock so).upcall2 = false) : (s.sock so).Kept := by
  intro hup'
  simp [hup] at hup'

theorem soabort (h : Ready s) (hup : (s.sock so).upcall2 = false) : Ready (s.soabort so) := by
  obtain ⟨u, hu⟩ : ∃ u, s.modify so (fun t => { t with aborting := true }) = u := ⟨_, rfl⟩
  have hready : Ready u := hu ▸ h.modify rfl rfl fun hup hlive => ⟨hlive, hup⟩
  have hquiet : (u.sock so).upcall2 = false := by simp [← hu, hup]
  obtain ⟨v, hv, htouch, hdrop⟩ : ∃ v, s.soabort so =
      (v.modify so fun t => { t with aborting := false }).sofree so ∧ Touches so u v ∧
        Ready v := by
    simp only [SocketStack.soabort, hu]
    refine ⟨_, rfl, ?_⟩
    split
    · exact ⟨touches_tcpDrop u so true, hready.tcpDrop (kept_of_quiet hquiet) true⟩
    · exact ⟨Touches.refl so u, hready⟩
  rw [hv]
  apply Ready.sofree
  · exact hdrop.modify rfl rfl fun hup hlive => ⟨hlive, hup⟩
  · apply kept_of_quiet
    rw [modify_sock_self]
    exact htouch.upcall2.trans hquiet

theorem dequeueAccept (h : Ready s) (so so2 : SocketPtr) : Ready (s.dequeueAccept so so2) :=
  (h.modify rfl rfl fun hup hlive => ⟨hlive, hup⟩).modify rfl rfl fun hup hlive => ⟨hlive, hup⟩

theorem quiet_dequeued (hq : Queues s) (hmem : so2 ∈ (s.sock so).queue) :
    ((s.dequeueAccept so so2).sock so2).upcall2 = false := by
  rw [dequeueAccept_sock_self (hq.ne_of_mem hmem)]
  exact (hq.queued so so2 hmem).2.2.2

theorem accept (h : Ready s) (hq : Queues s) (hmem : so2 ∈ (s.sock so).queue) (up : Bool) :
    Ready ((s.dequeueAccept so so2).modify so2 fun t =>
      { t with noFdRef := false, upcall2 := up }) := by
  apply (h.dequeueAccept so so2).modify rfl rfl
  intro hup
  rw [quiet_dequeued hq hmem] at hup
  simp at hup

theorem abort (h : Ready s) (hq : Queues s) (hmem : so2 ∈ (s.sock so).queue) :
    Ready ((s.dequeueAccept so so2).soabort so2) :=
  (h.dequeueAccept so so2).soabort (quiet_dequeued hq hmem)

theorem closeSocket (h : Ready s) (hq : Queues s)
    (hstays : (s.sock so).upcall2 = true → (s.sock so).live = true ∧ (s.sock so).closeFrees = false)
    (ht : s.closeSocket so = some t) : Ready t := by
  obtain ⟨I, hI⟩ : ∃ I : SocketStack → Prop, ∀ u, I u ↔ Queues u ∧ Ready u ∧
      (u.sock so).live = (s.sock so).live ∧ (u.sock so).upcall2 = (s.sock so).upcall2 ∧
      (u.sock so).control = (s.sock so).control := ⟨_, fun _ => Iff.rfl⟩
  have hunlink v k (hv : I v) : I (v.unlink k so) := by
    obtain ⟨hq, hr, hlive, hup, hcontrol⟩ := (hI v).mp hv
    have htouch := touches_unlink v k so
    refine (hI _).mpr ⟨hq.touches htouch, hr.unlink k so, ?_, htouch.upcall2.trans hup,
      (unlink_control v k so).trans hcontrol⟩
    rw [← hlive]
    simp [SocketStack.unlink, setPresent]
  have hround v so2 (hv : I v) (hmem : so2 ∈ (v.sock so).queue) {w : SocketStack} (hqw : Queues w)
      (hrw : Ready w) (hw : w.sock so = (v.dequeueAccept so so2).sock so) : I w := by
    obtain ⟨hq, -, hlive, hup, hcontrol⟩ := (hI v).mp hv
    rw [dequeueAccept_sock_head (hq.ne_of_mem hmem)] at hw
    exact (hI _).mpr ⟨hqw, hrw, by rw [hw, ← hlive], by rw [hw, ← hup], by rw [hw, ← hcontrol]; rfl⟩
  have horphan v so2 (hv : I v) (hmem : so2 ∈ (v.sock so).queue) :
      I ((v.dequeueAccept so so2).modify so2 fun t =>
        { t with noFdRef := false, upcall2 := false }) := by
    obtain ⟨hq, hr, -⟩ := (hI v).mp hv
    apply hround v so2 hv hmem (hq.accept hmem false) (hr.accept hq hmem false)
    exact modify_sock_of_ne _ _ (hq.ne_of_mem hmem).symm
  have habort v so2 (hv : I v) (hmem : so2 ∈ (v.sock so).queue) :
      I ((v.dequeueAccept so so2).soabort so2) := by
    obtain ⟨hq, hr, -⟩ := (hI v).mp hv
    apply hround v so2 hv hmem (hq.abort hmem) (hr.abort hq hmem)
    exact (touches_soabort ((hq.dequeueAccept hmem).idle so2)).other so
      (hq.ne_of_mem hmem).symm
  obtain ⟨v, hv, hclose⟩ := closeSocket_rule (fun v hv => ((hI v).mp hv).1) hunlink
    horphan habort ((hI s).mpr ⟨hq, h, rfl, rfl, rfl⟩) ht
  obtain ⟨hqv, hrv, hlive, hup, hcontrol⟩ := (hI v).mp hv
  obtain ⟨u, hu, hdiscard, hpcb⟩ := socloseSelf_cases hclose
  have htouch : Touches so v u := touches_of_closing hu
  obtain ⟨href, rfl⟩ := discard_eq_some.mp hdiscard
  have hkept : (v.sock so).Kept := fun hupv =>
    ⟨hlive.trans (hstays (hup.symm.trans hupv)).1, .inl (htouch.noFdRef.symm.trans href)⟩
  have hru := hrv.closing hkept hu
  have hmod : Ready (u.modify so fun t => { t with noFdRef := true }) :=
    hru.modify rfl rfl fun hup hlive => ⟨hlive, hup⟩
  cases hupu : (u.sock so).upcall2 with
  | false =>
    apply hmod.sofree (kept_of_quiet _)
    rw [modify_sock_self]
    exact hupu
  | true =>
    -- an upcall: the close leaves the control block, and `sofree` does nothing
    have hstay := (hstays (hup.symm.trans (htouch.upcall2.symm.trans hupu))).2
    rw [Socket.closeFrees_congr hcontrol, hstay] at hpcb
    have hpcb' : ((u.modify so fun t => { t with noFdRef := true }).sock so).pcb ≠ none := by
      rw [modify_sock_self]
      exact fun hnone => absurd (hpcb.mpr hnone) (by simp)
    rw [sofree_of_pcb hpcb']
    exact hmod

theorem setSat (h : Ready s) {sat : Satellite}
    (hsat : sat.socket = none ∨ sat.socket = (s.sat i).socket) : Ready (s.setSat i sat) := by
  have hold {j : Slot} {so : SocketPtr} (hj : ((s.setSat i sat).sat j).socket = some so) :
      (s.sat j).socket = some so := by
    by_cases hji : j = i
    · subst hji
      rcases hsat with hnone | hsame
      · simp [SocketStack.setSat, hnone] at hj
      · simpa [SocketStack.setSat, hsame] using hj
    · simpa [SocketStack.setSat, hji] using hj
  exact ⟨h.listed, h.nodup, h.live, fun j so hj => h.slots j so (hold hj),
    fun so j so' hk hj hsat => h.waiter so j so' hk hj (hold hsat)⟩

theorem link (h : Ready s) (hlive : (s.sock so).live = true) (hup : (s.sock so).upcall2 = true)
    (hglue : (s.sock so).glueingBlock = none)
    (hfree : ∀ so' ∈ s.lists .waiter, (s.sock so').glueingBlock ≠ some i)
    (parent : Option Selector) (pid : Nat) : Ready (s.link i parent pid so) := by
  apply Ready.reflect
  have hsock {so' : SocketPtr} (hne : so' ≠ so) :
      ((s.setSat i ⟨some so, some i, parent, pid⟩).modify so fun t =>
        { t with glueingBlock := some i }).sock so' = s.sock so' :=
    modify_sock_of_ne _ _ hne
  have hself : ((s.setSat i ⟨some so, some i, parent, pid⟩).modify so fun t =>
      { t with glueingBlock := some i }).sock so = { s.sock so with glueingBlock := some i } :=
    modify_sock_self _ _ _
  have hsati : ((s.setSat i ⟨some so, some i, parent, pid⟩).sat i).socket = some so := by
    simp [SocketStack.setSat]
  have hsatj {j : Slot} (hj : j ≠ i) :
      (s.setSat i ⟨some so, some i, parent, pid⟩).sat j = s.sat j := by
    simp [SocketStack.setSat, hj]
  refine ⟨fun k so' => ?_, h.nodup, fun so' k hk => ?_, fun j so' hj => ?_,
    fun so' j so'' hk hj hsat => ?_⟩
  · by_cases heq : so' = so
    · subst heq
      rw [hself]
      exact h.listed k so'
    · rw [hsock heq]
      exact h.listed k so'
  · by_cases heq : so' = so
    · subst heq
      rw [hself] at hk ⊢
      exact h.live so' k hk
    · rw [hsock heq] at hk ⊢
      exact h.live so' k hk
  · rw [modify_sat] at hj
    by_cases hji : j = i
    · subst hji
      obtain rfl : so = so' := Option.some.inj (hsati.symm.trans hj)
      rw [hself]
      exact ⟨hlive, hup, rfl⟩
    · rw [hsatj hji] at hj
      have hslots := h.slots j so' hj
      have heq : so' ≠ so := by
        rintro rfl
        simp [hglue] at hslots
      rw [hsock heq]
      exact hslots
  · rw [modify_sat] at hsat
    by_cases heq : so' = so
    · subst heq
      rw [hself] at hj
      obtain rfl : i = j := Option.some.inj hj
      exact Option.some.inj (hsat.symm.trans hsati)
    · rw [hsock heq] at hk hj
      have hji : j ≠ i := by
        rintro rfl
        exact hfree so' ((h.listed .waiter so').mpr hk) hj
      rw [hsatj hji] at hsat
      exact h.waiter so' j so'' hk hj hsat

theorem soget (h : Ready s) (hdead : (s.sock so).live = false) {t : Socket}
    (hpresent : t.present = fun _ => false) : Ready (s.soget so t) := by
  have hself : (s.soget so t).sock so = t := modify_sock_self _ _ _
  have hsock {so' : SocketPtr} (hne : so' ≠ so) : (s.soget so t).sock so' = s.sock so' :=
    modify_sock_of_ne _ _ hne
  refine ⟨fun k so' => ?_, h.nodup, fun so' k hk => ?_, fun j so' hj => ?_,
    fun so' j so'' hk hj hsat => ?_⟩
  · by_cases heq : so' = so
    · subst heq
      have hout := h.listed k so'
      rw [h.notMem_of_dead hdead k] at hout
      rw [hself, hpresent]
      exact hout
    · rw [hsock heq]
      exact h.listed k so'
  · by_cases heq : so' = so
    · subst heq
      rw [hself, hpresent] at hk
      simp at hk
    · rw [hsock heq] at hk ⊢
      exact h.live so' k hk
  · have hslots := h.slots j so' hj
    have heq : so' ≠ so := by
      rintro rfl
      simp [hdead] at hslots
    rw [hsock heq]
    exact hslots
  · by_cases heq : so' = so
    · subst heq
      rw [hself, hpresent] at hk
      simp at hk
    · rw [hsock heq] at hk hj
      exact h.waiter so' j so'' hk hj hsat

theorem sonewconn (h : Ready s) (hlive : (s.sock so).live = true)
    (hdead : (s.sock so2).live = false) : Ready (s.sonewconn so so2) := by
  have hne : so ≠ so2 := by
    rintro rfl
    simp [hlive] at hdead
  apply Ready.sowakeup
  · apply Ready.modify _ rfl rfl fun hup hlive => ⟨hlive, hup⟩
    exact h.soget hdead rfl
  · intro _
    rw [modify_sock_self, SocketStack.soget, modify_sock_of_ne _ _ hne]
    exact hlive

end Ready

def Socket.freedByTcp (t : Socket) : Bool :=
  t.upcall2 && t.noFdRef && t.head.isNone

theorem Socket.kept_of_not_freedByTcp {t : Socket} (hlive : t.upcall2 = true → t.live = true)
    (h : t.freedByTcp = false) : t.Kept := by
  intro hup
  refine ⟨hlive hup, ?_⟩
  cases href : t.noFdRef with
  | false => exact .inl rfl
  | true =>
    refine .inr fun hhead => ?_
    simp [freedByTcp, hup, href, hhead] at h

def Socket.freedByShutdown (t : Socket) : Bool :=
  match t.pcb with
  | some (.tcp state) => state.usrclosedCloses && t.freedByTcp
  | _ => false

/-- No step frees a socket that has an upcall. Apart from that, an OPEN or SET_SOCKET_RING names a
slot that no waiting socket points to and, for the latter, an accepted connection without a slot. -/
def ListSafe (s : SocketStack) : StackAction → Prop
  | .openSocket i _ _ _ _ => ∀ so ∈ s.lists .waiter, (s.sock so).glueingBlock ≠ some i
  | .setSocketRing i _ _ so => (s.sock so).live = true ∧ (s.sock so).upcall2 = true ∧
      (s.sock so).glueingBlock = none ∧
      ∀ so' ∈ s.lists .waiter, (s.sock so').glueingBlock ≠ some i
  | .close i => (s.sat i).socket.all (fun so => !(s.sock so).closeFrees) = true
  | .decline so => (s.sock so).upcall2 = true →
      (s.sock so).live = true ∧ (s.sock so).closeFrees = false
  | .tcpClose so | .tcpDrop so => (s.sock so).freedByTcp = false
  | .shutdown i _ wr => wr = true →
      (s.sat i).socket.all (fun so => !(s.sock so).freedByShutdown) = true
  | _ => True

instance (s : SocketStack) (a : StackAction) : Decidable (ListSafe s a) := by
  rcases a <;> unfold ListSafe <;> infer_instance

namespace Ready

variable {s t : SocketStack} {so so2 : SocketPtr} {i : Slot}

theorem close (h : Ready s) (hq : Queues s)
    (hstays : (s.sat i).socket.all (fun so => !(s.sock so).closeFrees) = true)
    (ht : s.close i = some t) : Ready t := by
  unfold SocketStack.close at ht
  split at ht
  · cases ht
    exact h
  · next so hsat =>
    obtain ⟨u, hclose, rfl⟩ := looked_eq_some.mp ht
    have hstays' : (s.sock so).closeFrees = false := by simpa [hsat] using hstays
    exact (h.closeSocket hq (fun _ => ⟨(h.slots i so hsat).1, hstays'⟩) hclose).setSat (.inl rfl)

theorem listen (h : Ready s) (ht : s.listen i = some t) : Ready t := by
  simp only [SocketStack.listen, bind_eq_bind, bind_eq_some_iff] at ht
  obtain ⟨so, -, ht⟩ := ht
  split at ht
  · split at ht
    · cases ht
      exact h
    · cases ht
      exact h.modify rfl rfl fun hup hlive => ⟨hlive, hup⟩
  · cases ht
    exact h

theorem processTxEmpty (h : Ready s) (i : Slot) : Ready (s.processTxEmpty i) := by
  unfold SocketStack.processTxEmpty
  split
  · exact h
  · next so hsat =>
    obtain ⟨hlive, hup, -⟩ := h.slots i so hsat
    dsimp only
    split
    · exact h
    · have hinsert := h.insert (k := .waiter) hlive hup fun _ => ⟨i, hsat⟩
      split
      · exact hinsert.reflect so
      · exact hinsert

theorem soshutdown (h : Ready s) (rd wr : Bool)
    (hsafe : wr = true → (s.sat i).socket.all (fun so => !(s.sock so).freedByShutdown) = true) :
    Ready (s.soshutdown i rd wr) := by
  unfold SocketStack.soshutdown
  split
  · exact h
  · next so hsat =>
    obtain ⟨hlive, hup, -⟩ := h.slots i so hsat
    obtain ⟨u, hu⟩ : ∃ u, (if rd then s.sorflush so else s) = u := ⟨_, rfl⟩
    have htouch : Touches so s u ∧ Ready u ∧ (u.sock so).live = true ∧
        (u.sock so).control = (s.sock so).control := by
      rw [← hu]
      split
      · refine ⟨(touchesRule so).sorflush s, h.sorflush fun _ => hlive, ?_, sorflush_control s so⟩
        rw [SocketStack.sorflush, reflect_sock, sowakeup_live, hlive]
      · exact ⟨Touches.refl so s, h, hlive, rfl⟩
    obtain ⟨htu, hru, hliveu, hcontrolu⟩ := htouch
    dsimp only
    rw [hu]
    split
    · next hwr =>
      have hmod : Ready (u.modify so fun t => { t with cantSendMore := true }) :=
        hru.modify rfl rfl fun hup hlive => ⟨hlive, hup⟩
      have hmore : Ready (u.socantsendmore so) := by
        apply hmod.sowakeup
        rw [modify_sock_self]
        exact fun _ => hliveu
      have hlivem : ((u.socantsendmore so).sock so).live = true := by
        rw [socantsendmore, sowakeup_live, modify_sock_self]
        exact hliveu
      have hcontrolm : ((u.socantsendmore so).sock so).control = (s.sock so).control := by
        rw [socantsendmore, sowakeup_control, modify_sock_self]
        exact hcontrolu
      split
      · next state hpcb =>
        apply hmore.tcpUsrclosed fun _ => hlivem
        intro hcloses
        have hpcb' : (s.sock so).pcb = some (.tcp state) :=
          (congrArg Prod.fst hcontrolm).symm.trans hpcb
        have hfreed : (s.sock so).freedByTcp = false := by
          have hsafe' := hsafe hwr
          simpa [hsat, Socket.freedByShutdown, hpcb', hcloses] using hsafe'
        have hkept := Socket.kept_of_not_freedByTcp (fun _ => hlive) hfreed
        exact hkept.touches (htu.trans ((touchesRule so).socantsendmore u))
      · exact hmore
    · exact hru

theorem processFirst (h : Ready s) (hq : Queues s) {k : ReadyList}
    (ht : s.processFirst k = some t) : Ready t := by
  cases k with
  | closed =>
    obtain ⟨so, -, rfl⟩ := looked_eq_some.mp ht
    exact h.unlink .closed so
  | read | write =>
    obtain ⟨so, -, rfl⟩ := looked_eq_some.mp ht
    exact (h.unlink _ so).reflect so
  | accept =>
    simp only [SocketStack.processFirst, bind_eq_bind, bind_eq_some_iff,
      Option.pure_def, Option.some.injEq] at ht
    obtain ⟨so, -, u, haccept, rfl⟩ := ht
    have hu : Queues u ∧ Ready u :=
      userOnAccept_rule (I := fun u => Queues u ∧ Ready u) (fun _ hv => hv.1)
        (fun _ _ hv hmem => ⟨hv.1.accept hmem true, hv.2.accept hv.1 hmem true⟩) ⟨hq, h⟩ rfl
        haccept
    exact hu.2.unlink .accept so
  | waiter =>
    simp only [SocketStack.processFirst, bind_eq_bind, bind_eq_some_iff] at ht
    obtain ⟨first, -, i, -, so, -, -, -, ht⟩ := ht
    cases ht
    split
    · exact (h.reflect so).unlink .waiter so
    · exact h.unlink .waiter so

end Ready

theorem stackStep_ready {s t : SocketStack} {a : StackAction} (h : Ready s) (hq : Queues s)
    (hok : ListSafe s a) (ht : stackStep s a = some t) : Ready t := by
  cases a with
  | openSocket i parent type pid so =>
    obtain ⟨hdead, rfl⟩ := guarded_eq_some.mp ht
    apply Ready.link (h.soget hdead rfl)
    · simp [soget]
    · simp [soget]
    · simp [soget]
    · intro so' hmem
      by_cases heq : so' = so
      · simp [heq, soget]
      · rw [soget, modify_sock_of_ne _ _ heq]
        exact hok so' hmem
  | setSocketRing i parent pid so =>
    obtain ⟨hlive, hup, hglue, hfree⟩ := hok
    cases ht
    exact (h.link hlive hup hglue hfree _ pid).reflect so
  | setSocketSelect i parent pid =>
    obtain ⟨so, -, rfl⟩ := looked_eq_some.mp ht
    apply Ready.reflect
    exact h.setSat (.inr rfl)
  | close i => exact h.close hq hok ht
  | decline so => exact h.closeSocket hq hok ht
  | listen i => exact h.listen ht
  | txPoolEmpty i =>
    cases ht
    exact h.processTxEmpty i
  | shutdown i rd wr =>
    cases ht
    exact h.soshutdown rd wr hok
  | kick i =>
    obtain ⟨so, -, rfl⟩ := looked_eq_some.mp ht
    exact h.reflect so
  | linger i time =>
    obtain ⟨so, -, rfl⟩ := looked_eq_some.mp ht
    exact h.modify rfl rfl fun hup hlive => ⟨hlive, hup⟩
  | process k => exact h.processFirst hq ht
  | newconn so so2 =>
    obtain ⟨⟨htcp, -, hdead⟩, rfl⟩ := guarded_eq_some.mp ht
    exact h.sonewconn (live_of_hasTcp htcp) hdead
  | abort so so2 =>
    obtain ⟨⟨-, hmem⟩, rfl⟩ := guarded_eq_some.mp ht
    exact h.abort hq hmem
  | connecting so | buffers so | tcpState so =>
    obtain ⟨-, rfl⟩ := guarded_eq_some.mp ht
    exact h.modify rfl rfl fun hup hlive => ⟨hlive, hup⟩
  | connected so =>
    obtain ⟨hlive, rfl⟩ := guarded_eq_some.mp ht
    exact h.modify_wakeups (fun _ => hlive) rfl rfl rfl
  | disconnected so =>
    obtain ⟨htcp, rfl⟩ := guarded_eq_some.mp ht
    exact h.soisdisconnected fun _ => live_of_hasTcp htcp
  | tcpClose so =>
    obtain ⟨htcp, rfl⟩ := guarded_eq_some.mp ht
    exact h.tcpClose
      (Socket.kept_of_not_freedByTcp (fun _ => live_of_hasTcp htcp) hok)
  | tcpDrop so =>
    obtain ⟨htcp, rfl⟩ := guarded_eq_some.mp ht
    exact h.tcpDrop
      (Socket.kept_of_not_freedByTcp (fun _ => live_of_hasTcp htcp) hok) true
  | data so =>
    obtain ⟨hlive, rfl⟩ := guarded_eq_some.mp ht
    apply (h.reflect so).sowakeup
    rw [reflect_sock]
    exact fun _ => hlive

def ListsHold (s : SocketStack) : Prop :=
  (∀ k, (s.lists k).Nodup ∧
    ∀ so, (so ∈ s.lists k ↔ (s.sock so).present k = true) ∧
      (so ∈ s.lists k → (s.sock so).live = true)) ∧
  ∀ so ∈ s.lists .waiter, ∀ i so', (s.sock so).glueingBlock = some i →
    (s.sat i).socket = some so' → so' = so

/-- Under `ListSafe` the lists have the marked sockets, each once, and only sockets in use. -/
theorem listsHold_of_run {as : List StackAction} {s : SocketStack}
    (hrun : Run stackStep ListSafe SocketStack.start as s) : ListsHold s := by
  have hinv : Queues s ∧ Ready s :=
    hrun.invariant (I := fun s => Queues s ∧ Ready s)
      (fun _ _ _ h hok hstep => ⟨h.1.step hstep, stackStep_ready h.2 h.1 hok hstep⟩)
      ⟨Queues.start, ⟨by simp [start], by simp [start],
        by simp [start], by simp [start], by simp [start]⟩⟩
  have hready := hinv.2
  refine ⟨fun k => ⟨hready.nodup k, fun so => ⟨hready.listed k so, fun hmem => ?_⟩⟩,
    fun so hmem i so' hglue hsat => ?_⟩
  · exact (hready.live so k ((hready.listed k so).mp hmem)).1
  · exact hready.waiter so i so' ((hready.listed .waiter so).mp hmem) hglue hsat

def servedConnection : List StackAction :=
  [.openSocket 0 none .stream 7 1, .listen 0, .newconn 1 2, .tcpState 2 .established,
    .process .accept, .setSocketRing 1 none 7 2, .data 2, .txPoolEmpty 1, .process .waiter,
    .shutdown 1 false true, .close 1]

theorem listsHold_of_run_served :
    ∃ s, Run stackStep ListSafe SocketStack.start servedConnection s ∧
      (s.sock 2).live = true ∧ ListsHold s :=
  Run.exists_and_of_runActions (by decide +kernel) fun _ hrun _ => listsHold_of_run hrun

theorem closed_socket_listed :
    ∃ s, Run stackStep (fun _ _ => True) SocketStack.start
        [.openSocket 0 none .dgram 7 1, .close 0] s ∧
      (1 ∈ s.lists .read ∧ (s.sock 1).live = false) ∧ ¬ ListsHold s := by
  refine Run.exists_and_of_runActions (by decide +kernel) fun s _ hs hlists => ?_
  have hlive := ((hlists.1 .read).2 1).2 hs.1
  simp [hs.2] at hlive

end NetbsdDpdk
