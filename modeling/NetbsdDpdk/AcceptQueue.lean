import NetbsdDpdk.SocketClose

/-! The accept queues. A connection waits on the queue of the socket that its `so_head` names, with
no file reference and no upcall, and nothing but `accept` and the abort of its listener takes it
off. `ListenAccept` has `so_q0` too, and relates its queues to these. -/

namespace NetbsdDpdk

open List Option

open SocketStack

structure Queues (s : SocketStack) : Prop where
  queued : ∀ so, ∀ so2 ∈ (s.sock so).queue,
    (s.sock so2).live = true ∧ (s.sock so2).head = some so ∧ (s.sock so2).noFdRef = true ∧
      (s.sock so2).upcall2 = false
  nodup : ∀ so, (s.sock so).queue.Nodup
  self : ∀ so, so ∉ (s.sock so).queue
  idle : ∀ so, (s.sock so).aborting = false
  referenced : ∀ so, (s.sock so).noFdRef = false → (s.sock so).head = none

namespace Queues

variable {s t : SocketStack} {so so2 : SocketPtr} {f : Socket → Socket}

theorem of_kept (h : Queues s)
    (hkept : ∀ so, (t.sock so).queue = (s.sock so).queue ∧ (t.sock so).head = (s.sock so).head ∧
      (t.sock so).noFdRef = (s.sock so).noFdRef ∧ (t.sock so).aborting = (s.sock so).aborting ∧
      (t.sock so).upcall2 = (s.sock so).upcall2)
    (hlive : ∀ so, (s.sock so).live = true → (s.sock so).head ≠ none → (t.sock so).live = true) :
    Queues t := by
  refine ⟨fun l so2 hmem => ?_, fun l => (hkept l).1 ▸ h.nodup l, fun l => (hkept l).1 ▸ h.self l,
    fun l => (hkept l).2.2.2.1.trans (h.idle l), fun l href => ?_⟩
  · rw [(hkept l).1] at hmem
    obtain ⟨hlv, hhead, hno, hup⟩ := h.queued l so2 hmem
    obtain ⟨-, hhead', hno', -, hup'⟩ := hkept so2
    exact ⟨hlive so2 hlv (by simp [hhead]), hhead'.trans hhead, hno'.trans hno, hup'.trans hup⟩
  · rw [(hkept l).2.1]
    exact h.referenced l ((hkept l).2.2.1 ▸ href)

theorem touches (h : Queues s) (ht : Touches so s t) : Queues t := by
  apply h.of_kept
  · intro so'
    have hcore := ht.core_eq so'
    exact ⟨congrArg SocketCore.queue hcore, congrArg SocketCore.head hcore,
      congrArg SocketCore.noFdRef hcore, congrArg SocketCore.aborting hcore,
      congrArg SocketCore.upcall2 hcore⟩
  · intro so' hlive hhead
    -- a queued socket has a head, so it is not the one that may have gone to the pool
    by_cases heq : so' = so
    · subst heq
      rcases ht.live with hsame | ⟨-, -, hnone⟩
      · rw [hsame, hlive]
      · exact absurd hnone hhead
    · rw [ht.other so' heq, hlive]

theorem notMem_of_dead (h : Queues s) (hdead : (s.sock so).live = false) (l : SocketPtr) :
    so ∉ (s.sock l).queue := by
  intro hmem
  have hlive := (h.queued l so hmem).1
  simp [hdead] at hlive

theorem notMem_of_referenced (h : Queues s) (href : (s.sock so).noFdRef = false) (l : SocketPtr) :
    so ∉ (s.sock l).queue := by
  intro hmem
  have hno := (h.queued l so hmem).2.2.1
  simp [href] at hno

theorem modify (h : Queues s) (hout : ∀ l, so ∉ (s.sock l).queue)
    (hqueue : (f (s.sock so)).queue = (s.sock so).queue) (hidle : (f (s.sock so)).aborting = false)
    (href : (f (s.sock so)).noFdRef = false → (f (s.sock so)).head = none) :
    Queues (s.modify so f) := by
  have hq l : ((s.modify so f).sock l).queue = (s.sock l).queue := by
    by_cases heq : l = so
    · rw [heq, modify_sock_self, hqueue]
    · rw [modify_sock_of_ne _ _ heq]
  refine ⟨fun l so2 hmem => ?_, fun l => hq l ▸ h.nodup l, fun l => hq l ▸ h.self l, fun l => ?_,
    fun l => ?_⟩
  · rw [hq] at hmem
    have hne : so2 ≠ so := fun heq => hout l (heq ▸ hmem)
    rw [modify_sock_of_ne _ _ hne]
    exact h.queued l so2 hmem
  · by_cases heq : l = so
    · rwa [heq, modify_sock_self]
    · rw [modify_sock_of_ne _ _ heq]
      exact h.idle l
  · by_cases heq : l = so
    · rwa [heq, modify_sock_self]
    · rw [modify_sock_of_ne _ _ heq]
      exact h.referenced l

theorem soget (h : Queues s) (hdead : (s.sock so).live = false) {t : Socket} (hqueue : t.queue = [])
    (hidle : t.aborting = false) (href : t.noFdRef = false → t.head = none) :
    Queues (s.soget so t) := by
  have hsock l : ((s.soget so t).sock l) = if l = so then t else s.sock l := by
    by_cases heq : l = so
    · simp [heq, SocketStack.soget]
    · simp [heq, SocketStack.soget, SocketStack.modify_sock_of_ne]
  refine ⟨fun l so2 hmem => ?_, fun l => ?_, fun l => ?_, fun l => ?_, fun l => ?_⟩
  all_goals rw [hsock] at *
  · by_cases heq : l = so
    · simp [heq, hqueue] at hmem
    · rw [if_neg heq] at hmem
      have hne : so2 ≠ so := fun hso => h.notMem_of_dead hdead l (hso ▸ hmem)
      rw [if_neg hne]
      exact h.queued l so2 hmem
  · split
    · simp [hqueue]
    · exact h.nodup l
  · split
    · simp [hqueue]
    · exact h.self l
  · split
    · exact hidle
    · exact h.idle l
  · split
    · exact href
    · exact h.referenced l

end Queues

namespace SocketStack

variable {s t : SocketStack} {so so2 : SocketPtr}

theorem dequeueAccept_sock_head (hne : so2 ≠ so) :
    (s.dequeueAccept so so2).sock so =
      { s.sock so with queue := (s.sock so).queue.erase so2 } := by
  rw [dequeueAccept, modify_sock_of_ne _ _ hne.symm, modify_sock_self]

theorem dequeueAccept_sock_self (hne : so2 ≠ so) :
    (s.dequeueAccept so so2).sock so2 = { s.sock so2 with head := none } := by
  rw [dequeueAccept, modify_sock_self, modify_sock_of_ne _ _ hne]

theorem dequeueAccept_sock_of_ne {l : SocketPtr} (hl : l ≠ so) (hl2 : l ≠ so2) :
    (s.dequeueAccept so so2).sock l = s.sock l := by
  rw [dequeueAccept, modify_sock_of_ne _ _ hl2, modify_sock_of_ne _ _ hl]

end SocketStack

namespace Queues

variable {s t : SocketStack} {so so2 : SocketPtr}

theorem ne_of_mem (h : Queues s) (hmem : so2 ∈ (s.sock so).queue) : so2 ≠ so :=
  fun heq => h.self so (heq ▸ hmem)

theorem ne_of_mem_rest (h : Queues s) {rest : List SocketPtr} {l : SocketPtr}
    (hl : (s.sock so).queue = so2 :: rest) (hmem : l ∈ rest) : l ≠ so2 ∧ l ≠ so := by
  have hnd := h.nodup so
  rw [hl, nodup_cons] at hnd
  exact ⟨fun heq => hnd.1 (heq ▸ hmem), h.ne_of_mem (hl ▸ .tail _ hmem)⟩

theorem notMem_dequeueAccept (h : Queues s) (hmem : so2 ∈ (s.sock so).queue) (l : SocketPtr) :
    so2 ∉ ((s.dequeueAccept so so2).sock l).queue := by
  have hne := h.ne_of_mem hmem
  by_cases hl : l = so
  · rw [hl, dequeueAccept_sock_head hne]
    exact (h.nodup so).not_mem_erase
  · intro hmem'
    by_cases hl2 : l = so2
    · rw [hl2, dequeueAccept_sock_self hne] at hmem'
      exact h.self so2 hmem'
    · rw [dequeueAccept_sock_of_ne hl hl2] at hmem'
      -- it is queued once only, behind the head that it names
      have hhead := (h.queued l so2 hmem').2.1
      rw [(h.queued so so2 hmem).2.1, Option.some.injEq] at hhead
      exact hl hhead.symm

theorem dequeueAccept (h : Queues s) (hmem : so2 ∈ (s.sock so).queue) :
    Queues (s.dequeueAccept so so2) := by
  have hne := h.ne_of_mem hmem
  have hsub l : ((s.dequeueAccept so so2).sock l).queue.Sublist (s.sock l).queue := by
    by_cases hl : l = so
    · rw [hl, dequeueAccept_sock_head hne]
      exact erase_sublist
    · by_cases hl2 : l = so2
      · rw [hl2, dequeueAccept_sock_self hne]
      · rw [dequeueAccept_sock_of_ne hl hl2]
  have hkept l : ((s.dequeueAccept so so2).sock l).aborting = (s.sock l).aborting ∧
      ((s.dequeueAccept so so2).sock l).noFdRef = (s.sock l).noFdRef ∧
      (((s.dequeueAccept so so2).sock l).head = (s.sock l).head ∨
        ((s.dequeueAccept so so2).sock l).head = none) := by
    by_cases hl : l = so
    · rw [hl, dequeueAccept_sock_head hne]
      exact ⟨rfl, rfl, .inl rfl⟩
    · by_cases hl2 : l = so2
      · rw [hl2, dequeueAccept_sock_self hne]
        exact ⟨rfl, rfl, .inr rfl⟩
      · rw [dequeueAccept_sock_of_ne hl hl2]
        exact ⟨rfl, rfl, .inl rfl⟩
  refine ⟨fun l so3 hmem3 => ?_, fun l => (h.nodup l).sublist (hsub l),
    fun l hmem' => h.self l ((hsub l).subset hmem'), fun l => (hkept l).1.trans (h.idle l),
    fun l href => ?_⟩
  · have hne3 : so3 ≠ so2 := fun heq => h.notMem_dequeueAccept hmem l (heq ▸ hmem3)
    have hq := h.queued l so3 ((hsub l).subset hmem3)
    by_cases hl : so3 = so
    · subst hl
      rwa [dequeueAccept_sock_head hne]
    · rwa [dequeueAccept_sock_of_ne hl hne3]
  · rcases (hkept l).2.2 with hhead | hhead
    · rw [hhead]
      exact h.referenced l ((hkept l).2.1 ▸ href)
    · exact hhead

theorem accept (h : Queues s) (hmem : so2 ∈ (s.sock so).queue) (up : Bool) :
    Queues ((s.dequeueAccept so so2).modify so2 fun t =>
      { t with noFdRef := false, upcall2 := up }) := by
  have hne := h.ne_of_mem hmem
  apply (h.dequeueAccept hmem).modify (h.notMem_dequeueAccept hmem)
  · rfl
  · exact (h.dequeueAccept hmem).idle so2
  · intro _
    rw [dequeueAccept_sock_self hne]

theorem abort (h : Queues s) (hmem : so2 ∈ (s.sock so).queue) :
    Queues ((s.dequeueAccept so so2).soabort so2) :=
  (h.dequeueAccept hmem).touches
    (touches_soabort ((h.dequeueAccept hmem).idle so2))

end Queues

namespace SocketStack

variable {s t : SocketStack} {so so2 : SocketPtr} {l : List SocketPtr} {I : SocketStack → Prop}

theorem dequeueAccept_queue (h : Queues s) (hq : (s.sock so).queue = so2 :: l) :
    ((s.dequeueAccept so so2).sock so).queue = l := by
  have hne := h.ne_of_mem (by rw [hq]; exact mem_cons_self)
  rw [dequeueAccept_sock_head hne, hq, erase_cons_head]

/-! Rules for the three loops: what one round keeps, the loop keeps. -/

theorem abortQueue_rule (hqueues : ∀ s, I s → Queues s)
    (hround : ∀ s so2, I s → so2 ∈ (s.sock so).queue → I ((s.dequeueAccept so so2).soabort so2))
    (hs : I s) (hl : (s.sock so).queue = l) : I (s.abortQueue so l) := by
  induction l generalizing s with
  | nil => exact hs
  | cons so2 rest ih =>
    have hmem : so2 ∈ (s.sock so).queue := hl ▸ mem_cons_self
    have hne := (hqueues s hs).ne_of_mem hmem
    apply ih (hround s so2 hs hmem)
    have habort := touches_soabort (((hqueues s hs).dequeueAccept hmem).idle so2)
    rw [habort.other so hne.symm]
    exact dequeueAccept_queue (hqueues s hs) hl

theorem soaccept_dequeued (h : Queues s) (hmem : so2 ∈ (s.sock so).queue) :
    (s.dequeueAccept so so2).soaccept so2 =
      some ((s.dequeueAccept so so2).modify so2 fun t => { t with noFdRef := false }) := by
  have hno := (h.queued so so2 hmem).2.2.1
  simp [soaccept, dequeueAccept_sock_self (h.ne_of_mem hmem), hno]

theorem accepted_eq (h : Queues s) (hmem : so2 ∈ (s.sock so).queue) :
    ((s.dequeueAccept so so2).modify so2 fun t => { t with noFdRef := false }) =
      (s.dequeueAccept so so2).modify so2 fun t =>
        { t with noFdRef := false, upcall2 := false } := by
  have hup := (h.queued so so2 hmem).2.2.2
  simp only [modify, dequeueAccept_sock_self (h.ne_of_mem hmem), hup]

theorem orphanQueue_rule (hqueues : ∀ s, I s → Queues s)
    (hround : ∀ s so2, I s → so2 ∈ (s.sock so).queue →
      I ((s.dequeueAccept so so2).modify so2 fun t =>
        { t with noFdRef := false, upcall2 := false }))
    (hs : I s) (hl : (s.sock so).queue = l) (ht : s.orphanQueue so l = some t) : I t := by
  induction l generalizing s with
  | nil =>
    cases ht
    exact hs
  | cons so2 rest ih =>
    have hmem : so2 ∈ (s.sock so).queue := hl ▸ mem_cons_self
    have hne := (hqueues s hs).ne_of_mem hmem
    simp only [orphanQueue, soaccept_dequeued (hqueues s hs) hmem,
      accepted_eq (hqueues s hs) hmem, bind_eq_bind, bind_some] at ht
    apply ih (hround s so2 hs hmem) _ ht
    rw [modify_sock_of_ne _ _ hne.symm]
    exact dequeueAccept_queue (hqueues s hs) hl

theorem userOnAccept_rule (hqueues : ∀ s, I s → Queues s)
    (hround : ∀ s so2, I s → so2 ∈ (s.sock so).queue →
      I ((s.dequeueAccept so so2).modify so2 fun t => { t with noFdRef := false, upcall2 := true }))
    (hs : I s) (hl : (s.sock so).queue = l) (ht : s.userOnAccept so l = some t) : I t := by
  induction l generalizing s with
  | nil =>
    cases ht
    exact hs
  | cons so2 rest ih =>
    have hmem : so2 ∈ (s.sock so).queue := hl ▸ mem_cons_self
    have hne := (hqueues s hs).ne_of_mem hmem
    have hmodify : (((s.dequeueAccept so so2).modify so2 fun t =>
        { t with noFdRef := false }).modify so2 fun t => { t with upcall2 := true }) =
        (s.dequeueAccept so so2).modify so2 fun t =>
          { t with noFdRef := false, upcall2 := true } := by
      simp [modify]
    simp only [userOnAccept, soaccept_dequeued (hqueues s hs) hmem, bind_eq_bind,
      bind_some, bind_eq_some_iff, hmodify] at ht
    obtain ⟨-, -, ht⟩ := ht
    apply ih (hround s so2 hs hmem) _ ht
    rw [modify_sock_of_ne _ _ hne.symm]
    exact dequeueAccept_queue (hqueues s hs) hl

theorem closeSocket_rule {I : SocketStack → Prop} (hqueues : ∀ s, I s → Queues s)
    (hunlink : ∀ s k, I s → I (s.unlink k so)) (horphan : ∀ s so2, I s → so2 ∈ (s.sock so).queue →
      I ((s.dequeueAccept so so2).modify so2 fun t =>
        { t with noFdRef := false, upcall2 := false }))
    (habort : ∀ s so2, I s → so2 ∈ (s.sock so).queue → I ((s.dequeueAccept so so2).soabort so2))
    (hs : I s) (ht : s.closeSocket so = some t) : ∃ u, I u ∧ u.socloseSelf so = some t := by
  -- up to `soclose` the socket is taken off the lists and its accept queue emptied, once by
  -- accepting what is there and once by aborting it
  have hremove s k (h : I s) : I (s.remove k so) := by
    unfold remove
    split
    · exact hunlink s k h
    · exact h
  have hlists := hremove _ .write (hremove s .read hs)
  simp only [closeSocket, bind_eq_bind, bind_eq_some_iff] at ht
  obtain ⟨v, haccept, hclose⟩ := ht
  have hv : I v := by
    unfold closeAccept at haccept
    split at haccept
    · simp only [bind_eq_bind, bind_eq_some_iff, Option.pure_def, Option.some.injEq] at haccept
      obtain ⟨w, horphaned, rfl⟩ := haccept
      exact hunlink w .accept (orphanQueue_rule hqueues horphan hlists rfl horphaned)
    · cases haccept
      exact hlists
  have hv' := hremove v .closed hv
  unfold soclose at hclose
  refine ⟨_, ?_, hclose⟩
  split
  · exact abortQueue_rule hqueues habort hv' rfl
  · exact hv'

end SocketStack

/-- The actions that leave the queues, the references and the links alone. -/
def StackAction.isPlain : StackAction → Bool
  | .openSocket .. | .setSocketRing .. | .setSocketSelect .. | .close _ | .decline _
  | .process .accept | .newconn .. | .abort .. => false
  | _ => true

section Plain

variable {s t : SocketStack}

theorem SocketStack.live_of_hasTcp {so : SocketPtr} (h : s.hasTcp so = true) :
    (s.sock so).live = true := by
  unfold hasTcp at h
  split at h
  · exact h
  · simp at h

variable {R : SocketPtr → SocketStack → SocketStack → Prop}

theorem StackRule.listen {i : Slot} (hR : ∀ so, StackRule so (R so)) (h : s.listen i = some t) :
    ∃ so, R so s t := by
  simp only [SocketStack.listen, bind_eq_bind, bind_eq_some_iff] at h
  obtain ⟨so, -, h⟩ := h
  refine ⟨so, ?_⟩
  split at h
  · split at h
    · cases h
      exact (hR so).refl s
    · cases h
      exact (hR so).modify s _ fun _ => ⟨rfl, rfl, rfl, rfl⟩
  · cases h
    exact (hR so).refl s

theorem StackRule.processTxEmpty (hR : ∀ so, StackRule so (R so)) (s : SocketStack) (i : Slot) :
    ∃ so, R so s (s.processTxEmpty i) := by
  unfold SocketStack.processTxEmpty
  split
  · exact ⟨default, (hR _).refl s⟩
  · next so _ =>
    refine ⟨so, ?_⟩
    dsimp only
    split
    · exact (hR so).refl s
    · split
      · exact (hR so).trans ((hR so).insert s) ((hR so).reflect _)
      · exact (hR so).insert s

theorem StackRule.soshutdown (hR : ∀ so, StackRule so (R so)) (s : SocketStack) (i : Slot)
    (rd wr : Bool) : ∃ so, R so s (s.soshutdown i rd wr) := by
  unfold SocketStack.soshutdown
  split
  · exact ⟨default, (hR _).refl s⟩
  · next so _ =>
    refine ⟨so, ?_⟩
    have hrd : R so s (if rd then s.sorflush so else s) := by
      split
      · exact (hR so).sorflush s
      · exact (hR so).refl s
    dsimp only
    split
    · have hwr := (hR so).trans hrd ((hR so).socantsendmore _)
      split
      · exact (hR so).trans hwr ((hR so).tcpUsrclosed _ _)
      · exact hwr
    · exact hrd

theorem StackRule.processFirst {k : ReadyList} (hR : ∀ so, StackRule so (R so)) (hk : k ≠ .accept)
    (hclosed : k ≠ .closed) (h : s.processFirst k = some t) : ∃ so, R so s t := by
  cases k with
  | accept => exact absurd rfl hk
  | closed => exact absurd rfl hclosed
  | read | write =>
    obtain ⟨so, -, rfl⟩ := looked_eq_some.mp h
    exact ⟨so, (hR so).trans ((hR so).unlink s _ hclosed) ((hR so).reflect _)⟩
  | waiter =>
    simp only [SocketStack.processFirst, bind_eq_bind, bind_eq_some_iff] at h
    obtain ⟨first, -, i, -, so, -, -, -, h⟩ := h
    cases h
    refine ⟨so, ?_⟩
    split
    · exact (hR so).trans ((hR so).reflect s) ((hR so).unlink _ .waiter hclosed)
    · exact (hR so).unlink _ .waiter hclosed

theorem StackRule.step {a : StackAction} (hR : ∀ so, StackRule so (R so)) (ha : a.isPlain = true)
    (hclosed : a ≠ .process .closed) (h : stackStep s a = some t) : ∃ so, R so s t := by
  cases a with
  | openSocket | setSocketRing | setSocketSelect | close | decline | newconn | abort =>
    simp [StackAction.isPlain] at ha
  | process k =>
    have hk : k ≠ .accept := by
      rintro rfl
      simp [StackAction.isPlain] at ha
    exact processFirst hR hk (fun heq => hclosed (heq ▸ rfl)) h
  | listen i => exact StackRule.listen hR h
  | txPoolEmpty i =>
    cases h
    exact processTxEmpty hR s i
  | shutdown i rd wr =>
    cases h
    exact soshutdown hR s i rd wr
  | kick i =>
    obtain ⟨so, -, rfl⟩ := looked_eq_some.mp h
    exact ⟨so, (hR so).reflect s⟩
  | linger i time =>
    obtain ⟨so, -, rfl⟩ := looked_eq_some.mp h
    exact ⟨so, (hR so).modify s _ fun _ => ⟨rfl, rfl, rfl, rfl⟩⟩
  | connecting so | buffers so | tcpState so =>
    obtain ⟨-, rfl⟩ := guarded_eq_some.mp h
    exact ⟨so, (hR so).modify s _ fun _ => ⟨rfl, rfl, rfl, rfl⟩⟩
  | connected so =>
    obtain ⟨-, rfl⟩ := guarded_eq_some.mp h
    exact ⟨so, (hR so).soisconnected s⟩
  | disconnected so =>
    obtain ⟨-, rfl⟩ := guarded_eq_some.mp h
    exact ⟨so, (hR so).soisdisconnected s⟩
  | tcpClose so =>
    obtain ⟨-, rfl⟩ := guarded_eq_some.mp h
    exact ⟨so, (hR so).tcpClose s⟩
  | tcpDrop so =>
    obtain ⟨-, rfl⟩ := guarded_eq_some.mp h
    exact ⟨so, (hR so).tcpDrop s true⟩
  | data so =>
    obtain ⟨-, rfl⟩ := guarded_eq_some.mp h
    exact ⟨so, (hR so).trans ((hR so).reflect s) ((hR so).sowakeup _)⟩

theorem stackStep_touches {a : StackAction} (ha : a.isPlain = true) (h : stackStep s a = some t) :
    ∃ so, Touches so s t := by
  by_cases hclosed : a = .process .closed
  · subst hclosed
    obtain ⟨so, -, rfl⟩ := looked_eq_some.mp h
    exact ⟨so, touches_unlink s .closed so⟩
  · exact StackRule.step touchesRule ha hclosed h

end Plain

namespace Queues

variable {s t : SocketStack} {so so2 : SocketPtr}

theorem discard (h : Queues s) (ht : s.discard so = some t) : Queues t := by
  obtain ⟨href, rfl⟩ := discard_eq_some.mp ht
  have hmod := h.modify (h.notMem_of_referenced href) (f := fun t => { t with noFdRef := true }) rfl
    (h.idle so) (by simp)
  exact hmod.touches (touches_sofree _ so)

theorem socloseSelf (h : Queues s) (ht : s.socloseSelf so = some t) : Queues t := by
  obtain ⟨u, hu, hdiscard, -⟩ := socloseSelf_cases ht
  exact (h.touches (touches_of_closing hu)).discard hdiscard

theorem closeSocket (h : Queues s) (ht : s.closeSocket so = some t) : Queues t := by
  obtain ⟨u, hu, hclose⟩ := closeSocket_rule (I := Queues) (fun _ h => h)
    (fun s k h => h.touches (touches_unlink s k so))
    (fun _ _ h hmem => h.accept hmem false) (fun _ _ h hmem => h.abort hmem) h ht
  exact hu.socloseSelf hclose

theorem setSat (h : Queues s) (i : Slot) (sat : Satellite) : Queues (s.setSat i sat) :=
  h.of_kept (fun _ => ⟨rfl, rfl, rfl, rfl, rfl⟩) (fun _ hlive _ => hlive)

theorem link (h : Queues s) (i : Slot) (parent : Option Selector) (pid : Nat) (so : SocketPtr) :
    Queues (s.link i parent pid so) := by
  have hglue : Queues ((s.setSat i ⟨some so, some i, parent, pid⟩).modify so fun t =>
      { t with glueingBlock := some i }) := by
    apply h.of_kept
    · intro so'
      by_cases heq : so' = so
      · simp [heq, SocketStack.setSat]
      · simp [SocketStack.modify_sock_of_ne _ _ heq, SocketStack.setSat]
    · intro so' hlive _
      by_cases heq : so' = so
      · simpa [heq, SocketStack.setSat] using hlive
      · simpa [SocketStack.modify_sock_of_ne _ _ heq, SocketStack.setSat] using hlive
  exact hglue.touches (SocketStack.touches_reflect _ so)

theorem close (h : Queues s) {i : Slot} (ht : s.close i = some t) : Queues t := by
  unfold SocketStack.close at ht
  split at ht
  · cases ht
    exact h
  · obtain ⟨u, hclose, rfl⟩ := looked_eq_some.mp ht
    exact (h.closeSocket hclose).setSat i _

theorem processAccept (h : Queues s) (ht : s.processFirst .accept = some t) : Queues t := by
  simp only [processFirst, bind_eq_bind, bind_eq_some_iff, Option.pure_def, Option.some.injEq] at ht
  obtain ⟨so, -, u, haccept, rfl⟩ := ht
  have hu := userOnAccept_rule (I := Queues) (fun _ h => h)
    (fun _ _ h hmem => h.accept hmem true) h rfl haccept
  exact hu.touches (touches_unlink u .accept so)

theorem sonewconn (h : Queues s) (hlive : (s.sock so).live = true)
    (hdead : (s.sock so2).live = false) : Queues (s.sonewconn so so2) := by
  have hne : so2 ≠ so := by
    rintro rfl
    simp [hlive] at hdead
  simp only [SocketStack.sonewconn]
  apply Queues.touches _ (SocketStack.touches_sowakeup _ so)
  obtain ⟨c, hc⟩ : ∃ c : Socket, ({ s.sock so with
    live := true, acceptConn := false, noFdRef := true, connected := true, soError := false,
    aborting := false, sndSpace := true, pcb := some (.tcp .closed), head := some so, queue := [],
    upcall2 := false, glueingBlock := none, present := fun _ => false } : Socket) = c := ⟨_, rfl⟩
  rw [hc]
  have hget : Queues (s.soget so2 c) := by
    subst hc
    exact h.soget hdead rfl rfl (by simp)
  have hself : (s.soget so2 c).sock so2 = c := by simp [SocketStack.soget]
  have hsock {l : SocketPtr} (hl : l ≠ so) :
      ((s.soget so2 c).modify so fun t => { t with queue := t.queue ++ [so2] }).sock l =
        (s.soget so2 c).sock l := SocketStack.modify_sock_of_ne _ _ hl
  have hkept l :
      (((s.soget so2 c).modify so fun t => { t with queue := t.queue ++ [so2] }).sock l) =
      { (s.soget so2 c).sock l with queue := if l = so then ((s.soget so2 c).sock l).queue ++ [so2]
        else ((s.soget so2 c).sock l).queue } := by
    by_cases hl : l = so
    · subst hl
      simp
    · rw [hsock hl, if_neg hl]
  have hout : so2 ∉ ((s.soget so2 c).sock so).queue := by
    rw [SocketStack.soget, SocketStack.modify_sock_of_ne _ _ hne.symm]
    exact h.notMem_of_dead hdead so
  refine ⟨fun l so3 hmem => ?_, fun l => ?_, fun l => ?_, fun l => ?_, fun l => ?_⟩
  all_goals simp only [hkept] at *
  · by_cases hl : l = so
    · subst hl
      rw [if_pos rfl] at hmem
      rcases mem_append.mp hmem with hold | hlast
      · exact hget.queued l so3 hold
      · obtain rfl : so3 = so2 := by simpa using hlast
        rw [hself, ← hc]
        exact ⟨rfl, rfl, rfl, rfl⟩
    · rw [if_neg hl] at hmem
      exact hget.queued l so3 hmem
  · split
    · next hl =>
      subst hl
      rw [← concat_eq_append]
      exact (hget.nodup l).concat hout
    · exact hget.nodup l
  · split
    · next hl =>
      subst hl
      simp only [mem_append, mem_singleton, not_or]
      exact ⟨hget.self l, hne.symm⟩
    · exact hget.self l
  · exact hget.idle l
  · exact hget.referenced l

theorem step (h : Queues s) {a : StackAction} (ht : stackStep s a = some t) : Queues t := by
  by_cases ha : a.isPlain = true
  · obtain ⟨so, htouch⟩ := stackStep_touches ha ht
    exact h.touches htouch
  · cases a with
    | openSocket i parent type pid so =>
      obtain ⟨hdead, rfl⟩ := guarded_eq_some.mp ht
      exact (h.soget hdead rfl rfl (by simp)).link i parent pid so
    | setSocketRing i parent pid so =>
      cases ht
      exact (h.link i _ pid so).touches (touches_reflect _ so)
    | setSocketSelect i parent pid =>
      obtain ⟨so, -, rfl⟩ := looked_eq_some.mp ht
      exact (h.setSat i _).touches (touches_reflect _ so)
    | close i => exact h.close ht
    | decline so => exact h.closeSocket ht
    | process k =>
      cases k with
      | accept => exact h.processAccept ht
      | read | write | closed | waiter => exact absurd rfl ha
    | newconn so so2 =>
      obtain ⟨⟨htcp, -, hdead⟩, rfl⟩ := guarded_eq_some.mp ht
      exact h.sonewconn (live_of_hasTcp htcp) hdead
    | abort so so2 =>
      obtain ⟨⟨-, hmem⟩, rfl⟩ := guarded_eq_some.mp ht
      exact h.abort hmem
    | listen | txPoolEmpty | shutdown | kick | linger | connecting | connected | disconnected
    | tcpState | tcpClose | tcpDrop | buffers | data => exact absurd rfl ha

theorem start : Queues SocketStack.start :=
  ⟨by simp [SocketStack.start], by simp [SocketStack.start], by simp [SocketStack.start],
    by simp [SocketStack.start], by simp [SocketStack.start]⟩

end Queues

/-- Whatever the stack does, a connection waits on one accept queue at most, once, of another
socket, and while it waits it is in use and nothing refers to it. -/
theorem waiting_once_of_run {as : List StackAction} {s : SocketStack}
    (hrun : Run stackStep (fun _ _ => True) .start as s) :
    (∀ so, (s.sock so).queue.Nodup ∧ so ∉ (s.sock so).queue) ∧
      ∀ so, ∀ so2 ∈ (s.sock so).queue, (s.sock so2).live = true ∧ (s.sock so2).noFdRef = true ∧
        ∀ l, so2 ∈ (s.sock l).queue → l = so := by
  have h : Queues s := hrun.invariant (fun _ _ _ h _ hstep => h.step hstep) Queues.start
  refine ⟨fun so => ⟨h.nodup so, h.self so⟩, fun so so2 hmem => ?_⟩
  obtain ⟨hlive, hhead, hno, -⟩ := h.queued so so2 hmem
  refine ⟨hlive, hno, fun l hl => ?_⟩
  exact Option.some.inj ((h.queued l so2 hl).2.1.symm.trans hhead)

theorem waiting_once_of_run_two : ∃ s, Run stackStep (fun _ _ => True) .start
    [.openSocket 0 none .stream 7 1, .listen 0, .newconn 1 2, .newconn 1 3] s ∧
    3 ∈ (s.sock 1).queue ∧ ∀ l, 3 ∈ (s.sock l).queue → l = 1 :=
  Run.exists_and_of_runActions (by decide +kernel) fun _ hrun hmem =>
    ((waiting_once_of_run hrun).2 1 3 hmem).2.2

end NetbsdDpdk
