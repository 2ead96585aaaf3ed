import NetbsdDpdk.CommandFlow

/-! What holds in every state of the command system, whatever the applications do and whichever
pool or ring runs out: a buffer, a connection and a slot are never in two places, a connection on
its way is open, and slot and socket point to each other. -/

namespace NetbsdDpdk

open List Token

open CommandState

variable {a : CommandAction} {i : Slot} {so so2 : SocketPtr} {created : Option SocketPtr}
  {ok : Bool}

def Pc.target : Pc → Option (Slot × SocketPtr)
  | .announcing _ l listener => some (l, listener)
  | .posting _ _ l listener => some (l, listener)
  | _ => none

structure CommandInv (s : CommandState) : Prop where
  once : AtMostOnce s.contents
  unused : ∀ so, (s.sock so).used = false → s.sock so = {}
  live : ∀ so, Located s.contents (.conn so) →
    (s.sock so).used = true ∧ (s.sock so).closed = false
  linked : ∀ i so, s.sat i = some so → (s.sock so).glueingBlock = some i
  bound : ∀ i so, (s.sock so).glueingBlock = some i → (s.sock so).closed = false →
    s.sat i = some so
  kind : ∀ so, (s.sock so).listening = true → (s.sock so).connected = false
  queueing : ∀ so, (s.sock so).queue ≠ [] → (s.sock so).listening = true
  queued : ∀ so, ∀ so2 ∈ (s.sock so).queue, (s.sock so2).connected = true
  ended : ∀ so, (s.sock so).closed = true → (s.sock so).queue = []
  target : ∀ l listener, (s.pc .server).target = some (l, listener) →
    s.sat l = some listener ∧ (s.sock listener).listening = true

structure SockKept (t t' : AcceptSocket) : Prop where
  used : t'.used = t.used
  glueingBlock : t'.glueingBlock = t.glueingBlock
  queue : t'.queue ⊆ t.queue
  listening : t.listening = true → t'.listening = true
  connected : t.connected = true → t'.connected = true
  kind : (t.listening = true → t.connected = false) →
    t'.listening = true → t'.connected = false
  closed : t.closed = true → t'.closed = true

theorem SockKept.refl (t : AcceptSocket) : SockKept t t :=
  ⟨rfl, rfl, fun _ h => h, id, id, id, id⟩

theorem SockKept.listen (t : AcceptSocket) (ok : Bool) :
    SockKept t { t with listening := t.listening || ok && !t.connected } where
  used := rfl
  glueingBlock := rfl
  queue _ h := h
  listening h := by simp [h]
  connected h := h
  kind hkind h := by
    rw [Bool.or_eq_true, Bool.and_eq_true, Bool.not_eq_true'] at h
    exact h.elim hkind And.right
  closed h := h

theorem SockKept.connect (t : AcceptSocket) (ok : Bool) :
    SockKept t { t with connected := t.connected || ok && !t.listening } where
  used := rfl
  glueingBlock := rfl
  queue _ h := h
  listening h := h
  connected h := by simp [h]
  kind hkind h := by simp_all
  closed h := h

structure SockTouched (t t' : AcceptSocket) : Prop extends SockKept t t' where
  open_eq : t'.closed = t.closed
  unused : t.used = false → t' = t

namespace SockTouched

variable {t t' t'' : AcceptSocket} {s : CommandState} {so : SocketPtr}
  {f : AcceptSocket → AcceptSocket}

theorem refl (t : AcceptSocket) : SockTouched t t := ⟨SockKept.refl t, rfl, fun _ => rfl⟩

theorem of_used (hkept : SockKept t t') (hclosed : t'.closed = t.closed) (hused : t.used = true) :
    SockTouched t t' :=
  ⟨hkept, hclosed, fun hunused => by simp [hused] at hunused⟩

theorem trans (h : SockTouched t t') (h' : SockTouched t' t'') : SockTouched t t'' where
  used := h'.used.trans h.used
  glueingBlock := h'.glueingBlock.trans h.glueingBlock
  queue _ hx := h.queue (h'.queue hx)
  listening := h'.listening ∘ h.listening
  connected := h'.connected ∘ h.connected
  kind := h'.kind ∘ h.kind
  closed := h'.closed ∘ h.closed
  open_eq := h'.open_eq.trans h.open_eq
  unused hunused := (h'.unused (h.used.trans hunused)).trans (h.unused hunused)

theorem modifySock (h : SockTouched (s.sock so) (f (s.sock so))) (x : SocketPtr) :
    SockTouched (s.sock x) ((s.modifySock so f).sock x) := by
  by_cases hx : x = so
  · subst hx
    rwa [modifySock_self]
  · rw [modifySock_of_ne _ _ hx]
    exact refl _

end SockTouched

structure SockBound (i : Slot) (t t' : AcceptSocket) : Prop where
  used : t'.used = true
  closed : t'.closed = false
  glueingBlock : t'.glueingBlock = some i
  queue : t'.queue ⊆ t.queue
  listening : t.listening = true → t'.listening = true
  connected : t.connected = true → t'.connected = true
  kind : t'.listening = true → t'.connected = false

structure Quiet (s t : CommandState) : Prop where
  sat : t.sat = s.sat
  sock : t.sock = s.sock
  target : ∀ x, (t.pc .server).target = some x → (s.pc .server).target = some x

namespace Quiet

variable {s t u : CommandState} {th : Thread}

theorem refl (s : CommandState) : Quiet s s := ⟨rfl, rfl, fun _ h => h⟩

theorem setPc {pc : Pc} (hsat : u.sat = s.sat) (hsock : u.sock = s.sock) (hpc : u.pc = s.pc)
    (htarget : ∀ x, pc.target = some x → (s.pc th).target = some x) : Quiet s (u.setPc th pc) := by
  refine ⟨hsat, hsock, fun x hx => ?_⟩
  by_cases hth : th = .server
  · subst hth
    exact htarget x (by simpa [CommandState.setPc] using hx)
  · simpa [CommandState.setPc, Function.update_of_ne (Ne.symm hth), hpc] using hx

end Quiet

def CommandAction.isLoud : CommandAction → Bool
  | .perform .. | .acceptFirst | .newconn .. | .gone _ => true
  | _ => false

theorem commandStep_quiet {s t : CommandState} (ha : a.isLoud = false)
    (h : commandStep s a = some t) : Quiet s t := by
  cases stepped h with
  | noSlot | noItem | submitRefused => exact Quiet.refl s
  | takesData | submits => exact ⟨rfl, rfl, fun _ h => h⟩
  | announces hpc => exact Quiet.setPc rfl rfl rfl (by simp [hpc, Pc.target])
  | refused =>
    apply Quiet.setPc rfl rfl rfl
    split <;> simp [Pc.target]
  | performs | queueDone | takesFirst | connects | goes => cases ha
  | _ => exact Quiet.setPc rfl rfl rfl (by simp [Pc.target])

section CloseSocket

variable {s : CommandState} {so x : SocketPtr}

theorem endQueue_sock (present : Bool) (sos : List SocketPtr) (s : CommandState) (x : SocketPtr) :
    (s.endQueue present sos).sock x = { s.sock x with
      accepted := (s.sock x).accepted || decide (x ∈ sos) && present
      closed := (s.sock x).closed || decide (x ∈ sos) && !present } := by
  induction sos generalizing s with
  | nil => simp [endQueue]
  | cons so sos ih =>
    rw [endQueue, ih]
    by_cases hx : x = so
    · subst hx
      cases present <;> simp
    · simp [modifySock_of_ne _ _ hx, hx]

theorem closeSocket_kept (s : CommandState) (so x : SocketPtr) :
    SockKept (s.sock x) ((s.closeSocket so).sock x) := by
  by_cases hx : x = so
  · subst hx
    rw [closeSocket, modifySock_self, endQueue_sock]
    exact ⟨rfl, rfl, nil_subset _, id, id, id, fun _ => rfl⟩
  · rw [closeSocket, modifySock_of_ne _ _ hx, endQueue_sock]
    exact ⟨rfl, rfl, List.Subset.refl _, id, id, id, fun h => by simp [h]⟩

theorem closeSocket_sock_of_ne (hx : x ≠ so) (hqueue : x ∉ (s.sock so).queue) :
    (s.closeSocket so).sock x = s.sock x := by
  rw [closeSocket, modifySock_of_ne _ _ hx, endQueue_sock]
  simp [hqueue]

theorem closeSocket_self : ((s.closeSocket so).sock so).closed = true ∧
    ((s.closeSocket so).sock so).queue = [] := by
  simp [closeSocket, modifySock]

theorem closeSocket_sat (s : CommandState) (so : SocketPtr) : (s.closeSocket so).sat = s.sat := by
  rw [closeSocket_frame]

end CloseSocket

structure SockInv (s : CommandState) (so : SocketPtr) : Prop where
  unused : (s.sock so).used = false → s.sock so = {}
  live : Located s.contents (.conn so) → (s.sock so).used = true ∧ (s.sock so).closed = false
  linked : ∀ i, s.sat i = some so → (s.sock so).glueingBlock = some i
  bound : ∀ i, (s.sock so).glueingBlock = some i → (s.sock so).closed = false → s.sat i = some so
  kind : (s.sock so).listening = true → (s.sock so).connected = false
  queueing : (s.sock so).queue ≠ [] → (s.sock so).listening = true
  queued : ∀ so2 ∈ (s.sock so).queue, (s.sock so2).connected = true
  ended : (s.sock so).closed = true → (s.sock so).queue = []

namespace CommandInv

variable {s t : CommandState} {lost : List Token}

theorem located_bound (hsat : s.sat i = some so) :
    conn so ∈ s.contents (.bound i) ∧ slot i ∈ s.contents (.bound i) := by
  simp [contents, hsat, boundTokens]

theorem mem_queue (h : so2 ∈ (s.sock so).queue) :
    conn so2 ∈ s.contents (.queue so) := by
  simpa [contents] using h

theorem of_socks {new : List Token} (h : CommandInv s) (hflow : Flow lost new s.contents t.contents)
    (hfresh : Fresh s.contents new)
    (hsocks : ∀ so, SockInv t so) (htarget : (t.pc .server).target = none) : CommandInv t where
  once := hflow.atMostOnce h.once hfresh
  unused so := (hsocks so).unused
  live so := (hsocks so).live
  linked i so := (hsocks so).linked i
  bound i so := (hsocks so).bound i
  kind so := (hsocks so).kind
  queueing so := (hsocks so).queueing
  queued so := (hsocks so).queued
  ended so := (hsocks so).ended
  target l listener hpc := by
    rw [htarget] at hpc
    cases hpc

theorem sock_of_eq (h : CommandInv s) (hsock : t.sock so = s.sock so)
    (hloc : Located t.contents (.conn so) → Located s.contents (.conn so))
    (hsat : ∀ i, t.sat i = some so ↔ s.sat i = some so)
    (hqueued : ∀ so2 ∈ (s.sock so).queue, (s.sock so2).connected = true →
      (t.sock so2).connected = true) : SockInv t so where
  unused := hsock ▸ h.unused so
  live hso := hsock ▸ h.live so (hloc hso)
  linked i hi := hsock ▸ h.linked i so ((hsat i).mp hi)
  bound i hblock hopen := (hsat i).mpr (h.bound i so (hsock ▸ hblock) (hsock ▸ hopen))
  kind := hsock ▸ h.kind so
  queueing := hsock ▸ h.queueing so
  queued so2 hso2 := by
    rw [hsock] at hso2
    exact hqueued so2 hso2 (h.queued so so2 hso2)
  ended := hsock ▸ h.ended so

theorem of_kept (h : CommandInv s) (hflow : Flow lost [] s.contents t.contents)
    (hkept : ∀ so, SockKept (s.sock so) (t.sock so))
    (hclosed : ∀ so, (t.sock so).closed = true →
      (s.sock so).closed = true ∨ ¬ Located t.contents (.conn so) ∧ (t.sock so).queue = [])
    (hsat : ∀ i, t.sat i = s.sat i ∨
      t.sat i = none ∧ ∀ so, s.sat i = some so → (t.sock so).closed = true)
    (hunused : ∀ so, (s.sock so).used = false → t.sock so = s.sock so)
    (htarget : ∀ l listener, (t.pc .server).target = some (l, listener) →
      t.sat l = some listener ∧ (t.sock listener).listening = true) : CommandInv t where
  once := hflow.atMostOnce h.once Fresh.nil
  unused so hso := by
  -- steps that bind no slot and create no socket. Whatever they close is on its way no more, and
  -- the slot of a socket that they close may be cleared
    rw [(hkept so).used] at hso
    rw [hunused so hso]
    exact h.unused so hso
  live so hso := by
    have hold : Located s.contents (.conn so) := by
      rcases hflow.located_or_mem_new hso with hold | hnew
      · exact hold
      · cases hnew
    refine ⟨(hkept so).used.trans (h.live so hold).1, ?_⟩
    by_contra hopen
    rcases hclosed so (Bool.not_eq_false _ ▸ hopen) with hwas | ⟨hgone, -⟩
    · simp [(h.live so hold).2] at hwas
    · exact hgone hso
  linked i so hso := by
    rw [(hkept so).glueingBlock]
    rcases hsat i with hsame | ⟨hnone, -⟩
    · exact h.linked i so (hsame ▸ hso)
    · simp [hnone] at hso
  bound i so hblock hopen := by
    rw [(hkept so).glueingBlock] at hblock
    have hwas : (s.sock so).closed = false := by
      by_contra hwas
      simp [(hkept so).closed (Bool.not_eq_false _ ▸ hwas)] at hopen
    have hso := h.bound i so hblock hwas
    rcases hsat i with hsame | ⟨-, hcleared⟩
    · exact hsame.trans hso
    · simp [hcleared so hso] at hopen
  kind so := (hkept so).kind (h.kind so)
  queueing so hso := by
    apply (hkept so).listening
    apply h.queueing
    intro hnil
    apply hso
    exact subset_nil.mp (hnil ▸ (hkept so).queue)
  queued so so2 hso := (hkept so2).connected (h.queued so so2 ((hkept so).queue hso))
  ended so hso := by
    rcases hclosed so hso with hwas | ⟨-, hnil⟩
    · exact subset_nil.mp (h.ended so hwas ▸ (hkept so).queue)
    · exact hnil
  target := htarget

theorem of_quiet (h : CommandInv s) (hflow : Flow lost [] s.contents t.contents)
    (hquiet : Quiet s t) : CommandInv t := by
  apply h.of_kept hflow
  · intro so
    rw [hquiet.sock]
    exact SockKept.refl _
  · intro so hso
    exact .inl (hquiet.sock ▸ hso)
  · intro i
    exact .inl (congrFun hquiet.sat i)
  · intro so _
    rw [hquiet.sock]
  · intro l listener hpc
    rw [hquiet.sat, hquiet.sock]
    exact h.target l listener (hquiet.target _ hpc)

theorem queue_eq_nil_of_connected (h : CommandInv s) (hso : (s.sock so).connected = true) :
    (s.sock so).queue = [] := by
  by_contra hne
  have hkind := h.kind so (h.queueing so hne)
  simp [hso] at hkind

theorem of_closeSocket (h : CommandInv s) (hflow : Flow lost [] s.contents t.contents)
    (hsock : t.sock = (s.closeSocket so).sock)
    (hso : Located s.contents (.conn so)) (hlost : conn so ∈ lost)
    (hqueue : s.contents (.queue so) ⊆ lost)
    (hsat : ∀ i, t.sat i = s.sat i ∨ t.sat i = none ∧ s.sat i = some so)
    (htarget : (t.pc .server).target = none) : CommandInv t := by
  -- `app_glue_close_socket` ends the socket and its queue, which nobody holds afterwards
  have hkept x : SockKept (s.sock x) (t.sock x) := hsock ▸ closeSocket_kept s so x
  -- the socket and its queue are nowhere any more, and a queued socket has no queue itself
  have hended x (hx : x = so ∨ x ∈ (s.sock so).queue) :
      ¬ Located t.contents (.conn x) ∧ (t.sock x).queue = [] := by
    rcases hx with rfl | hx
    · exact ⟨hflow.not_located_of_mem_lost h.once hlost (by simp), hsock ▸ closeSocket_self.2⟩
    · refine ⟨hflow.not_located_of_mem_lost h.once (hqueue (mem_queue hx)) (by simp), ?_⟩
      have hnil := h.queue_eq_nil_of_connected (h.queued so x hx)
      exact subset_nil.mp (hnil ▸ (hkept x).queue)
  have hother x (hx : ¬ (x = so ∨ x ∈ (s.sock so).queue)) : t.sock x = s.sock x := by
    rw [not_or] at hx
    rw [hsock, closeSocket_sock_of_ne hx.1 hx.2]
  apply h.of_kept hflow hkept
  · intro x hx
    by_cases hmem : x = so ∨ x ∈ (s.sock so).queue
    · exact .inr (hended x hmem)
    · exact .inl (hother x hmem ▸ hx)
  · intro i
    rcases hsat i with hsame | ⟨hnone, hwas⟩
    · exact .inl hsame
    · refine .inr ⟨hnone, fun x hx => ?_⟩
      obtain rfl : so = x := Option.some.inj (hwas.symm.trans hx)
      exact hsock ▸ closeSocket_self.1
  · intro x hx
    apply hother
    rintro (rfl | hmem)
    · simp [(h.live x hso).1] at hx
    · simp [(h.live x ⟨_, mem_queue hmem⟩).1] at hx
  · intro l listener hpc
    rw [htarget] at hpc
    cases hpc

theorem sat_eq_none (h : CommandInv s) {p : CommandPlace} (hp : p ≠ .bound i)
    (hslot : slot i ∈ s.contents p) : s.sat i = none := by
  cases hsat : s.sat i with
  | none => rfl
  | some so => exact absurd (h.once.unique hslot (located_bound hsat).2) hp

theorem of_bind (h : CommandInv s) {new : List Token} (hflow : Flow lost new s.contents t.contents)
    (hfresh : Fresh s.contents new)
    (hsat : t.sat = Function.update s.sat i (some so)) (hfree : s.sat i = none)
    (hsock : ∀ x, x ≠ so → t.sock x = s.sock x) (hso : SockBound i (s.sock so) (t.sock so))
    (hnew : ∀ x, conn x ∈ new → x = so) (hunbound : ∀ j, s.sat j ≠ some so)
    (htarget : (t.pc .server).target = none) : CommandInv t := by
  have hconnected x (hx : (s.sock x).connected = true) : (t.sock x).connected = true := by
    by_cases hne : x = so
    · subst hne
      exact hso.connected hx
    · rwa [hsock x hne]
  -- a slot other than `i` is bound as before, and not to `so`
  have hbound j x : t.sat j = some x ↔ j = i ∧ x = so ∨ j ≠ i ∧ s.sat j = some x := by
    by_cases hj : j = i
    · simp [hsat, hj, eq_comm]
    · simp [hsat, hj]
  apply h.of_socks hflow hfresh _ htarget
  intro x
  by_cases hne : x = so
  · subst hne
    constructor
    case unused => simp [hso.used]
    case live => exact fun _ => ⟨hso.used, hso.closed⟩
    case linked =>
      intro j hj
      rcases (hbound j x).mp hj with ⟨rfl, -⟩ | ⟨-, hj⟩
      · exact hso.glueingBlock
      · exact absurd hj (hunbound j)
    case bound =>
      intro j hj _
      obtain rfl : i = j := Option.some.inj (hso.glueingBlock.symm.trans hj)
      exact (hbound i x).mpr (.inl ⟨rfl, rfl⟩)
    case kind => exact hso.kind
    case queueing =>
      intro hx
      apply hso.listening
      apply h.queueing
      intro hnil
      exact hx (subset_nil.mp (hnil ▸ hso.queue))
    case queued => exact fun x2 hx2 => hconnected x2 (h.queued x x2 (hso.queue hx2))
    case ended => simp [hso.closed]
  · apply h.sock_of_eq (hsock x hne) _ _ fun x2 _ => hconnected x2
    · intro hx
      exact (hflow.located_or_mem_new hx).resolve_right fun hmem => hne (hnew x hmem)
    · intro j
      rw [hbound]
      constructor
      · rintro (⟨-, hx⟩ | ⟨-, hj⟩)
        · exact absurd hx hne
        · exact hj
      · intro hj
        refine .inr ⟨?_, hj⟩
        rintro rfl
        simp [hfree] at hj

theorem sat_ne_of_hand (h : CommandInv s) {th : Thread}
    (hso : conn so ∈ s.contents (.hand th)) (i : Slot) : s.sat i ≠ some so := by
  intro hsat
  cases h.once.unique hso (located_bound hsat).1

theorem not_located_of_unused (h : CommandInv s) (hso : (s.sock so).used = false) :
    ¬ Located s.contents (.conn so) := by
  intro hloc
  simp [(h.live so hloc).1] at hso

theorem of_touched (h : CommandInv s) (hflow : Flow lost [] s.contents t.contents)
    (hsat : t.sat = s.sat) (hsock : ∀ x, SockTouched (s.sock x) (t.sock x))
    (htarget : ∀ l listener, (t.pc .server).target = some (l, listener) →
      t.sat l = some listener ∧ (t.sock listener).listening = true) : CommandInv t := by
  apply h.of_kept hflow (fun x => (hsock x).toSockKept) _ _ _ htarget
  · intro x hx
    exact .inl ((hsock x).open_eq ▸ hx)
  · intro i
    exact .inl (congrFun hsat i)
  · intro x hx
    exact (hsock x).unused hx

theorem sat_used (h : CommandInv s) (hsat : s.sat i = some so) :
    (s.sock so).used = true :=
  (h.live so ⟨_, (located_bound hsat).1⟩).1

theorem perform (h : CommandInv s) (hstep : commandStep s (.perform created ok) = some t) :
    CommandInv t := by
  have hflow := commandStep_flow hstep
  obtain ⟨b, cmd, u, hpc, hcreated, hu, rfl⟩ := commandStep_perform hstep
  have htarget : ((u.setPc .server (.releasing b .done)).pc .server).target = none := by
    simp [setPc, Pc.target]
  have hhand : s.contents (.hand .server) = .buf b :: cmd.tokens := by
    simp [contents, hpc, Pc.tokens]
  simp only [lost, new, hpc] at hflow
  have hquiet : Quiet s (s.setPc .server (.releasing b .done)) :=
    Quiet.setPc rfl rfl rfl (by simp [Pc.target])
  cases hu with
  | same htokens hlost hnew => exact h.of_quiet (hnew ▸ hflow) hquiet
  | failed hnone =>
    subst hnone
    exact h.of_quiet hflow hquiet
  | @opened i parent type pid so hsome =>
    subst hsome
    have hfree : s.sat i = none :=
      h.sat_eq_none (p := .hand .server) (by simp) (by simp [hhand, ServiceCmd.tokens])
    have hunused : (s.sock so).used = false := hcreated so rfl
    have hnew : ¬ Located s.contents (.conn so) := h.not_located_of_unused hunused
    have hfresh : Fresh s.contents (performNew (some so)
        (.openSocket i parent type pid)) := by
      constructor <;> simp [performNew, hnew]
    apply h.of_bind hflow hfresh rfl hfree _ _ _ _ htarget
    · intro x hx
      rw [setPc_sock, modifySock_of_ne _ _ hx]
      rfl
    · constructor <;> simp [h.unused so hunused]
    · simp [performNew]
    · intro j hj
      exact hnew ⟨_, (located_bound hj).1⟩
  | @bound i parent so pid =>
    have hfree : s.sat i = none :=
      h.sat_eq_none (p := .hand .server) (by simp) (by simp [hhand, ServiceCmd.tokens])
    have hso : conn so ∈ s.contents (.hand .server) := by simp [hhand, ServiceCmd.tokens]
    have hlive := h.live so ⟨_, hso⟩
    apply h.of_bind hflow Fresh.nil rfl hfree _ _ (by simp [performNew])
      (h.sat_ne_of_hand hso) htarget
    · intro x hx
      rw [setPc_sock, modifySock_of_ne _ _ hx]
      rfl
    · exact ⟨by simpa using hlive.1, by simpa using hlive.2, by simp, by simp, by simp, by simp,
        by simpa using h.kind so⟩
  | @closed i so hsat =>
    apply h.of_closeSocket hflow rfl ⟨_, (located_bound hsat).1⟩ _ _ _ htarget
    · simp [performLost, hsat]
    · intro x hx
      simp [performLost, hsat, hx]
    · intro j
      by_cases hj : j = i
      · subst hj
        exact .inr ⟨by simp [setSat], hsat⟩
      · exact .inl (by simp [setSat, hj, closeSocket_sat])
  | @declined so =>
    apply h.of_closeSocket hflow rfl ⟨.hand .server, by simp [hhand, ServiceCmd.tokens]⟩ _ _ _
      htarget
    · simp [performLost]
    · exact subset_cons_self _ _
    · intro i
      exact .inl (congrFun (closeSocket_sat s so) i)
  | @connected i isConnect ipaddr port so hsat =>
    apply h.of_touched hflow rfl
    · rw [setPc_sock]
      apply SockTouched.modifySock
      exact .of_used (SockKept.connect _ (isConnect && ok)) rfl (h.sat_used hsat)
    · simp [Pc.target]
  | listening hsat =>
    apply h.of_touched hflow rfl
    · rw [setPc_sock]
      apply SockTouched.modifySock
      exact .of_used (SockKept.listen _ ok) rfl (h.sat_used hsat)
    · simp [Pc.target]

theorem used_of_queue (h : CommandInv s) (hqueue : (s.sock so).queue ≠ []) :
    (s.sock so).used = true := by
  by_contra hunused
  rw [Bool.not_eq_true] at hunused
  simp [h.unused so hunused] at hqueue

theorem queueDone (h : CommandInv s) (hflow : Flow lost [] s.contents
    ((s.modifySock so fun t => { t with acceptPresent := false }).setPc .server .idle).contents) :
    CommandInv
      ((s.modifySock so fun t => { t with acceptPresent := false }).setPc .server .idle) := by
  apply h.of_touched hflow rfl
  · rw [CommandState.setPc_sock]
    apply SockTouched.modifySock
    refine ⟨{ SockKept.refl _ with }, rfl, fun hunused => ?_⟩
    rw [h.unused so hunused]
  · simp [Pc.target]

theorem takesFirst (h : CommandInv s) {rest : List SocketPtr} {l : Slot}
    (hqueue : (s.sock so).queue = so2 :: rest) (hblock : (s.sock so).glueingBlock = some l)
    (ht : t = ((s.modifySock so fun t => { t with queue := rest }).modifySock so2 fun t =>
      { t with accepted := true }).setPc .server (.announcing so2 l so))
    (hflow : Flow lost [] s.contents t.contents) : CommandInv t := by
  subst ht
  have hne : (s.sock so).queue ≠ [] := by simp [hqueue]
  have hused2 : (s.sock so2).used = true :=
    (h.live so2 ⟨_, mem_queue (show so2 ∈ (s.sock so).queue by simp [hqueue])⟩).1
  have hfirst : SockTouched (s.sock so) { s.sock so with queue := rest } := by
    refine .of_used { SockKept.refl _ with queue := ?_ } rfl (h.used_of_queue hne)
    simp [hqueue]
  have hmodified := SockTouched.modifySock (s := s) (f := fun t => { t with queue := rest }) hfirst
  have htouched x : SockTouched (s.sock x)
      (((s.modifySock so fun t => { t with queue := rest }).modifySock so2 fun t =>
        { t with accepted := true }).sock x) := by
    apply (hmodified x).trans
    apply SockTouched.modifySock
    refine .of_used { SockKept.refl _ with } rfl ?_
    rw [(hmodified so2).used]
    exact hused2
  apply h.of_touched hflow rfl htouched
  intro l' listener hl
  simp only [CommandState.setPc_self, Pc.target, Option.some.injEq, Prod.mk.injEq] at hl
  obtain ⟨rfl, rfl⟩ := hl
  have hopen : (s.sock so).closed = false := by
    by_contra hclosed
    exact hne (h.ended so (Bool.not_eq_false _ ▸ hclosed))
  exact ⟨h.bound l so hblock hopen, (htouched so).listening (h.queueing so hne)⟩

theorem connects (h : CommandInv s) {faddr fport : Nat} (hidle : s.pc .server = .idle)
    (hused : (s.sock so).used = true)
    (hlistening : (s.sock so).listening = true) (hopen : (s.sock so).closed = false)
    (hunused : (s.sock so2).used = false)
    (ht : t = (s.modifySock so fun t =>
      { t with queue := t.queue ++ [so2], acceptPresent := true }).modifySock so2 fun _ =>
        { used := true, connected := true, faddr, fport })
    (hflow : Flow lost [.conn so2] s.contents t.contents) : CommandInv t := by
  have hne : so ≠ so2 := by
    rintro rfl
    simp [hused] at hunused
  have hfresh : Fresh s.contents [conn so2] :=
    ⟨by simp, by simpa using h.not_located_of_unused hunused⟩
  have hnew : t.sock so2 = { used := true, connected := true, faddr, fport } := by
    rw [ht, modifySock_self]
  have hself : t.sock so =
      { s.sock so with queue := (s.sock so).queue ++ [so2], acceptPresent := true } := by
    rw [ht, modifySock_of_ne _ _ hne, modifySock_self]
  have hother x (hx : x ≠ so) (hx2 : x ≠ so2) : t.sock x = s.sock x := by
    rw [ht, modifySock_of_ne _ _ hx2, modifySock_of_ne _ _ hx]
  have hsat : t.sat = s.sat := by
    rw [ht]
    rfl
  have hpc : t.pc = s.pc := by
    rw [ht]
    rfl
  have hconnected x (hx : (s.sock x).connected = true) : (t.sock x).connected = true := by
    by_cases hx2 : x = so2
    · rw [hx2, hnew]
    · by_cases hxso : x = so
      · rw [hxso, hself]
        rwa [hxso] at hx
      · rwa [hother x hxso hx2]
  apply h.of_socks hflow hfresh _ (by simp [hpc, hidle, Pc.target])
  intro x
  by_cases hx2 : x = so2
  · subst hx2
    constructor
    case linked =>
      intro i hi
      rw [hsat] at hi
      exact absurd ⟨_, (located_bound hi).1⟩ (h.not_located_of_unused hunused)
    all_goals simp [hnew]
  by_cases hxso : x = so
  · subst hxso
    constructor <;> rw [hself]
    case unused => simp [hused]
    case live => exact fun _ => ⟨hused, hopen⟩
    case linked => exact fun i hi => h.linked i x (hsat ▸ hi)
    case bound => exact fun i hi hc => hsat ▸ h.bound i x hi hc
    case kind => exact h.kind x
    case queueing => exact fun _ => hlistening
    case queued =>
      intro x2 hmem
      rcases mem_append.mp hmem with hold | hlast
      · exact hconnected x2 (h.queued x x2 hold)
      · rw [mem_singleton.mp hlast, hnew]
    case ended => simp [hopen]
  · apply h.sock_of_eq (hother x hxso hx2) _ (by simp [hsat]) fun y _ => hconnected y
    intro hx
    exact (hflow.located_or_mem_new hx).resolve_right (by simpa using hx2)

theorem goes (h : CommandInv s) (hidle : s.pc .server = .idle) (hclosed : (s.sock so).closed = true)
    (hflow : Flow lost [] s.contents (s.modifySock so fun _ => {}).contents) :
    CommandInv (s.modifySock so fun _ => {}) := by
  have hnotLocated : ¬ Located s.contents (.conn so) := by
    intro hloc
    simp [(h.live so hloc).2] at hclosed
  have hother x (hx : x ≠ so) : (s.modifySock so fun _ => {}).sock x = s.sock x :=
    modifySock_of_ne _ _ hx
  have hloc x (hx : Located (s.modifySock so fun _ => {}).contents (.conn x)) :
      Located s.contents (.conn x) :=
    (hflow.located_or_mem_new hx).resolve_right not_mem_nil
  have hpc : (s.modifySock so fun _ => {}).pc = s.pc := rfl
  apply h.of_socks hflow Fresh.nil _ (by simp [hpc, hidle, Pc.target])
  intro x
  by_cases hx : x = so
  · subst hx
    constructor
    case live => exact fun hx => absurd (hloc x hx) hnotLocated
    case linked =>
      intro i hi
      exact absurd ⟨_, (located_bound (s := s) hi).1⟩ hnotLocated
    all_goals simp
  · apply h.sock_of_eq (hother x hx) (hloc x) (fun _ => Iff.rfl)
    intro x2 hmem hconnected
    have hx2 : x2 ≠ so := by
      rintro rfl
      exact hnotLocated ⟨_, mem_queue hmem⟩
    rwa [hother x2 hx2]

theorem step (h : CommandInv s) (hstep : commandStep s a = some t) :
    CommandInv t := by
  have hflow := commandStep_flow hstep
  by_cases ha : a.isLoud = false
  · have hquiet := commandStep_quiet ha hstep
    cases a with
    | perform | acceptFirst | newconn | gone => cases ha
    | _ => exact h.of_quiet hflow hquiet
  cases stepped hstep with
  | performs => exact h.perform hstep
  | queueDone => exact h.queueDone hflow
  | takesFirst _ hqueue hblock => exact h.takesFirst hqueue hblock rfl hflow
  | connects hidle hused hlistening hopen hunused =>
    exact h.connects hidle hused hlistening hopen hunused rfl hflow
  | goes hidle hclosed => exact h.goes hidle hclosed hflow
  | _ => exact absurd rfl ha

theorem mem_contents_start {pool : List Nat} {p : CommandPlace} {x : Token}
    (hx : x ∈ (CommandState.start pool).contents p) :
    p = .pool ∧ (∃ b, x = .buf b) ∨ p = .free ∧ ∃ i, x = .slot i := by
  cases p with
  | pool =>
    obtain ⟨b, -, rfl⟩ := List.mem_map.mp hx
    exact .inl ⟨rfl, b, rfl⟩
  | free =>
    obtain ⟨i, -, rfl⟩ := List.mem_map.mp hx
    exact .inr ⟨rfl, i, rfl⟩
  | _ => cases hx

theorem perform_sat (h : CommandInv s) {cmd : ServiceCmd} {b : Nat}
    (hpc : s.pc .server = .processing b cmd)
    (hperform : CommandState.Performed created ok s cmd t) (hcmd : cmd ≠ .close i)
    (hsat : s.sat i = some so) : t.sat i = some so := by
  -- a slot that the command brings is another one
  have hslot j (hj : Token.slot j ∈ cmd.tokens) : i ≠ j := by
    rintro rfl
    have hnone : s.sat i = none := h.sat_eq_none (p := .hand .server) (by simp)
      (by simp [contents, hpc, Pc.tokens, hj])
    simp [hsat] at hnone
  cases hperform with
  | @opened j | @bound j =>
    simpa [setSat, hslot j (by simp [ServiceCmd.tokens])] using hsat
  | @closed j =>
    have hj : i ≠ j := fun hij => hcmd (hij ▸ rfl)
    simpa [setSat, hj, closeSocket_sat] using hsat
  | declined => rwa [closeSocket_sat]
  | same | failed | connected | listening => exact hsat

theorem sat_or_close (h : CommandInv s) (hstep : commandStep s a = some t)
    (hsat : s.sat i = some so) :
    t.sat i = some so ∨ ∃ created ok b, a = .perform created ok ∧
      s.pc .server = .processing b (.close i) := by
  by_cases ha : a.isLoud = false
  · exact .inl ((commandStep_quiet ha hstep).sat ▸ hsat)
  cases stepped hstep with
  | @performs created ok b cmd u hpc _ hu =>
    by_cases hcmd : cmd = .close i
    · exact .inr ⟨created, ok, b, rfl, hcmd ▸ hpc⟩
    · have hsame : u.sat i = some so := h.perform_sat hpc hu hcmd hsat
      exact .inl hsame
  | queueDone | takesFirst | connects | goes => exact .inl hsat
  | _ => exact absurd rfl ha

end CommandInv

structure SockKind (listens : Prop) (t t' : AcceptSocket) : Prop where
  listening : t.listening = true → t'.listening = true
  connected : t.connected = true → t'.connected = true
  started : t'.listening = true → t.listening = true ∨ listens

section SockKind

variable {s t : CommandState} {so : SocketPtr} {listens : Prop}

theorem SockKind.of_eq {t t' : AcceptSocket} (hlistening : t'.listening = t.listening)
    (hconnected : t'.connected = t.connected) : SockKind listens t t' :=
  ⟨fun h => hlistening.trans h, fun h => hconnected.trans h, fun h => .inl (hlistening ▸ h)⟩

theorem SockKind.trans {t t' t'' : AcceptSocket} (h : SockKind listens t t')
    (h' : SockKind listens t' t'') : SockKind listens t t'' :=
  ⟨h'.listening ∘ h.listening, h'.connected ∘ h.connected,
    fun hl => (h'.started hl).elim h.started .inr⟩

theorem SockKind.modifySock {so' : SocketPtr} {f : AcceptSocket → AcceptSocket}
    (h : so = so' → SockKind listens (s.sock so) (f (s.sock so))) :
    SockKind listens (s.sock so) ((s.modifySock so' f).sock so) := by
  by_cases hso : so = so'
  · subst hso
    rw [modifySock_self]
    exact h rfl
  · rw [modifySock_of_ne _ _ hso]
    exact .of_eq rfl rfl

theorem closeSocket_kind (s : CommandState) (so' : SocketPtr) :
    SockKind listens (s.sock so) ((s.closeSocket so').sock so) := by
  have hqueue : SockKind listens (s.sock so)
      ((s.endQueue (s.sock so').acceptPresent (s.sock so').queue).sock so) := by
    rw [endQueue_sock]
    exact .of_eq rfl rfl
  apply hqueue.trans
  exact SockKind.modifySock fun _ => .of_eq rfl rfl

theorem perform_kind {cmd : ServiceCmd} (hperform : CommandState.Performed created ok s cmd t)
    (hso : created ≠ some so) :
    SockKind (∃ i, cmd = .listenSocket i ∧ s.sat i = some so) (s.sock so) (t.sock so) := by
  cases hperform with
  | same | failed => exact .of_eq rfl rfl
  | @opened j _ _ _ so' hcreated =>
    apply SockKind.modifySock (s := s.setSat j (some so'))
    rintro rfl
    exact absurd hcreated hso
  | @bound j _ so' => exact SockKind.modifySock (s := s.setSat j (some so')) fun _ => .of_eq rfl rfl
  | connected => exact SockKind.modifySock fun _ => ⟨id, fun h => by simp [h], .inl⟩
  | @listening j so' hsat =>
    apply SockKind.modifySock
    rintro rfl
    exact ⟨fun h => by simp [h], id, fun _ => .inr ⟨j, rfl, hsat⟩⟩
  | closed | declined => exact closeSocket_kind s _

theorem commandStep_kind (hstep : commandStep s a = some t) (hused : (s.sock so).used = true)
    (hopen : (s.sock so).closed = false) :
    SockKind (∃ created ok b i, a = .perform created ok ∧
      s.pc .server = .processing b (.listenSocket i) ∧ s.sat i = some so)
      (s.sock so) (t.sock so) := by
  by_cases ha : a.isLoud = false
  · rw [(commandStep_quiet ha hstep).sock]
    exact .of_eq rfl rfl
  cases stepped hstep with
  | @performs created ok b cmd u hpc hcreated hu =>
    have hso : created ≠ some so := by
      rintro rfl
      simp [hused] at hcreated
    have hkind := perform_kind hu hso
    refine { hkind with started := fun h => (hkind.started h).imp_right ?_ }
    rintro ⟨i, rfl, hsat⟩
    exact ⟨created, ok, b, i, rfl, hpc, hsat⟩
  | queueDone =>
    rw [setPc_sock]
    exact SockKind.modifySock fun _ => .of_eq rfl rfl
  | @takesFirst so' _ rest =>
    rw [setPc_sock]
    refine SockKind.trans (?_ : SockKind _ _
      ((s.modifySock so' fun t => { t with queue := rest }).sock so)) ?_
    · exact SockKind.modifySock fun _ => .of_eq rfl rfl
    · exact SockKind.modifySock fun _ => .of_eq rfl rfl
  | @connects so' so2 _ _ _ _ _ _ hunused =>
    have hne : so ≠ so2 := by
      rintro rfl
      simp [hused] at hunused
    rw [modifySock_of_ne _ _ hne]
    exact SockKind.modifySock fun _ => .of_eq rfl rfl
  | @goes so' _ hclosed =>
    have hne : so ≠ so' := by
      rintro rfl
      simp [hopen] at hclosed
    rw [modifySock_of_ne _ _ hne]
    exact .of_eq rfl rfl
  | _ => exact absurd rfl ha

end SockKind

namespace CommandInv

variable {s t : CommandState}

theorem listening_or_close (h : CommandInv s) (hstep : commandStep s a = some t)
    (hi : s.Listening i) :
    t.Listening i ∨ ∃ created ok b, a = .perform created ok ∧
      s.pc .server = .processing b (.close i) := by
  obtain ⟨so, hsat, hlistening⟩ := hi
  have hlive := h.live so ⟨_, (located_bound hsat).1⟩
  rcases h.sat_or_close hstep hsat with hsame | hclose
  · exact .inl ⟨so, hsame, (commandStep_kind hstep hlive.1 hlive.2).listening hlistening⟩
  · exact .inr hclose

theorem start {pool : List Nat} (hpool : pool.Nodup) : CommandInv (.start pool) where
  once := by
    apply AtMostOnce.of_unique
    · intro p
      cases p with
      | pool => exact hpool.map fun _ _ h => buf.inj h
      | free =>
        apply List.Nodup.map fun _ _ h => slot.inj h
        exact (nodup_finRange _).sublist (take_sublist _ _)
      | _ => exact nodup_nil
    · intro x p q hp hq
      rcases mem_contents_start hp with ⟨rfl, b, rfl⟩ | ⟨rfl, i, rfl⟩ <;>
        rcases mem_contents_start hq with ⟨rfl, b, h⟩ | ⟨rfl, i, h⟩ <;> first | rfl | cases h
  unused _ _ := rfl
  live so hso := by
    obtain ⟨p, hp⟩ := hso
    rcases mem_contents_start hp with ⟨-, b, h⟩ | ⟨-, i, h⟩ <;> cases h
  linked _ _ h := by cases h
  bound _ _ h := by cases h
  kind _ h := by cases h
  queueing _ h := absurd rfl h
  queued _ _ h := by cases h
  ended _ _ := rfl
  target _ _ h := by cases h

end CommandInv

end NetbsdDpdk
