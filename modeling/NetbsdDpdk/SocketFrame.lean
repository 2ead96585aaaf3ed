import NetbsdDpdk.SocketStack

/-! What the functions of the stack leave alone. Waking a socket up, disconnecting it and freeing
it concern that socket only; they never change how it is queued, referenced or linked. -/

namespace NetbsdDpdk

structure SocketCore where
  noFdRef : Bool
  aborting : Bool
  head : Option SocketPtr
  queue : List SocketPtr
  upcall2 : Bool
  glueingBlock : Option Slot

def Socket.core (t : Socket) : SocketCore :=
  ⟨t.noFdRef, t.aborting, t.head, t.queue, t.upcall2, t.glueingBlock⟩

def SocketStack.CalledFor (s : SocketStack) (so : SocketPtr) (h : HookCall) : Prop :=
  (s.sock so).live = true ∧ (s.sock so).glueingBlock = some h.slot ∧
    h = ⟨so, h.slot, (s.sat h.slot).ringsetIdx, (s.sat h.slot).socket⟩

structure Touches (so : SocketPtr) (s t : SocketStack) : Prop where
  other : ∀ so', so' ≠ so → t.sock so' = s.sock so'
  sat : t.sat = s.sat
  core : (t.sock so).core = (s.sock so).core
  live : (t.sock so).live = (s.sock so).live ∨
    (t.sock so).live = false ∧ (s.sock so).noFdRef = true ∧ (s.sock so).head = none
  hooks : ∀ h ∈ t.hooks, h ∈ s.hooks ∨ s.CalledFor so h

namespace Touches

variable {so : SocketPtr} {s t u : SocketStack}

theorem glueingBlock (h : Touches so s t) :
    (t.sock so).glueingBlock = (s.sock so).glueingBlock := congrArg SocketCore.glueingBlock h.core

theorem head (h : Touches so s t) : (t.sock so).head = (s.sock so).head :=
  congrArg SocketCore.head h.core

theorem queue (h : Touches so s t) : (t.sock so).queue = (s.sock so).queue :=
  congrArg SocketCore.queue h.core

theorem noFdRef (h : Touches so s t) : (t.sock so).noFdRef = (s.sock so).noFdRef :=
  congrArg SocketCore.noFdRef h.core

theorem upcall2 (h : Touches so s t) : (t.sock so).upcall2 = (s.sock so).upcall2 :=
  congrArg SocketCore.upcall2 h.core

theorem live_of_live (h : Touches so s t) (hlive : (t.sock so).live = true) :
    (s.sock so).live = true := by
  rcases h.live with heq | ⟨hdead, -⟩
  · rwa [heq] at hlive
  · simp [hdead] at hlive

theorem core_eq (h : Touches so s t) (so' : SocketPtr) :
    (t.sock so').core = (s.sock so').core := by
  by_cases heq : so' = so
  · rw [heq, h.core]
  · rw [h.other so' heq]

theorem refl (so : SocketPtr) (s : SocketStack) : Touches so s s :=
  ⟨fun _ _ => rfl, rfl, rfl, .inl rfl, fun _ hmem => .inl hmem⟩

theorem trans (h : Touches so s t) (h' : Touches so t u) : Touches so s u where
  other so' hne := (h'.other so' hne).trans (h.other so' hne)
  sat := h'.sat.trans h.sat
  core := h'.core.trans h.core
  live := by
    rcases h'.live with heq | ⟨hdead, hno, hhead⟩
    · rw [heq]
      exact h.live
    · exact .inr ⟨hdead, h.noFdRef ▸ hno, h.head ▸ hhead⟩
  hooks := by
    intro hk hmem
    rcases h'.hooks hk hmem with hold | ⟨hlive, hglue, heq⟩
    · exact h.hooks hk hold
    · rw [h.glueingBlock] at hglue
      rw [h.sat] at heq
      exact .inr ⟨h.live_of_live hlive, hglue, heq⟩

theorem of_lists (h : Touches so s t) (lists : ReadyList → List SocketPtr) :
    Touches so s { t with lists } :=
  ⟨h.other, h.sat, h.core, h.live, h.hooks⟩

end Touches

structure StackRule (so : SocketPtr) (R : SocketStack → SocketStack → Prop) : Prop where
  refl : ∀ s, R s s
  trans : ∀ {s t u}, R s t → R t u → R s u
  modify : ∀ s f, (∀ t : Socket, (f t).core = t.core ∧ (f t).live = t.live ∧
    (f t).present = t.present ∧ (f t).disconnected = t.disconnected) → R s (s.modify so f)
  insert : ∀ s, R s (s.insert .waiter so)
  sowakeup : ∀ s, R s (s.sowakeup so)
  unlink : ∀ s k, k ≠ .closed → R s (s.unlink k so)
  reflect : ∀ s, R s (s.reflect so)
  soisdisconnected : ∀ s, R s (s.soisdisconnected so)
  sofree : ∀ s, R s (s.sofree so)

namespace StackRule

variable {so : SocketPtr} {R : SocketStack → SocketStack → Prop} {s t : SocketStack} {i : Slot}

theorem modify_wakeups (hR : StackRule so R) (s : SocketStack) (f : Socket → Socket)
    (hf : ∀ t : Socket, (f t).core = t.core ∧ (f t).live = t.live ∧ (f t).present = t.present ∧
      (f t).disconnected = t.disconnected) : R s (((s.modify so f).sowakeup so).sowakeup so) :=
  hR.trans (hR.modify s f hf) (hR.trans (hR.sowakeup _) (hR.sowakeup _))

theorem soisconnected (hR : StackRule so R) (s : SocketStack) : R s (s.soisconnected so) :=
  hR.modify_wakeups s _ fun _ => ⟨rfl, rfl, rfl, rfl⟩

theorem soisdisconnecting (hR : StackRule so R) (s : SocketStack) : R s (s.soisdisconnecting so) :=
  hR.modify_wakeups s _ fun _ => ⟨rfl, rfl, rfl, rfl⟩

theorem socantsendmore (hR : StackRule so R) (s : SocketStack) : R s (s.socantsendmore so) := by
  refine hR.trans ?_ (hR.sowakeup _)
  exact hR.modify s _ fun _ => ⟨rfl, rfl, rfl, rfl⟩

theorem sorflush (hR : StackRule so R) (s : SocketStack) : R s (s.sorflush so) :=
  hR.trans (hR.sowakeup s) (hR.reflect _)

theorem tcpClose (hR : StackRule so R) (s : SocketStack) : R s (s.tcpClose so) := by
  refine hR.trans (hR.trans (hR.soisdisconnected s) ?_) (hR.sofree _)
  exact hR.modify _ _ fun _ => ⟨rfl, rfl, rfl, rfl⟩

theorem tcpDrop (hR : StackRule so R) (s : SocketStack) (error : Bool) :
    R s (s.tcpDrop so error) := by
  refine hR.trans ?_ (hR.tcpClose _)
  exact hR.modify s _ fun _ => ⟨rfl, rfl, rfl, rfl⟩

theorem setTcpState (hR : StackRule so R) (s : SocketStack) (state : TcpState) :
    R s (s.setTcpState so state) := hR.modify s _ fun _ => ⟨rfl, rfl, rfl, rfl⟩

theorem tcpUsrclosed (hR : StackRule so R) (s : SocketStack) (state : TcpState) :
    R s (s.tcpUsrclosed so state) := by
  cases state with
  | closed | listen | synSent => exact hR.tcpClose s
  | synReceived | established | closeWait => exact hR.setTcpState s _
  | finWait2 | timeWait => exact hR.soisdisconnected s
  | finWait1 | closing | lastAck => exact hR.refl s

theorem tcpDisconnect (hR : StackRule so R) (s : SocketStack) (state : TcpState) :
    R s (s.tcpDisconnect so state) := by
  unfold SocketStack.tcpDisconnect
  split
  · exact hR.tcpClose s
  · split
    · exact hR.tcpDrop s false
    · exact hR.trans (hR.trans (hR.soisdisconnecting s) (hR.reflect _)) (hR.tcpUsrclosed _ state)

theorem detach (hR : StackRule so R) (s : SocketStack) : R s (s.detach so) := by
  unfold SocketStack.detach
  split
  · exact hR.tcpDisconnect s _
  · refine hR.trans ?_ (hR.sofree _)
    exact hR.modify s _ fun _ => ⟨rfl, rfl, rfl, rfl⟩
  · exact hR.refl s

theorem disconnect (hR : StackRule so R) (s : SocketStack) : R s (s.disconnect so) := by
  unfold SocketStack.disconnect
  split
  · exact hR.tcpDisconnect s _
  · exact hR.modify s _ fun _ => ⟨rfl, rfl, rfl, rfl⟩

end StackRule

namespace SocketStack

variable {so : SocketPtr} {s t : SocketStack}

@[simp] theorem modify_sock_self (s : SocketStack) (so : SocketPtr) (f : Socket → Socket) :
    (s.modify so f).sock so = f (s.sock so) := by
  simp [modify]

theorem modify_sock_of_ne (s : SocketStack) {so so' : SocketPtr} (f : Socket → Socket)
    (h : so' ≠ so) : (s.modify so f).sock so' = s.sock so' := by
  simp [modify, h]

@[simp] theorem modify_sat (s : SocketStack) (so : SocketPtr) (f : Socket → Socket) :
    (s.modify so f).sat = s.sat := rfl

@[simp] theorem modify_lists (s : SocketStack) (so : SocketPtr) (f : Socket → Socket) :
    (s.modify so f).lists = s.lists := rfl

@[simp] theorem setPresent_lists (s : SocketStack) (k : ReadyList) (so : SocketPtr) (b : Bool) :
    (s.setPresent k so b).lists = s.lists := rfl

theorem touches_modify (s : SocketStack) (so : SocketPtr) (f : Socket → Socket)
    (hcore : (f (s.sock so)).core = (s.sock so).core)
    (hlive : (f (s.sock so)).live = (s.sock so).live) : Touches so s (s.modify so f) :=
  ⟨fun _ hne => modify_sock_of_ne s f hne, rfl, by simpa using hcore, .inl (by simpa using hlive),
    fun _ hmem => .inl hmem⟩

theorem touches_setPresent (s : SocketStack) (k : ReadyList) (so : SocketPtr) (b : Bool) :
    Touches so s (s.setPresent k so b) :=
  touches_modify s so _ rfl rfl

theorem touches_insert (s : SocketStack) (k : ReadyList) (so : SocketPtr) :
    Touches so s (s.insert k so) := by
  unfold insert
  split
  · exact Touches.refl so s
  · exact (touches_setPresent s k so true).of_lists _

theorem touches_unlink (s : SocketStack) (k : ReadyList) (so : SocketPtr) :
    Touches so s (s.unlink k so) :=
  (touches_setPresent s k so false).of_lists _

theorem touches_reflect (s : SocketStack) (so : SocketPtr) : Touches so s (s.reflect so) := by
  unfold reflect
  split
  · next i hlive hglue =>
    refine ⟨fun _ _ => rfl, rfl, rfl, .inl rfl, ?_⟩
    intro h hmem
    rcases List.mem_append.mp hmem with hold | hnew
    · exact .inl hold
    · obtain rfl : h = _ := by simpa using hnew
      exact .inr ⟨hlive, hglue, rfl⟩
  · exact Touches.refl so s

theorem touches_sockReadable (s : SocketStack) (so : SocketPtr) :
    Touches so s (s.sockReadable so) := by
  simp only [sockReadable]
  split
  · exact touches_insert s .closed so
  · split
    · exact touches_insert s .accept so
    · exact touches_insert s .read so
    · exact Touches.refl so s
    · exact touches_insert s .read so

theorem touches_sockWriteSpace (s : SocketStack) (so : SocketPtr) :
    Touches so s (s.sockWriteSpace so) := by
  have hif : Touches so s (if (s.sock so).writable then s.insert .write so else s) := by
    split
    · exact touches_insert s .write so
    · exact Touches.refl so s
  simp only [sockWriteSpace]
  split
  · exact touches_insert s .closed so
  · split
    · exact hif
    · exact Touches.refl so s
    · exact hif

theorem touches_sowakeup (s : SocketStack) (so : SocketPtr) : Touches so s (s.sowakeup so) := by
  unfold sowakeup
  split
  · exact (touches_sockReadable s so).trans (touches_sockWriteSpace _ so)
  · exact Touches.refl so s

theorem touches_soisdisconnected (s : SocketStack) (so : SocketPtr) :
    Touches so s (s.soisdisconnected so) :=
  ((touches_modify s so _ rfl rfl).trans (touches_sowakeup _ so)).trans (touches_sowakeup _ so)

theorem touches_sofree (s : SocketStack) (so : SocketPtr) : Touches so s (s.sofree so) := by
  simp only [sofree]
  split
  · exact Touches.refl so s
  · next hcond =>
    simp only [Bool.or_eq_true, not_or, Bool.not_eq_true, Bool.not_eq_false',
      Option.isSome_eq_false_iff, Option.isNone_iff_eq_none] at hcond
    have hflush : Touches so s (((s.reflect so).modify so fun t =>
        { t with sndSpace := false }).sorflush so) :=
      ((touches_reflect s so).trans (touches_modify _ so _ rfl rfl)).trans
        ((touches_sowakeup _ so).trans (touches_reflect _ so))
    split
    · exact hflush
    · refine ⟨fun so' hne => ?_, hflush.sat, ?_, .inr ⟨by simp [soput], hcond.1.2, hcond.2⟩,
        hflush.hooks⟩
      · rw [soput, modify_sock_of_ne _ _ hne, hflush.other so' hne]
      · rw [soput, modify_sock_self]
        exact hflush.core

theorem touchesRule (so : SocketPtr) : StackRule so (Touches so) where
  refl := Touches.refl so
  trans := Touches.trans
  modify s f hf := touches_modify s so f (hf _).1 (hf _).2.1
  insert s := touches_insert s .waiter so
  sowakeup s := touches_sowakeup s so
  unlink s k _ := touches_unlink s k so
  reflect s := touches_reflect s so
  soisdisconnected s := touches_soisdisconnected s so
  sofree s := touches_sofree s so

theorem touches_tcpDrop (s : SocketStack) (so : SocketPtr) (error : Bool) :
    Touches so s (s.tcpDrop so error) := (touchesRule so).tcpDrop s error

theorem touches_detach (s : SocketStack) (so : SocketPtr) : Touches so s (s.detach so) :=
  (touchesRule so).detach s

theorem touches_disconnect (s : SocketStack) (so : SocketPtr) : Touches so s (s.disconnect so) :=
  (touchesRule so).disconnect s

theorem touches_aborting {v : SocketStack} (hidle : (s.sock so).aborting = false)
    (hdrop : Touches so (s.modify so fun t => { t with aborting := true }) v) :
    Touches so s ((v.modify so fun t => { t with aborting := false }).sofree so) := by
  have hbracket : Touches so s (v.modify so fun t => { t with aborting := false }) := by
    refine ⟨fun so' hne => ?_, hdrop.sat, ?_, ?_, ?_⟩
    · rw [modify_sock_of_ne _ _ hne, hdrop.other so' hne, modify_sock_of_ne _ _ hne]
    · have hcore := hdrop.core
      simp only [Socket.core, modify_sock_self, SocketCore.mk.injEq] at hcore ⊢
      exact ⟨hcore.1, hidle.symm, hcore.2.2⟩
    · simpa using hdrop.live
    · intro h hmem
      rcases hdrop.hooks h hmem with hold | ⟨hlive, hglue, heq⟩
      · exact .inl hold
      · exact .inr ⟨by simpa using hlive, by simpa using hglue, heq⟩
  exact hbracket.trans (touches_sofree _ so)

theorem touches_soabort (hidle : (s.sock so).aborting = false) : Touches so s (s.soabort so) := by
  apply touches_aborting hidle
  split
  · exact touches_tcpDrop _ so true
  · exact Touches.refl so _

end SocketStack

end NetbsdDpdk
