import NetbsdDpdk.AcceptQueue
import NetbsdDpdk.Transition

/-! How the loss of a connection is announced. `soisdisconnected` puts the socket on the list of
closed sockets once; the next pass of `process_rx_ready_sockets` takes it off again and reports it
to the selector of its slot, if it has a slot by then and the slot has a selector. -/

namespace NetbsdDpdk

open Function

open SocketStack

/-- The stack, and for each socket the CLOSED events since it came from the pool: the `ringset_idx`
and the selector on whose ring it was put. -/
structure ClosureState where
  stack : SocketStack
  closed : SocketPtr → List (Option Slot × Selector)

def SocketStack.processRounds (k : ReadyList) : Nat → SocketStack → Option SocketStack
  | 0, s => some s
  | n + 1, s => do processRounds k n (← s.processFirst k)

namespace ClosureState

def start : ClosureState := ⟨SocketStack.start, fun _ => []⟩

/-- `user_on_closure` and `service_mark_closed`, on a ring that is not full. -/
def userOnClosure (s : ClosureState) (so : SocketPtr) : ClosureState :=
  match (s.stack.sock so).glueingBlock with
  | none => s
  | some i =>
    match (s.stack.sat i).parentIdx with
    | none => s
    | some p => { s with
        closed := Function.update s.closed so (s.closed so ++ [((s.stack.sat i).ringsetIdx, p)]) }

def closedRound (s : ClosureState) (so : SocketPtr) : ClosureState :=
  { s.userOnClosure so with stack := s.stack.unlink .closed so }

/-- `reads` is the counter that limits the loop over the readable sockets. -/
def processRxReadySockets (s : ClosureState) (reads : Nat) : Option ClosureState := do
  let s := (s.stack.lists .closed).foldl closedRound s
  let stack ← SocketStack.processRounds .accept (s.stack.lists .accept).length s.stack
  let stack ← SocketStack.processRounds .read (min reads (stack.lists .read).length) stack
  return { s with stack }

end ClosureState

inductive ClosureAction
  | stack (a : StackAction)
  | pass (reads : Nat)

def renewed (closed : SocketPtr → List (Option Slot × Selector)) :
    StackAction → SocketPtr → List (Option Slot × Selector)
  | .openSocket _ _ _ _ so | .newconn _ so => Function.update closed so []
  | _ => closed

def closureStep (s : ClosureState) : ClosureAction → Option ClosureState
  | .stack (.process .closed) => none
  | .stack a => do
    let stack ← stackStep s.stack a
    return ⟨stack, renewed s.closed a⟩
  | .pass reads => s.processRxReadySockets reads

def SocketStack.Open (s : SocketStack) (so : SocketPtr) (i : Slot) : Prop :=
  (s.sat i).socket = some so ∧ (s.sock so).glueingBlock = some i ∧ (s.sock so).noFdRef = false

instance (s : SocketStack) (so : SocketPtr) (i : Slot) : Decidable (s.Open so i) :=
  inferInstanceAs (Decidable (_ ∧ _ ∧ _))

/-- There was no loss of the connection, or the next pass will report it. -/
def Socket.Reportable (t : Socket) : Prop := t.disconnected = false ∨ t.present .closed = true

instance (t : Socket) : Decidable t.Reportable :=
  inferInstanceAs (Decidable (_ ∨ _))

/-- SET_SOCKET_RING names an accepted socket. Neither it nor SET_SOCKET_SELECT gives a new selector
to a socket whose loss a pass has already taken off the list. -/
def ClosureSafe (s : ClosureState) : ClosureAction → Prop
  | .stack (.setSocketRing i parent _ so) => (s.stack.sock so).upcall2 = true ∧
      ((parent = none ∧ (s.stack.sat i).parentIdx = none) ∨ (s.stack.sock so).Reportable)
  | .stack (.setSocketSelect i parent _) => parent = none ∨ parent = (s.stack.sat i).parentIdx ∨
      ∀ so ∈ (s.stack.sat i).socket, (s.stack.sock so).Reportable
  | _ => True

instance (s : ClosureState) : (a : ClosureAction) → Decidable (ClosureSafe s a)
  | .pass _ => inferInstanceAs (Decidable True)
  | .stack a => by rcases a <;> unfold ClosureSafe <;> infer_instance

/-! What the functions of the stack do to the list: sockets are only put there, and a socket with an
upcall that is disconnected is. -/

def SocketStack.FlagOk (s : SocketStack) (so : SocketPtr) : Prop :=
  (s.sock so).present .closed = true → so ∈ s.lists .closed

structure Listed (so : SocketPtr) (s t : SocketStack) : Prop where
  upcall : (t.sock so).upcall2 = (s.sock so).upcall2
  mem : ∀ x ∈ s.lists .closed, x ∈ t.lists .closed
  flag : s.FlagOk so → t.FlagOk so
  lost : s.FlagOk so → (s.sock so).upcall2 = true → (t.sock so).disconnected = true →
    (s.sock so).disconnected = true ∨ so ∈ t.lists .closed

namespace Listed

variable {so : SocketPtr} {s t u : SocketStack}

theorem refl (so : SocketPtr) (s : SocketStack) : Listed so s s :=
  ⟨rfl, fun _ h => h, fun h => h, fun _ _ h => .inl h⟩

theorem trans (h : Listed so s t) (h' : Listed so t u) : Listed so s u where
  upcall := h'.upcall.trans h.upcall
  mem x hx := h'.mem x (h.mem x hx)
  flag hs := h'.flag (h.flag hs)
  lost hs hup hdis := by
    rcases h'.lost (h.flag hs) (h.upcall.trans hup) hdis with ht | hmem
    · exact (h.lost hs hup ht).imp_right (h'.mem so)
    · exact .inr hmem

theorem modify (s : SocketStack) (so : SocketPtr) (f : Socket → Socket)
    (hup : (f (s.sock so)).upcall2 = (s.sock so).upcall2)
    (hpresent : (f (s.sock so)).present = (s.sock so).present)
    (hdis : (f (s.sock so)).disconnected = (s.sock so).disconnected) :
    Listed so s (s.modify so f) := by
  refine ⟨by rwa [modify_sock_self], fun _ h => h, fun h => ?_, fun _ _ h => .inl ?_⟩
  · rwa [FlagOk, modify_sock_self, hpresent]
  · rwa [modify_sock_self, hdis] at h

theorem of_sock_eq (hsock : t.sock so = s.sock so) (hlists : t.lists .closed = s.lists .closed) :
    Listed so s t := by
  refine ⟨by rw [hsock], fun x hx => hlists ▸ hx, fun h => ?_, fun _ _ h => .inl (hsock ▸ h)⟩
  rw [FlagOk, hsock, hlists]
  exact h

theorem reflect (s : SocketStack) (so : SocketPtr) : Listed so s (s.reflect so) := by
  unfold SocketStack.reflect
  split
  · exact of_sock_eq rfl rfl
  · exact refl so s

theorem insert (s : SocketStack) (k : ReadyList) (so : SocketPtr) : Listed so s
    (s.insert k so) := by
  unfold SocketStack.insert
  split
  · exact refl so s
  · by_cases hk : ReadyList.closed = k
    · subst hk
      refine ⟨by simp [setPresent], fun x hx => by simp [hx], fun _ _ => by simp,
        fun _ _ _ => .inr (by simp)⟩
    · refine ⟨by simp [setPresent], fun x hx => by simpa [hk] using hx, fun h => ?_,
        fun _ _ h => .inl (by simpa [setPresent] using h)⟩
      simpa [SocketStack.FlagOk, setPresent, hk] using h

theorem unlink (s : SocketStack) {k : ReadyList} (hk : k ≠ .closed) (so : SocketPtr) :
    Listed so s (s.unlink k so) := by
  refine ⟨by simp [SocketStack.unlink, setPresent], fun x hx => ?_, fun h => ?_,
    fun _ _ h => .inl (by simpa [SocketStack.unlink, setPresent] using h)⟩
  · simpa [SocketStack.unlink, hk.symm] using hx
  · simpa [SocketStack.FlagOk, SocketStack.unlink, setPresent, hk.symm] using h

theorem sockReadable (s : SocketStack) (so : SocketPtr) : Listed so s (s.sockReadable so) := by
  simp only [SocketStack.sockReadable]
  split
  · exact insert s .closed so
  · split <;> first | exact insert s _ so | exact refl so s

theorem sockWriteSpace (s : SocketStack) (so : SocketPtr) : Listed so s (s.sockWriteSpace so) := by
  have hif : Listed so s (if (s.sock so).writable then s.insert .write so else s) := by
    split
    · exact insert s .write so
    · exact refl so s
  simp only [SocketStack.sockWriteSpace]
  split
  · exact insert s .closed so
  · split <;> first | exact hif | exact refl so s

theorem sowakeup (s : SocketStack) (so : SocketPtr) : Listed so s (s.sowakeup so) := by
  unfold SocketStack.sowakeup
  split
  · exact (sockReadable s so).trans (sockWriteSpace _ so)
  · exact refl so s

theorem mem_sowakeup (hflag : s.FlagOk so) (hup : (s.sock so).upcall2 = true)
    (hdis : (s.sock so).disconnected = true) : so ∈ (s.sowakeup so).lists .closed := by
  have hreadable : so ∈ (s.sockReadable so).lists .closed := by
    simp only [SocketStack.sockReadable, hdis, if_true, SocketStack.insert]
    split
    · next hpresent => exact hflag hpresent
    · simp
  rw [SocketStack.sowakeup, if_pos hup]
  exact (sockWriteSpace _ so).mem so hreadable

theorem soisdisconnected (s : SocketStack) (so : SocketPtr) :
    Listed so s (s.soisdisconnected so) := by
  obtain ⟨u, hu⟩ : ∃ u, (s.modify so fun t => { t with
      connecting := false, connected := false, disconnecting := false, disconnected := true,
      cantSendMore := true }) = u := ⟨_, rfl⟩
  have hsock : u.sock so = { s.sock so with
      connecting := false, connected := false, disconnecting := false, disconnected := true,
      cantSendMore := true } := by rw [← hu, modify_sock_self]
  have hlists : u.lists = s.lists := by rw [← hu, modify_lists]
  have hwake : Listed so u ((u.sowakeup so).sowakeup so) :=
    (sowakeup u so).trans (sowakeup _ so)
  have hflag (h : s.FlagOk so) : u.FlagOk so := by
    rw [SocketStack.FlagOk, hsock, hlists]
    exact h
  have hup : (u.sock so).upcall2 = (s.sock so).upcall2 := by rw [hsock]
  rw [SocketStack.soisdisconnected, hu]
  refine ⟨hwake.upcall.trans hup, fun x hx => hwake.mem x (hlists ▸ hx),
    fun h => hwake.flag (hflag h), fun h hs _ => .inr ?_⟩
  exact (sowakeup _ so).mem so (mem_sowakeup (hflag h) (hup.trans hs) (by rw [hsock]))

theorem sofree (s : SocketStack) (so : SocketPtr) : Listed so s (s.sofree so) := by
  have hflush : Listed so s (((s.reflect so).modify so fun t =>
      { t with sndSpace := false }).sorflush so) :=
    ((reflect s so).trans (modify _ so _ rfl rfl rfl)).trans
      ((sowakeup _ so).trans (reflect _ so))
  simp only [SocketStack.sofree]
  split
  · exact refl so s
  · split
    · exact hflush
    · exact hflush.trans (modify _ so _ rfl rfl rfl)

end Listed

theorem listedRule (so : SocketPtr) :
    StackRule so fun s t => Touches so s t ∧ Listed so s t where
  refl s := ⟨Touches.refl so s, Listed.refl so s⟩
  trans h h' := ⟨h.1.trans h'.1, h.2.trans h'.2⟩
  modify s f hf := ⟨(touchesRule so).modify s f hf,
    Listed.modify s so f (congrArg SocketCore.upcall2 (hf _).1) (hf _).2.2.1 (hf _).2.2.2⟩
  insert s := ⟨touches_insert s .waiter so, Listed.insert s .waiter so⟩
  sowakeup s := ⟨touches_sowakeup s so, Listed.sowakeup s so⟩
  unlink s k hk := ⟨touches_unlink s k so, Listed.unlink s hk so⟩
  reflect s := ⟨touches_reflect s so, Listed.reflect s so⟩
  soisdisconnected s := ⟨touches_soisdisconnected s so, Listed.soisdisconnected s so⟩
  sofree s := ⟨touches_sofree s so, Listed.sofree s so⟩

theorem Listed.soabort (s : SocketStack) (so : SocketPtr) : Listed so s (s.soabort so) := by
  have hset : Listed so s (s.modify so fun t => { t with aborting := true }) :=
    Listed.modify s so _ rfl rfl rfl
  simp only [SocketStack.soabort]
  refine Listed.trans ?_ (Listed.sofree _ so)
  refine Listed.trans ?_ (Listed.modify _ so _ rfl rfl rfl)
  split
  · exact hset.trans ((listedRule so).tcpDrop _ true).2
  · exact hset

/-! The invariant. Every open socket with a selector that has lost its connection is still on the
list or was reported; sockets with the property `E` are excused. -/

structure ClosureInv (E : SocketPtr → Prop) (closed : SocketPtr → List (Option Slot × Selector))
    (s : SocketStack) : Prop where
  flag : ∀ so, s.FlagOk so
  ringset : ∀ i so, (s.sat i).socket = some so → (s.sat i).ringsetIdx = some i
  slotless : ∀ so, (s.sock so).upcall2 = false → (s.sock so).glueingBlock = none
  told : ∀ so i p, ¬ E so → s.Open so i → (s.sat i).parentIdx = some p →
    (s.sock so).disconnected = true → so ∈ s.lists .closed ∨ (some i, p) ∈ closed so

namespace ClosureInv

variable {E : SocketPtr → Prop} {closed : SocketPtr → List (Option Slot × Selector)}
  {s t : SocketStack} {so so2 : SocketPtr} {i : Slot} {f : Socket → Socket}

theorem upcall_of_open (h : ClosureInv E closed s) (hopen : s.Open so i) :
    (s.sock so).upcall2 = true := by
  by_contra hup
  have hglue := h.slotless so (by simpa using hup)
  rw [hopen.2.1] at hglue
  cases hglue

theorem frame (h : ClosureInv E closed s) (ht : Touches so s t ∧ Listed so s t) :
    ClosureInv E closed t := by
  obtain ⟨htouch, hlist⟩ := ht
  have hglue x : (t.sock x).glueingBlock = (s.sock x).glueingBlock :=
    congrArg SocketCore.glueingBlock (htouch.core_eq x)
  have hno x : (t.sock x).noFdRef = (s.sock x).noFdRef :=
    congrArg SocketCore.noFdRef (htouch.core_eq x)
  have hup x : (t.sock x).upcall2 = (s.sock x).upcall2 :=
    congrArg SocketCore.upcall2 (htouch.core_eq x)
  refine ⟨fun x => ?_, fun i x hsat => ?_, fun x hx => ?_, fun x i p hx hopen hp hdis => ?_⟩
  · by_cases hne : x = so
    · rw [hne]
      exact hlist.flag (h.flag so)
    · intro hpresent
      rw [htouch.other x hne] at hpresent
      exact hlist.mem x (h.flag x hpresent)
  · rw [htouch.sat] at hsat ⊢
    exact h.ringset i x hsat
  · rw [hglue]
    exact h.slotless x (hup x ▸ hx)
  · have hopen' : s.Open x i := by
      simpa only [Open, htouch.sat, hglue, hno] using hopen
    have hold (hd : (s.sock x).disconnected = true) :
        x ∈ t.lists .closed ∨ (some i, p) ∈ closed x :=
      (h.told x i p hx hopen' (htouch.sat ▸ hp) hd).imp_left (hlist.mem x)
    by_cases hne : x = so
    · subst hne
      rcases hlist.lost (h.flag x) (h.upcall_of_open hopen') hdis with hd | hmem
      · exact hold hd
      · exact .inl hmem
    · exact hold (htouch.other x hne ▸ hdis)

theorem modify (h : ClosureInv E closed s)
    (hflag : (f (s.sock so)).present .closed = true → so ∈ s.lists .closed)
    (hslotless : (f (s.sock so)).upcall2 = false → (f (s.sock so)).glueingBlock = none)
    (htold : ∀ i p, ¬ E so → (s.sat i).socket = some so → (f (s.sock so)).glueingBlock = some i →
      (f (s.sock so)).noFdRef = false → (s.sat i).parentIdx = some p →
      (f (s.sock so)).disconnected = true → so ∈ s.lists .closed ∨ (some i, p) ∈ closed so) :
    ClosureInv E closed (s.modify so f) := by
  refine ⟨fun x => ?_, h.ringset, fun x hx => ?_, fun x i p hx hopen hp hd => ?_⟩
  all_goals by_cases hne : x = so
  · subst hne
    rwa [FlagOk, modify_sock_self]
  · rw [FlagOk, modify_sock_of_ne _ _ hne]
    exact h.flag x
  · subst hne
    rw [modify_sock_self] at hx ⊢
    exact hslotless hx
  · rw [modify_sock_of_ne _ _ hne] at hx ⊢
    exact h.slotless x hx
  · subst hne
    rw [Open, modify_sock_self] at hopen
    rw [modify_sock_self] at hd
    exact htold i p hx hopen.1 hopen.2.1 hopen.2.2 hp hd
  · rw [Open, modify_sock_of_ne _ _ hne] at hopen
    rw [modify_sock_of_ne _ _ hne] at hd
    exact h.told x i p hx hopen hp hd

theorem modify_slotless (h : ClosureInv E closed s)
    (hpresent : (f (s.sock so)).present .closed = true → (s.sock so).present .closed = true)
    (hglue : (f (s.sock so)).glueingBlock = none) : ClosureInv E closed (s.modify so f) := by
  apply h.modify (fun hp => h.flag so (hpresent hp)) (fun _ => hglue)
  intro i p _ _ hi
  rw [hglue] at hi
  cases hi

theorem modify_queue (h : ClosureInv E closed s) (queue : List SocketPtr → List SocketPtr) :
    ClosureInv E closed (s.modify so fun t => { t with queue := queue t.queue }) :=
  h.modify (h.flag so) (h.slotless so) fun i p hx hsat hglue hno =>
    h.told so i p hx ⟨hsat, hglue, hno⟩

theorem unlink (h : ClosureInv E closed s) (k : ReadyList)
    (hso : ∀ i p, ¬ E so → s.Open so i → (s.sat i).parentIdx = some p →
      (s.sock so).disconnected = true → (some i, p) ∈ closed so) :
    ClosureInv E closed (s.unlink k so) := by
  have hother {x : SocketPtr} (hne : x ≠ so) : (s.unlink k so).sock x = s.sock x :=
    (touches_unlink s k so).other x hne
  have hview {α : Type} (g : Socket → α) (hg : ∀ t p, g { t with present := p } = g t)
      (x : SocketPtr) : g ((s.unlink k so).sock x) = g (s.sock x) := by
    by_cases hne : x = so
    · rw [hne]
      exact unlink_view hg s k so
    · rw [hother hne]
  have hmem {x : SocketPtr} (hne : x ≠ so) (hx : x ∈ s.lists .closed) :
      x ∈ (s.unlink k so).lists .closed := by
    by_cases hk : ReadyList.closed = k
    · subst hk
      simpa [SocketStack.unlink] using (List.mem_erase_of_ne hne).mpr hx
    · simpa [SocketStack.unlink, hk] using hx
  refine ⟨fun x hpresent => ?_, h.ringset, fun x hx => ?_, fun x i p hx hopen hp hd => ?_⟩
  · by_cases hne : x = so
    · subst hne
      by_cases hk : ReadyList.closed = k
      · subst hk
        simp [SocketStack.unlink, setPresent] at hpresent
      · have hmem' := h.flag x (by
          simpa [SocketStack.unlink, setPresent, hk] using hpresent)
        simpa [SocketStack.unlink, hk] using hmem'
    · rw [hother hne] at hpresent
      exact hmem hne (h.flag x hpresent)
  · rw [hview Socket.glueingBlock fun _ _ => rfl]
    exact h.slotless x (hview Socket.upcall2 (fun _ _ => rfl) x ▸ hx)
  · have hopen' : s.Open x i := by
      refine ⟨hopen.1, ?_, ?_⟩
      · exact hview Socket.glueingBlock (fun _ _ => rfl) x ▸ hopen.2.1
      · exact hview Socket.noFdRef (fun _ _ => rfl) x ▸ hopen.2.2
    rw [hview Socket.disconnected fun _ _ => rfl] at hd
    by_cases hne : x = so
    · subst hne
      exact .inr (hso i p hx hopen' hp hd)
    · exact (h.told x i p hx hopen' hp hd).imp_left (hmem hne)

/-! Accept queues: a connection that waits has no upcall and no slot. -/

theorem glue_of_queued (h : ClosureInv E closed s) (hq : Queues s)
    (hmem : so2 ∈ (s.sock so).queue) : (s.sock so2).glueingBlock = none :=
  h.slotless so2 (hq.queued so so2 hmem).2.2.2

theorem dequeueAccept (h : ClosureInv E closed s) (hq : Queues s)
    (hmem : so2 ∈ (s.sock so).queue) : ClosureInv E closed (s.dequeueAccept so so2) := by
  apply (h.modify_queue fun queue => queue.erase so2).modify_slotless id
  rw [modify_sock_of_ne _ _ (hq.ne_of_mem hmem)]
  exact h.glue_of_queued hq hmem

theorem accept (h : ClosureInv E closed s) (hq : Queues s) (hmem : so2 ∈ (s.sock so).queue)
    (up : Bool) : ClosureInv E closed ((s.dequeueAccept so so2).modify so2 fun t =>
      { t with noFdRef := false, upcall2 := up }) := by
  apply (h.dequeueAccept hq hmem).modify_slotless id
  rw [dequeueAccept_sock_self (hq.ne_of_mem hmem)]
  exact h.glue_of_queued hq hmem

theorem abort (h : ClosureInv E closed s) (hq : Queues s) (hmem : so2 ∈ (s.sock so).queue) :
    ClosureInv E closed ((s.dequeueAccept so so2).soabort so2) :=
  (h.dequeueAccept hq hmem).frame
    ⟨touches_soabort ((hq.dequeueAccept hmem).idle so2), Listed.soabort _ so2⟩

theorem closeSocket (h : ClosureInv E closed s) (hq : Queues s) (ht : s.closeSocket so = some t) :
    ClosureInv E closed t := by
  have hexcused : ClosureInv (fun x => E x ∨ x = so) closed s :=
    ⟨h.flag, h.ringset, h.slotless, fun x i p hx => h.told x i p fun hE => hx (.inl hE)⟩
  obtain ⟨u, ⟨huq, hu⟩, hclose⟩ := closeSocket_rule
    (I := fun s => Queues s ∧ ClosureInv (fun x => E x ∨ x = so) closed s) (fun _ h => h.1)
    (fun s k h => ⟨h.1.touches (touches_unlink s k so),
      h.2.unlink k fun _ _ hx => absurd (.inr rfl) hx⟩)
    (fun _ _ h hmem => ⟨h.1.accept hmem false, h.2.accept h.1 hmem false⟩)
    (fun _ _ h hmem => ⟨h.1.abort hmem, h.2.abort h.1 hmem⟩) ⟨hq, hexcused⟩ ht
  obtain ⟨v, hv, hdiscard, -⟩ := socloseSelf_cases hclose
  have hvinv : ClosureInv (fun x => E x ∨ x = so) closed v := by
    rcases hv with rfl | rfl | rfl
    · exact hu
    · exact hu.frame ((listedRule so).detach u)
    · exact hu.frame ((listedRule so).trans ((listedRule so).disconnect u)
        ((listedRule so).detach _))
  obtain ⟨-, rfl⟩ := discard_eq_some.mp hdiscard
  refine ClosureInv.frame ?_ ((listedRule so).sofree _)
  have hdropped : ClosureInv (fun x => E x ∨ x = so) closed
      (v.modify so fun t => { t with noFdRef := true }) :=
    hvinv.modify (hvinv.flag so) (hvinv.slotless so) fun _ _ hx => absurd (.inr rfl) hx
  refine ⟨hdropped.flag, hdropped.ringset, hdropped.slotless, fun x i p hx hopen hp hd => ?_⟩
  have hne : x ≠ so := by
    rintro rfl
    have href := hopen.2.2
    simp at href
  exact hdropped.told x i p (not_or.mpr ⟨hx, hne⟩) hopen hp hd

theorem close (h : ClosureInv E closed s) (hq : Queues s) (ht : s.close i = some t) :
    ClosureInv E closed t := by
  unfold SocketStack.close at ht
  split at ht
  · cases ht
    exact h
  · obtain ⟨u, hclose, rfl⟩ := looked_eq_some.mp ht
    have hu := h.closeSocket hq hclose
    refine ⟨hu.flag, fun j x hsat => ?_, hu.slotless, fun x j p hx hopen hp hd => ?_⟩
    · by_cases hj : j = i
      · subst hj
        simp [setSat] at hsat
      · simp only [setSat, update_of_ne hj] at hsat ⊢
        exact hu.ringset j x hsat
    · by_cases hj : j = i
      · subst hj
        have hsat := hopen.1
        simp [setSat] at hsat
      · simp only [SocketStack.Open, setSat, update_of_ne hj] at hopen hp hd
        exact hu.told x j p hx hopen hp hd

theorem link (h : ClosureInv E closed s) (hup : (s.sock so).upcall2 = true)
    {parent : Option Selector}
    (hso : ∀ p, parent = some p → (s.sock so).disconnected = true → so ∈ s.lists .closed)
    (pid : Nat) : ClosureInv E closed (s.link i parent pid so) := by
  refine ClosureInv.frame ?_ ((listedRule so).reflect _)
  refine ⟨fun x => ?_, fun j x hsat => ?_, fun x hx => ?_, fun x j p hx hopen hp hd => ?_⟩
  · by_cases hne : x = so
    · subst hne
      rw [FlagOk, modify_sock_self]
      exact h.flag x
    · rw [FlagOk, modify_sock_of_ne _ _ hne]
      exact h.flag x
  · by_cases hj : j = i
    · subst hj
      simp [setSat]
    · simp only [modify_sat, setSat, update_of_ne hj] at hsat ⊢
      exact h.ringset j x hsat
  · by_cases hne : x = so
    · subst hne
      rw [modify_sock_self] at hx
      exact absurd hx (by simp [setSat, hup])
    · rw [modify_sock_of_ne _ _ hne] at hx ⊢
      exact h.slotless x hx
  · obtain ⟨hsat, hglue, hno⟩ := hopen
    by_cases hj : j = i
    · subst hj
      obtain rfl : so = x := by simpa [setSat] using hsat
      rw [modify_sock_self] at hd
      exact .inl (hso p (by simpa [setSat] using hp) hd)
    · have hne : x ≠ so := by
        rintro rfl
        rw [modify_sock_self] at hglue
        exact hj (Option.some.inj hglue).symm
      rw [modify_sock_of_ne _ _ hne] at hglue hno hd
      simp only [modify_sat, setSat, update_of_ne hj] at hsat hp
      exact h.told x j p hx ⟨hsat, hglue, hno⟩ hp hd

theorem setSocketSelect (h : ClosureInv E closed s) {parent : Option Selector} {pid : Nat}
    (hso : ∀ so p, (s.sat i).socket = some so → parent = some p →
      (s.sat i).parentIdx = some p ∨ (s.sock so).Reportable)
    (ht : s.setSocketSelect i parent pid = some t) : ClosureInv E closed t := by
  obtain ⟨so, -, rfl⟩ := looked_eq_some.mp ht
  refine ClosureInv.frame ?_ ((listedRule so).reflect _)
  refine ⟨h.flag, fun j x hsat => ?_, h.slotless, fun x j p hx hopen hp hd => ?_⟩
  · by_cases hj : j = i
    · subst hj
      simp only [setSat, update_self] at hsat ⊢
      exact h.ringset j x hsat
    · simp only [setSat, update_of_ne hj] at hsat ⊢
      exact h.ringset j x hsat
  · by_cases hj : j = i
    · subst hj
      simp only [Open, setSat, update_self] at hopen hp hd
      rcases hso x p hopen.1 hp with hsame | hno | hpresent
      · exact h.told x j p hx hopen hsame hd
      · have hd' : (s.sock x).disconnected = true := hd
        rw [hno] at hd'
        cases hd'
      · exact .inl (h.flag x hpresent)
    · simp only [Open, setSat, update_of_ne hj] at hopen hp hd
      exact h.told x j p hx hopen hp hd

theorem renew (h : ClosureInv E closed s) (hglue : (s.sock so).glueingBlock = none) :
    ClosureInv E (update closed so []) s := by
  refine ⟨h.flag, h.ringset, h.slotless, fun x i p hx hopen hp hd => ?_⟩
  have hne : x ≠ so := by
    rintro rfl
    have hi := hopen.2.1
    rw [hglue] at hi
    cases hi
  rw [update_of_ne hne]
  exact h.told x i p hx hopen hp hd

theorem openSocket (h : ClosureInv E closed s) {parent : Option Selector} {type : SoType}
    {pid : Nat} : ClosureInv E (update closed so [])
      (s.openSocket i parent type pid so) := by
  have hfresh (pcb : Option Pcb) : ClosureInv E (update closed so [])
      (s.soget so { live := true, type, pcb, upcall2 := true }) := by
    apply ClosureInv.renew
    · exact h.modify_slotless (by simp) rfl
    · rw [soget, modify_sock_self]
  apply (hfresh _).link
  · rw [soget, modify_sock_self]
  · intro p _ hd
    rw [soget, modify_sock_self] at hd
    cases hd

theorem sonewconn (h : ClosureInv E closed s) :
    ClosureInv E (update closed so2 []) (s.sonewconn so so2) := by
  refine ClosureInv.frame ?_ ((listedRule so).sowakeup _)
  refine ClosureInv.modify_queue (ClosureInv.renew ?_ ?_) fun queue => queue ++ [so2]
  · exact h.modify_slotless (by simp) rfl
  · rw [soget, modify_sock_self]

theorem processAccept (h : ClosureInv E closed s) (hq : Queues s)
    (ht : s.processFirst .accept = some t) : ClosureInv E closed t := by
  simp only [processFirst, Option.bind_eq_bind, Option.bind_eq_some_iff,
    Option.pure_def, Option.some.injEq] at ht
  obtain ⟨so, -, u, haccept, rfl⟩ := ht
  have hu := userOnAccept_rule
    (I := fun s => Queues s ∧ ClosureInv E closed s) (fun _ h => h.1)
    (fun _ _ h hmem => ⟨h.1.accept hmem true, h.2.accept h.1 hmem true⟩) ⟨hq, h⟩ rfl haccept
  exact hu.2.frame ((listedRule so).unlink u .accept (by decide))

end ClosureInv

theorem closureStep_stack {s t : ClosureState} {a : StackAction}
    (ht : closureStep s (.stack a) = some t) :
    a ≠ .process .closed ∧ stackStep s.stack a = some t.stack ∧ t.closed = renewed s.closed a := by
  have hcases (h : (do let stack ← stackStep s.stack a; return ⟨stack, renewed s.closed a⟩) =
      some t) : stackStep s.stack a = some t.stack ∧ t.closed = renewed s.closed a := by
    obtain ⟨u, hu, rfl⟩ := looked_eq_some.mp h
    exact ⟨hu, rfl⟩
  cases a with
  | process k =>
    cases k with
    | closed => cases ht
    | read | write | accept | waiter => exact ⟨by simp, hcases ht⟩
  | openSocket | setSocketRing | setSocketSelect | close | decline | listen | txPoolEmpty | shutdown
  | kick | linger | newconn | abort | connecting | connected | disconnected | tcpState | tcpClose
  | tcpDrop | buffers | data => exact ⟨by simp, hcases ht⟩

theorem ClosureInv.stackStep {s t : ClosureState} {a : StackAction}
    (h : ClosureInv (fun _ => False) s.closed s.stack) (hq : Queues s.stack)
    (hsafe : ClosureSafe s (.stack a)) (ht : closureStep s (.stack a) = some t) :
    ClosureInv (fun _ => False) t.closed t.stack := by
  obtain ⟨hclosed, hstep, heq⟩ := closureStep_stack ht
  rw [heq]
  by_cases ha : a.isPlain = true
  · obtain ⟨so, hframe⟩ := StackRule.step listedRule ha hclosed hstep
    have hsame : renewed s.closed a = s.closed := by
      cases a <;> first | rfl | simp [StackAction.isPlain] at ha
    rw [hsame]
    exact h.frame hframe
  · cases a with
    | openSocket i parent type pid so =>
      obtain ⟨-, hu⟩ := guarded_eq_some.mp hstep
      rw [← hu]
      exact h.openSocket
    | setSocketRing i parent pid so =>
      obtain ⟨hup, hreport⟩ := hsafe
      have hu : s.stack.setSocketRing i parent pid so = t.stack := Option.some.inj hstep
      rw [← hu]
      refine ClosureInv.frame ?_ ((listedRule so).reflect _)
      apply h.link hup
      intro p hp hd
      rcases hreport with ⟨rfl, hnone⟩ | hno | hpresent
      · rw [if_pos rfl, hnone] at hp
        cases hp
      · rw [hno] at hd
        cases hd
      · exact h.flag so hpresent
    | setSocketSelect i parent pid =>
      refine h.setSocketSelect ?_ hstep
      rintro so p hsat rfl
      rcases hsafe with hnone | hsame | hreport
      · cases hnone
      · exact .inl hsame.symm
      · exact .inr (hreport so hsat)
    | close i => exact h.close hq hstep
    | decline so => exact h.closeSocket hq hstep
    | process k =>
      cases k with
      | accept => exact h.processAccept hq hstep
      | read | write | closed | waiter => exact absurd rfl ha
    | newconn so so2 =>
      obtain ⟨-, hu⟩ := guarded_eq_some.mp hstep
      rw [← hu]
      exact h.sonewconn
    | abort so so2 =>
      obtain ⟨⟨-, hmem⟩, hu⟩ := guarded_eq_some.mp hstep
      rw [← hu]
      exact h.abort hq hmem
    | listen | txPoolEmpty | shutdown | kick | linger | connecting | connected | disconnected
    | tcpState | tcpClose | tcpDrop | buffers | data => exact absurd rfl ha

/-! A pass. -/

section Pass

variable {s t : ClosureState} {so : SocketPtr} {i : Slot} {p : Selector}

theorem mem_userOnClosure (s : ClosureState) (so x : SocketPtr) {e : Option Slot × Selector}
    (he : e ∈ s.closed x) : e ∈ (s.userOnClosure so).closed x := by
  unfold ClosureState.userOnClosure
  split
  · exact he
  · split
    · exact he
    · by_cases hne : x = so
      · subst hne
        simpa using .inl he
      · simpa [hne] using he

theorem userOnClosure_reports (hglue : (s.stack.sock so).glueingBlock = some i)
    (hp : (s.stack.sat i).parentIdx = some p) :
    ((s.stack.sat i).ringsetIdx, p) ∈ (s.userOnClosure so).closed so := by
  simp [ClosureState.userOnClosure, hglue, hp]

theorem ClosureInv.closedRound (h : ClosureInv (fun _ => False) s.closed s.stack) (so : SocketPtr) :
    ClosureInv (fun _ => False) (s.closedRound so).closed (s.closedRound so).stack := by
  have hgrown : ClosureInv (fun _ => False) (s.userOnClosure so).closed s.stack :=
    ⟨h.flag, h.ringset, h.slotless, fun x i p hx hopen hp hd =>
      (h.told x i p hx hopen hp hd).imp_right (mem_userOnClosure s so x)⟩
  apply hgrown.unlink
  intro i p _ hopen hp _
  have hreport := userOnClosure_reports hopen.2.1 hp
  rwa [h.ringset i so hopen.1] at hreport

theorem closedRound_sock (s : ClosureState) (so x : SocketPtr) :
    ∃ present, ((s.closedRound so).stack.sock x) = { s.stack.sock x with present := present } := by
  by_cases hne : x = so
  · subst hne
    refine ⟨update (s.stack.sock x).present .closed false, ?_⟩
    simp [ClosureState.closedRound, unlink, setPresent]
  · exact ⟨_, (touches_unlink s.stack .closed so).other x hne⟩

theorem ClosureInv.closedLoop {l : List SocketPtr} (hl : s.stack.lists .closed = l)
    (h : ClosureInv (fun _ => False) s.closed s.stack) (hq : Queues s.stack)
    (ht : l.foldl ClosureState.closedRound s = t) :
    ClosureInv (fun _ => False) t.closed t.stack ∧ Queues t.stack ∧ t.stack.lists .closed = [] ∧
      t.stack.sat = s.stack.sat ∧
      ∀ x, ∃ present, t.stack.sock x = { s.stack.sock x with present := present } := by
  induction l generalizing s with
  | nil =>
    cases ht
    exact ⟨h, hq, hl, rfl, fun x => ⟨(s.stack.sock x).present, rfl⟩⟩
  | cons so rest ih =>
    have hlists : (s.closedRound so).stack.lists .closed = rest := by
      simp [ClosureState.closedRound, SocketStack.unlink, hl]
    have hqueues : Queues (s.closedRound so).stack :=
      hq.touches (touches_unlink s.stack .closed so)
    obtain ⟨hinv, htq, hempty, hsat, hsock⟩ := ih hlists (h.closedRound so) hqueues ht
    refine ⟨hinv, htq, hempty, hsat, fun x => ?_⟩
    obtain ⟨present, hx⟩ := hsock x
    obtain ⟨present', hx'⟩ := closedRound_sock s so x
    exact ⟨present, by rw [hx, hx']⟩

theorem ClosureInv.processRounds {closed : SocketPtr → List (Option Slot × Selector)}
    {k : ReadyList} (hk : k ≠ .closed) {n : Nat} {u v : SocketStack}
    (h : ClosureInv (fun _ => False) closed u) (hq : Queues u)
    (hv : SocketStack.processRounds k n u = some v) :
    ClosureInv (fun _ => False) closed v ∧ Queues v := by
  induction n generalizing u with
  | zero =>
    cases hv
    exact ⟨h, hq⟩
  | succ n ih =>
    obtain ⟨w, hw, hrest⟩ := Option.bind_eq_some_iff.mp hv
    have hwq : Queues w := hq.step (a := .process k) hw
    refine ih ?_ hwq hrest
    by_cases haccept : k = .accept
    · subst haccept
      exact h.processAccept hq hw
    · obtain ⟨so, hframe⟩ := StackRule.processFirst listedRule haccept hk hw
      exact h.frame hframe

theorem ClosureInv.pass (h : ClosureInv (fun _ => False) s.closed s.stack) (hq : Queues s.stack)
    {reads : Nat} (ht : s.processRxReadySockets reads = some t) :
    (ClosureInv (fun _ => False) t.closed t.stack ∧ Queues t.stack) ∧
      ∀ so i p, s.stack.Open so i → (s.stack.sat i).parentIdx = some p →
        (s.stack.sock so).disconnected = true → (some i, p) ∈ t.closed so := by
  obtain ⟨u, hu⟩ : ∃ u, (s.stack.lists .closed).foldl ClosureState.closedRound s = u := ⟨_, rfl⟩
  obtain ⟨hinv, huq, hempty, hsat, hsock⟩ := h.closedLoop rfl hq hu
  simp only [ClosureState.processRxReadySockets, hu, Option.bind_eq_bind,
    Option.bind_eq_some_iff, Option.pure_def, Option.some.injEq] at ht
  obtain ⟨v, hv, w, hw, rfl⟩ := ht
  obtain ⟨hvinv, hvq⟩ := hinv.processRounds (by decide) huq hv
  refine ⟨hvinv.processRounds (by decide) hvq hw, fun so i p hopen hp hd => ?_⟩
  obtain ⟨present, hso⟩ := hsock so
  have hopen' : u.stack.Open so i := by
    rw [Open, hsat, hso]
    exact hopen
  rcases hinv.told so i p id hopen' (hsat ▸ hp) (by rw [hso]; exact hd) with hmem | hreport
  · rw [hempty] at hmem
    cases hmem
  · exact hreport

end Pass

theorem closureInv_of_run {as : List ClosureAction} {s : ClosureState}
    (hrun : Run closureStep ClosureSafe ClosureState.start as s) :
    ClosureInv (fun _ => False) s.closed s.stack ∧ Queues s.stack := by
  refine hrun.invariant (I := fun s => ClosureInv (fun _ => False) s.closed s.stack ∧
    Queues s.stack) ?_ ⟨⟨?_, ?_, ?_, ?_⟩, Queues.start⟩
  · rintro s a t ⟨h, hq⟩ hsafe hstep
    cases a with
    | stack a => exact ⟨h.stackStep hq hsafe hstep, hq.step (closureStep_stack hstep).2.1⟩
    | pass reads => exact (h.pass hq hstep).1
  all_goals simp [ClosureState.start, start, FlagOk, Open]

/-- The next pass reports the loss of every open connection that has a selector. -/
theorem closed_reported_of_run {as : List ClosureAction} {s t : ClosureState} {reads : Nat}
    (hrun : Run closureStep ClosureSafe ClosureState.start as s)
    (hpass : closureStep s (.pass reads) = some t) (so : SocketPtr) (i : Slot) (p : Selector)
    (hopen : s.stack.Open so i) (hp : (s.stack.sat i).parentIdx = some p)
    (hlost : (s.stack.sock so).disconnected = true) : (some i, p) ∈ t.closed so := by
  obtain ⟨hinv, hq⟩ := closureInv_of_run hrun
  exact (hinv.pass hq hpass).2 so i p hopen hp hlost

def resetAfterSelect : List ClosureAction :=
  [.stack (.openSocket 0 none .stream 7 1), .stack (.listen 0), .stack (.newconn 1 2), .pass 0,
    .stack (.setSocketRing 1 none 7 2), .stack (.setSocketSelect 1 (some 3) 7),
    .stack (.tcpDrop 2)]

theorem closed_reported_of_run_reset :
    ∃ s, Run closureStep ClosureSafe ClosureState.start resetAfterSelect s ∧
      ((closureStep s (.pass 0)).isSome ∧ s.stack.Open 2 1 ∧ (s.stack.sat 1).parentIdx = some 3 ∧
        (s.stack.sock 2).disconnected = true) ∧
      ∃ t, closureStep s (.pass 0) = some t ∧ (some 1, 3) ∈ t.closed 2 := by
  refine Run.exists_and_of_runActions (by decide +kernel) fun s hrun hs => ?_
  obtain ⟨hpass, hopen, hp, hlost⟩ := hs
  obtain ⟨t, ht⟩ := Option.isSome_iff_exists.mp hpass
  exact ⟨t, ht, closed_reported_of_run hrun ht 2 1 3 hopen hp hlost⟩

def resetBeforeSelect : List ClosureAction :=
  [.stack (.openSocket 0 none .stream 7 1), .stack (.listen 0), .stack (.newconn 1 2), .pass 0,
    .stack (.setSocketRing 1 none 7 2), .stack (.tcpDrop 2), .pass 0,
    .stack (.setSocketSelect 1 (some 3) 7), .pass 0]

theorem reset_before_select_lost :
    ∃ s, Run closureStep (fun _ _ => True) ClosureState.start resetBeforeSelect s ∧
      s.stack.Open 2 1 ∧ (s.stack.sat 1).parentIdx = some 3 ∧
      (s.stack.sock 2).disconnected = true ∧ s.stack.lists .closed = [] ∧ s.closed 2 = [] :=
  Run.exists_of_runActions (by decide +kernel)

end NetbsdDpdk
