import NetbsdDpdk.SlotCustody

/-! `sig_handler` of `api.c`. Which slots a process holds is written down nowhere; the handler
closes those whose descriptor has its `socket` set. `service_open_socket` and `service_accept` set
it, `service_close` leaves it set. -/

namespace NetbsdDpdk

open List Function Thread

open CommandState

inductive Signal
  | hup | int | ill | abrt | fpe | segv | term | usr1
  deriving DecidableEq, Repr

inductive HandlerStage
  | loop (todo : List Slot)
  | leaving
  deriving DecidableEq, Repr

def HandlerStage.todo : HandlerStage → List Slot
  | .loop todo => todo
  | .leaving => []

/-- `owned` and `issued` are not in the code: the slots that the application held when it was
entered, and those whose CLOSE it has put on the command ring. -/
structure SigHandler where
  stage : HandlerStage
  owned : Slot → Bool
  issued : List Slot := []

/-- `socket` tells which descriptors of an application have a `socket`. `held` and `signalled` are
not in the code: the slots that an application has taken and not passed to its `service_close`
since, and the applications that have entered the handler. -/
structure SignalState where
  cmd : CommandState
  socket : Nat → Slot → Bool := fun _ _ => false
  clientRingsetIdx : Nat → Nat := fun _ => connectionPoolSize
  handler : Nat → Option SigHandler := fun _ => none
  held : Nat → Slot → Bool := fun _ _ => false
  signalled : List Nat := []

namespace SignalState

def pc (s : SignalState) (a : Nat) : Pc := s.cmd.pc (.app a)

def setPc (s : SignalState) (a : Nat) (pc : Pc) : SignalState :=
  { s with cmd := s.cmd.setPc (.app a) pc }

def setSocket (s : SignalState) (a : Nat) (i : Slot) : SignalState :=
  { s with socket := setAt s.socket a i true }

def setHeld (s : SignalState) (a : Nat) (i : Slot) (v : Bool) : SignalState :=
  { s with held := setAt s.held a i v }

def setHandler (s : SignalState) (a : Nat) (h : Option SigHandler) : SignalState :=
  { s with handler := Function.update s.handler a h }

def takeSlot (s : SignalState) (a : Nat) (setSocket : Bool) : SignalState :=
  match s.cmd.freeConnections.items.head? with
  | none => s
  | some i => if setSocket then (s.setHeld a i true).setSocket a i else s.setHeld a i true

/-- A command that was put on the ring: only behind it `service_open_socket` sets the `socket`. -/
def sent (s : SignalState) (a : Nat) : ServiceCmd → SignalState
  | .openSocket i _ _ _ => s.setSocket a i
  | .close i => s.setHandler a ((s.handler a).map fun h => { h with issued := h.issued ++ [i] })
  | _ => s

/-- What a step of the command system does besides. `service_accept` sets the `socket` before it
sends its command. -/
def note (s : SignalState) : CommandAction → SignalState
  | .call a (.close i) => s.setHeld a i false
  | .openSocket a _ _ => s.takeSlot a false
  | .chooseSlot a => s.takeSlot a true
  | .enqueue (.app a) =>
    match s.pc a with
    | .filled _ cmd => if s.cmd.chan.ring.count < commandPoolSize - 1 then s.sent a cmd else s
    | _ => s
  | _ => s

/-- The call that the signal interrupts is not resumed: the handler ends the process. -/
def enter (s : SignalState) (a : Nat) : SignalState :=
  { (s.setPc a .idle).setHandler a (some ⟨.loop (List.finRange connectionPoolSize), s.held a, []⟩)
    with signalled := a :: s.signalled }

def Alive (s : SignalState) (a : Nat) : Prop :=
  ∀ h ∈ s.handler a, h.stage = .leaving → s.pc a ≠ .idle

instance (s : SignalState) (a : Nat) : Decidable (s.Alive a) :=
  inferInstanceAs (Decidable (∀ h ∈ s.handler a, h.stage = .leaving → s.pc a ≠ .idle))

def look (s : SignalState) (a : Nat) : Option SignalState :=
  match s.handler a with
  | some ⟨.loop (i :: todo), owned, issued⟩ =>
    let s := s.setHandler a (some ⟨.loop todo, owned, issued⟩)
    some (if s.socket a i then (s.setHeld a i false).setPc a (.wants (.close i)) else s)
  | _ => none

def disconnect (s : SignalState) (a : Nat) : Option SignalState :=
  match s.handler a with
  | some ⟨.loop [], owned, issued⟩ =>
    some ((s.setHandler a (some ⟨.leaving, owned, issued⟩)).setPc a
      (.wants (.disconnectClient (s.clientRingsetIdx a))))
  | _ => none

def start (pool : List Nat) : SignalState where
  cmd := CommandState.start pool

end SignalState

/-- The application whose own code makes the step; the calls of the handler go on by themselves. -/
def CommandAction.caller : CommandAction → Option Nat
  | .call a _ | .openSocket a _ _ | .accept a _ | .chooseSlot a | .receive a _ => some a
  | _ => none

inductive SignalAction
  | base (act : CommandAction)
  | signal (a : Nat) (sig : Signal)
  | look (a : Nat)
  | disconnect (a : Nat)

/-- One step. A signal may come at any time; SIGUSR1 does nothing. -/
def signalStep (s : SignalState) : SignalAction → Option SignalState
  | .base act => do
    guard (∀ a ∈ act.caller, (s.handler a).isNone = true)
    let cmd ← commandStep s.cmd act
    return { s.note act with cmd }
  | .signal a sig => do
    guard (s.Alive a)
    return if sig = .usr1 then s else s.enter a
  | .look a => do
    guard (s.pc a = .idle)
    s.look a
  | .disconnect a => do
    guard (s.pc a = .idle)
    s.disconnect a

/-- An application closes only what it holds. The handler is entered where the descriptors with a
`socket` are those of the slots that are held; for each of its CLOSEs there is a command buffer and
room on the ring; and no slot is taken again while the handler has still to flush it. -/
def SignalSafe (s : SignalState) : SignalAction → Prop
  | .base (.call a (.close i)) => s.held a i = true
  | .base (.openSocket ..) | .base (.chooseSlot _) =>
    ∀ i ∈ s.cmd.freeConnections.items.head?, ∀ b ∈ s.signalled, s.pc b ≠ .next (.flush i)
  | .base (.get (.app a)) =>
    match s.pc a with
    | .wants (.close _) => (s.handler a).isSome = true → s.cmd.chan.pool ≠ []
    | _ => True
  | .base (.enqueue (.app a)) =>
    match s.pc a with
    | .filled _ (.close _) =>
      (s.handler a).isSome = true → s.cmd.chan.ring.count < commandPoolSize - 1
    | _ => True
  | .signal a sig => sig = .usr1 ∨ ∀ i, s.socket a i = s.held a i
  | _ => True

instance (s : SignalState) (a : SignalAction) : Decidable (SignalSafe s a) := by
  unfold SignalSafe
  repeat' split
  all_goals infer_instance

def SigHandler.ownSlots (h : SigHandler) : List Slot :=
  (List.finRange connectionPoolSize).filter h.owned

/-- The CLOSEs of every handler name slots that its application held, and behind its loop all of
them, each once; a slot that it is about to flush is held by no other application. -/
def ClosesOwn (s : SignalState) : Prop :=
  ∀ a h, s.handler a = some h →
    h.issued <+: h.ownSlots ∧ (h.stage = .leaving → h.issued = h.ownSlots) ∧
      ∀ i, s.pc a = .next (.flush i) → ∀ b, b ≠ a → s.held b i = false

/-! What a step of the command system leaves alone. -/

section Note

variable {s : SignalState} {act : CommandAction} {a b : Nat} {i j : Slot}

theorem takeSlot_held (s : SignalState) (a : Nat) (sets : Bool)
    (hfree : s.cmd.freeConnections.items.head? = some i) :
    (s.takeSlot a sets).held = setAt s.held a i true := by
  unfold SignalState.takeSlot
  rw [hfree]
  cases sets <;> rfl

structure SameRow (s t : SignalState) (a : Nat) : Prop where
  socket : t.socket a = s.socket a
  held : t.held a = s.held a
  handler : t.handler a = s.handler a

theorem SameRow.refl (s : SignalState) (a : Nat) : SameRow s s a := ⟨rfl, rfl, rfl⟩

theorem SameRow.takeSlot (sets : Bool) (h : a ≠ b) : SameRow s (s.takeSlot b sets) a := by
  unfold SignalState.takeSlot
  split
  · exact refl s a
  · next i _ =>
    have hheld : setAt s.held b i true a = s.held a := setAt_of_ne_app _ _ _ h
    have hsocket : setAt s.socket b i true a = s.socket a := setAt_of_ne_app _ _ _ h
    cases sets
    · exact ⟨rfl, hheld, rfl⟩
    · exact ⟨hsocket, hheld, rfl⟩

theorem SameRow.sent (cmd : ServiceCmd) (h : a ≠ b) : SameRow s (s.sent b cmd) a := by
  unfold SignalState.sent
  split
  · exact ⟨setAt_of_ne_app _ _ _ h, rfl, rfl⟩
  · exact ⟨rfl, rfl, update_of_ne h _ _⟩
  · exact refl s a

theorem SameRow.note (h : .app a ≠ act.thread) : SameRow s (s.note act) a := by
  have hne {b : Nat} (hb : app a ≠ .app b) : a ≠ b := fun hab => hb (by rw [hab])
  unfold SignalState.note
  split
  · exact ⟨rfl, setAt_of_ne_app _ _ _ (hne h), rfl⟩
  · exact SameRow.takeSlot false (hne h)
  · exact SameRow.takeSlot true (hne h)
  · split
    · split
      · exact SameRow.sent _ (hne h)
      · exact refl s a
    · exact refl s a
  · exact refl s a

@[simp] theorem sent_held (s : SignalState) (a : Nat) (cmd : ServiceCmd) :
    (s.sent a cmd).held = s.held := by
  cases cmd <;> rfl

theorem note_held (s : SignalState) (act : CommandAction) :
    (∃ a i, act = .call a (.close i) ∧ (s.note act).held = setAt s.held a i false) ∨
    act.begun = [] ∧ ((s.note act).held = s.held ∨
      ∃ a, ∃ i ∈ s.cmd.takes act, (s.note act).held = setAt s.held a i true) := by
  have htake (a : Nat) (sets : Bool) : (s.takeSlot a sets).held = s.held ∨
      ∃ i ∈ s.cmd.freeConnections.items.head?,
        (s.takeSlot a sets).held = setAt s.held a i true := by
    cases hfree : s.cmd.freeConnections.items.head? with
    | none => exact .inl (by simp [SignalState.takeSlot, hfree])
    | some i => exact .inr ⟨i, rfl, takeSlot_held s a sets hfree⟩
  cases act with
  | call a cmd =>
    cases cmd with
    | close i => exact .inl ⟨a, i, rfl, rfl⟩
    | _ => exact .inr ⟨rfl, .inl rfl⟩
  | openSocket a type parent => exact .inr ⟨rfl, (htake a false).imp_right fun h => ⟨a, h⟩⟩
  | chooseSlot a => exact .inr ⟨rfl, (htake a true).imp_right fun h => ⟨a, h⟩⟩
  | enqueue th =>
    refine .inr ⟨rfl, .inl ?_⟩
    cases th with
    | server => rfl
    | app a =>
      simp only [SignalState.note]
      split
      · split
        · exact sent_held s a _
        · rfl
      · rfl
  | _ => exact .inr ⟨rfl, .inl rfl⟩

theorem note_rule (P : SignalState → Prop) (h : P s)
    (hheld : ∀ t b i v, P t → P (t.setHeld b i v)) (hsocket : ∀ t b i, P t → P (t.setSocket b i))
    (hsent : ∀ b cmd, P (s.sent b cmd)) : P (s.note act) := by
  have htake (b : Nat) (sets : Bool) : P (s.takeSlot b sets) := by
    unfold SignalState.takeSlot
    split
    · exact h
    · cases sets
      · exact hheld _ _ _ _ h
      · exact hsocket _ _ _ (hheld _ _ _ _ h)
  unfold SignalState.note
  split
  · exact hheld _ _ _ _ h
  · exact htake _ _
  · exact htake _ _
  · split
    · split
      · exact hsent _ _
      · exact h
    · exact h
  · exact h

theorem note_handler_none (h : s.handler a = none) : (s.note act).handler a = none := by
  refine note_rule (·.handler a = none) h (fun _ _ _ _ h => h) (fun _ _ _ h => h) fun b cmd => ?_
  cases cmd with
  | close i => by_cases hb : a = b <;> simp_all [SignalState.sent, SignalState.setHandler]
  | _ => exact h

end Note

/-! The state of a handler in a run that keeps to the condition. -/

def ServiceCmd.ofHandler : ServiceCmd → Bool
  | .close _ | .disconnectClient _ => true
  | _ => false

def Pc.ofHandler : Pc → Bool
  | .next .done | .next (.flush _) | .releasing _ .done => true
  | .wants cmd | .filled _ cmd => cmd.ofHandler
  | _ => false

structure Handling (s : SignalState) (a : Nat) (h : SigHandler) : Prop where
  signalled : a ∈ s.signalled
  pc : (s.pc a).ofHandler = true
  leaving : h.stage = .leaving → (s.pc a).closeSlots = []
  seen : ∃ seen, seen ++ h.stage.todo = List.finRange connectionPoolSize ∧
    h.issued ++ (s.pc a).closeSlots = seen.filter h.owned
  todo : ∀ i ∈ h.stage.todo, s.socket a i = h.owned i ∧ s.held a i = h.owned i
  flush : ∀ i, s.pc a = .next (.flush i) → ∀ b, s.held b i = false

structure SignalInv (s : SignalState) : Prop where
  sole : AtMostOnce (s.cmd.keeps s.held)
  handling : ∀ a h, s.handler a = some h → Handling s a h

section Handling

variable {s t : SignalState} {act : CommandAction} {cmd : CommandState} {a : Nat}
  {h h' : SigHandler}

theorem Handling.frame (hs : Handling s a h) (hsig : t.signalled = s.signalled)
    (hpc : t.pc a = s.pc a) (hsocket : t.socket a = s.socket a) (hheld : t.held a = s.held a)
    (hflush : ∀ i, s.pc a = .next (.flush i) → ∀ b, s.held b i = false → t.held b i = false) :
    Handling t a h where
  signalled := hsig ▸ hs.signalled
  pc := hpc ▸ hs.pc
  leaving := hpc ▸ hs.leaving
  seen := hpc ▸ hs.seen
  todo i hi := by
    rw [hsocket, hheld]
    exact hs.todo i hi
  flush i hi b := by
    rw [hpc] at hi
    exact hflush i hi b (hs.flush i hi b)

theorem Handling.go (hs : Handling s a h) (hsig : t.signalled = s.signalled)
    (hsocket : t.socket a = s.socket a) (hheld : t.held = s.held)
    (hstage : h'.stage = h.stage) (howned : h'.owned = h.owned)
    (hissued : h'.issued ++ (t.pc a).closeSlots = h.issued ++ (s.pc a).closeSlots)
    (hpc : (t.pc a).ofHandler = true) (hleaving : h.stage = .leaving → (t.pc a).closeSlots = [])
    (hflush : ∀ i, t.pc a = .next (.flush i) → ∀ b, s.held b i = false) : Handling t a h' where
  signalled := hsig ▸ hs.signalled
  pc := hpc
  leaving hl := hleaving (hstage ▸ hl)
  seen := by
    rw [hstage, howned, hissued]
    exact hs.seen
  todo i hi := by
    rw [hstage] at hi
    rw [hsocket, hheld, howned]
    exact hs.todo i hi
  flush i hi b := by
    rw [hheld]
    exact hflush i hi b

theorem sole_base (hs : AtMostOnce (s.cmd.keeps s.held))
    (hsafe : SignalSafe s (.base act)) (hstep : commandStep s.cmd act = some cmd) :
    AtMostOnce (cmd.keeps (s.note act).held) := by
  rcases note_held s act with ⟨a, i, rfl, hheld⟩ | ⟨hbegun, hheld | ⟨a, i, hi, hheld⟩⟩
  · have hmine : s.held a i = true := hsafe
    obtain ⟨hsole, hnot⟩ := atMostOnce_giveUp hs hmine
    obtain ⟨lost, hflow, -⟩ := commandStep_keeps (setAt s.held a i false) hstep
    rw [hheld]
    refine hflow.atMostOnce hsole ⟨nodup_singleton i, fun x hx => ?_⟩
    obtain rfl := mem_singleton.mp hx
    exact hnot
  · obtain ⟨lost, hflow, -⟩ := commandStep_keeps s.held hstep
    rw [hbegun] at hflow
    rw [hheld]
    exact hflow.atMostOnce hs Fresh.nil
  · obtain ⟨lost, hflow, htakes⟩ := commandStep_keeps s.held hstep
    rw [hbegun] at hflow
    rw [hheld]
    exact atMostOnce_take (hflow.atMostOnce hs Fresh.nil)
      (hflow.not_located_of_mem_lost hs (htakes i hi) (by simp))

theorem Handling.flush_base (hs : Handling s a h) (hsafe : SignalSafe s (.base act)) {i : Slot}
    (hi : s.pc a = .next (.flush i)) {b : Nat} (hb : s.held b i = false) :
    (s.note act).held b i = false := by
  rcases note_held s act with ⟨c, j, rfl, hheld⟩ | ⟨-, hheld | ⟨c, j, hj, hheld⟩⟩
  · rw [hheld, setAt_eq]
    split
    · rfl
    · exact hb
  · rw [hheld]
    exact hb
  · have hne : i ≠ j := by
      rintro rfl
      cases act with
      | openSocket | chooseSlot => exact hsafe i hj a hs.signalled hi
      | _ => cases hj
    rw [hheld, setAt_of_ne_slot _ _ _ _ hne]
    exact hb

theorem note_signalled (s : SignalState) (act : CommandAction) :
    (s.note act).signalled = s.signalled :=
  note_rule (·.signalled = s.signalled) rfl (fun _ _ _ _ h => h) (fun _ _ _ h => h)
    fun _ cmd => by cases cmd <;> rfl

theorem Handling.other (hs : Handling s a h)
    (hsafe : SignalSafe s (.base act)) (hstep : commandStep s.cmd act = some cmd)
    (hth : .app a ≠ act.thread) : Handling { s.note act with cmd } a h := by
  have hrow := SameRow.note (s := s) hth
  exact hs.frame (note_signalled s act) (commandStep_pc_of_ne hstep hth) hrow.socket hrow.held
    fun i hi b hb => hs.flush_base hsafe hi hb

theorem Handling.get (hs : Handling s a h) (hh : s.handler a = some h)
    (hsafe : SignalSafe s (.base (.get (.app a)))) (hstep : s.cmd.get (.app a) = some cmd) :
    Handling { s with cmd } a h := by
  have hpc := hs.pc
  cases hold : s.pc a with
  | wants c =>
    rw [hold] at hpc
    rcases CommandState.get_pc hold hstep with ⟨hpool, hnew⟩ | ⟨b, hnew⟩
    · -- only for the last command is there no buffer
      have hnone : c.closeSlots = [] := by
        cases c with
        | close i =>
          simp only [SignalSafe, hold] at hsafe
          exact absurd hpool (hsafe (by rw [hh]; rfl))
        | _ => rfl
      have hnew' : ({ s with cmd } : SignalState).pc a = .idle := hnew
      refine hs.go rfl rfl rfl rfl rfl ?_ (by rw [hnew']; rfl) (fun _ => by rw [hnew']; rfl) ?_
      · rw [hnew', hold]
        simp [Pc.closeSlots, hnone]
      · intro i hi
        rw [hnew'] at hi
        cases hi
    · have hnew' : ({ s with cmd } : SignalState).pc a = .filled b c := hnew
      refine hs.go rfl rfl rfl rfl rfl ?_ (by rw [hnew']; exact hpc) (fun hl => ?_) ?_
      · rw [hnew', hold]
        rfl
      · have hnone := hs.leaving hl
        rw [hold] at hnone
        rw [hnew']
        exact hnone
      · intro i hi
        rw [hnew'] at hi
        cases hi
  | announcing so l listener =>
    rw [hold] at hpc
    cases hpc
  | _ =>
    have hold' : s.cmd.pc (.app a) = _ := hold
    simp [CommandState.get, hold'] at hstep

theorem Handling.enqueue_close (hs : Handling s a h) (hsole : AtMostOnce (s.cmd.keeps s.held))
    {b : Nat} {i : Slot} (hold : s.pc a = .filled b (.close i))
    (hnew : cmd.pc (.app a) = .next (.flush i)) :
    Handling { s with
      cmd, handler := update s.handler a (some { h with issued := h.issued ++ [i] }) } a
      { h with issued := h.issued ++ [i] } := by
  have hheld (c : Nat) : s.held c i = false := by
    by_contra hc
    have hhand : i ∈ s.cmd.keeps s.held (.hand (.app a)) := by
      have hpc : s.cmd.pc (.app a) = .filled b (.close i) := hold
      simp [keeps, hpc, Pc.closeSlots, ServiceCmd.closeSlots]
    have hmem : i ∈ s.cmd.keeps s.held (.held c) :=
      mem_keeps_held.mpr (by simpa using hc)
    cases hsole.unique hhand hmem
  have hclose : (s.pc a).closeSlots = [i] := by rw [hold]; rfl
  refine hs.go rfl rfl rfl rfl rfl ?_ ?_ (fun hl => ?_) fun j _ c => ?_
  · rw [hclose, SignalState.pc, hnew]
    simp [Pc.closeSlots]
  · rw [SignalState.pc, hnew]
    rfl
  · rw [SignalState.pc, hnew]
    rfl
  · next hj =>
    rw [SignalState.pc, hnew] at hj
    cases hj
    exact hheld c

theorem Handling.enqueue (hs : Handling s a h) (hsole : AtMostOnce (s.cmd.keeps s.held))
    (hh : s.handler a = some h) (hsafe : SignalSafe s (.base (.enqueue (.app a))))
    (hstep : s.cmd.enqueue (.app a) = some cmd)
    (hh' : (s.note (.enqueue (.app a))).handler a = some h') :
    Handling { s.note (.enqueue (.app a)) with cmd } a h' := by
  have hpc := hs.pc
  cases hold : s.pc a with
  | filled b c =>
    rw [hold] at hpc
    have hnote : s.note (.enqueue (.app a)) =
        if s.cmd.chan.ring.count < commandPoolSize - 1 then s.sent a c else s := by
      simp only [SignalState.note, hold]
    cases c with
    | close i =>
      simp only [SignalSafe, hold] at hsafe
      have hroom := hsafe (by rw [hh]; rfl)
      rw [if_pos hroom, SignalState.sent, hh] at hnote
      rw [hnote] at hh' ⊢
      rcases CommandState.enqueue_pc hold hstep with ⟨-, hnew⟩ | ⟨hfull, -⟩
      · obtain rfl : { h with issued := h.issued ++ [i] } = h' := by
          simpa [SignalState.setHandler] using hh'
        exact hs.enqueue_close hsole hold hnew
      · exact absurd hroom hfull
    | disconnectClient n =>
      have hsame : s.note (.enqueue (.app a)) = s := by
        rw [hnote]
        split <;> rfl
      rw [hsame] at hh' ⊢
      obtain rfl : h = h' := Option.some.inj (hh.symm.trans hh')
      have hnew : cmd.pc (.app a) = .idle ∨ cmd.pc (.app a) = .releasing b .done := by
        rcases CommandState.enqueue_pc hold hstep with ⟨-, hnew⟩ | ⟨-, hnew⟩
        · exact .inl hnew
        · exact .inr hnew
      have hnone : (cmd.pc (.app a)).closeSlots = [] := by
        rcases hnew with hnew | hnew <;> rw [hnew] <;> rfl
      refine hs.go rfl rfl rfl rfl rfl ?_ ?_ (fun _ => hnone) fun j hj => ?_
      · rw [SignalState.pc, hnone, hold]
        rfl
      · rcases hnew with hnew | hnew <;> rw [SignalState.pc, hnew] <;> rfl
      · rcases hnew with hnew | hnew <;> rw [SignalState.pc, hnew] at hj <;> cases hj
    | _ => cases hpc
  | _ =>
    have hold' : s.cmd.pc (.app a) = _ := hold
    simp [CommandState.enqueue, hold'] at hstep

theorem Handling.next (hs : Handling s a h) (hnew : cmd.pc (.app a) = .idle)
    (hold : (s.pc a).closeSlots = []) : Handling { s with cmd } a h := by
  refine hs.go rfl rfl rfl rfl rfl ?_ ?_ (fun _ => ?_) fun j hj => ?_
  · rw [SignalState.pc, hnew, hold]
    rfl
  · rw [SignalState.pc, hnew]
    rfl
  · rw [SignalState.pc, hnew]
    rfl
  · rw [SignalState.pc, hnew] at hj
    cases hj

theorem Handling.own (hs : Handling s a h) (hsole : AtMostOnce (s.cmd.keeps s.held))
    (hh : s.handler a = some h) (hcaller : ∀ b ∈ act.caller, (s.handler b).isNone = true)
    (hsafe : SignalSafe s (.base act)) (hstep : commandStep s.cmd act = some cmd)
    (hth : .app a = act.thread) (hh' : (s.note act).handler a = some h') :
    Handling { s.note act with cmd } a h' := by
  have hnot (hb : act.caller = some a) : False := by
    have hnone := hcaller a hb
    rw [hh] at hnone
    cases hnone
  cases act with
  | get th =>
    obtain rfl : .app a = th := hth
    obtain rfl : h = h' := Option.some.inj (hh.symm.trans hh')
    exact hs.get hh hsafe hstep
  | enqueue th =>
    obtain rfl : .app a = th := hth
    exact hs.enqueue hsole hh hsafe hstep hh'
  | release th =>
    obtain rfl : .app a = th := hth
    obtain rfl : h = h' := Option.some.inj (hh.symm.trans hh')
    simp only [commandStep, CommandState.release] at hstep
    split at hstep
    · next b after hold =>
      cases hstep
      have hpc := hs.pc
      rw [SignalState.pc, hold] at hpc
      cases after with
      | done => exact hs.next (CommandState.setPc_self _ _ _) (by rw [SignalState.pc, hold]; rfl)
      | _ => cases hpc
    · cases hstep
  | flush b =>
    obtain rfl : a = b := app.inj hth
    obtain rfl : h = h' := Option.some.inj (hh.symm.trans hh')
    simp only [commandStep, CommandState.flush] at hstep
    split at hstep
    · next i hold =>
      cases hstep
      exact hs.next (CommandState.setPc_self _ _ _) (by rw [SignalState.pc, hold]; rfl)
    · cases hstep
  | call b c =>
    obtain rfl : a = b := app.inj hth
    exact (hnot rfl).elim
  | openSocket b | accept b | chooseSlot b | receive b =>
    obtain rfl : a = b := app.inj hth
    exact (hnot rfl).elim
  | dequeue | perform | onAccept | acceptFirst | post | submit | newconn | gone => cases hth

theorem SignalInv.base (hs : SignalInv s) (hcaller : ∀ b ∈ act.caller, (s.handler b).isNone = true)
    (hsafe : SignalSafe s (.base act)) (hstep : commandStep s.cmd act = some cmd) :
    SignalInv { s.note act with cmd } where
  sole := sole_base hs.sole hsafe hstep
  handling a h' hh' := by
    by_cases hth : .app a = act.thread
    · cases hh : s.handler a with
      | none =>
        have hnone : (s.note act).handler a = some h' := hh'
        rw [note_handler_none hh] at hnone
        cases hnone
      | some h => exact (hs.handling a h hh).own hs.sole hh hcaller hsafe hstep hth hh'
    · have hsame : s.handler a = some h' := (SameRow.note hth).handler.symm.trans hh'
      exact (hs.handling a h' hsame).other hsafe hstep hth

theorem SignalInv.enter (hs : SignalInv s) (hsafe : ∀ i, s.socket a i = s.held a i) :
    SignalInv (s.enter a) where
  sole := by
    have hflow : Flow (s.pc a).closeSlots [] (s.cmd.keeps s.held)
        ((s.cmd.setPc (.app a) .idle).keeps s.held) :=
      keeps_flow_setPc rfl fun x => by simp [SignalState.pc, Pc.closeSlots]
    exact hflow.atMostOnce hs.sole Fresh.nil
  handling b h hh := by
    by_cases hb : b = a
    · subst hb
      obtain rfl : ⟨.loop (List.finRange connectionPoolSize), s.held b, []⟩ = h := by
        simpa [SignalState.enter, SignalState.setHandler] using hh
      have hpc : (s.enter b).pc b = .idle := setPc_self _ _ _
      refine ⟨mem_cons_self, by rw [hpc]; rfl, fun hl => (by cases hl),
        ⟨[], rfl, by rw [hpc]; rfl⟩, fun i _ => ⟨hsafe i, rfl⟩, fun i hi => ?_⟩
      rw [hpc] at hi
      cases hi
    · have hsame : s.handler b = some h := by
        rw [← hh]
        exact (update_of_ne hb _ _).symm
      have hold := hs.handling b h hsame
      have hne : app b ≠ .app a := fun heq => hb (app.inj heq)
      have hpc : (s.enter a).pc b = s.pc b := update_of_ne hne _ _
      exact ⟨mem_cons_of_mem _ hold.signalled, hpc ▸ hold.pc, hpc ▸ hold.leaving,
        hpc ▸ hold.seen, hold.todo, fun i hi => hold.flush i (hpc ▸ hi)⟩

theorem Handling.handlers (hs : SignalInv s) (hsig : t.signalled = s.signalled)
    (hpc : ∀ b, b ≠ a → t.pc b = s.pc b) (hsocket : t.socket = s.socket)
    (hheld : ∀ b, b ≠ a → t.held b = s.held b)
    (hless : ∀ b i, s.held b i = false → t.held b i = false)
    (hhandler : ∀ b, b ≠ a → t.handler b = s.handler b) (hown : t.handler a = some h')
    (hmine : Handling t a h') : ∀ b h, t.handler b = some h → Handling t b h := by
  intro b h hh
  by_cases hb : b = a
  · subst hb
    obtain rfl : h' = h := Option.some.inj (hown.symm.trans hh)
    exact hmine
  · rw [hhandler b hb] at hh
    exact (hs.handling b h hh).frame hsig (hpc b hb) (by rw [hsocket]) (hheld b hb)
      fun i _ c hc => hless c i hc

section Look

variable {i : Slot} {todo issued : List Slot} {owned : Slot → Bool}

theorem Handling.seen_next (hs : Handling s a ⟨.loop (i :: todo), owned, issued⟩)
    (hidle : s.pc a = .idle) : i ∉ todo ∧ ∃ seen,
      seen ++ todo = List.finRange connectionPoolSize ∧
        issued ++ (if owned i then [i] else []) = seen.filter owned := by
  obtain ⟨seen, hall, hissued⟩ := hs.seen
  rw [hidle] at hissued
  have hissued' : issued = seen.filter owned := by simpa [Pc.closeSlots] using hissued
  have hall' : seen ++ i :: todo = List.finRange connectionPoolSize := hall
  have hnodup : (seen ++ i :: todo).Nodup := hall' ▸ nodup_finRange _
  refine ⟨(nodup_cons.mp (nodup_append.mp hnodup).2.1).1, seen ++ [i], by simpa using hall',
    ?_⟩
  rw [filter_append, ← hissued']
  cases hi : owned i <;> simp [hi]

theorem Handling.skip (hs : Handling s a ⟨.loop (i :: todo), owned, issued⟩)
    (hidle : s.pc a = .idle) (hsocket : s.socket a i = false) :
    Handling (s.setHandler a (some ⟨.loop todo, owned, issued⟩)) a ⟨.loop todo, owned, issued⟩ := by
  obtain ⟨-, seen, hall, hissued⟩ := hs.seen_next hidle
  have howned : owned i = false := (hs.todo i mem_cons_self).1.symm.trans hsocket
  have hpc : (s.setHandler a (some ⟨.loop todo, owned, issued⟩)).pc a = .idle := hidle
  refine ⟨hs.signalled, hs.pc, fun hl => (by cases hl), ⟨seen, hall, ?_⟩,
    fun j hj => hs.todo j (mem_cons_of_mem i hj), hs.flush⟩
  rw [hpc]
  simpa [howned, Pc.closeSlots] using hissued

theorem Handling.close (hs : Handling s a ⟨.loop (i :: todo), owned, issued⟩)
    (hidle : s.pc a = .idle) (hsocket : s.socket a i = true) :
    Handling (((s.setHandler a (some ⟨.loop todo, owned, issued⟩)).setHeld a i false).setPc a
      (.wants (.close i))) a ⟨.loop todo, owned, issued⟩ := by
  obtain ⟨hi, seen, hall, hissued⟩ := hs.seen_next hidle
  have howned : owned i = true := (hs.todo i mem_cons_self).1.symm.trans hsocket
  have hpc : (((s.setHandler a (some ⟨.loop todo, owned, issued⟩)).setHeld a i false).setPc a
      (.wants (.close i))).pc a = .wants (.close i) := setPc_self _ _ _
  refine ⟨hs.signalled, by rw [hpc]; rfl, fun hl => (by cases hl), ⟨seen, hall, ?_⟩, fun j hj => ?_,
    fun j hj => ?_⟩
  · rw [hpc]
    simpa [howned, Pc.closeSlots, ServiceCmd.closeSlots] using hissued
  · have hne : j ≠ i := fun hji => hi (hji ▸ hj)
    obtain ⟨hsock, hheld⟩ := hs.todo j (mem_cons_of_mem i hj)
    exact ⟨hsock, (setAt_of_ne_slot _ _ _ _ hne).trans hheld⟩
  · rw [hpc] at hj
    cases hj

theorem SignalInv.look (hs : SignalInv s) (hidle : s.pc a = .idle) (hstep : s.look a = some t) :
    SignalInv t := by
  unfold SignalState.look at hstep
  split at hstep
  · next i todo owned issued hh =>
    have hmine := hs.handling a _ hh
    obtain ⟨hsame, hheld⟩ := hmine.todo i mem_cons_self
    have hother (b : Nat) (hb : b ≠ a) :
        (s.setHandler a (some ⟨.loop todo, owned, issued⟩)).handler b = s.handler b :=
      update_of_ne hb _ _
    have hself : (s.setHandler a (some ⟨.loop todo, owned, issued⟩)).handler a =
        some ⟨.loop todo, owned, issued⟩ := update_self _ _ _
    cases hsocket : s.socket a i with
    | false =>
      obtain rfl : s.setHandler a (some ⟨.loop todo, owned, issued⟩) = t := by
        simpa [SignalState.setHandler, hsocket] using hstep
      exact ⟨hs.sole, Handling.handlers hs rfl (fun _ _ => rfl) rfl (fun _ _ => rfl)
        (fun _ _ h => h) hother hself (hmine.skip hidle hsocket)⟩
    | true =>
      obtain rfl : ((s.setHandler a (some ⟨.loop todo, owned, issued⟩)).setHeld a i false).setPc a
          (.wants (.close i)) = t := by
        simpa [SignalState.setHandler, hsocket] using hstep
      have hheld' : s.held a i = true := hheld.trans (hsame.symm.trans hsocket)
      obtain ⟨hsole, hnot⟩ := atMostOnce_giveUp hs.sole hheld'
      have hne {b : Nat} (hb : b ≠ a) : app b ≠ .app a := fun heq => hb (app.inj heq)
      refine ⟨?_, Handling.handlers hs rfl (fun b hb => update_of_ne (hne hb) _ _) rfl
        (fun b hb => setAt_of_ne_app _ _ _ hb) (fun b j hj => ?_) hother hself
        (hmine.close hidle hsocket)⟩
      · have hflow : Flow [] [i] (s.cmd.keeps (setAt s.held a i false))
            ((s.cmd.setPc (.app a) (.wants (.close i))).keeps (setAt s.held a i false)) := by
          refine keeps_flow_setPc rfl fun x => ?_
          have hpc : s.cmd.pc (.app a) = .idle := hidle
          simp [hpc, Pc.closeSlots, ServiceCmd.closeSlots]
        exact hflow.atMostOnce hsole ⟨nodup_singleton i, by simpa using hnot⟩
      · have hset : setAt s.held a i false b j = false := by
          rw [setAt_eq]
          split
          · rfl
          · exact hj
        exact hset
  · cases hstep

theorem SignalInv.disconnect (hs : SignalInv s) (hidle : s.pc a = .idle)
    (hstep : s.disconnect a = some t) : SignalInv t := by
  unfold SignalState.disconnect at hstep
  split at hstep
  · next owned issued hh =>
    obtain rfl := Option.some.inj hstep
    have hmine := hs.handling a _ hh
    have hne {b : Nat} (hb : b ≠ a) : app b ≠ .app a := fun heq => hb (app.inj heq)
    obtain ⟨n, hn⟩ : ∃ n, s.clientRingsetIdx a = n := ⟨_, rfl⟩
    have hpc : ((s.setHandler a (some ⟨.leaving, owned, issued⟩)).setPc a
        (.wants (.disconnectClient n))).pc a = .wants (.disconnectClient n) :=
      setPc_self _ _ _
    rw [hn]
    refine ⟨?_, Handling.handlers hs rfl (fun b hb => update_of_ne (hne hb) _ _) rfl
      (fun _ _ => rfl) (fun _ _ h => h) (fun b hb => update_of_ne hb _ _)
      (update_self _ _ _) ?_⟩
    · have hnone : (s.cmd.pc (.app a)).closeSlots = [] := congrArg Pc.closeSlots hidle
      have hflow : Flow [] [] (s.cmd.keeps s.held)
          ((s.cmd.setPc (.app a) (.wants (.disconnectClient n))).keeps s.held) :=
        keeps_flow_of_eq rfl hnone.symm
      exact hflow.atMostOnce hs.sole Fresh.nil
    · refine ⟨hmine.signalled, by rw [hpc]; rfl, fun _ => by rw [hpc]; rfl, ?_,
        fun j hj => (by cases hj), fun j hj => ?_⟩
      · obtain ⟨seen, hall, hissued⟩ := hmine.seen
        rw [hidle] at hissued
        exact ⟨seen, hall, by rw [hpc]; exact hissued⟩
      · rw [hpc] at hj
        cases hj
  · cases hstep

end Look

theorem SignalInv.step {act : SignalAction} (hs : SignalInv s) (hsafe : SignalSafe s act)
    (hstep : signalStep s act = some t) : SignalInv t := by
  cases act with
  | base act =>
    obtain ⟨hcaller, hstep⟩ := guard_bind_eq_some.mp hstep
    obtain ⟨cmd, hcmd, rfl⟩ := looked_eq_some.mp hstep
    exact hs.base hcaller hsafe hcmd
  | signal a sig =>
    obtain ⟨-, rfl⟩ := guarded_eq_some.mp hstep
    split
    · exact hs
    · next hsig => exact hs.enter (hsafe.resolve_left hsig)
  | look a =>
    obtain ⟨hidle, hstep⟩ := guard_bind_eq_some.mp hstep
    exact hs.look hidle hstep
  | disconnect a =>
    obtain ⟨hidle, hstep⟩ := guard_bind_eq_some.mp hstep
    exact hs.disconnect hidle hstep

theorem SignalInv.start (pool : List Nat) : SignalInv (SignalState.start pool) where
  sole := by
    apply AtMostOnce.of_unique
    · intro k
      cases k with
      | free => exact (nodup_finRange _).sublist (take_sublist _ _)
      | held a => simp [keeps, SignalState.start]
      | ring | hand => exact nodup_nil
    · intro x k k' hk hk'
      have hfree {k : Keeper} (hk : x ∈ (SignalState.start pool).cmd.keeps
          (SignalState.start pool).held k) : k = .free := by
        cases k with
        | free => rfl
        | held a => simp [keeps, SignalState.start] at hk
        | ring | hand => cases hk
      exact (hfree hk).trans (hfree hk').symm
  handling a h hh := by cases hh

theorem SignalInv.closesOwn (hs : SignalInv s) : ClosesOwn s := by
  intro a h hh
  have hmine := hs.handling a h hh
  obtain ⟨seen, hall, hissued⟩ := hmine.seen
  have hall' : h.ownSlots = seen.filter h.owned ++ h.stage.todo.filter h.owned := by
    rw [SigHandler.ownSlots, ← hall, filter_append]
  refine ⟨?_, fun hl => ?_, fun i hi b _ => hmine.flush i hi b⟩
  · rw [hall', ← hissued, append_assoc]
    exact prefix_append _ _
  · have hnone := hmine.leaving hl
    rw [hnone, append_nil] at hissued
    rw [hall', ← hissued, hl]
    simp [HandlerStage.todo]

end Handling

/-- Under `SignalSafe` a handler closes all slots of its application and touches no other's. -/
theorem closesOwn_of_run {pool : List Nat} {as : List SignalAction} {s : SignalState}
    (hrun : Run signalStep SignalSafe (SignalState.start pool) as s) : ClosesOwn s := by
  have hinv : SignalInv s :=
    hrun.invariant (fun _ _ _ hs hsafe hstep => hs.step hsafe hstep) (SignalInv.start pool)
  exact hinv.closesOwn

def openBy (a : Nat) : List SignalAction :=
  [.base (.openSocket a .stream none), .base (.get (.app a)), .base (.enqueue (.app a))]

def closeInHandler (a : Nat) : List SignalAction :=
  [.look a, .base (.get (.app a)), .base (.enqueue (.app a))]

def terminatedWithSocket : List SignalAction :=
  openBy 0 ++ openBy 1 ++ [.signal 0 .term] ++ closeInHandler 0 ++ [.base (.flush 0)] ++
    List.replicate 15 (.look 0) ++ [.disconnect 0]

theorem closesOwn_of_run_terminated : ∃ s, Run signalStep SignalSafe
    (SignalState.start (List.range 4)) terminatedWithSocket s ∧
      ((s.handler 0).any (fun h => h.stage = .leaving ∧ h.issued = [0]) = true ∧
        s.held 1 1 = true) ∧ ClosesOwn s :=
  Run.exists_and_of_runActions (by decide +kernel) fun _ hrun _ => closesOwn_of_run hrun

/-- The first application closes its slot, the other one opens all there are and so gets it too;
then the first one is terminated. -/
def terminatedAfterClose : List SignalAction :=
  openBy 0 ++ [.base .dequeue, .base (.perform (some 1) true), .base (.release .server),
    .base (.call 0 (.close 0)), .base (.get (.app 0)), .base (.enqueue (.app 0)),
    .base (.flush 0), .base .dequeue, .base (.perform none true), .base (.release .server)] ++
    (List.replicate 15 (openBy 1)).flatten ++ [.signal 0 .int] ++ closeInHandler 0

theorem stale_slot_closed : ∃ s, Run signalStep (fun _ _ => True)
    (SignalState.start (List.range 20)) terminatedAfterClose s ∧
      ((s.handler 0).any (fun h => h.ownSlots = [] ∧ h.issued = [0]) = true ∧
        s.pc 0 = .next (.flush 0) ∧ s.held 1 0 = true) ∧ ¬ ClosesOwn s := by
  refine Run.exists_and_of_runActions (by decide +kernel) fun s _ hs hown => ?_
  obtain ⟨hissued, hpc, hheld⟩ := hs
  obtain ⟨h, hh, -⟩ := (Option.any_eq_true _ _).mp hissued
  have hfree := (hown 0 h hh).2.2 0 hpc 1 (by decide)
  rw [hheld] at hfree
  cases hfree

end NetbsdDpdk
