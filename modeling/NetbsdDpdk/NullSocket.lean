import NetbsdDpdk.CommandInvariant

/-! The socket pointers that `process_commands` hands on. A slot has no socket before its OPEN is
processed, after one that failed, and after its CLOSE; the commands of an application arrive in any
order all the same. -/

namespace NetbsdDpdk

open CommandState ServiceCmd

inductive GlueFn
  | v4Connect | v4Bind | v4Listen | closeSocket | setsockopt | soshutdown | getSockSndBufSpace
  | userDataAvailableCbk | serviceOnTransmissionOpportunity | setGlueingBlock | getGlueingBlock
  | processTxEmpty
  deriving DecidableEq, Repr

/-- The function tests its pointer before it uses it. `user_data_available_cbk` tests the glueing
block only, which is the address of a slot here. -/
def GlueFn.testsNull : GlueFn → Bool
  | .serviceOnTransmissionOpportunity | .setGlueingBlock | .getGlueingBlock
  | .processTxEmpty => true
  | .v4Connect | .v4Bind | .v4Listen | .closeSocket | .setsockopt | .soshutdown
  | .getSockSndBufSpace | .userDataAvailableCbk => false

structure GlueCall where
  fn : GlueFn
  socket : Option SocketPtr
  deriving DecidableEq, Repr

def GlueCall.NoNull (c : GlueCall) : Prop := c.fn.testsNull = true ∨ c.socket ≠ none

instance (c : GlueCall) : Decidable c.NoNull := inferInstanceAs (Decidable (_ ∨ _))

/-- `if(socket_satelite_data[cmd->ringset_idx].socket)`. -/
def ifSocket (socket : Option SocketPtr) (fns : List GlueFn) : List GlueCall :=
  if socket = none then [] else fns.map fun fn => ⟨fn, socket⟩

/-- The calls of `process_commands`, where `socket` are the sockets of the slots and `created` is
what `app_glue_create_socket` returns. -/
def processCommands (socket : Slot → Option SocketPtr) (created : Option SocketPtr) :
    ServiceCmd → List GlueCall
  | .openSocket .. => ifSocket created [.setGlueingBlock, .getSockSndBufSpace]
  | .connectBind i isConnect _ _ => ifSocket (socket i) [if isConnect then .v4Connect else .v4Bind]
  | .listenSocket i => [⟨.v4Listen, socket i⟩]
  | .close i => ifSocket (socket i) [.closeSocket]
  | .txKick i => ifSocket (socket i) [.getGlueingBlock, .serviceOnTransmissionOpportunity]
  | .rxKick i => ifSocket (socket i) [.userDataAvailableCbk]
  | .setSocketRing _ _ so _ =>
    [⟨.setGlueingBlock, so⟩, ⟨.getSockSndBufSpace, so⟩, ⟨.userDataAvailableCbk, so⟩]
  | .setSocketSelect i _ _ => [⟨.userDataAvailableCbk, socket i⟩]
  | .txPoolEmpty i => [⟨.processTxEmpty, socket i⟩]
  | .setsockopt i _ _ _ => ifSocket (socket i) [.setsockopt]
  | .shutdown i _ => ifSocket (socket i) [.soshutdown]
  | .decline so => [⟨.closeSocket, so⟩]
  | .connectClient _ | .disconnectClient _ | .accepted .. => []

def ServiceCmd.needsSocket : ServiceCmd → Option Slot
  | .listenSocket i | .setSocketSelect i _ _ => some i
  | _ => none

def ServiceCmd.leaves (has : Slot → Bool) : ServiceCmd → Slot → Bool
  | .openSocket i _ _ _ | .setSocketRing i _ _ _ => Function.update has i true
  | .close i => Function.update has i false
  | _ => has

def Finds : (Slot → Bool) → List ServiceCmd → Prop
  | _, [] => True
  | has, cmd :: rest => (∀ i ∈ cmd.needsSocket, has i = true) ∧ Finds (cmd.leaves has) rest

instance : (has : Slot → Bool) → (cmds : List ServiceCmd) → Decidable (Finds has cmds)
  | _, [] => inferInstanceAs (Decidable True)
  | has, cmd :: rest =>
    have := instDecidableFinds (cmd.leaves has) rest
    inferInstanceAs (Decidable (_ ∧ _))

def Pc.current : Pc → List ServiceCmd
  | .processing _ cmd => [cmd]
  | _ => []

namespace CommandState

def hasSocket (s : CommandState) (i : Slot) : Bool := (s.sat i).isSome

def waitingCmds (s : CommandState) : List ServiceCmd := s.chan.ring.items.map Prod.snd

def outstanding (s : CommandState) : List ServiceCmd := (s.pc .server).current ++ s.waitingCmds

end CommandState

/-- A LISTEN or SET_SOCKET_SELECT is put on the ring only where the commands before it leave the
slot a socket, and an OPEN that fails has none behind it that counts on it. -/
def NullSafe (s : CommandState) : CommandAction → Prop
  | .enqueue th =>
    match s.pc th with
    | .filled _ cmd => ∀ i ∈ cmd.needsSocket,
        s.outstanding.foldl (fun has c => c.leaves has) s.hasSocket i = true
    | _ => True
  | .perform none _ =>
    match s.pc .server with
    | .processing _ (.openSocket ..) => Finds s.hasSocket s.waitingCmds
    | _ => True
  | _ => True

instance (s : CommandState) (a : CommandAction) : Decidable (NullSafe s a) := by
  unfold NullSafe
  repeat' split
  all_goals infer_instance

def NullFree (s : CommandState) : Prop :=
  ∀ b cmd, s.pc .server = .processing b cmd → ∀ created, ∀ c ∈ processCommands s.sat created cmd,
    c.NoNull

theorem noNull_ifSocket {socket : Option SocketPtr} {fns : List GlueFn} {c : GlueCall}
    (h : c ∈ ifSocket socket fns) : c.NoNull := by
  unfold ifSocket at h
  split at h
  · cases h
  · next hsocket =>
    obtain ⟨fn, -, rfl⟩ := List.mem_map.mp h
    exact .inr hsocket

theorem processCommands_noNull_iff (socket : Slot → Option SocketPtr) (created : Option SocketPtr)
    (cmd : ServiceCmd) : (∀ c ∈ processCommands socket created cmd, c.NoNull) ↔
      ∀ i ∈ cmd.needsSocket, socket i ≠ none := by
  cases cmd with
  | listenSocket i | setSocketSelect i =>
    simp [processCommands, needsSocket, GlueCall.NoNull, GlueFn.testsNull]
  | setSocketRing | decline | txPoolEmpty =>
    simp [processCommands, needsSocket, GlueCall.NoNull, GlueFn.testsNull]
  | connectClient | disconnectClient | accepted =>
    simp [processCommands, needsSocket]
  | openSocket | connectBind | close | txKick | rxKick | setsockopt | shutdown =>
    exact iff_of_true (fun c hc => noNull_ifSocket hc) (by simp [needsSocket])

theorem finds_append (has : Slot → Bool) (cmds rest : List ServiceCmd) :
    Finds has (cmds ++ rest) ↔
      Finds has cmds ∧ Finds (cmds.foldl (fun has c => c.leaves has) has) rest := by
  induction cmds generalizing has with
  | nil => simp [Finds]
  | cons cmd cmds ih => simp [Finds, ih, and_assoc]

/-! What a step does to the outstanding commands. -/

section Outstanding

variable {s t u : CommandState} {th : Thread}

structure SameWork (s t : CommandState) : Prop where
  sat : t.sat = s.sat
  outstanding : t.outstanding = s.outstanding

theorem SameWork.setPc {pc : Pc} (hsat : u.sat = s.sat) (hpc : u.pc = s.pc)
    (hring : u.chan.ring = s.chan.ring) (hcurrent : th = .server → pc.current = (s.pc th).current) :
    SameWork s (u.setPc th pc) := by
  refine ⟨hsat, ?_⟩
  have hcmds : (u.setPc th pc).waitingCmds = s.waitingCmds := by
    simp [CommandState.waitingCmds, CommandState.setPc, hring]
  have hpc' : ((u.setPc th pc).pc .server).current = (s.pc .server).current := by
    by_cases hth : th = .server
    · subst hth
      rw [CommandState.setPc_self]
      exact hcurrent rfl
    · simp [CommandState.setPc, Function.update_of_ne (Ne.symm hth), hpc]
  rw [CommandState.outstanding, CommandState.outstanding, hcmds, hpc']

theorem hasSocket_congr (h : t.sat = s.sat) : t.hasSocket = s.hasSocket := by
  funext i
  rw [hasSocket, hasSocket, h]

theorem hasSocket_update (i : Slot) (o : Option SocketPtr) (h : t.sat = Function.update s.sat i o) :
    t.hasSocket = Function.update s.hasSocket i o.isSome := by
  funext j
  by_cases hj : j = i
  · simp [hasSocket, h, hj]
  · simp [hasSocket, h, hj]

theorem Performed.hasSocket {created : Option SocketPtr} {ok : Bool} {cmd : ServiceCmd}
    (h : CommandState.Performed created ok s cmd t) : t.hasSocket = cmd.leaves s.hasSocket ∨
      created = none ∧ (∃ i parent type pid, cmd = .openSocket i parent type pid) ∧
        t.hasSocket = s.hasSocket := by
  cases h with
  | same htokens hlost hnew =>
    refine .inl ?_
    cases cmd with
    | openSocket | setSocketRing | decline => cases htokens
    | close i =>
      have hsat : s.sat i = none := by
        cases hi : s.sat i with
        | none => rfl
        | some so => simp [performLost, hi] at hlost
      have hnone : s.hasSocket i = false := by simp [hasSocket, hsat]
      rw [leaves, ← hnone, Function.update_eq_self]
    | _ => rfl
  | failed hcreated => exact .inr ⟨hcreated, ⟨_, _, _, _, rfl⟩, rfl⟩
  | @opened i _ _ _ so _ => exact .inl (hasSocket_update i (some so) rfl)
  | @bound i _ so _ => exact .inl (hasSocket_update i (some so) rfl)
  | connected | listening => exact .inl rfl
  | closed =>
    refine .inl (hasSocket_update _ none ?_)
    rw [setSat, closeSocket_sat]
  | declined => exact .inl (hasSocket_congr (closeSocket_sat s _))

end Outstanding

theorem finds_step {s t : CommandState} {a : CommandAction} (h : Finds s.hasSocket s.outstanding)
    (hsafe : NullSafe s a) (hstep : commandStep s a = some t) :
    Finds t.hasSocket t.outstanding := by
  have hsame (hwork : SameWork s t) : Finds t.hasSocket t.outstanding := by
    rw [hwork.outstanding, hasSocket_congr hwork.sat]
    exact h
  cases stepped hstep with
  | @enqueues th _ cmd ring hpc _ hring =>
    have hwork : SameWork { s with chan := { s.chan with ring } }
        (CommandState.setPc { s with chan := { s.chan with ring } } th (.next cmd.after)) :=
      SameWork.setPc rfl rfl rfl fun _ => by rw [hpc]; rfl
    simp only [NullSafe, hpc] at hsafe
    rw [hwork.outstanding, hasSocket_congr hwork.sat]
    have hout : CommandState.outstanding { s with chan := { s.chan with ring } } =
        s.outstanding ++ [cmd] := by
      simp [outstanding, waitingCmds, hring]
    rw [hout]
    exact (finds_append _ _ _).mpr ⟨h, hsafe, trivial⟩
  | refused hpc =>
    refine hsame (SameWork.setPc rfl rfl rfl fun _ => ?_)
    rw [hpc]
    split <;> rfl
  | dequeues hidle hring =>
    refine hsame ⟨rfl, ?_⟩
    simp [outstanding, waitingCmds, setPc, hidle, hring, Pc.current]
  | @performs _ _ b cmd u hpc _ hu =>
    have hout : (u.setPc .server (.releasing b .done)).outstanding = s.waitingCmds := by
      rw [hu.frame]
      simp [outstanding, waitingCmds, setPc, Pc.current]
    have hcmd : s.outstanding = cmd :: s.waitingCmds := by
      rw [outstanding, hpc]
      rfl
    have hhas : (u.setPc .server (.releasing b .done)).hasSocket = u.hasSocket := rfl
    rw [hcmd] at h
    rw [hout, hhas]
    rcases Performed.hasSocket hu with hleaves | ⟨rfl, ⟨i, parent, type, pid, rfl⟩, hsocket⟩
    · rw [hleaves]
      exact h.2
    · simp only [NullSafe, hpc] at hsafe
      rw [hsocket]
      exact hsafe
  | noSlot | noItem | takesData | submitRefused | submits | connects | goes =>
    exact hsame ⟨rfl, rfl⟩
  | unserved hpc | fills hpc | unannounced hpc | announces hpc | releases hpc | notices hpc
  | queueDone hpc | takesFirst hpc | postRefused hpc | posts hpc =>
    exact hsame (SameWork.setPc rfl rfl rfl fun _ => by rw [hpc]; rfl)
  | calls | opens | accepts | declines | chooses | receives | flushes =>
    exact hsame (SameWork.setPc rfl rfl rfl fun h => by cases h)

/-- Under `NullSafe` the server passes no NULL socket to the glue. -/
theorem nullFree_of_run {pool : List Nat} {as : List CommandAction} {s : CommandState}
    (hrun : Run commandStep NullSafe (CommandState.start pool) as s) : NullFree s := by
  have hfinds : Finds s.hasSocket s.outstanding :=
    hrun.invariant (fun _ _ _ h hsafe hstep => finds_step h hsafe hstep) trivial
  intro b cmd hpc created
  rw [outstanding, hpc] at hfinds
  rw [processCommands_noNull_iff]
  intro i hi
  have hsome : (s.sat i).isSome = true := hfinds.1 i hi
  exact Option.isSome_iff_ne_none.mp hsome

def sends (cmd : ServiceCmd) : List CommandAction :=
  [.call 0 cmd, .get (.app 0), .enqueue (.app 0)]

def opens : List CommandAction :=
  [.openSocket 0 .stream none, .get (.app 0), .enqueue (.app 0)]

def processes (created : Option SocketPtr) : List CommandAction :=
  [.dequeue, .perform created true, .release .server]

def listenEarly : List CommandAction :=
  opens ++ sends (.listenSocket 0) ++ processes (some 1) ++ [.dequeue]

theorem nullFree_of_run_early :
    ∃ s, Run commandStep NullSafe (CommandState.start [0, 1, 2]) listenEarly s ∧
      s.pc .server = .processing 1 (.listenSocket 0) ∧ NullFree s :=
  Run.exists_and_of_runActions (by decide +kernel) fun _ hrun _ => nullFree_of_run hrun

def listenWithoutSocket : List CommandAction :=
  opens ++ sends (.listenSocket 0) ++ processes none ++ [.dequeue]

def selectAfterClose : List CommandAction :=
  opens ++ processes (some 1) ++ sends (.close 0) ++ [.flush 0] ++ processes none ++
    sends (.setSocketSelect 0 (some 3) 0) ++ [.dequeue]

theorem null_socket_used :
    (∃ s, Run commandStep (fun _ _ => True) (CommandState.start [0, 1, 2]) listenWithoutSocket s ∧
      (s.pc .server = .processing 1 (.listenSocket 0) ∧
        processCommands s.sat none (.listenSocket 0) = [⟨.v4Listen, none⟩]) ∧ ¬ NullFree s) ∧
    ∃ s, Run commandStep (fun _ _ => True) (CommandState.start [0, 1, 2]) selectAfterClose s ∧
      (s.pc .server = .processing 0 (.setSocketSelect 0 (some 3) 0) ∧
        processCommands s.sat none (.setSocketSelect 0 (some 3) 0) =
          [⟨.userDataAvailableCbk, none⟩]) ∧ ¬ NullFree s := by
  have hnull {s : CommandState} {b : Nat} {cmd : ServiceCmd} {c : GlueCall} (hc : ¬ c.NoNull)
      (hs : s.pc .server = .processing b cmd ∧ processCommands s.sat none cmd = [c]) :
      ¬ NullFree s :=
    fun hfree => hc (hfree b cmd hs.1 none c (by simp [hs.2]))
  constructor
  all_goals exact Run.exists_and_of_runActions (by decide +kernel) fun _ _ => hnull (by decide)

end NetbsdDpdk
