import Mathlib.Data.BitVec
import NetbsdDpdk.Transition

/-! The callouts of the stack: three flags beside a timer of `rte_timer`, on one lcore. The function
of a callout runs inside `rte_timer_manage` and may call the callout itself. -/

namespace NetbsdDpdk

open List

inductive RteTimerState
  | stop
  | pending
  | running
  deriving DecidableEq

structure RteTimer where
  state : RteTimerState := .stop
  updated : Bool := false
  deriving DecidableEq

namespace RteTimer

/-- `rte_timer_reset` with `SINGLE`, by the lcore that the timer belongs to. -/
def rteTimerReset (t : RteTimer) : RteTimer :=
  ⟨.pending, t.updated || t.state = .running⟩

/-- `rte_timer_stop` by that lcore, which does not fail. -/
def rteTimerStop (t : RteTimer) : Int × RteTimer :=
  (0, ⟨.stop, t.updated || t.state = .running⟩)

def finish (t : RteTimer) : RteTimer := if t.updated then t else { t with state := .stop }

end RteTimer

def calloutPENDING : BitVec 32 := 0x2
def calloutFIRED : BitVec 32 := 0x4
def calloutINVOKING : BitVec 32 := 0x8

variable {F A : Type}

/-- `inside` and `calls` are not in the code: the function is being called, and what it has been
called as. Nothing reads `c_time`. -/
structure Callout (F A : Type) where
  timer : RteTimer := {}
  cFunc : Option F := none
  cArg : Option A := none
  cFlags : BitVec 32 := 0
  inside : Bool := false
  calls : List (F × Option A) := []

namespace Callout

def wrapperFunc (c : Callout F A) : Callout F A :=
  match c.cFunc with
  | none => c
  | some f =>
    { c with
      cFlags := (c.cFlags &&& ~~~calloutPENDING) ||| (calloutFIRED ||| calloutINVOKING)
      inside := true
      calls := c.calls ++ [(f, c.cArg)] }

def calloutInit : Callout F A := {}

def calloutSetfunc (c : Callout F A) (cbk : F) (arg : Option A) : Callout F A :=
  { c with cArg := arg, cFunc := some cbk }

def calloutSchedule (c : Callout F A) : Callout F A :=
  { c with
    cFlags := (c.cFlags &&& ~~~(calloutFIRED ||| calloutINVOKING)) ||| calloutPENDING
    timer := c.timer.rteTimerReset }

def calloutReset (c : Callout F A) (cbk : F) (arg : Option A) : Callout F A :=
  (c.calloutSetfunc cbk arg).calloutSchedule

def calloutStop (c : Callout F A) : Bool × Callout F A :=
  let r := c.timer.rteTimerStop
  (r.1 = 0, { c with cFlags := c.cFlags &&& ~~~(calloutPENDING ||| calloutFIRED), timer := r.2 })

def calloutHalt (c : Callout F A) : Bool × Callout F A := c.calloutStop

def calloutPending (c : Callout F A) : Bool := (c.cFlags &&& calloutPENDING) != 0

def calloutExpired (c : Callout F A) : Bool := (c.cFlags &&& calloutFIRED) != 0

def calloutAck (c : Callout F A) : Callout F A :=
  { c with cFlags := c.cFlags &&& ~~~calloutINVOKING }

end Callout

inductive CalloutAction (F A : Type)
  | setfunc (cbk : F) (arg : Option A)
  | reset (cbk : F) (arg : Option A)
  | schedule
  | stop
  | halt
  | ack
  | expire
  | ret

namespace CalloutAction

def Arms : CalloutAction F A → Prop
  | reset .. | schedule => True
  | _ => False

def Stops : CalloutAction F A → Prop
  | stop | halt => True
  | _ => False

def Expires : CalloutAction F A → Prop
  | expire => True
  | _ => False

def sets : CalloutAction F A → Option (F × Option A)
  | setfunc cbk arg | reset cbk arg => some (cbk, arg)
  | _ => none

end CalloutAction

open Callout in
/-- One step. An armed timer may expire whenever the lcore is not in the function; the call ends
with `ret`. -/
def calloutStep (c : Callout F A) : CalloutAction F A → Option (Callout F A)
  | .setfunc cbk arg => some (c.calloutSetfunc cbk arg)
  | .reset cbk arg => some (c.calloutReset cbk arg)
  | .schedule => some c.calloutSchedule
  | .stop => some c.calloutStop.2
  | .halt => some c.calloutHalt.2
  | .ack => some c.calloutAck
  | .expire => do
    guard (c.inside = false ∧ c.timer.state = .pending)
    let u := { c with timer := ⟨.running, false⟩ }.wrapperFunc
    return if u.inside then u else { u with timer := u.timer.finish }
  | .ret => do
    guard (c.inside = true)
    return { c with inside := false, timer := c.timer.finish }

def lastSet (cur : F × Option A) (as : List (CalloutAction F A)) : F × Option A :=
  as.foldl (fun cur a => a.sets.getD cur) cur

/-- The calls that a run should make: each expiry calls what was set last. -/
def callsOf (cur : F × Option A) : List (CalloutAction F A) → List (F × Option A)
  | [] => []
  | .expire :: as => cur :: callsOf cur as
  | a :: as => callsOf (a.sets.getD cur) as

structure OneShot (cur : F × Option A) (as : List (CalloutAction F A)) (c : Callout F A) :
    Prop where
  pending : c.calloutPending = true ↔ c.timer.state = .pending
  expired : c.calloutExpired = true ↔ Since (·.Expires) (fun a => a.Arms ∨ a.Stops) as
  armed : ∀ pre post, as = pre ++ .expire :: post →
    Since (·.Arms) (fun a => a.Stops ∨ a.Expires) pre
  calls : c.calls = callsOf cur as

open CalloutAction

theorem callsOf_snoc (cur : F × Option A) (as : List (CalloutAction F A)) (a : CalloutAction F A) :
    callsOf cur (as ++ [a]) = callsOf cur as ++ callsOf (lastSet cur as) [a] := by
  induction as generalizing cur with
  | nil => rfl
  | cons b as ih => cases b <;> simp [callsOf, lastSet, sets, ih]

section Flags

variable {c : Callout F A}

theorem and_ne_zero_iff (x : BitVec 32) (i : Nat) (hi : i < 32) :
    ((x &&& BitVec.twoPow 32 i) != 0) = x.getLsbD i := by
  rw [BitVec.and_twoPow]
  cases x.getLsbD i with
  | false => rfl
  | true =>
    have hne : BitVec.twoPow 32 i ≠ 0 := by
      intro heq
      have hbit := congrArg (BitVec.getLsbD · i) heq
      simp [hi] at hbit
    simpa using hne

theorem calloutPending_eq : c.calloutPending = c.cFlags.getLsbD 1 :=
  and_ne_zero_iff c.cFlags 1 (by decide)

theorem calloutExpired_eq : c.calloutExpired = c.cFlags.getLsbD 2 :=
  and_ne_zero_iff c.cFlags 2 (by decide)

end Flags

structure CalloutInv (cur : F × Option A) (as : List (CalloutAction F A)) (c : Callout F A) : Prop
    extends OneShot cur as c where
  timer : c.timer.state = .pending ↔ Since (·.Arms) (fun a => a.Stops ∨ a.Expires) as
  func : c.cFunc = some (lastSet cur as).1
  arg : c.cArg = (lastSet cur as).2
  running : c.inside = true → c.timer.updated = false → c.timer.state = .running

namespace CalloutInv

variable {cur : F × Option A} {as : List (CalloutAction F A)} {a : CalloutAction F A}
  {c c' : Callout F A}

theorem init (cbk : F) (arg : Option A) :
    CalloutInv (cbk, arg) [] (Callout.calloutInit.calloutSetfunc cbk arg) where
  pending := by simp [calloutPending_eq, Callout.calloutSetfunc, Callout.calloutInit]
  expired := by
    simp [calloutExpired_eq, Callout.calloutSetfunc, Callout.calloutInit, since_nil]
  armed pre post heq := by simp at heq
  calls := rfl
  timer := by simp [Callout.calloutSetfunc, Callout.calloutInit, since_nil]
  func := rfl
  arg := rfl
  running hin := by cases hin

theorem snoc (h : CalloutInv cur as c) (ha : ¬ a.Expires) (hcalls : c'.calls = c.calls)
    (hpending : c'.calloutPending = true ↔ c'.timer.state = .pending)
    (hexpired : c'.calloutExpired = true ↔ ¬ (a.Arms ∨ a.Stops) ∧ c.calloutExpired = true)
    (htimer : c'.timer.state = .pending ↔ a.Arms ∨ ¬ a.Stops ∧ c.timer.state = .pending)
    (hset : (c'.cFunc, c'.cArg) = (a.sets.map fun s => (some s.1, s.2)).getD (c.cFunc, c.cArg))
    (hrunning : c'.inside = true → c'.timer.updated = false → c'.timer.state = .running) :
    CalloutInv cur (as ++ [a]) c' where
  pending := hpending
  expired := by rw [hexpired, since_snoc, h.expired]; simp [ha]
  armed pre post heq := by
    cases post using List.reverseRecOn with
    | nil =>
      obtain ⟨-, rfl⟩ := append_singleton_inj.mp heq
      exact absurd trivial ha
    | append_singleton post b =>
      rw [← cons_append, ← append_assoc] at heq
      exact h.armed pre post (append_singleton_inj.mp heq).1
  calls := by
    rw [hcalls, h.calls, callsOf_snoc]
    cases a <;> simp_all [callsOf, CalloutAction.Expires]
  timer := by rw [htimer, since_snoc, h.timer]; simp [ha]
  func := by
    have hfunc := h.func
    cases a <;> simp_all [lastSet, sets]
  arg := by
    have harg := h.arg
    cases a <;> simp_all [lastSet, sets]
  running := hrunning

theorem setfunc (h : CalloutInv cur as c) (cbk : F) (arg : Option A) :
    CalloutInv cur (as ++ [.setfunc cbk arg]) (c.calloutSetfunc cbk arg) :=
  h.snoc id rfl h.pending (by simp [CalloutAction.Arms, CalloutAction.Stops, calloutExpired_eq,
    Callout.calloutSetfunc]) (by simp [CalloutAction.Arms, CalloutAction.Stops,
    Callout.calloutSetfunc]) rfl h.running

theorem arm (h : CalloutInv cur as c) (ha : a.Arms) (hset : (c'.cFunc, c'.cArg) =
      (a.sets.map fun s => (some s.1, s.2)).getD (c.cFunc, c.cArg)) (hcalls : c'.calls = c.calls)
    (htimer : c'.timer = c.timer) (hinside : c'.inside = c.inside) :
    CalloutInv cur (as ++ [a]) c'.calloutSchedule := by
  refine h.snoc (by cases a <;> simp_all [CalloutAction.Arms, CalloutAction.Expires]) hcalls ?_ ?_
    ?_ hset ?_
  · simp [calloutPending_eq, Callout.calloutSchedule, RteTimer.rteTimerReset, calloutPENDING]
  · simp [calloutExpired_eq, Callout.calloutSchedule, calloutPENDING, calloutFIRED,
      calloutINVOKING, ha]
  · simp [Callout.calloutSchedule, RteTimer.rteTimerReset, ha]
  · intro hin hupdated
    -- inside its function the timer runs, or was touched there before
    have hrun := h.running (hinside ▸ hin)
    simp_all [Callout.calloutSchedule, RteTimer.rteTimerReset]

theorem stop (h : CalloutInv cur as c) (ha : a.Stops) :
    CalloutInv cur (as ++ [a]) c.calloutStop.2 := by
  refine h.snoc (by cases a <;> simp_all [CalloutAction.Stops, CalloutAction.Expires]) rfl ?_ ?_ ?_
    (by cases a <;> simp_all [CalloutAction.Stops, sets, Callout.calloutStop]) ?_
  · simp [calloutPending_eq, Callout.calloutStop, RteTimer.rteTimerStop, calloutPENDING]
  · simp [calloutExpired_eq, Callout.calloutStop, calloutPENDING, calloutFIRED, ha]
  · have harm : ¬ a.Arms := by cases a <;> simp_all [CalloutAction.Stops, CalloutAction.Arms]
    simp [Callout.calloutStop, RteTimer.rteTimerStop, ha, harm]
  · intro hin hupdated
    have hrun := h.running hin
    simp_all [Callout.calloutStop, RteTimer.rteTimerStop]

theorem ack (h : CalloutInv cur as c) : CalloutInv cur (as ++ [.ack]) c.calloutAck := by
  refine h.snoc id rfl ?_ ?_ ?_ rfl h.running
  · have hold := h.pending
    simpa [calloutPending_eq, Callout.calloutAck, calloutINVOKING] using hold
  · simp [calloutExpired_eq, Callout.calloutAck, calloutINVOKING, CalloutAction.Arms,
      CalloutAction.Stops]
  · simp [Callout.calloutAck, CalloutAction.Arms, CalloutAction.Stops]

theorem ret (h : CalloutInv cur as c) (hin : c.inside = true) :
    CalloutInv cur (as ++ [.ret]) { c with inside := false, timer := c.timer.finish } := by
  have hstate : c.timer.finish.state = .pending ↔ c.timer.state = .pending := by
    unfold RteTimer.finish
    cases hupdated : c.timer.updated with
    | true => rfl
    | false => simp [h.running hin hupdated]
  refine h.snoc id rfl ?_ ?_ ?_ rfl (fun hin => by cases hin)
  · rw [hstate]
    exact h.pending
  · simp [calloutExpired_eq, CalloutAction.Arms, CalloutAction.Stops]
  · simp [hstate, CalloutAction.Arms, CalloutAction.Stops]

theorem expire (h : CalloutInv cur as c) (hstate : c.timer.state = .pending) :
    CalloutInv cur (as ++ [.expire])
      { c with timer := ⟨.running, false⟩, cFlags := (c.cFlags &&& ~~~calloutPENDING) |||
          (calloutFIRED ||| calloutINVOKING), inside := true, calls := c.calls ++ [lastSet cur as] }
    where
  pending := by
    simp [calloutPending_eq, calloutPENDING, calloutFIRED, calloutINVOKING]
  expired := by
    simp [calloutExpired_eq, calloutPENDING, calloutFIRED, calloutINVOKING, since_snoc,
      CalloutAction.Expires]
  armed pre post heq := by
    cases post using List.reverseRecOn with
    | nil =>
      obtain ⟨rfl, -⟩ := append_singleton_inj.mp heq
      exact h.timer.mp hstate
    | append_singleton post b =>
      rw [← cons_append, ← append_assoc] at heq
      exact h.armed pre post (append_singleton_inj.mp heq).1
  calls := by rw [callsOf_snoc, ← h.calls]; rfl
  timer := by simp [since_snoc, CalloutAction.Arms, CalloutAction.Expires]
  func := by simpa [lastSet, sets] using h.func
  arg := by simpa [lastSet, sets] using h.arg
  running _ _ := rfl

theorem step (h : CalloutInv cur as c) (hstep : calloutStep c a = some c') :
    CalloutInv cur (as ++ [a]) c' := by
  cases a with
  | setfunc cbk arg =>
    cases hstep
    exact h.setfunc cbk arg
  | reset cbk arg =>
    cases hstep
    exact h.arm trivial rfl rfl rfl rfl
  | schedule =>
    cases hstep
    exact h.arm trivial rfl rfl rfl rfl
  | stop =>
    cases hstep
    exact h.stop trivial
  | halt =>
    cases hstep
    exact h.stop trivial
  | ack =>
    cases hstep
    exact h.ack
  | expire =>
    obtain ⟨⟨-, hstate⟩, rfl⟩ := guarded_eq_some.mp hstep
    have hcall : lastSet cur as = ((lastSet cur as).1, c.cArg) := by rw [h.arg]
    simp only [Callout.wrapperFunc, h.func, if_true]
    rw [← hcall, ← h.func]
    exact h.expire hstate
  | ret =>
    obtain ⟨hin, rfl⟩ := guarded_eq_some.mp hstep
    exact h.ret hin

end CalloutInv

/-- In every run a callout fires at most once for each time it is armed, never behind a stop. -/
theorem callout_oneShot {cbk : F} {arg : Option A} {as : List (CalloutAction F A)}
    {c : Callout F A} (hrun : Run calloutStep (fun _ _ => True)
      (Callout.calloutInit.calloutSetfunc cbk arg) as c) : OneShot (cbk, arg) as c := by
  have hinv : CalloutInv (cbk, arg) as c := by
    induction hrun with
    | nil => exact .init cbk arg
    | snoc _ _ hstep ih => exact ih.step hstep
  exact hinv.toOneShot

def rearmed : List (CalloutAction Bool Unit) :=
  [.schedule, .expire, .schedule, .stop, .ret, .reset false none, .expire, .ack, .ret]

theorem callout_oneShot_rearmed : ∃ c : Callout Bool Unit,
    Run calloutStep (fun _ _ => True) (Callout.calloutInit.calloutSetfunc true none) rearmed c ∧
    c.calls = [(true, none), (false, none)] ∧ OneShot (true, none) rearmed c :=
  Run.exists_and_of_runActions (by decide +kernel) fun _ hrun _ => callout_oneShot hrun

end NetbsdDpdk
