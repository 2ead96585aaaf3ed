import NetbsdDpdk.CommandFlow

/-! Who may give a slot back. A slot is free, or held by an application, or named by a CLOSE on its
way to the server. As long as every application closes only what it holds, a slot is never in two
of these places; what is lost on the way (a call that gets no command buffer, a CLOSE for a slot
without a socket) is never free again. -/

namespace NetbsdDpdk

open List Function

inductive Keeper
  | free
  | ring
  | hand (t : Thread)
  | held (a : Nat)
  deriving DecidableEq

def ServiceCmd.closeSlots : ServiceCmd → List Slot
  | .close i => [i]
  | _ => []

def Pc.closeSlots : Pc → List Slot
  | .wants cmd | .filled _ cmd | .processing _ cmd => cmd.closeSlots
  | _ => []

def CommandAction.thread : CommandAction → Thread
  | .call a _ | .openSocket a _ _ | .accept a _ | .chooseSlot a | .receive a _ | .flush a => .app a
  | .get t | .enqueue t | .release t => t
  | _ => .server

def CommandAction.begun : CommandAction → List Slot
  | .call _ cmd => cmd.closeSlots
  | _ => []

def setAt (f : Nat → Slot → Bool) (a : Nat) (i : Slot) (v : Bool) : Nat → Slot → Bool :=
  Function.update f a (Function.update (f a) i v)

section SetAt

variable (f : Nat → Slot → Bool) (a b : Nat) (i j : Slot) (v : Bool)

theorem setAt_of_ne_app {a b : Nat} (h : b ≠ a) : setAt f a i v b = f b :=
  Function.update_of_ne h _ _

theorem setAt_of_ne_slot {i j : Slot} (h : j ≠ i) : setAt f a i v b j = f b j := by
  by_cases hb : b = a
  · subst hb
    simp [setAt, h]
  · rw [setAt_of_ne_app f i v hb]

theorem setAt_eq : setAt f a i v b j = if b = a ∧ j = i then v else f b j := by
  by_cases hb : b = a
  · subst hb
    by_cases hj : j = i <;> simp [setAt, hj]
  · simp [setAt, hb]

end SetAt

theorem count_filter_finRange (p : Slot → Bool) (x : Slot) :
    ((List.finRange connectionPoolSize).filter p).count x = if p x = true then 1 else 0 := by
  split
  · next hx =>
    rw [count_filter hx]
    exact count_eq_one_of_mem (nodup_finRange _) (mem_finRange x)
  · next hx => exact count_eq_zero_of_not_mem (by simp [hx])

namespace CommandState

def keeps (s : CommandState) (held : Nat → Slot → Bool) : Keeper → List Slot
  | .free => s.freeConnections.items
  | .ring => s.chan.ring.items.flatMap fun item => item.2.closeSlots
  | .hand t => (s.pc t).closeSlots
  | .held a => (List.finRange connectionPoolSize).filter (held a)

section Keeps

variable {s t u : CommandState} {held : Nat → Slot → Bool} {th : Thread} {pc : Pc}
  {lost new : List Slot}

theorem mem_keeps_held {a : Nat} {i : Slot} : i ∈ s.keeps held (.held a) ↔ held a i = true := by
  simp [keeps]

theorem keeps_setPc (s : CommandState) (held : Nat → Slot → Bool) (th : Thread) (pc : Pc) :
    (s.setPc th pc).keeps held = update (s.keeps held) (.hand th) pc.closeSlots := by
  funext k
  cases k with
  | hand t =>
    by_cases ht : t = th
    · subst ht
      simp [keeps, setPc]
    · simp [keeps, setPc, ht]
  | _ => simp [keeps, setPc]

theorem keeps_setAt (s : CommandState) (held : Nat → Slot → Bool) (a : Nat) (i : Slot) (v : Bool) :
    s.keeps (setAt held a i v) = update (s.keeps held) (.held a)
      ((List.finRange connectionPoolSize).filter (update (held a) i v)) := by
  funext k
  cases k with
  | held b =>
    by_cases hb : b = a
    · subst hb
      simp [keeps, setAt]
    · simp [keeps, setAt, hb]
  | _ => simp [keeps]

theorem keeps_congr (hfree : t.freeConnections.items = s.freeConnections.items)
    (hring : t.chan.ring.items = s.chan.ring.items) (hpc : t.pc = s.pc) :
    t.keeps held = s.keeps held := by
  funext k
  cases k <;> simp [keeps, hfree, hring, hpc]

theorem atMostOnce_giveUp {a : Nat} {i : Slot} (h : AtMostOnce (s.keeps held))
    (hheld : held a i = true) : AtMostOnce (s.keeps (setAt held a i false)) ∧
      ¬ Located (s.keeps (setAt held a i false)) i := by
  have hflow : Flow [i] [] (s.keeps held) (s.keeps (setAt held a i false)) := by
    rw [keeps_setAt]
    apply (Flow.update _ _ _).balance
    intro x
    simp only [keeps, count_filter_finRange]
    by_cases hx : x = i
    · subst hx
      simp [hheld]
    · simp [hx, Ne.symm hx]
  exact ⟨hflow.atMostOnce h Fresh.nil, hflow.not_located_of_mem_lost h (by simp) (by simp)⟩

theorem atMostOnce_take {a : Nat} {i : Slot} (h : AtMostOnce (s.keeps held))
    (hnot : ¬ Located (s.keeps held) i) : AtMostOnce (s.keeps (setAt held a i true)) := by
  have hheld : held a i = false := by
    by_contra hheld
    exact hnot ⟨.held a, mem_keeps_held.mpr (by simpa using hheld)⟩
  have hflow : Flow [] [i] (s.keeps held) (s.keeps (setAt held a i true)) := by
    rw [keeps_setAt]
    apply (Flow.update _ _ _).balance
    intro x
    simp only [keeps, count_filter_finRange]
    by_cases hx : x = i
    · subst hx
      simp [hheld]
    · simp [hx, Ne.symm hx]
  exact hflow.atMostOnce h ⟨nodup_singleton i, by simpa using hnot⟩

theorem keeps_flow_setPc (hu : u.keeps held = s.keeps held)
    (hcount : ∀ x, (s.pc th).closeSlots.count x + new.count x =
      pc.closeSlots.count x + lost.count x) :
    Flow lost new (s.keeps held) ((u.setPc th pc).keeps held) := by
  rw [keeps_setPc, hu]
  apply (Flow.update _ _ _).balance
  intro x
  have := hcount x
  simp only [keeps]
  omega

theorem keeps_flow_of_eq (hu : u.keeps held = s.keeps held)
    (hpc : pc.closeSlots = (s.pc th).closeSlots) :
    Flow [] [] (s.keeps held) ((u.setPc th pc).keeps held) :=
  keeps_flow_setPc hu fun x => by rw [hpc]

theorem keeps_setChan (s : CommandState) (held : Nat → Slot → Bool) (chan : CommandChannel) :
    { s with chan }.keeps held = update (s.keeps held) .ring
      (chan.ring.items.flatMap fun item => item.2.closeSlots) := by
  funext k
  cases k <;> simp [keeps]

theorem Performed.free_cases {created : Option SocketPtr} {ok : Bool} {cmd : ServiceCmd}
    (h : Performed created ok s cmd t) : t.freeConnections = s.freeConnections ∨
      t.freeConnections.items = s.freeConnections.items ++ cmd.closeSlots := by
  cases h with
  | @closed i so hsat =>
    cases hfree : s.freeConnections.enqueue i with
    | none => exact .inl (by simp)
    | some free => exact .inr (Fifo.enqueue_eq_some_iff.mp hfree).2
  | declined => exact .inl (by rw [closeSocket_frame])
  | same | failed | opened | bound | connected | listening => exact .inl rfl

theorem keeps_flow_perform (held : Nat → Slot → Bool) {created : Option SocketPtr} {ok : Bool}
    {cmd : ServiceCmd} {b : Nat}
    (hpc : s.pc .server = .processing b cmd) (h : Performed created ok s cmd t) :
    ∃ lost, Flow lost [] (s.keeps held) ((t.setPc .server (.releasing b .done)).keeps held) := by
  have hring : t.chan = s.chan := by rw [h.frame]
  rcases h.free_cases with hfree | hfree
  · refine ⟨cmd.closeSlots, keeps_flow_setPc (keeps_congr (by rw [hfree]) (by rw [hring]) h.pc_eq)
      fun x => ?_⟩
    simp [hpc, Pc.closeSlots]
  · refine ⟨[], ?_⟩
    have hkeeps : t.keeps held =
        update (s.keeps held) .free (s.freeConnections.items ++ cmd.closeSlots) := by
      funext k
      cases k <;> simp [keeps, hfree, hring, h.pc_eq]
    rw [keeps_setPc, hkeeps]
    apply ((Flow.update _ _ _).trans (Flow.update _ _ _)).balance
    intro x
    simp [keeps, hpc, Pc.closeSlots]

def takes (s : CommandState) : CommandAction → Option Slot
  | .openSocket .. | .chooseSlot _ => s.freeConnections.items.head?
  | _ => none

theorem keeps_flow_take {free : Fifo (connectionPoolSize - 1) Slot} {i : Slot}
    (hfree : s.freeConnections.items = i :: free.items)
    (hpc : pc.closeSlots = (s.pc th).closeSlots) :
    Flow [i] [] (s.keeps held)
      ((({ s with freeConnections := free } : CommandState).setPc th pc).keeps held) := by
  have hkeeps : ({ s with freeConnections := free } : CommandState).keeps held =
      update (s.keeps held) .free free.items := by
    funext k
    cases k <;> simp [keeps]
  rw [keeps_setPc, hkeeps]
  apply ((Flow.update _ _ _).trans (Flow.update _ _ _)).balance
  intro x
  simp [keeps, hpc, hfree, count_cons]

end Keeps

end CommandState

open CommandState in
theorem commandStep_keeps {s t : CommandState} {act : CommandAction} (held : Nat → Slot → Bool)
    (h : commandStep s act = some t) : ∃ lost, Flow lost act.begun (s.keeps held) (t.keeps held) ∧
      ∀ i ∈ s.takes act, i ∈ lost := by
  have hsimple (hflow : Flow [] act.begun (s.keeps held) (t.keeps held))
      (htakes : s.takes act = none) :
      ∃ lost, Flow lost act.begun (s.keeps held) (t.keeps held) ∧ ∀ i ∈ s.takes act, i ∈ lost :=
    ⟨[], hflow, by simp [htakes]⟩
  cases stepped h with
  | calls hidle =>
    refine hsimple (keeps_flow_setPc rfl fun x => ?_) rfl
    simp [hidle, CommandAction.begun, Pc.closeSlots]
  | noSlot hfree => exact hsimple (Flow.refl fun _ => rfl) (by simp [takes, hfree])
  | declines hpc hfree =>
    exact hsimple (keeps_flow_of_eq rfl (by rw [hpc]; rfl)) (by simp [takes, hfree])
  | @opens _ _ _ i _ hpc hfree | @chooses _ _ _ i _ hpc hfree =>
    exact ⟨[i], keeps_flow_take hfree (by rw [hpc]; rfl), by simp [takes, hfree]⟩
  | @unserved _ cmd hpc =>
    refine ⟨cmd.closeSlots, keeps_flow_setPc rfl fun x => ?_, by simp [takes]⟩
    simp [hpc, CommandAction.begun, Pc.closeSlots]
  | @enqueues _ _ _ ring hpc _ hring =>
    refine hsimple ?_ rfl
    rw [keeps_setPc, keeps_setChan s held { s.chan with ring }]
    apply ((Flow.update _ _ _).trans (Flow.update _ _ _)).balance
    intro x
    simp [keeps, hpc, hring, Pc.closeSlots, CommandAction.begun]
  | @refused _ _ cmd hpc =>
    refine ⟨cmd.closeSlots, keeps_flow_setPc rfl fun x => ?_, by simp [takes]⟩
    split <;> simp [hpc, Pc.closeSlots, CommandAction.begun]
  | @dequeues _ _ ring hidle hring =>
    refine hsimple ?_ rfl
    rw [keeps_setPc, keeps_setChan s held { s.chan with ring }]
    apply ((Flow.update _ _ _).trans (Flow.update _ _ _)).balance
    intro x
    simp [keeps, hidle, hring, Pc.closeSlots, CommandAction.begun]
    omega
  | performs hpc _ hu =>
    obtain ⟨lost, hflow⟩ := keeps_flow_perform held hpc hu
    exact ⟨lost, hflow, by simp [takes]⟩
  | noItem | takesData | submitRefused | submits | connects | goes =>
    exact hsimple (Flow.refl fun k => congrFun (keeps_congr rfl rfl rfl) k) rfl
  | fills hpc | unannounced hpc | announces hpc | releases hpc | accepts hpc | receives hpc
  | flushes hpc | notices hpc | queueDone hpc | takesFirst hpc | postRefused hpc | posts hpc =>
    exact hsimple (keeps_flow_of_eq (keeps_congr rfl rfl rfl) (by rw [hpc]; rfl)) rfl

theorem CommandState.get_pc {s t : CommandState} {th : Thread} {cmd : ServiceCmd}
    (hpc : s.pc th = .wants cmd) (h : s.get th = some t) :
    s.chan.pool = [] ∧ t.pc th = .idle ∨ ∃ b, t.pc th = .filled b cmd := by
  cases get_cases h with
  | unserved _ hpool => exact .inl ⟨hpool, setPc_self _ _ _⟩
  | @fills _ cmd' b _ hwants =>
    cases hwants.symm.trans hpc
    exact .inr ⟨b, setPc_self _ _ _⟩
  | unannounced hpc' | announces hpc' => cases hpc'.symm.trans hpc

theorem CommandState.enqueue_pc {s t : CommandState} {th : Thread} {b : Nat} {cmd : ServiceCmd}
    (hpc : s.pc th = .filled b cmd) (h : s.enqueue th = some t) :
    s.chan.ring.count < commandPoolSize - 1 ∧ t.pc th = .next cmd.after ∨
      ¬ s.chan.ring.count < commandPoolSize - 1 ∧
        t.pc th = if cmd.isUnchecked then .idle else .releasing b cmd.after := by
  cases enqueue_cases h with
  | enqueues hfilled hroom =>
    cases hfilled.symm.trans hpc
    exact .inl ⟨hroom, setPc_self _ _ _⟩
  | refused hfilled hfull =>
    cases hfilled.symm.trans hpc
    exact .inr ⟨hfull, setPc_self _ _ _⟩

open CommandState in
theorem commandStep_pc_of_ne {s t : CommandState} {act : CommandAction} {th : Thread}
    (h : commandStep s act = some t) (hth : th ≠ act.thread) : t.pc th = s.pc th := by
  have hset (u : CommandState) (pc : Pc) (hu : u.pc = s.pc) :
      (u.setPc act.thread pc).pc th = s.pc th := by
    rw [← hu]
    exact Function.update_of_ne hth _ _
  cases stepped h with
  | noSlot | noItem | takesData | submitRefused | submits | connects | goes => rfl
  | performs _ _ hu => exact hset _ _ hu.pc_eq
  | _ => exact hset _ _ rfl

end NetbsdDpdk
