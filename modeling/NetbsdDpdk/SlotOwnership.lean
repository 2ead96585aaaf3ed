import Mathlib.Algebra.BigOperators.Group.Finset.Basic
import Mathlib.Data.Fintype.BigOperators
import NetbsdDpdk.Service

/-! Who has a connection slot: the ring of free slots, an application, or a command on its way.
The ownership is an abstract machine of its own, and every step of the service is one of its
steps. -/

namespace NetbsdDpdk

open List Function Option Fifo

open CommandChannel

inductive SlotCmd
  | attach
  | close
  deriving DecidableEq

def ServiceCmd.onSlot (i : Slot) : ServiceCmd → Option SlotCmd
  | .openSocket j .. => if j = i then some .attach else none
  | .setSocketRing j .. => if j = i then some .attach else none
  | .close j => if j = i then some .close else none
  | _ => none

/-- `linked i` tells whether the server has a socket for the slot. -/
@[ext]
structure Ownership where
  free : List Slot
  pend : Slot → List SlotCmd
  linked : Slot → Bool
  held : Nat → Slot → Bool

namespace Ownership

def setPend (v : Ownership) (i : Slot) (cs : List SlotCmd) : Ownership :=
  { v with pend := Function.update v.pend i cs }

def setLinked (v : Ownership) (i : Slot) (b : Bool) : Ownership :=
  { v with linked := Function.update v.linked i b }

def setHeld (v : Ownership) (a : Nat) (i : Slot) (b : Bool) : Ownership :=
  { v with held := Function.update v.held a (Function.update (v.held a) i b) }

/-- `lose` is a call that fails behind the point where it took the slot; `giveUp` is a close whose
command could not be sent; `forget` is a close of a slot that has no socket. -/
inductive Step (v : Ownership) : Ownership → Prop
  | stay : Step v v
  | lose {i : Slot} {rest : List Slot} (hfree : v.free = i :: rest) :
      Step v { v with free := rest }
  | acquire {i : Slot} {rest : List Slot} (a : Nat) (hfree : v.free = i :: rest) :
      Step v (({ v with free := rest }.setPend i (v.pend i ++ [SlotCmd.attach])).setHeld a i true)
  | giveUp {a : Nat} {i : Slot} (hheld : v.held a i = true) : Step v (v.setHeld a i false)
  | release {a : Nat} {i : Slot} (hheld : v.held a i = true) :
      Step v ((v.setPend i (v.pend i ++ [.close])).setHeld a i false)
  | refuse {i : Slot} {cs : List SlotCmd} (hpend : v.pend i = .attach :: cs) :
      Step v (v.setPend i cs)
  | link {i : Slot} {cs : List SlotCmd} (hpend : v.pend i = .attach :: cs) :
      Step v ((v.setPend i cs).setLinked i true)
  | forget {i : Slot} {cs : List SlotCmd} (hpend : v.pend i = .close :: cs)
      (hlinked : v.linked i = false) : Step v (v.setPend i cs)
  | unlink {i : Slot} {cs : List SlotCmd} {free : List Slot} (hpend : v.pend i = .close :: cs)
      (hlinked : v.linked i = true) (hfree : free = v.free ++ [i] ∨ free = v.free) :
      Step v { (v.setPend i cs).setLinked i false with free }

/-- No slot is in two hands: a free slot is in no other, and a slot in use has at most one holder,
who has not closed it. -/
structure Sound (v : Ownership) : Prop where
  nodup : v.free.Nodup
  free : ∀ i ∈ v.free, v.pend i = [] ∧ v.linked i = false ∧ ∀ a, v.held a i = false
  shape : ∀ i, (v.pend i).Sublist [.attach, .close]
  attach : ∀ i, .attach ∈ v.pend i → v.linked i = false
  held : ∀ a i, v.held a i = true → .close ∉ v.pend i
  unique : ∀ a b i, v.held a i = true → v.held b i = true → a = b

structure Lost (v : Ownership) (i : Slot) : Prop where
  free : i ∉ v.free
  pend : .close ∉ v.pend i
  held : ∀ a, v.held a i = false

section Fields

variable (v : Ownership) (a : Nat) (i j : Slot) (b : Bool) (cs : List SlotCmd)

@[simp] theorem setPend_free : (v.setPend i cs).free = v.free := rfl
@[simp] theorem setPend_linked : (v.setPend i cs).linked = v.linked := rfl
@[simp] theorem setPend_held : (v.setPend i cs).held = v.held := rfl
@[simp] theorem setLinked_free : (v.setLinked i b).free = v.free := rfl
@[simp] theorem setLinked_pend : (v.setLinked i b).pend = v.pend := rfl
@[simp] theorem setLinked_held : (v.setLinked i b).held = v.held := rfl
@[simp] theorem setHeld_free : (v.setHeld a i b).free = v.free := rfl
@[simp] theorem setHeld_pend : (v.setHeld a i b).pend = v.pend := rfl
@[simp] theorem setHeld_linked : (v.setHeld a i b).linked = v.linked := rfl

theorem setPend_pend : (v.setPend i cs).pend j = if j = i then cs else v.pend j := by
  simp [setPend, update_apply]

theorem setLinked_linked : (v.setLinked i b).linked j = if j = i then b else v.linked j := by
  simp [setLinked, update_apply]

theorem setHeld_held (c : Nat) :
    (v.setHeld a i b).held c j = if c = a ∧ j = i then b else v.held c j := by
  by_cases hc : c = a
  · subst hc
    simp [setHeld, update_apply]
  · simp [setHeld, hc]

end Fields

variable {v w : Ownership} {i : Slot}

theorem Sound.setPend (h : Sound v) (cs : List SlotCmd) (hfree : i ∉ v.free)
    (hshape : cs.Sublist [.attach, .close]) (hattach : .attach ∈ cs → v.linked i = false)
    (hclose : .close ∈ cs → ∀ a, v.held a i = false) : Sound (v.setPend i cs) := by
  constructor
  · exact h.nodup
  · intro j hj
    have hne : j ≠ i := fun he => hfree (he ▸ hj)
    simpa [setPend_pend, hne] using h.free j hj
  · intro j
    by_cases hj : j = i
    · simpa [setPend_pend, hj] using hshape
    · simpa [setPend_pend, hj] using h.shape j
  · intro j hmem
    by_cases hj : j = i
    · subst hj
      exact hattach (by simpa [setPend_pend] using hmem)
    · exact h.attach j (by simpa [setPend_pend, hj] using hmem)
  · intro a j hheld hmem
    by_cases hj : j = i
    · subst hj
      have := hclose (by simpa [setPend_pend] using hmem) a
      simp_all
    · exact h.held a j hheld (by simpa [setPend_pend, hj] using hmem)
  · exact h.unique

theorem Sound.setHeld_false (h : Sound v) (a : Nat) (i : Slot) : Sound (v.setHeld a i false) := by
  have hle : ∀ b j, (v.setHeld a i false).held b j = true → v.held b j = true := by
    intro b j hb
    by_cases hc : b = a ∧ j = i
    · simp [setHeld_held, hc] at hb
    · simpa [setHeld_held, hc] using hb
  constructor
  · exact h.nodup
  · intro j hj
    obtain ⟨hpend, hlinked, hheld⟩ := h.free j hj
    refine ⟨hpend, hlinked, ?_⟩
    intro b
    by_contra hb
    have := hle b j (by simpa using hb)
    simp [hheld b] at this
  · exact h.shape
  · exact h.attach
  · intro b j hb
    exact h.held b j (hle b j hb)
  · intro b c j hb hc
    exact h.unique b c j (hle b j hb) (hle c j hc)

theorem Sound.setHeld_true (h : Sound v) (a : Nat) (hfree : i ∉ v.free)
    (hnone : ∀ b, v.held b i = false) (hpend : .close ∉ v.pend i) :
    Sound (v.setHeld a i true) := by
  have hle : ∀ b j, (v.setHeld a i true).held b j = true → b = a ∧ j = i ∨ v.held b j = true := by
    intro b j hb
    by_cases hc : b = a ∧ j = i
    · exact .inl hc
    · exact .inr (by simpa [setHeld_held, hc] using hb)
  constructor
  · exact h.nodup
  · intro j hj
    have hne : j ≠ i := fun he => hfree (he ▸ hj)
    simpa [setHeld_held, hne] using h.free j hj
  · exact h.shape
  · exact h.attach
  · intro b j hb
    rcases hle b j hb with ⟨rfl, rfl⟩ | hb
    · exact hpend
    · exact h.held b j hb
  · intro b c j hb hc
    rcases hle b j hb with ⟨rfl, rfl⟩ | hb
    · rcases hle c j hc with ⟨rfl, _⟩ | hc
      · rfl
      · exact absurd hc (by simp [hnone])
    · rcases hle c j hc with ⟨rfl, rfl⟩ | hc
      · exact absurd ‹v.held b j = true› (by simp [hnone])
      · exact h.unique b c j hb hc

theorem Sound.setLinked (h : Sound v) {b : Bool} (hfree : i ∉ v.free)
    (hattach : .attach ∉ v.pend i) : Sound (v.setLinked i b) := by
  constructor
  · exact h.nodup
  · intro j hj
    have hne : j ≠ i := fun he => hfree (he ▸ hj)
    simpa [setLinked_linked, hne] using h.free j hj
  · exact h.shape
  · intro j hj
    have hne : j ≠ i := fun he => hattach (he ▸ hj)
    simpa [setLinked_linked, hne] using h.attach j hj
  · exact h.held
  · exact h.unique

theorem Sound.tail (h : Sound v) {rest : List Slot} (hfree : v.free = i :: rest) :
    Sound { v with free := rest } := by
  have hsub : rest.Sublist v.free := by
    rw [hfree]
    exact sublist_cons_self i rest
  exact ⟨h.nodup.sublist hsub, fun j hj => h.free j (hsub.subset hj), h.shape, h.attach, h.held,
    h.unique⟩

theorem Sound.not_free (h : Sound v) (hpend : v.pend i ≠ []) : i ∉ v.free :=
  fun hi => hpend (h.free i hi).1

theorem Sound.pend_cons (h : Sound v) {c : SlotCmd} {cs : List SlotCmd}
    (hpend : v.pend i = c :: cs) : cs.Sublist [.close] ∧ (c = .close → cs = []) := by
  -- behind a close nothing is pending, and behind an attach at most a close
  have hshape := h.shape i
  rw [hpend] at hshape
  cases c with
  | attach =>
    rw [cons_sublist_cons] at hshape
    exact ⟨hshape, by simp⟩
  | close =>
    have hlen : cs = [] := by
      cases hshape with
      | cons _ hrest => exact sublist_nil.mp (cons_sublist_cons.mp hrest)
    subst hlen
    exact ⟨nil_sublist _, fun _ => rfl⟩

theorem Sound.pop (h : Sound v) {c : SlotCmd} {cs : List SlotCmd} (hpend : v.pend i = c :: cs) :
    Sound (v.setPend i cs) ∧ .attach ∉ cs ∧ i ∉ v.free := by
  have hnot : i ∉ v.free := h.not_free (by simp [hpend])
  have hsub := (h.pend_cons hpend).1
  have hattach : .attach ∉ cs := fun hmem => by simpa using hsub.subset hmem
  refine ⟨h.setPend cs hnot (hsub.trans (by simp)) (fun hmem => absurd hmem hattach) ?_, hattach,
    hnot⟩
  intro hclose a
  by_contra ha
  exact h.held a i (by simpa using ha) (by simp [hpend, hclose])

theorem Sound.step (h : Sound v) (hstep : Step v w) : Sound w := by
  cases hstep with
  | stay => exact h
  | lose hfree => exact h.tail hfree
  | @acquire i rest a hfree =>
    obtain ⟨hpend, hlinked, hheld⟩ := h.free i (by simp [hfree])
    have hnot : i ∉ rest := by
      have := h.nodup
      rw [hfree] at this
      exact (nodup_cons.mp this).1
    have h1 := (h.tail hfree).setPend (i := i) [SlotCmd.attach] hnot (by simp)
      (fun _ => hlinked) (by simp)
    rw [hpend]
    exact h1.setHeld_true a hnot hheld (by simp [setPend_pend])
  | giveUp _ => exact h.setHeld_false _ _
  | @release a i hheld =>
    have hclose := h.held a i hheld
    have hnot : i ∉ v.free := by
      intro hi
      simp [(h.free i hi).2.2 a] at hheld
    have hattach : (v.pend i).Sublist [.attach] := by
      have hfilter := (h.shape i).filter (· ≠ SlotCmd.close)
      rw [filter_eq_self.mpr (by grind)] at hfilter
      simpa using hfilter
    -- the holder gives the slot up in the same step, so the close has no holder
    have h1 := (h.setHeld_false a i).setPend (i := i) (v.pend i ++ [SlotCmd.close]) hnot
      (hattach.append_right [SlotCmd.close]) (fun hmem => h.attach i (by simpa using hmem)) ?_
    · exact h1
    · intro _ b
      by_cases hb : b = a
      · simp [setHeld_held, hb]
      · simp only [setHeld_held, hb, false_and, if_false]
        by_contra hheld'
        exact hb (h.unique b a i (by simpa using hheld') hheld)
  | refuse hpend => exact (h.pop hpend).1
  | link hpend =>
    obtain ⟨h1, hattach, hnot⟩ := h.pop hpend
    exact h1.setLinked hnot (by simpa [setPend_pend] using hattach)
  | forget hpend hlinked => exact (h.pop hpend).1
  | @unlink i cs free hpend hlinked hfree =>
    obtain ⟨h1, hattach, hnot⟩ := h.pop hpend
    have h2 := h1.setLinked (b := false) hnot (by simpa [setPend_pend] using hattach)
    have hnil : cs = [] := (h.pend_cons hpend).2 rfl
    have hheld : ∀ a, v.held a i = false := by
      intro a
      by_contra ha
      exact h.held a i (by simpa using ha) (by simp [hpend])
    rcases hfree with rfl | rfl
    · refine ⟨?_, ?_, h2.shape, h2.attach, h2.held, h2.unique⟩
      · exact nodup_append.mpr ⟨h.nodup, nodup_singleton i, by grind⟩
      · intro j hj
        rcases mem_append.mp hj with hj | hj
        · exact h2.free j hj
        · obtain rfl : j = i := by simpa using hj
          exact ⟨by simp [setPend_pend, hnil], by simp [setLinked_linked], hheld⟩
    · exact h2

theorem Lost.step (h : Lost v i) (hstep : Step v w) : Lost w i := by
  cases hstep with
  | stay => exact h
  | lose hfree => exact ⟨fun hi => h.free (by simp [hfree, hi]), h.pend, h.held⟩
  | @acquire j rest a hfree =>
    have hne : i ≠ j := fun he => h.free (by simp [hfree, he])
    refine ⟨fun hi => h.free (by simp_all), ?_, ?_⟩
    · simpa [setPend_pend, hne] using h.pend
    · simpa [setHeld_held, hne] using h.held
  | @giveUp a j hheld =>
    refine ⟨h.free, h.pend, ?_⟩
    intro b
    simp [setHeld_held, h.held b]
  | @release a j hheld =>
    have hne : i ≠ j := by
      intro he
      simp [← he, h.held a] at hheld
    refine ⟨h.free, ?_, ?_⟩
    · simpa [setPend_pend, hne] using h.pend
    · simpa [setHeld_held, hne] using h.held
  | @refuse j cs hpend | @link j cs hpend | @forget j cs hpend _ =>
    refine ⟨h.free, ?_, h.held⟩
    have := h.pend
    by_cases he : i = j
    · subst he
      simp_all [setPend_pend]
    · simpa [setPend_pend, he] using this
  | @unlink j cs free hpend hlinked hfree =>
    have hne : i ≠ j := by
      intro he
      exact h.pend (by simp [he, hpend])
    refine ⟨?_, ?_, h.held⟩
    · rcases hfree with rfl | rfl
      · simp [h.free, hne]
      · exact h.free
    · simpa [setPend_pend, hne] using h.pend

end Ownership

def RxItem.carries (so : SocketPtr) : RxItem → Bool
  | .accepted _ so' _ _ => so' = so
  | .data _ => false

def ServiceCmd.carries (so : SocketPtr) : ServiceCmd → Bool
  | .setSocketRing _ _ so' _ => so' = so
  | .decline so' => so' = so
  | _ => false

def SlotRings.waiting (r : SlotRings) (so : SocketPtr) : Nat :=
  r.rxRing.items.countP (RxItem.carries so)

def CommandChannel.waiting (chan : CommandChannel) (so : SocketPtr) : Nat :=
  chan.ring.items.countP fun c => c.2.carries so

namespace CommandChannel

variable {chan chan' : CommandChannel} {b : Nat} {cmd : ServiceCmd}

def pend (chan : CommandChannel) (i : Slot) : List SlotCmd :=
  chan.ring.items.filterMap fun c => c.2.onSlot i

theorem pend_of_ring (h : chan'.ring = chan.ring) : chan'.pend = chan.pend := by
  funext i
  simp [pend, h]

theorem waiting_of_ring (h : chan'.ring = chan.ring) : chan'.waiting = chan.waiting := by
  funext so
  simp [waiting, h]

theorem enqueueCommandBuf_pend (h : chan.enqueueCommandBuf b cmd = some chan') (i : Slot) :
    chan'.pend i = chan.pend i ++ (cmd.onSlot i).toList := by
  rw [pend, (enqueueCommandBuf_eq_some h).2.2, filterMap_append, ← pend]
  cases hc : cmd.onSlot i <;> simp [hc]

theorem enqueueCommandBuf_waiting (h : chan.enqueueCommandBuf b cmd = some chan')
    (so : SocketPtr) :
    chan'.waiting so = chan.waiting so + if cmd.carries so then 1 else 0 := by
  simp [waiting, (enqueueCommandBuf_eq_some h).2.2, countP_append, countP_cons]

theorem dequeueCommandBuf_pend (h : chan.dequeueCommandBuf = some (b, cmd, chan')) (i : Slot) :
    chan.pend i = (cmd.onSlot i).toList ++ chan'.pend i := by
  rw [pend, (dequeueCommandBuf_eq_some h).1, pend]
  cases hc : cmd.onSlot i <;> simp [hc]

theorem dequeueCommandBuf_waiting (h : chan.dequeueCommandBuf = some (b, cmd, chan'))
    (so : SocketPtr) :
    chan.waiting so = chan'.waiting so + if cmd.carries so then 1 else 0 := by
  simp [waiting, (dequeueCommandBuf_eq_some h).1, countP_cons]

theorem send_pend (h : chan.getFreeCommandBuf = some (b, chan'))
    (hcmd : ∀ i, cmd.onSlot i = none) (full : CommandChannel) (hfull : full.ring = chan'.ring) :
    ((chan'.enqueueCommandBuf b cmd).getD full).pend = chan.pend := by
  have hring := (getFreeCommandBuf_eq_some h).2
  cases he : chan'.enqueueCommandBuf b cmd with
  | none => exact pend_of_ring (hfull.trans hring)
  | some chan'' =>
    funext i
    simp [enqueueCommandBuf_pend he i, hcmd i, pend_of_ring hring]

theorem send_waiting (h : chan.getFreeCommandBuf = some (b, chan'))
    (hcmd : ∀ so, cmd.carries so = false) (full : CommandChannel) (hfull : full.ring = chan'.ring)
    (so : SocketPtr) :
    ((chan'.enqueueCommandBuf b cmd).getD full).waiting so = chan.waiting so := by
  have hring := (getFreeCommandBuf_eq_some h).2
  cases he : chan'.enqueueCommandBuf b cmd with
  | none => exact congrFun (waiting_of_ring (hfull.trans hring)) so
  | some chan'' =>
    simp [enqueueCommandBuf_waiting he so, hcmd so, waiting_of_ring hring]

end CommandChannel

namespace ServiceState

def waiting (s : ServiceState) (so : SocketPtr) : Nat :=
  ∑ l, (s.rings l).waiting so + s.chan.waiting so

/-- For every chain that was passed on, its connection and the one it was passed on for. -/
def past (s : ServiceState) : List (Nat × Nat) := s.sent ++ s.returned ++ s.flushed

variable (s : ServiceState)

def ownership : Ownership where
  free := s.freeConnections.items
  pend := s.chan.pend
  linked i := (s.sat i).socket.isSome
  held a i := (s.app a i).held.isSome

theorem setDesc_app (a : Nat) (i : Slot) (d : LocalDesc) (b : Nat) (j : Slot) :
    (s.setDesc a i d).app b j = if b = a ∧ j = i then d else s.app b j := by
  by_cases hb : b = a
  · subst hb
    simp [setDesc, update_apply]
  · simp [setDesc, hb]

theorem setDesc_ownership (a : Nat) (i : Slot) (d : LocalDesc) :
    (s.setDesc a i d).ownership = s.ownership.setHeld a i d.held.isSome := by
  ext1
  · rfl
  · rfl
  · rfl
  · funext b j
    rw [Ownership.setHeld_held]
    simp only [ownership, setDesc_app]
    split <;> rfl

theorem setSat_ownership (i : Slot) (t : Satellite) :
    (s.setSat i t).ownership = s.ownership.setLinked i t.socket.isSome := by
  ext1
  · rfl
  · rfl
  · funext j
    rw [Ownership.setLinked_linked]
    simp only [ownership, setSat, update_apply]
    split <;> rfl
  · rfl

theorem setRings_waiting (l : Slot) (r : SlotRings) (so : SocketPtr) :
    (s.setRings l r).waiting so + (s.rings l).waiting so = s.waiting so + r.waiting so := by
  have hsum : ∑ j, ((s.setRings l r).rings j).waiting so + (s.rings l).waiting so =
      ∑ j, (s.rings j).waiting so + r.waiting so := by
    rw [← Finset.add_sum_erase Finset.univ (fun j => ((s.setRings l r).rings j).waiting so)
      (Finset.mem_univ l), ← Finset.add_sum_erase Finset.univ (fun j => (s.rings j).waiting so)
      (Finset.mem_univ l)]
    have hrest : ∑ j ∈ Finset.univ.erase l, ((s.setRings l r).rings j).waiting so =
        ∑ j ∈ Finset.univ.erase l, (s.rings j).waiting so := by
      apply Finset.sum_congr rfl
      intro j hj
      simp [setRings, Finset.ne_of_mem_erase hj]
    rw [hrest]
    simp only [setRings, update_self]
    omega
  have hchan : (s.setRings l r).chan = s.chan := rfl
  simp only [waiting, hchan]
  omega

variable {s} {t u : ServiceState}

theorem takeSlot_eq_some {i : Slot} (h : s.takeSlot = some (i, t)) :
    ∃ free : Fifo (connectionPoolSize - 1) Slot, s.freeConnections.items = i :: free.items ∧
      t = { s with freeConnections := free, gen := update s.gen i (s.gen i + 1) } := by
  obtain ⟨⟨j, free⟩, hdeq, heq⟩ := map_eq_some_iff.mp h
  obtain ⟨rfl, rfl⟩ : j = i ∧ _ = t := by simpa using heq
  exact ⟨free, dequeue_eq_some_iff.mp hdeq, rfl⟩

theorem takeSlot_eq_none : s.takeSlot = none ↔ s.freeConnections.items = [] := by
  simp [takeSlot, dequeue_eq_none_iff]

theorem enqueueCommandBuf_ownership {chan chan' : CommandChannel} {b : Nat} {cmd : ServiceCmd}
    {i : Slot} {c : SlotCmd} (hcmd : ∀ j, cmd.onSlot j = if i = j then some c else none)
    (hring : chan.ring = s.chan.ring) (henq : chan.enqueueCommandBuf b cmd = some chan') :
    { s with chan := chan' }.ownership = s.ownership.setPend i (s.ownership.pend i ++ [c]) := by
  ext1
  · rfl
  · funext j
    rw [Ownership.setPend_pend]
    have hj := enqueueCommandBuf_pend henq j
    rw [pend_of_ring hring, hcmd j] at hj
    by_cases he : j = i
    · subst he
      simpa [ownership] using hj
    · simpa [ownership, he, Ne.symm he] using hj
  · rfl
  · rfl

structure Quiet (s t : ServiceState) : Prop where
  free : t.freeConnections = s.freeConnections
  pend : t.chan.pend = s.chan.pend
  sat : ∀ i, (t.sat i).socket = (s.sat i).socket
  held : ∀ a i, (t.app a i).held = (s.app a i).held
  sock : t.sock = s.sock
  gen : t.gen = s.gen
  waiting : ∀ so, t.waiting so ≤ s.waiting so

namespace Quiet

theorem refl (s : ServiceState) : Quiet s s :=
  ⟨rfl, rfl, fun _ => rfl, fun _ _ => rfl, rfl, rfl, fun _ => le_rfl⟩

theorem trans (h : Quiet s t) (h' : Quiet t u) : Quiet s u where
  free := h'.free.trans h.free
  pend := h'.pend.trans h.pend
  sat i := (h'.sat i).trans (h.sat i)
  held a i := (h'.held a i).trans (h.held a i)
  sock := h'.sock.trans h.sock
  gen := h'.gen.trans h.gen
  waiting so := (h'.waiting so).trans (h.waiting so)

theorem chan {chan : CommandChannel} (hpend : chan.pend = s.chan.pend)
    (hwait : ∀ so, chan.waiting so ≤ s.chan.waiting so) : Quiet s { s with chan } :=
  ⟨rfl, hpend, fun _ => rfl, fun _ _ => rfl, rfl, rfl, fun so => Nat.add_le_add_left (hwait so) _⟩

theorem setRings (i : Slot) (r : SlotRings) (h : ∀ so, r.waiting so ≤ (s.rings i).waiting so) :
    Quiet s (s.setRings i r) := by
  refine ⟨rfl, rfl, fun _ => rfl, fun _ _ => rfl, rfl, rfl, fun so => ?_⟩
  have := setRings_waiting s i r so
  have := h so
  omega

theorem setDesc (a : Nat) (i : Slot) (d : LocalDesc) (h : d.held = (s.app a i).held) :
    Quiet s (s.setDesc a i d) := by
  refine ⟨rfl, rfl, fun _ => rfl, fun b j => ?_, rfl, rfl, fun _ => le_rfl⟩
  rw [setDesc_app]
  split
  · next hbj => rw [h, hbj.1, hbj.2]
  · rfl

theorem setSat (i : Slot) (st : Satellite) (h : st.socket = (s.sat i).socket) :
    Quiet s (s.setSat i st) := by
  refine ⟨rfl, rfl, fun j => ?_, fun _ _ => rfl, rfl, rfl, fun _ => le_rfl⟩
  by_cases hj : j = i
  · simp [ServiceState.setSat, hj, h]
  · simp [ServiceState.setSat, hj]

theorem histories (s : ServiceState) (sent returned flushed : List (Nat × Nat)) :
    Quiet s { s with sent, returned, flushed } :=
  ⟨rfl, rfl, fun _ => rfl, fun _ _ => rfl, rfl, rfl, fun _ => le_rfl⟩

theorem ownership (h : Quiet s t) : t.ownership = s.ownership := by
  simp only [ServiceState.ownership, h.free, h.pend, h.sat, h.held]

theorem stay (h : Quiet s t) : s.ownership.Step t.ownership := h.ownership ▸ .stay

end Quiet

theorem resetLocalDescriptor_ownership (a : Nat) (i : Slot) :
    (s.resetLocalDescriptor a i).ownership = s.ownership :=
  (Quiet.setDesc a i { s.app a i with shadow := none } rfl).ownership

theorem hold_ownership (a : Nat) (i : Slot) (parent : Option Selector) :
    (s.hold a i parent).ownership = s.ownership.setHeld a i true :=
  setDesc_ownership s a i _

def CanSend (s : ServiceState) : Prop :=
  s.chan.pool ≠ [] ∧ s.chan.ring.items.length < commandPoolSize - 1

section CanSend

variable {chan chan' : CommandChannel} {b : Nat} {cmd : ServiceCmd}

theorem not_canSend_of_empty (h : s.chan.getFreeCommandBuf = none) : ¬ s.CanSend :=
  fun hcan => hcan.1 (getFreeCommandBuf_eq_none.mp h)

theorem not_canSend_of_full (h : s.chan.getFreeCommandBuf = some (b, chan))
    (henq : chan.enqueueCommandBuf b cmd = none) : ¬ s.CanSend := by
  rw [enqueueCommandBuf_eq_none, (getFreeCommandBuf_eq_some h).2] at henq
  intro hcan
  have := hcan.2
  omega

theorem canSend_of_sent (h : s.chan.getFreeCommandBuf = some (b, chan))
    (henq : chan.enqueueCommandBuf b cmd = some chan') : s.CanSend := by
  obtain ⟨hpool, hring⟩ := getFreeCommandBuf_eq_some h
  have hroom := (enqueueCommandBuf_eq_some henq).1
  rw [hring] at hroom
  exact ⟨by simp [hpool], hroom⟩

end CanSend

def acquired (s : ServiceState) (a : Nat) (i : Slot) (rest : List Slot) : Ownership :=
  ({ s.ownership with free := rest }.setPend i (s.ownership.pend i ++ [SlotCmd.attach])).setHeld
    a i true

def TakeOutcome (s : ServiceState) (a : Nat) (sends : Prop) (r : Taken) : Prop :=
  r.slot = none ∧ r.rc < 0 ∧ r.state.ownership = s.ownership ∨
  ∃ i rest, s.freeConnections.items = i :: rest ∧ r.slot = some i ∧
    (¬ sends ∧ r.rc < 0 ∧ r.state.ownership = { s.ownership with free := rest } ∨
      sends ∧ 0 ≤ r.rc ∧ r.state.ownership = s.acquired a i rest)

theorem TakeOutcome.step {a : Nat} {sends : Prop} {r : Taken} (h : TakeOutcome s a sends r) :
    s.ownership.Step r.state.ownership := by
  rcases h with ⟨-, -, heq⟩ | ⟨i, rest, hfree, -, ⟨-, -, heq⟩ | ⟨-, -, heq⟩⟩
  · exact heq ▸ .stay
  · exact heq ▸ .lose hfree
  · exact heq ▸ .acquire a hfree

def Opens (s t : ServiceState) (a : Nat) (i : Slot) : Prop :=
  ∀ b j, t.app b j = s.app b j ∨ b = a ∧ j = i ∧
    (t.app b j).localCache = (s.app b j).localCache ∧ (t.app b j).shadow = none ∧
    (t.app b j).closing = (s.app b j).closing ∧
    ((t.app b j).held = (s.app b j).held ∨ (t.app b j).held = some (t.gen j))

theorem opens_resetLocalDescriptor (s : ServiceState) (a : Nat) (i : Slot) :
    Opens s (s.resetLocalDescriptor a i) a i := by
  intro b j
  rw [resetLocalDescriptor, setDesc_app]
  by_cases h : b = a ∧ j = i
  · obtain ⟨rfl, rfl⟩ := h
    simp
  · simp [h]

theorem opens_hold (s : ServiceState) (a : Nat) (i : Slot) (parent : Option Selector) :
    Opens s ((s.resetLocalDescriptor a i).hold a i parent) a i := by
  intro b j
  rw [hold, setDesc_app, resetLocalDescriptor, setDesc_app, setDesc_app]
  by_cases h : b = a ∧ j = i
  · obtain ⟨rfl, rfl⟩ := h
    right
    simp [setDesc]
  · simp [h]

structure TookSlot (s : ServiceState) (a : Nat) (i : Slot) (t : ServiceState) : Prop where
  sat : t.sat = s.sat
  sock : t.sock = s.sock
  gen : t.gen = Function.update s.gen i (s.gen i + 1)
  past : t.past = s.past
  tx : ∀ j, (t.rings j).txRing = (s.rings j).txRing
  rx : ∀ j, (t.rings j).rxRing.items ⊆ (s.rings j).rxRing.items
  opens : Opens s t a i
  waiting : ∀ so, t.waiting so ≤ s.waiting so

structure Popped (s t : ServiceState) : Prop extends Quiet s t where
  app : t.app = s.app
  past : t.past = s.past
  tx : ∀ j, (t.rings j).txRing = (s.rings j).txRing
  rx : ∀ j, (t.rings j).rxRing.items ⊆ (s.rings j).rxRing.items

theorem Popped.refl (s : ServiceState) : Popped s s :=
  ⟨.refl s, rfl, rfl, fun _ => rfl, fun _ => List.Subset.refl _⟩

def Leaves (s : ServiceState) (a : Nat) (t : ServiceState) : Option Slot → Prop
  | none => Popped s t
  | some i => TookSlot s a i t

theorem openSocket_outcome (a : Nat) (type : SoType) (parent : Option Selector) :
    TakeOutcome s a s.CanSend (s.openSocket a type parent) ∧
      ((s.openSocket a type parent).slot = none ↔ s.freeConnections.items = []) ∧
      s.Leaves a (s.openSocket a type parent).state (s.openSocket a type parent).slot := by
  cases htake : s.takeSlot with
  | none =>
    simp only [openSocket, htake]
    exact ⟨.inl ⟨rfl, by simp, rfl⟩, by simpa using takeSlot_eq_none.mp htake, .refl s⟩
  | some it =>
    obtain ⟨i, t⟩ := it
    obtain ⟨free, hfree, rfl⟩ := takeSlot_eq_some htake
    cases hget : s.chan.getFreeCommandBuf with
    | none =>
      simp only [openSocket, htake, hget]
      exact ⟨.inr ⟨i, free.items, hfree, rfl, .inl ⟨not_canSend_of_empty hget, by simp, rfl⟩⟩,
        by simp [hfree], rfl, rfl, rfl, rfl, fun _ => rfl, fun _ => List.Subset.refl _,
        fun _ _ => .inl rfl, fun _ => le_rfl⟩
    | some bc =>
      obtain ⟨b, chan⟩ := bc
      have hring := (getFreeCommandBuf_eq_some hget).2
      cases henq : chan.enqueueCommandBuf b (.openSocket i parent type a) with
      | none =>
        simp only [openSocket, htake, hget, henq]
        have hpend : (chan.freeCommandBuf b).pend = s.chan.pend := pend_of_ring hring
        have hwait : (chan.freeCommandBuf b).waiting = s.chan.waiting := waiting_of_ring hring
        refine ⟨.inr ⟨i, free.items, hfree, rfl, .inl ⟨not_canSend_of_full hget henq, by simp, ?_⟩⟩,
          by simp [hfree], rfl, rfl, rfl, rfl, fun _ => rfl, fun _ => List.Subset.refl _,
          fun _ _ => .inl rfl, fun so => ?_⟩
        · simp [ownership, hpend]
        · simp [waiting, hwait]
      | some chan' =>
        simp only [openSocket, htake, hget, henq]
        refine ⟨.inr ⟨i, free.items, hfree, rfl, .inr ⟨canSend_of_sent hget henq, by simp, ?_⟩⟩,
          by simp [hfree], rfl, rfl, rfl, rfl, fun _ => rfl, fun _ => List.Subset.refl _,
          opens_hold _ a i parent, fun so => ?_⟩
        · rw [hold_ownership, resetLocalDescriptor_ownership,
            enqueueCommandBuf_ownership (s := { s with freeConnections := free, gen := _ })
              (c := .attach) (fun j => rfl) hring henq]
          rfl
        · have hwait := enqueueCommandBuf_waiting henq so
          rw [waiting_of_ring hring] at hwait
          exact Nat.add_le_add_left hwait.le _

theorem accepted_waiting_le {l : Slot} {b : Nat} {so : SocketPtr} {ipaddr port : Nat}
    {rxRing : Fifo (dataRingsSize - 1) RxItem} {chan : CommandChannel}
    (hdeq : (s.rings l).rxRing.dequeue = some (.accepted b so ipaddr port, rxRing))
    (hchan : ∀ so', chan.waiting so' ≤ s.chan.waiting so' + if so = so' then 1 else 0)
    (so' : SocketPtr) :
    { s.setRings l { s.rings l with rxRing } with chan }.waiting so' ≤ s.waiting so' := by
  have hold : (s.rings l).waiting so' =
      SlotRings.waiting { s.rings l with rxRing } so' + if so = so' then 1 else 0 := by
    simp [SlotRings.waiting, dequeue_eq_some_iff.mp hdeq, countP_cons, RxItem.carries]
  have hsum := setRings_waiting s l { s.rings l with rxRing } so'
  have hsum' : (s.setRings l { s.rings l with rxRing }).waiting so' + (if so = so' then 1 else 0) =
      s.waiting so' := by omega
  have hle := hchan so'
  have hsame : (s.setRings l { s.rings l with rxRing }).chan = s.chan := rfl
  simp only [waiting, hsame] at hsum' ⊢
  omega

theorem accept_outcome {a : Nat} {l : Slot} {r : Taken} (h : s.accept a l = some r) :
    TakeOutcome s a (s.chan.ring.items.length < commandPoolSize - 1) r ∧
      (r.slot = none ↔ (s.rings l).rxRing.items = [] ∨ s.freeConnections.items = []) ∧
      s.Leaves a r.state r.slot := by
  cases hdeq : (s.rings l).rxRing.dequeue with
  | none =>
    obtain rfl : _ = r := by simpa [accept, hdeq] using h
    exact ⟨.inl ⟨rfl, by simp, rfl⟩, by simp [dequeue_eq_none_iff.mp hdeq], .refl s⟩
  | some xr =>
    obtain ⟨x, rxRing⟩ := xr
    have hitems := dequeue_eq_some_iff.mp hdeq
    cases x with
    | data buf => simp [accept, hdeq] at h
    | accepted b so ipaddr port =>
      obtain ⟨u, hu⟩ : ∃ u, s.setRings l { s.rings l with rxRing } = u := ⟨_, rfl⟩
      have htx (j : Slot) : (u.rings j).txRing = (s.rings j).txRing := by
        rw [← hu]
        by_cases hj : j = l <;> simp [setRings, hj]
      have hrx (j : Slot) : (u.rings j).rxRing.items ⊆ (s.rings j).rxRing.items := by
        rw [← hu]
        by_cases hj : j = l
        · simp [setRings, hj, hitems]
        · simp [setRings, hj]
      have hfreed (so' : SocketPtr) : (s.chan.freeCommandBuf b).waiting so' ≤
          s.chan.waiting so' + if so = so' then 1 else 0 := Nat.le_add_right _ _
      have hsent {cmd : ServiceCmd} {chan' : CommandChannel}
          (henq : s.chan.enqueueCommandBuf b cmd = some chan')
          (hcmd : ∀ so', cmd.carries so' = decide (so = so')) (so' : SocketPtr) :
          chan'.waiting so' ≤ s.chan.waiting so' + if so = so' then 1 else 0 := by
        have hwait := enqueueCommandBuf_waiting henq so'
        simp only [hcmd, decide_eq_true_eq] at hwait
        exact hwait.le
      cases htake : u.takeSlot with
      | none =>
        have hnil : s.freeConnections.items = [] := by
          have := takeSlot_eq_none.mp htake
          rwa [← hu] at this
        cases henq : s.chan.enqueueCommandBuf b (.decline so) with
        | none =>
          obtain rfl : _ = r := by
            simpa [accept, hdeq, hu, htake, show u.chan = s.chan by rw [← hu]; rfl, henq] using h
          subst hu
          exact ⟨.inl ⟨rfl, by simp, rfl⟩, by simp [hnil],
            ⟨rfl, rfl, fun _ => rfl, fun _ _ => rfl, rfl, rfl, accepted_waiting_le hdeq hfreed⟩,
            rfl, rfl, htx, hrx⟩
        | some chan' =>
          obtain rfl : _ = r := by
            simpa [accept, hdeq, hu, htake, show u.chan = s.chan by rw [← hu]; rfl, henq] using h
          subst hu
          have hpend : chan'.pend = s.chan.pend := by
            funext j
            simp [enqueueCommandBuf_pend henq j, ServiceCmd.onSlot]
          have hquiet : Quiet s { s.setRings l { s.rings l with rxRing } with chan := chan' } :=
            ⟨rfl, hpend, fun _ => rfl, fun _ _ => rfl, rfl, rfl,
              accepted_waiting_le hdeq (hsent henq fun _ => rfl)⟩
          exact ⟨.inl ⟨rfl, by simp, hquiet.ownership⟩, by simp [hnil], hquiet, rfl, rfl, htx, hrx⟩
      | some it =>
        obtain ⟨i, t⟩ := it
        obtain ⟨free, hfree, ht⟩ := takeSlot_eq_some htake
        obtain ⟨w, hw⟩ : ∃ w, t.resetLocalDescriptor a i = w := ⟨_, rfl⟩
        have hown : w.ownership = { s.ownership with free := free.items } := by
          rw [← hw, resetLocalDescriptor_ownership, ht, ← hu]
          rfl
        have hchan : w.chan = s.chan := by rw [← hw, ht, ← hu]; rfl
        have hfree' : s.freeConnections.items = i :: free.items := by rw [← hfree, ← hu]; rfl
        cases henq : w.chan.enqueueCommandBuf b (.setSocketRing i none so a) with
        | none =>
          obtain rfl : _ = r := by simpa [accept, hdeq, hu, htake, hw, henq] using h
          rw [enqueueCommandBuf_eq_none, hchan] at henq
          refine ⟨.inr ⟨i, free.items, hfree', rfl, .inl ⟨by omega, by simp, hown⟩⟩,
            by simp [hitems, hfree'], ?_⟩
          subst hw ht hu
          exact ⟨rfl, rfl, rfl, rfl, htx, hrx, opens_resetLocalDescriptor _ a i,
            accepted_waiting_le hdeq hfreed⟩
        | some chan' =>
          obtain rfl : _ = r := by simpa [accept, hdeq, hu, htake, hw, henq] using h
          have hroom := (enqueueCommandBuf_eq_some henq).1
          rw [hchan] at hroom
          refine ⟨.inr ⟨i, free.items, hfree', rfl, .inr ⟨hroom, by simp, ?_⟩⟩,
            by simp [hitems, hfree'], ?_⟩
          · rw [hold_ownership,
              enqueueCommandBuf_ownership (s := w) (c := .attach) (fun j => rfl) rfl henq, hown]
            rfl
          · rw [hchan] at henq
            subst hw ht hu
            exact ⟨rfl, rfl, rfl, rfl, htx, hrx, opens_hold _ a i none,
              accepted_waiting_le hdeq (hsent henq fun _ => rfl)⟩

theorem closeCommand_outcome (a : Nat) (i : Slot) :
    ¬ s.CanSend ∧ (s.closeCommand a i).ownership = s.ownership.setHeld a i false ∨
      s.CanSend ∧ (s.closeCommand a i).ownership =
        (s.ownership.setPend i (s.ownership.pend i ++ [.close])).setHeld a i false := by
  cases hget : s.chan.getFreeCommandBuf with
  | none =>
    simp only [closeCommand, hget]
    exact .inl ⟨not_canSend_of_empty hget, setDesc_ownership _ _ _ _⟩
  | some bc =>
    obtain ⟨b, chan⟩ := bc
    have hring := (getFreeCommandBuf_eq_some hget).2
    simp only [closeCommand, hget]
    rw [setDesc_ownership]
    cases henq : chan.enqueueCommandBuf b (.close i) with
    | none =>
      have hfreed : (chan.freeCommandBuf b).pend = s.chan.pend := pend_of_ring hring
      refine .inl ⟨not_canSend_of_full hget henq, ?_⟩
      simp [ownership, hfreed]
    | some chan' =>
      right
      rw [getD_some, enqueueCommandBuf_ownership (c := .close) (fun j => rfl) hring henq]
      exact ⟨canSend_of_sent hget henq, rfl⟩

theorem closeCommand_ownership {a : Nat} {i : Slot} (hheld : (s.app a i).held ≠ none) :
    s.ownership.Step (s.closeCommand a i).ownership := by
  have hheld' : s.ownership.held a i = true := isSome_iff_ne_none.mpr hheld
  rcases closeCommand_outcome (s := s) a i with ⟨-, heq⟩ | ⟨-, heq⟩
  · exact heq ▸ .giveUp hheld'
  · exact heq ▸ .release hheld'

theorem command_quiet {cmd : ServiceCmd} (hcmd : cmd.isPlain = true) : Quiet s (s.command cmd) := by
  cases hget : s.chan.getFreeCommandBuf with
  | none => simpa only [command, hget] using .refl s
  | some bc =>
    obtain ⟨b, chan⟩ := bc
    simp only [command, hget]
    refine .chan (send_pend hget ?_ _ rfl) fun so =>
      le_of_eq (send_waiting hget ?_ (chan.freeCommandBuf b) rfl so) <;>
    · intro _
      cases cmd <;> simp_all [ServiceCmd.isPlain, ServiceCmd.onSlot, ServiceCmd.carries]

theorem sendRxKick_quiet (i : Slot) : Quiet s { s with chan := s.chan.sendRxKick i } := by
  unfold sendRxKick
  cases hget : s.chan.getFreeCommandBuf with
  | none => exact .refl s
  | some bc =>
    exact .chan (send_pend hget (fun _ => rfl) _ rfl) fun so =>
      le_of_eq (send_waiting hget (fun _ => rfl) _ rfl so)

theorem refillRings_spec {cache cache' : Fifo 63 RxItem} {rx rx' : Fifo (dataRingsSize - 1) RxItem}
    (h : refillRings cache rx = (cache', rx')) :
    cache'.items ++ rx'.items = cache.items ++ rx.items ∧ ∃ k, rx'.items = rx.items.drop k := by
  obtain ⟨room, hroom⟩ : ∃ room, room =
    if cache.freeCount > maxPktBurst then maxPktBurst else cache.freeCount := ⟨_, rfl⟩
  have hle : room ≤ cache.freeCount := by
    rw [hroom]
    split <;> omega
  have hburst : (cache.enqueueBurst (rx.items.take room)).items =
      cache.items ++ rx.items.take room :=
    enqueueBurst_items_of_le ((length_take_le _ _).trans hle)
  simp only [refillRings, ← hroom, Prod.mk.injEq] at h
  obtain ⟨rfl, rfl⟩ := h
  refine ⟨?_, room, rfl⟩
  rw [dequeueBurst_fst, hburst, dequeueBurst_snd_items, append_assoc,
    take_append_drop]

theorem dequeueRings_spec {cache cache' : Fifo 63 RxItem}
    {rx rx' : Fifo (dataRingsSize - 1) RxItem} {x : Option RxItem}
    (h : dequeueRings cache rx = (x, cache', rx')) :
    x.toList ++ cache'.items ++ rx'.items = cache.items ++ rx.items ∧
      ∃ k, rx'.items = rx.items.drop k := by
  unfold dequeueRings at h
  split at h
  · next y c hcache =>
    obtain ⟨rfl, hrefill⟩ : some y = x ∧ refillRings c rx = (cache', rx') := by simpa using h
    obtain ⟨heq, hdrop⟩ := refillRings_spec hrefill
    refine ⟨?_, hdrop⟩
    simp [dequeue_eq_some_iff.mp hcache, heq]
  · next hcache =>
    obtain ⟨c, rx₁, hrefill⟩ : ∃ c rx₁, refillRings cache rx = (c, rx₁) := ⟨_, _, rfl⟩
    obtain ⟨heq, hdrop⟩ := refillRings_spec hrefill
    simp only [hrefill] at h
    split at h
    · next y c' hc =>
      obtain ⟨rfl, rfl, rfl⟩ : some y = x ∧ c' = cache' ∧ rx₁ = rx' := by simpa using h
      refine ⟨?_, hdrop⟩
      rw [← heq, dequeue_eq_some_iff.mp hc]
      rfl
    · obtain ⟨rfl, rfl, rfl⟩ : none = x ∧ c = cache' ∧ rx₁ = rx' := by simpa using h
      exact ⟨by simpa using heq, hdrop⟩

theorem receiveRings_quiet (a : Nat) (i : Slot) (g : Nat) (keep : Bool) :
    Quiet s (s.receiveRings a i g keep) := by
  obtain ⟨x, localCache, rxRing, hdeq⟩ : ∃ x localCache rxRing,
      dequeueRings (s.app a i).localCache (s.rings i).rxRing = (x, localCache, rxRing) :=
    ⟨_, _, _, rfl⟩
  obtain ⟨k, hdrop⟩ := (dequeueRings_spec hdeq).2
  have hle (so : SocketPtr) :
      SlotRings.waiting { s.rings i with rxRing } so ≤ (s.rings i).waiting so := by
    simp only [SlotRings.waiting, hdrop]
    exact (drop_sublist k _).countP_le
  simp only [receiveRings, hdeq]
  have hdesc := (Quiet.setRings i _ hle).trans (.setDesc a i { s.app a i with
    localCache, shadow := if keep then x else (s.app a i).shadow } rfl)
  exact (hdesc.trans (sendRxKick_quiet i)).trans (.histories _ _ _ _)

theorem receiveShadow_quiet (a : Nat) (i : Slot) (g : Nat) (keep : Bool) :
    Quiet s (s.receiveShadow a i g keep) := by
  cases keep with
  | true => exact .histories s _ _ _
  | false => exact (Quiet.histories s _ _ _).trans (.setDesc a i _ rfl)

theorem receive_quiet (a : Nat) (i : Slot) (g : Nat) (more keep : Bool) :
    Quiet s (s.receive a i g more keep) := by
  unfold receive
  split
  · exact receiveRings_quiet a i g keep
  · exact receiveShadow_quiet a i g keep
  · exact (receiveShadow_quiet a i g false).trans (receiveRings_quiet a i g keep)

theorem flushRx_quiet (a : Nat) (i : Slot) (g : Nat) : Quiet s (s.flushRx a i g) :=
  ((Quiet.setRings i { s.rings i with rxRing := empty } (by simp [SlotRings.waiting])).trans
    (.setDesc a i { s.app a i with closing := none, localCache := empty, shadow := none }
      rfl)).trans (.histories _ _ _ _)

theorem enqueueTxBuf_quiet (i : Slot) (id : Nat) : Quiet s (s.enqueueTxBuf i id) := by
  unfold enqueueTxBuf
  split
  · exact .refl s
  · exact .setRings i _ fun _ => le_rfl

theorem onTransmissionOpportunity_quiet (so : SocketPtr) (refused : Option Nat) :
    Quiet s (s.onTransmissionOpportunity so refused) := by
  unfold onTransmissionOpportunity
  split
  · exact .refl s
  · split
    · next i _ _ _ _ =>
      exact (Quiet.setRings i { s.rings i with txRing := empty } fun _ => le_rfl).trans
        (.histories _ _ _ _)
    · exact .refl s

theorem submitRxBuf_eq_some {i : Slot} {so : SocketPtr} {id : Nat}
    (h : s.submitRxBuf i so id = some t) :
    ∃ st j g, s.sock so = some st ∧ st.closed = false ∧ st.conn = some (j, g) ∧
      ∃ rxRing, (s.rings i).rxRing.enqueue (.data ⟨id, g⟩) = some rxRing ∧
        t = s.setRings i { s.rings i with rxRing } := by
  simp only [submitRxBuf, bind_eq_bind, bind_eq_some_iff] at h
  obtain ⟨st, hst, h⟩ := h
  by_cases hclosed : st.closed = true
  · simp [hclosed] at h
  · simp only [hclosed, Bool.false_eq_true, if_false, bind_eq_some_iff] at h
    obtain ⟨⟨j, g⟩, hconn, rxRing, hring, ht⟩ := h
    exact ⟨st, j, g, hst, by simpa using hclosed, hconn, rxRing, hring, by simpa using ht.symm⟩

theorem submitRxBuf_quiet {i : Slot} {so : SocketPtr} {id : Nat}
    (h : s.submitRxBuf i so id = some t) : Quiet s t := by
  obtain ⟨st, j, g, -, -, -, rxRing, henq, rfl⟩ := submitRxBuf_eq_some h
  exact .setRings i _ fun so' => by
    simp [SlotRings.waiting, (enqueue_eq_some_iff.mp henq).2, RxItem.carries]

structure Served (s : ServiceState) (cmd : ServiceCmd) (t : ServiceState) : Prop where
  chan : t.chan = s.chan
  app : t.app = s.app
  gen : t.gen = s.gen
  rings : (∃ i, cmd = .txKick i) ∨ t.rings = s.rings ∧ t.past = s.past
  free : (∃ i, cmd = .close i) ∨ t.freeConnections = s.freeConnections

theorem processCommand_served (s : ServiceState) (created : Option SocketPtr)
    (refused : Option Nat) (cmd : ServiceCmd) :
    Served s cmd (s.processCommand created refused cmd) := by
  cases cmd with
  | openSocket i parent type pid =>
    cases created <;> exact ⟨rfl, rfl, rfl, .inr ⟨rfl, rfl⟩, .inr rfl⟩
  | setSocketRing i parent so pid =>
    simp only [processCommand]
    split <;> exact ⟨rfl, rfl, rfl, .inr ⟨rfl, rfl⟩, .inr rfl⟩
  | close i =>
    simp only [processCommand]
    split <;> exact ⟨rfl, rfl, rfl, .inr ⟨rfl, rfl⟩, .inl ⟨i, rfl⟩⟩
  | txKick i =>
    simp only [processCommand, onTransmissionOpportunity]
    split
    · split
      · exact ⟨rfl, rfl, rfl, .inl ⟨i, rfl⟩, .inr rfl⟩
      · split <;> exact ⟨rfl, rfl, rfl, .inl ⟨i, rfl⟩, .inr rfl⟩
    · exact ⟨rfl, rfl, rfl, .inl ⟨i, rfl⟩, .inr rfl⟩
  | _ => exact ⟨rfl, rfl, rfl, .inr ⟨rfl, rfl⟩, .inr rfl⟩

section Process

variable {chan : CommandChannel} {b : Nat} {cmd : ServiceCmd}

theorem dequeueCommandBuf_ownership (hdeq : s.chan.dequeueCommandBuf = some (b, cmd, chan))
    {i : Slot} {c : SlotCmd} (hcmd : ∀ j, cmd.onSlot j = if i = j then some c else none) :
    s.ownership.pend i = c :: chan.pend i ∧
      { s with chan }.ownership = s.ownership.setPend i (chan.pend i) := by
  have hpend := dequeueCommandBuf_pend hdeq
  constructor
  · simpa [ownership, hcmd] using hpend i
  · ext1
    · rfl
    · funext j
      rw [Ownership.setPend_pend]
      by_cases hj : j = i
      · simp [ownership, hj]
      · have := hpend j
        simp only [hcmd, Ne.symm hj, if_false, toList_none, nil_append] at this
        simp [ownership, hj, this]
    · rfl
    · rfl

theorem dequeueCommandBuf_quiet (hdeq : s.chan.dequeueCommandBuf = some (b, cmd, chan))
    (hcmd : ∀ j, cmd.onSlot j = none) : Quiet s { s with chan } := by
  refine .chan ?_ fun so => ?_
  · funext j
    simpa [hcmd] using (dequeueCommandBuf_pend hdeq j).symm
  · have := dequeueCommandBuf_waiting hdeq so
    omega

theorem processCommand_ownership (hdeq : s.chan.dequeueCommandBuf = some (b, cmd, chan))
    (created : Option SocketPtr) (refused : Option Nat) :
    s.ownership.Step ({ s with chan }.processCommand created refused cmd).ownership := by
  obtain ⟨u, hu⟩ : ∃ u, { s with chan } = u := ⟨_, rfl⟩
  have hsat : u.sat = s.sat := by rw [← hu]
  have hquiet (hcmd : ∀ j, cmd.onSlot j = none) : Quiet s u :=
    hu ▸ dequeueCommandBuf_quiet hdeq hcmd
  rw [hu]
  cases cmd with
  | openSocket i parent type pid =>
    obtain ⟨hpend, hown⟩ := dequeueCommandBuf_ownership hdeq (c := .attach) (fun j => rfl)
    rw [hu] at hown
    cases created with
    | none => exact hown ▸ .refuse hpend
    | some so =>
      have hlink := setSat_ownership u i ⟨some so, some i, parent, pid⟩
      rw [hown] at hlink
      exact hlink ▸ .link hpend
  | setSocketRing i parent so pid =>
    obtain ⟨hpend, hown⟩ := dequeueCommandBuf_ownership hdeq (c := .attach) (fun j => rfl)
    rw [hu] at hown
    have hlink := setSat_ownership u i
      ⟨some so, some i, if parent = none then (u.sat i).parentIdx else parent, pid⟩
    rw [hown] at hlink
    simp only [processCommand]
    split <;> exact hlink ▸ .link hpend
  | close i =>
    obtain ⟨hpend, hown⟩ := dequeueCommandBuf_ownership hdeq (c := .close) (fun j => rfl)
    rw [hu] at hown
    cases hso : (u.sat i).socket with
    | none =>
      simp only [processCommand, hso]
      rw [hown]
      exact .forget hpend (by simp [ownership, ← hsat, hso])
    | some so =>
      simp only [processCommand, hso]
      obtain ⟨w, hw⟩ : ∃ w, (u.closeSocket so).setSat i { (u.closeSocket so).sat i with
        socket := none, ringsetIdx := none, parentIdx := none } = w := ⟨_, rfl⟩
      rw [hw]
      have hown' : w.ownership = (s.ownership.setPend i (chan.pend i)).setLinked i false := by
        rw [← hw, setSat_ownership, ← hown]
        rfl
      have hfree : w.freeConnections.items = s.freeConnections.items := by
        rw [← hw, ← hu]
        rfl
      have hstep (free : List Slot)
          (h : free = s.ownership.free ++ [i] ∨ free = s.ownership.free) :=
        Ownership.Step.unlink hpend (by simp [ownership, ← hsat, hso]) h
      rw [← hown'] at hstep
      apply hstep
      cases henq : w.freeConnections.enqueue i with
      | none => exact .inr hfree
      | some free =>
        left
        rw [getD_some, (enqueue_eq_some_iff.mp henq).2, hfree]
        rfl
  | txKick i =>
    simp only [processCommand]
    split
    · exact ((hquiet fun _ => rfl).trans (onTransmissionOpportunity_quiet _ refused)).stay
    · exact (hquiet fun _ => rfl).stay
  | setSocketSelect i parent pid => exact ((hquiet fun _ => rfl).trans
    (.setSat i { u.sat i with parentIdx := parent, apppid := pid } rfl)).stay
  | _ => exact (hquiet fun _ => rfl).stay

end Process

end ServiceState

theorem start_sound (pool : List Nat) : (ServiceState.start pool).ownership.Sound where
  nodup := by
    show ((List.finRange connectionPoolSize).take (connectionPoolSize - 1)).Nodup
    exact (nodup_finRange _).sublist (take_sublist _ _)
  free _ _ := ⟨rfl, rfl, fun _ => rfl⟩
  shape _ := nil_sublist _
  attach _ hmem := by cases hmem
  held _ _ h := by cases h
  unique _ _ _ h := by cases h

end NetbsdDpdk
