import NetbsdDpdk.SlotOwnership

/-! Where a connection slot is: on the ring of free slots, with an application, or named by a
command in flight. Which operations keep every slot in exactly one of these places is decided by
the state before the operation. -/

namespace NetbsdDpdk

open List

/-- A slot that an application holds is with the application, whatever commands it has sent. -/
inductive Place
  | free
  | held (a : Nat)
  | inFlight

namespace Ownership

def At (v : Ownership) (i : Slot) : Place → Prop
  | .free => i ∈ v.free
  | .held a => v.held a i = true
  | .inFlight => v.pend i ≠ [] ∧ ∀ a, v.held a i = false

def InOnePlace (v : Ownership) (i : Slot) : Prop := v.free.count i ≤ 1 ∧ ∃! p, v.At i p

/-- The slots that the system knows of are in one place each, the others are nowhere. -/
def Conserved (known : Slot → Prop) (v : Ownership) : Prop :=
  ∀ i, (known i → v.InOnePlace i) ∧ (¬ known i → ∀ p, ¬ v.At i p)

variable {v w : Ownership} {i : Slot} {known : Slot → Prop}

theorem not_at_inFlight_of_held {a : Nat} (h : v.held a i = true) : ¬ v.At i .inFlight := by
  intro hp
  simp [hp.2 a] at h

theorem inOnePlace_iff_of_not_free (hfree : i ∉ v.free) :
    v.InOnePlace i ↔ (∃ a, v.held a i = true ∧ ∀ b, v.held b i = true → b = a) ∨
      (∀ a, v.held a i = false) ∧ v.pend i ≠ [] := by
  have hcount : v.free.count i ≤ 1 := by simp [count_eq_zero.mpr hfree]
  constructor
  · rintro ⟨-, p, hp, huniq⟩
    cases p with
    | free => exact absurd hp hfree
    | held a =>
      refine .inl ⟨a, hp, fun b hb => ?_⟩
      have := huniq (.held b) hb
      simpa using this
    | inFlight => exact .inr ⟨hp.2, hp.1⟩
  · rintro (⟨a, ha, huniq⟩ | ⟨hheld, hpend⟩)
    · refine ⟨hcount, .held a, ha, ?_⟩
      intro p hp
      cases p with
      | free => exact absurd hp hfree
      | held b => rw [huniq b hp]
      | inFlight => exact absurd hp (not_at_inFlight_of_held ha)
    · refine ⟨hcount, .inFlight, ⟨hpend, hheld⟩, ?_⟩
      intro p hp
      cases p with
      | free => exact absurd hp hfree
      | held b => simp [At, hheld b] at hp
      | inFlight => rfl

theorem inOnePlace_iff_of_free (hfree : i ∈ v.free) :
    v.InOnePlace i ↔ v.free.count i = 1 ∧ (∀ a, v.held a i = false) ∧ v.pend i = [] := by
  have hpos := count_pos_iff.mpr hfree
  constructor
  · rintro ⟨hcount, p, -, huniq⟩
    have hp := huniq .free hfree
    have hheld : ∀ a, v.held a i = false := by
      intro a
      by_contra ha
      have := huniq (.held a) (show v.held a i = true by simpa using ha)
      simp [← hp] at this
    refine ⟨by omega, hheld, ?_⟩
    by_contra hpend
    have := huniq .inFlight ⟨hpend, hheld⟩
    simp [← hp] at this
  · rintro ⟨hcount, hheld, hpend⟩
    refine ⟨hcount.le, .free, hfree, ?_⟩
    intro p hp
    cases p with
    | free => rfl
    | held b => simp [At, hheld b] at hp
    | inFlight => exact absurd hpend hp.1

structure SameAt (v w : Ownership) (i : Slot) : Prop where
  free : w.free.count i = v.free.count i
  pend : w.pend i = v.pend i
  held : ∀ a, w.held a i = v.held a i

theorem SameAt.at_iff (h : SameAt v w i) (p : Place) : w.At i p ↔ v.At i p := by
  cases p with
  | free =>
    show i ∈ w.free ↔ i ∈ v.free
    rw [← count_pos_iff, ← count_pos_iff, h.free]
  | held a => simp [At, h.held a]
  | inFlight => simp [At, h.pend, h.held]

theorem SameAt.inOnePlace_iff (h : SameAt v w i) : w.InOnePlace i ↔ v.InOnePlace i := by
  simp only [InOnePlace, h.free, h.at_iff]

theorem Conserved.congr (hfree : w.free = v.free) (hpend : w.pend = v.pend)
    (hheld : w.held = v.held) : Conserved known w ↔ Conserved known v := by
  have hsame (i : Slot) : SameAt v w i := ⟨by rw [hfree], by rw [hpend], fun _ => by rw [hheld]⟩
  simp only [Conserved, (hsame _).inOnePlace_iff, (hsame _).at_iff]

theorem conserved_iff (h : Conserved known v) (hknown : known i)
    (hsame : ∀ j, j ≠ i → SameAt v w j) : Conserved known w ↔ w.InOnePlace i := by
  constructor
  · intro hw
    exact (hw i).1 hknown
  · intro hi j
    by_cases hj : j = i
    · subst hj
      exact ⟨fun _ => hi, fun hn => absurd hknown hn⟩
    · refine ⟨fun hk => (hsame j hj).inOnePlace_iff.mpr ((h j).1 hk), fun hk p hp => ?_⟩
      exact (h j).2 hk p (((hsame j hj).at_iff p).mp hp)

theorem Conserved.known_of_at (h : Conserved known v) {p : Place} (hp : v.At i p) : known i := by
  by_contra hk
  exact (h i).2 hk p hp

theorem sameAt_tail {rest : List Slot} (hfree : v.free = i :: rest) {j : Slot} (hj : j ≠ i) :
    SameAt v { v with free := rest } j :=
  ⟨by simp [hfree, Ne.symm hj], rfl, fun _ => rfl⟩

theorem Conserved.lose (h : Conserved known v) {rest : List Slot} (hfree : v.free = i :: rest) :
    ¬ Conserved known { v with free := rest } := by
  have hi : i ∈ v.free := by simp [hfree]
  have hknown := h.known_of_at (p := .free) hi
  obtain ⟨hcount, hheld, hpend⟩ := (inOnePlace_iff_of_free hi).mp ((h i).1 hknown)
  have hrest : i ∉ rest := count_eq_zero.mp (by simpa [hfree] using hcount)
  rw [conserved_iff h hknown fun j hj => sameAt_tail hfree hj, inOnePlace_iff_of_not_free hrest]
  rintro (⟨a, ha, -⟩ | ⟨-, hne⟩)
  · simp [hheld a] at ha
  · exact hne hpend

theorem Conserved.acquire (h : Conserved known v) {rest : List Slot} (hfree : v.free = i :: rest)
    (a : Nat) (cs : List SlotCmd) :
    Conserved known (({ v with free := rest }.setPend i cs).setHeld a i true) := by
  have hi : i ∈ v.free := by simp [hfree]
  have hknown := h.known_of_at (p := .free) hi
  obtain ⟨hcount, hheld, -⟩ := (inOnePlace_iff_of_free hi).mp ((h i).1 hknown)
  have hrest : i ∉ rest := count_eq_zero.mp (by simpa [hfree] using hcount)
  rw [conserved_iff h hknown, inOnePlace_iff_of_not_free hrest]
  · left
    refine ⟨a, by simp [setHeld_held], ?_⟩
    intro b hb
    by_contra hne
    simp [setHeld_held, hne, hheld b] at hb
  · intro j hj
    exact ⟨by simp [hfree, Ne.symm hj], by simp [setPend_pend, hj],
      fun b => by simp [setHeld_held, hj]⟩

theorem Conserved.of_held (h : Conserved known v) {a : Nat} (ha : v.held a i = true) :
    known i ∧ i ∉ v.free ∧ ∀ b, v.held b i = true → b = a := by
  have hknown := h.known_of_at (p := .held a) ha
  obtain ⟨-, p, -, huniq⟩ := (h i).1 hknown
  have hp := huniq (.held a) ha
  refine ⟨hknown, fun hi => ?_, fun b hb => ?_⟩
  · have := huniq .free hi
    simp [← hp] at this
  · have := huniq (.held b) hb
    simpa [← hp] using this

theorem Conserved.giveUp_iff (h : Conserved known v) {a : Nat} (ha : v.held a i = true)
    (cs : List SlotCmd) : Conserved known ((v.setPend i cs).setHeld a i false) ↔ cs ≠ [] := by
  obtain ⟨hknown, hfree, huniq⟩ := h.of_held ha
  have hnone : ∀ b, ((v.setPend i cs).setHeld a i false).held b i = false := by
    intro b
    by_cases hb : b = a
    · simp [setHeld_held, hb]
    · by_contra hheld
      exact hb (huniq b (by simpa [setHeld_held, hb] using hheld))
  rw [conserved_iff h hknown,
    inOnePlace_iff_of_not_free (v := (v.setPend i cs).setHeld a i false) hfree]
  · simp [hnone, setPend_pend]
  · intro j hj
    exact ⟨rfl, by simp [setPend_pend, hj], fun b => by simp [setHeld_held, hj]⟩

theorem Conserved.of_pend (h : Conserved known v) (hpend : v.pend i ≠ []) :
    known i ∧ i ∉ v.free ∧ ∀ a b, v.held a i = true → v.held b i = true → a = b := by
  have hheld : ∀ a b, v.held a i = true → v.held b i = true → a = b :=
    fun a b ha hb => (h.of_held hb).2.2 a ha
  by_cases hex : ∃ a, v.held a i = true
  · obtain ⟨a, ha⟩ := hex
    obtain ⟨hknown, hfree, -⟩ := h.of_held ha
    exact ⟨hknown, hfree, hheld⟩
  · have hnone : ∀ a, v.held a i = false := fun a => by
      by_contra ha
      exact hex ⟨a, by simpa using ha⟩
    have hknown := h.known_of_at (p := .inFlight) ⟨hpend, hnone⟩
    refine ⟨hknown, fun hi => ?_, hheld⟩
    exact hpend ((inOnePlace_iff_of_free hi).mp ((h i).1 hknown)).2.2

theorem Conserved.pop_iff (h : Conserved known v) (hpend : v.pend i ≠ []) (hfree : w.free = v.free)
    (hheld : w.held = v.held) (hpend' : ∀ j, j ≠ i → w.pend j = v.pend j) :
    Conserved known w ↔ (∃ a, v.held a i = true) ∨ w.pend i ≠ [] := by
  obtain ⟨hknown, hnot, huniq⟩ := h.of_pend hpend
  rw [conserved_iff h hknown fun j hj => ⟨by rw [hfree], hpend' j hj, fun _ => by rw [hheld]⟩,
    inOnePlace_iff_of_not_free (by rwa [hfree]), hheld]
  constructor
  · rintro (⟨a, ha, -⟩ | ⟨-, hne⟩)
    · exact .inl ⟨a, ha⟩
    · exact .inr hne
  · intro hor
    by_cases hex : ∃ a, v.held a i = true
    · obtain ⟨a, ha⟩ := hex
      exact .inl ⟨a, ha, fun b hb => huniq b a hb ha⟩
    · refine .inr ⟨fun a => ?_, hor.resolve_left hex⟩
      by_contra ha
      exact hex ⟨a, by simpa using ha⟩

theorem Conserved.freed_iff (h : Conserved known v) (hpend : v.pend i ≠ [])
    (hfree : w.free = v.free ++ [i]) (hheld : w.held = v.held)
    (hpend' : ∀ j, j ≠ i → w.pend j = v.pend j) :
    Conserved known w ↔ ¬ ((∃ a, v.held a i = true) ∨ w.pend i ≠ []) := by
  obtain ⟨hknown, hnot, -⟩ := h.of_pend hpend
  have hsame : ∀ j, j ≠ i → SameAt v w j := fun j hj =>
    ⟨by simp [hfree, Ne.symm hj], hpend' j hj, fun _ => by rw [hheld]⟩
  have hcount : w.free.count i = 1 := by simp [hfree, count_eq_zero.mpr hnot]
  rw [conserved_iff h hknown hsame, inOnePlace_iff_of_free (by simp [hfree]), hheld]
  simp [hcount]

end Ownership

namespace ServiceState

def close (s : ServiceState) (a : Nat) (i : Slot) : ServiceState :=
  let s := s.closeCommand a i
  match (s.app a i).closing with
  | some g => s.flushRx a i g
  | none => s

def processOne (s : ServiceState) (created : Option SocketPtr) (refused : Option Nat) :
    ServiceState :=
  match s.chan.dequeueCommandBuf with
  | none => s
  | some (b, cmd, chan) =>
    let s := { s with chan }.processCommand created refused cmd
    { s with chan := s.chan.freeCommandBuf b }

end ServiceState

inductive SlotOp
  | openSocket (a : Nat) (type : SoType) (parent : Option Selector)
  | accept (a : Nat) (l : Slot)
  | close (a : Nat) (i : Slot)
  | process (created : Option SocketPtr) (refused : Option Nat)

/-- An operation, with its result and the slot it took. An application closes what it holds, and
accepts where a pending accept is next or nothing is. -/
def slotOp (s : ServiceState) : SlotOp → Option ServiceState.Taken
  | .openSocket a type parent => some (s.openSocket a type parent)
  | .accept a l => s.accept a l
  | .close a i => if (s.app a i).held = none then none else some ⟨0, none, s.close a i⟩
  | .process created refused => some ⟨0, none, s.processOne created refused⟩

namespace ServiceState

def Held (s : ServiceState) (i : Slot) : Prop := ∃ a, (s.app a i).held ≠ none

/-- What decides whether the next command keeps every slot in one place: an OPEN or SET_SOCKET_RING
needs somebody who has the slot; a CLOSE frees it exactly if nobody has it otherwise. -/
def CommandConserves (s : ServiceState) : List (Nat × ServiceCmd) → Prop
  | [] => True
  | (_, cmd) :: rest =>
    let inUse (i : Slot) := s.Held i ∨ ∃ c ∈ rest, c.2.onSlot i ≠ none
    match cmd with
    | .openSocket i .. => inUse i
    | .setSocketRing i .. => inUse i
    | .close i =>
      if (s.sat i).socket ≠ none ∧ s.freeConnections.items.length < connectionPoolSize - 1 then
        ¬ inUse i
      else inUse i
    | _ => True

def Conserves (s : ServiceState) : SlotOp → Prop
  | .openSocket .. => s.freeConnections.items = [] ∨ s.CanSend
  | .accept _ l => (s.rings l).rxRing.items = [] ∨ s.freeConnections.items = [] ∨
      s.chan.ring.items.length < commandPoolSize - 1
  | .close _ i => s.CanSend ∨ ∃ c ∈ s.chan.ring.items, c.2.onSlot i ≠ none
  | .process .. => s.CommandConserves s.chan.ring.items

variable {s : ServiceState} {known : Slot → Prop}

theorem TakeOutcome.conserves_iff (h : s.ownership.Conserved known) {a : Nat} {sends : Prop}
    {r : Taken} (ho : TakeOutcome s a sends r) :
    (r.state.ownership.Conserved known ∧
      (r.rc < 0 → ∀ i ∈ r.slot, i ∈ r.state.freeConnections.items)) ↔ r.slot = none ∨ sends := by
  rcases ho with ⟨hslot, -, heq⟩ | ⟨i, rest, hfree, hslot, ⟨hsends, -, heq⟩ | ⟨hsends, hrc, heq⟩⟩
  · simp [hslot, heq, h]
  · have hlost := Ownership.Conserved.lose h hfree
    simp [hslot, hsends, heq, hlost]
  · have hkept := Ownership.Conserved.acquire h hfree a (s.ownership.pend i ++ [.attach])
    rw [heq]
    simp only [hslot, hsends, or_true, iff_true]
    exact ⟨hkept, fun hneg => absurd hrc (by omega)⟩

theorem pend_ne_nil_iff (chan : CommandChannel) (i : Slot) :
    chan.pend i ≠ [] ↔ ∃ c ∈ chan.ring.items, c.2.onSlot i ≠ none := by
  simp [CommandChannel.pend, filterMap_eq_nil_iff]

theorem close_ownership (a : Nat) (i : Slot) :
    (s.close a i).ownership = (s.closeCommand a i).ownership := by
  simp only [close]
  split
  · exact (flushRx_quiet a i _).ownership
  · rfl

theorem close_conserves_iff (h : s.ownership.Conserved known) {a : Nat} {i : Slot}
    (hheld : (s.app a i).held ≠ none) :
    (s.close a i).ownership.Conserved known ↔
      s.CanSend ∨ ∃ c ∈ s.chan.ring.items, c.2.onSlot i ≠ none := by
  have hheld' : s.ownership.held a i = true := Option.isSome_iff_ne_none.mpr hheld
  rw [close_ownership]
  rcases closeCommand_outcome (s := s) a i with ⟨hcan, heq⟩ | ⟨hcan, heq⟩
  · have hpend : s.ownership.setPend i (s.ownership.pend i) = s.ownership := by
      simp [Ownership.setPend]
    rw [heq, ← hpend, h.giveUp_iff hheld' (s.ownership.pend i), ← pend_ne_nil_iff]
    simp [hcan, ownership]
  · rw [heq, h.giveUp_iff hheld']
    simp [hcan]

theorem processCommand_free (created : Option SocketPtr) (refused : Option Nat) (cmd : ServiceCmd) :
    (s.processCommand created refused cmd).freeConnections.items = match cmd with
      | .close i =>
        if (s.sat i).socket ≠ none ∧ s.freeConnections.items.length < connectionPoolSize - 1 then
          s.freeConnections.items ++ [i]
        else s.freeConnections.items
      | _ => s.freeConnections.items := by
  have hfree := (processCommand_served s created refused cmd).free
  cases cmd with
  | close i =>
    cases hso : (s.sat i).socket with
    | none => simp [processCommand, hso]
    | some so =>
      simp only [processCommand, hso, ne_eq, reduceCtorEq, not_false_eq_true, true_and]
      cases henq : s.freeConnections.enqueue i with
      | none =>
        have hlen := Fifo.enqueue_eq_none_iff.mp henq
        simp [setSat, closeSocket, setSock, henq, hlen]
      | some free =>
        obtain ⟨hlen, hitems⟩ := Fifo.enqueue_eq_some_iff.mp henq
        rw [if_pos hlen, ← hitems]
        simp [setSat, closeSocket, setSock, henq]
  | _ => exact congrArg Fifo.items (hfree.resolve_left (by simp))

theorem held_iff (i : Slot) : (∃ a, s.ownership.held a i = true) ↔ s.Held i := by
  simp only [Held, ownership, Option.isSome_iff_ne_none]

theorem processOne_conserves_iff (h : s.ownership.Conserved known) (created : Option SocketPtr)
    (refused : Option Nat) : (s.processOne created refused).ownership.Conserved known ↔
      s.CommandConserves s.chan.ring.items := by
  cases hdeq : s.chan.dequeueCommandBuf with
  | none =>
    have hnil : s.chan.ring.items = [] := by
      simpa [CommandChannel.dequeueCommandBuf, Fifo.dequeue_eq_none_iff] using hdeq
    simp [processOne, hdeq, hnil, CommandConserves, h]
  | some bcc =>
    obtain ⟨b, cmd, chan⟩ := bcc
    have hitems := (CommandChannel.dequeueCommandBuf_eq_some hdeq).1
    have hpend := CommandChannel.dequeueCommandBuf_pend hdeq
    obtain ⟨w, hw⟩ : ∃ w, (s.processOne created refused).ownership = w := ⟨_, rfl⟩
    have hproc : w = ({ s with chan }.processCommand created refused cmd).ownership := by
      rw [← hw]
      simp only [processOne, hdeq]
      rfl
    have hwpend : w.pend = chan.pend := by
      rw [hproc]
      show CommandChannel.pend (ServiceState.chan _) = _
      rw [(processCommand_served _ created refused cmd).chan]
    have hwheld : w.held = s.ownership.held := by
      rw [hproc]
      simp only [ownership, (processCommand_served _ created refused cmd).app]
    have hwfree := processCommand_free (s := { s with chan }) created refused cmd
    change ({ s with chan }.processCommand created refused cmd).ownership.free = _ at hwfree
    rw [← hproc] at hwfree
    have hrest (i : Slot) : w.pend i ≠ [] ↔ ∃ c ∈ chan.ring.items, c.2.onSlot i ≠ none := by
      rw [hwpend, pend_ne_nil_iff]
    rw [hw, hitems]
    -- the commands that name no slot
    have hplain (hcmd : ∀ j, cmd.onSlot j = none) (hfree : w.free = s.ownership.free) :
        w.Conserved known := by
      rw [Ownership.Conserved.congr hfree ?_ hwheld]
      · exact h
      · funext j
        have := hpend j
        rw [hcmd j] at this
        rw [hwpend]
        exact this.symm
    -- the slot that the command names, and the slots that it does not
    have hnamed (i : Slot) (c : SlotCmd) (hi : cmd.onSlot i = some c) :
        s.ownership.pend i ≠ [] := by
      show s.chan.pend i ≠ []
      simp [hpend i, hi]
    have hothers (j : Slot) (hj : cmd.onSlot j = none) : w.pend j = s.ownership.pend j := by
      have := hpend j
      rw [hj] at this
      rw [hwpend]
      exact this.symm
    cases cmd with
    | openSocket i parent type pid | setSocketRing i parent so pid =>
      rw [h.pop_iff (hnamed i .attach (if_pos rfl)) hwfree hwheld
        (fun j hj => hothers j (if_neg (Ne.symm hj))), held_iff, hrest]
      rfl
    | close i =>
      have hne := hnamed i .close (if_pos rfl)
      have hsame : ∀ j, j ≠ i → w.pend j = s.ownership.pend j :=
        fun j hj => hothers j (if_neg (Ne.symm hj))
      simp only [CommandConserves]
      by_cases hcond : (s.sat i).socket ≠ none ∧
          s.freeConnections.items.length < connectionPoolSize - 1
      · have hfree : w.free = s.ownership.free ++ [i] := hwfree.trans (if_pos hcond)
        rw [if_pos hcond, h.freed_iff hne hfree hwheld hsame, held_iff, hrest]
      · have hfree : w.free = s.ownership.free := hwfree.trans (if_neg hcond)
        rw [if_neg hcond, h.pop_iff hne hfree hwheld hsame, held_iff, hrest]
    | _ => exact iff_of_true (hplain (fun _ => rfl) hwfree) trivial

end ServiceState

/-- An operation keeps the slots, and gives back its own if it fails, exactly under `Conserves`. -/
theorem slotOp_conserves_iff {known : Slot → Prop} {s : ServiceState} {op : SlotOp}
    {r : ServiceState.Taken} (h : s.ownership.Conserved known) (hop : slotOp s op = some r) :
    (r.state.ownership.Conserved known ∧
      (r.rc < 0 → ∀ i ∈ r.slot, i ∈ r.state.freeConnections.items)) ↔ s.Conserves op := by
  cases op with
  | openSocket a type parent =>
    obtain rfl : _ = r := by simpa [slotOp] using hop
    obtain ⟨hout, hslot, -⟩ := ServiceState.openSocket_outcome (s := s) a type parent
    rw [hout.conserves_iff h, hslot]
    rfl
  | accept a l =>
    obtain ⟨hout, hslot, -⟩ := ServiceState.accept_outcome (s := s) hop
    rw [hout.conserves_iff h, hslot, or_assoc]
    rfl
  | close a i =>
    by_cases hheld : (s.app a i).held = none
    · simp [slotOp, hheld] at hop
    · obtain rfl : _ = r := by simpa [slotOp, hheld] using hop
      have hiff := ServiceState.close_conserves_iff h hheld
      simp only [Option.not_mem_none, false_imp_iff, implies_true, and_true]
      exact hiff
  | process created refused =>
    obtain rfl : _ = r := by simpa [slotOp] using hop
    have hiff := ServiceState.processOne_conserves_iff h created refused
    simp only [Option.not_mem_none, false_imp_iff, implies_true, and_true]
    exact hiff

theorem start_conserved (pool : List Nat) :
    (ServiceState.start pool).ownership.Conserved (· ≠ 15) := by
  intro i
  have hfree : (ServiceState.start pool).ownership.free =
      (List.finRange connectionPoolSize).take (connectionPoolSize - 1) := rfl
  constructor
  · intro hi
    have hmem : i ∈ (ServiceState.start pool).ownership.free := by
      rw [hfree]
      revert i
      decide
    refine (Ownership.inOnePlace_iff_of_free hmem).mpr ⟨?_, fun _ => rfl, rfl⟩
    rw [hfree]
    clear hmem
    revert i
    decide
  · intro hi p hp
    obtain rfl : i = 15 := by simpa using hi
    cases p with
    | free =>
      have : (15 : Slot) ∉ (List.finRange connectionPoolSize).take (connectionPoolSize - 1) := by
        decide
      exact this hp
    | held a => cases hp
    | inFlight => exact hp.1 rfl

theorem slotOp_conserves_iff_open :
    ∃ r, slotOp (.start [0]) (.openSocket 1 .stream none) = some r ∧ r.rc = 0 ∧
      r.state.ownership.Conserved (· ≠ 15) := by
  have hop : slotOp (.start [0]) (.openSocket 1 .stream none) =
    some (ServiceState.openSocket (.start [0]) 1 .stream none) := rfl
  refine ⟨_, hop, by decide, ?_⟩
  exact ((slotOp_conserves_iff (start_conserved [0]) hop).mpr (.inr ⟨by decide, by decide⟩)).1

theorem openSocket_loses_slot :
    (ServiceState.start []).ownership.Conserved (· ≠ 15) ∧
      ∃ r, slotOp (.start []) (.openSocket 1 .stream none) = some r ∧ r.rc = -2 ∧
        r.slot = some 0 ∧ 0 ∉ r.state.freeConnections.items ∧
        ¬ r.state.ownership.Conserved (· ≠ 15) := by
  refine ⟨start_conserved [], _, rfl, by decide, by decide, by decide, ?_⟩
  exact Ownership.Conserved.lose (start_conserved []) rfl

end NetbsdDpdk
