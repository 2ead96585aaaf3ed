import NetbsdDpdk.Command
import NetbsdDpdk.SharedRing
import NetbsdDpdk.Transition

/-! The readiness flags of one slot and the events they stand for, over one lifetime of a
connection. The server raises a flag and then posts the event to the ring of the selector, the
application takes events off the rings in `service_select` and clears the flags in its transfer
calls, and `SERVICE_SET_SOCKET_SELECT_COMMAND` moves the slot to another selector. -/

namespace NetbsdDpdk

inductive ReadyBit
  | readable
  | writable
  | closed
  deriving DecidableEq, Repr

structure ReadyEvent where
  ringsetIdx : Slot
  bit : ReadyBit
  deriving DecidableEq, Repr

inductive ReadyFlag
  | readReadyToApp
  | writeReadyToApp
  deriving DecidableEq, Repr

def ReadyFlag.bit : ReadyFlag → ReadyBit
  | .readReadyToApp => .readable
  | .writeReadyToApp => .writable

abbrev ReadyRing := SharedRing (dataRingsSize - 1) ReadyEvent

/-- An `rte_ring_enqueue` that has read the position `head` and has not yet published. -/
structure Enqueue where
  selector : Selector
  head : Nat
  event : ReadyEvent
  deriving DecidableEq

/-- Inside `service_mark_readable` or `service_mark_writable` after the test-and-set, or inside an
enqueue. -/
inductive ServerPc
  | idle
  | marking (f : ReadyFlag)
  | enqueuing (q : Enqueue)
  deriving DecidableEq

/-- `app` is an enqueue of the application, after a partial receive. `held f p` says that an event
for `f` was dequeued from selector `p` and the flag has not been cleared since. -/
structure FlagState where
  parentIdx : Option Selector := none
  flag : ReadyFlag → Bool := fun _ => false
  ring : Selector → ReadyRing := fun _ => {}
  server : ServerPc := .idle
  app : Option Enqueue := none
  held : ReadyFlag → Selector → Bool := fun _ _ => false

inductive FlagAction
  | mark (f : ReadyFlag)
  | reserve
  | publish
  | post (p : Selector) (e : ReadyEvent)
  | setSocketSelect (select : Option Selector)
  | select (p : Selector)
  | clear (f : ReadyFlag)
  | repost (p : Selector) (e : ReadyEvent)
  | republish

namespace FlagState

def setRing (s : FlagState) (p : Selector) (r : ReadyRing) : FlagState :=
  { s with ring := fun p' => if p' = p then r else s.ring p' }

def begin (s : FlagState) (p : Selector) (e : ReadyEvent) : Option Enqueue :=
  (s.ring p).reserve.map fun head => ⟨p, head, e⟩

def complete (s : FlagState) (q : Enqueue) : FlagState :=
  s.setRing q.selector ((s.ring q.selector).publish q.head q.event)

/-- The result of the enqueue is ignored: with a full ring the event is given up. -/
def startPost (s : FlagState) (p : Selector) (e : ReadyEvent) : FlagState :=
  { s with server := ((s.begin p e).map ServerPc.enqueuing).getD .idle }

def take (s : FlagState) (i : Slot) (p : Selector) (e : ReadyEvent) (r : ReadyRing) : FlagState :=
  { s.setRing p r with
    held := fun f p' => s.held f p' || (p' == p && e == ⟨i, f.bit⟩) }

/-- The flag is cleared by `service_dequeue_rx_buf` or `service_accept`, and by a send or a query of
the transmit space. -/
def clear (s : FlagState) (f : ReadyFlag) : FlagState :=
  { s with
    flag := fun f' => if f' = f then false else s.flag f'
    held := fun f' p => if f' = f then false else s.held f' p }

end FlagState

/-- The transitions of slot `i`. Events of other slots, and the closing event of this one, are
posted by the server without a flag. -/
def flagStep (i : Slot) (s : FlagState) : FlagAction → Option FlagState
  | .mark f => do
    guard (s.server = .idle)
    return if s.parentIdx = none ∨ s.flag f = true then s
      else { s with flag := fun f' => if f' = f then true else s.flag f', server := .marking f }
  | .reserve =>
    match s.server, s.parentIdx with
    | .marking f, some p => some (s.startPost p ⟨i, f.bit⟩)
    | _, _ => none
  | .publish =>
    match s.server with
    | .enqueuing q => some { s.complete q with server := .idle }
    | _ => none
  | .post p e => do
    guard (s.server = .idle)
    return s.startPost p e
  | .setSocketSelect select => do
    guard (s.server = .idle)
    return { s with parentIdx := select }
  | .select p => do
    let taken ← (s.ring p).dequeue
    return s.take i p taken.1 taken.2
  | .clear f => some (s.clear f)
  | .repost p e => do
    guard (s.app = none)
    return { s with app := s.begin p e }
  | .republish => do
    let q ← s.app
    return { s.complete q with app := none }

namespace FlagState

variable (i : Slot) (s : FlagState)

def Outstanding (f : ReadyFlag) (p : Selector) : Prop :=
  ⟨i, f.bit⟩ ∈ (s.ring p).items ∨ s.held f p = true

def Announcing (f : ReadyFlag) : Prop :=
  match s.server with
  | .idle => False
  | .marking f' => f' = f
  | .enqueuing q => q.event = ⟨i, f.bit⟩ ∧ s.parentIdx = some q.selector

def FlagsStand : Prop :=
  ∀ f, s.flag f = true → s.Announcing i f ∨ ∃ p ∈ s.parentIdx, s.Outstanding i f p

def AppApart (p : Selector) : Prop := ∀ q ∈ s.app, q.selector ≠ p

def ServerApart (p : Selector) : Prop :=
  match s.server with
  | .enqueuing q => q.selector ≠ p
  | _ => True

end FlagState

/-- The event of a raised flag finds room unless there is one already, the slot moves only to a
selector that has the events of its raised flags, and the two sides never enqueue at the same time
(`RING_F_SP_ENQ`). -/
def FlagSafe (i : Slot) (s : FlagState) : FlagAction → Prop
  | .reserve => ∀ f, s.server = .marking f → ∀ p ∈ s.parentIdx,
    s.AppApart p ∧ (s.flag f = true → (s.ring p).reserve.isSome = true ∨ s.Outstanding i f p)
  | .post p _ => s.AppApart p
  | .repost p _ => s.ServerApart p
  | .setSocketSelect select => ∀ f, s.flag f = true → ∃ p ∈ select, s.Outstanding i f p
  | .mark _ | .publish | .select _ | .clear _ | .republish => True

instance ReadyFlag.decidableForall (P : ReadyFlag → Prop) [DecidablePred P] : Decidable
    (∀ f, P f) :=
  decidable_of_iff (P .readReadyToApp ∧ P .writeReadyToApp)
    ⟨fun h f => by cases f; exacts [h.1, h.2], fun h => ⟨h _, h _⟩⟩

instance (i : Slot) (s : FlagState) (f : ReadyFlag) (p : Selector) :
    Decidable (s.Outstanding i f p) := by
  unfold FlagState.Outstanding
  infer_instance

instance (i : Slot) (s : FlagState) (f : ReadyFlag) : Decidable (s.Announcing i f) := by
  unfold FlagState.Announcing
  split <;> infer_instance

instance (i : Slot) (s : FlagState) : Decidable (s.FlagsStand i) := by
  unfold FlagState.FlagsStand
  infer_instance

instance (s : FlagState) (p : Selector) : Decidable (s.AppApart p) := by
  unfold FlagState.AppApart
  infer_instance

instance (s : FlagState) (p : Selector) : Decidable (s.ServerApart p) := by
  unfold FlagState.ServerApart
  split <;> infer_instance

instance (i : Slot) (s : FlagState) (a : FlagAction) : Decidable (FlagSafe i s a) := by
  rcases a <;> unfold FlagSafe <;> infer_instance

structure RingInv (s : FlagState) : Prop where
  sound : ∀ p, (s.ring p).Sound
  server : ∀ q, s.server = .enqueuing q →
    q.head = (s.ring q.selector).cells.length ∧ s.AppApart q.selector
  app : ∀ q ∈ s.app, q.head = (s.ring q.selector).cells.length

namespace FlagState

variable {i : Slot} {s t : FlagState} {f : ReadyFlag} {p : Selector} {e : ReadyEvent} {q : Enqueue}

theorem setRing_self (r : ReadyRing) : (s.setRing p r).ring p = r := if_pos rfl

theorem setRing_of_ne {p' : Selector} (r : ReadyRing) (hp : p' ≠ p) :
    (s.setRing p r).ring p' = s.ring p' := if_neg hp

theorem begin_eq_some (h : s.begin p e = some q) :
    q.selector = p ∧ q.event = e ∧ q.head = (s.ring q.selector).cells.length := by
  obtain ⟨head, hhead, rfl⟩ := Option.map_eq_some_iff.mp h
  exact ⟨rfl, rfl, SharedRing.reserve_eq_some hhead⟩

theorem startPost_server (s : FlagState) (p : Selector) (e : ReadyEvent) :
    (∃ q, s.begin p e = some q ∧ (s.startPost p e).server = .enqueuing q) ∨
      ((s.ring p).reserve.isSome = false ∧ (s.startPost p e).server = .idle) := by
  cases h : (s.ring p).reserve with
  | none => exact .inr ⟨rfl, by simp [startPost, begin, h]⟩
  | some head => exact .inl ⟨⟨p, head, e⟩, by simp [begin, h], by simp [startPost, begin, h]⟩

theorem mem_items_complete (hq : q.head = (s.ring q.selector).cells.length)
    (hsound : (s.ring q.selector).Sound) {x : ReadyEvent} :
    x ∈ ((s.complete q).ring p).items ↔
      x ∈ (s.ring p).items ∨ (p = q.selector ∧ x = q.event) := by
  by_cases hp : p = q.selector
  · subst hp
    rw [complete, setRing_self, hq, SharedRing.items_publish hsound]
    simp
  · rw [complete, setRing_of_ne _ hp]
    simp [hp]

theorem sound_complete (hq : q.head = (s.ring q.selector).cells.length)
    (hsound : ∀ p, (s.ring p).Sound) (p : Selector) : ((s.complete q).ring p).Sound := by
  by_cases hp : p = q.selector
  · subst hp
    rw [complete, setRing_self, hq]
    exact (hsound _).publish
  · rw [complete, setRing_of_ne _ hp]
    exact hsound p

theorem complete_of_ne (hp : p ≠ q.selector) : (s.complete q).ring p = s.ring p :=
  setRing_of_ne _ hp

theorem Outstanding.mono (h : s.Outstanding i f p)
    (hitems : ∀ x ∈ (s.ring p).items, x ∈ (t.ring p).items)
    (hheld : s.held f p = true → t.held f p = true) : t.Outstanding i f p :=
  h.imp (hitems _) hheld

end FlagState

namespace RingInv

open FlagState

variable {i : Slot} {s t : FlagState} {p : Selector} {e : ReadyEvent} {q : Enqueue}

theorem of_eq (h : RingInv s) (hring : t.ring = s.ring) (hserver : t.server = s.server)
    (happ : t.app = s.app) : RingInv t where
  sound p := hring ▸ h.sound p
  server q hq := by
    have hq' := h.server q (hserver ▸ hq)
    exact ⟨hring ▸ hq'.1, fun q' hq'' => hq'.2 q' (happ ▸ hq'')⟩
  app q hq := hring ▸ h.app q (happ ▸ hq)

theorem mark (h : RingInv s) {flag : ReadyFlag → Bool} {f : ReadyFlag} :
    RingInv { s with flag := flag, server := .marking f } where
  sound := h.sound
  server _ hq := nomatch hq
  app := h.app

theorem startPost (h : RingInv s) (hapart : s.AppApart p) : RingInv (s.startPost p e) where
  sound := h.sound
  server q hq := by
    rcases s.startPost_server p e with ⟨q', hbegin, hserver⟩ | ⟨_, hserver⟩
    · cases hserver.symm.trans hq
      obtain ⟨hp, _, hhead⟩ := begin_eq_some hbegin
      exact ⟨hhead, hp ▸ hapart⟩
    · cases hserver.symm.trans hq
  app := h.app

theorem publish (h : RingInv s) (hq : s.server = .enqueuing q) :
    RingInv { s.complete q with server := .idle } where
  sound := sound_complete (h.server q hq).1 h.sound
  server _ hidle := nomatch hidle
  app q' hq' := by
    have hne : q'.selector ≠ q.selector := (h.server q hq).2 q' hq'
    simpa only [complete_of_ne hne] using h.app q' hq'

theorem begin (h : RingInv s) (hapart : s.ServerApart p) :
    RingInv { s with app := s.begin p e } where
  sound := h.sound
  server q hq := by
    refine ⟨(h.server q hq).1, fun q' hq' => ?_⟩
    have hne : q.selector ≠ p := by
      simp only [ServerApart] at hapart
      rw [show s.server = .enqueuing q from hq] at hapart
      exact hapart
    rw [(begin_eq_some hq').1]
    exact hne.symm
  app _ hq := (begin_eq_some hq).2.2

theorem republish (h : RingInv s) (hq : s.app = some q) :
    RingInv { s.complete q with app := none } where
  sound := sound_complete (h.app q hq) h.sound
  server q' hq' := by
    have hserver := h.server q' hq'
    have hne : q'.selector ≠ q.selector := (hserver.2 q hq).symm
    exact ⟨by simpa only [complete_of_ne hne] using hserver.1, fun _ hnone => nomatch hnone⟩
  app _ hnone := nomatch hnone

theorem take (h : RingInv s) {r : ReadyRing} (hdeq : (s.ring p).dequeue = some (e, r)) :
    RingInv (s.take i p e r) := by
  -- the positions of the producers are those of the cells, which a dequeue leaves
  have hcells (p' : Selector) : ((s.setRing p r).ring p').cells = (s.ring p').cells := by
    by_cases hp : p' = p
    · subst hp
      rw [setRing_self]
      exact (SharedRing.dequeue_eq_some hdeq).2.1
    · rw [setRing_of_ne _ hp]
  refine ⟨fun p' => ?_, fun q hq => ?_, fun q hq => ?_⟩
  · by_cases hp : p' = p
    · subst hp
      exact (setRing_self (s := s) r).symm ▸ SharedRing.Sound.dequeue hdeq
    · exact (setRing_of_ne (s := s) r hp).symm ▸ h.sound p'
  · exact ⟨(h.server q hq).1.trans (congrArg _ (hcells _).symm), (h.server q hq).2⟩
  · exact (h.app q hq).trans (congrArg _ (hcells _).symm)

theorem step {a : FlagAction} (h : RingInv s) (hsafe : FlagSafe i s a)
    (hstep : flagStep i s a = some t) : RingInv t := by
  cases a with
  | mark f =>
    obtain ⟨_, rfl⟩ := guarded_eq_some.mp hstep
    split
    · exact h
    · exact h.mark
  | reserve =>
    simp only [flagStep] at hstep
    split at hstep
    · next f p hserver hparent =>
      cases hstep
      exact h.startPost (hsafe f hserver p hparent).1
    · cases hstep
  | publish =>
    simp only [flagStep] at hstep
    split at hstep
    · next q hserver =>
      cases hstep
      exact h.publish hserver
    · cases hstep
  | post p e =>
    obtain ⟨_, rfl⟩ := guarded_eq_some.mp hstep
    exact h.startPost hsafe
  | setSocketSelect select =>
    obtain ⟨_, rfl⟩ := guarded_eq_some.mp hstep
    exact h.of_eq rfl rfl rfl
  | select p =>
    obtain ⟨⟨e, r⟩, hdeq, rfl⟩ := looked_eq_some.mp hstep
    exact h.take hdeq
  | clear f =>
    cases hstep
    exact h.of_eq rfl rfl rfl
  | repost p e =>
    obtain ⟨_, rfl⟩ := guarded_eq_some.mp hstep
    exact h.begin hsafe
  | republish =>
    obtain ⟨q, hq, rfl⟩ := looked_eq_some.mp hstep
    exact h.republish hq

end RingInv

namespace FlagState

variable {i : Slot} {s t : FlagState} {f : ReadyFlag} {p : Selector} {e : ReadyEvent} {q : Enqueue}

theorem FlagsStand.outstanding (h : s.FlagsStand i) (hidle : s.server = .idle)
    (hf : s.flag f = true) : ∃ p ∈ s.parentIdx, s.Outstanding i f p := by
  refine (h f hf).resolve_left fun hannounce => ?_
  rw [Announcing, hidle] at hannounce
  exact hannounce

theorem FlagsStand.mark (h : s.FlagsStand i) (hidle : s.server = .idle) :
    FlagsStand i { s with
      flag := fun f' => if f' = f then true else s.flag f', server := .marking f } := by
  intro f' hf'
  by_cases heq : f' = f
  · exact .inl heq.symm
  · exact .inr (h.outstanding hidle (by simpa [heq] using hf'))

theorem flagsStand_reserve_iff (h : s.FlagsStand i) (hserver : s.server = .marking f)
    (hparent : s.parentIdx = some p) : (s.startPost p ⟨i, f.bit⟩).FlagsStand i ↔
      (s.flag f = true → (s.ring p).reserve.isSome = true ∨ s.Outstanding i f p) := by
  constructor
  · intro hstand hf
    rcases s.startPost_server p ⟨i, f.bit⟩ with ⟨q, hbegin, _⟩ | ⟨_, hidle⟩
    · obtain ⟨head, hhead, _⟩ := Option.map_eq_some_iff.mp hbegin
      exact .inl (Option.isSome_iff_exists.mpr ⟨head, hhead⟩)
    · obtain ⟨p', hp', hout⟩ := hstand.outstanding hidle hf
      cases hparent.symm.trans hp'
      exact .inr hout
  · intro hroom f' hf'
    by_cases heq : f' = f
    · subst heq
      rcases s.startPost_server p ⟨i, f'.bit⟩ with ⟨q, hbegin, hpost⟩ | ⟨hfull, _⟩
      · obtain ⟨hsel, hevent, _⟩ := begin_eq_some hbegin
        left
        rw [Announcing, hpost]
        exact ⟨hevent, hsel ▸ hparent⟩
      · rcases hroom hf' with hsome | hout
        · rw [hfull] at hsome
          cases hsome
        · exact .inr ⟨p, hparent, hout⟩
    · refine .inr ((h f' hf').resolve_left fun hannounce => heq ?_)
      rw [Announcing, hserver] at hannounce
      exact hannounce.symm

theorem FlagsStand.publish (h : s.FlagsStand i) (hrings : RingInv s)
    (hq : s.server = .enqueuing q) : FlagsStand i { s.complete q with server := .idle } := by
  have hmem := fun {p x} => mem_items_complete (p := p) (x := x) (hrings.server q hq).1
    (hrings.sound q.selector)
  intro f hf
  rcases h f hf with hannounce | ⟨p, hp, hout⟩
  · rw [Announcing, hq] at hannounce
    exact .inr ⟨q.selector, hannounce.2, .inl (hmem.mpr (.inr ⟨rfl, hannounce.1.symm⟩))⟩
  · exact .inr ⟨p, hp, hout.mono (fun x hx => hmem.mpr (.inl hx)) id⟩

theorem FlagsStand.republish (h : s.FlagsStand i) (hrings : RingInv s) (hq : s.app = some q) :
    FlagsStand i { s.complete q with app := none } := by
  have hmem := fun {p x} => mem_items_complete (p := p) (x := x) (hrings.app q hq)
    (hrings.sound q.selector)
  exact fun f hf => (h f hf).imp_right fun ⟨p, hp, hout⟩ =>
    ⟨p, hp, hout.mono (fun x hx => hmem.mpr (.inl hx)) id⟩

theorem flagsStand_setSocketSelect_iff {select : Option Selector} (hidle : s.server = .idle) :
    FlagsStand i { s with parentIdx := select } ↔
      ∀ f, s.flag f = true → ∃ p ∈ select, s.Outstanding i f p :=
  ⟨fun h _ hf => h.outstanding hidle hf, fun h f hf => .inr (h f hf)⟩

theorem FlagsStand.take (h : s.FlagsStand i) {r : ReadyRing}
    (hdeq : (s.ring p).dequeue = some (e, r)) : (s.take i p e r).FlagsStand i := by
  refine fun f hf => (h f hf).imp_right fun ⟨p', hp', hout⟩ => ⟨p', hp', ?_⟩
  rcases hout with hmem | hheld
  · by_cases hp : p' = p
    · subst hp
      rcases SharedRing.mem_items_of_dequeue hdeq hmem with rfl | hrest
      · exact .inr (by simp [FlagState.take])
      · exact .inl ((setRing_self (s := s) r).symm ▸ hrest)
    · exact .inl ((setRing_of_ne (s := s) r hp).symm ▸ hmem)
  · exact .inr (by simp [FlagState.take, hheld])

theorem FlagsStand.clear (h : s.FlagsStand i) : (s.clear f).FlagsStand i := by
  intro f' hf'
  have hne : f' ≠ f := fun heq => by simp [FlagState.clear, heq] at hf'
  have hout := h f' (by simpa [FlagState.clear, hne] using hf')
  refine hout.imp_right fun ⟨p, hp, hout⟩ => ⟨p, hp, hout.mono (fun _ hx => hx) fun hheld => ?_⟩
  simpa [FlagState.clear, hne] using hheld

theorem FlagsStand.step {a : FlagAction} (h : s.FlagsStand i) (hrings : RingInv s)
    (hsafe : FlagSafe i s a) (hstep : flagStep i s a = some t) : t.FlagsStand i := by
  cases a with
  | mark f =>
    obtain ⟨hidle, rfl⟩ := guarded_eq_some.mp hstep
    split
    · exact h
    · exact h.mark hidle
  | reserve =>
    simp only [flagStep] at hstep
    split at hstep
    · next f p hserver hparent =>
      cases hstep
      exact (flagsStand_reserve_iff h hserver hparent).mpr (hsafe f hserver p hparent).2
    · cases hstep
  | publish =>
    simp only [flagStep] at hstep
    split at hstep
    · next q hserver =>
      cases hstep
      exact h.publish hrings hserver
    · cases hstep
  | post p e =>
    obtain ⟨hidle, rfl⟩ := guarded_eq_some.mp hstep
    exact fun f hf => .inr (h.outstanding hidle hf)
  | setSocketSelect select =>
    obtain ⟨hidle, rfl⟩ := guarded_eq_some.mp hstep
    exact (flagsStand_setSocketSelect_iff hidle).mpr hsafe
  | select p =>
    obtain ⟨⟨e, r⟩, hdeq, rfl⟩ := looked_eq_some.mp hstep
    exact h.take hdeq
  | clear f =>
    cases hstep
    exact h.clear
  | repost p e =>
    obtain ⟨_, rfl⟩ := guarded_eq_some.mp hstep
    exact h
  | republish =>
    obtain ⟨q, hq, rfl⟩ := looked_eq_some.mp hstep
    exact h.republish hrings hq

end FlagState

structure FlagStart (s : FlagState) : Prop where
  clear : ∀ f, s.flag f = false
  server : s.server = .idle
  app : s.app = none
  sound : ∀ p, (s.ring p).Sound

theorem FlagStart.ringInv {s : FlagState} (h : FlagStart s) : RingInv s where
  sound := h.sound
  server q hq := by
    rw [h.server] at hq
    cases hq
  app q hq := by
    rw [h.app] at hq
    cases hq

/-- A flag that is up has its event on the way, and each condition of `FlagSafe` is needed. -/
theorem flagsStand_of_run {i : Slot} {s₀ s : FlagState} {as : List FlagAction}
    (hstart : FlagStart s₀) (hrun : Run (flagStep i) (FlagSafe i) s₀ as s) :
    s.FlagsStand i ∧
      (∀ select t, flagStep i s (.setSocketSelect select) = some t →
        (t.FlagsStand i ↔ FlagSafe i s (.setSocketSelect select))) ∧
      ∀ f p t, s.server = .marking f → s.parentIdx = some p → flagStep i s .reserve = some t →
        (t.FlagsStand i ↔
          (s.flag f = true → (s.ring p).reserve.isSome = true ∨ s.Outstanding i f p)) := by
  have hinv : RingInv s ∧ s.FlagsStand i := by
    refine hrun.invariant (I := fun s => RingInv s ∧ s.FlagsStand i)
      (fun _ _ _ h hsafe hstep => ⟨h.1.step hsafe hstep, h.2.step h.1 hsafe hstep⟩)
      ⟨hstart.ringInv, fun f hf => ?_⟩
    rw [hstart.clear] at hf
    cases hf
  refine ⟨hinv.2, fun select t hstep => ?_, fun f p t hserver hparent hstep => ?_⟩
  · obtain ⟨hidle, rfl⟩ := guarded_eq_some.mp hstep
    exact FlagState.flagsStand_setSocketSelect_iff hidle
  · simp only [flagStep, hserver, hparent, Option.some.injEq] at hstep
    exact hstep ▸ FlagState.flagsStand_reserve_iff hinv.2 hserver hparent

theorem flagsStand_of_run_moved : ∃ s, Run (flagStep 0) (FlagSafe 0) { parentIdx := some 0 }
    [.mark .readReadyToApp, .reserve, .publish, .select 0, .clear .readReadyToApp,
      .setSocketSelect (some 1), .mark .readReadyToApp, .reserve, .publish] s ∧
    (s.parentIdx = some 1 ∧ s.flag .readReadyToApp = true) ∧ s.FlagsStand 0 := by
  refine Run.exists_and_of_runActions (by decide +kernel) fun s hrun _ => ?_
  have hstart : FlagStart { parentIdx := some 0 } :=
    ⟨fun _ => rfl, rfl, rfl, fun _ => Nat.le_refl 0⟩
  exact (flagsStand_of_run hstart hrun).1

def crowded : FlagState where
  parentIdx := some 0
  ring _ := { cells := List.replicate 1023 ⟨1, .readable⟩ }

/-- The socket is moved while its readable event waits on the ring it leaves; the two marks that
the handler makes do not put one on the new ring. And with a full ring the flag goes up without
an event. -/
theorem raised_flag_without_event :
    (FlagStart { parentIdx := some 0 } ∧ ∃ s, Run (flagStep 0) (fun _ _ => True)
      { parentIdx := some 0 }
      [.mark .readReadyToApp, .reserve, .publish, .setSocketSelect (some 1),
        .mark .writeReadyToApp, .reserve, .publish, .mark .readReadyToApp] s ∧
      s.server = .idle ∧ ¬ s.FlagsStand 0) ∧
    (FlagStart crowded ∧ ∃ s, Run (flagStep 0) (fun _ _ => True) crowded
      [.mark .readReadyToApp, .reserve] s ∧ s.server = .idle ∧ ¬ s.FlagsStand 0) := by
  refine ⟨⟨⟨fun _ => rfl, rfl, rfl, fun _ => Nat.le_refl 0⟩, ?_⟩,
    ⟨fun _ => rfl, rfl, rfl, fun _ => Nat.zero_le _⟩, ?_⟩
  · exact Run.exists_of_runActions (by decide +kernel)
  · exact Run.exists_of_runActions (by decide +kernel)

end NetbsdDpdk
