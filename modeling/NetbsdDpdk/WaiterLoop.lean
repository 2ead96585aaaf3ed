import NetbsdDpdk.ReadyFlags
import NetbsdDpdk.Rounds
import NetbsdDpdk.Service

/-! The loop of `service_main_loop` over the sockets that wait for transmit buffers. It always looks
at the first one, and it ends when `service_mark_writable` returns anything but zero. -/

namespace NetbsdDpdk

open List Function

/-- `undefined` is what a caller of `service_mark_writable` finds in place of a result where the
function returns without one. -/
structure WaiterConfig where
  glueingBlock : SocketPtr → Option Slot
  type : SocketPtr → SoType := fun _ => .stream
  sndBufSpace : SocketPtr → Int := fun _ => 0
  sat : Slot → Satellite
  undefined : Slot → Int := fun _ => 0
  bufferCount : Nat := 1

structure WaiterState where
  waiters : List SocketPtr
  present : SocketPtr → Bool := fun _ => true
  writeReadyToApp : Slot → Bool := fun _ => false
  txSpace : Slot → Int := fun _ => 0
  ready : Selector → Fifo (dataRingsSize - 1) ReadyEvent := fun _ => Fifo.empty

namespace WaiterState

/-- `service_mark_writable` on slot `i`; `none` is an access outside of the slots. -/
def markWritable (c : WaiterConfig) (s : WaiterState) (i : Slot) : Option (Int × WaiterState) :=
  match (c.sat i).parentIdx, (c.sat i).ringsetIdx with
  | none, _ => some (1, s)
  | some _, none => none
  | some p, some r =>
    if s.writeReadyToApp r then some (c.undefined r, s)
    else
      let s := { s with writeReadyToApp := Function.update s.writeReadyToApp r true }
      match (s.ready p).enqueue ⟨r, .writable⟩ with
      | none => some (1, s)
      | some ring => some (0, { s with ready := Function.update s.ready p ring })

/-- `user_set_socket_tx_space`, for a datagram socket. -/
def setTxSpace (c : WaiterConfig) (s : WaiterState) (i : Slot) (so : SocketPtr) :
    Option WaiterState :=
  match c.type so, (c.sat i).ringsetIdx with
  | .stream, _ => some s
  | .dgram, none => none
  | .dgram, some r => some { s with txSpace := Function.update s.txSpace r (c.sndBufSpace so) }

def removeFirst (s : WaiterState) (so : SocketPtr) : Option WaiterState :=
  if so ∈ s.waiters then
    some { s with
      waiters := s.waiters.erase so
      present := Function.update s.present so false }
  else none

/-- One round. It follows the glueing block of the first waiter to its slot and goes on with the
socket of the slot. -/
def waiterRound (c : WaiterConfig) (s : WaiterState) : RoundResult WaiterState Unit :=
  match s.waiters with
  | [] => .done s
  | first :: _ =>
    if c.bufferCount > 0 then
      match c.glueingBlock first with
      | none => .fault ()
      | some i =>
        match (c.sat i).socket with
        | none => .fault ()
        | some so =>
          match s.setTxSpace c i so with
          | none => .fault ()
          | some s =>
            match s.markWritable c i with
            | none => .fault ()
            | some (rc, s) =>
              if rc ≠ 0 then .done s
              else
                match s.removeFirst so with
                | none => .fault ()
                | some s => .again s
    else .done s

end WaiterState

namespace WaiterConfig

structure Linked (c : WaiterConfig) (so : SocketPtr) (i : Slot) : Prop where
  glueingBlock : c.glueingBlock so = some i
  socket : (c.sat i).socket = some so
  ringsetIdx : (c.sat i).ringsetIdx = some i

def selector (c : WaiterConfig) (so : SocketPtr) : Option Selector :=
  (c.glueingBlock so).bind fun i => (c.sat i).parentIdx

end WaiterConfig

namespace WaiterState

def Outstanding (c : WaiterConfig) (s : WaiterState) (so : SocketPtr) : Prop :=
  ∀ i p, c.glueingBlock so = some i → (c.sat i).parentIdx = some p →
    ⟨i, .writable⟩ ∈ (s.ready p).items

structure Proper (c : WaiterConfig) (s : WaiterState) : Prop where
  linked : ∀ so ∈ s.waiters, ∃ i, c.Linked so i
  nodup : s.waiters.Nodup
  room : ∀ p, (s.ready p).count + s.waiters.countP (fun so => c.selector so = some p) ≤
    dataRingsSize - 1

def Served (c : WaiterConfig) (s t : WaiterState) : Prop :=
  (∀ so ∈ t.waiters, c.selector so = none) ∧
    ∀ so ∈ s.waiters, c.selector so ≠ none → so ∉ t.waiters ∧ t.Outstanding c so

/-- The waiter has a selector. If its flag is up already, its event is still on the ring, and the
result that is missing happens to be zero. -/
def Ready (c : WaiterConfig) (s : WaiterState) (so : SocketPtr) : Prop :=
  c.selector so ≠ none ∧ ∀ i, c.glueingBlock so = some i → s.writeReadyToApp i = true →
    c.undefined i = 0 ∧ s.Outstanding c so

def InOrder (c : WaiterConfig) (s : WaiterState) : Prop :=
  ∃ us vs, s.waiters = us ++ vs ∧ (∀ so ∈ us, s.Ready c so) ∧ ∀ so ∈ vs, c.selector so = none

inductive RoundFor (c : WaiterConfig) (s : WaiterState) (so : SocketPtr) (rest : List SocketPtr)
    (i : Slot) : Prop
  | noSelector (t : WaiterState) (hsel : c.selector so = none)
      (hround : waiterRound c s = .done t) (hwaiters : t.waiters = s.waiters)
      (hready : t.ready = s.ready)
  | stopped (t : WaiterState) (hsel : c.selector so ≠ none)
      (hflag : s.writeReadyToApp i = true) (hundef : c.undefined i ≠ 0)
      (hround : waiterRound c s = .done t) (hwaiters : t.waiters = s.waiters)
      (hready : t.ready = s.ready)
  | served (t : WaiterState) (hsel : c.selector so ≠ none) (hround : waiterRound c s = .again t)
      (hwaiters : t.waiters = rest) (hflag : t.writeReadyToApp i = true)
      (hflags : ∀ j, j ≠ i → t.writeReadyToApp j = s.writeReadyToApp j)
      (hready : ∀ q j, j ≠ i → ((⟨j, .writable⟩ : ReadyEvent) ∈ (t.ready q).items ↔
        ⟨j, .writable⟩ ∈ (s.ready q).items))
      (hevent : s.writeReadyToApp i = true ∧ c.undefined i = 0 ∧ t.ready = s.ready ∨
        s.writeReadyToApp i = false ∧ t.Outstanding c so)
      (hproper : t.Proper c)

section Round

variable {c : WaiterConfig} {s : WaiterState} {so : SocketPtr} {rest : List SocketPtr} {i : Slot}

theorem setTxSpace_linked (s : WaiterState) (h : c.Linked so i) :
    ∃ txSpace, s.setTxSpace c i so = some { s with txSpace } := by
  simp only [setTxSpace, h.ringsetIdx]
  cases c.type so <;> exact ⟨_, rfl⟩

theorem waiterRound_eq {rc : Int} {t : WaiterState} (hc : 0 < c.bufferCount)
    (hlist : s.waiters = so :: rest) (h : c.Linked so i)
    (hmark : ∀ txSpace, { s with txSpace }.markWritable c i = some (rc, { t with txSpace }))
    (hwaiters : t.waiters = so :: rest) :
    ∃ txSpace, waiterRound c s = if rc ≠ 0 then .done { t with txSpace } else .again { t with
      txSpace, waiters := rest, present := update t.present so false } := by
  obtain ⟨txSpace, htx⟩ := s.setTxSpace_linked h
  refine ⟨txSpace, ?_⟩
  have hremove : { t with txSpace }.removeFirst so = some { t with
      txSpace, waiters := rest, present := update t.present so false } := by
    simp [removeFirst, hwaiters]
  have hmark' := hmark txSpace
  rw [hlist] at hmark'
  simp only [waiterRound, hlist, hc, h.glueingBlock, h.socket, htx, hmark', hremove, if_true]

theorem selector_eq (h : c.Linked so i) : c.selector so = (c.sat i).parentIdx := by
  simp [WaiterConfig.selector, h.glueingBlock]

theorem outstanding_iff (h : c.Linked so i) : s.Outstanding c so ↔
    ∀ p, (c.sat i).parentIdx = some p → ⟨i, .writable⟩ ∈ (s.ready p).items := by
  constructor
  · exact fun hout p hp => hout i p h.glueingBlock hp
  · intro hall j p hj hp
    rw [h.glueingBlock] at hj
    cases hj
    exact hall p hp

theorem ready_iff (h : c.Linked so i) : s.Ready c so ↔ c.selector so ≠ none ∧
    (s.writeReadyToApp i = true → c.undefined i = 0 ∧ s.Outstanding c so) := by
  simp [Ready, h.glueingBlock]

theorem linked_ne {so' : SocketPtr} {j : Slot} (h : c.Linked so i) (h' : c.Linked so' j)
    (hne : so' ≠ so) : j ≠ i := by
  rintro rfl
  exact hne (Option.some.inj (h'.socket.symm.trans h.socket))

theorem Proper.tail (hs : s.Proper c) (hlist : s.waiters = so :: rest) {t : WaiterState}
    (hwaiters : t.waiters = rest) (hready : ∀ p, (t.ready p).count ≤ (s.ready p).count +
      if c.selector so = some p then 1 else 0) : t.Proper c := by
  obtain ⟨hlinked, hnd, hroom⟩ := hs
  rw [hlist] at hlinked hnd
  refine ⟨?_, ?_, ?_⟩
  · rw [hwaiters]
    exact fun x hx => hlinked x (.tail _ hx)
  · rw [hwaiters]
    exact (nodup_cons.mp hnd).2
  · intro p
    have hle := hroom p
    have hcount := hready p
    rw [hlist, countP_cons] at hle
    simp only [decide_eq_true_eq] at hle
    rw [hwaiters]
    omega

theorem roundFor (hc : 0 < c.bufferCount) (hs : s.Proper c) (hlist : s.waiters = so :: rest)
    (h : c.Linked so i) : RoundFor c s so rest i := by
  cases hp : (c.sat i).parentIdx with
  | none =>
    obtain ⟨txSpace, hround⟩ := waiterRound_eq hc hlist h
      (fun _ => by simp only [markWritable, hp]; rfl) hlist
    exact .noSelector { s with txSpace } ((selector_eq h).trans hp) (by simpa using hround) rfl
      rfl
  | some p =>
    have hsel : c.selector so = some p := (selector_eq h).trans hp
    have hsel' : c.selector so ≠ none := by simp [hsel]
    cases hflag : s.writeReadyToApp i with
    | true =>
      obtain ⟨txSpace, hround⟩ := waiterRound_eq hc hlist h
        (fun _ => by simp only [markWritable, hp, h.ringsetIdx, hflag, if_true]; rfl) hlist
      by_cases hundef : c.undefined i = 0
      · simp only [hundef, ne_eq, not_true_eq_false, if_false] at hround
        refine .served _ hsel' hround rfl hflag (fun _ _ => rfl) (fun _ _ _ => Iff.rfl)
          (.inl ⟨hflag, hundef, rfl⟩) (hs.tail hlist rfl fun q => by dsimp only; omega)
      · simp only [hundef, ne_eq, not_false_eq_true, if_true] at hround
        exact .stopped _ hsel' hflag hundef hround rfl rfl
    | false =>
      have hroom : (s.ready p).items.length < dataRingsSize - 1 := by
        have hle := hs.room p
        rw [hlist, countP_cons, if_pos (by simpa using hsel)] at hle
        simp only [Fifo.count] at hle
        omega
      obtain ⟨ring, hring⟩ : ∃ ring, (s.ready p).enqueue ⟨i, .writable⟩ = some ring := by
        refine ⟨_, dif_pos hroom⟩
      have hitems := (Fifo.enqueue_eq_some_iff.mp hring).2
      obtain ⟨t, ht⟩ : ∃ t, { s with
        writeReadyToApp := update s.writeReadyToApp i true
        ready := update s.ready p ring } = t := ⟨_, rfl⟩
      have hflags : t.writeReadyToApp = update s.writeReadyToApp i true := by rw [← ht]
      have hready : t.ready = update s.ready p ring := by rw [← ht]
      have hmark : ∀ txSpace, { s with txSpace }.markWritable c i =
          some (0, { t with txSpace }) := by
        intro txSpace
        rw [← ht]
        simp only [markWritable, hp, h.ringsetIdx, hflag, hring, Bool.false_eq_true, if_false]
      obtain ⟨txSpace, hround⟩ := waiterRound_eq hc hlist h hmark (by rw [← ht]; exact hlist)
      simp only [ne_eq, not_true_eq_false, if_false] at hround
      refine .served _ hsel' hround rfl ?_ ?_ ?_ (.inr ⟨hflag, ?_⟩) (hs.tail hlist rfl ?_)
      · rw [hflags, update_self]
      · intro j hj
        rw [hflags, update_of_ne hj]
      · intro q j hj
        rw [hready]
        by_cases hq : q = p
        · rw [hq, update_self, hitems, mem_append, mem_singleton]
          simp [hj]
        · rw [update_of_ne hq]
      · rw [outstanding_iff h]
        intro q hq
        rw [hp] at hq
        cases hq
        show _ ∈ (t.ready p).items
        rw [hready, update_self, hitems]
        simp
      · intro q
        rw [hready]
        by_cases hq : q = p
        · rw [hq, update_self, hsel, if_pos rfl, Fifo.count, hitems, Fifo.count]
          simp
        · rw [update_of_ne hq]
          omega

theorem inOrder_cons (hlist : s.waiters = so :: rest) (hsel : c.selector so ≠ none) :
    s.InOrder c ↔ s.Ready c so ∧ ∃ us vs, rest = us ++ vs ∧ (∀ x ∈ us, s.Ready c x) ∧
      ∀ x ∈ vs, c.selector x = none := by
  constructor
  · rintro ⟨us, vs, hsplit, hus, hvs⟩
    rw [hlist] at hsplit
    cases us with
    | nil =>
      rw [nil_append] at hsplit
      exact absurd (hvs so (by simp [← hsplit])) hsel
    | cons u us =>
      obtain ⟨rfl, hrest⟩ := List.cons.inj hsplit
      exact ⟨hus so (by simp), us, vs, hrest, fun x hx => hus x (.tail _ hx), hvs⟩
  · rintro ⟨hso, us, vs, hrest, hus, hvs⟩
    exact ⟨so :: us, vs, by rw [hlist, hrest, cons_append],
      forall_mem_cons.mpr ⟨hso, hus⟩, hvs⟩

theorem inOrder_of_noSelector (hlist : s.waiters = so :: rest) (hsel : c.selector so = none) :
    s.InOrder c ↔ ∀ x ∈ s.waiters, c.selector x = none := by
  constructor
  · rintro ⟨us, vs, hsplit, hus, hvs⟩
    cases us with
    | nil =>
      rw [hsplit]
      exact hvs
    | cons u us =>
      rw [hlist] at hsplit
      obtain ⟨rfl, -⟩ := List.cons.inj hsplit
      exact absurd hsel (hus so (by simp)).1
  · exact fun h => ⟨[], s.waiters, rfl, by simp, h⟩

def EventsKept (s t : WaiterState) : Prop :=
  ∀ i q, s.writeReadyToApp i = true →
    ((⟨i, .writable⟩ : ReadyEvent) ∈ (t.ready q).items ↔ ⟨i, .writable⟩ ∈ (s.ready q).items)

theorem EventsKept.outstanding {t : WaiterState} (h : EventsKept s t) (hl : c.Linked so i)
    (hflag : s.writeReadyToApp i = true) : t.Outstanding c so ↔ s.Outstanding c so := by
  rw [outstanding_iff hl, outstanding_iff hl]
  exact forall₂_congr fun p _ => h i p hflag

theorem ready_of_other {t : WaiterState} {so' : SocketPtr} {j : Slot} (hl : c.Linked so' j)
    (hflag : t.writeReadyToApp j = s.writeReadyToApp j)
    (hready : ∀ q, (⟨j, .writable⟩ : ReadyEvent) ∈ (t.ready q).items ↔
      ⟨j, .writable⟩ ∈ (s.ready q).items) : s.Ready c so' ↔ t.Ready c so' := by
  have hout : t.Outstanding c so' ↔ s.Outstanding c so' := by
    rw [outstanding_iff hl, outstanding_iff hl]
    exact forall₂_congr fun q _ => hready q
  rw [ready_iff hl, ready_iff hl, hflag, hout]

theorem ready_of_served {t : WaiterState} (hl : c.Linked so i) (hsel : c.selector so ≠ none)
    (hevent : s.writeReadyToApp i = true ∧ c.undefined i = 0 ∧ t.ready = s.ready ∨
      s.writeReadyToApp i = false ∧ t.Outstanding c so) :
    s.Ready c so ↔ t.Outstanding c so := by
  rw [ready_iff hl, and_iff_right hsel]
  rcases hevent with ⟨hup, hundef, hsame⟩ | ⟨hclear, hout⟩
  · have hout : s.Outstanding c so ↔ t.Outstanding c so := by
      simp only [Outstanding, hsame]
    rw [← hout]
    exact ⟨fun h => (h hup).2, fun h _ => ⟨hundef, h⟩⟩
  · refine iff_of_true (fun hup => ?_) hout
    rw [hclear] at hup
    cases hup

theorem served_cons {t u : WaiterState} (hlist : s.waiters = so :: rest) (ht : t.waiters = rest)
    (hsel : c.selector so ≠ none) :
    Served c s u ↔ u.Outstanding c so ∧ Served c t u := by
  rw [Served, Served, hlist, ht, forall_mem_cons]
  constructor
  · rintro ⟨hnone, hso, hrest⟩
    exact ⟨(hso hsel).2, hnone, hrest⟩
  · rintro ⟨hout, hnone, hrest⟩
    exact ⟨hnone, fun _ => ⟨fun hmem => hsel (hnone so hmem), hout⟩, hrest⟩

theorem pass_spec {ws : List SocketPtr} (hc : 0 < c.bufferCount) (hs : s.Proper c)
    (hlist : s.waiters = ws) :
    ∃ t, Halts (waiterRound c) s (.ok t) ∧ EventsKept s t ∧ (Served c s t ↔ s.InOrder c) := by
  induction ws generalizing s with
  | nil =>
    have hround : waiterRound c s = .done s := by simp only [waiterRound, hlist]
    refine ⟨s, (Halts.done_iff hround).mpr rfl, fun _ _ _ => Iff.rfl, ?_⟩
    exact iff_of_true ⟨by simp [hlist], by simp [hlist]⟩ ⟨[], [], by simp [hlist]⟩
  | cons so rest ih =>
    obtain ⟨i, hl⟩ := hs.linked so (by simp [hlist])
    rcases roundFor hc hs hlist hl with ⟨t, hsel, hround, hwaiters, hready⟩ |
      ⟨t, hsel, hflag, hundef, hround, hwaiters, hready⟩ |
      ⟨t, hsel, hround, hwaiters, hflag, hflags, hready, hevent, hproper⟩
    · refine ⟨t, (Halts.done_iff hround).mpr rfl, fun _ _ _ => by rw [hready], ?_⟩
      rw [inOrder_of_noSelector hlist hsel, Served, hwaiters]
      exact ⟨fun h => h.1, fun h => ⟨h, fun x hx hx' => absurd (h x hx) hx'⟩⟩
    · refine ⟨t, (Halts.done_iff hround).mpr rfl, fun _ _ _ => by rw [hready], ?_⟩
      refine iff_of_false (fun h => hsel (h.1 so (by simp [hwaiters, hlist]))) fun h => ?_
      exact hundef (((inOrder_cons hlist hsel).mp h).1.2 i hl.glueingBlock hflag).1
    · obtain ⟨u, hhalts, hkept, hiff⟩ := ih hproper hwaiters
      refine ⟨u, (Halts.again_iff hround).mpr hhalts, ?_, ?_⟩
      · intro j q hj
        by_cases hji : j = i
        · subst hji
          rcases hevent with ⟨-, -, hsame⟩ | ⟨hclear, -⟩
          · rw [hkept j q hflag, hsame]
          · rw [hclear] at hj
            cases hj
        · rw [hkept j q ((hflags j hji).trans hj), hready q j hji]
      · have hnd := hs.nodup
        rw [hlist] at hnd
        have hrest : ∀ x ∈ rest, (s.Ready c x ↔ t.Ready c x) := by
          intro x hx
          obtain ⟨j, hlj⟩ := hs.linked x (by simp [hlist, hx])
          have hji := linked_ne hl hlj (ne_of_mem_of_not_mem hx (nodup_cons.mp hnd).1)
          exact ready_of_other hlj (hflags j hji) fun q => hready q j hji
        have horder : t.InOrder c ↔ ∃ us vs, rest = us ++ vs ∧ (∀ x ∈ us, s.Ready c x) ∧
            ∀ x ∈ vs, c.selector x = none := by
          rw [InOrder, hwaiters]
          refine exists₂_congr fun us vs => and_congr_right fun hsplit => and_congr_left fun _ => ?_
          exact forall₂_congr fun x hx => (hrest x (by simp [hsplit, hx])).symm
        rw [inOrder_cons hlist hsel, ready_of_served hl hsel hevent, ← hkept.outstanding hl hflag,
          ← horder, ← hiff]
        exact served_cons hlist hwaiters hsel

/-- The pass ends, and serves every waiter with a selector exactly if they are `InOrder`. -/
theorem pass_served_iff (hc : 0 < c.bufferCount) (hs : s.Proper c) :
    ∃ t, Halts (waiterRound c) s (.ok t) ∧ (Served c s t ↔ s.InOrder c) := by
  obtain ⟨t, hhalts, -, hiff⟩ := pass_spec hc hs rfl
  exact ⟨t, hhalts, hiff⟩

def threeWaiters : WaiterConfig where
  glueingBlock so := some (Fin.ofNat _ so)
  sat i := ⟨some i.val, some i, if i = 1 then none else some 0, 0⟩

theorem threeWaiters_proper {ws : List SocketPtr} (hnd : ws.Nodup) (hlt : ∀ so ∈ ws, so < 3)
    (hlen : ws.length ≤ 3) : ({ waiters := ws } : WaiterState).Proper threeWaiters := by
  refine ⟨fun so hso => ⟨Fin.ofNat _ so, rfl, ?_, rfl⟩, hnd, fun p => ?_⟩
  · have hmod : so % connectionPoolSize = so :=
      Nat.mod_eq_of_lt ((hlt so hso).trans_le (by decide))
    exact congrArg some hmod
  · have hcount : ws.countP (fun so => threeWaiters.selector so = some p) ≤ ws.length :=
      countP_le_length
    have hsize : 3 ≤ dataRingsSize - 1 := by decide
    have hempty : (Fifo.empty : Fifo (dataRingsSize - 1) ReadyEvent).count = 0 := rfl
    dsimp only
    omega

theorem pass_served_iff_last : ∃ t,
    Halts (waiterRound threeWaiters) { waiters := [0, 2, 1] } (.ok t) ∧
      Served threeWaiters { waiters := [0, 2, 1] } t := by
  obtain ⟨t, hhalts, hiff⟩ := pass_served_iff (c := threeWaiters) (s := { waiters := [0, 2, 1] })
    (by decide) (threeWaiters_proper (by decide) (by decide) (by decide))
  refine ⟨t, hhalts, hiff.mpr ⟨[0, 2], [1], rfl, ?_, by decide⟩⟩
  have hsel : ∀ so ∈ [0, 2], threeWaiters.selector so ≠ none := by decide
  exact fun so hso => ⟨hsel so hso, fun i _ hflag => absurd hflag (by simp)⟩

theorem waiter_without_selector_blocks :
    ({ waiters := [1, 2] } : WaiterState).Proper threeWaiters ∧
      Halts (waiterRound threeWaiters) { waiters := [1, 2] } (.ok { waiters := [1, 2] }) ∧
      ¬ Served threeWaiters { waiters := [1, 2] } { waiters := [1, 2] } := by
  refine ⟨threeWaiters_proper (by decide) (by decide) (by decide), ⟨1, rfl⟩, fun h => ?_⟩
  exact absurd (h.1 2 (by simp)) (by decide)

end Round

end WaiterState

end NetbsdDpdk
