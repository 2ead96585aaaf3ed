import NetbsdDpdk.SocketStack

/-! The counters `read_sockets_queue_len` and `write_sockets_queue_len` of `app_glue.c`, which bound
how many sockets a pass serves, beside the lists that they count. A socket that is closed leaves its
lists and stays counted. -/

namespace NetbsdDpdk

open List Function SocketStack

def ReadyList.counted : ReadyList → Bool
  | .read | .write => true
  | _ => false

/-- `queueLen .read` is `read_sockets_queue_len`, `queueLen .write` is `write_sockets_queue_len`. -/
structure ReadyQueues where
  stack : SocketStack
  queueLen : ReadyList → Nat

/-- What can happen outside of `app_glue.c`: something that leaves the lists and their flags alone,
or a `sowakeup`. -/
inductive GlueEvent
  | stack (t : SocketStack)
  | sowakeup (so : SocketPtr)

namespace ReadyQueues

def start : ReadyQueues := ⟨.start, fun _ => 0⟩

def insert (q : ReadyQueues) (k : ReadyList) (so : SocketPtr) : ReadyQueues where
  stack := q.stack.insert k so
  queueLen :=
    if k.counted && !(q.stack.sock so).present k then
      Function.update q.queueLen k (q.queueLen k + 1)
    else q.queueLen

def sockReadable (q : ReadyQueues) (so : SocketPtr) : ReadyQueues :=
  let t := q.stack.sock so
  if t.disconnected then q.insert .closed so
  else match t.type, t.pcb with
    | .stream, some (.tcp .listen) => q.insert .accept so
    | .stream, some (.tcp .established) => q.insert .read so
    | .stream, some (.tcp _) => q
    | _, _ => q.insert .read so

def sockWriteSpace (q : ReadyQueues) (so : SocketPtr) : ReadyQueues :=
  let t := q.stack.sock so
  if t.disconnected then q.insert .closed so
  else match t.type, t.pcb with
    | .stream, some (.tcp .established) => if t.writable then q.insert .write so else q
    | .stream, some (.tcp _) => q
    | _, _ => if t.writable then q.insert .write so else q

def sowakeup (q : ReadyQueues) (so : SocketPtr) : ReadyQueues :=
  if (q.stack.sock so).upcall2 then (q.sockReadable so).sockWriteSpace so else q

def occur (q : ReadyQueues) : GlueEvent → ReadyQueues
  | .stack t => { q with
      stack := { t with
        sock := fun so => { t.sock so with present := (q.stack.sock so).present }
        lists := q.stack.lists } }
  | .sowakeup so => q.sowakeup so

def occurs (q : ReadyQueues) (es : List GlueEvent) : ReadyQueues := es.foldl occur q

def unlink (q : ReadyQueues) (k : ReadyList) (so : SocketPtr) : ReadyQueues :=
  { q with stack := q.stack.unlink k so }

def remove (q : ReadyQueues) (k : ReadyList) (so : SocketPtr) : ReadyQueues :=
  { q with stack := q.stack.remove k so }

/-- The loops over the closed and the accepting sockets: the callback comes first, and the rounds
are not counted. -/
def drain (k : ReadyList) (callback : Nat → List GlueEvent) : Nat → ReadyQueues →
    Option ReadyQueues
  | 0, _ => none
  | fuel + 1, q =>
    match q.stack.lists k with
    | [] => some q
    | so :: _ => ((q.occurs (callback fuel)).unlink k so).drain k callback fuel

def serveFirst (q : ReadyQueues) (k : ReadyList) (so : SocketPtr) (callback : List GlueEvent) :
    ReadyQueues :=
  let q := (q.unlink k so).occurs callback
  { q with queueLen := Function.update q.queueLen k (q.queueLen k - 1) }

/-- The loops over the readable and the writable sockets, with `left` rounds below the limit.
Returns the sockets that were served, too. -/
def serve (k : ReadyList) (callback : Nat → List GlueEvent) : Nat → ReadyQueues →
    List SocketPtr × ReadyQueues
  | 0, q => ([], q)
  | left + 1, q =>
    match q.stack.lists k with
    | [] => ([], q)
    | so :: _ =>
      let r := (q.serveFirst k so (callback left)).serve k callback left
      (so :: r.1, r.2)

/-- `process_rx_ready_sockets` up to the loop over the readable sockets. -/
def processClosedAndAccept (q : ReadyQueues) (fuel : Nat)
    (onClosure onAccept : Nat → List GlueEvent) : Option ReadyQueues := do
  let q ← q.drain .closed onClosure fuel
  q.drain .accept onAccept fuel

def processRxReadySockets (q : ReadyQueues) (fuel : Nat)
    (onClosure onAccept dataAvailable : Nat → List GlueEvent) :
    Option (List SocketPtr × ReadyQueues) := do
  let q ← q.processClosedAndAccept fuel onClosure onAccept
  return q.serve .read dataAvailable (q.queueLen .read)

def processTxReadySockets (q : ReadyQueues) (opportunity : Nat → List GlueEvent) :
    List SocketPtr × ReadyQueues :=
  q.serve .write opportunity (q.queueLen .write)

/-- `app_glue_close_socket`; `accepting` is what its loop over the accept queue does, and `closing`
what `soclose` does. -/
def closeSocket (q : ReadyQueues) (so : SocketPtr) (accepting closing : List GlueEvent) :
    ReadyQueues :=
  let q := (q.remove .read so).remove .write so
  let q := if (q.stack.sock so).present .accept then (q.occurs accepting).unlink .accept so else q
  (q.remove .closed so).occurs closing

end ReadyQueues

inductive GlueAction
  | occur (e : GlueEvent)
  | processRx (fuel : Nat) (onClosure onAccept dataAvailable : Nat → List GlueEvent)
  | processTx (opportunity : Nat → List GlueEvent)
  | close (so : SocketPtr) (accepting closing : List GlueEvent)

def glueStep (q : ReadyQueues) : GlueAction → Option ReadyQueues
  | .occur e => some (q.occur e)
  | .processRx fuel onClosure onAccept dataAvailable => do
    let r ← q.processRxReadySockets fuel onClosure onAccept dataAvailable
    return r.2
  | .processTx opportunity => some (q.processTxReadySockets opportunity).2
  | .close so accepting closing => some (q.closeSocket so accepting closing)

/-- A socket is closed only while it is on neither of the two lists. -/
def ClosedOffList (q : ReadyQueues) : GlueAction → Prop
  | .close so _ _ => (q.stack.sock so).present .read = false ∧
      (q.stack.sock so).present .write = false
  | _ => True

instance (q : ReadyQueues) (a : GlueAction) : Decidable (ClosedOffList q a) := by
  cases a <;> unfold ClosedOffList <;> infer_instance

namespace ReadyQueues

def Counted (q : ReadyQueues) : Prop :=
  ∀ k, k.counted = true → q.queueLen k = (q.stack.lists k).length

/-- A pass serves the sockets on the list when its loop begins, whatever the callbacks put there. -/
structure ServesListed (q : ReadyQueues) : Prop where
  rx : ∀ fuel onClosure onAccept dataAvailable r,
    q.processRxReadySockets fuel onClosure onAccept dataAvailable = some r →
    ∃ u, q.processClosedAndAccept fuel onClosure onAccept = some u ∧ r.1 = u.stack.lists .read
  tx : ∀ opportunity, (q.processTxReadySockets opportunity).1 = q.stack.lists .write

def Listed (q : ReadyQueues) : Prop :=
  ∀ k so, (q.stack.sock so).present k = true → so ∈ q.stack.lists k

/-- `d k` sockets too many are counted for the list `k`. -/
def Excess (d : ReadyList → Nat) (q : ReadyQueues) : Prop :=
  ∀ k, k.counted = true → q.queueLen k = (q.stack.lists k).length + d k

end ReadyQueues

open ReadyQueues

/-! Wakeups put sockets at the end of a list and count them. -/

structure Grown (q r : ReadyQueues) : Prop where
  grows : ∀ k, k.counted = true → ∃ xs, r.stack.lists k = q.stack.lists k ++ xs ∧
    r.queueLen k = q.queueLen k + xs.length
  listed : q.Listed → r.Listed

namespace Grown

variable {q r u : ReadyQueues} {k : ReadyList} {so : SocketPtr} {d : ReadyList → Nat}

theorem refl (q : ReadyQueues) : Grown q q :=
  ⟨fun _ _ => ⟨[], by simp, rfl⟩, id⟩

theorem trans (h : Grown q r) (h' : Grown r u) : Grown q u := by
  refine ⟨fun k hk => ?_, fun hl => h'.listed (h.listed hl)⟩
  obtain ⟨xs, hxs, hlen⟩ := h.grows k hk
  obtain ⟨ys, hys, hlen'⟩ := h'.grows k hk
  refine ⟨xs ++ ys, by rw [hys, hxs, append_assoc], ?_⟩
  rw [hlen', hlen, length_append, Nat.add_assoc]

theorem excess (h : Grown q r) (hq : q.Excess d) : r.Excess d := by
  intro k hk
  obtain ⟨xs, hxs, hlen⟩ := h.grows k hk
  rw [hlen, hxs, hq k hk, length_append]
  omega

theorem setPresent_iff (s : SocketStack) (k j : ReadyList) (so so' : SocketPtr) (b : Bool) :
    ((s.setPresent k so b).sock so').present j =
      if so' = so ∧ j = k then b else (s.sock so').present j := by
  by_cases hso : so' = so <;> by_cases hj : j = k <;>
    simp [setPresent, SocketStack.modify, hso, hj]

theorem insert (q : ReadyQueues) (k : ReadyList) (so : SocketPtr) : Grown q (q.insert k so) := by
  cases hp : (q.stack.sock so).present k with
  | true =>
    have heq : q.insert k so = q := by
      simp [ReadyQueues.insert, SocketStack.insert, hp]
    rw [heq]
    exact refl q
  | false =>
    have hlists j : (q.insert k so).stack.lists j =
        q.stack.lists j ++ if j = k then [so] else [] := by
      by_cases hj : j = k
      · subst hj
        simp [ReadyQueues.insert, SocketStack.insert, hp, setPresent, SocketStack.modify]
      · simp [ReadyQueues.insert, SocketStack.insert, hp, setPresent, SocketStack.modify, hj]
    constructor
    · intro j hj
      refine ⟨_, hlists j, ?_⟩
      by_cases hjk : j = k
      · subst hjk
        simp [ReadyQueues.insert, hp, hj]
      · simp only [ReadyQueues.insert, hjk, if_false, length_nil, Nat.add_zero]
        split
        · rw [update_of_ne hjk]
        · rfl
    · intro hl j so' hj
      have hj' : ((q.stack.setPresent k so true).sock so').present j = true := by
        simpa [ReadyQueues.insert, SocketStack.insert, hp] using hj
      rw [setPresent_iff] at hj'
      rw [hlists]
      split at hj'
      next hself => simp [hself]
      next => exact mem_append_left _ (hl j so' hj')

theorem sockReadable (q : ReadyQueues) (so : SocketPtr) : Grown q (q.sockReadable so) := by
  unfold ReadyQueues.sockReadable
  dsimp only
  split
  · exact insert q _ so
  · split
    · exact insert q _ so
    · exact insert q _ so
    · exact refl q
    · exact insert q _ so

theorem sockWriteSpace (q : ReadyQueues) (so : SocketPtr) : Grown q (q.sockWriteSpace so) := by
  have hwrite (b : Bool) : Grown q (if b then q.insert .write so else q) := by
    cases b with
    | true => exact insert q _ so
    | false => exact refl q
  unfold ReadyQueues.sockWriteSpace
  dsimp only
  split
  · exact insert q _ so
  · split
    · exact hwrite _
    · exact refl q
    · exact hwrite _

theorem occur (q : ReadyQueues) (e : GlueEvent) : Grown q (q.occur e) := by
  cases e with
  | stack t => exact ⟨fun _ _ => ⟨[], by simp [ReadyQueues.occur], rfl⟩, id⟩
  | sowakeup so =>
    unfold ReadyQueues.occur ReadyQueues.sowakeup
    dsimp only
    split
    · exact (sockReadable q so).trans (sockWriteSpace _ so)
    · exact refl q

theorem occurs (q : ReadyQueues) (es : List GlueEvent) : Grown q (q.occurs es) := by
  induction es generalizing q with
  | nil => exact refl q
  | cons e es ih => exact (occur q e).trans (ih (q.occur e))

end Grown

namespace ReadyQueues

variable {q r : ReadyQueues} {k : ReadyList} {so : SocketPtr} {d : ReadyList → Nat}

theorem unlink_lists_of_ne {j : ReadyList} (hj : j ≠ k) :
    (q.unlink k so).stack.lists j = q.stack.lists j := by
  simp [unlink, SocketStack.unlink, hj, setPresent, SocketStack.modify]

theorem unlink_lists_self : (q.unlink k so).stack.lists k = (q.stack.lists k).erase so := by
  simp [unlink, SocketStack.unlink, setPresent, SocketStack.modify]

theorem Listed.unlink (h : q.Listed) (k : ReadyList) (so : SocketPtr) : (q.unlink k so).Listed := by
  intro j so' hj
  have hj' : ((q.stack.setPresent k so false).sock so').present j = true := hj
  rw [Grown.setPresent_iff] at hj'
  split at hj'
  next => cases hj'
  next hne =>
    have hmem := h j so' hj'
    by_cases hjk : j = k
    · subst hjk
      have hso : so' ≠ so := fun heq => hne ⟨heq, rfl⟩
      rw [unlink_lists_self]
      exact (mem_erase_of_ne hso).mpr hmem
    · rwa [unlink_lists_of_ne hjk]

theorem grown_unlink (hk : k.counted = false) (q : ReadyQueues) (so : SocketPtr) :
    Grown q (q.unlink k so) := by
  refine ⟨fun j hj => ⟨[], ?_, rfl⟩, fun hl => hl.unlink k so⟩
  have hjk : j ≠ k := by
    rintro rfl
    simp [hk] at hj
  rw [unlink_lists_of_ne hjk, append_nil]

theorem grown_drain (hk : k.counted = false) {callback : Nat → List GlueEvent} {fuel : Nat}
    (h : q.drain k callback fuel = some r) : Grown q r := by
  induction fuel generalizing q with
  | zero => cases h
  | succ fuel ih =>
    rw [drain] at h
    split at h
    · cases h
      exact Grown.refl _
    · exact ((Grown.occurs q _).trans (grown_unlink hk _ _)).trans (ih h)

theorem grown_processClosedAndAccept {fuel : Nat} {onClosure onAccept : Nat → List GlueEvent}
    (h : q.processClosedAndAccept fuel onClosure onAccept = some r) : Grown q r := by
  obtain ⟨u, hu, hr⟩ := Option.bind_eq_some_iff.mp h
  exact (grown_drain rfl hu).trans (grown_drain rfl hr)

/-! A pass takes from the front what it serves. -/

section Serve

variable {rest : List SocketPtr} {es : List GlueEvent}

theorem serveFirst_lists (es : List GlueEvent) (hk : k.counted = true)
    (hq : q.stack.lists k = so :: rest) :
    ∃ xs, (q.serveFirst k so es).stack.lists k = rest ++ xs := by
  obtain ⟨xs, hxs, -⟩ := (Grown.occurs (q.unlink k so) es).grows k hk
  refine ⟨xs, hxs.trans ?_⟩
  rw [unlink_lists_self, hq, erase_cons_head]

theorem Excess.serveFirst (h : q.Excess d) (hk : k.counted = true)
    (hq : q.stack.lists k = so :: rest) : (q.serveFirst k so es).Excess d := by
  intro j hj
  obtain ⟨xs, hxs, hlen⟩ := (Grown.occurs (q.unlink k so) es).grows j hj
  have hcount : ((q.unlink k so).occurs es).queueLen j =
      (q.stack.lists j).length + d j + xs.length := by
    rw [hlen, ← h j hj]
    rfl
  by_cases hjk : j = k
  · subst hjk
    rw [unlink_lists_self, hq, erase_cons_head] at hxs
    rw [hq, length_cons] at hcount
    simp only [ReadyQueues.serveFirst, update_self, hxs, hcount, length_append]
    omega
  · rw [unlink_lists_of_ne hjk] at hxs
    simp only [ReadyQueues.serveFirst, update_of_ne hjk, hxs, hcount, length_append]
    omega

theorem Listed.serveFirst (h : q.Listed) : (q.serveFirst k so es).Listed :=
  (Grown.occurs _ es).listed (h.unlink k so)

/-- The callbacks only add at the end, so the front of the list is served as it was. -/
theorem serve_visits (hk : k.counted = true) {callback : Nat → List GlueEvent}
    {xs ys : List SocketPtr} (hq : q.stack.lists k = xs ++ ys) :
    (q.serve k callback xs.length).1 = xs := by
  induction xs generalizing q ys with
  | nil => rfl
  | cons so xs ih =>
    rw [cons_append] at hq
    rw [length_cons, serve, hq]
    obtain ⟨zs, hzs⟩ := serveFirst_lists (callback xs.length) hk hq
    rw [append_assoc] at hzs
    exact congrArg (so :: ·) (ih hzs)

theorem serve_keeps (hk : k.counted = true) (callback : Nat → List GlueEvent) (left : Nat)
    (h : q.Excess d) (hl : q.Listed) :
    (q.serve k callback left).2.Excess d ∧ (q.serve k callback left).2.Listed := by
  induction left generalizing q with
  | zero => exact ⟨h, hl⟩
  | succ left ih =>
    rw [serve]
    split
    next => exact ⟨h, hl⟩
    next so rest hq => exact ih (h.serveFirst hk hq) hl.serveFirst

end Serve

/-! A close takes the socket off its lists. -/

theorem remove_queueLen (q : ReadyQueues) (k : ReadyList) (so : SocketPtr) :
    (q.remove k so).queueLen = q.queueLen := rfl

theorem remove_cases (q : ReadyQueues) (k : ReadyList) (so : SocketPtr) :
    (q.stack.sock so).present k = false ∧ q.remove k so = q ∨
      (q.stack.sock so).present k = true ∧ q.remove k so = q.unlink k so := by
  cases h : (q.stack.sock so).present k <;>
    simp [remove, unlink, SocketStack.remove, h]

theorem remove_present (q : ReadyQueues) {k j : ReadyList} (hj : j ≠ k) (so : SocketPtr) :
    ((q.remove k so).stack.sock so).present j = (q.stack.sock so).present j := by
  rcases q.remove_cases k so with ⟨-, heq⟩ | ⟨-, heq⟩
  · rw [heq]
  · rw [heq]
    exact (Grown.setPresent_iff ..).trans (if_neg fun h => hj h.2)

theorem Listed.remove (h : q.Listed) : (q.remove k so).Listed := by
  rcases q.remove_cases k so with ⟨-, heq⟩ | ⟨-, heq⟩
  · rwa [heq]
  · rw [heq]
    exact h.unlink k so

theorem Excess.remove (h : q.Excess d) (hl : q.Listed) (k : ReadyList) (so : SocketPtr) :
    (q.remove k so).Excess
      (update d k (d k + if (q.stack.sock so).present k then 1 else 0)) := by
  intro j hj
  rw [remove_queueLen, h j hj]
  rcases q.remove_cases k so with ⟨hp, heq⟩ | ⟨hp, heq⟩
  · rw [heq, hp]
    simp
  · rw [heq, hp]
    by_cases hjk : j = k
    · subst hjk
      have hmem := hl j so hp
      have hpos := length_pos_of_mem hmem
      rw [unlink_lists_self, length_erase_of_mem hmem]
      simp only [update_self, if_true]
      omega
    · rw [unlink_lists_of_ne hjk, update_of_ne hjk]

theorem grown_remove (hk : k.counted = false) (q : ReadyQueues) (so : SocketPtr) :
    Grown q (q.remove k so) := by
  rcases q.remove_cases k so with ⟨-, heq⟩ | ⟨-, heq⟩
  · rw [heq]
    exact Grown.refl q
  · rw [heq]
    exact grown_unlink hk q so

theorem grown_closeSocket (q : ReadyQueues) (so : SocketPtr) (accepting closing : List GlueEvent) :
    Grown ((q.remove .read so).remove .write so) (q.closeSocket so accepting closing) := by
  refine Grown.trans ?_ ((grown_remove rfl _ so).trans (Grown.occurs _ closing))
  split
  · exact (Grown.occurs _ accepting).trans (grown_unlink rfl _ so)
  · exact Grown.refl _

theorem closeSocket_excess (h : q.Counted) (hl : q.Listed) (so : SocketPtr)
    (accepting closing : List GlueEvent) :
    (q.closeSocket so accepting closing).Excess
      fun k => if k.counted && (q.stack.sock so).present k then 1 else 0 := by
  have hq : q.Excess fun _ => 0 := h
  have hremoved := (hq.remove hl .read so).remove hl.remove .write so
  have hgrown := (grown_closeSocket q so accepting closing).excess hremoved
  intro k hk
  refine (hgrown k hk).trans (congrArg _ ?_)
  rw [remove_present q (by decide)]
  cases k with
  | read => simp [ReadyList.counted]
  | write => simp [ReadyList.counted]
  | accept | closed | waiter => cases hk

end ReadyQueues

/-! Runs. -/

section Runs

variable {q r : ReadyQueues} {a : GlueAction}

theorem glueStep_keeps (h : q.Counted) (hl : q.Listed) (hstep : glueStep q a = some r) :
    r.Listed ∧ (r.Counted ↔ ClosedOffList q a) := by
  have hq : q.Excess fun _ => 0 := h
  cases a with
  | occur e =>
    cases hstep
    have hgrown := Grown.occur q e
    exact ⟨hgrown.listed hl, iff_of_true (hgrown.excess hq) trivial⟩
  | processRx fuel onClosure onAccept dataAvailable =>
    obtain ⟨p, hp, hr⟩ := looked_eq_some.mp hstep
    obtain ⟨u, hu, rfl⟩ := looked_eq_some.mp hp
    have hgrown := grown_processClosedAndAccept hu
    obtain ⟨hexcess, hlisted⟩ := serve_keeps (k := .read) rfl dataAvailable
      (u.queueLen .read) (hgrown.excess hq) (hgrown.listed hl)
    subst hr
    exact ⟨hlisted, iff_of_true hexcess trivial⟩
  | processTx opportunity =>
    cases hstep
    obtain ⟨hexcess, hlisted⟩ := serve_keeps (k := .write) rfl opportunity
      (q.queueLen .write) hq hl
    exact ⟨hlisted, iff_of_true hexcess trivial⟩
  | close so accepting closing =>
    cases hstep
    refine ⟨(grown_closeSocket q so accepting closing).listed hl.remove.remove, ?_⟩
    have hexcess := closeSocket_excess h hl so accepting closing
    constructor
    · intro hcounted
      have hoff {k : ReadyList} (hk : k.counted = true) : (q.stack.sock so).present k = false := by
        have hcount := (hcounted k hk).symm.trans (hexcess k hk)
        by_contra hp
        simp [hk, hp] at hcount
      exact ⟨hoff rfl, hoff rfl⟩
    · rintro ⟨hread, hwrite⟩ k hk
      rw [hexcess k hk]
      cases k with
      | read => simp [hread]
      | write => simp [hwrite]
      | accept | closed | waiter => cases hk

theorem servesListed_of_counted (h : q.Counted) : q.ServesListed := by
  have hserve {u : ReadyQueues} (hu : u.Counted) {k : ReadyList} (hk : k.counted = true)
      (callback : Nat → List GlueEvent) :
      (u.serve k callback (u.queueLen k)).1 = u.stack.lists k := by
    rw [hu k hk]
    exact serve_visits hk (append_nil _).symm
  constructor
  · intro fuel onClosure onAccept dataAvailable p hp
    obtain ⟨u, hu, rfl⟩ := looked_eq_some.mp hp
    have hcounted : u.Counted := (grown_processClosedAndAccept hu).excess (d := fun _ => 0) h
    exact ⟨u, hu, hserve hcounted rfl dataAvailable⟩
  · exact hserve h rfl

theorem counted_of_run {as : List GlueAction} (hrun : Run glueStep ClosedOffList .start as q) :
    q.Counted ∧ q.Listed := by
  refine hrun.invariant (I := fun q => q.Counted ∧ q.Listed) ?_ ⟨?_, ?_⟩
  · rintro q a r ⟨h, hl⟩ hoff hstep
    obtain ⟨hlisted, hiff⟩ := glueStep_keeps h hl hstep
    exact ⟨hiff.mpr hoff, hlisted⟩
  · intro k _
    rfl
  · intro k so hp
    simp [ReadyQueues.start, SocketStack.start] at hp

/-- Unless a socket is closed on its list, the counters are right and a pass serves the list. -/
theorem readyQueues_of_run {as : List GlueAction}
    (hrun : Run glueStep ClosedOffList .start as q) :
    q.Counted ∧ q.ServesListed ∧
      ∀ a r, glueStep q a = some r → (r.Counted ↔ ClosedOffList q a) := by
  obtain ⟨h, hl⟩ := counted_of_run hrun
  exact ⟨h, servesListed_of_counted h, fun a r hstep => (glueStep_keeps h hl hstep).2⟩

def twoReadable : List GlueAction :=
  [.occur (.stack { SocketStack.start with
    sock := fun _ => { live := true, type := .dgram, pcb := some .udp, upcall2 := true } }),
    .occur (.sowakeup 1), .occur (.sowakeup 2)]

def wakesAgain (left : Nat) : List GlueEvent := if left = 2 then [.sowakeup 2] else []

theorem readyQueues_of_run_closed : ∃ q,
    Run glueStep ClosedOffList .start
      (twoReadable ++ [.processRx 1 wakesAgain wakesAgain (fun _ => []), .close 1 [] []]) q ∧
    q.queueLen .read = 0 ∧ q.Counted ∧ q.ServesListed := by
  refine Run.exists_and_of_runActions (by decide) fun q hrun _ => ?_
  obtain ⟨hcounted, hserves, -⟩ := readyQueues_of_run hrun
  exact ⟨hcounted, hserves⟩

/-- Socket 1 is closed while it is on the list; `sorflush` in `soclose` wakes it up, as in the model
of the stack. Three sockets are counted where there are two, and a pass serves socket 2 again. -/
theorem closed_socket_stays_counted : ∃ q, Run glueStep ClosedOffList .start twoReadable q ∧
    (q.stack.closeSocket 1).map (fun s => s.lists .read) = some [2, 1] ∧
    (q.closeSocket 1 [] [.sowakeup 1]).stack.lists .read = [2, 1] ∧
    (q.closeSocket 1 [] [.sowakeup 1]).queueLen .read = 3 ∧
    ((q.closeSocket 1 [] [.sowakeup 1]).processRxReadySockets 1 (fun _ => []) (fun _ => [])
      wakesAgain).map Prod.fst = some [2, 1, 2] :=
  Run.exists_of_runActions (by decide)

end Runs

end NetbsdDpdk
