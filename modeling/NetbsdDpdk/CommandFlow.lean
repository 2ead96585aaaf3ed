import NetbsdDpdk.Conservation
import NetbsdDpdk.CommandSystem

/-! What a step of the command system moves: buffers, connections and slots lie in places, and
every step is a flow between them. The tokens it loses and the tokens it adds are written down
once; which of them can be lost, and when, is left to the results that need it. -/

namespace NetbsdDpdk

open List Fifo ServiceState Function

inductive Token
  | buf (b : Nat)
  | conn (so : SocketPtr)
  | slot (i : Slot)
  deriving DecidableEq

inductive CommandPlace
  | pool
  | ring
  | rx (i : Slot)
  | hand (t : Thread)
  | free
  | bound (i : Slot)
  | queue (so : SocketPtr)
  deriving DecidableEq

def ServiceCmd.tokens : ServiceCmd → List Token
  | .openSocket i _ _ _ => [.slot i]
  | .setSocketRing i _ so _ => [.conn so, .slot i]
  | .decline so => [.conn so]
  | _ => []

theorem Token.mem_filterMap_iff {α : Type} {f : Token → Option α} {mk : α → Token}
    (hf : ∀ x a, f x = some a ↔ x = mk a) {xs : List Token} {a : α} :
    a ∈ xs.filterMap f ↔ mk a ∈ xs := by
  simp [mem_filterMap, hf]

theorem Token.filterMap_flatMap_eq {α β : Type} {f : Token → Option β} {tokens : α → List Token}
    {g : α → Option β} (h : ∀ x, (tokens x).filterMap f = (g x).toList) (xs : List α) :
    (xs.flatMap tokens).filterMap f = xs.filterMap g := by
  rw [filterMap_flatMap, funext h, filterMap_eq_flatMap_toList]

def RxItem.tokens : RxItem → List Token
  | .data _ => []
  | .accepted b so _ _ => [.buf b, .conn so]

def Pc.tokens : Pc → List Token
  | .next _ => []
  | .wants cmd => cmd.tokens
  | .filled b cmd => .buf b :: cmd.tokens
  | .releasing b _ => [.buf b]
  | .accepting b so => [.buf b, .conn so]
  | .announcing so _ _ => [.conn so]
  | .posting b so _ _ => [.buf b, .conn so]
  | .processing b cmd => .buf b :: cmd.tokens

def commandTokens (items : List (Nat × ServiceCmd)) : List Token :=
  items.flatMap fun item => .buf item.1 :: item.2.tokens

def boundTokens (i : Slot) : Option SocketPtr → List Token
  | none => []
  | some so => [.conn so, .slot i]

namespace CommandState

def contents (s : CommandState) : CommandPlace → List Token
  | .pool => s.chan.pool.map .buf
  | .ring => commandTokens s.chan.ring.items
  | .rx i => (s.rx i).items.flatMap RxItem.tokens
  | .hand t => (s.pc t).tokens
  | .free => s.freeConnections.items.map .slot
  | .bound i => boundTokens i (s.sat i)
  | .queue so => (s.sock so).queue.map .conn

section Contents

variable (s : CommandState)

theorem contents_setPc (t : Thread) (pc : Pc) :
    (s.setPc t pc).contents = update s.contents (.hand t) pc.tokens := by
  funext p
  cases p with
  | hand t' =>
    by_cases ht : t' = t
    · subst ht
      simp [contents, setPc]
    · simp [contents, setPc, ht]
  | _ => simp [contents, setPc]

theorem contents_setRx (i : Slot) (rx : Fifo (dataRingsSize - 1) RxItem) :
    (s.setRx i rx).contents =
      update s.contents (.rx i) (rx.items.flatMap RxItem.tokens) := by
  funext p
  cases p with
  | rx j =>
    by_cases hj : j = i
    · subst hj
      simp [contents, setRx]
    · simp [contents, setRx, hj]
  | _ => simp [contents, setRx]

theorem contents_setSat (i : Slot) (so : Option SocketPtr) :
    (s.setSat i so).contents = update s.contents (.bound i) (boundTokens i so) := by
  funext p
  cases p with
  | bound j =>
    by_cases hj : j = i
    · subst hj
      simp [contents, setSat]
    · simp [contents, setSat, hj]
  | _ => simp [contents, setSat]

theorem contents_modifySock (so : SocketPtr) (f : AcceptSocket → AcceptSocket) :
    (s.modifySock so f).contents =
      update s.contents (.queue so) ((f (s.sock so)).queue.map .conn) := by
  funext p
  cases p with
  | queue so' =>
    by_cases hso : so' = so
    · subst hso
      simp [contents, modifySock]
    · simp [contents, modifySock, hso]
  | _ => simp [contents, modifySock]

theorem contents_setPool (pool : List Nat) :
    { s with chan := { s.chan with pool } }.contents =
      update s.contents .pool (pool.map .buf) := by
  funext p
  cases p <;> simp [contents]

theorem contents_setRing (ring : Fifo (commandPoolSize - 1) (Nat × ServiceCmd)) :
    { s with chan := { s.chan with ring } }.contents =
      update s.contents .ring (commandTokens ring.items) := by
  funext p
  cases p <;> simp [contents]

theorem contents_setFree (freeConnections : Fifo (connectionPoolSize - 1) Slot) :
    { s with freeConnections }.contents =
      update s.contents .free (freeConnections.items.map .slot) := by
  funext p
  cases p <;> simp [contents]

theorem contents_setCache (a : Nat) (i : Slot) (cache : Fifo 63 RxItem) :
    (s.setCache a i cache).contents = s.contents := by
  funext p
  cases p <;> rfl

theorem contents_taking (use : RxUse) (i : Slot) (items : List RxItem) :
    (s.taking use i items).contents = s.contents := by
  funext p
  cases p <;> rfl

theorem contents_modifySock_of_queue {so : SocketPtr} {f : AcceptSocket → AcceptSocket}
    (hqueue : (f (s.sock so)).queue = (s.sock so).queue) :
    (s.modifySock so f).contents = s.contents := by
  rw [contents_modifySock, hqueue]
  exact Function.update_eq_self _ _

theorem contents_endQueue (present : Bool) (sos : List SocketPtr) :
    (s.endQueue present sos).contents = s.contents := by
  induction sos generalizing s with
  | nil => rfl
  | cons so sos ih =>
    rw [endQueue, ih]
    apply contents_modifySock_of_queue
    split <;> rfl

theorem contents_closeSocket (so : SocketPtr) :
    (s.closeSocket so).contents = update s.contents (.queue so) [] := by
  rw [closeSocket, contents_modifySock, contents_endQueue]
  rfl

end Contents

def refilled (s : CommandState) (a : Nat) (i : Slot) : List RxItem :=
  (s.rx i).items.take
    ((s.rx i).count - (ServiceState.dequeueRings (s.cache a i) (s.rx i)).2.2.count)

def performLost (s : CommandState) (created : Option SocketPtr) : ServiceCmd → List Token
  | .openSocket i _ _ _ =>
    match created with
    | none => [.slot i]
    | some so => s.contents (.bound i) ++ s.contents (.queue so)
  | .setSocketRing i _ _ _ => s.contents (.bound i)
  | .close i =>
    match s.sat i with
    | none => []
    | some so =>
      .conn so :: s.contents (.queue so) ++
        if s.freeConnections.count < connectionPoolSize - 1 then [] else [.slot i]
  | .decline so => .conn so :: s.contents (.queue so)
  | _ => []

def performNew (created : Option SocketPtr) : ServiceCmd → List Token
  | .openSocket .. => created.toList.map .conn
  | _ => []

def lost (s : CommandState) : CommandAction → List Token
  | .get t =>
    match s.pc t, s.chan.pool with
    | .wants cmd, [] => cmd.tokens
    | .announcing so _ _, [] => [.conn so]
    | _, _ => []
  | .enqueue t =>
    match s.pc t with
    | .filled b cmd =>
      if s.chan.ring.count < commandPoolSize - 1 then []
      else if cmd.isUnchecked then .buf b :: cmd.tokens else cmd.tokens
    | _ => []
  | .receive a i => (s.refilled a i).flatMap RxItem.tokens
  | .flush a =>
    match s.pc (.app a) with
    | .next (.flush i) => s.contents (.rx i)
    | _ => []
  | .perform created _ =>
    match s.pc .server with
    | .processing _ cmd => s.performLost created cmd
    | _ => []
  | .post =>
    match s.pc .server with
    | .posting _ so l _ => if (s.rx l).count < dataRingsSize - 1 then [] else [.conn so]
    | _ => []
  | .newconn _ so2 _ _ => s.contents (.queue so2)
  | .gone so => s.contents (.queue so)
  | _ => []

def new (s : CommandState) : CommandAction → List Token
  | .perform created _ =>
    match s.pc .server with
    | .processing _ cmd => performNew created cmd
    | _ => []
  | .newconn _ so2 _ _ => [.conn so2]
  | _ => []

section Flows

variable {s t : CommandState} {th : Thread} {pc : Pc} {gone added : List Token}

theorem flow_setPc (hcount : ∀ x, (s.pc th).tokens.count x + added.count x =
    pc.tokens.count x + gone.count x) :
    Flow gone added s.contents (s.setPc th pc).contents := by
  rw [contents_setPc]
  apply (Flow.update _ _ _).balance
  intro x
  have := hcount x
  simp only [contents]
  omega

theorem flow_then_setPc {u : CommandState} {gone' added' : List Token}
    (hu : Flow gone' added' s.contents u.contents) (hpc : u.pc th = s.pc th)
    (hcount : ∀ x, added'.count x + pc.tokens.count x + gone.count x =
      added.count x + gone'.count x + (s.pc th).tokens.count x) :
    Flow gone added s.contents (u.setPc th pc).contents := by
  rw [contents_setPc]
  apply (hu.trans (Flow.update u.contents _ _)).balance
  intro x
  have := hcount x
  simp only [count_append, contents, hpc]
  omega

theorem flow_place_setPc {u : CommandState} {p : CommandPlace} {items : List Token}
    (hu : u.contents = update s.contents p items) (hpc : u.pc th = s.pc th)
    (hcount : ∀ x, (s.contents p).count x + (s.pc th).tokens.count x + added.count x =
      items.count x + pc.tokens.count x + gone.count x) :
    Flow gone added s.contents (u.setPc th pc).contents := by
  have hfirst : Flow (s.contents p) items s.contents u.contents := by
    rw [hu]
    exact Flow.update s.contents p items
  apply flow_then_setPc hfirst hpc
  intro x
  have := hcount x
  omega

theorem dequeueRings_rx (cache : Fifo 63 RxItem) (rx : Fifo (dataRingsSize - 1) RxItem) :
    ∃ k, (dequeueRings cache rx).2.2.items = rx.items.drop k := by
  unfold dequeueRings refillRings
  cases cache.dequeue with
  | some p => exact ⟨_, rfl⟩
  | none =>
    dsimp only
    split <;> exact ⟨_, rfl⟩

theorem refilled_append (s : CommandState) (a : Nat) (i : Slot) :
    s.refilled a i ++ (dequeueRings (s.cache a i) (s.rx i)).2.2.items =
      (s.rx i).items := by
  obtain ⟨k, hk⟩ := dequeueRings_rx (s.cache a i) (s.rx i)
  unfold refilled Fifo.count
  rw [hk]
  rcases Nat.le_total k (s.rx i).items.length with hle | hge
  · have hlen : (s.rx i).items.length - ((s.rx i).items.drop k).length = k := by
      rw [length_drop]
      omega
    rw [hlen, take_append_drop]
  · rw [drop_eq_nil_of_le hge]
    simp

theorem receive_eq (s : CommandState) (a : Nat) (i : Slot) :
    s.receive a i =
      (((s.setRx i (dequeueRings (s.cache a i) (s.rx i)).2.2).setCache a i
        (dequeueRings (s.cache a i) (s.rx i)).2.1).taking .packet i
          (s.refilled a i ++ (dequeueRings (s.cache a i) (s.rx i)).1.toList)).setPc
            (.app a) (.wants (.rxKick i)) := rfl

theorem contents_flow_of_eq (h : t.contents = s.contents) : Flow [] [] s.contents t.contents :=
  Flow.refl fun p => congrFun h p

theorem endQueue_frame (present : Bool) (sos : List SocketPtr) (s : CommandState) :
    s.endQueue present sos = { s with sock := (s.endQueue present sos).sock } := by
  induction sos generalizing s with
  | nil => rfl
  | cons so sos ih =>
    rw [endQueue, ih]
    rfl

theorem closeSocket_frame (s : CommandState) (so : SocketPtr) :
    s.closeSocket so = { s with sock := (s.closeSocket so).sock } := by
  unfold closeSocket
  rw [endQueue_frame]
  rfl

inductive Performed (created : Option SocketPtr) (ok : Bool) (s : CommandState) :
    ServiceCmd → CommandState → Prop
  | same {cmd : ServiceCmd} (htokens : cmd.tokens = []) (hlost : s.performLost created cmd = [])
      (hnew : performNew created cmd = []) : Performed created ok s cmd s
  | failed {i : Slot} {parent : Option Selector} {type : SoType} {pid : Nat}
      (hcreated : created = none) : Performed created ok s (.openSocket i parent type pid) s
  | opened {i : Slot} {parent : Option Selector} {type : SoType} {pid : Nat} {so : SocketPtr}
      (hcreated : created = some so) : Performed created ok s (.openSocket i parent type pid)
        ((s.setSat i (some so)).modifySock so fun _ =>
          { used := true, connected := type = .dgram, glueingBlock := some i })
  | bound {i : Slot} {parent : Option Selector} {so : SocketPtr} {pid : Nat} :
      Performed created ok s (.setSocketRing i parent so pid)
        ((s.setSat i (some so)).modifySock so fun t => { t with glueingBlock := some i })
  | connected {i : Slot} {isConnect : Bool} {ipaddr port : Nat} {so : SocketPtr}
      (hsat : s.sat i = some so) : Performed created ok s (.connectBind i isConnect ipaddr port)
        (s.modifySock so fun t =>
          { t with connected := t.connected || isConnect && ok && !t.listening })
  | listening {i : Slot} {so : SocketPtr} (hsat : s.sat i = some so) :
      Performed created ok s (.listenSocket i)
        (s.modifySock so fun t => { t with listening := t.listening || ok && !t.connected })
  | closed {i : Slot} {so : SocketPtr} (hsat : s.sat i = some so) :
      Performed created ok s (.close i) { (s.closeSocket so).setSat i none with
        freeConnections := (s.freeConnections.enqueue i).getD s.freeConnections }
  | declined {so : SocketPtr} : Performed created ok s (.decline so) (s.closeSocket so)

theorem perform_cases {created : Option SocketPtr} {ok : Bool} {cmd : ServiceCmd}
    (h : s.perform created ok cmd = some t) : Performed created ok s cmd t := by
  cases cmd with
  | openSocket i parent type pid =>
    cases created with
    | none =>
      cases h
      exact .failed rfl
    | some so =>
      cases h
      exact .opened rfl
  | setSocketRing i parent so pid =>
    cases h
    exact .bound
  | decline so =>
    cases h
    exact .declined
  | close i =>
    simp only [perform] at h
    split at h
    · next hsat =>
      cases h
      exact .same rfl (by simp [performLost, hsat]) rfl
    · next so hsat =>
      cases h
      exact .closed hsat
  | connectBind i isConnect ipaddr port =>
    simp only [perform] at h
    split at h
    · cases h
      exact .same rfl rfl rfl
    · next so hsat =>
      cases h
      exact .connected hsat
  | listenSocket i =>
    simp only [perform] at h
    split at h
    · cases h
    · next so hsat =>
      cases h
      exact .listening hsat
  | setSocketSelect i select pid =>
    simp only [perform] at h
    split at h
    · cases h
    · cases h
      exact .same rfl rfl rfl
  | _ =>
    cases h
    exact .same rfl rfl rfl

theorem commandStep_perform {created : Option SocketPtr} {ok : Bool}
    (hstep : commandStep s (.perform created ok) = some t) :
    ∃ b cmd u, s.pc .server = .processing b cmd ∧ (∀ so ∈ created, (s.sock so).used = false) ∧
      Performed created ok s cmd u ∧ u.setPc .server (.releasing b .done) = t := by
  simp only [commandStep] at hstep
  split at hstep
  case h_2 => cases hstep
  case h_1 b cmd hpc =>
  obtain ⟨hcreated, hstep⟩ := guard_bind_eq_some.mp hstep
  obtain ⟨u, hu, rfl⟩ := looked_eq_some.mp hstep
  exact ⟨b, cmd, u, hpc, hcreated, perform_cases hu, rfl⟩

namespace Performed

variable {created : Option SocketPtr} {ok : Bool} {cmd : ServiceCmd}

theorem frame (h : Performed created ok s cmd t) :
    t = { s with sat := t.sat, sock := t.sock, freeConnections := t.freeConnections } := by
  cases h with
  | closed =>
    rw [closeSocket_frame]
    rfl
  | declined => rw [closeSocket_frame]
  | _ => rfl

theorem pc_eq (h : Performed created ok s cmd t) : t.pc = s.pc := by
  rw [h.frame]

theorem flow (h : Performed created ok s cmd t) :
    Flow (s.performLost created cmd) (performNew created cmd ++ cmd.tokens) s.contents
      t.contents := by
  cases h with
  | same htokens hlost hnew =>
    rw [htokens, hlost, hnew]
    exact contents_flow_of_eq rfl
  | failed hcreated =>
    subst hcreated
    apply (contents_flow_of_eq rfl).balance
    simp [performLost, performNew, ServiceCmd.tokens]
  | opened hcreated =>
    subst hcreated
    rw [contents_modifySock, contents_setSat]
    apply ((Flow.update _ _ _).trans (Flow.update _ _ _)).balance
    intro x
    simp [performLost, performNew, ServiceCmd.tokens, boundTokens, count_cons]
  | bound =>
    rw [contents_modifySock_of_queue _ rfl, contents_setSat]
    apply (Flow.update _ _ _).balance
    intro x
    simp [performLost, performNew, ServiceCmd.tokens, boundTokens]
  | connected | listening => exact contents_flow_of_eq (contents_modifySock_of_queue s rfl)
  | @closed i so hsat =>
    rw [contents_setFree ((s.closeSocket so).setSat i none), contents_setSat, contents_closeSocket]
    apply (((Flow.update _ _ _).trans (Flow.update _ _ _)).trans (Flow.update _ _ _)).balance
    intro x
    -- the slot comes from the command, and is lost if the ring of free slots is full
    cases hfree : s.freeConnections.enqueue i with
    | none =>
      have hfull := enqueue_eq_none_iff.mp hfree
      simp [performLost, performNew, ServiceCmd.tokens, boundTokens, contents, hsat, Fifo.count,
        hfull, count_cons]
      omega
    | some free =>
      obtain ⟨hroom, hitems⟩ := enqueue_eq_some_iff.mp hfree
      have hlt : s.freeConnections.count < 15 := hroom
      simp [performLost, performNew, ServiceCmd.tokens, boundTokens, contents, hsat, hlt,
        hitems, count_cons]
      omega
  | declined =>
    rw [contents_closeSocket]
    apply (Flow.update _ _ _).balance
    intro x
    simp [performLost, performNew, ServiceCmd.tokens, count_cons]
    omega

end Performed

inductive Stepped (s : CommandState) : CommandAction → CommandState → Prop
  | calls {a : Nat} {cmd : ServiceCmd} (hidle : s.pc (.app a) = .idle) (hcall : cmd.isCall = true) :
      Stepped s (.call a cmd) (s.setPc (.app a) (.wants cmd))
  | noSlot {a : Nat} {type : SoType} {parent : Option Selector}
      (hfree : s.freeConnections.items = []) : Stepped s (.openSocket a type parent) s
  | opens {a : Nat} {type : SoType} {parent : Option Selector} {i : Slot}
      {free : Fifo (connectionPoolSize - 1) Slot} (hidle : s.pc (.app a) = .idle)
      (hfree : s.freeConnections.items = i :: free.items) : Stepped s (.openSocket a type parent)
        ({ s with freeConnections := free }.setPc (.app a) (.wants (.openSocket i parent type a)))
  | unserved {th : Thread} {cmd : ServiceCmd} (hpc : s.pc th = .wants cmd)
      (hpool : s.chan.pool = []) : Stepped s (.get th) (s.setPc th .idle)
  | fills {th : Thread} {cmd : ServiceCmd} {b : Nat} {pool : List Nat} (hpc : s.pc th = .wants cmd)
      (hpool : s.chan.pool = b :: pool) : Stepped s (.get th)
        ({ s with chan := { s.chan with pool } }.setPc th (.filled b cmd))
  | unannounced {th : Thread} {so listener : SocketPtr} {l : Slot}
      (hpc : s.pc th = .announcing so l listener) (hpool : s.chan.pool = []) :
      Stepped s (.get th) (s.setPc th (.next (.acceptQueue listener)))
  | announces {th : Thread} {so listener : SocketPtr} {l : Slot} {b : Nat} {pool : List Nat}
      (hpc : s.pc th = .announcing so l listener) (hpool : s.chan.pool = b :: pool) :
      Stepped s (.get th)
        ({ s with chan := { s.chan with pool } }.setPc th (.posting b so l listener))
  | enqueues {th : Thread} {b : Nat} {cmd : ServiceCmd}
      {ring : Fifo (commandPoolSize - 1) (Nat × ServiceCmd)} (hpc : s.pc th = .filled b cmd)
      (hroom : s.chan.ring.count < commandPoolSize - 1)
      (hring : ring.items = s.chan.ring.items ++ [(b, cmd)]) : Stepped s (.enqueue th)
        ({ s with chan := { s.chan with ring } }.setPc th (.next cmd.after))
  | refused {th : Thread} {b : Nat} {cmd : ServiceCmd} (hpc : s.pc th = .filled b cmd)
      (hfull : ¬ s.chan.ring.count < commandPoolSize - 1) : Stepped s (.enqueue th)
        (s.setPc th (if cmd.isUnchecked then .idle else .releasing b cmd.after))
  | releases {th : Thread} {b : Nat} {after : After} (hpc : s.pc th = .releasing b after) :
      Stepped s (.release th)
        ({ s with chan := s.chan.freeCommandBuf b }.setPc th (.next after))
  | noItem {a : Nat} {l : Slot} (hrx : (s.rx l).items = []) : Stepped s (.accept a l) s
  | takesData {a : Nat} {l : Slot} {buf : Buf} {rx : Fifo (dataRingsSize - 1) RxItem}
      (hrx : (s.rx l).items = .data buf :: rx.items) :
      Stepped s (.accept a l) ((s.setRx l rx).taking .command l [.data buf])
  | accepts {a : Nat} {l : Slot} {b ipaddr port : Nat} {so : SocketPtr}
      {rx : Fifo (dataRingsSize - 1) RxItem} (hidle : s.pc (.app a) = .idle)
      (hrx : (s.rx l).items = .accepted b so ipaddr port :: rx.items) :
      Stepped s (.accept a l) (((s.setRx l rx).taking .command l
        [.accepted b so ipaddr port]).setPc (.app a) (.accepting b so))
  | declines {a b : Nat} {so : SocketPtr} (hpc : s.pc (.app a) = .accepting b so)
      (hfree : s.freeConnections.items = []) :
      Stepped s (.chooseSlot a) (s.setPc (.app a) (.filled b (.decline so)))
  | chooses {a b : Nat} {so : SocketPtr} {i : Slot} {free : Fifo (connectionPoolSize - 1) Slot}
      (hpc : s.pc (.app a) = .accepting b so)
      (hfree : s.freeConnections.items = i :: free.items) : Stepped s (.chooseSlot a)
        ({ s with freeConnections := free }.setPc (.app a) (.filled b (.setSocketRing i none so a)))
  | receives {a : Nat} {i : Slot} (hidle : s.pc (.app a) = .idle) :
      Stepped s (.receive a i) (s.receive a i)
  | flushes {a : Nat} {i : Slot} (hpc : s.pc (.app a) = .next (.flush i)) : Stepped s (.flush a)
      ((((s.setRx i Fifo.empty).setCache a i Fifo.empty).taking .packet i
        ((s.cache a i).items ++ (s.rx i).items)).setPc (.app a) .idle)
  | dequeues {b : Nat} {cmd : ServiceCmd} {ring : Fifo (commandPoolSize - 1) (Nat × ServiceCmd)}
      (hidle : s.pc .server = .idle) (hring : s.chan.ring.items = (b, cmd) :: ring.items) :
      Stepped s .dequeue
        ({ s with chan := { s.chan with ring } }.setPc .server (.processing b cmd))
  | performs {created : Option SocketPtr} {ok : Bool} {b : Nat} {cmd : ServiceCmd}
      {u : CommandState} (hpc : s.pc .server = .processing b cmd)
      (hcreated : ∀ so ∈ created, (s.sock so).used = false) (hu : Performed created ok s cmd u) :
      Stepped s (.perform created ok) (u.setPc .server (.releasing b .done))
  | notices {so : SocketPtr} (hidle : s.pc .server = .idle) :
      Stepped s (.onAccept so) (s.setPc .server (.next (.acceptQueue so)))
  | queueDone {so : SocketPtr} (hpc : s.pc .server = .next (.acceptQueue so)) :
      Stepped s .acceptFirst
        ((s.modifySock so fun t => { t with acceptPresent := false }).setPc .server .idle)
  | takesFirst {so so2 : SocketPtr} {rest : List SocketPtr} {l : Slot}
      (hpc : s.pc .server = .next (.acceptQueue so)) (hqueue : (s.sock so).queue = so2 :: rest)
      (hblock : (s.sock so).glueingBlock = some l) : Stepped s .acceptFirst
        (((s.modifySock so fun t => { t with queue := rest }).modifySock so2 fun t =>
          { t with accepted := true }).setPc .server (.announcing so2 l so))
  | postRefused {b : Nat} {so listener : SocketPtr} {l : Slot}
      (hpc : s.pc .server = .posting b so l listener)
      (hfull : ¬ (s.rx l).count < dataRingsSize - 1) :
      Stepped s .post (s.setPc .server (.releasing b (.acceptQueue listener)))
  | posts {b : Nat} {so listener : SocketPtr} {l : Slot} {rx : Fifo (dataRingsSize - 1) RxItem}
      (hpc : s.pc .server = .posting b so l listener) (hroom : (s.rx l).count < dataRingsSize - 1)
      (hrx : rx.items =
        (s.rx l).items ++ [.accepted b so (s.sock so).faddr (s.sock so).fport]) :
      Stepped s .post ({ s.setRx l rx with
        postedFor := Function.update s.postedFor b (some listener) }.setPc .server
          (.next (.acceptQueue listener)))
  | submitRefused {i : Slot} {id : Nat} : Stepped s (.submit i id) s
  | submits {i : Slot} {id : Nat} {so : SocketPtr} {rx : Fifo (dataRingsSize - 1) RxItem}
      (hsat : s.sat i = some so) (hconnected : (s.sock so).connected = true)
      (hrx : rx.items = (s.rx i).items ++ [.data ⟨id, 0⟩]) : Stepped s (.submit i id) (s.setRx i rx)
  | connects {so so2 : SocketPtr} {faddr fport : Nat} (hidle : s.pc .server = .idle)
      (hused : (s.sock so).used = true) (hlistening : (s.sock so).listening = true)
      (hopen : (s.sock so).closed = false) (hunused : (s.sock so2).used = false) :
      Stepped s (.newconn so so2 faddr fport) ((s.modifySock so fun t =>
        { t with queue := t.queue ++ [so2], acceptPresent := true }).modifySock so2 fun _ =>
          { used := true, connected := true, faddr, fport })
  | goes {so : SocketPtr} (hidle : s.pc .server = .idle) (hclosed : (s.sock so).closed = true) :
      Stepped s (.gone so) (s.modifySock so fun _ => {})

theorem get_cases (h : s.get th = some t) : Stepped s (.get th) t := by
  unfold get CommandChannel.getFreeCommandBuf at h
  cases hpool : s.chan.pool with
  | nil =>
    simp only [hpool] at h
    split at h
    · next hpc =>
      cases h
      exact .unserved hpc hpool
    · next hpc =>
      cases h
      exact .unannounced hpc hpool
    · cases h
  | cons b pool =>
    simp only [hpool] at h
    split at h
    · next hpc =>
      cases h
      exact .fills hpc hpool
    · next hpc =>
      cases h
      exact .announces hpc hpool
    · cases h

theorem enqueue_cases (h : s.enqueue th = some t) : Stepped s (.enqueue th) t := by
  unfold enqueue CommandChannel.enqueueCommandBuf at h
  split at h
  · next b cmd hpc =>
    cases hring : s.chan.ring.enqueue (b, cmd) with
    | none =>
      simp only [hring, Option.map_none, Option.some.injEq] at h
      subst h
      exact .refused hpc (enqueue_eq_none_iff.mp hring).not_lt
    | some ring =>
      simp only [hring, Option.map_some, Option.some.injEq] at h
      subst h
      obtain ⟨hroom, hitems⟩ := enqueue_eq_some_iff.mp hring
      exact .enqueues hpc hroom hitems
  · cases h

theorem accept_cases {a : Nat} {l : Slot} (hidle : s.pc (.app a) = .idle) :
    Stepped s (.accept a l) (s.accept a l) := by
  unfold accept
  split
  · next hrx => exact .noItem (dequeue_eq_none_iff.mp hrx)
  · next hrx => exact .takesData (dequeue_eq_some_iff.mp hrx)
  · next hrx => exact .accepts hidle (dequeue_eq_some_iff.mp hrx)

theorem chooseSlot_cases {a : Nat} (h : s.chooseSlot a = some t) :
    Stepped s (.chooseSlot a) t := by
  unfold chooseSlot at h
  split at h
  · next b so hpc =>
    split at h
    · next hfree =>
      cases h
      exact .declines hpc (dequeue_eq_none_iff.mp hfree)
    · next hfree =>
      cases h
      exact .chooses hpc (dequeue_eq_some_iff.mp hfree)
  · cases h

theorem acceptFirst_cases (h : s.acceptFirst = some t) : Stepped s .acceptFirst t := by
  unfold acceptFirst at h
  split at h
  · next so hpc =>
    split at h
    · cases h
      exact .queueDone hpc
    · cases h
    · next hqueue hblock =>
      cases h
      exact .takesFirst hpc hqueue hblock
  · cases h

theorem post_cases (h : s.post = some t) : Stepped s .post t := by
  unfold post at h
  split at h
  · next b so l listener hpc =>
    split at h
    · next hrx =>
      cases h
      exact .postRefused hpc (enqueue_eq_none_iff.mp hrx).not_lt
    · next rx hrx =>
      cases h
      obtain ⟨hroom, hitems⟩ := enqueue_eq_some_iff.mp hrx
      exact .posts hpc hroom hitems
  · cases h

theorem stepped {a : CommandAction} (h : commandStep s a = some t) : Stepped s a t := by
  cases a with
  | call a cmd =>
    obtain ⟨⟨hidle, hcall⟩, rfl⟩ := guarded_eq_some.mp h
    exact .calls hidle hcall
  | openSocket a type parent =>
    obtain ⟨hidle, rfl⟩ := guarded_eq_some.mp h
    unfold openSocket
    split
    · next hfree => exact .noSlot (dequeue_eq_none_iff.mp hfree)
    · next hfree => exact .opens hidle (dequeue_eq_some_iff.mp hfree)
  | get th => exact get_cases h
  | enqueue th => exact enqueue_cases h
  | release th =>
    simp only [commandStep, release] at h
    split at h
    · next hpc =>
      cases h
      exact .releases hpc
    · cases h
  | accept a l =>
    obtain ⟨hidle, rfl⟩ := guarded_eq_some.mp h
    exact accept_cases hidle
  | chooseSlot a => exact chooseSlot_cases h
  | receive a i =>
    obtain ⟨hidle, rfl⟩ := guarded_eq_some.mp h
    exact .receives hidle
  | flush a =>
    simp only [commandStep, flush] at h
    split at h
    · next hpc =>
      cases h
      exact .flushes hpc
    · cases h
  | dequeue =>
    obtain ⟨hidle, h⟩ := guard_bind_eq_some.mp h
    obtain ⟨⟨b, cmd, chan⟩, hchan, rfl⟩ := Option.map_eq_some_iff.mp h
    obtain ⟨⟨⟨b', cmd'⟩, ring⟩, hring, heq⟩ := Option.map_eq_some_iff.mp hchan
    cases heq
    exact .dequeues hidle (dequeue_eq_some_iff.mp hring)
  | perform created ok =>
    obtain ⟨b, cmd, u, hpc, hcreated, hu, rfl⟩ := commandStep_perform h
    exact .performs hpc hcreated hu
  | onAccept so =>
    obtain ⟨⟨hidle, -⟩, rfl⟩ := guarded_eq_some.mp h
    exact .notices hidle
  | acceptFirst => exact acceptFirst_cases h
  | post => exact post_cases h
  | submit i id =>
    obtain ⟨so, hsat, h⟩ := Option.bind_eq_some_iff.mp h
    obtain ⟨⟨-, hconnected⟩, rfl⟩ := guarded_eq_some.mp h
    unfold submit
    split
    · exact .submitRefused
    · next hrx => exact .submits hsat hconnected (enqueue_eq_some_iff.mp hrx).2
  | newconn so so2 faddr fport =>
    obtain ⟨⟨hidle, hused, hlistening, hopen, hunused⟩, rfl⟩ := guarded_eq_some.mp h
    exact .connects hidle hused hlistening hopen hunused
  | gone so =>
    obtain ⟨⟨hidle, hclosed⟩, rfl⟩ := guarded_eq_some.mp h
    exact .goes hidle hclosed

end Flows

end CommandState

open CommandState in
theorem commandStep_flow {s t : CommandState} {a : CommandAction}
    (h : commandStep s a = some t) : Flow (s.lost a) (s.new a) s.contents t.contents := by
  cases stepped h with
  | @calls a cmd hidle hcall =>
    apply flow_setPc
    cases cmd <;> simp_all [lost, CommandState.new, Pc.tokens, ServiceCmd.tokens, ServiceCmd.isCall,
      ServiceCmd.isPlain]
  | noSlot | noItem | submitRefused => exact contents_flow_of_eq rfl
  | @opens _ _ _ _ free hidle hfree =>
    apply flow_place_setPc (s.contents_setFree free) rfl
    intro x
    simp [hidle, lost, CommandState.new, contents, Pc.tokens, hfree, ServiceCmd.tokens,
      List.count_cons]
  | unserved hpc hpool | unannounced hpc hpool =>
    apply flow_setPc
    simp [lost, CommandState.new, hpc, hpool, Pc.tokens]
  | @fills _ _ _ pool hpc hpool | @announces _ _ _ _ _ pool hpc hpool =>
    apply flow_place_setPc (s.contents_setPool pool) rfl
    intro x
    simp [lost, CommandState.new, hpc, hpool, contents, Pc.tokens, List.count_cons]
    omega
  | @enqueues th b cmd ring hpc hroom hring =>
    have hnone : s.lost (.enqueue th) = [] := by
      simp only [lost, hpc]
      exact if_pos hroom
    rw [hnone]
    apply flow_place_setPc (s.contents_setRing ring) rfl
    intro x
    simp [CommandState.new, hpc, contents, Pc.tokens, hring, commandTokens]
  | refused hpc hfull =>
    apply flow_setPc
    intro x
    simp only [lost, CommandState.new, hpc, hfull, if_false]
    split <;> simp [Pc.tokens, List.count_cons, Nat.add_comm]
  | @releases th b after hpc =>
    apply flow_place_setPc (s.contents_setPool (b :: s.chan.pool)) rfl
    intro x
    simp [lost, CommandState.new, hpc, contents, Pc.tokens, List.count_cons]
  | takesData hrx =>
    rw [contents_taking, contents_setRx]
    apply (Flow.update _ _ _).balance
    intro x
    simp [lost, CommandState.new, contents, hrx, RxItem.tokens]
  | accepts hidle hrx =>
    apply flow_place_setPc ((contents_taking _ _ _ _).trans (s.contents_setRx _ _)) rfl
    intro x
    simp [lost, CommandState.new, hidle, contents, Pc.tokens, hrx, RxItem.tokens, List.count_cons]
    omega
  | declines hpc hfree =>
    apply flow_setPc
    simp [lost, CommandState.new, hpc, Pc.tokens, ServiceCmd.tokens]
  | @chooses _ _ _ _ free hpc hfree =>
    apply flow_place_setPc (s.contents_setFree free) rfl
    intro x
    simp [lost, CommandState.new, hpc, contents, Pc.tokens, ServiceCmd.tokens, hfree,
      List.count_cons]
    omega
  | @receives a i hidle =>
    rw [receive_eq]
    apply flow_place_setPc (p := .rx i) ((contents_taking _ _ _ _).trans
      ((contents_setCache _ _ _ _).trans (s.contents_setRx i _))) rfl
    intro x
    simp only [lost, CommandState.new, contents, ← refilled_append s a i, hidle]
    simp [Pc.tokens, ServiceCmd.tokens, Nat.add_comm]
  | @flushes a i hpc =>
    apply flow_place_setPc (p := .rx i) ((contents_taking _ _ _ _).trans
      ((contents_setCache _ _ _ _).trans (s.contents_setRx i _))) rfl
    intro x
    simp [lost, CommandState.new, hpc, Pc.tokens]
  | @dequeues _ _ ring hidle hring =>
    apply flow_place_setPc (s.contents_setRing ring) rfl
    intro x
    simp [lost, CommandState.new, hidle, contents, Pc.tokens, hring, commandTokens, List.count_cons]
    omega
  | performs hpc _ hu =>
    apply flow_then_setPc hu.flow (congrFun hu.pc_eq _)
    intro x
    simp [lost, CommandState.new, hpc, Pc.tokens, List.count_cons]
    omega
  | notices hidle =>
    apply flow_setPc
    simp [hidle, lost, CommandState.new, Pc.tokens]
  | queueDone hpc =>
    apply flow_then_setPc (contents_flow_of_eq (contents_modifySock_of_queue s rfl)) rfl
    simp [lost, CommandState.new, hpc, Pc.tokens]
  | @takesFirst so _ _ _ hpc hqueue _ =>
    apply flow_place_setPc ((contents_modifySock_of_queue _ rfl).trans
      (s.contents_modifySock so _)) rfl
    intro x
    simp [lost, CommandState.new, hpc, hqueue, contents, Pc.tokens, List.count_cons]
  | postRefused hpc hfull =>
    apply flow_setPc
    intro x
    simp only [lost, CommandState.new, hpc, hfull, if_false]
    simp [Pc.tokens, List.count_cons, Nat.add_comm]
  | @posts b _ listener l rx hpc hroom hrx =>
    have hrest : CommandState.contents { s.setRx l rx with
        postedFor := Function.update s.postedFor b (some listener) } = (s.setRx l rx).contents := by
      funext p
      cases p <;> rfl
    apply flow_place_setPc (hrest.trans (s.contents_setRx l rx)) rfl
    intro x
    simp only [lost, CommandState.new, hpc, hroom, if_true]
    simp [hrx, contents, Pc.tokens, RxItem.tokens]
  | submits _ _ hrx =>
    rw [contents_setRx]
    apply (Flow.update _ _ _).balance
    intro x
    simp [lost, CommandState.new, hrx, contents, RxItem.tokens]
  | @connects so so2 _ _ _ hused _ _ hunused =>
    have hne : CommandPlace.queue so2 ≠ .queue so := by
      rw [Ne, CommandPlace.queue.injEq]
      rintro rfl
      simp [hused] at hunused
    rw [contents_modifySock, contents_modifySock]
    apply ((Flow.update _ _ _).trans (Flow.update _ _ _)).balance
    intro x
    rw [Function.update_of_ne hne]
    simp [lost, CommandState.new, contents]
    omega
  | goes =>
    rw [contents_modifySock]
    exact Flow.update _ _ _

end NetbsdDpdk
