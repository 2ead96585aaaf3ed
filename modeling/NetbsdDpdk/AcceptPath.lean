import NetbsdDpdk.CommandBuffers

/-! The way of an accepted connection: from the queue of the listener over an announcement on the
`rx_ring`, the application and SET_SOCKET_RING or DECLINE to its slot or its end. -/

namespace NetbsdDpdk

open List Token

open CommandState

def ServiceCmd.conn : ServiceCmd → Option SocketPtr
  | .setSocketRing _ _ so _ | .decline so => some so
  | _ => none

def RxItem.conn : RxItem → Option SocketPtr
  | .data _ => none
  | .accepted _ so _ _ => some so

def Pc.conn : Pc → Option SocketPtr
  | .wants cmd | .filled _ cmd | .processing _ cmd => cmd.conn
  | .accepting _ so | .announcing so _ _ | .posting _ so _ _ => some so
  | .next _ | .releasing _ _ => none

inductive ConnPlace
  | ring
  | rx (l : Slot)
  | hand (t : Thread)
  | slot (i : Slot)
  deriving DecidableEq

def CommandState.conns (s : CommandState) : ConnPlace → List SocketPtr
  | .ring => s.chan.ring.items.filterMap fun item => item.2.conn
  | .rx l => (s.rx l).items.filterMap RxItem.conn
  | .hand t => (s.pc t).conn.toList
  | .slot i => (s.sat i).toList

def AcceptedHeld (s : CommandState) : Prop :=
  ∀ so, (s.sock so).accepted = true → (s.sock so).closed = false →
    (∃! p, so ∈ s.conns p) ∧ ∀ p, (s.conns p).count so ≤ 1

def ServiceCmd.ends (s : CommandState) : ServiceCmd → Option SocketPtr
  | .close i => s.sat i
  | .decline so => some so
  | _ => none

def CommandState.ends (s : CommandState) : Option SocketPtr :=
  match s.pc .server with
  | .processing _ cmd => cmd.ends s
  | _ => none

def Pc.posts : Pc → Option Slot
  | .posting _ _ l _ => some l
  | _ => none

/-- A connection can be announced: there are a buffer, room on the `rx_ring`, and room for
SET_SOCKET_RING and DECLINE. Nobody receives on an `rx_ring` with announcements or accepts from one
with a packet in front, and a listener is closed with an empty queue or before the server has
noticed the queue. -/
def AcceptSafe (s : CommandState) : CommandAction → Prop
  | .get t => (s.pc t).conn ≠ none → s.chan.pool ≠ []
  | .enqueue t => (s.pc t).conn ≠ none → s.chan.ring.count < commandPoolSize - 1
  | .post => ∀ l ∈ (s.pc .server).posts, (s.rx l).count < dataRingsSize - 1
  | .accept _ l => ∀ item ∈ (s.rx l).items.head?, item.cmdBuf ≠ none
  | .receive _ i => s.pending i = []
  | .flush a => ∀ i ∈ (s.pc (.app a)).flushes, s.pending i = []
  | .perform _ _ => ∀ so ∈ s.ends,
      (s.sock so).queue = [] ∨ (s.sock so).acceptPresent = false
  | _ => True

def Token.conn? : Token → Option SocketPtr
  | .conn so => some so
  | _ => none

def ConnPlace.place : ConnPlace → CommandPlace
  | .ring => .ring
  | .rx l => .rx l
  | .hand t => .hand t
  | .slot i => .bound i

theorem ConnPlace.place_injective : Function.Injective ConnPlace.place := by
  intro p q h
  cases p <;> cases q <;> cases h <;> rfl

section Tokens

theorem mem_filterMap_conn {xs : List Token} {so : SocketPtr} :
    so ∈ xs.filterMap conn? ↔ conn so ∈ xs :=
  mem_filterMap_iff fun x _ => by cases x <;> simp [conn?]

theorem ServiceCmd.filterMap_conn (cmd : ServiceCmd) :
    cmd.tokens.filterMap conn? = cmd.conn.toList := by
  cases cmd <;> rfl

theorem Pc.filterMap_conn (pc : Pc) : pc.tokens.filterMap conn? = pc.conn.toList := by
  cases pc with
  | wants cmd => exact cmd.filterMap_conn
  | filled b cmd => exact cmd.filterMap_conn
  | processing b cmd => exact cmd.filterMap_conn
  | _ => rfl

theorem filterMap_conn_commands (items : List (Nat × ServiceCmd)) :
    (commandTokens items).filterMap conn? = items.filterMap fun item => item.2.conn :=
  filterMap_flatMap_eq (fun item => item.2.filterMap_conn) items

theorem filterMap_conn_rx (items : List RxItem) :
    (items.flatMap RxItem.tokens).filterMap conn? = items.filterMap RxItem.conn :=
  filterMap_flatMap_eq (fun item => by cases item <;> rfl) items

end Tokens

namespace CommandState

variable {s t : CommandState} {so : SocketPtr}

theorem conns_eq (p : ConnPlace) : s.conns p = (s.contents p.place).filterMap conn? := by
  cases p with
  | ring => exact (filterMap_conn_commands _).symm
  | rx l => exact (filterMap_conn_rx _).symm
  | hand t => exact (Pc.filterMap_conn _).symm
  | slot i => cases hsat : s.sat i <;> simp [conns, contents, ConnPlace.place, boundTokens, hsat,
      conn?]

theorem mem_conns {p : ConnPlace} : so ∈ s.conns p ↔ conn so ∈ s.contents p.place := by
  rw [conns_eq, mem_filterMap_conn]

theorem exists_connPlace {p : CommandPlace} (hso : conn so ∈ s.contents p) :
    (∃ q : ConnPlace, q.place = p) ∨ ∃ x, p = .queue x := by
  cases p with
  | ring => exact .inl ⟨.ring, rfl⟩
  | rx l => exact .inl ⟨.rx l, rfl⟩
  | hand t => exact .inl ⟨.hand t, rfl⟩
  | bound i => exact .inl ⟨.slot i, rfl⟩
  | queue x => exact .inr ⟨x, rfl⟩
  | pool => simp [contents] at hso
  | free => simp [contents] at hso

end CommandState

structure SockPath (forgotten : Prop) (t t' : AcceptSocket) : Prop where
  queue : t'.queue ⊆ t.queue
  closed : t.closed = true → t'.closed = true
  accepted : t'.accepted = true → t.accepted = true ∨ forgotten

section SockPath

variable {s t : CommandState} {so x : SocketPtr} {forgotten : Prop}

theorem SockPath.of_eq {t t' : AcceptSocket} (hqueue : t'.queue = t.queue)
    (hclosed : t'.closed = t.closed) (haccepted : t'.accepted = t.accepted) :
    SockPath forgotten t t' :=
  ⟨fun _ h => hqueue ▸ h, fun h => hclosed.trans h, fun h => .inl (haccepted ▸ h)⟩

theorem SockPath.modifySock {f : AcceptSocket → AcceptSocket}
    (h : SockPath forgotten (s.sock so) (f (s.sock so))) (x : SocketPtr) :
    SockPath forgotten (s.sock x) ((s.modifySock so f).sock x) := by
  by_cases hx : x = so
  · subst hx
    rwa [modifySock_self]
  · rw [modifySock_of_ne _ _ hx]
    exact .of_eq rfl rfl rfl

theorem closeSocket_path (s : CommandState) (so x : SocketPtr) :
    SockPath ((s.sock so).acceptPresent = true ∧ x ∈ (s.sock so).queue) (s.sock x)
      ((s.closeSocket so).sock x) := by
  have hkept := closeSocket_kept s so x
  have haccepted : ((s.closeSocket so).sock x).accepted =
      ((s.sock x).accepted || decide (x ∈ (s.sock so).queue) && (s.sock so).acceptPresent) := by
    by_cases hx : x = so
    · subst hx
      rw [closeSocket, modifySock_self, endQueue_sock]
    · rw [closeSocket, modifySock_of_ne _ _ hx, endQueue_sock]
  refine ⟨hkept.queue, hkept.closed, fun hx => ?_⟩
  simpa [haccepted, and_comm] using hx

theorem perform_path {created : Option SocketPtr} {ok : Bool} {cmd : ServiceCmd}
    (hperform : CommandState.Performed created ok s cmd t) (x : SocketPtr) :
    created = some x ∧ (t.sock x).accepted = false ∧ (t.sock x).queue = [] ∨
      SockPath (∃ so ∈ cmd.ends s, (s.sock so).acceptPresent = true ∧ x ∈ (s.sock so).queue)
        (s.sock x) (t.sock x) := by
  cases hperform with
  | same | failed => exact .inr (.of_eq rfl rfl rfl)
  | @opened i _ _ _ so hcreated =>
    by_cases hx : x = so
    · subst hx
      simp [hcreated]
    · right
      rw [modifySock_of_ne _ _ hx]
      exact .of_eq rfl rfl rfl
  | @closed i so hsat =>
    have hpath := closeSocket_path s so x
    exact .inr { hpath with
      accepted := fun h => (hpath.accepted h).imp_right fun hq =>
        ⟨so, by simp [ServiceCmd.ends, hsat], hq⟩ }
  | @declined so =>
    have hpath := closeSocket_path s so x
    exact .inr { hpath with
      accepted := fun h => (hpath.accepted h).imp_right fun hq =>
        ⟨so, by simp [ServiceCmd.ends], hq⟩ }
  | @bound i _ so =>
    exact .inr (SockPath.modifySock (s := s.setSat i (some so)) (.of_eq rfl rfl rfl) x)
  | connected | listening => exact .inr (SockPath.modifySock (.of_eq rfl rfl rfl) x)

end SockPath

inductive PathStep (s t : CommandState) (x : SocketPtr) : Prop
  | fresh (haccepted : (t.sock x).accepted = false) (hqueue : (t.sock x).queue = [])
  | joined (so2 : SocketPtr) (hnew : (t.sock so2).accepted = false)
      (hsame : t.sock x = { s.sock x with
        queue := (s.sock x).queue ++ [so2], acceptPresent := true })
  | path (h : SockPath (Token.conn x ∈ t.contents (.hand .server)) (s.sock x) (t.sock x))

theorem commandStep_path {s t : CommandState} {a : CommandAction} (hsafe : AcceptSafe s a)
    (hstep : commandStep s a = some t) (x : SocketPtr) : PathStep s t x := by
  by_cases ha : a.isLoud = false
  · apply PathStep.path
    rw [(commandStep_quiet ha hstep).sock]
    exact .of_eq rfl rfl rfl
  cases stepped hstep with
  | performs hpc _ hu =>
    rcases perform_path hu x with ⟨-, haccepted, hqueue⟩ | hpath
    · exact .fresh haccepted hqueue
    · refine .path { hpath with accepted := fun hx => ?_ }
      rcases hpath.accepted hx with hacc | ⟨so, hends, hpresent, hmem⟩
      · exact .inl hacc
      · have hso := hsafe so (by simpa [ends, hpc] using hends)
        rcases hso with hnil | habsent
        · simp [hnil] at hmem
        · simp [habsent] at hpresent
  | queueDone =>
    apply PathStep.path
    rw [setPc_sock]
    exact SockPath.modifySock (.of_eq rfl rfl rfl) x
  | @takesFirst so so2 rest _ _ hqueue =>
    have hrest : SockPath False (s.sock so) { s.sock so with queue := rest } :=
      ⟨by simp [hqueue], id, .inl⟩
    have hfirst := SockPath.modifySock (s := s) (f := fun t => { t with queue := rest }) hrest x
    apply PathStep.path
    rw [setPc_sock]
    by_cases hx : x = so2
    · subst hx
      rw [modifySock_self]
      refine ⟨hfirst.queue, hfirst.closed, fun _ => .inr ?_⟩
      simp [contents, Pc.tokens]
    · rw [modifySock_of_ne _ _ hx]
      exact { hfirst with accepted := fun h => (hfirst.accepted h).imp_right False.elim }
  | @connects so so2 =>
    by_cases hx2 : x = so2
    · subst hx2
      exact .fresh (by simp) (by simp)
    · by_cases hx : x = so
      · subst hx
        refine .joined so2 (by simp) ?_
        rw [modifySock_of_ne _ _ hx2, modifySock_self]
      · apply PathStep.path
        rw [modifySock_of_ne _ _ hx2, modifySock_of_ne _ _ hx]
        exact .of_eq rfl rfl rfl
  | @goes so =>
    by_cases hx : x = so
    · subst hx
      exact .fresh (by simp) (by simp)
    · apply PathStep.path
      rw [modifySock_of_ne _ _ hx]
      exact .of_eq rfl rfl rfl
  | _ => exact absurd rfl ha

structure AcceptInv (s : CommandState) : Prop where
  inv : CommandInv s
  queued : ∀ so, ∀ so2 ∈ (s.sock so).queue, (s.sock so2).accepted = false
  held : ∀ so, (s.sock so).accepted = true → (s.sock so).closed = false →
    Located s.contents (.conn so)

namespace AcceptInv

variable {s t : CommandState} {a : CommandAction} {so : SocketPtr}

theorem conn_notMem_rx {i : Slot} (hpending : s.pending i = []) :
    conn so ∉ s.contents (.rx i) := by
  intro hso
  obtain ⟨item, hitem, htoken⟩ := mem_flatMap.mp hso
  cases item with
  | data buf => cases htoken
  | accepted b so' ipaddr port =>
    have hb : b ∈ s.pending i := mem_filterMap.mpr ⟨_, hitem, rfl⟩
    simp [hpending] at hb

theorem conn_mem_tokens {pc : Pc} (hso : conn so ∈ pc.tokens) : pc.conn ≠ none := by
  have hmem := mem_filterMap_conn.mpr hso
  rw [Pc.filterMap_conn] at hmem
  intro hnone
  simp [hnone] at hmem

theorem conn_notMem_bound (h : AcceptInv s) {b : Nat} {cmd : ServiceCmd} {i : Slot}
    (hpc : s.pc .server = .processing b cmd) (hcmd : slot i ∈ cmd.tokens) :
    conn so ∉ s.contents (.bound i) := by
  have hnone : s.sat i = none := h.inv.sat_eq_none (p := .hand .server) (by simp)
    (by simp [contents, hpc, Pc.tokens, hcmd])
  simp [contents, hnone, boundTokens]

theorem closed_or_queued_of_performLost (h : AcceptInv s) {created : Option SocketPtr} {ok : Bool}
    {b : Nat} {cmd : ServiceCmd} (hpc : s.pc .server = .processing b cmd)
    (hperform : CommandState.Performed created ok s cmd t)
    (hlost : conn so ∈ s.performLost created cmd) :
    (t.sock so).closed = true ∨ ∃ x, so ∈ (s.sock x).queue := by
  have hqueue {x} (hx : conn so ∈ s.contents (.queue x)) : ∃ x, so ∈ (s.sock x).queue :=
    ⟨x, by simpa [contents] using hx⟩
  cases hperform with
  | same htokens hnone hnew => simp [hnone] at hlost
  | failed hcreated => simp [performLost, hcreated] at hlost
  | opened hcreated =>
    subst hcreated
    rcases mem_append.mp hlost with hbound | hmem
    · exact absurd hbound (h.conn_notMem_bound hpc (by simp [ServiceCmd.tokens]))
    · exact .inr (hqueue hmem)
  | bound => exact absurd hlost (h.conn_notMem_bound hpc (by simp [ServiceCmd.tokens]))
  | closed hsat =>
    simp only [performLost, hsat, cons_append, mem_cons, conn.injEq, mem_append] at hlost
    rcases hlost with rfl | hmem | hslot
    · exact .inl closeSocket_self.1
    · exact .inr (hqueue hmem)
    · split at hslot <;> simp at hslot
  | declined =>
    simp only [performLost, mem_cons, conn.injEq] at hlost
    rcases hlost with rfl | hmem
    · exact .inl closeSocket_self.1
    · exact .inr (hqueue hmem)
  | connected | listening => simp [performLost] at hlost

theorem closed_or_queued_of_lost (h : AcceptInv s) (hsafe : AcceptSafe s a)
    (hstep : commandStep s a = some t) (hlost : conn so ∈ s.lost a) :
    (t.sock so).closed = true ∨ ∃ x, so ∈ (s.sock x).queue := by
  cases a with
  | get th =>
    simp only [lost] at hlost
    split at hlost
    · next cmd hpc hpool =>
      exact absurd hpool (hsafe (conn_mem_tokens (by simpa [hpc, Pc.tokens] using hlost)))
    · next x l listener hpc hpool => exact absurd hpool (hsafe (by simp [hpc, Pc.conn]))
    · cases hlost
  | enqueue th =>
    simp only [lost] at hlost
    split at hlost
    · next b cmd hpc =>
      split at hlost
      · cases hlost
      · next hfull =>
        have htokens : conn so ∈ (s.pc th).tokens := by
          rw [hpc]
          split at hlost
          · exact hlost
          · exact mem_cons_of_mem _ hlost
        exact absurd (hsafe (conn_mem_tokens htokens)) hfull
    · cases hlost
  | receive a i =>
    have hmem : conn so ∈ s.contents (.rx i) := by
      simp only [contents, ← refilled_append s a i, flatMap_append]
      exact mem_append_left _ hlost
    exact absurd hmem (conn_notMem_rx hsafe)
  | flush a =>
    simp only [lost] at hlost
    split at hlost
    · next i hpc => exact absurd hlost (conn_notMem_rx (hsafe i (by simp [hpc, Pc.flushes])))
    · cases hlost
  | perform created ok =>
    obtain ⟨b, cmd, u, hpc, -, hu, rfl⟩ := commandStep_perform hstep
    simp only [lost, hpc] at hlost
    have hended : (u.sock so).closed = true ∨ ∃ x, so ∈ (s.sock x).queue :=
      h.closed_or_queued_of_performLost hpc hu hlost
    exact hended
  | post =>
    simp only [lost] at hlost
    split at hlost
    · next b x l listener hpc =>
      split at hlost
      · cases hlost
      · next hfull => exact absurd (hsafe l (by simp [hpc, Pc.posts])) hfull
    · cases hlost
  | newconn x so2 faddr fport =>
    exact .inr ⟨so2, by simpa [lost, contents] using hlost⟩
  | gone x => exact .inr ⟨x, by simpa [lost, contents] using hlost⟩
  | _ => cases hlost

theorem step (h : AcceptInv s) (hsafe : AcceptSafe s a) (hstep : commandStep s a = some t) :
    AcceptInv t where
  inv := h.inv.step hstep
  queued x so2 hso2 := by
    have hinv := h.inv.step hstep
    have hwas : so2 ∈ (s.sock x).queue ∨ (t.sock so2).accepted = false := by
      rcases commandStep_path hsafe hstep x with ⟨-, hnil⟩ | ⟨so2', hnew, hsame⟩ | hpath
      · simp [hnil] at hso2
      · simp only [hsame, mem_append, mem_singleton] at hso2
        rcases hso2 with hold | rfl
        · exact .inl hold
        · exact .inr hnew
      · exact .inl (hpath.queue hso2)
    rcases hwas with hold | hnew
    · have hfresh := h.queued x so2 hold
      rcases commandStep_path hsafe hstep so2 with ⟨hnew, -⟩ | ⟨so2', -, hsame⟩ | hpath
      · exact hnew
      · simpa [hsame] using hfresh
      · by_contra hacc
        rcases hpath.accepted (Bool.not_eq_false _ ▸ hacc) with hacc | hhand
        · simp [hfresh] at hacc
        · cases hinv.once.unique hhand (CommandInv.mem_queue hso2)
    · exact hnew
  held so hacc hopen := by
    -- one that was accepted before was in no queue, so the step does not lose it
    have hkeep (hacc : (s.sock so).accepted = true) (hwas : (s.sock so).closed = false) :
        Located t.contents (.conn so) := by
      apply (commandStep_flow hstep).located_of_notMem_lost (h.held so hacc hwas)
      intro hlost
      rcases h.closed_or_queued_of_lost hsafe hstep hlost with hclosed | ⟨x, hx⟩
      · simp [hopen] at hclosed
      · simp [h.queued x so hx] at hacc
    rcases commandStep_path hsafe hstep so with ⟨hnew, -⟩ | ⟨so2, -, hsame⟩ | hpath
    · simp [hnew] at hacc
    · rw [hsame] at hacc hopen
      exact hkeep hacc hopen
    · rcases hpath.accepted hacc with hwas | hhand
      · apply hkeep hwas
        by_contra hclosed
        simp [hpath.closed (Bool.not_eq_false _ ▸ hclosed)] at hopen
      · exact ⟨_, hhand⟩

theorem start {pool : List Nat} (hpool : pool.Nodup) : AcceptInv (.start pool) where
  inv := CommandInv.start hpool
  queued _ _ h := by cases h
  held _ h := by cases h

theorem acceptedHeld (h : AcceptInv s) : AcceptedHeld s := by
  intro so hacc hopen
  obtain ⟨p, hp⟩ := h.held so hacc hopen
  have hplace : ∃ q : ConnPlace, q.place = p := by
    rcases exists_connPlace hp with hq | ⟨x, rfl⟩
    · exact hq
    · have hfresh := h.queued x so (by simpa [contents] using hp)
      simp [hacc] at hfresh
  obtain ⟨q, rfl⟩ := hplace
  refine ⟨⟨q, mem_conns.mpr hp, fun r hr => ?_⟩, fun r => ?_⟩
  · exact ConnPlace.place_injective (h.inv.once.unique (mem_conns.mp hr) hp)
  · apply nodup_iff_count_le_one.mp
    rw [conns_eq]
    apply (h.inv.once.nodup _).filterMap
    intro x y b hx hy
    cases x <;> cases y <;> cases hx <;> cases hy
    rfl

end AcceptInv

/-- Under `AcceptSafe` an accepted connection is in one place until it is closed. -/
theorem acceptedHeld_of_run {pool : List Nat} {as : List CommandAction} {s : CommandState}
    (hpool : pool.Nodup) (hrun : Run commandStep AcceptSafe (.start pool) as s) :
    AcceptedHeld s :=
  (hrun.invariant (I := AcceptInv) (fun _ _ _ h hsafe hstep => h.step hsafe hstep)
    (AcceptInv.start hpool)).acceptedHeld

instance (s : CommandState) (a : CommandAction) : Decidable (AcceptSafe s a) := by
  rcases a <;> unfold AcceptSafe <;> infer_instance

theorem acceptedHeld_of_run_bound : ∃ s,
    Run commandStep AcceptSafe (.start commandPool) (announced ++ acceptedIn) s ∧
      ((s.sock 2).accepted = true ∧ s.sat 1 = some 2) ∧ AcceptedHeld s :=
  Run.exists_and_of_runActions (by decide +kernel) fun _ hrun _ =>
    acceptedHeld_of_run List.nodup_range hrun

theorem not_acceptedHeld_of_lost {s t : CommandState} {a : CommandAction} {so : SocketPtr}
    (h : CommandInv s) (hstep : commandStep s a = some t) (hlost : conn so ∈ s.lost a)
    (hnew : conn so ∉ s.new a) (hacc : (t.sock so).accepted = true)
    (hopen : (t.sock so).closed = false) : ¬ AcceptedHeld t := by
  intro hheld
  obtain ⟨⟨p, hp, -⟩, -⟩ := hheld so hacc hopen
  exact (commandStep_flow hstep).not_located_of_mem_lost h.once hlost hnew
    ⟨_, mem_conns.mp hp⟩

/-- The listener is closed when the server has not yet noticed the connection. -/
def closedUnnoticed : List CommandAction :=
  announced.take 13 ++ [.call 0 (.close 0), .get (.app 0), .enqueue (.app 0), .dequeue]

/-- The CLOSE accepts the connection, and nothing refers to it. -/
theorem closed_listener_orphans : ∃ s, Run commandStep (fun _ _ => True) (.start commandPool)
    (closedUnnoticed ++ [.perform none true]) s ∧ ¬ AcceptedHeld s := by
  obtain ⟨s, hrun, hlost, hnew, hs⟩ : ∃ s,
      Run commandStep (fun _ _ => True) (.start commandPool) closedUnnoticed s ∧
      Token.conn 2 ∈ s.lost (.perform none true) ∧ Token.conn 2 ∉ s.new (.perform none true) ∧
      (commandStep s (.perform none true)).any (fun t => (t.sock 2).accepted && !(t.sock 2).closed)
      = true := Run.exists_of_runActions (by decide +kernel)
  have hinv : CommandInv s := hrun.invariant (fun _ _ _ h _ hstep => h.step hstep)
    (CommandInv.start List.nodup_range)
  obtain ⟨t, hstep, ht⟩ := (Option.any_eq_true _ _).mp hs
  simp only [Bool.and_eq_true, Bool.not_eq_true'] at ht
  exact ⟨t, hrun.snoc trivial hstep, not_acceptedHeld_of_lost hinv hstep hlost hnew ht.1 ht.2⟩

end NetbsdDpdk
