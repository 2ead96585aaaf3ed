import NetbsdDpdk.Command
import NetbsdDpdk.Transition

/-! The ids of the client applications (`api.c`, `service_loop.c`, `service_server_side.h`). An id
is taken off `free_clients_ring` when an application connects, and nothing ever puts one there
again. -/

namespace NetbsdDpdk

open List

def clientsPoolSize : Nat := 64

/-- `service_api_init` enqueues all ids on a ring that has room for all but one. -/
def placedIds : List Nat := (List.range clientsPoolSize).take (clientsPoolSize - 1)

inductive ClientCmd
  | connect (ringsetIdx : Nat)
  | disconnect (ringsetIdx : Nat)
  deriving DecidableEq

def ClientCmd.ringsetIdx : ClientCmd → Nat
  | .connect id | .disconnect id => id

inductive CreateOutcome
  | noRing | noCommand | ringFull | sent
  deriving DecidableEq

/-- `pending` are the two commands on the command ring, and `service_clients_list` is `clients`. -/
structure ClientState where
  freeClientsRing : List Nat := placedIds
  pending : List ClientCmd := []
  clients : List Nat := []
  isBusy : Nat → Bool := fun _ => false
  gClientRingsetIdx : Nat → Nat := fun _ => connectionPoolSize

namespace ClientState

def createClient (s : ClientState) (a : Nat) (outcome : CreateOutcome) : Int × ClientState :=
  match s.freeClientsRing with
  | [] => (-1, s)
  | id :: rest =>
    let s := { s with freeClientsRing := rest }
    match outcome with
    | .noRing => (-2, s)
    | .noCommand | .ringFull => (-3, s)
    | .sent => (0, { s with
        pending := s.pending ++ [.connect id]
        gClientRingsetIdx := Function.update s.gClientRingsetIdx a id })

/-- `sent` tells whether `sig_handler` gets a command buffer and room on the ring. The next process
of this number begins with its own variables. -/
def sigHandler (s : ClientState) (a : Nat) (sent : Bool) : ClientState where
  freeClientsRing := s.freeClientsRing
  pending := if sent then s.pending ++ [.disconnect (s.gClientRingsetIdx a)] else s.pending
  clients := s.clients
  isBusy := s.isBusy
  gClientRingsetIdx := Function.update s.gClientRingsetIdx a connectionPoolSize

def processConnect (s : ClientState) (id : Nat) : ClientState :=
  if id ≥ clientsPoolSize then s
  else if !s.isBusy id then
    { s with clients := s.clients ++ [id], isBusy := Function.update s.isBusy id true }
  else s

def processDisconnect (s : ClientState) (id : Nat) : ClientState :=
  if id ≥ clientsPoolSize then s
  else if s.isBusy id then
    { s with clients := s.clients.erase id, isBusy := Function.update s.isBusy id false }
  else s

def processCommands (s : ClientState) : Option ClientState :=
  match s.pending with
  | [] => none
  | .connect id :: rest => some ({ s with pending := rest }.processConnect id)
  | .disconnect id :: rest => some ({ s with pending := rest }.processDisconnect id)

end ClientState

inductive ClientAction
  | create (a : Nat) (outcome : CreateOutcome)
  | terminate (a : Nat) (sent : Bool)
  | process

def ClientAction.isCreate : ClientAction → Bool
  | .create _ _ => true
  | _ => false

def clientStep (s : ClientState) : ClientAction → Option ClientState
  | .create a outcome => some (s.createClient a outcome).2
  | .terminate a sent => some (s.sigHandler a sent)
  | .process => s.processCommands

namespace ClientState

def places (s : ClientState) (id : Nat) : Nat :=
  s.freeClientsRing.count id + (s.pending.map ClientCmd.ringsetIdx).count id +
    if s.isBusy id then s.clients.count id else 0

def Conserved (s : ClientState) : Prop := ∀ id ∈ placedIds, s.places id = 1

end ClientState

/-- No call fails with an id in its hands, and no handler gets its command through. -/
def IdKept (s : ClientState) : ClientAction → Prop
  | .create _ outcome => s.freeClientsRing = [] ∨ outcome = .sent
  | .terminate _ sent => sent = false
  | .process => True

instance (s : ClientState) (a : ClientAction) : Decidable (IdKept s a) := by
  cases a <;> unfold IdKept <;> infer_instance

namespace ClientState

structure Inv (s : ClientState) : Prop where
  conserved : s.Conserved
  free : ∀ id ∈ s.freeClientsRing, id ∈ placedIds
  busy : ∀ id, s.isBusy id = true ↔ id ∈ s.clients
  connects : ∀ c ∈ s.pending, ∃ id, c = .connect id
  own : ∀ a, s.gClientRingsetIdx a ∈ placedIds

variable {s t : ClientState}

theorem createClient_cons {id a : Nat} {rest : List Nat} (h : s.freeClientsRing = id :: rest)
    (outcome : CreateOutcome) : (s.createClient a outcome).2 =
      if outcome = .sent then { s with
        freeClientsRing := rest
        pending := s.pending ++ [.connect id]
        gClientRingsetIdx := Function.update s.gClientRingsetIdx a id }
      else { s with freeClientsRing := rest } := by
  rw [createClient, h]
  cases outcome <;> rfl

theorem Inv.create_sent (h : s.Inv) {id a : Nat} {rest : List Nat}
    (hfree : s.freeClientsRing = id :: rest) : Inv { s with
      freeClientsRing := rest
      pending := s.pending ++ [.connect id]
      gClientRingsetIdx := Function.update s.gClientRingsetIdx a id } where
  conserved id' hid' := by
    rw [← h.conserved id' hid', places, places, hfree, map_append, count_append]
    simp only [map_cons, map_nil, count_cons, count_nil, ClientCmd.ringsetIdx]
    omega
  free id' hid' := h.free id' (by simp [hfree, hid'])
  busy := h.busy
  connects c hc := by
    rcases mem_append.mp hc with hc | hc
    · exact h.connects c hc
    · exact ⟨id, mem_singleton.mp hc⟩
  own a' := by
    by_cases ha : a' = a
    · subst ha
      simpa using h.free id (by simp [hfree])
    · simpa [ha] using h.own a'

theorem Inv.processConnect (h : s.Inv) {id : Nat} {rest : List ClientCmd}
    (hpending : s.pending = .connect id :: rest) :
    ({ s with pending := rest }.processConnect id).Inv := by
  have hplaces id' : s.places id' = { s with pending := rest }.places id' +
      if id = id' then 1 else 0 := by
    simp only [places, hpending, map_cons, count_cons, ClientCmd.ringsetIdx, beq_iff_eq]
    omega
  have hrest : ∀ c ∈ rest, ∃ id, c = .connect id := fun c hc =>
    h.connects c (by simp [hpending, hc])
  -- the command names the id, so it is on the list only if it was not placed
  have hlisted : id ∈ placedIds → id ∉ s.clients := by
    intro hid hmem
    have hone := h.conserved id hid
    have hpos := count_pos_iff.mpr hmem
    rw [hplaces, places, if_pos ((h.busy id).mpr hmem)] at hone
    simp only [if_true] at hone
    omega
  unfold ClientState.processConnect
  split
  next hid =>
    refine ⟨fun id' hid' => ?_, h.free, h.busy, hrest, h.own⟩
    have hne : id ≠ id' := by
      rintro rfl
      have hlt := mem_range.mp (mem_of_mem_take hid')
      omega
    rw [← h.conserved id' hid', hplaces, if_neg hne, Nat.add_zero]
  next =>
    split
    next hbusy =>
      have hmem : id ∉ s.clients := fun hmem => by
        simp [(h.busy id).mpr hmem] at hbusy
      refine ⟨fun id' hid' => ?_, h.free, fun id' => ?_, hrest, h.own⟩
      · rw [← h.conserved id' hid', hplaces]
        by_cases heq : id' = id
        · subst heq
          have hcount := count_eq_zero.mpr hmem
          simp only [places, Function.update_self, if_true, count_append, count_singleton,
            hcount, beq_self_eq_true]
          simp
        · simp [places, heq, count_append, Ne.symm heq]
      · by_cases heq : id' = id
        · simp [heq]
        · simpa [heq] using h.busy id'
    next hbusy =>
      refine ⟨fun id' hid' => ?_, h.free, h.busy, hrest, h.own⟩
      have hne : id ≠ id' := by
        rintro rfl
        exact hlisted hid' ((h.busy id).mp (by simpa using hbusy))
      rw [← h.conserved id' hid', hplaces, if_neg hne, Nat.add_zero]

theorem mem_placedIds {id : Nat} : id ∈ placedIds ↔ id < clientsPoolSize - 1 := by
  rw [placedIds, take_range, mem_range]
  omega

/-- The next step keeps every id in one place exactly if it meets `IdKept`. -/
theorem Inv.step {a : ClientAction} (h : s.Inv) (hstep : clientStep s a = some t) :
    (t.Conserved ↔ IdKept s a) ∧ (IdKept s a → t.Inv) := by
  suffices hcases : IdKept s a ∧ t.Inv ∨ ¬ IdKept s a ∧ ∃ id ∈ placedIds, t.places id ≠ 1 by
    rcases hcases with ⟨hkept, hinv⟩ | ⟨hlost, id, hid, hne⟩
    · exact ⟨iff_of_true hinv.conserved hkept, fun _ => hinv⟩
    · exact ⟨iff_of_false (fun hall => hne (hall id hid)) hlost, fun hkept => absurd hkept hlost⟩
  cases a with
  | create a outcome =>
    cases hstep
    cases hfree : s.freeClientsRing with
    | nil =>
      rw [createClient, hfree]
      exact .inl ⟨.inl hfree, h⟩
    | cons id rest =>
      have hid := h.free id (by simp [hfree])
      rw [createClient_cons hfree]
      by_cases hsent : outcome = .sent
      · rw [if_pos hsent]
        exact .inl ⟨.inr hsent, h.create_sent hfree⟩
      · rw [if_neg hsent]
        refine .inr ⟨?_, id, hid, ?_⟩
        · simp [IdKept, hfree, hsent]
        · have hone := h.conserved id hid
          simp only [places, hfree, count_cons_self] at hone ⊢
          omega
  | terminate a sent =>
    cases hstep
    cases sent with
    | false =>
      refine .inl ⟨rfl, h.conserved, h.free, h.busy, h.connects, fun a' => ?_⟩
      by_cases ha : a' = a
      · simpa [sigHandler, ha] using mem_placedIds.mpr (by decide)
      · simpa [sigHandler, ha] using h.own a'
    | true =>
      refine .inr ⟨by simp [IdKept], s.gClientRingsetIdx a, h.own a, ?_⟩
      have hone := h.conserved _ (h.own a)
      simp only [places, sigHandler, if_true, map_append, count_append, map_cons,
        map_nil, ClientCmd.ringsetIdx, count_singleton_self] at hone ⊢
      omega
  | process =>
    refine .inl ⟨trivial, ?_⟩
    cases hpending : s.pending with
    | nil => simp [clientStep, processCommands, hpending] at hstep
    | cons c rest =>
      obtain ⟨id, rfl⟩ := h.connects c (by simp [hpending])
      rw [clientStep, processCommands, hpending] at hstep
      cases hstep
      exact h.processConnect hpending

theorem Inv.start : ({} : ClientState).Inv where
  conserved id hid := by
    have hnodup : placedIds.Nodup := (nodup_range).sublist (take_sublist _ _)
    simp [places, hnodup.count, hid]
  free _ hid := hid
  busy id := by simp
  connects c hc := by simp at hc
  own _ := mem_placedIds.mpr (show connectionPoolSize < _ by decide)

theorem processConnect_freeClientsRing (s : ClientState) (id : Nat) :
    (s.processConnect id).freeClientsRing = s.freeClientsRing := by
  unfold ClientState.processConnect
  repeat' split
  all_goals rfl

theorem processDisconnect_freeClientsRing (s : ClientState) (id : Nat) :
    (s.processDisconnect id).freeClientsRing = s.freeClientsRing := by
  unfold ClientState.processDisconnect
  repeat' split
  all_goals rfl

end ClientState

open ClientState

/-- Every call takes an id off the ring, whatever becomes of it, and no step puts one there. -/
theorem freeClientsRing_of_run {ok : ClientState → ClientAction → Prop} {s t : ClientState}
    {as : List ClientAction} (hrun : Run clientStep ok s as t) :
    t.freeClientsRing = s.freeClientsRing.drop (as.countP ClientAction.isCreate) := by
  induction hrun with
  | nil => rfl
  | @snoc t u as a hrun hok hstep ih =>
    rw [countP_append, countP_singleton, ← drop_drop, ← ih]
    cases a with
    | create a outcome =>
      cases hstep
      cases hfree : t.freeClientsRing with
      | nil => simp [createClient, hfree]
      | cons id rest =>
        rw [createClient_cons hfree]
        split <;> rfl
    | terminate a sent =>
      cases hstep
      rfl
    | process =>
      rw [clientStep, processCommands] at hstep
      split at hstep
      · cases hstep
      · cases hstep
        exact processConnect_freeClientsRing _ _
      · cases hstep
        exact processDisconnect_freeClientsRing _ _

/-- As long as no call fails with an id in its hands and no handler gets its command through, every
id is in one place. The condition is exact for the next step, and the ids on the ring run out. -/
theorem clientIds_of_run {as : List ClientAction} {s : ClientState}
    (hrun : Run clientStep IdKept {} as s) :
    s.Conserved ∧ (∀ a t, clientStep s a = some t → (t.Conserved ↔ IdKept s a)) ∧
      s.freeClientsRing = placedIds.drop (as.countP ClientAction.isCreate) := by
  have hinv : s.Inv := hrun.invariant (I := Inv)
    (fun s a t h hkept hstep => (h.step hstep).2 hkept) Inv.start
  exact ⟨hinv.conserved, fun a t hstep => (hinv.step hstep).1, freeClientsRing_of_run hrun⟩

theorem clientIds_of_run_two : ∃ s,
    Run clientStep IdKept {} [.create 5 .sent, .create 7 .sent, .process, .terminate 5 false] s ∧
      s.places 1 = 1 ∧ s.Conserved :=
  Run.exists_and_of_runActions (by decide) fun _ hrun _ => (clientIds_of_run hrun).1

/-- An application starts and stops: its id is named by the DISCONNECT while it is still on the
list, and is nowhere afterwards. A call that fails without a command buffer loses the next id, and
an application that never had an id disconnects the client 16. -/
theorem stopped_client_loses_id :
    ((runActions clientStep (fun _ _ => True) {}
      [.create 5 .sent, .process, .terminate 5 true]).any fun s => s.places 0 = 2) = true ∧
    ((runActions clientStep (fun _ _ => True) {} [.create 5 .sent, .process, .terminate 5 true,
      .process, .create 5 .noCommand, .terminate 5 true]).any fun s =>
        s.places 0 = 0 ∧ s.places 1 = 0 ∧ s.pending = [.disconnect 16]) = true := by
  decide

end NetbsdDpdk
