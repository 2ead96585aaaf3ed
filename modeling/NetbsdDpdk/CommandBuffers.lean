import NetbsdDpdk.CommandInvariant

/-! Where the command buffers are: in the pool, on the command ring, on the `rx_ring` of a
listening socket or in the hands of one function. -/

namespace NetbsdDpdk

open List Token

open CommandState

def RxItem.cmdBuf : RxItem → Option Nat
  | .data _ => none
  | .accepted b _ _ _ => some b

def Pc.buf : Pc → Option Nat
  | .filled b _ | .releasing b _ | .accepting b _ | .posting b _ _ _ | .processing b _ => some b
  | .next _ | .wants _ | .announcing _ _ _ => none

inductive BufferPlace
  | pool
  | ring
  | pendingAccept (l : Slot)
  | hand (t : Thread)
  deriving DecidableEq

namespace CommandState

def pending (s : CommandState) (i : Slot) : List Nat := (s.rx i).items.filterMap RxItem.cmdBuf

def buffers (s : CommandState) : BufferPlace → List Nat
  | .pool => s.chan.pool
  | .ring => s.chan.ring.items.map Prod.fst
  | .pendingAccept l => if s.Listening l then s.pending l else []
  | .hand t => (s.pc t).buf.toList

end CommandState

structure BuffersHold (pool : List Nat) (s : CommandState) : Prop where
  place : ∀ b ∈ pool, ∃! p, b ∈ s.buffers p
  nodup : ∀ p, (s.buffers p).Nodup
  known : ∀ p, ∀ b ∈ s.buffers p, b ∈ pool

def Pc.kicks : Pc → Bool
  | .filled _ cmd => cmd.isUnchecked
  | _ => false

def Pc.flushes : Pc → Option Slot
  | .next (.flush i) => some i
  | _ => none

def Pc.closes : Pc → Option Slot
  | .processing _ (.close i) => some i
  | _ => none

/-- The kick of `service_dequeue_rx_buf` finds room; nobody receives on an `rx_ring` with pending
accepts or accepts from one with a packet in front; and a socket is not closed while accepts are
pending on its ring. -/
def BufferSafe (s : CommandState) : CommandAction → Prop
  | .enqueue t => (s.pc t).kicks = true → s.chan.ring.count < commandPoolSize - 1
  | .accept _ l => ∀ item ∈ (s.rx l).items.head?, item.cmdBuf ≠ none
  | .receive _ i => s.pending i = []
  | .flush a => ∀ i ∈ (s.pc (.app a)).flushes, s.pending i = []
  | .perform _ _ => ∀ i ∈ (s.pc .server).closes, s.pending i = []
  | _ => True

def Token.buf? : Token → Option Nat
  | .buf b => some b
  | _ => none

def BufferPlace.place : BufferPlace → CommandPlace
  | .pool => .pool
  | .ring => .ring
  | .pendingAccept l => .rx l
  | .hand t => .hand t

section Tokens

theorem ServiceCmd.filterMap_tokens (cmd : ServiceCmd) : cmd.tokens.filterMap buf? = [] := by
  cases cmd <;> rfl

theorem Pc.filterMap_tokens (pc : Pc) : pc.tokens.filterMap buf? = pc.buf.toList := by
  cases pc <;> simp [Pc.tokens, Pc.buf, buf?, ServiceCmd.filterMap_tokens]

theorem filterMap_commandTokens (items : List (Nat × ServiceCmd)) :
    (commandTokens items).filterMap buf? = items.map Prod.fst :=
  (filterMap_flatMap_eq (fun item => by simp [buf?, ServiceCmd.filterMap_tokens]) items).trans
    (congrFun filterMap_eq_map items)

theorem filterMap_rxTokens (items : List RxItem) :
    (items.flatMap RxItem.tokens).filterMap buf? = items.filterMap RxItem.cmdBuf :=
  filterMap_flatMap_eq (fun item => by cases item <;> rfl) items

theorem mem_filterMap_buf {xs : List Token} {b : Nat} :
    b ∈ xs.filterMap buf? ↔ buf b ∈ xs :=
  mem_filterMap_iff fun x _ => by cases x <;> simp [buf?]

end Tokens

def CommandAction.isRing : CommandAction → Bool
  | .accept .. | .receive .. | .flush _ | .post | .submit .. => true
  | _ => false

structure SameRings (s t : CommandState) : Prop where
  rx : t.rx = s.rx
  cache : t.cache = s.cache
  postedFor : t.postedFor = s.postedFor
  taken : t.taken = s.taken

theorem commandStep_sameRings {s t : CommandState} {a : CommandAction} (ha : a.isRing = false)
    (h : commandStep s a = some t) : SameRings s t := by
  cases CommandState.stepped h with
  | performs _ _ hu =>
    rw [hu.frame]
    exact ⟨rfl, rfl, rfl, rfl⟩
  | noItem | takesData | accepts | receives | flushes | postRefused | posts | submitRefused
  | submits => cases ha
  | _ => exact ⟨rfl, rfl, rfl, rfl⟩

namespace CommandState

variable {s t : CommandState}

theorem mem_pending {i : Slot} {b : Nat} :
    b ∈ s.pending i ↔ buf b ∈ s.contents (.rx i) := by
  rw [← mem_filterMap_buf, contents, filterMap_rxTokens, pending]

theorem buffers_eq (hlisten : ∀ i, s.pending i ≠ [] → s.Listening i) (p : BufferPlace) :
    s.buffers p = (s.contents p.place).filterMap buf? := by
  cases p with
  | pool =>
    simp [buffers, contents, BufferPlace.place, filterMap_map, Function.comp_def, buf?]
  | ring => exact (filterMap_commandTokens _).symm
  | pendingAccept l =>
    simp only [buffers, contents, BufferPlace.place, filterMap_rxTokens]
    split
    · rfl
    · next hno =>
      by_contra hne
      exact hno (hlisten l (Ne.symm hne))
  | hand t => exact (Pc.filterMap_tokens _).symm

theorem exists_bufferPlace {p : CommandPlace} {b : Nat} (hb : buf b ∈ s.contents p) :
    ∃ q : BufferPlace, q.place = p := by
  cases p with
  | pool => exact ⟨.pool, rfl⟩
  | ring => exact ⟨.ring, rfl⟩
  | rx l => exact ⟨.pendingAccept l, rfl⟩
  | hand t => exact ⟨.hand t, rfl⟩
  | free => simp [contents] at hb
  | queue so => simp [contents] at hb
  | bound i =>
    cases hsat : s.sat i <;> simp [contents, boundTokens, hsat] at hb

theorem sublist_update {rings : Slot → Fifo (dataRingsSize - 1) RxItem} {j : Slot}
    {rx : Fifo (dataRingsSize - 1) RxItem} (hsub : rx.items.Sublist (rings j).items) (i : Slot) :
    (Function.update rings j rx i).items.Sublist (rings i).items := by
  by_cases hij : i = j
  · subst hij
    rwa [Function.update_self]
  · rw [Function.update_of_ne hij]

theorem commandStep_rx {a : CommandAction} (h : commandStep s a = some t) (i : Slot) :
    (t.rx i).items.Sublist (s.rx i).items ∨
    (∃ b so listener ipaddr port, s.pc .server = .posting b so i listener ∧
      (t.rx i).items = (s.rx i).items ++ [.accepted b so ipaddr port] ∧
      t.postedFor = Function.update s.postedFor b (some listener)) ∨
    ∃ so buf, s.sat i = some so ∧ (s.sock so).connected = true ∧
      (t.rx i).items = (s.rx i).items ++ [.data buf] := by
  by_cases ha : a.isRing = false
  · left
    rw [(commandStep_sameRings ha h).rx]
  cases stepped h with
  | noItem | postRefused | submitRefused => exact .inl (List.Sublist.refl _)
  | takesData hrx | accepts _ hrx =>
    exact .inl (sublist_update (hrx ▸ sublist_cons_self _ _) i)
  | @receives a j =>
    obtain ⟨k, hk⟩ := dequeueRings_rx (s.cache a j) (s.rx j)
    exact .inl (sublist_update (hk ▸ drop_sublist _ _) i)
  | flushes => exact .inl (sublist_update (nil_sublist _) i)
  | @posts b so listener l _ hpc _ hrx =>
    by_cases hil : i = l
    · subst hil
      refine .inr (.inl ⟨b, so, listener, (s.sock so).faddr, (s.sock so).fport, hpc, ?_, rfl⟩)
      simpa [setPc, setRx] using hrx
    · left
      simp [setPc, setRx, hil]
  | @submits j id so _ hsat hconnected hrx =>
    by_cases hij : i = j
    · subst hij
      refine .inr (.inr ⟨so, ⟨id, 0⟩, hsat, hconnected, ?_⟩)
      simpa [setRx] using hrx
    · left
      simp [setRx, hij]
  | _ => exact absurd rfl ha

theorem buf_notMem_tokens (b : Nat) (cmd : ServiceCmd) : buf b ∉ cmd.tokens := by
  cases cmd <;> simp [ServiceCmd.tokens]

theorem buf_notMem_bound (b : Nat) (i : Slot) : buf b ∉ s.contents (.bound i) := by
  intro hb
  obtain ⟨q, hq⟩ := exists_bufferPlace hb
  cases q <;> cases hq

theorem buf_notMem_queue (b : Nat) (so : SocketPtr) : buf b ∉ s.contents (.queue so) := by
  intro hb
  obtain ⟨q, hq⟩ := exists_bufferPlace hb
  cases q <;> cases hq

theorem buf_notMem_performLost (b : Nat) (created : Option SocketPtr) (cmd : ServiceCmd) :
    buf b ∉ s.performLost created cmd := by
  cases cmd with
  | openSocket i parent type pid =>
    cases created <;> simp [performLost, buf_notMem_bound, buf_notMem_queue]
  | close i =>
    simp only [performLost]
    split
    · simp
    · split <;> simp [buf_notMem_queue]
  | _ => simp [performLost, buf_notMem_bound, buf_notMem_queue]

theorem buf_notMem_new (b : Nat) (a : CommandAction) : buf b ∉ s.new a := by
  cases a with
  | perform created ok =>
    simp only [new]
    split
    · next cmd _ => cases cmd <;> cases created <;> simp [performNew]
    · simp
  | _ => simp [new]

theorem buf_notMem_lost {a : CommandAction} (hsafe : BufferSafe s a) (b : Nat) :
    buf b ∉ s.lost a := by
  cases a with
  | get th =>
    simp only [lost]
    split <;> simp [buf_notMem_tokens]
  | enqueue th =>
    simp only [lost]
    split
    · next b' cmd hpc =>
      split
      · simp
      · next hfull =>
        split
        · next hunchecked => exact absurd (hsafe (by simpa [hpc, Pc.kicks] using hunchecked)) hfull
        · exact buf_notMem_tokens b cmd
    · simp
  | receive a i =>
    intro hb
    have hmem : buf b ∈ s.contents (.rx i) := by
      simp only [contents, ← refilled_append s a i, flatMap_append]
      exact mem_append_left _ hb
    have hnil : s.pending i = [] := hsafe
    rw [← mem_pending, hnil] at hmem
    cases hmem
  | flush a =>
    simp only [lost]
    split
    · next i hpc =>
      rw [← mem_pending, hsafe i (by simp [hpc, Pc.flushes])]
      simp
    · simp
  | perform created ok =>
    simp only [lost]
    split
    · exact buf_notMem_performLost _ _ _
    · simp
  | post =>
    simp only [lost]
    split
    · split <;> simp
    · simp
  | newconn so so2 faddr fport => exact buf_notMem_queue b so2
  | gone so => exact buf_notMem_queue b so
  | _ => simp [lost]

theorem pending_listening {a : CommandAction} (h : CommandInv s) (hsafe : BufferSafe s a)
    (hstep : commandStep s a = some t) (hlisten : ∀ i, s.pending i ≠ [] → s.Listening i) (i : Slot)
    (hi : t.pending i ≠ []) : t.Listening i := by
  -- pending accepts stay on the rings of listening sockets
  have hkeep (hwas : s.pending i ≠ []) : t.Listening i := by
    rcases h.listening_or_close hstep (hlisten i hwas) with hlist | ⟨created, ok, b, rfl, hpc⟩
    · exact hlist
    · exact absurd (hsafe i (by simp [hpc, Pc.closes])) hwas
  rcases commandStep_rx hstep i with hsub | ⟨b, so, listener, ipaddr, port, hpc, -⟩ |
    ⟨so, buf, -, -, hitems⟩
  · apply hkeep
    intro hnil
    have hsub' : (t.pending i).Sublist (s.pending i) := hsub.filterMap _
    rw [hnil, sublist_nil] at hsub'
    exact hi hsub'
  · have hlist : s.Listening i := ⟨listener, h.target i listener (by simp [hpc, Pc.target])⟩
    rcases h.listening_or_close hstep hlist with hlist | ⟨created, ok, b, rfl, hpc'⟩
    · exact hlist
    · simp [hpc] at hpc'
  · apply hkeep
    intro hnil
    apply hi
    simpa [pending, hitems, RxItem.cmdBuf] using hnil

end CommandState

theorem BufferPlace.place_injective : Function.Injective BufferPlace.place := by
  intro p q h
  cases p <;> cases q <;> cases h <;> rfl

structure BufferInv (pool : List Nat) (s : CommandState) : Prop where
  inv : CommandInv s
  listening : ∀ i, s.pending i ≠ [] → s.Listening i
  located : ∀ b, Located s.contents (.buf b) ↔ b ∈ pool

namespace BufferInv

variable {pool : List Nat} {s t : CommandState}

theorem start (hpool : pool.Nodup) : BufferInv pool (.start pool) where
  inv := CommandInv.start hpool
  listening i hi := absurd rfl hi
  located b := by
    constructor
    · rintro ⟨p, hp⟩
      rcases CommandInv.mem_contents_start hp with ⟨rfl, -⟩ | ⟨-, i, h⟩
      · simpa [CommandState.contents, CommandState.start] using hp
      · cases h
    · intro hb
      exact ⟨.pool, List.mem_map_of_mem hb⟩

theorem step {a : CommandAction} (h : BufferInv pool s) (hsafe : BufferSafe s a)
    (hstep : commandStep s a = some t) : BufferInv pool t where
  inv := h.inv.step hstep
  listening := pending_listening h.inv hsafe hstep h.listening
  located b := by
    have hflow := commandStep_flow hstep
    rw [← h.located b]
    constructor
    · intro hb
      rcases hflow.located_or_mem_new hb with hold | hnew
      · exact hold
      · exact absurd hnew (buf_notMem_new b a)
    · intro hb
      exact hflow.located_of_notMem_lost hb (buf_notMem_lost hsafe b)

theorem mem_buffers (h : BufferInv pool s) {p : BufferPlace} {b : Nat} :
    b ∈ s.buffers p ↔ buf b ∈ s.contents p.place := by
  rw [buffers_eq h.listening, mem_filterMap_buf]

theorem hold (h : BufferInv pool s) : BuffersHold pool s where
  place b hb := by
    obtain ⟨p, hp⟩ := (h.located b).mpr hb
    obtain ⟨q, rfl⟩ := exists_bufferPlace hp
    refine ⟨q, h.mem_buffers.mpr hp, fun r hr => ?_⟩
    exact BufferPlace.place_injective (h.inv.once.unique (h.mem_buffers.mp hr) hp)
  nodup p := by
    rw [buffers_eq h.listening]
    apply (h.inv.once.nodup _).filterMap
    intro x y b hx hy
    cases x <;> cases y <;> cases hx <;> cases hy
    rfl
  known p b hb := (h.located b).mp ⟨_, h.mem_buffers.mp hb⟩

end BufferInv

/-- Under `BufferSafe` every command buffer is in exactly one place. -/
theorem buffersHold_of_run {pool : List Nat} {as : List CommandAction} {s : CommandState}
    (hpool : pool.Nodup) (hrun : Run commandStep BufferSafe (.start pool) as s) :
    BuffersHold pool s :=
  (hrun.invariant (I := BufferInv pool) (fun _ _ _ h hsafe hstep => h.step hsafe hstep)
    (BufferInv.start hpool)).hold

instance (s : CommandState) (a : CommandAction) : Decidable (BufferSafe s a) := by
  rcases a <;> unfold BufferSafe <;> infer_instance

def commandPool : List Nat := List.range commandPoolSize

def announced : List CommandAction :=
  [.openSocket 0 .stream none, .get (.app 0), .enqueue (.app 0),
   .dequeue, .perform (some 1) true, .release .server,
   .call 0 (.listenSocket 0), .get (.app 0), .enqueue (.app 0),
   .dequeue, .perform none true, .release .server,
   .newconn 1 2 0 0, .onAccept 1, .acceptFirst, .get .server, .post, .acceptFirst]

def acceptedIn : List CommandAction :=
  [.accept 0 0, .chooseSlot 0, .enqueue (.app 0), .dequeue, .perform none true, .release .server]

theorem buffersHold_of_run_accepted : ∃ s,
    Run commandStep BufferSafe (.start commandPool) (announced ++ acceptedIn) s ∧
      s.sat 1 = some 2 ∧ BuffersHold commandPool s :=
  Run.exists_and_of_runActions (by decide +kernel) fun _ hrun _ =>
    buffersHold_of_run List.nodup_range hrun

theorem not_buffersHold_of_lost {s t : CommandState} {a : CommandAction} {pool : List Nat} {b : Nat}
    (h : CommandInv s) (hstep : commandStep s a = some t) (hb : b ∈ pool)
    (hlost : buf b ∈ s.lost a) : ¬ BuffersHold pool t := by
  intro hhold
  obtain ⟨p, hp, -⟩ := hhold.place b hb
  have hmem : buf b ∈ t.contents p.place := by
    cases p with
    | pool => exact List.mem_map_of_mem hp
    | ring => exact mem_filterMap_buf.mp ((filterMap_commandTokens _).symm ▸ hp)
    | pendingAccept l =>
      simp only [buffers] at hp
      split at hp
      · exact mem_pending.mp hp
      · cases hp
    | hand th => exact mem_filterMap_buf.mp ((Pc.filterMap_tokens _).symm ▸ hp)
  exact (commandStep_flow hstep).not_located_of_mem_lost h.once hlost
    (buf_notMem_new b a) ⟨_, hmem⟩

/-- The listener is closed when the connection waits for the application to accept it. -/
def closedUnaccepted : List CommandAction :=
  announced ++ [.call 0 (.close 0), .get (.app 0), .enqueue (.app 0)]

theorem flushed_accept_leaks : ∃ s, Run commandStep (fun _ _ => True) (.start commandPool)
    (closedUnaccepted ++ [.flush 0]) s ∧ ¬ BuffersHold commandPool s := by
  obtain ⟨s, hrun, hlost, hs⟩ : ∃ s,
      Run commandStep (fun _ _ => True) (.start commandPool) closedUnaccepted s ∧
      Token.buf 0 ∈ s.lost (.flush 0) ∧ (commandStep s (.flush 0)).isSome = true :=
      Run.exists_of_runActions (by decide +kernel)
  obtain ⟨t, ht⟩ := Option.isSome_iff_exists.mp hs
  have hinv : CommandInv s := hrun.invariant (fun _ _ _ h _ hstep => h.step hstep)
    (CommandInv.start List.nodup_range)
  exact ⟨t, hrun.snoc trivial ht, not_buffersHold_of_lost hinv ht (by simp [commandPool]) hlost⟩

end NetbsdDpdk
