import NetbsdDpdk.AcceptPath

/-! What is taken off an `rx_ring` is what the taker uses it as: announcements go to
`service_accept`, packets to `service_dequeue_rx_buf` and `service_flush_rx`. -/

namespace NetbsdDpdk

open List Function CommandInv

open CommandState

variable {i : Slot} {so : SocketPtr} {item : RxItem}

/-- A pointer used as a command is an announcement for the socket that owns the slot, and one used
as a packet is a packet. -/
def RxTaken.Right (e : RxTaken) : Prop :=
  match e.use with
  | .command => e.item.cmdBuf ≠ none ∧ e.owner ≠ none ∧ e.postedFor = e.owner
  | .packet => e.item.cmdBuf = none

def KindsHold (s : CommandState) : Prop := ∀ e ∈ s.taken, e.Right

def Pc.listens : Pc → Option Slot
  | .processing _ (.listenSocket i) => some i
  | _ => none

/-- `service_accept` is called on listening sockets, or finds the ring empty;
`service_dequeue_rx_buf` and `service_flush_rx` on others, or find it empty; and a socket is closed,
or made to listen, with nothing of the other kind to come on its ring. -/
def KindSafe (s : CommandState) : CommandAction → Prop
  | .accept _ l => s.Listening l ∨ (s.rx l).items = []
  | .receive _ i => ¬ s.Listening i ∨ (s.rx i).items = []
  | .flush a => ∀ i ∈ (s.pc (.app a)).flushes, ¬ s.Listening i ∨ (s.rx i).items = []
  | .perform _ _ => (∀ i ∈ (s.pc .server).closes, ¬ s.Listening i ∨ (s.rx i).items = []) ∧
      ∀ i ∈ (s.pc .server).listens, s.Listening i ∨ (s.rx i).items = []
  | _ => True

structure KindInv (s : CommandState) : Prop where
  inv : CommandInv s
  travelling : ∀ so p, (∀ i, p ≠ CommandPlace.bound i) → Token.conn so ∈ s.contents p →
    (s.sock so).connected = true
  announced : ∀ i so, s.sat i = some so → (s.sock so).listening = true →
    ∀ item ∈ (s.rx i).items, ∃ b ∈ item.cmdBuf, s.postedFor b = some so
  packets : ∀ i, ¬ s.Listening i → ∀ item ∈ (s.rx i).items, item.cmdBuf = none
  cached : ∀ a i, ∀ item ∈ (s.cache a i).items, item.cmdBuf = none
  right : KindsHold s

section Rings

variable {s t : CommandState} {a : CommandAction}

theorem mem_bound :
    Token.conn so ∈ s.contents (.bound i) ↔ s.sat i = some so := by
  cases hsat : s.sat i <;> simp [contents, boundTokens, hsat, eq_comm]

theorem commandStep_new (hstep : commandStep s a = some t) (hnew : Token.conn so ∈ s.new a) :
    (t.sock so).listening = false ∧
      ((t.sock so).connected = true ∨ ∃ i, t.sat i = some so) := by
  cases stepped hstep with
  | performs hpc _ hu =>
    simp only [new, hpc] at hnew
    cases hu with
    | same htokens hlost hnone =>
      rw [hnone] at hnew
      cases hnew
    | failed hcreated =>
      subst hcreated
      cases hnew
    | @opened i _ _ _ so' hcreated =>
      subst hcreated
      obtain rfl : so = so' := by simpa [performNew] using hnew
      exact ⟨by simp, .inr ⟨i, by simp [setSat]⟩⟩
    | _ => cases hnew
  | @connects _ so2 =>
    obtain rfl : so = so2 := by simpa [new] using hnew
    simp
  | _ => cases hnew

theorem commandStep_postedFor (h : CommandInv s) (hstep : commandStep s a = some t) {b : Nat}
    (hb : b ∈ s.pending i) : t.postedFor b = s.postedFor b := by
  by_cases ha : a.isRing = false
  · rw [(commandStep_sameRings ha hstep).postedFor]
  cases stepped hstep with
  | @posts b' _ _ _ _ hpc =>
    have hne : b ≠ b' := by
      rintro rfl
      have hhand : Token.buf b ∈ s.contents (.hand .server) := by
        simp [contents, hpc, Pc.tokens]
      cases h.once.unique hhand (mem_pending.mp hb)
    simp [setPc, setRx, hne]
  | noItem | takesData | accepts | receives | flushes | postRefused | submitRefused | submits => rfl
  | _ => exact absurd rfl ha

theorem mem_refillRings {cache : Fifo 63 RxItem} {rx : Fifo (dataRingsSize - 1) RxItem}
    (h : item ∈ (ServiceState.refillRings cache rx).1.items) :
    item ∈ cache.items ∨ item ∈ rx.items := by
  simp only [ServiceState.refillRings, Fifo.enqueueBurst, Fifo.dequeueBurst_fst, mem_append] at h
  exact h.imp_right fun hmem => mem_of_mem_take (mem_of_mem_take hmem)

theorem mem_dequeueRings {cache : Fifo 63 RxItem} {rx : Fifo (dataRingsSize - 1) RxItem}
    (h : item ∈ (ServiceState.dequeueRings cache rx).1 ∨
      item ∈ (ServiceState.dequeueRings cache rx).2.1.items) :
    item ∈ cache.items ∨ item ∈ rx.items := by
  unfold ServiceState.dequeueRings at h
  split at h
  · next x rest hcache =>
    rw [Fifo.dequeue_eq_some_iff.mp hcache]
    rcases h with hx | hmem
    · cases hx
      simp
    · exact (mem_refillRings hmem).imp_left (mem_cons_of_mem x)
  · apply mem_refillRings
    split at h
    next cache' rx' hrefill =>
    rw [hrefill]
    split at h
    · next x rest hcache' =>
      rw [Fifo.dequeue_eq_some_iff.mp hcache']
      rcases h with hx | hmem
      · cases hx
        simp
      · exact mem_cons_of_mem x hmem
    · rcases h with hx | hmem
      · cases hx
      · exact hmem

end Rings

namespace KindInv

variable {s t : CommandState} {a : CommandAction}

theorem travelling_step (h : KindInv s) (hstep : commandStep s a = some t) (so : SocketPtr)
    (p : CommandPlace) (hp : ∀ i, p ≠ .bound i) (hso : Token.conn so ∈ t.contents p) :
    (t.sock so).connected = true := by
  have hflow := commandStep_flow hstep
  have hinv := h.inv.step hstep
  rcases hflow.located_or_mem_new ⟨p, hso⟩ with ⟨q, hq⟩ | hnew
  · have hlive := h.inv.live so ⟨q, hq⟩
    have hnot : ∀ i, q ≠ .bound i := by
      rintro i rfl
      have hsat := mem_bound.mp hq
      rcases h.inv.sat_or_close hstep hsat with hsame | ⟨created, ok, b, rfl, hpc⟩
      · exact hp i (hinv.once.unique hso (located_bound hsame).1)
      · refine hflow.not_located_of_mem_lost h.inv.once ?_ ?_ ⟨p, hso⟩
        · simp [lost, hpc, performLost, hsat]
        · simp [new, hpc, performNew]
    exact (commandStep_kind hstep hlive.1 hlive.2).connected (h.travelling so q hnot hq)
  · rcases (commandStep_new hstep hnew).2 with hconnected | ⟨i, hsat⟩
    · exact hconnected
    · exact absurd (hinv.once.unique hso (located_bound hsat).1) (hp i)

theorem sat_of_listening (h : KindInv s) (hstep : commandStep s a = some t)
    (hsat : t.sat i = some so) (hlistening : (t.sock so).listening = true) : s.sat i = some so := by
  have hflow := commandStep_flow hstep
  have hinv := h.inv.step hstep
  have hmem := (located_bound hsat).1
  rcases hflow.located_or_mem_new ⟨_, hmem⟩ with ⟨q, hq⟩ | hnew
  · by_cases hbound : ∃ j, q = .bound j
    · obtain ⟨j, rfl⟩ := hbound
      have hwas := mem_bound.mp hq
      rcases h.inv.sat_or_close hstep hwas with hsame | ⟨created, ok, b, rfl, hpc⟩
      · cases hinv.once.unique hmem (located_bound hsame).1
        exact hwas
      · refine absurd ⟨_, hmem⟩ (hflow.not_located_of_mem_lost h.inv.once ?_ ?_)
        · simp [lost, hpc, performLost, hwas]
        · simp [new, hpc, performNew]
    · -- it was on its way, so it is a connection
      have hlive := h.inv.live so ⟨q, hq⟩
      have hconnected := (commandStep_kind hstep hlive.1 hlive.2).connected
        (h.travelling so q (fun j hj => hbound ⟨j, hj⟩) hq)
      simp [hinv.kind so hlistening] at hconnected
  · simp [(commandStep_new hstep hnew).1] at hlistening

theorem listening_before (h : KindInv s) (hsafe : KindSafe s a) (hstep : commandStep s a = some t)
    (hsat : t.sat i = some so) (hlistening : (t.sock so).listening = true) :
    s.sat i = some so ∧ ((s.sock so).listening = true ∨ (t.rx i).items = []) := by
  have hwas := h.sat_of_listening hstep hsat hlistening
  have hlive := h.inv.live so ⟨_, (located_bound hwas).1⟩
  refine ⟨hwas, ?_⟩
  rcases (commandStep_kind hstep hlive.1 hlive.2).started hlistening with hl |
    ⟨created, ok, b, j, rfl, hpc, hj⟩
  · exact .inl hl
  · obtain rfl : i = j := by
      have hblock := (h.inv.linked i so hwas).symm.trans (h.inv.linked j so hj)
      simpa using hblock
    rcases hsafe.2 i (by simp [hpc, Pc.listens]) with ⟨so', hso', hl⟩ | hempty
    · obtain rfl : so = so' := Option.some.inj (hwas.symm.trans hso')
      exact .inl hl
    · right
      rw [(commandStep_sameRings rfl hstep).rx]
      exact hempty

theorem announced_step (h : KindInv s) (hsafe : KindSafe s a) (hstep : commandStep s a = some t)
    (i : Slot) (so : SocketPtr) (hsat : t.sat i = some so)
    (hlistening : (t.sock so).listening = true) (item : RxItem) (hitem : item ∈ (t.rx i).items) :
    ∃ b ∈ item.cmdBuf, t.postedFor b = some so := by
  obtain ⟨hwas, hl | hempty⟩ := h.listening_before hsafe hstep hsat hlistening
  · have hold (hmem : item ∈ (s.rx i).items) : ∃ b ∈ item.cmdBuf, t.postedFor b = some so := by
      obtain ⟨b, hb, hposted⟩ := h.announced i so hwas hl item hmem
      refine ⟨b, hb, ?_⟩
      rw [commandStep_postedFor h.inv hstep (mem_filterMap.mpr ⟨item, hmem, hb⟩)]
      exact hposted
    rcases commandStep_rx hstep i with hsub |
      ⟨b, so2, listener, ipaddr, port, hpc, hitems, hposted⟩ | ⟨so', buf, hso', hconnected, -⟩
    · exact hold (hsub.subset hitem)
    · rw [hitems, mem_append, mem_singleton] at hitem
      rcases hitem with hmem | rfl
      · exact hold hmem
      · have htarget := (h.inv.target i listener (by simp [hpc, Pc.target])).1
        obtain rfl : listener = so := Option.some.inj (htarget.symm.trans hwas)
        exact ⟨b, rfl, by rw [hposted, update_self]⟩
    · obtain rfl : so' = so := Option.some.inj (hso'.symm.trans hwas)
      simp [h.inv.kind so' hl] at hconnected
  · simp [hempty] at hitem

theorem packets_step (h : KindInv s) (hsafe : KindSafe s a) (hstep : commandStep s a = some t)
    (i : Slot) (hi : ¬ t.Listening i) (item : RxItem) (hitem : item ∈ (t.rx i).items) :
    item.cmdBuf = none := by
  by_cases hwas : s.Listening i
  · rcases h.inv.listening_or_close hstep hwas with hl | ⟨created, ok, b, rfl, hpc⟩
    · exact absurd hl hi
    · rw [(commandStep_sameRings rfl hstep).rx] at hitem
      rcases hsafe.1 i (by simp [hpc, Pc.closes]) with hno | hempty
      · exact absurd hwas hno
      · simp [hempty] at hitem
  · rcases commandStep_rx hstep i with hsub |
      ⟨b, so2, listener, ipaddr, port, hpc, -⟩ | ⟨so', buf, -, -, hitems⟩
    · exact h.packets i hwas item (hsub.subset hitem)
    · exact absurd ⟨listener, h.inv.target i listener (by simp [hpc, Pc.target])⟩ hwas
    · rw [hitems, mem_append, mem_singleton] at hitem
      rcases hitem with hmem | rfl
      · exact h.packets i hwas item hmem
      · rfl

theorem packets_of_safe (h : KindInv s) (hsafe : ¬ s.Listening i ∨ (s.rx i).items = [])
    (hitem : item ∈ (s.rx i).items) : item.cmdBuf = none := by
  rcases hsafe with hno | hempty
  · exact h.packets i hno item hitem
  · simp [hempty] at hitem

theorem received_packet (h : KindInv s) {a : Nat} (hsafe : ¬ s.Listening i ∨ (s.rx i).items = [])
    (hitem : item ∈ (ServiceState.dequeueRings (s.cache a i) (s.rx i)).1 ∨
      item ∈ (ServiceState.dequeueRings (s.cache a i) (s.rx i)).2.1.items) :
    item.cmdBuf = none :=
  (mem_dequeueRings hitem).elim (h.cached a i item) (h.packets_of_safe hsafe)

theorem cached_step (h : KindInv s) (hsafe : KindSafe s a) (hstep : commandStep s a = some t)
    (a' : Nat) (j : Slot) (item : RxItem) (hitem : item ∈ (t.cache a' j).items) :
    item.cmdBuf = none := by
  -- a step sets the cache of one application and slot
  have hset {b : Nat} {i : Slot} {cache : Fifo 63 RxItem}
      (hcache : ∀ item ∈ cache.items, item.cmdBuf = none)
      (hmem : item ∈ (update s.cache b (update (s.cache b) i cache) a' j).items) :
      item.cmdBuf = none := by
    by_cases hb : a' = b
    · subst hb
      rw [update_self] at hmem
      by_cases hj : j = i
      · subst hj
        rw [update_self] at hmem
        exact hcache item hmem
      · rw [update_of_ne hj] at hmem
        exact h.cached a' j item hmem
    · rw [update_of_ne hb] at hmem
      exact h.cached a' j item hmem
  by_cases ha : a.isRing = false
  · exact h.cached a' j item ((commandStep_sameRings ha hstep).cache ▸ hitem)
  cases stepped hstep with
  | receives => exact hset (fun item hmem => h.received_packet hsafe (.inr hmem)) hitem
  | flushes => exact hset (by simp) hitem
  | noItem | takesData | accepts | postRefused | posts | submitRefused | submits =>
    exact h.cached a' j item hitem
  | _ => exact absurd rfl ha

theorem right_step (h : KindInv s) (hsafe : KindSafe s a) (hstep : commandStep s a = some t) :
    KindsHold t := by
  have happend (use : RxUse) (i : Slot) (items : List RxItem)
      (hitems : ∀ item ∈ items, (s.takenOff use i item).Right) :
      ∀ e ∈ s.taken ++ items.map (s.takenOff use i), e.Right := by
    intro e he
    rcases mem_append.mp he with hold | hnew
    · exact h.right e hold
    · obtain ⟨item, hitem, rfl⟩ := List.mem_map.mp hnew
      exact hitems item hitem
  by_cases ha : a.isRing = false
  · unfold KindsHold
    rw [(commandStep_sameRings ha hstep).taken]
    exact h.right
  -- what `service_accept` finds on a listening slot is a command for its socket
  have hcommand {l : Slot} {item : RxItem} {rest : List RxItem}
      (hrx : (s.rx l).items = item :: rest) (hl : s.Listening l ∨ (s.rx l).items = []) :
      ∃ so b, s.sat l = some so ∧ b ∈ item.cmdBuf ∧ s.postedFor b = some so := by
    rcases hl with ⟨so, hsat, hl⟩ | hempty
    · obtain ⟨b, hb, hposted⟩ := h.announced l so hsat hl item (by simp [hrx])
      exact ⟨so, b, hsat, hb, hposted⟩
    · simp [hempty] at hrx
  cases stepped hstep with
  | takesData hrx =>
    obtain ⟨-, b, -, hb, -⟩ := hcommand hrx hsafe
    cases hb
  | @accepts _ l b ipaddr port so2 _ _ hrx =>
    obtain ⟨so, b', hsat, hb, hposted⟩ := hcommand hrx hsafe
    cases hb
    apply happend .command l [.accepted b so2 ipaddr port]
    simp [takenOff, RxTaken.Right, RxItem.cmdBuf, hsat, hposted]
  | @receives b i =>
    apply happend .packet i
      (s.refilled b i ++ (ServiceState.dequeueRings (s.cache b i) (s.rx i)).1.toList)
    intro item hitem
    rcases mem_append.mp hitem with hmem | hmem
    · exact h.packets_of_safe hsafe (mem_of_mem_take hmem)
    · exact h.received_packet hsafe (.inl (Option.mem_toList.mp hmem))
  | @flushes b i hpc =>
    apply happend .packet i ((s.cache b i).items ++ (s.rx i).items)
    intro item hitem
    rcases mem_append.mp hitem with hmem | hmem
    · exact h.cached b i item hmem
    · exact h.packets_of_safe (hsafe i (by simp [hpc, Pc.flushes])) hmem
  | noItem | postRefused | posts | submitRefused | submits => exact h.right
  | _ => exact absurd rfl ha

theorem step (h : KindInv s) (hsafe : KindSafe s a) (hstep : commandStep s a = some t) :
    KindInv t :=
  ⟨h.inv.step hstep, h.travelling_step hstep, h.announced_step hsafe hstep,
    h.packets_step hsafe hstep, h.cached_step hsafe hstep, h.right_step hsafe hstep⟩

theorem start {pool : List Nat} (hpool : pool.Nodup) : KindInv (.start pool) where
  inv := CommandInv.start hpool
  travelling so p _ hso := by
    rcases mem_contents_start hso with ⟨-, b, h⟩ | ⟨-, i, h⟩ <;> cases h
  announced _ _ _ _ _ h := by cases h
  packets _ _ _ h := by cases h
  cached _ _ _ h := by cases h
  right _ h := by cases h

end KindInv

/-- Under `KindSafe` every receiver takes off the ring what it takes it for. -/
theorem kindsHold_of_run {pool : List Nat} {as : List CommandAction} {s : CommandState}
    (hpool : pool.Nodup) (hrun : Run commandStep KindSafe (.start pool) as s) : KindsHold s :=
  (hrun.invariant (I := KindInv) (fun _ _ _ h hsafe hstep => h.step hsafe hstep)
    (KindInv.start hpool)).right

instance (s : CommandState) (a : CommandAction) : Decidable (KindSafe s a) := by
  rcases a <;> unfold KindSafe <;> infer_instance

instance (e : RxTaken) : Decidable e.Right := by
  unfold RxTaken.Right
  cases e.use <;> infer_instance

theorem kindsHold_of_run_received : ∃ s,
    Run commandStep KindSafe (.start commandPool)
      (announced ++ acceptedIn ++ [.submit 1 7, .receive 0 1]) s ∧
      s.taken.map RxTaken.use = [.command, .packet, .packet] ∧ KindsHold s :=
  Run.exists_and_of_runActions (by decide +kernel) fun _ hrun _ =>
    kindsHold_of_run List.nodup_range hrun

theorem flushed_accept_freed : ∃ s, Run commandStep (fun _ _ => True) (.start commandPool)
    (closedUnaccepted ++ [.flush 0]) s ∧ ¬ KindsHold s := by
  unfold KindsHold
  exact Run.exists_of_runActions (by decide +kernel)

end NetbsdDpdk
