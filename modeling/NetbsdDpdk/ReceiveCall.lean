import NetbsdDpdk.Service

/-! `service_dequeue_rx_buf` in the steps between which the server can act. Only the application
takes from the two rings; the server may add to the receive ring at any moment. -/

namespace NetbsdDpdk

open List Function

open ServiceState (refillRings dequeueRings)

inductive CallPc
  | idle
  | popped (mbuf : Option RxItem)
  | cleared (mbuf : Option RxItem)
  | counted (mbuf : Option RxItem)
  | refilled (mbuf : Option RxItem)
  | taken (mbuf : Option RxItem)
  deriving DecidableEq

structure RxCall where
  pc : CallPc := .idle
  cache : Fifo 63 RxItem := Fifo.empty
  rx : Fifo (dataRingsSize - 1) RxItem := Fifo.empty

namespace RxCall

variable {c : RxCall} {rx : Fifo (dataRingsSize - 1) RxItem}

def popCache (c : RxCall) : Option RxItem × Fifo 63 RxItem :=
  match c.cache.dequeue with
  | some (x, cache) => (some x, cache)
  | none => (none, c.cache)

def advance (c : RxCall) : RxCall :=
  match c.pc with
  | .idle => { c with pc := .popped c.popCache.1, cache := c.popCache.2 }
  | .popped mbuf => { c with pc := .cleared mbuf }
  | .cleared mbuf => { c with pc := if 0 < c.rx.count then .counted mbuf else .refilled mbuf }
  | .counted mbuf =>
    { pc := .refilled mbuf
      cache := (refillRings c.cache c.rx).1
      rx := (refillRings c.cache c.rx).2 }
  | .refilled none => { c with pc := .taken c.popCache.1, cache := c.popCache.2 }
  | .refilled (some x) => { c with pc := .taken (some x) }
  | .taken _ => { c with pc := .idle }

def SawEmpty (c : RxCall) : Prop :=
  match c.pc with
  | .refilled none => c.cache.items = []
  | .taken none => True
  | _ => False

def Knows (c : RxCall) : Prop :=
  match c.pc with
  | .popped none | .cleared none | .taken none => c.cache.items = []
  | .counted mbuf => c.rx.items ≠ [] ∧ (mbuf = none → c.cache.items = [])
  | _ => True

theorem popCache_fst_eq_none (h : c.popCache.1 = none) : c.popCache.2.items = [] := by
  unfold popCache at h ⊢
  split at h
  · simp at h
  · next hnone => exact Fifo.dequeue_eq_none_iff.mp hnone

theorem knows_pop {pc : Option RxItem → CallPc} (hpc : pc = .popped ∨ pc = .taken) :
    RxCall.Knows { c with pc := pc c.popCache.1, cache := c.popCache.2 } := by
  cases hpop : c.popCache.1 with
  | none =>
    have hempty := popCache_fst_eq_none hpop
    rcases hpc with rfl | rfl <;> exact hempty
  | some x => rcases hpc with rfl | rfl <;> trivial

theorem Knows.advance (h : c.Knows) : c.advance.Knows := by
  obtain ⟨pc, cache, rx⟩ := c
  match pc with
  | .idle => exact knows_pop (.inl rfl)
  | .popped none => exact h
  | .popped (some x) => trivial
  | .cleared none =>
    by_cases hcount : 0 < rx.count
    · simpa [RxCall.advance, Knows, hcount] using ⟨length_pos_iff.mp hcount, h⟩
    · simp [RxCall.advance, Knows, hcount]
  | .cleared (some x) =>
    by_cases hcount : 0 < rx.count
    · simpa [RxCall.advance, Knows, hcount] using length_pos_iff.mp hcount
    · simp [RxCall.advance, Knows, hcount]
  | .counted mbuf => trivial
  | .refilled none => exact knows_pop (.inr rfl)
  | .refilled (some x) => trivial
  | .taken mbuf => trivial

theorem Knows.enqueue {x : RxItem} (h : c.Knows) (hrx : rx.items = c.rx.items ++ [x]) :
    RxCall.Knows { c with rx := rx } := by
  obtain ⟨pc, cache, old⟩ := c
  match pc with
  | .idle | .refilled _ => trivial
  | .popped none | .cleared none | .taken none => exact h
  | .popped (some _) | .cleared (some _) | .taken (some _) => trivial
  | .counted mbuf => exact ⟨by simp [hrx], h.2⟩

theorem SawEmpty.cache (h : c.SawEmpty) (hknows : c.Knows) : c.cache.items = [] := by
  obtain ⟨pc, cache, rx⟩ := c
  match pc with
  | .refilled none => exact h
  | .taken none => exact hknows

theorem refillRings_ne_nil {cache : Fifo 63 RxItem} (hcache : cache.items = [])
    (hrx : rx.items ≠ []) : (refillRings cache rx).1.items ≠ [] := by
  obtain ⟨x, xs, hitems⟩ := exists_cons_of_ne_nil hrx
  simp [refillRings, Fifo.enqueueBurst, Fifo.freeCount, Fifo.count, hcache, hitems, maxPktBurst]

theorem refillRings_of_nil {cache : Fifo 63 RxItem} (hrx : rx.items = []) :
    refillRings cache rx = (cache, rx) := by
  obtain ⟨items, hlen⟩ := rx
  cases hrx
  simp [refillRings, Fifo.enqueueBurst, Fifo.dequeueBurst]

theorem sawEmpty_advance (hknows : c.Knows) (h : c.advance.SawEmpty) :
    c.advance.rx = c.rx ∧ (c.SawEmpty ∨ c.rx.items = []) := by
  obtain ⟨pc, cache, rx⟩ := c
  match pc with
  | .cleared mbuf =>
    by_cases hcount : 0 < rx.count
    · simp [advance, SawEmpty, hcount] at h
    · exact ⟨rfl, .inr (length_eq_zero_iff.mp (Nat.eq_zero_of_not_pos hcount))⟩
  | .counted none => exact absurd h (refillRings_ne_nil (hknows.2 rfl) hknows.1)
  | .refilled none =>
    refine ⟨rfl, .inl ?_⟩
    simp only [advance, SawEmpty] at h
    cases hpop : cache.dequeue with
    | none => exact Fifo.dequeue_eq_none_iff.mp hpop
    | some p => simp [popCache, hpop] at h

theorem advance_of_nil (hrx : c.rx.items = []) (hcache : c.cache.items = []) :
    c.advance.rx.items = [] ∧ c.advance.cache.items = [] := by
  obtain ⟨pc, cache, rx⟩ := c
  have hpop : (popCache ⟨pc, cache, rx⟩).2.items = [] := by
    simpa [popCache, Fifo.dequeue_eq_none_iff.mpr hcache] using hcache
  match pc with
  | .idle | .refilled none => exact ⟨hrx, hpop⟩
  | .popped _ | .cleared _ | .refilled (some _) | .taken _ => exact ⟨hrx, hcache⟩
  | .counted mbuf => simpa [advance, refillRings_of_nil hrx] using ⟨hrx, hcache⟩

def Inside (c : RxCall) : Prop := c.pc ≠ .idle

theorem Inside.advance (h : c.Inside) :
    c.advance.Inside ∨ ∃ mbuf, c.pc = .taken mbuf := by
  obtain ⟨pc, cache, rx⟩ := c
  match pc with
  | .idle => exact absurd rfl h
  | .popped _ | .counted _ | .refilled none | .refilled (some _) =>
    exact .inl (by simp [Inside, RxCall.advance])
  | .cleared _ => exact .inl (by simp only [Inside, RxCall.advance]; split <;> simp)
  | .taken mbuf => exact .inr ⟨mbuf, rfl⟩

theorem freeCount_advance (c : RxCall) : c.rx.freeCount ≤ c.advance.rx.freeCount ∧
    (c.advance.rx.freeCount = c.rx.freeCount ∨ c.advance.Inside) := by
  obtain ⟨pc, cache, rx⟩ := c
  match pc with
  | .idle | .popped _ | .cleared _ | .refilled none | .refilled (some _) | .taken _ =>
    exact ⟨le_refl _, .inl rfl⟩
  | .counted mbuf =>
    refine ⟨?_, .inr (by simp [Inside, advance])⟩
    simp only [advance, refillRings, Fifo.freeCount, Fifo.count, Fifo.dequeueBurst_snd_items,
      length_drop]
    omega

theorem advance_of_cleared (cache : Fifo 63 RxItem) (rx : Fifo (dataRingsSize - 1) RxItem)
    (mbuf : Option RxItem) : ∃ k, advance^[k] ⟨.cleared mbuf, cache, rx⟩ =
      ⟨.refilled mbuf, (refillRings cache rx).1, (refillRings cache rx).2⟩ := by
  by_cases hcount : 0 < rx.count
  · exact ⟨2, by simp [advance, hcount]⟩
  · have hnil : rx.items = [] := length_eq_zero_iff.mp (Nat.eq_zero_of_not_pos hcount)
    exact ⟨1, by simp [advance, hcount, refillRings_of_nil hnil]⟩

/-- The steps of a call, taken without a break, are `service_dequeue_rx_buf` as a whole. -/
theorem advance_eq_dequeueRings (cache : Fifo 63 RxItem) (rx : Fifo (dataRingsSize - 1) RxItem) :
    ∃ k, advance^[k] ⟨.idle, cache, rx⟩ = ⟨.taken (dequeueRings cache rx).1,
      (dequeueRings cache rx).2.1, (dequeueRings cache rx).2.2⟩ := by
  cases hpop : cache.dequeue with
  | none =>
    obtain ⟨k, hk⟩ := advance_of_cleared cache rx none
    refine ⟨1 + k + 2, ?_⟩
    have hstart : advance^[2] ⟨.idle, cache, rx⟩ = ⟨.cleared none, cache, rx⟩ := by
      simp [advance, popCache, hpop]
    rw [iterate_add_apply, hstart, iterate_add_apply, hk]
    cases hagain : (refillRings cache rx).1.dequeue with
    | none => simp [advance, popCache, dequeueRings, hpop, hagain]
    | some p => simp [advance, popCache, dequeueRings, hpop, hagain]
  | some p =>
    obtain ⟨x, rest⟩ := p
    obtain ⟨k, hk⟩ := advance_of_cleared rest rx (some x)
    refine ⟨1 + k + 2, ?_⟩
    have hstart : advance^[2] ⟨.idle, cache, rx⟩ = ⟨.cleared (some x), rest, rx⟩ := by
      simp [advance, popCache, hpop]
    rw [iterate_add_apply, hstart, iterate_add_apply, hk]
    simp [advance, dequeueRings, hpop]

end RxCall

end NetbsdDpdk
