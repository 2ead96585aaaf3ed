import NetbsdDpdk.ReadableWakeup
import NetbsdDpdk.SpscRing

/-! `user_data_available_cbk` (`service_loop.c`) beside an application that takes buffers off the
same `rx_ring`. The callback reads the free entries once and counts them down by itself. -/

namespace NetbsdDpdk

open List

variable {j : Nat} {α : Type}

/-- `entry` is the free count that was read, and `count`, which is not in the code, the number of
buffers that have been submitted. -/
structure DeliveryLoop where
  entry : BitVec 32
  ringFree : Int
  count : Nat := 0

inductive RxDeliveryPc (α : Type)
  | idle
  | looping (l : DeliveryLoop)
  | received (l : DeliveryLoop) (mbuf : α)
  | enqueuing (l : DeliveryLoop) (mbuf : α) (rc : Int)
  | enqueued (l : DeliveryLoop) (mbuf : α) (rc : Int)

structure DeliveryCall where
  entry : BitVec 32
  count : Nat
  exhausted : Bool
  deriving DecidableEq

/-- `marks` counts the calls of `service_mark_readable`. The lists are histories. -/
structure RxDelivery (j : Nat) (α : Type) where
  ring : SpscRing j α := {}
  server : RxDeliveryPc α := .idle
  marks : Nat := 0
  received : List α := []
  delivered : List α := []
  dropped : List α := []
  taken : List α := []
  calls : List DeliveryCall := []

namespace RxDelivery

def finish (s : RxDelivery j α) (l : DeliveryLoop) (exhausted : Bool) : RxDelivery j α :=
  { s with
    server := .idle
    marks := if !exhausted && l.ringFree = 0 then s.marks + 1 else s.marks
    calls := s.calls ++ [⟨l.entry, l.count, exhausted⟩] }

/-- The end of `service_submit_rx_buf`, and what the loop does with its result. -/
def submitted (s : RxDelivery j α) (l : DeliveryLoop) (mbuf : α) (rc : Int) : RxDelivery j α :=
  let s := if rc ≠ 0 then { s with marks := s.marks + 1 } else s
  if rc = -enobufs then { s with dropped := s.dropped ++ [mbuf] }.finish l false
  else { s with server := .looping { l with count := l.count + 1 } }

end RxDelivery

/-- `receive none` is a failed `app_glue_receive` or `app_glue_receivefrom`. -/
inductive RxDeliveryAction (α : Type)
  | enter
  | receive (mbuf : Option α)
  | reserve
  | publish
  | submitted
  | leave
  | look (n : Nat)
  | release

/-- One step of the server, or one half of a dequeue by the application. The watermark of the ring
is 1. -/
def rxDeliveryStep (s : RxDelivery j α) : RxDeliveryAction α → Option (RxDelivery j α)
  | .enter =>
    match s.server with
    | .idle => some { s with server := .looping ⟨s.ring.freeCount, s.ring.freeCount.toInt, 0⟩ }
    | _ => none
  | .receive mbuf =>
    match s.server with
    | .looping l =>
      if 0 < l.ringFree then
        match mbuf with
        | none => some (s.finish l true)
        | some mbuf => some { s with
            server := .received { l with ringFree := l.ringFree - 1 } mbuf
            received := s.received ++ [mbuf] }
      else none
    | _ => none
  | .reserve =>
    match s.server with
    | .received l mbuf =>
      match s.ring.reserve with
      | none => some { s with server := .enqueued l mbuf (-enobufs) }
      | some ring =>
        some { s with
          ring
          server := .enqueuing l mbuf (if s.ring.overQuota 1#32 then -edquot else 0) }
    | _ => none
  | .publish =>
    match s.server with
    | .enqueuing l mbuf rc =>
      some { s with
        ring := s.ring.publish mbuf
        server := .enqueued l mbuf rc
        delivered := s.delivered ++ [mbuf] }
    | _ => none
  | .submitted =>
    match s.server with
    | .enqueued l mbuf rc => some (s.submitted l mbuf rc)
    | _ => none
  | .leave =>
    match s.server with
    | .looping l => if 0 < l.ringFree then none else some (s.finish l false)
    | _ => none
  | .look n => some { s with ring := s.ring.look n }
  | .release => some { s with ring := s.ring.release, taken := s.taken ++ s.ring.taken }

namespace RxDeliveryPc

def inHand : RxDeliveryPc α → List α
  | .received _ mbuf => [mbuf]
  | .enqueuing _ mbuf _ => [mbuf]
  | _ => []

def reserved : RxDeliveryPc α → BitVec 32
  | .enqueuing _ _ _ => 1#32
  | _ => 0#32

def Counts (free : Nat) : RxDeliveryPc α → Prop
  | .idle => True
  | .looping l => 0 ≤ l.ringFree ∧ l.ringFree ≤ free ∧ l.count + l.ringFree = l.entry.toNat
  | .received l _ =>
    0 ≤ l.ringFree ∧ l.ringFree + 1 ≤ free ∧ l.count + 1 + l.ringFree = l.entry.toNat
  | .enqueuing l _ rc =>
    0 ≤ l.ringFree ∧ l.ringFree + 1 ≤ free ∧ l.count + 1 + l.ringFree = l.entry.toNat ∧
      rc ≠ -enobufs
  | .enqueued l _ rc =>
    0 ≤ l.ringFree ∧ l.ringFree ≤ free ∧ l.count + 1 + l.ringFree = l.entry.toNat ∧
      rc ≠ -enobufs

theorem Counts.mono {free free' : Nat} {pc : RxDeliveryPc α} (h : pc.Counts free)
    (hle : free ≤ free') : pc.Counts free' := by
  cases pc <;> simp only [Counts] at h ⊢ <;> omega

end RxDeliveryPc

structure RxDeliveryInv (base : List α) (s : RxDelivery j α) (xs : List α) : Prop where
  ring : s.ring.Holds xs
  head : s.ring.prodHead = s.ring.prodTail + s.server.reserved
  counts : s.server.Counts (2 ^ j - 1 - xs.length)
  hand : s.received = s.delivered ++ s.server.inHand
  order : s.taken ++ xs = base ++ s.delivered
  dropped : s.dropped = []
  calls : ∀ c ∈ s.calls, c.exhausted = true ∨ c.count = c.entry.toNat

namespace RxDeliveryInv

variable {base xs : List α} {s t : RxDelivery j α} {l : DeliveryLoop} {mbuf : α}

theorem enter (h : RxDeliveryInv base s xs) (hpc : s.server = .idle) :
    RxDeliveryInv base
      { s with server := .looping ⟨s.ring.freeCount, s.ring.freeCount.toInt, 0⟩ } xs := by
  have hhead := h.head
  rw [hpc] at hhead
  replace hhead : s.ring.prodHead = s.ring.prodTail := hhead.trans (BitVec.add_zero _)
  have hfree := h.ring.toNat_freeCount hhead
  have hpow : 2 ^ j < 2 ^ 32 := Nat.pow_lt_pow_right (by omega) h.ring.small
  rw [h.ring.length] at hfree
  have hhand := h.hand
  rw [hpc] at hhand
  have hint : s.ring.freeCount.toInt = s.ring.freeCount.toNat := by
    have hle : 2 ^ j ≤ 2 ^ 31 := Nat.pow_le_pow_right (by omega) (by have := h.ring.small; omega)
    rw [BitVec.toInt_eq_toNat_cond, if_pos (by omega)]
  refine ⟨h.ring, hhead.trans (BitVec.add_zero _).symm, ?_, hhand, h.order, h.dropped, h.calls⟩
  exact ⟨by dsimp only; omega, by dsimp only; omega, by dsimp only; omega⟩

theorem finish (h : RxDeliveryInv base s xs) (hpc : s.server = .looping l) {exhausted : Bool}
    (hleft : exhausted = true ∨ l.ringFree = 0) : RxDeliveryInv base (s.finish l exhausted) xs := by
  obtain ⟨hring, hhead, hcounts, hhand, horder, hdropped, hcalls⟩ := h
  rw [hpc] at hhead hcounts hhand
  refine ⟨hring, hhead, trivial, hhand, horder, hdropped, ?_⟩
  intro c hc
  rcases mem_append.mp hc with hc | hc
  · exact hcalls c hc
  · rw [mem_singleton.mp hc]
    refine hleft.imp_right fun hzero => ?_
    obtain ⟨-, -, hsum⟩ := hcounts
    dsimp only
    omega

theorem receive (h : RxDeliveryInv base s xs) (hpc : s.server = .looping l)
    (hpos : 0 < l.ringFree) :
    RxDeliveryInv base { s with
      server := .received { l with ringFree := l.ringFree - 1 } mbuf
      received := s.received ++ [mbuf] } xs := by
  obtain ⟨hring, hhead, hcounts, hhand, horder, hdropped, hcalls⟩ := h
  rw [hpc] at hhead hcounts hhand
  obtain ⟨hnonneg, hfree, hsum⟩ := hcounts
  refine ⟨hring, hhead, ?_, ?_, horder, hdropped, hcalls⟩
  · exact ⟨by dsimp only; omega, by dsimp only; omega, by dsimp only; omega⟩
  · rw [hhand]
    simp [RxDeliveryPc.inHand]

theorem reserve (h : RxDeliveryInv base s xs) (hpc : s.server = .received l mbuf) :
    ∃ ring, s.ring.reserve = some ring ∧ RxDeliveryInv base { s with
      ring
      server := .enqueuing l mbuf (if s.ring.overQuota 1#32 then -edquot else 0) } xs := by
  obtain ⟨hring, hhead, hcounts, hhand, horder, hdropped, hcalls⟩ := h
  rw [hpc] at hhead hcounts hhand
  obtain ⟨hnonneg, hfree, hsum⟩ := hcounts
  replace hhead : s.ring.prodHead = s.ring.prodTail := hhead.trans (BitVec.add_zero _)
  obtain ⟨ring, hres⟩ := Option.isSome_iff_exists.mp (hring.reserve_isSome hhead (by omega))
  refine ⟨ring, hres, hring.reserve hres, ?_, ?_, hhand, horder, hdropped, hcalls⟩
  · simp only [SpscRing.reserve] at hres
    split at hres
    · cases hres
    · cases hres
      rw [hhead]
      rfl
  · refine ⟨hnonneg, hfree, hsum, ?_⟩
    split <;> decide

theorem publish {rc : Int} (h : RxDeliveryInv base s xs) (hpc : s.server = .enqueuing l mbuf rc) :
    RxDeliveryInv base { s with
      ring := s.ring.publish mbuf
      server := .enqueued l mbuf rc
      delivered := s.delivered ++ [mbuf] } (xs ++ [mbuf]) := by
  obtain ⟨hring, hhead, hcounts, hhand, horder, hdropped, hcalls⟩ := h
  rw [hpc] at hhead hcounts hhand
  obtain ⟨hnonneg, hfree, hsum, hrc⟩ := hcounts
  refine ⟨hring.publish hhead mbuf, ?_, ?_, ?_, ?_, hdropped, hcalls⟩
  · simp [SpscRing.publish, RxDeliveryPc.reserved]
  · refine ⟨hnonneg, ?_, hsum, hrc⟩
    rw [length_append, length_singleton]
    omega
  · simpa [RxDeliveryPc.inHand] using hhand
  · rw [← append_assoc, horder, append_assoc]

theorem submitted {rc : Int} (h : RxDeliveryInv base s xs) (hpc : s.server = .enqueued l mbuf rc) :
    RxDeliveryInv base (s.submitted l mbuf rc) xs := by
  obtain ⟨hring, hhead, hcounts, hhand, horder, hdropped, hcalls⟩ := h
  rw [hpc] at hhead hcounts hhand
  obtain ⟨hnonneg, hfree, hsum, hrc⟩ := hcounts
  have hloop : (RxDeliveryPc.looping (α := α) { l with count := l.count + 1 }).Counts
      (2 ^ j - 1 - xs.length) := ⟨hnonneg, hfree, by push_cast; exact hsum⟩
  simp only [RxDelivery.submitted, if_neg hrc]
  split
  · exact ⟨hring, hhead, hloop, hhand, horder, hdropped, hcalls⟩
  · exact ⟨hring, hhead, hloop, hhand, horder, hdropped, hcalls⟩

theorem look (h : RxDeliveryInv base s xs) (n : Nat) :
    RxDeliveryInv base { s with ring := s.ring.look n } xs :=
  ⟨h.ring.look n, h.head, h.counts, h.hand, h.order, h.dropped, h.calls⟩

theorem release (h : RxDeliveryInv base s xs) :
    RxDeliveryInv base { s with ring := s.ring.release, taken := s.taken ++ s.ring.taken }
      (xs.drop (s.ring.consHead - s.ring.consTail).toNat) := by
  refine ⟨h.ring.release, h.head, ?_, h.hand, ?_, h.dropped, h.calls⟩
  · refine h.counts.mono ?_
    rw [length_drop]
    omega
  · rw [h.ring.taken_eq, append_assoc, take_append_drop]
    exact h.order

theorem step {a : RxDeliveryAction α} (h : ∃ xs, RxDeliveryInv base s xs)
    (hstep : rxDeliveryStep s a = some t) : ∃ xs, RxDeliveryInv base t xs := by
  obtain ⟨xs, h⟩ := h
  cases a with
  | enter =>
    simp only [rxDeliveryStep] at hstep
    split at hstep <;> cases hstep
    next hpc => exact ⟨xs, h.enter hpc⟩
  | receive mbuf =>
    simp only [rxDeliveryStep] at hstep
    split at hstep
    case h_2 => cases hstep
    next l hpc =>
    split at hstep
    case isFalse => cases hstep
    next hpos =>
    cases mbuf with
    | none =>
      cases hstep
      exact ⟨xs, h.finish hpc (.inl rfl)⟩
    | some mbuf =>
      cases hstep
      exact ⟨xs, h.receive hpc hpos⟩
  | reserve =>
    simp only [rxDeliveryStep] at hstep
    split at hstep
    case h_2 => cases hstep
    next l mbuf hpc =>
    obtain ⟨ring, hres, hinv⟩ := h.reserve hpc
    rw [hres] at hstep
    cases hstep
    exact ⟨xs, hinv⟩
  | publish =>
    simp only [rxDeliveryStep] at hstep
    split at hstep <;> cases hstep
    next l mbuf rc hpc => exact ⟨xs ++ [mbuf], h.publish hpc⟩
  | submitted =>
    simp only [rxDeliveryStep] at hstep
    split at hstep <;> cases hstep
    next l mbuf rc hpc => exact ⟨xs, h.submitted hpc⟩
  | leave =>
    simp only [rxDeliveryStep] at hstep
    split at hstep
    case h_2 => cases hstep
    next l hpc =>
    split at hstep <;> cases hstep
    next hpos =>
    have hcounts := h.counts
    rw [hpc] at hcounts
    have hnonneg : 0 ≤ l.ringFree := hcounts.1
    exact ⟨xs, h.finish hpc (.inr (by omega))⟩
  | look n =>
    cases hstep
    exact ⟨xs, h.look n⟩
  | release =>
    cases hstep
    exact ⟨_, h.release⟩

end RxDeliveryInv

structure RxDelivery.Start (s : RxDelivery j α) (xs : List α) : Prop where
  ring : s.ring.Holds xs
  head : s.ring.prodHead = s.ring.prodTail
  server : s.server = .idle
  histories : s.received = [] ∧ s.delivered = [] ∧ s.dropped = [] ∧ s.taken = [] ∧ s.calls = []

theorem RxDeliveryInv.of_start {s : RxDelivery j α} {xs : List α} (h : s.Start xs) :
    RxDeliveryInv xs s xs := by
  obtain ⟨hring, hhead, hpc, hrec, hdel, hdrop, htaken, hcalls⟩ := h
  refine ⟨hring, ?_, ?_, ?_, ?_, hdrop, ?_⟩
  · rw [hpc, hhead]
    simp [RxDeliveryPc.reserved]
  · rw [hpc]
    trivial
  · rw [hpc, hrec, hdel]
    rfl
  · rw [htaken, hdel]
    simp
  · simp [hcalls]

/-- However the callback and the application come between each other: `service_submit_rx_buf` does
not fail and nothing is freed, a call ends when a receive has failed or when it has submitted as
many buffers as there was room for at its start, and the application takes what was received, in
order. -/
theorem user_data_available_delivers {s t : RxDelivery j α} {xs : List α}
    {as : List (RxDeliveryAction α)} (hs : s.Start xs)
    (hrun : Run rxDeliveryStep (fun _ _ => True) s as t) :
    (∀ l mbuf rc, t.server = .enqueued l mbuf rc → rc ≠ -enobufs) ∧ t.dropped = [] ∧
      (∀ c ∈ t.calls, c.exhausted = true ∨ c.count = c.entry.toNat) ∧
      t.received = t.delivered ++ t.server.inHand ∧
      ∃ ys, t.ring.Holds ys ∧ t.taken ++ ys = xs ++ t.delivered := by
  obtain ⟨ys, hinv⟩ : ∃ ys, RxDeliveryInv xs t ys :=
    hrun.invariant (fun _ _ _ hI _ hstep => RxDeliveryInv.step hI hstep)
      ⟨xs, RxDeliveryInv.of_start hs⟩
  refine ⟨?_, hinv.dropped, hinv.calls, hinv.hand, ys, hinv.ring, hinv.order⟩
  intro l mbuf rc hpc
  have hcounts := hinv.counts
  rw [hpc] at hcounts
  exact hcounts.2.2.2

def wrappingRing : RxDelivery 2 Nat where
  ring := {
    prodHead := 4294967295#32, prodTail := 4294967295#32
    consHead := 4294967295#32, consTail := 4294967295#32 }

theorem user_data_available_delivers_wrapping : wrappingRing.Start [] ∧ ∃ t,
    Run rxDeliveryStep (fun _ _ => True) wrappingRing
      [.enter, .receive (some 7), .reserve, .publish, .look 2, .submitted, .receive (some 8),
        .release, .reserve, .publish, .submitted, .receive none] t ∧
    (t.taken = [7] ∧ t.delivered = [7, 8] ∧ t.calls = [⟨3, 2, true⟩]) ∧
    t.received = t.delivered ++ t.server.inHand ∧ t.dropped = [] := by
  have hstart : wrappingRing.Start [] :=
    ⟨⟨⟨by decide, by decide, by decide, by decide⟩, by decide, by simp⟩, rfl, rfl, rfl, rfl, rfl,
      rfl, rfl⟩
  refine ⟨hstart, Run.exists_and_of_runActions (by decide +kernel) fun t hrun _ => ?_⟩
  obtain ⟨-, hdropped, -, hhand, -⟩ := user_data_available_delivers hstart hrun
  exact ⟨hhand, hdropped⟩

end NetbsdDpdk
