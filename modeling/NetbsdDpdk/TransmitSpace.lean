import NetbsdDpdk.SpscRing
import NetbsdDpdk.Transition

/-! The transmit space that `service_get_socket_tx_space` advertises, and what the sends of the
application do to it (`api.c`). The credit `tx_space` is a signed number that datagram sends take
from without a look at it, and that the server sets or adds to. -/

namespace NetbsdDpdk

open List

variable {j : Nat} {α : Type}

/-- `freeBufs` is the number of buffers in `tx_bufs_pool`, `notified` counts the TX_POOL_EMPTY
commands, and `results`, which is not in the code, is what the sends have returned. -/
structure TxSide (j : Nat) (α : Type) where
  txRing : SpscRing j α := {}
  txSpace : BitVec 32 := 0
  writeReadyToApp : Bool := false
  freeBufs : Nat := 0
  notified : Nat := 0
  results : List Int := []

namespace TxSide

def advertised (s : TxSide j α) : Int :=
  let ringSpace := s.txRing.freeCount.toInt
  let freeBufsCount : Int := s.freeBufs
  let rc := if ringSpace > freeBufsCount then (if freeBufsCount > 0 then freeBufsCount else 0)
    else ringSpace
  let txSpace := s.txSpace.toInt.tdiv 1448
  if rc > txSpace then txSpace else rc

def getSocketTxSpace (s : TxSide j α) : Int × TxSide j α :=
  let rc := s.advertised
  (rc, if rc < 10 then { s with writeReadyToApp := false, notified := s.notified + 1 } else s)

/-- The end of a send: `enqueued` is the ring if there was room on it, and `charge` what is taken
from the credit then. -/
def sent (s : TxSide j α) (enqueued : Option (SpscRing j α)) (charge : Int) : TxSide j α :=
  match enqueued with
  | some txRing => { s with
      txRing
      txSpace := s.txSpace - BitVec.ofInt 32 charge
      writeReadyToApp := false
      results := s.results ++ [0] }
  | none => { s with writeReadyToApp := false, results := s.results ++ [1] }

def serviceSend (s : TxSide j α) (mbuf : α) : TxSide j α := s.sent (s.txRing.enqueue mbuf) 0

def serviceSendBulk (s : TxSide j α) (mbufs : List α) : TxSide j α :=
  s.sent (s.txRing.enqueueBulk mbufs) 0

def serviceSendto (s : TxSide j α) (mbuf : α) (length : Int) : TxSide j α :=
  s.sent (s.txRing.enqueue mbuf) length

def serviceSendtoBulk (s : TxSide j α) (mbufs : List (α × Int)) : TxSide j α :=
  s.sent (s.txRing.enqueueBulk (mbufs.map Prod.fst)) (mbufs.foldl (fun total m => total + m.2) 0)

end TxSide

inductive TxSideAction (α : Type)
  | query
  | send (mbuf : α)
  | sendBulk (mbufs : List α)
  | sendto (mbuf : α) (length : Int)
  | sendtoBulk (mbufs : List (α × Int))
  | setSocketTxSpace (count : Int)
  | reflectTxSocketBuf (count : Int)
  | look (n : Nat)
  | release
  | pool (freeBufs : Nat)

def txSideStep (s : TxSide j α) : TxSideAction α → Option (TxSide j α)
  | .query => some s.getSocketTxSpace.2
  | .send mbuf => some (s.serviceSend mbuf)
  | .sendBulk mbufs => some (s.serviceSendBulk mbufs)
  | .sendto mbuf length => some (s.serviceSendto mbuf length)
  | .sendtoBulk mbufs => some (s.serviceSendtoBulk mbufs)
  | .setSocketTxSpace count => some { s with txSpace := BitVec.ofInt 32 count }
  | .reflectTxSocketBuf count => some { s with txSpace := s.txSpace + BitVec.ofInt 32 count }
  | .look n => some { s with txRing := s.txRing.look n }
  | .release => some { s with txRing := s.txRing.release }
  | .pool freeBufs => some { s with freeBufs }

namespace TxSideAction

def isSend : TxSideAction α → Bool
  | .send _ | .sendto _ _ => true
  | _ => false

def isBulk : TxSideAction α → Bool
  | .sendBulk _ | .sendtoBulk _ => true
  | _ => false

end TxSideAction

namespace TxSide

variable {s t : TxSide j α} {xs : List α}

structure Holds (s : TxSide j α) (xs : List α) : Prop where
  ring : s.txRing.Holds xs
  head : s.txRing.prodHead = s.txRing.prodTail

theorem Holds.sent {ys : List α} {enqueued : Option (SpscRing j α)} (h : s.Holds xs) (charge : Int)
    (henq : ∀ r ∈ enqueued, r.Holds (xs ++ ys) ∧ r.prodHead = r.prodTail) :
    ∃ zs, (s.sent enqueued charge).Holds zs ∧ zs.length ≤ xs.length + ys.length := by
  cases enqueued with
  | none => exact ⟨xs, ⟨h.ring, h.head⟩, by omega⟩
  | some r =>
    obtain ⟨hring, hhead⟩ := henq r rfl
    exact ⟨xs ++ ys, ⟨hring, hhead⟩, by rw [length_append]⟩

theorem Holds.step {a : TxSideAction α} (h : s.Holds xs) (hstep : txSideStep s a = some t) :
    ∃ zs, t.Holds zs ∧ (a.isBulk = false → zs.length ≤ xs.length + if a.isSend then 1 else 0) := by
  cases a with
  | query =>
    cases hstep
    refine ⟨xs, ?_, fun _ => Nat.le_add_right _ _⟩
    simp only [getSocketTxSpace]
    split <;> exact ⟨h.ring, h.head⟩
  | send mbuf =>
    cases hstep
    obtain ⟨zs, hzs, hlen⟩ := h.sent 0 fun r hr => h.ring.enqueue (x := mbuf) h.head hr
    exact ⟨zs, hzs, fun _ => hlen⟩
  | sendto mbuf length =>
    cases hstep
    obtain ⟨zs, hzs, hlen⟩ := h.sent length fun r hr => h.ring.enqueue (x := mbuf) h.head hr
    exact ⟨zs, hzs, fun _ => hlen⟩
  | sendBulk mbufs =>
    cases hstep
    obtain ⟨zs, hzs, -⟩ := h.sent 0 fun r hr => h.ring.enqueueBulk h.head hr
    exact ⟨zs, hzs, fun hbulk => by cases hbulk⟩
  | sendtoBulk mbufs =>
    cases hstep
    obtain ⟨zs, hzs, -⟩ := h.sent (mbufs.foldl (fun total m => total + m.2) 0) fun r hr =>
      h.ring.enqueueBulk h.head hr
    exact ⟨zs, hzs, fun hbulk => by cases hbulk⟩
  | setSocketTxSpace count =>
    cases hstep
    exact ⟨xs, ⟨h.ring, h.head⟩, fun _ => Nat.le_add_right _ _⟩
  | reflectTxSocketBuf count =>
    cases hstep
    exact ⟨xs, ⟨h.ring, h.head⟩, fun _ => Nat.le_add_right _ _⟩
  | look n =>
    cases hstep
    exact ⟨xs, ⟨h.ring.look n, h.head⟩, fun _ => Nat.le_add_right _ _⟩
  | release =>
    cases hstep
    refine ⟨_, ⟨h.ring.release, h.head⟩, fun _ => ?_⟩
    rw [length_drop]
    omega
  | pool freeBufs =>
    cases hstep
    exact ⟨xs, ⟨h.ring, h.head⟩, fun _ => Nat.le_add_right _ _⟩

theorem Holds.results {a : TxSideAction α} (h : s.Holds xs) (hstep : txSideStep s a = some t)
    (hbulk : a.isBulk = false) (hroom : a.isSend = true → xs.length < 2 ^ j - 1) :
    t.results = s.results ++ List.replicate (if a.isSend then 1 else 0) 0 := by
  have hsent : ∀ mbuf charge, xs.length < 2 ^ j - 1 →
      (s.sent (s.txRing.enqueue mbuf) charge).results = s.results ++ [0] := by
    intro mbuf charge hlt
    obtain ⟨r, hr⟩ := Option.isSome_iff_exists.mp (h.ring.enqueue_isSome h.head hlt mbuf)
    rw [hr]
    rfl
  cases a with
  | query =>
    cases hstep
    simp only [getSocketTxSpace]
    split <;> simp [TxSideAction.isSend]
  | send mbuf =>
    cases hstep
    exact hsent mbuf 0 (hroom rfl)
  | sendto mbuf length =>
    cases hstep
    exact hsent mbuf length (hroom rfl)
  | sendBulk | sendtoBulk => cases hbulk
  | _ =>
    cases hstep
    simp [TxSideAction.isSend]

theorem sends_succeed {as : List (TxSideAction α)} (h : s.Holds xs)
    (hrun : Run txSideStep (fun _ a => a.isBulk = false) s as t)
    (hcount : xs.length + as.countP TxSideAction.isSend ≤ 2 ^ j - 1) :
    t.results = s.results ++ List.replicate (as.countP TxSideAction.isSend) 0 ∧
      ∃ zs, t.Holds zs ∧ zs.length ≤ xs.length + as.countP TxSideAction.isSend := by
  induction hrun with
  | nil => exact ⟨by simp, xs, h, by simp⟩
  | @snoc t u as a hrun hbulk hstep ih =>
    rw [countP_append, countP_singleton] at hcount ⊢
    obtain ⟨hres, zs, hzs, hlen⟩ := ih (by omega)
    obtain ⟨vs, hvs, hgrow⟩ := hzs.step hstep
    have hone := hzs.results hstep hbulk fun hsend => by
      rw [if_pos hsend] at hcount
      omega
    refine ⟨?_, vs, hvs, ?_⟩
    · rw [hone, hres, append_assoc, replicate_append_replicate]
    · have hle := hgrow hbulk
      omega

theorem tdiv_nonneg_iff (x : Int) : 0 ≤ x.tdiv 1448 ↔ -1448 < x := by
  rcases Int.le_total 0 x with hpos | hneg
  · have := Int.tdiv_nonneg hpos (by omega : (0 : Int) ≤ 1448)
    omega
  · have hdiv : x.tdiv 1448 = -(-x / 1448) := by
      rw [← Int.tdiv_eq_ediv_of_nonneg (by omega : 0 ≤ -x), Int.neg_tdiv, Int.neg_neg]
    omega

theorem Holds.toInt_freeCount (h : s.Holds xs) :
    s.txRing.freeCount.toInt = (2 ^ j - 1 - xs.length : Nat) := by
  have hfree := h.ring.toNat_freeCount h.head
  rw [h.ring.length] at hfree
  have hpow : 2 ^ j ≤ 2 ^ 31 := Nat.pow_le_pow_right (by omega) (by have := h.ring.small; omega)
  rw [BitVec.toInt_eq_toNat_cond, if_pos (by omega), hfree]

theorem Holds.advertised_le (h : s.Holds xs) :
    s.advertised ≤ s.txRing.freeCount.toInt ∧ s.advertised ≤ s.freeBufs ∧
      (0 ≤ s.advertised ↔ -1448 < s.txSpace.toInt) := by
  have hint := h.toInt_freeCount
  have hdiv := tdiv_nonneg_iff s.txSpace.toInt
  simp only [advertised, hint]
  omega

theorem getSocketTxSpace_kept (s : TxSide j α) :
    s.getSocketTxSpace.2.txRing = s.txRing ∧ s.getSocketTxSpace.2.results = s.results := by
  simp only [getSocketTxSpace]
  split <;> exact ⟨rfl, rfl⟩

/-- The advertised space is between zero and the room on the ring and in the pool, and so many sends
of one buffer return 0, whatever the server does in the meantime. -/
def Reliable (s : TxSide j α) : Prop :=
  0 ≤ s.getSocketTxSpace.1 ∧ s.getSocketTxSpace.1 ≤ s.txRing.freeCount.toInt ∧
    s.getSocketTxSpace.1 ≤ s.freeBufs ∧
    ∀ as t, Run txSideStep (fun _ a => a.isBulk = false) s.getSocketTxSpace.2 as t →
      (as.countP TxSideAction.isSend : Int) ≤ s.getSocketTxSpace.1 →
      t.results = s.results ++ List.replicate (as.countP TxSideAction.isSend) 0

theorem Holds.reliable_iff (h : s.Holds xs) : s.Reliable ↔ -1448 < s.txSpace.toInt := by
  obtain ⟨hring, hpool, hsign⟩ := h.advertised_le
  refine ⟨fun hrel => hsign.mp hrel.1, fun hspace => ⟨hsign.mpr hspace, hring, hpool, ?_⟩⟩
  intro as t hrun hcount
  obtain ⟨hsame, hres⟩ := s.getSocketTxSpace_kept
  have h' : s.getSocketTxSpace.2.Holds xs := ⟨hsame ▸ h.ring, hsame ▸ h.head⟩
  have hle : (as.countP TxSideAction.isSend : Int) ≤ (2 ^ j - 1 - xs.length : Nat) := by
    rw [← h.toInt_freeCount]
    exact hcount.trans hring
  have hsize : xs.length ≤ 2 ^ j - 1 := by
    have hlt := h.ring.filled.trans_lt h.ring.size
    rw [h.ring.length] at hlt
    omega
  rw [← hres]
  exact (sends_succeed h' hrun (by omega)).1

/-- In every state that is reached from an open socket with an empty ring, the advertised space can
be relied on if and only if the credit has not been overdrawn by a whole segment. -/
theorem advertised_reliable_iff {as : List (TxSideAction α)} (hs : s.Holds [])
    (hrun : Run txSideStep (fun _ _ => True) s as t) :
    t.Reliable ↔ -1448 < t.txSpace.toInt := by
  obtain ⟨zs, hzs⟩ : ∃ zs, t.Holds zs := by
    refine hrun.invariant (I := fun u => ∃ zs, u.Holds zs) (fun u a v hu _ hstep => ?_) ⟨[], hs⟩
    obtain ⟨ys, hys⟩ := hu
    obtain ⟨zs, hzs, -⟩ := hys.step hstep
    exact ⟨zs, hzs⟩
  exact hzs.reliable_iff

def opened : TxSide 4 Nat := { txSpace := 9216#32, freeBufs := 64 }

theorem opened_holds : opened.Holds [] :=
  ⟨⟨⟨by decide, by decide, by decide, by decide⟩, by decide, by simp⟩, rfl⟩

theorem advertised_reliable_iff_six : ∃ t,
    Run txSideStep (fun _ _ => True) opened
      [.sendto 0 1448, .sendto 1 1448, .sendto 2 1448, .sendto 3 1448, .sendto 4 1448,
        .sendto 5 1448] t ∧
    t.txSpace.toInt = 528 ∧ t.Reliable :=
  Run.exists_and_of_runActions (by decide +kernel) fun _ hrun ht =>
    (advertised_reliable_iff opened_holds hrun).mpr (by omega)

theorem bulk_overdraws : ∃ t,
    Run txSideStep (fun _ _ => True) opened
      [.sendtoBulk ((List.range 8).map fun i => (i, 1448))] t ∧
    (t.results = [0] ∧ t.getSocketTxSpace.1 = -1) ∧ ¬ t.Reliable := by
  refine Run.exists_and_of_runActions (by decide +kernel) fun t _ ht hrel => ?_
  have hnonneg := hrel.1
  omega

end TxSide

end NetbsdDpdk
