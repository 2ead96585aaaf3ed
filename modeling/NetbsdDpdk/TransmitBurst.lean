import NetbsdDpdk.DatagramReceive

/-! Who holds the transmit buffers after `service_on_transmission_opportunity` (`service_loop.c`):
what `app_glue_send`, `app_glue_sendto` and `sosend` return for every way in which they can fail,
and who frees the buffer then. -/

namespace NetbsdDpdk

open List SndSocket

variable {α : Type}

/-- A dequeued buffer, and what decides about it: whether `m_get` and `m_devget` find an mbuf, the
result of `sblock`, the state of the socket, and the result of `PRU_SEND`. -/
structure TxAttempt (α : Type) where
  mbuf : α
  dataLen : Nat := 0
  mGet : Bool := true
  mDevget : Bool := true
  sblock : Int := 0
  cantSendMore : Bool := false
  soError : Int := 0
  isConnected : Bool := true
  isConfirming : Bool := false
  connRequired : Bool := false
  sbHiwat : Int := 0
  sbspace : Int := 0
  pruSend : Int := 0

/-- Who has the buffer after a call. -/
inductive Holder
  | protocol
  | pool
  | caller
  deriving DecidableEq

namespace TxAttempt

/-- `sosend` without control data and flags: its result and the holder of `top`. The length is not
negative, so `EINVAL` is not returned. -/
def sosend (a : TxAttempt α) (addr : Bool) : Int × Holder :=
  let resid : Int := a.dataLen
  if a.sblock ≠ 0 then (a.sblock, .pool)
  else if a.cantSendMore then (32, .pool)
  else if a.soError ≠ 0 then (a.soError, .pool)
  else if !a.isConnected && a.connRequired && !a.isConfirming then (57, .pool)
  else if !a.isConnected && !a.connRequired && !addr then (39, .pool)
  else if a.sbHiwat < resid then (40, .pool)
  else if a.sbspace < resid then (35, .pool)
  else (a.pruSend, .protocol)

def appGlueSend (a : TxAttempt α) : Int × Holder :=
  if !a.mDevget then (-1, .caller) else a.sosend false

/-- `app_glue_sendto`: the `NULL` that it returns without an mbuf for the address is 0. -/
def appGlueSendto (a : TxAttempt α) : Int × Holder :=
  if !a.mGet then (0, .caller)
  else if !a.mDevget then (-1, .caller)
  else a.sosend true

end TxAttempt

/-- All buffers that were dequeued, those that the protocol has, those that were freed (as often as
they were), and the counters of the server. -/
structure TxLedger (α : Type) where
  dequeued : List α := []
  protocol : List α := []
  pool : List α := []
  apiFailed : Nat := 0
  mbufsSent : Nat := 0

namespace TxLedger

def settle (l : TxLedger α) (mbuf : α) : Holder → TxLedger α
  | .protocol => { l with protocol := l.protocol ++ [mbuf] }
  | .pool => { l with pool := l.pool ++ [mbuf] }
  | .caller => l

def sendBurst (l : TxLedger α) : List (TxAttempt α) → TxLedger α
  | [] => l
  | a :: as =>
    let (rc, holder) := a.appGlueSend
    let l := l.settle a.mbuf holder
    { l with
      apiFailed := l.apiFailed + if rc ≠ 0 then 1 else 0
      mbufsSent := l.mbufsSent + if rc = 0 then 1 else 0 }.sendBurst as

/-- A negative result frees the rest of the burst and ends the function: `false`. -/
def sendtoBurst (l : TxLedger α) : List (TxAttempt α) → Bool × TxLedger α
  | [] => (true, l)
  | a :: as =>
    let (rc, holder) := a.appGlueSendto
    let l := l.settle a.mbuf holder
    if rc < 0 then
      (false, { l with
        apiFailed := l.apiFailed + (as.length + 1)
        pool := l.pool ++ a.mbuf :: as.map TxAttempt.mbuf })
    else { l with mbufsSent := l.mbufsSent + 1 }.sendtoBurst as

/-- The bursts are what is found on the ring in the rounds of the outer loop. -/
def onTransmissionOpportunity (type : SoType) (l : TxLedger α) :
    List (List (TxAttempt α)) → TxLedger α
  | [] => l
  | burst :: bursts =>
    let l := { l with dequeued := l.dequeued ++ burst.map TxAttempt.mbuf }
    match type with
    | .stream => (l.sendBurst burst).onTransmissionOpportunity type bursts
    | .dgram =>
      match l.sendtoBurst burst with
      | (true, l) => l.onTransmissionOpportunity type bursts
      | (false, l) => l

def held (l : TxLedger α) : List α := l.protocol ++ l.pool

end TxLedger

namespace TxAttempt

variable {a : TxAttempt α} {as : List (TxAttempt α)}

def attempted : List (TxAttempt α) → List (TxAttempt α)
  | [] => []
  | a :: as => if a.appGlueSendto.1 < 0 then [a] else a :: attempted as

theorem sosend_holder (a : TxAttempt α) (addr : Bool) : (a.sosend addr).2 ≠ .caller := by
  simp only [sosend]
  repeat' split
  all_goals simp

theorem appGlueSend_holder (a : TxAttempt α) :
    a.appGlueSend.2 ≠ .caller ↔ a.mDevget = true := by
  cases hdev : a.mDevget with
  | false => simp [appGlueSend, hdev]
  | true => simp [appGlueSend, hdev, a.sosend_holder]

theorem appGlueSendto_holder (a : TxAttempt α) :
    a.appGlueSendto.2 ≠ .caller ↔ a.mGet = true ∧ a.mDevget = true := by
  cases hget : a.mGet with
  | false => simp [appGlueSendto, hget]
  | true =>
    cases hdev : a.mDevget with
    | false => simp [appGlueSendto, hget, hdev]
    | true => simp [appGlueSendto, hget, hdev, a.sosend_holder]

/-- `app_glue_sendto` gives the buffer away if it calls `sosend`. -/
def sent (a : TxAttempt α) : Bool := a.mGet && a.mDevget

theorem attempted_of_nonneg (h : ∀ a ∈ as, ¬ a.appGlueSendto.1 < 0) : attempted as = as := by
  induction as with
  | nil => rfl
  | cons a as ih =>
    rw [attempted, if_neg (h a (by simp)), ih fun b hb => h b (by simp [hb])]

theorem attempted_append {bs : List (TxAttempt α)} (h : ∀ a ∈ as, ¬ a.appGlueSendto.1 < 0) :
    attempted (as ++ bs) = as ++ attempted bs := by
  induction as with
  | nil => rfl
  | cons a as ih =>
    rw [cons_append, attempted, if_neg (h a (by simp)), ih fun b hb => h b (by simp [hb])]
    rfl

end TxAttempt

namespace TxLedger

variable {l l' : TxLedger α} {as : List (TxAttempt α)} {bursts : List (List (TxAttempt α))}

theorem held_settle (l : TxLedger α) (mbuf : α) (holder : Holder) :
    (l.settle mbuf holder).held.Perm
      (l.held ++ if holder ≠ .caller then [mbuf] else []) := by
  cases holder with
  | protocol =>
    simp only [settle, held, append_assoc]
    exact (perm_append_comm).append_left _
  | pool => simp [settle, held]
  | caller => simp [settle, held]

theorem dequeued_settle (l : TxLedger α) (mbuf : α) (holder : Holder) :
    (l.settle mbuf holder).dequeued = l.dequeued := by
  cases holder <;> rfl

theorem sendBurst_spec (l : TxLedger α) (as : List (TxAttempt α)) :
    (l.sendBurst as).held.Perm (l.held ++ (as.filter TxAttempt.mDevget).map TxAttempt.mbuf) ∧
      (l.sendBurst as).dequeued = l.dequeued := by
  induction as generalizing l with
  | nil => simp [sendBurst]
  | cons a as ih =>
    obtain ⟨hheld, hdeq⟩ := ih { l.settle a.mbuf a.appGlueSend.2 with
      apiFailed := (l.settle a.mbuf a.appGlueSend.2).apiFailed +
        if a.appGlueSend.1 ≠ 0 then 1 else 0
      mbufsSent := (l.settle a.mbuf a.appGlueSend.2).mbufsSent +
        if a.appGlueSend.1 = 0 then 1 else 0 }
    refine ⟨hheld.trans ?_, hdeq.trans (l.dequeued_settle _ _)⟩
    refine ((l.held_settle a.mbuf _).append_right _).trans ?_
    rw [append_assoc, filter_cons]
    by_cases hdev : a.mDevget = true
    · rw [if_pos (a.appGlueSend_holder.mpr hdev), if_pos hdev]
      exact List.Perm.refl _
    · rw [if_neg fun h => hdev (a.appGlueSend_holder.mp h), if_neg hdev]
      exact List.Perm.refl _

theorem stream_spec (l : TxLedger α) (bursts : List (List (TxAttempt α))) :
    (l.onTransmissionOpportunity .stream bursts).held.Perm
        (l.held ++ (bursts.flatten.filter TxAttempt.mDevget).map TxAttempt.mbuf) ∧
      (l.onTransmissionOpportunity .stream bursts).dequeued =
        l.dequeued ++ bursts.flatten.map TxAttempt.mbuf := by
  induction bursts generalizing l with
  | nil => simp [onTransmissionOpportunity]
  | cons burst bursts ih =>
    obtain ⟨l₁, hl₁⟩ : ∃ l₁, { l with
      dequeued := l.dequeued ++ burst.map TxAttempt.mbuf } = l₁ := ⟨_, rfl⟩
    have hloop : l.onTransmissionOpportunity .stream (burst :: bursts) =
        (l₁.sendBurst burst).onTransmissionOpportunity .stream bursts := by
      rw [← hl₁]
      rfl
    have hheld₁ : l₁.held = l.held := by
      rw [← hl₁]
      rfl
    obtain ⟨hheld, hdeq⟩ := ih (l₁.sendBurst burst)
    obtain ⟨hburst, hsame⟩ := l₁.sendBurst_spec burst
    rw [hloop]
    constructor
    · refine hheld.trans ((hburst.append_right _).trans ?_)
      rw [hheld₁, flatten_cons, filter_append, map_append, append_assoc]
    · rw [hdeq, hsame, ← hl₁, flatten_cons, map_append, append_assoc]

/-- How far the calls of `app_glue_sendto` come: through all of `as`, or to the first negative
result. -/
inductive Sendto (l : TxLedger α) (as : List (TxAttempt α)) (l' : TxLedger α) : Prop
  | all (hnonneg : ∀ a ∈ as, ¬ a.appGlueSendto.1 < 0)
      (hheld : l'.held.Perm (l.held ++ (as.filter TxAttempt.sent).map TxAttempt.mbuf))
  | stopped (bs : List (TxAttempt α)) (a : TxAttempt α) (cs : List (TxAttempt α))
      (hsplit : as = bs ++ a :: cs) (hnonneg : ∀ b ∈ bs, ¬ b.appGlueSendto.1 < 0)
      (hneg : a.appGlueSendto.1 < 0)
      (hheld : l'.held.Perm (l.held ++ ((bs ++ [a]).filter TxAttempt.sent).map TxAttempt.mbuf ++
        (a :: cs).map TxAttempt.mbuf))

theorem Sendto.append {l₁ : TxLedger α} {ds : List (TxAttempt α)}
    (hnonneg : ∀ a ∈ as, ¬ a.appGlueSendto.1 < 0)
    (hheld : l₁.held.Perm (l.held ++ (as.filter TxAttempt.sent).map TxAttempt.mbuf))
    (h : Sendto l₁ ds l') : Sendto l (as ++ ds) l' := by
  cases h with
  | all hnonneg' hheld' =>
    refine .all (fun a ha => (mem_append.mp ha).elim (hnonneg a) (hnonneg' a)) ?_
    refine hheld'.trans ((hheld.append_right _).trans ?_)
    rw [filter_append, map_append, append_assoc]
  | stopped bs a cs hsplit hnonneg' hneg hheld' =>
    refine .stopped (as ++ bs) a cs (by rw [hsplit, append_assoc])
      (fun b hb => (mem_append.mp hb).elim (hnonneg b) (hnonneg' b)) hneg ?_
    refine hheld'.trans (((hheld.append_right _).append_right _).trans ?_)
    rw [append_assoc as, filter_append as, map_append, ← append_assoc l.held]

theorem held_settle_sendto (l : TxLedger α) (a : TxAttempt α) :
    (l.settle a.mbuf a.appGlueSendto.2).held.Perm
      (l.held ++ ([a].filter TxAttempt.sent).map TxAttempt.mbuf) := by
  refine (l.held_settle a.mbuf _).trans ?_
  have hsent : a.appGlueSendto.2 ≠ .caller ↔ a.sent = true := by
    rw [a.appGlueSendto_holder, TxAttempt.sent, Bool.and_eq_true]
  by_cases h : a.sent = true
  · rw [if_pos (hsent.mpr h), filter_cons, if_pos h]
    exact List.Perm.refl _
  · rw [if_neg fun h' => h (hsent.mp h'), filter_cons, if_neg h]
    exact List.Perm.refl _

theorem sendtoBurst_spec (l : TxLedger α) (as : List (TxAttempt α)) :
    Sendto l as (l.sendtoBurst as).2 ∧ (l.sendtoBurst as).2.dequeued = l.dequeued ∧
      ((l.sendtoBurst as).1 = true ↔ ∀ a ∈ as, ¬ a.appGlueSendto.1 < 0) := by
  induction as generalizing l with
  | nil => exact ⟨.all (by simp) (by simp [sendtoBurst]), rfl, by simp [sendtoBurst]⟩
  | cons a as ih =>
    have hhead := l.held_settle_sendto a
    have hdeq := l.dequeued_settle a.mbuf a.appGlueSendto.2
    by_cases hneg : a.appGlueSendto.1 < 0
    · simp only [sendtoBurst, if_pos hneg]
      refine ⟨.stopped [] a as rfl (by simp) hneg ?_, hdeq, ?_⟩
      · rw [held, ← append_assoc]
        exact hhead.append_right _
      · simp [hneg]
    · obtain ⟨l₁, hl₁⟩ : ∃ l₁, { l.settle a.mbuf a.appGlueSendto.2 with
        mbufsSent := (l.settle a.mbuf a.appGlueSendto.2).mbufsSent + 1 } = l₁ := ⟨_, rfl⟩
      have hhead₁ : l₁.held.Perm (l.held ++ ([a].filter TxAttempt.sent).map TxAttempt.mbuf) := by
        rw [← hl₁]
        exact hhead
      obtain ⟨hspec, hdeq₁, hok⟩ := ih l₁
      simp only [sendtoBurst, if_neg hneg, hl₁]
      refine ⟨Sendto.append (by simpa using hneg) hhead₁ hspec, ?_, ?_⟩
      · rw [hdeq₁, ← hl₁]
        exact hdeq
      · rw [hok, forall_mem_cons]
        exact ⟨fun h => ⟨hneg, h⟩, fun h => h.2⟩

theorem dgram_spec (l : TxLedger α) (bursts : List (List (TxAttempt α))) :
    ∃ ds, (l.onTransmissionOpportunity .dgram bursts).dequeued =
        l.dequeued ++ ds.map TxAttempt.mbuf ∧
      Sendto l ds (l.onTransmissionOpportunity .dgram bursts) ∧
      TxAttempt.attempted bursts.flatten = TxAttempt.attempted ds := by
  induction bursts generalizing l with
  | nil =>
    refine ⟨[], ?_, .all (by simp) ?_, rfl⟩
    · simp [onTransmissionOpportunity]
    · simp [onTransmissionOpportunity]
  | cons burst bursts ih =>
    obtain ⟨l₁, hl₁⟩ : ∃ l₁, { l with
      dequeued := l.dequeued ++ burst.map TxAttempt.mbuf } = l₁ := ⟨_, rfl⟩
    have hheld₁ : l₁.held = l.held := by
      rw [← hl₁]
      rfl
    obtain ⟨hspec, hdeq, hok⟩ := l₁.sendtoBurst_spec burst
    obtain ⟨⟨ok, l₂⟩, hres⟩ : ∃ r, l₁.sendtoBurst burst = r := ⟨_, rfl⟩
    rw [hres] at hspec hdeq hok
    have hdeq₂ : l₂.dequeued = l.dequeued ++ burst.map TxAttempt.mbuf := by
      rw [hdeq, ← hl₁]
    cases ok with
    | true =>
      have hloop : l.onTransmissionOpportunity .dgram (burst :: bursts) =
          l₂.onTransmissionOpportunity .dgram bursts := by
        simp only [onTransmissionOpportunity, hl₁, hres]
      have hnonneg := hok.mp rfl
      obtain ⟨ds, hds, hrest, hatt⟩ := ih l₂
      refine ⟨burst ++ ds, ?_, ?_, ?_⟩
      · rw [hloop, hds, hdeq₂, map_append, append_assoc]
      · cases hspec with
        | all _ hheld =>
          rw [hheld₁] at hheld
          rw [hloop]
          exact hrest.append hnonneg hheld
        | stopped bs a cs hsplit _ hneg =>
          exact absurd hneg (hnonneg a (by simp [hsplit]))
      · rw [flatten_cons, TxAttempt.attempted_append hnonneg, hatt,
          TxAttempt.attempted_append hnonneg]
    | false =>
      have hloop : l.onTransmissionOpportunity .dgram (burst :: bursts) = l₂ := by
        simp only [onTransmissionOpportunity, hl₁, hres]
      rw [hloop]
      cases hspec with
      | all hnonneg => exact absurd (hok.mpr hnonneg) (by simp)
      | stopped bs a cs hsplit hnonneg hneg hheld =>
        rw [hheld₁] at hheld
        refine ⟨burst, hdeq₂, .stopped bs a cs hsplit hnonneg hneg hheld, ?_⟩
        rw [flatten_cons, hsplit, append_assoc, cons_append,
          TxAttempt.attempted_append hnonneg, TxAttempt.attempted_append hnonneg,
          TxAttempt.attempted, if_pos hneg, TxAttempt.attempted, if_pos hneg]

end TxLedger

def TxAttempt.Accounted (a : TxAttempt α) : SoType → Prop
  | .stream => a.mDevget = true
  | .dgram => a.mGet = true ∧ (a.mDevget = true → 0 ≤ (a.sosend true).1)

def TxAttempt.tried (type : SoType) (as : List (TxAttempt α)) : List (TxAttempt α) :=
  match type with
  | .stream => as
  | .dgram => attempted as

namespace TxAttempt

variable {a : TxAttempt α} {as bs : List (TxAttempt α)}

/-- A result that is not negative hides only a missing mbuf for the address; a negative one must
not come from `sosend`, which has given the buffer away. -/
theorem accounted_iff :
    a.Accounted .dgram ↔ a.sent = decide (¬ a.appGlueSendto.1 < 0) := by
  cases hget : a.mGet with
  | false => simp [Accounted, sent, appGlueSendto, hget]
  | true =>
    cases hdev : a.mDevget with
    | false => simp [Accounted, sent, appGlueSendto, hget, hdev]
    | true => simp [Accounted, sent, appGlueSendto, hget, hdev]

theorem filter_perm_iff {p : TxAttempt α → Bool} :
    ((as.filter p).map mbuf).Perm (as.map mbuf) ↔ ∀ a ∈ as, p a = true := by
  constructor
  · intro h
    have hlen := h.length_eq
    rw [length_map, length_map] at hlen
    exact length_filter_eq_length_iff.mp hlen
  · intro h
    rw [filter_eq_self.mpr h]

end TxAttempt

namespace TxLedger

/-- Every buffer that is dequeued ends up in exactly one place if and only if every attempt is
accounted for: `m_devget` must not fail for a stream socket, nor `m_get` for a datagram socket, and
`sosend` must not return a negative number for a datagram socket. -/
theorem dequeued_held_once_iff (type : SoType) (bursts : List (List (TxAttempt α)))
    (hnd : (onTransmissionOpportunity type {} bursts).dequeued.Nodup) :
    (onTransmissionOpportunity type {} bursts).held.Perm
        (onTransmissionOpportunity type {} bursts).dequeued ↔
      ∀ a ∈ TxAttempt.tried type bursts.flatten, a.Accounted type := by
  cases type with
  | stream =>
    obtain ⟨hheld, hdeq⟩ := stream_spec {} bursts
    rw [hdeq]
    exact (hheld.congr_left _).trans TxAttempt.filter_perm_iff
  | dgram =>
    obtain ⟨ds, hdeq, hspec, hatt⟩ := dgram_spec {} bursts
    simp only [List.nil_append] at hdeq
    rw [hdeq] at hnd ⊢
    rw [TxAttempt.tried, hatt]
    cases hspec with
    | all hnonneg hheld =>
      rw [TxAttempt.attempted_of_nonneg hnonneg]
      refine (hheld.congr_left _).trans (TxAttempt.filter_perm_iff.trans ?_)
      refine forall₂_congr fun a ha => ?_
      simp [TxAttempt.accounted_iff, hnonneg a ha]
    | stopped bs a cs hsplit hnonneg hneg hheld =>
      rw [hsplit] at hnd
      rw [hsplit, TxAttempt.attempted_append hnonneg, TxAttempt.attempted, if_pos hneg,
        List.forall_mem_append, List.forall_mem_singleton, List.map_append]
      refine (hheld.congr_left _).trans ((List.perm_append_right_iff _).trans ?_)
      have hbs : (∀ b ∈ bs, b.Accounted .dgram) ↔ ∀ b ∈ bs, b.sent = true :=
        forall₂_congr fun b hb => by simp [TxAttempt.accounted_iff, hnonneg b hb]
      have ha : a.Accounted .dgram ↔ a.sent = false := by simp [TxAttempt.accounted_iff, hneg]
      rw [hbs, ha, List.filter_append]
      by_cases hsent : a.sent = true
      · -- the buffer is freed a second time
        simp only [List.filter_cons, hsent, if_true, List.filter_nil, Bool.true_eq_false, and_false,
          iff_false]
        intro hperm
        have hmem : a.mbuf ∈ bs.map TxAttempt.mbuf := hperm.mem_iff.mp (by simp)
        rw [List.map_append] at hnd
        exact (List.nodup_append.mp hnd).2.2 _ hmem a.mbuf (by simp) rfl
      · simp only [List.filter_cons, hsent, Bool.false_eq_true, if_false, List.filter_nil,
          List.append_nil, and_true]
        exact TxAttempt.filter_perm_iff

theorem dequeued_held_once_iff_third : ∃ l : TxLedger Nat,
    l = onTransmissionOpportunity .dgram {}
      [[{ mbuf := 1 }, { mbuf := 2, mDevget := false }, { mbuf := 3, mGet := false }]] ∧
    l.dequeued = [1, 2, 3] ∧ l.held.Perm l.dequeued := by
  refine ⟨_, rfl, rfl, (dequeued_held_once_iff .dgram _ (by decide)).mpr ?_⟩
  intro a ha
  simp only [TxAttempt.tried, List.flatten_cons, List.flatten_nil, List.append_nil] at ha
  have htried : a ∈ [{ mbuf := 1 }, { mbuf := 2, mDevget := false }] := ha
  simp only [List.mem_cons, List.not_mem_nil, or_false] at htried
  rcases htried with rfl | rfl
  · exact ⟨rfl, fun _ => by decide⟩
  · exact ⟨rfl, fun h => absurd h (by decide)⟩

theorem devget_failure_leaks : ∃ l : TxLedger Nat,
    l = onTransmissionOpportunity .stream {} [[{ mbuf := 7, mDevget := false }]] ∧
    l.dequeued = [7] ∧ l.held = [] ∧ ¬ l.held.Perm l.dequeued := by
  exact ⟨_, rfl, rfl, rfl, by decide⟩

end TxLedger

section Refinement

variable {k n : Nat}

def SndSocket.attempt (s : SndSocket k n) (p : Fin n) (tcpError : Int) : TxAttempt (Fin n) where
  mbuf := p
  dataLen := (s.sock.mem.rte.cell p).dataLen
  mDevget := !s.sock.mem.mbCache.isEmpty
  cantSendMore := s.cantSendMore
  soError := s.soError
  isConnected := s.isConnected
  isConfirming := s.isConfirming
  connRequired := true
  sbHiwat := s.sock.soSnd.sbHiwat
  sbspace := s.sock.soSnd.sbspace
  pruSend := tcpError

/-- The result and the holder are those of `app_glue_send` on the stack's memory: a buffer that is
left to the caller has not been touched, and one that goes to the pool is freed once. -/
theorem SndSocket.appGlueSend_attempt {s s' : SndSocket k n} {p : Fin n} {tcpError rc : Int}
    (h : s.appGlueSend p tcpError = some (rc, s')) :
    (s.attempt p tcpError).appGlueSend.1 = rc ∧
      ((s.attempt p tcpError).appGlueSend.2 = .caller → s' = s) ∧
      ((s.attempt p tcpError).appGlueSend.2 = .pool → s'.sock.mem.rte = s.sock.mem.rte.freeSeg p) ∧
      ((s.attempt p tcpError).appGlueSend.2 = .protocol →
        ∃ x mem, s.sock.mem.mDevget (s.sock.mem.rte.cell p).dataOff
          (s.sock.mem.rte.cell p).dataLen p = some (x, mem) ∧
          { s with sock := { s.sock with mem } }.prUsrreqSend x tcpError = some (rc, s')) := by
  cases hcache : s.sock.mem.mbCache with
  | nil =>
    simp only [SndSocket.appGlueSend, MbufMem.mDevget, hcache] at h
    cases h
    simp [TxAttempt.appGlueSend, attempt, hcache]
  | cons x cache =>
    obtain ⟨m, hm⟩ : ∃ m : Mbuf k n, MbufMem.devMbuf (s.sock.mem.rte.cell p).dataOff
      (s.sock.mem.rte.cell p).dataLen p = m := ⟨_, rfl⟩
    obtain ⟨mem, hmem⟩ : ∃ mem, s.sock.mem.placeChain [(x, m)] = mem := ⟨_, rfl⟩
    have hget : s.sock.mem.mDevget (s.sock.mem.rte.cell p).dataOff
        (s.sock.mem.rte.cell p).dataLen p = some (x, mem) := by
      simp only [MbufMem.mDevget, hcache, hm, hmem]
    have hself : mem.mbuf x = { m with mNext := none, mNextpkt := none } := by
      rw [← hmem, MbufMem.placeChain_cons_self]
      rfl
    -- every way out of `sosend` with an error frees the one mbuf, and with it the buffer
    have hdrop : ∀ {t : SndSocket k n} {e : Int}, t.sock.mem = mem →
        t.drop x e = some (rc, s') → e = rc ∧ s'.sock.mem.rte = s.sock.mem.rte.freeSeg p := by
      intro t e ht hd
      have hnext : mem.mNext x = none := by rw [MbufMem.mNext, hself]
      rw [SndSocket.drop, ht, MbufMem.mFreem_single hnext x.pos] at hd
      cases hd
      refine ⟨rfl, ?_⟩
      have hp : (mem.mbuf x).mPaddr = some p := by rw [hself, ← hm]; rfl
      rw [MbufMem.mFree_rte hp, ← hmem, MbufMem.placeChain_rte]
    have hdev : (s.attempt p tcpError).appGlueSend = (s.attempt p tcpError).sosend false := by
      simp [TxAttempt.appGlueSend, attempt, hcache]
    have hneg : ¬ ((s.sock.mem.rte.cell p).dataLen : Int) < 0 := by omega
    simp only [SndSocket.appGlueSend, hget, SndSocket.sosend, hneg, if_false] at h
    rw [hdev]
    split_ifs at h with hcant herr hconn hsize hspace
    case neg =>
      have hrc : tcpError = rc := by
        obtain ⟨r, -, heq⟩ := Option.map_eq_some_iff.mp h
        exact (Prod.mk.inj heq).1
      have hres : (s.attempt p tcpError).sosend false = (tcpError, .protocol) := by
        simp [TxAttempt.sosend, attempt, hcant, herr, hconn, hsize, hspace]
      rw [hres]
      exact ⟨hrc, by simp, by simp, fun _ => ⟨x, mem, hget, h⟩⟩
    all_goals
      obtain ⟨rfl, hfree⟩ := hdrop rfl h
      simp [TxAttempt.sosend, attempt, *]

def shutSocket : SndSocket 17 17 := { sock := attachedSocket 17 17 4096, cantSendMore := true }

theorem SndSocket.appGlueSend_attempt_shut : ∃ rc s', shutSocket.appGlueSend 0 0 = some (rc, s') ∧
    s'.sock.mem.rte = shutSocket.sock.mem.rte.freeSeg 0 := by
  obtain ⟨⟨rc, s'⟩, hs⟩ := Option.isSome_iff_exists.mp
    (show (shutSocket.appGlueSend 0 0).isSome = true by decide)
  exact ⟨rc, s', hs, (appGlueSend_attempt hs).2.2.1 (by decide)⟩

end Refinement

end NetbsdDpdk
