import NetbsdDpdk.SockaddrPaths
import NetbsdDpdk.SpscRing

/-! The four sends of `api.c`, with what they write into the buffers. A bulk is as good as its
single sends, except that `service_send_bulk` leaves the `next` of the buffers as it is. -/

namespace NetbsdDpdk

open List Memory

variable {j n : Nat} {α : Type}

namespace SpscRing

def enqueuePtrs (cell : BitVec 32 → Option α) (pos : BitVec 32) : List α → BitVec 32 → Option α
  | [] => cell
  | x :: xs => enqueuePtrs (Function.update cell (pos &&& mask j) (some x)) (pos + 1#32) xs

def spEnqueueBulk (r : SpscRing j α) (xs : List α) : Option (SpscRing j α) :=
  if r.freeEntries.toNat < xs.length then none
  else some { r with
    cell := enqueuePtrs (j := j) r.cell r.prodHead xs
    prodHead := r.prodHead + BitVec.ofNat 32 xs.length
    prodTail := r.prodHead + BitVec.ofNat 32 xs.length }

end SpscRing

structure SendSide (j n : Nat) where
  mem : Memory n
  txRing : SpscRing j (Fin n)
  txSpace : BitVec 32
  writeReadyToApp : Bool

structure SendBuf (n : Nat) where
  desc : Fin n
  write : RteMbuf n → RteMbuf n
  charge : Int

namespace SendBuf

def setLen (length : Int) (m : RteMbuf n) : RteMbuf n :=
  { m with dataLen := (length % 65536).toNat }

/-- The `rte_atomic32_sub` of `service_send` and `service_send_bulk` is compiled out. -/
def forSend (b : Fin n × Int) : SendBuf n :=
  ⟨b.1, fun m => { setLen b.2 m with next := none }, 0⟩

def forSendBulk (b : Fin n × Int) : SendBuf n := ⟨b.1, setLen b.2, 0⟩

def forSendto (b : Fin n × Int × LinuxSockaddrIn) : SendBuf n where
  desc := b.1
  write m := { setLen b.2.1 m with
    buf := writeBytes m.buf (m.dataOff - sockaddrInSize) b.2.2.bytes }
  charge := b.2.1

def total (bs : List (SendBuf n)) : Int := bs.foldl (fun total b => total + b.charge) 0

end SendBuf

def Memory.written (mem : Memory n) (b : SendBuf n) : Memory n := mem.modify b.desc b.write

example (mem : Memory n) (p : Fin n) (length : Int) (x : LinuxSockaddrIn) :
    mem.written (.forSendto (p, length, x)) = serviceSendto mem p (length % 65536).toNat x := rfl

namespace SendSide

def sent (s : SendSide j n) (enqueued : Option (SpscRing j (Fin n))) (charge : Int) :
    Int × SendSide j n :=
  let s := { s with writeReadyToApp := false }
  match enqueued with
  | some txRing => (0, { s with txRing, txSpace := s.txSpace - BitVec.ofInt 32 charge })
  | none => (1, s)

def single (s : SendSide j n) (b : SendBuf n) : Int × SendSide j n :=
  { s with mem := s.mem.written b }.sent (s.txRing.spEnqueueBulk [b.desc]) b.charge

def bulk (s : SendSide j n) (bs : List (SendBuf n)) : Int × SendSide j n :=
  { s with mem := bs.foldl Memory.written s.mem }.sent
    (s.txRing.spEnqueueBulk (bs.map SendBuf.desc)) (SendBuf.total bs)

def serviceSend (s : SendSide j n) (b : Fin n × Int) : Int × SendSide j n := s.single (.forSend b)

def serviceSendBulk (s : SendSide j n) (bs : List (Fin n × Int)) : Int × SendSide j n :=
  s.bulk (bs.map .forSendBulk)

def serviceSendto (s : SendSide j n) (b : Fin n × Int × LinuxSockaddrIn) : Int × SendSide j n :=
  s.single (.forSendto b)

def serviceSendtoBulk (s : SendSide j n) (bs : List (Fin n × Int × LinuxSockaddrIn)) :
    Int × SendSide j n :=
  s.bulk (bs.map .forSendto)

structure Room (s : SendSide j n) (k : Nat) : Prop where
  idle : s.txRing.prodHead = s.txRing.prodTail
  free : k ≤ s.txRing.freeEntries.toNat

def Refused (s : SendSide j n) (r : Int × SendSide j n) : Prop :=
  r.1 ≠ 0 ∧ r.2.txRing = s.txRing ∧ r.2.txSpace = s.txSpace

/-! A bulk and its single sends. -/

variable {s : SendSide j n} {b : SendBuf n} {bs : List (SendBuf n)}

def filled (s : SendSide j n) (bs : List (SendBuf n)) (charge : Int) : SendSide j n where
  mem := bs.foldl Memory.written s.mem
  txRing := { s.txRing with
    cell := SpscRing.enqueuePtrs (j := j) s.txRing.cell s.txRing.prodHead (bs.map SendBuf.desc)
    prodHead := s.txRing.prodHead + BitVec.ofNat 32 bs.length
    prodTail := s.txRing.prodHead + BitVec.ofNat 32 bs.length }
  txSpace := s.txSpace - BitVec.ofInt 32 charge
  writeReadyToApp := false

theorem bulk_of_room (h : s.Room bs.length) :
    s.bulk bs = (0, s.filled bs (SendBuf.total bs)) := by
  have hfree : ¬ s.txRing.freeEntries.toNat < (bs.map SendBuf.desc).length := by
    rw [length_map]
    exact Nat.not_lt.mpr h.free
  rw [bulk, SpscRing.spEnqueueBulk, if_neg hfree, length_map]
  rfl

theorem single_of_room (h : s.Room 1) : s.single b = (0, s.filled [b] b.charge) := by
  have hsame : s.single b = s.bulk [b] := by
    simp [single, bulk, SendBuf.total]
  rw [hsame, bulk_of_room h]
  simp [SendBuf.total]

theorem Room.next {k : Nat} (h : s.Room (k + 1)) (b : SendBuf n) :
    (s.filled [b] b.charge).Room k := by
  refine ⟨rfl, ?_⟩
  have hfree := h.free
  simp only [filled, SpscRing.freeEntries, length_singleton, BitVec.toNat_sub,
    BitVec.toNat_add, BitVec.toNat_ofNat] at hfree ⊢
  omega

theorem filled_filled (b : SendBuf n) (bs : List (SendBuf n)) (c d : Int) :
    (s.filled [b] c).filled bs d = s.filled (b :: bs) (c + d) := by
  have hpos : s.txRing.prodHead + BitVec.ofNat 32 1 + BitVec.ofNat 32 bs.length =
      s.txRing.prodHead + BitVec.ofNat 32 (b :: bs).length := by
    rw [BitVec.add_assoc, ← BitVec.ofNat_add, Nat.add_comm, length_cons]
  have hspace : s.txSpace - BitVec.ofInt 32 c - BitVec.ofInt 32 d =
      s.txSpace - BitVec.ofInt 32 (c + d) := by
    rw [BitVec.ofInt_add]
    bv_omega
  rw [filled, filled, filled, ← hpos, ← hspace]
  rfl

theorem total_cons (b : SendBuf n) (bs : List (SendBuf n)) :
    SendBuf.total (b :: bs) = b.charge + SendBuf.total bs := by
  have hfold (c : Int) : bs.foldl (fun total b => total + b.charge) c = c + SendBuf.total bs := by
    induction bs generalizing c with
    | nil => simp [SendBuf.total]
    | cons b bs ih =>
      rw [SendBuf.total, foldl_cons, foldl_cons, ih, ih]
      omega
  rw [SendBuf.total, foldl_cons, hfold, Int.zero_add]

theorem foldl_single (hne : bs ≠ []) (h : s.Room bs.length) :
    bs.foldl (fun s b => (s.single b).2) s = (s.bulk bs).2 := by
  rw [bulk_of_room h]
  obtain ⟨b, bs, rfl⟩ := exists_cons_of_ne_nil hne
  clear hne
  induction bs generalizing s b with
  | nil =>
    rw [foldl_cons, single_of_room h]
    simp [SendBuf.total]
  | cons b' bs ih =>
    have hone : s.Room 1 := ⟨h.idle, Nat.le_trans (by simp) h.free⟩
    rw [foldl_cons, single_of_room hone]
    refine (ih b' (h.next b)).trans ?_
    rw [filled_filled, total_cons b]

theorem refused_bulk (h : s.txRing.freeEntries.toNat < bs.length) : s.Refused (s.bulk bs) := by
  have hfree : s.txRing.freeEntries.toNat < (bs.map SendBuf.desc).length := by
    rwa [length_map]
  rw [bulk, SpscRing.spEnqueueBulk, if_pos hfree]
  exact ⟨by simp [sent], rfl, rfl⟩

/-! `service_send` clears `next`, `service_send_bulk` does not. -/

theorem written_forSendBulk_next (mem : Memory n) (bs : List (Fin n × Int)) (p : Fin n) :
    ((bs.map SendBuf.forSendBulk).foldl written mem).next p = mem.next p := by
  induction bs generalizing mem with
  | nil => rfl
  | cons b bs ih =>
    rw [map_cons, foldl_cons, ih]
    by_cases hp : p = b.1
    · subst hp
      simp [written, Memory.next, SendBuf.forSendBulk, SendBuf.setLen]
    · exact congrArg _ (modify_cell_of_ne _ _ hp)

theorem written_forSend (mem : Memory n) (bs : List (Fin n × Int)) :
    (bs.map SendBuf.forSend).foldl written mem =
      let mem' := (bs.map SendBuf.forSendBulk).foldl written mem
      { mem' with cell := fun p =>
          { mem'.cell p with next := if p ∈ bs.map Prod.fst then none else mem.next p } } := by
  induction bs using List.reverseRecOn with
  | nil => rfl
  | append_singleton bs b ih =>
    rw [map_append, foldl_append, ih, map_append, foldl_append]
    refine Memory.ext (funext fun p => ?_) rfl rfl rfl
    by_cases hp : p = b.1
    · subst hp
      simp [written, SendBuf.forSendBulk, SendBuf.forSend, SendBuf.setLen]
    · have hmem : p ∈ (bs ++ [b]).map Prod.fst ↔ p ∈ bs.map Prod.fst := by
        simp [hp]
      simp [written, SendBuf.forSendBulk, SendBuf.forSend, Memory.modify, hp, if_congr hmem]

theorem written_eq_iff (mem : Memory n) (bs : List (Fin n × Int)) :
    (bs.map SendBuf.forSendBulk).foldl written mem =
        (bs.map SendBuf.forSend).foldl written mem ↔
      ∀ b ∈ bs, mem.next b.1 = none := by
  rw [written_forSend]
  constructor
  · intro heq b hb
    have hmem : b.1 ∈ bs.map Prod.fst := List.mem_map_of_mem hb
    rw [← written_forSendBulk_next mem bs, heq]
    simp only [Memory.next, if_pos hmem]
  · intro hnone
    refine Memory.ext (funext fun p => ?_) rfl rfl rfl
    have hnext : (if p ∈ bs.map Prod.fst then none else mem.next p) =
        ((bs.map SendBuf.forSendBulk).foldl written mem).next p := by
      rw [written_forSendBulk_next]
      split
      next hp =>
        obtain ⟨b, hb, rfl⟩ := List.mem_map.mp hp
        exact (hnone b hb).symm
      next => rfl
    simp only [hnext]
    rfl

theorem serviceSendBulk_eq_iff {bs : List (Fin n × Int)} (hne : bs ≠ []) (h : s.Room bs.length) :
    (s.serviceSendBulk bs).2 = bs.foldl (fun s b => (s.serviceSend b).2) s ↔
      ∀ b ∈ bs, s.mem.next b.1 = none := by
  have hsingles : bs.foldl (fun s b => (s.serviceSend b).2) s = (s.bulk (bs.map .forSend)).2 := by
    rw [← foldl_single (by simpa using hne) (by simpa using h), foldl_map]
    rfl
  have hdesc : bs.map (SendBuf.desc ∘ SendBuf.forSend) =
      bs.map (SendBuf.desc ∘ SendBuf.forSendBulk) := rfl
  have htotal : SendBuf.total (bs.map .forSend) = SendBuf.total (bs.map .forSendBulk) := by
    rw [SendBuf.total, SendBuf.total, foldl_map, foldl_map]
    rfl
  rw [hsingles, serviceSendBulk, bulk_of_room (by simpa using h), bulk_of_room (by simpa using h),
    htotal, ← written_eq_iff]
  simp only [filled, List.map_map, hdesc, length_map, SendSide.mk.injEq, and_true]

end SendSide

open SendSide

/-- A bulk that fits is its buffers sent one by one, unless `service_send_bulk` gets a chain; one
that does not fit is refused. -/
theorem bulk_as_singles (s : SendSide j n) (hidle : s.txRing.prodHead = s.txRing.prodTail) :
    (∀ bs ≠ [], bs.length ≤ s.txRing.freeEntries.toNat →
      ((s.serviceSendBulk bs).2 = bs.foldl (fun s b => (s.serviceSend b).2) s ↔
        ∀ b ∈ bs, s.mem.next b.1 = none)) ∧
    (∀ bs ≠ [], bs.length ≤ s.txRing.freeEntries.toNat →
      (s.serviceSendtoBulk bs).2 = bs.foldl (fun s b => (s.serviceSendto b).2) s) ∧
    (∀ bs, s.txRing.freeEntries.toNat < bs.length → s.Refused (s.serviceSendBulk bs)) ∧
    ∀ bs, s.txRing.freeEntries.toNat < bs.length → s.Refused (s.serviceSendtoBulk bs) := by
  refine ⟨fun bs hne hfree => ?_, fun bs hne hfree => ?_, fun bs hfull => ?_, fun bs hfull => ?_⟩
  · exact serviceSendBulk_eq_iff hne ⟨hidle, hfree⟩
  · have hsingles : (bs.map .forSendto).foldl (fun s b => (s.single b).2) s =
        (s.bulk (bs.map .forSendto)).2 :=
      foldl_single (by simpa using hne) ⟨hidle, by simpa using hfree⟩
    rw [List.foldl_map] at hsingles
    exact hsingles.symm
  · exact refused_bulk (by simpa using hfull)
  · exact refused_bulk (by simpa using hfull)

def chainToSend : SendSide 3 21 where
  mem := { cell := fun p => { next := if p.val = 0 then some 1 else none } }
  txRing := {}
  txSpace := 0
  writeReadyToApp := true

theorem bulk_as_singles_two : (chainToSend.serviceSendBulk [(1, 8), (2, 9)]).2 =
    ((chainToSend.serviceSend (1, 8)).2.serviceSend (2, 9)).2 := by
  have hbulk := (bulk_as_singles chainToSend rfl).1 [(1, 8), (2, 9)] (by simp) (by decide)
  exact hbulk.mpr (by decide)

theorem bulk_keeps_chain : 2 ≤ chainToSend.txRing.freeEntries.toNat ∧
    (chainToSend.serviceSendBulk [(0, 7), (1, 8)]).1 = 0 ∧
    (chainToSend.serviceSendBulk [(0, 7), (1, 8)]).2.mem.next 0 = some 1 ∧
    ((chainToSend.serviceSend (0, 7)).2.serviceSend (1, 8)).2.mem.next 0 = none := by
  decide

end NetbsdDpdk
