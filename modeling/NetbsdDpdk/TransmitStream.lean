import NetbsdDpdk.Transmit

/-! Losslessness of the transmit path for the runs in which every send finds room, and a run in
which the advertised space promises room that is not there. -/

namespace NetbsdDpdk

open List

variable {k n : Nat} {p : Fin n} {len : Nat}

namespace TxSystem

@[simp] theorem sendCommand_so (s : TxSystem k n) (cmd : Slot → ServiceCmd) :
    (s.sendCommand cmd).so = s.so := by
  unfold sendCommand
  split <;> rfl

@[simp] theorem sendCommand_accepted (s : TxSystem k n) (cmd : Slot → ServiceCmd) :
    (s.sendCommand cmd).accepted = s.accepted := by
  unfold sendCommand
  split <;> rfl

@[simp] theorem sendCommand_waiting (s : TxSystem k n) (cmd : Slot → ServiceCmd) :
    (s.sendCommand cmd).waiting = s.waiting := by
  unfold sendCommand
  split <;> rfl

end TxSystem

theorem Memory.DataKept.data {mem mem' : Memory n} (h : mem.DataKept mem') (p : Fin n) :
    (mem'.cell p).data = (mem.cell p).data := by
  obtain ⟨hbuf, hoff, hlen⟩ := h p
  rw [RteMbuf.data, RteMbuf.data, hbuf, hoff, hlen]

theorem TxInv.of_slot {s s' : TxSystem k n} {xs ys : List (Fin k)} (h : TxInv s xs ys)
    (slot : Option TxSlot) (hso : s'.so = { s.so with sock := { s.so.sock with slot := slot } })
    (hacc : s'.accepted = s.accepted) (hwait : s'.waiting = s.waiting) : TxInv s' xs ys := by
  constructor
  · rw [hso]
    exact h.bufs
  · rw [hso]
    exact h.connected
  · rw [hso]
    exact h.noError
  · rw [hso]
    exact h.canSend
  · rw [hso, hacc, hwait]
    exact h.stream
  · rw [TxSystem.lens, hso, hwait]
    exact h.room
  · rw [hso, hwait]
    exact h.mbufs

theorem TxInv.of_initial {s : TxSystem k n} {ys : List (Fin k)} (h : s.Initial ys) :
    TxInv s [] ys where
  bufs := h.attached.bufs
  connected := h.connected
  noError := h.noError
  canSend := h.canSend
  stream := by simp [h.accepted, h.appended, h.waiting, Memory.bytes]
  room := by simp [TxSystem.lens, h.waiting, Fits]
  mbufs := by simp [h.waiting]

section Steps

variable {s s' : TxSystem k n} {xs ys : List (Fin k)}

theorem appGlueSend_of_fits {ps : List (Fin n)} (tcpError : Int) (h : TxInv s xs ys)
    (hburst : s.burst = p :: ps) :
    ∃ so zs, s.so.appGlueSend p tcpError = some (tcpError, so) ∧
      TwoBuffers so.sock.mem so.sock.soSnd so.sock.soRcv zs ys ∧
      Resized s.so.sock.mem s.so.sock.soSnd (s.so.sock.mem.rte.cell p).dataLen mSize 1
        so.sock.mem so.sock.soSnd ∧
      so.isConnected = s.so.isConnected ∧ so.soError = s.so.soError ∧
      so.cantSendMore = s.so.cantSendMore ∧
      so.appended = s.so.appended ++ (s.so.sock.mem.rte.cell p).data := by
  have hwait : s.waiting = p :: (ps ++ s.txRing.items) := by simp [TxSystem.waiting, hburst]
  have hroom := h.room
  simp only [TxSystem.lens, hwait, map_cons, Fits] at hroom
  obtain ⟨hcc, hmbcnt, -⟩ := hroom
  have hpos : 0 ≤ s.so.sock.soSnd.sbCc := by
    rw [h.bufs.fst.cc]
    omega
  obtain ⟨x, cache, hcache⟩ : ∃ x cache, s.so.sock.mem.mbCache = x :: cache := by
    have hle := h.mbufs
    rw [hwait, length_cons] at hle
    exact exists_cons_of_length_pos (by omega)
  obtain ⟨m, hm⟩ : ∃ m : Mbuf k n, MbufMem.devMbuf (s.so.sock.mem.rte.cell p).dataOff
      (s.so.sock.mem.rte.cell p).dataLen p = m := ⟨_, rfl⟩
  have hnd : (x :: ([] : List (Fin k × Mbuf k n)).map Prod.fst).Nodup := by simp
  obtain ⟨mem', a', zs, hres, hbufs, hsize, -⟩ :=
    h.bufs.append s.so.sock.slot m hnd (by simp [hcache])
  have hmlen : m.mLen = (s.so.sock.mem.rte.cell p).dataLen := by rw [← hm]; rfl
  have hcharge : (s.so.sock.mem.placeChain [(x, m)]).chargeOf [x] = mSize := by
    simp [Sockbuf.mbufCharge, ← hm, MbufMem.devMbuf]
  have hbytes : (s.so.sock.mem.placeChain [(x, m)]).mbufBytes x =
      (s.so.sock.mem.rte.cell p).data := by
    simp [MbufMem.mbufBytes, MbufMem.placeChain_rte, ← hm, MbufMem.devMbuf, RteMbuf.data]
  have hspace : ¬ s.so.sock.soSnd.sbspace < (s.so.sock.mem.rte.cell p).dataLen := by
    simp only [Sockbuf.sbspace]
    omega
  have hhiwat : ¬ s.so.sock.soSnd.sbHiwat < (s.so.sock.mem.rte.cell p).dataLen := by
    omega
  refine ⟨{ s.so with
      sock := s.so.sock.update .snd (mem', a', reflectTxSocketBuf s.so.sock.slot m.mLen)
      appended := s.so.appended ++ (s.so.sock.mem.rte.cell p).data }, xs ++ zs, ?_, hbufs, ?_, rfl,
    rfl, rfl, rfl⟩
  · have hneg : ¬ ((s.so.sock.mem.rte.cell p).dataLen : Int) < 0 := by omega
    simp [SndSocket.appGlueSend, MbufMem.mDevget, hcache, hm, SndSocket.sosend, h.canSend,
      h.noError, h.connected, hhiwat, hspace, hneg, SndSocket.prUsrreqSend, hres, hbytes,
      StreamSocket.update]
  · have hlen : (m.mLen + (([] : List (Fin k × Mbuf k n)).map fun p => p.2.mLen).sum : Nat) =
        (s.so.sock.mem.rte.cell p).dataLen := by simp [hmlen]
    rw [hlen] at hsize
    rw [← hcharge]
    exact hsize

theorem TxInv.sendNext {tcpError : Int} (h : TxInv s xs ys)
    (hstep : txStep s (.sendNext tcpError) = some s') : ∃ zs, TxInv s' zs ys := by
  cases hburst : s.burst with
  | nil => simp [txStep, hburst] at hstep
  | cons p ps =>
    obtain ⟨so, zs, hsend, hbufs, hsize, hconn, herr, hcan, happ⟩ :=
      appGlueSend_of_fits tcpError h hburst
    have hs' : s' = { s with so := so, burst := ps } := by
      simpa [txStep, hburst, hsend, eq_comm] using hstep
    have hwait : s.waiting = p :: s'.waiting := by
      simp [TxSystem.waiting, hburst, hs']
    have hlens : s.lens = (s.so.sock.mem.rte.cell p).dataLen :: s'.lens := by
      simp only [TxSystem.lens, hwait, map_cons, hs']
      congr 1
      exact map_congr_left fun q _ => ((hsize.rte q).2.2).symm
    have hroom := h.room
    rw [hlens] at hroom
    obtain ⟨-, -, hroom⟩ := hroom
    have hso : s'.so = so := by rw [hs']
    have hbytes : s'.so.sock.mem.rte.bytes s'.waiting =
        s.so.sock.mem.rte.bytes s'.waiting := by
      rw [hso]
      exact Memory.bytes_congr fun q _ => hsize.rte.data q
    have hmbufs := h.mbufs
    refine ⟨zs, ?_⟩
    constructor
    · rw [hs']
      exact hbufs
    · rw [hs']
      exact hconn.trans h.connected
    · rw [hs']
      exact herr.trans h.noError
    · rw [hs']
      exact hcan.trans h.canSend
    · have hacc : s'.accepted = s.accepted := by rw [hs']
      rw [hbytes, hacc, h.stream, hwait, hso, happ]
      simp [Memory.bytes]
    · rw [hso, hsize.hiwat, hsize.mbmax]
      exact hroom.mono (le_of_eq hsize.cc) hsize.mbcnt
    · have hcache := hsize.cache
      rw [hwait, length_cons] at hmbufs
      rw [hso]
      omega

theorem TxInv.ack (h : TxInv s xs ys) (hstep : txStep s (.ack len) = some s') :
    ∃ zs, TxInv s' zs ys := by
  simp only [txStep] at hstep
  split at hstep
  · rename_i hlen
    obtain ⟨mem', a', slot', zs, hres, hbufs, hsize, -⟩ := h.bufs.drop hlen.2
    rw [hres, Option.map_some] at hstep
    cases hstep
    have hlens : ∀ q, (mem'.rte.cell q).dataLen = (s.so.sock.mem.rte.cell q).dataLen :=
      fun q => (hsize.rte q).2.2
    refine ⟨zs, hbufs, h.connected, h.noError, h.canSend, ?_, ?_, ?_⟩
    · have hbytes : mem'.rte.bytes s.waiting = s.so.sock.mem.rte.bytes s.waiting :=
        Memory.bytes_congr fun q _ => hsize.rte.data q
      exact h.stream.trans (congrArg (s.so.appended ++ ·) hbytes.symm)
    · have hcc := hsize.cc
      have hmbcnt := hsize.mbcnt
      have hroom := h.room.mono (show a'.sbCc ≤ _ by omega) (show a'.sbMbcnt ≤ _ by omega)
      rw [← hsize.hiwat, ← hsize.mbmax] at hroom
      have hmap : s.lens = s.waiting.map fun q => (mem'.rte.cell q).dataLen :=
        map_congr_left fun q _ => (hlens q).symm
      rw [hmap] at hroom
      exact hroom
    · have hcache := hsize.cache
      exact h.mbufs.trans hcache
  · cases hstep

theorem fill_cell (hp : p ∉ s.waiting) (buf : Nat → UInt8) (off len : Nat) :
    ∀ q ∈ s.waiting, (s.fill p buf off len).so.sock.mem.rte.cell q = s.so.sock.mem.rte.cell q := by
  intro q hq
  have hne : q ≠ p := ne_of_mem_of_not_mem hq hp
  simp [TxSystem.fill, Memory.modify_cell_of_ne _ _ hne]

theorem fill_lens (hp : p ∉ s.waiting) (buf : Nat → UInt8) (off len : Nat) :
    (s.fill p buf off len).lens = s.lens :=
  map_congr_left fun q hq => by rw [fill_cell hp buf off len q hq]

theorem TxInv.fill (h : TxInv s xs ys) (hp : p ∉ s.waiting) (buf : Nat → UInt8) (off len : Nat) :
    TxInv (s.fill p buf off len) xs ys := by
  have hwait : (s.fill p buf off len).waiting = s.waiting := rfl
  refine ⟨?_, h.connected, h.noError, h.canSend, ?_, ?_, h.mbufs⟩
  · obtain ⟨hfst, hsnd, hapart, hfree, hnd⟩ := h.bufs
    exact ⟨hfst.congr fun _ _ => rfl, hsnd.congr fun _ _ => rfl, hapart, hfree, hnd⟩
  · have hbytes : (s.fill p buf off len).so.sock.mem.rte.bytes s.waiting =
        s.so.sock.mem.rte.bytes s.waiting :=
      Memory.bytes_congr fun q hq => by rw [fill_cell hp buf off len q hq]
    rw [hwait, hbytes]
    exact h.stream
  · rw [fill_lens hp]
    exact h.room

theorem TxInv.enqueue {ring : Fifo (dataRingsSize - 1) (Fin n)} (h : TxInv s xs ys)
    (hlen : (s.so.sock.mem.rte.cell p).dataLen = len)
    (hroom : s.so.sock.soSnd.sbCc + (s.lens.sum : Nat) + len ≤ s.so.sock.soSnd.sbHiwat ∧
      s.so.sock.soSnd.sbMbcnt + (s.lens.length * mSize : Nat) + len ≤ s.so.sock.soSnd.sbMbmax ∧
      s.waiting.length < s.so.sock.mem.mbCache.length) (hring : s.txRing.enqueue p = some ring) :
    TxInv { s with
      txRing := ring, accepted := s.accepted ++ (s.so.sock.mem.rte.cell p).data } xs ys := by
  obtain ⟨hcc, hmbcnt, hmbufs⟩ := hroom
  have hitems := (Fifo.enqueue_eq_some_iff.mp hring).2
  have hwait : s.burst ++ ring.items = s.waiting ++ [p] := by
    rw [hitems, TxSystem.waiting, append_assoc]
  refine ⟨h.bufs, h.connected, h.noError, h.canSend, ?_, ?_, ?_⟩
  · show s.accepted ++ _ = s.so.appended ++ s.so.sock.mem.rte.bytes (s.burst ++ ring.items)
    rw [hwait, Memory.bytes_append, h.stream]
    simp [Memory.bytes]
  · show Fits _ _ _ _ ((s.burst ++ ring.items).map fun q => (s.so.sock.mem.rte.cell q).dataLen)
    rw [hwait, map_append, map_singleton, hlen]
    exact h.room.snoc hcc hmbcnt
  · show (s.burst ++ ring.items).length ≤ s.so.sock.mem.mbCache.length
    rw [hwait, length_append, length_singleton]
    omega

theorem TxInv.send {buf : Nat → UInt8} {off : Nat} (h : TxInv s xs ys)
    (hok : RoomForSend s (.send p buf off len)) (hstep : txStep s (.send p buf off len) = some s') :
    TxInv s' xs ys := by
  simp only [txStep] at hstep
  split at hstep
  · rename_i hguard
    obtain ⟨⟨hpos, hmax⟩, -, hp⟩ := hguard
    obtain ⟨s₁, hs₁⟩ : ∃ s₁, (s.fill p buf off len).modifySlot
        (fun t => { t with writeReadyToApp := false }) = s₁ := ⟨_, rfl⟩
    have h₁ : TxInv s₁ xs ys := by
      rw [← hs₁]
      exact (h.fill hp buf off len).of_slot _ rfl rfl rfl
    have hlen : (s₁.so.sock.mem.rte.cell p).dataLen = len := by
      rw [← hs₁]
      simp [TxSystem.modifySlot, TxSystem.fill]
      omega
    rw [TxSystem.serviceSend, hs₁, Option.some.injEq] at hstep
    cases hq : s₁.txRing.enqueue p with
    | none =>
      simp only [hq] at hstep
      rw [← hstep]
      exact h₁.of_slot _ rfl rfl rfl
    | some ring =>
      simp only [hq] at hstep
      have hlens : s₁.lens = s.lens := by
        rw [← hs₁]
        exact fill_lens hp buf off len
      have hroom : s₁.so.sock.soSnd.sbCc + (s₁.lens.sum : Nat) + len ≤ s₁.so.sock.soSnd.sbHiwat ∧
          s₁.so.sock.soSnd.sbMbcnt + (s₁.lens.length * mSize : Nat) + len ≤
            s₁.so.sock.soSnd.sbMbmax ∧ s₁.waiting.length < s₁.so.sock.mem.mbCache.length := by
        rw [hlens, ← hs₁]
        exact hok
      rw [← hstep]
      exact (h₁.enqueue hlen hroom hq).of_slot _ rfl rfl rfl
  · cases hstep

theorem TxInv.poll (h : TxInv s xs ys) (hstep : txStep s .poll = some s') : TxInv s' xs ys := by
  simp only [txStep] at hstep
  split at hstep
  · rename_i hserve
    cases hstep
    have hwait : s.waiting = s.txRing.items := by simp [TxSystem.waiting, hserve.2]
    by_cases hcount : s.txRing.count = 0
    · apply h.of_slot s.poll.so.sock.slot
      · simp [TxSystem.poll, hcount, TxSystem.modifySlot]
      · simp [TxSystem.poll, hcount, TxSystem.modifySlot]
      · simp [TxSystem.poll, hcount, TxSystem.modifySlot, TxSystem.waiting]
    · apply h.of_slot s.poll.so.sock.slot
      · simp [TxSystem.poll, hcount, TxSystem.modifySlot]
      · simp [TxSystem.poll, hcount, TxSystem.modifySlot]
      · rw [hwait]
        simp [TxSystem.poll, hcount, TxSystem.modifySlot, TxSystem.waiting]
  · cases hstep

theorem TxInv.query {free : Nat} (h : TxInv s xs ys) (hstep : txStep s (.query free) = some s') :
    TxInv s' xs ys := by
  simp only [txStep, TxSystem.getSocketTxSpace] at hstep
  by_cases hlow : s.advertisedSpace free < 10
  · simp only [hlow, if_true, Option.some.injEq] at hstep
    rw [← hstep]
    exact h.of_slot _ (by rw [TxSystem.sendCommand_so]; rfl) (TxSystem.sendCommand_accepted _ _)
      (TxSystem.sendCommand_waiting _ _)
  · simp only [hlow, if_false, Option.some.injEq] at hstep
    rw [← hstep]
    exact h.of_slot _ rfl rfl rfl

theorem TxInv.kick (h : TxInv s xs ys) (hstep : txStep s .kick = some s') : TxInv s' xs ys := by
  simp only [txStep, TxSystem.socketKick] at hstep
  split at hstep
  · cases hstep
    exact h
  · cases hstep
    exact h.of_slot _ (by rw [TxSystem.sendCommand_so]; rfl) (TxSystem.sendCommand_accepted _ _)
      (TxSystem.sendCommand_waiting _ _)

theorem TxInv.step {a : TxAction n} (h : ∃ xs ys, TxInv s xs ys) (hok : RoomForSend s a)
    (hstep : txStep s a = some s') : ∃ xs ys, TxInv s' xs ys := by
  obtain ⟨xs, ys, h⟩ := h
  cases a with
  | query free => exact ⟨xs, ys, h.query hstep⟩
  | send p buf off len => exact ⟨xs, ys, h.send hok hstep⟩
  | kick => exact ⟨xs, ys, h.kick hstep⟩
  | opportunity =>
    simp only [txStep] at hstep
    split at hstep
    · cases hstep
    · cases hstep
      exact ⟨xs, ys, h.of_slot _ rfl rfl rfl⟩
  | poll => exact ⟨xs, ys, h.poll hstep⟩
  | sendNext tcpError =>
    obtain ⟨zs, h⟩ := h.sendNext hstep
    exact ⟨zs, ys, h⟩
  | ack len =>
    obtain ⟨zs, h⟩ := h.ack hstep
    exact ⟨zs, ys, h⟩

end Steps

/-- In the runs in which every send finds room, what was appended to the send buffer is, at every
moment, the data of the accepted buffers without those that still wait, in order; and the server
is never stuck with a buffer it has taken. -/
theorem accepted_eq_appended {s₀ s : TxSystem k n} {ys : List (Fin k)} {as : List (TxAction n)}
    (hinit : s₀.Initial ys) (hrun : Run txStep RoomForSend s₀ as s) :
    s.accepted = s.so.appended ++ s.so.sock.mem.rte.bytes s.waiting ∧
      ∀ tcpError, s.burst ≠ [] → (txStep s (.sendNext tcpError)).isSome := by
  obtain ⟨xs, zs, h⟩ : ∃ xs ys, TxInv s xs ys :=
    hrun.invariant (fun _ _ _ => TxInv.step) ⟨[], ys, TxInv.of_initial hinit⟩
  refine ⟨h.stream, ?_⟩
  intro tcpError hne
  cases hburst : s.burst with
  | nil => exact absurd hburst hne
  | cons p ps =>
    obtain ⟨so, ws, hsend, -⟩ := appGlueSend_of_fits tcpError h hburst
    simp [txStep, hburst, hsend]

def connectedSocket (k n : Nat) : TxSystem k n where
  so := { sock := attachedSocket k n 8192 }
  chan := { pool := [0], ring := Fifo.empty }

theorem connectedSocket_initial (k n : Nat) : (connectedSocket k n).Initial [] :=
  ⟨attachedSocket_attached k n (by decide), rfl, rfl, rfl, rfl, rfl, rfl⟩

def exchange (ps : List (Fin n × UInt8)) : List (TxAction n) :=
  .query 100 :: ps.map (fun (p, b) => .send p (fun _ => b) 0 1) ++ .kick :: .opportunity ::
    .poll :: ps.map (fun _ => .sendNext 0) ++ [.poll]

theorem accepted_eq_appended_exchange :
    ∃ s : TxSystem 2 2, Run txStep RoomForSend (connectedSocket 2 2)
        (exchange [(0, 1), (1, 2)] ++ [.ack 1, .query 100, .send 0 (fun _ => 3) 0 1]) s ∧
      (s.waiting = [0] ∧ s.accepted = [1, 2, 3]) ∧
      s.accepted = s.so.appended ++ s.so.sock.mem.rte.bytes s.waiting :=
  Run.exists_and_of_runActions (by decide +kernel) fun _ hrun _ =>
    (accepted_eq_appended (connectedSocket_initial 2 2) hrun).1

theorem accepted_byte_not_appended :
    (connectedSocket 5 5).Initial [] ∧
    ∃ s : TxSystem 5 5, Run txStep (fun _ _ => True) (connectedSocket 5 5)
        (exchange [(0, 1), (1, 2)] ++ exchange [(2, 3), (3, 4)] ++ exchange [(4, 5)]) s ∧
      s.serving = false ∧ s.waiting = [] ∧ s.accepted = [1, 2, 3, 4, 5] ∧
      s.so.appended = [1, 2, 3, 4] :=
  ⟨connectedSocket_initial 5 5, Run.exists_of_runActions (by decide +kernel)⟩

end NetbsdDpdk
