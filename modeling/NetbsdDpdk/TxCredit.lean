import NetbsdDpdk.SocketBuffers
import NetbsdDpdk.Transition

/-! The transmit credit of a connection slot against the send buffer it stands for, over all runs
of appends, drops and flushes on the two buffers of a stream socket. -/

namespace NetbsdDpdk

open Option StreamSocket

open scoped Memory

variable {k n : Nat}

inductive CreditAction (k n : Nat)
  | append (side : Side) (x : Fin k) (m : Mbuf k n) (ms : List (Fin k × Mbuf k n))
  | drop (side : Side) (len : Nat)
  | flush

def creditStep (s : StreamSocket k n) : CreditAction k n → Option (StreamSocket k n)
  | .append side x m ms =>
    let cells := x :: ms.map Prod.fst
    if cells.Nodup ∧ ∀ y ∈ cells, y ∈ s.mem.mbCache then
      let mem := s.mem.placeChain ((x, m) :: ms)
      (sbappendstream mem (s.buf side) s.slot x).map (s.update side)
    else none
  | .drop side len =>
    if (len : Int) ≤ (s.buf side).sbCc then
      (sbdrop s.mem (s.buf side) s.slot len).map (s.update side)
    else none
  | .flush => (sbflush (k + 1) s.mem s.soRcv s.slot).map (s.update .rcv)

structure StreamSocket.Attached (s : StreamSocket k n) (ys : List (Fin k)) : Prop where
  bufs : TwoBuffers s.mem s.soSnd s.soRcv [] ys
  hiwat : 0 ≤ s.soSnd.sbHiwat ∧ s.soSnd.sbHiwat ≤ 262144
  mbmax : 0 ≤ s.soSnd.sbMbmax
  slot : ∃ t : TxSlot, s.slot = some (t.setTxSpace s.soSnd.sbspace)

def StreamSocket.slack (s : StreamSocket k n) : Int :=
  s.soSnd.sbHiwat - s.soSnd.sbCc - (s.slot.map TxSlot.txSpace).getD 0

def StreamSocket.cost (s : StreamSocket k n) : CreditAction k n → Int
  | .append .snd _ m ms => m.mLen + (m.mLen + (ms.map fun y => y.2.mLen).sum : Nat)
  | .append .rcv _ m _ => m.mLen
  | .drop .snd _ => 0
  | .drop .rcv len => len
  | .flush => s.soRcv.sbCc

def CreditCovers (s : StreamSocket k n) (a : CreditAction k n) : Prop := s.cost a ≤ s.slack

instance (s : StreamSocket k n) (a : CreditAction k n) : Decidable (CreditCovers s a) :=
  inferInstanceAs (Decidable (_ ≤ _))

structure CreditInv (s : StreamSocket k n) (xs ys : List (Fin k)) : Prop where
  bufs : TwoBuffers s.mem s.soSnd s.soRcv xs ys
  hiwat : s.soSnd.sbHiwat ≤ 262144
  slot : ∃ t, s.slot = some t ∧ t.InStep ∧ 0 ≤ t.txExact ∧
    t.txExact ≤ s.soSnd.sbHiwat - s.soSnd.sbCc

theorem wrap32_eq {z : Int} (hlow : 0 ≤ z) (hhigh : z ≤ 262144) : wrap32 z = z :=
  Int.bmod_eq_of_le (by omega) (by omega)

theorem CreditInv.of_attached {s : StreamSocket k n} {ys : List (Fin k)} (h : s.Attached ys) :
    CreditInv s [] ys := by
  obtain ⟨t, ht⟩ := h.slot
  have hcc : s.soSnd.sbCc = 0 := h.bufs.fst.cc
  have hmbcnt : s.soSnd.sbMbcnt = 0 := h.bufs.fst.mbcnt
  have hlow := h.hiwat.1
  have hmbmax := h.mbmax
  refine ⟨h.bufs, h.hiwat.2, _, ht, rfl, ?_, ?_⟩
  · simp only [TxSlot.setTxSpace, Sockbuf.sbspace]
    omega
  · simp only [TxSlot.setTxSpace, Sockbuf.sbspace]
    omega

section Steps

variable {s s' : StreamSocket k n} {xs ys : List (Fin k)}

theorem CreditInv.txSpace_eq (h : CreditInv s xs ys) :
    ∃ t, s.slot = some t ∧ t.txSpace = t.txExact ∧ 0 ≤ t.txExact ∧ t.txExact ≤ 262144 := by
  obtain ⟨t, ht, hstep, hlow, hhigh⟩ := h.slot
  have hcc : 0 ≤ s.soSnd.sbCc := by
    rw [h.bufs.fst.cc]
    omega
  have hhiwat := h.hiwat
  refine ⟨t, ht, ?_, hlow, by omega⟩
  rw [hstep, wrap32_eq hlow (by omega)]

theorem CreditInv.of_reflected (h : CreditInv s xs ys) {count change : Int}
    {xs' ys' : List (Fin k)} (hbufs : TwoBuffers s'.mem s'.soSnd s'.soRcv xs' ys')
    (hhiwat : s'.soSnd.sbHiwat = s.soSnd.sbHiwat) (hcc : s'.soSnd.sbCc = s.soSnd.sbCc + change)
    (hrefl : Reflected s.slot count s'.slot) (hpos : 0 ≤ count)
    (hcost : count + change ≤ s.slack) : CreditInv s' xs' ys' := by
  obtain ⟨t, ht, hspace, -, -⟩ := h.txSpace_eq
  obtain ⟨u, hu, hstep, hlow, hhigh⟩ := h.slot
  rw [ht] at hu
  cases hu
  have hexact := hrefl.exact
  rw [ht, map_some] at hexact
  obtain ⟨t', ht', hexact⟩ := map_eq_some_iff.mp hexact
  have hstep' : t'.InStep := by
    apply hrefl.inStep _ t' ht'
    intro v hv
    have hvt : t = v := by simpa [ht] using hv
    rw [← hvt]
    exact hstep
  simp only [slack, ht, map_some, getD_some, hspace] at hcost
  refine ⟨hbufs, by rw [hhiwat]; exact h.hiwat, t', ht', hstep', by omega, ?_⟩
  rw [hhiwat, hcc]
  omega

theorem CreditInv.append {side : Side} {x : Fin k} {m : Mbuf k n} {ms : List (Fin k × Mbuf k n)}
    (h : CreditInv s xs ys) (hok : CreditCovers s (.append side x m ms))
    (hstep : creditStep s (.append side x m ms) = some s') : ∃ xs' ys', CreditInv s' xs' ys' := by
  simp only [creditStep] at hstep
  split at hstep
  · rename_i hcells
    have hrefl := reflected_reflectTxSocketBuf s.slot m.mLen
    cases side with
    | snd =>
      obtain ⟨mem', a', zs, hres, hbufs, hsize, -⟩ :=
        h.bufs.append s.slot m hcells.1 hcells.2
      rw [buf, hres, map_some] at hstep
      cases hstep
      refine ⟨xs ++ zs, ys, h.of_reflected hbufs hsize.hiwat hsize.cc hrefl (by omega) hok⟩
    | rcv =>
      obtain ⟨mem', a', zs, hres, hbufs, -⟩ :=
        h.bufs.symm.append s.slot m hcells.1 hcells.2
      rw [buf, hres, map_some] at hstep
      cases hstep
      have hcost : (m.mLen : Int) + 0 ≤ s.slack := by simpa [CreditCovers, cost] using hok
      exact ⟨xs, ys ++ zs, h.of_reflected hbufs.symm rfl (Int.add_zero _).symm hrefl (by omega)
        hcost⟩
  · cases hstep

theorem CreditInv.drop {side : Side} {len : Nat} (h : CreditInv s xs ys)
    (hok : CreditCovers s (.drop side len)) (hstep : creditStep s (.drop side len) = some s') :
    ∃ xs' ys', CreditInv s' xs' ys' := by
  obtain ⟨t, ht, hspace, -, hmax⟩ := h.txSpace_eq
  simp only [creditStep] at hstep
  split at hstep
  · rename_i hlen
    cases side with
    | snd =>
      obtain ⟨mem', a', slot', zs, hres, hbufs, hsize, hrefl, -⟩ := h.bufs.drop hlen
      rw [buf, hres, map_some] at hstep
      cases hstep
      have hcost : (len : Int) + -len ≤ s.slack := by
        simpa [CreditCovers, cost] using hok
      exact ⟨zs, ys, h.of_reflected hbufs hsize.hiwat hsize.cc hrefl (by omega) hcost⟩
    | rcv =>
      obtain ⟨mem', a', slot', zs, hres, hbufs, -, hrefl, -⟩ := h.bufs.symm.drop hlen
      rw [buf, hres, map_some] at hstep
      cases hstep
      have hcost : (len : Int) + 0 ≤ s.slack := by simpa [CreditCovers, cost] using hok
      exact ⟨xs, zs, h.of_reflected hbufs.symm rfl (Int.add_zero _).symm hrefl (by omega) hcost⟩
  · cases hstep

theorem CreditInv.flush (h : CreditInv s xs ys) (hok : CreditCovers s .flush)
    (hstep : creditStep s .flush = some s') : ∃ xs' ys', CreditInv s' xs' ys' := by
  obtain ⟨t, ht, hspace, hlow, -⟩ := h.txSpace_eq
  have hpos : 0 ≤ s.soRcv.sbCc := by
    rw [h.bufs.snd.cc]
    omega
  have hcost : s.soRcv.sbCc + 0 ≤ s.slack := by simpa [CreditCovers, cost] using hok
  -- the slack is at most `sb_max`, so `(int)sb_cc` is `sb_cc`
  have hsmall : s.soRcv.sbCc < 2147483648 := by
    have hcc : 0 ≤ s.soSnd.sbCc := by
      rw [h.bufs.fst.cc]
      omega
    have hhiwat := h.hiwat
    simp only [StreamSocket.slack, ht, map_some, getD_some, hspace] at hcost
    omega
  obtain ⟨mem', a', slot', hres, hbufs, hrefl⟩ := h.bufs.symm.flush hsmall
  rw [creditStep, hres, map_some] at hstep
  cases hstep
  exact ⟨xs, [], h.of_reflected hbufs.symm rfl (Int.add_zero _).symm hrefl hpos hcost⟩

theorem CreditInv.step {a : CreditAction k n} (h : ∃ xs ys, CreditInv s xs ys)
    (hok : CreditCovers s a) (hstep : creditStep s a = some s') : ∃ xs ys, CreditInv s' xs ys := by
  obtain ⟨xs, ys, h⟩ := h
  cases a with
  | append side x m ms => exact h.append hok hstep
  | drop side len => exact h.drop hok hstep
  | flush => exact h.flush hok hstep

end Steps

/-- Under `CreditCovers` the advertised space is never more than the room in the send buffer. -/
theorem txSpace_le_room {s₀ s : StreamSocket k n} {ys : List (Fin k)}
    {as : List (CreditAction k n)} (hinit : s₀.Attached ys)
    (hrun : Run creditStep CreditCovers s₀ as s) :
    ∃ t, s.slot = some t ∧ t.txSpace ≤ s.soSnd.sbHiwat - s.soSnd.sbCc ∧
      t.txSpace = t.txExact := by
  obtain ⟨xs, zs, h⟩ : ∃ xs ys, CreditInv s xs ys :=
    hrun.invariant (fun _ _ _ => CreditInv.step) ⟨[], ys, CreditInv.of_attached hinit⟩
  obtain ⟨t, ht, hspace, -, -⟩ := h.txSpace_eq
  obtain ⟨u, hu, -, -, hle⟩ := h.slot
  rw [ht] at hu
  cases hu
  exact ⟨t, ht, by rw [hspace]; exact hle, hspace⟩

def attachedSocket (k n : Nat) (mbmax : Int) : StreamSocket k n where
  mem := { mbuf := fun _ => {}, mbCache := List.finRange k, rte := { cell := fun _ => {} } }
  soSnd := { sbHiwat := 4096, sbMbmax := mbmax }
  soRcv := { sbHiwat := 4096, sbMbmax := mbmax }
  slot := some (TxSlot.setTxSpace { ringsetIdx := 0 } (min 4096 mbmax))

theorem attachedSocket_attached (k n : Nat) {mbmax : Int} (h : 0 ≤ mbmax) :
    (attachedSocket k n mbmax).Attached [] where
  bufs := ⟨⟨rfl, rfl, rfl, by simp, rfl, rfl⟩, ⟨rfl, rfl, rfl, by simp, rfl, rfl⟩, by simp,
    by simp, List.nodup_finRange k⟩
  hiwat := by simp [attachedSocket]
  mbmax := h
  slot := ⟨{ ringsetIdx := 0 }, by simp [attachedSocket, Sockbuf.sbspace]⟩

theorem txSpace_le_room_append_drop :
    ∃ s, Run creditStep CreditCovers (attachedSocket 3 1 2048)
        [.append .snd 0 { mLen := 700 } [], .append .rcv 1 { mLen := 20 } [(2, { mLen := 5 })],
          .drop .snd 300, .drop .rcv 22, .flush] s ∧
      s.slot.any (fun t => t.txSpace = 3093) = true ∧
      ∃ t, s.slot = some t ∧ t.txSpace ≤ s.soSnd.sbHiwat - s.soSnd.sbCc := by
  refine Run.exists_and_of_runActions (by decide +kernel) fun s hrun _ => ?_
  obtain ⟨t, ht, hle, -⟩ := txSpace_le_room (attachedSocket_attached 3 1 (by decide)) hrun
  exact ⟨t, ht, hle⟩

theorem txSpace_above_room :
    (attachedSocket 1 1 8192).Attached [] ∧
    ∃ s, Run creditStep (fun _ _ => True) (attachedSocket 1 1 8192)
        [.append .snd 0 { mLen := 1 } []] s ∧
      s.slot.any (fun t => t.txSpace = 4097) = true ∧ s.soSnd.sbHiwat - s.soSnd.sbCc = 4095 :=
  ⟨attachedSocket_attached 1 1 (by decide), Run.exists_of_runActions (by decide +kernel)⟩

end NetbsdDpdk
