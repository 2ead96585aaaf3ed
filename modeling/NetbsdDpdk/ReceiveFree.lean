import NetbsdDpdk.ReceiveShape

/-! What `service_release_rx_buffer` and `service_flush_rx` do to buffers that have one owner:
they are freed, each once, up to the segment that the socket still keeps. -/

namespace NetbsdDpdk

open List

open scoped Memory

variable {n : Nat} {mem : Memory n}

def Memory.unlink (mem : Memory n) (xs : List (Fin n)) : Memory n :=
  { mem with
    cell := fun x => if x ∈ xs then { mem.cell x with refcnt := 0, next := none } else mem.cell x
    freed := xs.reverse ++ mem.freed }

theorem Memory.unlink_nil (mem : Memory n) : mem.unlink [] = mem := by
  simp [Memory.unlink]

theorem Memory.unlink_cons (mem : Memory n) (x : Fin n) (xs : List (Fin n)) :
    mem.unlink (x :: xs) = (mem.unlink [x]).unlink xs := by
  ext1
  · funext y
    by_cases hx : y = x <;> by_cases hy : y ∈ xs <;> simp [Memory.unlink, hx, hy]
  · simp [Memory.unlink]
  · simp [Memory.unlink]
  · simp [Memory.unlink]

theorem Memory.unlink_cell_of_notMem (mem : Memory n) {x : Fin n} {xs : List (Fin n)} (h : x ∉ xs) :
    (mem.unlink xs).cell x = mem.cell x := by simp [Memory.unlink, h]

theorem Memory.unlink_putBulk (mem : Memory n) (pool : Nat) (xs : List (Fin n)) :
    (mem.unlink xs).putBulk pool xs = mem.reclaimTo (fun _ => pool) xs := rfl

theorem prefreeSeg_setNext {p : Fin n} (h : (mem.cell p).refcnt = 1) :
    ∃ mem', mem.prefreeSeg p = (mem', true) ∧ mem'.setNext p none = mem.unlink [p] := by
  refine ⟨_, Memory.prefreeSeg_eq h, ?_⟩
  ext1
  · funext x
    by_cases hx : x = p
    · subst hx
      simp [Memory.setNext, Memory.modify, Memory.unlink]
    · simp [Memory.setNext, Memory.modify, Memory.unlink, hx]
  · rfl
  · rfl
  · rfl

theorem releaseBurst_eq {shadow p : Option (Fin n)} {as bs : List (Fin n)} {fuel : Nat}
    (mbufs : List (Fin n)) (hlink : LinkedFrom mem.next p (as ++ bs))
    (hstop : bs = [] ∨ bs.head? = shadow) (hshadow : ∀ x ∈ as, some x ≠ shadow)
    (href : ∀ x ∈ as, (mem.cell x).refcnt = 1) (hfuel : as.length ≤ fuel) :
    ∃ p', releaseBurst shadow fuel mem p mbufs =
        some (mem.unlink (as.take (maxPktBurst - mbufs.length)), p',
          mbufs ++ as.take (maxPktBurst - mbufs.length)) ∧
      (p' = none ∧ as.drop (maxPktBurst - mbufs.length) = [] ∨
        LinkedFrom (mem.unlink (as.take (maxPktBurst - mbufs.length))).next p'
          (as.drop (maxPktBurst - mbufs.length) ++ bs) ∧
        maxPktBurst ≤ mbufs.length + as.length) := by
  by_cases hroom : mbufs.length < maxPktBurst
  · induction as generalizing mem p mbufs fuel with
    | nil =>
      refine ⟨none, ?_, Or.inl ⟨rfl, drop_nil⟩⟩
      rw [take_nil, append_nil, Memory.unlink_nil]
      cases p with
      | none => cases fuel <;> simp [releaseBurst]
      | some x =>
        rcases hstop with rfl | hhead
        · simp at hlink
        · have hx : bs.head? = some x := hlink.head?_eq
          rw [← hhead, hx]
          cases fuel <;> simp [releaseBurst, hroom]
    | cons x xs ih =>
      obtain ⟨rfl, htail⟩ := hlink
      obtain ⟨fuel, rfl, hf⟩ := exists_fuel hfuel
      obtain ⟨mem', hfree, hunlink⟩ := prefreeSeg_setNext (href x (by simp))
      have hx : x ∉ xs ++ bs :=
        (nodup_cons.mp (LinkedFrom.nodup (p := some x) ⟨rfl, htail⟩)).1
      have hcell : ∀ y ∈ xs ++ bs, (mem.unlink [x]).cell y = mem.cell y := fun y hy =>
        Memory.unlink_cell_of_notMem mem (by simpa using ne_of_mem_of_not_mem hy hx)
      have htail' : LinkedFrom (mem.unlink [x]).next (mem.next x) (xs ++ bs) :=
        htail.congr fun y hy => by rw [Memory.next, hcell y hy, Memory.next]
      have hstep : releaseBurst shadow (fuel + 1) mem (some x) mbufs =
          releaseBurst shadow fuel (mem.unlink [x]) (mem.next x) (mbufs ++ [x]) := by
        simp [releaseBurst, hroom, hshadow x (by simp), hfree, hunlink]
      have hlen : maxPktBurst - mbufs.length = (maxPktBurst - (mbufs ++ [x]).length) + 1 := by
        simp only [length_append, length_singleton]
        omega
      rw [hlen, take_succ_cons, drop_succ_cons, hstep, Memory.unlink_cons mem x (xs.take _)]
      by_cases hroom' : (mbufs ++ [x]).length < maxPktBurst
      · obtain ⟨p', hres, hrest⟩ := ih (mbufs ++ [x]) htail'
          (fun y hy => hshadow y (by simp [hy]))
          (fun y hy => by
            rw [hcell y (by simp [hy])]
            exact href y (by simp [hy]))
          hf hroom'
        refine ⟨p', by rw [hres]; simp, hrest.imp_right fun h => ⟨h.1, ?_⟩⟩
        have := h.2
        simp only [length_append, length_cons] at this ⊢
        omega
      · have hzero : maxPktBurst - (mbufs ++ [x]).length = 0 := by omega
        rw [hzero, take_zero, drop_zero, Memory.unlink_nil]
        have hlong : maxPktBurst ≤ mbufs.length + (x :: xs).length := by
          simp only [length_append, length_cons] at hzero ⊢
          omega
        refine ⟨mem.next x, ?_, Or.inr ⟨htail', hlong⟩⟩
        cases hnext : mem.next x with
        | none => cases fuel <;> simp [releaseBurst]
        | some y =>
          have hfull : ¬ mbufs.length + 1 < maxPktBurst := by simpa using hroom'
          cases fuel <;> simp [releaseBurst, hfull]
  · have hzero : maxPktBurst - mbufs.length = 0 := by omega
    rw [hzero, take_zero, drop_zero, Memory.unlink_nil, append_nil]
    refine ⟨p, ?_, Or.inr ⟨hlink, by omega⟩⟩
    cases p with
    | none => cases fuel <;> simp [releaseBurst]
    | some x => cases fuel <;> simp [releaseBurst, hroom]

theorem releaseRxBuffer_eq {shadow p : Option (Fin n)} {as bs : List (Fin n)} {fuel : Nat}
    (hlink : LinkedFrom mem.next p (as ++ bs))
    (hstop : bs = [] ∨ bs.head? = shadow) (hshadow : ∀ x ∈ as, some x ≠ shadow)
    (href : ∀ x ∈ as, (mem.cell x).refcnt = 1) (hfuel : (as ++ bs).length ≤ fuel) :
    ∃ pools, releaseRxBuffer shadow fuel mem p = some (mem.reclaimTo pools as) ∧
      ∀ pool, (∀ x ∈ as, (mem.cell x).pool = pool) → ∀ x ∈ as, pools x = pool := by
  induction fuel generalizing mem p as with
  | zero =>
    have hnil : as ++ bs = [] := by simpa using hfuel
    obtain ⟨rfl, rfl⟩ := append_eq_nil_iff.mp hnil
    cases hlink
    exact ⟨fun _ => 0, by simp [releaseRxBuffer], by simp⟩
  | succ fuel ih =>
    cases p with
    | none =>
      obtain ⟨rfl, rfl⟩ := append_eq_nil_iff.mp (LinkedFrom.none_iff.mp hlink)
      exact ⟨fun _ => 0, by simp [releaseRxBuffer], by simp⟩
    | some x =>
      have hlen : as.length ≤ n := by
        have := hlink.length_le
        simp only [length_append, Fintype.card_fin] at this
        omega
      obtain ⟨p', hburst, hrest⟩ := releaseBurst_eq [] hlink hstop hshadow href hlen
      simp only [length_nil, Nat.sub_zero, nil_append, Nat.zero_add] at hburst hrest
      have hmem : ∀ y ∈ as.drop maxPktBurst, y ∈ as := fun y hy => mem_of_mem_drop hy
      have hnd : as.Nodup := (nodup_append.mp hlink.nodup).1
      have hsplit : as.take maxPktBurst ++ as.drop maxPktBurst = as :=
        take_append_drop maxPktBurst as
      have hapart : ∀ y ∈ as.drop maxPktBurst, y ∉ as.take maxPktBurst := by
        intro y hy hy'
        rw [← hsplit] at hnd
        exact (nodup_append.mp hnd).2.2 y hy' y hy rfl
      cases hfirst : as.take maxPktBurst with
      | nil =>
        have hnil : as = [] := by simpa [maxPktBurst] using hfirst
        subst hnil
        refine ⟨fun _ => 0, ?_, by simp⟩
        rcases hrest with ⟨rfl, -⟩ | ⟨-, hlong⟩
        · rw [take_nil, Memory.unlink_nil] at hburst
          simp [releaseRxBuffer, hburst]
        · simp [maxPktBurst] at hlong
      | cons y ys =>
        let mem₁ := mem.reclaimTo (fun _ => (mem.cell y).pool) (as.take maxPktBurst)
        have hpool : ((mem.unlink (y :: ys)).cell y).pool = (mem.cell y).pool := by
          simp [Memory.unlink]
        have hstep : releaseRxBuffer shadow (fuel + 1) mem (some x) =
            releaseRxBuffer shadow fuel mem₁ p' := by
          rw [hfirst] at hburst
          simp only [releaseRxBuffer, hburst, Option.bind_eq_bind, Option.bind_some, hpool,
            Memory.unlink_putBulk, mem₁, hfirst]
        have hy : y ∈ as := mem_of_mem_take (by rw [hfirst]; simp)
        rcases hrest with ⟨rfl, hdrop⟩ | ⟨hlink', hlong⟩
        · rw [hdrop, append_nil] at hsplit
          refine ⟨fun _ => (mem.cell y).pool, ?_, fun pool hpools _ _ => hpools y hy⟩
          rw [hstep, ← hsplit]
          cases fuel <;> simp [releaseRxBuffer, mem₁]
        · have hcell : ∀ z ∈ as.drop maxPktBurst, mem₁.cell z = mem.cell z := fun z hz =>
            Memory.reclaimTo_cell_of_notMem mem (hapart z hz)
          obtain ⟨pools, hres, hpools⟩ := @ih mem₁ p' (as.drop maxPktBurst) hlink'
            (fun z hz => hshadow z (hmem z hz))
            (fun z hz => by
              rw [hcell z hz]
              exact href z (hmem z hz))
            (by
              simp only [length_append, length_drop] at hfuel ⊢
              have : 0 < maxPktBurst := by decide
              omega)
          refine ⟨fun z => if z ∈ as.take maxPktBurst then (mem.cell y).pool else pools z, ?_, ?_⟩
          · rw [hstep, hres, Memory.reclaimTo_reclaimTo mem hapart, hsplit]
          · intro pool hsame z hz
            by_cases hz' : z ∈ as.take maxPktBurst
            · simp [hz', hsame y hy]
            · have hzd : z ∈ as.drop maxPktBurst := by
                rw [← hsplit] at hz
                exact (mem_append.mp hz).resolve_left hz'
              simp only [hz', if_false]
              refine hpools pool (fun w hw => ?_) z hzd
              rw [hcell w hw]
              exact hsame w (hmem w hw)

theorem freeChains_eq {ps : List (Fin n)} {cs : List (List (Fin n))} (hcs : Chains mem ps cs)
    (hnd : cs.flatten.Nodup) (href : ∀ x ∈ cs.flatten, (mem.cell x).refcnt = 1) :
    ps.foldlM (fun mem p => Memory.freeChain n mem (some p)) mem =
      some (mem.reclaim cs.flatten) := by
  induction ps generalizing mem cs with
  | nil =>
    cases hcs
    simp [Memory.reclaim]
  | cons p ps ih =>
    obtain ⟨xs, cs, hp, hps, rfl⟩ := forall₂_cons_left_iff.mp hcs
    rw [flatten_cons] at hnd href ⊢
    obtain ⟨-, hnd', hdisj⟩ := nodup_append.mp hnd
    have hcell : ∀ x ∈ cs.flatten, (mem.reclaim xs).cell x = mem.cell x := fun x hx =>
      Memory.reclaimTo_cell_of_notMem mem fun hx' => hdisj x hx' x hx rfl
    have hps' : Chains (mem.reclaim xs) ps cs :=
      Chains.congr hps fun x hx => by rw [Memory.next, hcell x hx, Memory.next]
    have hfree : Memory.freeChain n mem (some p) = some (mem.reclaim xs) :=
      Memory.freeChain_eq_reclaim hp (fun x hx => href x (mem_append_left _ hx))
        (by simpa using hp.length_le)
    rw [foldlM_cons, hfree, Memory.reclaim_append]
    exact ih hps' hnd' fun x hx => by
      rw [hcell x hx]
      exact href x (mem_append_right _ hx)

theorem flushRx_eq {s : RxState n} {sh : List (Fin n)} {cs : List (List (Fin n))}
    (hsh : ShadowLinked s.mem s.sock sh) (hcs : Chains s.mem s.sock.queued cs)
    (hnd : (sh ++ cs.flatten).Nodup) (href : ∀ x ∈ sh ++ cs.flatten, (s.mem.cell x).refcnt = 1)
    (hcut : ∀ p, s.sock.shadow = some p → s.mem.next p = none) :
    ∃ s', flushRx s = some s' ∧ s'.mem = s.mem.reclaim (cs.flatten ++ sh) ∧
      s'.sock.queued = [] ∧ s'.sock.shadow = none ∧ s'.sock.shadowNext = none := by
  obtain ⟨hnd₁, hnd₂, hdisj⟩ := nodup_append.mp hnd
  have hqueue := freeChains_eq hcs hnd₂ fun x hx => href x (mem_append_right _ hx)
  have hcell : ∀ x ∈ sh, (s.mem.reclaim cs.flatten).cell x = s.mem.cell x := fun x hx =>
    Memory.reclaimTo_cell_of_notMem s.mem fun hx' => hdisj x hx x hx' rfl
  have hsh' : ∃ mem, (Memory.freeChain n (s.mem.reclaim cs.flatten) s.sock.shadow) = some mem ∧
      Memory.freeChain n mem s.sock.shadowNext =
        some ((s.mem.reclaim cs.flatten).reclaim sh) := by
    cases hshadow : s.sock.shadow with
    | none =>
      simp only [ShadowLinked, hshadow] at hsh
      obtain ⟨hnext, rfl⟩ := hsh
      rw [hnext]
      exact ⟨s.mem.reclaim cs.flatten, by cases n <;> rfl, by
        cases n <;> simp [Memory.freeChain, Memory.reclaim]⟩
    | some p =>
      simp only [ShadowLinked, hshadow] at hsh
      obtain ⟨ys, rfl, hp, hys, -⟩ := hsh
      have hlink : LinkedFrom (s.mem.reclaim cs.flatten).next (some p) [p] := by
        refine ⟨rfl, ?_⟩
        rw [LinkedFrom.nil_iff, Memory.next, hcell p (by simp)]
        exact hcut p hshadow
      have hcell' : ∀ y ∈ ys,
          ((s.mem.reclaim cs.flatten).reclaim [p]).cell y = s.mem.cell y := fun y hy => by
        rw [← hcell y (by simp [hy])]
        exact Memory.reclaimTo_cell_of_notMem _ (by simpa using ne_of_mem_of_not_mem hy hp)
      refine ⟨(s.mem.reclaim cs.flatten).reclaim [p], ?_, ?_⟩
      · refine Memory.freeChain_eq_reclaim hlink ?_ (by simpa using hlink.length_le)
        intro x hx
        rw [mem_singleton.mp hx, hcell p (by simp)]
        exact href p (by simp)
      · rw [show p :: ys = [p] ++ ys from rfl, Memory.reclaim_append]
        refine Memory.freeChain_eq_reclaim (hys.congr fun y hy => ?_) (fun y hy => ?_)
          (by simpa using hys.length_le)
        · rw [Memory.next, hcell' y hy, Memory.next]
        · rw [hcell' y hy]
          exact href y (by simp [hy])
  obtain ⟨mem, hfree₁, hfree₂⟩ := hsh'
  rw [LocalSocket.queued] at hqueue
  refine ⟨_, by simp only [flushRx, hqueue, hfree₁, hfree₂, Option.bind_eq_bind,
    Option.bind_some]; rfl, ?_, rfl, rfl, rfl⟩
  exact (Memory.reclaim_append s.mem cs.flatten sh).symm

end NetbsdDpdk
