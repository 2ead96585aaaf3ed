import NetbsdDpdk.ReceiveStream

/-! The lengths that `service_receive` stores for its caller. The number of bytes comes from the
running count of a restricted read or from `pkt_len` of the first segment; the length of the first
segment comes from whichever segment was cut. -/

namespace NetbsdDpdk

open List Option Memory

variable {n : Nat}

def insidePart : List Nat → Nat → Option Nat
  | [], _ => none
  | l :: ls, total =>
    if l < total then insidePart ls (total - l) else if total < l then some total else none

/-- A read that ends inside a segment behind the first takes as many bytes of it as the first one
has. -/
def FirstRight : List Nat → Nat → Prop
  | [], _ => True
  | l :: ls, total => l < total → ∀ part ∈ insidePart ls (total - l), part = l

instance (ls : List Nat) (total : Nat) : Decidable (FirstRight ls total) :=
  match ls with
  | [] => isTrue trivial
  | _ :: _ => inferInstanceAs (Decidable (_ → ∀ part ∈ insidePart _ _, _))

theorem insidePart_of_sum_le {ls : List Nat} {total : Nat} (h : ls.sum ≤ total) :
    insidePart ls total = none := by
  induction ls generalizing total with
  | nil => rfl
  | cons l ls ih =>
    rw [sum_cons] at h
    by_cases hl : l < total
    · simp only [insidePart, hl, if_true]
      exact ih (by omega)
    · have hle : ¬total < l := by omega
      simp [insidePart, hl, hle]

theorem insidePart_append {pre : List Nat} {total : Nat} (ls : List Nat) (h : pre.sum < total) :
    insidePart (pre ++ ls) total = insidePart ls (total - pre.sum) := by
  induction pre generalizing total with
  | nil => simp
  | cons l pre ih =>
    rw [sum_cons] at h ⊢
    have hl : l < total := by omega
    simp only [cons_append, insidePart, hl, if_true]
    rw [ih (by omega), Nat.sub_sub]

theorem firstRight_of_sum_le {ls : List Nat} {total : Nat} (h : ls.sum ≤ total) :
    FirstRight ls total := by
  cases ls with
  | nil => trivial
  | cons l ls =>
    rw [sum_cons] at h
    intro _ part hpart
    rw [insidePart_of_sum_le (by omega)] at hpart
    cases hpart

theorem firstRight_of_eq {pre post : List Nat} {l total : Nat} (hpre : pre.sum < total)
    (h : pre = [] ∧ total ≤ l ∨ pre.sum + l = total) : FirstRight (pre ++ l :: post) total := by
  cases pre with
  | nil =>
    intro hl
    simp only [sum_nil] at h
    omega
  | cons l₀ pre =>
    rcases h with h | h
    · cases h.1
    · rw [cons_append]
      intro _ part hpart
      rw [sum_cons] at hpre h
      rw [insidePart_append _ (by omega), insidePart, if_neg (by omega), if_neg (by omega)] at hpart
      cases hpart

theorem firstRight_inside {pre post : List Nat} {l₀ l total : Nat} (hpre : l₀ + pre.sum < total)
    (hl : total < l₀ + pre.sum + l) :
    FirstRight (l₀ :: pre ++ l :: post) total ↔ total - (l₀ + pre.sum) = l₀ := by
  have hpart : insidePart (pre ++ l :: post) (total - l₀) = some (total - (l₀ + pre.sum)) := by
    rw [insidePart_append _ (by omega), insidePart, if_neg (by omega), if_pos (by omega),
      Nat.sub_sub]
  have hl₀ : l₀ < total := by omega
  simp [FirstRight, hpart, hl₀]

def Received.LengthsRight (r : Received n) (mem : Memory n) : Prop :=
  r.totalLen = mem.len (chainAt mem (some r.pdesc)) ∧
    r.firstSegmentLen = (mem.cell r.pdesc).dataLen

instance (r : Received n) (mem : Memory n) : Decidable (r.LengthsRight mem) :=
  inferInstanceAs (Decidable (_ ∧ _))

theorem Memory.len_append (mem : Memory n) (xs ys : List (Fin n)) :
    mem.len (xs ++ ys) = mem.len xs + mem.len ys := by
  simp [len]

theorem Memory.len_congr {mem mem' : Memory n} {xs : List (Fin n)}
    (h : ∀ x ∈ xs, (mem'.cell x).dataLen = (mem.cell x).dataLen) : mem'.len xs = mem.len xs := by
  rw [len, len, map_congr_left h]

theorem segLens_append (mem : Memory n) (xs ys : List (Fin n)) :
    segLens mem (xs ++ ys) = segLens mem xs ++ segLens mem ys :=
  map_append

theorem setNext_dataLen (mem : Memory n) (t x : Fin n) (q : Option (Fin n)) :
    ((mem.setNext t q).cell x).dataLen = (mem.cell x).dataLen := by
  rw [setNext_cell]

section Cut

variable {mem mem' : Memory n} {sock sock' : LocalSocket n} {mbuf t : Fin n}
  {xs pre post : List (Fin n)} {total total' first : Nat}

theorem cutInside_lengths (hlink : LinkedFrom mem.next (some mbuf) (pre ++ t :: post))
    (ht : (mem.cell t).dataLen < 65536) (hpre : mem.len pre < total)
    (hlt : total < mem.len pre + (mem.cell t).dataLen) :
    (cutInsideMem mem t (total - mem.len pre)).len
        (chainAt (cutInsideMem mem t (total - mem.len pre)) (some mbuf)) = total ∧
      (total - mem.len pre = ((cutInsideMem mem t (total - mem.len pre)).cell mbuf).dataLen ↔
        FirstRight (segLens mem (pre ++ t :: post)) total) := by
  obtain ⟨htpre, -, -⟩ := notMem_of_linked hlink
  have hchain : LinkedFrom (cutInsideMem mem t (total - mem.len pre)).next (some mbuf)
      (pre ++ [t]) := by
    rw [cutInsideMem_next]
    exact hlink.cut
  have hself : ((cutInsideMem mem t (total - mem.len pre)).cell t).dataLen =
      total - mem.len pre := by
    rw [cutInsideMem_cell_self]
    exact Nat.mod_eq_of_lt (by omega)
  have hother : ∀ x ∈ pre, ((cutInsideMem mem t (total - mem.len pre)).cell x).dataLen =
      (mem.cell x).dataLen := fun x hx => by
    rw [cutInsideMem_cell_of_ne (ne_of_mem_of_not_mem hx htpre)]
  refine ⟨?_, ?_⟩
  · rw [chainAt_eq hchain, len_append, len_congr hother, len_cons, len_nil, hself]
    omega
  · rw [segLens_append]
    cases pre with
    | nil =>
      obtain ⟨hhead, -⟩ := hlink
      cases hhead
      rw [len_nil] at hself hpre hlt ⊢
      rw [hself, Nat.sub_zero]
      have hle : total ≤ (mem.cell mbuf).dataLen := by omega
      exact iff_of_true (Nat.sub_zero total).symm (firstRight_of_eq hpre (Or.inl ⟨rfl, hle⟩))
    | cons x pre =>
      obtain ⟨hhead, -⟩ := hlink
      cases hhead
      rw [hother mbuf (by simp)]
      rw [len_cons] at hpre hlt ⊢
      exact (firstRight_inside hpre hlt).symm

theorem cutBoundary_lengths (hlink : LinkedFrom mem.next (some mbuf) (pre ++ t :: post))
    (hpre : mem.len pre < total) (heq : mem.len pre + (mem.cell t).dataLen = total) :
    (mem.setNext t none).len (chainAt (mem.setNext t none) (some mbuf)) = total ∧
      FirstRight (segLens mem (pre ++ t :: post)) total := by
  have hchain : LinkedFrom (mem.setNext t none).next (some mbuf) (pre ++ [t]) := by
    rw [setNext_next]
    exact hlink.cut
  refine ⟨?_, ?_⟩
  · rw [chainAt_eq hchain, len_congr fun x _ => setNext_dataLen mem t x none,
      len_append, len_cons, len_nil, Nat.add_zero, heq]
  · rw [segLens_append]
    exact firstRight_of_eq hpre (Or.inr heq)

theorem tryReadExactAmount_lengths (hlink : LinkedFrom mem.next (some mbuf) xs)
    (hshort : ∀ x ∈ xs, (mem.cell x).dataLen < 65536) (htotal : 0 < total)
    (h : tryReadExactAmount mem sock mbuf total = some (mem', sock', total', first)) :
    total' = min total (mem.len xs) ∧ mem'.len (chainAt mem' (some mbuf)) = total' ∧
      (first = (mem'.cell mbuf).dataLen ↔ FirstRight (segLens mem xs) total) := by
  have hfuel : xs.length ≤ n := by simpa using hlink.length_le
  rcases scanExact_cases none 0 hlink hfuel htotal with
    ⟨hlen, prev, hs⟩ | ⟨pre, t, post, prev, rfl, hpre, ht, hs⟩
  · rw [Nat.zero_add] at hlen hs
    have hres : tryReadExactAmount mem sock mbuf total =
        some (mem, sock, mem.len xs, (mem.cell mbuf).dataLen) := by
      simp [tryReadExactAmount, hs]
    cases hres.symm.trans h
    refine ⟨by omega, by rw [chainAt_eq hlink], iff_of_true rfl ?_⟩
    exact firstRight_of_sum_le (Nat.le_of_lt hlen)
  · rw [Nat.zero_add] at hpre ht hs
    have hlen : mem.len (pre ++ t :: post) =
        mem.len pre + ((mem.cell t).dataLen + mem.len post) := by
      rw [len_append, len_cons]
    have hres := (tryReadExactAmount_of_scan sock hs hpre).symm.trans h
    by_cases hlt : total < mem.len pre + (mem.cell t).dataLen
    · have hdel : (mem.cell t).dataLen - (mem.len pre + (mem.cell t).dataLen - total) =
          total - mem.len pre := by omega
      simp only [cutAt, gt_iff_lt, hlt, if_true, hdel, Option.some.injEq, Prod.mk.injEq] at hres
      obtain ⟨rfl, -, rfl, rfl⟩ := hres
      exact ⟨by omega, cutInside_lengths hlink (hshort t (by simp)) hpre hlt⟩
    · obtain ⟨hsum, hfirst⟩ := cutBoundary_lengths hlink hpre (by omega)
      simp only [cutAt, gt_iff_lt, hlt, if_false, Option.some.injEq, Prod.mk.injEq] at hres
      obtain ⟨rfl, -, rfl, rfl⟩ := hres
      exact ⟨by omega, hsum, iff_of_true (setNext_dataLen mem t mbuf none).symm hfirst⟩

end Cut

def RxState.shadowLens (s : RxState n) : List Nat :=
  s.sock.shadowLenRemainder % 65536 :: segLens s.mem (chainAt s.mem s.sock.shadowNext)

def RxState.shadowPktLen (s : RxState n) (p : Fin n) : Nat :=
  match s.mem.next p with
  | some q => (s.sock.shadowLenRemainder % 65536 + (s.mem.cell q).pktLen) % 2 ^ 32
  | none => s.sock.shadowLenRemainder % 65536

/-- Reading everything reports the right length: the `pkt_len` fields are those of the chains it
returns. -/
def RxState.PktLensRight (s : RxState n) : Prop :=
  match s.sock.shadow, s.sock.queued.head? with
  | none, none => True
  | none, some q => (s.mem.cell q).pktLen = s.waitingLens.sum
  | some p, none => s.shadowPktLen p = s.shadowLens.sum
  | some p, some q => (s.shadowPktLen p + (s.mem.cell q).pktLen) % 2 ^ 32 =
      s.shadowLens.sum + s.waitingLens.sum

/-- A restricted read reports the right lengths: the chain it starts in has bytes, and the read
does not end inside a later segment of that chain, or takes as much of it as the first segment
has. -/
def RxState.CountsRight (s : RxState n) (total : Nat) : Prop :=
  match s.sock.shadow with
  | none => FirstRight s.waitingLens total
  | some _ => 0 < s.shadowLens.sum ∧ FirstRight s.shadowLens total

def RxState.ReportsRight (s : RxState n) (total : Nat) : Prop :=
  (total = 0 → s.PktLensRight) ∧ (0 < total → s.CountsRight total)

section Read

variable {s s' : RxState n} {p : Fin n} {as sh : List (Fin n)} {cs : List (List (Fin n))}
  {total : Nat} {r : Received n}

theorem receiveFromRing_lengths (hshadow : s.sock.shadow = none)
    (hcs : Chains s.mem s.sock.queued cs)
    (hshort : ∀ x ∈ cs.flatten, (s.mem.cell x).dataLen < 65536)
    (h : receiveFromRing s total = some (some r, s')) :
    r.LengthsRight s'.mem ↔ s.ReportsRight total := by
  obtain ⟨s₁, hdeq, hmem, -, -⟩ := dequeueRxBuf_spec s
  cases hq : s.sock.queued with
  | nil =>
    rw [hq] at hdeq
    simp [receiveFromRing, hdeq] at h
  | cons p ps =>
    rw [hq] at hcs hdeq
    obtain ⟨xs, cs', hp, -, rfl⟩ := forall₂_cons_left_iff.mp hcs
    have hlens : s.waitingLens = segLens s.mem xs := by
      rw [RxState.waitingLens, hq, head?_cons, chainAt_eq hp]
    rw [← hmem] at hp hshort hlens
    by_cases htotal : 0 < total
    · simp only [receiveFromRing, hdeq, htotal, if_true, head?_cons,
        bind_eq_bind, bind_eq_some_iff] at h
      obtain ⟨⟨mem', sock', total', first⟩, hres, h⟩ := h
      obtain ⟨-, hsum, hfirst⟩ := tryReadExactAmount_lengths hp
        (fun x hx => hshort x (by simp [hx])) htotal hres
      cases h
      have hright : s.ReportsRight total ↔ FirstRight s.waitingLens total := by
        simp [RxState.ReportsRight, RxState.CountsRight, hshadow, htotal, htotal.ne']
      rw [hright, hlens, ← hfirst, Received.LengthsRight, notifyReadable_mem, hsum]
      exact and_iff_right rfl
    · have h0 : total = 0 := by omega
      simp only [receiveFromRing, hdeq, htotal, if_false, head?_cons] at h
      cases h
      have hright : s.ReportsRight total ↔ (s'.mem.cell p).pktLen = s.waitingLens.sum := by
        simp [RxState.ReportsRight, RxState.PktLensRight, hshadow, hq, h0, hmem]
      rw [hright, hlens, Received.LengthsRight, chainAt_eq hp]
      exact and_iff_left rfl

theorem receiveExactFromShadow_lengths (has : LinkedFrom s.mem.next (some p) as)
    (hshadow : s.sock.shadow = none) (hshadowNext : s.sock.shadowNext = none)
    (hcs : Chains s.mem s.sock.queued cs) (hnd : (as ++ cs.flatten).Nodup)
    (hshort : ∀ x ∈ as ++ cs.flatten, (s.mem.cell x).dataLen < 65536) (htotal : 0 < total)
    (h : receiveExactFromShadow s p total = some (r, s')) :
    r.LengthsRight s'.mem ↔
      0 < (segLens s.mem as).sum ∧ FirstRight (segLens s.mem as) total := by
  obtain ⟨mem', sock', total', first, rs, sh, hres, hspec, hwhole, hle⟩ :=
    tryReadExactAmount_cut has hshadow hshadowNext htotal
  obtain ⟨hmin, hsum, hfirst⟩ := tryReadExactAmount_lengths has
    (fun x hx => hshort x (by simp [hx])) htotal hres
  rw [← hfirst]
  have hlen : (segLens s.mem as).sum = s.mem.len as := rfl
  by_cases hmore : 0 < total' ∧ total' < total
  · -- all of the kept chain is read: its length is counted, and the next chain is cut
    obtain ⟨rfl, rfl, rfl⟩ := hwhole hmore.2
    rw [hlen, and_iff_right hmore.1]
    obtain ⟨s₁, hdeq, hmem, hrest, hkept⟩ := dequeueRxBuf_spec s
    cases hq : s.sock.queued with
    | nil =>
      rw [hq] at hdeq
      simp only [receiveExactFromShadow, hres, hmore, hdeq, head?_nil, bind_eq_bind,
        bind_some, and_self, if_true] at h
      cases h
      rw [Received.LengthsRight, notifyReadable_mem, hmem, hsum]
      exact and_iff_right rfl
    | cons q qs =>
      rw [hq] at hcs hdeq hrest
      obtain ⟨xs, cs', hxs, hqs, rfl⟩ := forall₂_cons_left_iff.mp hcs
      rw [← hmem] at has hxs hqs hshort hlen
      have hqueued : Chains s₁.mem s₁.sock.queued cs' := by
        rw [hrest]
        exact hqs
      obtain ⟨mem₂, sock₂, total₂, first₂, rs₂, sh₂, hres₂, hspec₂, -, -⟩ :=
        tryReadExactAmount_cut hxs (hkept.shadow.trans hshadow)
          (hkept.shadowNext.trans hshadowNext) (Nat.sub_pos_of_lt hmore.2)
      obtain ⟨-, hsum₂, -⟩ := tryReadExactAmount_lengths hxs
        (fun x hx => hshort x (by simp [hx])) (Nat.sub_pos_of_lt hmore.2) hres₂
      obtain ⟨last, hlast, htake⟩ := hspec₂.takeSpec_join has hxs.head?_eq hqueued
        (by simpa using hnd) fun h : False => h.elim
      simp only [receiveExactFromShadow, hres, hmore, hdeq, hres₂, hlast, head?_cons,
        bind_eq_bind, bind_some, and_self, if_true] at h
      cases h
      have hold : ∀ x ∈ as, (mem₂.cell x).dataLen = (s.mem.cell x).dataLen := by
        intro x hx
        have hx' : x ∉ rs₂ := fun hx' => (nodup_append.mp hnd).2.2 x hx x
          (by simp [hspec₂.mem_of_mem hx']) rfl
        rw [hspec₂.frame x hx', hmem]
      have hrs₂ : chainAt mem₂ (some q) = rs₂ := by
        rw [← hxs.head?_eq]
        exact chainAt_eq hspec₂.linked
      have hp : p ∈ as := by
        obtain ⟨ys, rfl, -⟩ := LinkedFrom.some_iff.mp has
        simp
      have hall : (mem₂.setNext last (some q)).len (as ++ rs₂) = s.mem.len as + total₂ := by
        rw [len_congr fun x _ => setNext_dataLen mem₂ last x (some q), len_append,
          len_congr hold, ← hrs₂, hsum₂]
      rw [Received.LengthsRight, notifyReadable_mem, chainAt_eq htake.linked, hall,
        setNext_dataLen, hold p hp]
      exact and_iff_right rfl
  · simp only [receiveExactFromShadow, hres, hmore, if_false, bind_eq_bind, bind_some] at h
    cases h
    rw [Received.LengthsRight, notifyReadable_mem, hlen]
    dsimp only
    rw [hsum]
    -- either the read was cut, or the kept chain had no bytes
    constructor
    · rintro ⟨htot, hright⟩
      exact ⟨by omega, hright⟩
    · rintro ⟨hpos, hright⟩
      exact ⟨by omega, hright⟩

theorem receiveAllFromShadow_lengths (has : LinkedFrom s.mem.next (some p) as)
    (hcs : Chains s.mem s.sock.queued cs) (hnd : (as ++ cs.flatten).Nodup)
    (h : receiveAllFromShadow s p = some (r, s')) :
    r.LengthsRight s'.mem ↔
      (s.sock.queued = [] ∧ (s.mem.cell p).pktLen = (segLens s.mem as).sum) ∨
      ∃ q ∈ s.sock.queued.head?, ((s.mem.cell p).pktLen + (s.mem.cell q).pktLen) % 2 ^ 32 =
        (segLens s.mem as).sum + s.waitingLens.sum := by
  obtain ⟨s₁, hdeq, hmem, -, -⟩ := dequeueRxBuf_spec s
  obtain ⟨bs, last, rfl⟩ := has.exists_concat
  have hlast : s₁.mem.lastseg p = some last := by
    rw [hmem]
    exact lastseg_eq has
  cases hq : s.sock.queued with
  | nil =>
    rw [hq] at hdeq
    simp only [receiveAllFromShadow, hdeq, hlast, head?_nil, bind_eq_bind, bind_some] at h
    cases h
    have hnext : s₁.mem.setNext last none = s₁.mem := by
      rw [hmem, setNext, Memory.modify]
      have hnone : (s.mem.cell last).next = none := has.append_cons
      ext1 <;> simp [← hnone]
    rw [Received.LengthsRight]
    dsimp only
    rw [hnext, hmem, chainAt_eq has]
    simp [segLens, len]
  | cons q qs =>
    rw [hq] at hcs hdeq
    obtain ⟨xs, cs', hxs, -, rfl⟩ := forall₂_cons_left_iff.mp hcs
    have hdisj := (nodup_append.mp hnd).2.2
    have hlastxs : last ∉ xs := fun hx => hdisj last (by simp) last (by simp [hx]) rfl
    have hwait : s.waitingLens.sum = s.mem.len xs := by
      rw [RxState.waitingLens, hq, head?_cons, chainAt_eq hxs]
      rfl
    have hjoin : LinkedFrom (s.mem.setNext last (some q)).next (some p) (bs ++ [last] ++ xs) := by
      rw [setNext_next, append_assoc]
      exact has.join hxs hlastxs
    simp only [receiveAllFromShadow, hdeq, hlast, head?_cons, bind_eq_bind, bind_some] at h
    cases h
    rw [Received.LengthsRight]
    dsimp only
    rw [hmem, chainAt_eq (hjoin.congr fun x _ => modify_pktLen_next _ p x fun m =>
      (m.pktLen + ((s.mem.setNext last (some q)).cell q).pktLen) % 2 ^ 32)]
    have hlen : ((s.mem.setNext last (some q)).modify p fun m => { m with pktLen :=
        (m.pktLen + ((s.mem.setNext last (some q)).cell q).pktLen) % 2 ^ 32 }).len
          (bs ++ [last] ++ xs) = s.mem.len (bs ++ [last]) + s.mem.len xs := by
      rw [← len_append]
      refine len_congr fun x _ => ?_
      by_cases hx : x = p
      · rw [hx, modify_cell_self]
        exact setNext_dataLen s.mem last p (some q)
      · rw [modify_cell_of_ne _ _ hx, setNext_dataLen]
    rw [hlen, hwait]
    simp [segLens, len, setNext_cell]

theorem getFromShadow_lengths {mem : Memory n} (hp : s.sock.shadow = some p) (h : getFromShadow s =
      (some p, { s with mem, sock := { s.sock with shadow := none, shadowNext := none } })) :
    (mem.cell p).dataLen = s.sock.shadowLenRemainder % 65536 ∧
      (mem.cell p).pktLen = s.shadowPktLen p := by
  simp only [getFromShadow, hp, Prod.mk.injEq, RxState.mk.injEq, true_and] at h
  obtain ⟨rfl, -⟩ := h
  rw [modify_cell_self]
  exact ⟨rfl, rfl⟩

theorem serviceReceive_lengths (hsh : ShadowLinked s.mem s.sock sh)
    (hcs : Chains s.mem s.sock.queued cs) (hnd : (sh ++ cs.flatten).Nodup)
    (hshort : ∀ x ∈ sh.tail ++ cs.flatten, (s.mem.cell x).dataLen < 65536)
    (h : serviceReceive s total = some (some r, s')) :
    r.LengthsRight s'.mem ↔ s.ReportsRight total := by
  cases hshadow : s.sock.shadow with
  | none =>
    have hget : getFromShadow s = (none, s) := by simp [getFromShadow, hshadow]
    rw [serviceReceive, hget] at h
    exact receiveFromRing_lengths hshadow hcs
      (fun x hx => hshort x (mem_append_right _ hx)) h
  | some p =>
    simp only [ShadowLinked, hshadow] at hsh
    obtain ⟨ys, rfl, hp, hys, -⟩ := hsh
    obtain ⟨mem, hget, hlink, hcell, -, -⟩ := getFromShadow_eq hshadow hp hys
    obtain ⟨hdata, hpkt⟩ := getFromShadow_lengths hshadow hget
    have hdisj := (nodup_append.mp hnd).2.2
    have hwaiting : ∀ x ∈ cs.flatten, mem.cell x = s.mem.cell x := fun x hx =>
      hcell x fun he => hdisj p (by simp) x hx he.symm
    have hchains : Chains mem s.sock.queued cs :=
      hcs.congr fun x hx => by rw [Memory.next, hwaiting x hx, Memory.next]
    have hkept : segLens mem (p :: ys) = s.shadowLens := by
      rw [RxState.shadowLens, chainAt_eq hys, segLens, map_cons, hdata, segLens]
      exact congrArg _ (map_congr_left fun y hy => by
        rw [hcell y (ne_of_mem_of_not_mem hy hp)])
    have hshort' : ∀ x ∈ p :: ys ++ cs.flatten, (mem.cell x).dataLen < 65536 := by
      intro x hx
      by_cases hxp : x = p
      · rw [hxp, hdata]
        exact Nat.mod_lt _ (by decide)
      · rw [hcell x hxp]
        exact hshort x (by simpa [hxp] using hx)
    obtain ⟨s₁, hs₁⟩ : ∃ s₁ : RxState n, { s with
      mem, sock := { s.sock with shadow := none, shadowNext := none } } = s₁ := ⟨_, rfl⟩
    have hqueued : s₁.sock.queued = s.sock.queued := by
      rw [← hs₁]
      rfl
    have hwait : s₁.waitingLens = s.waitingLens := by
      have hchains₁ : Chains s₁.mem s₁.sock.queued cs := by
        rw [hqueued, ← hs₁]
        exact hchains
      rw [RxState.waitingLens, RxState.waitingLens, hchains₁.chainAt_head?, hcs.chainAt_head?]
      refine map_congr_left fun x hx => ?_
      rw [← hs₁, hwaiting x (by cases cs <;> simp_all)]
    by_cases htotal : 0 < total
    · simp only [serviceReceive, hget, htotal, if_true, map_eq_some_iff, Prod.exists,
        Prod.mk.injEq, Option.some.injEq] at h
      obtain ⟨_, _, h, rfl, rfl⟩ := h
      rw [receiveExactFromShadow_lengths
        (s := { s with mem, sock := { s.sock with shadow := none, shadowNext := none } })
        hlink rfl rfl hchains hnd hshort' htotal h, hkept]
      simp [RxState.ReportsRight, RxState.CountsRight, hshadow, htotal, htotal.ne']
    · have h0 : total = 0 := by omega
      simp only [serviceReceive, hget, htotal, if_false, map_eq_some_iff, Prod.exists,
        Prod.mk.injEq, Option.some.injEq] at h
      obtain ⟨_, _, h, rfl, rfl⟩ := h
      rw [receiveAllFromShadow_lengths
        (s := { s with mem, sock := { s.sock with shadow := none, shadowNext := none } })
        hlink hchains hnd h, hkept, hpkt, hs₁, hwait, hqueued]
      cases hq : s.sock.queued with
      | nil => simp [RxState.ReportsRight, RxState.PktLensRight, hshadow, hq, h0]
      | cons q qs =>
        have hqcell : s₁.mem.cell q = s.mem.cell q := by
          rw [hq] at hcs
          rw [← hs₁]
          obtain ⟨xs, cs', hxs, -, rfl⟩ := forall₂_cons_left_iff.mp hcs
          obtain ⟨zs, rfl, -⟩ := LinkedFrom.some_iff.mp hxs
          exact hwaiting q (by simp)
        simp [RxState.ReportsRight, RxState.PktLensRight, hshadow, hq, h0, hqcell]

end Read

structure LengthInv (s : RxSystem n) (sh : List (Fin n)) (cs : List (List (Fin n))) : Prop where
  shape : RxInv s sh cs
  short : ∀ x ∈ sh.tail ++ cs.flatten, (s.rx.mem.cell x).dataLen < 65536

/-- The application does not release a chain together with a part of another one it holds, and
does not close. -/
def ReleasesApart (s : RxSystem n) : RxAction n → Prop
  | .release p => s.ReleaseApart p
  | .close => False
  | _ => True

instance (s : RxSystem n) (a : RxAction n) : Decidable (ReleasesApart s a) :=
  match a with
  | .release p => inferInstanceAs (Decidable (s.ReleaseApart p))
  | .close => isFalse id
  | .arrive _ | .alloc _ _ _ | .others _ _ _ | .receive _ => isTrue trivial

section Steps

variable {s t : RxSystem n} {sh sh' rs : List (Fin n)} {cs cs' : List (List (Fin n))}
  {total : Nat} {r : Fin n}

theorem LengthInv.of_initial (h : s.Initial) : LengthInv s [] [] :=
  ⟨RxInv.of_initial h, by simp⟩

theorem mem_pend_of_tail {x : Fin n} (hx : x ∈ sh.tail ++ cs.flatten) : x ∈ sh ++ cs.flatten := by
  rcases mem_append.mp hx with hx | hx
  · exact mem_append_left _ (mem_of_mem_tail hx)
  · exact mem_append_right _ hx

theorem RxReceived.behind (hr : RxReceived s t sh cs total r rs sh' cs') (h : RxInv s sh cs)
    {x : Fin n} (hx : x ∈ sh'.tail ++ cs'.flatten) : x ∉ rs ∧ x ∈ sh.tail ++ cs.flatten := by
  obtain ⟨as, bs, hrs, hbs, hpend, hdisj⟩ := hr.returned h.nodup
  have hx' : x ∉ rs := by
    rw [hrs]
    intro hmem
    rcases mem_append.mp hmem with hmem | hmem
    · exact hdisj x hmem (mem_pend_of_tail hx)
    · rcases hbs with rfl | ⟨t₀, rfl, hshadow⟩
      · cases hmem
      · -- the segment in both chains is the head of what is kept
        rw [hr.take.shadow.shadow_eq] at hshadow
        have hnd := (hr.inv h).nodup
        cases sh' with
        | nil => cases hshadow
        | cons y ys =>
          cases hshadow
          rw [mem_singleton.mp hmem] at hx
          exact (nodup_cons.mp hnd).1 hx
  refine ⟨hx', ?_⟩
  have hmem : x ∈ sh ++ cs.flatten := by
    rw [hpend]
    exact mem_append_right _ (mem_pend_of_tail hx)
  cases sh with
  | nil => exact hmem
  | cons p ys =>
    have hp : r = p := hr.starts p h.shadow.shadow_eq
    have hrmem : r ∈ rs := by
      obtain ⟨zs, rfl, -⟩ := LinkedFrom.some_iff.mp hr.take.linked
      simp
    rcases mem_cons.mp hmem with rfl | hmem
    · exact absurd (hp ▸ hrmem) hx'
    · exact hmem

theorem LengthInv.frame (h : LengthInv s sh cs) (hinv : RxInv t sh cs)
    (hcell : ∀ x ∈ sh ++ cs.flatten, t.rx.mem.cell x = s.rx.mem.cell x) : LengthInv t sh cs := by
  refine ⟨hinv, fun x hx => ?_⟩
  rw [hcell x (mem_pend_of_tail hx)]
  exact h.short x hx

theorem LengthInv.arrive {segs : List (Fin n × RteMbuf n)} (h : LengthInv s sh cs)
    (hstep : rxStep s (.arrive segs) = some t) :
    LengthInv t sh (cs ++ [segs.map Prod.fst]) := by
  obtain ⟨hinv, -, hfresh⟩ := h.shape.arrive hstep
  have ha := rxStep_arrive hstep
  obtain ⟨hnd, hok⟩ := ha.ok
  refine ⟨hinv, fun x hx => ?_⟩
  rw [flatten_append, flatten_singleton, ← append_assoc] at hx
  rw [ha.mem]
  rcases mem_append.mp hx with hx | hx
  · have hx' : x ∉ segs.map Prod.fst := fun hx' =>
      hfresh x hx' (mem_append_left _ (mem_pend_of_tail hx))
    rw [placeSegs_cell_of_notMem hx']
    exact h.short x hx
  · obtain ⟨e, he, rfl⟩ := List.mem_map.mp hx
    obtain ⟨next, hcell⟩ : ∃ next, (placeSegs s.rx.mem segs).cell e.1 = _ :=
      placeSegs_cell_of_mem hnd he
    have hfits := (hok e he).2
    rw [hcell]
    dsimp only
    omega

theorem LengthInv.receive (h : LengthInv s sh cs)
    (hstep : rxStep s (.receive total) = some t) : ∃ sh' cs', LengthInv t sh' cs' := by
  rcases rxStep_receive h.shape hstep with
    ⟨rfl, rfl, rx, rfl, hmem, hsh, hq⟩ | ⟨r, rs, sh', cs', hr⟩
  · exact ⟨[], [], (h.shape.receive_empty hmem hsh hq).1, by simp⟩
  · refine ⟨sh', cs', hr.inv h.shape, fun x hx => ?_⟩
    obtain ⟨hrs, hold⟩ := hr.behind h.shape hx
    rw [hr.take.frame x hrs]
    exact h.short x hold

theorem LengthInv.step {a : RxAction n} (h : ∃ sh cs, LengthInv s sh cs)
    (hok : ReleasesApart s a) (hstep : rxStep s a = some t) : ∃ sh cs, LengthInv t sh cs := by
  obtain ⟨sh, cs, h⟩ := h
  cases a with
  | arrive segs => exact ⟨sh, _, h.arrive hstep⟩
  | alloc pool p m =>
    obtain ⟨hinv, -, hlive⟩ := h.shape.alloc hstep
    exact ⟨sh, cs, h.frame hinv fun x hx => (rxStep_alloc hstep).cell x
      (ne_of_mem_of_not_mem (mem_append_left _ hx) hlive)⟩
  | others chan ready readable =>
    have hinv := h.shape.others hstep
    cases hstep
    exact ⟨sh, cs, h.frame hinv fun _ _ => rfl⟩
  | receive total => exact h.receive hstep
  | release p =>
    obtain ⟨pools, rfl, -, hinv, -, hgone, -⟩ := h.shape.release hok hstep
    exact ⟨sh, cs, h.frame hinv fun x hx => reclaimTo_cell_of_notMem s.rx.mem fun hx' =>
      (hgone x hx').2 (mem_append_left _ hx)⟩
  | close => exact hok.elim

end Steps

/-- A read reports the right lengths exactly under `ReportsRight`. -/
theorem reported_lengths_iff {s₀ s : RxSystem n} {as : List (RxAction n)} (hinit : s₀.Initial)
    (hrun : Run rxStep ReleasesApart s₀ as s) (total : Nat) {r : Received n} {rx : RxState n}
    (hrecv : serviceReceive s.rx total = some (some r, rx)) :
    r.LengthsRight rx.mem ↔ s.rx.ReportsRight total := by
  obtain ⟨sh, cs, h⟩ : ∃ sh cs, LengthInv s sh cs :=
    hrun.invariant (fun _ _ _ => LengthInv.step) ⟨[], [], LengthInv.of_initial hinit⟩
  exact serviceReceive_lengths h.shape.shadow h.shape.queued h.shape.nodup h.short hrecv

theorem reported_lengths_iff_kept : ∃ s,
    Run rxStep ReleasesApart (openedSocket 1) [.arrive [(0, segment [1, 2, 3])], .receive 1] s ∧
      (serviceReceive s.rx 2).any (fun x => x.1.any fun r => r.LengthsRight x.2.mem) = true ∧
      s.rx.ReportsRight 2 := by
  refine Run.exists_and_of_runActions (by decide +kernel) fun s hrun hs => ?_
  simp only [Option.any_eq_true, decide_eq_true_eq] at hs
  obtain ⟨x, hx, r, hr, hright⟩ := hs
  have hrecv : serviceReceive s.rx 2 = some (some r, x.2) := by
    rw [hx, ← hr]
  exact (reported_lengths_iff (openedSocket_initial 1) hrun 2 hrecv).mp hright

/-- Three segments of two, two and one bytes. A read of three bytes ends inside the second one and
reports the one byte taken there as the length of the first; the read of the rest then reports the
one byte left of the second segment and leaves out the third. -/
theorem later_cut_misreports : (openedSocket 3).Initial ∧ ∃ s,
    Run rxStep ReleasesApart (openedSocket 3) [.arrive [(0, { segment [1, 2] with pktLen := 5 }),
      (1, segment [3, 4]), (2, segment [5])]] s ∧
    ((serviceReceive s.rx 3).any fun x => x.1.any fun r =>
      r.firstSegmentLen = 1 ∧ (x.2.mem.cell r.pdesc).dataLen = 2) = true ∧
    ((rxStep s (.receive 3)).any fun t => (serviceReceive t.rx 0).any fun y => y.1.any fun r =>
      r.totalLen = 1 ∧ y.2.mem.len (chainAt y.2.mem (some r.pdesc)) = 2) = true :=
  ⟨openedSocket_initial 3, Run.exists_of_runActions (by decide +kernel)⟩

end NetbsdDpdk
