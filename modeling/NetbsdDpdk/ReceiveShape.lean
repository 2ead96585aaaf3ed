import NetbsdDpdk.ReceiveCut
import Mathlib.Data.List.Forall2

/-! What one `service_receive` does to the chains of a socket: which segments it returns, which
it keeps, and that the bytes returned and kept are the bytes that were there. -/

namespace NetbsdDpdk

open List Memory

variable {n : Nat} {mem mem' : Memory n} {cs : List (List (Fin n))} {sock sock' : LocalSocket n}
  {xs rs sh as : List (Fin n)} {r p : Fin n} {total : Nat} {safe : Prop} {s : RxState n}

def LocalSocket.queued (sock : LocalSocket n) : List (Fin n) :=
  sock.localCache.items ++ sock.rxRing.items

def Chains (mem : Memory n) (ps : List (Fin n)) (cs : List (List (Fin n))) : Prop :=
  List.Forall₂ (fun p xs => LinkedFrom mem.next (some p) xs) ps cs

theorem Chains.congr {ps : List (Fin n)} (h : Chains mem ps cs)
    (heq : ∀ x ∈ cs.flatten, mem'.next x = mem.next x) :
    Chains mem' ps cs := by
  induction h with
  | nil => exact List.Forall₂.nil
  | @cons p xs ps cs hp _ ih =>
    refine List.Forall₂.cons (hp.congr fun x hx => heq x (by simp [hx])) (ih fun x hx => ?_)
    exact heq x (by simp only [flatten_cons, mem_append, hx, or_true])

theorem popCache_eq (sock : LocalSocket n) :
    ∃ c : Fifo 63 (Fin n),
      sock.popCache = (sock.localCache.items.head?, { sock with localCache := c }) ∧
      c.items = sock.localCache.items.tail := by
  cases hd : sock.localCache.dequeue with
  | none =>
    have hnil := Fifo.dequeue_eq_none_iff.mp hd
    exact ⟨sock.localCache, by simp [LocalSocket.popCache, hd, hnil], by simp [hnil]⟩
  | some pc =>
    obtain ⟨p, c⟩ := pc
    have hcons := Fifo.dequeue_eq_some_iff.mp hd
    exact ⟨c, by simp [LocalSocket.popCache, hd, hcons], by simp [hcons]⟩

theorem refillCache_eq (sock : LocalSocket n) :
    ∃ (c : Fifo 63 (Fin n)) (r : Fifo (dataRingsSize - 1) (Fin n)),
      sock.refillCache = { sock with localCache := c, rxRing := r } ∧
      c.items ++ r.items = sock.queued ∧
      (sock.localCache.items = [] → c.items.head? = sock.queued.head?) := by
  by_cases hcount : 0 < sock.rxRing.count
  · let room := if sock.localCache.freeCount > maxPktBurst then maxPktBurst
      else sock.localCache.freeCount
    have hroom : room ≤ sock.localCache.freeCount := by
      simp only [room]
      split <;> omega
    have hitems : (sock.localCache.enqueueBurst (sock.rxRing.items.take room)).items =
        sock.localCache.items ++ sock.rxRing.items.take room :=
      Fifo.enqueueBurst_items_of_le (by simp only [length_take]; omega)
    refine ⟨sock.localCache.enqueueBurst (sock.rxRing.items.take room),
      (sock.rxRing.dequeueBurst room).2, ?_, ?_, fun hnil => ?_⟩
    · simp [LocalSocket.refillCache, hcount, room, Fifo.dequeueBurst_fst]
    · simp [hitems, LocalSocket.queued, append_assoc]
    · have hpos : room = maxPktBurst := by
        simp [room, Fifo.freeCount, Fifo.count, hnil, maxPktBurst]
      rw [hitems, hnil, hpos]
      cases hring : sock.rxRing.items <;> simp [LocalSocket.queued, hnil, hring]
  · have hnil : sock.rxRing.items = [] := by
      simpa [Fifo.count] using hcount
    refine ⟨sock.localCache, sock.rxRing, by simp [LocalSocket.refillCache, hcount], rfl, ?_⟩
    intro h
    simp [LocalSocket.queued, h, hnil]

structure LocalSocket.SameKept (sock sock' : LocalSocket n) : Prop where
  shadow : sock'.shadow = sock.shadow
  shadowNext : sock'.shadowNext = sock.shadowNext
  remainder : sock'.shadowLenRemainder = sock.shadowLenRemainder
  delivered : sock'.shadowLenDelivered = sock.shadowLenDelivered

theorem dequeueRxBuf_spec (s : RxState n) :
    ∃ s₁, dequeueRxBuf s = (s.sock.queued.head?, s₁) ∧ s₁.mem = s.mem ∧
      s₁.sock.queued = s.sock.queued.tail ∧ s.sock.SameKept s₁.sock := by
  obtain ⟨c₁, hpop, hc₁⟩ := popCache_eq s.sock
  obtain ⟨c₂, r₂, hfill, hq, hhead⟩ := refillCache_eq { s.sock with localCache := c₁ }
  simp only [LocalSocket.queued] at hq hhead ⊢
  cases hcache : s.sock.localCache.items with
  | cons p ps =>
    refine ⟨(dequeueRxBuf s).2, ?_, rfl, ?_, ?_⟩
    · simp [dequeueRxBuf, hpop, hcache]
    · simp [dequeueRxBuf, hpop, hcache, hfill, hq, hc₁]
    · simp only [dequeueRxBuf, hpop, hcache, hfill, head?_cons]
      exact ⟨rfl, rfl, rfl, rfl⟩
  | nil =>
    obtain ⟨c₃, hpop', hc₃⟩ := popCache_eq { s.sock with localCache := c₂, rxRing := r₂ }
    rw [hc₁, hcache, tail_nil, nil_append] at hq
    have hhead' : c₂.items.head? = s.sock.rxRing.items.head? := by
      simpa [hc₁, hcache] using hhead
    refine ⟨(dequeueRxBuf s).2, ?_, rfl, ?_, ?_⟩
    · simp [dequeueRxBuf, hpop, hcache, hfill, hpop', hhead']
    · simp only [dequeueRxBuf, hpop, hcache, hfill, hpop', head?_nil, hc₃, nil_append]
      cases hitems : c₂.items with
      | nil =>
        rw [hitems, nil_append] at hq
        cases hring : s.sock.rxRing.items with
        | nil => simp [hq, hring]
        | cons p ps => simp [hitems, hring] at hhead'
      | cons p ps =>
        rw [← hq]
        simp [hitems]
    · simp only [dequeueRxBuf, hpop, hcache, hfill, hpop', head?_nil]
      exact ⟨rfl, rfl, rfl, rfl⟩

structure TakeSpec (mem : Memory n) (pend : List (Fin n)) (bs : List UInt8) (safe : Prop)
    (mem' : Memory n) (sock' : LocalSocket n) (r : Fin n) (rs sh : List (Fin n))
    (cs : List (List (Fin n))) : Prop where
  linked : LinkedFrom mem'.next (some r) rs
  shadow : ShadowLinked mem' sock' sh
  queued : Chains mem' sock'.queued cs
  split : ∃ as, pend = as ++ (sh ++ cs.flatten) ∧
    (rs = as ∨ ∃ t ys, sh = t :: ys ∧ rs = as ++ [t])
  frame : ∀ x, x ∉ rs → mem'.cell x = mem.cell x
  relinked : mem.Relinked mem'
  bytes : safe → mem'.bytes rs ++ (shadowBytes mem' sock' sh ++ mem'.bytes cs.flatten) = bs ∧
    ShadowFits mem' sock' sh

theorem CutSpec.whole (hlink : LinkedFrom mem.next (some r) xs) (hshadow : sock.shadow = none)
    (hshadowNext : sock.shadowNext = none) (total : Nat) :
    CutSpec mem sock xs total mem sock xs [] where
  linked := by rwa [hlink.head?_eq]
  shadow := by simp [ShadowLinked, hshadow, hshadowNext]
  split := ⟨xs, by simp, Or.inl rfl⟩
  rxRing := rfl
  localCache := rfl
  frame _ _ := rfl
  relinked := Memory.Relinked.refl mem
  bytes _ _ := by simp [shadowBytes, ShadowFits]

theorem CutSpec.queued (h : CutSpec mem sock xs total mem' sock' rs sh) :
    sock'.queued = sock.queued := by
  rw [LocalSocket.queued, LocalSocket.queued, h.rxRing, h.localCache]

theorem CutSpec.mem_of_mem (h : CutSpec mem sock xs total mem' sock' rs sh) {x : Fin n}
    (hx : x ∈ rs) : x ∈ xs := by
  obtain ⟨as, rfl, rfl | ⟨t, ys, rfl, rfl⟩⟩ := h.split
  · simp [hx]
  · simp only [mem_append, mem_singleton] at hx
    rcases hx with hx | rfl <;> simp [*]

def CutSafe (mem : Memory n) (sock : LocalSocket n) (xs : List (Fin n)) (total : Nat) : Prop :=
  SavedRight sock.shadowLenRemainder sock.shadowLenDelivered
    (behindBoundary (xs.map fun x => (mem.cell x).dataLen) total)

theorem CutSpec.takeSpec (h : CutSpec mem sock xs total mem' sock' rs sh) (hr : xs.head? = some r)
    (hqueued : Chains mem sock.queued cs) (hnd : (xs ++ cs.flatten).Nodup)
    (hsafe : safe → mem'.bytes rs ++ shadowBytes mem' sock' sh = mem.bytes xs ∧
      ShadowFits mem' sock' sh) :
    TakeSpec mem (xs ++ cs.flatten) (mem.bytes (xs ++ cs.flatten)) safe mem' sock' r rs sh cs := by
  have hcell : ∀ x ∈ cs.flatten, mem'.cell x = mem.cell x := by
    intro x hx
    refine h.frame x fun hrs => ?_
    exact (nodup_append.mp hnd).2.2 x (h.mem_of_mem hrs) x hx rfl
  refine ⟨?_, h.shadow, ?_, ?_, h.frame, h.relinked, ?_⟩
  · rw [← hr]
    exact h.linked
  · rw [h.queued]
    exact hqueued.congr fun x hx => by rw [Memory.next, hcell x hx, Memory.next]
  · obtain ⟨as, rfl, has⟩ := h.split
    exact ⟨as, by simp, has⟩
  · intro hs
    obtain ⟨hbytes, hsh⟩ := hsafe hs
    have hrest : mem'.bytes cs.flatten = mem.bytes cs.flatten :=
      bytes_congr fun x hx => by rw [hcell x hx]
    exact ⟨by rw [← append_assoc, hbytes, bytes_append, hrest], hsh⟩

theorem CutSpec.takeSpec_join {q : Fin n} (h : CutSpec mem sock xs total mem' sock' rs sh)
    (has : LinkedFrom mem.next (some r) as) (hq : xs.head? = some q)
    (hqueued : Chains mem sock.queued cs) (hnd : (as ++ (xs ++ cs.flatten)).Nodup)
    (hsafe : safe → mem'.bytes rs ++ shadowBytes mem' sock' sh = mem.bytes xs ∧
      ShadowFits mem' sock' sh) :
    ∃ last, mem'.lastseg r = some last ∧
      TakeSpec mem (as ++ (xs ++ cs.flatten)) (mem.bytes (as ++ (xs ++ cs.flatten))) safe
        (mem'.setNext last (some q)) sock' r (as ++ rs) sh cs := by
  obtain ⟨-, hnd', hdisj⟩ := nodup_append.mp hnd
  have hspec := h.takeSpec hq hqueued hnd' hsafe
  have hcell : ∀ x ∈ as, mem'.cell x = mem.cell x := by
    intro x hx
    refine h.frame x fun hrs => ?_
    exact hdisj x hx x (by simp [h.mem_of_mem hrs]) rfl
  have has' : LinkedFrom mem'.next (some r) as :=
    has.congr fun x hx => by rw [Memory.next, hcell x hx, Memory.next]
  obtain ⟨bs, last, rfl⟩ := has.exists_concat
  have hlast : ∀ x ∈ rs ++ (sh ++ cs.flatten), x ≠ last := by
    rintro x hx rfl
    refine hdisj x (by simp) x ?_ rfl
    obtain ⟨zs, rfl, hz⟩ := h.split
    simp only [mem_append] at hx
    rcases hx with hx | hx | hx
    · exact mem_append_left _ (h.mem_of_mem hx)
    · simp [hx]
    · simp [hx]
  have hnext : ∀ x ∈ rs ++ (sh ++ cs.flatten), (mem'.setNext last (some q)).cell x = mem'.cell x :=
    fun x hx => setNext_cell_of_ne (hlast x hx)
  have hsh : ∀ x ∈ sh, (mem'.setNext last (some q)).cell x = mem'.cell x :=
    fun x hx => hnext x (by simp [hx])
  have hcs : ∀ x ∈ cs.flatten, (mem'.setNext last (some q)).cell x = mem'.cell x :=
    fun x hx => hnext x (mem_append_right _ (mem_append_right _ hx))
  have hbytes : ∀ ys, (mem'.setNext last (some q)).bytes ys = mem'.bytes ys := fun ys =>
    bytes_congr fun x _ => setNext_data (some q) x
  refine ⟨last, lastseg_eq has', ?_⟩
  refine ⟨?_, hspec.shadow.congr hsh, ?_, ?_, ?_, ?_, ?_⟩
  · rw [setNext_next, append_assoc]
    exact has'.join hspec.linked fun hmem => hlast last (mem_append_left _ hmem) rfl
  · exact hspec.queued.congr fun x hx => by rw [Memory.next, hcs x hx, Memory.next]
  · obtain ⟨zs, hzs, hcase⟩ := hspec.split
    refine ⟨bs ++ [last] ++ zs, by simp only [hzs, append_assoc], ?_⟩
    rcases hcase with rfl | ⟨t, ys, hsh, rfl⟩
    · exact Or.inl rfl
    · exact Or.inr ⟨t, ys, hsh, by simp⟩
  · intro x hx
    have hne : x ≠ last := by
      rintro rfl
      simp at hx
    rw [setNext_cell_of_ne hne]
    exact h.frame x fun hmem => hx (mem_append_right _ hmem)
  · exact h.relinked.trans (Memory.Relinked.setNext mem' last (some q))
  · intro hs
    obtain ⟨heq, hfits⟩ := hspec.bytes hs
    refine ⟨?_, hfits.congr hsh⟩
    have hhead : mem'.bytes (bs ++ [last]) = mem.bytes (bs ++ [last]) :=
      bytes_congr fun x hx => by rw [hcell x hx]
    rw [hbytes, hbytes, shadowBytes_congr hsh, bytes_append mem', append_assoc, heq,
      hhead, ← bytes_append]

theorem getFromShadow_eq {ys : List (Fin n)} (hp : s.sock.shadow = some p) (hnotMem : p ∉ ys)
    (hys : LinkedFrom s.mem.next s.sock.shadowNext ys) :
    ∃ mem, getFromShadow s =
        (some p, { s with mem, sock := { s.sock with shadow := none, shadowNext := none } }) ∧
      LinkedFrom mem.next (some p) (p :: ys) ∧
      (∀ x, x ≠ p → mem.cell x = s.mem.cell x) ∧ s.mem.Relinked mem ∧
      (ShadowFits s.mem s.sock (p :: ys) →
        mem.bytes (p :: ys) = shadowBytes s.mem s.sock (p :: ys) ∧
        (mem.cell p).dataLen = s.sock.shadowLenRemainder ∧ ∀ x ∈ p :: ys, SegFits mem x) := by
  have hget : ∃ pktLen, getFromShadow s = (some p, { s with
      mem := s.mem.modify p fun m => { m with
        dataLen := s.sock.shadowLenRemainder % 65536
        dataOff := (m.dataOff + s.sock.shadowLenDelivered) % 65536
        pktLen
        next := s.sock.shadowNext }
      sock := { s.sock with shadow := none, shadowNext := none } }) :=
    ⟨_, by simp only [getFromShadow, hp]; rfl⟩
  obtain ⟨pktLen, hget⟩ := hget
  refine ⟨_, hget, ⟨rfl, ?_⟩, fun x hx => modify_cell_of_ne _ _ hx, ?_, ?_⟩
  · simp only [Memory.next, modify_cell_self]
    refine hys.congr fun y hy => ?_
    rw [Memory.next, Memory.next, modify_cell_of_ne _ _ (ne_of_mem_of_not_mem hy hnotMem)]
  · exact Memory.Relinked.modify s.mem p (fun _ => rfl) (fun _ => rfl) (fun _ => rfl)
  · rintro ⟨hfit, hfits⟩
    have hlen : s.sock.shadowLenRemainder % 65536 = s.sock.shadowLenRemainder :=
      Nat.mod_eq_of_lt (by omega)
    have hoff : ((s.mem.cell p).dataOff + s.sock.shadowLenDelivered) % 65536 =
        (s.mem.cell p).dataOff + s.sock.shadowLenDelivered := Nat.mod_eq_of_lt (by omega)
    refine ⟨?_, by simp [hlen], ?_⟩
    · rw [shadowBytes, bytes, flatMap_cons]
      congr 1
      · simp [RteMbuf.data, hlen, hoff]
      · refine bytes_congr fun y hy => ?_
        rw [modify_cell_of_ne _ _ (ne_of_mem_of_not_mem hy hnotMem)]
    · intro x hx
      rcases mem_cons.mp hx with rfl | hx
      · simp only [SegFits, modify_cell_self, hlen, hoff]
        exact hfit
      · rw [SegFits, modify_cell_of_ne _ _ (ne_of_mem_of_not_mem hx hnotMem)]
        exact hfits x hx

@[simp] theorem notifyReadable_mem (s : RxState n) : (notifyReadable s).mem = s.mem := by
  unfold notifyReadable
  split <;> rfl

@[simp] theorem notifyReadable_sock (s : RxState n) : (notifyReadable s).sock = s.sock := by
  unfold notifyReadable
  split <;> rfl

def chainAt (mem : Memory n) (p : Option (Fin n)) : List (Fin n) :=
  (walkFrom mem.next n p).getD []

theorem chainAt_eq {p : Option (Fin n)} (h : LinkedFrom mem.next p xs) : chainAt mem p = xs := by
  rw [chainAt, walkFrom_eq h (by simpa using h.length_le), Option.getD_some]

theorem chainAt_congr {p : Option (Fin n)} (h : LinkedFrom mem.next p xs)
    (hnext : ∀ x ∈ xs, mem'.next x = mem.next x) :
    chainAt mem' p = chainAt mem p := by
  rw [chainAt_eq h, chainAt_eq (h.congr hnext)]

def segLens (mem : Memory n) (xs : List (Fin n)) : List Nat :=
  xs.map fun x => (mem.cell x).dataLen

theorem CutSpec.whole_bytes (mem : Memory n) (sock : LocalSocket n) (xs : List (Fin n)) :
    mem.bytes xs ++ shadowBytes mem sock [] = mem.bytes xs ∧ ShadowFits mem sock [] := by
  simp [shadowBytes, ShadowFits]

theorem tryReadExactAmount_cut {mbuf : Fin n} (hlink : LinkedFrom mem.next (some mbuf) xs)
    (hshadow : sock.shadow = none) (hshadowNext : sock.shadowNext = none) (htotal : 0 < total) :
    ∃ mem' sock' total' first rs sh,
      tryReadExactAmount mem sock mbuf total = some (mem', sock', total', first) ∧
      CutSpec mem sock xs total mem' sock' rs sh ∧
      (total' < total → mem' = mem ∧ sock' = sock ∧ total' = mem.len xs) ∧
      (total' = total ∨ total' < total) := by
  rcases tryReadExactAmount_cases hlink hshadow hshadowNext htotal with
    ⟨hlen, hres⟩ | ⟨mem', sock', first, rs, sh, hres, hspec⟩
  · exact ⟨mem, sock, mem.len xs, _, xs, [], hres, CutSpec.whole hlink hshadow hshadowNext total,
      fun _ => ⟨rfl, rfl, rfl⟩, Or.inr hlen⟩
  · exact ⟨mem', sock', total, first, rs, sh, hres, hspec, fun h => absurd h (lt_irrefl total),
      Or.inl rfl⟩

theorem receiveFromRing_cases (total : Nat) (hshadow : s.sock.shadow = none)
    (hshadowNext : s.sock.shadowNext = none)
    (hcs : Chains s.mem s.sock.queued cs) (hnd : cs.flatten.Nodup) :
    (cs = [] ∧ ∃ s', receiveFromRing s total = some (none, s') ∧ s'.mem = s.mem ∧
      ShadowLinked s'.mem s'.sock [] ∧ s'.sock.queued = []) ∨
    ∃ r s' rs sh cs', receiveFromRing s total = some (some r, s') ∧ cs' <:+ cs ∧
      TakeSpec s.mem cs.flatten (s.mem.bytes cs.flatten) ((∀ x ∈ cs.flatten, SegFits s.mem x) ∧
          (0 < total → CutSafe s.mem s.sock (cs.head?.getD []) total))
        s'.mem s'.sock r.pdesc rs sh cs' := by
  obtain ⟨s₁, hdeq, hmem, hrest, hkept⟩ := dequeueRxBuf_spec s
  cases hq : s.sock.queued with
  | nil =>
    rw [hq] at hcs hdeq hrest
    cases hcs
    refine Or.inl ⟨rfl, s₁, by simp [receiveFromRing, hdeq], hmem, ?_, hrest⟩
    simp [ShadowLinked, hkept.shadow, hshadow, hkept.shadowNext, hshadowNext]
  | cons p ps =>
    rw [hq] at hcs hdeq hrest
    obtain ⟨xs, cs', hp, hps, rfl⟩ := forall₂_cons_left_iff.mp hcs
    rw [← hmem] at hp hps
    have hqueued : Chains s₁.mem s₁.sock.queued cs' := by
      rw [hrest]
      exact hps
    have hsh := hkept.shadow.trans hshadow
    have hshn := hkept.shadowNext.trans hshadowNext
    have hnd' : (xs ++ cs'.flatten).Nodup := by simpa using hnd
    by_cases htotal : 0 < total
    · obtain ⟨mem', sock', total', first, rs, sh, hres, hspec, -, -⟩ :=
        tryReadExactAmount_cut hp hsh hshn htotal
      have hrecv : receiveFromRing s total = some (some ⟨p, mtod mem' p, total', first⟩,
          notifyReadable { s₁ with mem := mem', sock := sock' }) := by
        simp [receiveFromRing, hdeq, htotal, hres]
      refine Or.inr ⟨_, _, rs, sh, cs', hrecv, suffix_cons xs cs', ?_⟩
      rw [← hmem, notifyReadable_mem, notifyReadable_sock, flatten_cons]
      refine hspec.takeSpec hp.head?_eq hqueued hnd' ?_
      rintro ⟨hfits, hsafe⟩
      refine hspec.bytes (fun x hx => hfits x (by simp [hx])) ?_
      rw [hkept.remainder, hkept.delivered]
      exact hsafe htotal
    · have hrecv : receiveFromRing s total = some (some ⟨p, mtod s₁.mem p,
          (s₁.mem.cell p).pktLen, (s₁.mem.cell p).dataLen⟩, s₁) := by
        simp [receiveFromRing, hdeq, htotal]
      refine Or.inr ⟨_, _, xs, [], cs', hrecv, suffix_cons xs cs', ?_⟩
      rw [← hmem, flatten_cons]
      exact (CutSpec.whole hp hsh hshn total).takeSpec hp.head?_eq hqueued hnd' fun _ =>
        CutSpec.whole_bytes s₁.mem s₁.sock xs

theorem receiveExactFromShadow_spec (has : LinkedFrom s.mem.next (some p) as)
    (hshadow : s.sock.shadow = none) (hshadowNext : s.sock.shadowNext = none)
    (hcs : Chains s.mem s.sock.queued cs) (hnd : (as ++ cs.flatten).Nodup) (htotal : 0 < total) :
    ∃ r s' rs sh cs', receiveExactFromShadow s p total = some (r, s') ∧ r.pdesc = p ∧
      cs' <:+ cs ∧ TakeSpec s.mem (as ++ cs.flatten) (s.mem.bytes (as ++ cs.flatten))
        ((∀ x ∈ as ++ cs.flatten, SegFits s.mem x) ∧ CutSafe s.mem s.sock as total ∧
          (0 < s.mem.len as → s.mem.len as < total →
            CutSafe s.mem s.sock (cs.head?.getD []) (total - s.mem.len as)))
        s'.mem s'.sock p rs sh cs' := by
  obtain ⟨mem', sock', total', first, rs, sh, hres, hspec, hshort, -⟩ :=
    tryReadExactAmount_cut has hshadow hshadowNext htotal
  by_cases hmore : 0 < total' ∧ total' < total
  · -- all of the kept chain is read, and there is room for the next one
    obtain ⟨rfl, rfl, rfl⟩ := hshort hmore.2
    obtain ⟨s₁, hdeq, hmem, hrest, hkept⟩ := dequeueRxBuf_spec s
    have has₁ : LinkedFrom s₁.mem.next (some p) as := by rwa [hmem]
    have hsh := hkept.shadow.trans hshadow
    have hshn := hkept.shadowNext.trans hshadowNext
    cases hq : s.sock.queued with
    | nil =>
      rw [hq] at hcs hdeq hrest
      cases hcs
      have hrecv : receiveExactFromShadow s p total =
          some (⟨p, mtod s.mem p, s.mem.len as, first⟩, notifyReadable s₁) := by
        simp [receiveExactFromShadow, hres, hmore, hdeq]
      refine ⟨_, _, as, [], [], hrecv, rfl, suffix_rfl, ?_⟩
      rw [← hmem, notifyReadable_mem, notifyReadable_sock]
      refine (CutSpec.whole has₁ hsh hshn total).takeSpec has₁.head?_eq ?_ (by simpa using hnd)
        fun _ => CutSpec.whole_bytes s₁.mem s₁.sock as
      rw [hrest]
      exact List.Forall₂.nil
    | cons q qs =>
      rw [hq] at hcs hdeq hrest
      obtain ⟨xs, cs', hxs, hqs, rfl⟩ := forall₂_cons_left_iff.mp hcs
      rw [← hmem] at hxs hqs
      have hqueued : Chains s₁.mem s₁.sock.queued cs' := by
        rw [hrest]
        exact hqs
      obtain ⟨mem₂, sock₂, total₂, first₂, rs₂, sh₂, hres₂, hspec₂, -, -⟩ :=
        tryReadExactAmount_cut hxs hsh hshn (Nat.sub_pos_of_lt hmore.2)
      obtain ⟨last, hlast, htake⟩ := hspec₂.takeSpec_join has₁ hxs.head?_eq hqueued
        (by simpa using hnd) (fun h : (∀ x ∈ xs, SegFits s₁.mem x) ∧
          CutSafe s₁.mem s₁.sock xs (total - s.mem.len as) => hspec₂.bytes h.1 h.2)
      have hrecv : receiveExactFromShadow s p total =
          some (⟨p, mtod s.mem p, s.mem.len as + total₂, first⟩,
            notifyReadable { s₁ with mem := mem₂.setNext last (some q), sock := sock₂ }) := by
        simp [receiveExactFromShadow, hres, hmore, hdeq, hres₂, hlast]
      refine ⟨_, _, as ++ rs₂, sh₂, cs', hrecv, rfl, suffix_cons xs cs', ?_⟩
      rw [← hmem, notifyReadable_mem, notifyReadable_sock, flatten_cons]
      refine { htake with bytes := fun h => htake.bytes ⟨fun x hx => h.1 x (by simp [hx]), ?_⟩ }
      rw [CutSafe, hkept.remainder, hkept.delivered]
      rw [hmem] at h ⊢
      exact h.2.2 hmore.1 hmore.2
  · have hrecv : receiveExactFromShadow s p total = some (⟨p, mtod mem' p, total, first⟩,
        notifyReadable { s with mem := mem', sock := sock' }) := by
      simp [receiveExactFromShadow, hres, hmore]
    refine ⟨_, _, rs, sh, cs, hrecv, rfl, suffix_rfl, ?_⟩
    rw [notifyReadable_mem, notifyReadable_sock]
    exact hspec.takeSpec has.head?_eq hcs hnd fun h =>
      hspec.bytes (fun x hx => h.1 x (by simp [hx])) h.2.1

theorem modify_pktLen_next (mem : Memory n) (p x : Fin n) (len : RteMbuf n → Nat) :
    (mem.modify p fun m => { m with pktLen := len m }).next x = mem.next x := by
  by_cases hx : x = p
  · subst hx
    simp [Memory.next]
  · simp [Memory.next, modify_cell_of_ne _ _ hx]

theorem modify_pktLen_data (mem : Memory n) (p x : Fin n) (len : RteMbuf n → Nat) :
    ((mem.modify p fun m => { m with pktLen := len m }).cell x).data = (mem.cell x).data := by
  by_cases hx : x = p
  · subst hx
    simp [RteMbuf.data]
  · simp [modify_cell_of_ne _ _ hx]

theorem TakeSpec.modify_pktLen {pend : List (Fin n)} {bs : List UInt8}
    (h : TakeSpec mem pend bs safe mem' sock' r rs [] cs) (hp : p ∈ rs) (len : RteMbuf n → Nat) :
    TakeSpec mem pend bs safe (mem'.modify p fun m => { m with pktLen := len m }) sock' r rs []
      cs where
  linked := h.linked.congr fun x _ => modify_pktLen_next mem' p x len
  shadow := h.shadow.congr (by simp)
  queued := h.queued.congr fun x _ => modify_pktLen_next mem' p x len
  split := h.split
  frame x hx := by
    rw [modify_cell_of_ne _ _ (ne_of_mem_of_not_mem hp hx).symm]
    exact h.frame x hx
  relinked := by
    refine h.relinked.trans ?_
    exact Memory.Relinked.modify mem' p (fun _ => rfl) (fun _ => rfl) (fun _ => rfl)
  bytes hs := by
    have hsame : ∀ ys, (mem'.modify p fun m => { m with pktLen := len m }).bytes ys =
        mem'.bytes ys := fun ys => bytes_congr fun x _ => modify_pktLen_data mem' p x len
    rw [hsame, hsame]
    exact h.bytes hs

theorem receiveAllFromShadow_spec (has : LinkedFrom s.mem.next (some p) as)
    (hshadow : s.sock.shadow = none) (hshadowNext : s.sock.shadowNext = none)
    (hcs : Chains s.mem s.sock.queued cs) (hnd : (as ++ cs.flatten).Nodup) :
    ∃ r s' rs sh cs', receiveAllFromShadow s p = some (r, s') ∧ r.pdesc = p ∧
      cs' <:+ cs ∧ TakeSpec s.mem (as ++ cs.flatten) (s.mem.bytes (as ++ cs.flatten)) True
        s'.mem s'.sock p rs sh cs' := by
  obtain ⟨s₁, hdeq, hmem, hrest, hkept⟩ := dequeueRxBuf_spec s
  have has₁ : LinkedFrom s₁.mem.next (some p) as := by rwa [hmem]
  have hsh := hkept.shadow.trans hshadow
  have hshn := hkept.shadowNext.trans hshadowNext
  cases hq : s.sock.queued with
  | nil =>
    rw [hq] at hcs hdeq hrest
    cases hcs
    obtain ⟨bs, last, rfl⟩ := has.exists_concat
    have hend : s₁.mem.setNext last none = s₁.mem := by
      rw [setNext, Memory.modify]
      have hnone : (s₁.mem.cell last).next = none := has₁.append_cons
      ext1 <;> simp [← hnone]
    have hrecv : receiveAllFromShadow s p = some (⟨p, mtod s₁.mem p, (s₁.mem.cell p).pktLen,
        (s₁.mem.cell p).dataLen⟩, s₁) := by
      simp [receiveAllFromShadow, hdeq, lastseg_eq has₁, hend]
    refine ⟨_, _, bs ++ [last], [], [], hrecv, rfl, suffix_rfl, ?_⟩
    rw [← hmem]
    refine (CutSpec.whole has₁ hsh hshn 0).takeSpec has₁.head?_eq ?_ (by simpa using hnd)
      fun _ => CutSpec.whole_bytes s₁.mem s₁.sock _
    rw [hrest]
    exact List.Forall₂.nil
  | cons q qs =>
    rw [hq] at hcs hdeq hrest
    obtain ⟨xs, cs', hxs, hqs, rfl⟩ := forall₂_cons_left_iff.mp hcs
    rw [← hmem] at hxs hqs
    have hqueued : Chains s₁.mem s₁.sock.queued cs' := by
      rw [hrest]
      exact hqs
    obtain ⟨last, hlast, htake⟩ := (CutSpec.whole hxs hsh hshn 0).takeSpec_join has₁ hxs.head?_eq
      hqueued (by simpa using hnd) fun _ : True => CutSpec.whole_bytes s₁.mem s₁.sock xs
    have hp : p ∈ as ++ xs := mem_append_left _ (by
      obtain ⟨ys, rfl, -⟩ := LinkedFrom.some_iff.mp has
      simp)
    refine ⟨_, _, as ++ xs, [], cs', by simp only [receiveAllFromShadow, hdeq, hlast,
      head?_cons, Option.bind_eq_bind, Option.bind_some]; rfl, rfl,
      suffix_cons xs cs', ?_⟩
    rw [← hmem, flatten_cons]
    exact htake.modify_pktLen hp fun m =>
      (m.pktLen + ((s₁.mem.setNext last (some q)).cell q).pktLen) % 2 ^ 32

def RxState.keptLens (s : RxState n) : List Nat :=
  s.sock.shadowLenRemainder :: segLens s.mem (chainAt s.mem s.sock.shadowNext)

def RxState.waitingLens (s : RxState n) : List Nat :=
  segLens s.mem (chainAt s.mem s.sock.queued.head?)

/-- A cut of a chain with these segment lengths is not exactly on the end of a segment, or what
it saves about the segments behind is right. -/
def RxState.CutRight (s : RxState n) (lens : List Nat) (total : Nat) : Prop :=
  SavedRight s.sock.shadowLenRemainder s.sock.shadowLenDelivered (behindBoundary lens total)

instance (s : RxState n) (lens : List Nat) (total : Nat) : Decidable (s.CutRight lens total) :=
  inferInstanceAs (Decidable (SavedRight _ _ _))

/-- A read of `total` bytes cuts right in the chain it ends in: the kept one, or the oldest
waiting one. -/
def ReadSafe (s : RxState n) (total : Nat) : Prop :=
  total = 0 ∨ (s.sock.shadow = none → s.CutRight s.waitingLens total) ∧
    (s.sock.shadow ≠ none → s.CutRight s.keptLens total ∧
      (0 < s.keptLens.sum → s.keptLens.sum < total →
        s.CutRight s.waitingLens (total - s.keptLens.sum)))

instance (s : RxState n) (total : Nat) : Decidable (ReadSafe s total) :=
  inferInstanceAs (Decidable (_ ∨ _))

theorem TakeSpec.of_shadow {mem₁ : Memory n} {pend : List (Fin n)} {bs bs₁ : List UInt8}
    {safe₁ : Prop} (h : TakeSpec mem₁ pend bs₁ safe₁ mem' sock' p rs sh cs)
    (hcell : ∀ x, x ≠ p → mem₁.cell x = mem.cell x) (hrel : mem.Relinked mem₁)
    (hsafe : safe → safe₁ ∧ bs₁ = bs) : TakeSpec mem pend bs safe mem' sock' p rs sh cs where
  linked := h.linked
  shadow := h.shadow
  queued := h.queued
  split := h.split
  frame x hx := by
    have hp : p ∈ rs := by
      obtain ⟨ys, rfl, -⟩ := LinkedFrom.some_iff.mp h.linked
      simp
    rw [h.frame x hx, hcell x (ne_of_mem_of_not_mem hp hx).symm]
  relinked := hrel.trans h.relinked
  bytes hs := by
    obtain ⟨hs₁, rfl⟩ := hsafe hs
    exact h.bytes hs₁

theorem Chains.chainAt_head? {ps : List (Fin n)} (h : Chains mem ps cs) :
    chainAt mem ps.head? = cs.head?.getD [] := by
  cases h with
  | nil => simp [chainAt, walkFrom]
  | cons hp _ => exact chainAt_eq hp

theorem serviceReceive_cases (total : Nat) (hsh : ShadowLinked s.mem s.sock sh)
    (hcs : Chains s.mem s.sock.queued cs) (hnd : (sh ++ cs.flatten).Nodup) :
    (sh = [] ∧ cs = [] ∧ ∃ s', serviceReceive s total = some (none, s') ∧ s'.mem = s.mem ∧
      ShadowLinked s'.mem s'.sock [] ∧ s'.sock.queued = []) ∨
    ∃ r s' rs sh' cs', serviceReceive s total = some (some r, s') ∧
      (∀ p, s.sock.shadow = some p → r.pdesc = p) ∧ cs' <:+ cs ∧
      TakeSpec s.mem (sh ++ cs.flatten) (shadowBytes s.mem s.sock sh ++ s.mem.bytes cs.flatten)
        (ShadowFits s.mem s.sock sh ∧ (∀ x ∈ cs.flatten, SegFits s.mem x) ∧ ReadSafe s total)
        s'.mem s'.sock r.pdesc rs sh' cs' := by
  have hwait : s.waitingLens = segLens s.mem (cs.head?.getD []) := by
    rw [RxState.waitingLens, hcs.chainAt_head?]
  cases hshadow : s.sock.shadow with
  | none =>
    simp only [ShadowLinked, hshadow] at hsh
    obtain ⟨hshadowNext, rfl⟩ := hsh
    have hget : getFromShadow s = (none, s) := by simp [getFromShadow, hshadow]
    rcases receiveFromRing_cases total hshadow hshadowNext hcs (by simpa using hnd) with
      ⟨rfl, s', hres, hrest⟩ | ⟨r, s', rs, sh', cs', hres, hsuf, htake⟩
    · exact Or.inl ⟨rfl, rfl, s', by simp [serviceReceive, hget, hres], hrest⟩
    · refine Or.inr ⟨r, s', rs, sh', cs', by simp [serviceReceive, hget, hres], by simp, hsuf, ?_⟩
      refine { htake with bytes := fun h => htake.bytes ⟨h.2.1, fun htotal => ?_⟩ }
      rcases h.2.2 with h0 | ⟨hright, -⟩
      · omega
      · have := hright hshadow
        rwa [hwait] at this
  | some p =>
    simp only [ShadowLinked, hshadow] at hsh
    obtain ⟨ys, rfl, hp, hys, -⟩ := hsh
    obtain ⟨mem₁, hget, hlink, hcell, hrel, hbytes⟩ := getFromShadow_eq hshadow hp hys
    obtain ⟨-, -, hdisj⟩ := nodup_append.mp hnd
    have hcell' : ∀ x ∈ cs.flatten, mem₁.cell x = s.mem.cell x := fun x hx =>
      hcell x fun he => hdisj p (by simp) x hx he.symm
    have hcs₁ : Chains mem₁ s.sock.queued cs :=
      hcs.congr fun x hx => by rw [Memory.next, hcell' x hx, Memory.next]
    have hrest : mem₁.bytes cs.flatten = s.mem.bytes cs.flatten :=
      bytes_congr fun x hx => by rw [hcell' x hx]
    have hpend : ShadowFits s.mem s.sock (p :: ys) → mem₁.bytes ((p :: ys) ++ cs.flatten) =
        shadowBytes s.mem s.sock (p :: ys) ++ s.mem.bytes cs.flatten := fun h => by
      rw [bytes_append, (hbytes h).1, hrest]
    by_cases htotal : 0 < total
    · obtain ⟨r, s', rs, sh', cs', hres, rfl, hsuf, htake⟩ := receiveExactFromShadow_spec
        (s := { s with mem := mem₁, sock := { s.sock with shadow := none, shadowNext := none } })
        hlink rfl rfl hcs₁ hnd htotal
      refine Or.inr ⟨r, s', rs, sh', cs', by simp [serviceReceive, hget, htotal, hres],
        fun q hq => (Option.some.inj hq), hsuf, htake.of_shadow hcell hrel ?_⟩
      rintro ⟨hfits, hfits', hsafe⟩
      obtain ⟨-, hrem, hseg⟩ := hbytes hfits
      have hkept : segLens mem₁ (r.pdesc :: ys) = s.keptLens := by
        rw [RxState.keptLens, chainAt_eq hys]
        simp only [segLens, map_cons, hrem, List.cons.injEq, true_and]
        exact map_congr_left fun y hy => by rw [hcell y (ne_of_mem_of_not_mem hy hp)]
      have hhead : segLens mem₁ (cs.head?.getD []) = s.waitingLens := by
        rw [hwait]
        refine map_congr_left fun x hx => ?_
        rw [hcell' x (by cases cs <;> simp_all)]
      have hsum : mem₁.len (r.pdesc :: ys) = s.keptLens.sum := by rw [← hkept]; rfl
      rcases hsafe with h0 | ⟨-, hright⟩
      · omega
      obtain ⟨hright, hright'⟩ := hright (by simp [hshadow])
      refine ⟨⟨?_, ?_, ?_⟩, hpend hfits⟩
      · intro x hx
        rcases mem_append.mp hx with hx | hx
        · exact hseg x hx
        · rw [SegFits, hcell' x hx]
          exact hfits' x hx
      · rw [← hkept] at hright
        exact hright
      · rw [hsum]
        intro h0 hlt
        have := hright' h0 hlt
        rw [← hhead] at this
        exact this
    · obtain ⟨r, s', rs, sh', cs', hres, rfl, hsuf, htake⟩ := receiveAllFromShadow_spec
        (s := { s with mem := mem₁, sock := { s.sock with shadow := none, shadowNext := none } })
        hlink rfl rfl hcs₁ hnd
      exact Or.inr ⟨r, s', rs, sh', cs', by simp [serviceReceive, hget, htotal, hres],
        fun q hq => (Option.some.inj hq), hsuf, htake.of_shadow hcell hrel fun h =>
          ⟨trivial, hpend h.1⟩⟩

end NetbsdDpdk
