import NetbsdDpdk.ReceiveApi

/-! Cutting a chain at a requested length: what `service_try_read_exact_amount` leaves in the
chain it was given and what it keeps in the shadow of the socket. -/

namespace NetbsdDpdk

open List Memory

variable {n : Nat} {mem mem' : Memory n} {sock : LocalSocket n} {sh : List (Fin n)}
  {total delivered : Nat}

def Memory.len (mem : Memory n) (xs : List (Fin n)) : Nat :=
  (xs.map fun x => (mem.cell x).dataLen).sum

@[simp] theorem Memory.len_nil (mem : Memory n) : mem.len [] = 0 := rfl

@[simp] theorem Memory.len_cons (mem : Memory n) (x : Fin n) (xs : List (Fin n)) :
    mem.len (x :: xs) = (mem.cell x).dataLen + mem.len xs := by simp [len]

structure Memory.Relinked (mem mem' : Memory n) : Prop where
  buf : ∀ x, (mem'.cell x).buf = (mem.cell x).buf
  refcnt : ∀ x, (mem'.cell x).refcnt = (mem.cell x).refcnt
  pool : ∀ x, (mem'.cell x).pool = (mem.cell x).pool
  mempool : mem'.mempool = mem.mempool
  freed : mem'.freed = mem.freed
  returned : mem'.returned = mem.returned

namespace Memory.Relinked

variable {mem mem' mem'' : Memory n}

theorem refl (mem : Memory n) : mem.Relinked mem :=
  ⟨fun _ => rfl, fun _ => rfl, fun _ => rfl, rfl, rfl, rfl⟩

theorem trans (h : mem.Relinked mem') (h' : mem'.Relinked mem'') : mem.Relinked mem'' :=
  ⟨fun x => (h'.buf x).trans (h.buf x), fun x => (h'.refcnt x).trans (h.refcnt x),
    fun x => (h'.pool x).trans (h.pool x), h'.mempool.trans h.mempool, h'.freed.trans h.freed,
    h'.returned.trans h.returned⟩

theorem modify (mem : Memory n) (p : Fin n) {f : RteMbuf n → RteMbuf n}
    (hbuf : ∀ m, (f m).buf = m.buf) (href : ∀ m, (f m).refcnt = m.refcnt)
    (hpool : ∀ m, (f m).pool = m.pool) : mem.Relinked (mem.modify p f) := by
  have hcell : ∀ x, (mem.modify p f).cell x = mem.cell x ∨
      (mem.modify p f).cell x = f (mem.cell x) := by
    intro x
    by_cases hx : x = p
    · subst hx
      exact Or.inr (modify_cell_self mem x f)
    · exact Or.inl (modify_cell_of_ne mem f hx)
  refine ⟨fun x => ?_, fun x => ?_, fun x => ?_, rfl, rfl, rfl⟩ <;>
    rcases hcell x with h | h <;> simp [h, hbuf, href, hpool]

theorem setNext (mem : Memory n) (p : Fin n) (q : Option (Fin n)) :
    mem.Relinked (mem.setNext p q) :=
  modify mem p (fun _ => rfl) (fun _ => rfl) (fun _ => rfl)

end Memory.Relinked

/-- The shadow and what is behind it. The link of the shadow itself is cut or still in place. -/
def ShadowLinked (mem : Memory n) (sock : LocalSocket n) (sh : List (Fin n)) : Prop :=
  match sock.shadow with
  | none => sock.shadowNext = none ∧ sh = []
  | some p => ∃ ys, sh = p :: ys ∧ p ∉ ys ∧ LinkedFrom mem.next sock.shadowNext ys ∧
      (mem.next p = none ∨ mem.next p = sock.shadowNext)

def shadowBytes (mem : Memory n) (sock : LocalSocket n) : List (Fin n) → List UInt8
  | [] => []
  | p :: ys =>
    bytesAt (mem.cell p).buf ((mem.cell p).dataOff + sock.shadowLenDelivered)
      sock.shadowLenRemainder ++ mem.bytes ys

def SegFits (mem : Memory n) (x : Fin n) : Prop :=
  (mem.cell x).dataOff + (mem.cell x).dataLen < 65536

def ShadowFits (mem : Memory n) (sock : LocalSocket n) : List (Fin n) → Prop
  | [] => True
  | p :: ys => (mem.cell p).dataOff + sock.shadowLenDelivered + sock.shadowLenRemainder < 65536 ∧
      ∀ y ∈ ys, SegFits mem y

theorem ShadowLinked.congr (h : ShadowLinked mem sock sh)
    (hcell : ∀ x ∈ sh, mem'.cell x = mem.cell x) :
    ShadowLinked mem' sock sh := by
  cases hs : sock.shadow with
  | none => simpa only [ShadowLinked, hs] using h
  | some p =>
    simp only [ShadowLinked, hs] at h ⊢
    obtain ⟨ys, rfl, hp, hys, hnext⟩ := h
    refine ⟨ys, rfl, hp, hys.congr fun y hy => ?_, ?_⟩
    · rw [Memory.next, hcell y (by simp [hy]), Memory.next]
    · rwa [Memory.next, hcell p (by simp)]

theorem shadowBytes_congr (hcell : ∀ x ∈ sh, mem'.cell x = mem.cell x) :
    shadowBytes mem' sock sh = shadowBytes mem sock sh := by
  cases sh with
  | nil => rfl
  | cons p ys =>
    have hys : mem'.bytes ys = mem.bytes ys :=
      bytes_congr fun y hy => by rw [hcell y (by simp [hy])]
    simp only [shadowBytes, hcell p (by simp), hys]

theorem ShadowFits.congr (h : ShadowFits mem sock sh) (hcell : ∀ x ∈ sh, mem'.cell x = mem.cell x) :
    ShadowFits mem' sock sh := by
  cases sh with
  | nil => trivial
  | cons p ys =>
    refine ⟨by rw [hcell p (by simp)]; exact h.1, fun y hy => ?_⟩
    rw [SegFits, hcell y (by simp [hy])]
    exact h.2 y hy

def behindBoundary : List Nat → Nat → List Nat
  | [], _ => []
  | l :: ls, total =>
    if l = total then ls else if l < total then behindBoundary ls (total - l) else []

/-- What a cut with these lengths behind it saves for the first of them is right. With one segment
behind, the old saved values stay; with more, the length of the second is saved for the first. -/
def SavedRight (remainder delivered : Nat) : List Nat → Prop
  | [] => True
  | [l] => remainder = l ∧ delivered = 0
  | l₁ :: l₂ :: _ => l₂ = l₁

instance (remainder delivered : Nat) (ls : List Nat) :
    Decidable (SavedRight remainder delivered ls) :=
  match ls with
  | [] => isTrue trivial
  | [l] => inferInstanceAs (Decidable (remainder = l ∧ delivered = 0))
  | l₁ :: l₂ :: _ => inferInstanceAs (Decidable (l₂ = l₁))

theorem behindBoundary_append (mem : Memory n) {pre post : List (Fin n)} {t : Fin n}
    (hpre : mem.len pre < total) (htotal : mem.len pre + (mem.cell t).dataLen = total) :
    behindBoundary ((pre ++ t :: post).map fun x => (mem.cell x).dataLen) total =
      post.map fun x => (mem.cell x).dataLen := by
  induction pre generalizing total with
  | nil =>
    simp only [len_nil, Nat.zero_add] at htotal
    simp [behindBoundary, htotal]
  | cons x pre ih =>
    simp only [len_cons] at hpre htotal
    have hne : (mem.cell x).dataLen ≠ total := by omega
    have hlt : (mem.cell x).dataLen < total := by omega
    simp only [cons_append, map_cons, behindBoundary, hne, hlt, if_true, if_false]
    exact ih (by omega) (by omega)

theorem scanExact_cases {fuel : Nat} {p : Option (Fin n)} {xs : List (Fin n)}
    (prev : Option (Fin n)) (curr : Nat) (hlink : LinkedFrom mem.next p xs)
    (hfuel : xs.length ≤ fuel) (hcurr : curr < total) :
    (curr + mem.len xs < total ∧
      ∃ prev', scanExact mem total fuel p prev curr = some (none, prev', curr + mem.len xs)) ∨
    ∃ pre t post prev', xs = pre ++ t :: post ∧ curr + mem.len pre < total ∧
      total ≤ curr + mem.len pre + (mem.cell t).dataLen ∧
      scanExact mem total fuel p prev curr = some (some t, prev', curr + mem.len pre) := by
  induction xs generalizing p prev fuel curr with
  | nil =>
    cases hlink
    refine Or.inl ⟨by simpa using hcurr, prev, ?_⟩
    cases fuel <;> simp [scanExact]
  | cons x xs ih =>
    obtain ⟨rfl, htail⟩ := hlink
    obtain ⟨fuel, rfl, hf⟩ := exists_fuel hfuel
    by_cases hlt : (mem.cell x).dataLen + curr < total
    · have hstep : scanExact mem total (fuel + 1) (some x) prev curr =
          scanExact mem total fuel (mem.next x) (some x) (curr + (mem.cell x).dataLen) := by
        simp [scanExact, hlt]
      rcases ih (some x) (curr + (mem.cell x).dataLen) htail hf
          (by omega) with
        ⟨hlen, prev', hs⟩ | ⟨pre, t, post, prev', rfl, hpre, ht, hs⟩
      · refine Or.inl ⟨by simp only [len_cons]; omega, prev', ?_⟩
        rw [hstep, hs, len_cons, Nat.add_assoc]
      · refine Or.inr ⟨x :: pre, t, post, prev', rfl, ?_, ?_, ?_⟩
        · simp only [len_cons]; omega
        · simp only [len_cons]; omega
        · rw [hstep, hs, len_cons, Nat.add_assoc]
    · refine Or.inr ⟨[], x, xs, prev, rfl, by simpa using hcurr, by simp; omega, ?_⟩
      simp [scanExact, hlt]

structure CutSpec (mem : Memory n) (sock : LocalSocket n) (xs : List (Fin n)) (total : Nat)
    (mem' : Memory n) (sock' : LocalSocket n) (rs sh : List (Fin n)) : Prop where
  linked : LinkedFrom mem'.next xs.head? rs
  shadow : ShadowLinked mem' sock' sh
  split : ∃ as, xs = as ++ sh ∧ (rs = as ∨ ∃ t ys, sh = t :: ys ∧ rs = as ++ [t])
  rxRing : sock'.rxRing = sock.rxRing
  localCache : sock'.localCache = sock.localCache
  frame : ∀ x, x ∉ rs → mem'.cell x = mem.cell x
  relinked : mem.Relinked mem'
  bytes : (∀ x ∈ xs, SegFits mem x) →
    SavedRight sock.shadowLenRemainder sock.shadowLenDelivered
      (behindBoundary (xs.map fun x => (mem.cell x).dataLen) total) →
    mem'.bytes rs ++ shadowBytes mem' sock' sh = mem.bytes xs ∧ ShadowFits mem' sock' sh

section Cut

variable {mem : Memory n} {sock : LocalSocket n} {p : Option (Fin n)} {pre post : List (Fin n)}
  {t : Fin n} {total : Nat}

def cutInsideMem (mem : Memory n) (t : Fin n) (delivered : Nat) : Memory n :=
  (mem.modify t fun m => { m with dataLen := delivered % 65536 }).setNext t none

theorem cutInsideMem_cell_of_ne {x : Fin n} (h : x ≠ t) :
    (cutInsideMem mem t delivered).cell x = mem.cell x := by
  simp [cutInsideMem, Memory.setNext, modify_cell_of_ne _ _ h]

theorem cutInsideMem_cell_self :
    (cutInsideMem mem t delivered).cell t =
      { mem.cell t with dataLen := delivered % 65536, next := none } := by
  simp [cutInsideMem, Memory.setNext]

theorem cutInsideMem_next :
    (cutInsideMem mem t delivered).next = Function.update mem.next t none := by
  funext x
  by_cases hx : x = t
  · subst hx
    simp [Memory.next, cutInsideMem_cell_self]
  · simp [Memory.next, cutInsideMem_cell_of_ne hx, hx]

theorem setNext_cell_of_ne {q : Option (Fin n)} {x : Fin n} (h : x ≠ t) :
    (mem.setNext t q).cell x = mem.cell x :=
  modify_cell_of_ne mem _ h

theorem setNext_data (q : Option (Fin n)) (x : Fin n) :
    ((mem.setNext t q).cell x).data = (mem.cell x).data := by
  rw [setNext_cell]
  rfl

theorem notMem_of_linked (hlink : LinkedFrom mem.next p (pre ++ t :: post)) :
    t ∉ pre ∧ t ∉ post ∧ ∀ x ∈ pre, x ∉ post := by
  have hnd := nodup_append.mp hlink.nodup
  refine ⟨fun h => hnd.2.2 t h t (by simp) rfl, (nodup_cons.mp hnd.2.1).1, ?_⟩
  exact fun x hx hpost => hnd.2.2 x hx x (by simp [hpost]) rfl

theorem cutInside_spec (hlink : LinkedFrom mem.next p (pre ++ t :: post))
    (hpre : mem.len pre < total) (hlt : total < mem.len pre + (mem.cell t).dataLen) :
    CutSpec mem sock (pre ++ t :: post) total (cutInsideMem mem t (total - mem.len pre)) { sock with
        shadow := some t
        shadowNext := mem.next t
        shadowLenRemainder := mem.len pre + (mem.cell t).dataLen - total
        shadowLenDelivered := total - mem.len pre }
      (pre ++ [t]) (t :: post) where
  linked := by
    rw [cutInsideMem_next, hlink.head?_eq]
    exact hlink.cut
  shadow := by
    obtain ⟨-, hpost, -⟩ := notMem_of_linked hlink
    refine ⟨post, rfl, hpost, ?_, Or.inl ?_⟩
    · rw [cutInsideMem_next]
      exact hlink.append_cons.update_of_notMem hpost
    · simp [cutInsideMem_next]
  split := ⟨pre, rfl, Or.inr ⟨t, post, rfl, rfl⟩⟩
  rxRing := rfl
  localCache := rfl
  frame x hx := cutInsideMem_cell_of_ne (by rintro rfl; simp at hx)
  relinked := by
    refine Memory.Relinked.trans ?_ (Memory.Relinked.setNext _ t none)
    exact Memory.Relinked.modify mem t (fun _ => rfl) (fun _ => rfl) (fun _ => rfl)
  bytes hfits _ := by
    obtain ⟨hpre', hpost, -⟩ := notMem_of_linked hlink
    have ht : (mem.cell t).dataOff + (mem.cell t).dataLen < 65536 := hfits t (by simp)
    have hcell : ∀ x ∈ pre ++ post,
        (cutInsideMem mem t (total - mem.len pre)).cell x = mem.cell x := by
      intro x hx
      refine cutInsideMem_cell_of_ne ?_
      rintro rfl
      simp [hpre', hpost] at hx
    have hsame : ∀ ys, (∀ x ∈ ys, x ∈ pre ++ post) →
        (cutInsideMem mem t (total - mem.len pre)).bytes ys = mem.bytes ys := fun ys hys =>
      bytes_congr fun x hx => by rw [hcell x (hys x hx)]
    have hmod : (total - mem.len pre) % 65536 = total - mem.len pre :=
      Nat.mod_eq_of_lt (by omega)
    have hdata : bytesAt (mem.cell t).buf (mem.cell t).dataOff (mem.cell t).dataLen =
        bytesAt (mem.cell t).buf (mem.cell t).dataOff (total - mem.len pre) ++
          bytesAt (mem.cell t).buf ((mem.cell t).dataOff + (total - mem.len pre))
            (mem.len pre + (mem.cell t).dataLen - total) := by
      rw [← bytesAt_add]
      congr 1
      omega
    refine ⟨?_, ?_, fun y hy => ?_⟩
    · rw [shadowBytes, bytes_append, bytes_append, hsame pre (by simp +contextual),
        hsame post (by simp +contextual)]
      simp only [Memory.bytes, flatMap_cons, flatMap_nil, append_nil,
        cutInsideMem_cell_self, RteMbuf.data, hmod, append_assoc, hdata]
    · simp only [cutInsideMem_cell_self]
      omega
    · rw [SegFits, hcell y (by simp [hy])]
      exact hfits y (by simp [hy])

def keepBehind (mem : Memory n) (sock : LocalSocket n) : List (Fin n) → LocalSocket n
  | [] => sock
  | [q] => { sock with shadow := some q, shadowNext := none }
  | q :: r :: _ => { sock with
      shadow := some q
      shadowNext := some r
      shadowLenRemainder := (mem.cell r).dataLen
      shadowLenDelivered := 0 }

theorem cutBoundary_spec (hlink : LinkedFrom mem.next p (pre ++ t :: post))
    (hshadow : sock.shadow = none) (hshadowNext : sock.shadowNext = none)
    (hpre : mem.len pre < total) (heq : mem.len pre + (mem.cell t).dataLen = total) :
    CutSpec mem sock (pre ++ t :: post) total (mem.setNext t none) (keepBehind mem sock post)
      (pre ++ [t]) post where
  linked := by
    rw [setNext_next, hlink.head?_eq]
    exact hlink.cut
  shadow := by
    obtain ⟨-, hpost, -⟩ := notMem_of_linked hlink
    have htail : LinkedFrom (mem.setNext t none).next (mem.next t) post := by
      rw [setNext_next]
      exact hlink.append_cons.update_of_notMem hpost
    match post, htail with
    | [], _ => simp [ShadowLinked, keepBehind, hshadow, hshadowNext]
    | [q], htail => exact ⟨[], rfl, by simp, rfl, Or.inl htail.2⟩
    | q :: r :: post, htail =>
      exact ⟨r :: post, rfl, (nodup_cons.mp htail.nodup).1, ⟨rfl, htail.2.2⟩, Or.inr htail.2.1⟩
  split := ⟨pre ++ [t], by simp, Or.inl rfl⟩
  rxRing := by
    match post with
    | [] => rfl
    | [q] => rfl
    | q :: r :: post => rfl
  localCache := by
    match post with
    | [] => rfl
    | [q] => rfl
    | q :: r :: post => rfl
  frame x hx := setNext_cell_of_ne (by rintro rfl; simp at hx)
  relinked := Memory.Relinked.setNext mem t none
  bytes hfits hsaved := by
    rw [behindBoundary_append mem hpre heq] at hsaved
    have hcell : ∀ x ∈ post, (mem.setNext t none).cell x = mem.cell x := fun x hx =>
      setNext_cell_of_ne (ne_of_mem_of_not_mem hx (notMem_of_linked hlink).2.1)
    have hall : ∀ ys, (mem.setNext t none).bytes ys = mem.bytes ys := fun ys =>
      bytes_congr fun x _ => setNext_data none x
    have hfit : ∀ x ∈ post, SegFits (mem.setNext t none) x := fun x hx => by
      rw [SegFits, hcell x hx]
      exact hfits x (by simp [hx])
    rw [show pre ++ t :: post = (pre ++ [t]) ++ post by simp, bytes_append _ _ post, hall]
    match post, hsaved, hcell, hfit with
    | [], _, _, _ => simp [shadowBytes, Memory.bytes, ShadowFits]
    | [q], hsaved, hcell, hfit =>
      obtain ⟨hrem, hdel⟩ := hsaved
      have hq := hfit q (by simp)
      rw [SegFits] at hq
      refine ⟨?_, ?_, by simp⟩
      · simp [shadowBytes, keepBehind, hrem, hdel, hcell q, Memory.bytes, RteMbuf.data]
      · simp only [keepBehind, hrem, hdel]
        rw [hcell q (by simp)] at hq ⊢
        simpa using hq
    | q :: r :: post, hsaved, hcell, hfit =>
      have hlen : (mem.cell r).dataLen = (mem.cell q).dataLen := hsaved
      have hq := hfit q (by simp)
      rw [SegFits] at hq
      refine ⟨?_, ?_, fun y hy => hfit y (mem_cons_of_mem q hy)⟩
      · rw [shadowBytes, hall]
        simp [keepBehind, hlen, hcell q, Memory.bytes, RteMbuf.data]
      · simp only [keepBehind, hlen]
        rw [hcell q (by simp)] at hq ⊢
        simpa using hq

end Cut

theorem tryReadExactAmount_of_scan (sock : LocalSocket n) {mbuf t : Fin n} {prev : Option (Fin n)}
    {curr : Nat} (hscan : scanExact mem total n (some mbuf) none 0 = some (some t, prev, curr))
    (hcurr : curr < total) :
    tryReadExactAmount mem sock mbuf total =
      some ((cutAt mem sock mbuf t curr total).1.setNext t none,
        (cutAt mem sock mbuf t curr total).2.1, total, (cutAt mem sock mbuf t curr total).2.2) := by
  have hne : curr ≠ total := Nat.ne_of_lt hcurr
  cases prev <;> simp [tryReadExactAmount, hscan, hne]

theorem tryReadExactAmount_cases {mbuf : Fin n} {xs : List (Fin n)}
    (hlink : LinkedFrom mem.next (some mbuf) xs)
    (hshadow : sock.shadow = none) (hshadowNext : sock.shadowNext = none) (htotal : 0 < total) :
    (mem.len xs < total ∧ tryReadExactAmount mem sock mbuf total =
      some (mem, sock, mem.len xs, (mem.cell mbuf).dataLen)) ∨ ∃ mem' sock' first rs sh,
      tryReadExactAmount mem sock mbuf total = some (mem', sock', total, first) ∧
      CutSpec mem sock xs total mem' sock' rs sh := by
  have hfuel : xs.length ≤ n := by simpa using hlink.length_le
  rcases scanExact_cases none 0 hlink hfuel htotal with
    ⟨hlen, prev, hs⟩ | ⟨pre, t, post, prev, rfl, hpre, ht, hs⟩
  · rw [Nat.zero_add] at hlen hs
    exact Or.inl ⟨hlen, by simp [tryReadExactAmount, hs]⟩
  · rw [Nat.zero_add] at hpre ht hs
    have hres := tryReadExactAmount_of_scan sock hs hpre
    refine Or.inr ?_
    by_cases hlt : total < mem.len pre + (mem.cell t).dataLen
    · refine ⟨_, _, _, pre ++ [t], t :: post, hres, ?_⟩
      have hdel : (mem.cell t).dataLen - (mem.len pre + (mem.cell t).dataLen - total) =
          total - mem.len pre := by omega
      simpa only [cutAt, gt_iff_lt, hlt, if_true, hdel, cutInsideMem] using
        cutInside_spec hlink hpre hlt
    · refine ⟨_, _, _, pre ++ [t], post, hres, ?_⟩
      have hspec := cutBoundary_spec hlink hshadow hshadowNext hpre (by omega)
      have htail := hlink.append_cons
      simp only [cutAt, gt_iff_lt, hlt, if_false]
      match post, htail, hspec with
      | [], htail, hspec =>
        have hnext : mem.next t = none := htail
        simpa only [hnext, keepBehind] using hspec
      | [q], htail, hspec =>
        have hq : mem.next q = none := htail.2
        simpa only [htail.1, hq, keepBehind] using hspec
      | q :: r :: post, htail, hspec =>
        simpa only [htail.1, htail.2.1, keepBehind] using hspec

end NetbsdDpdk
