import NetbsdDpdk.StreamSocket
import Mathlib.Data.List.Induction

/-! A socket buffer of a stream holds one chain of mbufs, and its counters are the totals over that
chain: appending, dropping and flushing keep this, and change the totals as they should. -/

namespace NetbsdDpdk

open List Sockbuf Function

open MbufMem

variable {k n : Nat} {mem : MbufMem k n} {sb : Sockbuf k} {xs : List (Fin k)} {fuel len : Nat}
  {slot : Option TxSlot}

def Memory.DataKept (mem mem' : Memory n) : Prop :=
  ∀ p, (mem'.cell p).buf = (mem.cell p).buf ∧ (mem'.cell p).dataOff = (mem.cell p).dataOff ∧
    (mem'.cell p).dataLen = (mem.cell p).dataLen

theorem Memory.DataKept.trans {mem mem' mem'' : Memory n} (h : mem.DataKept mem')
    (h' : mem'.DataKept mem'') : mem.DataKept mem'' := fun p =>
  ⟨(h' p).1.trans (h p).1, (h' p).2.1.trans (h p).2.1, (h' p).2.2.trans (h p).2.2⟩

theorem Memory.freeSeg_dataKept (mem : Memory n) (q : Fin n) : mem.DataKept (mem.freeSeg q) :=
  fun p => ⟨freeSeg_field mem q p _ (fun _ _ => rfl) fun _ _ => rfl,
    freeSeg_field mem q p _ (fun _ _ => rfl) fun _ _ => rfl,
    freeSeg_field mem q p _ (fun _ _ => rfl) fun _ _ => rfl⟩

structure Sockbuf.Empty (sb : Sockbuf k) : Prop where
  mb : sb.sbMb = none
  mbtail : sb.sbMbtail = none
  lastrecord : sb.sbLastrecord = none
  cc : sb.sbCc = 0
  mbcnt : sb.sbMbcnt = 0

namespace MbufMem

/-- The rest of the system leaves the mbufs `xs` alone, and frees nothing twice. -/
def Leaves (mem : MbufMem k n) (xs : List (Fin k)) (mem' : MbufMem k n) : Prop :=
  mem'.mbCache.Nodup ∧ ∀ x ∈ xs, mem'.mbuf x = mem.mbuf x ∧ x ∉ mem'.mbCache

instance (mem mem' : MbufMem k n) (xs : List (Fin k)) : Decidable (mem.Leaves xs mem') :=
  inferInstanceAs (Decidable (_ ∧ _))

/-- The mbuf is none of those in use, `xs`, nor free; it is in no record, and has neither `M_EXT`
nor `M_EOR`. -/
def Unused (mem : MbufMem k n) (xs : List (Fin k)) (x : Fin k) : Prop :=
  x ∉ xs ∧ x ∉ mem.mbCache ∧ (mem.mbuf x).mNextpkt = none ∧ (mem.mbuf x).mExtSize = none ∧
    (mem.mbuf x).mEor = false

instance (mem : MbufMem k n) (xs : List (Fin k)) (x : Fin k) : Decidable (mem.Unused xs x) :=
  inferInstanceAs (Decidable (_ ∧ _))

def lenOf (mem : MbufMem k n) (xs : List (Fin k)) : Nat :=
  (xs.map fun x => (mem.mbuf x).mLen).sum

def chargeOf (mem : MbufMem k n) (xs : List (Fin k)) : Int :=
  (xs.map fun x => Sockbuf.mbufCharge (mem.mbuf x)).sum

structure SameData (mem mem' : MbufMem k n) (x : Fin k) : Prop where
  type : (mem'.mbuf x).mType = (mem.mbuf x).mType
  ext : (mem'.mbuf x).mExtSize = (mem.mbuf x).mExtSize
  data : (mem'.mbuf x).mData = (mem.mbuf x).mData
  len : (mem'.mbuf x).mLen = (mem.mbuf x).mLen
  paddr : (mem'.mbuf x).mPaddr = (mem.mbuf x).mPaddr

variable {mem mem' mem'' : MbufMem k n} {x : Fin k} {xs ys : List (Fin k)}

theorem SameData.of_eq (h : mem'.mbuf x = mem.mbuf x) : SameData mem mem' x := by
  constructor <;> rw [h]

theorem SameData.trans (h : SameData mem mem' x) (h' : SameData mem' mem'' x) :
    SameData mem mem'' x :=
  ⟨h'.type.trans h.type, h'.ext.trans h.ext, h'.data.trans h.data, h'.len.trans h.len,
    h'.paddr.trans h.paddr⟩

@[simp] theorem lenOf_nil (mem : MbufMem k n) : mem.lenOf [] = 0 := rfl

@[simp] theorem lenOf_cons (mem : MbufMem k n) (x : Fin k) (xs : List (Fin k)) :
    mem.lenOf (x :: xs) = (mem.mbuf x).mLen + mem.lenOf xs := by simp [lenOf]

@[simp] theorem lenOf_append (mem : MbufMem k n) (xs ys : List (Fin k)) :
    mem.lenOf (xs ++ ys) = mem.lenOf xs + mem.lenOf ys := by simp [lenOf]

@[simp] theorem chargeOf_nil (mem : MbufMem k n) : mem.chargeOf [] = 0 := rfl

@[simp] theorem chargeOf_cons (mem : MbufMem k n) (x : Fin k) (xs : List (Fin k)) :
    mem.chargeOf (x :: xs) = mbufCharge (mem.mbuf x) + mem.chargeOf xs := by
  simp [chargeOf]

@[simp] theorem chargeOf_append (mem : MbufMem k n) (xs ys : List (Fin k)) :
    mem.chargeOf (xs ++ ys) = mem.chargeOf xs + mem.chargeOf ys := by simp [chargeOf]

theorem lenOf_congr (h : ∀ x ∈ xs, SameData mem mem' x) : mem'.lenOf xs = mem.lenOf xs := by
  have hmap : xs.map (fun x => (mem'.mbuf x).mLen) = xs.map fun x => (mem.mbuf x).mLen :=
    map_congr_left fun x hx => (h x hx).len
  rw [lenOf, lenOf, hmap]

theorem chargeOf_eq_of_ext (h : ∀ x ∈ xs, (mem'.mbuf x).mExtSize = (mem.mbuf x).mExtSize) :
    mem'.chargeOf xs = mem.chargeOf xs := by
  have hmap : xs.map (fun x => mbufCharge (mem'.mbuf x)) =
      xs.map fun x => mbufCharge (mem.mbuf x) :=
    map_congr_left fun x hx => by rw [mbufCharge, mbufCharge, h x hx]
  rw [chargeOf, chargeOf, hmap]

theorem chargeOf_congr (h : ∀ x ∈ xs, SameData mem mem' x) :
    mem'.chargeOf xs = mem.chargeOf xs :=
  chargeOf_eq_of_ext fun x hx => (h x hx).ext

theorem chargeOf_pos (mem : MbufMem k n) (hne : xs ≠ []) : 0 < mem.chargeOf xs := by
  induction xs with
  | nil => exact absurd rfl hne
  | cons x xs ih =>
    have hx : 0 < mbufCharge (mem.mbuf x) := by
      simp only [mbufCharge, mSize]
      omega
    rw [chargeOf_cons]
    by_cases hxs : xs = []
    · simpa [hxs] using hx
    · have := ih hxs
      omega

@[simp] theorem mFree_mbCache (mem : MbufMem k n) (x : Fin k) :
    (mem.mFree x).1.mbCache = x :: mem.mbCache := by
  cases hp : (mem.mbuf x).mPaddr <;> simp [mFree, hp, modify]

theorem mFree_dataKept (mem : MbufMem k n) (x : Fin k) :
    mem.rte.DataKept (mem.mFree x).1.rte := by
  cases hp : (mem.mbuf x).mPaddr with
  | none =>
    rw [mFree_rte_of_none hp]
    exact fun _ => ⟨rfl, rfl, rfl⟩
  | some p =>
    rw [mFree_rte hp]
    exact mem.rte.freeSeg_dataKept p

theorem chargeOf_sublist (mem : MbufMem k n) (h : xs.Sublist ys) :
    mem.chargeOf xs ≤ mem.chargeOf ys := by
  have hpos : ∀ m : Mbuf k n, 0 ≤ mbufCharge m := by
    intro m
    simp only [mbufCharge]
    omega
  induction h with
  | slnil => exact le_refl _
  | cons x h ih =>
    have := hpos (mem.mbuf x)
    rw [chargeOf_cons]
    omega
  | cons_cons x h ih =>
    rw [chargeOf_cons, chargeOf_cons]
    omega

theorem mFree_mNext (mem : MbufMem k n) (x : Fin k) : (mem.mFree x).1.mNext = mem.mNext := by
  funext y
  by_cases hy : y = x
  · subst hy
    cases hp : (mem.mbuf y).mPaddr <;> simp [mFree, hp, mNext]
  · simp [mNext, mFree_mbuf_of_ne mem hy]

end MbufMem

structure SbRep (mem : MbufMem k n) (sb : Sockbuf k) (xs : List (Fin k)) : Prop where
  linked : LinkedFrom mem.mNext sb.sbMb xs
  tail : sb.sbMbtail = xs.getLast?
  last : sb.sbLastrecord = sb.sbMb
  single : ∀ x ∈ xs.head?, (mem.mbuf x).mNextpkt = none
  cc : sb.sbCc = mem.lenOf xs
  mbcnt : sb.sbMbcnt = mem.chargeOf xs

theorem SbRep.congr {mem' : MbufMem k n} (h : SbRep mem sb xs)
    (heq : ∀ x ∈ xs, mem'.mbuf x = mem.mbuf x) : SbRep mem' sb xs where
  linked := h.linked.congr fun x hx => by rw [mNext, mNext, heq x hx]
  tail := h.tail
  last := h.last
  single x hx := by
    rw [heq x (mem_of_mem_head? hx)]
    exact h.single x hx
  cc := by rw [h.cc, lenOf_congr fun x hx => .of_eq (heq x hx)]
  mbcnt := by rw [h.mbcnt, chargeOf_congr fun x hx => .of_eq (heq x hx)]

structure Appended (mem : MbufMem k n) (xs ms ys : List (Fin k)) (mem' : MbufMem k n) : Prop where
  sub : ys.Sublist ms
  len : mem'.lenOf ys = mem.lenOf ms
  same : ∀ y, y ∉ ms ∨ y ∈ ys → mem.SameData mem' y
  other : ∀ y, y ∉ xs → y ∉ ms → mem'.mbuf y = mem.mbuf y
  cache : ∃ fs, mem'.mbCache = fs ++ mem.mbCache ∧ (fs ++ ys).Perm ms
  rte : mem.rte.DataKept mem'.rte

namespace Compress

structure Holds (c : Compress k n) (xs : List (Fin k)) : Prop where
  linked : LinkedFrom c.mem.mNext c.sb.sbMb xs
  tail : c.sb.sbMbtail = xs.getLast?
  n : c.n = xs.getLast?
  single : ∀ x ∈ xs.head?, (c.mem.mbuf x).mNextpkt = none
  cc : c.sb.sbCc = c.mem.lenOf xs
  mbcnt : c.sb.sbMbcnt = c.mem.chargeOf xs

variable {c : Compress k n} {x y : Fin k} {xs : List (Fin k)}

theorem Holds.n_ne (h : c.Holds xs) (hx : x ∉ xs) : c.n ≠ some x := by
  rw [h.n]
  intro hlast
  exact hx (mem_of_mem_getLast? hlast)

theorem link_mbuf_of_ne (hx : y ≠ x) (hn : c.n ≠ some y) :
    (c.link x).mem.mbuf y = c.mem.mbuf y := by
  cases hc : c.n with
  | none => simp [link, hc, modify_mbuf_of_ne _ _ hx]
  | some z =>
    have hyz : y ≠ z := fun h => hn (by rw [hc, h])
    simp [link, hc, modify_mbuf_of_ne _ _ hx, modify_mbuf_of_ne _ _ hyz]

theorem link_mbuf (c : Compress k n) (x y : Fin k) :
    ∃ a b, (c.link x).mem.mbuf y = { c.mem.mbuf y with mNext := a, mEor := b } := by
  by_cases hx : y = x
  · subst hx
    cases hc : c.n with
    | none => exact ⟨none, false, by simp [link, hc]⟩
    | some z =>
      by_cases hz : y = z
      · subst hz
        exact ⟨none, false, by simp [link, hc]⟩
      · exact ⟨none, false, by simp [link, hc, modify_mbuf_of_ne _ _ hz]⟩
  · by_cases hn : c.n = some y
    · exact ⟨some x, (c.mem.mbuf y).mEor, by simp [link, hn, modify_mbuf_of_ne _ _ hx]⟩
    · exact ⟨_, _, link_mbuf_of_ne hx hn⟩

theorem link_sameData (c : Compress k n) (x y : Fin k) : c.mem.SameData (c.link x).mem y := by
  obtain ⟨a, b, hab⟩ := link_mbuf c x y
  constructor <;> rw [hab]

theorem link_nextpkt (c : Compress k n) (x y : Fin k) :
    ((c.link x).mem.mbuf y).mNextpkt = (c.mem.mbuf y).mNextpkt := by
  obtain ⟨a, b, hab⟩ := link_mbuf c x y
  rw [hab]

theorem link_mNext_of_none (hn : c.n = none) :
    (c.link x).mem.mNext = update c.mem.mNext x none := by
  funext z
  by_cases hz : z = x
  · subst hz
    simp [link, hn, mNext]
  · simp [link, hn, mNext, modify_mbuf_of_ne _ _ hz, hz]

theorem link_mNext_of_some (hn : c.n = some y) (hxy : x ≠ y) :
    (c.link x).mem.mNext =
      update (update c.mem.mNext x none) y (some x) := by
  funext z
  by_cases hz : z = x
  · subst hz
    simp [link, hn, mNext, hxy]
  · by_cases hzy : z = y
    · subst hzy
      simp [link, hn, mNext, modify_mbuf_of_ne _ _ hz]
    · simp [link, hn, mNext, modify_mbuf_of_ne _ _ hz, modify_mbuf_of_ne _ _ hzy, hz, hzy]

theorem link_counts (hn : c.n ≠ some x) :
    (c.link x).sb.sbCc = c.sb.sbCc + (c.mem.mbuf x).mLen ∧
      (c.link x).sb.sbMbcnt = c.sb.sbMbcnt + mbufCharge (c.mem.mbuf x) := by
  cases hc : c.n with
  | none => simp [link, hc, sballoc]
  | some y =>
    have hxy : x ≠ y := fun h => hn (by rw [hc, h])
    simp [link, hc, sballoc, modify_mbuf_of_ne _ _ hxy]

theorem Holds.link (h : c.Holds xs) (hx : x ∉ xs) (hnp : (c.mem.mbuf x).mNextpkt = none) :
    (c.link x).Holds (xs ++ [x]) := by
  have hn := h.n_ne hx
  have hsame : ∀ y ∈ xs ++ [x], c.mem.SameData (c.link x).mem y := fun y _ => link_sameData c x y
  constructor
  · cases xs using List.reverseRecOn with
    | nil =>
      have hnone : c.n = none := by simpa using h.n
      rw [link_mNext_of_none hnone]
      simp [Compress.link, hnone, sballoc]
    | append_singleton ys y =>
      have hsome : c.n = some y := by simpa using h.n
      have hxy : x ≠ y := by
        intro heq
        exact hx (by simp [heq])
      have hmb : (c.link x).sb.sbMb = c.sb.sbMb := by
        simp [Compress.link, hsome, sballoc]
      rw [link_mNext_of_some hsome hxy, hmb, append_assoc]
      apply (h.linked.update_of_notMem hx).join
      · simp
      · simpa using Ne.symm hxy
  · simp [Compress.link, sballoc]
  · simp [Compress.link]
  · intro z hz
    rw [link_nextpkt]
    cases xs with
    | nil =>
      cases hz
      exact hnp
    | cons _ ws =>
      cases hz
      exact h.single z (by simp)
  · rw [(link_counts hn).1, lenOf_congr hsame, h.cc]
    simp
  · rw [(link_counts hn).2, chargeOf_congr hsame, h.mbcnt]
    simp

theorem round_cases (c : Compress k n) (x : Fin k) :
    ((c.mem.mbuf x).mLen = 0 ∧ ∃ r eor, c.round x =
      ({ c with mem := (c.mem.mFree x).1, sb := { c.sb with sbLastrecord := r }, eor := eor },
        c.mem.mNext x)) ∨ c.round x = (c.link x, c.mem.mNext x) := by
  by_cases hd : c.discards x = true
  · left
    have hzero : (c.mem.mbuf x).mLen = 0 := by
      simp only [discards, Bool.and_eq_true, beq_iff_eq] at hd
      exact hd.1
    by_cases hl : c.sb.sbLastrecord = some x
    · exact ⟨hzero, _, _, by simp only [round, hd, hl, if_true]; rfl⟩
    · exact ⟨hzero, c.sb.sbLastrecord, _, by simp only [round, hd, hl, if_true, if_false]; rfl⟩
  · by_cases hm : c.merges x = true
    · left
      have hzero : (c.mem.mbuf x).mLen = 0 := by
        cases hc : c.n with
        | none => simp [merges, hc] at hm
        | some y =>
          simp only [merges, hc, Option.any_some, Bool.and_eq_true, beq_iff_eq] at hm
          exact hm.1.2
      exact ⟨hzero, c.sb.sbLastrecord, _, by simp only [round, hd, hm, if_true]; rfl⟩
    · right
      simp [round, hd, hm, mNext]

theorem Holds.free (h : c.Holds xs) (hx : x ∉ xs) (r : Option (Fin k)) (eor : Bool) :
    Holds { c with mem := (c.mem.mFree x).1, sb := { c.sb with sbLastrecord := r }, eor := eor }
      xs := by
  have hsame : ∀ y ∈ xs, (c.mem.mFree x).1.mbuf y = c.mem.mbuf y := fun y hy =>
    c.mem.mFree_mbuf_of_ne (ne_of_mem_of_not_mem hy hx)
  constructor
  · rw [mFree_mNext]
    exact h.linked
  · exact h.tail
  · exact h.n
  · intro y hy
    rw [hsame y (mem_of_mem_head? hy)]
    exact h.single y hy
  · rw [lenOf_congr fun y hy => .of_eq (hsame y hy)]
    exact h.cc
  · rw [chargeOf_congr fun y hy => .of_eq (hsame y hy)]
    exact h.mbcnt

theorem loop_spec {ms : List (Fin k)} {m : Option (Fin k)} (h : c.Holds xs)
    (hms : LinkedFrom c.mem.mNext m ms) (hdis : ∀ x ∈ ms, x ∉ xs)
    (hnp : ∀ x ∈ ms, (c.mem.mbuf x).mNextpkt = none) (hfuel : ms.length ≤ fuel) :
    ∃ c' ys, loop fuel c m = some c' ∧ c'.Holds (xs ++ ys) ∧ Appended c.mem xs ms ys c'.mem ∧
      c'.sb.sbHiwat = c.sb.sbHiwat ∧ c'.sb.sbMbmax = c.sb.sbMbmax := by
  induction ms generalizing c m xs fuel with
  | nil =>
    cases hms
    refine ⟨c, [], by cases fuel <;> rfl, by simpa using h, ?_, rfl, rfl⟩
    exact ⟨by simp, rfl, fun y _ => .of_eq rfl, fun _ _ _ => rfl, ⟨[], by simp, by simp⟩,
      fun _ => ⟨rfl, rfl, rfl⟩⟩
  | cons x ms ih =>
    have hnd := hms.nodup
    obtain ⟨rfl, htail⟩ := hms
    obtain ⟨hx, -⟩ := nodup_cons.mp hnd
    have hxs : x ∉ xs := hdis x (by simp)
    obtain ⟨fuel, rfl, hf⟩ := exists_fuel hfuel
    have hne : ∀ y ∈ ms, y ≠ x := fun y hy => ne_of_mem_of_not_mem hy hx
    rcases round_cases c x with ⟨hzero, r, eor, hround⟩ | hround
    · have hfree : ∀ y, y ≠ x → (c.mem.mFree x).1.mbuf y = c.mem.mbuf y := fun y hy =>
        c.mem.mFree_mbuf_of_ne hy
      obtain ⟨c', ys, hloop, hholds, hc', hhiwat, hmbmax⟩ := ih (h.free hxs r eor)
        (by rw [mFree_mNext]; exact htail) (fun y hy => hdis y (by simp [hy]))
        (fun y hy => by rw [hfree y (hne y hy)]; exact hnp y (by simp [hy])) hf
      refine ⟨c', ys, by rw [loop, hround]; exact hloop, hholds,
        ⟨hc'.sub.cons x, ?_, ?_, ?_, ?_, (c.mem.mFree_dataKept x).trans hc'.rte⟩, hhiwat, hmbmax⟩
      · rw [hc'.len, lenOf_congr fun y hy => .of_eq (hfree y (hne y hy))]
        simp [hzero]
      · intro y hy
        have hyx : y ≠ x := by
          rcases hy with hy | hy
          · exact fun heq => hy (by simp [heq])
          · exact hne y (hc'.sub.subset hy)
        have hrest : y ∉ ms ∨ y ∈ ys := hy.imp (fun hy hm => hy (by simp [hm])) id
        exact (MbufMem.SameData.of_eq (hfree y hyx)).trans (hc'.same y hrest)
      · intro y hy hym
        simp only [mem_cons, not_or] at hym
        rw [hc'.other y hy hym.2, hfree y hym.1]
      · obtain ⟨fs, hcache, hperm⟩ := hc'.cache
        refine ⟨fs ++ [x], ?_, ?_⟩
        · rw [hcache]
          simp
        · rw [append_assoc]
          exact perm_middle.trans (hperm.cons x)
    · have hlink : LinkedFrom (c.link x).mem.mNext (c.mem.mNext x) ms := by
        apply htail.congr
        intro y hy
        have hn := h.n_ne (hdis y (by simp [hy]))
        rw [mNext, link_mbuf_of_ne (hne y hy) hn, mNext]
      have hdis₁ : ∀ y ∈ ms, y ∉ xs ++ [x] := by
        intro y hy hmem
        rcases mem_append.mp hmem with hmem | hmem
        · exact hdis y (by simp [hy]) hmem
        · exact hne y hy (mem_singleton.mp hmem)
      obtain ⟨c', ys, hloop, hholds, hc', hhiwat, hmbmax⟩ :=
        ih (h.link hxs (hnp x (by simp))) hlink hdis₁
        (fun y hy => by rw [link_nextpkt]; exact hnp y (by simp [hy])) hf
      have hsame : ∀ y, y ∉ ms ∨ y ∈ ys → c.mem.SameData c'.mem y := fun y hy =>
        (link_sameData c x y).trans (hc'.same y hy)
      refine ⟨c', x :: ys, by rw [loop, hround]; exact hloop, by simpa using hholds,
        ⟨hc'.sub.cons_cons x, ?_, ?_, ?_, ?_, ?_⟩, ?_, ?_⟩
      · rw [lenOf_cons, hc'.len, lenOf_congr fun y _ => link_sameData c x y,
          lenOf_cons, (hsame x (.inl hx)).len]
      · intro y hy
        apply hsame
        rcases hy with hy | hy
        · exact .inl fun hm => hy (by simp [hm])
        · rcases mem_cons.mp hy with rfl | hy
          · exact .inl hx
          · exact .inr hy
      · intro y hy hym
        simp only [mem_cons, not_or] at hym
        rw [hc'.other y (by simp [hy, hym.1]) hym.2, link_mbuf_of_ne hym.1 (h.n_ne hy)]
      · obtain ⟨fs, hcache, hperm⟩ := hc'.cache
        refine ⟨fs, ?_, perm_middle.trans (hperm.cons x)⟩
        rw [hcache]
        cases hn : c.n <;> simp [link, hn, MbufMem.modify]
      · have hrte : (c.link x).mem.rte = c.mem.rte := by cases hn : c.n <;> simp [link, hn]
        rw [← hrte]
        exact hc'.rte
      · rw [hhiwat]
        cases hn : c.n <;> simp [link, hn, sballoc]
      · rw [hmbmax]
        cases hn : c.n <;> simp [link, hn, sballoc]

theorem finish_spec (c : Compress k n) :
    c.finish.2 = c.sb ∧ c.finish.1.mbCache = c.mem.mbCache ∧ c.finish.1.rte = c.mem.rte ∧
      (∀ y, ∃ b, c.finish.1.mbuf y = { c.mem.mbuf y with mEor := b }) ∧
      ∀ y, c.n ≠ some y → c.finish.1.mbuf y = c.mem.mbuf y := by
  have hsame : ∀ y, ∃ b, c.mem.mbuf y = { c.mem.mbuf y with mEor := b } := fun y => ⟨_, rfl⟩
  by_cases hmark : c.eor = true ∧ ∃ z, c.n = some z
  · obtain ⟨heor, z, hz⟩ := hmark
    have hmem : c.finish.1 = c.mem.modify z fun m => { m with mEor := true } := by
      simp [finish, heor, hz]
    have hsb : c.finish.2 = c.sb := by simp [finish, heor, hz]
    rw [hmem, hsb]
    refine ⟨rfl, rfl, rfl, fun y => ?_, fun y hy => ?_⟩
    · by_cases hy : y = z
      · subst hy
        exact ⟨true, by simp⟩
      · rw [modify_mbuf_of_ne _ _ hy]
        exact hsame y
    · have hne : y ≠ z := by
        intro heq
        exact hy (by rw [hz, heq])
      rw [modify_mbuf_of_ne _ _ hne]
  · have hfin : c.finish = (c.mem, c.sb) := by
      cases heor : c.eor <;> cases hn : c.n <;> simp_all [finish]
    rw [hfin]
    exact ⟨rfl, rfl, rfl, hsame, fun _ _ => rfl⟩

end Compress

theorem sbappendstream_spec {ms : List (Fin k)} {x : Fin k} (h : SbRep mem sb xs)
    (hms : LinkedFrom mem.mNext (some x) ms) (hdis : ∀ y ∈ ms, y ∉ xs)
    (hnp : ∀ y ∈ ms, (mem.mbuf y).mNextpkt = none) :
    ∃ mem' sb' ys, sbappendstream mem sb slot x =
        some (mem', sb', reflectTxSocketBuf slot (mem.mbuf x).mLen) ∧
      SbRep mem' sb' (xs ++ ys) ∧ Appended mem xs ms ys mem' ∧
      sb'.sbHiwat = sb.sbHiwat ∧ sb'.sbMbmax = sb.sbMbmax := by
  have hstart : Compress.Holds { mem := mem, sb := sb, n := sb.sbMbtail } xs :=
    ⟨h.linked, h.tail, h.tail, h.single, h.cc, h.mbcnt⟩
  obtain ⟨c, ys, hloop, hholds, happ, hhiwat, hmbmax⟩ := Compress.loop_spec hstart hms hdis hnp
    (by simpa using hms.length_le)
  obtain ⟨hsb, hcache, hrte, hmark, hother⟩ := c.finish_spec
  have hdata : ∀ y, c.mem.SameData c.finish.1 y := by
    intro y
    obtain ⟨b, hb⟩ := hmark y
    constructor <;> rw [hb]
  refine ⟨c.finish.1, { c.sb with sbLastrecord := c.sb.sbMb }, ys, ?_, ?_, ?_, hhiwat, hmbmax⟩
  · simp [sbappendstream, sbcompress, hloop, ← hsb]
  · constructor
    · apply hholds.linked.congr
      intro y _
      obtain ⟨b, hb⟩ := hmark y
      rw [mNext, hb, mNext]
    · exact hholds.tail
    · rfl
    · intro y hy
      obtain ⟨b, hb⟩ := hmark y
      rw [hb]
      exact hholds.single y hy
    · rw [lenOf_congr fun y _ => hdata y]
      exact hholds.cc
    · rw [chargeOf_congr fun y _ => hdata y]
      exact hholds.mbcnt
  · obtain ⟨fs, hfs, hperm⟩ := happ.cache
    refine ⟨happ.sub, ?_, fun y hy => (happ.same y hy).trans (hdata y), fun y hy hym => ?_,
      ⟨fs, by rw [hcache, hfs], hperm⟩, by rw [hrte]; exact happ.rte⟩
    · rw [lenOf_congr fun y _ => hdata y, happ.len]
    · have hnot : y ∉ xs ++ ys := by
        intro hmem
        rcases mem_append.mp hmem with hmem | hmem
        · exact hy hmem
        · exact hym (happ.sub.subset hmem)
      rw [hother y (hholds.n_ne hnot), happ.other y hy hym]

namespace TxSlot

def InStep (t : TxSlot) : Prop := t.txSpace = wrap32 t.txExact

@[simp] theorem markWritable_txSpace (t : TxSlot) : t.markWritable.txSpace = t.txSpace := by
  cases hp : t.parentIdx <;> cases hw : t.writeReadyToApp <;> simp [markWritable, hp, hw]

@[simp] theorem markWritable_txExact (t : TxSlot) : t.markWritable.txExact = t.txExact := by
  cases hp : t.parentIdx <;> cases hw : t.writeReadyToApp <;> simp [markWritable, hp, hw]

@[simp] theorem reflect_txExact (t : TxSlot) (count : Int) :
    (t.reflect count).txExact = t.txExact + count := by
  by_cases hz : t.txSpace = 0 ∧ 0 < count <;> simp [reflect, hz]

theorem InStep.reflect {t : TxSlot} (h : t.InStep) (count : Int) : (t.reflect count).InStep := by
  have hspace : (t.reflect count).txSpace = wrap32 (t.txSpace + count) := by
    by_cases hz : t.txSpace = 0 ∧ 0 < count <;> simp [TxSlot.reflect, hz]
  rw [InStep, hspace, reflect_txExact, h]
  simp [wrap32]

end TxSlot

structure Reflected (slot : Option TxSlot) (count : Int) (slot' : Option TxSlot) : Prop where
  exact : slot'.map TxSlot.txExact = slot.map fun t => t.txExact + count
  inStep : (∀ t ∈ slot, t.InStep) → ∀ t ∈ slot', t.InStep

theorem Reflected.refl (slot : Option TxSlot) : Reflected slot 0 slot :=
  ⟨by cases slot <;> simp, id⟩

theorem Reflected.trans {slot' slot'' : Option TxSlot} {a b : Int} (h : Reflected slot a slot')
    (h' : Reflected slot' b slot'') :
    Reflected slot (a + b) slot'' := by
  refine ⟨?_, fun ht => h'.inStep (h.inStep ht)⟩
  have hmap : (slot'.map fun t => t.txExact + b) = (slot'.map TxSlot.txExact).map (· + b) := by
    cases slot' <;> rfl
  rw [h'.exact, hmap, h.exact]
  cases slot <;> simp [Int.add_assoc]

theorem reflected_reflectTxSocketBuf (slot : Option TxSlot) (count : Int) :
    Reflected slot count (reflectTxSocketBuf slot count) := by
  constructor
  · cases slot <;> simp [reflectTxSocketBuf]
  · intro h t ht
    cases slot with
    | none => simp [reflectTxSocketBuf] at ht
    | some u =>
      simp only [reflectTxSocketBuf, Option.map_some, Option.mem_def, Option.some.injEq] at ht
      rw [← ht]
      exact (h u rfl).reflect count

theorem length_le_of_nodup {xs : List (Fin k)} (h : xs.Nodup) : xs.length ≤ k := by
  simpa using h.length_le_card

structure Dropped (mem : MbufMem k n) (xs fs zs : List (Fin k)) (mem' : MbufMem k n) : Prop where
  split : xs = fs ++ zs
  other : ∀ y, y ∉ xs → mem'.mbuf y = mem.mbuf y
  cache : mem'.mbCache = fs.reverse ++ mem.mbCache
  ext : ∀ y ∈ zs, (mem'.mbuf y).mExtSize = (mem.mbuf y).mExtSize
  rte : mem.rte.DataKept mem'.rte

theorem Dropped.refl (mem : MbufMem k n) (xs : List (Fin k)) : Dropped mem xs [] xs mem :=
  ⟨rfl, fun _ _ => rfl, rfl, fun _ _ => rfl, fun _ => ⟨rfl, rfl, rfl⟩⟩

theorem Dropped.trans {mem' mem'' : MbufMem k n} {ys zs fs gs : List (Fin k)}
    (h : Dropped mem xs fs ys mem') (h' : Dropped mem' ys gs zs mem'') :
    Dropped mem xs (fs ++ gs) zs mem'' where
  split := by rw [h.split, h'.split, append_assoc]
  other y hy := by
    have hys : y ∉ ys := fun hmem => hy (by rw [h.split]; exact mem_append_right _ hmem)
    rw [h'.other y hys, h.other y hy]
  cache := by rw [h'.cache, h.cache, reverse_append, append_assoc]
  ext y hy := by
    have hys : y ∈ ys := by rw [h'.split]; exact mem_append_right _ hy
    rw [h'.ext y hy, h.ext y hys]
  rte := h.rte.trans h'.rte

namespace Drop

structure Holds (d : Drop k n) (zs : List (Fin k)) : Prop where
  linked : LinkedFrom d.mem.mNext d.m zs
  next : d.next = none
  cc : d.sb.sbCc = d.mem.lenOf zs
  mbcnt : d.sb.sbMbcnt = d.mem.chargeOf zs

variable {d : Drop k n} {x : Fin k} {xs zs : List (Fin k)}

def Keeps (d d' : Drop k n) : Prop :=
  d'.sb = { d.sb with sbCc := d'.sb.sbCc, sbMbcnt := d'.sb.sbMbcnt }

theorem Keeps.trans {d d' d'' : Drop k n} (h : Keeps d d') (h' : Keeps d' d'') : Keeps d d'' := by
  rw [Keeps] at h h' ⊢
  rw [h', h]

theorem Holds.free (h : d.Holds (x :: zs)) :
    (d.free x).Holds zs ∧ Dropped d.mem (x :: zs) [x] zs (d.free x).mem := by
  have hx : x ∉ zs := (nodup_cons.mp h.linked.nodup).1
  have hother : ∀ y, y ≠ x → (d.mem.mFree x).1.mbuf y = d.mem.mbuf y := fun y hy =>
    d.mem.mFree_mbuf_of_ne hy
  have hsame : ∀ y ∈ zs, d.mem.SameData (d.mem.mFree x).1 y := fun y hy =>
    .of_eq (hother y (ne_of_mem_of_not_mem hy hx))
  constructor
  · constructor
    · show LinkedFrom (d.mem.mFree x).1.mNext (d.mem.mNext x) zs
      rw [mFree_mNext]
      exact h.linked.2
    · exact h.next
    · show (d.sb.sbfree (d.mem.mbuf x)).sbCc = (d.mem.mFree x).1.lenOf zs
      have hcc := h.cc
      rw [lenOf_cons] at hcc
      rw [lenOf_congr hsame]
      simp only [sbfree]
      omega
    · show (d.sb.sbfree (d.mem.mbuf x)).sbMbcnt = (d.mem.mFree x).1.chargeOf zs
      have hmbcnt := h.mbcnt
      rw [chargeOf_cons] at hmbcnt
      rw [chargeOf_congr hsame]
      simp only [sbfree]
      omega
  · refine ⟨rfl, fun y hy => hother y fun heq => hy (by simp [heq]), ?_,
      fun y hy => (hsame y hy).ext, d.mem.mFree_dataKept x⟩
    show (d.mem.mFree x).1.mbCache = _
    simp

structure Runs (d : Drop k n) (xs : List (Fin k)) (count : Int) (d' : Drop k n)
    (zs : List (Fin k)) : Prop where
  holds : d'.Holds zs
  dropped : ∃ fs, Dropped d.mem xs fs zs d'.mem
  keeps : Keeps d d'
  reflected : Reflected d.slot count d'.slot

theorem Runs.refl (h : d.Holds xs) : Runs d xs 0 d xs := ⟨h, ⟨[], .refl _ _⟩, rfl, .refl _⟩

theorem Runs.trans {d' d'' : Drop k n} {ys : List (Fin k)} {a b : Int} (h : Runs d xs a d' ys)
    (h' : Runs d' ys b d'' zs) : Runs d xs (a + b) d'' zs := by
  obtain ⟨fs, hfs⟩ := h.dropped
  obtain ⟨gs, hgs⟩ := h'.dropped
  exact ⟨h'.holds, ⟨fs ++ gs, hfs.trans hgs⟩, h.keeps.trans h'.keeps,
    h.reflected.trans h'.reflected⟩

theorem Holds.trim (h : d.Holds (x :: zs)) (hlen : len ≤ (d.mem.mbuf x).mLen) :
    Runs d (x :: zs) len (d.trim x len) (x :: zs) := by
  have hx : x ∉ zs := (nodup_cons.mp h.linked.nodup).1
  have hother : ∀ y, y ≠ x → (d.trim x len).mem.mbuf y = d.mem.mbuf y := by
    intro y hy
    simp [Drop.trim, modify_mbuf_of_ne _ _ hy]
  have hsame : ∀ y ∈ zs, d.mem.SameData (d.trim x len).mem y := fun y hy =>
    .of_eq (hother y (ne_of_mem_of_not_mem hy hx))
  have hself : (d.trim x len).mem.mbuf x = { d.mem.mbuf x with
      mLen := (d.mem.mbuf x).mLen - len, mData := (d.mem.mbuf x).mData + len } := by
    simp [Drop.trim]
  constructor
  · constructor
    · apply h.linked.congr
      intro y _
      by_cases hy : y = x
      · subst hy
        rw [mNext, hself, mNext]
      · rw [mNext, hother y hy, mNext]
    · exact h.next
    · have hcc := h.cc
      rw [lenOf_cons] at hcc
      rw [lenOf_cons, hself, lenOf_congr hsame]
      simp only [Drop.trim]
      omega
    · rw [chargeOf_cons, hself, chargeOf_congr hsame]
      exact h.mbcnt.trans (chargeOf_cons d.mem x zs)
  · refine ⟨[], rfl, fun y hy => hother y ?_, rfl, fun y hy => ?_, fun _ => ⟨rfl, rfl, rfl⟩⟩
    · intro heq
      exact hy (by simp [heq])
    · by_cases hyx : y = x
      · rw [hyx, hself]
      · rw [hother y hyx]
  · rfl
  · exact reflected_reflectTxSocketBuf d.slot len

/-- What the two loops of `sbdrop` keep, with the bytes still to drop, the mbufs left of the record
at hand and the records behind it. -/
structure Keeping (I : Drop k n → Nat → List (Fin k) → List (List (Fin k)) → Prop) : Prop where
  head : ∀ {d len xs rs}, I d len xs rs → d.m = xs.head?
  nodup : ∀ {d len xs rs}, I d len xs rs → (xs ++ rs.flatten).Nodup
  length_le : ∀ {d len xs rs}, I d len xs rs → rs.length ≤ rs.flatten.length
  next : ∀ {d len rs}, I d (len + 1) [] rs → ∃ x ys ss, d.next = some x ∧ rs = (x :: ys) :: ss ∧
    I { d with m := some x, next := (d.mem.mbuf x).mNextpkt } (len + 1) (x :: ys) ss
  trim : ∀ {d len x xs rs}, I d len (x :: xs) rs → len < (d.mem.mbuf x).mLen →
    I (d.trim x len) 0 (x :: xs) rs
  free : ∀ {d len x xs rs slot}, I d len (x :: xs) rs → (d.mem.mbuf x).mLen ≤ len →
    Reflected d.slot (d.mem.mbuf x).mLen slot →
    I ({ d with slot := slot }.free x) (len - (d.mem.mbuf x).mLen) xs rs

namespace Keeping

variable {I : Drop k n → Nat → List (Fin k) → List (List (Fin k)) → Prop} {rs : List (List (Fin k))}

theorem bytes (h : Keeping I) (hI : I d len xs rs)
    (hfuel : (xs ++ rs.flatten).length + rs.length ≤ fuel) :
    ∃ d' ys ss, d.bytes fuel len = some d' ∧ I d' 0 ys ss := by
  induction fuel generalizing d len xs rs with
  | zero =>
    cases len with
    | zero => exact ⟨d, xs, rs, rfl, hI⟩
    | succ len =>
      obtain ⟨⟨rfl, -⟩, rfl⟩ : (xs = [] ∧ _) ∧ rs = [] := by simpa using hfuel
      obtain ⟨_, _, _, -, hnil, -⟩ := h.next hI
      cases hnil
  | succ fuel ih =>
    have hm := h.head hI
    cases len with
    | zero => exact ⟨d, xs, rs, rfl, hI⟩
    | succ len =>
      cases xs with
      | nil =>
        obtain ⟨x, ys, ss, hnext, rfl, hI'⟩ := h.next hI
        obtain ⟨d', zs, ts, hbytes, hd'⟩ := ih hI' (by simp at hfuel ⊢; omega)
        exact ⟨d', zs, ts, by simpa [Drop.bytes, hm, hnext] using hbytes, hd'⟩
      | cons x xs =>
        by_cases hpart : len + 1 < (d.mem.mbuf x).mLen
        · exact ⟨_, x :: xs, rs, by simp [Drop.bytes, hm, hpart], h.trim hI hpart⟩
        · obtain ⟨d', zs, ts, hbytes, hd'⟩ := ih
            (h.free hI (not_lt.mp hpart) (reflected_reflectTxSocketBuf d.slot _))
            (by simp at hfuel ⊢; omega)
          exact ⟨d', zs, ts, by simpa [Drop.bytes, hm, hpart] using hbytes, hd'⟩

theorem empties (h : Keeping I) (hI : I d 0 xs rs) (hfuel : xs.length ≤ fuel) :
    ∃ d' ys, d.empties fuel = some d' ∧ I d' 0 ys rs ∧
      ∀ x ∈ ys.head?, (d'.mem.mbuf x).mLen ≠ 0 := by
  have hm := h.head hI
  induction xs generalizing d fuel with
  | nil => exact ⟨d, [], by cases fuel <;> simp [Drop.empties, hm], hI, by simp⟩
  | cons x xs ih =>
    by_cases hzero : (d.mem.mbuf x).mLen = 0
    · obtain ⟨fuel, rfl, hf⟩ := exists_fuel hfuel
      have hslot : Reflected d.slot (d.mem.mbuf x).mLen d.slot := by
        rw [hzero]
        exact .refl d.slot
      have hfree : I (d.free x) (0 - (d.mem.mbuf x).mLen) xs rs := h.free hI hzero.le hslot
      rw [Nat.zero_sub] at hfree
      obtain ⟨d', ys, hemp, hd'⟩ := ih hfree hf (h.head hfree)
      exact ⟨d', ys, by simp [Drop.empties, hm, hzero, hemp], hd'⟩
    · refine ⟨d, x :: xs, ?_, hI, by simpa using hzero⟩
      cases fuel <;> simp [Drop.empties, hm, hzero]

/-- Every mbuf of the buffer is visited once, so both loops end. -/
theorem sbdrop (h : Keeping I) (mem : MbufMem k n) (sb : Sockbuf k) (slot : Option TxSlot)
    (hI : I ⟨mem, sb, slot, sb.sbMb, sb.sbMb.bind fun x => (mem.mbuf x).mNextpkt⟩ len xs rs) :
    ∃ d ys ss, sbdrop mem sb slot len = some d.settle ∧ I d 0 ys ss ∧
      ∀ x ∈ ys.head?, (d.mem.mbuf x).mLen ≠ 0 := by
  have hcard := length_le_of_nodup (h.nodup hI)
  have hrs := h.length_le hI
  rw [length_append] at hcard
  have hfuel : (xs ++ rs.flatten).length + rs.length ≤ 2 * k + 1 := by
    rw [length_append]
    omega
  obtain ⟨d₁, ys, ss, hbytes, hd₁⟩ := h.bytes hI hfuel
  have hcard₁ := length_le_of_nodup (h.nodup hd₁)
  rw [length_append] at hcard₁
  obtain ⟨d₂, zs, hemp, hd₂⟩ := h.empties hd₁ (show ys.length ≤ k by omega)
  exact ⟨d₂, zs, ss, by simp [NetbsdDpdk.sbdrop, hbytes, hemp], hd₂⟩

end Keeping

theorem lenOf_free (d : Drop k n) (hx : x ∉ xs) : (d.free x).mem.lenOf xs = d.mem.lenOf xs :=
  lenOf_congr fun _ hy => .of_eq (d.mem.mFree_mbuf_of_ne (ne_of_mem_of_not_mem hy hx))

theorem keeping_runs (d₀ : Drop k n) (xs₀ : List (Fin k)) (total : Nat) :
    Keeping fun d len xs rs => rs = [] ∧ Runs d₀ xs₀ (total - len : Int) d xs ∧
      len ≤ d.mem.lenOf xs ∧ d.mem.lenOf xs + total = d₀.mem.lenOf xs₀ + len where
  head h := h.2.1.holds.linked.head?_eq.symm
  nodup h := by simpa [h.1] using h.2.1.holds.linked.nodup
  length_le h := by simp [h.1]
  next h := by simpa using h.2.2.1
  trim := by
    rintro d len x xs rs ⟨hrs, hruns, hle, htotal⟩ hlt
    have ht := hruns.holds.trim (le_of_lt hlt)
    have hcc := ht.holds.cc
    have hcc' := hruns.holds.cc
    simp only [Drop.trim] at hcc
    refine ⟨hrs, ?_, Nat.zero_le _, ?_⟩
    · rw [show (total - (0 : Nat) : Int) = total - len + len by omega]
      exact hruns.trans ht
    · simp only [Drop.trim]
      omega
  free := by
    rintro d len x xs rs slot ⟨hrs, hruns, hle, htotal⟩ hlen hslot
    obtain ⟨hfree, hdrop⟩ := Holds.free (d := { d with slot := slot })
      ⟨hruns.holds.linked, hruns.holds.next, hruns.holds.cc, hruns.holds.mbcnt⟩
    have hrest : ({ d with slot := slot }.free x).mem.lenOf xs = d.mem.lenOf xs :=
      lenOf_free _ (nodup_cons.mp hruns.holds.linked.nodup).1
    rw [lenOf_cons] at hle htotal
    refine ⟨hrs, ?_, by rw [hrest]; omega, by rw [hrest]; omega⟩
    have hfirst : Runs d (x :: xs) (d.mem.mbuf x).mLen ({ d with slot := slot }.free x) xs :=
      ⟨hfree, ⟨[x], hdrop⟩, rfl, hslot⟩
    rw [show (total - (len - (d.mem.mbuf x).mLen : Nat) : Int) =
      total - len + (d.mem.mbuf x).mLen by omega]
    exact hruns.trans hfirst

theorem settle_spec (h : d.Holds zs) (htail : zs ≠ [] → d.sb.sbMbtail = zs.getLast?) :
    SbRep d.settle.1 d.settle.2.1 zs ∧ d.settle.2.2 = d.slot ∧
      d.settle.2.1.sbHiwat = d.sb.sbHiwat ∧ d.settle.2.1.sbMbmax = d.sb.sbMbmax ∧
      d.settle.1.mbCache = d.mem.mbCache ∧ d.settle.1.rte = d.mem.rte ∧
      ∀ y, ∃ np, d.settle.1.mbuf y = { d.mem.mbuf y with mNextpkt := np } ∧
        (y ∉ zs → d.settle.1.mbuf y = d.mem.mbuf y) := by
  cases zs with
  | nil =>
    have hm : d.m = none := h.linked
    have hset : d.settle = (d.mem, { d.sb with
        sbMb := none, sbMbtail := none, sbLastrecord := none }, d.slot) := by
      simp [settle, hm, h.next]
    rw [hset]
    exact ⟨⟨rfl, rfl, rfl, by simp, h.cc, h.mbcnt⟩, rfl, rfl, rfl, rfl, rfl,
      fun y => ⟨_, rfl, fun _ => rfl⟩⟩
  | cons x zs =>
    have hm : d.m = some x := h.linked.1
    obtain ⟨mem', hmem'⟩ : ∃ mem', d.mem.modify x (fun m => { m with mNextpkt := none }) = mem' :=
      ⟨_, rfl⟩
    have hset : d.settle =
        (mem', { d.sb with sbMb := some x, sbLastrecord := some x }, d.slot) := by
      rw [← hmem']
      simp [settle, hm, h.next]
    have hself : mem'.mbuf x = { d.mem.mbuf x with mNextpkt := none } := by
      rw [← hmem', modify_mbuf_self]
    have hother : ∀ y, y ≠ x → mem'.mbuf y = d.mem.mbuf y := by
      intro y hy
      rw [← hmem', modify_mbuf_of_ne _ _ hy]
    have hsame : ∀ y, ∃ np, mem'.mbuf y = { d.mem.mbuf y with mNextpkt := np } := by
      intro y
      by_cases hy : y = x
      · subst hy
        exact ⟨none, hself⟩
      · exact ⟨_, hother y hy⟩
    have hdata : ∀ y, d.mem.SameData mem' y := by
      intro y
      obtain ⟨np, hnp⟩ := hsame y
      constructor <;> rw [hnp]
    rw [hset]
    refine ⟨⟨?_, htail (by simp), rfl, ?_, ?_, ?_⟩, rfl, rfl, rfl, by rw [← hmem']; rfl,
      by rw [← hmem']; rfl, ?_⟩
    · rw [← hm]
      apply h.linked.congr
      intro y _
      obtain ⟨np, hnp⟩ := hsame y
      rw [mNext, hnp, mNext]
    · intro y hy
      cases hy
      rw [hself]
    · rw [lenOf_congr fun y _ => hdata y]
      exact h.cc
    · rw [chargeOf_congr fun y _ => hdata y]
      exact h.mbcnt
    · intro y
      obtain ⟨np, hnp⟩ := hsame y
      exact ⟨np, hnp, fun hy => hother y fun heq => hy (by simp [heq])⟩

end Drop

theorem sbdrop_spec (h : SbRep mem sb xs) (hlen : len ≤ mem.lenOf xs) :
    ∃ mem' sb' slot' fs zs, sbdrop mem sb slot len = some (mem', sb', slot') ∧
      SbRep mem' sb' zs ∧ Dropped mem xs fs zs mem' ∧ mem'.lenOf zs + len = mem.lenOf xs ∧
      Reflected slot len slot' ∧ sb'.sbHiwat = sb.sbHiwat ∧ sb'.sbMbmax = sb.sbMbmax ∧
      ∀ x ∈ zs.head?, (mem'.mbuf x).mLen ≠ 0 := by
  have hnext : (sb.sbMb.bind fun x => (mem.mbuf x).mNextpkt) = none := by
    rw [← h.linked.head?_eq]
    cases hxs : xs.head? with
    | none => rfl
    | some x => exact h.single x hxs
  have hstart : Drop.Holds
      ⟨mem, sb, slot, sb.sbMb, sb.sbMb.bind fun x => (mem.mbuf x).mNextpkt⟩ xs :=
    ⟨h.linked, hnext, h.cc, h.mbcnt⟩
  obtain ⟨d₂, zs, ss, hsbdrop, ⟨-, hruns, -, htotal⟩, hhead⟩ :=
    (Drop.keeping_runs _ xs len).sbdrop mem sb slot
      ⟨rfl, by rw [sub_self]; exact .refl hstart, hlen, rfl⟩
  simp only [Nat.cast_zero, sub_zero, add_zero] at hruns htotal
  obtain ⟨fs, hdrop⟩ := hruns.dropped
  have htail : zs ≠ [] → d₂.sb.sbMbtail = zs.getLast? := by
    intro hne
    have hkeep : d₂.sb.sbMbtail = sb.sbMbtail := by rw [hruns.keeps]
    rw [hkeep, h.tail, hdrop.split, getLast?_append_of_ne_nil _ hne]
  obtain ⟨hrep, hslot, hhiwat, hmbmax, hcache, hrte, hmbuf⟩ := Drop.settle_spec hruns.holds htail
  have hdata : ∀ y, d₂.mem.SameData d₂.settle.1 y := by
    intro y
    obtain ⟨np, hnp, -⟩ := hmbuf y
    constructor <;> rw [hnp]
  refine ⟨d₂.settle.1, d₂.settle.2.1, d₂.slot, fs, zs, ?_, hrep, ?_, ?_, ?_, ?_, ?_, ?_⟩
  · rw [hsbdrop, ← hslot]
  · refine ⟨hdrop.split, fun y hy => ?_, by rw [hcache, hdrop.cache],
      fun y hy => by rw [(hdata y).ext, hdrop.ext y hy], by rw [hrte]; exact hdrop.rte⟩
    have hyz : y ∉ zs := fun hmem => hy (by rw [hdrop.split]; exact mem_append_right _ hmem)
    obtain ⟨np, -, hsame⟩ := hmbuf y
    rw [hsame hyz, hdrop.other y hy]
  · rw [lenOf_congr fun y _ => hdata y]
    omega
  · exact hruns.reflected
  · rw [hhiwat, hruns.keeps]
  · rw [hmbmax, hruns.keeps]
  · intro x hx
    rw [(hdata x).len]
    exact hhead x hx

theorem sbflush_spec (h : SbRep mem sb xs) (hlen : mem.lenOf xs < 2147483648) :
    ∃ mem' sb' slot', sbflush (fuel + 1) mem sb slot = some (mem', sb', slot') ∧
      SbRep mem' sb' [] ∧ Dropped mem xs xs [] mem' ∧ Reflected slot (mem.lenOf xs) slot' ∧
      sb'.sbHiwat = sb.sbHiwat ∧ sb'.sbMbmax = sb.sbMbmax := by
  by_cases hxs : xs = []
  · subst hxs
    have hzero : sb.sbMbcnt = 0 := h.mbcnt
    exact ⟨mem, sb, slot, by simp [sbflush, hzero], h, .refl _ _, .refl _, rfl, rfl⟩
  · have hcc : (wrap32 sb.sbCc).toNat = mem.lenOf xs := by
      rw [h.cc, wrap32, Int.bmod_eq_of_le (by omega) (by omega)]
      rfl
    have hpos : sb.sbMbcnt ≠ 0 := by
      rw [h.mbcnt]
      exact ne_of_gt (mem.chargeOf_pos hxs)
    obtain ⟨mem', sb', slot', fs, zs, hdrop, hrep, hdropped, htotal, hrefl, hhiwat, hmbmax,
      hhead⟩ := sbdrop_spec h (le_refl (mem.lenOf xs))
    have hzs : zs = [] := by
      cases zs with
      | nil => rfl
      | cons x zs =>
        have hx := hhead x (by simp)
        rw [lenOf_cons] at htotal
        omega
    subst hzs
    have hfs : fs = xs := by simpa using hdropped.split.symm
    have hzero : sb'.sbMbcnt = 0 := hrep.mbcnt
    refine ⟨mem', sb', slot', ?_, hrep, hfs ▸ hdropped, hrefl, hhiwat, hmbmax⟩
    rw [sbflush, if_neg hpos, hcc]
    cases fuel <;> simp [hdrop, sbflush, hzero]

end NetbsdDpdk
