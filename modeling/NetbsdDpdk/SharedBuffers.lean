import Mathlib.Data.List.GetD
import NetbsdDpdk.BufferAccounts
import NetbsdDpdk.DeviceTransmit
import NetbsdDpdk.Transition

/-! Packet buffers that mbufs and the driver share: every sequence of allocations, copies, drops,
frees and transmissions, and which packet buffers are back in their mempools after it. -/

namespace NetbsdDpdk

open List Memory Function

open MbufMem

open CloneMem

variable {k n : Nat} {rte : Memory n} {pool fuel len i : Nat}

theorem Memory.pktmbufAlloc_next {rte' : Memory n} {p : Fin n}
    (h : rte.pktmbufAlloc pool = some (p, rte')) :
    rte'.next p = none ∧ ∀ q, q ≠ p → rte'.next q = rte.next q := by
  cases hfind : rte.mempool.find? fun e => e.1 == pool with
  | none => simp [pktmbufAlloc, hfind] at h
  | some e =>
    simp only [pktmbufAlloc, hfind, Option.some.injEq, Prod.mk.injEq] at h
    obtain ⟨rfl, rfl⟩ := h
    exact ⟨by simp [next], fun q hq => by simp [next, modify_cell_of_ne _ _ hq]⟩

theorem Memory.pktmbufAlloc_of_available (h : 0 < rte.available pool) :
    ∃ p rte', rte.pktmbufAlloc pool = some (p, rte') ∧ (rte'.cell p).dataOff = 128 := by
  obtain ⟨e, he, -⟩ := exists_of_available h
  cases halloc : rte.pktmbufAlloc pool with
  | none => simp [pktmbufAlloc, he] at halloc
  | some r =>
    refine ⟨r.1, r.2, rfl, ?_⟩
    simp only [pktmbufAlloc, he, Option.some.injEq] at halloc
    simp [← halloc]

namespace CloneMem

def dropBytes : Nat → CloneMem k n → Option (Fin k) → Nat → Option (CloneMem k n × Option (Fin k))
  | _, m, p, 0 => some (m, p)
  | 0, _, _, _ + 1 => none
  | fuel + 1, m, p, len + 1 =>
    match p with
    | none => none
    | some x =>
      let mLen := (m.mem.mbuf x).mLen
      if len + 1 < mLen then
        let mem := m.mem.modify x fun b =>
          { b with mLen := b.mLen - (len + 1), mData := b.mData + (len + 1 : Nat) }
        some ({ m with mem }, some x)
      else dropBytes fuel (m.mFree x).1 (m.mFree x).2 (len + 1 - mLen)

def dropEmpties : Nat → CloneMem k n → Option (Fin k) → Option (CloneMem k n × Option (Fin k))
  | _, m, none => some (m, none)
  | fuel, m, some x =>
    if (m.mem.mbuf x).mLen = 0 then
      match fuel with
      | 0 => none
      | fuel + 1 => dropEmpties fuel (m.mFree x).1 (m.mFree x).2
    else some (m, some x)

end CloneMem

/-- The mbufs and packet buffers, with the chains that the stack holds and the packets that the
driver has not sent yet. A chain without mbufs is a NULL pointer. -/
structure ShareState (k n : Nat) where
  m : CloneMem k n
  chains : List (List (Fin k)) := []
  flights : List (List (Fin n)) := []

namespace ShareState

def chain (s : ShareState k n) (i : Nat) : List (Fin k) := s.chains.getD i []

def inUse (s : ShareState k n) : List (Fin n) := s.m.paddrs s.chains.flatten ++ s.flights.flatten

def referenced (s : ShareState k n) : List (Fin n) := s.inUse ++ s.inUse.map s.m.owner

end ShareState

inductive ShareAction
  | get (pool : Nat) (type : MbufType) (len : Nat)
  | devget (pool : Nat) (buf : Nat → UInt8) (len : Nat)
  | join (i j : Nat)
  | copym (i pool off len : Nat)
  | sbdrop (i len : Nat)
  | freem (i : Nat)
  | transmit (i : Nat)
  | complete (i : Nat)

/-- One step. `get` is `m_get` with the caller's `m_len`, `devget` is `poll_rx` for one packet,
`join` links a chain behind another, `transmit` is a round of `dpdk_if_start` for a packet that the
driver takes, and `complete` is `rte_pktmbuf_free` of the driver. `none` for a panic, the `exit` of
`m_get` and an access through a null pointer. -/
def shareStep (s : ShareState k n) : ShareAction → Option (ShareState k n)
  | .get pool type len =>
    (s.m.mem.mGet pool type).map fun r =>
      match r.1 with
      | none => { s with m := { s.m with mem := r.2 } }
      | some x =>
        { s with
          m := { s.m with mem := r.2.modify x fun b => { b with mLen := len } }
          chains := [x] :: s.chains }
  | .devget pool buf len =>
    (s.m.mem.rte.pktmbufAlloc pool).bind fun r =>
      let rte := r.2.modify r.1 fun c => { c with buf, dataLen := len, pktLen := len }
      let m := s.m.updateRte fun _ => rte
      match m.mem.mDevget (rte.cell r.1).dataOff (rte.cell r.1).dataLen r.1 with
      | none => (freeChain n m (some r.1)).map fun m => { s with m }
      | some (x, mem) => some { s with m := { m with mem }, chains := [x] :: s.chains }
  | .join i j =>
    let rest := s.chains.eraseIdx i
    (s.chain i).getLast?.map fun x =>
      { s with
        m := { s.m with
          mem := s.m.mem.modify x fun b => { b with mNext := (rest.getD j []).head? } }
        chains := (s.chain i ++ rest.getD j []) :: rest.eraseIdx j }
  | .copym i pool off len => do
    let (top, _, m) ← s.m.mCopym pool (s.chain i).head? off len
    let ys ← walkFrom m.mem.mNext k top
    return { s with m, chains := ys :: s.chains }
  | .sbdrop i len => do
    let (m, p) ← s.m.dropBytes k (s.chain i).head? len
    let (m, p) ← m.dropEmpties k p
    let ys ← walkFrom m.mem.mNext k p
    return { s with m, chains := ys :: s.chains.eraseIdx i }
  | .freem i => do
    let m ← s.m.mFreem k (s.chain i).head?
    return { s with m, chains := s.chains.eraseIdx i }
  | .transmit i => do
    let x ← (s.chain i).head?
    let head ← (s.m.mem.mbuf x).mPaddr
    let mem ← IfState.chainPacket k s.m.mem head none (some x)
    let m ← mFreem k { s.m with mem } (some x)
    return {
      m, chains := s.chains.eraseIdx i, flights := s.m.paddrs (s.chain i) :: s.flights }
  | .complete i => do
    let m ← freeChain n s.m (s.flights.getD i []).head?
    return { s with m, flights := s.flights.eraseIdx i }

def Mbuf.InRoom (b : Mbuf k n) : Prop :=
  b.mExtSize = none ∧ 0 ≤ b.mData ∧ b.mData + b.mLen ≤ mbufSize

namespace CloneMem

def Single (m : CloneMem k n) (y : Fin k) : Prop :=
  ∀ p, (m.mem.mbuf y).mPaddr = some p → m.mem.rte.next p = none ∧
    (m.attached p = none → (m.mem.mbuf y).InRoom)

structure SharedBy (m : CloneMem k n) (chains : List (List (Fin k)))
    (flights : List (List (Fin n))) :
    Prop where
  accounts : Accounts m (m.paddrs chains.flatten ++ flights.flatten)
  mbufs : (chains.flatten ++ m.mem.mbCache).Nodup
  linked : ∀ c ∈ chains, LinkedFrom m.mem.mNext c.head? c
  single : ∀ y ∈ chains.flatten, Single m y
  segments : ∀ f ∈ flights, LinkedFrom m.mem.rte.next f.head? f

variable {m m' : CloneMem k n} {chains chains' : List (List (Fin k))}
  {flights flights' : List (List (Fin n))} {c : List (Fin k)} {f : List (Fin n)} {x y : Fin k}
  {p : Fin n}

theorem paddrs_append (m : CloneMem k n) (ys zs : List (Fin k)) :
    m.paddrs (ys ++ zs) = m.paddrs ys ++ m.paddrs zs := filterMap_append

theorem paddrs_congr {ys : List (Fin k)} (h : ∀ y ∈ ys, m'.mem.mbuf y = m.mem.mbuf y) :
    m'.paddrs ys = m.paddrs ys := filterMap_congr fun y hy => by rw [h y hy]

theorem paddrs_cons_eq (m : CloneMem k n) (y : Fin k) (ys : List (Fin k)) :
    m.paddrs (y :: ys) = (m.mem.mbuf y).mPaddr.toList ++ m.paddrs ys := by
  cases hp : (m.mem.mbuf y).mPaddr <;> simp [paddrs, hp]

theorem Single.congr (h : Single m y) (hmbuf : m'.mem.mbuf y = m.mem.mbuf y)
    (hatt : ∀ p, (m.mem.mbuf y).mPaddr = some p → m'.attached p = m.attached p)
    (hnext : ∀ p, (m.mem.mbuf y).mPaddr = some p → m'.mem.rte.next p = m.mem.rte.next p) :
    Single m' y := by
  intro p hp
  rw [hmbuf] at hp ⊢
  rw [hatt p hp, hnext p hp]
  exact h p hp

namespace SharedBy

theorem perm (h : SharedBy m chains flights) (hc : chains.Perm chains')
    (hf : flights.Perm flights') : SharedBy m chains' flights' := by
  have hflat := hc.flatten
  refine ⟨h.accounts.perm ((hflat.filterMap _).append hf.flatten), ?_, ?_, ?_, ?_⟩
  · exact (hflat.append_right _).nodup_iff.mp h.mbufs
  · exact fun c hmem => h.linked c (hc.mem_iff.mpr hmem)
  · exact fun y hy => h.single y (hflat.mem_iff.mpr hy)
  · exact fun f hmem => h.segments f (hf.mem_iff.mpr hmem)

theorem nil_chain : SharedBy m ([] :: chains) flights ↔ SharedBy m chains flights :=
  ⟨fun h => ⟨h.accounts, h.mbufs, fun c hc => h.linked c (.tail _ hc), h.single, h.segments⟩,
    fun h => ⟨h.accounts, h.mbufs, forall_mem_cons.mpr ⟨rfl, h.linked⟩, h.single, h.segments⟩⟩

theorem nil_flight : SharedBy m chains ([] :: flights) ↔ SharedBy m chains flights :=
  ⟨fun h => ⟨h.accounts, h.mbufs, h.linked, h.single, fun f hf => h.segments f (.tail _ hf)⟩,
    fun h => ⟨h.accounts, h.mbufs, h.linked, h.single, forall_mem_cons.mpr ⟨rfl, h.segments⟩⟩⟩

theorem pick (h : SharedBy m chains flights) (i : Nat) :
    SharedBy m (chains.getD i [] :: chains.eraseIdx i) flights := by
  rcases Nat.lt_or_ge i chains.length with hi | hi
  · rw [getD_eq_getElem _ _ hi]
    exact h.perm (getElem_cons_eraseIdx_perm hi).symm (.refl _)
  · rw [getD_eq_default _ _ hi, eraseIdx_of_length_le hi]
    exact nil_chain.mpr h

theorem pickFlight (h : SharedBy m chains flights) (i : Nat) :
    SharedBy m chains (flights.getD i [] :: flights.eraseIdx i) := by
  rcases Nat.lt_or_ge i flights.length with hi | hi
  · rw [getD_eq_getElem _ _ hi]
    exact h.perm (.refl _) (getElem_cons_eraseIdx_perm hi).symm
  · rw [getD_eq_default _ _ hi, eraseIdx_of_length_le hi]
    exact nil_flight.mpr h

theorem mFree (h : SharedBy m ((y :: c) :: chains) flights) :
    SharedBy (m.mFree y).1 (c :: chains) flights := by
  have hflat : ((y :: c) :: chains).flatten = y :: (c :: chains).flatten := rfl
  obtain ⟨hacc, hnd, hlinked, hsingle, hsegments⟩ := h
  rw [hflat] at hnd hsingle
  rw [hflat, paddrs_cons_eq, append_assoc] at hacc
  have hy : y ∉ (c :: chains).flatten := fun hmem =>
    (nodup_cons.mp hnd).1 (mem_append_left _ hmem)
  have hmbuf : ∀ z ∈ (c :: chains).flatten, (m.mFree y).1.mem.mbuf z = m.mem.mbuf z := fun z hz =>
    mFree_mbuf_of_ne m (ne_of_mem_of_not_mem hz hy)
  have hother : ∀ q ∈ m.paddrs (c :: chains).flatten ++ flights.flatten,
      (m.mem.mbuf y).mPaddr ≠ some q := fun q hq heq =>
    (nodup_append'.mp hacc.nodup).2.2 (by simp [heq]) hq
  refine ⟨?_, ?_, ?_, ?_, ?_⟩
  · rw [paddrs_congr hmbuf]
    exact hacc.mFree
  · rw [mFree_mbCache]
    exact perm_middle.symm.nodup_iff.mp hnd
  · rw [mFree_mNext]
    obtain ⟨hfirst, hrest⟩ := forall_mem_cons.mp hlinked
    refine forall_mem_cons.mpr ⟨?_, hrest⟩
    have htail := hfirst.2
    rw [htail.head?_eq]
    exact htail
  · intro z hz
    refine (hsingle z (.tail _ hz)).congr (hmbuf z hz) (fun q hq => ?_) (fun q hq => ?_)
    · exact mFree_attached m (hother q (mem_append_left _ (mem_paddrs hz hq)))
    · exact mFree_next m (hother q (mem_append_left _ (mem_paddrs hz hq)))
  · intro f hf
    refine (hsegments f hf).congr fun q hq => mFree_next m (hother q ?_)
    exact mem_append_right _ (mem_flatten.mpr ⟨f, hf, hq⟩)

theorem mFree_keeps (h : SharedBy m ((y :: c) :: chains) flights) {z : Fin k}
    (hz : z ∈ (c :: chains).flatten) : Keeps m (m.mFree y).1 z := by
  have hflat : ((y :: c) :: chains).flatten = y :: (c :: chains).flatten := rfl
  have hacc := h.accounts.nodup
  rw [hflat, paddrs_cons_eq, append_assoc] at hacc
  have hzy : z ≠ y := by
    rintro rfl
    exact (nodup_cons.mp h.mbufs).1 (mem_append_left _ hz)
  refine ⟨mFree_mbuf_of_ne m hzy, ?_, mFree_buf m y⟩
  refine dataBuffer_congr (by rw [mFree_mbuf_of_ne m hzy]) fun q hq =>
    mFree_attached m fun heq => ?_
  exact (nodup_append'.mp hacc).2.2 (by simp [heq]) (mem_append_left _ (mem_paddrs hz hq))

theorem mFree_succ (h : SharedBy m ((y :: c) :: chains) flights) : (m.mFree y).2 = c.head? := by
  have hlinked := h.linked (y :: c) (by simp)
  exact hlinked.2.head?_eq.symm

theorem mFreem (h : SharedBy m (c :: chains) flights) (hfuel : c.length ≤ fuel) :
    ∃ m', CloneMem.mFreem fuel m c.head? = some m' ∧ SharedBy m' chains flights ∧
      ∀ z ∈ chains.flatten, Keeps m m' z := by
  induction c generalizing m fuel with
  | nil =>
    exact ⟨m, by cases fuel <;> rfl, nil_chain.mp h, fun _ _ => ⟨rfl, rfl, fun _ => rfl⟩⟩
  | cons y c ih =>
    obtain ⟨fuel, rfl, hf⟩ := exists_fuel hfuel
    obtain ⟨m', hfree, hdone, hmbuf⟩ := ih h.mFree hf
    have hnext := h.mFree_succ
    refine ⟨m', ?_, hdone, fun z hz => ?_⟩
    · rw [← hnext] at hfree
      exact hfree
    · have hkeep : Keeps m (m.mFree y).1 z := h.mFree_keeps (mem_append_right _ hz)
      exact hkeep.trans (hmbuf z hz)

theorem of_modify {g : Mbuf k n → Mbuf k n} (h : SharedBy m chains flights)
    (hpaddr : (g (m.mem.mbuf y)).mPaddr = (m.mem.mbuf y).mPaddr)
    (hroom : (m.mem.mbuf y).InRoom → (g (m.mem.mbuf y)).InRoom)
    (hflat : chains'.flatten = chains.flatten)
    (hlinked : ∀ c ∈ chains', LinkedFrom (m.mem.modify y g).mNext c.head? c) :
    SharedBy { m with mem := m.mem.modify y g } chains' flights := by
  have hsame : ∀ z, ((m.mem.modify y g).mbuf z).mPaddr = (m.mem.mbuf z).mPaddr := by
    intro z
    by_cases hz : z = y
    · rw [hz, modify_mbuf_self, hpaddr]
    · rw [modify_mbuf_of_ne _ _ hz]
  have hpaddrs : CloneMem.paddrs { m with mem := m.mem.modify y g } chains'.flatten =
      m.paddrs chains.flatten := by
    rw [hflat]
    exact filterMap_congr fun z _ => hsame z
  refine ⟨?_, ?_, hlinked, ?_, h.segments⟩
  · rw [hpaddrs]
    exact h.accounts.congr rfl (fun _ => rfl) (fun _ => rfl) rfl
  · rw [hflat]
    exact h.mbufs
  · rw [hflat]
    intro z hz p hp
    obtain ⟨hnext, hin⟩ := h.single z hz p ((hsame z).symm.trans hp)
    refine ⟨hnext, fun hdirect => ?_⟩
    by_cases hzy : z = y
    · subst hzy
      simpa using hroom (hin hdirect)
    · simpa [modify_mbuf_of_ne _ _ hzy] using hin hdirect

theorem trim (h : SharedBy m chains flights) (hlen : len ≤ (m.mem.mbuf y).mLen) :
    SharedBy { m with mem := m.mem.modify y fun b =>
      { b with mLen := b.mLen - len, mData := b.mData + len } } chains flights := by
  refine h.of_modify rfl ?_ rfl fun c hc => (h.linked c hc).congr fun z _ => ?_
  · rintro ⟨hext, hlow, hhigh⟩
    exact ⟨hext, by simp only; omega, by simp only; omega⟩
  · by_cases hz : z = y
    · simp [mNext, hz]
    · simp [mNext, modify_mbuf_of_ne _ _ hz]

theorem join {a b : List (Fin k)} (h : SharedBy m (a :: b :: chains) flights)
    (hx : a.getLast? = some x) :
    SharedBy { m with mem := m.mem.modify x fun e => { e with mNext := b.head? } }
      ((a ++ b) :: chains) flights := by
  obtain ⟨as, rfl⟩ := getLast?_eq_some_iff.mp hx
  have hmNext : (m.mem.modify x fun e => { e with mNext := b.head? }).mNext =
      update m.mem.mNext x b.head? := by
    funext z
    by_cases hz : z = x
    · simp [mNext, hz]
    · simp [mNext, modify_mbuf_of_ne _ _ hz, hz]
  have hnd : (as ++ [x] ++ (b ++ chains.flatten)).Nodup := (nodup_append'.mp h.mbufs).1
  have hxout : x ∉ b ++ chains.flatten := fun hmem =>
    (nodup_append'.mp hnd).2.2 (by simp) hmem
  rw [mem_append, not_or] at hxout
  refine h.of_modify rfl id (by simp) ?_
  rw [hmNext]
  refine forall_mem_cons.mpr ⟨?_, fun c hc => ?_⟩
  · have hjoin := (h.linked (as ++ [x]) (by simp)).join (h.linked b (by simp)) hxout.1
    simpa using hjoin
  · refine (h.linked c (by simp [hc])).update_of_notMem fun hmem => hxout.2 ?_
    exact mem_flatten.mpr ⟨c, hc, hmem⟩

structure Dropped (m : CloneMem k n) (c : List (Fin k)) (chains : List (List (Fin k)))
    (flights : List (List (Fin n))) (m' : CloneMem k n) (c' : List (Fin k)) : Prop where
  shared : SharedBy m' (c' :: chains) flights
  suffix : c' <:+ c
  paddr : ∀ z ∈ c' ++ chains.flatten, (m'.mem.mbuf z).mPaddr = (m.mem.mbuf z).mPaddr

theorem Dropped.mFree {c' : List (Fin k)} (h : SharedBy m ((y :: c) :: chains) flights)
    (hrest : Dropped (m.mFree y).1 c chains flights m' c') :
    Dropped m (y :: c) chains flights m' c' := by
  refine ⟨hrest.shared, hrest.suffix.trans (suffix_cons y c), fun z hz => ?_⟩
  have hzy : z ≠ y := by
    rintro rfl
    refine (nodup_cons.mp h.mbufs).1 (mem_append_left _ ?_)
    rcases mem_append.mp hz with hz | hz
    · exact mem_append_left _ (hrest.suffix.subset hz)
    · exact mem_append_right _ hz
  rw [hrest.paddr z hz, mFree_mbuf_of_ne m hzy]

theorem dropBytes (h : SharedBy m (c :: chains) flights) (hlen : len ≤ m.mem.lenOf c)
    (hfuel : c.length ≤ fuel) :
    ∃ m' c', CloneMem.dropBytes fuel m c.head? len = some (m', c'.head?) ∧
      Dropped m c chains flights m' c' := by
  induction c generalizing m fuel len with
  | nil =>
    obtain rfl : len = 0 := by simpa using hlen
    exact ⟨m, [], by cases fuel <;> rfl, h, suffix_refl _, fun _ _ => rfl⟩
  | cons y c ih =>
    obtain ⟨fuel, rfl, hf⟩ := exists_fuel hfuel
    cases len with
    | zero => exact ⟨m, y :: c, rfl, h, suffix_refl _, fun _ _ => rfl⟩
    | succ len =>
      by_cases hless : len + 1 < (m.mem.mbuf y).mLen
      · have hloop : CloneMem.dropBytes (fuel + 1) m (y :: c).head? (len + 1) = some (_, some y) :=
          if_pos hless
        refine ⟨_, y :: c, hloop, h.trim hless.le, suffix_refl _, fun z _ => ?_⟩
        by_cases hz : z = y
        · simp [hz]
        · simp [modify_mbuf_of_ne _ _ hz]
      · have hlater : ∀ z ∈ c, (m.mFree y).1.mem.mbuf z = m.mem.mbuf z := by
          intro z hz
          refine mFree_mbuf_of_ne m ?_
          rintro rfl
          exact (nodup_cons.mp h.mbufs).1 (by simp [hz])
        have hlenOf : (m.mFree y).1.mem.lenOf c = m.mem.lenOf c :=
          lenOf_congr fun z hz => .of_eq (hlater z hz)
        rw [lenOf_cons] at hlen
        obtain ⟨m', c', hloop, hdropped⟩ := ih h.mFree
          (show len + 1 - (m.mem.mbuf y).mLen ≤ _ by omega)
          hf
        refine ⟨m', c', ?_, .mFree h hdropped⟩
        rw [← hloop, ← h.mFree_succ]
        exact if_neg hless

theorem dropEmpties (h : SharedBy m (c :: chains) flights) (hfuel : c.length ≤ fuel) :
    ∃ m' c', CloneMem.dropEmpties fuel m c.head? = some (m', c'.head?) ∧
      Dropped m c chains flights m' c' := by
  induction c generalizing m fuel with
  | nil => exact ⟨m, [], by cases fuel <;> rfl, h, suffix_refl _, fun _ _ => rfl⟩
  | cons y c ih =>
    obtain ⟨fuel, rfl, hf⟩ := exists_fuel hfuel
    by_cases hempty : (m.mem.mbuf y).mLen = 0
    · obtain ⟨m', c', hloop, hdropped⟩ := ih h.mFree hf
      refine ⟨m', c', ?_, .mFree h hdropped⟩
      rw [← hloop, ← h.mFree_succ]
      exact if_pos hempty
    · exact ⟨m, y :: c, if_neg hempty, h, suffix_refl _, fun _ _ => rfl⟩

theorem freeChain (h : SharedBy m chains (f :: flights)) (hfuel : f.length ≤ fuel) :
    ∃ m', CloneMem.freeChain fuel m f.head? = some m' ∧ SharedBy m' chains flights ∧
      m'.mem.mbuf = m.mem.mbuf := by
  induction f generalizing m fuel with
  | nil => exact ⟨m, by cases fuel <;> rfl, nil_flight.mp h, rfl⟩
  | cons p f ih =>
    obtain ⟨fuel, rfl, hf⟩ := exists_fuel hfuel
    obtain ⟨hmbuf, hcache⟩ := m.freeSeg_mbufs p
    have hperm : (m.paddrs chains.flatten ++ (p :: (f ++ flights.flatten))).Perm
        (p :: (m.paddrs chains.flatten ++ (f ++ flights.flatten))) := perm_middle
    have hacc := h.accounts.perm hperm
    have hother : ∀ q ∈ m.paddrs chains.flatten ++ (f ++ flights.flatten), q ≠ p := fun q hq =>
      ne_of_mem_of_not_mem hq (nodup_cons.mp hacc.nodup).1
    have hpaddrs : (m.freeSeg p).paddrs chains.flatten = m.paddrs chains.flatten :=
      paddrs_congr fun z _ => by rw [hmbuf]
    have hlinked := h.segments (p :: f) (by simp)
    have hrest : SharedBy (m.freeSeg p) chains (f :: flights) := by
      refine ⟨?_, ?_, ?_, fun z hz => ?_, ?_⟩
      · rw [hpaddrs]
        exact hacc.freeSeg
      · rw [hcache]
        exact h.mbufs
      · have hmNext : (m.freeSeg p).mem.mNext = m.mem.mNext := by
          funext z
          rw [mNext, hmbuf, mNext]
        rw [hmNext]
        exact h.linked
      · refine (h.single z hz).congr (by rw [hmbuf]) (fun q hq => ?_) fun q hq => ?_
        · exact m.freeSeg_attached_of_ne (hother q (mem_append_left _ (mem_paddrs hz hq)))
        · exact m.freeSeg_next (hother q (mem_append_left _ (mem_paddrs hz hq)))
      · refine forall_mem_cons.mpr ⟨?_, fun g hg => ?_⟩
        · have htail := hlinked.2
          rw [← htail.head?_eq] at htail
          exact htail.congr fun q hq => m.freeSeg_next (hother q (by simp [hq]))
        · refine (h.segments g (by simp [hg])).congr fun q hq => m.freeSeg_next (hother q ?_)
          exact mem_append_right _ (mem_append_right _ (mem_flatten.mpr ⟨g, hg, hq⟩))
    obtain ⟨m', hfree, hdone, hmbuf'⟩ := ih hrest hf
    rw [hlinked.2.head?_eq] at hfree
    exact ⟨m', hfree, hdone, hmbuf'.trans hmbuf⟩

theorem alloc (h : SharedBy m chains flights) (halloc : m.mem.rte.pktmbufAlloc pool = some (p, rte))
    :
    SharedBy (m.updateRte fun _ => rte) chains ([p] :: flights) := by
  have hacc := h.accounts.alloc halloc
  have hnd := nodup_cons.mp hacc.nodup
  obtain ⟨hself, hnext⟩ := pktmbufAlloc_next halloc
  refine ⟨hacc.perm perm_middle.symm, h.mbufs, h.linked, fun z hz => ?_, ?_⟩
  · refine (h.single z hz).congr rfl (fun _ _ => rfl) fun q hq => hnext q ?_
    exact ne_of_mem_of_not_mem (mem_append_left _ (mem_paddrs hz hq)) hnd.1
  · refine forall_mem_cons.mpr ⟨⟨rfl, hself⟩, fun g hg => ?_⟩
    refine (h.segments g hg).congr fun q hq => hnext q ?_
    exact ne_of_mem_of_not_mem
      (mem_append_right _ (mem_flatten.mpr ⟨g, hg, hq⟩)) hnd.1

theorem of_rte (h : SharedBy m chains flights)
    (hrefcnt : ∀ q, (rte.cell q).refcnt = (m.mem.rte.cell q).refcnt)
    (hhome : ∀ q, (rte.cell q).pool = (m.mem.rte.cell q).pool)
    (hnext : rte.next = m.mem.rte.next) (hpool : rte.mempool = m.mem.rte.mempool) :
    SharedBy (m.updateRte fun _ => rte) chains flights where
  accounts := h.accounts.congr rfl hrefcnt hhome hpool
  mbufs := h.mbufs
  linked := h.linked
  single := fun z hz => (h.single z hz).congr rfl (fun _ _ => rfl) fun q _ => congrFun hnext q
  segments := fun f hf => (h.segments f hf).congr fun q _ => congrFun hnext q

theorem place {mbCache : List (Fin k)} {b : Mbuf k n} (h : SharedBy m chains ([p] :: flights))
    (hcache : m.mem.mbCache = x :: mbCache) (hnext : b.mNext = none) (hpaddr : b.mPaddr = some p)
    (hroom : b.InRoom) (hmbuf : m'.mem.mbuf = update m.mem.mbuf x b)
    (hcache' : m'.mem.mbCache = mbCache) (hrte : m'.mem.rte = m.mem.rte)
    (hatt : m'.attached = m.attached) : SharedBy m' ([x] :: chains) flights := by
  have hnd := h.mbufs
  rw [hcache] at hnd
  have hnd' : (x :: (chains.flatten ++ mbCache)).Nodup := perm_middle.nodup_iff.mp hnd
  have hx : x ∉ chains.flatten := fun hmem =>
    (nodup_cons.mp hnd').1 (mem_append_left _ hmem)
  have hself : m'.mem.mbuf x = b := by rw [hmbuf, Function.update_self]
  have hother : ∀ z ∈ chains.flatten, m'.mem.mbuf z = m.mem.mbuf z := fun z hz => by
    rw [hmbuf, Function.update_of_ne (ne_of_mem_of_not_mem hz hx)]
  have hpaddrs : m'.paddrs ([x] :: chains).flatten = p :: m.paddrs chains.flatten := by
    rw [← paddrs_congr hother]
    exact paddrs_cons (by rw [hself, hpaddr])
  refine ⟨?_, ?_, ?_, ?_, ?_⟩
  · rw [hpaddrs]
    refine (h.accounts.perm perm_middle).congr hatt (fun q => ?_) (fun q => ?_) ?_
    all_goals rw [hrte]
  · rw [hcache']
    exact hnd'
  · have hlast : m'.mem.mNext x = none := by rw [mNext, hself, hnext]
    refine forall_mem_cons.mpr ⟨⟨rfl, hlast⟩, fun c hc => ?_⟩
    refine (h.linked c hc).congr fun z hz => ?_
    rw [mNext, mNext, hother z (mem_flatten.mpr ⟨c, hc, hz⟩)]
  · refine forall_mem_cons.mpr ⟨fun q hq => ?_, fun z hz => ?_⟩
    · obtain rfl : p = q := by simpa [hself, hpaddr] using hq
      rw [hself, hrte]
      exact ⟨(h.segments [p] (by simp)).2, fun _ => hroom⟩
    · exact (h.single z hz).congr (hother z hz) (fun _ _ => by rw [hatt]) fun _ _ => by rw [hrte]
  · rw [hrte]
    exact fun f hf => h.segments f (.tail _ hf)

end SharedBy

end CloneMem

/-! The packet buffers of a chain become a packet of the driver. -/

namespace Memory

theorem chainRteMbufs_refcnt (rte : Memory n) (head : Fin n) (prev : Option (Fin n)) (p : Fin n)
    (d : Int) (l : Nat) (c : Fin n) :
    ((rte.chainRteMbufs head prev p d l).cell c).refcnt = (rte.cell c).refcnt := by
  cases prev <;>
    simp only [chainRteMbufs, setNext, modify_field _ _ _ _ RteMbuf.refcnt, ite_self]

theorem chainRteMbufs_pool (rte : Memory n) (head : Fin n) (prev : Option (Fin n)) (p : Fin n)
    (d : Int) (l : Nat) (c : Fin n) :
    ((rte.chainRteMbufs head prev p d l).cell c).pool = (rte.cell c).pool := by
  cases prev <;>
    simp only [chainRteMbufs, setNext, modify_field _ _ _ _ RteMbuf.pool, ite_self]

theorem chainRteMbufs_next (rte : Memory n) (head : Fin n) (prev : Option (Fin n)) (p : Fin n)
    (d : Int) (l : Nat) (c : Fin n) :
    (rte.chainRteMbufs head prev p d l).next c =
      if c = p then none else if prev = some c then some p else rte.next c := by
  cases prev with
  | none =>
    simp only [chainRteMbufs, next, setNext, modify_field _ _ _ _ RteMbuf.next, ite_self,
      reduceCtorEq, if_false]
  | some q =>
    simp only [chainRteMbufs, next, setNext, modify_field _ _ _ _ RteMbuf.next, ite_self,
      Option.some.injEq, eq_comm (a := q)]

end Memory

namespace IfState

structure Handed (mem mem' : MbufMem k n) (xs : List (Fin k)) (ps : List (Fin n)) : Prop where
  mNext : mem'.mNext = mem.mNext
  paddr : ∀ x ∈ xs, (mem'.mbuf x).mPaddr = none
  mbuf : ∀ y, y ∉ xs → mem'.mbuf y = mem.mbuf y
  mbCache : mem'.mbCache = mem.mbCache
  mempool : mem'.rte.mempool = mem.rte.mempool
  refcnt : ∀ c, (mem'.rte.cell c).refcnt = (mem.rte.cell c).refcnt
  home : ∀ c, (mem'.rte.cell c).pool = (mem.rte.cell c).pool
  next : ∀ c, c ∉ ps → mem'.rte.next c = mem.rte.next c

variable {mem mem₁ mem' : MbufMem k n} {x : Fin k} {xs : List (Fin k)} {ps ps₁ : List (Fin n)}
  {head p : Fin n} {prev : Option (Fin n)}

theorem Handed.trans (h₁ : Handed mem mem₁ [x] ps₁) (h : Handed mem₁ mem' xs ps)
    (hsub : ∀ c ∈ ps, c ∈ ps₁) : Handed mem mem' (x :: xs) ps₁ where
  mNext := h.mNext.trans h₁.mNext
  paddr := by
    intro y hy
    by_cases hxs : y ∈ xs
    · exact h.paddr y hxs
    · rw [h.mbuf y hxs]
      exact h₁.paddr y (by simpa [hxs] using hy)
  mbuf y hy := by
    rw [mem_cons, not_or] at hy
    rw [h.mbuf y hy.2, h₁.mbuf y (by simpa using hy.1)]
  mbCache := h.mbCache.trans h₁.mbCache
  mempool := h.mempool.trans h₁.mempool
  refcnt c := (h.refcnt c).trans (h₁.refcnt c)
  home c := (h.home c).trans (h₁.home c)
  next c hc := (h.next c fun hmem => hc (hsub c hmem)).trans (h₁.next c hc)

theorem chainMbuf_next (mem : MbufMem k n) (head : Fin n) (prev : Option (Fin n)) (x : Fin k)
    (p c : Fin n) : (chainMbuf mem head prev x p).rte.next c =
      if c = p then none else if prev = some c then some p else mem.rte.next c :=
  chainRteMbufs_next _ _ _ _ _ _ c

theorem chainMbuf_handed (mem : MbufMem k n) (head : Fin n) (prev : Option (Fin n)) (x : Fin k)
    (p : Fin n) : Handed mem (chainMbuf mem head prev x p) [x] (prev.toList ++ [p]) where
  mNext := chainMbuf_mNext mem head prev x p
  paddr := by simp [chainMbuf_self]
  mbuf y hy := chainMbuf_of_ne mem head prev (by simpa using hy) p
  mbCache := rfl
  mempool := by cases prev <;> rfl
  refcnt c := chainRteMbufs_refcnt _ _ _ _ _ _ c
  home c := chainRteMbufs_pool _ _ _ _ _ _ c
  next c hc := by
    obtain ⟨hprev, hp⟩ : prev ≠ some c ∧ c ≠ p := by
      cases prev <;> simpa [eq_comm] using hc
    exact (chainMbuf_next mem head prev x p c).trans (by rw [if_neg hp, if_neg hprev])

theorem chainPacket_handed {start : Option (Fin k)} (hlink : LinkedFrom mem.mNext start xs)
    (hps : xs.map (fun x => (mem.mbuf x).mPaddr) = ps.map some)
    (hnd : (prev.toList ++ ps).Nodup) (hprev : ∀ q ∈ prev, mem.rte.next q = none)
    (hfuel : xs.length ≤ fuel) :
    ∃ mem', chainPacket fuel mem head prev start = some mem' ∧
      Handed mem mem' xs (prev.toList ++ ps) ∧
      LinkedFrom mem'.rte.next (prev.toList ++ ps).head? (prev.toList ++ ps) := by
  induction xs generalizing mem prev start ps fuel with
  | nil =>
    obtain rfl : ps = [] := by simpa using hps.symm
    cases hlink
    refine ⟨mem, by cases fuel <;> rfl, ?_, ?_⟩
    · exact ⟨rfl, by simp, fun _ _ => rfl, rfl, rfl, fun _ => rfl, fun _ => rfl, fun _ _ => rfl⟩
    · cases prev with
      | none => exact rfl
      | some q => exact ⟨rfl, hprev q rfl⟩
  | cons x xs ih =>
    have hx : x ∉ xs := (nodup_cons.mp hlink.nodup).1
    obtain ⟨rfl, hrest⟩ := hlink
    obtain ⟨p, ps, hp, hps', rfl⟩ : ∃ p ps', (mem.mbuf x).mPaddr = some p ∧
        xs.map (fun x => (mem.mbuf x).mPaddr) = ps'.map some ∧ ps = p :: ps' := by
      cases ps with
      | nil => simp at hps
      | cons p ps => exact ⟨p, ps, (List.cons.inj hps).1, (List.cons.inj hps).2, rfl⟩
    obtain ⟨fuel, rfl, hf⟩ := exists_fuel hfuel
    have hround := chainMbuf_handed mem head prev x p
    have hlinks := chainMbuf_next mem head prev x p
    obtain ⟨mem₁, hmem₁⟩ : ∃ mem₁, chainMbuf mem head prev x p = mem₁ := ⟨_, rfl⟩
    have hloop : chainPacket (fuel + 1) mem head prev (some x) =
        chainPacket fuel mem₁ head (some p) (mem₁.mNext x) := by
      simp only [chainPacket, hp, hmem₁]
    rw [hmem₁] at hround hlinks
    have hpsnd : (p :: ps).Nodup := (nodup_append'.mp hnd).2.1
    have hps₁ : xs.map (fun x => (mem₁.mbuf x).mPaddr) = ps.map some := by
      rw [← hps']
      refine map_congr_left fun y hy => ?_
      rw [hround.mbuf y (by simpa using ne_of_mem_of_not_mem hy hx)]
    obtain ⟨mem', hrun, hhanded, hlinked⟩ := ih
      (show LinkedFrom mem₁.mNext (mem₁.mNext x) xs by rw [hround.mNext]; exact hrest) hps₁
      (show ((some p).toList ++ ps).Nodup from hpsnd) (by simp [hlinks]) hf
    have hlast : Handed mem mem₁ [x] (prev.toList ++ p :: ps) :=
      { hround with next := fun c hc => hround.next c fun hmem => hc (by
          rcases mem_append.mp hmem with hmem | hmem
          · exact mem_append_left _ hmem
          · exact mem_append_right _ (by simp_all)) }
    refine ⟨mem', hloop.trans hrun, hlast.trans hhanded fun c hc => mem_append_right _ hc, ?_⟩
    cases prev with
    | none => exact hlinked
    | some q =>
      -- the segment before got its link in this round, and no later round writes to it
      have hq : q ∉ p :: ps := (nodup_cons.mp hnd).1
      have hqnext : mem'.rte.next q = some p := by
        rw [hhanded.next q hq, hlinks, if_neg (ne_of_not_mem_cons hq), if_pos rfl]
      refine ⟨rfl, ?_⟩
      rw [hqnext]
      exact hlinked

end IfState

namespace CloneMem

variable {m m' : CloneMem k n} {chains : List (List (Fin k))} {flights : List (List (Fin n))}
  {c zs : List (Fin k)} {x : Fin k}

theorem map_mPaddr (h : ∀ y ∈ c, (m.mem.mbuf y).mPaddr ≠ none) :
    c.map (fun y => (m.mem.mbuf y).mPaddr) = (m.paddrs c).map some := by
  induction c with
  | nil => rfl
  | cons y c ih =>
    obtain ⟨p, hp⟩ := Option.ne_none_iff_exists'.mp (h y (by simp))
    rw [paddrs_cons hp, map_cons, map_cons, hp, ih fun z hz => h z (.tail _ hz)]

namespace SharedBy

theorem transmit (h : SharedBy m (c :: chains) flights) (hx : c.head? = some x)
    (hbacked : ∀ y ∈ c, (m.mem.mbuf y).mPaddr ≠ none) (head : Fin n) :
    ∃ mem m', IfState.chainPacket k m.mem head none (some x) = some mem ∧
      CloneMem.mFreem k { m with mem } (some x) = some m' ∧
      SharedBy m' chains (m.paddrs c :: flights) ∧
      ∀ z ∈ chains.flatten, m'.mem.mbuf z = m.mem.mbuf z := by
  have hlink := h.linked c (by simp)
  have hcard : c.length ≤ k := by simpa using hlink.length_le
  have hflat : (c :: chains).flatten = c ++ chains.flatten := rfl
  obtain ⟨hacc, hmbufs, hlinked, hsingle, hsegments⟩ := h
  rw [hflat] at hmbufs hsingle
  rw [hflat, paddrs_append, append_assoc] at hacc
  have hdisj : ∀ z ∈ chains.flatten, z ∉ c := fun z hz hzc =>
    (nodup_append'.mp (nodup_append'.mp hmbufs).1).2.2 hzc hz
  have hother : ∀ q ∈ m.paddrs chains.flatten ++ flights.flatten, q ∉ m.paddrs c := fun q hq hqc =>
    (nodup_append'.mp hacc.nodup).2.2 hqc hq
  obtain ⟨mem, hrun, hhanded, hps⟩ :
      ∃ mem, IfState.chainPacket _ m.mem head none _ = some mem ∧ _ :=
    IfState.chainPacket_handed hlink (map_mPaddr hbacked)
      (show ((none : Option (Fin n)).toList ++ m.paddrs c).Nodup from
        (nodup_append'.mp hacc.nodup).1) (by simp) hcard
  have hnone : CloneMem.paddrs { m with mem } c = [] := by
    refine filterMap_eq_nil_iff.mpr fun y hy => hhanded.paddr y hy
  have hrest : CloneMem.paddrs { m with mem } chains.flatten = m.paddrs chains.flatten :=
    paddrs_congr fun z hz => hhanded.mbuf z (hdisj z hz)
  have hshared : SharedBy { m with mem } (c :: chains) (m.paddrs c :: flights) := by
    refine ⟨?_, ?_, ?_, ?_, ?_⟩
    · have hperm : (m.paddrs c ++ (m.paddrs chains.flatten ++ flights.flatten)).Perm
          (m.paddrs chains.flatten ++ (m.paddrs c ++ flights.flatten)) := by
        rw [← append_assoc, ← append_assoc]
        exact perm_append_comm.append_right _
      rw [hflat, paddrs_append, hnone, hrest]
      exact (hacc.perm hperm).congr rfl hhanded.refcnt hhanded.home hhanded.mempool
    · rw [hflat, hhanded.mbCache]
      exact hmbufs
    · rw [hhanded.mNext]
      exact hlinked
    · rw [hflat]
      intro z hz
      by_cases hzc : z ∈ c
      · intro q hq
        rw [hhanded.paddr z hzc] at hq
        cases hq
      · have hzrest : z ∈ chains.flatten := (mem_append.mp hz).resolve_left hzc
        refine (hsingle z hz).congr (hhanded.mbuf z hzc) (fun _ _ => rfl) fun q hq => ?_
        exact hhanded.next q (hother q (mem_append_left _ (mem_paddrs hzrest hq)))
    · refine forall_mem_cons.mpr ⟨hps, fun f hf => ?_⟩
      refine (hsegments f hf).congr fun q hq => hhanded.next q (hother q ?_)
      exact mem_append_right _ (mem_flatten.mpr ⟨f, hf, hq⟩)
  obtain ⟨m', hfree, hdone, hmbuf⟩ := hshared.mFreem hcard
  rw [hx] at hrun hfree
  refine ⟨mem, m', hrun, hfree, hdone, fun z hz => ?_⟩
  rw [(hmbuf z hz).mbuf]
  exact hhanded.mbuf z (hdisj z hz)

theorem copyable (h : SharedBy m chains flights) (hc : c ∈ chains) (hk : k ≤ stackMbufsCount)
    (hdirect : ∀ y ∈ c, ∃ p, (m.mem.mbuf y).mPaddr = some p ∧ m.attached p = none) :
    Copyable m c := by
  have hmem : ∀ y ∈ c, y ∈ chains.flatten := fun y hy => mem_flatten.mpr ⟨c, hc, hy⟩
  have hroom : ∀ y ∈ c, (m.mem.mbuf y).InRoom := by
    intro y hy
    obtain ⟨p, hp, hatt⟩ := hdirect y hy
    exact (h.single y (hmem y hy) p hp).2 hatt
  obtain ⟨-, hcache, hdisj⟩ := nodup_append'.mp h.mbufs
  refine ⟨fun y hy => hdisj (hmem y hy), fun y hy => (hroom y hy).1, fun y hy => ?_,
    fun y hy => (hroom y hy).2, hcache, h.accounts.pool, hk⟩
  obtain ⟨p, hp, -⟩ := hdirect y hy
  have hheld : p ∈ m.paddrs chains.flatten ++ flights.flatten :=
    mem_append_left _ (mem_paddrs (hmem y hy) hp)
  exact ⟨p, hp, (h.single y (hmem y hy) p hp).1, h.accounts.notMem_free hheld,
    h.accounts.owner_notMem_free hheld⟩

theorem taken {l : CopyLoop k n} {bytes : List UInt8} (h : SharedBy m chains flights)
    (hcopy : Copying m l zs bytes)
    (hacc : Accounts l.m (l.m.paddrs zs ++ (m.paddrs chains.flatten ++ flights.flatten))) :
    SharedBy l.m (zs :: chains) flights ∧ ∀ z ∈ chains.flatten, l.m.mem.mbuf z = m.mem.mbuf z := by
  have hnd := h.mbufs
  rw [hcopy.taken.cache] at hnd
  have hzs : ∀ z ∈ chains.flatten, z ∉ zs := fun z hz hzz =>
    (nodup_append'.mp hnd).2.2 hz (mem_append_left _ hzz)
  have hother : ∀ z ∈ chains.flatten, l.m.mem.mbuf z = m.mem.mbuf z := fun z hz =>
    hcopy.taken.other z (hzs z hz)
  have hflat : (zs :: chains).flatten = zs ++ chains.flatten := rfl
  refine ⟨⟨?_, ?_, ?_, ?_, ?_⟩, hother⟩
  · rw [hflat, paddrs_append, paddrs_congr hother, append_assoc]
    exact hacc
  · have hperm : (chains.flatten ++ (zs ++ l.m.mem.mbCache)).Perm
        (zs ++ chains.flatten ++ l.m.mem.mbCache) := by
      rw [← append_assoc]
      exact perm_append_comm.append_right _
    exact hperm.nodup_iff.mp hnd
  · refine forall_mem_cons.mpr ⟨hcopy.linked, fun c hc => ?_⟩
    refine (h.linked c hc).congr fun z hz => ?_
    rw [mNext, mNext, hother z (mem_flatten.mpr ⟨c, hc, hz⟩)]
  · rw [hflat]
    intro z hz
    rcases mem_append.mp hz with hz | hz
    · intro q hq
      obtain ⟨-, hnext, d, hd, -⟩ := hcopy.taken.clone z hz q hq
      refine ⟨hnext, fun hdirect => ?_⟩
      rw [hdirect] at hd
      cases hd
    · have hheld : ∀ q, (m.mem.mbuf z).mPaddr = some q → q ∉ m.freeCells := fun q hq =>
        h.accounts.notMem_free (mem_append_left _ (mem_paddrs hz hq))
      exact (h.single z hz).congr (hother z hz) (fun q hq => hcopy.taken.attached q (hheld q hq))
        fun q hq => hcopy.taken.next q (hheld q hq)
  · intro f hf
    refine (h.segments f hf).congr fun q hq => hcopy.taken.next q (h.accounts.notMem_free ?_)
    exact mem_append_right _ (mem_flatten.mpr ⟨f, hf, hq⟩)

/-- `m_copym` of a chain whose packet buffers have their own data and few enough references. -/
theorem mCopym {off : Nat} (h : SharedBy m chains flights) (pool : Nat) (hc : c ∈ chains)
    (hne : c ≠ []) (hk : k ≤ stackMbufsCount)
    (hdirect : ∀ y ∈ c, ∃ p, (m.mem.mbuf y).mPaddr = some p ∧ m.attached p = none ∧
      (m.mem.rte.cell p).refcnt + c.length ≤ 65535)
    (hlen : off + len ≤ m.mem.lenOf c ∨ off ≤ m.mem.lenOf c ∧ len = mCopyall) :
    ∃ top cloned m' zs, m.mCopym pool c.head? off len = some (top, cloned, m') ∧
      LinkedFrom m'.mem.mNext top zs ∧ SharedBy m' (zs :: chains) flights ∧
      (∀ z ∈ chains.flatten, m'.mem.mbuf z = m.mem.mbuf z) ∧
      (m.copyCount c off len ≤ m.mem.rte.available pool ∨
        m.mem.mbCache.length < m.copyCount c off len →
        ∀ z ∈ zs, (m'.mem.mbuf z).mPaddr ≠ none) := by
  have hsrc : Copyable m c := h.copyable hc hk fun y hy => by
    obtain ⟨p, hp, hatt, -⟩ := hdirect y hy
    exact ⟨p, hp, hatt⟩
  obtain ⟨x, c, rfl⟩ := exists_cons_of_ne_nil hne
  have hlink := h.linked (x :: c) hc
  have hbuffers : ∀ y ∈ x :: c, ∀ p, (m.mem.mbuf y).mPaddr = some p →
      p ∈ m.paddrs chains.flatten ++ flights.flatten ∧ m.attached p = none ∧
        (m.mem.rte.cell p).refcnt + (x :: c).length ≤ 65535 := by
    intro y hy p hp
    obtain ⟨q, hq, hatt, hrefs⟩ := hdirect y hy
    obtain rfl : q = p := by simpa [hq] using hp
    exact ⟨mem_append_left _ (mem_paddrs (mem_flatten.mpr ⟨_, hc, hy⟩) hq), hatt, hrefs⟩
  obtain ⟨l, top, cloned, m', hcopy, hdone, hfail⟩ := mCopym_run hsrc hlink hlen
    ((Accounts.keptByRounds hsrc hbuffers).and (keptByRounds_available pool hsrc))
    ⟨fun _ => ⟨h.accounts, by simp⟩, by simp⟩
  have hcount : m.copyCount (x :: c) off len ≤ (x :: c).length := m.copyCount_le _ _ _
  rcases Nat.lt_or_ge m.mem.mbCache.length (m.copyCount (x :: c) off len) with hfew | henough
  · obtain ⟨rfl, zs, bytes, hcopying, hkept, hzs, hfree⟩ := hfail hfew
    obtain ⟨hshared, hother⟩ := h.taken hcopying (hkept.1 (by omega)).1
    obtain ⟨m'', hfree', hback, hother'⟩ := hshared.mFreem
      (show zs.length ≤ k by simpa using hcopying.linked.length_le)
    rw [hcopying.top, hfree', Option.some.injEq] at hfree
    subst hfree
    exact ⟨none, cloned, m'', [], hcopy, rfl, nil_chain.mpr hback,
      fun z hz => (hother' z hz).mbuf.trans (hother z hz), by simp⟩
  · obtain ⟨heq, zs, hcopying, hkept, hzs⟩ := hdone henough
    cases heq
    obtain ⟨hshared, hother⟩ := h.taken hcopying (hkept.1 (by omega)).1
    refine ⟨l.top, l.cloned, l.m, zs, hcopy, hcopying.top ▸ hcopying.linked, hshared, hother, ?_⟩
    exact fun hclones => hkept.2.2 (by omega)

end SharedBy

end CloneMem

namespace ShareState

/-- Every chain that is copied has packet buffers with data of their own and room in their counters,
and there is a packet buffer for every clone, or there are too few mbufs; for the rest, what the
callers see to. -/
def Ready (s : ShareState k n) : ShareAction → Prop
  | .get pool _ len =>
    128 + len ≤ mbufSize ∧ (s.m.mem.mbCache ≠ [] → 0 < s.m.mem.rte.available pool)
  | .devget pool _ len => 128 + len ≤ mbufSize ∧ 0 < s.m.mem.rte.available pool
  | .join i _ => s.chain i ≠ []
  | .copym i pool off len =>
    (s.chain i ≠ [] ∧ (off + len ≤ s.m.mem.lenOf (s.chain i) ∨
      off ≤ s.m.mem.lenOf (s.chain i) ∧ len = mCopyall)) ∧
      (∀ y ∈ s.chain i, ∀ p ∈ (s.m.mem.mbuf y).mPaddr, s.m.attached p = none ∧
        (s.m.mem.rte.cell p).refcnt + (s.chain i).length ≤ 65535) ∧
      (s.m.copyCount (s.chain i) off len ≤ s.m.mem.rte.available pool ∨
        s.m.mem.mbCache.length < s.m.copyCount (s.chain i) off len)
  | .sbdrop i len => len ≤ s.m.mem.lenOf (s.chain i)
  | .freem _ => True
  | .transmit i => s.chain i ≠ []
  | .complete _ => True

instance (s : ShareState k n) (a : ShareAction) : Decidable (s.Ready a) :=
  match a with
  | .get _ _ _ => inferInstanceAs (Decidable (_ ∧ _))
  | .devget _ _ _ => inferInstanceAs (Decidable (_ ∧ _))
  | .join _ _ => inferInstanceAs (Decidable (_ ≠ _))
  | .copym _ _ _ _ => inferInstanceAs (Decidable (_ ∧ _ ∧ _))
  | .sbdrop _ _ => inferInstanceAs (Decidable (_ ≤ _))
  | .freem _ => inferInstanceAs (Decidable True)
  | .transmit _ => inferInstanceAs (Decidable (_ ≠ _))
  | .complete _ => inferInstanceAs (Decidable True)

structure Initial (s : ShareState k n) : Prop where
  count : k ≤ stackMbufsCount
  chains : s.chains = []
  flights : s.flights = []
  cache : s.m.mem.mbCache.Nodup
  direct : ∀ p, s.m.attached p = none
  pool : (s.m.mem.rte.mempool.map Prod.snd).Nodup
  all : ∀ p, ((s.m.mem.rte.cell p).pool, p) ∈ s.m.mem.rte.mempool
  home : ∀ e ∈ s.m.mem.rte.mempool, e.1 = (s.m.mem.rte.cell e.2).pool

structure Shared (s : ShareState k n) : Prop where
  shared : SharedBy s.m s.chains s.flights
  backed : ∀ y ∈ s.chains.flatten, (s.m.mem.mbuf y).mPaddr ≠ none

variable {s t : ShareState k n}

theorem Initial.shared (h : s.Initial) : Shared s := by
  have hfree : ∀ p, p ∈ s.m.freeCells := fun p => List.mem_map.mpr ⟨_, h.all p, rfl⟩
  refine ⟨?_, by simp [h.chains]⟩
  rw [h.chains, h.flights]
  have hnone : Accounts s.m [] :=
    { nodup := nodup_nil
      clone := by simp
      counts := fun d hd => by cases hd
      bound := by simp
      pool := h.pool
      free := by simp
      rest := fun p _ _ => hfree p
      fresh := fun p _ => h.direct p
      home := h.home }
  exact ⟨hnone, h.cache, by simp, by simp, by simp⟩

theorem chain_mem (i : Nat) (hi : s.chain i ≠ []) : s.chain i ∈ s.chains := by
  rcases Nat.lt_or_ge i s.chains.length with hlt | hge
  · rw [chain, getD_eq_getElem _ _ hlt]
    exact getElem_mem hlt
  · exact absurd (getD_eq_default _ _ hge) hi

theorem mem_flatten_of_pick {chains : List (List (Fin k))} {y : Fin k}
    (hy : y ∈ chains.getD i [] ++ (chains.eraseIdx i).flatten) : y ∈ chains.flatten := by
  rcases mem_append.mp hy with hy | hy
  · rcases Nat.lt_or_ge i chains.length with hi | hi
    · rw [getD_eq_getElem _ _ hi] at hy
      exact mem_flatten.mpr ⟨_, getElem_mem hi, hy⟩
    · rw [getD_eq_default _ _ hi] at hy
      cases hy
  · obtain ⟨c, hc, hyc⟩ := mem_flatten.mp hy
    exact mem_flatten.mpr ⟨c, mem_of_mem_eraseIdx hc, hyc⟩

namespace Shared

theorem backed_chain (h : Shared s) (i : Nat) :
    ∀ y ∈ s.chain i, (s.m.mem.mbuf y).mPaddr ≠ none := fun y hy =>
  h.backed y (mem_flatten_of_pick (i := i) (mem_append_left _ hy))

theorem backed_erase (h : Shared s) (i : Nat) :
    ∀ y ∈ (s.chains.eraseIdx i).flatten, (s.m.mem.mbuf y).mPaddr ≠ none := fun y hy =>
  h.backed y (mem_flatten_of_pick (i := i) (mem_append_right _ hy))

theorem pick (h : Shared s) (i : Nat) :
    SharedBy s.m (s.chain i :: s.chains.eraseIdx i) s.flights ∧ (s.chain i).length ≤ k := by
  have hpicked : SharedBy s.m (s.chain i :: s.chains.eraseIdx i) s.flights := h.shared.pick i
  exact ⟨hpicked, by simpa using (hpicked.linked _ (mem_cons_self ..)).length_le⟩

theorem place {p : Fin n} {x : Fin k} {b : Mbuf k n} {mbCache : List (Fin k)} {m m' : CloneMem k n}
    (h : Shared s) (hshared : SharedBy m s.chains ([p] :: s.flights))
    (hmem : m.mem.mbuf = s.m.mem.mbuf) (hcache : m.mem.mbCache = x :: mbCache)
    (hnext : b.mNext = none) (hpaddr : b.mPaddr = some p) (hroom : b.InRoom)
    (hmbuf : m'.mem.mbuf = update m.mem.mbuf x b) (hcache' : m'.mem.mbCache = mbCache)
    (hrte : m'.mem.rte = m.mem.rte) (hatt : m'.attached = m.attached) :
    Shared { s with m := m', chains := [x] :: s.chains } := by
  refine ⟨hshared.place hcache hnext hpaddr hroom hmbuf hcache' hrte hatt, fun y hy => ?_⟩
  show (m'.mem.mbuf y).mPaddr ≠ none
  rw [hmbuf]
  by_cases hyx : y = x
  · simp [hyx, hpaddr]
  · rw [Function.update_of_ne hyx, hmem]
    exact h.backed y ((mem_cons.mp hy).resolve_left hyx)

theorem get {type : MbufType} (h : Shared s) (hlen : 128 + len ≤ mbufSize)
    (havail : s.m.mem.mbCache ≠ [] → 0 < s.m.mem.rte.available pool) :
    ∃ t, shareStep s (.get pool type len) = some t ∧ Shared t := by
  cases hcache : s.m.mem.mbCache with
  | nil => exact ⟨s, by simp [shareStep, MbufMem.mGet, hcache], h⟩
  | cons x mbCache =>
    obtain ⟨p, rte, halloc, hoff⟩ := pktmbufAlloc_of_available (havail (by simp [hcache]))
    obtain ⟨b, hb⟩ : ∃ b : Mbuf k n, { s.m.mem.mbuf x with
        mNext := none, mNextpkt := none, mType := type, mEor := false, mExtSize := none
        mPkthdr := false, mPaddr := some p, mData := (rte.cell p).dataOff, mLen := len } = b :=
      ⟨_, rfl⟩
    have hroom : b.InRoom := by
      rw [← hb, Mbuf.InRoom, hoff]
      exact ⟨rfl, by simp, by simp only; omega⟩
    have hget : shareStep s (.get pool type len) = some { s with
        m := ⟨⟨update s.m.mem.mbuf x b, mbCache, rte⟩, s.m.attached⟩
        chains := [x] :: s.chains } := by
      simp [shareStep, MbufMem.mGet, hcache, halloc, MbufMem.modify, hb]
    exact ⟨_, hget, h.place (h.shared.alloc halloc) rfl hcache (by simp [← hb]) (by simp [← hb])
      hroom rfl rfl rfl rfl⟩

theorem devget {buf : Nat → UInt8} (h : Shared s) (hlen : 128 + len ≤ mbufSize)
    (havail : 0 < s.m.mem.rte.available pool) :
    ∃ t, shareStep s (.devget pool buf len) = some t ∧ Shared t := by
  obtain ⟨p, rte, halloc, hoff⟩ := pktmbufAlloc_of_available havail
  have hwritten : SharedBy (s.m.updateRte fun _ => rte.modify p fun c =>
      { c with buf, dataLen := len, pktLen := len }) s.chains ([p] :: s.flights) := by
    refine (h.shared.alloc halloc).of_rte (fun q => ?_) (fun q => ?_) ?_ rfl
    · rw [modify_field _ _ _ _ RteMbuf.refcnt, ite_self]
      rfl
    · rw [modify_field _ _ _ _ RteMbuf.pool, ite_self]
      rfl
    · funext q
      exact (modify_field _ _ _ _ RteMbuf.next).trans (ite_self _)
  obtain ⟨rte', hrte'⟩ : ∃ rte', (rte.modify p fun c =>
      { c with buf, dataLen := len, pktLen := len }) = rte' := ⟨_, rfl⟩
  rw [hrte'] at hwritten
  cases hcache : s.m.mem.mbCache with
  | nil =>
    obtain ⟨m', hfree, hshared, hmbuf⟩ := hwritten.freeChain (show 1 ≤ n from p.pos)
    have hget : shareStep s (.devget pool buf len) = some { s with m := m' } := by
      rw [head?_cons] at hfree
      simp [shareStep, halloc, hrte', mDevget, updateRte, hcache] at hfree ⊢
      exact hfree
    refine ⟨_, hget, hshared, fun y hy => ?_⟩
    show (m'.mem.mbuf y).mPaddr ≠ none
    rw [hmbuf]
    exact h.backed y hy
  | cons x mbCache =>
    obtain ⟨b, hb⟩ : ∃ b : Mbuf k n, devMbuf 128 len p = b := ⟨_, rfl⟩
    have hroom : b.InRoom := by
      rw [← hb]
      exact ⟨rfl, by simp [devMbuf], by simp only [devMbuf]; omega⟩
    have hget : shareStep s (.devget pool buf len) = some { s with
        m := ⟨⟨update s.m.mem.mbuf x b, mbCache, rte'⟩, s.m.attached⟩
        chains := [x] :: s.chains } := by
      simp [shareStep, halloc, mDevget, updateRte, hcache, placeChain,
        ← hb, devMbuf, ← hrte', hoff]
    exact ⟨_, hget, h.place hwritten rfl hcache (by simp [← hb, devMbuf])
      (by simp [← hb, devMbuf]) hroom rfl rfl rfl rfl⟩

theorem join {j : Nat} (h : Shared s) (hi : s.chain i ≠ []) :
    ∃ t, shareStep s (.join i j) = some t ∧ Shared t := by
  obtain ⟨x, hx⟩ : ∃ x, (s.chain i).getLast? = some x :=
    ⟨_, getLast?_eq_some_getLast hi⟩
  obtain ⟨rest, hrest⟩ : ∃ rest, s.chains.eraseIdx i = rest := ⟨_, rfl⟩
  have hpicked := ((h.pick i).1.pick (j + 1)).perm (List.Perm.swap ..) (.refl _)
  simp only [getD_cons_succ, hrest] at hpicked
  have hjoin : shareStep s (.join i j) = some { s with
      m := { s.m with mem := s.m.mem.modify x fun b => { b with mNext := (rest.getD j []).head? } }
      chains := (s.chain i ++ rest.getD j []) :: rest.eraseIdx j } := by
    simp only [shareStep, hx, hrest, Option.map_some]
  refine ⟨_, hjoin, hpicked.join hx, fun y hy => ?_⟩
  have hmem : y ∈ s.chains.flatten := by
    refine mem_flatten_of_pick (i := i) ?_
    rw [hrest]
    have hy : y ∈ s.chain i ++ rest.getD j [] ++ (rest.eraseIdx j).flatten := hy
    rw [append_assoc] at hy
    rcases mem_append.mp hy with hy | hy
    · exact mem_append_left _ hy
    · exact mem_append_right _ (mem_flatten_of_pick hy)
  have hpaddr := h.backed y hmem
  by_cases hyx : y = x
  · subst hyx
    simpa using hpaddr
  · simpa [modify_mbuf_of_ne _ _ hyx] using hpaddr

theorem copym {off : Nat} (h : Shared s) (hk : k ≤ stackMbufsCount)
    (hok : s.Ready (.copym i pool off len)) :
    ∃ t, shareStep s (.copym i pool off len) = some t ∧ Shared t := by
  obtain ⟨⟨hne, hlen⟩, hdirect, hclones⟩ := hok
  have hsource : ∀ y ∈ s.chain i, ∃ p, (s.m.mem.mbuf y).mPaddr = some p ∧ s.m.attached p = none ∧
      (s.m.mem.rte.cell p).refcnt + (s.chain i).length ≤ 65535 := by
    intro y hy
    obtain ⟨p, hp⟩ := Option.ne_none_iff_exists'.mp (h.backed_chain i y hy)
    exact ⟨p, hp, hdirect y hy p hp⟩
  obtain ⟨top, cloned, m', zs, hcopy, hlink, hshared, hother, hbacked⟩ :=
    h.shared.mCopym pool (chain_mem i hne) hne hk hsource hlen
  have hwalk : walkFrom m'.mem.mNext k top = some zs :=
    walkFrom_eq hlink (by simpa using hlink.length_le)
  refine ⟨{ s with m := m', chains := zs :: s.chains }, by simp [shareStep, hcopy, hwalk],
    hshared, ?_⟩
  intro y hy
  rcases mem_append.mp hy with hy | hy
  · exact hbacked hclones y hy
  · show (m'.mem.mbuf y).mPaddr ≠ none
    rw [hother y hy]
    exact h.backed y hy

theorem sbdrop (h : Shared s) (hlen : len ≤ s.m.mem.lenOf (s.chain i)) :
    ∃ t, shareStep s (.sbdrop i len) = some t ∧ Shared t := by
  obtain ⟨hpicked, hcard⟩ := h.pick i
  obtain ⟨m₁, c₁, hbytes, hdropped⟩ := hpicked.dropBytes hlen hcard
  have hcard₁ : c₁.length ≤ k := hdropped.suffix.length_le.trans hcard
  obtain ⟨m₂, c₂, hempties, hdropped₂⟩ := hdropped.shared.dropEmpties hcard₁
  have hcard₂ : c₂.length ≤ k := hdropped₂.suffix.length_le.trans hcard₁
  have hwalk := walkFrom_eq (hdropped₂.shared.linked c₂ (by simp)) hcard₂
  refine ⟨{ s with m := m₂, chains := c₂ :: s.chains.eraseIdx i }, ?_, hdropped₂.shared, ?_⟩
  · simp [shareStep, hbytes, hempties, hwalk]
  · intro y hy
    have hy₁ : y ∈ c₁ ++ (s.chains.eraseIdx i).flatten := by
      rcases mem_append.mp hy with hy | hy
      · exact mem_append_left _ (hdropped₂.suffix.subset hy)
      · exact mem_append_right _ hy
    show (m₂.mem.mbuf y).mPaddr ≠ none
    rw [hdropped₂.paddr y hy, hdropped.paddr y hy₁]
    rcases mem_append.mp hy₁ with hy | hy
    · exact h.backed_chain i y (hdropped.suffix.subset hy)
    · exact h.backed_erase i y hy

theorem freem (h : Shared s) : ∃ t, shareStep s (.freem i) = some t ∧ Shared t := by
  obtain ⟨hpicked, hcard⟩ := h.pick i
  obtain ⟨m', hfree, hshared, hother⟩ := hpicked.mFreem hcard
  refine ⟨{ s with m := m', chains := s.chains.eraseIdx i }, ?_, hshared, fun y hy => ?_⟩
  · simp [shareStep, hfree]
  · show (m'.mem.mbuf y).mPaddr ≠ none
    rw [(hother y hy).mbuf]
    exact h.backed_erase i y hy

theorem transmit (h : Shared s) (hi : s.chain i ≠ []) :
    ∃ t, shareStep s (.transmit i) = some t ∧ Shared t := by
  obtain ⟨x, c, hc⟩ := exists_cons_of_ne_nil hi
  have hx : (s.chain i).head? = some x := by rw [hc, head?_cons]
  obtain ⟨head, hhead⟩ := Option.ne_none_iff_exists'.mp (h.backed_chain i x (by simp [hc]))
  obtain ⟨mem, m', hpacket, hfree, hshared, hother⟩ :=
    (h.pick i).1.transmit hx (h.backed_chain i) head
  refine ⟨⟨m', s.chains.eraseIdx i, s.m.paddrs (s.chain i) :: s.flights⟩, ?_, hshared,
    fun y hy => ?_⟩
  · simp [shareStep, hx, hhead, hpacket, hfree]
  · show (m'.mem.mbuf y).mPaddr ≠ none
    rw [hother y hy]
    exact h.backed_erase i y hy

theorem complete (h : Shared s) :
    ∃ t, shareStep s (.complete i) = some t ∧ Shared t := by
  have hpicked := h.shared.pickFlight i
  obtain ⟨m', hfree, hshared, hmbuf⟩ := hpicked.freeChain
    (show _ ≤ n by simpa using (hpicked.segments _ (by simp)).length_le)
  refine ⟨{ s with m := m', flights := s.flights.eraseIdx i }, ?_, hshared, fun y hy => ?_⟩
  · rw [shareStep, hfree]
    rfl
  · show (m'.mem.mbuf y).mPaddr ≠ none
    rw [hmbuf]
    exact h.backed y hy

theorem step {a : ShareAction} (h : Shared s) (hk : k ≤ stackMbufsCount) (hok : s.Ready a) :
    ∃ t, shareStep s a = some t ∧ Shared t := by
  cases a with
  | get pool type len => exact h.get hok.1 hok.2
  | devget pool buf len => exact h.devget hok.1 hok.2
  | join i j => exact h.join hok
  | copym i pool off len => exact h.copym hk hok
  | sbdrop i len => exact h.sbdrop hok
  | freem i => exact h.freem
  | transmit i => exact h.transmit hok
  | complete i => exact h.complete

end Shared

/-- Each packet buffer lies once in its own pool exactly when nothing refers to it, and no mbuf with
bytes is without a packet buffer. -/
structure Returned (s : ShareState k n) : Prop where
  once : (s.m.mem.rte.mempool.map Prod.snd).Nodup
  home : ∀ e ∈ s.m.mem.rte.mempool, e.1 = (s.m.mem.rte.cell e.2).pool
  unused : ∀ p, p ∈ s.m.mem.rte.mempool.map Prod.snd ↔ p ∉ s.referenced
  backed : ∀ y ∈ s.chains.flatten, 0 < (s.m.mem.mbuf y).mLen → (s.m.mem.mbuf y).mPaddr ≠ none

theorem Shared.returned (h : Shared s) : s.Returned where
  once := h.shared.accounts.pool
  home := h.shared.accounts.home
  unused p := by
    rw [referenced, mem_append, not_or]
    exact h.shared.accounts.mem_free_iff
  backed y hy _ := h.backed y hy

/-- A packet buffer is back in its pool exactly if nothing refers to it, and `Ready` steps do not
fail. -/
theorem buffers_returned {as : List ShareAction} (hs : s.Initial)
    (hrun : Run shareStep Ready s as t) :
    t.Returned ∧ ∀ a, t.Ready a → ∃ u, shareStep t a = some u := by
  have hshared : Shared t := hrun.invariant (fun s a t h hok hstep => by
    obtain ⟨u, hu, hshared⟩ := h.step hs.count hok
    obtain rfl : u = t := by simpa [hu] using hstep
    exact hshared) hs.shared
  refine ⟨hshared.returned, fun a hok => ?_⟩
  obtain ⟨u, hu, -⟩ := hshared.step hs.count hok
  exact ⟨u, hu⟩

def pools : ShareState 9 9 where
  m := {
    mem := {
      mbuf := fun _ => {}
      mbCache := List.finRange 9
      rte := {
        cell := fun p => { pool := if p.val < 4 then 0 else 1 }
        mempool := (List.finRange 9).map fun p => (if p.val < 4 then 0 else 1, p) } } }

theorem pools_initial : pools.Initial where
  count := by decide
  chains := rfl
  flights := rfl
  cache := by decide
  direct _ := rfl
  pool := by decide
  all := by decide
  home := by decide

theorem buffers_returned_sent : ∃ t, Run shareStep Ready pools
    [.get 0 .data 10, .devget 0 (fun _ => 7) 20, .join 0 0, .copym 0 1 5 20, .sbdrop 1 12,
      .transmit 1, .freem 0, .complete 0] t ∧ t.referenced = [] ∧ t.Returned :=
  Run.exists_and_of_runActions (by decide +kernel) fun _ hrun _ =>
    (buffers_returned pools_initial hrun).1

/-- The copy of a copy takes its reference from the clone and gives up one of the data: the data is
back in its pool while a chain still has it, and in the end the clone is lost. A clone that was not
got leaves an mbuf with bytes and no packet buffer. -/
theorem copies_lose_buffers : pools.Initial ∧
    (∃ t, Run shareStep (fun _ _ => True) pools
      [.get 0 .data 10, .copym 0 1 0 10, .copym 0 1 0 10, .freem 2, .freem 0] t ∧
      ∃ p, p ∈ t.m.mem.rte.mempool.map Prod.snd ∧ p ∈ t.referenced) ∧
    (∃ t, Run shareStep (fun _ _ => True) pools
      [.get 0 .data 10, .copym 0 1 0 10, .copym 0 1 0 10, .freem 2, .freem 0, .freem 0] t ∧
      t.referenced = [] ∧ ∃ p, p ∉ t.m.mem.rte.mempool.map Prod.snd) ∧
    ∃ t, Run shareStep (fun _ _ => True) pools
      [.get 0 .data 10, .copym 0 1 0 10, .copym 1 1 0 10, .copym 2 1 0 10, .copym 3 1 0 10,
        .copym 4 1 0 10, .copym 5 1 0 10] t ∧
      ∃ y ∈ t.chains.flatten, 0 < (t.m.mem.mbuf y).mLen ∧ (t.m.mem.mbuf y).mPaddr = none := by
  refine ⟨pools_initial, ?_, ?_, ?_⟩
  all_goals exact Run.exists_of_runActions (by decide +kernel)

end ShareState

end NetbsdDpdk
