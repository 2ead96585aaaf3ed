import NetbsdDpdk.ChainCopy

/-! The account of the packet buffers: those in use, and what lies in the mempools. Taking a buffer,
cloning one that has its own data, and freeing one keep it right. -/

namespace NetbsdDpdk

open List

namespace CloneMem

variable {k n : Nat} {m m' : CloneMem k n} {hs hs' : List (Fin n)} {p q d md mc : Fin n}

section Rounds

variable {xs cs zs : List (Fin k)} {x y : Fin k} {pool : Nat}

theorem Holding.got (h : Holding m hs) (hgot : GotIndirect m pool md y m')
    (hc : (m'.mem.mbuf y).mPaddr = some mc) (hdirect : m.attached md = none) (hmem : md ∈ hs)
    (hless : (m.mem.rte.cell md).refcnt < 65535) :
    Holding m' (mc :: hs) ∧ (mc :: hs).map m'.owner = md :: hs.map m.owner := by
  have hnew : mc ∈ m.freeCells := (hgot.free h.pool).mem_iff.mpr (by simp [hc])
  have hne : md ≠ mc := fun heq => h.notMem_free hmem (heq ▸ hnew)
  have hup : ((m.mem.rte.cell md).refcnt + 1) % 65536 = (m.mem.rte.cell md).refcnt + 1 := by omega
  obtain ⟨hone, -, hself⟩ := hgot.clone mc hc
  rw [owner_eq_of_none hdirect] at hself
  have hother : ∀ c, c ≠ mc → (m'.mem.mbuf y).mPaddr ≠ some c := fun c hcmc => by
    simpa [hc] using Ne.symm hcmc
  refine h.cons md hnew (.inr ⟨hdirect, hmem⟩) (fun c hcmc => hgot.attached c (hother c hcmc))
    (.inr ⟨hself, hne⟩) hone (fun _ => ?_) (fun c hcmc hcmd => ?_) ?_
  · rw [hgot.refcnt (by simp [hc]), hup]
  · rw [hgot.cells c (hother c hcmc) hcmd]
  · have hperm := hgot.free h.pool
    rw [hc] at hperm
    exact hperm

/-- The rounds of `m_copym` keep an account `A` of the packet buffers, where those of the source
have their own data and few enough references. -/
theorem keptByRounds {A : CloneMem k n → List (Fin n) → Prop} {bound : Nat}
    (hholding : ∀ m hs, A m hs → Holding m hs) (hperm : ∀ m hs hs', hs.Perm hs' → A m hs → A m hs')
    (hsame : ∀ m m' hs, m'.attached = m.attached → m'.mem.rte = m.mem.rte → A m hs → A m' hs)
    (hclone : ∀ m m' hs md mc y, GotIndirect m pool md y m' → (m'.mem.mbuf y).mPaddr = some mc →
      m.attached md = none → md ∈ hs → (m.mem.rte.cell md).refcnt < 65535 → A m hs →
      A m' (mc :: hs)) (hsrc : Copyable m xs)
    (hdirect : ∀ x ∈ xs, ∀ p, (m.mem.mbuf x).mPaddr = some p →
      p ∈ hs ∧ m.attached p = none ∧ (m.mem.rte.cell p).refcnt + bound ≤ 65535) :
    KeptByRounds m pool xs fun zs m' => zs.length ≤ bound → A m' (m'.paddrs zs ++ hs) ∧
      ∀ c, c ∉ m.freeCells →
        (m'.mem.rte.cell c).refcnt ≤ (m.mem.rte.cell c).refcnt + zs.length := by
  intro l zs bytes x y md m₁ off count hcopy hx hmd _ hgot hzs hless
  rw [length_append, length_singleton] at hless ⊢
  obtain ⟨h, hrefs⟩ := hzs (by omega)
  obtain ⟨hmdmem, hmddirect, hmdrefs⟩ := hdirect x hx md hmd
  have hmdfree : md ∉ m.freeCells := by
    obtain ⟨p, hp, -, hpfree, -⟩ := hsrc.paddr x hx
    obtain rfl : p = md := by simpa [hmd] using hp.symm
    exact hpfree
  have hy := hcopy.taken.new_notMem hsrc hgot
  have hnp : l.np ≠ some y := fun hnp => hy (mem_of_getLast? (hcopy.np.symm.trans hnp))
  have hpaddrs := paddrs_place off count l (l.m.mem.mbuf x) hnp hy hgot
  obtain ⟨hrte, -, hatt, -⟩ := CopyLoop.place_kept { l with m := m₁ } y (l.m.mem.mbuf x) off count
  have hcount := hrefs md hmdfree
  rw [hpaddrs]
  cases hc : (m₁.mem.mbuf y).mPaddr with
  | none =>
    have hatt₁ : m₁.attached = l.m.attached := funext fun c => hgot.attached c (by simp [hc])
    rw [Option.toList_none, append_nil]
    refine ⟨hsame _ _ _ (hatt.trans hatt₁) (hrte.trans (hgot.missing hc)) h, fun c hcfree => ?_⟩
    rw [hrte, hgot.missing hc]
    exact (hrefs c hcfree).trans (by omega)
  | some mc =>
    have hmiddle : (mc :: (l.m.paddrs zs ++ hs)).Perm (l.m.paddrs zs ++ [mc] ++ hs) := by
      rw [append_assoc]
      exact perm_middle.symm
    refine ⟨hsame _ _ _ hatt hrte (hperm _ _ _ hmiddle (hclone _ _ _ _ _ _ hgot hc
      ((hcopy.taken.attached md hmdfree).trans hmddirect) (mem_append_right _ hmdmem)
      (by omega) h)), fun c hcfree => ?_⟩
    have hnew : mc ∈ l.m.freeCells :=
      (hgot.free (hholding _ _ h).pool).mem_iff.mpr (by simp [hc])
    have hcmc : c ≠ mc := fun heq => hcfree (hcopy.taken.pool.mem_iff.mpr
      (mem_append_right _ (heq ▸ hnew)))
    have hold := hrefs c hcfree
    rw [hrte]
    by_cases hcmd : c = md
    · rw [hcmd, hgot.refcnt (by simp [hc])]
      rw [hcmd] at hold
      omega
    · rw [hgot.cells c (by simpa [hc] using Ne.symm hcmc) hcmd]
      omega

end Rounds

structure Accounts (m : CloneMem k n) (hs : List (Fin n)) : Prop extends Holding m hs where
  bound : ∀ d, (hs.map m.owner).count d ≤ 65535
  rest : ∀ p, p ∉ hs → p ∉ hs.map m.owner → p ∈ m.freeCells
  fresh : ∀ p ∈ m.freeCells, m.attached p = none
  home : ∀ e ∈ m.mem.rte.mempool, e.1 = (m.mem.rte.cell e.2).pool

namespace Accounts

theorem mem_free_iff (h : Accounts m hs) : p ∈ m.freeCells ↔ p ∉ hs ∧ p ∉ hs.map m.owner :=
  ⟨h.free p, fun hp => h.rest p hp.1 hp.2⟩

theorem perm (h : Accounts m hs) (hperm : hs.Perm hs') : Accounts m hs' :=
  ⟨h.toHolding.perm hperm, fun d => by rw [← (hperm.map m.owner).count_eq]; exact h.bound d,
    fun p => by rw [← hperm.mem_iff, ← (hperm.map m.owner).mem_iff]; exact h.rest p, h.fresh,
    h.home⟩

theorem congr (h : Accounts m hs) (hatt : m'.attached = m.attached)
    (hrefcnt : ∀ p, (m'.mem.rte.cell p).refcnt = (m.mem.rte.cell p).refcnt)
    (hhome : ∀ p, (m'.mem.rte.cell p).pool = (m.mem.rte.cell p).pool)
    (hpool : m'.mem.rte.mempool = m.mem.rte.mempool) : Accounts m' hs := by
  have hfree : m'.freeCells = m.freeCells := by rw [freeCells, hpool, freeCells]
  have howner : m'.owner = m.owner := by funext p; rw [owner, hatt, owner]
  refine ⟨h.of_same hatt hrefcnt hfree, howner ▸ h.bound, ?_, ?_, ?_⟩
  · rw [howner, hfree]
    exact h.rest
  · rw [hatt, hfree]
    exact h.fresh
  · intro e he
    rw [hhome]
    exact h.home e (hpool ▸ he)

theorem refcnt_le (h : Accounts m hs) (hp : p ∈ hs.map m.owner) :
    (m.mem.rte.cell p).refcnt ≤ 65535 := by
  have hcount : (m.mem.rte.cell p).refcnt = _ := h.counts p hp
  rw [hcount]
  exact h.bound p

theorem cons (h : Accounts m hs)
    (hmore : Holding m' (p :: hs) ∧ (p :: hs).map m'.owner = md :: hs.map m.owner)
    (hless : (m'.mem.rte.cell md).refcnt ≤ 65535) (hatt : ∀ c, c ≠ p → m'.attached c = m.attached c)
    (hperm : m.freeCells.Perm (p :: m'.freeCells))
    (hentries : m'.mem.rte.mempool ⊆ m.mem.rte.mempool)
    (hhome : ∀ c, (m'.mem.rte.cell c).pool = (m.mem.rte.cell c).pool) :
    Accounts m' (p :: hs) := by
  obtain ⟨hholding, hmap⟩ := hmore
  refine ⟨hholding, ?_, ?_, ?_, ?_⟩
  · intro d
    rw [hmap]
    by_cases hd : d = md
    · have hcount : (m'.mem.rte.cell md).refcnt = _ := hholding.counts md (by simp [hmap])
      rw [hmap] at hcount
      rw [hd, ← hcount]
      exact hless
    · rw [count_cons_of_ne (Ne.symm hd)]
      exact h.bound d
  · intro c hcout hcown
    rw [hmap, mem_cons, not_or] at hcown
    rw [mem_cons, not_or] at hcout
    have hold := hperm.mem_iff.mp (h.rest c hcout.2 hcown.2)
    exact (mem_cons.mp hold).resolve_left hcout.1
  · intro c hc
    have hcp : c ≠ p := fun heq =>
      (nodup_cons.mp (hperm.nodup_iff.mp h.pool)).1 (heq ▸ hc)
    rw [hatt c hcp]
    exact h.fresh c (hperm.mem_iff.mpr (.tail _ hc))
  · intro e he
    rw [hhome]
    exact h.home e (hentries he)

theorem alloc {pool : Nat} {rte : Memory n} (h : Accounts m hs)
    (halloc : m.mem.rte.pktmbufAlloc pool = some (p, rte)) :
    Accounts (m.updateRte fun _ => rte) (p :: hs) := by
  cases hfind : m.mem.rte.mempool.find? fun e => e.1 == pool with
  | none => simp [Memory.pktmbufAlloc, hfind] at halloc
  | some e =>
    simp only [Memory.pktmbufAlloc, hfind, Option.some.injEq, Prod.mk.injEq] at halloc
    obtain ⟨rfl, rfl⟩ := halloc
    have hmem : e ∈ m.mem.rte.mempool := mem_of_find?_eq_some hfind
    have hp : e.2 ∈ m.freeCells := List.mem_map_of_mem hmem
    have hperm := (perm_cons_erase hmem).map Prod.snd
    refine h.cons (h.toHolding.cons e.2 hp (.inl rfl) (fun _ _ => rfl)
      (.inl ⟨h.fresh _ hp, rfl⟩) (by simp [updateRte]) (fun hne => absurd rfl hne)
      (fun c hc _ => by simp [updateRte, Memory.modify_cell_of_ne _ _ hc]) hperm)
      (by simp [updateRte]) (fun _ _ => rfl) hperm erase_subset fun c => ?_
    simp only [updateRte, Memory.modify_field _ _ _ _ RteMbuf.pool, ite_self]

theorem freeSeg (h : Accounts m (p :: hs)) : Accounts (m.freeSeg p) hs := by
  have hrel := h.released (h.refcnt_le (List.mem_map_of_mem (by simp)))
  obtain ⟨hholding, hmap⟩ := h.tail hrel
  have hhome : ∀ c, ((m.freeSeg p).mem.rte.cell c).pool = (m.mem.rte.cell c).pool := fun c =>
    m.freeSeg_field p c RteMbuf.pool (fun _ _ => rfl) (fun _ _ => rfl) fun _ _ _ => rfl
  refine ⟨hholding, fun d => ?_, fun c hcout hcown => ?_, fun c hc => ?_, fun e he => ?_⟩
  · have hbound := h.bound d
    rw [map_cons] at hbound
    rw [hmap]
    exact count_le_count_cons.trans hbound
  · rw [hmap] at hcown
    by_cases hnew : c = p ∨ c = m.owner p
    · exact (hrel.free c).mpr (.inr ⟨hnew, hcout, hcown⟩)
    · rw [not_or] at hnew
      refine (hrel.free c).mpr (.inl (h.rest c ?_ ?_))
      · exact not_mem_cons_of_ne_of_not_mem hnew.1 hcout
      · exact not_mem_cons_of_ne_of_not_mem hnew.2 hcown
  · rw [hrel.attached]
    by_cases hcp : c = p
    · rw [hcp, Function.update_self]
    · rw [Function.update_of_ne hcp]
      rcases (hrel.free c).mp hc with hc | ⟨hc, -⟩
      · exact h.fresh c hc
      · rw [hc.resolve_left hcp]
        exact h.attached_owner (by simp)
  · rw [hhome]
    rcases hrel.entries e he with he | he
    · exact h.home e he
    · exact he

theorem keptByRounds {xs : List (Fin k)} {pool bound : Nat} (hsrc : Copyable m xs)
    (hdirect : ∀ x ∈ xs, ∀ p, (m.mem.mbuf x).mPaddr = some p →
      p ∈ hs ∧ m.attached p = none ∧ (m.mem.rte.cell p).refcnt + bound ≤ 65535) :
    KeptByRounds m pool xs fun zs m' => zs.length ≤ bound → Accounts m' (m'.paddrs zs ++ hs) ∧
      ∀ c, c ∉ m.freeCells →
        (m'.mem.rte.cell c).refcnt ≤ (m.mem.rte.cell c).refcnt + zs.length := by
  refine CloneMem.keptByRounds (fun m hs h => h.toHolding) (fun m hs hs' hperm h => h.perm hperm)
    (fun m m' hs hatt hrte h => h.congr hatt (fun p => by rw [hrte]) (fun p => by rw [hrte])
      (by rw [hrte])) ?_ hsrc hdirect
  intro m m' hs md mc y hgot hc hmd hmem hless h
  have hperm := hgot.free h.pool
  rw [hc] at hperm
  refine h.cons (h.toHolding.got hgot hc hmd hmem hless) ?_
    (fun c hcmc => hgot.attached c (by simpa [hc] using Ne.symm hcmc)) hperm hgot.entries hgot.home
  rw [hgot.refcnt (by simp [hc])]
  omega

theorem mFree {y : Fin k} (h : Accounts m ((m.mem.mbuf y).mPaddr.toList ++ hs)) :
    Accounts (m.mFree y).1 hs := by
  cases hp : (m.mem.mbuf y).mPaddr with
  | none =>
    rw [hp] at h
    have hsame : (m.mFree y).1 =
        { m with mem := { m.mem with mbCache := y :: m.mem.mbCache } } := by
      simp [CloneMem.mFree, hp]
    rw [hsame]
    exact h.congr rfl (fun _ => rfl) (fun _ => rfl) rfl
  | some p =>
    rw [hp] at h
    have hfree : Accounts (m.freeSeg p) hs := freeSeg h
    refine hfree.congr ?_ (fun q => ?_) (fun q => ?_) ?_
    all_goals simp [CloneMem.mFree, hp]

end Accounts

end CloneMem

end NetbsdDpdk
