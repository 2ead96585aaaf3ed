import NetbsdDpdk.SlotLink

/-! What a later connection on a slot gets to see of the earlier ones. The rings of a slot are not
emptied when it changes hands; as long as a slot is only taken with empty rings, no chain is
passed on to a later connection. -/

namespace NetbsdDpdk

open List

namespace ServiceState

structure DescOk (s : ServiceState) (i : Slot) (d : LocalDesc) : Prop where
  conn : ∀ g, d.held = some g ∨ d.closing = some g →
    g ≤ s.gen i ∧ ∀ b ∈ chains (d.localCache.items ++ d.shadow.toList), g ≤ b.gen
  cache : d.localCache.items ≠ [] → d.held ≠ none ∨ d.closing ≠ none ∨ s.ownership.Lost i

structure Isolated (s : ServiceState) : Prop where
  tx : ∀ i, ∀ b ∈ (s.rings i).txRing.items, s.gen i ≤ b.gen
  rx : ∀ i, ∀ b ∈ chains (s.rings i).rxRing.items, s.gen i ≤ b.gen
  desc : ∀ a i, DescOk s i (s.app a i)
  past : ∀ p ∈ s.past, p.2 ≤ p.1

variable {s t : ServiceState} {i : Slot} {g a : Nat}

theorem DescOk.step {d : LocalDesc} (h : DescOk s i d) (hown : s.ownership.Step t.ownership)
    (hgen : s.gen i ≤ t.gen i) : DescOk t i d where
  conn := by
    intro g hg
    obtain ⟨hle, hb⟩ := h.conn g hg
    exact ⟨hle.trans hgen, hb⟩
  cache := by
    intro hne
    rcases h.cache hne with hheld | hclosing | hlost
    · exact .inl hheld
    · exact .inr (.inl hclosing)
    · exact .inr (.inr (hlost.step hown))

/-- What a step has to show: the chains on the rings are old ones of the same connection or new
enough, and each descriptor is an old one or fine by itself. -/
theorem Isolated.frame (h : Isolated s) (hown : s.ownership.Step t.ownership)
    (hgen : ∀ i, s.gen i ≤ t.gen i)
    (htx : ∀ i, ∀ b ∈ (t.rings i).txRing.items,
      b ∈ (s.rings i).txRing.items ∧ t.gen i = s.gen i ∨ t.gen i ≤ b.gen)
    (hrx : ∀ i, ∀ b ∈ chains (t.rings i).rxRing.items,
      b ∈ chains (s.rings i).rxRing.items ∧ t.gen i = s.gen i ∨ t.gen i ≤ b.gen)
    (hdesc : ∀ a i, t.app a i = s.app a i ∨ DescOk t i (t.app a i))
    (hpast : ∀ p ∈ t.past, p ∈ s.past ∨ p.2 ≤ p.1) : Isolated t where
  tx := by
    intro i b hb
    rcases htx i b hb with ⟨hold, hg⟩ | hle
    · exact hg ▸ h.tx i b hold
    · exact hle
  rx := by
    intro i b hb
    rcases hrx i b hb with ⟨hold, hg⟩ | hle
    · exact hg ▸ h.rx i b hold
    · exact hle
  desc := by
    intro a i
    rcases hdesc a i with heq | hok
    · exact heq ▸ (h.desc a i).step hown (hgen i)
    · exact hok
  past := by
    intro p hp
    rcases hpast p hp with hold | hle
    · exact h.past p hold
    · exact hle

theorem mem_handledFor {bs : List Buf} {p : Nat × Nat} (hp : p ∈ handledFor g bs)
    (hle : ∀ b ∈ bs, g ≤ b.gen) : p.2 ≤ p.1 := by
  obtain ⟨b, hb, rfl⟩ := List.mem_map.mp hp
  exact hle b hb

theorem chains_append (xs ys : List RxItem) : chains (xs ++ ys) = chains xs ++ chains ys :=
  filterMap_append

theorem Isolated.cache_nil (h : Isolated s) (hsound : s.ownership.Sound) (hidle : s.Idle a)
    (hi : i ∈ s.freeConnections.items) :
    (s.app a i).held = none ∧ (s.app a i).localCache.items = [] := by
  have hheld : (s.app a i).held = none := by
    have := (hsound.free i hi).2.2 a
    simpa [ownership] using this
  refine ⟨hheld, ?_⟩
  by_contra hne
  rcases (h.desc a i).cache hne with hh | hc | hl
  · exact hh hheld
  · exact hc (hidle i)
  · exact hl.free hi

theorem chains_subset {xs ys : List RxItem} (h : xs ⊆ ys) : chains xs ⊆ chains ys := by
  intro b hb
  obtain ⟨x, hx, hxb⟩ := mem_filterMap.mp hb
  exact mem_filterMap.mpr ⟨x, h hx, hxb⟩

theorem Isolated.take (h : Isolated s) (hsound : s.ownership.Sound)
    (hown : s.ownership.Step t.ownership) (hidle : s.Idle a)
    (hi : i ∈ s.freeConnections.items) (htx : (s.rings i).txRing.items = [])
    (hrx : (s.rings i).rxRing.items = []) (ht : TookSlot s a i t) : Isolated t := by
  have hgen_ne (j : Slot) (hj : j ≠ i) : t.gen j = s.gen j := by simp [ht.gen, hj]
  refine h.frame hown ?_ ?_ ?_ ?_ fun p hp => .inl (ht.past ▸ hp)
  · intro j
    by_cases hj : j = i
    · simp [ht.gen, hj]
    · exact (hgen_ne j hj).ge
  · intro j b hb
    rw [ht.tx j] at hb
    have hj : j ≠ i := by
      intro hj
      simp [hj, htx] at hb
    exact .inl ⟨hb, hgen_ne j hj⟩
  · intro j b hb
    have hb' := chains_subset (ht.rx j) hb
    have hj : j ≠ i := by
      intro hj
      simp [hj, hrx, chains] at hb'
    exact .inl ⟨hb', hgen_ne j hj⟩
  · intro b j
    rcases ht.opens b j with heq | ⟨rfl, rfl, hcache, hshadow, hclosing, hheld⟩
    · exact .inl heq
    · right
      obtain ⟨hnone, hnil⟩ := h.cache_nil hsound hidle hi
      have hidle' := hidle j
      constructor
      · intro g hg
        have hg' : g = t.gen j := by
          rcases hheld with hheld | hheld
          · simp_all
          · simp_all
        refine ⟨hg'.le, ?_⟩
        simp [hcache, hnil, hshadow, chains]
      · rw [hcache]
        exact fun hne => absurd hnil hne

theorem Popped.isolated (ht : Popped s t) (h : Isolated s) : Isolated t := by
  have hgen (i : Slot) : t.gen i = s.gen i := by rw [ht.gen]
  refine h.frame ht.stay (fun i => (hgen i).ge) ?_ ?_ (fun _ _ => .inl (by rw [ht.app]))
    fun p hp => .inl (ht.past ▸ hp)
  · intro j b hb
    rw [ht.tx j] at hb
    exact .inl ⟨hb, hgen j⟩
  · exact fun j b hb => .inl ⟨chains_subset (ht.rx j) hb, hgen j⟩

def takes (s : ServiceState) : ServiceAction → Option Slot
  | .openSocket .. => s.freeConnections.items.head?
  | .accept _ l => if (s.rings l).rxRing.items = [] then none else s.freeConnections.items.head?
  | _ => none

def TakesDrained (s : ServiceState) (act : ServiceAction) : Prop :=
  ∀ i ∈ s.takes act, (s.rings i).txRing.items = [] ∧ (s.rings i).rxRing.items = []

instance (s : ServiceState) (act : ServiceAction) : Decidable (s.TakesDrained act) :=
  inferInstanceAs (Decidable (∀ i ∈ s.takes act, _))

theorem lost_of_giveUp (hsound : s.ownership.Sound) (hheld : (s.app a i).held ≠ none)
    (hpend : t.chan.pend = s.chan.pend)
    (hfree : t.freeConnections = s.freeConnections)
    (happ : ∀ b, (t.app b i).held = if b = a then none else (s.app b i).held) :
    t.ownership.Lost i := by
  -- the holder of a slot has it alone; once it gives the slot up without a command, nobody can
  -- take the slot again
  have hheld' : s.ownership.held a i = true := Option.isSome_iff_ne_none.mpr hheld
  constructor
  · intro hi
    have hi' : i ∈ s.ownership.free := by
      show i ∈ s.freeConnections.items
      rwa [← hfree]
    have := (hsound.free i hi').2.2 a
    simp_all
  · show .close ∉ t.chan.pend i
    rw [hpend]
    exact hsound.held a i hheld'
  · intro b
    show (t.app b i).held.isSome = false
    rw [happ b]
    by_cases hb : b = a
    · simp [hb]
    · rw [if_neg hb]
      by_contra hne
      exact hb (hsound.unique b a i (Option.isSome_iff_ne_none.mpr (by simpa using hne)) hheld')

theorem Isolated.of_eq (h : Isolated s) (hown : s.ownership.Step t.ownership) (hgen : t.gen = s.gen)
    (hrings : t.rings = s.rings) (happ : t.app = s.app)
    (hpast : t.past = s.past) : Isolated t :=
  h.frame hown (fun _ => by rw [hgen]) (fun _ b hb => .inl ⟨hrings ▸ hb, by rw [hgen]⟩)
    (fun _ b hb => .inl ⟨hrings ▸ hb, by rw [hgen]⟩) (fun _ _ => .inl (by rw [happ]))
    (fun p hp => .inl (hpast ▸ hp))

theorem setRings_isolated (h : Isolated s) {r : SlotRings}
    (htx : ∀ b ∈ r.txRing.items, s.gen i ≤ b.gen)
    (hrx : ∀ b ∈ chains r.rxRing.items, s.gen i ≤ b.gen) : Isolated (s.setRings i r) := by
  have hown : s.ownership.Step (s.setRings i r).ownership := .stay
  refine h.frame hown (fun _ => le_rfl) ?_ ?_ (fun _ _ => .inl rfl) (fun p hp => .inl hp)
  · intro j b hb
    by_cases hj : j = i
    · subst hj
      exact .inr (htx b (by simpa [setRings] using hb))
    · exact .inl ⟨by simpa [setRings, hj] using hb, rfl⟩
  · intro j b hb
    by_cases hj : j = i
    · subst hj
      exact .inr (hrx b (by simpa [setRings] using hb))
    · exact .inl ⟨by simpa [setRings, hj] using hb, rfl⟩

theorem desc_isolated (h : Isolated s) (chan : CommandChannel) {d : LocalDesc}
    (hown : s.ownership.Step ({ s with chan }.setDesc a i d).ownership)
    (hd : DescOk ({ s with chan }.setDesc a i d) i d) :
    Isolated ({ s with chan }.setDesc a i d) := by
  refine h.frame hown (fun _ => le_rfl) (fun _ b hb => .inl ⟨hb, rfl⟩)
    (fun _ b hb => .inl ⟨hb, rfl⟩) ?_ (fun p hp => .inl hp)
  intro b j
  have happ := setDesc_app { s with chan } a i d b j
  by_cases hbj : b = a ∧ j = i
  · rw [if_pos hbj] at happ
    rw [happ, hbj.2]
    exact .inr hd
  · rw [if_neg hbj] at happ
    exact .inl happ

theorem setDesc_isolated (h : Isolated s) {d : LocalDesc} (hheld : d.held = (s.app a i).held)
    (hd : DescOk s i d) : Isolated (s.setDesc a i d) := by
  have hown := (Quiet.setDesc a i d hheld).stay
  exact desc_isolated h s.chan hown (hd.step hown le_rfl)

theorem histories_isolated (h : Isolated s) {sent returned flushed : List (Nat × Nat)}
    (hpast : ∀ p ∈ sent ++ returned ++ flushed, p ∈ s.past ∨ p.2 ≤ p.1) :
    Isolated { s with sent, returned, flushed } :=
  h.frame (Quiet.histories s sent returned flushed).stay (fun _ => le_rfl)
    (fun _ _ hb => .inl ⟨hb, rfl⟩) (fun _ _ hb => .inl ⟨hb, rfl⟩) (fun _ _ => .inl rfl) hpast

theorem closeCommand_isolated (h : Isolated s) (hsound : s.ownership.Sound)
    (hheld : (s.app a i).held ≠ none) : Isolated (s.closeCommand a i) := by
  have hown := closeCommand_ownership hheld
  have hd := h.desc a i
  cases hget : s.chan.getFreeCommandBuf with
  | none =>
    simp only [closeCommand, hget] at hown ⊢
    refine desc_isolated h s.chan hown
      ⟨fun g hg => hd.conn g (hg.elim (by simp) .inr), fun _ => .inr (.inr ?_)⟩
    refine lost_of_giveUp hsound hheld rfl rfl ?_
    intro c
    rw [setDesc_app]
    by_cases hc : c = a <;> simp [hc]
  | some bc =>
    simp only [closeCommand, hget] at hown ⊢
    exact desc_isolated h _ hown ⟨fun g hg => hd.conn g (.inl (hg.elim (by simp) id)),
      fun _ => .inr (.inl hheld)⟩

theorem flushRx_isolated (h : Isolated s) (hclosing : (s.app a i).closing = some g) :
    Isolated (s.flushRx a i g) := by
  obtain ⟨hle, hchains⟩ := (h.desc a i).conn g (.inr hclosing)
  have h1 : Isolated (s.setRings i { s.rings i with rxRing := Fifo.empty }) :=
    setRings_isolated h (h.tx i) (by simp [chains])
  have h2 := setDesc_isolated h1 (a := a) (i := i)
    (d := { s.app a i with closing := none, localCache := Fifo.empty, shadow := none }) rfl
    ⟨fun g' hg' => ⟨((h.desc a i).conn g' (hg'.imp id (by simp))).1, by simp [chains]⟩, by simp⟩
  refine histories_isolated h2 fun p hp => ?_
  have hp' : p ∈ s.past ∨ p ∈ handledFor g (chains ((s.app a i).localCache.items ++
      (s.rings i).rxRing.items ++ (s.app a i).shadow.toList)) := by
    simp only [past, setRings, setDesc, mem_append] at hp ⊢
    tauto
  refine hp'.imp id fun hp => mem_handledFor hp ?_
  intro b hb
  simp only [chains_append, mem_append] at hb hchains
  rcases hb with (hb | hb) | hb
  · exact hchains b (.inl hb)
  · exact hle.trans (h.rx i b hb)
  · exact hchains b (.inr hb)

theorem receiveRings_isolated (h : Isolated s) (hheld : (s.app a i).held = some g)
    (hclosing : (s.app a i).closing = none) (keep : Bool) :
    Isolated (s.receiveRings a i g keep) := by
  obtain ⟨hle, hchains⟩ := (h.desc a i).conn g (.inl hheld)
  obtain ⟨x, localCache, rxRing, hdeq⟩ : ∃ x localCache rxRing,
      dequeueRings (s.app a i).localCache (s.rings i).rxRing = (x, localCache, rxRing) :=
    ⟨_, _, _, rfl⟩
  obtain ⟨hsplit, k, hdrop⟩ := dequeueRings_spec hdeq
  -- whatever was in the cache or on the ring is of the connection or newer
  have hall : ∀ b ∈ chains (x.toList ++ localCache.items ++ rxRing.items), g ≤ b.gen := by
    rw [hsplit]
    intro b hb
    simp only [chains_append, mem_append] at hb hchains
    rcases hb with hb | hb
    · exact hchains b (.inl hb)
    · exact hle.trans (h.rx i b hb)
  simp only [chains_append, mem_append] at hall hchains
  have h1 : Isolated (s.setRings i { s.rings i with rxRing }) := by
    refine setRings_isolated h (h.tx i) fun b hb => h.rx i b ?_
    rw [hdrop] at hb
    exact chains_subset (drop_subset k _) hb
  have h2 := setDesc_isolated h1 (a := a) (i := i)
    (d := { s.app a i with localCache, shadow := if keep then x else (s.app a i).shadow }) rfl (by
      refine ⟨?_, fun _ => .inl (by simp [hheld])⟩
      intro g' hg'
      obtain rfl : g = g' := by simpa [hheld, hclosing] using hg'
      refine ⟨hle, fun c hc => ?_⟩
      rw [chains_append, mem_append] at hc
      rcases hc with hc | hc
      · exact hall c (.inl (.inr hc))
      · cases keep with
        | true => exact hall c (.inl (.inl hc))
        | false => exact hchains c (.inr hc))
  have h3 := h2.of_eq (sendRxKick_quiet i).stay rfl rfl rfl rfl
  simp only [receiveRings, hdeq]
  refine histories_isolated h3 fun p hp => ?_
  have hp' : p ∈ s.past ∨ p ∈ handledFor g (chains x.toList) := by
    simp only [past, setRings, setDesc, mem_append] at hp ⊢
    tauto
  exact hp'.imp id fun hp => mem_handledFor hp fun b hb => hall b (.inl (.inl hb))

theorem receiveShadow_isolated (h : Isolated s) (hheld : (s.app a i).held = some g) (keep : Bool) :
    Isolated (s.receiveShadow a i g keep) := by
  obtain ⟨hle, hchains⟩ := (h.desc a i).conn g (.inl hheld)
  simp only [chains_append, mem_append] at hchains
  have h1 : Isolated { s with
      returned := s.returned ++ handledFor g (chains (s.app a i).shadow.toList) } := by
    refine histories_isolated h fun p hp => ?_
    have hp' : p ∈ s.past ∨ p ∈ handledFor g (chains (s.app a i).shadow.toList) := by
      simp only [past, mem_append] at hp ⊢
      tauto
    exact hp'.imp id fun hp => mem_handledFor hp fun b hb => hchains b (.inr hb)
  cases keep with
  | true => exact h1
  | false =>
    refine setDesc_isolated h1 rfl ⟨?_, fun _ => .inl (by simp [hheld])⟩
    intro g' hg'
    obtain ⟨hle', hchains'⟩ := (h.desc a i).conn g' hg'
    refine ⟨hle', fun c hc => hchains' c ?_⟩
    simp only [chains_append, mem_append] at hc ⊢
    exact .inl (by simpa [chains] using hc)

theorem receive_isolated (h : Isolated s) (hidle : s.Idle a) (hheld : (s.app a i).held = some g)
    (more keep : Bool) :
    Isolated (s.receive a i g more keep) := by
  unfold receive
  split
  · exact receiveRings_isolated h hheld (hidle i) keep
  · exact receiveShadow_isolated h hheld keep
  · have happ : (s.receiveShadow a i g false).app a i = { s.app a i with shadow := none } := by
      simp [receiveShadow, setDesc]
    exact receiveRings_isolated (receiveShadow_isolated h hheld false) (by rw [happ]; exact hheld)
      (by rw [happ]; exact hidle i) keep

theorem enqueueTxBuf_isolated (h : Isolated s) (i : Slot) (id : Nat) :
    Isolated (s.enqueueTxBuf i id) := by
  unfold enqueueTxBuf
  split
  · exact h
  · next txRing henq =>
    apply setRings_isolated h
    · intro b hb
      rw [(Fifo.enqueue_eq_some_iff.mp henq).2, mem_append, mem_singleton] at hb
      rcases hb with hb | rfl
      · exact h.tx i b hb
      · exact le_rfl
    · exact h.rx i

theorem onTransmissionOpportunity_isolated (h : Isolated s) (hlink : LinkInv s) (so : SocketPtr)
    (refused : Option Nat) : Isolated (s.onTransmissionOpportunity so refused) := by
  unfold onTransmissionOpportunity
  split
  · exact h
  · next st hst =>
    split
    · next i j g hglue hconn =>
      obtain ⟨hg, hle⟩ := hlink.conn so st hst
      obtain rfl : i = j := by simpa [hconn, hglue] using hg
      have h1 : Isolated (s.setRings i { s.rings i with txRing := Fifo.empty }) :=
        setRings_isolated h (by simp) (h.rx i)
      refine histories_isolated h1 fun p hp => ?_
      simp only [past, setRings, mem_append] at hp ⊢
      rcases hp with ((hp | hp) | hp) | hp
      · exact .inl (.inl (.inl hp))
      · right
        apply mem_handledFor hp
        intro b hb
        have hb' : b ∈ (s.rings i).txRing.items := by
          revert hb
          split
          · exact mem_of_mem_take
          · exact id
        exact (hle i g hconn).trans (h.tx i b hb')
      · exact .inl (.inl (.inr hp))
      · exact .inl (.inr hp)
    · exact h

theorem submitRxBuf_isolated (h : Isolated s) (hlink : LinkInv s) {so : SocketPtr} {id : Nat}
    {st : StackSocket} (hst : s.sock so = some st)
    (hslot : st.glueingBlock = some i ∨ (s.sat i).socket = some so)
    (hsubmit : s.submitRxBuf i so id = some t) : Isolated t := by
  obtain ⟨st', j, g, hst', hclosed, hconn, rxRing, henq, rfl⟩ := submitRxBuf_eq_some hsubmit
  obtain rfl : st = st' := by simpa [hst] using hst'
  have hsat : (s.sat i).socket = some so := by
    rcases hslot with hglue | hsat
    · obtain rfl : j = i := by simpa [hconn, hglue] using (hlink.conn so st hst).1.symm
      exact hlink.back so st j g hst hclosed hconn
    · exact hsat
  have hg : g = s.gen i := by
    obtain ⟨st', hst', -, hconn'⟩ := hlink.live i so hsat
    obtain rfl : st = st' := by simpa [hst] using hst'
    rw [hconn, Option.some.injEq, Prod.mk.injEq] at hconn'
    exact hconn'.2
  refine setRings_isolated h (r := { s.rings i with rxRing }) (h.tx i) ?_
  intro b hb
  rw [(Fifo.enqueue_eq_some_iff.mp henq).2, chains_append, mem_append] at hb
  rcases hb with hb | hb
  · exact h.rx i b hb
  · obtain rfl : b = ⟨id, g⟩ := by simpa [chains] using hb
    exact hg.ge

theorem notifyAccepted_isolated (h : Isolated s) (l : Slot) (so : SocketPtr) (ipaddr port : Nat) :
    Isolated (s.notifyAccepted l so ipaddr port) ∧
      (s.notifyAccepted l so ipaddr port).ownership = s.ownership := by
  obtain ⟨u, hu⟩ : ∃ u, s.setSock so (some { type := .stream }) = u := ⟨_, rfl⟩
  have hown : u.ownership = s.ownership := by rw [← hu]; rfl
  have h1 : Isolated u := h.of_eq (hown ▸ .stay) (by rw [← hu]; rfl) (by rw [← hu]; rfl)
    (by rw [← hu]; rfl) (by rw [← hu]; rfl)
  cases hget : u.chan.getFreeCommandBuf with
  | none =>
    simp only [notifyAccepted, hu, hget]
    exact ⟨h1, hown⟩
  | some bc =>
    obtain ⟨b, chan⟩ := bc
    have hpend := CommandChannel.pend_of_ring (CommandChannel.getFreeCommandBuf_eq_some hget).2
    have hsame (chan' : CommandChannel) (h' : chan'.pend = u.chan.pend) :
        { u with chan := chan' }.ownership = u.ownership := by simp [ownership, h']
    have h2 (chan' : CommandChannel) (h' : chan'.pend = u.chan.pend) :
        Isolated { u with chan := chan' } := h1.of_eq (hsame chan' h' ▸ .stay) rfl rfl rfl rfl
    cases henq : (u.rings l).rxRing.enqueue (.accepted b so ipaddr port) with
    | none =>
      simp only [notifyAccepted, hu, hget, henq]
      exact ⟨h2 (chan.freeCommandBuf b) hpend, (hsame (chan.freeCommandBuf b) hpend).trans hown⟩
    | some rxRing =>
      simp only [notifyAccepted, hu, hget, henq]
      refine ⟨setRings_isolated (h2 chan hpend) (r := { u.rings l with rxRing }) (h1.tx l) ?_,
        (hsame chan hpend).trans hown⟩
      intro c hc
      rw [(Fifo.enqueue_eq_some_iff.mp henq).2, chains_append, mem_append] at hc
      rcases hc with hc | hc
      · exact h1.rx l c hc
      · simp [chains] at hc

theorem processCommand_isolated (h : Isolated s) (hlink : LinkInv s) {chan : CommandChannel}
    {b : Nat} {cmd : ServiceCmd} (hdeq : s.chan.dequeueCommandBuf = some (b, cmd, chan))
    (created : Option SocketPtr) (refused : Option Nat) :
    Isolated ({ s with chan }.processCommand created refused cmd) := by
  have hserved := processCommand_served { s with chan } created refused cmd
  rcases hserved.rings with ⟨i, rfl⟩ | ⟨hrings, hpast⟩
  · have hquiet := dequeueCommandBuf_quiet hdeq (fun _ => rfl)
    have h1 : Isolated { s with chan } := h.of_eq hquiet.stay rfl rfl rfl rfl
    simp only [processCommand]
    split
    · exact onTransmissionOpportunity_isolated h1 (hquiet.linkInv hlink) _ refused
    · exact h1
  · exact h.of_eq (processCommand_ownership hdeq created refused) hserved.gen hrings hserved.app
      hpast

theorem start_isolated (pool : List Nat) : Isolated (start pool) where
  tx _ _ hb := by cases hb
  rx _ _ hb := by cases hb
  desc _ _ := {
    conn := fun _ hg => hg.elim (fun h => by cases h) (fun h => by cases h)
    cache := fun hne => absurd rfl hne }
  past _ hp := by cases hp

structure ConnInv (s : ServiceState) : Prop where
  sound : s.ownership.Sound
  link : LinkInv s
  isolated : Isolated s

end ServiceState

namespace ServiceState.ConnInv

variable {s t : ServiceState}

theorem quiet (h : s.ConnInv) (hq : Quiet s t) (hiso : Isolated t) : t.ConnInv :=
  ⟨hq.ownership ▸ h.sound, hq.linkInv h.link, hiso⟩

theorem leaves (h : s.ConnInv) {sends : Prop} {r : Taken} (hidle : s.Idle a)
    (hout : TakeOutcome s a sends r) (hleft : s.Leaves a r.state r.slot)
    (hdrain : ∀ i, r.slot = some i → (s.rings i).txRing.items = [] ∧
      (s.rings i).rxRing.items = []) : r.state.ConnInv := by
  have hown := hout.step
  rcases hout with ⟨hslot, -⟩ | ⟨i, rest, hfree, hslot, -⟩
  · rw [hslot] at hleft
    exact h.quiet hleft.toQuiet (hleft.isolated h.isolated)
  · have hi : i ∈ s.freeConnections.items := by simp [hfree]
    obtain ⟨htx, hrx⟩ := hdrain i hslot
    rw [hslot] at hleft
    exact ⟨h.sound.step hown, h.link.take (sat_of_free h.sound hi) hleft,
      h.isolated.take h.sound hown hidle hi htx hrx hleft⟩

end ServiceState.ConnInv

open ServiceState in
theorem serviceStep_connInv {s t : ServiceState} {act : ServiceAction} (h : s.ConnInv)
    (hdrain : s.TakesDrained act) (hstep : serviceStep s act = some t) : t.ConnInv := by
  cases act with
  | openSocket a type parent =>
    obtain ⟨hidle, rfl⟩ := serviceStep_openSocket.mp hstep
    obtain ⟨hout, -, hleft⟩ := openSocket_outcome (s := s) a type parent
    refine h.leaves hidle hout hleft fun i hi => hdrain i ?_
    rcases hout with ⟨hslot, -⟩ | ⟨j, rest, hfree, hslot, -⟩ <;> simp_all [takes]
  | accept a l =>
    obtain ⟨hidle, -, r, hr, rfl⟩ := serviceStep_accept.mp hstep
    obtain ⟨hout, hnone, hleft⟩ := accept_outcome hr
    refine h.leaves hidle hout hleft fun i hi => hdrain i ?_
    rcases hout with ⟨hslot, -⟩ | ⟨j, rest, hfree, hslot, -⟩ <;> simp_all [takes]
  | send a i id =>
    obtain ⟨-, -, rfl⟩ := serviceStep_send.mp hstep
    exact h.quiet (enqueueTxBuf_quiet i id) (enqueueTxBuf_isolated h.isolated i id)
  | receive a i more keep =>
    obtain ⟨hidle, g, hheld, rfl⟩ := serviceStep_receive.mp hstep
    exact h.quiet (receive_quiet a i g more keep)
      (receive_isolated h.isolated hidle hheld more keep)
  | command a cmd =>
    obtain ⟨⟨-, hcmd⟩, rfl⟩ := serviceStep_command.mp hstep
    have hquiet := command_quiet (s := s) hcmd
    refine h.quiet hquiet ?_
    unfold command at hquiet ⊢
    split
    · exact h.isolated
    · next hget =>
      simp only [hget] at hquiet
      exact h.isolated.of_eq hquiet.stay rfl rfl rfl rfl
  | close a i =>
    obtain ⟨-, hheld, rfl⟩ := serviceStep_close.mp hstep
    exact ⟨h.sound.step (closeCommand_ownership hheld), closeCommand_linkInv h.link a i,
      closeCommand_isolated h.isolated h.sound hheld⟩
  | flush a i =>
    obtain ⟨g, hclosing, rfl⟩ := serviceStep_flush.mp hstep
    exact h.quiet (flushRx_quiet a i g) (flushRx_isolated h.isolated hclosing)
  | process created refused =>
    obtain ⟨b, cmd, chan, hdeq, hcreated, u, rfl, rfl⟩ := serviceStep_process.mp hstep
    -- giving the command buffer back changes nothing that the parts speak of
    exact ⟨h.sound.step (processCommand_ownership hdeq created refused),
      (processCommand_linkInv h.link h.sound hdeq hcreated refused).of_le (fun _ => rfl) rfl rfl
        fun _ => le_rfl,
      (processCommand_isolated h.isolated h.link hdeq created refused).of_eq .stay rfl rfl rfl rfl⟩
  | transmit so refused =>
    obtain rfl : _ = t := by simpa [serviceStep] using hstep
    exact h.quiet (onTransmissionOpportunity_quiet so refused)
      (onTransmissionOpportunity_isolated h.isolated h.link so refused)
  | deliver i so id =>
    obtain ⟨st, hst, hslot, hsubmit⟩ := serviceStep_deliver.mp hstep
    exact h.quiet (submitRxBuf_quiet hsubmit)
      (submitRxBuf_isolated h.isolated h.link hst hslot hsubmit)
  | accepted l so ipaddr port =>
    obtain ⟨⟨hnone, -⟩, rfl⟩ := serviceStep_accepted.mp hstep
    obtain ⟨hiso, hown⟩ := notifyAccepted_isolated h.isolated l so ipaddr port
    exact ⟨hown ▸ h.sound, notifyAccepted_linkInv h.link hnone l ipaddr port, hiso⟩
  | gone so =>
    obtain ⟨st, hst, hclosed, rfl⟩ := serviceStep_gone.mp hstep
    exact ⟨h.sound, h.link.gone hst hclosed, h.isolated.of_eq .stay rfl rfl rfl rfl⟩

/-- Where slots are taken with drained rings, nothing of a connection reaches a later one. -/
theorem not_passed_to_later {pool : List Nat} {acts : List ServiceAction} {s : ServiceState}
    (hrun : Run serviceStep ServiceState.TakesDrained (.start pool) acts s) :
    ¬ ∃ p ∈ s.sent ++ s.returned ++ s.flushed, p.1 < p.2 := by
  have h := hrun.invariant (I := ServiceState.ConnInv)
    (fun _ _ _ h hok => serviceStep_connInv h hok)
    ⟨start_sound pool, start_linkInv pool, ServiceState.start_isolated pool⟩
  rintro ⟨p, hp, hlt⟩
  have := h.isolated.past p hp
  omega

def openAll : List ServiceAction :=
  List.replicate 15 (.openSocket 1 .stream none) ++
    (List.range 15).map fun so => .process (some so) none

def reuseDrained : List ServiceAction :=
  openAll ++ [.send 1 0 7, .transmit 0 none, .close 1 0, .flush 1 0, .process none none,
    .openSocket 2 .stream none, .process (some 20) none, .send 2 0 8, .transmit 20 none]

theorem not_passed_to_later_reuse :
    ∃ s, Run serviceStep ServiceState.TakesDrained (.start (List.range 20)) reuseDrained s ∧
      s.sent = [(1, 1), (2, 2)] ∧ ¬ ∃ p ∈ s.sent ++ s.returned ++ s.flushed, p.1 < p.2 :=
  Run.exists_and_of_runActions (by decide +kernel) fun _ hrun _ => not_passed_to_later hrun

def reuseUndrained : List ServiceAction :=
  openAll ++ [.send 1 0 7, .close 1 0, .flush 1 0, .process none none,
    .openSocket 2 .stream none, .process (some 20) none, .transmit 20 none]

theorem passed_to_later :
    ∃ s, Run serviceStep (fun _ _ => True) (.start (List.range 20)) reuseUndrained s ∧
      (1, 2) ∈ s.sent :=
  Run.exists_of_runActions (by decide +kernel)

end NetbsdDpdk
