import NetbsdDpdk.FdArrays

/-! Runs of an application thread that prepares fd sets and calls `service_select`, while the server
posts words on the selector's ring. The invariant of the arrays holds throughout, and what a call
reports comes from the words it took itself. -/

namespace NetbsdDpdk

open List Function

abbrev ReadyWord := BitVec 64

def ReadyBit.mask : ReadyBit → BitVec 64
  | .readable => 1#64
  | .writable => 2#64
  | .closed => 4#64

namespace ReadyWord

def idx (w : ReadyWord) : Nat := (w &&& 0xFFFF#64).toNat

def has (w : ReadyWord) (bit : ReadyBit) : Bool := (w >>> 16) &&& bit.mask != 0#64

end ReadyWord

structure FdCall (ι : Type) where
  fdsets : ReadyBit → Option ι
  timeout : Timeout
  exitAfterCheck : Bool := false
  interest : ι → Nat → UInt8
  dequeued : List ReadyWord := []

structure FdReturn (ι : Type) where
  ret : Int
  call : FdCall ι

section Loops

variable {ι : Type} [DecidableEq ι]

def onSet (sets : ι → FdArrays) (fdset : Option ι) (f : FdArrays → Option FdArrays) :
    Option (ι → FdArrays) :=
  fdset.elim (some sets) fun i => (f (sets i)).map (Function.update sets i)

def resetSets (sets : ι → FdArrays) (fdsets : ReadyBit → Option ι) : Option (ι → FdArrays) := do
  let sets ← onSet sets (fdsets .readable) FdArrays.resetReturned
  let sets ← onSet sets (fdsets .writable) FdArrays.resetReturned
  onSet sets (fdsets .closed) FdArrays.resetReturned

def returnedCount (sets : ι → FdArrays) (fdsets : ReadyBit → Option ι) : Nat :=
  ((fdsets .readable).elim 0 fun i => (sets i).returnedIdx) +
    ((fdsets .writable).elim 0 fun i => (sets i).returnedIdx) +
    ((fdsets .closed).elim 0 fun i => (sets i).returnedIdx)

def updateOn (fdsets : ReadyBit → Option ι) (bit : ReadyBit) (w : ReadyWord)
    (sets : ι → FdArrays) : Option (ι → FdArrays) :=
  if w.has bit = true then onSet sets (fdsets bit) fun a => a.serviceUpdateFdset w.idx
  else some sets

/-- The body of the loop over a batch. An index beyond the pool ends the process. -/
def handleWord (fdsets : ReadyBit → Option ι) (sets : ι → FdArrays) (w : ReadyWord) :
    Option (ι → FdArrays) := do
  guard (w.idx < connectionPoolSize)
  let sets ← updateOn fdsets .readable w sets
  if w.has .closed = true ∧ (fdsets .closed).isSome = true then updateOn fdsets .closed w sets
  else updateOn fdsets .writable w sets

end Loops

/-- `zeroed` says which sets have been through `service_fdzero`, `returned` what the last call gave
until the application goes on, and `fault` that an access was outside an array or the process has
ended. -/
structure FdMachine (ι : Type) where
  sets : ι → FdArrays
  zeroed : ι → Bool := fun _ => false
  ring : List ReadyWord := []
  call : Option (FdCall ι) := none
  anyEventReceived : Nat → Bool := fun _ => false
  returned : Option (FdReturn ι) := none
  fault : Bool := false

inductive FdAction (ι : Type)
  | fdzero (i : ι)
  | fdset (i : ι) (sock : Nat)
  | fdclear (i : ι) (sock : Nat)
  | select (fdsets : ReadyBit → Option ι) (timeout : Timeout)
  | look (dequeueFails : Bool)
  | post (w : ReadyWord)

namespace FdMachine

variable {ι : Type} [DecidableEq ι]

def attempt (s : FdMachine ι) (sets : Option (ι → FdArrays))
    (next : (ι → FdArrays) → FdMachine ι) : FdMachine ι :=
  sets.elim { s with fault := true } next

def finish (s : FdMachine ι) (c : FdCall ι) (ret : Int) : FdMachine ι :=
  { s with call := none, returned := some ⟨ret, c⟩ }

def look (s : FdMachine ι) (c : FdCall ι) (dequeueFails : Bool) : FdMachine ι :=
  if returnedCount s.sets c.fdsets ≠ 0 then s.finish c (returnedCount s.sets c.fdsets)
  else if s.ring = [] ∨ dequeueFails = true then
    if c.exitAfterCheck = true ∨ c.timeout = .zero then s.finish c (-1)
    else { s with call := some { c with exitAfterCheck := c.timeout ≠ .null } }
  else
    s.attempt (s.ring.foldlM (handleWord c.fdsets) s.sets) fun sets =>
      { s with
        sets := sets
        ring := []
        call := some { c with dequeued := c.dequeued ++ s.ring }
        anyEventReceived := fun k => s.anyEventReceived k || s.ring.any fun w => w.idx == k }

end FdMachine

section Step

variable {ι : Type} [DecidableEq ι]

def fdStep (s : FdMachine ι) : FdAction ι → Option (FdMachine ι)
  | .fdzero i => do
    guard (s.call.isNone = true)
    return { s with
      sets := Function.update s.sets i (s.sets i).serviceFdzero
      zeroed := Function.update s.zeroed i true
      returned := none }
  | .fdset i sock => do
    guard (s.call.isNone = true)
    return s.attempt (onSet s.sets (some i) fun a => a.serviceFdset sock) fun sets =>
      { s with sets := sets, returned := none }
  | .fdclear i sock => do
    guard (s.call.isNone = true)
    return s.attempt (onSet s.sets (some i) fun a => a.serviceFdclear sock) fun sets =>
      { s with sets := sets, returned := none }
  | .select fdsets timeout => do
    guard (s.call.isNone = true)
    return s.attempt (resetSets s.sets fdsets) fun sets =>
      { s with
        sets := sets
        returned := none
        call := some {
          fdsets := fdsets
          timeout := timeout
          interest := fun i => (s.sets i).interestedFlags } }
  | .look dequeueFails => do
    let c ← s.call
    return s.look c dequeueFails
  | .post w => some { s with ring := s.ring ++ [w] }

def DistinctSets (fdsets : ReadyBit → Option ι) : Prop :=
  ∀ bit bit' : ReadyBit, (fdsets bit).isSome = true → fdsets bit = fdsets bit' → bit = bit'

/-- Sets are used after `service_fdzero`, and the words of the server name sockets of the pool. -/
def FdUse (s : FdMachine ι) : FdAction ι → Prop
  | .fdzero _ | .look _ => True
  | .fdset i sock | .fdclear i sock => s.zeroed i = true ∧ sock < serviceMaxSockets
  | .select fdsets _ =>
    DistinctSets fdsets ∧ ∀ bit, ∀ i ∈ fdsets bit, s.zeroed i = true
  | .post w => w.idx < connectionPoolSize

instance ReadyBit.fintype : Fintype ReadyBit where
  elems := {.readable, .writable, .closed}
  complete bit := by cases bit <;> decide

instance (s : FdMachine ι) (a : FdAction ι) : Decidable (FdUse s a) := by
  cases a <;> unfold FdUse <;> try unfold DistinctSets
  all_goals infer_instance

end Step

namespace FdArrays

structure WellFormed (a : FdArrays) : Prop where
  listed : ∀ k < serviceMaxSockets, a.returnedFlags k ≠ 0 →
    ∃ n < a.returnedIdx, a.returnedSockets n = k
  pool : ∀ n < a.returnedIdx, a.returnedSockets n < connectionPoolSize
  distinct : ∀ n < a.returnedIdx, ∀ m < a.returnedIdx,
    a.returnedSockets n = a.returnedSockets m → n = m
  bound : a.returnedIdx ≤ connectionPoolSize

def Reported (a : FdArrays) (k : Nat) : Prop :=
  a.returnedFlags k ≠ 0 ∨ ∃ n < a.returnedIdx, a.returnedSockets n = k

def Tidy (a : FdArrays) : Prop :=
  ∃ fd, Represents a fd ∧ fd.returnedSockets.Nodup

/-- The arrays hold what `service_select` has put into a set since it reset it. -/
def Collected (a : FdArrays) (interest : Nat → UInt8) (bit : ReadyBit)
    (words : List ReadyWord) : Prop :=
  a.interestedFlags = interest ∧ ∃ fd, Represents a fd ∧ fd.returnedSockets.Nodup ∧
    ∀ k ∈ fd.returnedSockets, fd.returnedFlags k = true ∧ fd.interestedFlags k = true ∧
      ∃ w ∈ words, w.idx = k.val ∧ w.has bit = true

variable {a : FdArrays} {fd : FdSet} {interest : Nat → UInt8} {bit : ReadyBit}
  {words : List ReadyWord}

theorem Represents.entry (h : Represents a fd) {n : Nat} (hn : n < a.returnedIdx) :
    ∃ k, fd.returnedSockets[n]? = some k ∧ a.returnedSockets n = k.val := by
  rw [h.idx] at hn
  exact ⟨_, getElem?_eq_getElem hn, h.sockets n _ (getElem?_eq_getElem hn)⟩

theorem Represents.listed (h : Represents a fd) {k : Nat} (hk : k < serviceMaxSockets)
    (hflag : a.returnedFlags k ≠ 0) : ∃ n < a.returnedIdx, a.returnedSockets n = k := by
  have hpool : k < connectionPoolSize := by
    by_contra hge
    exact hflag (h.beyond k (by omega) hk)
  have hmem := fd.listed ⟨k, hpool⟩ ((h.flags ⟨k, hpool⟩).mp hflag)
  obtain ⟨n, hn, hget⟩ := mem_iff_getElem.mp hmem
  refine ⟨n, h.idx ▸ hn, ?_⟩
  exact h.sockets n ⟨k, hpool⟩ (List.getElem?_eq_some_iff.mpr ⟨hn, hget⟩)

theorem Tidy.wellFormed (h : a.Tidy) : a.WellFormed := by
  obtain ⟨fd, hrep, hnodup⟩ := h
  refine ⟨fun k hk hflag => hrep.listed hk hflag, ?_, ?_, hrep.idx ▸ length_le_pool hnodup⟩
  · intro n hn
    obtain ⟨k, -, hk⟩ := hrep.entry hn
    rw [hk]
    exact k.isLt
  · intro n hn m hm heq
    obtain ⟨k, hgetn, hk⟩ := hrep.entry hn
    obtain ⟨k', hgetm, hk'⟩ := hrep.entry hm
    have hsame : k = k' := Fin.ext (by rw [← hk, ← hk', heq])
    rw [hrep.idx] at hn
    exact (getElem?_inj hn hnodup).mp (by rw [hgetn, hgetm, hsame])

theorem tidy_serviceFdzero (a : FdArrays) : a.serviceFdzero.Tidy :=
  ⟨_, Represents.zero a, nodup_nil⟩

theorem Tidy.serviceFdset (h : a.Tidy) {sock : Nat} (hsock : sock < serviceMaxSockets) :
    ∃ a', a.serviceFdset sock = some a' ∧ a'.Tidy := by
  obtain ⟨fd, hrep, hnodup⟩ := h
  by_cases hpool : sock < connectionPoolSize
  · obtain ⟨a', hset, hrep'⟩ := hrep.set ⟨sock, hpool⟩
    exact ⟨a', hset, _, hrep', hnodup⟩
  · obtain ⟨a', hset, hrep'⟩ := hrep.set_beyond (Nat.le_of_not_lt hpool) hsock
    exact ⟨a', hset, _, hrep', hnodup⟩

theorem Tidy.serviceFdclear (h : a.Tidy) {sock : Nat} (hsock : sock < serviceMaxSockets) :
    ∃ a', a.serviceFdclear sock = some a' ∧ a'.Tidy := by
  obtain ⟨fd, hrep, hnodup⟩ := h
  by_cases hpool : sock < connectionPoolSize
  · obtain ⟨a', hclear, hrep'⟩ := hrep.clear ⟨sock, hpool⟩
    exact ⟨a', hclear, _, hrep', hnodup⟩
  · obtain ⟨a', hclear, hrep'⟩ := hrep.clear_beyond (Nat.le_of_not_lt hpool) hsock
    exact ⟨a', hclear, _, hrep', hnodup⟩

theorem Tidy.resetReturned (h : a.Tidy) (hinterest : a.interestedFlags = interest) :
    ∃ a', a.resetReturned = some a' ∧ ∀ bit, a'.Collected interest bit [] := by
  obtain ⟨fd, hrep, hnodup⟩ := h
  obtain ⟨a', hreset, hrep', hflags⟩ := hrep.reset hnodup
  refine ⟨a', hreset, fun bit => ⟨hflags.trans hinterest, _, hrep', nodup_nil, ?_⟩⟩
  intro k hk
  simp [FdSet.reset] at hk

namespace Collected

theorem tidy (h : a.Collected interest bit words) : a.Tidy := by
  obtain ⟨-, fd, hrep, hnodup, -⟩ := h
  exact ⟨fd, hrep, hnodup⟩

theorem mono (h : a.Collected interest bit words) {more : List ReadyWord} (hsub : words ⊆ more) :
    a.Collected interest bit more := by
  obtain ⟨hinterest, fd, hrep, hnodup, hentry⟩ := h
  refine ⟨hinterest, fd, hrep, hnodup, fun k hk => ?_⟩
  obtain ⟨hflag, hint, w, hw, hmatch⟩ := hentry k hk
  exact ⟨hflag, hint, w, hsub hw, hmatch⟩

theorem update (h : a.Collected interest bit words) {w : ReadyWord} (hw : w ∈ words)
    (hidx : w.idx < connectionPoolSize) (hbit : w.has bit = true) :
    ∃ a', a.serviceUpdateFdset w.idx = some a' ∧ a'.Collected interest bit words := by
  obtain ⟨hinterest, fd, hrep, hnodup, hentry⟩ := h
  obtain ⟨a', hupdate, hrep', hflags⟩ := hrep.update hnodup ⟨w.idx, hidx⟩
  refine ⟨a', hupdate, hflags.trans hinterest, _, hrep', ?_⟩
  unfold FdSet.update
  split
  · next hadd =>
    have hfresh : (⟨w.idx, hidx⟩ : Slot) ∉ fd.returnedSockets := by
      intro hmem
      have hup := (hentry _ hmem).1
      rw [hadd.2] at hup
      cases hup
    refine ⟨by simpa [nodup_append] using ⟨hnodup, fun k hk heq => hfresh (heq ▸ hk)⟩, ?_⟩
    intro k hk
    rcases mem_append.mp hk with hold | hnew
    · obtain ⟨hflag, hrest⟩ := hentry k hold
      exact ⟨by simp [hflag], hrest⟩
    · rw [mem_singleton] at hnew
      subst hnew
      exact ⟨if_pos rfl, hadd.1, w, hw, rfl, hbit⟩
  · exact ⟨hnodup, hentry⟩

theorem reported (h : a.Collected interest bit words) {k : Nat} (hk : k < serviceMaxSockets)
    (hrep : a.Reported k) :
    interest k ≠ 0 ∧ ∃ w ∈ words, w.idx = k ∧ w.has bit = true := by
  obtain ⟨hinterest, fd, hrepr, -, hentry⟩ := h
  have hlisted : ∃ n < a.returnedIdx, a.returnedSockets n = k := by
    rcases hrep with hflag | hlisted
    · exact hrepr.listed hk hflag
    · exact hlisted
  obtain ⟨n, hn, hsocket⟩ := hlisted
  obtain ⟨slot, hget, hslot⟩ := hrepr.entry hn
  have heq : k = slot.val := hsocket.symm.trans hslot
  obtain ⟨-, hint, hword⟩ := hentry slot (mem_of_getElem? hget)
  rw [heq, ← hinterest]
  exact ⟨(hrepr.interested slot).mpr hint, hword⟩

end Collected

end FdArrays

section Loops

variable {ι : Type} [DecidableEq ι] {sets : ι → FdArrays} {fdsets : ReadyBit → Option ι}
  {bit : ReadyBit} {f : FdArrays → Option FdArrays}

theorem onSet_rule {P Q : ReadyBit → ι → FdArrays → Prop} (hdistinct : DistinctSets fdsets)
    (hP : ∀ b, ∀ i ∈ fdsets b, P b i (sets i))
    (hf : ∀ i a, P bit i a → ∃ a', f a = some a' ∧ Q bit i a')
    (hother : ∀ b i a, b ≠ bit → P b i a → Q b i a) :
    ∃ sets', onSet sets (fdsets bit) f = some sets' ∧
      (∀ b, ∀ i ∈ fdsets b, Q b i (sets' i)) ∧ ∀ i ∉ fdsets bit, sets' i = sets i := by
  cases hbit : fdsets bit with
  | none =>
    refine ⟨sets, rfl, fun b i hi => hother b i _ ?_ (hP b i hi), fun _ _ => rfl⟩
    intro heq
    rw [heq, hbit] at hi
    cases hi
  | some j =>
    obtain ⟨a', ha', hQ⟩ := hf j _ (hP bit j hbit)
    refine ⟨update sets j a', by simp [onSet, ha'], ?_, ?_⟩
    · intro b i hi
      by_cases hb : b = bit
      · subst hb
        have hij : i = j := Option.some.inj (hi.symm.trans hbit)
        rw [hij, update_self]
        exact hQ
      · have hij : i ≠ j := by
          intro heq
          have hsome : (fdsets b).isSome = true := by rw [hi]; rfl
          exact hb (hdistinct b bit hsome (by rw [hi, hbit, heq]))
        rw [update_of_ne hij]
        exact hother b i _ hb (hP b i hi)
    · intro i hi
      have hij : i ≠ j := fun heq => hi (by rw [heq]; rfl)
      exact update_of_ne hij _ _

def AllCollected (sets : ι → FdArrays) (fdsets : ReadyBit → Option ι)
    (interest : ι → Nat → UInt8) (words : List ReadyWord) : Prop :=
  ∀ b, ∀ i ∈ fdsets b, (sets i).Collected (interest i) b words

theorem resetSets_spec (hdistinct : DistinctSets fdsets)
    (htidy : ∀ b, ∀ i ∈ fdsets b, (sets i).Tidy) :
    ∃ sets', resetSets sets fdsets = some sets' ∧
      AllCollected sets' fdsets (fun i => (sets i).interestedFlags) [] ∧
      ∀ i, (∀ b, i ∉ fdsets b) → sets' i = sets i := by
  -- After each loop the sets of the bits done so far are collected, the others are as they were.
  let P (done : List ReadyBit) (b : ReadyBit) (i : ι) (a : FdArrays) : Prop :=
    if b ∈ done then a.Collected (sets i).interestedFlags b []
    else a.Tidy ∧ a.interestedFlags = (sets i).interestedFlags
  have hround (done : List ReadyBit) (bit : ReadyBit) (sets' : ι → FdArrays)
      (hbit : bit ∉ done) (hP : ∀ b, ∀ i ∈ fdsets b, P done b i (sets' i)) :
      ∃ sets'', onSet sets' (fdsets bit) FdArrays.resetReturned = some sets'' ∧
        (∀ b, ∀ i ∈ fdsets b, P (bit :: done) b i (sets'' i)) ∧
        ∀ i ∉ fdsets bit, sets'' i = sets' i := by
    refine onSet_rule hdistinct hP ?_ ?_
    · intro i a ha
      simp only [P, if_neg hbit] at ha
      obtain ⟨a', hreset, hcollected⟩ := ha.1.resetReturned ha.2
      exact ⟨a', hreset, by simpa [P] using hcollected bit⟩
    · intro b i a hb ha
      simpa [P, hb] using ha
  obtain ⟨s₁, h₁, hP₁, hframe₁⟩ := hround [] .readable sets (by simp)
    (fun b i hi => ⟨htidy b i hi, rfl⟩)
  obtain ⟨s₂, h₂, hP₂, hframe₂⟩ := hround [.readable] .writable s₁ (by simp) hP₁
  obtain ⟨s₃, h₃, hP₃, hframe₃⟩ := hround [.writable, .readable] .closed s₂ (by simp) hP₂
  refine ⟨s₃, by simp [resetSets, h₁, h₂, h₃], ?_, ?_⟩
  · intro b i hi
    have hall : b ∈ [ReadyBit.closed, .writable, .readable] := by cases b <;> simp
    simpa only [P, if_pos hall] using hP₃ b i hi
  · intro i hi
    rw [hframe₃ i (hi _), hframe₂ i (hi _), hframe₁ i (hi _)]

variable {interest : ι → Nat → UInt8} {words : List ReadyWord}

omit [DecidableEq ι] in
theorem AllCollected.mono (h : AllCollected sets fdsets interest words) {more : List ReadyWord}
    (hsub : words ⊆ more) : AllCollected sets fdsets interest more :=
  fun b i hi => (h b i hi).mono hsub

omit [DecidableEq ι] in
theorem AllCollected.tidy {sets' : ι → FdArrays} (h : AllCollected sets' fdsets interest words)
    (hframe : ∀ i, (∀ b, i ∉ fdsets b) → sets' i = sets i) {i : ι} (hi : (sets i).Tidy) :
    (sets' i).Tidy := by
  by_cases hin : ∃ b, i ∈ fdsets b
  · obtain ⟨b, hb⟩ := hin
    exact (h b i hb).tidy
  · rw [hframe i fun b hb => hin ⟨b, hb⟩]
    exact hi

omit [DecidableEq ι] in
theorem AllCollected.flags {sets' : ι → FdArrays} (h : AllCollected sets' fdsets interest words)
    (hframe : ∀ i, (∀ b, i ∉ fdsets b) → sets' i = sets i)
    (hinterest : ∀ b, ∀ i ∈ fdsets b, (sets i).interestedFlags = interest i) (i : ι) :
    (sets' i).interestedFlags = (sets i).interestedFlags := by
  by_cases hin : ∃ b, i ∈ fdsets b
  · obtain ⟨b, hb⟩ := hin
    exact (h b i hb).1.trans (hinterest b i hb).symm
  · rw [hframe i fun b hb => hin ⟨b, hb⟩]

theorem AllCollected.update (h : AllCollected sets fdsets interest words)
    (hdistinct : DistinctSets fdsets) {w : ReadyWord} (hw : w ∈ words)
    (hidx : w.idx < connectionPoolSize) (bit : ReadyBit) :
    ∃ sets', updateOn fdsets bit w sets = some sets' ∧ AllCollected sets' fdsets interest words ∧
      ∀ i, (∀ b, i ∉ fdsets b) → sets' i = sets i := by
  unfold updateOn
  split
  · next hbit =>
    obtain ⟨sets', hset, hall, hframe⟩ :=
      onSet_rule (P := fun b i a => a.Collected (interest i) b words) hdistinct h
        (fun _ _ ha => ha.update hw hidx hbit) (fun _ _ _ _ ha => ha)
    exact ⟨sets', hset, hall, fun i hi => hframe i (hi bit)⟩
  · exact ⟨sets, rfl, h, fun _ _ => rfl⟩

theorem AllCollected.word (h : AllCollected sets fdsets interest words)
    (hdistinct : DistinctSets fdsets) {w : ReadyWord} (hw : w ∈ words)
    (hidx : w.idx < connectionPoolSize) :
    ∃ sets', handleWord fdsets sets w = some sets' ∧ AllCollected sets' fdsets interest words ∧
      ∀ i, (∀ b, i ∉ fdsets b) → sets' i = sets i := by
  obtain ⟨s₁, h₁, hall₁, hframe₁⟩ := h.update hdistinct hw hidx .readable
  have hrest (bit : ReadyBit) (hbit : handleWord fdsets sets w = updateOn fdsets bit w s₁) :
      ∃ sets', handleWord fdsets sets w = some sets' ∧
        AllCollected sets' fdsets interest words ∧
        ∀ i, (∀ b, i ∉ fdsets b) → sets' i = sets i := by
    obtain ⟨s₂, h₂, hall₂, hframe₂⟩ := hall₁.update hdistinct hw hidx bit
    exact ⟨s₂, hbit.trans h₂, hall₂, fun i hi => (hframe₂ i hi).trans (hframe₁ i hi)⟩
  have hword : handleWord fdsets sets w =
      if w.has .closed = true ∧ (fdsets .closed).isSome = true then updateOn fdsets .closed w s₁
      else updateOn fdsets .writable w s₁ := by
    simp [handleWord, hidx, h₁, guard]
  by_cases hclosed : w.has .closed = true ∧ (fdsets .closed).isSome = true
  · exact hrest .closed (hword.trans (if_pos hclosed))
  · exact hrest .writable (hword.trans (if_neg hclosed))

theorem AllCollected.batch (h : AllCollected sets fdsets interest words)
    (hdistinct : DistinctSets fdsets) {batch : List ReadyWord} (hbatch : batch ⊆ words)
    (hidx : ∀ w ∈ batch, w.idx < connectionPoolSize) :
    ∃ sets', batch.foldlM (handleWord fdsets) sets = some sets' ∧
      AllCollected sets' fdsets interest words ∧
      ∀ i, (∀ b, i ∉ fdsets b) → sets' i = sets i := by
  induction batch generalizing sets with
  | nil => exact ⟨sets, rfl, h, fun _ _ => rfl⟩
  | cons w batch ih =>
    obtain ⟨s₁, h₁, hall₁, hframe₁⟩ :=
      h.word hdistinct (hbatch mem_cons_self) (hidx w mem_cons_self)
    obtain ⟨s₂, h₂, hall₂, hframe₂⟩ := ih hall₁ (fun x hx => hbatch (mem_cons_of_mem _ hx))
      (fun x hx => hidx x (mem_cons_of_mem _ hx))
    refine ⟨s₂, ?_, hall₂, fun i hi => (hframe₂ i hi).trans (hframe₁ i hi)⟩
    rw [foldlM_cons, h₁]
    exact h₂

end Loops

structure FdCall.Holds {ι : Type} (c : FdCall ι) (s : FdMachine ι) : Prop where
  distinct : DistinctSets c.fdsets
  zeroed : ∀ bit, ∀ i ∈ c.fdsets bit, s.zeroed i = true
  collected : AllCollected s.sets c.fdsets c.interest c.dequeued

structure FdInv {ι : Type} (s : FdMachine ι) : Prop where
  fault : s.fault = false
  tidy : ∀ i, s.zeroed i = true → (s.sets i).Tidy
  ring : ∀ w ∈ s.ring, w.idx < connectionPoolSize
  call : ∀ c ∈ s.call, c.Holds s
  returned : ∀ r ∈ s.returned, s.call = none ∧ r.call.Holds s ∧
    (0 < r.ret → r.ret = returnedCount s.sets r.call.fdsets)

namespace FdInv

variable {ι : Type} [DecidableEq ι] {s t : FdMachine ι}

theorem setOne (h : FdInv s) (hcall : s.call = none) {i : ι} {a : FdArrays} (ha : a.Tidy)
    {zeroed : ι → Bool} (hzeroed : ∀ j, j ≠ i → zeroed j = true → s.zeroed j = true) :
    FdInv { s with sets := update s.sets i a, zeroed := zeroed, returned := none } where
  fault := h.fault
  tidy j hj := by
    by_cases hij : j = i
    · subst hij
      simpa using ha
    · simpa [hij] using h.tidy j (hzeroed j hij hj)
  ring := h.ring
  call c hc := by
    rw [Option.mem_def, hcall] at hc
    cases hc
  returned r hr := by cases hr

theorem select (h : FdInv s) {fdsets : ReadyBit → Option ι} {timeout : Timeout}
    (hok : FdUse s (.select fdsets timeout)) :
    ∃ sets', resetSets s.sets fdsets = some sets' ∧
      (∀ i, (sets' i).interestedFlags = (s.sets i).interestedFlags) ∧
      FdInv { s with
        sets := sets'
        returned := none
        call := some {
          fdsets := fdsets
          timeout := timeout
          interest := fun i => (s.sets i).interestedFlags } } := by
  obtain ⟨hdistinct, hzeroed⟩ := hok
  obtain ⟨sets', hreset, hall, hframe⟩ :=
    resetSets_spec hdistinct fun b i hi => h.tidy i (hzeroed b i hi)
  refine ⟨sets', hreset, hall.flags hframe fun _ _ _ => rfl, h.fault, ?_, h.ring, ?_,
    fun r hr => by cases hr⟩
  · exact fun i hi => hall.tidy hframe (h.tidy i hi)
  · intro c hc
    cases hc
    exact ⟨hdistinct, hzeroed, hall⟩

omit [DecidableEq ι] in
theorem finish (h : FdInv s) {c : FdCall ι} (hc : c ∈ s.call) {ret : Int}
    (hret : 0 < ret → ret = returnedCount s.sets c.fdsets) : FdInv (s.finish c ret) where
  fault := h.fault
  tidy := h.tidy
  ring := h.ring
  call d hd := by cases hd
  returned r hr := by
    cases hr
    have hc' := h.call c hc
    exact ⟨rfl, ⟨hc'.distinct, hc'.zeroed, hc'.collected⟩, hret⟩

theorem drain (h : FdInv s) {c : FdCall ι} (hc : c ∈ s.call) :
    ∃ sets', s.ring.foldlM (handleWord c.fdsets) s.sets = some sets' ∧
      (∀ i, (sets' i).interestedFlags = (s.sets i).interestedFlags) ∧
      FdInv { s with
        sets := sets'
        ring := []
        call := some { c with dequeued := c.dequeued ++ s.ring }
        anyEventReceived := fun k =>
          s.anyEventReceived k || s.ring.any fun w => w.idx == k } := by
  obtain ⟨hdistinct, hzeroed, hall⟩ := h.call c hc
  obtain ⟨sets', hfold, hall', hframe⟩ :=
    (hall.mono (subset_append_left _ s.ring)).batch hdistinct
      (subset_append_right c.dequeued _) h.ring
  refine ⟨sets', hfold, hall'.flags hframe fun b i hi => (hall b i hi).1, h.fault, ?_, ?_, ?_, ?_⟩
  · exact fun i hi => hall'.tidy hframe (h.tidy i hi)
  · intro w hw
    cases hw
  · intro d hd
    cases hd
    exact ⟨hdistinct, hzeroed, hall'⟩
  · intro r hr
    rw [Option.mem_def, (h.returned r hr).1] at hc
    cases hc

theorem look (h : FdInv s) {c : FdCall ι} (hc : c ∈ s.call) (dequeueFails : Bool) :
    FdInv (s.look c dequeueFails) := by
  unfold FdMachine.look
  split
  · exact h.finish hc fun _ => rfl
  · split
    · split
      · exact h.finish hc fun hpos => absurd hpos (by decide)
      · have hc' := h.call c hc
        refine ⟨h.fault, h.tidy, h.ring, ?_, ?_⟩
        · intro d hd
          cases hd
          exact ⟨hc'.distinct, hc'.zeroed, hc'.collected⟩
        · intro r hr
          rw [Option.mem_def, (h.returned r hr).1] at hc
          cases hc
    · obtain ⟨sets', hfold, -, hinv⟩ := h.drain hc
      rw [hfold]
      exact hinv

omit [DecidableEq ι] in
theorem post (h : FdInv s) {w : ReadyWord} (hw : w.idx < connectionPoolSize) :
    FdInv { s with ring := s.ring ++ [w] } where
  fault := h.fault
  tidy := h.tidy
  ring x hx := by
    rcases List.mem_append.mp hx with hold | hnew
    · exact h.ring x hold
    · rw [List.mem_singleton.mp hnew]
      exact hw
  call c hc := by
    have hc' := h.call c hc
    exact ⟨hc'.distinct, hc'.zeroed, hc'.collected⟩
  returned r hr := by
    obtain ⟨hnone, hr', hret⟩ := h.returned r hr
    exact ⟨hnone, ⟨hr'.distinct, hr'.zeroed, hr'.collected⟩, hret⟩

theorem onOne (h : FdInv s) (hcall : s.call = none) {i : ι} {f : FdArrays → Option FdArrays}
    (hf : ∃ a', f (s.sets i) = some a' ∧ a'.Tidy) :
    FdInv (s.attempt (onSet s.sets (some i) f) fun sets =>
      { s with sets := sets, returned := none }) := by
  obtain ⟨a', ha', htidy⟩ := hf
  simp only [onSet, Option.elim_some, ha', Option.map_some, FdMachine.attempt]
  exact h.setOne hcall htidy fun _ _ hj => hj

theorem step (h : FdInv s) {a : FdAction ι} (hok : FdUse s a) (hstep : fdStep s a = some t) :
    FdInv t := by
  cases a with
  | fdzero i =>
    obtain ⟨hcall, rfl⟩ := guarded_eq_some.mp hstep
    refine h.setOne (Option.isNone_iff_eq_none.mp hcall) (FdArrays.tidy_serviceFdzero _) ?_
    intro j hj hzeroed
    rwa [update_of_ne hj] at hzeroed
  | fdset i sock =>
    obtain ⟨hcall, rfl⟩ := guarded_eq_some.mp hstep
    exact h.onOne (Option.isNone_iff_eq_none.mp hcall) ((h.tidy i hok.1).serviceFdset hok.2)
  | fdclear i sock =>
    obtain ⟨hcall, rfl⟩ := guarded_eq_some.mp hstep
    exact h.onOne (Option.isNone_iff_eq_none.mp hcall) ((h.tidy i hok.1).serviceFdclear hok.2)
  | select fdsets timeout =>
    obtain ⟨-, rfl⟩ := guarded_eq_some.mp hstep
    obtain ⟨sets', hreset, -, hinv⟩ := h.select hok
    rw [hreset]
    exact hinv
  | look dequeueFails =>
    obtain ⟨c, hc, rfl⟩ := looked_eq_some.mp hstep
    exact h.look hc dequeueFails
  | post w =>
    cases hstep
    exact h.post hok

/-! The interest in a socket, from the calls that the application has made. -/

theorem look_flags (h : FdInv s) {c : FdCall ι} (hc : c ∈ s.call) (dequeueFails : Bool) (i : ι) :
    (s.look c dequeueFails).zeroed = s.zeroed ∧
      ((s.look c dequeueFails).sets i).interestedFlags = (s.sets i).interestedFlags := by
  unfold FdMachine.look
  split
  · exact ⟨rfl, rfl⟩
  · split
    · split <;> exact ⟨rfl, rfl⟩
    · obtain ⟨sets', hfold, hflags, -⟩ := h.drain hc
      rw [hfold]
      exact ⟨rfl, hflags i⟩

theorem onOne_flags {j : ι} {f : FdArrays → Option FdArrays} {a : FdArrays} {sock : Nat} {v : UInt8}
    (hf : f (s.sets j) = some a)
    (ha : a.interestedFlags = update (s.sets j).interestedFlags sock v) :
    (s.attempt (onSet s.sets (some j) f) fun sets =>
      { s with sets := sets, returned := none }).zeroed = s.zeroed ∧
    ∀ i k, ((s.attempt (onSet s.sets (some j) f) fun sets =>
      { s with sets := sets, returned := none }).sets i).interestedFlags k =
        if j = i ∧ sock = k then v else (s.sets i).interestedFlags k := by
  simp only [onSet, Option.elim_some, hf, Option.map_some, FdMachine.attempt, true_and]
  intro i k
  by_cases hij : j = i
  · subst hij
    simp [ha, update_apply, eq_comm]
  · simp [hij, Ne.symm hij]

end FdInv

namespace FdMachine

variable {ι : Type}

/-- `service_fdset` has been called for the socket, and since then neither `service_fdclear` for it
nor `service_fdzero` for the set. -/
def Interested (as : List (FdAction ι)) (i : ι) (sock : Nat) : Prop :=
  Since (· = .fdset i sock) (fun a => a = .fdclear i sock ∨ a = .fdzero i) as

theorem interested_snoc {as : List (FdAction ι)} {a : FdAction ι} {i : ι} {sock : Nat} :
    Interested (as ++ [a]) i sock ↔
      a = .fdset i sock ∨ ¬ (a = .fdclear i sock ∨ a = .fdzero i) ∧ Interested as i sock :=
  since_snoc

/-- The flags of a set that has been through `service_fdzero` are the calls for it. -/
def FlagsTrack (s : FdMachine ι) (as : List (FdAction ι)) : Prop :=
  ∀ i, s.zeroed i = true → ∀ k < serviceMaxSockets,
    (s.sets i).interestedFlags k ≠ 0 ↔ Interested as i k

theorem FlagsTrack.step [DecidableEq ι] {s t : FdMachine ι} {as : List (FdAction ι)}
    {a : FdAction ι} (h : s.FlagsTrack as) (hinv : FdInv s) (hok : FdUse s a)
    (hstep : fdStep s a = some t) : t.FlagsTrack (as ++ [a]) := by
  intro i hi k hk
  rw [interested_snoc]
  cases a with
  | fdzero j =>
    obtain ⟨-, rfl⟩ := guarded_eq_some.mp hstep
    by_cases hij : i = j
    · subst hij
      simp [FdArrays.serviceFdzero, hk]
    · simp only [update_of_ne hij] at hi ⊢
      simpa [Ne.symm hij] using h i hi k hk
  | fdset j sock =>
    obtain ⟨-, rfl⟩ := guarded_eq_some.mp hstep
    obtain ⟨hzeroed, hflags⟩ := FdInv.onOne_flags (s := s) (j := j)
      (f := fun a => a.serviceFdset sock) (guarded_eq_some.mpr ⟨hok.2, rfl⟩) rfl
    rw [hzeroed] at hi
    rw [hflags]
    by_cases heq : j = i ∧ sock = k
    · simp [heq]
    · simpa [heq] using h i hi k hk
  | fdclear j sock =>
    obtain ⟨-, rfl⟩ := guarded_eq_some.mp hstep
    obtain ⟨hzeroed, hflags⟩ := FdInv.onOne_flags (s := s) (j := j)
      (f := fun a => a.serviceFdclear sock) (guarded_eq_some.mpr ⟨hok.2, rfl⟩) rfl
    rw [hzeroed] at hi
    rw [hflags]
    by_cases heq : j = i ∧ sock = k
    · simp [heq]
    · simpa [heq] using h i hi k hk
  | select fdsets timeout =>
    obtain ⟨-, rfl⟩ := guarded_eq_some.mp hstep
    obtain ⟨sets', hreset, hflags, -⟩ := hinv.select hok
    rw [hreset] at hi ⊢
    simpa [attempt, hflags] using h i hi k hk
  | look dequeueFails =>
    obtain ⟨c, hc, rfl⟩ := looked_eq_some.mp hstep
    obtain ⟨hzeroed, hflags⟩ := hinv.look_flags hc dequeueFails i
    rw [hzeroed] at hi
    simpa [hflags] using h i hi k hk
  | post w =>
    cases hstep
    simpa using h i hi k hk

structure Fresh (s : FdMachine ι) : Prop where
  zeroed : ∀ i, s.zeroed i = false
  ring : s.ring = []
  call : s.call = none
  returned : s.returned = none
  fault : s.fault = false

theorem Fresh.inv {s : FdMachine ι} (h : s.Fresh) : FdInv s where
  fault := h.fault
  tidy i hi := by
    rw [h.zeroed i] at hi
    cases hi
  ring w hw := by
    rw [h.ring] at hw
    cases hw
  call c hc := by
    rw [h.call] at hc
    cases hc
  returned r hr := by
    rw [h.returned] at hr
    cases hr

theorem flagsTrack_of_run [DecidableEq ι] {s t : FdMachine ι} {as : List (FdAction ι)}
    (hs : s.Fresh) (hrun : Run fdStep FdUse s as t) : FdInv t ∧ t.FlagsTrack as := by
  induction hrun with
  | nil =>
    refine ⟨hs.inv, fun i hi => ?_⟩
    rw [hs.zeroed i] at hi
    cases hi
  | snoc _ hok hstep ih => exact ⟨ih.1.step hok hstep, ih.2.step ih.1 hok hstep⟩

/-- Every run that uses sets after `service_fdzero` keeps the arrays well formed. A call that
returns a number returns the number of sockets it reports; each is one that the calls of the run
have left in the set, and has its bit in a word that this call has taken off the ring. -/
theorem select_reports_own_events [DecidableEq ι] {s t : FdMachine ι} {as : List (FdAction ι)}
    (hs : s.Fresh) (hrun : Run fdStep FdUse s as t) :
    t.fault = false ∧ (∀ i, t.zeroed i = true → (t.sets i).WellFormed) ∧
      ∀ r ∈ t.returned, 0 < r.ret →
        r.ret = returnedCount t.sets r.call.fdsets ∧
        ∀ bit, ∀ i ∈ r.call.fdsets bit, ∀ k < serviceMaxSockets, (t.sets i).Reported k →
          Interested as i k ∧ ∃ w ∈ r.call.dequeued, w.idx = k ∧ w.has bit = true := by
  obtain ⟨hinv, htrack⟩ := flagsTrack_of_run hs hrun
  refine ⟨hinv.fault, fun i hi => (hinv.tidy i hi).wellFormed, ?_⟩
  intro r hr hpos
  obtain ⟨-, hcall, hret⟩ := hinv.returned r hr
  refine ⟨hret hpos, fun bit i hi k hk hrep => ?_⟩
  have hcollected := hcall.collected bit i hi
  obtain ⟨hflag, hword⟩ := hcollected.reported hk hrep
  rw [← hcollected.1] at hflag
  exact ⟨(htrack i (hcall.zeroed bit i hi) k hk).mp hflag, hword⟩

def unzeroed : FdMachine ReadyBit where
  sets _ := ⟨fun _ => 7, fun _ => 7, fun k => k + 40, 9⟩

/-- The first call gets a word with two bits and one on which the closed bit takes the place of the
writable one, and the second call starts over. -/
def twoCalls : List (FdAction ReadyBit) :=
  [.fdzero .readable, .fdzero .writable, .fdzero .closed, .fdset .readable 3, .fdset .writable 3,
    .fdset .writable 5, .fdset .closed 5, .post 0x30003#64, .post 0x60005#64, .post 0x10003#64,
    .select some .null, .look false, .look false, .fdclear .readable 3, .fdset .readable 5,
    .select some .zero, .post 0x10005#64, .look false, .post 0x20003#64, .look false]

theorem select_reports_own_events_twice :
    unzeroed.Fresh ∧ ∃ t, Run fdStep FdUse unzeroed twoCalls t ∧
      (t.returned.any fun r => r.ret = 1 ∧ r.call.fdsets .readable = some .readable ∧
        (t.sets .readable).returnedFlags 5 = 1) = true ∧
      Interested twoCalls .readable 5 := by
  have hfresh : unzeroed.Fresh := ⟨fun _ => rfl, rfl, rfl, rfl, rfl⟩
  refine ⟨hfresh, Run.exists_and_of_runActions (by decide +kernel) fun t hrun ht => ?_⟩
  obtain ⟨r, hr, hreturned⟩ := (Option.any_eq_true _ _).mp ht
  obtain ⟨hret, hset, hflag⟩ := of_decide_eq_true hreturned
  have hreport := (select_reports_own_events hfresh hrun).2.2 r hr (by rw [hret]; decide)
  exact (hreport.2 .readable .readable hset 5 (by decide) (.inl (by rw [hflag]; decide))).1

end FdMachine

end NetbsdDpdk
