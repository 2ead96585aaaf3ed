import NetbsdDpdk.SockbufRecords
import NetbsdDpdk.Transmit

/-! The address mbufs that the calls of the glue take with `m_get` (`app_glue.c`), for every outcome
of the calls of the stack in between. Two of the exits give theirs up: that of `app_glue_v4_bind`
behind a failed `sobind`, and the `break` of `app_glue_close_socket`. -/

namespace NetbsdDpdk

variable {k n : Nat}

/-- A call of the stack with an address mbuf, which keeps its data buffer. -/
structure StackCall (k n : Nat) where
  effect : Option (Fin k) → MbufMem k n → MbufMem k n
  failed : Bool
  spares : ∀ x mem, ((effect (some x) mem).mbuf x).mPaddr = (mem.mbuf x).mPaddr

structure QueuedCalls (k n : Nat) where
  removed : Bool
  calls : List (StackCall k n)

/-- `got` and `freed` are not in the code: the address mbufs from `m_get`, and the mbufs passed to
`m_freem`, each with its data buffer at that time. -/
structure GlueMem (k n : Nat) where
  mem : MbufMem k n
  got : List (Fin k × Option (Fin n)) := []
  freed : List (Fin k × Option (Fin n)) := []

namespace GlueMem

def logged (mem : MbufMem k n) (m : Option (Fin k)) : List (Fin k × Option (Fin n)) :=
  m.toList.map fun x => (x, (mem.mbuf x).mPaddr)

def mGet (g : GlueMem k n) : Option (Option (Fin k) × GlueMem k n) :=
  (g.mem.mGet 0 .soname).map fun r => (r.1, { g with mem := r.2, got := g.got ++ logged r.2 r.1 })

def mFreem (g : GlueMem k n) (m : Option (Fin k)) : Option (GlueMem k n) :=
  (g.mem.mFreem k m).map fun mem => { g with mem, freed := g.freed ++ logged g.mem m }

def call (g : GlueMem k n) (m : Option (Fin k)) (c : StackCall k n) : GlueMem k n :=
  { g with mem := c.effect m g.mem }

def appGlueV4Bind (g : GlueMem k n) (sobind : StackCall k n) : Option (GlueMem k n) := do
  let r ← g.mGet
  if r.1 = none then return r.2
  let g := r.2.call r.1 sobind
  if sobind.failed then return g
  g.mFreem r.1

/-- `none` where the loop of `app_glue_v4_connect` goes on behind the given turns. -/
def bindLoop (g : GlueMem k n) (m : Option (Fin k)) (myPort : Bool) :
    List (StackCall k n) → Option (GlueMem k n)
  | [] => none
  | sobind :: turns =>
    let g := g.call m sobind
    if sobind.failed && !myPort then g.bindLoop m myPort turns else some g

def appGlueV4Connect (g : GlueMem k n) (myPort : Bool) (turns : List (StackCall k n))
    (soconnect : StackCall k n) : Option (GlueMem k n) := do
  let r ← g.mGet
  if r.1 = none then return r.2
  let g ← r.2.bindLoop r.1 myPort turns
  (g.call r.1 soconnect).mFreem r.1

def appGlueSendto (g : GlueMem k n) (mDevget sosend : StackCall k n) : Option (GlueMem k n) := do
  let r ← g.mGet
  if r.1 = none then return r.2
  let g := r.2.call r.1 mDevget
  if mDevget.failed then g.mFreem r.1
  else (g.call r.1 sosend).mFreem r.1

/-- `app_glue_receivefrom` takes no mbuf of its own: `mp0` and `paddr` come from `soreceive`. -/
def appGlueReceivefrom (g : GlueMem k n) (soreceive : StackCall k n) (mp0 paddr : Option (Fin k)) :
    Option (GlueMem k n) := do
  let g := g.call none soreceive
  if soreceive.failed then return g
  let g ← g.mFreem mp0
  g.mFreem paddr

/-- The loops over an accept queue; `lost` is what they do where `soqremque` fails. -/
def acceptLoop (lost : GlueMem k n → Option (GlueMem k n)) (g : GlueMem k n) :
    List (QueuedCalls k n) → Option (GlueMem k n)
  | [] => some g
  | c :: queue => do
    let r ← g.mGet
    if c.removed then
      let g ← (c.calls.foldl (fun g => g.call r.1) r.2).mFreem r.1
      g.acceptLoop lost queue
    else lost r.2

/-- `user_on_accept` ends the process there. -/
def userOnAccept (g : GlueMem k n) (queue : List (QueuedCalls k n)) : Option (GlueMem k n) :=
  g.acceptLoop (fun _ => none) queue

/-- `app_glue_close_socket` leaves the loop. -/
def appGlueCloseSocket (g : GlueMem k n) (queue : List (QueuedCalls k n))
    (soclose : StackCall k n) :
    Option (GlueMem k n) := do
  let g ← g.acceptLoop some queue
  return g.call none soclose

end GlueMem

inductive AddressCall (k n : Nat)
  | bind (sobind : StackCall k n)
  | connect (myPort : Bool) (turns : List (StackCall k n)) (soconnect : StackCall k n)
  | sendto (mDevget sosend : StackCall k n)
  | receivefrom (soreceive : StackCall k n) (mp0 paddr : Option (Fin k))
  | onAccept (queue : List (QueuedCalls k n))
  | close (queue : List (QueuedCalls k n)) (soclose : StackCall k n)

def addressCall (mem : MbufMem k n) : AddressCall k n → Option (GlueMem k n)
  | .bind sobind => GlueMem.appGlueV4Bind { mem } sobind
  | .connect myPort turns soconnect => GlueMem.appGlueV4Connect { mem } myPort turns soconnect
  | .sendto mDevget sosend => GlueMem.appGlueSendto { mem } mDevget sosend
  | .receivefrom soreceive mp0 paddr => GlueMem.appGlueReceivefrom { mem } soreceive mp0 paddr
  | .onAccept queue => GlueMem.userOnAccept { mem } queue
  | .close queue soclose => GlueMem.appGlueCloseSocket { mem } queue soclose

def GlueMem.FreedOnce (g : GlueMem k n) : Prop :=
  ∀ e ∈ g.got, e.2 ≠ none ∧ g.freed.count e = g.got.count e

/-- If `soqremque` fails, there is no mbuf in that turn of the loop. -/
def GlueMem.FreesQueue (g : GlueMem k n) : List (QueuedCalls k n) → Prop
  | [] => True
  | c :: queue =>
    if c.removed then ∀ g' ∈ g.acceptLoop some [c], g'.FreesQueue queue else g.mem.mbCache = []

/-- In `app_glue_v4_bind` and `app_glue_close_socket`, no call fails that was given an mbuf. -/
def FreesAddress (mem : MbufMem k n) : AddressCall k n → Prop
  | .bind sobind => sobind.failed = false ∨ mem.mbCache = []
  | .close queue _ => GlueMem.FreesQueue { mem } queue
  | _ => True

namespace GlueMem

/-- Of the address mbufs that were taken, `m` is the only one that was not given back. -/
structure Outstanding (g : GlueMem k n) (m : Option (Fin k)) : Prop where
  got : g.got = g.freed ++ logged g.mem m
  buffers : ∀ e ∈ g.got, e.2 ≠ none

variable {g g' : GlueMem k n} {m : Option (Fin k)}

theorem Outstanding.freedOnce_iff (h : g.Outstanding m) : g.FreedOnce ↔ m = none := by
  have hgot := h.got
  cases m with
  | none =>
    rw [logged, Option.toList_none, List.map_nil, List.append_nil] at hgot
    exact iff_of_true (fun e he => ⟨h.buffers e he, by rw [hgot]⟩) rfl
  | some x =>
    refine iff_of_false (fun hfreed => ?_) (by simp)
    have hcount := (hfreed (x, (g.mem.mbuf x).mPaddr) (by simp [hgot, logged])).2
    simp [hgot, logged] at hcount

theorem mGet_eq_none_iff {r : Option (Fin k) × GlueMem k n} (hr : g.mGet = some r) :
    r.1 = none ↔ g.mem.mbCache = [] := by
  obtain ⟨⟨o, mem'⟩, ho, rfl⟩ := Option.map_eq_some_iff.mp hr
  rcases MbufMem.mGet_eq_some ho with ⟨hcache, rfl, -⟩ | ⟨x, cache, p, rte, hcache, rfl, -⟩
  · simp [hcache]
  · simp [hcache]

theorem Outstanding.mGet (h : g.Outstanding none) {r : Option (Fin k) × GlueMem k n}
    (hr : g.mGet = some r) : r.2.Outstanding r.1 := by
  have hgot : g.got = g.freed := by
    simpa [logged] using h.got
  obtain ⟨⟨o, mem'⟩, ho, rfl⟩ := Option.map_eq_some_iff.mp hr
  refine ⟨by rw [hgot], fun e he => ?_⟩
  rcases List.mem_append.mp he with he | he
  · exact h.buffers e he
  · obtain ⟨x, hx, rfl⟩ := List.mem_map.mp he
    obtain rfl : o = some x := Option.mem_toList.mp hx
    rcases MbufMem.mGet_eq_some ho with ⟨-, hy, -⟩ | ⟨y, cache, p, rte, -, hy, rfl⟩
    · cases hy
    · cases hy
      simp

theorem Outstanding.call (h : g.Outstanding m) (c : StackCall k n) :
    (g.call m c).Outstanding m := by
  cases m with
  | none => exact ⟨h.got, h.buffers⟩
  | some x =>
    refine ⟨?_, h.buffers⟩
    rw [show (g.call (some x) c).got = g.got from rfl, h.got]
    simp [logged, GlueMem.call, c.spares]

theorem Outstanding.mFreem (h : g.Outstanding m) (hr : g.mFreem m = some g') :
    g'.Outstanding none := by
  obtain ⟨mem', -, rfl⟩ := Option.map_eq_some_iff.mp hr
  exact ⟨by simp [logged, h.got], h.buffers⟩

theorem Outstanding.start (mem : MbufMem k n) : Outstanding { mem } none :=
  ⟨by simp [logged], by simp⟩

theorem Outstanding.bindLoop (h : g.Outstanding m) {myPort : Bool} {turns : List (StackCall k n)}
    (hr : g.bindLoop m myPort turns = some g') : g'.Outstanding m := by
  induction turns generalizing g with
  | nil => cases hr
  | cons sobind turns ih =>
    rw [GlueMem.bindLoop] at hr
    split at hr
    · exact ih (h.call sobind) hr
    · cases hr
      exact h.call sobind

theorem Outstanding.calls (h : g.Outstanding m) (cs : List (StackCall k n)) :
    (cs.foldl (fun g => g.call m) g).Outstanding m := by
  induction cs generalizing g with
  | nil => exact h
  | cons c cs ih => exact ih (h.call c)

/-- One mbuf is kept where the loop ends at a connection that was not removed, unless there was
none. -/
theorem Outstanding.acceptLoop (h : g.Outstanding none) {queue : List (QueuedCalls k n)}
    {lost : GlueMem k n → Option (GlueMem k n)} (hlost : ∀ g, lost g = none ∨ lost g = some g)
    (hr : g.acceptLoop lost queue = some g') :
    ∃ m, g'.Outstanding m ∧ ((∀ g, lost g = none) → m = none) ∧
      (m = none ↔ g.FreesQueue queue) := by
  induction queue generalizing g with
  | nil =>
    cases hr
    exact ⟨none, h, fun _ => rfl, iff_of_true rfl trivial⟩
  | cons c queue ih =>
    obtain ⟨r, hget, hr⟩ := Option.bind_eq_some_iff.mp hr
    cases hc : c.removed with
    | true =>
      rw [hc, if_pos rfl] at hr
      obtain ⟨g₁, hfree, hr⟩ := Option.bind_eq_some_iff.mp hr
      have hturn : g.acceptLoop some [c] = some g₁ := by
        simp [GlueMem.acceptLoop, hget, hc, hfree]
      simpa [FreesQueue, hc, hturn] using ih (((h.mGet hget).calls c.calls).mFreem hfree) hr
    | false =>
      rw [hc] at hr
      rcases hlost r.2 with hnone | hsome
      · simp [hnone] at hr
      · obtain rfl : r.2 = g' := by simpa [hsome] using hr
        refine ⟨r.1, h.mGet hget, fun hall => ?_, ?_⟩
        · simp [hall] at hsome
        · simp [FreesQueue, hc, mGet_eq_none_iff hget]

end GlueMem

open GlueMem

/-- A call that returns has freed every address mbuf that it took, once and with its data buffer,
exactly if in `app_glue_v4_bind` and `app_glue_close_socket` no call fails that was given one. -/
theorem address_freed_once_iff {mem : MbufMem k n} {c : AddressCall k n} {r : GlueMem k n}
    (h : addressCall mem c = some r) : r.FreedOnce ↔ FreesAddress mem c := by
  have hstart := Outstanding.start mem
  cases c with
  | bind sobind =>
    obtain ⟨a, hget, h⟩ := Option.bind_eq_some_iff.mp h
    have ha := hstart.mGet hget
    have hcache := mGet_eq_none_iff hget
    rw [FreesAddress]
    split at h
    next hnone =>
      cases h
      rw [ha.freedOnce_iff, hcache]
      exact iff_of_true (hcache.mp hnone) (.inr (hcache.mp hnone))
    next hsome =>
      rw [hcache] at hsome
      cases hfailed : sobind.failed with
      | true =>
        rw [hfailed] at h
        cases h
        simp [(ha.call sobind).freedOnce_iff, hcache]
      | false =>
        simp only [hfailed] at h
        simp [((ha.call sobind).mFreem h).freedOnce_iff]
  | connect myPort turns soconnect =>
    obtain ⟨a, hget, h⟩ := Option.bind_eq_some_iff.mp h
    have ha := hstart.mGet hget
    refine iff_of_true ?_ trivial
    split at h
    next hnone =>
      cases h
      exact ha.freedOnce_iff.mpr hnone
    next =>
      obtain ⟨g, hloop, h⟩ := Option.bind_eq_some_iff.mp h
      exact (((ha.bindLoop hloop).call soconnect).mFreem h).freedOnce_iff.mpr rfl
  | sendto mDevget sosend =>
    obtain ⟨a, hget, h⟩ := Option.bind_eq_some_iff.mp h
    have ha := hstart.mGet hget
    refine iff_of_true ?_ trivial
    split at h
    next hnone =>
      cases h
      exact ha.freedOnce_iff.mpr hnone
    next =>
      split at h
      · exact ((ha.call mDevget).mFreem h).freedOnce_iff.mpr rfl
      · exact (((ha.call mDevget).call sosend).mFreem h).freedOnce_iff.mpr rfl
  | receivefrom soreceive mp0 paddr =>
    have hgot : r.got = [] := by
      rw [addressCall, appGlueReceivefrom] at h
      split at h
      · cases h
        rfl
      · obtain ⟨g, hmp0, h⟩ := Option.bind_eq_some_iff.mp h
        obtain ⟨mem₁, -, rfl⟩ := Option.map_eq_some_iff.mp hmp0
        obtain ⟨mem₂, -, rfl⟩ := Option.map_eq_some_iff.mp h
        rfl
    exact iff_of_true (by simp [FreedOnce, hgot]) trivial
  | onAccept queue =>
    obtain ⟨m, hm, hnone, -⟩ := hstart.acceptLoop (fun _ => .inl rfl) h
    exact iff_of_true (hm.freedOnce_iff.mpr (hnone fun _ => rfl)) trivial
  | close queue soclose =>
    obtain ⟨g, hloop, h⟩ := Option.bind_eq_some_iff.mp h
    cases h
    obtain ⟨m, hm, -, hfrees⟩ := hstart.acceptLoop (fun _ => .inr rfl) hloop
    exact hm.freedOnce_iff.trans hfrees

def oneAddress : MbufMem 22 22 where
  mbuf _ := {}
  mbCache := [0]
  rte := { cell := fun _ => {}, mempool := [(0, 0)] }

def plainCall (failed : Bool) : StackCall 22 22 := ⟨fun _ mem => mem, failed, fun _ _ => rfl⟩

theorem address_freed_once_iff_bind :
    (∃ r, addressCall oneAddress (.bind (plainCall false)) = some r ∧ r.FreedOnce) ∧
      ∃ r, addressCall oneAddress (.close [⟨false, []⟩] (plainCall false)) = some r ∧
        ¬ r.FreedOnce := by
  constructor
  · obtain ⟨r, hr⟩ : ∃ r, addressCall oneAddress (.bind (plainCall false)) = some r :=
      Option.isSome_iff_exists.mp (by decide)
    exact ⟨r, hr, (address_freed_once_iff hr).mpr (.inl rfl)⟩
  · obtain ⟨r, hr⟩ : ∃ r,
        addressCall oneAddress (.close [⟨false, []⟩] (plainCall false)) = some r :=
      Option.isSome_iff_exists.mp (by decide)
    refine ⟨r, hr, fun hfreed => ?_⟩
    have hfrees := (address_freed_once_iff hr).mp hfreed
    simp [FreesAddress, FreesQueue, oneAddress] at hfrees

theorem address_lost :
    ((addressCall oneAddress (.bind (plainCall true))).any fun r =>
      r.got = [(0, some 0)] ∧ r.freed = [] ∧ r.mem.mbCache = [] ∧ r.mem.rte.mempool = []) = true ∧
    ((addressCall oneAddress (.close [⟨false, []⟩] (plainCall false))).any fun r =>
      r.got = [(0, some 0)] ∧ r.freed = [] ∧ r.mem.mbCache = [] ∧ r.mem.rte.mempool = []) =
        true := by
  decide

end NetbsdDpdk
