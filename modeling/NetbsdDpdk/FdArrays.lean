import NetbsdDpdk.SelectEvents
import Mathlib.Data.List.Nodup
import Mathlib.Data.Fintype.Card

/-! `struct service_fdset` as the four arrays and counters of the source, under any sequence of
`service_fdzero`, `service_fdset`, `service_fdclear` and `service_select`. The arrays refine the
sets of `SelectEvents`, and a word of the ring may carry several event bits. -/

namespace NetbsdDpdk

open List Function

abbrev serviceMaxSockets : Nat := 2048

structure FdArrays where
  interestedFlags : Nat → UInt8
  returnedFlags : Nat → UInt8
  returnedSockets : Nat → Nat
  returnedIdx : Nat

namespace FdArrays

/-! An access outside an array has no result. -/

def serviceFdset (a : FdArrays) (sock : Nat) : Option FdArrays := do
  guard (sock < serviceMaxSockets)
  return { a with interestedFlags := Function.update a.interestedFlags sock 1 }

def serviceFdclear (a : FdArrays) (sock : Nat) : Option FdArrays := do
  guard (sock < serviceMaxSockets)
  return { a with
    interestedFlags := Function.update a.interestedFlags sock 0
    returnedFlags := Function.update a.returnedFlags sock 0 }

def serviceFdzero (a : FdArrays) : FdArrays where
  interestedFlags k := if k < serviceMaxSockets then 0 else a.interestedFlags k
  returnedFlags k := if k < serviceMaxSockets then 0 else a.returnedFlags k
  returnedSockets k := if k < serviceMaxSockets then 0 else a.returnedSockets k
  returnedIdx := 0

def resetEntry (a : FdArrays) (i : Nat) : Option FdArrays := do
  guard (i < serviceMaxSockets ∧ a.returnedSockets i < serviceMaxSockets)
  return { a with returnedFlags := Function.update a.returnedFlags (a.returnedSockets i) 0 }

def resetReturned (a : FdArrays) : Option FdArrays := do
  let a' ← (List.range a.returnedIdx).foldlM resetEntry a
  return { a' with returnedIdx := 0 }

def serviceUpdateFdset (a : FdArrays) (idx : Nat) : Option FdArrays := do
  guard (idx < serviceMaxSockets)
  if a.interestedFlags idx ≠ 0 ∧ a.returnedFlags idx = 0 then
    guard (a.returnedIdx < serviceMaxSockets)
    return { a with
      returnedSockets := Function.update a.returnedSockets a.returnedIdx idx
      returnedFlags := Function.update a.returnedFlags idx 1
      returnedIdx := a.returnedIdx + 1 }
  else return a

/-- The arrays hold the set `fd`. Flags of sockets beyond the pool are never raised. -/
structure Represents (a : FdArrays) (fd : FdSet) : Prop where
  interested : ∀ k : Slot, a.interestedFlags k ≠ 0 ↔ fd.interestedFlags k = true
  flags : ∀ k : Slot, a.returnedFlags k ≠ 0 ↔ fd.returnedFlags k = true
  beyond : ∀ k, connectionPoolSize ≤ k → k < serviceMaxSockets → a.returnedFlags k = 0
  idx : a.returnedIdx = fd.returnedSockets.length
  sockets : ∀ (n : Nat) (k : Slot), fd.returnedSockets[n]? = some k → a.returnedSockets n = k

theorem slot_lt_maxSockets (k : Slot) : k.val < serviceMaxSockets := by
  have hk := k.isLt
  simp only [connectionPoolSize, serviceMaxSockets] at hk ⊢
  omega

theorem length_le_pool {l : List Slot} (h : l.Nodup) : l.length ≤ connectionPoolSize := by
  have hcard := h.length_le_card
  rwa [Fintype.card_fin] at hcard

/-! The flags of an array that one entry of it is written to. -/

section Flags

variable {f : Nat → UInt8} {g : Slot → Bool}

theorem flags_update (h : ∀ k : Slot, f k ≠ 0 ↔ g k = true) (sock : Slot) {v : UInt8} {b : Bool}
    (hv : v ≠ 0 ↔ b = true) (k : Slot) :
    update f sock v k ≠ 0 ↔ (if k = sock then b else g k) = true := by
  by_cases hk : k = sock
  · rw [hk, update_self, if_pos rfl]
    exact hv
  · have hval : k.val ≠ sock.val := fun heq => hk (Fin.ext heq)
    rw [update_of_ne hval, if_neg hk]
    exact h k

theorem flags_update_beyond (h : ∀ k : Slot, f k ≠ 0 ↔ g k = true) {sock : Nat}
    (hpool : connectionPoolSize ≤ sock) (v : UInt8) (k : Slot) :
    update f sock v k ≠ 0 ↔ g k = true := by
  have hval : k.val ≠ sock := by
    have := k.isLt
    omega
  rw [update_of_ne hval]
  exact h k

theorem beyond_update (h : ∀ k, connectionPoolSize ≤ k → k < serviceMaxSockets → f k = 0)
    (sock : Slot) (v : UInt8) :
    ∀ k, connectionPoolSize ≤ k → k < serviceMaxSockets → update f sock v k = 0 := by
  intro k hpool hmax
  have hval : k ≠ sock.val := by
    have := sock.isLt
    omega
  rw [update_of_ne hval]
  exact h k hpool hmax

end Flags

variable {a : FdArrays} {fd : FdSet}

namespace Represents

theorem zero (a : FdArrays) : Represents a.serviceFdzero FdSet.zero where
  interested k := by simp [serviceFdzero, FdSet.zero, slot_lt_maxSockets k]
  flags k := by simp [serviceFdzero, FdSet.zero, slot_lt_maxSockets k]
  beyond k _ hk := if_pos hk
  idx := rfl
  sockets n k h := by simp [FdSet.zero] at h

theorem set (h : Represents a fd) (sock : Slot) :
    ∃ a', a.serviceFdset sock = some a' ∧ Represents a' (fd.set sock) :=
  ⟨_, guarded_eq_some.mpr ⟨slot_lt_maxSockets sock, rfl⟩,
    flags_update h.interested sock (by decide), h.flags, h.beyond, h.idx, h.sockets⟩

theorem clear (h : Represents a fd) (sock : Slot) :
    ∃ a', a.serviceFdclear sock = some a' ∧ Represents a' (fd.clear sock) :=
  ⟨_, guarded_eq_some.mpr ⟨slot_lt_maxSockets sock, rfl⟩,
    flags_update h.interested sock (by decide), flags_update h.flags sock (by decide),
    beyond_update h.beyond sock 0, h.idx, h.sockets⟩

theorem resetEntry (h : Represents a fd) (hnodup : fd.returnedSockets.Nodup) {m : Nat}
    (hm : m ≤ fd.returnedSockets.length) :
    ∃ a', (List.range m).foldlM FdArrays.resetEntry a = some a' ∧
      a'.interestedFlags = a.interestedFlags ∧ a'.returnedSockets = a.returnedSockets ∧
      ∀ k, a'.returnedFlags k =
        if k ∈ (fd.returnedSockets.take m).map Fin.val then 0 else a.returnedFlags k := by
  induction m with
  | zero => exact ⟨a, rfl, rfl, rfl, fun k => by simp⟩
  | succ m ih =>
    obtain ⟨a', hfold, hinterested, hsockets, hflags⟩ := ih (by omega)
    have hlt : m < fd.returnedSockets.length := hm
    have hentry : a'.returnedSockets m = fd.returnedSockets[m].val := by
      rw [hsockets]
      exact h.sockets m _ (getElem?_eq_getElem hlt)
    have hpool := length_le_pool hnodup
    have hm' : m < serviceMaxSockets := by
      simp only [connectionPoolSize, serviceMaxSockets] at hpool ⊢
      omega
    have hin : a'.returnedSockets m < serviceMaxSockets := by
      rw [hentry]
      exact slot_lt_maxSockets _
    refine ⟨{ a' with
      returnedFlags := update a'.returnedFlags (a'.returnedSockets m) 0 },
      ?_, hinterested, hsockets, ?_⟩
    · rw [range_succ, foldlM_append, hfold]
      simp only [Option.bind_eq_bind, Option.bind_some, foldlM_cons, foldlM_nil,
        Option.pure_def, Option.bind_fun_some]
      exact guarded_eq_some.mpr ⟨⟨hm', hin⟩, rfl⟩
    · intro k
      simp only [take_succ_eq_append_getElem hlt, map_append, map_cons,
        map_nil, mem_append, mem_singleton, hentry]
      by_cases hk : k = fd.returnedSockets[m].val
      · simp [hk]
      · simp only [update_of_ne hk, hk, or_false]
        exact hflags k

theorem reset (h : Represents a fd) (hnodup : fd.returnedSockets.Nodup) :
    ∃ a', a.resetReturned = some a' ∧ Represents a' fd.reset ∧
      a'.interestedFlags = a.interestedFlags := by
  obtain ⟨a', hfold, hinterested, hsockets, hflags⟩ := h.resetEntry hnodup le_rfl
  simp only [take_length] at hflags
  refine ⟨{ a' with returnedIdx := 0 }, ?_, ⟨?_, ?_, ?_, rfl, ?_⟩, hinterested⟩
  · simp only [resetReturned, h.idx, hfold, Option.bind_eq_bind, Option.bind_some, Option.pure_def]
  · intro k
    simp only [hinterested, FdSet.reset]
    exact h.interested k
  · intro k
    have hval : k.val ∈ fd.returnedSockets.map Fin.val ↔ k ∈ fd.returnedSockets :=
      List.mem_map_of_injective Fin.val_injective
    simp only [hflags, hval, FdSet.reset]
    split
    · simp
    · exact h.flags k
  · intro k hpool hmax
    simp only [hflags]
    split
    · rfl
    · exact h.beyond k hpool hmax
  · intro n k hn
    simp [FdSet.reset] at hn

theorem update (h : Represents a fd) (hnodup : fd.returnedSockets.Nodup) (idx : Slot) :
    ∃ a', a.serviceUpdateFdset idx = some a' ∧ Represents a' (fd.update idx) ∧
      a'.interestedFlags = a.interestedFlags := by
  have hcond : (a.interestedFlags idx ≠ 0 ∧ a.returnedFlags idx = 0) ↔
      (fd.interestedFlags idx = true ∧ fd.returnedFlags idx = false) := by
    refine and_congr (h.interested idx) ?_
    rw [← not_iff_not, Bool.not_eq_false]
    exact h.flags idx
  unfold serviceUpdateFdset FdSet.update
  by_cases hadd : fd.interestedFlags idx = true ∧ fd.returnedFlags idx = false
  · have hroom : a.returnedIdx < serviceMaxSockets := by
      have hpool := length_le_pool hnodup
      rw [h.idx]
      simp only [connectionPoolSize, serviceMaxSockets] at hpool ⊢
      omega
    rw [if_pos (hcond.mpr hadd), if_pos hadd]
    refine ⟨_, guard_bind_eq_some.mpr ⟨slot_lt_maxSockets idx,
      guarded_eq_some.mpr ⟨hroom, rfl⟩⟩, ⟨h.interested, flags_update h.flags idx (by decide),
      beyond_update h.beyond idx 1, ?_, ?_⟩, rfl⟩
    · simp [h.idx]
    · intro n k hn
      by_cases hlast : n = fd.returnedSockets.length
      · subst hlast
        simp only [getElem?_concat_length, Option.some.injEq] at hn
        simp [h.idx, hn]
      · have hold : fd.returnedSockets[n]? = some k := by
          have hlt : n < (fd.returnedSockets ++ [idx]).length :=
            (List.getElem?_eq_some_iff.mp hn).1
          simp only [length_append, length_singleton] at hlt
          rwa [getElem?_append_left (by omega)] at hn
        simp only [h.idx, update_of_ne hlast]
        exact h.sockets n k hold
  · rw [if_neg (fun hc => hadd (hcond.mp hc)), if_neg hadd]
    exact ⟨_, guarded_eq_some.mpr ⟨slot_lt_maxSockets idx, rfl⟩, h, rfl⟩

theorem set_beyond (h : Represents a fd) {sock : Nat} (hpool : connectionPoolSize ≤ sock)
    (hmax : sock < serviceMaxSockets) :
    ∃ a', a.serviceFdset sock = some a' ∧ Represents a' fd :=
  ⟨_, guarded_eq_some.mpr ⟨hmax, rfl⟩, flags_update_beyond h.interested hpool 1, h.flags, h.beyond,
    h.idx, h.sockets⟩

theorem clear_beyond (h : Represents a fd) {sock : Nat} (hpool : connectionPoolSize ≤ sock)
    (hmax : sock < serviceMaxSockets) :
    ∃ a', a.serviceFdclear sock = some a' ∧ Represents a' fd := by
  refine ⟨_, guarded_eq_some.mpr ⟨hmax, rfl⟩, flags_update_beyond h.interested hpool 0,
    flags_update_beyond h.flags hpool 0, ?_, h.idx, h.sockets⟩
  intro k hpool' hmax'
  by_cases hk : k = sock
  · rw [hk]
    exact update_self _ _ _
  · simp only [update_of_ne hk]
    exact h.beyond k hpool' hmax'

end Represents

end FdArrays

end NetbsdDpdk
