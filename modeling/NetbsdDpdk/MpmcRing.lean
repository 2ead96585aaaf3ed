import Mathlib.Data.BitVec
import NetbsdDpdk.Tickets
import NetbsdDpdk.Transition

/-! Rings that several lcores enqueue on and dequeue from, one access to shared memory at a time: a
call reads its side's head and the other side's tail, moves the head by a compare-and-set, copies
its entries one by one, waits for its turn and moves the tail. Positions are counted from the
creation of the ring; the code has them modulo 2^32. -/

namespace NetbsdDpdk

open List Function

inductive RingSide
  | prod
  | cons
  deriving DecidableEq

namespace RingSide

def other : RingSide → RingSide
  | .prod => .cons
  | .cons => .prod

def pick {β : Type} (d : RingSide) (x y : β) : β :=
  match d with
  | .prod => x
  | .cons => y

end RingSide

inductive RingBehavior
  | fixed
  | variable
  deriving DecidableEq

/-- A difference of two 32-bit numbers. -/
def wrapSub (a b : Nat) : Nat := (BitVec.ofNat 32 a - BitVec.ofNat 32 b).toNat

/-- How many of `n` entries a call takes if it finds `avail`. -/
def RingBehavior.grant (b : RingBehavior) (n avail : Nat) : Option Nat :=
  if avail < n then if b = .fixed ∨ avail = 0 then none else some avail else some n

/-- `-ENOBUFS` and `-ENOENT`. -/
def failedRet (d : RingSide) (b : RingBehavior) : Int :=
  if b = .fixed then d.pick (-105) (-2) else 0

def servedRet (d : RingSide) (b : RingBehavior) (n : Nat) (exceeded : Bool) : Int :=
  if d = .prod ∧ exceeded then if b = .fixed then -122 else n - 2 ^ 31
  else if b = .fixed then 0 else n

/-- Where a thread is in `__rte_ring_mp_do_enqueue` or `__rte_ring_mc_do_dequeue`, with its local
variables and its table of objects. -/
inductive RingCall (α : Type)
  | idle (ret : Int) (xs : List α)
  | start (d : RingSide) (b : RingBehavior) (n : Nat) (xs : List α)
  | head (d : RingSide) (b : RingBehavior) (n : Nat) (xs : List α) (h : Nat)
  | tail (d : RingSide) (b : RingBehavior) (n : Nat) (xs : List α) (h c : Nat)
  | own (d : RingSide) (h n : Nat) (xs : List α) (i : Nat) (ret : Int)
  | turn (d : RingSide) (h n : Nat) (xs : List α) (ret : Int)

namespace RingCall

variable {α : Type}

def isIdle : RingCall α → Bool
  | .idle .. => true
  | _ => false

def owned (d : RingSide) : RingCall α → Option (Nat × Nat)
  | .own e h n .. | .turn e h n .. => if e = d then some (h, h + n) else none
  | _ => none

end RingCall

/-- `done` is not in the code: what a side has finished. -/
structure MpmcRing (j : Nat) (T α : Type) where
  cell : Nat → Option α := fun _ => none
  head : RingSide → Nat := fun _ => 0
  tail : RingSide → Nat := fun _ => 0
  watermark : Nat
  call : T → RingCall α := fun _ => .idle 0 []
  done : RingSide → List α := fun _ => []

inductive RingAction (T α : Type)
  | enqueue (t : T) (b : RingBehavior) (xs : List α)
  | dequeue (t : T) (b : RingBehavior) (n : Nat)
  | go (t : T)

namespace MpmcRing

variable {j : Nat} {T α : Type}

/-- What a side may be ahead of the other's tail: the mask of the ring, or nothing. -/
def capacity (j : Nat) (d : RingSide) : Nat := d.pick (2 ^ j - 1) 0

section Step

variable [DecidableEq T]

def goto (s : MpmcRing j T α) (t : T) (c : RingCall α) : MpmcRing j T α :=
  { s with call := update s.call t c }

/-- The compare-and-set of a call that finds its head unchanged. -/
def reserve (s : MpmcRing j T α) (t : T) (d : RingSide) (h n : Nat) (xs : List α) (ret : Int) :
    MpmcRing j T α :=
  { s.goto t (.own d h n xs 0 ret) with head := update s.head d (s.head d + n) }

def store (s : MpmcRing j T α) (t : T) (c : RingCall α) (q : Nat) (x : α) : MpmcRing j T α :=
  { s.goto t c with cell := update s.cell (q % 2 ^ j) (some x) }

def copy (s : MpmcRing j T α) (t : T) (h n : Nat) (xs : List α) (i : Nat) (ret : Int) :
    RingSide → Option (MpmcRing j T α)
  | .prod => xs[i]?.map (s.store t (.own .prod h n xs (i + 1) ret) (h + i))
  | .cons => (s.cell ((h + i) % 2 ^ j)).map fun x =>
      s.goto t (.own .cons h n (xs ++ [x]) (i + 1) ret)

def publish (s : MpmcRing j T α) (t : T) (d : RingSide) (h n : Nat) (xs : List α) (ret : Int) :
    MpmcRing j T α :=
  { s.goto t (.idle ret xs) with
    tail := update s.tail d (h + n)
    done := update s.done d (s.done d ++ xs) }

/-- The next access of a thread; `none` if it would read an entry that nobody has written. -/
def go (s : MpmcRing j T α) (t : T) : Option (MpmcRing j T α) :=
  match s.call t with
  | .idle .. => none
  | .start d b n xs => some (s.goto t (.head d b n xs (s.head d)))
  | .head d b n xs h => some (s.goto t (.tail d b n xs h (s.tail d.other)))
  | .tail d b n xs h c =>
    let avail := wrapSub (capacity j d + c) h
    match b.grant n avail with
    | none => some (s.goto t (.idle (failedRet d b) []))
    | some m =>
      let ret := servedRet d b m (s.watermark < wrapSub (2 ^ j + m) avail)
      some (if s.head d % 2 ^ 32 = h % 2 ^ 32 then s.reserve t d h m (xs.take m) ret
        else s.goto t (.start d b n xs))
  | .own d h n xs i ret =>
    if i < n then s.copy t h n xs i ret d
    else some (if s.tail d % 2 ^ 32 = h % 2 ^ 32 then s.goto t (.turn d h n xs ret) else s)
  | .turn d h n xs ret => some (s.publish t d h n xs ret)

def step (s : MpmcRing j T α) : RingAction T α → Option (MpmcRing j T α)
  | .enqueue t b xs => do
    guard (s.call t).isIdle
    return s.goto t (.start .prod b xs.length xs)
  | .dequeue t b n => do
    guard (s.call t).isIdle
    return s.goto t (.start .cons b n [])
  | .go t => s.go t

end Step

/-- By how much a thread that is about to compare its head has been overtaken. -/
def overtaken (s : MpmcRing j T α) (t : T) : Nat :=
  match s.call t with
  | .tail d _ _ _ h _ => s.head d - h
  | _ => 0

/-- Calls are made for at least one entry, and no attempt is overtaken by 2^32 positions. -/
def Fair (s : MpmcRing j T α) : RingAction T α → Prop
  | .enqueue _ _ xs => 0 < xs.length
  | .dequeue _ _ n => 0 < n
  | .go t => s.overtaken t < 2 ^ 32

instance (s : MpmcRing j T α) : (a : RingAction T α) → Decidable (s.Fair a)
  | .enqueue .. | .dequeue .. | .go _ => Nat.decLt _ _

/-- What a call has in its table for position `q`. -/
def entry (s : MpmcRing j T α) (d : RingSide) (q : Nat) : Option α :=
  d.pick (s.cell (q % 2 ^ j)) (s.done .prod)[q]?

def CallOk (s : MpmcRing j T α) : RingCall α → Prop
  | .idle .. => True
  | .start d _ n xs => 0 < n ∧ xs.length = d.pick n 0
  | .head d _ n xs h => (0 < n ∧ xs.length = d.pick n 0) ∧ h ≤ s.head d
  | .tail d _ n xs h c =>
    (0 < n ∧ xs.length = d.pick n 0) ∧ h ≤ s.head d ∧
      (h = s.head d → c ≤ s.tail d.other ∧ h ≤ capacity j d + c ∧ capacity j d + c < h + 2 ^ j)
  | .own d h n xs i _ =>
    i ≤ n ∧ xs.length = d.pick n i ∧ ∀ k < i, s.entry d (h + k) = xs[k]?
  | .turn d h n xs _ =>
    h ≤ s.tail d ∧ xs.length = n ∧ ∀ k < n, s.entry d (h + k) = xs[k]?

structure Inv (s : MpmcRing j T α) : Prop where
  small : j < 32
  tail : ∀ d, s.tail d = (s.done d).length
  limit : ∀ d, s.head d ≤ capacity j d + s.tail d.other
  held : ∀ d, Tickets (s.tail d) (s.head d) fun t => (s.call t).owned d
  fifo : s.done .cons <+: s.done .prod
  cells : ∀ q, s.tail .cons ≤ q → q < s.tail .prod → s.cell (q % 2 ^ j) = (s.done .prod)[q]?
  calls : ∀ t, s.CallOk (s.call t)

section

variable {s s' : MpmcRing j T α} {t u : T} {c : RingCall α} {h n p q : Nat} {d : RingSide}
  {xs : List α} {ret : Int}

theorem Inv.window (hs : s.Inv) : s.tail .cons ≤ s.head .cons ∧ s.head .cons ≤ s.tail .prod ∧
    s.tail .prod ≤ s.head .prod ∧ s.head .prod < s.tail .cons + 2 ^ j := by
  have hprod := hs.limit .prod
  have hcons := hs.limit .cons
  have hpow := Nat.two_pow_pos j
  simp only [capacity, RingSide.pick, RingSide.other] at hprod hcons
  exact ⟨(hs.held .cons).le, by omega, (hs.held .prod).le, by omega⟩

theorem grant_eq_some {b : RingBehavior} {avail m : Nat} (hn : 0 < n)
    (hm : b.grant n avail = some m) : 0 < m ∧ m ≤ n ∧ m ≤ avail := by
  unfold RingBehavior.grant at hm
  split at hm
  · obtain ⟨hne, heq⟩ := Option.ite_none_left_eq_some.mp hm
    cases heq
    omega
  · cases hm
    omega

theorem wrapSub_eq (hle : p ≤ q) (hlt : q < p + 2 ^ 32) : wrapSub q p = q - p := by
  simp only [wrapSub, BitVec.toNat_sub, BitVec.toNat_ofNat]
  omega

theorem mod_ne (hne : p ≠ q) (hp : p < q + 2 ^ j) (hq : q < p + 2 ^ j) :
    p % 2 ^ j ≠ q % 2 ^ j := by
  intro heq
  have hpq := Nat.sub_mod_eq_zero_of_mod_eq heq
  have hqp := Nat.sub_mod_eq_zero_of_mod_eq heq.symm
  rw [Nat.mod_eq_of_lt (by omega)] at hpq hqp
  omega

variable [DecidableEq T]

/-- Thread `t` goes to `c`, and the positions do not fall. -/
structure Moves (s s' : MpmcRing j T α) (t : T) (c : RingCall α) : Prop where
  call : s'.call = update s.call t c
  head : ∀ d, s.head d ≤ s'.head d
  tail : ∀ d, s.tail d ≤ s'.tail d

theorem Moves.owned (hm : Moves s s' t c) (d : RingSide) : (fun u => (s'.call u).owned d) =
    update (fun u => (s.call u).owned d) t (c.owned d) := by
  rw [hm.call]
  exact comp_update (RingCall.owned d) s.call t c

theorem Moves.owned_eq (hm : Moves s s' t c) (hc : c.owned d = (s.call t).owned d) :
    (fun u => (s'.call u).owned d) = fun u => (s.call u).owned d := by
  rw [hm.owned, hc]
  exact update_eq_self t _

/-- What the threads rely on stays, if the entries that they have reserved do. -/
theorem Moves.calls (hm : Moves s s' t c) (hs : s.Inv) (hc : s'.CallOk c)
    (hentry : ∀ u d a b, u ≠ t → (s.call u).owned d = some (a, b) → ∀ q, a ≤ q → q < b →
      s'.entry d q = s.entry d q) (u : T) : s'.CallOk (s'.call u) := by
  rw [hm.call]
  by_cases hu : u = t
  · subst hu
    rwa [update_self]
  · rw [update_of_ne hu]
    have hold := hs.calls u
    have hkeep := hentry u
    cases hcall : s.call u <;> rw [hcall] at hold hkeep
    case idle | start => exact hold
    case head d _ _ _ h => exact ⟨hold.1, Nat.le_trans hold.2 (hm.head d)⟩
    case tail d _ _ _ h _ =>
      obtain ⟨hn, hle, hq⟩ := hold
      have hhead := hm.head d
      refine ⟨hn, Nat.le_trans hle hhead, fun heq => ?_⟩
      obtain ⟨hqd, hlt⟩ := hq (by omega)
      exact ⟨Nat.le_trans hqd (hm.tail _), hlt⟩
    case own d h n xs i ret =>
      obtain ⟨hi, hlen, hget⟩ := hold
      refine ⟨hi, hlen, fun k hk => ?_⟩
      rw [hkeep d h (h + n) hu (if_pos rfl) _ (by omega) (by omega), hget k hk]
    case turn d h n xs ret =>
      obtain ⟨hle, hlen, hget⟩ := hold
      refine ⟨Nat.le_trans hle (hm.tail d), hlen, fun k hk => ?_⟩
      rw [hkeep d h (h + n) hu (if_pos rfl) _ (by omega) (by omega), hget k hk]

/-- A step that changes nothing but the thread's own variables, and not what it has reserved. -/
theorem Inv.goto (hs : s.Inv) {c' : RingCall α} (hcall : s.call t = c')
    (howned : ∀ d, c.owned d = c'.owned d) (hc : s.CallOk c) : (s.goto t c).Inv := by
  have hm : Moves s (s.goto t c) t c := ⟨rfl, fun _ => Nat.le_refl _, fun _ => Nat.le_refl _⟩
  exact { hs with
    held := fun d => hm.owned_eq (hcall ▸ howned d) ▸ hs.held d
    calls := hm.calls hs (by cases c <;> exact hc) fun _ _ _ _ _ _ _ _ _ => rfl }

theorem Inv.reserve (hs : s.Inv) (hnone : ∀ e, (s.call t).owned e = none) (hn : 0 < n)
    (hxs : xs.length = d.pick n 0) (hlimit : s.head d + n ≤ capacity j d + s.tail d.other) :
    (s.reserve t d (s.head d) n xs ret).Inv := by
  have hm : Moves s (s.reserve t d (s.head d) n xs ret) t (.own d (s.head d) n xs 0 ret) := by
    refine ⟨rfl, fun e => ?_, fun _ => Nat.le_refl _⟩
    by_cases he : e = d
    · subst he
      simp [MpmcRing.reserve]
    · simp [MpmcRing.reserve, he]
  refine { hs with
    limit := fun e => ?_
    held := fun e => ?_
    calls := hm.calls hs ⟨Nat.zero_le _, hxs, by simp⟩ fun _ _ _ _ _ _ _ _ _ => rfl }
  all_goals by_cases he : e = d
  · subst he
    simpa [MpmcRing.reserve, MpmcRing.goto] using hlimit
  · simpa [MpmcRing.reserve, MpmcRing.goto, he] using hs.limit e
  · subst he
    rw [hm.owned]
    simpa [MpmcRing.reserve, MpmcRing.goto, RingCall.owned] using (hs.held e).take (hnone e) hn
  · rw [hm.owned_eq (by rw [hnone, RingCall.owned, if_neg (Ne.symm he)])]
    simpa [MpmcRing.reserve, MpmcRing.goto, he] using hs.held e

theorem Inv.store {i : Nat} {x : α} (hs : s.Inv) (hcall : s.call t = .own .prod h n xs i ret)
    (hi : i < n) (hx : xs[i]? = some x) :
    (s.store t (.own .prod h n xs (i + 1) ret) (h + i) x).Inv := by
  have hwin := hs.window
  have hown : (s.call t).owned .prod = some (h, h + n) := by simp [hcall, RingCall.owned]
  have hin := (hs.held .prod).inside hown
  have hc := hs.calls t
  rw [hcall] at hc
  obtain ⟨-, hlen, hget⟩ := hc
  have hm : Moves s (s.store t _ (h + i) x) t (.own .prod h n xs (i + 1) ret) :=
    ⟨rfl, fun _ => Nat.le_refl _, fun _ => Nat.le_refl _⟩
  have hkeep : ∀ q, s.tail .cons ≤ q → q < s.head .prod → q ≠ h + i →
      update s.cell ((h + i) % 2 ^ j) (some x) (q % 2 ^ j) = s.cell (q % 2 ^ j) :=
    fun q hq hlt hne => update_of_ne (mod_ne hne (by omega) (by omega)) ..
  refine { hs with
    held := fun e => hm.owned_eq (by rw [hcall]; rfl) ▸ hs.held e
    cells := fun q (hq : s.tail .cons ≤ q) (hlt : q < s.tail .prod) =>
      (hkeep q hq (by omega) (by omega)).trans (hs.cells q hq hlt)
    calls := hm.calls hs ⟨hi, hlen, fun k hk => ?_⟩ fun u e a b hu hr q ha hb => ?_ }
  · by_cases hki : k = i
    · subst hki
      exact (update_self ..).trans hx.symm
    · exact (hkeep (h + k) (by omega) (by omega) (by omega)).trans (hget k (by omega))
  · cases e with
    | cons => rfl
    | prod =>
      have := (hs.held .prod).inside hr
      have := (hs.held .prod).apart hu hr hown
      exact hkeep q (by omega) (by omega) (by omega)

/-- The entry that a consumer reads is published and has not been overwritten. -/
theorem Inv.copy {i : Nat} (hs : s.Inv) (hcall : s.call t = .own d h n xs i ret) (hi : i < n) :
    ∃ s', s.copy t h n xs i ret d = some s' ∧ s'.Inv := by
  have hc := hs.calls t
  rw [hcall] at hc
  obtain ⟨-, hlen, hget⟩ := hc
  cases d with
  | prod =>
    have hx := getElem?_eq_getElem (show i < xs.length from hlen.symm ▸ hi)
    exact ⟨_, by rw [MpmcRing.copy, hx]; rfl, hs.store hcall hi hx⟩
  | cons =>
    have hwin := hs.window
    have hin := (hs.held .cons).inside
      (show (s.call t).owned .cons = some (h, h + n) by simp [hcall, RingCall.owned])
    have hq : h + i < (s.done .prod).length := by
      rw [← hs.tail]
      omega
    have hx := getElem?_eq_getElem hq
    have hcell := (hs.cells _ (by omega) (by omega)).trans hx
    have hlen : xs.length = i := hlen
    refine ⟨_, by rw [MpmcRing.copy, hcell]; rfl, ?_⟩
    refine hs.goto hcall (fun _ => rfl) ⟨hi, by simp [RingSide.pick, hlen], fun k hk => ?_⟩
    by_cases hki : k < i
    · rw [hget k hki, getElem?_append_left (by omega)]
    · obtain rfl : k = i := by omega
      exact hx.trans (by simp [← hlen])

theorem Inv.publish (hs : s.Inv) (hcall : s.call t = .turn d h n xs ret) :
    (s.publish t d h n xs ret).Inv := by
  have hown : (s.call t).owned d = some (h, h + n) := by simp [hcall, RingCall.owned]
  have hin := (hs.held d).inside hown
  have hc := hs.calls t
  rw [hcall] at hc
  obtain ⟨hturn, hlen, hget⟩ := hc
  obtain rfl : s.tail d = h := Nat.le_antisymm hin.1 hturn
  have htail : (s.publish t d (s.tail d) n xs ret).tail d = s.tail d + n := update_self ..
  have hdone : (s.publish t d (s.tail d) n xs ret).done d = s.done d ++ xs :=
    update_self ..
  have hothers : ∀ e, e ≠ d → (s.publish t d (s.tail d) n xs ret).tail e = s.tail e ∧
      (s.publish t d (s.tail d) n xs ret).done e = s.done e :=
    fun e he => ⟨update_of_ne he .., update_of_ne he ..⟩
  have hm : Moves s (s.publish t d (s.tail d) n xs ret) t (.idle ret xs) := by
    refine ⟨rfl, fun _ => Nat.le_refl _, fun e => ?_⟩
    by_cases he : e = d
    · subst he
      omega
    · exact Nat.le_of_eq (hothers e he).1.symm
  have hpub : ∀ q < s.tail .prod,
      ((s.publish t d (s.tail d) n xs ret).done .prod)[q]? = (s.done .prod)[q]? := by
    intro q hq
    cases d with
    | cons => rw [(hothers .prod (by decide)).2]
    | prod => rw [hdone, getElem?_append_left (by rwa [← hs.tail])]
  have hwin := hs.window
  refine { hs with
    tail := fun e => ?_
    limit := fun e => Nat.le_trans (hs.limit e) (Nat.add_le_add_left (hm.tail e.other) _)
    held := fun e => ?_
    fifo := ?_
    cells := fun q hq hlt => ?_
    calls := hm.calls hs trivial fun u e a b hu hr q ha hb => ?_ }
  · by_cases he : e = d
    · subst he
      rw [htail, hdone, length_append, hlen, hs.tail]
    · rw [(hothers e he).1, (hothers e he).2, hs.tail]
  · by_cases he : e = d
    · subst he
      rw [htail, hm.owned]
      exact (hs.held e).serve hown
    · rw [(hothers e he).1, hm.owned_eq (by simp [hcall, RingCall.owned, Ne.symm he])]
      exact hs.held e
  · cases d with
    | prod =>
      rw [hdone, (hothers .cons (by decide)).2]
      exact hs.fifo.trans (prefix_append ..)
    | cons =>
      obtain ⟨ys, hys⟩ := hs.fifo
      rw [hdone, (hothers .prod (by decide)).2, ← hys, prefix_append_right_inj,
        prefix_iff_getElem?]
      intro k hk
      have hentry : (s.done .prod)[s.tail .cons + k]? = xs[k]? := hget k (by omega)
      rw [← hys, hs.tail, getElem?_append_right (by omega), Nat.add_sub_cancel_left] at hentry
      rw [hentry, getElem?_eq_getElem hk]
  · have hqc : s.tail .cons ≤ q := Nat.le_trans (hm.tail .cons) hq
    by_cases hold : q < s.tail .prod
    · exact (hs.cells q hqc hold).trans (hpub q hold).symm
    · cases d with
      | cons => exact absurd ((hothers .prod (by decide)).1 ▸ hlt) hold
      | prod =>
        have hentry : s.cell _ = _ := hget (q - s.tail .prod) (by omega)
        rw [Nat.add_sub_of_le (by omega)] at hentry
        rw [hdone, getElem?_append_right (by rw [← hs.tail]; omega), ← hs.tail]
        exact hentry
  · have hin := (hs.held e).inside hr
    cases e with
    | prod => rfl
    | cons => exact hpub q (by omega)

theorem Inv.tailStep {b : RingBehavior} {c m : Nat} (hs : s.Inv)
    (hcall : s.call t = .tail d b n xs h c) (hfair : s.overtaken t < 2 ^ 32)
    (hgrant : b.grant n (wrapSub (capacity j d + c) h) = some m)
    (hhead : s.head d % 2 ^ 32 = h % 2 ^ 32) : (s.reserve t d h m (xs.take m) ret).Inv := by
  have hc := hs.calls t
  rw [hcall] at hc
  obtain ⟨⟨hpos, hlen⟩, hle, hq⟩ := hc
  simp only [overtaken, hcall] at hfair
  obtain rfl : h = s.head d := by omega
  obtain ⟨hct, hpq, hlt⟩ := hq rfl
  have hpow : 2 ^ j < 2 ^ 32 := Nat.pow_lt_pow_right (by omega) hs.small
  have hm := grant_eq_some hpos hgrant
  rw [wrapSub_eq hpq (by omega)] at hm
  have hxs : (xs.take m).length = d.pick m 0 := by
    cases d <;> simp only [RingSide.pick] at hlen ⊢ <;> rw [length_take] <;> omega
  exact hs.reserve (fun e => hcall ▸ rfl) hm.1 hxs (by omega)

theorem Inv.go (hs : s.Inv) (hfair : s.overtaken t < 2 ^ 32) (hbusy : (s.call t).isIdle = false) :
    ∃ s', s.go t = some s' ∧ s'.Inv := by
  have hc := hs.calls t
  cases hcall : s.call t <;> rw [hcall] at hc
  case idle => simp [hcall, RingCall.isIdle] at hbusy
  case start d b n xs =>
    refine ⟨_, by rw [MpmcRing.go, hcall], ?_⟩
    exact hs.goto hcall (fun _ => rfl) ⟨hc, Nat.le_refl _⟩
  case head d b n xs h =>
    refine ⟨_, by rw [MpmcRing.go, hcall], ?_⟩
    refine hs.goto hcall (fun _ => rfl) ⟨hc.1, hc.2, fun hp => ⟨Nat.le_refl _, ?_⟩⟩
    have hlimit := hs.limit d
    have hwin := hs.window
    cases d <;> simp only [capacity, RingSide.pick, RingSide.other] at hlimit ⊢ <;> omega
  case tail d b n xs h c =>
    cases hgrant : b.grant n (wrapSub (capacity j d + c) h) with
    | none =>
      refine ⟨_, by simp only [MpmcRing.go, hcall, hgrant]; rfl, ?_⟩
      exact hs.goto hcall (fun _ => rfl) trivial
    | some m =>
      refine ⟨_, by simp only [MpmcRing.go, hcall, hgrant]; rfl, ?_⟩
      split
      · next hhead => exact hs.tailStep hcall hfair hgrant hhead
      · exact hs.goto hcall (fun _ => rfl) hc.1
  case own d h n xs i ret =>
    by_cases hi : i < n
    · obtain ⟨s', hcopy, hs'⟩ := hs.copy hcall hi
      exact ⟨s', by simp only [MpmcRing.go, hcall, if_pos hi, hcopy], hs'⟩
    · refine ⟨_, by simp only [MpmcRing.go, hcall, if_neg hi]; rfl, ?_⟩
      obtain ⟨hle, hlen, hget⟩ := hc
      split
      · next hturn =>
        have hin := (hs.held d).inside
          (show (s.call t).owned d = some (h, h + n) by simp [hcall, RingCall.owned])
        have hpow : 2 ^ j < 2 ^ 32 := Nat.pow_lt_pow_right (by omega) hs.small
        have hwin := hs.window
        refine hs.goto hcall (fun _ => rfl) ⟨?_, ?_, fun k hk => hget k (by omega)⟩
        · cases d <;> omega
        · cases d <;> simp only [RingSide.pick] at hlen <;> omega
      · exact hs
  case turn d h n xs ret => exact ⟨_, by rw [MpmcRing.go, hcall], hs.publish hcall⟩

theorem Inv.step {a : RingAction T α} (hs : s.Inv) (hfair : s.Fair a) (hstep : s.step a = some s') :
    s'.Inv := by
  cases a with
  | go t =>
    cases hidle : (s.call t).isIdle with
    | true => cases hcall : s.call t <;> simp_all [RingCall.isIdle, MpmcRing.step, MpmcRing.go]
    | false =>
      obtain ⟨s₁, hgo, hs₁⟩ := hs.go hfair hidle
      exact Option.some.inj (hgo.symm.trans hstep) ▸ hs₁
  | enqueue t b n | dequeue t b n =>
    obtain ⟨hidle, rfl⟩ := guarded_eq_some.mp hstep
    cases hcall : s.call t with
    | idle => exact hs.goto hcall (fun _ => rfl) ⟨hfair, rfl⟩
    | _ => simp [RingCall.isIdle, hcall] at hidle

end

section Runs

variable [DecidableEq T] {s : MpmcRing j T α} {w : Nat} {as : List (RingAction T α)} {t u : T}
  {d e : RingSide}

theorem Inv.run (hj : j < 32) (hrun : Run MpmcRing.step Fair { watermark := w } as s) : s.Inv := by
  refine hrun.invariant (fun _ _ _ hs hok hstep => hs.step hok hstep) ?_
  exact {
    small := hj
    tail := fun _ => rfl
    limit := fun _ => Nat.zero_le _
    held := fun _ => ⟨Nat.le_refl _, by simp [RingCall.owned], by simp [RingCall.owned], by simp⟩
    fifo := prefix_rfl
    cells := by simp
    calls := fun _ => trivial }

/-- Whatever the threads do, what the consumers have given back is what the producers have
published first, in the same order; the ring holds the rest. -/
theorem mpmc_fifo (hj : j < 32) (hrun : Run MpmcRing.step Fair { watermark := w } as s) :
    ∃ xs, s.done .prod = s.done .cons ++ xs ∧ xs.length < 2 ^ j ∧
      ∀ i x, xs[i]? = some x → s.cell ((s.tail .cons + i) % 2 ^ j) = some x := by
  have hs := Inv.run hj hrun
  have hwin := hs.window
  have hprod := hs.tail .prod
  have hcons := hs.tail .cons
  obtain ⟨xs, hxs⟩ := hs.fifo
  have hlen := congrArg List.length hxs
  rw [List.length_append] at hlen
  refine ⟨xs, hxs.symm, by omega, fun i x hx => ?_⟩
  have hi := (List.getElem?_eq_some_iff.mp hx).1
  rw [hs.cells _ (by omega) (by omega), ← hxs, List.getElem?_append_right (by omega), hcons,
    Nat.add_sub_cancel_left, hx]

/-- The producer that has reserved later has stored its entry first and waits for its turn. -/
def twoProducers : List (RingAction Bool Nat) :=
  [.enqueue true .fixed [1, 2], .go true, .go true, .go true, .enqueue false .fixed [3],
    .go false, .go false, .go false, .go false, .go false]

theorem mpmc_fifo_twoProducers : ∃ s : MpmcRing 2 Bool Nat, Run MpmcRing.step Fair
    { watermark := 4 } (twoProducers ++ replicate 4 (.go true) ++ replicate 2 (.go false) ++
      .dequeue true .variable 2 :: replicate 7 (.go true)) s ∧ s.done .cons = [1, 2] ∧
    ∃ xs, s.done .prod = s.done .cons ++ xs ∧ xs.length < 2 ^ 2 ∧
      ∀ i x, xs[i]? = some x → s.cell ((s.tail .cons + i) % 2 ^ 2) = some x :=
  Run.exists_and_of_runActions (by decide +kernel) fun _ hrun _ => mpmc_fifo (by decide) hrun

/-- No two threads have reserved the same entry of the ring. -/
theorem mpmc_entries_apart {a b c f p q : Nat} (hj : j < 32)
    (hrun : Run MpmcRing.step Fair { watermark := w } as s) (htu : t ≠ u)
    (ht : (s.call t).owned d = some (a, b)) (hu : (s.call u).owned e = some (c, f))
    (hp : a ≤ p ∧ p < b) (hq : c ≤ q ∧ q < f) : p % 2 ^ j ≠ q % 2 ^ j := by
  have hs := Inv.run hj hrun
  have hwin := hs.window
  have hin := (hs.held d).inside ht
  have hin' := (hs.held e).inside hu
  have hne : p ≠ q := by
    by_cases hde : d = e
    · subst hde
      have := (hs.held d).apart htu ht hu
      omega
    · cases d <;> cases e <;> first | exact absurd rfl hde | omega
  apply mod_ne hne <;> cases d <;> cases e <;> omega

theorem mpmc_entries_apart_twoProducers : ∃ s : MpmcRing 2 Bool Nat,
    Run MpmcRing.step Fair { watermark := 4 } twoProducers s ∧
      ((s.call true).owned .prod = some (0, 2) ∧ (s.call false).owned .prod = some (2, 3)) ∧
      1 % 2 ^ 2 ≠ 2 % 2 ^ 2 :=
  Run.exists_and_of_runActions (by decide +kernel) fun _ hrun hs =>
    mpmc_entries_apart (by decide) hrun (by decide) hs.1 hs.2 (by decide) (by decide)

/-- A thread in a call is never stuck, and while a side's tail is behind its head some thread has
its turn. -/
theorem mpmc_goes_on (hj : j < 32) (hrun : Run MpmcRing.step Fair { watermark := w } as s) :
    (∀ t, (s.call t).isIdle = false → s.Fair (.go t) → (s.go t).isSome = true) ∧
      ∀ d, s.tail d ≠ s.head d → ∃ t b, (s.call t).owned d = some (s.tail d, b) := by
  have hs := Inv.run hj hrun
  refine ⟨fun t hbusy hfair => ?_, fun d hne => ?_⟩
  · obtain ⟨s', hs', -⟩ := hs.go hfair hbusy
    simp [hs']
  · exact (hs.held d).exists_turn (Nat.lt_of_le_of_ne (hs.held d).le hne)

theorem mpmc_goes_on_twoProducers : ∃ s : MpmcRing 2 Bool Nat,
    Run MpmcRing.step Fair { watermark := 4 } twoProducers s ∧ s.tail .prod ≠ s.head .prod ∧
      ((∀ t, (s.call t).isIdle = false → s.Fair (.go t) → (s.go t).isSome = true) ∧
        ∀ d, s.tail d ≠ s.head d → ∃ t b, (s.call t).owned d = some (s.tail d, b)) :=
  Run.exists_and_of_runActions (by decide +kernel) fun _ hrun _ => mpmc_goes_on (by decide) hrun

end Runs

end MpmcRing

end NetbsdDpdk
