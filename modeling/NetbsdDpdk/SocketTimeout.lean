import Mathlib.Logic.Function.Iterate
import NetbsdDpdk.StreamSocket

/-! The timeouts of a socket: `sosetopt1` divides by `tick` and `sogetopt1` multiplies by it, as if
it were the length of a tick in microseconds. In this port it counts the ticks. -/

namespace NetbsdDpdk

structure Timeval where
  tvSec : Int
  tvUsec : Int

structure SocketTimeo where
  sndTimeo : Int := 0
  rcvTimeo : Int := 0

inductive TimeoOpt
  | sndtimeo
  | rcvtimeo

inductive SetoptError
  | einval
  | edom

def hz : Nat := 1000

def intMax : Int := 2147483647

def toUlong (z : Int) : Nat := (z % 2 ^ 64).toNat

def systickExpiryCbk (tick : Nat) : Nat := (tick + 1) % 2 ^ 64

def tickAfter (n : Nat) : Nat := systickExpiryCbk^[n] 0

namespace SocketTimeo

def timeo (so : SocketTimeo) : TimeoOpt → Int
  | .sndtimeo => so.sndTimeo
  | .rcvtimeo => so.rcvTimeo

/-- The value is none if it has another size. The whole is `none` for a division by zero. -/
def sosetopt1 (so : SocketTimeo) (tick : Nat) (opt : TimeoOpt) :
    Option Timeval → Option (Except SetoptError SocketTimeo)
  | none => some (.error .einval)
  | some tv =>
    if tick = 0 then none
    else
      let ticks := toUlong tv.tvUsec / tick
      if toUlong (intMax - ticks) / hz < toUlong tv.tvSec then some (.error .edom)
      else
        let optval := wrap32 (tv.tvSec * hz + ticks)
        let optval := if optval = 0 ∧ tv.tvUsec ≠ 0 then 1 else optval
        match opt with
        | .sndtimeo => some (.ok { so with sndTimeo := optval })
        | .rcvtimeo => some (.ok { so with rcvTimeo := optval })

def sogetopt1 (so : SocketTimeo) (tick : Nat) (opt : TimeoOpt) : Timeval where
  tvSec := toUlong (so.timeo opt) / hz
  tvUsec := wrap32 (toUlong (so.timeo opt) % hz * tick % 2 ^ 64 : Nat)

end SocketTimeo

namespace Timeval

def Valid (tv : Timeval) : Prop :=
  0 ≤ tv.tvSec ∧ tv.tvSec < 2 ^ 63 ∧ 0 ≤ tv.tvUsec ∧ tv.tvUsec < 1000000

def usecs (tv : Timeval) : Int := tv.tvSec * 1000000 + tv.tvUsec

end Timeval

/-- The call does not divide by zero, and a value that it accepts is read back at `later` as a
proper time that is off by a tick at most. -/
def TimeoKept (tick later : Nat) (so : SocketTimeo) (opt : TimeoOpt) (tv : Timeval) : Prop :=
  ∃ r, so.sosetopt1 tick opt (some tv) = some r ∧ ∀ so', r = .ok so' →
    0 ≤ (so'.sogetopt1 later opt).tvUsec ∧ (so'.sogetopt1 later opt).tvUsec < 1000000 ∧
      ((so'.sogetopt1 later opt).usecs - tv.usecs).natAbs ≤ 1000000 / hz

namespace Timeval

/-- The ticks for the microseconds; a time that is not zero counts for one at least. -/
def ticks (tv : Timeval) (tick : Nat) : Int :=
  if tv.tvSec = 0 ∧ tv.tvUsec / tick = 0 ∧ tv.tvUsec ≠ 0 then 1 else tv.tvUsec / tick

/-- The counter has started and, for a value that is not too large, its ticks are the microseconds
again at `later`, in an `int` and within 1000. -/
def Keeps (tv : Timeval) (tick later : Nat) : Prop :=
  tick ≠ 0 ∧ (tv.tvSec * 1000 + tv.ticks tick ≤ intMax →
    tv.ticks tick % 1000 * later % 2 ^ 32 < 1000000 ∧
      (tv.ticks tick / 1000 * 1000000 + tv.ticks tick % 1000 * later % 2 ^ 32 -
        tv.tvUsec).natAbs ≤ 1000)

end Timeval

section Arithmetic

variable {tick later : Nat} {so : SocketTimeo} {opt : TimeoOpt} {tv : Timeval}

theorem toUlong_eq {z : Int} (hlow : 0 ≤ z) (hhigh : z < 2 ^ 64) : toUlong z = z.toNat := by
  rw [toUlong, Int.emod_eq_of_lt hlow hhigh]

theorem wrap32_of_nonneg {z : Int} (hlow : 0 ≤ z) (hhigh : z ≤ intMax) : wrap32 z = z := by
  rw [intMax] at hhigh
  exact Int.bmod_eq_of_le (by omega) (by omega)

/-- Only the lower half of the product is stored in an `int`. -/
theorem wrap32_mod (a : Nat) :
    0 ≤ wrap32 (a % 2 ^ 64 : Nat) ∧ wrap32 (a % 2 ^ 64 : Nat) < 1000000 ↔ a % 2 ^ 32 < 1000000 := by
  rw [wrap32, Int.bmod_def]
  omega

theorem wrap32_mod_eq {a : Nat} (h : a % 2 ^ 32 < 1000000) :
    wrap32 (a % 2 ^ 64 : Nat) = a % 2 ^ 32 := by
  rw [wrap32, Int.bmod_def]
  omega

theorem sosetopt1_eq (so : SocketTimeo) (opt : TimeoOpt) (hv : tv.Valid) (htick : tick ≠ 0) :
    (tv.tvSec * 1000 + tv.ticks tick ≤ intMax ∧
      ∃ so', so.sosetopt1 tick opt (some tv) = some (.ok so') ∧
        so'.timeo opt = tv.tvSec * 1000 + tv.ticks tick) ∨
    intMax < tv.tvSec * 1000 + tv.ticks tick ∧
      so.sosetopt1 tick opt (some tv) = some (.error .edom) := by
  obtain ⟨hsec, hsec', husec, husec'⟩ := hv
  obtain ⟨q, hq⟩ : ∃ q : Int, tv.tvUsec / tick = q := ⟨_, rfl⟩
  have hq0 : 0 ≤ q := hq ▸ Int.ediv_nonneg husec (by omega)
  have hq1 : q ≤ tv.tvUsec := hq ▸ Int.ediv_le_self _ husec
  have hticks : ((toUlong tv.tvUsec / tick : Nat) : Int) = q := by
    rw [toUlong_eq husec (by omega), ← hq, Int.natCast_ediv, Int.toNat_of_nonneg husec]
  have hcheck : toUlong (intMax - q) / hz < toUlong tv.tvSec ↔ intMax < tv.tvSec * 1000 + q := by
    rw [toUlong_eq (by rw [intMax]; omega) (by rw [intMax]; omega), toUlong_eq hsec (by omega),
      hz, intMax]
    omega
  unfold SocketTimeo.sosetopt1 Timeval.ticks
  simp only [if_neg htick, hticks, hcheck, hq]
  by_cases hbig : intMax < tv.tvSec * 1000 + q
  · right
    rw [if_pos hbig]
    refine ⟨?_, rfl⟩
    rw [intMax] at hbig ⊢
    split <;> omega
  · left
    have hwrap : wrap32 (tv.tvSec * hz + q) = tv.tvSec * 1000 + q :=
      wrap32_of_nonneg (by simp only [hz]; omega) (by simp only [hz]; omega)
    have hone : (if tv.tvSec * 1000 + q = 0 ∧ tv.tvUsec ≠ 0 then 1 else tv.tvSec * 1000 + q) =
        tv.tvSec * 1000 + if tv.tvSec = 0 ∧ q = 0 ∧ tv.tvUsec ≠ 0 then 1 else q := by
      split <;> split <;> omega
    rw [if_neg hbig, hwrap, hone]
    refine ⟨?_, ?_⟩
    · rw [intMax] at hbig ⊢
      split <;> omega
    · cases opt <;> exact ⟨_, rfl, rfl⟩

theorem timeoKept_iff (hv : tv.Valid) :
    TimeoKept tick later so opt tv ↔ tv.Keeps tick later := by
  by_cases htick : tick = 0
  · subst htick
    simp [TimeoKept, SocketTimeo.sosetopt1, Timeval.Keeps]
  have hpos : 0 ≤ tv.tvSec * 1000 + tv.ticks tick := by
    obtain ⟨hsec, -, husec, -⟩ := hv
    have := Int.ediv_nonneg husec (show (0 : Int) ≤ tick by omega)
    unfold Timeval.ticks
    split <;> omega
  rcases sosetopt1_eq so opt hv htick with ⟨hle, so', hset, htimeo⟩ | ⟨hgt, hset⟩
  · obtain ⟨v, hv⟩ : ∃ v : Nat, tv.tvSec * 1000 + tv.ticks tick = v :=
      ⟨_, (Int.toNat_of_nonneg hpos).symm⟩
    rw [hv] at hle htimeo
    have hlong : toUlong (so'.timeo opt) = v := by
      rw [htimeo, toUlong_eq (by omega) (by rw [intMax] at hle; omega), Int.toNat_natCast]
    have hmod : tv.ticks tick % 1000 * later % 2 ^ 32 = (v % 1000 * later % 2 ^ 32 : Nat) := by
      have hticks : tv.ticks tick % 1000 = (v % 1000 : Nat) := by omega
      rw [hticks]
      push_cast
      rfl
    rw [TimeoKept, hset, Timeval.Keeps, hmod, hv]
    simp only [Option.some.injEq, exists_eq_left', Except.ok.injEq, forall_eq', hle, forall_const,
      Timeval.usecs, SocketTimeo.sogetopt1, hlong, hz]
    obtain ⟨a, ha⟩ : ∃ a, v % 1000 * later = a := ⟨_, rfl⟩
    rw [← and_assoc, wrap32_mod, ha]
    constructor
    · rintro ⟨hsmall, hnear⟩
      rw [wrap32_mod_eq hsmall] at hnear
      exact ⟨htick, by omega, by omega⟩
    · rintro ⟨-, hsmall, hnear⟩
      have hsmall' : a % 2 ^ 32 < 1000000 := by omega
      rw [wrap32_mod_eq hsmall']
      exact ⟨hsmall', by omega⟩
  · have hnot : ¬ tv.tvSec * 1000 + tv.ticks tick ≤ intMax := by omega
    rw [TimeoKept, hset, Timeval.Keeps]
    simp [hnot, htick]

/-- The ticks for which every time is kept, and `later` as far as the product depends on it. -/
def keepingTicks : List (Nat × Nat) := [(999, 999), (1000, 1000), (1000, 1001), (1001, 1001)]

theorem kept_of_mem (h : (tick, later % 2 ^ 32) ∈ keepingTicks) (hv : tv.Valid) :
    tv.Keeps tick later := by
  obtain ⟨l, hl⟩ : ∃ l, later % 2 ^ 32 = l := ⟨_, rfl⟩
  have hl' : ((later : Int) % 2 ^ 32) = l := by omega
  rw [hl] at h
  have htick : tick ≠ 0 ∧ l ≤ 1001 := by
    simp only [keepingTicks, List.mem_cons, Prod.mk.injEq, List.not_mem_nil, or_false] at h
    omega
  refine ⟨htick.1, fun _ => ?_⟩
  obtain ⟨r, hr⟩ : ∃ r, tv.ticks tick % 1000 = r := ⟨_, rfl⟩
  have hr0 : 0 ≤ r ∧ r ≤ 999 := by omega
  have hmul : r * l ≤ 999 * 1001 := Int.mul_le_mul hr0.2 (by omega) (by omega) (by omega)
  have hprod : r * later % 2 ^ 32 = r * l := by
    rw [Int.mul_emod, Int.emod_eq_of_lt hr0.1 (by omega), hl',
      Int.emod_eq_of_lt (Int.mul_nonneg hr0.1 (by omega)) (by omega)]
  rw [hr, hprod, ← hr]
  obtain ⟨hsec, -, husec, husec'⟩ := hv
  unfold Timeval.ticks
  simp only [keepingTicks, List.mem_cons, Prod.mk.injEq, List.not_mem_nil, or_false] at h
  rcases h with ⟨rfl, rfl⟩ | ⟨rfl, rfl⟩ | ⟨rfl, rfl⟩ | ⟨rfl, rfl⟩ <;> split <;> omega

theorem keeps_at (sec usec : Nat) (h : ∀ tv : Timeval, tv.Valid → tv.Keeps tick later)
    (hsec : sec ≤ 1) (husec : usec < 1000000) {v : Nat} (hv : 0 < sec + v)
    (hdiv : usec / tick = v) :
    v % 1000 * (later % 2 ^ 32) % 2 ^ 32 < 1000000 ∧
      ((v / 1000 * 1000000 + v % 1000 * (later % 2 ^ 32) % 2 ^ 32 : Nat) - (usec : Int)).natAbs ≤
        1000 := by
  have hdiv' : (usec : Int) / tick = v := by
    rw [← hdiv]
    simp
  have hticks : (Timeval.mk sec usec).ticks tick = v := by
    simp only [Timeval.ticks, hdiv']
    omega
  have hle : (sec * 1000 + v : Int) ≤ intMax := by
    have := Nat.div_le_self usec tick
    rw [intMax]
    omega
  have hkept := (h ⟨sec, usec⟩ ⟨by simp, by simp; omega, by simp, by simp; omega⟩).2
  rw [hticks] at hkept
  obtain ⟨hsmall, hnear⟩ := hkept hle
  rw [Nat.mul_mod_mod]
  refine ⟨by exact_mod_cast hsmall, ?_⟩
  push_cast
  exact hnear

theorem mem_of_kept (h : ∀ tv : Timeval, tv.Valid → tv.Keeps tick later) :
    (tick, later % 2 ^ 32) ∈ keepingTicks := by
  have htick : tick ≠ 0 := (h ⟨0, 0⟩ (by simp [Timeval.Valid])).1
  have hhigh : tick ≤ 1001 := by
    by_contra hgt
    have := keeps_at 1 1001 h le_rfl (by omega) (v := 0) (by omega) (Nat.div_eq_of_lt (by omega))
    simp at this
  have hlow : 999 ≤ tick := by
    by_contra hlt
    have := keeps_at 0 (1000 * tick) h (by omega) (by omega) (v := 1000) (by omega)
      (Nat.mul_div_cancel _ (by omega))
    simp at this
    omega
  obtain ⟨l, hl⟩ : ∃ l, later % 2 ^ 32 = l := ⟨_, rfl⟩
  -- one tick is read back as `later`, which is therefore small
  have hone := keeps_at 0 tick h (by omega) (by omega) (v := 1) (by omega) (Nat.div_self (by omega))
  have hsmall : l ≤ 2001 := by omega
  have hread (usec v : Nat) (husec : usec < 1000000) (hv : 0 < v) (hdiv : usec / tick = v) :
      v % 1000 * l < 1000000 ∧
        ((v / 1000 * 1000000 + v % 1000 * l : Nat) - (usec : Int)).natAbs ≤ 1000 := by
    have hkept := keeps_at 0 usec h (by omega) husec (by omega) hdiv
    have hmul : v % 1000 * l ≤ 999 * 2001 := Nat.mul_le_mul (by omega) hsmall
    rwa [hl, Nat.mod_eq_of_lt (by omega)] at hkept
  rw [hl]
  obtain rfl | rfl | rfl : tick = 999 ∨ tick = 1000 ∨ tick = 1001 := by omega
  · have hmax := hread 999999 1001 (by omega) (by omega) (by omega)
    have hmin := hread 998000 998 (by omega) (by omega) (by omega)
    obtain rfl : l = 999 := by omega
    decide
  · have hmax := hread 999999 999 (by omega) (by omega) (by omega)
    obtain rfl | rfl : l = 1000 ∨ l = 1001 := by omega
    all_goals decide
  · have hmax := hread 999999 999 (by omega) (by omega) (by omega)
    have hmin := hread 999998 998 (by omega) (by omega) (by omega)
    obtain rfl : l = 1001 := by omega
    decide

end Arithmetic

/-- A timeout is kept exactly under the condition of `Timeval.Keeps`. All of them are kept exactly
if they are set a second after the start and read in the same tick or, for one tick, in the next, up
to the width of an `int`. -/
theorem timeouts_kept_iff (n m : Nat) :
    (∀ so opt tv, tv.Valid → (TimeoKept (tickAfter n) (tickAfter (n + m)) so opt tv ↔
      tv.Keeps (tickAfter n) (tickAfter (n + m)))) ∧
    ((∀ so opt tv, tv.Valid → TimeoKept (tickAfter n) (tickAfter (n + m)) so opt tv) ↔
      (tickAfter n, tickAfter (n + m) % 2 ^ 32) ∈ keepingTicks) := by
  refine ⟨fun _ _ _ => timeoKept_iff, fun h => ?_, fun h so opt tv hv => ?_⟩
  · exact mem_of_kept fun tv hv => (timeoKept_iff hv).mp (h {} .sndtimeo tv hv)
  · exact (timeoKept_iff hv).mpr (kept_of_mem h hv)

/-- Before the first expiry any timeout makes `sosetopt1` divide by zero; 40 ms that are set after
three of them are read back as 13 seconds. -/
theorem timeout_divides_by_zero :
    (∀ (so : SocketTimeo) opt tv, so.sosetopt1 (tickAfter 0) opt (some tv) = none) ∧
    ∃ so', ({} : SocketTimeo).sosetopt1 (tickAfter 3) .rcvtimeo (some ⟨0, 40000⟩) = some (.ok so') ∧
      (so'.sogetopt1 (tickAfter 5) .rcvtimeo).tvSec = 13 := by
  refine ⟨fun _ _ _ => rfl, _, rfl, ?_⟩
  decide

end NetbsdDpdk
