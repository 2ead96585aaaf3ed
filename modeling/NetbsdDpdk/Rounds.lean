import Mathlib.Data.Option.Basic
import Mathlib.Order.Lattice

/-! Loops that need not end. A round goes on, leaves the loop, or stops the program. -/

namespace NetbsdDpdk

variable {σ ε : Type*}

inductive RoundResult (σ ε : Type*)
  | again (s : σ)
  | done (s : σ)
  | fault (e : ε)

/-- At most `fuel` rounds; `none` where these do not end the loop. -/
def iterate (round : σ → RoundResult σ ε) : Nat → σ → Option (Except ε σ)
  | 0, _ => none
  | fuel + 1, s =>
    match round s with
    | .again t => iterate round fuel t
    | .done t => some (.ok t)
    | .fault e => some (.error e)

def Halts (round : σ → RoundResult σ ε) (s : σ) (r : Except ε σ) : Prop :=
  ∃ fuel, iterate round fuel s = some r

namespace Halts

variable {round : σ → RoundResult σ ε} {s t : σ} {r : Except ε σ} {e : ε}

theorem again_iff (h : round s = .again t) : Halts round s r ↔ Halts round t r := by
  constructor
  · rintro ⟨fuel, hfuel⟩
    cases fuel with
    | zero => cases hfuel
    | succ fuel =>
      rw [iterate, h] at hfuel
      exact ⟨fuel, hfuel⟩
  · rintro ⟨fuel, hfuel⟩
    exact ⟨fuel + 1, by rw [iterate, h]; exact hfuel⟩

theorem stop_iff {r' : Except ε σ} (h : ∀ fuel, iterate round (fuel + 1) s = some r') :
    Halts round s r ↔ r = r' := by
  constructor
  · rintro ⟨fuel, hfuel⟩
    cases fuel with
    | zero => cases hfuel
    | succ fuel =>
      rw [h] at hfuel
      exact (Option.some.inj hfuel).symm
  · rintro rfl
    exact ⟨1, h 0⟩

theorem done_iff (h : round s = .done t) : Halts round s r ↔ r = .ok t :=
  stop_iff fun fuel => by rw [iterate, h]

theorem fault_iff (h : round s = .fault e) : Halts round s r ↔ r = .error e :=
  stop_iff fun fuel => by rw [iterate, h]

theorem rule {I J : σ → Prop} (hagain : ∀ s t, I s → round s = .again t → I t)
    (hdone : ∀ s t, I s → round s = .done t → J t) (hs : I s)
    (h : Halts round s (.ok t)) : J t := by
  obtain ⟨fuel, hfuel⟩ := h
  induction fuel generalizing s with
  | zero => cases hfuel
  | succ fuel ih =>
    rw [iterate] at hfuel
    cases hround : round s with
    | again u =>
      rw [hround] at hfuel
      exact ih (hagain s u hs hround) hfuel
    | done u =>
      rw [hround] at hfuel
      cases hfuel
      exact hdone s t hs hround
    | fault e =>
      rw [hround] at hfuel
      cases hfuel

theorem of_measure {I : σ → Prop} (m : σ → Nat)
    (hround : ∀ s, I s → (∃ t, round s = .done t) ∨ ∃ t, round s = .again t ∧ I t ∧ m t < m s)
    (hs : I s) : ∃ t, Halts round s (.ok t) := by
  obtain ⟨n, hn⟩ : ∃ n, m s < n := ⟨m s + 1, Nat.lt_succ_self _⟩
  induction n generalizing s with
  | zero => omega
  | succ n ih =>
    rcases hround s hs with ⟨t, ht⟩ | ⟨t, ht, hI, hlt⟩
    · exact ⟨t, (done_iff ht).mpr rfl⟩
    · obtain ⟨u, hu⟩ := ih hI (by omega)
      exact ⟨u, (again_iff ht).mpr hu⟩

end Halts

theorem iterate_mono {round : σ → RoundResult σ ε} {s : σ} {r : Except ε σ} {i j : Nat}
    (hij : i ≤ j) (h : iterate round i s = some r) : iterate round j s = some r := by
  induction i generalizing j s with
  | zero => cases h
  | succ i ih =>
    obtain ⟨j, rfl⟩ : ∃ l, j = l + 1 := ⟨j - 1, by omega⟩
    rw [iterate] at h ⊢
    cases hround : round s with
    | again t =>
      rw [hround] at h
      exact ih (by omega) h
    | done t =>
      rw [hround] at h
      exact h
    | fault e =>
      rw [hround] at h
      exact h

theorem iterate_isSome {round : σ → RoundResult σ ε} {s : σ} {I : σ → Prop} (m : σ → Nat)
    (hround : ∀ s t, I s → round s = .again t → I t ∧ m t < m s) (hs : I s) {fuel : Nat}
    (hfuel : m s < fuel) : (iterate round fuel s).isSome = true := by
  induction fuel generalizing s with
  | zero => omega
  | succ fuel ih =>
    rw [iterate]
    cases h : round s with
    | again t =>
      obtain ⟨hI, hlt⟩ := hround s t hs h
      exact ih hI (by omega)
    | done t => rfl
    | fault e => rfl

theorem iterate_eq_none {round : σ → RoundResult σ ε} {s : σ} {I : σ → Prop}
    (hround : ∀ s, I s → ∃ t, round s = .again t ∧ I t) (hs : I s) (fuel : Nat) :
    iterate round fuel s = none := by
  induction fuel generalizing s with
  | zero => rfl
  | succ fuel ih =>
    obtain ⟨t, ht, hI⟩ := hround s hs
    rw [iterate, ht]
    exact ih hI

/-! Code behind a loop. -/

section Then

variable {τ : Type*}

def andThen (o : Option (Except ε σ)) (f : σ → Option (Except ε τ)) : Option (Except ε τ) :=
  match o with
  | none => none
  | some (.error e) => some (.error e)
  | some (.ok s) => f s

theorem andThen_eq_ok {o : Option (Except ε σ)} {f : σ → Option (Except ε τ)} {t : τ} :
    andThen o f = some (.ok t) ↔ ∃ s, o = some (.ok s) ∧ f s = some (.ok t) := by
  rcases o with _ | _ | s <;> simp [andThen]

theorem andThen_isSome {o : Option (Except ε σ)} {f : σ → Option (Except ε τ)}
    (ho : o.isSome = true) (hf : ∀ s, o = some (.ok s) → (f s).isSome = true) :
    (andThen o f).isSome = true := by
  rcases o with _ | _ | s
  · cases ho
  · rfl
  · exact hf s rfl

def Steady (f : Nat → Option (Except ε σ)) : Prop :=
  ∀ i j r, i ≤ j → f i = some (.ok r) → f j = some (.ok r)

def Returns (f : Nat → Option (Except ε σ)) (s : σ) : Prop := ∃ fuel, f fuel = some (.ok s)

theorem steady_const (o : Option (Except ε σ)) : Steady fun _ => o := fun _ _ _ _ h => h

theorem steady_iterate (round : σ → RoundResult σ ε) (s : σ) :
    Steady fun fuel => iterate round fuel s :=
  fun _ _ _ hij h => iterate_mono hij h

theorem Steady.andThen {f : Nat → Option (Except ε σ)} {g : Nat → σ → Option (Except ε τ)}
    (hf : Steady f) (hg : ∀ s, Steady fun fuel => g fuel s) :
    Steady fun fuel => NetbsdDpdk.andThen (f fuel) (g fuel) := by
  intro i j t hij h
  obtain ⟨s, hs, ht⟩ := andThen_eq_ok.mp h
  exact andThen_eq_ok.mpr ⟨s, hf i j s hij hs, hg s i j t hij ht⟩

theorem returns_andThen {f : Nat → Option (Except ε σ)} {g : Nat → σ → Option (Except ε τ)} {t : τ}
    (hf : Steady f) (hg : ∀ s, Steady fun fuel => g fuel s) :
    Returns (fun fuel => andThen (f fuel) (g fuel)) t ↔
      ∃ s, Returns f s ∧ Returns (fun fuel => g fuel s) t := by
  constructor
  · rintro ⟨fuel, h⟩
    obtain ⟨s, hs, ht⟩ := andThen_eq_ok.mp h
    exact ⟨s, ⟨fuel, hs⟩, ⟨fuel, ht⟩⟩
  · rintro ⟨s, ⟨i, hi⟩, ⟨j, hj⟩⟩
    refine ⟨max i j, andThen_eq_ok.mpr ⟨s, ?_, ?_⟩⟩
    · exact hf i _ s (le_max_left i j) hi
    · exact hg s j _ t (le_max_right i j) hj

theorem returns_const {o : Option (Except ε σ)} {s : σ} :
    Returns (fun _ => o) s ↔ o = some (.ok s) :=
  ⟨fun ⟨_, h⟩ => h, fun h => ⟨0, h⟩⟩

end Then

end NetbsdDpdk
