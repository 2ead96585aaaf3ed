import Mathlib.Data.List.Induction

/-! Runs of partial transition functions, and the rule that carries an invariant along the
runs all of whose steps meet a side condition. -/

namespace NetbsdDpdk

open List

variable {σ : Type*} {α : Type*}

/-- `Run step ok s as t`: the actions `as` lead from `s` to `t`, and every one of them is
enabled and meets `ok` in the state it is taken from. -/
inductive Run (step : σ → α → Option σ) (ok : σ → α → Prop) (s : σ) : List α → σ → Prop
  | nil : Run step ok s [] s
  | snoc {t u : σ} {as : List α} {a : α} (hrun : Run step ok s as t) (hok : ok t a)
      (hstep : step t a = some u) : Run step ok s (as ++ [a]) u

namespace Run

variable {step : σ → α → Option σ} {ok : σ → α → Prop} {s t : σ} {as : List α}

theorem invariant {I : σ → Prop} (hrun : Run step ok s as t)
    (hkeep : ∀ s a t, I s → ok s a → step s a = some t → I t) (hs : I s) : I t := by
  induction hrun with
  | nil => exact hs
  | snoc hrun hok hstep ih => exact hkeep _ _ _ ih hok hstep

theorem trans {u : σ} {bs : List α} (hrun : Run step ok s as t) (hrun' : Run step ok t bs u) :
    Run step ok s (as ++ bs) u := by
  induction hrun' with
  | nil => simpa using hrun
  | snoc _ hok hstep ih =>
    rw [← append_assoc]
    exact ih.snoc hok hstep

theorem single {a : α} (hok : ok s a) (hstep : step s a = some t) : Run step ok s [a] t :=
  nil.snoc hok hstep

end Run

/-- An action with `p` has happened, and none with `q` since. -/
def Since (p q : α → Prop) (as : List α) : Prop :=
  ∃ pre a post, as = pre ++ a :: post ∧ p a ∧ ∀ b ∈ post, ¬ q b

theorem since_nil {p q : α → Prop} : ¬ Since p q [] := by
  rintro ⟨pre, a, post, heq, -⟩
  simp at heq

theorem since_snoc {p q : α → Prop} {as : List α} {a : α} :
    Since p q (as ++ [a]) ↔ p a ∨ ¬ q a ∧ Since p q as := by
  constructor
  · rintro ⟨pre, b, post, heq, hb, hpost⟩
    cases post using List.reverseRecOn with
    | nil =>
      obtain ⟨-, rfl⟩ := append_singleton_inj.mp heq
      exact .inl hb
    | append_singleton post c =>
      rw [← cons_append, ← append_assoc] at heq
      obtain ⟨rfl, rfl⟩ := append_singleton_inj.mp heq
      exact .inr ⟨hpost a (by simp), pre, b, post, rfl, hb, fun d hd => hpost d (by simp [hd])⟩
  · rintro (ha | ⟨ha, pre, b, post, rfl, hb, hpost⟩)
    · exact ⟨as, a, [], rfl, ha, by simp⟩
    · refine ⟨pre, b, post ++ [a], by simp, hb, fun d hd => ?_⟩
      rcases mem_append.mp hd with hd | hd
      · exact hpost d hd
      · rwa [mem_singleton.mp hd]

/-! Inversion of the partial functions that steps are written with. -/

theorem guard_bind_eq_some {τ : Type} {p : Prop} [Decidable p] {o : Option τ} {t : τ} :
    (do guard p; o : Option τ) = some t ↔ p ∧ o = some t := by
  by_cases h : p <;> simp [guard, h]

theorem guarded_eq_some {τ : Type} {p : Prop} [Decidable p] {x t : τ} :
    (do guard p; return x : Option τ) = some t ↔ p ∧ x = t := by
  by_cases h : p <;> simp [guard, h]

theorem looked_eq_some {τ β : Type} {o : Option β} {f : β → τ} {t : τ} :
    (do let b ← o; return f b : Option τ) = some t ↔ ∃ b, o = some b ∧ f b = t := by
  simp [Option.bind_eq_some_iff]

/-- The run of a list of actions as a function: `none` as soon as an action is not enabled or does
not meet `ok`. -/
def runActions (step : σ → α → Option σ) (ok : σ → α → Prop) [∀ s a, Decidable (ok s a)]
    (s : σ) : List α → Option σ
  | [] => some s
  | a :: as => if ok s a then (step s a).bind fun t => runActions step ok t as else none

section RunActions

variable {step : σ → α → Option σ} {ok : σ → α → Prop} [∀ s a, Decidable (ok s a)]

theorem runActions_append (s : σ) (as bs : List α) :
    runActions step ok s (as ++ bs) =
      (runActions step ok s as).bind fun t => runActions step ok t bs := by
  induction as generalizing s with
  | nil => rfl
  | cons a as ih =>
    by_cases hok : ok s a
    · cases h : step s a with
      | none => simp [runActions, hok, h]
      | some t => simp [runActions, hok, h, ih]
    · simp [runActions, hok]

theorem Run.of_runActions {s t : σ} {as : List α} (h : runActions step ok s as = some t) :
    Run step ok s as t := by
  induction as using List.reverseRecOn generalizing t with
  | nil =>
    cases h
    exact Run.nil
  | append_singleton as a ih =>
    rw [runActions_append] at h
    obtain ⟨u, hu, ha⟩ := Option.bind_eq_some_iff.mp h
    by_cases hok : ok u a
    · have hstep : step u a = some t := by
        simpa [runActions, hok, Option.bind_eq_some_iff] using ha
      exact (ih hu).snoc hok hstep
    · simp [runActions, hok] at ha

theorem Run.exists_of_runActions {s : σ} {as : List α} {P : σ → Prop} [DecidablePred P]
    (h : (runActions step ok s as).any (P ·) = true) : ∃ t, Run step ok s as t ∧ P t := by
  cases hrun : runActions step ok s as with
  | none => simp [hrun] at h
  | some t => exact ⟨t, Run.of_runActions hrun, by simpa [hrun] using h⟩

theorem Run.exists_and_of_runActions {s : σ} {as : List α} {P Q : σ → Prop} [DecidablePred P]
    (h : (runActions step ok s as).any (P ·) = true) (hQ : ∀ t, Run step ok s as t → P t → Q t) :
    ∃ t, Run step ok s as t ∧ P t ∧ Q t := by
  obtain ⟨t, hrun, ht⟩ := Run.exists_of_runActions h
  exact ⟨t, hrun, ht, hQ t hrun ht⟩

end RunActions

end NetbsdDpdk
