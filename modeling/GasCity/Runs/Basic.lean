import Mathlib.Data.List.Basic

/-! # Runs of a labelled transition relation

Finite executions of a step relation, the rules that carry a step property to
a whole run, and the executable form of a run for partial step functions.
-/

namespace GasCity

variable {σ α : Type*}

/-- A finite execution that performs the given labels in order. -/
inductive Run (step : σ → α → σ → Prop) : σ → List α → σ → Prop where
  | nil (s : σ) : Run step s [] s
  | cons {s t u : σ} {a : α} {as : List α} :
      step s a t → Run step t as u → Run step s (a :: as) u

namespace Run

variable {step step' : σ → α → σ → Prop} {s t u : σ} {as bs : List α}

/-- A property that every step preserves holds at the end of a run. -/
theorem invariant (I : σ → Prop) (hstep : ∀ s a t, I s → step s a t → I t)
    (h : Run step s as t) (hs : I s) : I t := by
  induction h with
  | nil => exact hs
  | cons ha _ ih => exact ih (hstep _ _ _ hs ha)

theorem append (h : Run step s as t) (h' : Run step t bs u) : Run step s (as ++ bs) u := by
  induction h with
  | nil => exact h'
  | cons ha _ ih => exact .cons ha (ih h')

theorem mono (hstep : ∀ s a t, step s a t → step' s a t) (h : Run step s as t) :
    Run step' s as t := by
  induction h with
  | nil => exact .nil _
  | cons ha _ ih => exact .cons (hstep _ _ _ ha) ih

/-- What the steps satisfy in the states of an invariant holds along a run. -/
theorem mono_of_invariant (I : σ → Prop) (hinv : ∀ s a t, I s → step s a t → I t)
    (hstep : ∀ s a t, I s → step s a t → step' s a t) (h : Run step s as t) (hs : I s) :
    Run step' s as t := by
  induction h with
  | nil => exact .nil _
  | cons ha _ ih => exact .cons (hstep _ _ _ hs ha) (ih (hinv _ _ _ hs ha))

theorem restrict {P : α → Prop} (h : Run step s as t) (hP : ∀ a ∈ as, P a) :
    Run (fun s a t => step s a t ∧ P a) s as t := by
  induction h with
  | nil => exact .nil _
  | cons ha _ ih =>
    rw [List.forall_mem_cons] at hP
    exact .cons ⟨ha, hP.1⟩ (ih hP.2)

/-- A run either visits a state with a property or leaves only states without it. -/
theorem visits_or_avoids (P : σ → Prop) (h : Run step s as t) :
    (∃ bs cs u, as = bs ++ cs ∧ Run step s bs u ∧ Run step u cs t ∧ P u) ∨
      Run (fun s a t => step s a t ∧ ¬ P s) s as t := by
  induction h with
  | nil s => exact .inr (.nil s)
  | @cons s u v a as ha hrun ih =>
    by_cases hs : P s
    · exact .inl ⟨[], a :: as, s, rfl, .nil s, .cons ha hrun, hs⟩
    · rcases ih with ⟨bs, cs, x, rfl, hbs, hcs, hx⟩ | ih
      · exact .inl ⟨a :: bs, cs, x, rfl, .cons ha hbs, hcs, hx⟩
      · exact .inr (.cons ⟨ha, hs⟩ ih)

end Run

/-- Execute labels with a partial step function, failing at the first disabled label. -/
def exec (step : σ → α → Option σ) : σ → List α → Option σ
  | s, [] => some s
  | s, a :: as => (step s a).bind fun t => exec step t as

/-- The relation of a partial step function. -/
def StepOf (step : σ → α → Option σ) (s : σ) (a : α) (t : σ) : Prop :=
  step s a = some t

/-- What is said of a run beside the run, such as one that was just executed. -/
theorem and_of_imp {p q : Prop} (h : p) (hq : p → q) : p ∧ q :=
  ⟨h, hq h⟩

/-- Execute labels with a partial step function under a condition on every step. -/
theorem run_of_exec_guarded {step : σ → α → Option σ} {P : σ → α → Prop}
    [∀ s a, Decidable (P s a)] {s t : σ} {as : List α}
    (h : exec (fun s a => if P s a then step s a else none) s as = some t) :
    Run (fun s a t => StepOf step s a t ∧ P s a) s as t := by
  induction as generalizing s with
  | nil =>
    obtain rfl : s = t := by simpa [exec] using h
    exact .nil s
  | cons a as ih =>
    obtain ⟨u, ha, hu⟩ := Option.bind_eq_some_iff.mp h
    obtain ⟨hP, ha⟩ := Option.ite_none_right_eq_some.mp ha
    exact .cons ⟨ha, hP⟩ (ih hu)

theorem run_of_exec {step : σ → α → Option σ} {s t : σ} {as : List α}
    (h : exec step s as = some t) : Run (StepOf step) s as t := by
  induction as generalizing s with
  | nil =>
    obtain rfl : s = t := by simpa [exec] using h
    exact .nil s
  | cons a as ih =>
    obtain ⟨u, ha, hu⟩ := Option.bind_eq_some_iff.mp h
    exact .cons ha (ih hu)

end GasCity
