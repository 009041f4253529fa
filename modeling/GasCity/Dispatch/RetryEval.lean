import GasCity.Dispatch.AttemptControl

/-! # Retry evaluations

A workflow of the first version has an evaluation bead for every run of a retried step.
`processRetryEval` classifies the run as a retry control classifies its attempt, and settles the
logical bead of the step or appends the next attempt.
-/

namespace GasCity.Dispatch

open Formula

/-- Nothing where a later attempt has closed the logical bead, the result of the logical bead, or
another attempt. -/
inductive EvalVerdict where
  | noop
  | settle (result : Result)
  | append (attempt : ℕ)
  deriving DecidableEq

/-- Process the evaluation of a run; `closedBy` is the attempt that closed the logical bead. -/
def processRetryEval (jsonValid : String → Bool) (artifacts : String) (closedBy : ℤ)
    (eval subject : Bead) : Option EvalVerdict := do
  let attempt ← atoi (eval.val .attempt)
  let maxAttempts ← atoi (eval.val .maxAttempts)
  let onExhausted := if eval.val .onExhausted = "" then "hard_fail" else eval.val .onExhausted
  if attempt < 1 ∨ maxAttempts < 1 then none
  else if attempt ≤ closedBy then some .noop
  else if subject.status ≠ .closed then none
  else
    match classifyRetryAttemptWithPostconditions jsonValid artifacts subject with
    | none => some (.settle { outcome := Outcome.canceled })
    | some { disposition := .pass, .. } =>
      some (.settle { outcome := Outcome.pass, outputJSON := subject.val .outputJSON,
                      other := nonGCEntries subject.metadata })
    | some { disposition := .hardFail, reason } =>
      some (.settle { outcome := Outcome.fail, failureClass := "hard", failureReason := reason })
    | some { disposition := .more, reason } =>
      if attempt < maxAttempts then some (.append (attempt + 1).toNat)
      else some (.settle
        { outcome := if onExhausted = "soft_fail" then Outcome.pass else Outcome.fail
          failureClass := "transient", failureReason := reason })

theorem classifyRetryAttempt_eq_none (jsonValid : String → Bool) (artifacts : String)
    (subject : Bead) :
    classifyRetryAttemptWithPostconditions jsonValid artifacts subject = none ↔
      trimSpace (subject.val .outcome) = Outcome.canceled := by
  have hpass : Outcome.canceled ≠ Outcome.pass := by decide
  have hfail : Outcome.canceled ≠ Outcome.fail := by decide
  rw [classifyRetryAttemptWithPostconditions, Option.map_eq_none_iff, classifyRetryAttempt]
  constructor
  · intro h
    split_ifs at h with _ _ _ _ _ _ _ hcanceled
    exact hcanceled
  · intro h
    simp [h, hpass, hfail]

/-- The evaluation and the control of an attempt agree on its number, the budget and what an
exhausted budget means. -/
structure SameAttempt (control eval attempt : Bead) (n m : ℤ) : Prop where
  number : attemptNum attempt = n
  evalNumber : atoi (eval.val .attempt) = some n
  budget : atoi (control.val .maxAttempts) = some m
  evalBudget : atoi (eval.val .maxAttempts) = some m
  onExhausted : eval.val .onExhausted = control.val .onExhausted
  positive : 1 ≤ n ∧ 1 ≤ m

/-- Both settle with one result, or both ask for the attempt of one number. -/
def EvalVerdict.Agrees (spawn : ℕ → Store) : EvalVerdict → Verdict → Prop
  | .settle result, .settle result' => result = result'
  | .append attempt, .spawn attached => attached = spawn attempt
  | _, _ => False

variable {jsonValid : String → Bool} {artifacts : String} {closedBy n m : ℤ}
  {ids : String ↪ String} {step : Step} {children : Forest Step} {s : Store}
  {control eval attempt : Bead}

/-- The two generations of evaluators decide alike exactly on attempts that are not canceled; the
control has no answer to a canceled one. -/
theorem retry_evaluators_agree_iff (h : SameAttempt control eval attempt n m)
    (hlatest : latestAttempt control s.beads = some attempt) (hclosed : attempt.status = .closed)
    (hopen : closedBy < n) :
    (∃ v w, processRetryEval jsonValid artifacts closedBy eval attempt = some v ∧
      processAttemptControl (retryStrategy jsonValid artifacts control) ids step children s
        control = some w ∧ v.Agrees (spawnNextAttempt ids step children control) w) ↔
      trimSpace (attempt.val .outcome) ≠ Outcome.canceled := by
  have hn : ¬ (n < 1 ∨ m < 1) := by
    have := h.positive
    omega
  have hm : ¬ (m < 1 ∨ attempt.status ≠ .closed) := not_or.mpr ⟨fun hlt => hn (.inr hlt), by simpa⟩
  rw [Ne, ← classifyRetryAttempt_eq_none jsonValid artifacts]
  simp only [processRetryEval, processAttemptControl, h.evalNumber, h.evalBudget, h.budget, hlatest,
    Option.bind_eq_bind, Option.bind_some, if_neg hn, if_neg hm, if_neg (not_le.mpr hopen),
    if_neg (not_not.mpr hclosed), retryStrategy]
  rcases hresult : classifyRetryAttemptWithPostconditions jsonValid artifacts attempt
    with _ | ⟨disposition, reason⟩
  · simp
  · have hsoft : ((if eval.val .onExhausted = "" then "hard_fail" else eval.val .onExhausted) =
        "soft_fail") ↔ control.val .onExhausted = "soft_fail" := by
      rw [h.onExhausted]
      split_ifs with hnone
      · rw [hnone]
        decide
      · rfl
    simp only [Option.bind_some, attemptVerdict, h.number]
    cases disposition with
    | pass => simp [EvalVerdict.Agrees]
    | hardFail => simp [EvalVerdict.Agrees]
    | more =>
      rcases lt_or_ge n m with hlt | hge
      · simp [EvalVerdict.Agrees, hlt, not_le.mpr hlt]
      · simp [EvalVerdict.Agrees, hge, not_lt.mpr hge, handleRetryExhaustion, hsoft]

/-- The control of a step with two attempts, its first attempt with an outcome, and the evaluation
of that attempt. -/
def twoAttempts : Bead where
  id := "work"
  metadata := .ofList [(.maxAttempts, "2")]

def firstAttempt (outcome : String) : Bead where
  id := "work.attempt.1"
  status := .closed
  metadata := .ofList [(.controlFor, "work"), (.attempt, "1"), (.outcome, outcome)]

def firstEval : Bead where
  id := "work.eval.1"
  metadata := .ofList [(.attempt, "1"), (.maxAttempts, "2")]

theorem retry_evaluators_agree_failed :
    ∃ v w, processRetryEval (fun _ => true) "" 0 firstEval (firstAttempt "fail") = some v ∧
      processAttemptControl (retryStrategy (fun _ => true) "" twoAttempts) (.refl String)
        { id := "work" } .nil { beads := [firstAttempt "fail"] } twoAttempts = some w ∧
      v.Agrees (spawnNextAttempt (.refl String) { id := "work" } .nil twoAttempts) w :=
  (retry_evaluators_agree_iff (n := 1) (m := 2)
    ⟨by decide, by decide, by decide, by decide, by decide, by decide⟩ (by decide) rfl
    (by decide)).mpr (by decide)

/-- A canceled attempt: the evaluation closes the logical bead as canceled, and the control stays
open with an error. -/
theorem canceled_attempt_unsupported :
    processRetryEval (fun _ => true) "" 0 firstEval (firstAttempt "canceled") =
        some (.settle { outcome := "canceled" }) ∧
      processAttemptControl (retryStrategy (fun _ => true) "" twoAttempts) (.refl String)
        { id := "work" } .nil { beads := [firstAttempt "canceled"] } twoAttempts = none := by
  constructor
  · decide
  · decide

end GasCity.Dispatch
