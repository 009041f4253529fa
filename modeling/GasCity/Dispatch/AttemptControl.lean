import GasCity.Dispatch.AttemptRecipe
import GasCity.Dispatch.ScopeSteps
import Mathlib.Data.List.MinMax

/-! # Retry and check controls

`processAttemptControl` finds the latest attempt of a control by the lineage stamp
`gc.control_for`, classifies it and closes the control or spawns the next attempt.
-/

namespace GasCity.Dispatch

open Formula

def attemptNum (b : Bead) : ℤ :=
  (atoi (b.val .attempt)).getD 0

def controlIdentitySet (control : Bead) : List String :=
  ([control.id, control.val .stepRef, control.val .stepID].map trimSpace).filter (· ≠ "")

def isControlInfrastructure (kind : String) : Bool :=
  isControlKind kind || kind == Kind.workflow

def isFailedPartialMolecule (b : Bead) : Bool :=
  trimSpace (b.val .moleculeFailed) == "true"

def isAttemptOf (control b : Bead) : Bool :=
  !isFailedPartialMolecule b && !isControlInfrastructure b.kind &&
    (controlIdentitySet control).contains (trimSpace (b.val .controlFor))

def attemptCandidates (control : Bead) (beads : List Bead) : List Bead :=
  beads.filter fun b => isAttemptOf control b && decide (0 < attemptNum b)

/-- The first of the beads with the greatest number. -/
abbrev latestOf (beads : List Bead) : Option Bead :=
  @List.argmax _ _ instLatticeInt.toPreorder _ attemptNum beads

def latestAttempt (control : Bead) (beads : List Bead) : Option Bead :=
  latestOf (attemptCandidates control beads)

inductive AttemptDisposition where
  | pass | hardFail | more
  deriving DecidableEq

structure AttemptEvaluation where
  disposition : AttemptDisposition
  reason : String := ""
  deriving DecidableEq

structure AttemptStrategy where
  evaluate : Bead → Option AttemptEvaluation
  onPass : Bead → List (String × String)
  exhaust : Bead → String → Result

def orUnspecified (reason : String) : String :=
  if reason = "" then "unspecified" else reason

def retryFailureReason (subject : Bead) : String :=
  orUnspecified (trimSpace (subject.val .failureReason))

/-- Classify a closed attempt; nothing for a canceled one, which the control does not support. -/
def classifyRetryAttempt (jsonValid : String → Bool) (subject : Bead) :
    Option AttemptEvaluation :=
  let outcome := trimSpace (subject.val .outcome)
  let output := trimSpace (subject.val .outputJSON)
  let failureClass := trimSpace (subject.val .failureClass)
  if outcome = Outcome.pass then
    if failureClass ≠ "" ∨ trimSpace (subject.val .failureReason) ≠ "" then
      some { disposition := .more, reason := "pass_with_failure_metadata" }
    else if trimSpace (subject.val .outputJSONRequired) = "true" ∧ output = "" then
      some { disposition := .more, reason := "missing_required_output_json" }
    else if trimSpace (subject.val .outputJSONRequired) = "true" ∧ jsonValid output = false then
      some { disposition := .more, reason := "invalid_required_output_json" }
    else some { disposition := .pass }
  else if outcome = Outcome.fail then
    if failureClass = "transient" then
      some { disposition := .more, reason := retryFailureReason subject }
    else if failureClass = "hard" ∨ failureClass = "" then
      some { disposition := .hardFail, reason := retryFailureReason subject }
    else some { disposition := .more, reason := "unknown_failure_class" }
  else if outcome = Outcome.canceled then none
  else if outcome = "" then some { disposition := .more, reason := "missing_outcome" }
  else some { disposition := .more, reason := "invalid_outcome_value" }

/-- A passed attempt still has to leave its required artifacts; `artifacts` says what is wrong
with them. -/
def classifyRetryAttemptWithPostconditions (jsonValid : String → Bool) (artifacts : String)
    (subject : Bead) : Option AttemptEvaluation :=
  (classifyRetryAttempt jsonValid subject).map fun eval =>
    if eval.disposition = .pass ∧ artifacts ≠ "" then { disposition := .more, reason := artifacts }
    else eval

def nonGCKey : MetaKey → String
  | .other key => key
  | _ => ""

/-- The entries outside the `gc.` namespace, by the order of their keys. -/
def nonGCEntries (m : Metadata) : List (String × String) :=
  (sortStrings ((m.keys.image nonGCKey).erase "")).map fun key => (key, m.val (.other key))

def handleRetryExhaustion (onExhausted reason : String) : Result where
  outcome := if onExhausted = "soft_fail" then Outcome.pass else Outcome.fail
  failureClass := "transient"
  failureReason := reason

def retryStrategy (jsonValid : String → Bool) (artifacts : String) (control : Bead) :
    AttemptStrategy where
  evaluate := classifyRetryAttemptWithPostconditions jsonValid artifacts
  onPass attempt := nonGCEntries attempt.metadata
  exhaust _ := handleRetryExhaustion (control.val .onExhausted)

/-- A check passes its iteration or asks for another one; `passed` is the verdict of the script.
The control takes over what the iteration wrote. -/
def ralphStrategy (passed : Bool) : AttemptStrategy where
  evaluate _ := some { disposition := if passed then .pass else .more }
  onPass attempt := nonGCEntries attempt.metadata
  exhaust attempt _ := { outcome := Outcome.fail, other := nonGCEntries attempt.metadata }

def closeSpec (b : Bead) : Bead :=
  if b.kind = Kind.spec then closeOutcome Outcome.pass b else b

/-- The beads of the next attempt, with the edge that makes the control wait for its root. -/
def spawnNextAttempt (ids : String ↪ String) (step : Step) (children : Forest Step)
    (control : Bead) (attempt : ℕ) : Store :=
  let attached := instantiate ids (buildAttemptRecipe step children control attempt)
  { beads := attached.beads.map closeSpec
    blocks := attached.blocks ++ [(control.id, ids (attemptPrefix step control attempt))] }

def attemptVerdict (strategy : AttemptStrategy) (ids : String ↪ String) (step : Step)
    (children : Forest Step) (control attempt : Bead) (maxAttempts : ℤ)
    (eval : AttemptEvaluation) : Verdict :=
  match eval.disposition with
  | .pass =>
    .settle { outcome := Outcome.pass, outputJSON := attempt.val .outputJSON,
              other := strategy.onPass attempt }
  | .hardFail =>
    .settle { outcome := Outcome.fail, failureClass := "hard", failureReason := eval.reason }
  | .more =>
    if maxAttempts ≤ attemptNum attempt then .settle (strategy.exhaust attempt eval.reason)
    else .spawn (spawnNextAttempt ids step children control (attemptNum attempt + 1).toNat)

/-- Nothing is decided while the latest attempt is not closed.  `step` and `children` are the stored
spec, and `ids` the ids of new beads. -/
def processAttemptControl (strategy : AttemptStrategy) (ids : String ↪ String) (step : Step)
    (children : Forest Step) (s : Store) (control : Bead) : Option Verdict := do
  let maxAttempts ← atoi (control.val .maxAttempts)
  let attempt ← latestAttempt control s.beads
  if maxAttempts < 1 ∨ attempt.status ≠ .closed then none
  else
    let eval ← strategy.evaluate attempt
    some (attemptVerdict strategy ids step children control attempt maxAttempts eval)

end GasCity.Dispatch
