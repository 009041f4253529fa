import GasCity.Dispatch.Store
import GasCity.Formula.Recipe

/-! # Attempt recipes

`buildAttemptRecipe` rebuilds one attempt of a retry or check control from the
stored spec of its step.  The children of a checked step become the members of the
new iteration's scope, and a nested check control is seeded with its own first
iteration.
-/

namespace GasCity.Dispatch

open Formula

export Formula (Step)

def controlStepID (control : Bead) : String :=
  if control.val .stepID = "" then control.id else control.val .stepID

def controlStepRef (control : Bead) : String :=
  if control.val .stepRef = "" then controlStepID control else control.val .stepRef

def attemptPrefix (step : Step) (control : Bead) (attempt : Nat) : String :=
  controlStepRef control ++ (if step.ralph.isSome then ".iteration." else ".attempt.") ++
    toString attempt

/-- An iteration with children is wrapped in a scope; otherwise the root is the work itself. -/
def isScopedAttempt (step : Step) (children : Forest Step) : Bool :=
  step.ralph.isSome && children != .nil

def attemptRootStep (step : Step) (isScope : Bool) (control : Bead)
    (attempt : Nat) : RecipeStep where
  id := attemptPrefix step control attempt
  title := step.title
  metadata :=
    withMetadata (withOutputRequired step (withMetadata step.metadata
      [(.kind, if isScope then Kind.scope else Kind.task), (.attempt, toString attempt),
        (.stepID, controlStepID control), (.stepRef, attemptPrefix step control attempt),
        (.controlFor, control.id)]))
      (if isScope then [(.scopeRole, ScopeRole.body), (.scopeName, controlStepID control),
        (.ralphStepID, controlStepID control)] else [])

/-- What every member of the iteration is stamped with, over its own metadata. -/
def memberStamps (pfx stepID : String) (attempt : Nat) (child : Step) : List (MetaKey × String) :=
  [(.attempt, toString attempt), (.stepRef, pfx ++ "." ++ child.id), (.stepID, child.id),
    (.scopeRef, pfx), (.ralphStepID, stepID), (.scopeRole, ScopeRole.member),
    (.onFail, "abort_scope")]

def retryStamps (spec : RetrySpec) : List (MetaKey × String) :=
  [(.kind, Kind.retry), (.maxAttempts, toString spec.maxAttempts), (.controlEpoch, "1"),
    (.onExhausted, if spec.onExhausted = "" then "hard_fail" else spec.onExhausted)]

def ralphStamps (child : Step) (spec : RalphSpec) : List (MetaKey × String) :=
  [(.kind, Kind.ralph), (.maxAttempts, toString spec.maxAttempts), (.controlEpoch, "1"),
    (.checkMode, spec.check.mode), (.checkPath, spec.check.path),
    (.checkTimeout, spec.check.timeout)] ++
      if child.timeout = "" then [] else [(.stepTimeout, child.timeout)]

def controlStamps (child : Step) : List (MetaKey × String) :=
  (child.retry.map retryStamps).getD [] ++ (child.ralph.map (ralphStamps child)).getD []

def memberStep (pfx stepID : String) (attempt : Nat) (child : Step) : RecipeStep where
  id := pfx ++ "." ++ child.id
  title := child.title
  metadata := drainMetadata child (withMetadata (withOutputRequired child
    (withMetadata child.metadata (memberStamps pfx stepID attempt child))) (controlStamps child))

def newSpecRecipeStep (childID : String) (child : Step) : RecipeStep where
  id := childID ++ ".spec"
  title := "Step spec for " ++ child.title
  metadata := .ofList [(.kind, Kind.spec), (.specFor, child.id), (.specForRef, childID)]

/-- A nested control stores its spec beside it, once for each control it is. -/
def memberSpecs (pfx : String) (child : Step) : List RecipeStep :=
  (child.retry.map fun _ => newSpecRecipeStep (pfx ++ "." ++ child.id) child).toList ++
    (child.ralph.map fun _ => newSpecRecipeStep (pfx ++ "." ++ child.id) child).toList

def attemptFanout (source : RecipeStep) (oc : OnCompleteSpec) : RecipeStep :=
  let sourceRef := if source.metadata.val .stepRef = "" then source.id
    else source.metadata.val .stepRef
  let meta_ := Table.copyNonempty [.scopeRef, .onFail, .stepID, .ralphStepID, .attempt]
    source.metadata (Table.ofList [(.kind, Kind.fanout), (.controlFor, sourceRef),
      (.forEach, oc.forEach), (.bond, oc.bond),
      (.fanoutMode, if oc.sequential then "sequential" else "parallel")])
  { id := source.id ++ "-fanout"
    title := "Expand fanout for " ++ source.title
    metadata := if meta_.val .scopeRef = "" then meta_
      else meta_.set .scopeRole ScopeRole.control }

def attemptRecipeStepNeedsScopeCheck (step : RecipeStep) : Bool :=
  step.metadata.val .scopeRef != "" && step.metadata.val .scopeRole != ScopeRole.teardown &&
    !isScopeCheckExemptKind (step.metadata.val .kind)

def attemptScopeCheck (step : RecipeStep) : RecipeStep where
  id := step.id ++ "-scope-check"
  title := "Finalize scope for " ++ step.title
  metadata := Table.copyNonempty [.stepID, .ralphStepID, .attempt, .onFail] step.metadata
    (Table.ofList [(.kind, Kind.scopeCheck), (.scopeRef, step.metadata.val .scopeRef),
      (.scopeRole, ScopeRole.control), (.controlFor, step.id)])

def scopeChecked (steps : List RecipeStep) : List RecipeStep :=
  steps.filter fun step => attemptRecipeStepNeedsScopeCheck step &&
    !(steps.map RecipeStep.id).contains (step.id ++ "-scope-check")

/-- Wait for the control of a step, unless the control closes the one that waits. -/
def rewriteDepToControl (steps : List RecipeStep) (dep : String × String) : String × String :=
  match (scopeChecked steps).reverse.find? fun step => step.id = dep.2 with
  | none => dep
  | some step =>
    let node := (steps.reverse.find? fun node => node.id = dep.1).map RecipeStep.metadata
    if controlClosesNode (attemptScopeCheck step).metadata dep.1 (node.getD ∅) then dep
    else (dep.1, (attemptScopeCheck step).id)

def applyAttemptRecipeScopeChecks (recipe : Recipe) : Recipe where
  steps := recipe.steps ++ (scopeChecked recipe.steps).map attemptScopeCheck
  deps := recipe.deps.map (rewriteDepToControl recipe.steps) ++
    (scopeChecked recipe.steps).map fun step => ((attemptScopeCheck step).id, step.id)

/-- What the children of a step contribute to its attempt. -/
structure AttemptParts where
  members : Recipe := {}
  fanouts : Recipe := {}
  seeds : Recipe := {}

def appendRecipe (a b : Recipe) : Recipe where
  steps := a.steps ++ b.steps
  deps := a.deps ++ b.deps

def syntheticControl (childID : String) (child : Step) : Bead where
  id := childID
  metadata := .ofList [(.stepID, child.id), (.stepRef, childID)]

def assembleAttempt (step : Step) (children : Forest Step) (control : Bead) (attempt : Nat)
    (parts : AttemptParts) : Recipe :=
  let pfx := attemptPrefix step control attempt
  let waits := children.roots.map fun child => (pfx, pfx ++ "." ++ child.id)
  let base := appendRecipe
    { steps := [attemptRootStep step (isScopedAttempt step children) control attempt]
      deps := waits }
    parts.members
  appendRecipe (appendRecipe (applyAttemptRecipeScopeChecks base) parts.fanouts) parts.seeds

/-- The parts of one child; `seed` is the recipe of its first iteration when it is a check. -/
def memberParts (pfx stepID : String) (attempt : Nat) (child : Step) (seed : Recipe) :
    AttemptParts :=
  let member := memberStep pfx stepID attempt child
  { members :=
      { steps := memberSpecs pfx child ++ [member]
        deps := child.needs.map fun need => (member.id, pfx ++ "." ++ need) }
    fanouts :=
      { steps := (child.onComplete.map (attemptFanout member)).toList
        deps := (child.onComplete.map fun oc => ((attemptFanout member oc).id, member.id)).toList }
    seeds :=
      match child.ralph with
      | none => {}
      | some _ =>
        { steps := seed.steps
          deps := seed.deps ++ (seed.steps.head?.map fun root => (member.id, root.id)).toList } }

def appendParts (a b : AttemptParts) : AttemptParts where
  members := appendRecipe a.members b.members
  fanouts := appendRecipe a.fanouts b.fanouts
  seeds := appendRecipe a.seeds b.seeds

/-- The parts of all children.  Only a checked child looks at its own children. -/
def attemptParts (pfx stepID : String) (attempt : Nat) : Forest Step → AttemptParts
  | .nil => {}
  | .cons child children rest =>
    let control := syntheticControl (pfx ++ "." ++ child.id) child
    let seed := assembleAttempt child children control 1
      (attemptParts (attemptPrefix child control 1) (controlStepID control) 1 children)
    appendParts (memberParts pfx stepID attempt child seed)
      (attemptParts pfx stepID attempt rest)

/-- Rebuild an attempt from the stored step and its stored children. -/
def buildAttemptRecipe (step : Step) (children : Forest Step) (control : Bead) (attempt : Nat) :
    Recipe :=
  assembleAttempt step children control attempt
    (attemptParts (attemptPrefix step control attempt) (controlStepID control) attempt children)

end GasCity.Dispatch
