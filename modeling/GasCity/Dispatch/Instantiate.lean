import GasCity.Dispatch.Store
import GasCity.Formula.Recipe

/-! # Instantiation

`internal/molecule` turns a recipe into beads.  A bead carries the recipe's step id as its step
reference unless the compiler stamped one, and an attempt the id of the bead it is an attempt of.
A store that applies whole graphs resolves that reference among all steps, and one that creates bead
after bead among those already created.
-/

namespace GasCity.Dispatch

open Formula

def trimAttemptSuffix (id suffix : String) : Option String :=
  if suffix ≠ "" ∧ hasSuffix id suffix then
    some (.ofList (id.toList.take (id.toList.length - suffix.toList.length)))
  else none

/-- The part of an id before the last occurrence of `sep`, when that part is not empty. -/
def beforeLast (id sep : String) : Option String :=
  let n := id.toList.length
  ((List.range n).reverse.find? fun i =>
    decide (0 < i) && decide (sep.toList <+: id.toList.drop i)).map
      fun i => .ofList (id.toList.take i)

def attemptSuffixes (kind : String) : List String :=
  (if kind = Kind.run ∨ kind = Kind.scope ∨ kind = Kind.retryRun then [".run."]
    else if kind = Kind.check then [".check."]
    else if kind = Kind.retryEval then [".eval."] else []) ++ [".attempt.", ".iteration."]

def logicalRecipeStepID (step : RecipeStep) : Option String :=
  let kind := step.metadata.val .kind
  let attempt := step.metadata.val .attempt
  let ralphStepID := step.metadata.val .ralphStepID
  let named := if attempt = "" then none
    else (attemptSuffixes kind).findSome? fun sep => trimAttemptSuffix step.id (sep ++ attempt)
  named.or <|
    if ralphStepID ≠ "" ∧ (kind = Kind.run ∨ kind = Kind.check ∨ kind = Kind.scope) then
      some ralphStepID
    else if [Kind.run, Kind.check, Kind.scope, Kind.retryRun, Kind.retryEval].contains kind then
      [".run.", ".check.", ".eval."].findSome? (beforeLast step.id)
    else none

def withStepRef (step : RecipeStep) : Metadata :=
  if step.metadata.val .stepRef = "" then step.metadata.set .stepRef step.id else step.metadata

variable (ids : String ↪ String)

/-- The bead of a recipe step; `logical` finds the bead of the step it is an attempt of. -/
def stepToBead (logical : String → Option String) (step : RecipeStep) : Bead where
  id := ids step.id
  metadata :=
    match (logicalRecipeStepID step).bind logical with
    | none => withStepRef step
    | some beadID => (withStepRef step).set .logicalBeadID beadID

inductive Creation
  | graphApply
  | sequential
  deriving DecidableEq

/-- The steps whose beads are known when the bead of `step` is made. -/
def Creation.known (creation : Creation) (steps : List RecipeStep) (step : RecipeStep) :
    List String :=
  match creation with
  | .graphApply => steps.map RecipeStep.id
  | .sequential => (steps.takeWhile fun other => other.id != step.id).map RecipeStep.id

def makeBead (creation : Creation) (steps : List RecipeStep) (step : RecipeStep) : Bead :=
  stepToBead ids (fun id => if id ∈ creation.known steps step then some (ids id) else none) step

/-- The beads of a recipe; `ids` are the ids that the store gives them. -/
def instantiateBy (creation : Creation) (recipe : Recipe) : Store where
  beads := recipe.steps.map (makeBead ids creation recipe.steps)
  blocks := recipe.deps.map fun dep => (ids dep.1, ids dep.2)

abbrev instantiate (recipe : Recipe) : Store := instantiateBy ids .graphApply recipe

variable {ids} {logical : String → Option String} {step : RecipeStep}

theorem stepToBead_id : (stepToBead ids logical step).id = ids step.id := rfl

def stampedKeys : List MetaKey := [.stepRef, .logicalBeadID]

theorem stepToBead_val {k : MetaKey} (hk : k ∉ stampedKeys) :
    (stepToBead ids logical step).val k = step.metadata.val k := by
  simp only [stampedKeys, List.mem_cons, List.not_mem_nil, or_false, not_or] at hk
  have hval : (withStepRef step).val k = step.metadata.val k := by
    unfold withStepRef
    split
    · exact Table.val_set_of_ne hk.1
    · rfl
  rw [Bead.val, stepToBead]
  split
  · exact hval
  · rw [Table.val_set_of_ne hk.2, hval]

theorem stepToBead_stepRef (h : step.metadata.val .stepRef ≠ "") :
    (stepToBead ids logical step).val .stepRef = step.metadata.val .stepRef := by
  have hval : (withStepRef step).val .stepRef = step.metadata.val .stepRef := by
    rw [withStepRef, if_neg h]
  rw [Bead.val, stepToBead]
  split
  · exact hval
  · rw [Table.val_set_of_ne (by decide), hval]

end GasCity.Dispatch
