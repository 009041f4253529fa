import GasCity.Digraph.Basic
import GasCity.Forest.Basic
import GasCity.Table.Basic
import GasCity.Text.Strings

/-! # Formula steps

The step record of `internal/formula` and the metadata vocabulary of `internal/beadmeta`, as far as
the compiler and the dispatcher read or write it.  The children of a step are the children of its
node in a `Forest Step`.
-/

namespace GasCity

/-- The metadata keys of `internal/beadmeta` that the modelled functions use, and the keys outside
the `gc.` namespace. -/
inductive MetaKey where
  | kind | originalKind | stepID | stepRef | ralphStepID | attempt | controlFor
  | scopeRef | scopeRole | scopeName | onFail | onExhausted | maxAttempts | controlEpoch
  | checkMode | checkPath | checkTimeout | stepTimeout
  | outputJSONRequired | forEach | bond | fanoutMode | specFor | specForRef
  | outcome | failureClass | failureReason | outputJSON | logicalBeadID | moleculeFailed
  | rootBeadID | rootStoreRef | sourceBeadID | sourceStoreRef | formulaContract
  | cancelRequested | lastFinalizeError | finalDisposition | missingRootBeadID
  | controllerError | controllerErrorClass | controllerRetryable
  | other (key : String)
  deriving DecidableEq

abbrev Metadata := Table MetaKey String

namespace Table

variable {κ : Type*}

/-- Go's `m[key]` on a map of strings: a missing key reads as the empty string. -/
def val (m : Table κ String) (key : κ) : String := m.getD key ""

variable {m : Table κ String} {k k' : κ} {v : String}

variable [DecidableEq κ]

@[simp]
theorem val_set_self : (m.set k v).val k = v := by
  simp [val, getD]

@[simp]
theorem val_set_of_ne (h : k' ≠ k) : (m.set k v).val k' = m.val k' := by
  simp [val, getD, h]

@[simp]
theorem val_erase_self : (m.erase k).val k = "" := by
  simp [val, getD]

@[simp]
theorem val_erase_of_ne (h : k' ≠ k) : (m.erase k).val k' = m.val k' := by
  simp [val, getD, h]

/-- Copy the entries of `keys` that `m` has a nonempty value for. -/
def copyNonempty (keys : List κ) (m target : Table κ String) : Table κ String :=
  keys.foldl (fun t k => if m.val k = "" then t else t.set k (m.val k)) target

theorem val_copyNonempty_of_notMem {keys : List κ} (h : k ∉ keys) (m target : Table κ String) :
    (copyNonempty keys m target).val k = target.val k := by
  induction keys generalizing target with
  | nil => rfl
  | cons k' keys ih =>
    rw [List.mem_cons, not_or] at h
    rw [copyNonempty, List.foldl_cons, ← copyNonempty, ih h.2]
    split
    · rfl
    · exact val_set_of_ne h.1

end Table

namespace Kind

abbrev retry := "retry"
abbrev ralph := "ralph"
abbrev check := "check"
abbrev retryEval := "retry-eval"
abbrev fanout := "fanout"
abbrev drain := "drain"
abbrev scopeCheck := "scope-check"
abbrev workflowFinalize := "workflow-finalize"
abbrev scope := "scope"
abbrev run := "run"
abbrev retryRun := "retry-run"
abbrev workflow := "workflow"
abbrev spec := "spec"

end Kind

namespace ScopeRole

abbrev body := "body"
abbrev member := "member"
abbrev control := "control"
abbrev teardown := "teardown"

end ScopeRole

def scopeCheckExemptKinds : List String :=
  [Kind.scope, Kind.scopeCheck, Kind.workflowFinalize, Kind.fanout, Kind.check, Kind.drain,
    Kind.spec]

def isScopeCheckExemptKind (kind : String) : Bool :=
  scopeCheckExemptKinds.contains kind

/-- The compiler node is the scope named by `scopeRef`, by its own or by a namespaced name. -/
def nodeIsScope (nodeID : String) (nodeMeta : Metadata) (scopeRef : String) : Bool :=
  scopeRef != "" &&
    [nodeID, nodeMeta.val .stepRef, nodeMeta.val .stepID].any fun candidate =>
      candidate != "" && (candidate == scopeRef || hasSuffix candidate ("." ++ scopeRef))

def controlClosesNode (controlMeta : Metadata) (nodeID : String) (nodeMeta : Metadata) : Bool :=
  if controlMeta.val .kind = Kind.scopeCheck then
    nodeMeta.val .kind == Kind.scope && nodeMeta.val .scopeRole == ScopeRole.body &&
      nodeIsScope nodeID nodeMeta (controlMeta.val .scopeRef)
  else if controlMeta.val .kind = Kind.workflowFinalize then
    nodeMeta.val .kind == Kind.workflow
  else false

namespace Formula

/-- What a finished step is bonded to, one molecule for each item of its output. -/
structure OnCompleteSpec where
  forEach : String := ""
  bond : String := ""
  sequential : Bool := false
  deriving DecidableEq

structure RalphCheckSpec where
  mode : String := ""
  path : String := ""
  timeout : String := ""
  deriving DecidableEq

/-- A check loop.  Validation rejects a loop without a check, so the check is always there. -/
structure RalphSpec where
  maxAttempts : Int
  check : RalphCheckSpec := {}
  deriving DecidableEq

structure RetrySpec where
  maxAttempts : Int
  onExhausted : String := ""
  deriving DecidableEq

structure Step where
  id : String := ""
  title : String := ""
  type : String := ""
  assignee : String := ""
  timeout : String := ""
  needs : List String := []
  dependsOn : List String := []
  metadata : Metadata := ∅
  onComplete : Option OnCompleteSpec := none
  ralph : Option RalphSpec := none
  retry : Option RetrySpec := none
  drain : Bool := false
  deriving DecidableEq

namespace Step

/-- Everything the step declares in `depends_on` and `needs`. -/
def deps (s : Step) : List String := s.dependsOn ++ s.needs

@[simp]
theorem mem_deps {s : Step} {d : String} : d ∈ s.deps ↔ d ∈ s.dependsOn ∨ d ∈ s.needs :=
  List.mem_append

/-- The step's `gc.kind`. -/
def kind (s : Step) : String := s.metadata.val .kind

end Step

/-- The step named `a` waits for the step named `b`. -/
abbrev After (steps : List Step) : String → String → Prop :=
  Digraph.After Step.id Step.deps steps

abbrev Acyclic (steps : List Step) : Prop :=
  Digraph.Acyclic Step.id Step.deps steps

end Formula

end GasCity
