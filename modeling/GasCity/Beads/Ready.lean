import GasCity.Beads.Query

/-! # Readiness

The store-independent part of the ready-work decision: which beads are
candidates, which dependency types block, and when a blocker is satisfied.
-/

namespace GasCity

structure ReadyQuery where
  assignee : String := ""
  limit : Int := 0
  tierMode : TierMode := .issues
  deriving DecidableEq

def readyExcludeTypes : List String :=
  ["merge-request", "gate", "molecule", "step", "convoy", "message", "session", "agent", "role",
    "rig"]

def isReadyExcludedType (t : String) : Bool := decide (t ∈ readyExcludeTypes)

def hasReadyExcludedLabel (b : Bead) : Bool :=
  b.labels.any fun l => l == "gc:session" || l == "gc:order-tracking" || l == "order-tracking"

def isReadyExcludedBead (b : Bead) : Bool :=
  isReadyExcludedType b.type || hasReadyExcludedLabel b

def isDeferred (b : Bead) (now : Time) : Bool :=
  b.deferUntil.any fun t => decide (now < t)

def isReadyCandidateForTier (b : Bead) (now : Time) (tier : TierMode) : Bool :=
  (match tier with
    | .wisps => b.ephemeral || b.noHistory
    | .both => true
    | .issues => !b.ephemeral) &&
  b.status == "open" && !isReadyExcludedBead b && !isDeferred b now

def isReadyBlockingDependencyType (t : String) : Bool :=
  t == "blocks" || t == "waits-for" || t == "conditional-blocks"

/-- A failed control closes, but keeps blocking ordinary downstream work. -/
def isReadyBlockingDependencySatisfied (blocker : Bead) : Bool :=
  blocker.status == "closed" && StringMap.val blocker.metadata "gc.outcome" != "fail"

/-- Cleanup and workflow-finalize controls run even after a failed predecessor. -/
def isReadyTerminalizer (b : Bead) : Bool :=
  StringMap.val b.metadata "gc.kind" == "cleanup" ||
    StringMap.val b.metadata "gc.kind" == "workflow-finalize"

def isReadyBlockingDependencySatisfiedFor (dependent blocker : Bead) : Bool :=
  if blocker.status != "closed" then false
  else if isReadyTerminalizer dependent then true
  else isReadyBlockingDependencySatisfied blocker

end GasCity
