import GasCity.Dispatch.SourceChain

/-! # Finishing a workflow

The finalizer of a workflow computes its outcome from the steps that block it and
from the failures left under the root, closes the root, and closes the source chain
of a workflow that passed.
-/

namespace GasCity.Dispatch

inductive FinalizeError where
  | pending (blocker : String)
  | missing (blocker : String)
  deriving DecidableEq

def blockerOutcome (s : Store) (outcome id : String) : Except FinalizeError String :=
  match s.get id with
  | none => .error (.missing id)
  | some blocker =>
    if blocker.status ≠ .closed then .error (.pending id)
    else .ok (if beadOutcomeFailed blocker then Outcome.fail else outcome)

def resolveBlockedOutcome (s : Store) (id : String) : Except FinalizeError String :=
  (s.downDeps id).foldlM (blockerOutcome s) Outcome.pass

/-- A finalizer has an outcome only when everything that blocks it is closed. -/
theorem closed_of_blockedOutcome {s : Store} {outcome result : String} {deps : List String}
    (h : deps.foldlM (blockerOutcome s) outcome = .ok result) {d : String} (hd : d ∈ deps) :
    ∃ b, s.get d = some b ∧ b.status = .closed := by
  induction deps generalizing outcome with
  | nil => cases hd
  | cons id deps ih =>
    rw [List.foldlM_cons] at h
    cases hid : blockerOutcome s outcome id with
    | error e =>
      rw [hid] at h
      cases h
    | ok next =>
      rw [hid] at h
      rcases List.mem_cons.mp hd with rfl | hd
      · unfold blockerOutcome at hid
        split at hid
        · cases hid
        · next b hget =>
          split at hid
          · cases hid
          · next hclosed => exact ⟨b, hget, not_not.mp hclosed⟩
      · exact ih h hd

def listByWorkflowRoot (s : Store) (rootID : String) : List Bead :=
  s.beads.filter fun b => b.id = rootID || b.val .rootBeadID == rootID

/-- A failure that no later attempt of the same step can make up for. -/
def terminalAbortScopeFailure (b : Bead) : Bool :=
  b.status = .closed && trimSpace (b.val .onFail) == "abort_scope" && beadOutcomeFailed b &&
    trimSpace (b.val .failureClass) != "transient" && !isRetryAttemptSubject b

def workflowRootHasTerminalAbortScopeFailure (s : Store) (rootID finalizerID : String) : Bool :=
  (listByWorkflowRoot s rootID).any fun b => b.id != finalizerID && terminalAbortScopeFailure b

def resolveFinalizeOutcome (s : Store) (finalizer : Bead) : Except FinalizeError String := do
  let outcome ← resolveBlockedOutcome s finalizer.id
  let rootID := trimSpace (finalizer.val .rootBeadID)
  return if outcome = Outcome.pass ∧ rootID ≠ "" ∧
      workflowRootHasTerminalAbortScopeFailure s rootID finalizer.id then Outcome.fail
    else outcome

def isGeneratedSpecSidecar (b : Bead) : Bool :=
  equalFold (trimSpace b.kind) Kind.spec

def workflowSpecSidecarClosedReason : String :=
  "workflow cleanup: generated spec sidecar closed with workflow root"

def closeSpecSidecarsForRoot (rootID : String) (b : Bead) : Bead :=
  if trimSpace rootID ≠ "" ∧ b.val .rootBeadID = trimSpace rootID ∧ b.status ≠ .closed ∧
      isGeneratedSpecSidecar b = true then
    closeWith (.ofList [(.outcome, Outcome.pass),
      (.other "close_reason", workflowSpecSidecarClosedReason)]) b
  else b

/-- The store calls of the finalizer that can fail, besides those of the source chain. -/
inductive FinalizePhase where
  | closeRoot | closeSidecars | closeFinalizer
  deriving DecidableEq

/-- The calls that fail while a control is processed. -/
structure Faults where
  loadRoot : Bool := false
  closeControl : Bool := false
  finalize : FinalizePhase → Bool := fun _ => false
  preflight : ℕ → ChainPhase → Bool := fun _ _ => false
  chain : ℕ → ChainPhase → Bool := fun _ _ => false

/-- How `ProcessControl` ends. -/
inductive ControlResult where
  | skipped
  | processed (action : String)
  | pending
  | error (reason : String)
  deriving DecidableEq

/-- Note on the finalizer why it could not finish; the wrapped cause is left out. -/
def recordWorkflowFinalizeError (w : Stores) (store : ℕ) (finalizerID reason : String) :
    Stores × ControlResult :=
  (w.update store finalizerID (mergeInto (.ofList [(.lastFinalizeError, reason)])), .error reason)

/-- The source chain of a workflow that passed is closed, then the finalizer. -/
def finishWorkflow (opts : ChainOptions) (faults : Faults) (w : Stores) (store : ℕ)
    (finalizerID rootID outcome : String) : Stores × ControlResult :=
  let chain := if outcome = Outcome.pass then
      closeSourceBeadChain opts faults.chain w store rootID else (w, none)
  match chain.2 with
  | some _ => recordWorkflowFinalizeError chain.1 store finalizerID
      (rootID ++ ": closing source bead chain")
  | none =>
    if faults.finalize .closeFinalizer then
      recordWorkflowFinalizeError chain.1 store finalizerID
        (finalizerID ++ ": completing workflow finalizer")
    else (chain.1.update store finalizerID (closeOutcome Outcome.pass),
      .processed ("workflow-" ++ outcome))

def processWorkflowFinalize (opts : ChainOptions) (faults : Faults) (w : Stores) (store : ℕ)
    (bead : Bead) : Stores × ControlResult :=
  let rootID := bead.val .rootBeadID
  if rootID = "" then (w, .error (bead.id ++ ": missing gc.root_bead_id"))
  else
    match resolveFinalizeOutcome (w store) bead with
    | .error (.pending _) => (w, .pending)
    | .error (.missing _) => (w, .error (bead.id ++ ": resolving workflow outcome"))
    | .ok outcome =>
      let preflight := if outcome = Outcome.pass then
          (preflightSourceBeadChain opts faults.preflight w store rootID).2 else none
      if preflight.isSome then
        recordWorkflowFinalizeError w store bead.id (rootID ++ ": preflighting source bead chain")
      else if faults.finalize .closeRoot then
        recordWorkflowFinalizeError w store bead.id (rootID ++ ": completing workflow head")
      else if ((w store).get rootID).isNone then
        (w.update store bead.id (closeOutcome "missing_root"),
          .processed "workflow-missing_root")
      else
        let w := w.update store rootID (closeOutcome outcome)
        if faults.finalize .closeSidecars then
          recordWorkflowFinalizeError w store bead.id
            (rootID ++ ": closing workflow spec sidecars")
        else
          finishWorkflow opts faults (Function.update w store
            { w store with beads := (w store).beads.map (closeSpecSidecarsForRoot rootID) })
            store bead.id rootID outcome

end GasCity.Dispatch
