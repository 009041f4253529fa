import GasCity.Convergence.Handlers
import GasCity.Process.Serial

/-! # Startup reconciliation and the controller

The recovery paths of `internal/convergence/reconcile.go`, the tick of the controller
(`cmd/gc/convergence_tick.go`), and the service that they make up with the handlers, with startup
reconciliation first after every stop.
-/

namespace GasCity.Convergence

def adoptRebuilt (id : ID) : Handler Unit := do
  if ← call (.activate .naming id) then do
    setMetadata .naming (.activeWisp (some id))
    trySetMetadata (.pendingNextWisp none)
  else .fail .activate

/-- An active loop without an active wisp: adopt or pour the wisp after the closed ones. -/
def rebuildActive (m : Metadata) : Handler Unit := do
  let ws ← call (.children .rebuild)
  let n := closedCount ws + 1
  match ← validPendingNextWisp n m.pendingNextWisp with
  | some id => adoptRebuilt id
  | none =>
    match ← call (.findByKey n) with
    | some id => adoptRebuilt id
    | none =>
      match ← call (.pour .pouring n false) with
      | some id => adoptRebuilt id
      | none => .fail .pour

def backfillTerminalActor (m : Metadata) : Handler Unit :=
  setIf (m.terminalActor = none) [(.ending, .terminalActor (some .recovery))]

def completeTerminalTransition (m : Metadata) : Handler Unit := do
  backfillTerminalActor m
  let ws ← call (.children .plain)
  emit .terminated
  setIf (m.state ≠ .terminated) [(.ending, .state .terminated)]
  closeRoot
  match highestClosed ws with
  | some v => trySetMetadata (.lastProcessedWisp (some v.id))
  | none => pure ()

/-- What follows from the status of the active wisp; `recovered` if it replaces a missing one. -/
def resumeActive (m : Metadata) (recovered : Bool) (v : Wisp) : Handler Unit := do
  setIf (recovered = true) [(.plain, .activeWisp (some v.id))]
  if v.closed = true ∧ m.lastProcessedWisp ≠ some v.id then do
    let _ ← handleWispClosed v.id
    pure ()
  else pure ()

def reconcileActive (m : Metadata) : Handler Unit := do
  if m.terminalReason ≠ none then completeTerminalTransition m
  else
    match m.activeWisp with
    | none => rebuildActive m
    | some id => do
      match ← call (.getBead id) with
      | some v => resumeActive m false v
      | none =>
        match ← recoverCurrentActiveWisp m.lastProcessedWisp with
        | some v => resumeActive m true v
        | none => rebuildActive m

def reconcileWaitingManual (m : Metadata) : Handler Unit := do
  if m.terminalReason ≠ none then completeTerminalTransition m
  else if m.waitingReason ≠ none then do
    let ws ← call (.children .plain)
    emit (.waitingManual m.iteration)
    match highestClosed ws with
    | some v =>
      if m.lastProcessedWisp = some v.id then pure ()
      else setMetadata .plain (.lastProcessedWisp (some v.id))
    | none => pure ()
  else do
    let ws ← call (.children .plain)
    if highestClosed ws = none then pure ()
    else setMetadata .plain (.waitingReason (some .manual))

def reconcileWaitingTrigger (m : Metadata) : Handler Unit :=
  if m.terminalReason ≠ none then completeTerminalTransition m else pure ()

def reconcileTerminatedNotClosed (m : Metadata) : Handler Unit := do
  if (← call .rootStatus) = .closed then pure ()
  else do
    backfillTerminalActor m
    let _ ← call (.children .plain)
    emit .terminated
    closeRoot

def reconcileCreating : Handler Unit := do
  setMetadata .plain (.terminalReason (some .partialCreation))
  setMetadata .plain (.terminalActor (some .recovery))
  setMetadata .plain (.state .terminated)
  closeRoot

/-- The loop never started: adopt or pour the wisp of the first iteration. -/
def reconcileMissingState : Handler Unit := do
  match ← call (.findByKey 1) with
  | some id => do
    match ← call (.getBead id) with
    | none => .fail .readWisp
    | some v => do
      setMetadata .plain (.activeWisp (some id))
      setMetadata .plain (.iteration (if v.closed then 1 else 0))
      setMetadata .plain (.state .active)
      if v.closed then do
        let _ ← handleWispClosed id
        pure ()
      else pure ()
  | none => do
    match ← call (.pour .plain 1 false) with
    | none => .fail .pour
    | some id => do
      setMetadata .plain (.activeWisp (some id))
      setMetadata .plain (.iteration 0)
      setMetadata .plain (.state .active)

def reconcileState : Handler Unit := do
  let (m, _) ← call .getMetadata
  match m.state with
  | .missing => reconcileMissingState
  | .creating => reconcileCreating
  | .terminated => reconcileTerminatedNotClosed m
  | .waitingManual => reconcileWaitingManual m
  | .waitingTrigger => reconcileWaitingTrigger m
  | .active => reconcileActive m

def startupReconcile : Handler Unit := do
  if (← call .rootStatus) = .opened then reconcileState else pure ()

/-- The controller polls the root: the trigger of a waiting loop, or the active wisp. -/
def convergenceTick : Handler Unit := do
  if (← call .rootStatus) = .opened then do
    let (m, _) ← call .getMetadata
    match m.state with
    | .waitingTrigger => do
      let _ ← handleTrigger
      pure ()
    | .active =>
      match m.activeWisp with
      | none => pure ()
      | some id => do
        match ← call (.getBead id) with
        | none => reconcileState
        | some v =>
          if v.closed then do
            let _ ← handleWispClosed id
            pure ()
          else pure ()
    | _ => pure ()
  else pure ()

inductive Request where
  | create (p : CreateParams)
  | tick
  | approve (user : String)
  | iterate
  | stop (user : String)
  | reconcile
  deriving DecidableEq

def body : Request → Handler Unit
  | .create p => createHandler p
  | .tick => convergenceTick
  | .approve user => do
    let _ ← approveHandler user
    pure ()
  | .iterate => do
    let _ ← iterateHandler
    pure ()
  | .stop user => do
    let _ ← stopHandler user
    pure ()
  | .reconcile => startupReconcile

def controller : Service Request Op Choice AgentAct HandlerError World Ans where
  exec := exec
  body := body
  recovers r := r == .reconcile
  outside := agentAct

abbrev Step := Occurrence Request Choice AgentAct

abbrev Controller := Desk Op HandlerError World Ans

def start : Controller :=
  ⟨{}, .idle⟩

end GasCity.Convergence
