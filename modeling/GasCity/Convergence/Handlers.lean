import GasCity.Convergence.World

/-! # Convergence handlers

The handlers of `internal/convergence` as programs over the store: the closing of a wisp
(`handler.go`), the operator's actions (`manual.go`), the trigger (`trigger.go`) and the
creation of a loop (`create.go`).
-/

namespace GasCity.Convergence

inductive HandlerAction where
  | iterate | approved | noConvergence | waitingManual | waitingTrigger | stopped | skipped
  deriving DecidableEq

inductive HandlerError where
  | create | write | close | delete | pour | activate | readWisp
  | noCondition | wrongState | atMaxIterations | noTrigger | overLimit
  | invalid (field : String)
  deriving DecidableEq

abbrev Handler := Program Op Ans HandlerError

def call (o : Op) : Handler (Ans o) :=
  Program.op o

def setMetadata (site : Site) (w : MetaWrite) : Handler Unit := do
  if ← call (.set site w) then pure () else .fail .write

def trySetMetadata (w : MetaWrite) : Handler Unit := do
  let _ ← call (.set .plain w)
  pure ()

def closeRoot : Handler Unit := do
  if ← call .closeRoot then pure () else .fail .close

def emit (e : Event) : Handler Unit :=
  call (.emit .plain e)

def setAll : List (Site × MetaWrite) → Handler Unit
  | [] => pure ()
  | (site, w) :: rest => do
    setMetadata site w
    setAll rest

def setIf (c : Prop) [Decidable c] (writes : List (Site × MetaWrite)) : Handler Unit :=
  if c then setAll writes else pure ()

/-- Apply the writes of a transition, then `preMarker`, and the dedup marker last. -/
def commit (writes : List (Site × MetaWrite)) (preMarker : Handler Unit)
    (marker : Option ID) : Handler Unit := do
  setAll writes
  preMarker
  match marker with
  | none => pure ()
  | some w => setMetadata .plain (.lastProcessedWisp (some w))

def deriveIterationCount : Handler ℕ := do
  let ws ← call (.children .plain)
  pure (closedCount ws)

def burnSpeculativeWisp : Option ID → Handler Unit
  | none => pure ()
  | some id => do
    if ← call (.deleteBead id) then trySetMetadata (.pendingNextWisp none)
    else .fail .delete

/-- The pending wisp if it is open and has the key of iteration `n`. -/
def validPendingNextWisp (n : ℕ) : Option ID → Handler (Option ID)
  | none => pure none
  | some id => do
    match ← call (.getBead id) with
    | some v =>
      if v.iteration = n ∧ v.closed = false then pure (some id)
      else do
        trySetMetadata (.pendingNextWisp none)
        pure none
    | none => do
      trySetMetadata (.pendingNextWisp none)
      pure none

def transitionToWaitingManual (w : ID) (n : ℕ) (reason : WaitReason) : Handler HandlerAction := do
  emit (.iteration n w)
  commit
    [(.plain, .activeWisp none), (.entering, .waitingReason (some reason)),
      (.entering, .state .waitingManual)]
    (pure ()) (some w)
  emit (.waitingManual n)
  pure .waitingManual

def handleSlingFailure (w : ID) (n : ℕ) : Handler HandlerAction :=
  transitionToWaitingManual w n .slingFailure

def clearVerdict (v : Verdict) (w : ID) : Handler Unit :=
  setIf (v.wisp = some w) [(.plain, .agentVerdict ""), (.plain, .agentVerdictWisp none)]

/-- Pour the wisp of iteration `n`; after an error, look for one that was poured all the same. -/
def pourOrFind (site : Site) (n : ℕ) (hidden : Bool) : Handler (Option ID) := do
  match ← call (.pour site n hidden) with
  | some id => pure (some id)
  | none => call (.findByKey n)

def adopt (w : ID) (n : ℕ) (id : ID) : Handler HandlerAction := do
  if ← call (.activate .plain id) then do
    emit (.iteration n w)
    commit [(.plain, .activeWisp (some id))] (pure ()) (some w)
    trySetMetadata (.pendingNextWisp none)
    pure .iterate
  else .fail .activate

def iterate (v : Verdict) (w : ID) (n : ℕ) (speculative : Option ID) :
    Handler HandlerAction := do
  clearVerdict v w
  match speculative with
  | some id => adopt w n id
  | none =>
    match ← pourOrFind .plain (n + 1) false with
    | some id => adopt w n id
    | none => handleSlingFailure w n

def transitionToWaitingTrigger (v : Verdict) (w : ID) (n : ℕ) : Handler HandlerAction := do
  clearVerdict v w
  emit (.iteration n w)
  commit [(.plain, .activeWisp none), (.entering, .state .waitingTrigger)] (pure ()) (some w)
  pure .waitingTrigger

def terminate (w : ID) (n : ℕ) (reason : TerminalReason) (actor : Actor) : Handler Unit := do
  emit (.iteration n w)
  emit .terminated
  commit
    [(.plain, .terminalReason (some reason)), (.ending, .terminalActor (some actor)),
      (.ending, .state .terminated)]
    closeRoot (some w)

/-- `gate_outcome_wisp` is the marker of the outcome and is written last; a failed write is
reported to the caller. -/
def persistGateOutcome (w : ID) (outcome : Outcome) : Handler Bool := do
  if ← call (.set .plain (.gateOutcome (some outcome))) then
    call (.set .plain (.gateOutcomeWisp (some w)))
  else pure false

/-- Hybrid and manual gates that wait for the operator without running a condition. -/
def needsManualWithoutGate (m : Metadata) : Option WaitReason :=
  match m.gateMode with
  | .manual => some .manual
  | .hybrid => if m.gateCondition = "" then some .hybridNoCondition else none
  | .condition => none

/-- Pour the next wisp before the gate is evaluated.  The flag tells that the pour failed. -/
def prepareSuccessor (m : Metadata) (n : ℕ) : Handler (Option ID × Bool) := do
  match ← validPendingNextWisp (n + 1) m.pendingNextWisp with
  | some id => pure (some id, false)
  | none =>
    if n < m.maxIterations ∧ needsManualWithoutGate m = none ∧ m.trigger = .none then do
      match ← pourOrFind .plain (n + 1) true with
      | none => pure (none, true)
      | some id =>
        if ← call (.set .plain (.pendingNextWisp (some id))) then pure (some id, false)
        else do
          burnSpeculativeWisp (some id)
          .fail .write
    else pure (none, false)

inductive Decision where
  | wait | end (reason : TerminalReason) | continue
  deriving DecidableEq

/-- Step 7: what follows from the outcome of the gate for iteration `n`. -/
def decision (m : Metadata) (n : ℕ) (outcome : Option Outcome) : Decision :=
  if outcome = some .timeout ∧ m.gateTimeoutAction = .manual then .wait
  else if outcome = some .pass then .end .approved
  else if outcome = some .timeout ∧ m.gateTimeoutAction = .terminate then .end .noConvergence
  else if m.maxIterations ≤ n then .end .noConvergence
  else .continue

def endAction : TerminalReason → HandlerAction
  | .approved => .approved
  | _ => .noConvergence

def settle (m : Metadata) (v : Verdict) (w : ID) (n : ℕ) (speculative : Option ID)
    (pourFailed : Bool) (outcome : Option Outcome) : Handler HandlerAction :=
  match decision m n outcome with
  | .wait => do
    burnSpeculativeWisp speculative
    transitionToWaitingManual w n .timeout
  | .end reason => do
    burnSpeculativeWisp speculative
    terminate w n reason .controller
    pure (endAction reason)
  | .continue =>
    if pourFailed then handleSlingFailure w n
    else if m.trigger = .event then transitionToWaitingTrigger v w n
    else iterate v w n speculative

def scopedVerdict (v : Verdict) (w : ID) : String :=
  if v.wisp = some w then v.verdict else "block"

def judge (m : Metadata) (v : Verdict) (w : ID) (n : ℕ) (speculative : Option ID)
    (pourFailed : Bool) : Handler HandlerAction :=
  if m.gateOutcomeWisp = some w then settle m v w n speculative pourFailed m.gateOutcome
  else
    match needsManualWithoutGate m with
    | some reason => do
      burnSpeculativeWisp speculative
      transitionToWaitingManual w n reason
    | none => do
      let outcome ← call (.evaluateGate w n (scopedVerdict v w))
      if ← persistGateOutcome w outcome then
        settle m v w n speculative pourFailed (some outcome)
      else do
        burnSpeculativeWisp speculative
        .fail .write

/-- The iteration of the wisp that the dedup marker names; a missing wisp counts as none. -/
def lastProcessedIteration : Option ID → Handler ℕ
  | none => pure 0
  | some id => do
    match ← call (.getBead id) with
    | none => pure 0
    | some v => pure v.iteration

def processWisp (m : Metadata) (v : Verdict) (w : ID) (n : ℕ) : Handler HandlerAction := do
  let total ← deriveIterationCount
  setIf (total ≠ m.iteration) [(.plain, .iteration total)]
  if m.gateOutcomeWisp ≠ some w ∧ m.gateMode = .condition ∧ m.gateCondition = "" then do
    let pending ← validPendingNextWisp (n + 1) m.pendingNextWisp
    burnSpeculativeWisp pending
    .fail .noCondition
  else do
    let (speculative, pourFailed) ← prepareSuccessor m n
    judge m v w n speculative pourFailed

def handleWispClosed (w : ID) : Handler HandlerAction := do
  let (m, v) ← call .getMetadata
  if m.state = .terminated then do
    let _ ← call .closeRoot
    pure .skipped
  else do
    match ← call (.getBead w) with
    | none => .fail .readWisp
    | some wisp => do
      let last ← lastProcessedIteration m.lastProcessedWisp
      if wisp.iteration ≤ last then pure .skipped
      else processWisp m v w wisp.iteration

def approveHandler (user : String) : Handler HandlerAction := do
  let (m, _) ← call .getMetadata
  if m.state = .terminated ∧ m.terminalReason = some .approved then pure .approved
  else if m.state ≠ .waitingManual then .fail .wrongState
  else do
    let _ ← deriveIterationCount
    commit
      [(.plain, .terminalReason (some .approved)),
        (.ending, .terminalActor (some (.operator user))), (.ending, .waitingReason none),
        (.ending, .state .terminated)]
      (do
        emit .terminated
        closeRoot
        emit .manualApprove)
      m.lastProcessedWisp
    pure .approved

/-- The writes after the pour of the operator's `Iterate`. -/
def resumeLoop (m : Metadata) (v : Verdict) (n : ℕ) (id : ID) : Handler HandlerAction := do
  setIf (m.lastProcessedWisp ≠ none ∧ v.wisp = m.lastProcessedWisp)
    [(.naming, .agentVerdict ""), (.naming, .agentVerdictWisp none)]
  setAll
    [(.naming, .waitingReason none), (.naming, .state .active), (.naming, .activeWisp (some id))]
  emit (.manualIterate n)
  pure .iterate

def iterateHandler : Handler HandlerAction := do
  let (m, v) ← call .getMetadata
  if m.state ≠ .waitingManual then .fail .wrongState
  else do
    let ws ← call (.children .iterateCall)
    let count := closedCount ws
    if m.maxIterations ≤ count then .fail .atMaxIterations
    else do
      match ← pourOrFind .pouring (count + 1) false with
      | none => .fail .pour
      | some id => resumeLoop m v (count + 1) id

def recoverCurrentActiveWisp (last : Option ID) : Handler (Option Wisp) := do
  let ws ← call (.children .plain)
  let processed ← match last with
    | none => pure none
    | some id => call (.getBead id)
  match processed with
  | some v => do
    match ← call (.findByKey (v.iteration + 1)) with
    | some id => call (.getBead id)
    | none => pure none
  | none =>
    match highestOpen ws with
    | some v => pure (some v)
    | none => pure (highestClosed ws)

def currentWisp (active last : Option ID) : Handler (Option Wisp) := do
  match active with
  | none => pure none
  | some id =>
    match ← call (.getBead id) with
    | some v => pure (some v)
    | none => recoverCurrentActiveWisp last

def forceClose (active last : Option ID) : Handler (Option ID) := do
  match ← currentWisp active last with
  | none => pure none
  | some v =>
    if v.closed then pure none
    else do
      if ← call (.closeWisp v.id) then pure (some v.id) else .fail .close

def emitForced (n : ℕ) : Option ID → Handler Unit
  | some w => call (.emit .stopping (.iteration n w))
  | none => pure ()

/-- Steps 3 to 10 of a stop: the loop ends whatever its active wisp is doing. -/
def stopLoop (user : String) (active last : Option ID) : Handler HandlerAction := do
  let forced ← forceClose active last
  let count ← deriveIterationCount
  setMetadata .plain (.agentVerdict "")
  setMetadata .plain (.agentVerdictWisp none)
  commit
    [(.plain, .terminalReason (some .stopped)),
      (.stopping, .terminalActor (some (.operator user))), (.stopping, .waitingReason none),
      (.stopping, .state .terminated)]
    (do
      emitForced count forced
      emit .terminated
      closeRoot
      emit .manualStop)
    (forced.or last)
  pure .stopped

def stopHandler (user : String) : Handler HandlerAction := do
  let (m, _) ← call .getMetadata
  if m.state = .terminated ∧ m.terminalReason = some .stopped then pure .stopped
  else if m.state ≠ .active ∧ m.state ≠ .waitingManual ∧ m.state ≠ .waitingTrigger then
    .fail .wrongState
  else do
    match ← currentWisp m.activeWisp m.lastProcessedWisp with
    | none => stopLoop user none m.lastProcessedWisp
    | some v =>
      if v.closed then do
        let _ ← handleWispClosed v.id
        let (m, _) ← call .getMetadata
        if m.state = .terminated then pure .stopped
        else stopLoop user m.activeWisp m.lastProcessedWisp
      else stopLoop user (some v.id) m.lastProcessedWisp

def advanceFromTrigger (n : ℕ) : Handler HandlerAction := do
  match ← pourOrFind .pouring n false with
  | none => .fail .pour
  | some id => do
    if ← call (.activate .naming id) then do
      setAll
        [(.naming, .iteration n), (.naming, .activeWisp (some id)), (.naming, .state .active)]
      emit (.triggerAdvance n)
      pure .iterate
    else .fail .activate

def handleTrigger : Handler HandlerAction := do
  let (m, _) ← call .getMetadata
  if m.state ≠ .waitingTrigger then pure .skipped
  else if m.trigger ≠ .event then .fail .noTrigger
  else do
    let count ← deriveIterationCount
    if 0 < m.maxIterations ∧ m.maxIterations < count + 1 then .fail .overLimit
    else do
      let outcome ← call (.runTrigger (count + 1))
      if outcome = .pass then advanceFromTrigger (count + 1) else pure .skipped

structure CreateParams where
  formula : String
  target : String
  maxIterations : ℕ
  gateMode : GateMode := .manual
  gateCondition : String := ""
  gateTimeoutAction : TimeoutAction := .iterate
  trigger : Trigger := .none
  triggerCondition : String := ""
  deriving DecidableEq

def CreateParams.writes (p : CreateParams) : List MetaWrite :=
  [.formula p.formula, .maxIterations p.maxIterations, .gateMode p.gateMode,
    .gateCondition p.gateCondition, .gateTimeoutAction p.gateTimeoutAction, .trigger p.trigger,
    .triggerCondition p.triggerCondition]

def rollBack : Handler Unit := do
  let _ ← call (.set .ending (.state .terminated))
  let _ ← call .closeRoot
  .fail .create

def createWrite (site : Site) (w : MetaWrite) : Handler Unit := do
  if ← call (.set site w) then pure () else rollBack

def createWrites : List MetaWrite → Handler Unit
  | [] => pure ()
  | w :: rest => do
    createWrite .plain w
    createWrites rest

def createHandler (p : CreateParams) : Handler Unit := do
  if p.formula = "" then .fail (.invalid "formula")
  else if p.target = "" then .fail (.invalid "target")
  else if p.maxIterations = 0 then .fail (.invalid "max_iterations")
  else if p.trigger = .event ∧ p.triggerCondition = "" then .fail (.invalid "trigger")
  else do
    if ← call .createRoot then do
      createWrite .plain (.state .creating)
      createWrites p.writes
      if p.trigger = .event then do
        createWrite .plain (.iteration 0)
        createWrite .plain (.state .waitingTrigger)
        emit .created
      else do
        createWrite .plain (.state .active)
        match ← call (.pour .pouring 1 false) with
        | none => rollBack
        | some id => do
          createWrite .naming (.activeWisp (some id))
          createWrite .naming (.iteration 1)
          emit .created
    else .fail .create

end GasCity.Convergence
