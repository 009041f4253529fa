import GasCity.Process.Program
import Mathlib.Data.List.MinMax

/-! # Convergence loops

A loop of `internal/convergence` is a root bead whose metadata is written one key at a time and
whose children are its wisps, one for each iteration.  The world has the store behind the handlers,
for one root, and a log of what the properties of runs speak about.  The store keeps the contract of
the `Store` interface, whatever an adapter does: a pour finds the wisp of its key also when it is
closed, and the children include closed wisps.
-/

namespace GasCity.Convergence

abbrev ID := ℕ

/-- Values of `convergence.state`. -/
inductive State where
  | missing | creating | active | waitingManual | waitingTrigger | terminated
  deriving DecidableEq

inductive GateMode where
  | manual | condition | hybrid
  deriving DecidableEq

inductive TimeoutAction where
  | iterate | retry | manual | terminate
  deriving DecidableEq

inductive Outcome where
  | pass | fail | timeout | error
  deriving DecidableEq

inductive WaitReason where
  | manual | hybridNoCondition | timeout | slingFailure
  deriving DecidableEq

inductive TerminalReason where
  | approved | noConvergence | stopped | partialCreation
  deriving DecidableEq

inductive Actor where
  | controller | operator (name : String) | recovery
  deriving DecidableEq

inductive Trigger where
  | none | event
  deriving DecidableEq

/-- The metadata of the root bead, except for the verdict of the agent. -/
structure Metadata where
  state : State := .missing
  formula : String := ""
  maxIterations : ℕ := 0
  gateMode : GateMode := .manual
  gateCondition : String := ""
  gateTimeoutAction : TimeoutAction := .iterate
  trigger : Trigger := .none
  triggerCondition : String := ""
  iteration : ℕ := 0
  activeWisp : Option ID := none
  lastProcessedWisp : Option ID := none
  pendingNextWisp : Option ID := none
  gateOutcome : Option Outcome := none
  gateOutcomeWisp : Option ID := none
  waitingReason : Option WaitReason := none
  terminalReason : Option TerminalReason := none
  terminalActor : Option Actor := none
  deriving DecidableEq

/-- The keys that agents may write without a controller token. -/
structure Verdict where
  verdict : String := ""
  wisp : Option ID := none
  deriving DecidableEq

inductive MetaWrite where
  | state (v : State)
  | formula (v : String)
  | maxIterations (v : ℕ)
  | gateMode (v : GateMode)
  | gateCondition (v : String)
  | gateTimeoutAction (v : TimeoutAction)
  | trigger (v : Trigger)
  | triggerCondition (v : String)
  | iteration (v : ℕ)
  | activeWisp (v : Option ID)
  | lastProcessedWisp (v : Option ID)
  | pendingNextWisp (v : Option ID)
  | gateOutcome (v : Option Outcome)
  | gateOutcomeWisp (v : Option ID)
  | waitingReason (v : Option WaitReason)
  | terminalReason (v : Option TerminalReason)
  | terminalActor (v : Option Actor)
  | agentVerdict (v : String)
  | agentVerdictWisp (v : Option ID)
  deriving DecidableEq

def Metadata.write (m : Metadata) : MetaWrite → Metadata
  | .state v => { m with state := v }
  | .formula v => { m with formula := v }
  | .maxIterations v => { m with maxIterations := v }
  | .gateMode v => { m with gateMode := v }
  | .gateCondition v => { m with gateCondition := v }
  | .gateTimeoutAction v => { m with gateTimeoutAction := v }
  | .trigger v => { m with trigger := v }
  | .triggerCondition v => { m with triggerCondition := v }
  | .iteration v => { m with iteration := v }
  | .activeWisp v => { m with activeWisp := v }
  | .lastProcessedWisp v => { m with lastProcessedWisp := v }
  | .pendingNextWisp v => { m with pendingNextWisp := v }
  | .gateOutcome v => { m with gateOutcome := v }
  | .gateOutcomeWisp v => { m with gateOutcomeWisp := v }
  | .waitingReason v => { m with waitingReason := v }
  | .terminalReason v => { m with terminalReason := v }
  | .terminalActor v => { m with terminalActor := v }
  | .agentVerdict _ | .agentVerdictWisp _ => m

def Verdict.write (v : Verdict) : MetaWrite → Verdict
  | .agentVerdict text => { v with verdict := text }
  | .agentVerdictWisp id => { v with wisp := id }
  | _ => v

/-- A wisp of the loop; `hidden` is a speculative wisp that no agent can see yet. -/
structure Wisp where
  id : ID
  iteration : ℕ
  closed : Bool := false
  hidden : Bool := false
  deriving DecidableEq

inductive RootStatus where
  | absent | opened | closed
  deriving DecidableEq

inductive Event where
  | created
  | iteration (n : ℕ) (w : ID)
  | waitingManual (n : ℕ)
  | terminated
  | manualApprove
  | manualIterate (n : ℕ)
  | manualStop
  | triggerAdvance (n : ℕ)
  deriving DecidableEq

inductive Entry where
  | pour (n : ℕ) (hidden : Bool)
  | activate (n : ℕ)
  | gate (w : ID) (n : ℕ) (outcome : Outcome)
  | operator (n : ℕ)
  | trigger (n : ℕ)
  | emit (e : Event)
  deriving DecidableEq

structure World where
  metadata : Metadata := {}
  verdict : Verdict := {}
  root : RootStatus := .absent
  wisps : List Wisp := []
  next : ID := 0
  log : List Entry := []
  deriving DecidableEq

/-- `ClosedCount` of `childStats`. -/
def closedCount (ws : List Wisp) : ℕ :=
  ws.countP fun v => v.closed

/-- `HighestClosed` of `childStats`. -/
def highestClosed (ws : List Wisp) : Option Wisp :=
  (ws.filter fun v => v.closed).argmax Wisp.iteration

/-- `HighestOpen` of `childStats`. -/
def highestOpen (ws : List Wisp) : Option Wisp :=
  (ws.filter fun v => !v.closed).argmax Wisp.iteration

namespace World

def bead (s : World) (id : ID) : Option Wisp :=
  s.wisps.find? fun v => v.id = id

def keyed (s : World) (n : ℕ) : Option Wisp :=
  s.wisps.find? fun v => v.iteration = n

def write (s : World) (w : MetaWrite) : World :=
  { s with metadata := s.metadata.write w, verdict := s.verdict.write w }

def record (s : World) (e : Entry) : World :=
  { s with log := s.log ++ [e] }

def mapWisp (s : World) (id : ID) (f : Wisp → Wisp) : World :=
  { s with wisps := s.wisps.map fun v => if v.id = id then f v else v }

def closeWisp (s : World) (id : ID) : World :=
  s.mapWisp id fun v => { v with closed := true }

def deleteWisp (s : World) (id : ID) : World :=
  { s with wisps := s.wisps.filter fun v => v.id ≠ id }

def addWisp (s : World) (n : ℕ) (hidden : Bool) : World :=
  { s with
    wisps := s.wisps ++ [{ id := s.next, iteration := n, hidden := hidden }]
    next := s.next + 1
    log := s.log ++ [.pour n hidden] }

def reveal (s : World) (v : Wisp) : World :=
  (s.mapWisp v.id fun u => { u with hidden := false }).record (.activate v.iteration)

end World

/-- Where in a handler a call stands; only conditions on runs read it. -/
inductive Site where
  | plain
  | iterateCall
  | rebuild
  | entering
  | naming
  | pouring
  | ending
  | stopping
  deriving DecidableEq

/-- How a write is answered; `lost` is an error after the write took effect. -/
inductive Answer where
  | ok | refused | lost
  deriving DecidableEq

structure Choice where
  answer : Answer := .ok
  outcome : Outcome := .pass
  deriving DecidableEq

inductive Op where
  | createRoot
  | rootStatus
  | getMetadata
  | getBead (id : ID)
  | children (site : Site)
  | findByKey (n : ℕ)
  | set (site : Site) (w : MetaWrite)
  | closeRoot
  | closeWisp (id : ID)
  | deleteBead (id : ID)
  | pour (site : Site) (n : ℕ) (hidden : Bool)
  | activate (site : Site) (id : ID)
  | evaluateGate (w : ID) (n : ℕ) (verdict : String)
  | runTrigger (n : ℕ)
  | emit (site : Site) (e : Event)
  deriving DecidableEq

@[reducible]
def Ans : Op → Type
  | .createRoot => Bool
  | .rootStatus => RootStatus
  | .getMetadata => Metadata × Verdict
  | .getBead _ => Option Wisp
  | .children _ => List Wisp
  | .findByKey _ => Option ID
  | .set _ _ => Bool
  | .closeRoot => Bool
  | .closeWisp _ => Bool
  | .deleteBead _ => Bool
  | .pour _ _ _ => Option ID
  | .activate _ _ => Bool
  | .evaluateGate _ _ _ => Outcome
  | .runTrigger _ => Outcome
  | .emit _ _ => Unit

def attempt (answer : Answer) (s t : World) : Bool × World :=
  if answer = .ok then (true, t) else (false, s)

/-- Pour the wisp of an iteration unless it exists.  Without a formula there is nothing to pour. -/
def World.pour (s : World) (answer : Answer) (n : ℕ) (hidden : Bool) : Option ID × World :=
  match s.keyed n with
  | some v => (if answer = .ok then some v.id else none, s)
  | none =>
    if answer = .refused ∨ s.metadata.formula = "" then (none, s)
    else (if answer = .ok then some s.next else none, s.addWisp n hidden)

def World.activate (s : World) (answer : Answer) (id : ID) : Bool × World :=
  match s.bead id with
  | none => (false, s)
  | some v => if answer = .refused then (false, s) else (answer = .ok, s.reveal v)

def exec : (o : Op) → Choice → World → Ans o × World
  | .createRoot, c, s =>
    if s.root = .absent ∧ c.answer = .ok then (true, { s with root := .opened }) else (false, s)
  | .rootStatus, _, s => (s.root, s)
  | .getMetadata, _, s => ((s.metadata, s.verdict), s)
  | .getBead id, _, s => (s.bead id, s)
  | .children site, _, s =>
    (s.wisps, if site = .iterateCall then s.record (.operator (closedCount s.wisps)) else s)
  | .findByKey n, _, s => ((s.keyed n).map Wisp.id, s)
  | .set _ w, c, s => attempt c.answer s (s.write w)
  | .closeRoot, c, s => attempt c.answer s { s with root := .closed }
  | .closeWisp id, c, s => attempt c.answer s (s.closeWisp id)
  | .deleteBead id, c, s => attempt c.answer s (s.deleteWisp id)
  | .pour _ n hidden, c, s => s.pour c.answer n hidden
  | .activate _ id, c, s => s.activate c.answer id
  | .evaluateGate w n _, c, s => (c.outcome, s.record (.gate w n c.outcome))
  | .runTrigger n, c, s =>
    (c.outcome, if c.outcome = .pass then s.record (.trigger (n - 1)) else s)
  | .emit _ e, _, s => ((), s.record (.emit e))

/-- What agents do: close a wisp that they can see, or leave a verdict. -/
inductive AgentAct where
  | close (id : ID)
  | verdict (v : Verdict)
  deriving DecidableEq

def agentAct : AgentAct → World → World
  | .close id, s => s.mapWisp id fun v => if v.hidden then v else { v with closed := true }
  | .verdict v, s => { s with verdict := v }

end GasCity.Convergence
