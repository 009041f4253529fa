import GasCity.Table.Basic
import GasCity.Text.Trim
import Mathlib.Data.List.Sort

/-! # Sessions that are desired awake

Passes over configuration and demand signals write a reason under the name of a session.  Later
passes overwrite the reasons of earlier ones.  Instants and durations are integers in nanoseconds;
zero is Go's zero time, and a map that is ranged over is given as a list in any order.
-/

namespace GasCity.Awake

inductive SessionState where
  | startPending
  | creating
  | active
  | asleep
  | suspended
  | closed
  | other (name : String)
  deriving DecidableEq

inductive SleepReason where
  | idleTimeout
  | cityStop
  | other (name : String)
  deriving DecidableEq

inductive Mode where
  | always
  | onDemand
  | other (name : String)
  deriving DecidableEq

inductive WorkStatus where
  | opened
  | inProgress
  | other (name : String)
  deriving DecidableEq

inductive Reason where
  | pendingCreate
  | explicitWake
  | namedAlways
  | namedDemand
  | routedDemand
  | workQuery
  | scaledDemand
  | scaledCreating
  | manual
  | assignedWork
  | minActive
  | resetPending
  | attached
  | pending
  | waitReady
  | onDemandRunning
  | pin
  | idleSleep
  | held
  | quarantined
  deriving DecidableEq

structure AwakeAgent where
  qualifiedName : String
  suspended : Bool
  sleepAfterIdle : ℤ
  minActiveSessions : ℤ
  deriving DecidableEq

structure AwakeNamedSession where
  identity : String
  template : String
  mode : Mode
  runtimeName : String

structure AwakeSessionBead where
  id : String
  sessionName : String
  template : String
  state : SessionState
  sleepReason : SleepReason
  manualSession : Bool
  pendingCreate : Bool
  explicitWake : Bool
  dependencyOnly : Bool
  namedIdentity : String
  configuredNamedSession : Bool
  pinned : Bool
  drained : Bool
  waitHold : Bool
  heldUntil : ℤ
  quarantinedUntil : ℤ
  idleSince : ℤ
  createdAt : ℤ
  restartRequested : Bool
  continuationResetPending : Bool
  currentlyProcessingBeadID : String

structure AwakeWorkBead where
  id : String
  assignee : String
  status : WorkStatus
  ready : Bool

structure AwakeInput where
  agents : List AwakeAgent
  namedSessions : List AwakeNamedSession
  sessionBeads : List AwakeSessionBead
  workBeads : List AwakeWorkBead
  scaleCheckCounts : List (String × ℤ)
  namedSessionDemand : String → Bool
  namedSessionRoutedDemand : String → Bool
  namedSessionWorkQ : String → Bool
  workSet : List (String × Bool)
  runningSessions : String → Bool
  attachedSessions : String → Bool
  pendingSessions : String → Bool
  readyWaitSet : String → Bool
  chatIdleTimeout : ℤ
  manualGracePeriod : ℤ
  now : ℤ

def awakeAgentBaseName (name : String) : String :=
  .ofList (name.toList.reverse.takeWhile (· ≠ '/')).reverse

structure Directory where
  byName : Table String AwakeAgent
  byBaseName : Table String AwakeAgent
  duplicateBaseNames : Finset String

def Directory.add (d : Directory) (a : AwakeAgent) : Directory :=
  let base := awakeAgentBaseName a.qualifiedName
  let byName := d.byName.set a.qualifiedName a
  if (d.byBaseName.get base).any (fun b => decide (b.qualifiedName ≠ a.qualifiedName)) then
    { d with byName := byName, duplicateBaseNames := insert base d.duplicateBaseNames }
  else if base ∈ d.duplicateBaseNames then { d with byName := byName }
  else { d with byName := byName, byBaseName := d.byBaseName.set base a }

def directory (agents : List AwakeAgent) : Directory :=
  agents.foldl Directory.add ⟨∅, ∅, ∅⟩

def Directory.lookupAgent (d : Directory) (name : String) : Option AwakeAgent :=
  match d.byName.get name with
  | some agent => some agent
  | none =>
    let base := awakeAgentBaseName name
    if base ∈ d.duplicateBaseNames then none else d.byBaseName.get base

def findNamedSessionName (beads : List AwakeSessionBead) (identity : String) : String :=
  ((beads.find? fun b => b.namedIdentity == identity).map (·.sessionName)).getD ""

def findBeadBySessionName (beads : List AwakeSessionBead) (name : String) :
    Option AwakeSessionBead :=
  beads.find? fun b => b.sessionName == name

def resolveNamedSessionBeadName (beads : List AwakeSessionBead) (ns : AwakeNamedSession) :
    String :=
  let sn := findNamedSessionName beads ns.identity
  if sn ≠ "" then sn
  else if ns.runtimeName = "" then ""
  else
    match findBeadBySessionName beads ns.runtimeName with
    | none => ""
    | some bead =>
      if bead.configuredNamedSession = false then ""
      else if ns.template ≠ "" ∧ bead.template ≠ ns.template then ""
      else if bead.namedIdentity ≠ "" ∧ bead.namedIdentity ≠ ns.identity then ""
      else bead.sessionName

def isNamedSessionTemplate (named : List AwakeNamedSession) (template : String) : Bool :=
  named.any fun ns => ns.template == template

def namedSessionMatches (named : List AwakeNamedSession) (bead : AwakeSessionBead)
    (mode : Mode) : Bool :=
  named.any fun ns =>
    ns.mode == mode &&
      ((bead.namedIdentity ≠ "" && ns.identity == bead.namedIdentity) ||
        (bead.namedIdentity == "" && bead.configuredNamedSession && ns.runtimeName ≠ "" &&
          ns.runtimeName == bead.sessionName &&
          (ns.template == "" || ns.template == bead.template)))

def isOnDemandSession (named : List AwakeNamedSession) (bead : AwakeSessionBead) : Bool :=
  namedSessionMatches named bead .onDemand

def isAlwaysNamedSession (named : List AwakeNamedSession) (bead : AwakeSessionBead) : Bool :=
  namedSessionMatches named bead .always

def workBeadHasAwakeDemand (bead : AwakeWorkBead) : Bool :=
  match bead.status with
  | .inProgress => true
  | .opened => bead.ready
  | .other _ => false

def sessionAssigneeMatches (named : List AwakeNamedSession) (bead : AwakeSessionBead)
    (assignee : String) : Bool :=
  if assignee = "" then false
  else if assignee = bead.id ∨ assignee = bead.sessionName then true
  else if bead.namedIdentity ≠ "" then decide (assignee = bead.namedIdentity)
  else if bead.configuredNamedSession = false then false
  else named.any fun ns =>
    ns.runtimeName ≠ "" && ns.runtimeName == bead.sessionName &&
      (ns.template == "" || ns.template == bead.template) && assignee == ns.identity

def ownsWork (named : List AwakeNamedSession) (bead : AwakeSessionBead) (wb : AwakeWorkBead) :
    Bool :=
  trimSpace wb.assignee ≠ "" && workBeadHasAwakeDemand wb &&
    sessionAssigneeMatches named bead (trimSpace wb.assignee)

def sessionHasAssignedWork (workBeads : List AwakeWorkBead) (named : List AwakeNamedSession)
    (bead : AwakeSessionBead) : Bool :=
  workBeads.any (ownsWork named bead)

abbrev Write := String × Reason

namespace AwakeInput

variable (input : AwakeInput)

def agentOf (name : String) : Option AwakeAgent :=
  (directory input.agents).lookupAgent name

def isSuspended (name : String) : Bool :=
  (input.agentOf name).any (·.suspended)

def pendingCreates : List Write :=
  (input.sessionBeads.filter (·.pendingCreate)).map fun bead => (bead.sessionName, .pendingCreate)

def wakesExplicitly (bead : AwakeSessionBead) : Bool :=
  bead.explicitWake && bead.state ≠ .closed && !bead.dependencyOnly &&
    ((directory input.agents).byName.get bead.template).any fun agent => !agent.suspended

def explicitWakes : List Write :=
  (input.sessionBeads.filter input.wakesExplicitly).map fun bead =>
    (bead.sessionName, .explicitWake)

def demandReason (ns : AwakeNamedSession) : Option Reason :=
  if input.namedSessionDemand ns.identity then some .namedDemand
  else if input.namedSessionRoutedDemand ns.identity then some .routedDemand
  else if input.namedSessionWorkQ ns.identity then some .workQuery
  else none

def namedWrite (ns : AwakeNamedSession) : List Write :=
  if input.isSuspended ns.identity then []
  else
    let sn := resolveNamedSessionBeadName input.sessionBeads ns
    let bead := findBeadBySessionName input.sessionBeads sn
    match ns.mode with
    | .always =>
      if sn ≠ "" then
        if bead.any fun b => !b.dependencyOnly then [(sn, .namedAlways)] else []
      else [(ns.identity, .namedAlways)]
    | .onDemand =>
      match input.demandReason ns with
      | none => []
      | some reason =>
        if ((directory input.agents).byName.get ns.template).any (·.suspended) then []
        else if sn ≠ "" then
          if bead.any fun b => !b.dependencyOnly && !b.drained && b.state ≠ .closed then
            [(sn, reason)]
          else []
        else [(ns.identity, reason)]
    | .other _ => []

def namedWrites : List Write :=
  input.namedSessions.flatMap input.namedWrite

def isPoolBead (template : String) (b : AwakeSessionBead) : Bool :=
  b.template == template && b.namedIdentity == "" && !b.configuredNamedSession &&
    !b.manualSession && !b.drained && !b.dependencyOnly

def collectActiveBeads (template : String) : List AwakeSessionBead :=
  input.sessionBeads.filter fun b => isPoolBead template b && b.state == .active

def collectCreatingBeads (template : String) : List AwakeSessionBead :=
  input.sessionBeads.filter fun b =>
    isPoolBead template b && (b.state == .startPending || b.state == .creating)

def hasAssignedWork (bead : AwakeSessionBead) : Bool :=
  sessionHasAssignedWork input.workBeads input.namedSessions bead

def countAssignedScaleSlots (template : String) : ℤ :=
  (input.sessionBeads.countP fun b =>
    b.template == template && b.state ≠ .closed && b.namedIdentity == "" &&
      !b.configuredNamedSession && !b.manualSession && input.hasAssignedWork b : ℕ)

/-- Fill slots with beads that have no assigned work; the result has the number of filled ones. -/
def fill (reason : Reason) (count : ℤ) : ℤ → List AwakeSessionBead → List Write × ℤ
  | filled, [] => ([], filled)
  | filled, bead :: beads =>
    if count ≤ filled then ([], filled)
    else if input.hasAssignedWork bead then fill reason count filled beads
    else
      let r := fill reason count (filled + 1) beads
      ((bead.sessionName, reason) :: r.1, r.2)

def scaledWrite (entry : String × ℤ) : List Write :=
  let (template, count) := entry
  if count ≤ 0 then []
  else if (input.agentOf template).all (·.suspended) then []
  else
    let active := input.fill .scaledDemand count (input.countAssignedScaleSlots template)
      (input.collectActiveBeads template)
    active.1 ++ (input.fill .scaledCreating count active.2
      (input.collectCreatingBeads template)).1

def scaledWrites : List Write :=
  input.scaleCheckCounts.flatMap input.scaledWrite

/-- Pending work wakes one session of a template without scaled demand. -/
def workSetWrite (entry : String × Bool) : List Write :=
  let (template, hasWork) := entry
  if hasWork = false then []
  else if input.scaleCheckCounts.any fun e => e.1 == template && decide (0 < e.2) then []
  else if (input.agentOf template).all (·.suspended) then []
  else if isNamedSessionTemplate input.namedSessions template then []
  else
    match input.collectActiveBeads template with
    | bead :: _ => [(bead.sessionName, .workQuery)]
    | [] =>
      match input.collectCreatingBeads template with
      | bead :: _ => [(bead.sessionName, .workQuery)]
      | [] => []

def workSetWrites : List Write :=
  input.workSet.flatMap input.workSetWrite

def manualWrites : List Write :=
  (input.sessionBeads.filter fun bead =>
    bead.manualSession && bead.state ≠ .closed && !bead.drained &&
      ((directory input.agents).byName.get bead.template).isSome).map fun bead =>
    (bead.sessionName, .manual)

/-- The work bead that anchors a session: the recorded one if it is still owned, else the first
owned one with an id. -/
def anchor (bead : AwakeSessionBead) : String :=
  let owned := input.workBeads.filter (ownsWork input.namedSessions bead)
  if bead.currentlyProcessingBeadID ≠ "" ∧
      (owned.any fun wb => wb.id == bead.currentlyProcessingBeadID) = true then
    bead.currentlyProcessingBeadID
  else ((owned.map (·.id)).find? (· ≠ "")).getD ""

def isAnchored (bead : AwakeSessionBead) : Bool :=
  bead.state ≠ .closed && !input.isSuspended bead.template && input.hasAssignedWork bead

def assignedWrites : List Write :=
  (input.sessionBeads.filter input.isAnchored).map fun bead => (bead.sessionName, .assignedWork)

def assignedAnchor : Table String String :=
  .ofList ((input.sessionBeads.filter input.isAnchored).map fun bead =>
    (bead.sessionName, input.anchor bead))

def writes : List Write :=
  input.pendingCreates ++ input.explicitWakes ++ input.namedWrites ++ input.scaledWrites ++
    input.workSetWrites ++ input.manualWrites ++ input.assignedWrites

def isMinActivePoolBead (template : String) (b : AwakeSessionBead) : Bool :=
  isPoolBead template b && b.state ≠ .closed

def inWindow (limit : ℤ) : Bool :=
  limit ≠ 0 && decide (input.now < limit)

def minActiveHardBlocked (b : AwakeSessionBead) : Bool :=
  b.waitHold || input.inWindow b.heldUntil || input.inWindow b.quarantinedUntil

def countMinActiveCovered (desired : Table String Reason) (template : String) : ℤ :=
  (input.sessionBeads.countP fun b =>
    isMinActivePoolBead template b && !input.minActiveHardBlocked b &&
      if b.state = .asleep then (desired.get b.sessionName).isSome
      else b.state == .active || b.state == .creating : ℕ)

def cityStopPoolBeads (template : String) : List AwakeSessionBead :=
  (input.sessionBeads.filter fun b =>
    isMinActivePoolBead template b && b.state == .asleep &&
      b.sleepReason == .cityStop).insertionSort fun a b => a.id ≤ b.id

def revive (minimum : ℤ) : ℤ → Table String Reason → List AwakeSessionBead → Table String Reason
  | _, desired, [] => desired
  | covered, desired, bead :: beads =>
    if minimum ≤ covered then desired
    else if (desired.get bead.sessionName).isSome || input.minActiveHardBlocked bead then
      revive minimum covered desired beads
    else revive minimum (covered + 1) (desired.set bead.sessionName .minActive) beads

def minActive (desired : Table String Reason) (agent : AwakeAgent) : Table String Reason :=
  if agent.suspended || decide (agent.minActiveSessions ≤ 0) then desired
  else input.revive agent.minActiveSessions
    (input.countMinActiveCovered desired agent.qualifiedName) desired
    (input.cityStopPoolBeads agent.qualifiedName)

def reset (desired : Table String Reason) (bead : AwakeSessionBead) : Table String Reason :=
  if bead.continuationResetPending = false ∨ bead.restartRequested = true ∨
      bead.waitHold = true then desired
  else
    match desired.get bead.sessionName with
    | some .pendingCreate | some .explicitWake => desired
    | _ => desired.set bead.sessionName .resetPending

def desired : Table String Reason :=
  input.sessionBeads.foldl reset
    (input.agents.foldl input.minActive (Table.ofList input.writes))

end AwakeInput

end GasCity.Awake
