import GasCity.Table.Basic
import GasCity.Text.Trim
import Mathlib.Data.List.Sort

/-! # Desired state of session pools

Assigned work asks for the sessions that own it, and demand for new ones.  Requests are accepted by
priority as long as the caps of their agent, of its rig and of the workspace have room, and then
every agent is filled up to its minimum.
-/

namespace GasCity.Pool

structure Agent where
  dir : String
  name : String
  suspended : Bool
  minActiveSessions : Option ℤ
  maxActiveSessions : Option ℤ
  namepool : Bool

structure Rig where
  name : String
  maxActiveSessions : Option ℤ

def Agent.qualifiedName (a : Agent) : String :=
  if a.dir = "" then a.name else a.dir ++ "/" ++ a.name

/-- A configuration with distinct names of agents and of rigs. -/
structure City where
  agents : List Agent
  rigs : List Rig
  workspaceMax : Option ℤ
  agents_nodup : (agents.map Agent.qualifiedName).Nodup
  rigs_nodup : (rigs.map Rig.name).Nodup
  rigs_named : ∀ rig ∈ rigs, rig.name ≠ ""

namespace Agent

variable (a : Agent)

def effectiveMinActiveSessions : ℕ :=
  match a.minActiveSessions with
  | some m => m.toNat
  | none => 0

def supportsGenericEphemeralSessions : Bool :=
  decide (a.maxActiveSessions ≠ some 0)

def usesCanonicalSingletonPoolIdentity : Bool :=
  !a.namepool && decide (a.maxActiveSessions = some 1)

def resolvedMaxActiveSessions (cfg : City) : Option ℤ :=
  match a.maxActiveSessions with
  | some m => some m
  | none =>
    match (if a.dir ≠ "" then
        cfg.rigs.find? fun rig => rig.name == a.dir && rig.maxActiveSessions.isSome
      else none) with
    | some rig => rig.maxActiveSessions
    | none => cfg.workspaceMax

end Agent

structure SessionInfo where
  id : String
  closed : Bool
  terminalError : Bool
  aliasName : String
  template : String
  configuredNamedSession : Bool
  poolManaged : Bool
  metadataState : String
  sleepReason : String
  pendingCreateClaim : Bool
  createdAt : ℤ
  triggerBeadID : String
  triggerBeadStoreRef : String
  brainParentSID : String

structure WorkBead where
  id : String
  title : String
  status : String
  assignee : String
  routedTo : String
  priority : Option ℤ
  pack : String
  workspace : String
  brainParentSID : String

inductive Tier where
  | resume
  | wakeKnownIdentity
  | new
  deriving DecidableEq

structure SessionRequest where
  template : String
  beadPriority : ℤ
  tier : Tier
  sessionBeadID : String
  workBeadID : String
  workBeadTitle : String
  workPack : String
  workWorkspace : String
  workStoreRef : String
  brainParentSID : String
  floorGuarantee : Bool
  deriving DecidableEq

/-- The template of a session, the names its work is assigned to, the agent a route names, when two
templates are one agent, the configured named sessions, and which sessions an agent spawns. -/
structure Identities where
  normalizedSessionTemplate : SessionInfo → String
  assigneeIdentities : SessionInfo → List String
  normalizeRoute : String → String
  equivalent : String → String → Bool
  isConfiguredNamedSessionIdentity : String → Bool
  isEphemeralSessionForAgent : SessionInfo → Agent → Bool

/-- The work beads behind new demand, with what is known about each of them. -/
structure ScaleCheckDemand where
  workBeadIDs : List String
  title : String → String
  pack : String → String
  workspace : String → String
  storeRef : String → String
  parentSID : String → String

def beadPriority (wb : WorkBead) : ℤ :=
  wb.priority.getD 0

def isResumeLikeTier (tier : Tier) : Bool :=
  decide (tier ≠ .new)

structure Limits where
  workspaceMax : ℤ
  rigMax : Table String ℤ
  agentMax : Table String ℤ
  agentRig : Table String String

def newNestedCapLimits (cfg : City) : Limits where
  workspaceMax := cfg.workspaceMax.getD (-1)
  rigMax := .ofList (cfg.rigs.map fun rig => (rig.name, rig.maxActiveSessions.getD (-1)))
  agentMax := .ofList (cfg.agents.map fun agent =>
    (agent.qualifiedName, (agent.resolvedMaxActiveSessions cfg).getD (-1)))
  agentRig := .ofList (cfg.agents.map fun agent => (agent.qualifiedName, agent.dir))

namespace Limits

variable (limits : Limits)

def agentCap (template : String) : ℤ :=
  limits.agentMax.getD template 0

def rigOf (template : String) : String :=
  limits.agentRig.getD template ""

def rigCap (rig : String) : ℤ :=
  if rig = "" then -1 else limits.rigMax.getD rig (-1)

end Limits

structure Usage where
  agentCount : String → ℕ
  rigCount : String → ℕ
  workspaceCount : ℕ
  seenSessionBead : Finset String
  requests : List SessionRequest

namespace Usage

def empty : Usage := ⟨fun _ => 0, fun _ => 0, 0, ∅, []⟩

variable (u : Usage) (limits : Limits) (req : SessionRequest)

def isDuplicateSessionRequest : Bool :=
  req.sessionBeadID ≠ "" && decide (req.sessionBeadID ∈ u.seenSessionBead)

def reached (cap : ℤ) (count : ℕ) : Bool :=
  decide (0 ≤ cap) && decide (cap ≤ count)

def rejection : Bool :=
  reached (limits.agentCap req.template) (u.agentCount req.template) ||
    reached (limits.rigCap (limits.rigOf req.template))
      (u.rigCount (limits.rigOf req.template)) ||
    reached limits.workspaceMax u.workspaceCount

def canAccept : Bool :=
  !u.isDuplicateSessionRequest req && !u.rejection limits req

def accept : Usage where
  agentCount t := if t = req.template then u.agentCount t + 1 else u.agentCount t
  rigCount r :=
    if r = limits.rigOf req.template ∧ r ≠ "" then u.rigCount r + 1 else u.rigCount r
  workspaceCount := u.workspaceCount + 1
  seenSessionBead :=
    if req.sessionBeadID ≠ "" then insert req.sessionBeadID u.seenSessionBead
    else u.seenSessionBead
  requests := u.requests ++ [req]

def walk (u : Usage) (reqs : List SessionRequest) : Usage :=
  reqs.foldl (fun u req => if u.canAccept limits req then u.accept limits req else u) u

end Usage

/-- The first request goes before the second: a higher priority, or work that has a session
before work that has none. -/
def before (a b : SessionRequest) : Prop :=
  a.beadPriority > b.beadPriority ∨
    a.beadPriority = b.beadPriority ∧ a.tier ≠ b.tier ∧
      isResumeLikeTier a.tier = true ∧ isResumeLikeTier b.tier = false

instance (a b : SessionRequest) : Decidable (before a b) :=
  inferInstanceAs (Decidable (_ ∨ _ ∧ _ ∧ _ ∧ _))

def sortRequests (reqs : List SessionRequest) : List SessionRequest :=
  reqs.insertionSort fun a b => ¬ before b a

def acceptedNestedCapUsage (limits : Limits) (reqs : List SessionRequest) : Usage :=
  Usage.empty.walk limits (sortRequests reqs)

section Resume

variable (cfg : City) (ids : Identities) (infos : List SessionInfo)

def resolvable : List SessionInfo :=
  infos.filter fun sb => !sb.closed && !sb.terminalError

def assigneeToSessionBeadID : Table String String :=
  .ofList ((resolvable infos).flatMap fun sb => (ids.assigneeIdentities sb).map fun id =>
    (id, sb.id))

def sessionBeadTemplate : Table String String :=
  .ofList (((resolvable infos).filter fun sb =>
    trimSpace (ids.normalizedSessionTemplate sb) ≠ "").map fun sb =>
      (sb.id, trimSpace (ids.normalizedSessionTemplate sb)))

def isNamedSessionBead (id : String) : Bool :=
  (resolvable infos).any fun sb => sb.id == id && sb.configuredNamedSession

def isKnownPoolTemplate (assignee : String) : Bool :=
  assignee ≠ "" && cfg.agents.any fun agent =>
    !agent.suspended && agent.supportsGenericEphemeralSessions &&
      ids.equivalent assignee agent.qualifiedName

def requestFor (template : String) (tier : Tier) (sessionBeadID : String) (wb : WorkBead) :
    SessionRequest where
  template := template
  beadPriority := beadPriority wb
  tier := tier
  sessionBeadID := sessionBeadID
  workBeadID := wb.id
  workBeadTitle := trimSpace wb.title
  workPack := trimSpace wb.pack
  workWorkspace := trimSpace wb.workspace
  workStoreRef := ""
  brainParentSID := trimSpace wb.brainParentSID
  floorGuarantee := false

/-- Where the work goes: its route, else the template of the session that owns it. -/
def routeOf (sessionBeadID : String) (wb : WorkBead) : String :=
  let routedTo :=
    if wb.routedTo = "" ∧ sessionBeadID ≠ "" then
      let template := (sessionBeadTemplate ids infos).getD sessionBeadID ""
      if template = "" then
        match cfg.agents with
        | [agent] => agent.qualifiedName
        | _ => ""
      else template
    else wb.routedTo
  ids.normalizeRoute routedTo

/-- The request that a work bead makes of a template, given the templates that are woken. -/
def workRequest (template : String) (woken : List String) (wb : WorkBead) :
    Option SessionRequest :=
  let assignee := trimSpace wb.assignee
  if wb.status ≠ "in_progress" ∧ wb.status ≠ "open" then none
  else if assignee = "" then none
  else
    let sessionBeadID := (assigneeToSessionBeadID ids infos).getD assignee ""
    let routedTo := routeOf cfg ids infos sessionBeadID wb
    let sessionTemplate := trimSpace ((sessionBeadTemplate ids infos).getD sessionBeadID "")
    if sessionBeadID ≠ "" ∧ sessionTemplate ≠ "" ∧ routedTo ≠ "" ∧
        ids.equivalent routedTo sessionTemplate = false then none
    else if routedTo ≠ template then none
    else if sessionBeadID ≠ "" then
      if isNamedSessionBead infos sessionBeadID then none
      else some (requestFor template .resume sessionBeadID wb)
    else if ids.isConfiguredNamedSessionIdentity assignee then none
    else if ids.equivalent assignee template = false ∨
        isKnownPoolTemplate cfg ids assignee = false then none
    else if template ∈ woken then none
    else some (requestFor template .wakeKnownIdentity "" wb)

/-- One template after another over all work; a template is woken once. -/
def gather (template : String) : List String → List WorkBead →
    List SessionRequest × List String
  | woken, [] => ([], woken)
  | woken, wb :: work =>
    match workRequest cfg ids infos template woken wb with
    | none => gather template woken work
    | some req =>
      let woken := if req.tier = .wakeKnownIdentity then template :: woken else woken
      let r := gather template woken work
      (req :: r.1, r.2)

def gatherAgents (work : List WorkBead) : List String → List Agent → List SessionRequest
  | _, [] => []
  | woken, agent :: agents =>
    if agent.suspended || !agent.supportsGenericEphemeralSessions then
      gatherAgents work woken agents
    else
      let r := gather cfg ids infos agent.qualifiedName woken work
      r.1 ++ gatherAgents work r.2 agents

def resumeRequests (work : List WorkBead) : List SessionRequest :=
  gatherAgents cfg ids infos work [] cfg.agents

end Resume

section Demand

variable (cfg : City) (ids : Identities) (infos : List SessionInfo)

def isDrainedSession (sb : SessionInfo) : Bool :=
  trimSpace sb.metadataState == "drained" ||
    (trimSpace sb.metadataState == "asleep" && trimSpace sb.sleepReason == "drained")

def isFailedCreateSession (sb : SessionInfo) : Bool :=
  trimSpace sb.metadataState == "failed-create"

/-- Another session holds the alias of an agent with a single canonical session. -/
def aliasHeld (agent : Agent) : Bool :=
  !agent.suspended && agent.usesCanonicalSingletonPoolIdentity && infos.any fun sb =>
    !(sb.closed || sb.poolManaged || isDrainedSession sb || isFailedCreateSession sb) &&
      (trimSpace sb.aliasName == agent.qualifiedName ||
        (sb.configuredNamedSession && trimSpace sb.template == agent.qualifiedName))

def poolSessionConsumesNewDemand (sb : SessionInfo) : Bool :=
  sb.pendingCreateClaim || trimSpace sb.metadataState == "creating" ||
    trimSpace sb.metadataState == "start-pending"

def sortInfos : List SessionInfo :=
  infos.insertionSort fun a b => a.createdAt < b.createdAt ∨ a.createdAt = b.createdAt ∧ a.id ≤ b.id

def inFlightRequest (template : String) (sb : SessionInfo) : SessionRequest where
  template := template
  beadPriority := 0
  tier := .new
  sessionBeadID := sb.id
  workBeadID := trimSpace sb.triggerBeadID
  workBeadTitle := ""
  workPack := ""
  workWorkspace := ""
  workStoreRef := trimSpace sb.triggerBeadStoreRef
  brainParentSID := trimSpace sb.brainParentSID
  floorGuarantee := false

def isInFlight (resumed : List String) (agent : Agent) (sb : SessionInfo) : Bool :=
  sb.id ≠ "" && !sb.closed && !sb.terminalError && decide (sb.id ∉ resumed) &&
    ids.isEphemeralSessionForAgent sb agent && sb.poolManaged &&
    ids.normalizedSessionTemplate sb == agent.qualifiedName && poolSessionConsumesNewDemand sb

def poolInFlightNewRequests (resumed : List String) (agent : Agent) : List SessionRequest :=
  if agent.suspended || !agent.supportsGenericEphemeralSessions then []
  else ((sortInfos infos).filter (isInFlight ids resumed agent)).map
    (inFlightRequest agent.qualifiedName)

def room (cap : ℤ) (count : ℕ) (remaining : ℤ) : ℤ :=
  if 0 ≤ cap then min remaining (cap - count) else remaining

def capNewDemandCount (limits : Limits) (u : Usage) (template : String) (demand : ℤ) : ℕ :=
  if demand ≤ 0 then 0
  else
    let rig := limits.rigOf template
    (room limits.workspaceMax u.workspaceCount
      (room (limits.rigCap rig) (u.rigCount rig)
        (room (limits.agentCap template) (u.agentCount template) demand))).toNat

/-- A request without a session, for the work bead at a position of the demand. -/
def anonymousRequest (template : String) (demand : Option ScaleCheckDemand) (j : ℕ) :
    SessionRequest :=
  let bead := demand.bind fun d => d.workBeadIDs[j]?.map fun id => (d, trimSpace id)
  let field (f : ScaleCheckDemand → String → String) : String :=
    match bead with
    | some (d, id) => trimSpace (f d id)
    | none => ""
  { template := template
    beadPriority := 0
    tier := .new
    sessionBeadID := ""
    workBeadID := (bead.map (·.2)).getD ""
    workBeadTitle := field (·.title)
    workPack := field (·.pack)
    workWorkspace := field (·.workspace)
    workStoreRef := field (·.storeRef)
    brainParentSID := field (·.parentSID)
    floorGuarantee := false }

/-- The requests for the demand of one agent: sessions in flight, then anonymous ones. -/
def newRequests (limits : Limits) (resumed : List String) (counts : String → Option ℤ)
    (demand : String → Option ScaleCheckDemand) (u : Usage) (agent : Agent) :
    List SessionRequest :=
  if agent.suspended || aliasHeld infos agent then []
  else
    match counts agent.qualifiedName with
    | none => []
    | some count =>
      let newCount := capNewDemandCount limits u agent.qualifiedName count
      let inFlight := (poolInFlightNewRequests ids infos resumed agent).take newCount
      inFlight ++ (List.range' inFlight.length (newCount - inFlight.length)).map
        (anonymousRequest agent.qualifiedName (demand agent.qualifiedName))

/-- The requests for the demand of all agents, each within the caps that are left. -/
def mergeDemand (limits : Limits) (resumed : List String) (counts : String → Option ℤ)
    (demand : String → Option ScaleCheckDemand) : Usage → List Agent → List SessionRequest
  | _, [] => []
  | u, agent :: agents =>
    let new := newRequests ids infos limits resumed counts demand u agent
    new ++ mergeDemand limits resumed counts demand
      (new.foldl (fun u req => u.accept limits req) u) agents

end Demand

section Final

variable (cfg : City) (ids : Identities) (infos : List SessionInfo)

def floorRequest (template : String) : SessionRequest :=
  ⟨template, 0, .new, "", "", "", "", "", "", "", true⟩

def fillFloor (limits : Limits) (template : String) : ℕ → Usage → Usage
  | 0, u => u
  | n + 1, u =>
    if u.rejection limits (floorRequest template) then u
    else fillFloor limits template n (u.accept limits (floorRequest template))

def fillMinimum (limits : Limits) (u : Usage) (agent : Agent) : Usage :=
  if agent.suspended || aliasHeld infos agent then u
  else fillFloor limits agent.qualifiedName
    (agent.effectiveMinActiveSessions - u.agentCount agent.qualifiedName) u

structure PoolDesiredState where
  template : String
  requests : List SessionRequest

/-- The accepted requests by template, in the order of the templates. -/
def grouped (accepted : List SessionRequest) : List PoolDesiredState :=
  ((accepted.map (·.template)).dedup.insertionSort (· ≤ ·)).map fun template =>
    ⟨template, accepted.filter fun req => req.template == template⟩

def finalUsage (reqs : List SessionRequest) : Usage :=
  let limits := newNestedCapLimits cfg
  cfg.agents.foldl (fillMinimum infos limits) (Usage.empty.walk limits (sortRequests reqs))

def applyNestedCaps (reqs : List SessionRequest) : List PoolDesiredState :=
  grouped (finalUsage cfg infos reqs).requests

/-- The requests for new sessions that are admissible next to the resumed ones. -/
def demandRequests (work : List WorkBead) (counts : String → Option ℤ)
    (demand : String → Option ScaleCheckDemand) : List SessionRequest :=
  let limits := newNestedCapLimits cfg
  let resume := resumeRequests cfg ids infos work
  let resumed := (resume.map (·.sessionBeadID)).filter (· ≠ "")
  mergeDemand ids infos limits resumed counts demand (acceptedNestedCapUsage limits resume)
    cfg.agents

def computePoolDesiredStates (work : List WorkBead) (counts : String → Option ℤ)
    (demand : String → Option ScaleCheckDemand) : List PoolDesiredState :=
  applyNestedCaps cfg infos
    (resumeRequests cfg ids infos work ++ demandRequests cfg ids infos work counts demand)

end Final

end GasCity.Pool
