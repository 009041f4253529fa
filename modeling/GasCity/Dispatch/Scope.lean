import GasCity.Dispatch.Store
import Mathlib.Data.List.Sort

/-! # Scopes

How the dispatcher settles a scope: `processScopeCheck` for the paired controls,
`reconcileTerminalScopedMember` for members that are controls themselves, and the
two shared sequences `closeScopeAsPassed` and `abortScope`.
-/

namespace GasCity.Dispatch

def matchesScopeRef (b : Bead) (scopeRef : String) : Bool :=
  scopeRef != "" && (b.scopeRef == scopeRef || b.val .stepRef == scopeRef ||
    hasSuffix (b.val .stepRef) ("." ++ scopeRef))

def resolveScopeBodyByRole (s : Store) (scopeRef : String) (includeClosed : Bool) : Option Bead :=
  s.beads.find? fun b => b.kind == Kind.scope && b.scopeRole == ScopeRole.body &&
    (includeClosed || b.status != .closed) && matchesScopeRef b scopeRef

def findScopeBody (s : Store) (scopeRef : String) : Option Bead :=
  s.beads.find? fun b => b.kind == Kind.scope && matchesScopeRef b scopeRef

/-- The body of a scope: an open one before a closed one, and one with the role before one
without. -/
def resolveScopeBody (s : Store) (scopeRef : String) : Option Bead :=
  (resolveScopeBodyByRole s scopeRef false).or
    ((resolveScopeBodyByRole s scopeRef true).or (findScopeBody s scopeRef))

def scopeMembers (s : Store) (scopeRef : String) : List Bead :=
  s.beads.filter fun b => b.scopeRef = scopeRef

/-- Bodies and teardown steps do not hold up the completion of a scope. -/
def holdsScope (b : Bead) : Bool :=
  b.scopeRole != ScopeRole.body && b.scopeRole != ScopeRole.teardown

def hasOpenScopeMembers (s : Store) (scopeRef : String) (ignoreIDs : List String) : Bool :=
  (scopeMembers s scopeRef).any fun m => m.status = .opened && !ignoreIDs.contains m.id &&
    m.kind != Kind.spec && holdsScope m

/-- The key lies outside the `gc.` namespace. -/
def isNonGCKey : MetaKey → Bool
  | .other key => key != ""
  | _ => false

def nonGCMetadata (m : Metadata) : Metadata :=
  .ofKeys (m.keys.filter fun k => isNonGCKey k) m.get

def contributes (b : Bead) : Bool :=
  holdsScope b && b.scopeRole != ScopeRole.control

def scopeMemberMetadata (members : List Bead) : Metadata :=
  (members.filter fun m => m.status = .closed && contributes m).foldl
    (fun batch m => batch.merge (nonGCMetadata m.metadata)) ∅

/-- The output of a scope: the subject's, or the one that its members agree on. -/
def resolveScopeOutputJSON (members : List Bead) (subject : Bead) : String :=
  if subject.val .outputJSON ≠ "" then subject.val .outputJSON
  else
    match (members.filter fun m => m.val .outputJSON != "" && contributes m).map
        (·.val .outputJSON) with
    | [] => ""
    | output :: outputs => if outputs.all (· = output) then output else ""

def writeOutputJSON (s : Store) (id output : String) : Store :=
  if output = "" then s else s.setMetadataBatch id (.ofList [(.outputJSON, output)])

def closeScopeAsPassed (s : Store) (scopeRef : String) (body subject : Bead) : Store :=
  let members := scopeMembers s scopeRef
  let s := s.setMetadataBatch body.id (scopeMemberMetadata members)
  let s := writeOutputJSON s body.id (resolveScopeOutputJSON members subject)
  if body.status = .closed then s else s.setOutcomeAndClose body.id Outcome.pass

def attemptInfixes : List String := [".run.", ".eval.", ".check.", ".iteration.", ".attempt."]

/-- The candidate belongs to an attempt or iteration of the control. -/
def isLogicalDescendant (logical candidate : Bead) : Bool :=
  let logicalRef := trimSpace (logical.val .stepRef)
  let candidateRef := trimSpace (candidate.val .stepRef)
  let logicalStepID := trimSpace (logical.val .stepID)
  logical.id != "" && candidate.id != "" && logical.id != candidate.id &&
    (candidate.val .logicalBeadID == logical.id ||
      attemptInfixes.any (fun sep => hasPrefix candidate.id (logical.id ++ sep)) ||
      logicalRef != "" &&
        (attemptInfixes.any (fun sep => hasPrefix candidateRef (logicalRef ++ sep)) ||
          logicalStepID != "" && trimSpace (candidate.val .ralphStepID) == logicalStepID))

/-- Open members of the scope, and open descendants of its retry and check controls. -/
def pendingSkip (s : Store) (scopeRef skipControlID : String) : List Bead :=
  s.beads.filter fun b => b.status = .opened &&
    (b.scopeRef == scopeRef && b.id != skipControlID && b.kind != Kind.spec && holdsScope b ||
      (scopeMembers s scopeRef).any fun m => holdsScope m &&
        [Kind.retry, Kind.ralph].contains (trimSpace m.kind) && isLogicalDescendant m b)

def preserveScopeCheckForSubject (s : Store) (candidate : Bead) (subjectID : String) : Bool :=
  subjectID != "" && candidate.kind == Kind.scopeCheck &&
    candidate.scopeRole == ScopeRole.control && (s.downDeps candidate.id).contains subjectID

def canSkipScopeMemberWithDeps (s : Store) (pending : List String) (id : String) : Bool :=
  (s.downDeps id).all fun dep => !pending.contains dep

def scopeAbortSkippedCloseReason : String :=
  "scope member skipped: an earlier member of the same scope failed"

def skipBead (b : Bead) : Bead :=
  closeWith (.ofList [(.outcome, Outcome.skipped),
    (.other "close_reason", scopeAbortSkippedCloseReason)]) b

def skipScopeMembers (s : Store) (ids : List String) : Store :=
  { s with beads := s.beads.map fun b => if b.id ∈ ids then skipBead b else b }

/-- One round over the pending beads: the scope check of the subject is dropped where it stands, and
what no bead that is still pending blocks can be skipped. -/
def skipRound (s : Store) (skipControlID : String) :
    List Bead → List Bead → List Bead × List String
  | [], pending => (pending, [])
  | b :: bs, pending =>
    if preserveScopeCheckForSubject s b skipControlID then
      skipRound s skipControlID bs (pending.filter fun p => p.id != b.id)
    else
      let round := skipRound s skipControlID bs pending
      if canSkipScopeMemberWithDeps s (pending.map Bead.id) b.id then
        (round.1, b.id :: round.2)
      else round

/-- Skip in rounds.  The flag is false when the remaining members cannot be skipped; what earlier
rounds skipped stays skipped. -/
def skipRounds (skipControlID : String) : Nat → List Bead → Store → Store × Bool
  | 0, pending, s => (s, pending.isEmpty)
  | fuel + 1, pending, s =>
    let round := skipRound s skipControlID pending pending
    if round.2 = [] then (s, round.1.isEmpty)
    else
      skipRounds skipControlID fuel (round.1.filter fun b => b.id ∉ round.2)
        (skipScopeMembers s round.2)

def sortedPending (s : Store) (scopeRef skipControlID : String) : List Bead :=
  (pendingSkip s scopeRef skipControlID).insertionSort fun a b => a.id ≤ b.id

def skipOpenScopeMembers (s : Store) (scopeRef skipControlID : String) : Store × Bool :=
  let pending := sortedPending s scopeRef skipControlID
  skipRounds skipControlID pending.length pending s

/-- Skip the open members, and fail the body unless that ended in an error. -/
def abortScope (s : Store) (scopeRef : String) (body : Bead) (skipControlID : String) :
    Store × Bool :=
  let skipped := skipOpenScopeMembers s scopeRef skipControlID
  if skipped.2 then
    (skipped.1.setMetadataBatch body.id (scopeMemberMetadata (scopeMembers s scopeRef))
      |>.setOutcomeAndClose body.id Outcome.fail, true)
  else (skipped.1, false)

/-- Complete the scope check, and the scope when no other member is open. -/
def completeScopeCheck (s : Store) (control body subject : Bead) : Store :=
  let s := if hasOpenScopeMembers s control.scopeRef [control.id] then s
    else closeScopeAsPassed s control.scopeRef body subject
  s.setOutcomeAndClose control.id Outcome.pass

/-- A scope check with a closed subject; nothing happens while the subject is not closed.  The check
stays open when the abort ends in an error. -/
def processScopeCheck (s : Store) (control : Bead) : Option Store := do
  let subjectID ← (s.downDeps control.id).head?
  let subject ← s.get subjectID
  let body ← resolveScopeBody s control.scopeRef
  if subject.status ≠ .closed then none
  else if !isRetryAttemptSubject subject && beadOutcomeFailed subject then
    let aborted := abortScope s control.scopeRef body control.id
    some (if aborted.2 then aborted.1.setOutcomeAndClose control.id Outcome.pass else aborted.1)
  else some (completeScopeCheck s control body subject)

/-- A member that is a control and has just closed.  An error leaves what was done so far. -/
def reconcileTerminalScopedMember (s : Store) (b : Bead) : Store :=
  if b.scopeRef = "" then s
  else
    match resolveScopeBody s b.scopeRef with
    | none => s
    | some body =>
      if beadOutcomeFailed b then (abortScope s b.scopeRef body b.id).1
      else if hasOpenScopeMembers s b.scopeRef [] || body.status = .closed then s
      else closeScopeAsPassed s b.scopeRef body b

end GasCity.Dispatch
