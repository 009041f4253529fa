import GasCity.Keyed.List
import GasCity.Beads.Ready

/-! # The in-memory store

`MemStore` with all its mutators.  Clock readings are arguments of the
operations that stamp a bead; `CloseAll` reads the clock once for every bead it
closes, so it takes one reading per id.
-/

namespace GasCity

/-- The in-memory store behind `FileStore` and the tests. -/
structure MemStore where
  beads : List Bead := []
  deps : List Dep := []
  seq : Nat := 0
  disableConditionalWrites : Bool := false
  localStrings : Table String StringMap := ∅
  deriving DecidableEq

/-- `fmt.Sprintf("gc-%d", n)`. -/
def beadID (n : Nat) : String := "gc-" ++ n.repr

/-- Split a `needs` entry into its dependency type and target. -/
def parseNeed (need : String) : String × String :=
  let type := String.ofList (need.toList.takeWhile (· != ':'))
  let rest := String.ofList (need.toList.dropWhile (· != ':')).tail
  if type != "" && rest != "" then (type, rest) else ("blocks", need)

def isOwnershipTransition (oldStatus oldAssignee : String) (opts : UpdateOpts) : Bool :=
  opts.assignee.any (· != oldAssignee) ||
    opts.status.any fun s => s != "" && oldStatus == "closed" && s != "closed"

/-- The bead after the non-nil fields of `opts` have been applied. -/
def applyUpdateLocked (b : Bead) (opts : UpdateOpts) (now : Time) : Bead :=
  { b with
    title := opts.title.getD b.title
    status := opts.status.getD b.status
    description := opts.description.getD b.description
    priority := opts.priority.or b.priority
    parentID := opts.parentID.getD b.parentID
    assignee := opts.assignee.getD b.assignee
    type := opts.type.getD b.type
    metadata := b.metadata.merge opts.metadata
    labels := (b.labels ++ opts.labels).filter fun l => decide (l ∉ opts.removeLabels)
    updatedAt := now
    revision := b.revision + 1
    claimFence := if isOwnershipTransition b.status b.assignee opts then b.claimFence + 1
      else b.claimFence }

def closeBead (b : Bead) (now : Time) : Bead :=
  { b with status := "closed", updatedAt := now, revision := b.revision + 1 }

/-- Set the status to open; only a closed bead starts a new ownership generation. -/
def reopenBead (b : Bead) (now : Time) : Bead :=
  { b with
    status := "open"
    updatedAt := now
    revision := b.revision + 1
    claimFence := if b.status = "closed" then b.claimFence + 1 else b.claimFence }

def releaseBead (b : Bead) (now : Time) : Bead :=
  { b with
    status := "open"
    assignee := ""
    updatedAt := now
    revision := b.revision + 1
    claimFence := b.claimFence + 1 }

def setMetadataBead (b : Bead) (kvs : StringMap) (now : Time) : Bead :=
  { b with metadata := b.metadata.merge kvs, updatedAt := now, revision := b.revision + 1 }

namespace MemStore

def find (m : MemStore) (id : String) : Option Bead := Keyed.lookup Bead.id id m.beads

def modify (m : MemStore) (id : String) (f : Bead → Bead) : MemStore :=
  { m with beads := Keyed.modify Bead.id id f m.beads }

def remove (m : MemStore) (id : String) : MemStore :=
  { m with beads := Keyed.remove Bead.id id m.beads }

def get (m : MemStore) (id : String) : Except Err Bead :=
  match m.find id with
  | some b => .ok b
  | none => .error (.notFound "getting bead" id)

/-- The bead `Create` stores under the next id. -/
def newBead (m : MemStore) (b : Bead) (now : Time) : Bead :=
  { b with
    id := beadID (m.seq + 1)
    status := "open"
    type := if b.type = "" then "task" else b.type
    createdAt := now
    updatedAt := now
    revision := 1
    claimFence := 0 }

def create (m : MemStore) (b : Bead) (now : Time) : MemStore × Bead :=
  let stored := m.newBead b now
  ({ m with
      seq := m.seq + 1
      beads := m.beads ++ [stored]
      deps := m.deps ++ stored.needs.map fun need =>
        { issueID := stored.id, dependsOnID := (parseNeed need).2, type := (parseNeed need).1 } },
    stored)

def update (m : MemStore) (id : String) (opts : UpdateOpts) (now : Time) : Except Err MemStore :=
  match m.find id with
  | none => .error (.notFound "updating bead" id)
  | some _ => .ok (m.modify id (applyUpdateLocked · opts now))

def releaseIfCurrent (m : MemStore) (id expectedAssignee : String) (now : Time) :
    MemStore × Bool :=
  match m.find id with
  | none => (m, false)
  | some b =>
    if b.status != "in_progress" || b.assignee != expectedAssignee then (m, false)
    else (m.modify id (releaseBead · now), true)

def close (m : MemStore) (id : String) (now : Time) : Except Err MemStore :=
  match m.find id with
  | none => .error (.notFound "closing bead" id)
  | some b => .ok (if b.status = "closed" then m else m.modify id (closeBead · now))

def reopen (m : MemStore) (id : String) (now : Time) : Except Err MemStore :=
  match m.find id with
  | none => .error (.notFound "reopening bead" id)
  | some b => .ok (if b.status = "open" then m else m.modify id (reopenBead · now))

/-- One bead's part in `CloseAll`. -/
def closeAllBead (ids : List String) (metadata : StringMap) (now : String → Time) (b : Bead) :
    Bead :=
  if b.id ∉ ids ∨ b.status = "closed" then b
  else { closeBead b (now b.id) with metadata := b.metadata.merge metadata }

def closeAll (m : MemStore) (ids : List String) (metadata : StringMap) (now : String → Time) :
    MemStore × Nat :=
  ({ m with beads := m.beads.map (closeAllBead ids metadata now) },
    m.beads.countP fun b => decide (b.id ∈ ids ∧ b.status ≠ "closed"))

def setMetadata (m : MemStore) (id key value : String) (now : Time) : Except Err MemStore :=
  match m.find id with
  | none => .error (.notFound "setting metadata on" id)
  | some _ => .ok (m.modify id (setMetadataBead · ((∅ : StringMap).set key value) now))

def setMetadataBatch (m : MemStore) (id : String) (kvs : StringMap) (now : Time) :
    Except Err MemStore :=
  if StringMap.isEmpty kvs then .ok m
  else
    match m.find id with
    | none => .error (.notFound "setting metadata batch on" id)
    | some _ => .ok (m.modify id (setMetadataBead · kvs now))

def delete (m : MemStore) (id : String) : Except Err MemStore :=
  match m.find id with
  | none => .error (.notFound "deleting bead" id)
  | some _ => .ok { m.remove id with localStrings := m.localStrings.erase id }

def updateIfMatch (m : MemStore) (id : String) (expectedRevision : Int) (opts : UpdateOpts)
    (now : Time) : Except Err MemStore :=
  if isEmptyUpdateOpts opts then .error (.emptyConditionalUpdate id)
  else if m.disableConditionalWrites then .error .conditionalWriteUnsupported
  else
    match m.find id with
    | none => .error (.notFound "updating bead" id)
    | some b =>
      if b.revision ≠ expectedRevision then
        .error (.preconditionFailed id expectedRevision b.revision)
      else .ok (m.modify id (applyUpdateLocked · opts now))

def closeIfMatch (m : MemStore) (id : String) (expectedRevision : Int) (now : Time) :
    Except Err MemStore :=
  if m.disableConditionalWrites then .error .conditionalWriteUnsupported
  else
    match m.find id with
    | none => .error (.notFound "closing bead" id)
    | some b =>
      if b.revision ≠ expectedRevision then
        .error (.preconditionFailed id expectedRevision b.revision)
      else .ok (if b.status = "closed" then m else m.modify id (closeBead · now))

/-- Unlike `delete`, the conditional delete leaves the local strings in place. -/
def deleteIfMatch (m : MemStore) (id : String) (expectedRevision : Int) : Except Err MemStore :=
  if m.disableConditionalWrites then .error .conditionalWriteUnsupported
  else
    match m.find id with
    | none => .error (.notFound "deleting bead" id)
    | some b =>
      if b.revision ≠ expectedRevision then
        .error (.preconditionFailed id expectedRevision b.revision)
      else .ok (m.remove id)

def compareAndSetMetadataKey (m : MemStore) (id key expected next : String) (now : Time) :
    Except Err (MemStore × Bool) :=
  if m.disableConditionalWrites then .error .conditionalWriteUnsupported
  else
    match m.find id with
    | none => .error (.notFound "compare-and-set metadata on" id)
    | some b =>
      if StringMap.val b.metadata key ≠ expected then .ok (m, false)
      else .ok (m.modify id (setMetadataBead · ((∅ : StringMap).set key next) now), true)

def depInsert (issueID dependsOnID depType : String) : List Dep → List Dep
  | [] => [{ issueID, dependsOnID, type := depType }]
  | d :: ds =>
    if d.issueID = issueID ∧ d.dependsOnID = dependsOnID ∧ d.type = depType then d :: ds
    else if d.issueID = issueID ∧ d.dependsOnID = dependsOnID ∧ d.type ≠ "parent-child" ∧
        depType ≠ "parent-child" then { d with type := depType } :: ds
    else d :: depInsert issueID dependsOnID depType ds

def depAdd (m : MemStore) (issueID dependsOnID depType : String) : MemStore :=
  { m with deps := depInsert issueID dependsOnID depType m.deps }

/-- Remove the first dependency between two beads. -/
def depErase (issueID dependsOnID : String) (deps : List Dep) : List Dep :=
  deps.eraseP fun d => d.issueID = issueID ∧ d.dependsOnID = dependsOnID

def depRemove (m : MemStore) (issueID dependsOnID : String) : MemStore :=
  { m with deps := depErase issueID dependsOnID m.deps }

inductive Direction where
  | down
  | up
  deriving DecidableEq

def depList (m : MemStore) (id : String) : Direction → List Dep
  | .up => m.deps.filter fun d => d.dependsOnID = id
  | .down => m.deps.filter fun d => d.issueID = id

def setLocalString (m : MemStore) (id key value : String) : Except Err MemStore :=
  match m.find id with
  | none => .error (.notFound "setting local string on" id)
  | some _ =>
    let strings := m.localStrings.getD id ∅
    if value = "" then
      if (m.localStrings.get id).isSome then
        .ok { m with localStrings := m.localStrings.set id (strings.erase key) }
      else .ok m
    else .ok { m with localStrings := m.localStrings.set id (strings.set key value) }

def getLocalString (m : MemStore) (id key : String) : Except Err String :=
  match m.find id with
  | none => .error (.notFound "getting local string on" id)
  | some _ => .ok (StringMap.val (m.localStrings.getD id ∅) key)

def list (m : MemStore) (q : ListQuery) : Except Err (List Bead) :=
  if !q.hasFilter && !q.allowScan then .error .queryRequiresScan
  else .ok (applyListQuery m.beads q)

def listOpen (m : MemStore) (status : Option String) : Except Err (List Bead) :=
  m.list { allowScan := true, status := status.getD "" }

def children (m : MemStore) (parentID : String) (opts : List QueryOpt) : Except Err (List Bead) :=
  m.list
    { parentID
      includeClosed := hasOpt opts .includeClosed
      sort := .createdAsc
      tierMode := tierModeFromOpts opts }

def listByLabel (m : MemStore) (label : String) (limit : Int) (opts : List QueryOpt) :
    Except Err (List Bead) :=
  m.list
    { label
      limit
      includeClosed := hasOpt opts .includeClosed
      sort := .createdDesc
      tierMode := tierModeFromOpts opts }

def listByAssignee (m : MemStore) (assignee status : String) (limit : Int) :
    Except Err (List Bead) :=
  m.list { assignee, status, limit, sort := .createdDesc }

def listByMetadata (m : MemStore) (filters : StringMap) (limit : Int) (opts : List QueryOpt) :
    Except Err (List Bead) :=
  m.list
    { metadata := filters
      limit
      includeClosed := hasOpt opts .includeClosed
      sort := .createdDesc
      tierMode := tierModeFromOpts opts }

/-- Whether some blocking dependency of a bead has a missing or unsatisfied target. -/
def readyBlocked (m : MemStore) (b : Bead) : Bool :=
  m.deps.any fun dep =>
    dep.issueID == b.id && isReadyBlockingDependencyType dep.type &&
      !((beadByID m.beads).get dep.dependsOnID).any (isReadyBlockingDependencySatisfiedFor b)

/-- All open beads with no open blocking dependencies, in creation order. -/
def ready (m : MemStore) (q : ReadyQuery) (now : Time) : List Bead :=
  applyLimit q.limit <| m.beads.filter fun b =>
    isReadyCandidateForTier b now q.tierMode && (q.assignee == "" || b.assignee == q.assignee) &&
      !m.readyBlocked b

end MemStore

end GasCity
