import GasCity.Caching.Merge

/-! # Writing through the cache

A write-through call commits in the backing store, reads the row back without
the cache lock and then publishes under it.  This module has the short-circuit
checks made before a call and the lock sections at its end.
-/

namespace GasCity

/-- The answer of a backing `Get`. -/
inductive Fetched where
  | row (b : Bead)
  | notFound
  | failed
  deriving DecidableEq

/-- Keep the first occurrence of every label that is not to be removed. -/
def dedupLabels (remove : List String) (labels : List String) : List String :=
  labels.foldl
    (fun kept label => if label ∈ remove ∨ label ∈ kept then kept else kept ++ [label]) []

def applyUpdateOptsToBead (b : Bead) (opts : UpdateOpts) : Bead :=
  { b with
    title := opts.title.getD b.title
    status := opts.status.getD b.status
    type := opts.type.getD b.type
    priority := opts.priority.or b.priority
    description := opts.description.getD b.description
    parentID := opts.parentID.getD b.parentID
    assignee := opts.assignee.getD b.assignee
    metadata := b.metadata.merge opts.metadata
    labels :=
      if opts.labels.isEmpty && opts.removeLabels.isEmpty then b.labels
      else dedupLabels opts.removeLabels (b.labels ++ opts.labels) }

def metadataMatches (b : Bead) (kvs : StringMap) : Bool :=
  decide (∀ k ∈ kvs.keys, StringMap.val b.metadata k = StringMap.val kvs k)

/-- Whether every field of an update already has its value in a row. -/
def updateMatches (b : Bead) (opts : UpdateOpts) : Bool :=
  opts.title.all (· == b.title) && opts.status.all (· == b.status) &&
    opts.type.all (· == b.type) && opts.priority.all (b.priority == some ·) &&
    opts.description.all (· == b.description) && opts.parentID.all (· == b.parentID) &&
    opts.assignee.all (· == b.assignee) && metadataMatches b opts.metadata &&
    opts.labels.all (fun l => decide (l ∈ b.labels)) &&
    opts.removeLabels.all fun l => decide (l ∉ b.labels)

namespace Cache

def matchesCached (c : Cache) (id : String) (p : Bead → Bool) : Bool :=
  id != "" && c.liveOrPartial && !c.isDirty id && (c.bead id).any p

def updateMatchesCached (c : Cache) (id : String) (opts : UpdateOpts) : Bool :=
  c.matchesCached id (updateMatches · opts)

def closeAlreadyMatchesCached (c : Cache) (id : String) : Bool :=
  c.matchesCached id (·.status == "closed")

def metadataAlreadyMatchesCached (c : Cache) (id : String) (kvs : StringMap) : Bool :=
  c.matchesCached id (metadataMatches · kvs)

def publishCreate (c : Cache) (id : String) (created : Bead) (now : Time) : Cache :=
  (c.noteLocalMutation [id] now).absorbFresh id created now ⟨.depsFromFields, .seqKeep, true⟩

/-- Clear the projections of the dependents when a status was written. -/
def clearIfStatus (c : Cache) (id : String) (opts : UpdateOpts) : Cache :=
  if opts.status.isSome then c.clearDependentReadyProjections id else c

def publishUpdate (c : Cache) (id : String) (opts : UpdateOpts) (fetched : Fetched) (now : Time) :
    Cache :=
  let c := c.noteLocalMutation [id] now
  match fetched with
  | .notFound => (c.tombstone id c.mutationSeq).clearDependentReadyProjections id
  | .failed =>
    match c.bead id with
    | some current =>
      ((c.absorbFresh id (applyUpdateOptsToBead current opts) now
        ⟨.depsFromFields, .seqKeep, false⟩).clearIfStatus id opts).markDirty id
    | none => c.markDirty id
  | .row fresh =>
    (c.absorbFresh id (applyUpdateOptsToBead fresh opts) now
      ⟨.depsFromFields, .seqKeep, true⟩).clearIfStatus id opts

def publishRelease (c : Cache) (id : String) (fetched : Fetched) (now : Time) : Cache :=
  let c := c.noteLocalMutation [id] now
  let c :=
    match fetched, c.bead id with
    | .row fresh, _ => c.absorbFresh id fresh now ⟨.depsFromFields, .seqKeep, true⟩
    | _, some b =>
      (c.absorbFresh id { b with status := "open", assignee := "", updatedAt := now } now
        ⟨.depsKeepCached, .seqKeep, false⟩).markDirty id
    | _, none => c.markDirty id
  c.clearDependentReadyProjections id

/-- `Close` and `Reopen`: the status is forced onto the row that was read back, or onto the cached
row when there was none. -/
def publishStatus (c : Cache) (id status : String) (fetched : Fetched) (now : Time) : Cache :=
  let c := c.noteLocalMutation [id] now
  let c :=
    match fetched, c.bead id with
    | .row fresh, _ =>
      c.absorbFresh id { fresh with status } now ⟨.depsKeepCached, .seqKeep, true⟩
    | _, some b => c.absorbFresh id { b with status } now ⟨.depsKeepCached, .seqKeep, true⟩
    | _, none => c
  c.clearDependentReadyProjections id

def publishMetadata (c : Cache) (id : String) (kvs : StringMap) (fetched : Fetched) (now : Time) :
    Cache :=
  let c := c.noteLocalMutation [id] now
  match fetched, c.bead id with
  | .row fresh, _ => c.absorbFresh id fresh now ⟨.depsFromFields, .seqKeep, true⟩
  | _, some b =>
    c.absorbFresh id { b with metadata := b.metadata.merge kvs } now
      ⟨.depsKeepCached, .seqKeep, true⟩
  | _, none => c.markDirty id

/-- A batch whose outcome is unknown fences the row until a read installs backing truth. -/
def publishMetadataBatchFailed (c : Cache) (id : String) : Cache :=
  (c.noteMutation [id]).markDirty id

/-- The row and dependency list after a refresh with dependencies; a failed dependency read falls
back to the fields of the row. -/
def refreshedWithDeps (b : Bead) (deps : Option (List Dep)) : Bead × List Dep :=
  match deps with
  | some deps => ({ b with dependencies := deps, needs := [] }, deps)
  | none => ({ b with dependencies := depsFromBeadFields b }, depsFromBeadFields b)

/-- Change the type of the first dependency on a target, or append one. -/
def addCachedDep (issueID dependsOnID depType : String) : List Dep → List Dep
  | [] => [{ issueID, dependsOnID, type := depType }]
  | d :: ds =>
    if d.dependsOnID = dependsOnID then { d with type := depType } :: ds
    else d :: addCachedDep issueID dependsOnID depType ds

/-- `DepAdd` and `DepRemove` after a successful refresh. -/
def publishDepRefreshed (c : Cache) (id : String) (b : Bead) (deps : List Dep) (now : Time) :
    Cache :=
  ((c.noteLocalMutation [id] now).absorbFresh id b now
    ⟨.depsExplicit deps, .seqKeep, true⟩).clearReadyProjection id

def publishDepAddUnrefreshed (c : Cache) (id dependsOnID depType : String) (now : Time) : Cache :=
  let c := c.noteLocalMutation [id] now
  if !c.depsComplete && (c.entry id).deps.isNone then c.clearStalenessMarks id
  else
    c.modify id fun e =>
      { e with
        deps := some (addCachedDep id dependsOnID depType (e.deps.getD []))
        }.clearReadyProjection.clearStalenessMarks

/-- Unlike its sibling, the removal clears the staleness marks only when it removed something. -/
def publishDepRemoveUnrefreshed (c : Cache) (id dependsOnID : String) (now : Time) : Cache :=
  let c := c.noteLocalMutation [id] now
  if !c.depsComplete && (c.entry id).deps.isNone then c.clearStalenessMarks id
  else if ((c.entry id).deps.getD []).any (·.dependsOnID == dependsOnID) then
    c.modify id fun e =>
      { e with
        deps := e.deps.map (List.eraseP fun d => d.dependsOnID == dependsOnID)
        }.clearReadyProjection.clearStalenessMarks
  else c

def publishDelete (c : Cache) (id : String) (now : Time) : Cache :=
  let c := c.noteLocalMutation [id] now
  (c.tombstone id c.mutationSeq).clearDependentReadyProjections id

/-- Drop the row and leave the dirty mark that routes the next read to the backing store. -/
def evictForConditionalWrite (c : Cache) (id : String) (now : Time) : Cache :=
  ((c.noteLocalMutation [id] now).modify id fun e =>
    { e with bead := none, deps := none, dirty := true }).clearDependentReadyProjections id

/-- A conditional write that failed without proving anything about the row. -/
def markConditionalWriteUnknown (c : Cache) (id : String) (now : Time) : Cache :=
  (c.noteLocalMutation [id] now).markDirty id

/-- Note the ids of a call on several beads, then publish them one after the other. -/
def publishRows (c : Cache) (ids : List String) (now : Time) (row : Cache → String → Cache) :
    Cache :=
  ids.foldl row (c.noteLocalMutation ids now)

/-- One bead of `CloseAll`. -/
def closeAllRow (fetched : String → Fetched) (now : Time) (c : Cache) (id : String) : Cache :=
  match fetched id with
  | .row b =>
    if b.status = "closed" then
      (c.absorbFresh id b now ⟨.depsDrop, .seqKeep, true⟩).clearDependentReadyProjections id
    else c.absorbFresh id b now ⟨.depsKeepCached, .seqKeep, true⟩
  | _ => c.markDirty id

/-- One bead touched by a transaction; `closed` are the ids the transaction closed. -/
def txRow (closed : List String) (fetched : String → Fetched) (now : Time) (c : Cache)
    (id : String) : Cache :=
  match fetched id with
  | .row fresh =>
    let statusChanged := decide (id ∈ closed) || fresh.status == "closed" ||
      (c.bead id).any (·.status != fresh.status)
    let c := c.absorbFresh id fresh now ⟨.depsFromFields, .seqKeep, true⟩
    if statusChanged then c.clearDependentReadyProjections id else c
  | _ =>
    if id ∈ closed then
      match c.bead id with
      | some b =>
        (c.absorbFresh id { b with status := "closed" } now
          ⟨.depsKeepCached, .seqKeep, true⟩).clearDependentReadyProjections id
      | none => c
    else c.markDirty id

def graphApplyRow (fetched : String → Fetched) (deps : String → Option (List Dep)) (now : Time)
    (c : Cache) (id : String) : Cache :=
  match fetched id with
  | .row fresh =>
    let refreshed := refreshedWithDeps fresh (deps id)
    c.absorbFresh id refreshed.1 now ⟨.depsExplicit refreshed.2, .seqKeep, true⟩
  | _ => c.markDirty id

def dropIncomingEdgesToDeleted (c : Cache) (deleted : List String) : Cache :=
  c.modifyAll (c.entries.keys.filter fun id =>
      id ∉ deleted ∧ ((c.entry id).deps.getD []).any fun d => decide (d.dependsOnID ∈ deleted))
    fun _ e =>
      { e with
        deps := (e.deps.map (List.filter fun d : Dep => decide (d.dependsOnID ∉ deleted))).filter
          (!·.isEmpty) }.clearReadyProjection

def evictBatchDeleted (c : Cache) (deleted : List String) (now : Time) : Cache :=
  (deleted.foldl (fun c id => c.publishDelete id now) c).dropIncomingEdgesToDeleted deleted

end Cache

end GasCity
