import GasCity.Caching.Writes

/-! # Applying bead events

`ApplyEvent` reads the entry of the bead, verifies the event against the backing store without the
lock where the entry conflicts with it, and applies it under the lock.  Rows are stored under their
own id, so the id of the event is that of the row.
-/

namespace GasCity

/-- A decoded event: the patch it carries and the payload fields that were present. -/
structure BeadEvent where
  type : EventType
  patch : Bead
  fields : List String
  deriving DecidableEq

def hasCacheEventField (fields : List String) (name : String) : Bool := decide (name ∈ fields)

def cacheEventHasDependencyField (fields : List String) : Bool :=
  hasCacheEventField fields "dependencies" || hasCacheEventField fields "needs"

def cacheEventHasTypeField (fields : List String) : Bool :=
  hasCacheEventField fields "issue_type" || hasCacheEventField fields "type"

def cacheEventLooksComplete (fields : List String) : Bool :=
  hasCacheEventField fields "title" && hasCacheEventField fields "status" &&
    hasCacheEventField fields "created_at" && cacheEventHasTypeField fields

def mergeCacheEventPatch (base patch : Bead) (fields : List String) : Bead :=
  let has := hasCacheEventField fields
  { base with
    title := if has "title" then patch.title else base.title
    status := if has "status" then patch.status else base.status
    type := if cacheEventHasTypeField fields then patch.type else base.type
    priority := if has "priority" then patch.priority else base.priority
    createdAt := if has "created_at" then patch.createdAt else base.createdAt
    assignee := if has "assignee" then patch.assignee else base.assignee
    from_ := if has "from" then patch.from_ else base.from_
    parentID := if has "parent" then patch.parentID else base.parentID
    ref := if has "ref" then patch.ref else base.ref
    needs := if has "needs" then patch.needs else base.needs
    description := if has "description" then patch.description else base.description
    labels := if has "labels" then patch.labels else base.labels
    metadata := if has "metadata" then patch.metadata else base.metadata
    dependencies := if has "dependencies" then patch.dependencies else base.dependencies
    ephemeral := if has "ephemeral" then patch.ephemeral else base.ephemeral
    deferUntil := if has "defer_until" then patch.deferUntil else base.deferUntil
    isBlocked := if has "is_blocked" then patch.isBlocked else base.isBlocked }

def cacheEventConflictsCurrent (current patch : Bead) (fields : List String) : Bool :=
  let has := hasCacheEventField fields
  (has "title" && current.title != patch.title) ||
    (has "status" && current.status != patch.status) ||
    (cacheEventHasTypeField fields && current.type != patch.type) ||
    (has "priority" && current.priority != patch.priority) ||
    (has "assignee" && current.assignee != patch.assignee) ||
    (has "description" && current.description != patch.description) ||
    (has "parent" && current.parentID != patch.parentID) ||
    (has "parent_id" && current.parentID != patch.parentID) ||
    (has "metadata" && current.metadata != patch.metadata) ||
    (has "labels" && !stringSetEqual current.labels patch.labels) ||
    (has "ephemeral" && current.ephemeral != patch.ephemeral) ||
    (has "defer_until" && current.deferUntil != patch.deferUntil) ||
    (has "is_blocked" && current.isBlocked != patch.isBlocked)

def cacheEventDependencyConflict (currentDeps : List Dep) (depsKnown : Bool) (patch : Bead)
    (fields : List String) : Bool :=
  cacheEventHasDependencyField fields && depsKnown &&
    depsChanged currentDeps (depsFromBeadFields patch)

def cacheEventPatchMatchesBead (current patch : Bead) (fields : List String) : Bool :=
  !(cacheEventConflictsCurrent current patch fields ||
    cacheEventDependencyConflict (depsFromBeadFields current) true patch fields)

def closedEventCarriesRichCloseSnapshot (patch : Bead) : Bool :=
  patch.title != "" || !patch.labels.isEmpty || patch.description != "" || patch.assignee != "" ||
    patch.parentID != "" || patch.ref != "" || !patch.needs.isEmpty || patch.type != "" ||
    patch.priority.isSome || patch.ephemeral || patch.noHistory || patch.deferUntil.isSome

def closedEventPayloadNeedsBackingRefresh (patch fresh : Bead) : Bool :=
  if patch.updatedAt.isZero || fresh.updatedAt.isZero || !decide (fresh.updatedAt < patch.updatedAt)
  then !closedEventCarriesRichCloseSnapshot patch
  else false

namespace BeadEvent

def fieldConflict (ev : BeadEvent) (e : Entry) : Bool :=
  e.bead.any (cacheEventConflictsCurrent · ev.patch ev.fields)

def dependencyConflict (ev : BeadEvent) (e : Entry) (depsComplete : Bool) : Bool :=
  e.bead.isSome && cacheEventDependencyConflict (e.deps.getD []) (e.deps.isSome || depsComplete)
    ev.patch ev.fields

def «conflicts» (ev : BeadEvent) (e : Entry) (depsComplete : Bool) : Bool :=
  ev.fieldConflict e || ev.dependencyConflict e depsComplete

end BeadEvent

/-- What `ApplyEvent` asks the backing store after it has looked at the entry. -/
inductive EventRead where
  | nothing
  | drop
  | verifyClosed
  | verify
  | verifyRecent
  | refresh
  deriving DecidableEq

/-- The entry and the coverage flag an `ApplyEvent` call saw under the read lock. -/
structure EventView where
  event : BeadEvent
  entry : Entry
  depsComplete : Bool
  now : Time
  deriving DecidableEq

namespace EventView

/-- The backing read that follows the read phase.  A conflict with a recent local write that is
still fenced drops the event. -/
def read (v : EventView) : EventRead :=
  let conflict := v.event.conflicts v.entry v.depsComplete
  let locallyMutated := decide (v.entry.beadSeq ≠ 0)
  let recentlyLocal := recentLocalMutation v.entry.localBeadAt v.now
  if conflict && v.event.type = .closed then .verifyClosed
  else if conflict && locallyMutated && !recentlyLocal then .verify
  else if conflict && locallyMutated then .drop
  else if conflict && recentlyLocal then .verifyRecent
  else if v.entry.bead.isNone then .refresh
  else .nothing

end EventView

/-- What the verification of an event established. -/
structure Verified where
  conflict : Bool := false
  closedFresh : Option Bead := none
  recentLocal : Bool := false
  refreshed : Option Bead := none
  deriving DecidableEq

/-- How an event continues after its verification. -/
inductive EventVerdict where
  | drop
  | markDirty
  | apply (v : Verified)
  deriving DecidableEq

/-- The outcome of the verification, given the answer of the backing store. -/
def EventView.verdict (v : EventView) (fetched : Fetched) : EventVerdict :=
  match v.read, fetched with
  | .nothing, _ => .apply {}
  | .drop, _ => .drop
  | .verifyClosed, .row fresh =>
    if fresh.status != "closed" then .drop
    else
      .apply
        { conflict := true
          closedFresh :=
            if closedEventPayloadNeedsBackingRefresh v.event.patch fresh then some fresh else none }
  | .verifyClosed, _ => .drop
  | .verify, .row fresh =>
    if cacheEventPatchMatchesBead fresh v.event.patch v.event.fields then
      .apply { recentLocal := true }
    else if v.event.fieldConflict v.entry then .markDirty
    else .drop
  | .verify, _ => .drop
  | .verifyRecent, .row fresh =>
    if cacheEventPatchMatchesBead fresh v.event.patch v.event.fields then
      .apply { recentLocal := true }
    else .drop
  | .verifyRecent, _ => .apply { recentLocal := true }
  | .refresh, .row fresh => .apply { refreshed := some fresh }
  | .refresh, .notFound =>
    if v.event.type ≠ .created ∧ v.entry.deletedSeq ≠ 0 then .drop else .apply {}
  | .refresh, .failed => .apply {}

namespace Cache

/-- Install the dependencies an event carries.  The flag says whether anything changed. -/
def setEventDeps (c : Cache) (id : String) (deps : List Dep) : Cache × Bool :=
  let install := c.modify id fun e => { e with deps := some deps }.clearReadyProjection
  match (c.entry id).deps with
  | some existing => if depsChanged existing deps then (install, true) else (c, false)
  | none =>
    if c.depsComplete && deps.isEmpty then
      (c.clearReadyProjection id, (c.entry id).hasReadyProjection)
    else (install, true)

/-- The dependency part of an event.  A complete update payload without dependency fields makes the
coverage of the bead unknown. -/
def updateEventDeps (c : Cache) (type : EventType) (id : String) (b : Bead) (fields : List String)
    (refreshedFromBacking : Bool) : Cache × Bool :=
  if cacheEventHasDependencyField fields ||
      (decide (type = .created) && cacheEventLooksComplete fields) ||
      (decide (type = .updated) && cacheEventLooksComplete fields && refreshedFromBacking) then
    c.setEventDeps id (depsFromBeadFields b)
  else if decide (type = .updated) && cacheEventLooksComplete fields then
    ({ c.modify id fun e => { e with deps := none }.clearReadyProjection with
        depsComplete := false },
      (c.entry id).deps.isSome || (c.entry id).hasReadyProjection || c.depsComplete)
  else if (c.entry id).deps.isSome then (c, false)
  else if c.depsComplete then ({ c with depsComplete := false }, true)
  else (c, false)

def absorbEvent (c : Cache) (id : String) (b : Bead) (now : Time) : Cache :=
  (c.noteMutation [id]).absorbFresh id b now ⟨.depsKeepCached, .seqKeep, true⟩

def commitEvent (c : Cache) (ev : BeadEvent) (b : Bead) (refreshedFromBacking : Bool)
    (now : Time) : Cache :=
  let id := ev.patch.id
  match ev.type with
  | .created =>
    let c :=
      if (c.bead id).isSome then c
      else ((c.absorbEvent id b now).updateEventDeps .created id b ev.fields
        refreshedFromBacking).1
    c.clearDependentReadyProjections id
  | .updated =>
    let changed := (c.bead id).all fun existing => beadChanged existing b false
    let c := if changed then c.absorbEvent id b now else c
    let deps := c.updateEventDeps .updated id b ev.fields refreshedFromBacking
    let c := if deps.2 && !changed then deps.1.noteMutation [id] else deps.1
    if hasCacheEventField ev.fields "status" then c.clearDependentReadyProjections id else c
  | .closed =>
    ((c.absorbEvent id b now).updateEventDeps .closed id b ev.fields
      refreshedFromBacking).1.clearDependentReadyProjections id
  | .deleted =>
    let c := c.noteMutation [id]
    (c.tombstone id c.mutationSeq).clearDependentReadyProjections id

/-- A conflicting event loses if it is a close not verified or whose row changed since, or if the
verification did not cover a local mutation. -/
def rejectsEvent (e : Entry) (current : Bead) (v : EventView) (ver : Verified) (now : Time) :
    Bool :=
  let rowChanged := beadChanged current (v.entry.bead.getD {}) false
  if v.event.type = .closed then !ver.conflict || rowChanged
  else
    (recentLocalMutation e.localBeadAt now || decide (e.beadSeq ≠ 0)) &&
      (!ver.recentLocal || rowChanged || decide (e.beadSeq ≠ v.entry.beadSeq))

/-- The lock section of `ApplyEvent`. -/
def applyEvent (c : Cache) (v : EventView) (ver : Verified) (now : Time) : Cache :=
  let e := c.entry v.event.patch.id
  let refreshedFromBacking := ver.closedFresh.isSome || ver.refreshed.isSome
  if !c.liveOrPartial then c
  else
    match e.bead with
    | none =>
      c.commitEvent v.event ((ver.closedFresh.or ver.refreshed).getD v.event.patch)
        refreshedFromBacking now
    | some current =>
      if v.event.conflicts e c.depsComplete && rejectsEvent e current v ver now then c
      else
        c.commitEvent v.event
          (ver.closedFresh.getD (mergeCacheEventPatch current v.event.patch v.event.fields))
          refreshedFromBacking now

/-- `ApplyEvent` after its verification.  The dirty mark of an unverified event is set without a new
mutation sequence. -/
def finishEvent (c : Cache) (v : EventView) (fetched : Fetched) (now : Time) : Cache :=
  match v.verdict fetched with
  | .drop => c
  | .markDirty => c.markDirty v.event.patch.id
  | .apply ver => c.applyEvent v ver now

def applyDepEvent (c : Cache) (id : String) (deps : List Dep) : Cache :=
  if !c.liveOrPartial then c
  else
    (c.noteMutation [id]).modify id fun e =>
      { e with deps := some deps }.clearReadyProjection.clearStalenessMarks

end Cache

end GasCity
