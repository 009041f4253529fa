import GasCity.Caching.Refresh
import Mathlib.Data.Finset.Card

/-! # Reads through the cache

`List`, its legacy helpers, `Ready` and `CachedReady` of a `CachingStore` over a
`MemStore`, run without interference.  A loop over a Go map visits the keys in
an unspecified order, so every such loop takes the order as an argument.
-/

namespace GasCity

structure CachingStore where
  backing : MemStore
  cache : Cache
  deriving DecidableEq

/-- An order in which a loop over the cached rows may visit them. -/
structure IterationOrder (c : Cache) (order : List String) : Prop where
  nodup : order.Nodup
  mem : ∀ id, id ∈ order ↔ (c.bead id).isSome

def liveListQuery (q : ListQuery) : ListQuery := { q with live := true }

def appendUnseen (cached : List Bead) (all : List Bead) : List Bead :=
  all.foldl (fun acc b => if b.id ∈ acc.map Bead.id then acc else acc ++ [b]) cached

def readySortPriority (b : Bead) : Int := b.priority.getD 2

/-- The `(priority, created_at, id)` order of ready results. -/
def ReadyLE (a b : Bead) : Prop :=
  readySortPriority a < readySortPriority b ∨
    readySortPriority a = readySortPriority b ∧ CreatedLE a b

instance (a b : Bead) : Decidable (ReadyLE a b) := inferInstanceAs (Decidable (_ ∨ _))

def sortBeadsReadyOrder (items : List Bead) : List Bead := items.insertionSort ReadyLE

def isReadyCandidate (b : Bead) (now : Time) : Bool := isReadyCandidateForTier b now .issues

/-- A blocker that is not cached blocks only when it is recorded as failed and the dependent is no
terminalizer. -/
def cachedBeadReady (b : Bead) (beadByID : Table String Bead) (failedBlockers : Finset String)
    (deps : List Dep) : Bool :=
  b.isBlocked != some true && deps.all fun dep =>
    !isReadyBlockingDependencyType dep.type ||
      match beadByID.get dep.dependsOnID with
      | some blocker => isReadyBlockingDependencySatisfiedFor b blocker
      | none => !(decide (dep.dependsOnID ∈ failedBlockers) && !isReadyTerminalizer b)

namespace CachingStore

/-- The rows `fetchDirtyOverlay` gets from the backing store. -/
def fetchedRows (m : MemStore) (todo : Finset String) : Table String Bead := .ofKeys todo m.find

/-- The dependency lists `fetchDirtyOverlay` gets for rows that carry none. -/
def fetchedDeps (m : MemStore) (todo : Finset String) : Table String (List Dep) :=
  .ofKeys todo fun id =>
    ((m.find id).filter fun b => !beadCarriesDependencyFields b).map fun _ => m.depList id .down

/-- The passes of `readCacheWithOverlay` that remain: the cache afterwards, and the suppressed ids
when the cache may serve. -/
def overlayPasses (gate : Cache → Bool) (m : MemStore) (now : Time) :
    Nat → Cache → Finset String → Cache × Option (Finset String)
  | 0, c, _ => (c, none)
  | pass + 1, c, suppressed =>
    let startSeq := c.mutationSeq
    let serve (c : Cache) (suppressed : Finset String) :=
      let churned := c.suppressedChurn suppressed startSeq
      if churned = ∅ then (c, some suppressed)
      else overlayPasses gate m now pass c (suppressed \ churned)
    let todo := c.dirty \ suppressed
    if !gate c then (c, none)
    else if todo = ∅ then serve c suppressed
    else if 8 < c.dirty.card then (c, none)
    else
      let suppressed := suppressed ∪ todo.filter fun id => (m.find id).isNone
      let c := c.publishOverlay startSeq (fetchedRows m todo) (fetchedDeps m todo) now
      if !gate c then (c, none)
      else if c.dirty \ suppressed = ∅ then serve c suppressed
      else overlayPasses gate m now pass c suppressed

def readCacheWithOverlay (gate : Cache → Bool) (s : CachingStore) (now : Time) :
    Cache × Option (Finset String) :=
  overlayPasses gate s.backing now 2 s.cache ∅

/-- Publish the result of a live or parent `List`, and what the call returns. -/
def refreshCachedBeads (s : CachingStore) (q : ListQuery) (startSeq : Nat) (items : List Bead)
    (now : Time) : Cache × List Bead :=
  let stale := s.cache.staleCacheIDs q (items.map Bead.id).toFinset
  if !s.cache.liveOrPartial then (s.cache, items)
  else
    (s.cache.publishRefresh startSeq (beadByID items) (.ofKeys stale s.backing.find)
        (stale.filter fun id => (s.backing.find id).isNone) now,
      items.filterMap fun item => (s.cache.entry item.id).refreshedItem q startSeq item now)

def collect (c : Cache) (order : List String) (suppressed : Finset String) : List Bead :=
  (order.filterMap c.bead).filter fun b => decide (b.id ∉ suppressed)

def finish (q : ListQuery) (items : List Bead) : List Bead :=
  applyLimit q.limit (sortBeadsForQuery items q.sort)

/-- List beads.  The backing listing of an include-closed query only fails on the scan check, which
has passed. -/
def list (s : CachingStore) (order : List String) (now : Time) (q : ListQuery) :
    Cache × Except Err (List Bead) :=
  if !q.hasFilter && !q.allowScan then (s.cache, .error .queryRequiresScan)
  else if q.live || q.parentID != "" then
    match s.backing.list q with
    | .error e => (s.cache, .error e)
    | .ok items => (s.refreshCachedBeads q s.cache.mutationSeq items now).map id .ok
  else
    match s.readCacheWithOverlay Cache.cacheServable now with
    | (c, none) => (c, s.backing.list (liveListQuery q))
    | (c, some suppressed) =>
      let cached := (collect c order suppressed).filter q.matches
      if !q.includesClosed then (c, .ok (finish q cached))
      else if q.status == "closed" || q.parentID != "" then
        (c, s.backing.list (liveListQuery q))
      else (c, (s.backing.list (liveListQuery q)).map fun all => finish q (appendUnseen cached all))

def listOpen (s : CachingStore) (order : List String) (now : Time) (status : Option String) :
    Cache × Except Err (List Bead) :=
  s.list order now { allowScan := true, status := status.getD "" }

/-- Unlike its siblings, `Children` passes no tier mode on. -/
def children (s : CachingStore) (order : List String) (now : Time) (parentID : String)
    (opts : List QueryOpt) : Cache × Except Err (List Bead) :=
  s.list order now
    { parentID, includeClosed := hasOpt opts .includeClosed, sort := .createdAsc }

def listByLabel (s : CachingStore) (order : List String) (now : Time) (label : String)
    (limit : Int) (opts : List QueryOpt) : Cache × Except Err (List Bead) :=
  s.list order now
    { label
      limit
      includeClosed := hasOpt opts .includeClosed
      sort := .createdDesc
      tierMode := tierModeFromOpts opts }

def listByAssignee (s : CachingStore) (order : List String) (now : Time) (assignee status : String)
    (limit : Int) : Cache × Except Err (List Bead) :=
  s.list order now { assignee, status, limit, sort := .createdDesc }

def listByMetadata (s : CachingStore) (order : List String) (now : Time) (filters : StringMap)
    (limit : Int) (opts : List QueryOpt) : Cache × Except Err (List Bead) :=
  s.list order now
    { metadata := filters
      limit
      includeClosed := hasOpt opts .includeClosed
      sort := .createdDesc
      tierMode := tierModeFromOpts opts }

/-- Whether the cache can answer a ready query: fully live with complete dependency coverage. -/
def readyGate (c : Cache) : Bool :=
  decide (c.state = .cacheLive) && c.depsComplete && !c.primePartialErr

def readyRows (c : Cache) (rows : List Bead) (now : Time) : List Bead :=
  let openBeads := rows.filter fun b => isReadyCandidate b now
  sortBeadsReadyOrder <| openBeads.filter fun b =>
    cachedBeadReady b (beadByID rows) c.failedBlockers ((c.entry b.id).deps.getD [])

def ready (s : CachingStore) (order : List String) (now : Time) (q : ReadyQuery) :
    Cache × List Bead :=
  if q ≠ {} then (s.cache, s.backing.ready q now)
  else
    match s.readCacheWithOverlay readyGate now with
    | (c, none) => (c, s.backing.ready q now)
    | (c, some suppressed) => (c, readyRows c (collect c order suppressed) now)

/-- Ready beads from the cache alone; nothing when the cache declines to answer. -/
def cachedReady (c : Cache) (order : List String) (now : Time) : Option (List Bead) :=
  if !c.liveOrPartial || c.primePartialErr || decide (c.dirty ≠ ∅) then none
  else if ((order.filterMap c.bead).filter fun b => isReadyCandidate b now).any fun b =>
      (c.entry b.id).deps.isNone && !c.depsComplete then none
  else some (readyRows c (order.filterMap c.bead) now)

end CachingStore

end GasCity
