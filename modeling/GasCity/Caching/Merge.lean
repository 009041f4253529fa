import GasCity.Caching.Refresh

/-! # Publishing a full scan

The lock sections at the end of a reconcile pass, a prime and a `PrimeActive`.
Every id is decided on its own entry, so each section is a pointwise change of
the cache.
-/

namespace GasCity

inductive EventType where
  | created
  | updated
  | closed
  | deleted
  deriving DecidableEq

inductive MergeAction where
  | mergeAbsorb
  | mergeSkipFenced
  | mergeSkipRecentLocal
  | mergeEvict
  | mergeGCFences
  deriving DecidableEq

structure MergeDecision where
  action : MergeAction
  notification : Option EventType := none
  degradeDepsComplete : Bool := false
  deriving DecidableEq

/-- The fate of one id in a reconcile merge: the tombstone and sequence fences come before
recency, recency before a change. -/
def reconcileMergeDecision (e : Entry) (fresh : Option Bead) (freshDeps : List Dep)
    (startSeq : Nat) (now : Time) : MergeDecision :=
  match fresh with
  | some fresh =>
    if e.fenced startSeq then
      { action := .mergeSkipFenced, degradeDepsComplete := e.bead.isSome && e.deps.isNone }
    else if (e.recentLocalBeadConflict fresh now true).isSome then
      { action := .mergeSkipRecentLocal
        degradeDepsComplete := e.deps.isNone || depsChanged (e.deps.getD []) freshDeps }
    else
      { action := .mergeAbsorb
        notification :=
          match e.bead with
          | none => some .created
          | some cached =>
            if beadChanged cached fresh true || depsChanged (e.deps.getD []) freshDeps then
              some .updated
            else none }
  | none =>
    match e.bead with
    | some cached =>
      if e.fenced startSeq then { action := .mergeSkipFenced }
      else if cached.status != "closed" && recentLocalMutation e.localBeadAt now then
        { action := .mergeSkipRecentLocal }
      else
        { action := .mergeEvict
          notification := if cached.status != "closed" then some .closed else none }
    | none =>
      if e.fenced startSeq then { action := .mergeSkipFenced }
      else if recentLocalMutation e.localBeadAt now then { action := .mergeSkipRecentLocal }
      else { action := .mergeGCFences }

namespace Entry

def merge (e : Entry) (fresh : Option Bead) (freshDeps : List Dep) (startSeq : Nat) (now : Time) :
    Entry :=
  match (reconcileMergeDecision e fresh freshDeps startSeq now).action, fresh with
  | .mergeAbsorb, some fresh =>
    e.absorbFresh fresh now ⟨.depsExplicit freshDeps, .seqClearGuarded, true⟩
  | .mergeEvict, _ => {}
  | .mergeGCFences, _ => {}
  | _, _ => e

/-- One row of a prime that no mutation interrupted.  A recent local write keeps its row, and every
other mark is reset. -/
def primeFast (e : Entry) (fresh : Option Bead) (freshDeps : List Dep) (now : Time) : Entry :=
  match fresh, e.bead with
  | some fresh, some current =>
    if (e.recentLocalBeadConflict fresh now true).isSome then
      { e with bead := some current, deps := e.deps.or (some freshDeps), deletedSeq := 0 }
    else { bead := some fresh, deps := some freshDeps }
  | some fresh, none => { bead := some fresh, deps := some freshDeps }
  | none, some current =>
    if current.status != "closed" && recentLocalMutation e.localBeadAt now then
      { e with deletedSeq := 0 }
    else {}
  | none, none => {}

/-- One row of a prime that a mutation interrupted: only missing rows are added. -/
def primeSlow (e : Entry) (fresh : Bead) (depsMode : AbsorbDepsMode) (startSeq : Nat)
    (now : Time) : Entry :=
  if startSeq < e.deletedSeq then e
  else if e.bead.isSome then e
  else e.absorbFresh fresh now ⟨depsMode, .seqClearBeadSeqOnly, false⟩

/-- One row of `PrimeActive`; `interrupted` says whether a mutation happened since its start. -/
def primeActive (e : Entry) (fresh : Bead) (depsMode : AbsorbDepsMode) (startSeq : Nat)
    (interrupted : Bool) (now : Time) : Entry :=
  if interrupted && (decide (startSeq < e.deletedSeq) || e.bead.isSome) then e
  else if (e.recentLocalBeadConflict fresh now false).isSome then e
  else e.absorbFresh fresh now ⟨depsMode, .seqClearGuarded, false⟩

end Entry

/-- The rows and dependency lists a full scan collected, and the mutation sequence it started
at. -/
structure Snapshot where
  rows : Table String Bead
  depMap : Table String (List Dep)
  startSeq : Nat
  deriving DecidableEq

namespace Snapshot

def useFreshDeps (s : Snapshot) : Bool := decide (s.rows.keys ⊆ s.depMap.keys)

def primeDeps (s : Snapshot) (id : String) (b : Bead) : List Dep :=
  if s.useFreshDeps then s.depMap.getD id [] else depsFromBeadFields b

def primeDepsMode (s : Snapshot) (id : String) : AbsorbDepsMode :=
  if s.useFreshDeps then .depsExplicit (s.depMap.getD id []) else .depsFromFields

end Snapshot

namespace Cache

/-- The dependencies a reconcile records for a row.  Without a complete fetch a store other than
`bd` keeps the cached list when the row carries none. -/
def depsForReconcile (c : Cache) (bdStore : Bool) (s : Snapshot) (id : String) (fresh : Bead) :
    List Dep :=
  if s.useFreshDeps then s.depMap.getD id []
  else if bdStore then depsFromBeadFields fresh
  else if (depsFromBeadFields fresh).isEmpty then (c.entry id).deps.getD []
  else depsFromBeadFields fresh

/-- Whether a blocking target in the snapshot has another status than its cached row. -/
def readyBlockingDependencyTargetStatusChanged (c : Cache) (deps : List Dep)
    (items : Table String Bead) : Bool :=
  deps.any fun dep =>
    isReadyBlockingDependencyType dep.type && (items.get dep.dependsOnID).any fun fresh =>
      (c.bead dep.dependsOnID).all fun cached => cached.status != fresh.status

/-- A snapshot row without a readiness projection inherits the cached one, unless its dependencies
or the status of a blocking target changed. -/
def preserveCachedReadyProjection (c : Cache) (bdStore : Bool) (s : Snapshot) (id : String)
    (item : Bead) : Bead :=
  let freshDeps := c.depsForReconcile bdStore s id item
  if item.isBlocked.isSome || depsChanged ((c.entry id).deps.getD []) freshDeps ||
      c.readyBlockingDependencyTargetStatusChanged freshDeps s.rows then item
  else { item with isBlocked := (c.bead id).bind Bead.isBlocked }

def mergeRow (c : Cache) (bdStore : Bool) (s : Snapshot) (id : String) : Option Bead :=
  (s.rows.get id).map (c.preserveCachedReadyProjection bdStore s id)

def mergeDeps (c : Cache) (bdStore : Bool) (s : Snapshot) (id : String) : List Dep :=
  ((c.mergeRow bdStore s id).map (c.depsForReconcile bdStore s id)).getD []

def mergeDecision (c : Cache) (bdStore : Bool) (s : Snapshot) (now : Time) (id : String) :
    MergeDecision :=
  reconcileMergeDecision (c.entry id) (c.mergeRow bdStore s id) (c.mergeDeps bdStore s id)
    s.startSeq now

/-- The notification the merge synthesizes for an id; a close confirmed by its own read reports
the row that read returned. -/
def mergeNotification (c : Cache) (bdStore : Bool) (s : Snapshot)
    (confirmedClosed : Table String Bead) (now : Time) (id : String) : Option (EventType × Bead) :=
  match (c.mergeDecision bdStore s now id).notification with
  | none => none
  | some .closed =>
    (c.bead id).map fun cached =>
      (.closed, (confirmedClosed.get id).getD { cached with status := "closed" })
  | some event => (c.mergeRow bdStore s id).map (event, ·)

def mergeSnapshot (c : Cache) (bdStore : Bool) (s : Snapshot) (now : Time) : Cache :=
  { c.modifyAll (c.entries.keys ∪ s.rows.keys) fun id e =>
      e.merge (c.mergeRow bdStore s id) (c.mergeDeps bdStore s id) s.startSeq now with
    depsComplete := s.useFreshDeps &&
      decide (∀ id ∈ s.rows.keys, (c.mergeDecision bdStore s now id).degradeDepsComplete = false)
    primePartialErr := false
    state := .cacheLive }

def publishReconcile (c : Cache) (bdStore : Bool) (s : Snapshot)
    (failedBlockers : Option (Finset String)) (now : Time) : Cache :=
  { c.mergeSnapshot bdStore s now with
    failedBlockers :=
      if c.mutationSeq = s.startSeq then failedBlockers.getD c.failedBlockers
      else c.failedBlockers }

def publishPrime (c : Cache) (s : Snapshot) (failedBlockers : Option (Finset String))
    (partialErr : Bool) (now : Time) : Cache :=
  if c.mutationSeq = s.startSeq then
    { c.modifyAll (c.entries.keys ∪ s.rows.keys) fun id e =>
        e.primeFast (s.rows.get id) (((s.rows.get id).map (s.primeDeps id)).getD []) now with
      depsComplete := s.useFreshDeps
      failedBlockers := failedBlockers.getD c.failedBlockers
      state := .cacheLive
      primePartialErr := partialErr }
  else
    { c.modifyAll s.rows.keys fun id e =>
        (s.rows.get id).elim e fun b => e.primeSlow b (s.primeDepsMode id) s.startSeq now with
      depsComplete := false
      state := .cacheLive
      primePartialErr := partialErr }

/-- The lock section of `PrimeActive`. -/
def publishPrimeActive (c : Cache) (s : Snapshot) (failedBlockers : Option (Finset String))
    (partialErr : Bool) (now : Time) : Cache :=
  { c.modifyAll s.rows.keys fun id e =>
      (s.rows.get id).elim e fun b =>
        e.primeActive b (s.primeDepsMode id) s.startSeq
          (decide (c.mutationSeq ≠ s.startSeq)) now with
    failedBlockers :=
      if c.mutationSeq = s.startSeq then failedBlockers.getD c.failedBlockers
      else c.failedBlockers
    state := if c.state = .cacheUninitialized then .cachePartial else c.state
    primePartialErr := partialErr }

end Cache

end GasCity
