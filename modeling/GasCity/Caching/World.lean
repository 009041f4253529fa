import GasCity.Caching.Reads
import GasCity.Caching.Events
import GasCity.Runs.Basic

/-! # Interleavings of cache operations

A world is a backing store, a cache and the calls in flight.  A call takes one step for each access
to the backing store and one for each lock section of the cache, and these steps interleave freely.
The backing store is any linearizable store: the effect of a commit is part of the label.
-/

namespace GasCity

/-- A backing store, seen through `Get` and `DepList`. -/
structure Backing where
  rows : Table String Bead := ∅
  deps : Table String (List Dep) := ∅
  deriving DecidableEq

namespace Backing

def depList (b : Backing) (id : String) : List Dep := b.deps.getD id []

/-- A `Get`, which answers the row, a not-found or, when `ok` is false, another error. -/
def get (b : Backing) (id : String) (ok : Bool) : Fetched :=
  if ok then (b.rows.get id).elim .notFound .row else .failed

def put (b : Backing) (id : String) (row : Option Bead) (deps : List Dep) : Backing where
  rows := row.elim (b.rows.erase id) (b.rows.set id)
  deps := b.deps.set id deps

variable {b : Backing} {id id' : String} {row : Option Bead} {deps : List Dep}

@[simp]
theorem rows_put_self : (b.put id row deps).rows.get id = row := by
  cases row <;> simp [put]

@[simp]
theorem rows_put_of_ne (h : id' ≠ id) : (b.put id row deps).rows.get id' = b.rows.get id' := by
  cases row <;> simp [put, h]

@[simp]
theorem depList_put_self : (b.put id row deps).depList id = deps := by
  simp [put, depList, Table.getD]

@[simp]
theorem depList_put_of_ne (h : id' ≠ id) : (b.put id row deps).depList id' = b.depList id' := by
  simp [put, depList, Table.getD, h]

end Backing

/-- The write-through calls.  A conditional write keeps only what the cache reads of it. -/
inductive Write where
  | create (id : String)
  | update (id : String) (opts : UpdateOpts)
  | releaseIfCurrent (id : String)
  | close (id : String)
  | reopen (id : String)
  | setMetadata (id key value : String)
  | setMetadataBatch (id : String) (kvs : StringMap)
  | depAdd (issueID dependsOnID depType : String)
  | depRemove (issueID dependsOnID : String)
  | delete (id : String)
  | updateIfMatch (id : String)
  | closeIfMatch (id : String)
  | deleteIfMatch (id : String)
  | compareAndSetMetadataKey (id : String)
  | closeAll (ids : List String)
  | tx (ids closed : List String)
  | graphApply (ids : List String)
  | deleteBatch (ids : List String)
  deriving DecidableEq

namespace Write

def ids : Write → List String
  | create id | update id _ | releaseIfCurrent id | close id | reopen id | setMetadata id _ _
  | setMetadataBatch id _ | depAdd id _ _ | depRemove id _ | delete id | updateIfMatch id
  | closeIfMatch id | deleteIfMatch id | compareAndSetMetadataKey id => [id]
  | closeAll ids | tx ids _ | graphApply ids | deleteBatch ids => ids

def isConditional : Write → Bool
  | updateIfMatch _ | closeIfMatch _ | deleteIfMatch _ | compareAndSetMetadataKey _ => true
  | _ => false

/-- Whether a failed call may have committed without the cache ignoring it. -/
def mayHaveCommitted : Write → Bool
  | setMetadataBatch _ _ | deleteBatch _ => true
  | wr => wr.isConditional

/-- Whether the cache uses the rows that are read back after the call. -/
def readsBack : Write → Bool
  | delete _ | updateIfMatch _ | closeIfMatch _ | deleteIfMatch _ | compareAndSetMetadataKey _
  | deleteBatch _ => false
  | _ => true

def readsBackDeps : Write → Bool
  | depAdd _ _ _ | depRemove _ _ | graphApply _ => true
  | _ => false

def alreadyMatches (c : Cache) : Write → Bool
  | update id opts => c.updateMatchesCached id opts
  | close id => c.closeAlreadyMatchesCached id
  | setMetadata id key value =>
    c.metadataAlreadyMatchesCached id ((∅ : StringMap).set key value)
  | setMetadataBatch id kvs => StringMap.isEmpty kvs || c.metadataAlreadyMatchesCached id kvs
  | _ => false

end Write

/-- The reply of the backing store to a write.  A conditional release or swap may be declined. -/
inductive Reply where
  | ok
  | declined
  | preconditionFailed
  | unsupported
  | failed
  deriving DecidableEq

structure WriteFlight where
  write : Write
  committed : Finset String := ∅
  created : Bead := {}
  reply : Option Reply := none
  fetched : Table String Fetched := ∅
  fetchedDeps : Table String (Option (List Dep)) := ∅
  deriving DecidableEq

namespace WriteFlight

def admits (f : WriteFlight) : Reply → Bool
  | .ok => decide (f.write.ids.toFinset ⊆ f.committed)
  | .declined =>
    decide (f.committed = ∅) &&
      match f.write with
      | .releaseIfCurrent _ | .compareAndSetMetadataKey _ => true
      | _ => false
  | .preconditionFailed | .unsupported => decide (f.committed = ∅) && f.write.isConditional
  | .failed => decide (f.committed = ∅) || f.write.mayHaveCommitted

def complete (f : WriteFlight) : Bool :=
  match f.reply with
  | none => false
  | some .ok =>
    !f.write.readsBack || f.write.ids.all fun id =>
      match f.fetched.get id with
      | none => false
      | some (.row _) => !f.write.readsBackDeps || (f.fetchedDeps.get id).isSome
      | some _ => true
  | some _ => true

def fetchedRow (f : WriteFlight) (id : String) : Fetched := f.fetched.getD id .failed

def fetchedDepList (f : WriteFlight) (id : String) : Option (List Dep) := f.fetchedDeps.getD id none

def publishOk (f : WriteFlight) (c : Cache) (now : Time) : Cache :=
  match f.write with
  | .create id =>
    c.publishCreate id (match f.fetchedRow id with | .row b => b | _ => f.created) now
  | .update id opts => c.publishUpdate id opts (f.fetchedRow id) now
  | .releaseIfCurrent id => c.publishRelease id (f.fetchedRow id) now
  | .close id => c.publishStatus id "closed" (f.fetchedRow id) now
  | .reopen id => c.publishStatus id "open" (f.fetchedRow id) now
  | .setMetadata id key value =>
    c.publishMetadata id ((∅ : StringMap).set key value) (f.fetchedRow id) now
  | .setMetadataBatch id kvs => c.publishMetadata id kvs (f.fetchedRow id) now
  | .depAdd id dependsOnID depType =>
    match f.fetchedRow id with
    | .row b =>
      let refreshed := Cache.refreshedWithDeps b (f.fetchedDepList id)
      c.publishDepRefreshed id refreshed.1 refreshed.2 now
    | _ => c.publishDepAddUnrefreshed id dependsOnID depType now
  | .depRemove id dependsOnID =>
    match f.fetchedRow id with
    | .row b =>
      let refreshed := Cache.refreshedWithDeps b (f.fetchedDepList id)
      c.publishDepRefreshed id refreshed.1 refreshed.2 now
    | _ => c.publishDepRemoveUnrefreshed id dependsOnID now
  | .delete id | .deleteIfMatch id => c.publishDelete id now
  | .updateIfMatch id | .closeIfMatch id | .compareAndSetMetadataKey id =>
    c.evictForConditionalWrite id now
  | .closeAll ids => c.publishRows ids now (Cache.closeAllRow f.fetchedRow now)
  | .tx ids closed => c.publishRows ids now (Cache.txRow closed f.fetchedRow now)
  | .graphApply ids => c.publishRows ids now (Cache.graphApplyRow f.fetchedRow f.fetchedDepList now)
  | .deleteBatch ids => c.evictBatchDeleted ids now

def publishFailed (f : WriteFlight) (c : Cache) (now : Time) : Cache :=
  match f.write with
  | .setMetadataBatch id _ => c.publishMetadataBatchFailed id
  | .updateIfMatch id | .closeIfMatch id | .deleteIfMatch id | .compareAndSetMetadataKey id =>
    c.markConditionalWriteUnknown id now
  | .deleteBatch ids => c.evictBatchDeleted (ids.filter fun id => decide (id ∈ f.committed)) now
  | _ => c

def publish (f : WriteFlight) (c : Cache) (now : Time) : Cache :=
  match f.reply, f.write with
  | some .ok, _ => f.publishOk c now
  | some .failed, _ => f.publishFailed c now
  | some .preconditionFailed, wr => (wr.ids.head?).elim c (c.evictForConditionalWrite · now)
  | some .declined, .compareAndSetMetadataKey id => c.evictForConditionalWrite id now
  | _, _ => c

end WriteFlight

inductive ScanKind where
  | reconcile
  | prime
  | primeActive
  | overlay
  | dirtyGet (id : String)
  | list (q : ListQuery)
  deriving DecidableEq

def cacheFullScanQuery : ListQuery := { allowScan := true, tierMode := .both }

namespace ScanKind

def lists : ScanKind → Bead → Bool
  | reconcile, b | prime, b => cacheFullScanQuery.matches b
  | primeActive, b =>
    ListQuery.matches { status := "open", tierMode := .both } b ||
      ListQuery.matches { status := "in_progress", tierMode := .both } b
  | list q, b => q.matches b
  | overlay, _ | dirtyGet _, _ => false

def recovers : ScanKind → Bool
  | reconcile | list _ => true
  | _ => false

/-- Whether the scan fetches the dependency list of a row; the overlay does so only for a row that
carries no dependency fields. -/
def fetchesDeps : ScanKind → Bead → Bool
  | dirtyGet _, _ | list _, _ => false
  | overlay, b => !beadCarriesDependencyFields b
  | _, _ => true

def todo (c : Cache) : ScanKind → Finset String
  | overlay => c.dirty
  | dirtyGet id => {id}
  | _ => ∅

def enabled (c : Cache) : ScanKind → Bool
  | overlay => c.cacheServable && decide (c.dirty ≠ ∅) && decide (c.dirty.card ≤ 8)
  | dirtyGet id => c.liveOrPartial && c.isDirty id && decide ((c.entry id).deletedSeq = 0)
  | _ => true

end ScanKind

/-- A scan in flight.  `candidates` are the cached rows its listing missed, `checked` those looked
up since, `recovered` and `removed` what a `List` found for them. -/
structure Scan where
  kind : ScanKind
  startSeq : Nat
  todo : Finset String := ∅
  rows : Table String Bead := ∅
  depMap : Table String (List Dep) := ∅
  candidates : Option (Table String Bead) := none
  checked : Finset String := ∅
  recovered : Table String Bead := ∅
  removed : Finset String := ∅
  confirmedClosed : Table String Bead := ∅
  deriving DecidableEq

namespace Scan

def snapshot (s : Scan) : Snapshot := { rows := s.rows, depMap := s.depMap, startSeq := s.startSeq }

def missed (s : Scan) (c : Cache) : Table String Bead :=
  match s.kind with
  | .reconcile =>
    .ofKeys c.entries.keys fun id =>
      if id ∈ s.rows.keys then none else (c.bead id).filter (·.status != "closed")
  | .list q => .ofKeys (c.staleCacheIDs q s.rows.keys) c.bead
  | _ => ∅

/-- Look up one candidate.  A reconcile keeps a row it could not verify; a listing skips it. -/
def recover (s : Scan) (id : String) (cached : Bead) (fetched : Fetched) : Scan :=
  let s := { s with checked := insert id s.checked }
  match s.kind, fetched with
  | .reconcile, .row b =>
    if b.id ≠ id then { s with rows := s.rows.set id cached }
    else if b.status = "closed" then { s with confirmedClosed := s.confirmedClosed.set id b }
    else { s with rows := s.rows.set id b }
  | .reconcile, .notFound => s
  | .reconcile, .failed => { s with rows := s.rows.set id cached }
  | _, .row b => { s with recovered := s.recovered.set id b }
  | _, .notFound => { s with removed := insert id s.removed }
  | _, .failed => s

def readRow (s : Scan) (id : String) (row : Option Bead) : Option Scan :=
  match row with
  | some b =>
    if s.kind.lists b ∧ s.candidates = none ∨ id ∈ s.todo then
      some { s with rows := s.rows.set id b }
    else none
  | none => if id ∈ s.todo then some s else none

def complete (s : Scan) : Bool :=
  match s.kind with
  | .reconcile | .list _ => s.candidates.any fun cs => decide (cs.keys ⊆ s.checked)
  | .overlay =>
    decide (∀ id ∈ s.rows.keys, (s.rows.get id).all fun b =>
      beadCarriesDependencyFields b || (s.depMap.get id).isSome)
  | _ => true

def publish (s : Scan) (bdStore : Bool) (c : Cache) (failedBlockers : Option (Finset String))
    (partialErr : Bool) (now : Time) : Cache :=
  match s.kind with
  | .reconcile => c.publishReconcile bdStore s.snapshot failedBlockers now
  | .prime => c.publishPrime s.snapshot failedBlockers partialErr now
  | .primeActive => c.publishPrimeActive s.snapshot failedBlockers partialErr now
  | .overlay => if c.cacheServable then c.publishOverlay s.startSeq s.rows s.depMap now else c
  | .dirtyGet id => (s.rows.get id).elim c fun b => c.publishDirtyGet s.startSeq id b now
  | .list _ => c.publishRefresh s.startSeq s.rows s.recovered s.removed now

end Scan

/-- A `DepList` call that found no cached list. -/
structure Fill where
  id : String
  deps : Option (List Dep) := none
  deriving DecidableEq

/-- An `ApplyEvent` call in flight. -/
structure EventFlight where
  view : EventView
  fetched : Option Fetched := none
  deriving DecidableEq

def EventFlight.waiting (f : EventFlight) : Bool :=
  f.fetched.isNone && decide (f.view.read ≠ .nothing) && decide (f.view.read ≠ .drop)

structure World where
  backing : Backing := {}
  cache : Cache := {}
  bdStore : Bool := false
  writes : Table Nat WriteFlight := ∅
  scans : Table Nat Scan := ∅
  fills : Table Nat Fill := ∅
  events : Table Nat EventFlight := ∅
  deriving DecidableEq

inductive Label where
  | skip (wr : Write)
  | issue (t : Nat) (wr : Write)
  | commit (t : Nat) (id : String) (row : Option Bead) (deps : List Dep)
  | reply (t : Nat) (r : Reply)
  | fetch (t : Nat) (id : String) (ok : Bool)
  | fetchDeps (t : Nat) (id : String) (ok : Bool)
  | publish (t : Nat) (now : Time)
  | scanStart (t : Nat) (kind : ScanKind)
  | scanRow (t : Nat) (id : String)
  | scanCandidates (t : Nat)
  | scanRecover (t : Nat) (id : String) (ok : Bool)
  | scanDeps (t : Nat) (id : String)
  | scanPublish (t : Nat) (failedBlockers : Option (Finset String)) (partialErr : Bool) (now : Time)
  | scanAbort (t : Nat) (degrade : Bool)
  | fillStart (t : Nat) (id : String)
  | fillRead (t : Nat)
  | fillPublish (t : Nat)
  | eventStart (t : Nat) (ev : BeadEvent) (now : Time)
  | eventRead (t : Nat) (ok : Bool)
  | eventApply (t : Nat) (now : Time)
  | depEvent (id : String) (deps : List Dep)
  | external (id : String) (row : Option Bead) (deps : List Dep)
  deriving DecidableEq

namespace World

def writeStep (w : World) (t : Nat) (f : WriteFlight) : Label → Option World
  | .commit _ id row deps =>
    if f.reply = none ∧ id ∈ f.write.ids ∧ id ∉ f.committed ∧ row.all (·.id == id) then
      some
        { w with
          backing := w.backing.put id row deps
          writes := w.writes.set t
            { f with committed := insert id f.committed, created := row.getD f.created } }
    else none
  | .reply _ r =>
    if f.reply = none ∧ f.admits r then
      some { w with writes := w.writes.set t { f with reply := some r } }
    else none
  | .fetch _ id ok =>
    if f.reply = some .ok ∧ id ∈ f.write.ids ∧ f.fetched.get id = none then
      some
        { w with
          writes := w.writes.set t { f with fetched := f.fetched.set id (w.backing.get id ok) } }
    else none
  | .fetchDeps _ id ok =>
    if f.reply = some .ok ∧ id ∈ f.write.ids ∧ (f.fetched.get id).isSome then
      some
        { w with
          writes := w.writes.set t
            { f with
              fetchedDeps := f.fetchedDeps.set id
                (if ok then some (w.backing.depList id) else none) } }
    else none
  | .publish _ now =>
    if f.complete then
      some { w with cache := f.publish w.cache now, writes := w.writes.erase t }
    else none
  | _ => none

def scanStep (w : World) (t : Nat) (s : Scan) : Label → Option World
  | .scanRow _ id =>
    (s.readRow id (w.backing.rows.get id)).map fun s => { w with scans := w.scans.set t s }
  | .scanCandidates _ =>
    if s.kind.recovers ∧ s.candidates = none then
      some { w with scans := w.scans.set t { s with candidates := some (s.missed w.cache) } }
    else none
  | .scanRecover _ id ok =>
    ((s.candidates.bind fun cs => cs.get id).filter fun _ => decide (id ∉ s.checked)).map
      fun cached =>
        { w with scans := w.scans.set t (s.recover id cached (w.backing.get id ok)) }
  | .scanDeps _ id =>
    if (s.rows.get id).any s.kind.fetchesDeps then
      some
        { w with
          scans := w.scans.set t { s with depMap := s.depMap.set id (w.backing.depList id) } }
    else none
  | .scanPublish _ failedBlockers partialErr now =>
    if s.complete then
      some
        { w with
          cache := s.publish w.bdStore w.cache failedBlockers partialErr now
          scans := w.scans.erase t }
    else none
  | .scanAbort _ degrade =>
    some
      { w with
        cache :=
          if degrade && w.cache.liveOrPartial then { w.cache with state := .cacheDegraded }
          else w.cache
        scans := w.scans.erase t }
  | _ => none

/-- The steps of a `DepList` fill. -/
def fillStep (w : World) (t : Nat) (f : Fill) : Label → Option World
  | .fillRead _ =>
    some { w with fills := w.fills.set t { f with deps := some (w.backing.depList f.id) } }
  | .fillPublish _ =>
    f.deps.map fun deps =>
      { w with
        cache := w.cache.modify f.id fun e => { e with deps := some deps }
        fills := w.fills.erase t }
  | _ => none

def eventStep (w : World) (t : Nat) (f : EventFlight) : Label → Option World
  | .eventRead _ ok =>
    if f.waiting then
      some
        { w with
          events := w.events.set t
            { f with fetched := some (w.backing.get f.view.event.patch.id ok) } }
    else none
  | .eventApply _ now =>
    if f.waiting then none
    else
      some
        { w with
          cache := w.cache.finishEvent f.view (f.fetched.getD .failed) now
          events := w.events.erase t }
  | _ => none

def step (w : World) (l : Label) : Option World :=
  match l with
  | .skip wr => if wr.alreadyMatches w.cache then some w else none
  | .issue t wr =>
    if w.writes.get t = none ∧ "" ∉ wr.ids ∧ wr.alreadyMatches w.cache = false then
      some { w with writes := w.writes.set t { write := wr } }
    else none
  | .commit t _ _ _ | .reply t _ | .fetch t _ _ | .fetchDeps t _ _ | .publish t _ =>
    (w.writes.get t).bind fun f => w.writeStep t f l
  | .scanStart t kind =>
    if w.scans.get t = none ∧ kind.enabled w.cache then
      some
        { w with
          scans := w.scans.set t
            { kind, startSeq := w.cache.mutationSeq, todo := kind.todo w.cache } }
    else none
  | .scanRow t _ | .scanCandidates t | .scanRecover t _ _ | .scanDeps t _ | .scanPublish t _ _ _
  | .scanAbort t _ => (w.scans.get t).bind fun s => w.scanStep t s l
  | .fillStart t id =>
    if w.fills.get t = none ∧ w.cache.state = .cacheLive ∧ w.cache.depsComplete ∧
        (w.cache.entry id).deps = none then
      some { w with fills := w.fills.set t { id } }
    else none
  | .fillRead t | .fillPublish t => (w.fills.get t).bind fun f => w.fillStep t f l
  | .eventStart t ev now =>
    if w.events.get t = none ∧ w.cache.liveOrPartial ∧ ev.patch.id ≠ "" then
      some
        { w with
          events := w.events.set t
            { view :=
                { event := ev
                  entry := w.cache.entry ev.patch.id
                  depsComplete := w.cache.depsComplete
                  now } } }
    else none
  | .eventRead t _ | .eventApply t _ => (w.events.get t).bind fun f => w.eventStep t f l
  | .depEvent id deps =>
    if id ≠ "" then some { w with cache := w.cache.applyDepEvent id deps } else none
  | .external id row deps =>
    if row.all (·.id == id) then some { w with backing := w.backing.put id row deps } else none

def Quiescent (w : World) : Prop :=
  w.writes = ∅ ∧ w.scans = ∅ ∧ w.fills = ∅ ∧ w.events = ∅

instance (w : World) : Decidable w.Quiescent := inferInstanceAs (Decidable (_ ∧ _))

end World

end GasCity
