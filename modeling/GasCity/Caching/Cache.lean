import GasCity.MemStore.Basic

/-! # The cache of `CachingStore`

The maps `beads`, `deps`, `dirty`, `beadSeq`, `localBeadAt` and `deletedSeq` are indexed by bead id;
the model keeps one `Entry` per id with a field for each.  As in the source, a sequence number of
zero and the zero time stand for a missing map entry.
-/

namespace GasCity

inductive CacheState where
  | cacheUninitialized
  | cachePartial
  | cacheLive
  | cacheDegraded
  deriving DecidableEq

/-- The dependencies a bead carries: its structured dependencies, or else its parsed needs. -/
def depsFromBeadFields (b : Bead) : List Dep :=
  if b.dependencies.isEmpty then
    b.needs.map fun need =>
      { issueID := b.id, dependsOnID := (parseNeed need).2, type := (parseNeed need).1 }
  else b.dependencies

def beadCarriesDependencyFields (b : Bead) : Bool := !b.dependencies.isEmpty || !b.needs.isEmpty

def stringSetEqual (a b : List String) : Bool := a.isPerm b

def depSetEqual (a b : List Dep) : Bool := a.isPerm b

def depsChanged (old fresh : List Dep) : Bool := !depSetEqual old fresh

/-- Whether two rows differ, but for the update time, the no-history flag and the two tokens;
labels, needs and dependencies compare as multisets. -/
def beadChanged (old fresh : Bead) (skipLabels : Bool) : Bool :=
  old.id != fresh.id || old.title != fresh.title || old.status != fresh.status ||
    old.type != fresh.type || old.priority != fresh.priority || old.createdAt != fresh.createdAt ||
    old.assignee != fresh.assignee || old.from_ != fresh.from_ || old.parentID != fresh.parentID ||
    old.ref != fresh.ref || old.description != fresh.description ||
    old.ephemeral != fresh.ephemeral || old.deferUntil != fresh.deferUntil ||
    old.isBlocked != fresh.isBlocked || old.metadata != fresh.metadata ||
    (!skipLabels && !stringSetEqual old.labels fresh.labels) ||
    !stringSetEqual old.needs fresh.needs || !depSetEqual old.dependencies fresh.dependencies

@[simp]
theorem beadChanged_self (b : Bead) (skipLabels : Bool) : beadChanged b b skipLabels = false := by
  simp [beadChanged, stringSetEqual, depSetEqual, List.isPerm_iff]

/-- Whether a local write is still inside the five-second recency window. -/
def recentLocalMutation (mutatedAt now : Time) : Bool :=
  !mutatedAt.isZero && decide (now.ns - mutatedAt.ns ≤ 5 * 1000000000)

inductive AbsorbDepsMode where
  | depsExplicit (deps : List Dep)
  | depsFromFields
  | depsFromFieldsIfCarried
  | depsKeepCached
  | depsDrop
  deriving DecidableEq

/-- How an absorb treats the two staleness fences of a row. -/
inductive AbsorbSeqMode where
  | seqKeep
  | seqClearGuarded
  | seqClearBeadSeqOnly
  deriving DecidableEq

structure AbsorbOpts where
  depsMode : AbsorbDepsMode
  seqMode : AbsorbSeqMode
  clearDirty : Bool
  deriving DecidableEq

structure Entry where
  bead : Option Bead := none
  deps : Option (List Dep) := none
  dirty : Bool := false
  beadSeq : Nat := 0
  localBeadAt : Time := .zero
  deletedSeq : Nat := 0
  deriving DecidableEq

namespace Entry

def absorbDeps (e : Entry) (b : Bead) : AbsorbDepsMode → Option (List Dep)
  | .depsExplicit deps => some deps
  | .depsFromFields => some (depsFromBeadFields b)
  | .depsFromFieldsIfCarried =>
    if beadCarriesDependencyFields b then some (depsFromBeadFields b) else e.deps
  | .depsKeepCached => e.deps
  | .depsDrop => none

def absorbClearsSeq (e : Entry) (now : Time) : AbsorbSeqMode → Bool
  | .seqKeep => false
  | .seqClearGuarded => !recentLocalMutation e.localBeadAt now
  | .seqClearBeadSeqOnly => true

def absorbFresh (e : Entry) (b : Bead) (now : Time) (opts : AbsorbOpts) : Entry where
  bead := some b
  deps := e.absorbDeps b opts.depsMode
  dirty := e.dirty && !opts.clearDirty
  beadSeq := if e.absorbClearsSeq now opts.seqMode then 0 else e.beadSeq
  localBeadAt :=
    if opts.seqMode = .seqClearGuarded ∧ e.absorbClearsSeq now opts.seqMode then .zero
    else e.localBeadAt
  deletedSeq := 0

def tombstone (seq : Nat) : Entry := { deletedSeq := seq }

def markDirty (e : Entry) : Entry := { e with dirty := true }

def clearStalenessMarks (e : Entry) : Entry := { e with dirty := false, deletedSeq := 0 }

def hasReadyProjection (e : Entry) : Bool := e.bead.any (·.isBlocked.isSome)

def clearReadyProjection (e : Entry) : Entry :=
  { e with bead := e.bead.map fun b => { b with isBlocked := none } }

def fenced (e : Entry) (startSeq : Nat) : Bool :=
  decide (startSeq < e.deletedSeq) || decide (startSeq < e.beadSeq)

/-- The cached row, when a recent local write makes it win over a fresh row that differs. -/
def recentLocalBeadConflict (e : Entry) (fresh : Bead) (now : Time) (skipLabels : Bool) :
    Option Bead :=
  e.bead.filter fun current =>
    recentLocalMutation e.localBeadAt now && beadChanged current fresh skipLabels

end Entry

structure Cache where
  entries : Table String Entry := ∅
  failedBlockers : Finset String := ∅
  depsComplete : Bool := false
  state : CacheState := .cacheUninitialized
  mutationSeq : Nat := 0
  primePartialErr : Bool := false
  deriving DecidableEq

namespace Cache

/-- The entry of an id; an id without any map entry has the default one. -/
def entry (c : Cache) (id : String) : Entry := c.entries.getD id {}

def modify (c : Cache) (id : String) (f : Entry → Entry) : Cache :=
  { c with entries := c.entries.set id (f (c.entry id)) }

def modifyAll (c : Cache) (ids : Finset String) (f : String → Entry → Entry) : Cache :=
  { c with
    entries := .ofKeys (c.entries.keys ∪ ids) fun id =>
      if id ∈ ids then some (f id (c.entry id)) else c.entries.get id }

def bead (c : Cache) (id : String) : Option Bead := (c.entry id).bead

def isDirty (c : Cache) (id : String) : Bool := (c.entry id).dirty

def dirty (c : Cache) : Finset String := c.entries.keys.filter fun id => c.isDirty id

def liveOrPartial (c : Cache) : Bool :=
  decide (c.state = .cacheLive) || decide (c.state = .cachePartial)

def cacheServable (c : Cache) : Bool := c.liveOrPartial && !c.primePartialErr

def noteMutation (c : Cache) (ids : List String) : Cache :=
  { c with mutationSeq := c.mutationSeq + 1 }.modifyAll (ids.toFinset.erase "") fun _ e =>
    { e with beadSeq := c.mutationSeq + 1 }

/-- As `noteMutation`, and stamp the ids as recently written by this process. -/
def noteLocalMutation (c : Cache) (ids : List String) (now : Time) : Cache :=
  (c.noteMutation ids).modifyAll (ids.toFinset.erase "") fun _ e => { e with localBeadAt := now }

def absorbFresh (c : Cache) (id : String) (b : Bead) (now : Time) (opts : AbsorbOpts) : Cache :=
  c.modify id (·.absorbFresh b now opts)

def tombstone (c : Cache) (id : String) (seq : Nat) : Cache :=
  { c.modify id fun _ => .tombstone seq with failedBlockers := c.failedBlockers.erase id }

def markDirty (c : Cache) (id : String) : Cache := c.modify id Entry.markDirty

def clearStalenessMarks (c : Cache) (id : String) : Cache := c.modify id Entry.clearStalenessMarks

def clearReadyProjection (c : Cache) (id : String) : Cache :=
  c.modify id Entry.clearReadyProjection

/-- The rows whose readiness projection depends on the given bead: with incomplete dependency
coverage all of them. -/
def dependentProjections (c : Cache) (dependsOnID : String) : Finset String :=
  if dependsOnID = "" then ∅
  else c.entries.keys.filter fun id =>
    (c.entry id).hasReadyProjection && (!c.depsComplete || ((c.entry id).deps.getD []).any fun d =>
      d.dependsOnID == dependsOnID && isReadyBlockingDependencyType d.type)

def clearDependentReadyProjections (c : Cache) (dependsOnID : String) : Cache :=
  if c.dependentProjections dependsOnID = ∅ then c
  else
    { c with mutationSeq := c.mutationSeq + 1 }.modifyAll (c.dependentProjections dependsOnID)
      fun id e =>
        { e.clearReadyProjection with
          beadSeq := if id = "" then e.beadSeq else c.mutationSeq + 1 }

variable {c : Cache} {id id' : String} {f : Entry → Entry}

theorem entry_eq_default (h : id ∉ c.entries.keys) : c.entry id = {} := by
  simp [entry, Table.getD, Table.notMem_keys.mp h]

/-- A property of the default entry has to be checked on the stored entries only. -/
theorem forall_entry {P : String → Entry → Prop} (hdefault : ∀ id ∉ c.entries.keys, P id {})
    (h : ∀ id ∈ c.entries.keys, P id (c.entry id)) (id : String) : P id (c.entry id) := by
  by_cases hid : id ∈ c.entries.keys
  · exact h id hid
  · rw [entry_eq_default hid]
    exact hdefault id hid

theorem entry_modify :
    (c.modify id f).entry id' = if id' = id then f (c.entry id) else c.entry id' := by
  by_cases h : id' = id <;> simp [entry, modify, Table.getD, h]

@[simp]
theorem entry_modify_self : (c.modify id f).entry id = f (c.entry id) := by
  simp [entry_modify]

theorem entry_modify_of_ne (h : id' ≠ id) : (c.modify id f).entry id' = c.entry id' := by
  simp [entry_modify, h]

theorem entry_modifyAll {ids : Finset String} {f : String → Entry → Entry} :
    (c.modifyAll ids f).entry id = if id ∈ ids then f id (c.entry id) else c.entry id := by
  by_cases h : id ∈ ids
  · simp [entry, modifyAll, Table.getD, Table.get_ofKeys, h]
  · by_cases hk : id ∈ c.entries.keys
    · simp [entry, modifyAll, Table.getD, Table.get_ofKeys, h, hk]
    · simp [entry, modifyAll, Table.getD, Table.get_ofKeys, h, hk, Table.notMem_keys.mp hk]

end Cache

end GasCity
