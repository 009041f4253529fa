import GasCity.Dispatch.Scope
import GasCity.Search.Worklist

/-! # Source chains

A workflow root may name the bead it was started for, its source, in some store, and the source may
name a source in turn.  When a workflow passes, `walkSourceBeadChain` closes the sources upward as
long as no other live workflow below them is left.
-/

namespace GasCity.Dispatch

def isWorkflowRoot (b : Bead) : Bool :=
  equalFold (trimSpace b.kind) Kind.workflow ||
    equalFold (trimSpace (b.val .formulaContract)) "graph.v2"

/-- The root was started for the source.  A root without a store reference means the store it lives
in. -/
def workflowMatchesSource (root : Bead) (sourceID sourceRef rootRef : String) : Bool :=
  trimSpace sourceID != "" && trimSpace (root.val .sourceBeadID) == trimSpace sourceID &&
    (trimSpace sourceRef == "" ||
      if trimSpace (root.val .sourceStoreRef) ≠ "" then
        trimSpace (root.val .sourceStoreRef) == trimSpace sourceRef
      else trimSpace rootRef != "" && trimSpace rootRef == trimSpace sourceRef)

/-- The store lists by the exact text of `gc.source_bead_id`. -/
def namesSource (b : Bead) (sourceID : String) : Bool :=
  b.val .sourceBeadID == trimSpace sourceID

def listLiveRoots (s : Store) (sourceID sourceRef rootRef : String) : List Bead :=
  s.beads.filter fun b => b.status != .closed && namesSource b sourceID && isWorkflowRoot b &&
    workflowMatchesSource b sourceID sourceRef rootRef

def sourceWorkflowChildSources (s : Store) (sourceID sourceRef rootRef : String) : List Bead :=
  s.beads.filter fun b => namesSource b sourceID && b.id != "" && !isWorkflowRoot b &&
    workflowMatchesSource b sourceID sourceRef rootRef

/-- The finalized root, by its id and the store reference of its source. -/
def isExcludedRoot (rootID rootSourceRef : String) (b : Bead) : Bool :=
  trimSpace rootID != "" && b.id == trimSpace rootID &&
    (trimSpace rootSourceRef == "" ||
      trimSpace (b.val .sourceStoreRef) == trimSpace rootSourceRef)

def withoutSourceWorkflowRoot (roots : List Bead) (rootID rootSourceRef : String) : List Bead :=
  roots.filter fun b => !isExcludedRoot rootID rootSourceRef b

abbrev Stores := ℕ → Store

/-- A store that is scanned for live roots, with its reference. -/
structure SourceWorkflowStore where
  store : ℕ
  storeRef : String
  deriving DecidableEq

/-- A place of the scan: the source looked for, in the store at an index of the list. -/
structure ScanNode where
  index : ℕ
  info : SourceWorkflowStore
  sourceRef : String
  sourceID : String
  deriving DecidableEq

def scanScope (index : ℕ) (storeRef : String) : String :=
  if trimSpace storeRef = "" then "store#" ++ toString index else trimSpace storeRef

def sourceWorkflowScanKey (n : ScanNode) : String × String × String :=
  (scanScope n.index n.info.storeRef, trimSpace n.sourceRef, trimSpace n.sourceID)

def scanNodes (scanned : List SourceWorkflowStore) (sourceID sourceRef : String) : List ScanNode :=
  if trimSpace sourceID = "" then []
  else scanned.zipIdx.map fun entry =>
    ⟨entry.2, entry.1, trimSpace sourceRef, trimSpace sourceID⟩

section Scan

variable (w : Stores) (scanned : List SourceWorkflowStore)

def scanRoots (rootID rootSourceRef : String) (n : ScanNode) : List Bead :=
  withoutSourceWorkflowRoot
    (listLiveRoots (w n.info.store) n.sourceID n.sourceRef n.info.storeRef) rootID rootSourceRef

def scanChildren (n : ScanNode) : List ScanNode :=
  (sourceWorkflowChildSources (w n.info.store) n.sourceID n.sourceRef n.info.storeRef).flatMap
    fun child => scanNodes scanned child.id n.info.storeRef

def scannedBeads : List Bead :=
  scanned.flatMap fun info => (w info.store).beads

def scanFuel : ℕ :=
  let n := scanned.length
  let beads := (scannedBeads w scanned).length
  n + n * (n + 1) * (beads + 1) * (beads * n)

/-- The live roots below a source: those that name it, and those below its child sources. -/
def listLiveSourceWorkflowRoots (sourceID sourceRef rootID rootSourceRef : String) :
    Option (List Bead) :=
  Worklist.search sourceWorkflowScanKey (scanRoots w rootID rootSourceRef) (scanChildren w scanned)
    (scanFuel w scanned) (scanNodes scanned sourceID sourceRef) [] []

end Scan

inductive ChainPhase where
  | getCurrent | resolve | lock | getSource | scan | propagate | close
  deriving DecidableEq

inductive ChainError where
  | failed (phase : ChainPhase)
  | unresolved
  | scanFuel
  | depthLimit
  deriving DecidableEq

/-- What the caller of `ProcessControl` provides. -/
structure ChainOptions where
  /-- `ResolveStoreRef`, when there is one; no store for a reference is an error. -/
  resolveStoreRef : Option (String → Option ℕ) := none
  /-- `SourceWorkflowStores`, when there is one. -/
  sourceWorkflowStores : Option (List SourceWorkflowStore) := none
  /-- `SourceWorkflowLock` is set. -/
  sourceWorkflowLock : Bool := false

/-- Where the walk is, and the sources it has seen. -/
structure Position where
  store : ℕ
  id : String
  ref : String := ""
  excludeRef : String := ""
  visited : List (String × String) := []
  deriving DecidableEq

/-- What a hop leaves: the stores, and why the walk ends or where it goes on. -/
inductive HopResult where
  | stop (w : Stores)
  | fail (w : Stores) (error : ChainError)
  | next (w : Stores) (p : Position)

def sourceWorkflowStoresForLiveRootScan (opts : ChainOptions) (fallback : ℕ) (sourceRef : String) :
    List SourceWorkflowStore :=
  match opts.sourceWorkflowStores with
  | none | some [] => [⟨fallback, trimSpace sourceRef⟩]
  | some stores => stores.map fun info => { info with storeRef := trimSpace info.storeRef }

def Stores.update (w : Stores) (store : ℕ) (id : String) (f : Bead → Bead) : Stores :=
  Function.update w store ((w store).update id f)

def closeSourceBeadPreservingOutcome (b : Bead) : Bead :=
  if trimSpace (b.val .outcome) = "" then closeOutcome Outcome.pass b
  else { b with status := .closed }

/-- The store and reference of the source that a bead names. -/
inductive SourceStore where
  | found (store : ℕ) (ref : String)
  | noResolver
  | error (error : ChainError)

def resolveSourceStore (opts : ChainOptions) (fails : ChainPhase → Bool) (p : Position)
    (nextRef : String) : SourceStore :=
  if nextRef = "" then .found p.store p.ref
  else
    match opts.resolveStoreRef with
    | none => .noResolver
    | some resolve =>
      if fails .resolve then .error (.failed .resolve)
      else
        match resolve nextRef with
        | none => .error .unresolved
        | some store => .found store nextRef

section Walk

variable (opts : ChainOptions) (rootID : String) (mutate : Bool)

/-- Load the source, and close it unless a live root is found below it. -/
def loadAndClose (fails : ChainPhase → Bool) (w : Stores) (current : Bead) (p : Position) :
    HopResult :=
  if fails .getSource then .fail w (.failed .getSource)
  else
    match (w p.store).get p.id with
    | none => .stop w
    | some loaded =>
      if fails .scan then .fail w (.failed .scan)
      else
        match listLiveSourceWorkflowRoots w
            (sourceWorkflowStoresForLiveRootScan opts p.store p.ref) p.id p.ref rootID
            p.excludeRef with
        | none => .fail w .scanFuel
        | some (_ :: _) => .stop w
        | some [] =>
          let batch := nonGCMetadata current.metadata
          let w' := w.update p.store p.id (mergeInto batch)
          if !mutate then .next w p
          else if batch ≠ ∅ ∧ fails .propagate then .fail w (.failed .propagate)
          else if loaded.status = .closed then .next w' p
          else if fails .close then .fail w' (.failed .close)
          else .next (w'.update p.store p.id closeSourceBeadPreservingOutcome) p

/-- One turn of the loop of `walkSourceBeadChain`. -/
def hop (fails : ChainPhase → Bool) (w : Stores) (p : Position) : HopResult :=
  if fails .getCurrent then .fail w (.failed .getCurrent)
  else
    match (w p.store).get p.id with
    | none => .stop w
    | some current =>
      let excludeRef := if p.id = rootID ∧ p.ref = "" then trimSpace (current.val .sourceStoreRef)
        else p.excludeRef
      let nextID := trimSpace (current.val .sourceBeadID)
      if nextID = "" then .stop w
      else
        match resolveSourceStore opts fails p (trimSpace (current.val .sourceStoreRef)) with
        | .noResolver => .stop w
        | .error e => .fail w e
        | .found store ref =>
          if (trimSpace ref, nextID) ∈ p.visited then .stop w
          else if mutate && opts.sourceWorkflowLock && fails .lock then .fail w (.failed .lock)
          else loadAndClose opts rootID mutate fails w current
            { store, id := nextID, ref, excludeRef
              visited := (trimSpace ref, nextID) :: p.visited }

def walkFrom (fails : ℕ → ChainPhase → Bool) :
    ℕ → ℕ → Stores → Position → Stores × Option ChainError
  | 0, _, w, _ => (w, some .depthLimit)
  | hops + 1, n, w, p =>
    match hop opts rootID mutate (fails n) w p with
    | .stop w => (w, none)
    | .fail w e => (w, some e)
    | .next w p => walkFrom fails hops (n + 1) w p

def maxSourceChainHops : ℕ := 32

def walkSourceBeadChain (fails : ℕ → ChainPhase → Bool) (w : Stores) (rootStore : ℕ) :
    Stores × Option ChainError :=
  walkFrom opts rootID mutate fails maxSourceChainHops 0 w { store := rootStore, id := rootID }

end Walk

def preflightSourceBeadChain (opts : ChainOptions) (fails : ℕ → ChainPhase → Bool) (w : Stores)
    (rootStore : ℕ) (rootID : String) : Stores × Option ChainError :=
  walkSourceBeadChain opts rootID false fails w rootStore

def closeSourceBeadChain (opts : ChainOptions) (fails : ℕ → ChainPhase → Bool) (w : Stores)
    (rootStore : ℕ) (rootID : String) : Stores × Option ChainError :=
  walkSourceBeadChain opts rootID true fails w rootStore

end GasCity.Dispatch
