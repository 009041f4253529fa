import GasCity.Text.Trim
import GasCity.Search.Depth

/-! # The wisp collector

One run closes what is left open under finished roots, then deletes every closed and old root with
all it owns, then the closed wisps whose root is gone, and in the messaging store the read messages
past their retention.  Every call of the store may fail.
-/

namespace GasCity.WispGC

/-- A bead as the collector reads it.  Times count from Go's zero time. -/
structure Bead where
  id : String
  status : String
  type : String
  createdAt : ℤ
  updatedAt : ℤ
  parentID : String
  wispTier : Bool
  /-- `gc.kind` -/
  kind : String
  /-- `gc.formula_contract` -/
  formulaContract : String
  /-- `gc.root_bead_id` -/
  rootBeadID : String
  /-- `gc.gc_exempt` -/
  gcExempt : String
  /-- `mail.read` -/
  read : String
  deriving DecidableEq

structure Dep where
  issueID : String
  dependsOnID : String
  type : String
  deriving DecidableEq

structure Store where
  beads : List Bead
  deps : List Dep
  unique : (beads.map (·.id)).Nodup

/-- The calls of a run, each named by what it is made for. -/
inductive Call
  | listSpecs
  | getSpecRoot (rootID : String)
  | closeSpecs (rootID : String)
  | listOpenRoots
  | listSubtree (rootID : String)
  | closeRoot (rootID : String)
  | listClosedRoots
  | listOwned (rootID : String)
  | listEdges (rootID id : String)
  | deleteBatch (rootID : String) (chunk : List String)
  | deleteOwned (rootID id : String)
  | listWisps
  | getRoot (rootID : String)
  | reap (id : String)
  | listRead
  | deleteRead (id : String)
  deriving DecidableEq

/-- The configuration of a run, its clock and the faults of the stores. -/
structure Config where
  now : ℤ
  ttl : ℤ
  mailRetentionTTL : ℤ
  closeAbandonedTTL : ℤ
  closeAbandonedEnforced : Bool
  reapOrphansEnforced : Bool
  closurePurgeBatchCap : ℕ
  reapOrphanBatchCap : ℕ
  /-- The graph store deletes lists of beads. -/
  batchDeleter : Bool
  fails : Call → Bool
  /-- The edges that a failed delete could not put back. -/
  lost : Call → Dep → Bool

def Config.cutoff (cfg : Config) : ℤ := cfg.now - cfg.ttl

def Config.mailCutoff (cfg : Config) : ℤ := cfg.now - cfg.mailRetentionTTL

namespace Store

def get (s : Store) (id : String) : Option Bead :=
  s.beads.find? (·.id == id)

def children (s : Store) (id : String) : List Bead :=
  s.beads.filter (·.parentID == id)

def close (s : Store) (ids : List String) : Store where
  beads := s.beads.map fun b => if b.id ∈ ids then { b with status := "closed" } else b
  deps := s.deps
  unique := by
    have same : ((fun b : Bead => b.id) ∘ fun b =>
        if b.id ∈ ids then { b with status := "closed" } else b) = fun b => b.id := by
      ext b
      simp only [Function.comp_apply]
      split_ifs <;> rfl
    rw [List.map_map, same]
    exact s.unique

def dropEdges (s : Store) (p : Dep → Bool) : Store :=
  { s with deps := s.deps.filter fun d => !p d }

def remove (s : Store) (ids : List String) : Store where
  beads := s.beads.filter (·.id ∉ ids)
  deps := s.deps.filter fun d => d.issueID ∉ ids ∧ d.dependsOnID ∉ ids
  unique := s.unique.sublist (List.filter_sublist.map _)

end Store

def isTerminalStatus (status : String) : Bool :=
  status == "closed" || status == "tombstone"

/-- Old enough for the collector: created at a known time before the cutoff. -/
def expired (cutoff : ℤ) (b : Bead) : Bool :=
  b.createdAt != 0 && b.createdAt < cutoff

/-- Go's `strconv.ParseBool` with the words of the environment added. -/
def parseBoolEnv (v : String) : Bool :=
  let v := trimSpace v
  v ∈ ["1", "t", "T", "TRUE", "true", "True"] || v.toLower == "yes" || v.toLower == "on"

/-- The edges are taken off first and put back when the delete fails.  A bead that is not there
cannot be deleted. -/
def deleteWorkflowBead (cfg : Config) (call : Call) (s : Store) (id : String) : Store × Bool :=
  if cfg.fails call || (s.get id).isNone then
    (s.dropEdges fun d => (d.issueID == id || d.dependsOnID == id) && cfg.lost call d, false)
  else (s.remove [id], true)

def wispGCRootSelectors : List (Bead → Bool) :=
  [(·.type == "molecule"), (·.kind == "wisp"), (·.formulaContract == "graph.v2"),
    (·.kind == "workflow")]

def isWispGCRoot (b : Bead) : Bool :=
  wispGCRootSelectors.any fun sel => sel b

def addUnique (entries : List Bead) (b : Bead) : List Bead :=
  if b.id = "" ∨ entries.any (·.id == b.id) then entries else entries ++ [b]

def enumerateWispGCRoots (s : Store) (statuses : List String) : List Bead :=
  (statuses.flatMap fun status => wispGCRootSelectors.flatMap fun sel =>
    s.beads.filter fun b => b.status == status && sel b).foldl addUnique []

def closedWispGCEntries (s : Store) : List Bead :=
  enumerateWispGCRoots s ["closed"]

def openWispGCRootCandidates (s : Store) : List Bead :=
  enumerateWispGCRoots s ["open", "in_progress"]

def isWorkflowRoot (b : Bead) : Bool :=
  equalFold (trimSpace b.kind) "workflow" || equalFold (trimSpace b.formulaContract) "graph.v2"

def isGeneratedSpecSidecar (b : Bead) : Bool :=
  equalFold (trimSpace b.kind) "spec" || equalFold (trimSpace b.type) "spec"

def generatedSpecSidecarCandidates (s : Store) : List Bead :=
  ((s.beads.filter (·.type == "spec") ++ s.beads.filter (·.kind == "spec")).filter fun b =>
    b.status != "closed" && isGeneratedSpecSidecar b).foldl addUnique []

def closeSpecSidecarsForRoot (s : Store) (rootID : String) : Store :=
  s.close <| (s.beads.filter fun b => b.rootBeadID == rootID && b.id != "" &&
    b.status != "closed" && isGeneratedSpecSidecar b).map (·.id)

/-- The closed workflow roots of the open sidecars, `none` when a root cannot be read. -/
def closedSpecRoots (cfg : Config) (s : Store) : Option (List String) :=
  let rootIDs := ((generatedSpecSidecarCandidates s).map fun b => trimSpace b.rootBeadID).filter
    (· ≠ "")
  if rootIDs.any fun rootID => cfg.fails (.getSpecRoot rootID) then none
  else some <| (rootIDs.filter fun rootID =>
    (s.get rootID).any fun root => root.status == "closed" && isWorkflowRoot root).dedup

def closeSpecSidecarsOf (cfg : Config) : List String → Store → Store
  | [], s => s
  | rootID :: rootIDs, s =>
    if cfg.fails (.closeSpecs rootID) then s
    else closeSpecSidecarsOf cfg rootIDs (closeSpecSidecarsForRoot s rootID)

def closeSpecSidecarsForClosedRoots (cfg : Config) (s : Store) : Store :=
  if cfg.fails .listSpecs then s
  else match closedSpecRoots cfg s with
    | none => s
    | some rootIDs => closeSpecSidecarsOf cfg (rootIDs.mergeSort fun a b => decide (a ≤ b)) s

def isAbandonedRootCandidate (b : Bead) : Bool :=
  isWorkflowRoot b || b.type == "molecule"

def isGCExempt (b : Bead) : Bool :=
  parseBoolEnv (trimSpace b.gcExempt)

def beadLastActivity (b : Bead) : ℤ :=
  if b.updatedAt ≠ 0 then b.updatedAt else b.createdAt

/-- The beads that carry the root's id and, for every bead, its children. -/
def subtreeNext (s : Store) (rootID id : String) : Except Unit (List String) :=
  .ok <| ((if id = rootID then s.beads.filter (·.rootBeadID == rootID) else []) ++
    s.children id).map (·.id) |>.filter (· ≠ "")

def listSubtree (cfg : Config) (s : Store) (rootID : String) :
    Except (Option Unit) (List String) :=
  if cfg.fails (.listSubtree rootID) then .error (some ())
  else (Depth.visit (subtreeNext s rootID) (s.beads.length + 2) rootID ⟨[], []⟩).map (·.left)

/-- The beads below the root that are not sidecars, `none` when one of them is live or the
listing failed. -/
def subtreeTerminalExcludingRoot (cfg : Config) (s : Store) (rootID : String) : Option ℕ :=
  match listSubtree cfg s rootID with
  | .error _ => none
  | .ok ids =>
    let below := s.beads.filter fun b => b.id ∈ ids ∧ b.id ≠ rootID ∧ !isGeneratedSpecSidecar b
    if below.all fun b => isTerminalStatus b.status then some below.length else none

def isAbandoned (cfg : Config) (s : Store) (root : Bead) : Bool :=
  isAbandonedRootCandidate root && !isTerminalStatus root.status && !isGCExempt root &&
    beadLastActivity root < cfg.now - cfg.closeAbandonedTTL &&
    (subtreeTerminalExcludingRoot cfg s root.id).any (0 < ·)

def closeAbandonedRoots (cfg : Config) (s : Store) : Store :=
  if cfg.fails .listOpenRoots then s
  else (openWispGCRootCandidates s).foldl (fun s root =>
    if isAbandoned cfg s root && cfg.closeAbandonedEnforced && !cfg.fails (.closeRoot root.id)
    then s.close [root.id] else s) s

/-- What the walk visits under a bead: the beads with the root's id in their metadata, under the
root itself only, then the children, then what depends on the bead as a child on its parent. -/
def owned (s : Store) (rootID id : String) : List String :=
  ((if id = rootID then
      ((s.beads.filter (·.rootBeadID == rootID)).map (·.id)).filter (· ≠ rootID) else []) ++
    (s.children id).map (·.id) ++
    (s.deps.filter fun d => d.dependsOnID == id && d.type == "parent-child").map (·.issueID)).filter
      (· ≠ "")

def ownedNext (cfg : Config) (s : Store) (rootID id : String) : Except Unit (List String) :=
  if cfg.fails (.listEdges rootID id) then .error () else .ok (owned s rootID id)

def collectExpiredBeadClosure (cfg : Config) (s : Store) (rootID : String) :
    Except (Option Unit) (List String) :=
  if cfg.fails (.listOwned rootID) then .error (some ())
  else (Depth.visit (ownedNext cfg s rootID) (s.beads.length + s.deps.length + 2) rootID
    ⟨[], []⟩).map (·.left)

/-- One bead after the other, up to the first that fails. -/
def deleteEach (cfg : Config) (rootID : String) : List String → Store → Store × Bool
  | [], s => (s, true)
  | id :: ids, s =>
    match deleteWorkflowBead cfg (.deleteOwned rootID id) s id with
    | (s, true) => deleteEach cfg rootID ids s
    | (s, false) => (s, false)

def bdDeleteBatchChunk : ℕ := 256

def chunksOf (ids : List String) : List (List String) :=
  (List.range ((ids.length + bdDeleteBatchChunk - 1) / bdDeleteBatchChunk)).map fun i =>
    (ids.drop (i * bdDeleteBatchChunk)).take bdDeleteBatchChunk

/-- One call for each chunk.  A call that fails leaves the chunks before it deleted. -/
def deleteBatch (cfg : Config) (rootID : String) : List (List String) → Store → Store × Bool
  | [], s => (s, true)
  | chunk :: chunks, s =>
    if cfg.fails (.deleteBatch rootID chunk) then (s, false)
    else deleteBatch cfg rootID chunks (s.remove chunk)

def deleteWorkflowBeadsBatch (cfg : Config) (rootID : String) (ids : List String) (s : Store) :
    Store × Bool :=
  if cfg.batchDeleter then deleteBatch cfg rootID (chunksOf ids) s
  else deleteEach cfg rootID ids s

def deleteExpiredBeadClosure (cfg : Config) (s : Store) (rootID : String) : Store × Bool :=
  match collectExpiredBeadClosure cfg s rootID with
  | .error _ => (s, false)
  | .ok ids => deleteWorkflowBeadsBatch cfg rootID ids s

/-- The store during a sweep, with the count of what was purged. -/
structure Sweep where
  store : Store
  purged : ℕ

def Sweep.count (w : Sweep) (r : Store × Bool) : Sweep where
  store := r.1
  purged := if r.2 then w.purged + 1 else w.purged

/-- The cap counts the attempts, failed ones too; zero means no cap. -/
def purgeExpiredBeads (cutoff : ℤ) (batchCap : ℕ) (deleteFn : Store → String → Store × Bool) :
    List Bead → ℕ → Sweep → Sweep
  | [], _, w => w
  | entry :: entries, attempted, w =>
    if 0 < batchCap ∧ batchCap ≤ attempted then w
    else if expired cutoff entry then
      purgeExpiredBeads cutoff batchCap deleteFn entries (attempted + 1)
        (w.count (deleteFn w.store entry.id))
    else purgeExpiredBeads cutoff batchCap deleteFn entries attempted w

/-- The root of a wisp is gone or finished.  A root that cannot be read is taken for live. -/
def rootCollectible (cfg : Config) (s : Store) (rootID : String) : Bool :=
  !cfg.fails (.getRoot rootID) &&
    match s.get rootID with
    | none => true
    | some root => isTerminalStatus root.status

def reapLoop (cfg : Config) : List Bead → ℕ → Sweep → Sweep
  | [], _, w => w
  | c :: candidates, attempted, w =>
    if 0 < cfg.reapOrphanBatchCap ∧ cfg.reapOrphanBatchCap ≤ attempted then w
    else if c.rootBeadID ≠ "" && expired cfg.cutoff c &&
        rootCollectible cfg w.store c.rootBeadID then
      reapLoop cfg candidates (attempted + 1)
        (w.count (deleteWorkflowBead cfg (.reap c.id) w.store c.id))
    else reapLoop cfg candidates attempted w

def reapOrphanedClosedWisps (cfg : Config) (w : Sweep) : Sweep :=
  if cfg.fails .listWisps then w
  else if cfg.reapOrphansEnforced then
    reapLoop cfg (w.store.beads.filter fun b => b.status == "closed" && b.wispTier) 0 w
  else w

def isReadMessageWisp (b : Bead) : Bool :=
  b.type == "message" && b.read == "true" && b.wispTier

def purgeReadMessageWisps (cfg : Config) (w : Sweep) : Sweep :=
  if cfg.fails .listRead then w
  else purgeExpiredBeads cfg.mailCutoff 0
    (fun s id => deleteWorkflowBead cfg (.deleteRead id) s id)
    (w.store.beads.filter isReadMessageWisp) 0 w

/-- Where the messages live: nowhere, in the graph store, or in a store of their own. -/
inductive MailStore
  | absent
  | shared
  | own (s : Store)

structure Stores where
  graph : Store
  mail : MailStore

def closingPhase (cfg : Config) (s : Store) : Store :=
  if 0 < cfg.ttl then closeAbandonedRoots cfg (closeSpecSidecarsForClosedRoots cfg s) else s

/-- The deletion of the closed roots, from the store that the closing left. -/
def purgePhase (cfg : Config) (s : Store) : Sweep :=
  if 0 < cfg.ttl then
    purgeExpiredBeads cfg.cutoff cfg.closurePurgeBatchCap (deleteExpiredBeadClosure cfg)
      (closedWispGCEntries s) 0 ⟨s, 0⟩
  else ⟨s, 0⟩

def graphPhase (cfg : Config) (s : Store) : Sweep :=
  if 0 < cfg.ttl then reapOrphanedClosedWisps cfg (purgePhase cfg s) else purgePhase cfg s

def mailPhase (cfg : Config) (mail : MailStore) (w : Sweep) : Sweep × MailStore :=
  if 0 < cfg.mailRetentionTTL then
    match mail with
    | .absent => (w, .absent)
    | .shared => (purgeReadMessageWisps cfg w, .shared)
    | .own s =>
      let r := purgeReadMessageWisps cfg { w with store := s }
      ({ r with store := w.store }, .own r.store)
  else (w, mail)

/-- A failed listing of the closed roots ends the run, the messages included. -/
def runGC (cfg : Config) (w : Stores) : Sweep × MailStore :=
  let s := closingPhase cfg w.graph
  if 0 < cfg.ttl ∧ cfg.fails .listClosedRoots = true then (⟨s, 0⟩, w.mail)
  else mailPhase cfg w.mail (graphPhase cfg s)

end GasCity.WispGC
