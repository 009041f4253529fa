import GasCity.Formula.Ralph
import GasCity.Keyed.List

/-! # The dispatcher's view of a workflow

The beads under one workflow root with the dependencies that block them, and the
predicates of `internal/dispatch` on the outcome of a bead.
-/

namespace GasCity

namespace Kind

abbrev task := "task"

end Kind

def controlKinds : List String :=
  [Kind.retry, Kind.ralph, Kind.check, Kind.retryEval, Kind.fanout, Kind.drain, Kind.scopeCheck,
    Kind.workflowFinalize]

def isControlKind (kind : String) : Bool :=
  controlKinds.contains kind

namespace Outcome

abbrev pass := "pass"
abbrev fail := "fail"
abbrev skipped := "skipped"
abbrev canceled := "canceled"

end Outcome

namespace Dispatch

inductive Status where
  | opened | inProgress | closed
  deriving DecidableEq

/-- A bead of a workflow, with the metadata the dispatcher reads. -/
structure Bead where
  id : String := ""
  status : Status := .opened
  metadata : Metadata := ∅
  deriving DecidableEq

namespace Bead

abbrev val (b : Bead) (key : MetaKey) : String := b.metadata.val key

def kind (b : Bead) : String := b.val .kind

def scopeRef (b : Bead) : String := b.val .scopeRef

def scopeRole (b : Bead) : String := b.val .scopeRole

end Bead

def closeWith (batch : Metadata) (b : Bead) : Bead :=
  { b with status := .closed, metadata := b.metadata.merge batch }

def closeOutcome (outcome : String) : Bead → Bead :=
  closeWith (.ofList [(.outcome, outcome)])

def mergeInto (batch : Metadata) (b : Bead) : Bead :=
  { b with metadata := b.metadata.merge batch }

def onBead (id : String) (f : Bead → Bead) (b : Bead) : Bead :=
  if b.id = id then f b else b

/-- The beads of one workflow root in the order of their creation.  A pair of `blocks` is an issue
and the bead it depends on. -/
structure Store where
  beads : List Bead := []
  blocks : List (String × String) := []
  deriving DecidableEq

namespace Store

def get (s : Store) (id : String) : Option Bead :=
  Keyed.lookup Bead.id id s.beads

/-- The beads that block `id`. -/
def downDeps (s : Store) (id : String) : List String :=
  (s.blocks.filter fun dep => dep.1 = id).map Prod.snd

def update (s : Store) (id : String) (f : Bead → Bead) : Store :=
  { s with beads := s.beads.map (onBead id f) }

def setMetadataBatch (s : Store) (id : String) (batch : Metadata) : Store :=
  s.update id (mergeInto batch)

def updateMetadataAndClose (s : Store) (id : String) (batch : Metadata) : Store :=
  s.update id (closeWith batch)

def setOutcomeAndClose (s : Store) (id outcome : String) : Store :=
  s.update id (closeOutcome outcome)

/-- A bead is ready when it is open and everything that blocks it is closed. -/
def ready (s : Store) (b : Bead) : Bool :=
  b.status = .opened &&
    (s.downDeps b.id).all fun id => (s.get id).any fun d => d.status = .closed

theorem update_update (s : Store) (id : String) {f : Bead → Bead} (g : Bead → Bead)
    (hf : ∀ b, (f b).id = b.id) : (s.update id f).update id g = s.update id (g ∘ f) := by
  simp only [update, List.map_map]
  congr 1
  apply List.map_congr_left
  intro b _
  by_cases hb : b.id = id <;> simp [onBead, hb, hf]

end Store

/-- The bead is an attempt of a retry or check control, which classifies its outcome. -/
def isRetryAttemptSubject (b : Bead) : Bool :=
  b.val .logicalBeadID != "" &&
    (b.kind == Kind.retryRun || b.kind == Kind.retryEval || b.val .attempt != "")

/-- A closed bead counts as failed.  Under `abort_scope` a missing or unknown outcome fails. -/
def beadOutcomeFailed (b : Bead) : Bool :=
  trimSpace (b.val .outcome) == Outcome.fail ||
    (trimSpace (b.val .onFail) == "abort_scope" && !isRetryAttemptSubject b &&
      !([Outcome.pass, Outcome.skipped, Outcome.canceled].contains (trimSpace (b.val .outcome))))

end Dispatch

end GasCity
