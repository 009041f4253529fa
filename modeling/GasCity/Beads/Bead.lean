import GasCity.Table.Basic
import Mathlib.Data.String.Basic

/-! # Beads

The data model of `internal/beads`: timestamps, dependencies, beads and the
options of an update.  A nil and an empty slice or map are not distinguished,
since no modelled function tells them apart.
-/

namespace GasCity

/-- An instant, in nanoseconds since the zero value of Go's `time.Time`. -/
structure Time where
  ns : Int
  deriving DecidableEq

namespace Time

instance : LE Time := ⟨fun s t => s.ns ≤ t.ns⟩
instance : LT Time := ⟨fun s t => s.ns < t.ns⟩
instance (s t : Time) : Decidable (s ≤ t) := inferInstanceAs (Decidable (s.ns ≤ t.ns))
instance (s t : Time) : Decidable (s < t) := inferInstanceAs (Decidable (s.ns < t.ns))

theorem lt_def {s t : Time} : s < t ↔ s.ns < t.ns := Iff.rfl

/-- The zero value of `time.Time`. -/
def zero : Time := ⟨0⟩

def isZero (t : Time) : Bool := t.ns == 0

/-- Nanoseconds since the Unix epoch. -/
def sinceEpoch (t : Time) : Int := t.ns - 62135596800 * 1000000000

/-- Go's `UnixNano`, in `int64`. -/
def unixNano (t : Time) : Int := t.sinceEpoch.bmod (2 ^ 64)

end Time

/-- A string-valued map whose missing keys read as the empty string. -/
abbrev StringMap := Table String String

namespace StringMap

/-- Go's `m[key]` on a string map. -/
def val (m : StringMap) (key : String) : String := m.getD key ""

/-- Go's `len(m) == 0`. -/
def isEmpty (m : StringMap) : Bool := decide (m.keys = ∅)

end StringMap

/-- A dependency: `issueID` depends on `dependsOnID`. -/
structure Dep where
  issueID : String
  dependsOnID : String
  type : String
  deriving DecidableEq

/-- A single unit of work.  `from_` is the source's `From`. -/
structure Bead where
  id : String := ""
  title : String := ""
  status : String := ""
  type : String := ""
  priority : Option Int := none
  createdAt : Time := .zero
  updatedAt : Time := .zero
  assignee : String := ""
  from_ : String := ""
  parentID : String := ""
  ref : String := ""
  needs : List String := []
  description : String := ""
  labels : List String := []
  metadata : StringMap := ∅
  dependencies : List Dep := []
  ephemeral : Bool := false
  noHistory : Bool := false
  deferUntil : Option Time := none
  isBlocked : Option Bool := none
  revision : Int := 0
  claimFence : Int := 0
  deriving DecidableEq

/-- The user-visible content of a bead: everything but its two `json:"-"` tokens. -/
def Bead.visible (b : Bead) : Bead := { b with revision := 0, claimFence := 0 }

/-- Rows indexed by their id; of two rows with one id the later one counts. -/
def beadByID (rows : List Bead) : Table String Bead := .ofList (rows.map fun b => (b.id, b))

theorem get_beadByID {rows : List Bead} (h : (rows.map Bead.id).Nodup) {id : String} {b : Bead} :
    (beadByID rows).get id = some b ↔ b ∈ rows ∧ b.id = id := by
  rw [beadByID, Table.get_ofList (by simpa [Function.comp_def] using h), List.mem_map]
  constructor
  · rintro ⟨b', hb', heq⟩
    obtain ⟨rfl, rfl⟩ := Prod.mk.inj heq
    exact ⟨hb', rfl⟩
  · rintro ⟨hb, rfl⟩
    exact ⟨b, hb, rfl⟩

/-- The fields an update changes; an absent option leaves its field alone. -/
structure UpdateOpts where
  title : Option String := none
  status : Option String := none
  type : Option String := none
  priority : Option Int := none
  description : Option String := none
  parentID : Option String := none
  assignee : Option String := none
  labels : List String := []
  removeLabels : List String := []
  metadata : StringMap := ∅
  deriving DecidableEq

def isEmptyUpdateOpts (o : UpdateOpts) : Bool :=
  o.title.isNone && o.status.isNone && o.type.isNone && o.priority.isNone &&
    o.description.isNone && o.parentID.isNone && o.assignee.isNone &&
    o.labels.isEmpty && o.removeLabels.isEmpty && StringMap.isEmpty o.metadata

/-- The errors of the stores.  A not-found error carries the phrase it wraps. -/
inductive Err where
  | notFound (doing : String) (id : String)
  | emptyConditionalUpdate (id : String)
  | conditionalWriteUnsupported
  | preconditionFailed (id : String) (expected current : Int)
  | queryRequiresScan
  deriving DecidableEq

end GasCity
