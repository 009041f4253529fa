import GasCity.Beads.Bead
import GasCity.Sorted.List

/-! # List queries

The filter, order and limit of `ListQuery`.  The fields `ParentIDs`,
`SkipLabels` and `AllowBackingCreatedLimit`, which neither the in-memory store
nor the cache reads, are left out.
-/

namespace GasCity

/-- Result orders; the default leaves the store's own order. -/
inductive SortOrder where
  | default
  | createdAsc
  | createdDesc
  deriving DecidableEq

inductive TierMode where
  | issues
  | wisps
  | both
  deriving DecidableEq

/-- The per-call options of the legacy list helpers. -/
inductive QueryOpt where
  | includeClosed
  | withEphemeral
  | withBothTiers
  deriving DecidableEq

def hasOpt (opts : List QueryOpt) (want : QueryOpt) : Bool := decide (want ∈ opts)

def tierModeFromOpts (opts : List QueryOpt) : TierMode :=
  if hasOpt opts .withBothTiers then .both
  else if hasOpt opts .withEphemeral then .wisps
  else .issues

structure SeekBoundary where
  createdAt : Time
  id : String
  deriving DecidableEq

def SeekBoundary.after (sb : SeekBoundary) (b : Bead) : SortOrder → Bool
  | .createdAsc => decide (sb.createdAt < b.createdAt) ||
      (b.createdAt == sb.createdAt && decide (sb.id < b.id))
  | .createdDesc => decide (b.createdAt < sb.createdAt) ||
      (b.createdAt == sb.createdAt && decide (b.id < sb.id))
  | .default => false

/-- A filtered lookup: every populated field must match. -/
structure ListQuery where
  status : String := ""
  type : String := ""
  label : String := ""
  assignee : String := ""
  assignees : List String := []
  parentID : String := ""
  metadata : StringMap := ∅
  createdBefore : Time := .zero
  updatedBefore : Time := .zero
  limit : Int := 0
  includeClosed : Bool := false
  allowScan : Bool := false
  live : Bool := false
  sort : SortOrder := .default
  tierMode : TierMode := .issues
  seekAfter : Option SeekBoundary := none
  deriving DecidableEq

def beadUpdatedReferenceTime (b : Bead) : Time :=
  if b.updatedAt.isZero then b.createdAt else b.updatedAt

def beadHasLabel (b : Bead) (want : String) : Bool := decide (want ∈ b.labels)

def matchesMetadata (b : Bead) (filters : StringMap) : Bool :=
  decide (∀ k ∈ filters.keys, StringMap.val b.metadata k = StringMap.val filters k)

namespace ListQuery

def hasFilter (q : ListQuery) : Bool :=
  q.status != "" || q.type != "" || q.label != "" || q.assignee != "" ||
    !q.assignees.isEmpty || q.parentID != "" || !StringMap.isEmpty q.metadata ||
    !q.createdBefore.isZero || !q.updatedBefore.isZero || q.seekAfter.isSome

def includesClosed (q : ListQuery) : Bool := q.includeClosed || q.status == "closed"

def matchesTier (q : ListQuery) (b : Bead) : Bool :=
  match q.tierMode with
  | .wisps => b.ephemeral || b.noHistory
  | .both => true
  | .issues => !b.ephemeral

def matchesStatus (q : ListQuery) (b : Bead) : Bool :=
  if q.status != "" then b.status == q.status
  else q.includeClosed || b.status != "closed"

def «matches» (q : ListQuery) (b : Bead) : Bool :=
  q.matchesTier b && q.matchesStatus b &&
    (q.type == "" || b.type == q.type) &&
    (q.label == "" || beadHasLabel b q.label) &&
    (q.assignee == "" || b.assignee == q.assignee) &&
    (q.assignees.isEmpty || decide (b.assignee ∈ q.assignees)) &&
    (q.parentID == "" || b.parentID == q.parentID) &&
    (StringMap.isEmpty q.metadata || matchesMetadata b q.metadata) &&
    (q.createdBefore.isZero || decide (b.createdAt < q.createdBefore)) &&
    (q.updatedBefore.isZero || decide (beadUpdatedReferenceTime b < q.updatedBefore)) &&
    q.seekAfter.all fun sb => sb.after b q.sort

end ListQuery

/-- The `(created_at, id)` order. -/
def CreatedLE (a b : Bead) : Prop :=
  a.createdAt < b.createdAt ∨ a.createdAt = b.createdAt ∧ a.id ≤ b.id

instance (a b : Bead) : Decidable (CreatedLE a b) := inferInstanceAs (Decidable (_ ∨ _))

theorem Time.ext_iff' {s t : Time} : s = t ↔ s.ns = t.ns := by
  cases s; cases t; simp

instance : Std.Total CreatedLE := ⟨fun a b => by
  simp only [CreatedLE, Time.lt_def, Time.ext_iff']
  rcases lt_trichotomy a.createdAt.ns b.createdAt.ns with h | h | h
  · exact .inl (.inl h)
  · rcases le_total a.id b.id with h' | h'
    · exact .inl (.inr ⟨h, h'⟩)
    · exact .inr (.inr ⟨h.symm, h'⟩)
  · exact .inr (.inl h)⟩

instance : IsTrans Bead CreatedLE := ⟨fun a b c => by
  simp only [CreatedLE, Time.lt_def, Time.ext_iff']
  rintro (h | ⟨h, hid⟩) (h' | ⟨h', hid'⟩)
  · exact .inl (h.trans h')
  · exact .inl (h' ▸ h)
  · exact .inl (h ▸ h')
  · exact .inr ⟨h.trans h', hid.trans hid'⟩⟩

instance : Std.Total (fun a b : Bead => CreatedLE b a) := ⟨fun a b => Std.Total.total b a⟩

instance : IsTrans Bead (fun a b => CreatedLE b a) := ⟨fun _ _ _ h h' => IsTrans.trans _ _ _ h' h⟩

theorem CreatedLE.id_eq {a b : Bead} (h : CreatedLE a b) (h' : CreatedLE b a) : a.id = b.id := by
  simp only [CreatedLE, Time.lt_def, Time.ext_iff'] at h h'
  rcases h with h | ⟨h, hid⟩
  · rcases h' with h' | ⟨h', _⟩ <;> omega
  · rcases h' with h' | ⟨_, hid'⟩
    · omega
    · exact le_antisymm hid hid'

def sortBeadsForQuery (items : List Bead) : SortOrder → List Bead
  | .default => items
  | .createdAsc => items.insertionSort CreatedLE
  | .createdDesc => items.insertionSort fun a b => CreatedLE b a

/-- Keep the first `limit` items; a limit of zero or less keeps everything. -/
def applyLimit (limit : Int) (items : List Bead) : List Bead :=
  if 0 < limit then items.take limit.toNat else items

def applyListQuery (items : List Bead) (q : ListQuery) : List Bead :=
  applyLimit q.limit (sortBeadsForQuery (items.filter q.matches) q.sort)

end GasCity
