import GasCity.Caching.Cache

/-! # Publishing what a read fetched

A dirty `Get`, the dirty overlay of a cached read and a live or parent `List` read the backing store
without the cache lock and publish the rows afterwards under it.  Each row is decided on its own
entry, so such a lock section is a pointwise change of the cache.
-/

namespace GasCity

namespace Entry

/-- Publish the row of a dirty `Get`. -/
def publishDirtyGet (e : Entry) (startSeq : Nat) (b : Bead) (now : Time) : Entry :=
  if e.fenced startSeq then e
  else e.absorbFresh b now ⟨.depsFromFields, .seqClearBeadSeqOnly, true⟩

/-- Publish a row of the dirty overlay; `deps` is the dependency list that was fetched because the
row carried none. -/
def publishOverlay (e : Entry) (startSeq : Nat) (b : Bead) (deps : Option (List Dep))
    (now : Time) : Entry :=
  if e.fenced startSeq then e
  else
    e.absorbFresh b now
      ⟨deps.elim .depsFromFields .depsExplicit, .seqClearBeadSeqOnly, true⟩

/-- Whether a listed row lost a race against a close at exactly the start of the listing. -/
def closedAtStart (e : Entry) (startSeq : Nat) (item : Bead) : Bool :=
  e.beadSeq == startSeq && e.bead.any (·.status == "closed") && item.status != "closed"

/-- Publish a row that a live or parent `List` returned. -/
def refreshItem (e : Entry) (startSeq : Nat) (item : Bead) (now : Time) : Entry :=
  if e.fenced startSeq then e
  else if (e.recentLocalBeadConflict item now false).isSome then e
  else if e.closedAtStart startSeq item then e
  else e.absorbFresh item now ⟨.depsFromFieldsIfCarried, .seqClearGuarded, true⟩

/-- What a live or parent `List` returns for a row of the backing listing. -/
def refreshedItem (e : Entry) (q : ListQuery) (startSeq : Nat) (item : Bead) (now : Time) :
    Option Bead :=
  if startSeq < e.deletedSeq then none
  else if startSeq < e.beadSeq then e.bead.filter q.matches
  else
    match e.recentLocalBeadConflict item now false with
    | some current => if q.matches current then some current else none
    | none =>
      if e.closedAtStart startSeq item then none else if q.matches item then some item else none

/-- Publish a row that was missing from the listing and fetched on its own. -/
def refreshMissing (e : Entry) (startSeq : Nat) (b : Bead) (now : Time) : Entry :=
  if e.fenced startSeq then e
  else if (e.recentLocalBeadConflict b now false).isSome then e
  else e.absorbFresh b now ⟨.depsFromFieldsIfCarried, .seqClearGuarded, true⟩

/-- Drop a row that was missing from the listing and not found on its own. -/
def refreshRemoved (e : Entry) (startSeq : Nat) (now : Time) : Entry :=
  if e.fenced startSeq then e
  else if e.bead.any (·.status != "closed") && recentLocalMutation e.localBeadAt now then e
  else {}

end Entry

namespace Cache

/-- The lock section at the end of a dirty `Get`. -/
def publishDirtyGet (c : Cache) (startSeq : Nat) (id : String) (b : Bead) (now : Time) : Cache :=
  if c.liveOrPartial then c.modify id (·.publishDirtyGet startSeq b now) else c

def publishOverlay (c : Cache) (startSeq : Nat) (rows : Table String Bead)
    (deps : Table String (List Dep)) (now : Time) : Cache :=
  c.modifyAll rows.keys fun id e =>
    (rows.get id).elim e fun b => e.publishOverlay startSeq b (deps.get id) now

/-- The lock section of `refreshCachedBeads`: the listed rows, then the rows fetched on their own,
then the ids that are gone. -/
def publishRefresh (c : Cache) (startSeq : Nat) (rows missing : Table String Bead)
    (removed : Finset String) (now : Time) : Cache :=
  if !c.liveOrPartial then c
  else
    c.modifyAll (rows.keys ∪ missing.keys ∪ removed) fun id e =>
      let e := (rows.get id).elim e fun b => e.refreshItem startSeq b now
      let e := (missing.get id).elim e fun b => e.refreshMissing startSeq b now
      if id ∈ removed then e.refreshRemoved startSeq now else e

/-- The suppressed ids that came back: their fence advanced, or a clean row is resident. -/
def suppressedChurn (c : Cache) (suppressed : Finset String) (startSeq : Nat) : Finset String :=
  suppressed.filter fun id =>
    (c.entry id).fenced startSeq || ((c.bead id).isSome && !c.isDirty id)

/-- The cached ids a `List` expected and did not see: children of the queried parent, and for an
unlimited live query over active beads the matches. -/
def staleCacheIDs (c : Cache) (q : ListQuery) (fresh : Finset String) : Finset String :=
  if !c.liveOrPartial then ∅
  else
    c.entries.keys.filter fun id =>
      id ∉ fresh ∧ (c.bead id).any fun b =>
        (q.parentID != "" && b.parentID == q.parentID) ||
          (q.live && !decide (0 < q.limit) && !q.includesClosed && q.matches b)

end Cache

end GasCity
