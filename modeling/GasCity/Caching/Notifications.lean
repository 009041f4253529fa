import GasCity.Caching.Scans

/-! # The notifications of a reconcile merge

A subscriber that knows the active rows keeps them up to date from the notifications alone.
-/

namespace GasCity

def notifiedRow (n : EventType × Bead) : Option Bead :=
  if n.1 = .closed then none else (some n.2).filter (·.status != "closed")

/-- A subscriber takes a row over as it is announced, and forgets a closed one. -/
def applyNotification (view : String → Option Bead) (n : EventType × Bead) :
    String → Option Bead :=
  Function.update view n.2.id (notifiedRow n)

/-- Two rows are absent, or equal but for what `beadChanged` ignores. -/
def SameRow (old fresh : Option Bead) : Prop :=
  Option.Rel (fun old fresh => beadChanged old fresh true = false) old fresh

theorem SameRow.refl (row : Option Bead) : SameRow row row := by
  cases row with
  | none => exact .none
  | some b => exact .some (beadChanged_self b true)

theorem status_of_same {old fresh : Bead} {skip : Bool} (h : beadChanged old fresh skip = false) :
    old.status = fresh.status := by
  by_contra hne
  simp [beadChanged, hne] at h

/-- The row of a bead after notifications about distinct beads is the one its own gives. -/
theorem foldl_applyNotification {notify : String → Option (EventType × Bead)}
    (hnotify : ∀ id n, notify id = some n → n.2.id = id) {ids : List String} (hids : ids.Nodup)
    (view : String → Option Bead) (id : String) :
    (ids.filterMap notify).foldl applyNotification view id =
      if id ∈ ids then ((notify id).map notifiedRow).getD (view id) else view id := by
  induction ids generalizing view with
  | nil => rfl
  | cons id' ids ih =>
    obtain ⟨hnot, hids⟩ := List.nodup_cons.mp hids
    cases hn : notify id' with
    | none =>
      rw [List.filterMap_cons_none hn, ih hids]
      by_cases heq : id = id'
      · subst heq
        simp [hnot, hn]
      · simp [heq]
    | some n =>
      rw [List.filterMap_cons_some hn, List.foldl_cons, ih hids]
      by_cases heq : id = id'
      · subst heq
        simp [hnot, hn, applyNotification, hnotify id n hn]
      · simp [heq, applyNotification, hnotify id' n hn]

namespace Cache

def activeRow (c : Cache) (id : String) : Option Bead :=
  (c.bead id).filter (·.status != "closed")

/-- The notifications of a merge, in an order `ids` in which its loops may meet the beads. -/
def mergeNotifications (c : Cache) (bdStore : Bool) (s : Snapshot)
    (confirmedClosed : Table String Bead) (now : Time) (ids : List String) :
    List (EventType × Bead) :=
  ids.filterMap (c.mergeNotification bdStore s confirmedClosed now)

/-- The rows of the cache, of the snapshot and of the confirming reads stand under their ids. -/
structure RowsKeyed (c : Cache) (s : Snapshot) (confirmedClosed : Table String Bead) : Prop where
  cached : ∀ id e, c.entries.get id = some e → ∀ b ∈ e.bead, b.id = id
  fresh : ∀ id b, s.rows.get id = some b → b.id = id
  confirmed : ∀ id b, confirmedClosed.get id = some b → b.id = id

variable {c : Cache} {bdStore : Bool} {s : Snapshot} {confirmedClosed : Table String Bead}
  {now : Time} {id : String}

theorem RowsKeyed.notification (h : RowsKeyed c s confirmedClosed) {n : EventType × Bead}
    (hn : c.mergeNotification bdStore s confirmedClosed now id = some n) : n.2.id = id := by
  unfold mergeNotification at hn
  split at hn
  · cases hn
  · obtain ⟨cached, hcached, rfl⟩ := Option.map_eq_some_iff.mp hn
    cases hconf : confirmedClosed.get id with
    | none =>
      unfold bead entry Table.getD at hcached
      cases hget : c.entries.get id with
      | none => simp [hget] at hcached
      | some e => exact h.cached id e hget cached (by simpa [hget] using hcached)
    | some b => exact h.confirmed id b hconf
  · obtain ⟨row, hrow, rfl⟩ := Option.map_eq_some_iff.mp hn
    obtain ⟨item, hitem, rfl⟩ := Option.map_eq_some_iff.mp hrow
    unfold preserveCachedReadyProjection
    dsimp only
    split_ifs <;> exact h.fresh id item hitem

theorem entry_mergeSnapshot (c : Cache) (bdStore : Bool) (s : Snapshot) (now : Time)
    (id : String) : (c.mergeSnapshot bdStore s now).entry id =
    if id ∈ c.entries.keys ∪ s.rows.keys then
      (c.entry id).merge (c.mergeRow bdStore s id) (c.mergeDeps bdStore s id) s.startSeq now
    else c.entry id :=
  entry_modifyAll (f := fun id e =>
    e.merge (c.mergeRow bdStore s id) (c.mergeDeps bdStore s id) s.startSeq now)

theorem merged_mergeSnapshot (bdStore : Bool) (now : Time)
    (hid : id ∈ c.entries.keys ∪ s.rows.keys) :
    (c.entry id).Merged (c.mergeRow bdStore s id) (c.mergeDeps bdStore s id) s.startSeq now
      (c.mergeDecision bdStore s now id).notification
      ((c.mergeSnapshot bdStore s now).entry id) := by
  rw [entry_mergeSnapshot, if_pos hid]
  exact Entry.merged ..

/-- The notification of a bead leads from its cached row to its merged one. -/
theorem notifiedRow_merged (hid : id ∈ c.entries.keys ∪ s.rows.keys) :
    SameRow (((c.mergeNotification bdStore s confirmedClosed now id).map notifiedRow).getD
      (c.activeRow id)) ((c.mergeSnapshot bdStore s now).activeRow id) := by
  unfold mergeNotification activeRow bead
  cases merged_mergeSnapshot bdStore now hid with
  | kept hevent h =>
    rw [hevent, h]
    exact .refl _
  | dropped _ _ hevent h =>
    rw [hevent, h]
    cases (c.entry id).bead with
    | none => exact .none
    | some cached =>
      by_cases hclosed : cached.status = "closed" <;>
        simp [Option.filter, hclosed, notifiedRow, SameRow]
  | absorbed _ hfresh hevent h =>
    rw [hevent, h, hfresh]
    cases (c.entry id).bead with
    | none => exact .refl _
    | some cached =>
      dsimp only
      split_ifs with hchanged
      · exact .refl _
      · rw [Bool.or_eq_true, not_or, Bool.not_eq_true] at hchanged
        have hstatus := status_of_same hchanged.1
        simp only [Option.map_none, Option.getD_none, Option.filter, hstatus, Entry.absorbFresh]
        split_ifs
        · exact .some hchanged.1
        · exact .none

/-- The notifications of a merge lead from the active rows before it to those after it, and a row
that stays the same with its dependencies is not announced. -/
theorem notifications_are_diff (hrows : RowsKeyed c s confirmedClosed) {ids : List String}
    (hids : ids.Nodup) (hall : ids.toFinset = c.entries.keys ∪ s.rows.keys) :
    (∀ id, SameRow
      ((c.mergeNotifications bdStore s confirmedClosed now ids).foldl applyNotification
        c.activeRow id) ((c.mergeSnapshot bdStore s now).activeRow id)) ∧
    ∀ id old fresh, c.bead id = some old → (c.mergeSnapshot bdStore s now).bead id = some fresh →
      beadChanged old fresh true = false →
      depsChanged ((c.entry id).deps.getD [])
        (((c.mergeSnapshot bdStore s now).entry id).deps.getD []) = false →
      ∀ n ∈ c.mergeNotifications bdStore s confirmedClosed now ids, n.2.id ≠ id := by
  constructor
  · intro id
    rw [mergeNotifications, foldl_applyNotification (fun id n => hrows.notification) hids]
    split_ifs with hid
    · exact notifiedRow_merged (hall ▸ List.mem_toFinset.mpr hid)
    · have hnot : id ∉ c.entries.keys ∪ s.rows.keys := hall ▸ mt List.mem_toFinset.mp hid
      rw [activeRow, activeRow, bead, bead, entry_mergeSnapshot, if_neg hnot]
      exact .refl _
  · rintro id old fresh hold hfresh hsame hdeps n hn rfl
    obtain ⟨id, hid, hnotify⟩ := List.mem_filterMap.mp hn
    obtain rfl := hrows.notification hnotify
    unfold bead at hold hfresh
    unfold mergeNotification at hnotify
    cases merged_mergeSnapshot bdStore now (hall ▸ List.mem_toFinset.mpr hid) with
    | kept hevent => simp [hevent] at hnotify
    | dropped _ _ _ h => simp [h] at hfresh
    | absorbed _ _ hevent h =>
      rw [h] at hfresh hdeps
      cases hfresh
      rw [hold] at hevent
      change depsChanged _ (c.mergeDeps bdStore s n.2.id) = false at hdeps
      simp [hevent, hsame, hdeps] at hnotify

/-- A task of which the cache knows no dependencies, in a cache and in a scan that finds one. -/
def idleCache : Cache :=
  { entries := (∅ : Table String Entry).set "gc-1"
      { bead := some { id := "gc-1" }, deps := some [] } }

def blockedScan : Snapshot where
  rows := (∅ : Table String Bead).set "gc-1" { id := "gc-1" }
  depMap := (∅ : Table String (List Dep)).set "gc-1"
    [{ issueID := "gc-1", dependsOnID := "gc-2", type := "blocks" }]
  startSeq := 0

/-- A row that does not change is announced with its new dependency. -/
theorem dependency_announced :
    idleCache.bead "gc-1" = (idleCache.mergeSnapshot false blockedScan ⟨1⟩).bead "gc-1" ∧
      idleCache.mergeNotifications false blockedScan ∅ ⟨1⟩ ["gc-1"] =
        [(.updated, { id := "gc-1" })] := by
  decide

theorem notifications_are_diff_blocked :
    SameRow ((idleCache.mergeNotifications false blockedScan ∅ ⟨1⟩ ["gc-1"]).foldl
      applyNotification idleCache.activeRow "gc-1")
      ((idleCache.mergeSnapshot false blockedScan ⟨1⟩).activeRow "gc-1") :=
  (notifications_are_diff ⟨by decide, by decide, by decide⟩ (by decide) (by decide)).1 "gc-1"

end Cache

end GasCity
