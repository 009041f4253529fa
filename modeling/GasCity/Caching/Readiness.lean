import GasCity.Caching.Listing

/-! # Cached readiness

The in-memory store and the cache decide readiness independently.  When every bead and dependency
list is cached they agree on each bead without a blocked projection or a dangling blocking
dependency: a missing target blocks in the store, and in the cache only if recorded as failed.
-/

namespace GasCity

open List CachingStore

/-- A cache that holds every bead and every dependency list of the backing store, clean. -/
structure Mirrored (s : CachingStore) : Prop extends Primed s where
  all : ∀ b ∈ s.backing.beads, s.cache.bead b.id = some b
  deps : ∀ b ∈ s.backing.beads, (s.cache.entry b.id).deps = some (s.backing.depList b.id .down)

def BlockedOn (m : MemStore) (b : Bead) (target : String) : Prop :=
  ∃ dep ∈ m.deps, dep.issueID = b.id ∧ isReadyBlockingDependencyType dep.type = true ∧
    dep.dependsOnID = target

/-- The cache's readiness rule over the data of the backing store. -/
structure ReadyByCache (s : CachingStore) (now : Time) (b : Bead) : Prop where
  candidate : isReadyCandidate b now = true
  unblocked : b.isBlocked ≠ some true
  known : ∀ target blocker, BlockedOn s.backing b target → s.backing.find target = some blocker →
    isReadyBlockingDependencySatisfiedFor b blocker = true
  dangling : ∀ target, BlockedOn s.backing b target → s.backing.find target = none →
    target ∈ s.cache.failedBlockers → isReadyTerminalizer b = true

variable {s : CachingStore} {order : List String} {now : Time} {b : Bead}

theorem get_beadByID_eq_find {m : MemStore} (hm : (m.beads.map Bead.id).Nodup) (id : String) :
    (beadByID m.beads).get id = m.find id := by
  apply Option.ext
  intro b
  rw [get_beadByID hm]
  constructor
  · rintro ⟨hb, rfl⟩
    exact Keyed.lookup_of_mem hm hb
  · intro hb
    exact ⟨Keyed.mem_of_lookup hb, Keyed.key_of_lookup hb⟩

theorem mem_ready {m : MemStore} (hm : (m.beads.map Bead.id).Nodup) :
    b ∈ m.ready {} now ↔ b ∈ m.beads ∧ isReadyCandidate b now = true ∧
      ∀ target, BlockedOn m b target → ∃ blocker, m.find target = some blocker ∧
        isReadyBlockingDependencySatisfiedFor b blocker = true := by
  have hblocked : m.readyBlocked b = false ↔ ∀ target, BlockedOn m b target →
      ∃ blocker, m.find target = some blocker ∧
        isReadyBlockingDependencySatisfiedFor b blocker = true := by
    simp only [MemStore.readyBlocked, any_eq_false, get_beadByID_eq_find hm]
    constructor
    · rintro h target ⟨dep, hdep, hissue, htype, rfl⟩
      have := h dep hdep
      simpa [hissue, htype, Option.any_eq_true] using this
    · intro h dep hdep
      by_cases hdep' : dep.issueID = b.id ∧ isReadyBlockingDependencyType dep.type = true
      · obtain ⟨blocker, hfind, hsat⟩ := h _ ⟨dep, hdep, hdep'.1, hdep'.2, rfl⟩
        simp [hfind, hsat]
      · intro htrue
        simp only [Bool.and_eq_true, beq_iff_eq] at htrue
        exact hdep' htrue.1
  rw [← hblocked]
  simp [MemStore.ready, applyLimit, isReadyCandidate]

namespace Mirrored

theorem mem_rows_iff (hs : Mirrored s) (ho : IterationOrder s.cache order) :
    b ∈ order.filterMap s.cache.bead ↔ b ∈ s.backing.beads := by
  constructor
  · intro hb
    exact hs.row_mem_beads ho hb
  · intro hb
    exact (hs.mem_rows ho).mpr (hs.all b hb)

theorem get_rows_eq_find (hs : Mirrored s) (ho : IterationOrder s.cache order) (id : String) :
    (beadByID (order.filterMap s.cache.bead)).get id = s.backing.find id := by
  have hnodup : ((order.filterMap s.cache.bead).map Bead.id).Nodup := by
    apply (hs.nodup_rows ho).map_on
    intro a ha b hb hid
    exact inj_on_of_nodup_map hs.unique (hs.row_mem_beads ho ha) (hs.row_mem_beads ho hb) hid
  rw [← get_beadByID_eq_find hs.unique]
  apply Option.ext
  intro b
  rw [get_beadByID hnodup, get_beadByID hs.unique, hs.mem_rows_iff ho]

theorem cachedBeadReady_iff (hs : Mirrored s) (ho : IterationOrder s.cache order)
    (hb : b ∈ s.backing.beads) :
    isReadyCandidate b now = true ∧
        cachedBeadReady b (beadByID (order.filterMap s.cache.bead)) s.cache.failedBlockers
          ((s.cache.entry b.id).deps.getD []) = true ↔
      ReadyByCache s now b := by
  have hdep : ∀ dep, dep ∈ s.backing.depList b.id .down ↔
      dep ∈ s.backing.deps ∧ dep.issueID = b.id := by
    intro dep
    simp [MemStore.depList]
  simp only [cachedBeadReady, hs.deps b hb, Option.getD_some, hs.get_rows_eq_find ho,
    Bool.and_eq_true, bne_iff_ne, all_eq_true, hdep]
  constructor
  · rintro ⟨hcand, hblocked, hall⟩
    refine ⟨hcand, hblocked, ?_, ?_⟩
    · rintro target blocker ⟨dep, hmem, hissue, htype, rfl⟩ hfind
      simpa [htype, hfind] using hall dep ⟨hmem, hissue⟩
    · rintro target ⟨dep, hmem, hissue, htype, rfl⟩ hfind hfailed
      simpa [htype, hfind, hfailed] using hall dep ⟨hmem, hissue⟩
  · rintro ⟨hcand, hblocked, hknown, hdangling⟩
    refine ⟨hcand, hblocked, ?_⟩
    rintro dep ⟨hmem, hissue⟩
    by_cases htype : isReadyBlockingDependencyType dep.type = true
    · have hon : BlockedOn s.backing b dep.dependsOnID := ⟨dep, hmem, hissue, htype, rfl⟩
      cases hfind : s.backing.find dep.dependsOnID with
      | none =>
        by_cases hfailed : dep.dependsOnID ∈ s.cache.failedBlockers
        · simp [hdangling _ hon hfind hfailed]
        · simp [hfailed]
      | some blocker => simp [hknown _ _ hon hfind]
    · simp [htype]

/-- Without a projection and without dangling targets the two deciders agree. -/
theorem readyByCache_iff (hs : Mirrored s) (hb : b ∈ s.backing.beads)
    (hprojection : b.isBlocked ≠ some true)
    (htargets : ∀ target, BlockedOn s.backing b target → (s.backing.find target).isSome) :
    ReadyByCache s now b ↔ b ∈ s.backing.ready {} now := by
  rw [mem_ready hs.unique]
  constructor
  · rintro ⟨hcand, _, hknown, _⟩
    refine ⟨hb, hcand, fun target hon => ?_⟩
    obtain ⟨blocker, hfind⟩ := Option.isSome_iff_exists.mp (htargets target hon)
    exact ⟨blocker, hfind, hknown target blocker hon hfind⟩
  · rintro ⟨_, hcand, hall⟩
    refine ⟨hcand, hprojection, ?_, ?_⟩
    · intro target blocker hon hfind
      obtain ⟨blocker', hfind', hsat⟩ := hall target hon
      cases hfind.symm.trans hfind'
      exact hsat
    · intro target hon hfind
      have := htargets target hon
      simp [hfind] at this

end Mirrored

namespace Mirrored

theorem cachedReady_eq (hs : Mirrored s) (order : List String) (now : Time) :
    cachedReady s.cache order now =
      some (readyRows s.cache (order.filterMap s.cache.bead) now) := by
  have hpartial : s.cache.primePartialErr = false := by
    have := hs.servable
    simp only [Cache.cacheServable, Bool.and_eq_true, Bool.not_eq_true'] at this
    exact this.2
  have hknown : ((order.filterMap s.cache.bead).filter fun b => isReadyCandidate b now).any
      (fun b => (s.cache.entry b.id).deps.isNone && !s.cache.depsComplete) = false := by
    simp only [any_eq_false, mem_filter, mem_filterMap]
    rintro b ⟨⟨id, _, hb⟩, _⟩
    simp [hs.deps b (Keyed.mem_of_lookup (hs.backed id b hb))]
  unfold cachedReady
  rw [hknown]
  simp [hs.liveOrPartial, hpartial, hs.dirty_eq_empty]

/-- `Ready` answers the same rows when it is served from the cache, and the backing answer
otherwise. -/
theorem ready_eq (hs : Mirrored s) (order : List String) (now : Time) :
    (s.ready order now {}).2 =
      if readyGate s.cache then
        readyRows s.cache (order.filterMap s.cache.bead) now
      else s.backing.ready {} now := by
  by_cases hgate : readyGate s.cache = true
  · simp [ready, hs.readCacheWithOverlay_eq hgate, Primed.collect_eq, hgate]
  · simp [ready, readCacheWithOverlay, overlayPasses, hgate]

end Mirrored

/-- The ready beads of a mirrored cache, and where they are the ready beads of the store. -/
theorem cached_ready_iff (hs : Mirrored s) (ho : IterationOrder s.cache order) (now : Time) :
    ∃ rows, cachedReady s.cache order now = some rows ∧
      ((s.ready order now {}).2 =
        if readyGate s.cache then rows else s.backing.ready {} now) ∧
      (∀ b, b ∈ rows ↔ b ∈ s.backing.beads ∧ ReadyByCache s now b) ∧
      ∀ b ∈ s.backing.beads, b.isBlocked ≠ some true →
        (∀ target, BlockedOn s.backing b target → (s.backing.find target).isSome) →
        (b ∈ rows ↔ b ∈ s.backing.ready {} now) := by
  have hmem : ∀ b, b ∈ readyRows s.cache (order.filterMap s.cache.bead) now ↔
      b ∈ s.backing.beads ∧ ReadyByCache s now b := by
    intro b
    rw [readyRows, sortBeadsReadyOrder, mem_insertionSort, mem_filter, mem_filter, and_assoc,
      hs.mem_rows_iff ho]
    constructor
    · rintro ⟨hb, h⟩
      exact ⟨hb, (hs.cachedBeadReady_iff ho hb).mp h⟩
    · rintro ⟨hb, h⟩
      exact ⟨hb, (hs.cachedBeadReady_iff ho hb).mpr h⟩
  refine ⟨_, hs.cachedReady_eq order now, hs.ready_eq order now, hmem, ?_⟩
  intro b hb hprojection htargets
  rw [hmem, hs.readyByCache_iff hb hprojection htargets]
  constructor
  · exact And.right
  · intro h
    exact ⟨hb, h⟩

/-- A bead with a blocker that does not exist, and a bead marked as blocked. -/
def danglingStore : CachingStore where
  backing :=
    { beads := [{ id := "gc-1", status := "open" },
        { id := "gc-2", status := "open", isBlocked := some true }]
      deps := [{ issueID := "gc-1", dependsOnID := "gc-9", type := "blocks" }] }
  cache :=
    { entries :=
        ((∅ : Table String Entry).set "gc-1"
          { bead := some { id := "gc-1", status := "open" }
            deps := some [{ issueID := "gc-1", dependsOnID := "gc-9", type := "blocks" }] }).set
          "gc-2"
          { bead := some { id := "gc-2", status := "open", isBlocked := some true }
            deps := some [] }
      state := .cacheLive
      depsComplete := true }

theorem danglingStore_mirrored : Mirrored danglingStore where
  servable := rfl
  clean := Cache.forall_entry (P := fun _ e => e.dirty = false) (fun _ _ => rfl) (by decide)
  unique := by decide
  active := by decide
  backed := Cache.forall_entry
    (P := fun id e => ∀ b, e.bead = some b → danglingStore.backing.find id = some b)
    (by simp) (by decide)
  fences := Cache.forall_entry
    (P := fun _ e => e.fenced danglingStore.cache.mutationSeq = false) (fun _ _ => rfl) (by decide)
  all := by decide
  deps := by decide

theorem danglingStore_order : IterationOrder danglingStore.cache ["gc-1", "gc-2"] where
  nodup := by decide
  mem := by
    apply Cache.forall_entry (P := fun id e => id ∈ ["gc-1", "gc-2"] ↔ e.bead.isSome)
    · intro id hid
      have hkeys : danglingStore.cache.entries.keys = ["gc-1", "gc-2"].toFinset := by decide
      rw [hkeys] at hid
      simpa using hid
    · decide

theorem cached_ready_iff_danglingStore :
    ∃ rows, cachedReady danglingStore.cache ["gc-1", "gc-2"] ⟨1⟩ = some rows ∧
      ∀ b, b ∈ rows ↔ b ∈ danglingStore.backing.beads ∧ ReadyByCache danglingStore ⟨1⟩ b := by
  obtain ⟨rows, hcached, _, hrows, _⟩ :=
    cached_ready_iff danglingStore_mirrored danglingStore_order ⟨1⟩
  exact ⟨rows, hcached, hrows⟩

/-- The cache reports the bead with the missing blocker and withholds the bead marked as blocked;
the store does the opposite. -/
theorem cached_ready_differs :
    Mirrored danglingStore ∧ IterationOrder danglingStore.cache ["gc-1", "gc-2"] ∧
    ((danglingStore.ready ["gc-1", "gc-2"] ⟨1⟩ {}).2).map Bead.id = ["gc-1"] ∧
    (cachedReady danglingStore.cache ["gc-1", "gc-2"] ⟨1⟩).map (·.map Bead.id) =
      some ["gc-1"] ∧
    (danglingStore.backing.ready {} ⟨1⟩).map Bead.id = ["gc-2"] :=
  ⟨danglingStore_mirrored, danglingStore_order, by decide, by decide, by decide⟩

end GasCity
