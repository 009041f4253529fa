import GasCity.Caching.Reads

/-! # Cached listings

Over a fully primed and clean cache `List` with an explicit order returns what the backing store
returns, in whatever order the cached rows are visited.  So do the legacy helpers, except that
`Children` always reads the issue tier, and `ListOpen` returns the visiting order.
-/

namespace GasCity

open List CachingStore ListQuery

open Sorted

/-- A fully primed, clean cache: every active bead is cached, and every cached row is the backing
row. -/
structure Primed (s : CachingStore) : Prop where
  servable : s.cache.cacheServable
  clean : ∀ id, s.cache.isDirty id = false
  unique : (s.backing.beads.map Bead.id).Nodup
  active : ∀ b ∈ s.backing.beads, b.status ≠ "closed" → s.cache.bead b.id = some b
  backed : ∀ id b, s.cache.bead id = some b → s.backing.find id = some b
  fences : ∀ id, (s.cache.entry id).fenced s.cache.mutationSeq = false

namespace Primed

variable {s : CachingStore} {order : List String} {now : Time} {q : ListQuery} {b : Bead}

variable (hs : Primed s)
include hs

theorem dirty_eq_empty : s.cache.dirty = ∅ := by
  apply Finset.filter_eq_empty_iff.mpr
  intro id _
  simp [hs.clean id]

theorem readCacheWithOverlay_eq {gate : Cache → Bool} (hgate : gate s.cache = true) :
    s.readCacheWithOverlay gate now = (s.cache, some ∅) := by
  simp [readCacheWithOverlay, overlayPasses, hgate, hs.dirty_eq_empty,
    Cache.suppressedChurn]

theorem liveOrPartial : s.cache.liveOrPartial = true := by
  have := hs.servable
  simp only [Cache.cacheServable, Bool.and_eq_true] at this
  exact this.1

theorem find_of_mem (hb : b ∈ s.backing.beads) : s.backing.find b.id = some b :=
  Keyed.lookup_of_mem hs.unique hb

theorem nodup_beads : s.backing.beads.Nodup := hs.unique.of_map

variable (ho : IterationOrder s.cache order)
include ho

theorem mem_rows : b ∈ order.filterMap s.cache.bead ↔ s.cache.bead b.id = some b := by
  rw [mem_filterMap]
  constructor
  · rintro ⟨id, _, hb⟩
    obtain rfl : b.id = id := Keyed.key_of_lookup (hs.backed id b hb)
    exact hb
  · intro hb
    exact ⟨b.id, (ho.mem b.id).mpr (by simp [hb]), hb⟩

theorem row_mem_beads (hb : b ∈ order.filterMap s.cache.bead) : b ∈ s.backing.beads :=
  Keyed.mem_of_lookup (hs.backed _ b ((hs.mem_rows ho).mp hb))

theorem nodup_rows : (order.filterMap s.cache.bead).Nodup := by
  apply ho.nodup.filterMap
  intro id id' b hb hb'
  rw [← Keyed.key_of_lookup (hs.backed id b hb), ← Keyed.key_of_lookup (hs.backed id' b hb')]

omit ho

omit hs

theorem collect_eq (s : CachingStore) :
    collect s.cache order ∅ = order.filterMap s.cache.bead := by
  simp [collect]

end Primed

theorem ListQuery.not_closed_of_matches {q : ListQuery} {b : Bead} (hq : q.includesClosed = false)
    (hb : q.matches b = true) : b.status ≠ "closed" := by
  have hstatus : q.matchesStatus b = true := by
    simp only [ListQuery.matches, Bool.and_eq_true] at hb
    exact hb.1.1.1.1.1.1.1.1.1.2
  simp only [includesClosed, Bool.or_eq_false_iff, beq_eq_false_iff_ne] at hq
  intro hclosed
  by_cases h : q.status = ""
  · simp [matchesStatus, h, hq.1, hclosed] at hstatus
  · have heq : b.status = q.status := by simpa [matchesStatus, h] using hstatus
    exact hq.2 (heq ▸ hclosed)

section Order

variable {l u : List Bead} {q : ListQuery}

theorem separates_created (h : ∀ a ∈ l, ∀ b ∈ l, a.id = b.id → a = b) :
    Separates CreatedLE l ∧ Separates (fun a b => CreatedLE b a) l := by
  constructor
  · intro a ha b hb hab hba
    exact h a ha b hb (hab.id_eq hba)
  · intro a ha b hb hab hba
    exact h a ha b hb (hba.id_eq hab)

/-- A limited sorted listing only depends on a part of the rows that contains its result. -/
theorem applyLimit_insertionSort {r : Bead → Bead → Prop} [DecidableRel r] [Std.Total r]
    [IsTrans Bead r] {limit : Int} (hr : Separates r l) (hl : l.Nodup) (hu : u.Nodup) (hul : u ⊆ l)
    (h : applyLimit limit (l.insertionSort r) ⊆ u) :
    applyLimit limit (u.insertionSort r) = applyLimit limit (l.insertionSort r) := by
  unfold applyLimit at h ⊢
  split
  · rename_i hpos
    rw [if_pos hpos] at h
    exact take_insertionSort hr hl hu hul h
  · rename_i hpos
    rw [if_neg hpos] at h
    have hlu : l ⊆ u := fun a ha => h ((mem_insertionSort r).mpr ha)
    have hperm : u.Perm l := (perm_ext_iff_of_nodup hu hl).mpr fun a => ⟨@hul a, @hlu a⟩
    exact insertionSort_congr (hr.mono hul) hperm

theorem finish_of_subset (hsort : q.sort ≠ .default) (hl : (l.map Bead.id).Nodup) (hu : u.Nodup)
    (hul : u ⊆ l) (h : finish q l ⊆ u) :
    finish q u = finish q l := by
  have hsep := separates_created fun a ha b hb hid => inj_on_of_nodup_map hl ha hb hid
  unfold finish at h ⊢
  cases hq : q.sort with
  | default => exact absurd hq hsort
  | createdAsc =>
    rw [hq] at h
    exact applyLimit_insertionSort hsep.1 hl.of_map hu hul h
  | createdDesc =>
    rw [hq] at h
    exact applyLimit_insertionSort hsep.2 hl.of_map hu hul h

theorem finish_subset (q : ListQuery) (l : List Bead) : finish q l ⊆ l := by
  intro b hb
  have hb : b ∈ sortBeadsForQuery l q.sort := by
    unfold finish applyLimit at hb
    split at hb
    · exact mem_of_mem_take hb
    · exact hb
  cases hq : q.sort <;> simpa [sortBeadsForQuery, hq] using hb

end Order

abbrev openQuery (status : Option String) : ListQuery :=
  { allowScan := true, status := status.getD "" }

section Append

variable {cached all : List Bead} {b : Bead}

theorem appendUnseen_cons (a : Bead) :
    appendUnseen cached (a :: all) =
      appendUnseen (if a.id ∈ cached.map Bead.id then cached else cached ++ [a]) all := rfl

theorem mem_of_mem_appendUnseen (h : b ∈ appendUnseen cached all) : b ∈ cached ∨ b ∈ all := by
  induction all generalizing cached with
  | nil => exact .inl h
  | cons a all ih =>
    rw [appendUnseen_cons] at h
    rcases ih h with h | h
    · split at h
      · exact .inl h
      · rcases mem_append.mp h with h | h
        · exact .inl h
        · exact .inr (by simp_all)
    · exact .inr (mem_cons_of_mem a h)

theorem id_mem_appendUnseen {id : String} :
    id ∈ (appendUnseen cached all).map Bead.id ↔
      id ∈ cached.map Bead.id ∨ id ∈ all.map Bead.id := by
  induction all generalizing cached with
  | nil => simp [appendUnseen]
  | cons a all ih =>
    rw [appendUnseen_cons, ih, map_cons, mem_cons]
    split
    · constructor
      · rintro (h | h)
        · exact .inl h
        · exact .inr (.inr h)
      · rintro (h | rfl | h)
        · exact .inl h
        · exact .inl ‹_›
        · exact .inr h
    · rw [map_append, mem_append, map_singleton, mem_singleton, or_assoc]

theorem nodup_appendUnseen (h : (cached.map Bead.id).Nodup) :
    ((appendUnseen cached all).map Bead.id).Nodup := by
  induction all generalizing cached with
  | nil => exact h
  | cons a all ih =>
    rw [appendUnseen_cons]
    apply ih
    split
    · exact h
    · rename_i ha
      rw [map_append, nodup_append]
      refine ⟨h, by simp, ?_⟩
      rintro id hid id' hid' rfl
      obtain rfl : id = a.id := by simpa using hid'
      exact ha hid

end Append

namespace Primed

variable {s : CachingStore} {order : List String} {now : Time} {q : ListQuery} {b : Bead}

variable (hs : Primed s)
include hs

theorem refreshedItem_eq (hb : b ∈ s.backing.beads) (hq : q.matches b = true) :
    (s.cache.entry b.id).refreshedItem q s.cache.mutationSeq b now = some b := by
  have hfence := hs.fences b.id
  simp only [Entry.fenced, Bool.or_eq_false_iff, decide_eq_false_iff_not] at hfence
  have hrow : ∀ current, (s.cache.entry b.id).bead = some current → current = b := by
    intro current hcurrent
    have := hs.backed b.id current hcurrent
    rw [hs.find_of_mem hb] at this
    exact (Option.some.inj this).symm
  have hconflict : (s.cache.entry b.id).recentLocalBeadConflict b now false = none := by
    simp only [Entry.recentLocalBeadConflict, Option.filter_eq_none_iff]
    intro current hcurrent
    simp [hrow current hcurrent]
  have hclosed : (s.cache.entry b.id).closedAtStart s.cache.mutationSeq b = false := by
    unfold Entry.closedAtStart
    cases hbead : (s.cache.entry b.id).bead with
    | none => simp
    | some current =>
      rw [hrow current hbead]
      simp only [Option.any_some]
      by_cases h : b.status = "closed" <;> simp [h]
  simp [Entry.refreshedItem, hfence, hconflict, hclosed, hq]

theorem refreshCachedBeads_eq {items : List Bead}
    (hitems : ∀ b ∈ items, b ∈ s.backing.beads ∧ q.matches b = true) :
    (s.refreshCachedBeads q s.cache.mutationSeq items now).2 = items := by
  unfold refreshCachedBeads
  simp only [hs.liveOrPartial, Bool.not_true, Bool.false_eq_true, if_false]
  calc items.filterMap _ = items.filterMap some :=
        filterMap_congr fun b hb => hs.refreshedItem_eq (hitems b hb).1 (hitems b hb).2
    _ = items := filterMap_some

theorem rows_filter_subset (ho : IterationOrder s.cache order) :
    (order.filterMap s.cache.bead).filter q.matches ⊆ s.backing.beads.filter q.matches := by
  intro b hb
  rw [mem_filter] at hb ⊢
  exact ⟨hs.row_mem_beads ho hb.1, hb.2⟩

theorem rows_filter_perm (ho : IterationOrder s.cache order) (hq : q.includesClosed = false) :
    ((order.filterMap s.cache.bead).filter q.matches).Perm (s.backing.beads.filter q.matches) := by
  rw [perm_ext_iff_of_nodup ((hs.nodup_rows ho).filter _) (hs.nodup_beads.filter _)]
  intro b
  constructor
  · intro hb
    exact hs.rows_filter_subset ho hb
  · intro hb
    rw [mem_filter] at hb ⊢
    have hactive := hs.active b hb.1 (q.not_closed_of_matches hq hb.2)
    exact ⟨(hs.mem_rows ho).mpr hactive, hb.2⟩

theorem nodup_filter_ids : ((s.backing.beads.filter q.matches).map Bead.id).Nodup :=
  hs.unique.sublist (filter_sublist.map _)

/-- Merging cached rows with a limited backing listing loses nothing of the listing. -/
theorem finish_appendUnseen {cached : List Bead} (hsort : q.sort ≠ .default)
    (hcached : cached ⊆ s.backing.beads.filter q.matches) (hnodup : cached.Nodup) :
    finish q (appendUnseen cached
        (finish q (s.backing.beads.filter q.matches))) =
      finish q (s.backing.beads.filter q.matches) := by
  have hinj := inj_on_of_nodup_map (hs.nodup_filter_ids (q := q))
  have hids : (cached.map Bead.id).Nodup :=
    hnodup.map_on fun a ha b hb hid => hinj (hcached ha) (hcached hb) hid
  have hsub : appendUnseen cached (finish q (s.backing.beads.filter q.matches)) ⊆
      s.backing.beads.filter q.matches := by
    intro b hb
    rcases mem_of_mem_appendUnseen hb with hb | hb
    · exact hcached hb
    · exact finish_subset q _ hb
  apply finish_of_subset hsort hs.nodup_filter_ids (nodup_appendUnseen hids).of_map hsub
  intro b hb
  have hid : b.id ∈ cached.map Bead.id ∨
      b.id ∈ (finish q (s.backing.beads.filter q.matches)).map Bead.id :=
    .inr (mem_map_of_mem hb)
  obtain ⟨b', hb', heq⟩ := mem_map.mp (id_mem_appendUnseen.mpr hid)
  exact hinj (hsub hb') (finish_subset q _ hb) heq ▸ hb'

theorem list_eq (ho : IterationOrder s.cache order) (hsort : q.sort ≠ .default) :
    (s.list order now q).2 = s.backing.list q := by
  by_cases hscan : !q.hasFilter && !q.allowScan
  · simp [list, MemStore.list, hscan]
  · have hback : s.backing.list q = .ok (finish q (s.backing.beads.filter q.matches)) :=
      if_neg hscan
    have hlive : s.backing.list (liveListQuery q) =
        .ok (finish q (s.backing.beads.filter q.matches)) := if_neg hscan
    unfold list
    rw [if_neg hscan]
    split
    · rw [hback]
      have hitems : ∀ b ∈ finish q (s.backing.beads.filter q.matches),
          b ∈ s.backing.beads ∧ q.matches b = true := by
        intro b hb
        exact mem_filter.mp (finish_subset q _ hb)
      simp [hs.refreshCachedBeads_eq hitems]
    · simp only [hs.readCacheWithOverlay_eq hs.servable, hlive, hback, collect_eq]
      by_cases hclosed : q.includesClosed
      · simp only [hclosed, Bool.not_true, Bool.false_eq_true, if_false]
        split
        · rfl
        · apply congrArg Except.ok
          exact hs.finish_appendUnseen hsort (hs.rows_filter_subset ho)
            ((hs.nodup_rows ho).filter _)
      · simp only [hclosed, Bool.not_false, if_true]
        have hperm := hs.rows_filter_perm ho (by simpa using hclosed)
        apply congrArg Except.ok
        apply finish_of_subset hsort hs.nodup_filter_ids
        · exact (hs.nodup_rows ho).filter _
        · exact hperm.subset
        · exact fun b hb => hperm.symm.subset (finish_subset q _ hb)

omit hs in
theorem includesClosed_openQuery {status : Option String} (hstatus : status ≠ some "closed") :
    (openQuery status).includesClosed = false := by
  cases status with
  | none => rfl
  | some st => simpa [includesClosed] using hstatus

/-- Over a clean cache an unordered listing of active beads is in visiting order. -/
theorem listOpen_eq {status : Option String} (hstatus : status ≠ some "closed") :
    (s.listOpen order now status).2 =
      .ok ((order.filterMap s.cache.bead).filter (openQuery status).matches) := by
  simp [listOpen, list, hs.readCacheWithOverlay_eq hs.servable, includesClosed_openQuery hstatus,
    collect_eq, finish, applyLimit, sortBeadsForQuery]

theorem listOpen_closed :
    (s.listOpen order now (some "closed")).2 = s.backing.listOpen (some "closed") := by
  simp [listOpen, list, hs.readCacheWithOverlay_eq hs.servable,
    includesClosed]
  rfl

end Primed

theorem exists_iterationOrder (c : Cache) : ∃ order, IterationOrder c order := by
  refine ⟨(c.entries.keys.filter fun id => (c.bead id).isSome).toList, Finset.nodup_toList _, ?_⟩
  intro id
  rw [Finset.mem_toList, Finset.mem_filter]
  constructor
  · exact And.right
  · intro h
    refine ⟨?_, h⟩
    by_contra hid
    rw [Cache.bead, Cache.entry_eq_default hid] at h
    exact absurd h (by simp)

theorem IterationOrder.reverse {c : Cache} {order : List String} (h : IterationOrder c order) :
    IterationOrder c order.reverse where
  nodup := nodup_reverse.mpr h.nodup
  mem id := by rw [mem_reverse, h.mem]

variable {α : Type*} {parentID : String} {m : MemStore}

theorem length_le_one_of_reverse {l : List α} (hl : l.Nodup) (h : l.reverse = l) :
    l.length ≤ 1 := by
  cases l with
  | nil => simp
  | cons a l =>
    rcases eq_nil_or_concat l with rfl | ⟨l', b, rfl⟩
    · simp
    · exfalso
      have hlast := congrArg head? h
      simp at hlast
      simp [hlast] at hl

theorem eq_of_perm_of_length_le_one {l l' : List α} (h : l.Perm l')
    (hl : l'.length ≤ 1) : l = l' := by
  match l', hl with
  | [], _ => exact h.eq_nil
  | [a], _ => exact perm_singleton.mp h

def childrenQuery (parentID : String) (includeClosed : Bool) (tierMode : TierMode) : ListQuery :=
  { parentID, includeClosed, sort := .createdAsc, tierMode }

theorem matches_childrenQuery (hp : parentID ≠ "") (inc : Bool) (tier : TierMode) (b : Bead) :
    (childrenQuery parentID inc tier).matches b =
      (matchesTier { tierMode := tier } b &&
        ((inc || b.status != "closed") && b.parentID == parentID)) := by
  have hp : (parentID == "") = false := by simpa using hp
  simp [ListQuery.matches, childrenQuery, matchesTier, matchesStatus, hp,
    StringMap.isEmpty, Time.isZero, Time.zero, Bool.and_assoc]

theorem list_childrenQuery (hp : parentID ≠ "") (inc : Bool) (tier : TierMode) :
    m.list (childrenQuery parentID inc tier) =
      .ok ((m.beads.filter (childrenQuery parentID inc tier).matches).insertionSort CreatedLE) := by
  simp [MemStore.list, childrenQuery, hasFilter, hp, applyListQuery, applyLimit,
    sortBeadsForQuery]

theorem list_children_eq_iff (hp : parentID ≠ "") (inc : Bool) (tier : TierMode) :
    m.list (childrenQuery parentID inc .issues) = m.list (childrenQuery parentID inc tier) ↔
      ∀ b ∈ m.beads, b.parentID = parentID → (inc = true ∨ b.status ≠ "closed") →
        matchesTier { tierMode := tier } b = !b.ephemeral := by
  rw [list_childrenQuery hp, list_childrenQuery hp, Except.ok.injEq]
  constructor
  · intro h b hb hparent hstatus
    have hmem : ∀ t, (b ∈ (m.beads.filter (childrenQuery parentID inc t).matches).insertionSort
        CreatedLE) ↔ matchesTier { tierMode := t } b = true := by
      intro t
      rw [mem_insertionSort, mem_filter, matches_childrenQuery hp]
      simp [hb, hparent, hstatus]
    have hiff : matchesTier { tierMode := .issues } b = true ↔
        matchesTier { tierMode := tier } b = true := by
      rw [← hmem, ← hmem, h]
    exact (Bool.eq_iff_iff.mpr hiff).symm
  · intro h
    have hfilter : m.beads.filter (childrenQuery parentID inc .issues).matches =
        m.beads.filter (childrenQuery parentID inc tier).matches := by
      apply filter_congr
      intro b hb
      rw [matches_childrenQuery hp, matches_childrenQuery hp]
      by_cases hrest : ((inc || b.status != "closed") && b.parentID == parentID) = true
      · have hrest' := hrest
        simp only [Bool.and_eq_true, Bool.or_eq_true, bne_iff_ne, beq_iff_eq] at hrest'
        rw [h b hb hrest'.2 hrest'.1]
        rfl
      · rw [Bool.not_eq_true] at hrest
        rw [hrest, Bool.and_false, Bool.and_false]
    rw [hfilter]

namespace Primed

variable {s : CachingStore} {now : Time}

theorem listOpen_eq_iff (hs : Primed s) {status : Option String}
    (hstatus : status ≠ some "closed") :
    (∀ order, IterationOrder s.cache order →
        (s.listOpen order now status).2 = s.backing.listOpen status) ↔
      (s.backing.beads.filter (openQuery status).matches).length ≤ 1 := by
  have hback : s.backing.listOpen status =
      .ok (s.backing.beads.filter (openQuery status).matches) := by
    simp [MemStore.listOpen, MemStore.list, applyListQuery, applyLimit, sortBeadsForQuery]
  constructor
  · intro h
    obtain ⟨order, ho⟩ := exists_iterationOrder s.cache
    have hforward := h order ho
    have hback' := h order.reverse ho.reverse
    rw [hs.listOpen_eq hstatus, hback, Except.ok.injEq] at hforward hback'
    rw [filterMap_reverse, filter_reverse, hforward] at hback'
    exact length_le_one_of_reverse (hs.nodup_beads.filter _) hback'
  · intro h order ho
    rw [hs.listOpen_eq hstatus, hback]
    apply congrArg Except.ok
    have hperm := hs.rows_filter_perm ho (includesClosed_openQuery hstatus)
    exact eq_of_perm_of_length_le_one hperm h

end Primed

section CachedList

variable {s : CachingStore}

/-- Which cached listings equal the backing listing over a fully primed, clean cache, for every
query and every visiting order. -/
theorem cached_listing_eq_iff (hs : Primed s) (now : Time) :
    (∀ order q, IterationOrder s.cache order → q.sort ≠ .default →
      (s.list order now q).2 = s.backing.list q) ∧
    (∀ order label limit opts, IterationOrder s.cache order →
      (s.listByLabel order now label limit opts).2 = s.backing.listByLabel label limit opts) ∧
    (∀ order filters limit opts, IterationOrder s.cache order →
      (s.listByMetadata order now filters limit opts).2 =
        s.backing.listByMetadata filters limit opts) ∧
    (∀ order assignee status limit, IterationOrder s.cache order →
      (s.listByAssignee order now assignee status limit).2 =
        s.backing.listByAssignee assignee status limit) ∧
    (∀ order parentID opts, IterationOrder s.cache order →
      ((s.children order now parentID opts).2 = s.backing.children parentID opts ↔
        parentID = "" ∨ ∀ b ∈ s.backing.beads, b.parentID = parentID →
          (hasOpt opts .includeClosed = true ∨ b.status ≠ "closed") →
          matchesTier { tierMode := tierModeFromOpts opts } b = !b.ephemeral)) ∧
    (∀ status, (∀ order, IterationOrder s.cache order →
        (s.listOpen order now status).2 = s.backing.listOpen status) ↔
      status = some "closed" ∨ (s.backing.beads.filter
        ({ allowScan := true, status := status.getD "" } : ListQuery).matches).length ≤ 1) := by
  refine ⟨?_, ?_, ?_, ?_, ?_, ?_⟩
  · intro order q ho hsort
    exact hs.list_eq ho hsort
  · intro order label limit opts ho
    exact hs.list_eq ho (by simp)
  · intro order filters limit opts ho
    exact hs.list_eq ho (by simp)
  · intro order assignee status limit ho
    exact hs.list_eq ho (by simp)
  · intro order parentID opts ho
    have hlist : (s.children order now parentID opts).2 =
        s.backing.list (childrenQuery parentID (hasOpt opts .includeClosed) .issues) :=
      hs.list_eq ho (by simp)
    rw [hlist]
    by_cases hp : parentID = ""
    · subst hp
      simp only [true_or, iff_true]
      rfl
    · simp only [hp, false_or]
      exact list_children_eq_iff hp _ _
  · intro status
    by_cases hclosed : status = some "closed"
    · subst hclosed
      simp only [true_or, iff_true]
      intro order _
      exact hs.listOpen_closed
    · simp only [hclosed, false_or]
      exact hs.listOpen_eq_iff hclosed

/-- A root, an ephemeral child of it and another root, all open and all cached. -/
def familyStore : CachingStore where
  backing :=
    { beads :=
        [{ id := "gc-1", status := "open", createdAt := ⟨1⟩ },
          { id := "gc-2", status := "open", createdAt := ⟨2⟩, parentID := "gc-1",
            ephemeral := true },
          { id := "gc-3", status := "open", createdAt := ⟨3⟩ }] }
  cache :=
    { entries :=
        (((∅ : Table String Entry).set "gc-1"
          { bead := some { id := "gc-1", status := "open", createdAt := ⟨1⟩ } }).set "gc-2"
          { bead := some
              { id := "gc-2", status := "open", createdAt := ⟨2⟩, parentID := "gc-1",
                ephemeral := true } }).set "gc-3"
          { bead := some { id := "gc-3", status := "open", createdAt := ⟨3⟩ } }
      state := .cacheLive }

theorem familyStore_primed : Primed familyStore where
  servable := rfl
  clean := Cache.forall_entry (P := fun _ e => e.dirty = false) (fun _ _ => rfl) (by decide)
  unique := by decide
  active := by decide
  backed := Cache.forall_entry
    (P := fun id e => ∀ b, e.bead = some b → familyStore.backing.find id = some b)
    (by simp) (by decide)
  fences := Cache.forall_entry
    (P := fun _ e => e.fenced familyStore.cache.mutationSeq = false) (fun _ _ => rfl) (by decide)

theorem familyStore_order : IterationOrder familyStore.cache ["gc-3", "gc-2", "gc-1"] where
  nodup := by decide
  mem := by
    apply Cache.forall_entry (P := fun id e => id ∈ ["gc-3", "gc-2", "gc-1"] ↔ e.bead.isSome)
    · intro id hid
      have hkeys : familyStore.cache.entries.keys = ["gc-3", "gc-2", "gc-1"].toFinset := by decide
      rw [hkeys] at hid
      simpa using hid
    · decide

theorem cached_listing_eq_iff_familyStore : (familyStore.list ["gc-3", "gc-2", "gc-1"] ⟨9⟩
        { allowScan := true, tierMode := .both, sort := .createdDesc, limit := 2 }).2 =
      familyStore.backing.list
        { allowScan := true, tierMode := .both, sort := .createdDesc, limit := 2 } :=
  (cached_listing_eq_iff familyStore_primed ⟨9⟩).1 _ _ familyStore_order (by decide)

/-- Asked for both tiers, the cached `Children` misses the ephemeral child; and `ListOpen` returns
the rows in visiting order. -/
theorem children_and_listOpen_differ :
    Primed familyStore ∧ IterationOrder familyStore.cache ["gc-3", "gc-2", "gc-1"] ∧
    (familyStore.children ["gc-3", "gc-2", "gc-1"] ⟨9⟩ "gc-1" [.withBothTiers]).2 ≠
      familyStore.backing.children "gc-1" [.withBothTiers] ∧
    (familyStore.listOpen ["gc-3", "gc-2", "gc-1"] ⟨9⟩ none).2 ≠
      familyStore.backing.listOpen none :=
  ⟨familyStore_primed, familyStore_order, by decide, by decide⟩

end CachedList

end GasCity
