import GasCity.Caching.Events

/-! # Rules that the cache repeats

The checks that skip a write against the write they skip, the merge of an event patch against the
conflict check that guards it, and the dependency edits of a row that cannot be read back against
the edits of the store.
-/

namespace GasCity

open List

/-- Every field of a row reads the same, but for its update time and revision.  A missing and an
empty metadata value are alike, and labels are a set. -/
structure SameContent (b b' : Bead) : Prop where
  fields : { b' with metadata := b.metadata, labels := b.labels, updatedAt := b.updatedAt,
                     revision := b.revision } = b
  metadata : ∀ key, StringMap.val b'.metadata key = StringMap.val b.metadata key
  labels : ∀ label, label ∈ b'.labels ↔ label ∈ b.labels

variable {α : Type*} {b : Bead} {kvs : StringMap} {id : String}

theorem getD_of_all [BEq α] [LawfulBEq α] {o : Option α} {a : α}
    (h : o.all (· == a) = true) : o.getD a = a := by
  cases o with
  | none => rfl
  | some _ => exact eq_of_beq h

theorem any_of_all [BEq α] [LawfulBEq α] {o : Option α} {a : α} {p : α → Bool}
    (h : o.all (· == a) = true) (hp : p a = false) : o.any p = false := by
  cases o with
  | none => rfl
  | some _ => rwa [eq_of_beq h]

theorem val_merge_of_matches (h : metadataMatches b kvs = true) (key : String) :
    StringMap.val (b.metadata.merge kvs) key = StringMap.val b.metadata key := by
  have hkeys := of_decide_eq_true h
  unfold StringMap.val Table.getD at hkeys ⊢
  rw [Table.get_merge]
  cases hget : kvs.get key with
  | none => rfl
  | some value =>
    rw [hkeys key (Table.mem_keys_of_get hget), hget]
    rfl

theorem sameContent_setMetadata (h : metadataMatches b kvs = true)
    (now : Time) : SameContent b (setMetadataBead b kvs now) :=
  ⟨rfl, val_merge_of_matches h, fun _ => Iff.rfl⟩

theorem sameContent_update {opts : UpdateOpts} (h : updateMatches b opts = true)
    (now : Time) : SameContent b (applyUpdateLocked b opts now) := by
  simp only [updateMatches, Bool.and_eq_true, and_assoc] at h
  obtain ⟨htitle, hstatus, htype, hpriority, hdesc, hparent, hassignee, hmeta, hadd, hremove⟩ := h
  have hpriority' : opts.priority.or b.priority = b.priority := by
    cases hp : opts.priority with
    | none => rfl
    | some p =>
      rw [hp] at hpriority
      exact (eq_of_beq hpriority).symm
  have hfence : isOwnershipTransition b.status b.assignee opts = false := by
    rw [isOwnershipTransition, any_of_all hassignee (by simp), any_of_all hstatus, Bool.or_false]
    by_cases hclosed : b.status = "closed" <;> simp [hclosed]
  refine ⟨?_, val_merge_of_matches hmeta, fun label => ?_⟩
  · simp [applyUpdateLocked, getD_of_all htitle, getD_of_all hstatus, getD_of_all htype,
      getD_of_all hdesc, getD_of_all hparent, getD_of_all hassignee, hpriority', hfence]
  · simp only [all_eq_true, decide_eq_true_eq] at hadd hremove
    simp only [applyUpdateLocked, mem_filter, mem_append, decide_eq_true_eq]
    constructor
    · rintro ⟨hlabel | hlabel, -⟩
      · exact hlabel
      · exact hadd label hlabel
    · exact fun hlabel => ⟨.inl hlabel, fun hgone => hremove label hgone hlabel⟩

theorem Cache.matchesCached_of_bead {c : Cache} {p : Bead → Bool}
    (hb : c.bead id = some b) (h : c.matchesCached id p = true) : p b = true := by
  simp only [Cache.matchesCached, hb, Bool.and_eq_true] at h
  exact h.2

theorem MemStore.find_modify_self {m : MemStore} {f : Bead → Bead}
    (hf : ∀ b, (f b).id = b.id) (hb : m.find id = some b) :
    (m.modify id f).find id = some (f b) := by
  rw [MemStore.find, MemStore.modify, Keyed.lookup_modify_self hf, ← MemStore.find, hb,
    Option.map_some]

/-- A write that is skipped because the cached row, equal to the stored one, already has its values
would leave the content of the stored row as it is. -/
theorem skipped_write_keeps_content {c : Cache} {m : MemStore} {id : String} {b : Bead}
    (hcached : c.bead id = some b) (hstored : m.find id = some b) (now : Time) :
    (∀ opts, c.updateMatchesCached id opts = true → ∃ m' b', m.update id opts now = .ok m' ∧
      m'.find id = some b' ∧ SameContent b b') ∧
    (∀ key value, c.metadataAlreadyMatchesCached id ((∅ : StringMap).set key value) = true →
      ∃ m' b', m.setMetadata id key value now = .ok m' ∧ m'.find id = some b' ∧
        SameContent b b') ∧
    (∀ kvs, c.metadataAlreadyMatchesCached id kvs = true → ∃ m' b',
      m.setMetadataBatch id kvs now = .ok m' ∧ m'.find id = some b' ∧ SameContent b b') := by
  refine ⟨fun opts h => ?_, fun key value h => ?_, fun kvs h => ?_⟩
  · refine ⟨_, _, by rw [MemStore.update, hstored], MemStore.find_modify_self ?_ hstored, ?_⟩
    · exact fun _ => rfl
    · exact sameContent_update (Cache.matchesCached_of_bead hcached h) now
  · refine ⟨_, _, by rw [MemStore.setMetadata, hstored], MemStore.find_modify_self ?_ hstored, ?_⟩
    · exact fun _ => rfl
    · exact sameContent_setMetadata (Cache.matchesCached_of_bead hcached h) now
  · by_cases hempty : StringMap.isEmpty kvs = true
    · refine ⟨m, b, by rw [MemStore.setMetadataBatch, if_pos hempty], hstored, ?_⟩
      exact ⟨rfl, fun _ => rfl, fun _ => Iff.rfl⟩
    · refine ⟨_, _, by rw [MemStore.setMetadataBatch, if_neg hempty, hstored],
        MemStore.find_modify_self ?_ hstored, ?_⟩
      · exact fun _ => rfl
      · exact sameContent_setMetadata (Cache.matchesCached_of_bead hcached h) now

/-- The cached and stored row that already has the title and the metadata that are written. -/
def titled : Bead := { id := "gc-1", title := "ship", metadata := (∅ : StringMap).set "owner" "" }

def titledCache : Cache where
  entries := (∅ : Table String Entry).set "gc-1" { bead := some titled }
  state := .cacheLive

def titledStore : MemStore where
  beads := [titled]

theorem skipped_write_keeps_content_title : ∃ m b, titledStore.update "gc-1"
    { title := some "ship" } ⟨5⟩ = .ok m ∧ m.find "gc-1" = some b ∧ SameContent titled b :=
  (skipped_write_keeps_content (c := titledCache) rfl rfl ⟨5⟩).1
    { title := some "ship" } (by decide)

/-- The write that is skipped would have set the update time. -/
theorem skipped_write_stamps_time :
    titledCache.updateMatchesCached "gc-1" { title := some "ship" } = true ∧
      ((titledStore.update "gc-1" { title := some "ship" } ⟨5⟩).toOption.bind
        (·.find "gc-1")).map Bead.updatedAt ≠ some titled.updatedAt := by
  decide

theorem overlaid_eq [BEq α] [LawfulBEq α] (has : Bool) (patch base : α) :
    (has && (if has then patch else base) != patch) = false := by
  cases has <;> simp

theorem overlaid_twice (has : Bool) (patch base : α) :
    (if has then patch else if has then patch else base) = if has then patch else base := by
  cases has <;> rfl

/-- The merged row agrees with the patch, and merging again changes nothing, exactly when a payload
that names `parent_id` also names `parent` or does not move the bead. -/
theorem merged_patch_agrees_iff (base patch : Bead) (fields : List String) :
    (cacheEventConflictsCurrent (mergeCacheEventPatch base patch fields) patch fields = false ∧
      mergeCacheEventPatch (mergeCacheEventPatch base patch fields) patch fields =
        mergeCacheEventPatch base patch fields) ↔
      ("parent_id" ∈ fields → "parent" ∈ fields ∨ base.parentID = patch.parentID) := by
  have htwice : mergeCacheEventPatch (mergeCacheEventPatch base patch fields) patch fields =
      mergeCacheEventPatch base patch fields := by
    simp only [mergeCacheEventPatch, overlaid_twice]
  have hlabels : ∀ has : Bool, (has &&
      !stringSetEqual (if has then patch.labels else base.labels) patch.labels) = false := by
    rintro (_ | _) <;> simp [stringSetEqual, isPerm_iff]
  rw [and_iff_left htwice]
  simp only [cacheEventConflictsCurrent, mergeCacheEventPatch, overlaid_eq, hlabels, Bool.or_false,
    Bool.false_or]
  simp only [hasCacheEventField]
  by_cases hparent : "parent" ∈ fields <;> simp [hparent]

/-- The payload of a bead that moved, under its other name: the merged row keeps its parent and
conflicts with the event for ever. -/
theorem merged_parent_id_conflicts :
    cacheEventConflictsCurrent
      (mergeCacheEventPatch { id := "gc-2", parentID := "gc-1" } { id := "gc-2" } ["parent_id"])
      { id := "gc-2" } ["parent_id"] = true := by
  decide

def depPair (d : Dep) : String × String := (d.dependsOnID, d.type)

/-- The cached dependencies of a bead, as pairs of a target and a type. -/
def Cache.depPairs (c : Cache) (id : String) : List (String × String) :=
  ((c.entry id).deps.getD []).map depPair

/-- The stored dependencies of a bead, as pairs of a target and a type. -/
def MemStore.depPairs (m : MemStore) (id : String) : List (String × String) :=
  (m.depList id .down).map depPair

/-- The first dependency on the target has the new type, or neither type is `parent-child`. -/
def OneEdge (pairs : List (String × String)) (target type : String) : Prop :=
  ∀ old ∈ pairs.lookup target, old = type ∨ (old ≠ "parent-child" ∧ type ≠ "parent-child")

theorem addCachedDep_eq_depInsert_iff (id target type : String) (cached stored : List Dep)
    (h : cached.map depPair = (stored.filter (·.issueID = id)).map depPair) :
    (Cache.addCachedDep id target type cached).map depPair =
        ((MemStore.depInsert id target type stored).filter (·.issueID = id)).map depPair ↔
      OneEdge (cached.map depPair) target type := by
  induction stored generalizing cached with
  | nil =>
    obtain rfl : cached = [] := by simpa using h
    simp [Cache.addCachedDep, MemStore.depInsert, OneEdge]
  | cons d stored ih =>
    by_cases hid : d.issueID = id
    · obtain ⟨e, cached, rfl⟩ : ∃ e l, cached = e :: l := by
        cases cached with
        | nil => simp [hid] at h
        | cons e l => exact ⟨e, l, rfl⟩
      obtain ⟨hpair, htail⟩ : depPair e = depPair d ∧
          cached.map depPair = (stored.filter (·.issueID = id)).map depPair := by
        simpa [hid] using h
      obtain ⟨hon, htype⟩ := Prod.mk.inj hpair
      by_cases htarget : d.dependsOnID = target
      · have hoverlay : Cache.addCachedDep id target type (e :: cached) =
            { e with type } :: cached := by
          rw [Cache.addCachedDep, if_pos (hon.trans htarget)]
        have hedge : OneEdge ((e :: cached).map depPair) target type ↔
            d.type = type ∨ (d.type ≠ "parent-child" ∧ type ≠ "parent-child") := by
          simp [OneEdge, depPair, hon, htype, htarget]
        rw [hoverlay, hedge, MemStore.depInsert]
        by_cases hsame : d.type = type
        · simp [hid, htarget, hsame, htail, depPair, hon]
        by_cases hchild : d.type ≠ "parent-child" ∧ type ≠ "parent-child"
        · simp [hid, htarget, hsame, hchild, htail, depPair, hon]
        · simp [hid, htarget, hsame, hchild, depPair, Ne.symm hsame]
      · have hoverlay : Cache.addCachedDep id target type (e :: cached) =
            e :: Cache.addCachedDep id target type cached := by
          rw [Cache.addCachedDep, if_neg (by rwa [hon])]
        have hedge : OneEdge ((e :: cached).map depPair) target type ↔
            OneEdge (cached.map depPair) target type := by
          simp [OneEdge, depPair, lookup_cons, hon, beq_false_of_ne (Ne.symm htarget)]
        rw [hoverlay, hedge, ← ih cached htail, MemStore.depInsert]
        simp [hid, htarget, hpair]
    · have hskip : (MemStore.depInsert id target type (d :: stored)) =
          d :: MemStore.depInsert id target type stored := by
        simp [MemStore.depInsert, hid]
      rw [hskip, filter_cons_of_neg (by simpa using hid)]
      rw [filter_cons_of_neg (by simpa using hid)] at h
      exact ih cached h

theorem eraseP_pairs (id target : String) (stored : List Dep) :
    ((stored.eraseP fun d => d.issueID = id ∧ d.dependsOnID = target).filter (·.issueID = id)).map
        depPair =
      ((stored.filter (·.issueID = id)).map depPair).eraseP (·.1 == target) := by
  induction stored with
  | nil => rfl
  | cons d stored ih =>
    by_cases hid : d.issueID = id <;> by_cases htarget : d.dependsOnID = target <;>
      simp_all [depPair]

namespace Cache

variable {c : Cache} {id : String} (target type : String) (now : Time)

theorem deps_noteLocalMutation :
    ((c.noteLocalMutation [id] now).entry id).deps = (c.entry id).deps := by
  unfold noteLocalMutation noteMutation
  rw [entry_modifyAll, entry_modifyAll]
  split_ifs <;> rfl

variable (hknown : c.depsComplete = true ∨ (c.entry id).deps.isSome = true)
include hknown

/-- A list that is known, or covered by a complete fetch, is installed. -/
theorem installs_deps :
    ¬ ((!(c.noteLocalMutation [id] now).depsComplete &&
      ((c.noteLocalMutation [id] now).entry id).deps.isNone) = true) := by
  rw [deps_noteLocalMutation]
  rcases hknown with h | h
  · simp [noteLocalMutation, noteMutation, modifyAll, h]
  · simp [Option.isSome_iff_ne_none.mp h]

theorem depPairs_publishDepAdd :
    (c.publishDepAddUnrefreshed id target type now).depPairs id =
      (addCachedDep id target type ((c.entry id).deps.getD [])).map depPair := by
  unfold publishDepAddUnrefreshed depPairs
  rw [if_neg (installs_deps now hknown), entry_modify_self, deps_noteLocalMutation]
  rfl

theorem depPairs_publishDepRemove :
    (c.publishDepRemoveUnrefreshed id target now).depPairs id =
      (c.depPairs id).eraseP (·.1 == target) := by
  have herase : ∀ l : List Dep, (l.map depPair).eraseP (·.1 == target) =
      (l.eraseP (·.dependsOnID == target)).map depPair := by
    intro l
    rw [eraseP_map]
    rfl
  unfold publishDepRemoveUnrefreshed
  rw [if_neg (installs_deps now hknown), deps_noteLocalMutation, depPairs, depPairs, herase]
  split_ifs with hany
  · rw [entry_modify_self]
    rw [deps_noteLocalMutation]
    cases (c.entry id).deps <;> rfl
  · rw [deps_noteLocalMutation, eraseP_of_forall_not]
    simpa using hany

end Cache

/-- A dependency written while the row cannot be read back is installed as the store records it, an
addition exactly when it meets no `parent-child` edge of another type. -/
theorem overlay_matches_store_iff {c : Cache} {m : MemStore} {id : String}
    (hknown : c.depsComplete = true ∨ (c.entry id).deps.isSome = true)
    (hequal : c.depPairs id = m.depPairs id) (target type : String) (now : Time) :
    ((c.publishDepAddUnrefreshed id target type now).depPairs id =
        (m.depAdd id target type).depPairs id ↔ OneEdge (m.depPairs id) target type) ∧
      (c.publishDepRemoveUnrefreshed id target now).depPairs id =
        (m.depRemove id target).depPairs id := by
  constructor
  · rw [Cache.depPairs_publishDepAdd target type now hknown, ← hequal]
    exact addCachedDep_eq_depInsert_iff id target type _ m.deps hequal
  · rw [Cache.depPairs_publishDepRemove target now hknown, hequal]
    exact (eraseP_pairs id target m.deps).symm

def parentEdge : Dep := { issueID := "gc-2", dependsOnID := "gc-1", type := "parent-child" }

def childCache : Cache :=
  { entries := (∅ : Table String Entry).set "gc-2"
      { bead := some { id := "gc-2", parentID := "gc-1" }, deps := some [parentEdge] } }

def childStore : MemStore := { deps := [parentEdge] }

/-- Once the child also waits for its parent, the cache has lost the parent edge. -/
theorem overlay_replaces_parent_edge :
    (childCache.publishDepAddUnrefreshed "gc-2" "gc-1" "blocks" ⟨1⟩).depPairs "gc-2" =
        [("gc-1", "blocks")] ∧
      (childStore.depAdd "gc-2" "gc-1" "blocks").depPairs "gc-2" =
        [("gc-1", "parent-child"), ("gc-1", "blocks")] := by
  decide

theorem overlay_matches_store_other_target :
    (childCache.publishDepAddUnrefreshed "gc-2" "gc-3" "blocks" ⟨1⟩).depPairs "gc-2" =
      (childStore.depAdd "gc-2" "gc-3" "blocks").depPairs "gc-2" :=
  (overlay_matches_store_iff (.inr (by decide)) (by decide)
    "gc-3" "blocks" ⟨1⟩).1.mpr (by unfold OneEdge; decide)

end GasCity
