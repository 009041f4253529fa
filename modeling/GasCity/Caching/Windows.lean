import GasCity.Caching.Steps

/-! # The window of a write

Between its commit and its publication a write has changed the backing store and
not yet the cache.  This module says what the publication of a write to one bead
leaves in the cache, and when a scan is held back from an entry.
-/

namespace GasCity

open List Entry Write Cache

namespace Write

def changesDeps : Write → Bool
  | create _ | depAdd _ _ _ | depRemove _ _ | delete _ | deleteIfMatch _ => true
  | _ => false

/-- What the cache overlays on the row that is read back is already in the row and dependency list
of the commit. -/
def leaves (row : Option Bead) (deps : List Dep) : Write → Bool
  | update _ opts => row.any fun b => decide (applyUpdateOptsToBead b opts = b)
  | close _ => row.any (·.status == "closed")
  | reopen _ => row.any (·.status == "open")
  | depAdd _ _ _ | depRemove _ _ => row.any fun b => decide (b.dependencies = deps ∧ b.needs = [])
  | create _ | releaseIfCurrent _ | setMetadata _ _ _ | setMetadataBatch _ _ => row.isSome
  | delete _ | deleteIfMatch _ | updateIfMatch _ | closeIfMatch _ | compareAndSetMetadataKey _ =>
    true
  | closeAll _ | tx _ _ | graphApply _ | deleteBatch _ => false

theorem ids_of_single {wr : Write} (h : wr.single = true) : ∃ id, wr.ids = [id] := by
  cases wr with
  | closeAll | tx | graphApply | deleteBatch => cases h
  | _ => exact ⟨_, rfl⟩

end Write

/-- The entry holds back a scan that started at the given sequence: by a deletion fence, or by a
mutation fence on a row or a dirty mark. -/
def Entry.Guarded (e : Entry) (startSeq : Nat) : Prop :=
  startSeq < e.deletedSeq ∨ startSeq < e.beadSeq ∧ (e.bead.isSome = true ∨ e.dirty = true)

instance {e : Entry} {startSeq : Nat} : Decidable (e.Guarded startSeq) :=
  inferInstanceAs (Decidable (_ ∨ _))

/-- All scans that started at or before the given sequence are held back. -/
def Entry.GuardedUpTo (e : Entry) (seq : Nat) : Prop := ∀ startSeq ≤ seq, e.Guarded startSeq

variable {e : Entry}

theorem guardedUpTo_of_beadSeq {seq : Nat} (hseq : e.beadSeq = seq + 1)
    (h : e.bead.isSome = true ∨ e.dirty = true) : e.GuardedUpTo seq :=
  fun _ hstart => .inr ⟨by omega, h⟩

theorem Entry.Guarded.fenced {startSeq : Nat} (h : e.Guarded startSeq) :
    e.fenced startSeq = true := by
  rcases h with h | h
  · simp [Entry.fenced, h]
  · simp [Entry.fenced, h.1]

/-- A guarded entry is left alone, unless a prime reinstalls the row of a marked one. -/
theorem Scanned.eq_of_guarded {s : Scan} {bdStore : Bool} {c : Cache} {id : String} {e' : Entry}
    (h : Scanned s bdStore c id e e') (hg : e.Guarded s.startSeq)
    (hkeeps : e.dirty = true → s.reinstalls id e = false) : e' = e := by
  induction h with
  | kept => rfl
  | dropped hf | retained _ hf =>
    rw [hg.fenced] at hf
    cases hf
  | @installed e _ b h =>
    rcases h.dirty with ⟨hf, _⟩ | ⟨hkeeps', _⟩
    · rw [hg.fenced] at hf
      cases hf
    · rcases h.unfenced with hf | ⟨hnone, hdeleted⟩
      · rw [hg.fenced] at hf
        cases hf
      · have hdirty : e.dirty = true := by
          rcases hg with hg | ⟨_, hbead | hdirty⟩
          · omega
          · simp [hnone] at hbead
          · exact hdirty
        have hnot := hkeeps hdirty
        simp [Scan.reinstalls, Scan.row_of_keepsMark h.offers hkeeps', hkeeps'] at hnot
  | trans _ _ _ ih ih' =>
    obtain rfl := ih hg hkeeps
    exact ih' hg hkeeps

variable {c : Cache} {id id' : String} {now : Time}

namespace Cache

theorem entry_note_self (hid : id ≠ "") : (c.noteLocalMutation [id] now).entry id =
    { c.entry id with beadSeq := c.mutationSeq + 1, localBeadAt := now } :=
  entry_noteLocalMutation.trans (if_pos ⟨mem_singleton_self id, hid⟩)

theorem entry_note_absorb (hid : id ≠ "") {b : Bead} {mode : AbsorbDepsMode} :
    ((c.noteLocalMutation [id] now).absorbFresh id b now ⟨mode, .seqKeep, true⟩).entry id =
      { bead := some b
        deps := (c.entry id).absorbDeps b mode
        dirty := false
        beadSeq := c.mutationSeq + 1
        localBeadAt := now
        deletedSeq := 0 } := by
  rw [absorbFresh, entry_modify_self, entry_note_self hid]
  simp only [Entry.absorbFresh, absorbClearsSeq, Bool.not_true, Bool.and_false, Bool.false_eq_true,
    if_false, reduceCtorEq, and_false]
  cases mode <;> rfl

end Cache

namespace WriteFlight

open Cache

/-- A write in flight and one of its beads, given the row and the dependency list the backing store
has for it. -/
structure Faithful (f : WriteFlight) (id : String) (row : Option Bead) (deps : List Dep) :
    Prop where
  single : f.write.single = true
  within : f.committed ⊆ f.write.ids.toFinset
  admitted : ∀ r, f.reply = some r → f.admits r = true
  unread : f.reply = none → f.fetched = ∅ ∧ f.fetchedDeps = ∅
  left : id ∈ f.committed → f.write.leaves row deps = true
  fetched : id ∈ f.committed → ∀ x, f.fetched.get id = some x → x = row.elim .notFound .row
  fetchedDeps : id ∈ f.committed → ∀ d, f.fetchedDeps.get id = some (some d) → d = deps

end WriteFlight

/-- The publication leaves the row of the backing store, no row behind a fence, the old row behind a
dirty mark, or, if not committed, what was there. -/
inductive Published (f : WriteFlight) (c : Cache) (id : String) (row : Option Bead) (e' : Entry) :
    Prop where
  | row {b : Bead} : e'.GuardedUpTo c.mutationSeq → row = some b → e'.bead = some b →
      (e'.deps = (c.entry id).deps ∧ f.write.changesDeps = false ∨
        e'.deps = some (depsFromBeadFields b)) →
      Published f c id row e'
  | gone : e'.GuardedUpTo c.mutationSeq → e'.bead = none → e'.deps = none → Published f c id row e'
  | unknown : e'.GuardedUpTo c.mutationSeq → e'.bead = (c.entry id).bead →
      e'.deps = (c.entry id).deps → e'.dirty = true → f.reply = some .failed →
      Published f c id row e'
  | unchanged : e' = c.entry id → id ∉ f.committed → Published f c id row e'

theorem depsFromBeadFields_of_needs {b : Bead} (h : b.needs = []) :
    depsFromBeadFields b = b.dependencies := by
  unfold depsFromBeadFields
  split
  · rename_i hempty
    rw [h, map_nil, isEmpty_iff.mp hempty]
  · rfl

namespace Cache

variable {f : WriteFlight} {b : Bead}

variable {mode : AbsorbDepsMode} {row : Option Bead}

variable (hid : id ≠ "")
include hid

theorem published_absorb
    (hmode : mode = .depsFromFields ∨ mode = .depsKeepCached ∧ f.write.changesDeps = false)
    {e' : Entry}
    (he' : e' = ((c.noteLocalMutation [id] now).absorbFresh id b now ⟨mode, .seqKeep, true⟩).entry
      id) : Published f c id (some b) e' := by
  rw [entry_note_absorb hid] at he'
  subst he'
  refine .row (guardedUpTo_of_beadSeq rfl (.inl rfl)) rfl rfl ?_
  rcases hmode with rfl | ⟨rfl, hwrite⟩
  · exact .inr rfl
  · exact .inl ⟨rfl, hwrite⟩

variable (hb : b.isBlocked = none)
include hb

theorem noProjection_note_absorb :
    (((c.noteLocalMutation [id] now).absorbFresh id b now ⟨mode, .seqKeep, true⟩).entry
      id).hasReadyProjection = false := by
  rw [entry_note_absorb hid]
  simp [hasReadyProjection, hb]

theorem published_update {opts : UpdateOpts} (hopts : applyUpdateOptsToBead b opts = b) :
    Published f c id (some b) ((c.publishUpdate id opts (.row b) now).entry id) := by
  apply published_absorb hid (.inl rfl)
  dsimp only [publishUpdate]
  rw [hopts]
  unfold clearIfStatus
  split
  · exact entry_clearDependent_of_none (noProjection_note_absorb hid hb) id
  · rfl

theorem published_status {status : String}
    (hstatus : b.status = status) (hwrite : f.write.changesDeps = false) :
    Published f c id (some b) ((c.publishStatus id status (.row b) now).entry id) := by
  subst hstatus
  apply published_absorb hid (.inr ⟨rfl, hwrite⟩)
  exact entry_clearDependent_of_none (noProjection_note_absorb hid hb) id

theorem published_release :
    Published f c id (some b) ((c.publishRelease id (.row b) now).entry id) := by
  apply published_absorb hid (.inl rfl)
  exact entry_clearDependent_of_none (noProjection_note_absorb hid hb) id

omit hb

theorem published_deps (hb : b.isBlocked = none) (hneeds : b.needs = [])
    {deps : Option (List Dep)} (hdeps : ∀ d, deps = some d → d = b.dependencies) :
    Published f c id (some b) ((c.publishDepRefreshed id (refreshedWithDeps b deps).1
      (refreshedWithDeps b deps).2 now).entry id) := by
  have hrefreshed : refreshedWithDeps b deps = (b, depsFromBeadFields b) := by
    have hrow : ∀ l, l = b.dependencies → { b with dependencies := l, needs := [] } = b := by
      rintro l rfl
      rw [← hneeds]
    cases deps with
    | none =>
      rw [refreshedWithDeps, depsFromBeadFields_of_needs hneeds]
    | some d =>
      rw [refreshedWithDeps, hrow d (hdeps d rfl), depsFromBeadFields_of_needs hneeds,
        hdeps d rfl]
  rw [hrefreshed, publishDepRefreshed, clearReadyProjection, entry_modify_self,
    entry_note_absorb hid]
  refine .row (guardedUpTo_of_beadSeq rfl (.inl rfl)) rfl ?_ (.inr rfl)
  show some { b with isBlocked := none } = some b
  rw [← hb]

omit hid

theorem entry_tombstone_self {seq : Nat} : (c.tombstone id seq).entry id = .tombstone seq := by
  have heq : (c.tombstone id seq).entry id = (c.modify id fun _ => .tombstone seq).entry id := rfl
  rw [heq, entry_modify_self]

theorem published_delete : Published f c id row ((c.publishDelete id now).entry id) := by
  have hentry : ((c.noteLocalMutation [id] now).tombstone id (c.mutationSeq + 1)).entry id =
      .tombstone (c.mutationSeq + 1) := entry_tombstone_self
  have heq : (c.publishDelete id now).entry id = .tombstone (c.mutationSeq + 1) :=
    (entry_clearDependent_of_none (hentry ▸ rfl) id).trans hentry
  rw [heq]
  exact .gone (fun _ hstart => .inl (Nat.lt_succ_of_le hstart)) rfl rfl

theorem published_evict (hid : id ≠ "") :
    Published f c id row ((c.evictForConditionalWrite id now).entry id) := by
  have hentry : ((c.noteLocalMutation [id] now).modify id fun e =>
      { e with bead := none, deps := none, dirty := true }).entry id =
        { c.entry id with
          bead := none
          deps := none
          dirty := true
          beadSeq := c.mutationSeq + 1
          localBeadAt := now } := by
    rw [entry_modify_self, entry_note_self hid]
  rw [evictForConditionalWrite, entry_clearDependent_of_none (hentry ▸ rfl) id, hentry]
  exact .gone (guardedUpTo_of_beadSeq rfl (.inr rfl)) rfl rfl

theorem published_unknown (hid : id ≠ "") (hreply : f.reply = some .failed) :
    Published f c id row ((c.markConditionalWriteUnknown id now).entry id) := by
  rw [markConditionalWriteUnknown, entry_markDirty, entry_note_self hid]
  exact .unknown (guardedUpTo_of_beadSeq rfl (.inr (by simp))) rfl rfl (by simp) hreply

theorem published_batchFailed (hid : id ≠ "") (hreply : f.reply = some .failed) :
    Published f c id row ((c.publishMetadataBatchFailed id).entry id) := by
  rw [publishMetadataBatchFailed, entry_markDirty, entry_noteMutation,
    if_pos ⟨mem_singleton_self id, hid⟩]
  exact .unknown (guardedUpTo_of_beadSeq rfl (.inr (by simp))) rfl rfl (by simp) hreply

end Cache

namespace WriteFlight

variable {f : WriteFlight} {row : Option Bead} {deps : List Dep}

variable (hf : f.Faithful id row deps)
include hf

/-- A call that was accepted and reads back has the row of the backing store. -/
theorem fetchedRow_eq (hreply : f.reply = some .ok)
    (hcomplete : f.complete = true) (hid : id ∈ f.write.ids) (hreads : f.write.readsBack = true)
    (hcommitted : id ∈ f.committed) : f.fetchedRow id = row.elim .notFound .row := by
  simp only [complete, hreply, hreads, Bool.not_true, Bool.false_or, all_eq_true] at hcomplete
  have hget := hcomplete id hid
  cases hfetched : f.fetched.get id with
  | none => simp [hfetched] at hget
  | some x =>
    rw [fetchedRow, Table.getD, hfetched, Option.getD_some, hf.fetched hcommitted x hfetched]

theorem fetchedDepList_eq (hcommitted : id ∈ f.committed)
    {d : List Dep} (h : f.fetchedDepList id = some d) : d = deps := by
  unfold fetchedDepList Table.getD at h
  cases hfetched : f.fetchedDeps.get id with
  | none => simp [hfetched] at h
  | some x =>
    rw [hfetched, Option.getD_some] at h
    exact hf.fetchedDeps hcommitted d (h ▸ hfetched)

theorem published_ok (hreply : f.reply = some .ok)
    (hcomplete : f.complete = true) (hids : id ∈ f.write.ids) (hid : id ≠ "")
    (hrow : ∀ b, row = some b → b.isBlocked = none) :
    Published f c id row ((f.publishOk c now).entry id) := by
  have hcommitted : id ∈ f.committed := by
    have hadmits := hf.admitted _ hreply
    simp only [admits, decide_eq_true_eq] at hadmits
    exact hadmits (mem_toFinset.mpr hids)
  have hleft := hf.left hcommitted
  have hfetched : f.write.readsBack = true → ∀ b, row = some b → f.fetchedRow id = .row b := by
    intro hreads b hb
    rw [fetchedRow_eq hf hreply hcomplete hids hreads hcommitted, hb]
    rfl
  unfold publishOk
  have hsingle := hf.single
  generalize hwrite : f.write = wr at hids hleft hfetched hsingle ⊢
  cases wr with
  | closeAll | tx | graphApply | deleteBatch => cases hsingle
  | create id' =>
    obtain rfl := mem_singleton.mp hids
    obtain ⟨b, rfl⟩ := Option.isSome_iff_exists.mp hleft
    simp only [hfetched rfl b rfl]
    exact published_absorb hid (.inl rfl) rfl
  | update id' opts =>
    obtain rfl := mem_singleton.mp hids
    obtain ⟨b, rfl, hopts⟩ := (Option.any_eq_true ..).mp hleft
    simp only [hfetched rfl b rfl]
    exact published_update hid (hrow b rfl) (of_decide_eq_true hopts)
  | releaseIfCurrent id' =>
    obtain rfl := mem_singleton.mp hids
    obtain ⟨b, rfl⟩ := Option.isSome_iff_exists.mp hleft
    simp only [hfetched rfl b rfl]
    exact published_release hid (hrow b rfl)
  | close id' | reopen id' =>
    obtain rfl := mem_singleton.mp hids
    obtain ⟨b, rfl, hstatus⟩ := (Option.any_eq_true ..).mp hleft
    simp only [hfetched rfl b rfl]
    exact published_status hid (hrow b rfl) (beq_iff_eq.mp hstatus) (by rw [hwrite]; rfl)
  | setMetadata id' | setMetadataBatch id' =>
    obtain rfl := mem_singleton.mp hids
    obtain ⟨b, rfl⟩ := Option.isSome_iff_exists.mp hleft
    simp only [hfetched rfl b rfl]
    exact published_absorb hid (.inl rfl) rfl
  | depAdd id' | depRemove id' =>
    obtain rfl := mem_singleton.mp hids
    obtain ⟨b, rfl, hdeps⟩ := (Option.any_eq_true ..).mp hleft
    obtain ⟨hdependencies, hneeds⟩ := of_decide_eq_true hdeps
    simp only [hfetched rfl b rfl]
    apply published_deps hid (hrow b rfl) hneeds
    intro d hd
    rw [hdependencies, fetchedDepList_eq hf hcommitted hd]
  | delete id' | deleteIfMatch id' =>
    obtain rfl := mem_singleton.mp hids
    exact published_delete
  | updateIfMatch id' | closeIfMatch id' | compareAndSetMetadataKey id' =>
    obtain rfl := mem_singleton.mp hids
    exact published_evict hid

theorem published_failed (hreply : f.reply = some .failed)
    (hids : id ∈ f.write.ids) (hid : id ≠ "") :
    Published f c id row ((f.publishFailed c now).entry id) := by
  have hadmits := hf.admitted _ hreply
  simp only [admits, Bool.or_eq_true, decide_eq_true_eq] at hadmits
  unfold publishFailed
  have hsingle := hf.single
  generalize f.write = wr at hids hadmits hsingle ⊢
  cases wr with
  | deleteBatch => cases hsingle
  | setMetadataBatch id' =>
    obtain rfl := mem_singleton.mp hids
    exact published_batchFailed hid hreply
  | updateIfMatch id' | closeIfMatch id' | deleteIfMatch id' | compareAndSetMetadataKey id' =>
    obtain rfl := mem_singleton.mp hids
    exact published_unknown hid hreply
  | _ =>
    have hnone : f.committed = ∅ := by
      simpa [mayHaveCommitted, isConditional] using hadmits
    exact .unchanged rfl (hnone ▸ Finset.notMem_empty id)

theorem published (hcomplete : f.complete = true)
    (hids : id ∈ f.write.ids) (hid : id ≠ "") (hrow : ∀ b, row = some b → b.isBlocked = none) :
    Published f c id row ((f.publish c now).entry id) := by
  unfold publish
  split
  · rename_i hreply
    exact published_ok hf hreply hcomplete hids hid hrow
  · rename_i hreply
    exact published_failed hf hreply hids hid
  · obtain ⟨id', heq⟩ := ids_of_single hf.single
    obtain rfl : id = id' := by simpa [heq] using hids
    rw [heq]
    exact published_evict hid
  · rename_i id' _ hwrite
    obtain rfl : id = id' := by simpa [hwrite, ids] using hids
    exact published_evict hid
  · rename_i hok hfailed hprecondition hdeclined
    refine .unchanged rfl ?_
    cases hreply : f.reply with
    | none => simp [complete, hreply] at hcomplete
    | some r =>
      have hadmits := hf.admitted r hreply
      cases r with
      | ok => exact absurd hreply hok
      | failed => exact absurd hreply hfailed
      | preconditionFailed => exact absurd hreply hprecondition
      | declined | unsupported =>
        simp only [admits, Bool.and_eq_true, decide_eq_true_eq] at hadmits
        exact hadmits.1 ▸ Finset.notMem_empty id

end WriteFlight

end GasCity
