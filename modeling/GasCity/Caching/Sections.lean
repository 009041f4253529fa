import GasCity.Caching.World

/-! # What a lock section can do to an entry

Every lock section of a write or of an event either advances the fence of an
entry past all earlier scans, or drops the entry, or leaves its row status and
its dirty mark as they were.
-/

namespace GasCity

open List

namespace Entry

def Active (e : Entry) : Prop := ∃ b, e.bead = some b ∧ b.status ≠ "closed"

def Bounded (e : Entry) (seq : Nat) : Prop := e.beadSeq ≤ seq ∧ e.deletedSeq ≤ seq

/-- What a section that started at the given sequence does to an entry. -/
inductive Kept (seq : Nat) (e e' : Entry) : Prop where
  | fenced : seq < e'.beadSeq → Kept seq e e'
  | dropped : ¬ e'.Active → e'.dirty = false → Kept seq e e'
  | same : (e'.dirty = true → e.dirty = true) → e.beadSeq ≤ e'.beadSeq → (e'.Active → e.Active) →
      Kept seq e e'

theorem Kept.refl (seq : Nat) (e : Entry) : Kept seq e e := .same id le_rfl id

theorem Kept.trans {seq seq' : Nat} {e e' e'' : Entry} (hseq : seq ≤ seq') (h : Kept seq e e')
    (h' : Kept seq' e' e'') : Kept seq e e'' := by
  cases h' with
  | fenced hf => exact .fenced (by omega)
  | dropped ha hd => exact .dropped ha hd
  | same hd hs ha =>
    cases h with
    | fenced hf => exact .fenced (by omega)
    | dropped ha' hd' =>
      apply Kept.dropped
      · exact ha' ∘ ha
      · rw [← Bool.not_eq_true] at hd' ⊢
        exact hd' ∘ hd
    | same hd' hs' ha' => exact .same (hd' ∘ hd) (hs'.trans hs) (ha' ∘ ha)

/-- A change that keeps the mutation fence and raises the deletion fence at most to a sequence. -/
def Steady (seq : Nat) (f : Entry → Entry) : Prop :=
  ∀ e, (f e).beadSeq = e.beadSeq ∧ ((f e).deletedSeq ≤ e.deletedSeq ∨ (f e).deletedSeq = seq)

theorem active_clearReadyProjection {e : Entry} : e.clearReadyProjection.Active → e.Active := by
  rintro ⟨b, hb, hstatus⟩
  obtain ⟨b', hb', rfl⟩ := Option.map_eq_some_iff.mp hb
  exact ⟨b', hb', hstatus⟩

end Entry

open Entry

/-- A lock section: every entry is kept, and bounded fences stay bounded. -/
structure Section (c c' : Cache) : Prop where
  seq_le : c.mutationSeq ≤ c'.mutationSeq
  kept : ∀ id, Kept c.mutationSeq (c.entry id) (c'.entry id)
  bounded : ∀ id, (c.entry id).Bounded c.mutationSeq → (c'.entry id).Bounded c'.mutationSeq

/-- A lock section that rewrites the entries of the given ids: each is fenced or dropped. -/
structure Rewrites (ids : List String) (c c' : Cache) : Prop extends Section c c' where
  rewritten : ∀ id ∈ ids, c.mutationSeq < (c'.entry id).beadSeq ∨
    ¬ (c'.entry id).Active ∧ (c'.entry id).dirty = false

/-- The entries of other beads are left alone where they carry no projection. -/
def Spares (ids : List String) (c c' : Cache) : Prop :=
  ∀ id ∉ ids, (c.entry id).hasReadyProjection = false → c'.entry id = c.entry id

/-- The lock section of a write, which spares other beads if it is to a single one. -/
structure Publishes (single : Bool) (ids : List String) (c c' : Cache) : Prop
    extends Rewrites ids c c' where
  spares : single = true → Spares ids c c'

/-- The inside of a section that has noted the given ids. -/
structure Noting (c₀ : Cache) (ids : List String) (c : Cache) : Prop where
  seq_lt : c₀.mutationSeq < c.mutationSeq
  fenced : ∀ id ∈ ids, c₀.mutationSeq < (c.entry id).beadSeq
  kept : ∀ id ∉ ids, Kept c₀.mutationSeq (c₀.entry id) (c.entry id)
  bounded : ∀ id, (c₀.entry id).Bounded c₀.mutationSeq → (c.entry id).Bounded c.mutationSeq

structure Sparing (c₀ : Cache) (ids : List String) (c : Cache) : Prop extends Noting c₀ ids c where
  spares : Spares ids c₀ c

variable {c₀ c c' c'' : Cache} {id : String} {ids : List String} {f : Entry → Entry} {now : Time}

namespace Section

theorem refl (c : Cache) : Section c c where
  seq_le := le_rfl
  kept _ := .refl _ _
  bounded _ h := h

theorem trans (h : Section c c') (h' : Section c' c'') : Section c c'' where
  seq_le := h.seq_le.trans h'.seq_le
  kept id := (h.kept id).trans h.seq_le (h'.kept id)
  bounded id hb := h'.bounded id (h.bounded id hb)

theorem congr (h : Section c c') (he : c''.entries = c'.entries)
    (hs : c''.mutationSeq = c'.mutationSeq) : Section c c'' where
  seq_le := hs ▸ h.seq_le
  kept id := by
    have hentry : c''.entry id = c'.entry id := by rw [Cache.entry, he, Cache.entry]
    rw [hentry]
    exact h.kept id
  bounded id hb := by
    have hentry : c''.entry id = c'.entry id := by rw [Cache.entry, he, Cache.entry]
    rw [hentry, hs]
    exact h.bounded id hb

end Section

theorem Rewrites.trans (h : Rewrites ids c c') (h' : Section c' c'') : Rewrites ids c c'' where
  toSection := h.toSection.trans h'
  rewritten id hid := by
    cases h'.kept id with
    | fenced hf => exact .inl (h.seq_le.trans_lt hf)
    | dropped ha hd => exact .inr ⟨ha, hd⟩
    | same hd hs ha =>
      rcases h.rewritten id hid with hf | ⟨ha', hd'⟩
      · exact .inl (hf.trans_le hs)
      · right
        rw [← Bool.not_eq_true] at hd' ⊢
        exact ⟨ha' ∘ ha, hd' ∘ hd⟩

theorem Rewrites.nil (c : Cache) : Rewrites [] c c where
  toSection := .refl c
  rewritten _ h := nomatch h

theorem Publishes.nil {single : Bool} (c : Cache) : Publishes single [] c c :=
  ⟨.nil c, fun _ _ _ _ => rfl⟩

theorem Rewrites.snoc (h : Rewrites ids c c') (h' : Rewrites [id] c' c'') :
    Rewrites (ids ++ [id]) c c'' where
  toSection := h.toSection.trans h'.toSection
  rewritten id' hid' := by
    rcases mem_append.mp hid' with hmem | hmem
    · exact (h.trans h'.toSection).rewritten id' hmem
    · exact (h'.rewritten id' hmem).imp_left (h.seq_le.trans_lt ·)

namespace Cache

theorem entry_noteMutation : (c.noteMutation ids).entry id =
      if id ∈ ids ∧ id ≠ "" then { c.entry id with beadSeq := c.mutationSeq + 1 }
      else c.entry id := by
  rw [noteMutation, entry_modifyAll]
  simp only [Finset.mem_erase, mem_toFinset, and_comm]
  rfl

theorem entry_noteLocalMutation : (c.noteLocalMutation ids now).entry id =
      if id ∈ ids ∧ id ≠ "" then
        { c.entry id with beadSeq := c.mutationSeq + 1, localBeadAt := now }
      else c.entry id := by
  rw [noteLocalMutation, entry_modifyAll, entry_noteMutation]
  simp only [Finset.mem_erase, mem_toFinset, and_comm]
  split <;> rfl

theorem entry_markDirty (c : Cache) (id' : String) :
    (c.markDirty id').entry id =
      { c.entry id with dirty := (c.entry id).dirty || decide (id = id') } := by
  rw [markDirty, entry_modify]
  split
  · rename_i heq
    simp [heq, Entry.markDirty]
  · rename_i hne
    simp [hne]

/-- Clearing the dependents' projections either leaves an entry alone or fences it. -/
theorem entry_clearDependent (target id : String) :
    (c.clearDependentReadyProjections target).entry id = c.entry id ∨
      (c.entry id).hasReadyProjection = true ∧
        (c.clearDependentReadyProjections target).entry id =
          { (c.entry id).clearReadyProjection with
            beadSeq := if id = "" then (c.entry id).beadSeq else c.mutationSeq + 1 } ∧
        (c.clearDependentReadyProjections target).mutationSeq = c.mutationSeq + 1 := by
  unfold clearDependentReadyProjections
  split
  · exact .inl rfl
  · rw [entry_modifyAll]
    split
    · rename_i hid
      refine .inr ⟨?_, rfl, rfl⟩
      unfold dependentProjections at hid
      split at hid
      · simp at hid
      · simp only [Finset.mem_filter, Bool.and_eq_true] at hid
        exact hid.2.1
    · exact .inl rfl

/-- Clearing the projections of dependents leaves a row without a projection alone. -/
theorem entry_clearDependent_of_none (h : (c.entry id).hasReadyProjection = false)
    (target : String) : (c.clearDependentReadyProjections target).entry id = c.entry id := by
  rcases c.entry_clearDependent target id with heq | ⟨hsome, _⟩
  · exact heq
  · rw [h] at hsome
    cases hsome

theorem mutationSeq_clearDependent (target : String) :
    c.mutationSeq ≤ (c.clearDependentReadyProjections target).mutationSeq := by
  unfold clearDependentReadyProjections
  split
  · exact le_rfl
  · exact Nat.le_succ _

end Cache

theorem Section.clearDependent (c : Cache) (target : String) :
    Section c (c.clearDependentReadyProjections target) where
  seq_le := c.mutationSeq_clearDependent target
  kept id := by
    rcases c.entry_clearDependent target id with h | ⟨_, h, _⟩
    · rw [h]
      exact .refl _ _
    · rw [h]
      by_cases hid : id = ""
      · exact .same (by simp [clearReadyProjection]) (by simp [hid]) active_clearReadyProjection
      · exact .fenced (by simp [hid])
  bounded id hb := by
    rcases c.entry_clearDependent target id with h | ⟨_, h, hseq⟩
    · rw [h]
      have := c.mutationSeq_clearDependent target
      exact ⟨hb.1.trans this, hb.2.trans this⟩
    · rw [h, hseq]
      constructor
      · split
        · exact hb.1.trans (Nat.le_succ _)
        · exact le_rfl
      · exact hb.2.trans (Nat.le_succ _)

section Steady

variable {seq : Nat}

theorem steady_markDirty : Steady seq Entry.markDirty := fun _ => ⟨rfl, .inl le_rfl⟩

theorem steady_clearStalenessMarks : Steady seq Entry.clearStalenessMarks :=
  fun _ => ⟨rfl, .inl (Nat.zero_le _)⟩

theorem steady_clearReadyProjection : Steady seq Entry.clearReadyProjection :=
  fun _ => ⟨rfl, .inl le_rfl⟩

end Steady

namespace Noting

theorem of_entry {e : String → Entry} (h : "" ∉ ids) (hseq : c'.mutationSeq = c.mutationSeq + 1)
    (hentry : ∀ id, c'.entry id = if id ∈ ids ∧ id ≠ "" then e id else c.entry id)
    (he : ∀ id, (e id).beadSeq = c.mutationSeq + 1 ∧
      (e id).deletedSeq = (c.entry id).deletedSeq) :
    Noting c ids c' where
  seq_lt := hseq ▸ Nat.lt_succ_self _
  fenced id hid := by
    have hne : id ≠ "" := fun heq => h (heq ▸ hid)
    rw [hentry, if_pos ⟨hid, hne⟩, (he id).1]
    exact Nat.lt_succ_self _
  kept id hid := by
    rw [hentry, if_neg fun h => hid h.1]
    exact .refl _ _
  bounded id hb := by
    rw [hentry, hseq]
    split
    · exact ⟨(he id).1.le, (he id).2.le.trans (hb.2.trans (Nat.le_succ _))⟩
    · exact ⟨hb.1.trans (Nat.le_succ _), hb.2.trans (Nat.le_succ _)⟩

theorem noteMutation (h : "" ∉ ids) : Noting c ids (c.noteMutation ids) :=
  of_entry h rfl (fun _ => Cache.entry_noteMutation) fun _ => ⟨rfl, rfl⟩

theorem noteLocalMutation (h : "" ∉ ids) : Noting c ids (c.noteLocalMutation ids now) :=
  of_entry h rfl (fun _ => Cache.entry_noteLocalMutation) fun _ => ⟨rfl, rfl⟩

theorem modify (h : Noting c₀ ids c) (hid : id ∈ ids) (hf : Steady c.mutationSeq f) :
    Noting c₀ ids (c.modify id f) where
  seq_lt := h.seq_lt
  fenced id' hid' := by
    rw [Cache.entry_modify]
    split
    · rw [(hf _).1]
      exact h.fenced id hid
    · exact h.fenced id' hid'
  kept id' hid' := by
    have hne : id' ≠ id := by
      rintro rfl
      exact hid' hid
    rw [Cache.entry_modify_of_ne hne]
    exact h.kept id' hid'
  bounded id' hb := by
    have hseq : (c.modify id f).mutationSeq = c.mutationSeq := rfl
    rw [Cache.entry_modify, hseq]
    split
    · rename_i heq
      subst heq
      have hb' := h.bounded id' hb
      obtain ⟨hbead, hdel⟩ := hf (c.entry id')
      refine ⟨hbead ▸ hb'.1, ?_⟩
      rcases hdel with hdel | hdel
      · exact hdel.trans hb'.2
      · exact hdel.le
    · exact h.bounded id' hb

theorem followedBy (h : Noting c₀ ids c) (h' : Section c c')
    (hids : ∀ id ∈ ids, c₀.mutationSeq < (c'.entry id).beadSeq) : Noting c₀ ids c' where
  seq_lt := h.seq_lt.trans_le h'.seq_le
  fenced := hids
  kept id hid := (h.kept id hid).trans h.seq_lt.le (h'.kept id)
  bounded id hb := h'.bounded id (h.bounded id hb)

theorem clearDependent (h : Noting c₀ ids c) (target : String) :
    Noting c₀ ids (c.clearDependentReadyProjections target) := by
  apply h.followedBy (Section.clearDependent c target)
  intro id hid
  have hfenced := h.fenced id hid
  rcases c.entry_clearDependent target id with heq | ⟨_, heq, _⟩
  · rwa [heq]
  · rw [heq]
    split
    · exact hfenced
    · exact h.seq_lt.trans (Nat.lt_succ_self _)

theorem rewrites (h : Noting c₀ ids c) : Rewrites ids c₀ c where
  seq_le := h.seq_lt.le
  kept id := by
    by_cases hid : id ∈ ids
    · exact .fenced (h.fenced id hid)
    · exact h.kept id hid
  bounded := h.bounded
  rewritten id hid := .inl (h.fenced id hid)

theorem drop (h : Noting c₀ ids c) (hactive : ∀ e, ¬ (f e).Active)
    (hdirty : ∀ e, (f e).dirty = false) (hb : ∀ e, (f e).Bounded c.mutationSeq) :
    Rewrites ids c₀ (c.modify id f) where
  seq_le := h.seq_lt.le
  kept id' := by
    rw [Cache.entry_modify]
    split
    · exact .dropped (hactive _) (hdirty _)
    · exact h.rewrites.kept id'
  rewritten id' hid' := by
    rw [Cache.entry_modify]
    split
    · exact .inr ⟨hactive _, hdirty _⟩
    · exact h.rewrites.rewritten id' hid'
  bounded id' hb' := by
    have hseq : (c.modify id f).mutationSeq = c.mutationSeq := rfl
    rw [Cache.entry_modify, hseq]
    split
    · exact hb _
    · exact h.bounded id' hb'

end Noting

theorem Spares.trans (h : Spares ids c c')
    (h' : ∀ id, (c'.entry id).hasReadyProjection = false → c''.entry id = c'.entry id) :
    Spares ids c c'' := by
  intro id hid hnone
  have heq := h id hid hnone
  exact (h' id (heq ▸ hnone)).trans heq

theorem Spares.modify (h : Spares ids c₀ c) (hid : id ∈ ids) : Spares ids c₀ (c.modify id f) := by
  intro id' hid' hnone
  have hne : id' ≠ id := fun heq => hid' (heq ▸ hid)
  exact (Cache.entry_modify_of_ne hne).trans (h id' hid' hnone)

namespace Sparing

theorem noteLocal (c : Cache) (now : Time) (h : "" ∉ ids) :
    Sparing c ids (c.noteLocalMutation ids now) where
  toNoting := .noteLocalMutation h
  spares _ hid _ := by rw [Cache.entry_noteLocalMutation, if_neg fun h => hid h.1]

theorem note (h : id ≠ "") : Sparing c [id] (c.noteMutation [id]) where
  toNoting := .noteMutation (by simpa using h.symm)
  spares _ hid _ := by rw [Cache.entry_noteMutation, if_neg fun h => hid h.1]

variable (h : Sparing c₀ ids c)
include h

theorem modify (hid : id ∈ ids) (hf : Steady c.mutationSeq f) : Sparing c₀ ids (c.modify id f) :=
  ⟨h.toNoting.modify hid hf, h.spares.modify hid⟩

theorem absorb (hid : id ∈ ids) {b : Bead} {mode : AbsorbDepsMode} {clearDirty : Bool} :
    Sparing c₀ ids (c.absorbFresh id b now ⟨mode, .seqKeep, clearDirty⟩) :=
  h.modify hid fun _ => ⟨rfl, .inl (Nat.zero_le _)⟩

theorem markDirty (hid : id ∈ ids) : Sparing c₀ ids (c.markDirty id) :=
  h.modify hid steady_markDirty

theorem clearDependent (target : String) :
    Sparing c₀ ids (c.clearDependentReadyProjections target) :=
  ⟨h.toNoting.clearDependent target,
    h.spares.trans fun _ hnone => Cache.entry_clearDependent_of_none hnone target⟩

theorem clearIfStatus {opts : UpdateOpts} : Sparing c₀ ids (c.clearIfStatus id opts) := by
  unfold Cache.clearIfStatus
  split
  · exact h.clearDependent id
  · exact h

theorem publishes {single : Bool} : Publishes single ids c₀ c :=
  ⟨h.rewrites, fun _ => h.spares⟩

end Sparing

namespace Cache

variable {fetched : Fetched} {b : Bead} {deps : List Dep} {single : Bool}

theorem rewrites_tombstone (h : Noting c₀ ids c) {seq : Nat} (hseq : seq ≤ c.mutationSeq) :
    Rewrites ids c₀ (c.tombstone id seq) := by
  refine Rewrites.trans (?_ : Rewrites ids c₀ (c.modify id fun _ => .tombstone seq))
    ((Section.refl _).congr rfl rfl)
  apply h.drop
  · rintro _ ⟨b, hb, _⟩
    cases hb
  · intro _
    rfl
  · intro _
    exact ⟨Nat.zero_le _, hseq⟩

variable (hid : "" ∉ [id])
include hid

theorem publishes_create : Publishes single [id] c (c.publishCreate id b now) :=
  ((Sparing.noteLocal c now hid).absorb (by simp)).publishes

theorem publishes_delete : Publishes single [id] c (c.publishDelete id now) := by
  have hnote := Sparing.noteLocal c now hid
  refine ⟨(rewrites_tombstone hnote.toNoting le_rfl).trans (.clearDependent _ id), fun _ => ?_⟩
  refine Spares.trans (?_ : Spares _ _ (Cache.tombstone _ id _)) fun _ hnone =>
    entry_clearDependent_of_none hnone id
  exact fun id' => hnote.spares.modify (f := fun _ => .tombstone _) (mem_singleton_self id) id'

theorem publishes_update {opts : UpdateOpts} :
    Publishes single [id] c (c.publishUpdate id opts fetched now) := by
  have hnote := Sparing.noteLocal c now hid
  cases fetched with
  | row fresh => exact (hnote.absorb (by simp)).clearIfStatus.publishes
  | notFound => exact publishes_delete hid
  | failed =>
    unfold publishUpdate
    dsimp only
    split
    · exact ((hnote.absorb (by simp)).clearIfStatus.markDirty (by simp)).publishes
    · exact (hnote.markDirty (by simp)).publishes

theorem publishes_release : Publishes single [id] c (c.publishRelease id fetched now) := by
  have hnote := Sparing.noteLocal c now hid
  apply Sparing.publishes
  apply Sparing.clearDependent
  split
  · exact hnote.absorb (by simp)
  · exact (hnote.absorb (by simp)).markDirty (by simp)
  · exact hnote.markDirty (by simp)

theorem publishes_status {status : String} :
    Publishes single [id] c (c.publishStatus id status fetched now) := by
  have hnote := Sparing.noteLocal c now hid
  apply Sparing.publishes
  apply Sparing.clearDependent
  split
  · exact hnote.absorb (by simp)
  · exact hnote.absorb (by simp)
  · exact hnote

theorem publishes_metadata {kvs : StringMap} :
    Publishes single [id] c (c.publishMetadata id kvs fetched now) := by
  have hnote := Sparing.noteLocal c now hid
  unfold publishMetadata
  apply Sparing.publishes
  dsimp only
  split
  · exact hnote.absorb (by simp)
  · exact hnote.absorb (by simp)
  · exact hnote.markDirty (by simp)

theorem publishes_depRefreshed :
    Publishes single [id] c (c.publishDepRefreshed id b deps now) := by
  have hnote := Sparing.noteLocal c now hid
  exact ((hnote.absorb (by simp)).modify (by simp) steady_clearReadyProjection).publishes

theorem publishes_depAddUnrefreshed {target type : String} :
    Publishes single [id] c (c.publishDepAddUnrefreshed id target type now) := by
  have hnote := Sparing.noteLocal c now hid
  unfold publishDepAddUnrefreshed
  apply Sparing.publishes
  simp only
  split
  · exact hnote.modify (by simp) steady_clearStalenessMarks
  · exact hnote.modify (by simp) fun e => ⟨rfl, .inl (Nat.zero_le _)⟩

theorem publishes_depRemoveUnrefreshed {target : String} :
    Publishes single [id] c (c.publishDepRemoveUnrefreshed id target now) := by
  have hnote := Sparing.noteLocal c now hid
  unfold publishDepRemoveUnrefreshed
  apply Sparing.publishes
  simp only
  split
  · exact hnote.modify (by simp) steady_clearStalenessMarks
  · split
    · exact hnote.modify (by simp) fun e => ⟨rfl, .inl (Nat.zero_le _)⟩
    · exact hnote

theorem publishes_evict : Publishes single [id] c (c.evictForConditionalWrite id now) := by
  apply Sparing.publishes
  apply Sparing.clearDependent
  exact (Sparing.noteLocal c now hid).modify (by simp) fun e => ⟨rfl, .inl le_rfl⟩

omit hid

theorem publishes_rows {row : Cache → String → Cache} (hids : "" ∉ ids)
    (hrow : ∀ c' id, id ∈ ids → Sparing c ids c' → Sparing c ids (row c' id)) :
    Publishes single ids c (c.publishRows ids now row) := by
  have hfold : ∀ (l : List String) (c' : Cache), l ⊆ ids → Sparing c ids c' →
      Sparing c ids (l.foldl row c') := by
    intro l
    induction l with
    | nil => exact fun _ _ h => h
    | cons id l ih =>
      intro c' hl h
      exact ih _ (subset_of_cons_subset hl) (hrow c' id (hl (mem_cons_self ..)) h)
  exact (hfold ids _ (List.Subset.refl ids) (.noteLocal c now hids)).publishes

theorem sparing_closeAllRow {fetched : String → Fetched} (hid : id ∈ ids) (h : Sparing c₀ ids c) :
    Sparing c₀ ids (closeAllRow fetched now c id) := by
  unfold closeAllRow
  split
  · split
    · exact (h.absorb hid).clearDependent id
    · exact h.absorb hid
  · exact h.markDirty hid

theorem sparing_txRow {closed : List String} {fetched : String → Fetched} (hid : id ∈ ids)
    (h : Sparing c₀ ids c) : Sparing c₀ ids (txRow closed fetched now c id) := by
  unfold txRow
  split
  · dsimp only
    split
    · exact (h.absorb hid).clearDependent id
    · exact h.absorb hid
  · split
    · split
      · exact (h.absorb hid).clearDependent id
      · exact h
    · exact h.markDirty hid

theorem sparing_graphApplyRow {fetched : String → Fetched} {deps : String → Option (List Dep)}
    (hid : id ∈ ids) (h : Sparing c₀ ids c) :
    Sparing c₀ ids (graphApplyRow fetched deps now c id) := by
  unfold graphApplyRow
  split
  · exact h.absorb hid
  · exact h.markDirty hid

end Cache

/-- A change of an entry that touches only its dependencies and its readiness projection. -/
structure Entry.Inert (e e' : Entry) : Prop where
  beadSeq : e'.beadSeq = e.beadSeq
  deletedSeq : e'.deletedSeq = e.deletedSeq
  dirty : e'.dirty = e.dirty
  active : e'.Active → e.Active

theorem inert_setDeps (e : Entry) (deps : Option (List Dep)) : Inert e { e with deps } :=
  ⟨rfl, rfl, rfl, fun h => h⟩

theorem inert_clear (e : Entry) (deps : Option (List Dep)) :
    Inert e { e with deps }.clearReadyProjection :=
  ⟨rfl, rfl, rfl, fun h => active_clearReadyProjection h⟩

/-- A change that touches only dependencies and readiness projections. -/
structure Quiet (c c' : Cache) : Prop where
  seq : c'.mutationSeq = c.mutationSeq
  inert : ∀ id, Inert (c.entry id) (c'.entry id)

namespace Quiet

theorem refl (c : Cache) : Quiet c c := ⟨rfl, fun _ => ⟨rfl, rfl, rfl, fun h => h⟩⟩

theorem «section» (h : Quiet c c') : Section c c' where
  seq_le := h.seq.ge
  kept id := .same (fun hd => (h.inert id).dirty ▸ hd) (h.inert id).beadSeq.ge (h.inert id).active
  bounded id hb := by
    rw [Bounded, (h.inert id).beadSeq, (h.inert id).deletedSeq, h.seq]
    exact hb

theorem noting (h' : Noting c₀ ids c) (h : Quiet c c') : Noting c₀ ids c' :=
  h'.followedBy h.section fun id hid => (h.inert id).beadSeq ▸ h'.fenced id hid

theorem modifyAll (c : Cache) {s : Finset String} {f : String → Entry → Entry}
    (hf : ∀ id e, Inert e (f id e)) : Quiet c (c.modifyAll s f) where
  seq := rfl
  inert id := by
    rw [Cache.entry_modifyAll]
    split
    · exact hf id _
    · exact (refl c).inert id

theorem modify (c : Cache) {id : String} (hf : ∀ e, Inert e (f e)) : Quiet c (c.modify id f) where
  seq := rfl
  inert id' := by
    rw [Cache.entry_modify]
    split
    · rename_i heq
      rw [heq]
      exact hf _
    · exact (refl c).inert id'

theorem congr (h : Quiet c c') (he : c''.entries = c'.entries)
    (hs : c''.mutationSeq = c'.mutationSeq) : Quiet c c'' where
  seq := hs.trans h.seq
  inert id := by
    have hentry : c''.entry id = c'.entry id := by rw [Cache.entry, he, Cache.entry]
    rw [hentry]
    exact h.inert id

end Quiet

namespace Cache

theorem rewrites_evictBatchDeleted {deleted : List String} (h : "" ∉ deleted) :
    Rewrites deleted c (c.evictBatchDeleted deleted now) := by
  have hfold : ∀ (l done : List String) (c' : Cache), "" ∉ l → Rewrites done c c' →
      Rewrites (done ++ l) c (l.foldl (fun c id => c.publishDelete id now) c') := by
    intro l
    induction l with
    | nil =>
      intro done c' _ hc
      rwa [append_nil]
    | cons id l ih =>
      intro done c' hl hc
      have hid : "" ∉ [id] := fun h => hl (mem_append_left l h)
      have hnext := ih (done ++ [id]) (c'.publishDelete id now) (fun h => hl (mem_cons_of_mem _ h))
        (hc.snoc (Publishes.toRewrites (publishes_delete hid : Publishes True _ _ _)))
      rwa [append_assoc, singleton_append] at hnext
  have hscrub : ∀ c' : Cache, Quiet c' (c'.dropIncomingEdgesToDeleted deleted) :=
    fun c' => Quiet.modifyAll c' fun _ e => inert_clear e _
  exact (hfold deleted [] c h (.nil c)).trans (hscrub _).section

theorem quiet_setEventDeps (deps : List Dep) : Quiet c (c.setEventDeps id deps).1 := by
  unfold setEventDeps
  split
  · split
    · exact Quiet.modify c fun e => inert_clear e _
    · exact .refl c
  · split
    · exact Quiet.modify c fun e => inert_clear e _
    · exact Quiet.modify c fun e => inert_clear e _

theorem quiet_updateEventDeps (type : EventType) (b : Bead) (fields : List String)
    (refreshed : Bool) : Quiet c (c.updateEventDeps type id b fields refreshed).1 := by
  unfold updateEventDeps
  split
  · exact quiet_setEventDeps _
  · split
    · exact (Quiet.modify c fun e => inert_clear e none).congr rfl rfl
    · split
      · exact .refl c
      · split
        · exact (Quiet.refl c).congr rfl rfl
        · exact .refl c

theorem noting_absorbEvent (hid : id ≠ "") (b : Bead) :
    Noting c [id] (c.absorbEvent id b now) :=
  ((Sparing.note hid).absorb (by simp)).toNoting

theorem section_commitEvent {ev : BeadEvent} (hid : ev.patch.id ≠ "") (b : Bead)
    (refreshed : Bool) : Section c (c.commitEvent ev b refreshed now) := by
  unfold commitEvent
  split
  · refine Section.trans ?_ (.clearDependent _ _)
    split
    · exact .refl c
    · exact ((quiet_updateEventDeps ..).noting (noting_absorbEvent hid b)).rewrites.toSection
  · have hchange : ∀ c', Section c c' → Section c
        (if hasCacheEventField ev.fields "status" = true then
          c'.clearDependentReadyProjections ev.patch.id else c') := by
      intro c' h
      split
      · exact h.trans (.clearDependent _ _)
      · exact h
    apply hchange
    by_cases hchanged :
        ((c.bead ev.patch.id).all fun existing => beadChanged existing b false) = true
    · simp only [hchanged, if_true, Bool.not_true, Bool.and_false, Bool.false_eq_true, if_false]
      exact ((quiet_updateEventDeps ..).noting (noting_absorbEvent hid b)).rewrites.toSection
    · simp only [hchanged, Bool.false_eq_true, if_false, Bool.not_false, Bool.and_true]
      split
      · exact (quiet_updateEventDeps ..).section.trans
          (Sparing.note hid).rewrites.toSection
      · exact (quiet_updateEventDeps ..).section
  · exact ((quiet_updateEventDeps ..).noting (noting_absorbEvent hid b)).rewrites.toSection.trans
      (.clearDependent _ _)
  · exact ((rewrites_tombstone (Sparing.note hid).toNoting le_rfl).trans
      (.clearDependent _ _)).toSection

theorem section_applyEvent {v : EventView} (hid : v.event.patch.id ≠ "") (ver : Verified) :
    Section c (c.applyEvent v ver now) := by
  unfold applyEvent
  dsimp only
  split
  · exact .refl c
  · split
    · exact section_commitEvent hid _ _
    · split
      · exact .refl c
      · exact section_commitEvent hid _ _

theorem section_applyDepEvent (hid : id ≠ "") (deps : List Dep) :
    Section c (c.applyDepEvent id deps) := by
  unfold applyDepEvent
  split
  · exact .refl c
  · apply Rewrites.toSection
    apply Noting.rewrites
    exact (Sparing.note hid).toNoting.modify (by simp) fun e => ⟨rfl, .inl (Nat.zero_le _)⟩

end Cache

def Write.single : Write → Bool
  | closeAll _ | tx _ _ | graphApply _ | deleteBatch _ => false
  | _ => true

namespace WriteFlight

open Cache

def rewrites (f : WriteFlight) : List String :=
  match f.reply, f.write with
  | some .ok, wr => wr.ids
  | some .failed, .deleteBatch ids => ids.filter fun id => decide (id ∈ f.committed)
  | some .failed, wr => if wr.mayHaveCommitted then wr.ids else []
  | some .preconditionFailed, wr => wr.ids.head?.toList
  | some .declined, .compareAndSetMetadataKey id => [id]
  | _, _ => []

variable {fl : WriteFlight}

theorem publishes_ok : "" ∉ fl.write.ids →
    Publishes fl.write.single fl.write.ids c (fl.publishOk c now) := by
  unfold publishOk
  cases fl.write with
  | create id => exact publishes_create
  | update id => exact fun h => publishes_update h
  | releaseIfCurrent id => exact publishes_release
  | close id | reopen id => exact fun h => publishes_status h
  | setMetadata id | setMetadataBatch id => exact fun h => publishes_metadata h
  | depAdd id =>
    intro hid
    dsimp only
    split
    · exact publishes_depRefreshed hid
    · exact publishes_depAddUnrefreshed hid
  | depRemove id =>
    intro hid
    dsimp only
    split
    · exact publishes_depRefreshed hid
    · exact publishes_depRemoveUnrefreshed hid
  | delete id | deleteIfMatch id => exact publishes_delete
  | updateIfMatch id | closeIfMatch id | compareAndSetMetadataKey id => exact publishes_evict
  | closeAll ids => exact fun h => publishes_rows h fun _ _ => sparing_closeAllRow
  | tx ids => exact fun h => publishes_rows h fun _ _ => sparing_txRow
  | graphApply ids => exact fun h => publishes_rows h fun _ _ => sparing_graphApplyRow
  | deleteBatch ids => exact fun h => ⟨rewrites_evictBatchDeleted h, by rintro ⟨⟩⟩

theorem publishes_failed (hreply : fl.reply = some .failed) : "" ∉ fl.write.ids →
    Publishes fl.write.single fl.rewrites c (fl.publishFailed c now) := by
  unfold publishFailed rewrites
  rw [hreply]
  cases fl.write with
  | setMetadataBatch id =>
    intro hid
    exact ((Sparing.note fun h => hid (h ▸ mem_singleton_self _)).markDirty
      (mem_singleton_self _)).publishes
  | updateIfMatch id | closeIfMatch id | deleteIfMatch id | compareAndSetMetadataKey id =>
    exact fun hid => ((Sparing.noteLocal _ _ hid).markDirty (mem_singleton_self _)).publishes
  | deleteBatch ids =>
    intro hids
    exact ⟨rewrites_evictBatchDeleted fun h => hids (mem_of_mem_filter h), by rintro ⟨⟩⟩
  | _ => exact fun _ => .nil c

/-- The lock section of a write-through call rewrites the entries of its beads. -/
theorem publishes (hids : "" ∉ fl.write.ids) :
    Publishes fl.write.single fl.rewrites c (fl.publish c now) := by
  have hne : ∀ {id}, id ∈ fl.write.ids → "" ∉ [id] := fun hid h => hids (mem_singleton.mp h ▸ hid)
  unfold publish
  split
  · rename_i hreply
    simp only [rewrites, hreply]
    exact publishes_ok hids
  · rename_i hreply
    exact publishes_failed hreply hids
  · rename_i hreply
    simp only [rewrites, hreply]
    cases hhead : fl.write.ids.head? with
    | none => exact .nil c
    | some id => exact publishes_evict (hne (mem_of_mem_head? hhead))
  · rename_i id hreply hwrite
    simp only [rewrites, hreply, hwrite]
    exact publishes_evict (hne (by simp [hwrite, Write.ids]))
  · rename_i hok hfailed hprecondition hdeclined
    have hnil : fl.rewrites = [] := by
      unfold rewrites
      split <;> simp_all
    rw [hnil]
    exact .nil c

theorem entry_publish (hids : "" ∉ fl.write.ids) (hsingle : fl.write.single = true)
    (hid : id ∉ fl.write.ids) (hnone : (c.entry id).hasReadyProjection = false) :
    (fl.publish c now).entry id = c.entry id := by
  refine (publishes hids).spares hsingle id (fun hmem => hid ?_) hnone
  unfold rewrites at hmem
  split at hmem
  · exact hmem
  · simp_all [Write.ids]
  · split at hmem
    · exact hmem
    · cases hmem
  · exact mem_of_mem_head? (by simpa using hmem)
  · simp_all [Write.ids]
  · cases hmem

end WriteFlight

end GasCity
