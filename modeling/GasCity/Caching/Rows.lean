import GasCity.Caching.Windows

/-! # Coherence of cached rows

A clean cached row equals the row of the backing store, except in the window of
a write, as long as the writes to a bead do not overlap between commit and
publication and no scan drops a fence that holds back an outdated row.
-/

namespace GasCity

open Entry Table

def Scan.heldRows (s : Scan) (id : String) : List Bead :=
  (s.rows.get id).toList ++ (s.recovered.get id).toList

namespace Scan

variable {s s' : Scan} {id id' : String} {b : Bead}

theorem mem_heldRows :
    b ∈ s.heldRows id ↔ s.rows.get id = some b ∨ s.recovered.get id = some b := by
  simp [heldRows]

theorem get_set_inv {rows : Table String Bead} {x : Bead}
    (h : (rows.set id' x).get id = some b) : rows.get id = some b ∨ id' = id ∧ x = b := by
  rw [get_set] at h
  split at h
  · rename_i heq
    exact .inr ⟨heq.symm, Option.some.inj h⟩
  · exact .inl h

theorem heldRows_readRow {row : Option Bead} (h : s.readRow id' row = some s')
    (hb : b ∈ s'.heldRows id) : b ∈ s.heldRows id ∨ id' = id ∧ row = some b := by
  unfold readRow at h
  split at h
  · obtain ⟨_, rfl⟩ := World.guard_inv h
    rw [mem_heldRows] at hb ⊢
    rcases hb with hb | hb
    · rcases get_set_inv hb with hb | ⟨heq, rfl⟩
      · exact .inl (.inl hb)
      · exact .inr ⟨heq, rfl⟩
    · exact .inl (.inr hb)
  · obtain ⟨_, rfl⟩ := World.guard_inv h
    exact .inl hb

theorem heldRows_recover {cached : Bead} {fetched : Fetched}
    (hb : b ∈ (s.recover id' cached fetched).heldRows id) :
    b ∈ s.heldRows id ∨ id' = id ∧ (fetched = .row b ∨ fetched = .failed ∨
      ∃ b', fetched = .row b' ∧ b'.id ≠ id') := by
  rw [mem_heldRows] at hb ⊢
  unfold recover at hb
  dsimp only at hb
  split at hb
  · rename_i b' _
    split at hb
    · rename_i hne
      rcases hb with hb | hb
      · exact (get_set_inv hb).imp .inl fun h => ⟨h.1, .inr (.inr ⟨b', rfl, hne⟩)⟩
      · exact .inl (.inr hb)
    · split at hb
      · exact .inl hb
      · rcases hb with hb | hb
        · exact (get_set_inv hb).imp .inl fun h => ⟨h.1, .inl (congrArg _ h.2)⟩
        · exact .inl (.inr hb)
  · exact .inl hb
  · rcases hb with hb | hb
    · exact (get_set_inv hb).imp .inl fun h => ⟨h.1, .inr (.inl rfl)⟩
    · exact .inl (.inr hb)
  · rcases hb with hb | hb
    · exact .inl (.inl hb)
    · exact (get_set_inv hb).imp .inr fun h => ⟨h.1, .inl (congrArg _ h.2)⟩
  · exact .inl hb
  · exact .inl hb

theorem mem_heldRows_of_offers {bdStore : Bool} {c : Cache} (h : s.Offers bdStore c id b)
    (hcached : ∀ b, c.bead id = some b → b.isBlocked = none)
    (hheld : ∀ b ∈ s.heldRows id, b.isBlocked = none) : b ∈ s.heldRows id := by
  unfold Offers at h
  split at h
  · obtain ⟨r, hrow, rfl⟩ := Option.map_eq_some_iff.mp h
    have hmem : r ∈ s.heldRows id := mem_heldRows.mpr (.inl hrow)
    have hblocked : r.isBlocked = (c.bead id).bind Bead.isBlocked := by
      rw [hheld r hmem]
      cases hbead : c.bead id with
      | none => rfl
      | some cached => exact (hcached cached hbead).symm
    have heq : c.preserveCachedReadyProjection bdStore s.snapshot id r = r := by
      unfold Cache.preserveCachedReadyProjection
      dsimp only
      split
      · rfl
      · rw [← hblocked]
    rwa [heq]
  · exact mem_heldRows.mpr h
  · exact mem_heldRows.mpr (.inl h)

end Scan

/-- A row after scan steps was there before, under the same mark, or the scan offers it. -/
theorem Scanned.bead_inv {s : Scan} {bdStore : Bool} {c : Cache} {id : String} {e e' : Entry}
    (h : Scanned s bdStore c id e e') {b : Bead} (hb : e'.bead = some b) :
    e.bead = some b ∧ e'.dirty = e.dirty ∨ s.Offers bdStore c id b := by
  induction h with
  | kept => exact .inl ⟨hb, rfl⟩
  | dropped => cases hb
  | retained => exact .inl ⟨hb, rfl⟩
  | installed b' h =>
    cases h.bead.symm.trans hb
    exact .inr h.offers
  | trans _ _ _ ih ih' =>
    rcases ih' hb with ⟨hb, hdirty'⟩ | hoffers
    · rcases ih hb with ⟨hb, hdirty⟩ | hoffers
      · exact .inl ⟨hb, hdirty'.trans hdirty⟩
      · exact .inr hoffers
    · exact .inr hoffers

namespace World

variable {w w' : World} {l : Label} {id : String} {t : Nat}

def Commits (w : World) (id : String) (t : Nat) : Prop :=
  ∃ f, w.writes.get t = some f ∧ id ∈ f.committed

/-- Some write to the bead has been committed and not yet published. -/
def Window (w : World) (id : String) : Prop := ∃ t, w.Commits id t

instance : Decidable (w.Window id) :=
  inferInstanceAs (Decidable (∃ k a, w.writes.get k = some a ∧ id ∈ a.committed))

/-- Writes to the bead do not overlap between commit and publication, and leave what the cache
overlays; reads after a write or for a missing row succeed; an unfenced scan publishes only while no
other scan holds an outdated row, and no prime reinstalls the row of a marked bead. -/
def RowStep (w : World) (id : String) : Label → Prop
  | .issue _ wr => wr.single = true
  | .commit t id' row deps =>
    id' = id → ¬ w.Window id ∧ (∀ f ∈ w.writes.get t, f.write.leaves row deps = true) ∧
      ∀ b ∈ row, b.isBlocked = none
  | .fetch _ id' ok | .scanRecover _ id' ok => id' = id → ok = true
  | .scanPublish t _ _ _ =>
    ∀ s ∈ w.scans.get t,
      ((w.cache.entry id).dirty = true → s.reinstalls id (w.cache.entry id) = false) ∧
      ((w.cache.entry id).Guarded s.startSeq ∨ w.Window id ∨
        ∀ t' s', w.scans.get t' = some s' → t' ≠ t →
          ∀ b ∈ s'.heldRows id, w.backing.rows.get id = some b)
  | .eventApply _ _ | .depEvent _ _ | .external _ _ _ => False
  | _ => True

instance : Decidable (w.RowStep id l) := by
  apply l.casesOn (motive := fun l => Decidable (w.RowStep id l)) <;> intros <;>
    dsimp only [RowStep] <;> infer_instance

/-- What holds about the rows of a bead in every state of a run. -/
structure RowCoherent (w : World) (id : String) : Prop where
  flights : ∀ t f, w.writes.get t = some f →
    f.Faithful id (w.backing.rows.get id) (w.backing.depList id)
  exclusive : ∀ t t', w.Commits id t → w.Commits id t' → t' = t
  backing : ∀ b, w.backing.rows.get id = some b → b.id = id ∧ b.isBlocked = none
  cached : ∀ b, (w.cache.entry id).bead = some b → b.isBlocked = none
  clean : ¬ w.Window id → (w.cache.entry id).dirty = false →
    ∀ b, (w.cache.entry id).bead = some b → w.backing.rows.get id = some b
  held : ∀ t s, w.scans.get t = some s → ∀ b ∈ s.heldRows id, b.isBlocked = none ∧
    (w.backing.rows.get id = some b ∨ w.Window id ∨ (w.cache.entry id).Guarded s.startSeq)

theorem not_window_of_quiescent (h : w.Quiescent) : ¬ w.Window id := by
  rintro ⟨t, f, hf, _⟩
  rw [h.1, get_empty] at hf
  cases hf

section Flights

variable {f : WriteFlight} {row : Option Bead} {deps : List Dep} {id' : String}

theorem faithful_issue {wr : Write} (h : wr.single = true) :
    WriteFlight.Faithful { write := wr } id row deps where
  single := h
  within := Finset.empty_subset _
  admitted _ hreply := nomatch hreply
  unread _ := ⟨rfl, rfl⟩
  left hid := absurd hid (Finset.notMem_empty id)
  fetched hid := absurd hid (Finset.notMem_empty id)
  fetchedDeps hid := absurd hid (Finset.notMem_empty id)

variable (h : f.Faithful id row deps)
include h

theorem faithful_reply {r : Reply} (hadmits : f.admits r = true) :
    WriteFlight.Faithful { f with reply := some r } id row deps :=
  { h with
    admitted := fun _ hr => Option.some.inj hr ▸ hadmits
    unread := nofun }

theorem faithful_fetch (hreply : f.reply = some .ok) {x : Fetched}
    (hx : id' = id → x = row.elim .notFound .row) :
    WriteFlight.Faithful { f with fetched := f.fetched.set id' x } id row deps := by
  refine { h with unread := fun hnone => (by cases hreply.symm.trans hnone), fetched := ?_ }
  intro hid y hy
  by_cases heq : id = id'
  · subst heq
    rw [get_set_self] at hy
    exact Option.some.inj hy ▸ hx rfl
  · rw [get_set_of_ne _ _ heq] at hy
    exact h.fetched hid y hy

theorem faithful_fetchDeps (hreply : f.reply = some .ok)
    {x : Option (List Dep)} (hx : id' = id → ∀ d, x = some d → d = deps) :
    WriteFlight.Faithful { f with fetchedDeps := f.fetchedDeps.set id' x } id row deps := by
  refine { h with unread := fun hnone => (by cases hreply.symm.trans hnone), fetchedDeps := ?_ }
  intro hid d hd
  by_cases heq : id = id'
  · subst heq
    rw [get_set_self] at hd
    exact hx rfl d (Option.some.inj hd)
  · rw [get_set_of_ne _ _ heq] at hd
    exact h.fetchedDeps hid d hd

theorem faithful_uncommitted (hid : id ∉ f.committed)
    (row' : Option Bead) (deps' : List Dep) : f.Faithful id row' deps' :=
  { h with
    left := fun hid' => absurd hid' hid
    fetched := fun hid' => absurd hid' hid
    fetchedDeps := fun hid' => absurd hid' hid }

theorem faithful_commit (hreply : f.reply = none) (hid' : id' ∈ f.write.ids) (created : Bead)
    {row' : Option Bead} {deps' : List Dep}
    (hleaves : id' = id → f.write.leaves row' deps' = true)
    (hother : id' ≠ id → row' = row ∧ deps' = deps) :
    WriteFlight.Faithful { f with committed := insert id' f.committed, created } id row' deps' where
  single := h.single
  within := Finset.insert_subset (List.mem_toFinset.mpr hid') h.within
  admitted r hr := by
    rw [hreply] at hr
    cases hr
  unread := h.unread
  left hid := by
    by_cases heq : id' = id
    · exact hleaves heq
    · obtain ⟨rfl, rfl⟩ := hother heq
      exact h.left (Finset.mem_of_mem_insert_of_ne hid (Ne.symm heq))
  fetched _ x hx := by
    rw [(h.unread hreply).1, get_empty] at hx
    cases hx
  fetchedDeps _ d hd := by
    rw [(h.unread hreply).2, get_empty] at hd
    cases hd

end Flights

namespace RowCoherent

theorem congr (h : w.RowCoherent id) (hflights : ∀ t f, w'.writes.get t = some f →
      f.Faithful id (w'.backing.rows.get id) (w'.backing.depList id))
    (hcommits : ∀ t, w'.Commits id t ↔ w.Commits id t)
    (hrow : w'.backing.rows.get id = w.backing.rows.get id)
    (hbead : (w'.cache.entry id).bead = (w.cache.entry id).bead)
    (hdirty : (w'.cache.entry id).dirty = (w.cache.entry id).dirty)
    (hheld : ∀ t s, w'.scans.get t = some s → ∀ b ∈ s.heldRows id, b.isBlocked = none ∧
      (w.backing.rows.get id = some b ∨ w.Window id ∨ (w'.cache.entry id).Guarded s.startSeq)) :
    w'.RowCoherent id := by
  have hwindow : w'.Window id ↔ w.Window id := exists_congr hcommits
  constructor
  · exact hflights
  · intro t t' ht ht'
    exact h.exclusive t t' ((hcommits t).mp ht) ((hcommits t').mp ht')
  · rw [hrow]
    exact h.backing
  · rw [hbead]
    exact h.cached
  · rw [hwindow, hbead, hdirty, hrow]
    exact h.clean
  · intro t s ht b hb
    rw [hrow, hwindow]
    exact hheld t s ht b hb

variable {f f' : WriteFlight} {now : Time} {s s' : Scan}

variable (h : w.RowCoherent id)
include h

theorem setFlight (hf' : f'.Faithful id (w.backing.rows.get id) (w.backing.depList id))
    (hcommitted : id ∈ f'.committed ↔ w.Commits id t) :
    RowCoherent { w with writes := w.writes.set t f' } id :=
  h.congr (forall_set h.flights hf') (exists_get_set hcommitted) rfl rfl rfl h.held

theorem setScan (hs' : ∀ b ∈ s'.heldRows id, b.isBlocked = none ∧
      (w.backing.rows.get id = some b ∨ w.Window id ∨
        (w.cache.entry id).Guarded s'.startSeq)) :
    RowCoherent { w with scans := w.scans.set t s' } id :=
  h.congr h.flights (fun _ => Iff.rfl) rfl rfl rfl (forall_set h.held hs')

theorem noProjection : (w.cache.entry id).hasReadyProjection = false := by
  cases hbead : (w.cache.entry id).bead with
  | none => simp [hasReadyProjection, hbead]
  | some b => simp [hasReadyProjection, hbead, h.cached b hbead]

theorem issue {wr : Write} (ht : w.writes.get t = none) (hwr : wr.single = true) :
    RowCoherent { w with writes := w.writes.set t { write := wr } } id := by
  apply h.setFlight (faithful_issue hwr)
  constructor
  · intro hid
    exact absurd hid (Finset.notMem_empty id)
  · rintro ⟨f, hf, _⟩
    rw [ht] at hf
    cases hf

omit h

theorem commits_iff (ht : w.writes.get t = some f) :
    id ∈ f.committed ↔ w.Commits id t := by
  simp [Commits, ht]

theorem advance (h : w.RowCoherent id) (ht : w.writes.get t = some f)
    (hf' : f'.Faithful id (w.backing.rows.get id) (w.backing.depList id))
    (hsame : f'.committed = f.committed) :
    RowCoherent { w with writes := w.writes.set t f' } id :=
  h.setFlight hf' (hsame ▸ commits_iff ht)

theorem commit (h : w.RowCoherent id) {id' : String} {row : Option Bead}
    {deps : List Dep} (ht : w.writes.get t = some f) (hreply : f.reply = none)
    (hids : id' ∈ f.write.ids) (hrow : row.all (·.id == id') = true)
    (hcond : w.RowStep id (.commit t id' row deps)) :
    (w.committed t f id' row deps).RowCoherent id := by
  by_cases heq : id' = id
  · subst heq
    obtain ⟨hwindow, hleaves, hblocked⟩ := hcond rfl
    have hopen : (w.committed t f id' row deps).Window id' :=
      ⟨t, _, get_set_self _ _ _, Finset.mem_insert_self _ _⟩
    have honly : ∀ t', (w.committed t f id' row deps).Commits id' t' → t' = t := by
      rintro t' ⟨f', hf', hid⟩
      by_contra hne
      rw [get_set_of_ne _ _ hne] at hf'
      exact hwindow ⟨t', f', hf', hid⟩
    constructor
    · rw [Backing.rows_put_self, Backing.depList_put_self]
      refine forall_set (fun t' f' hf' => ?_) ?_
      · exact faithful_uncommitted (h.flights t' f' hf') (fun hid => hwindow ⟨t', f', hf', hid⟩) _ _
      · exact faithful_commit (h.flights t f ht) hreply hids _ (fun _ => hleaves f ht)
          (fun hne => absurd rfl hne)
    · intro t₁ t₂ h₁ h₂
      rw [honly t₁ h₁, honly t₂ h₂]
    · intro b hb
      rw [Backing.rows_put_self] at hb
      subst hb
      exact ⟨by simpa using hrow, hblocked b rfl⟩
    · exact h.cached
    · exact fun hclosed => absurd hopen hclosed
    · intro t' s hs b hb
      exact ⟨(h.held t' s hs b hb).1, .inr (.inl hopen)⟩
  · have hne : id ≠ id' := Ne.symm heq
    refine h.congr ?_ ?_ ?_ rfl rfl h.held
    · rw [Backing.rows_put_of_ne hne, Backing.depList_put_of_ne hne]
      exact forall_set h.flights (faithful_commit (h.flights t f ht) hreply hids _
        (fun heq' => absurd heq' heq) (fun _ => ⟨rfl, rfl⟩))
    · have hcommitted : id ∈ insert id' f.committed ↔ w.Commits id t := by
        rw [Finset.mem_insert, or_iff_right hne, commits_iff ht]
      exact exists_get_set hcommitted
    · exact Backing.rows_put_of_ne hne

/-- A publication that leaves the entry of the bead alone and ends no window of it. -/
theorem publish_other (h : w.RowCoherent id) {c : Cache} (hcommits : ¬ w.Commits id t)
    (hentry : c.entry id = w.cache.entry id) :
    RowCoherent { w with cache := c, writes := w.writes.erase t } id := by
  apply h.congr
  · exact forall_erase h.flights t
  · intro t'
    refine (exists_get_erase t').trans (and_iff_right_of_imp ?_)
    rintro ht' rfl
    exact hcommits ht'
  · rfl
  · exact congrArg Entry.bead hentry
  · exact congrArg Entry.dirty hentry
  · rw [hentry]
    exact h.held

/-- A publication that guards the entry against all scans in flight and leaves in it only the row of
the backing store or a marked row. -/
theorem publish_rewritten (hw : w.Sound) (h : w.RowCoherent id) {c : Cache}
    (hguarded : (c.entry id).GuardedUpTo w.cache.mutationSeq)
    (hcached : ∀ b, (c.entry id).bead = some b → b.isBlocked = none)
    (hclean : (c.entry id).dirty = false → ∀ b, (c.entry id).bead = some b →
      w.backing.rows.get id = some b) :
    RowCoherent { w with cache := c, writes := w.writes.erase t } id where
  flights := forall_erase h.flights t
  exclusive t₁ t₂ h₁ h₂ :=
    h.exclusive t₁ t₂ ((exists_get_erase t₁).mp h₁).2 ((exists_get_erase t₂).mp h₂).2
  backing := h.backing
  cached := hcached
  clean _ := hclean
  held t' s hs b hb := ⟨(h.held t' s hs b hb).1, .inr (.inr (hguarded _ (hw.started t' s hs)))⟩

theorem published (hw : w.Sound) (h : w.RowCoherent id)
    (ht : w.writes.get t = some f) (hcomplete : f.complete = true) :
    Published f w.cache id (w.backing.rows.get id) ((f.publish w.cache now).entry id) := by
  have hf := h.flights t f ht
  by_cases hids : id ∈ f.write.ids
  · have hne : id ≠ "" := by
      rintro rfl
      exact hw.writeIDs t f ht hids
    exact WriteFlight.published hf hcomplete hids hne fun b hb => (h.backing b hb).2
  · refine .unchanged
      (WriteFlight.entry_publish (hw.writeIDs t f ht) hf.single hids h.noProjection) ?_
    exact fun hid => hids (List.mem_toFinset.mp (hf.within hid))

/-- A publication installs the row of the backing store, or leaves no clean row. -/
theorem publish (hw : w.Sound) (h : w.RowCoherent id)
    (ht : w.writes.get t = some f) (hcomplete : f.complete = true) :
    RowCoherent { w with cache := f.publish w.cache now, writes := w.writes.erase t } id := by
  have hpub : Published f w.cache id (w.backing.rows.get id)
      ((f.publish w.cache now).entry id) := h.published hw ht hcomplete
  cases hpub with
  | row hguarded hrow hbead =>
    refine h.publish_rewritten hw hguarded ?_ ?_
    · intro b hb
      exact (h.backing b (hrow.trans (hbead.symm.trans hb))).2
    · intro _ b hb
      exact hrow.trans (hbead.symm.trans hb)
  | gone hguarded hbead =>
    refine h.publish_rewritten hw hguarded ?_ ?_
    · simp [hbead]
    · simp [hbead]
  | unknown hguarded hbead _ hdirty =>
    refine h.publish_rewritten hw hguarded ?_ ?_
    · rw [hbead]
      exact h.cached
    · simp [hdirty]
  | unchanged hentry hcommitted =>
    refine h.publish_other ?_ hentry
    rw [← commits_iff ht]
    exact hcommitted

/-- A scan goes on and holds only rows that it held before or that the backing store has. -/
theorem scanOn (h : w.RowCoherent id) (ht : w.scans.get t = some s)
    (hstart : s'.startSeq = s.startSeq)
    (hrows : ∀ b ∈ s'.heldRows id, b ∈ s.heldRows id ∨ w.backing.rows.get id = some b) :
    RowCoherent { w with scans := w.scans.set t s' } id := by
  apply h.setScan
  intro b hb
  rcases hrows b hb with hb | hb
  · rw [hstart]
    exact h.held t s ht b hb
  · exact ⟨(h.backing b hb).2, .inl hb⟩

theorem heldRows_recover (h : w.RowCoherent id) {id' : String} {cached : Bead}
    {ok : Bool} (hok : id' = id → ok = true) {b : Bead}
    (hb : b ∈ (s.recover id' cached (w.backing.get id' ok)).heldRows id) :
    b ∈ s.heldRows id ∨ w.backing.rows.get id = some b := by
  rcases Scan.heldRows_recover hb with hb | ⟨rfl, hfetched⟩
  · exact .inl hb
  · right
    obtain rfl := hok rfl
    unfold Backing.get at hfetched
    cases hrow : w.backing.rows.get id' with
    | none => simp [hrow] at hfetched
    | some r =>
      have hid := (h.backing r hrow).1
      simp only [hrow, if_true, Option.elim_some, Fetched.row.injEq, reduceCtorEq,
        exists_eq_left', hid, ne_eq, not_true_eq_false, or_false] at hfetched
      rw [hfetched]

theorem eraseScan (h : w.RowCoherent id) {c : Cache} (hentry : c.entry id = w.cache.entry id)
    (t : Nat) : RowCoherent { w with cache := c, scans := w.scans.erase t } id := by
  refine h.congr h.flights (fun _ => Iff.rfl) rfl ?_ ?_ ?_
  · exact congrArg Entry.bead hentry
  · exact congrArg Entry.dirty hentry
  · rw [hentry]
    exact forall_erase h.held t

theorem scanPublish (hw : w.Sound) (h : w.RowCoherent id)
    {failedBlockers : Option (Finset String)} {partialErr : Bool}
    (ht : w.scans.get t = some s)
    (hcond : w.RowStep id (.scanPublish t failedBlockers partialErr now)) :
    RowCoherent
      { w with
        cache := s.publish w.bdStore w.cache failedBlockers partialErr now
        scans := w.scans.erase t } id := by
  obtain ⟨hmark, hothers⟩ := hcond s ht
  have hscan : Scanned s w.bdStore w.cache id (w.cache.entry id)
      ((s.publish w.bdStore w.cache failedBlockers partialErr now).entry id) :=
    Scan.scanned_publish (hw.bounded id)
  by_cases hguarded : (w.cache.entry id).Guarded s.startSeq
  · exact h.eraseScan (hscan.eq_of_guarded hguarded hmark) t
  · have hoffers : ∀ b, s.Offers w.bdStore w.cache id b →
        b.isBlocked = none ∧ (w.backing.rows.get id = some b ∨ w.Window id) := by
      intro b hb
      have hheld := h.held t s ht b (Scan.mem_heldRows_of_offers hb h.cached
        fun b hb => (h.held t s ht b hb).1)
      rwa [or_iff_left hguarded] at hheld
    constructor
    · exact h.flights
    · exact h.exclusive
    · exact h.backing
    · intro b hb
      rcases hscan.bead_inv hb with ⟨hb, _⟩ | hb
      · exact h.cached b hb
      · exact (hoffers b hb).1
    · intro hwindow hdirty b hb
      rcases hscan.bead_inv hb with ⟨hb, hsame⟩ | hb
      · exact h.clean hwindow (hsame ▸ hdirty) b hb
      · exact (hoffers b hb).2.resolve_right hwindow
    · intro t' s' ht' b hb
      obtain ⟨hne, ht'⟩ := get_erase_iff.mp ht'
      refine ⟨(h.held t' s' ht' b hb).1, ?_⟩
      rcases hothers with hg | hwindow | hcurrent
      · exact absurd hg hguarded
      · exact .inr (.inl hwindow)
      · exact .inl (hcurrent t' s' ht' hne b hb)

theorem entry_abort (c : Cache) (degrade : Bool) (id : String) :
    (if degrade && c.liveOrPartial then { c with state := .cacheDegraded } else c).entry id =
      c.entry id := by
  split <;> rfl

theorem entry_fill (c : Cache) (id' : String) (deps : List Dep) (id : String) :
    (c.modify id' fun e => { e with deps := some deps }).entry id =
      { c.entry id with deps := if id = id' then some deps else (c.entry id).deps } := by
  rw [Cache.entry_modify]
  split
  · rename_i heq
    rw [heq]
  · rfl

theorem step (hw : w.Sound) (h : w.RowCoherent id) (hstep : Step w l w')
    (hcond : w.RowStep id l) : w'.RowCoherent id := by
  cases hstep with
  | skip => exact h
  | issue ht => exact h.issue ht hcond
  | commit ht hreply hids _ hrow => exact h.commit ht hreply hids hrow hcond
  | reply ht _ hadmits =>
    exact h.advance ht (faithful_reply (h.flights _ _ ht) hadmits) rfl
  | fetch ht hreply _ _ =>
    refine h.advance ht (faithful_fetch (h.flights _ _ ht) hreply ?_) rfl
    rintro rfl
    rw [hcond rfl]
    rfl
  | @fetchDeps t f id' ok ht hreply =>
    refine h.advance ht (faithful_fetchDeps (h.flights _ _ ht) hreply ?_) rfl
    rintro rfl d hd
    cases ok with
    | false => cases hd
    | true => exact (Option.some.inj hd).symm
  | publish ht hcomplete => exact h.publish hw ht hcomplete
  | scanStart => exact h.setScan fun b hb => nomatch hb
  | scanRow ht hread =>
    apply h.scanOn ht (Scan.progress_readRow hread).startSeq
    intro b hb
    rcases Scan.heldRows_readRow hread hb with hb | ⟨rfl, hrow⟩
    · exact .inl hb
    · exact .inr hrow
  | scanCandidates ht => exact h.scanOn ht rfl fun b hb => .inl hb
  | scanRecover ht =>
    exact h.scanOn ht (Scan.progress_recover ..).startSeq fun _ hb => h.heldRows_recover hcond hb
  | scanDeps ht => exact h.scanOn ht rfl fun b hb => .inl hb
  | scanPublish ht => exact h.scanPublish hw ht hcond
  | @scanAbort t s degrade ht => exact h.eraseScan (entry_abort w.cache degrade id) t
  | fillStart | fillRead => exact { h with }
  | @fillPublish t f deps ht =>
    have hentry := entry_fill w.cache f.id deps id
    refine h.congr h.flights (fun _ => Iff.rfl) rfl ?_ ?_ ?_
    · rw [hentry]
    · rw [hentry]
    · rw [hentry]
      exact h.held
  | eventStart | eventRead => exact { h with }
  | eventApply | depEvent | external => exact hcond.elim

end RowCoherent

end World

end GasCity
