import GasCity.Caching.Rows

/-! # Coherence of cached dependencies, and of the cache at quiescence

A cached dependency list equals the one of the backing store, except in the
window of a write that changes it.  With the coherence of the rows this gives
the coherence of the cache once nothing is in flight.
-/

namespace GasCity

open Entry Option Table Scan

section ScannedDeps

variable {s : Scan} {bdStore : Bool} {c : Cache} {id : String} {e e' : Entry} {Q : List Dep → Prop}

variable {b : Bead}

theorem Scan.fetched_deps (hfetched : ∀ d, s.depMap.get id = some d → Q d)
    (hrow : s.rows.get id = some b) (h : s.snapshot.useFreshDeps = true) :
    Q (s.snapshot.depMap.getD id []) := by
  have hsub : s.rows.keys ⊆ s.depMap.keys := of_decide_eq_true h
  have hmem := hsub (mem_keys_of_get hrow)
  obtain ⟨d, hd⟩ := isSome_iff_exists.mp ((s.depMap.mem_keys id).mp hmem)
  have hget : s.snapshot.depMap.getD id [] = d := by
    show (s.depMap.get id).getD [] = d
    rw [hd, getD_some]
  rw [hget]
  exact hfetched d hd

theorem Scan.primeDeps_deps (hfetched : ∀ d, s.depMap.get id = some d → Q d)
    (hrow : s.rows.get id = some b) (hfields : Q (depsFromBeadFields b)) :
    Q (s.snapshot.primeDeps id b) := by
  unfold Snapshot.primeDeps
  split
  · rename_i h
    exact fetched_deps hfetched hrow h
  · exact hfields

theorem Scan.mergeDeps_deps (hcached : ∀ d, (c.entry id).deps = some d → Q d)
    (hfetched : ∀ d, s.depMap.get id = some d → Q d)
    (hrow : c.mergeRow bdStore s.snapshot id = some b) (hfields : Q (depsFromBeadFields b)) :
    Q (c.mergeDeps bdStore s.snapshot id) := by
  obtain ⟨r, hr, _⟩ := map_eq_some_iff.mp hrow
  rw [Cache.mergeDeps, hrow, map_some, getD_some]
  unfold Cache.depsForReconcile
  split
  · rename_i h
    exact fetched_deps hfetched hr h
  · split
    · exact hfields
    · split
      · rename_i hempty
        cases hdeps : (c.entry id).deps with
        | some d => exact hcached d hdeps
        | none =>
          rw [getD_none, ← List.isEmpty_iff.mp hempty]
          exact hfields
      · exact hfields

theorem Scan.absorbed_deps (hcached : ∀ d, (c.entry id).deps = some d → Q d)
    (hfetched : ∀ d, s.depMap.get id = some d → Q d)
    (hoffers : s.Offers bdStore c id b) (hfields : Q (depsFromBeadFields b))
    (he : ∀ d, e.deps = some d → Q d) :
    ∀ d, e.absorbDeps b (s.depsMode bdStore c id) = some d → Q d := by
  have hprime : s.rows.get id = some b → ∀ d,
      e.absorbDeps b (s.snapshot.primeDepsMode id) = some d → Q d := by
    intro hrow d hd
    unfold Snapshot.primeDepsMode at hd
    split at hd
    · rename_i hfresh
      exact some.inj hd ▸ fetched_deps hfetched hrow hfresh
    · exact some.inj hd ▸ hfields
  intro d hd
  unfold depsMode at hd
  unfold Offers at hoffers
  cases hkind : s.kind with
  | reconcile =>
    rw [hkind] at hd hoffers
    exact some.inj hd ▸ mergeDeps_deps hcached hfetched hoffers hfields
  | prime | primeActive =>
    rw [hkind] at hd hoffers
    exact hprime hoffers d hd
  | overlay =>
    rw [hkind] at hd
    dsimp only at hd
    cases hdeps : s.depMap.get id with
    | none =>
      rw [hdeps] at hd
      exact some.inj hd ▸ hfields
    | some d' =>
      rw [hdeps] at hd
      exact some.inj hd ▸ hfetched d' hdeps
  | dirtyGet =>
    rw [hkind] at hd
    exact some.inj hd ▸ hfields
  | list =>
    rw [hkind] at hd
    dsimp only [absorbDeps] at hd
    split at hd
    · exact some.inj hd ▸ hfields
    · exact he d hd

theorem Scanned.deps_inv (h : Scanned s bdStore c id e e')
    (hcached : ∀ d, (c.entry id).deps = some d → Q d)
    (hfetched : ∀ d, s.depMap.get id = some d → Q d)
    (hfields : ∀ b, s.Offers bdStore c id b → Q (depsFromBeadFields b))
    (he : ∀ d, e.deps = some d → Q d) : ∀ d, e'.deps = some d → Q d := by
  induction h with
  | kept => exact he
  | dropped => exact fun d hd => nomatch hd
  | retained hkind _ hdeps =>
    intro d hd
    rcases hdeps with hdeps | ⟨_, b, hrow, hdeps⟩
    · exact he d (hdeps ▸ hd)
    · cases hdeps.symm.trans hd
      exact primeDeps_deps hfetched hrow
        (hfields b (by simpa only [Offers, hkind] using hrow))
  | installed b h =>
    intro d hd
    rw [h.deps] at hd
    exact absorbed_deps hcached hfetched h.offers (hfields b h.offers) he d hd
  | trans _ _ _ ih ih' => exact ih' (ih he)

end ScannedDeps

theorem Scan.depMap_readRow {s s' : Scan} {id : String} {row : Option Bead}
    (h : s.readRow id row = some s') : s'.depMap = s.depMap := by
  unfold readRow at h
  split at h
  · obtain ⟨_, rfl⟩ := World.guard_inv h
    rfl
  · obtain ⟨_, rfl⟩ := World.guard_inv h
    rfl

theorem Scan.depMap_recover (s : Scan) (id : String) (cached : Bead) (fetched : Fetched) :
    (s.recover id cached fetched).depMap = s.depMap := by
  unfold recover
  dsimp only
  split
  · split
    · rfl
    · split <;> rfl
  all_goals rfl

namespace World

variable {w w' : World} {l : Label} {id : String} {t : Nat}

/-- The write may have changed the dependencies of the bead and is not yet published. -/
def DepCommits (w : World) (id : String) (t : Nat) : Prop :=
  ∃ f, w.writes.get t = some f ∧ id ∈ f.committed ∧ f.write.changesDeps = true

/-- Some write may have changed the dependencies of the bead and is not yet published. -/
def DepWindow (w : World) (id : String) : Prop := ∃ t, w.DepCommits id t

instance : Decidable (w.DepWindow id) :=
  inferInstanceAs (Decidable (∃ k a, w.writes.get k = some a ∧ id ∈ a.committed ∧ _))

/-- Everything a scan holds about the dependencies of a bead is what the backing store has. -/
def DepsCurrent (w : World) (id : String) (s : Scan) : Prop :=
  (∀ b ∈ s.heldRows id, b.dependencies = w.backing.depList id) ∧
    ∀ d ∈ s.depMap.get id, d = w.backing.depList id

instance {s : Scan} : Decidable (w.DepsCurrent id s) := inferInstanceAs (Decidable (_ ∧ _))

/-- A commit leaves a row with the dependency list, which only writes for it change, not during a
`DepList` call for the bead; such a write that reports an error has not committed; and an unfenced
scan publishes only while no other scan holds outdated dependencies. -/
def DepStep (w : World) (id : String) : Label → Prop
  | .commit t id' row deps =>
    id' = id → (∀ b ∈ row, b.dependencies = deps ∧ b.needs = []) ∧
      (∀ f ∈ w.writes.get t, f.write.changesDeps = false → deps = w.backing.depList id) ∧
      (deps ≠ w.backing.depList id → ∀ t' f, w.fills.get t' = some f → f.id ≠ id)
  | .reply t r =>
    r = .failed → ∀ f ∈ w.writes.get t, f.write.changesDeps = true → id ∉ f.committed
  | .scanPublish t _ _ _ =>
    ∀ s ∈ w.scans.get t, (w.cache.entry id).Guarded s.startSeq ∨ w.DepWindow id ∨
      ∀ t' s', w.scans.get t' = some s' → t' ≠ t → w.DepsCurrent id s'
  | _ => True

instance : Decidable (w.DepStep id l) := by
  apply l.casesOn (motive := fun l => Decidable (w.DepStep id l)) <;> intros <;>
    dsimp only [DepStep] <;> infer_instance

/-- All that the scan holds about the dependencies of the bead satisfies `Q`. -/
def HoldsDeps (s : Scan) (id : String) (Q : List Dep → Prop) : Prop :=
  (∀ b ∈ s.heldRows id, b.needs = [] ∧ Q b.dependencies) ∧ ∀ d, s.depMap.get id = some d → Q d

theorem HoldsDeps.mono {s : Scan} {Q R : List Dep → Prop} (h : HoldsDeps s id Q)
    (hQ : ∀ d, Q d → R d) : HoldsDeps s id R :=
  ⟨fun b hb => (h.1 b hb).imp_right (hQ _), fun d hd => hQ d (h.2 d hd)⟩

/-- What holds about the dependencies of a bead in every state of a run. -/
structure DepCoherent (w : World) (id : String) : Prop where
  carries : ∀ b, w.backing.rows.get id = some b →
    b.dependencies = w.backing.depList id ∧ b.needs = []
  cached : ∀ d, (w.cache.entry id).deps = some d → d = w.backing.depList id ∨ w.DepWindow id
  held : ∀ t s, w.scans.get t = some s → HoldsDeps s id fun d =>
    d = w.backing.depList id ∨ w.DepWindow id ∨ (w.cache.entry id).Guarded s.startSeq
  fills : ∀ t f, w.fills.get t = some f → f.id = id → ∀ d, f.deps = some d →
    d = w.backing.depList id
  failed : ∀ t f, w.writes.get t = some f → f.reply = some .failed →
    f.write.changesDeps = true → id ∉ f.committed

theorem depCommits_iff {f : WriteFlight} (ht : w.writes.get t = some f) :
    id ∈ f.committed ∧ f.write.changesDeps = true ↔ w.DepCommits id t := by
  simp [DepCommits, ht]

namespace DepCoherent

theorem congr (h : w.DepCoherent id) (hcommits : ∀ t, w'.DepCommits id t ↔ w.DepCommits id t)
    (hrow : w'.backing.rows.get id = w.backing.rows.get id)
    (hdeps : w'.backing.depList id = w.backing.depList id)
    (hcached : (w'.cache.entry id).deps = (w.cache.entry id).deps)
    (hheld : ∀ t s, w'.scans.get t = some s → HoldsDeps s id fun d =>
      d = w.backing.depList id ∨ w.DepWindow id ∨ (w'.cache.entry id).Guarded s.startSeq)
    (hfills : w'.fills = w.fills)
    (hfailed : ∀ t f, w'.writes.get t = some f → f.reply = some .failed →
      f.write.changesDeps = true → id ∉ f.committed) : w'.DepCoherent id := by
  have hwindow : w'.DepWindow id ↔ w.DepWindow id := exists_congr hcommits
  constructor
  · rw [hrow, hdeps]
    exact h.carries
  · rw [hcached, hdeps, hwindow]
    exact h.cached
  · rw [hdeps, hwindow]
    exact hheld
  · rw [hfills, hdeps]
    exact h.fills
  · exact hfailed

variable {f f' : WriteFlight}

variable (h : w.DepCoherent id)
include h

theorem setFlight (hcommitted : id ∈ f'.committed ∧ f'.write.changesDeps = true ↔ w.DepCommits id t)
    (hfailed : f'.reply = some .failed → f'.write.changesDeps = true → id ∉ f'.committed) :
    DepCoherent { w with writes := w.writes.set t f' } id :=
  h.congr (exists_get_set hcommitted) rfl rfl rfl h.held rfl (forall_set h.failed hfailed)

theorem advance (ht : w.writes.get t = some f)
    (hwrite : f'.write = f.write) (hcommitted : f'.committed = f.committed)
    (hfailed : f'.reply = some .failed → f.write.changesDeps = true → id ∉ f.committed) :
    DepCoherent { w with writes := w.writes.set t f' } id := by
  apply h.setFlight
  · rw [hwrite, hcommitted]
    exact depCommits_iff ht
  · rw [hwrite, hcommitted]
    exact hfailed

theorem scanOn {s s' : Scan} (ht : w.scans.get t = some s) (hstart : s'.startSeq = s.startSeq)
    (hrows : ∀ b ∈ s'.heldRows id, b ∈ s.heldRows id ∨ w.backing.rows.get id = some b)
    (hdeps : ∀ d, s'.depMap.get id = some d →
      s.depMap.get id = some d ∨ d = w.backing.depList id) :
    DepCoherent { w with scans := w.scans.set t s' } id := by
  refine h.congr (fun _ => Iff.rfl) rfl rfl rfl (forall_set h.held ?_) rfl h.failed
  rw [hstart]
  constructor
  · intro b hb
    rcases hrows b hb with hb | hb
    · exact (h.held t s ht).1 b hb
    · exact ⟨(h.carries b hb).2, .inl (h.carries b hb).1⟩
  · intro d hd
    rcases hdeps d hd with hd | hd
    · exact (h.held t s ht).2 d hd
    · exact .inl hd

theorem commit {id' : String} {row : Option Bead}
    {deps : List Dep} (ht : w.writes.get t = some f) (hreply : f.reply = none)
    (hcond : w.DepStep id (.commit t id' row deps)) :
    (w.committed t f id' row deps).DepCoherent id := by
  have hfailed : f.reply = some .failed → f.write.changesDeps = true →
      id ∉ insert id' f.committed := fun hr => by
    rw [hreply] at hr
    cases hr
  by_cases heq : id' = id
  · subst heq
    obtain ⟨hcarries, hsame, hfills⟩ := hcond rfl
    have hlift : ∀ {p : Prop} {d : List Dep}, d = w.backing.depList id' ∨ w.DepWindow id' ∨ p →
        d = deps ∨ (w.committed t f id' row deps).DepWindow id' ∨ p := by
      rintro p d (rfl | ⟨t', ht'⟩ | hp)
      · by_cases hchanges : f.write.changesDeps = true
        · exact .inr (.inl ⟨t, _, get_set_self _ _ _, Finset.mem_insert_self _ _, hchanges⟩)
        · exact .inl (hsame f ht (by simpa using hchanges)).symm
      · right
        left
        by_cases heq : t' = t
        · subst heq
          exact ⟨t', _, get_set_self _ _ _, Finset.mem_insert_self _ _,
            ((depCommits_iff ht).mpr ht').2⟩
        · obtain ⟨f', hf', hcommits⟩ := ht'
          exact ⟨t', f', by rwa [get_set_of_ne _ _ heq], hcommits⟩
      · exact .inr (.inr hp)
    constructor
    · rw [Backing.rows_put_self, Backing.depList_put_self]
      exact hcarries
    · intro d hd
      rw [Backing.depList_put_self, ← or_false (DepWindow _ id')]
      refine hlift ?_
      rw [or_false]
      exact h.cached d hd
    · intro t' s hs
      rw [Backing.depList_put_self]
      exact (h.held t' s hs).mono fun _ => hlift
    · intro t' f' hf' hid d hd
      rw [Backing.depList_put_self, h.fills t' f' hf' hid d hd]
      by_contra hne
      exact hfills (Ne.symm hne) t' f' hf' hid
    · exact forall_set h.failed hfailed
  · have hne : id ≠ id' := Ne.symm heq
    refine h.congr ?_ (Backing.rows_put_of_ne hne) (Backing.depList_put_of_ne hne) rfl h.held
      rfl (forall_set h.failed hfailed)
    have hcommitted : id ∈ insert id' f.committed ∧ f.write.changesDeps = true ↔
        w.DepCommits id t := by
      rw [Finset.mem_insert, or_iff_right hne, depCommits_iff ht]
    exact exists_get_set hcommitted

omit h

theorem publish_rewritten (hw : w.Sound) (h : w.DepCoherent id) {c : Cache}
    (hguarded : (c.entry id).GuardedUpTo w.cache.mutationSeq)
    (hcached : ∀ d, (c.entry id).deps = some d →
      d = w.backing.depList id ∨ ∃ t', t' ≠ t ∧ w.DepCommits id t') :
    DepCoherent { w with cache := c, writes := w.writes.erase t } id where
  carries := h.carries
  cached d hd := (hcached d hd).imp_right fun ⟨t', h'⟩ => ⟨t', (exists_get_erase t').mpr h'⟩
  held t' s hs := (h.held t' s hs).mono fun _ _ => .inr (.inr (hguarded _ (hw.started t' s hs)))
  fills := h.fills
  failed := forall_erase h.failed t

theorem publish (hw : w.Sound) (hr : w.RowCoherent id) (h : w.DepCoherent id)
    {now : Time} (ht : w.writes.get t = some f) (hcomplete : f.complete = true) :
    DepCoherent { w with cache := f.publish w.cache now, writes := w.writes.erase t } id := by
  have hpub : Published f w.cache id (w.backing.rows.get id)
      ((f.publish w.cache now).entry id) := hr.published hw ht hcomplete
  have hkeep : ¬ w.DepCommits id t → ∀ d, (w.cache.entry id).deps = some d →
      d = w.backing.depList id ∨ ∃ t', t' ≠ t ∧ w.DepCommits id t' := by
    intro hnot d hd
    refine (h.cached d hd).imp_right ?_
    rintro ⟨t', ht'⟩
    exact ⟨t', fun heq => hnot (heq ▸ ht'), ht'⟩
  cases hpub with
  | row hguarded hrow hbead hdeps =>
    refine h.publish_rewritten hw hguarded fun d hd => ?_
    rcases hdeps with ⟨hdeps, hchanges⟩ | hdeps
    · refine hkeep ?_ d (hdeps ▸ hd)
      rw [← depCommits_iff ht, hchanges]
      exact fun hcommits => nomatch hcommits.2
    · left
      obtain ⟨hdependencies, hneeds⟩ := h.carries _ hrow
      rw [← hdependencies, ← depsFromBeadFields_of_needs hneeds]
      exact (some.inj (hdeps.symm.trans hd)).symm
  | gone hguarded _ hdeps =>
    refine h.publish_rewritten hw hguarded fun d hd => ?_
    rw [hdeps] at hd
    cases hd
  | unknown hguarded _ hdeps _ hreply =>
    refine h.publish_rewritten hw hguarded fun d hd => hkeep ?_ d (hdeps ▸ hd)
    rw [← depCommits_iff ht]
    exact fun hcommits => h.failed t f ht hreply hcommits.2 hcommits.1
  | unchanged hentry hcommitted =>
    refine h.congr ?_ rfl rfl (congrArg Entry.deps hentry) ?_ rfl (forall_erase h.failed t)
    · intro t'
      refine (exists_get_erase t').trans (and_iff_right_of_imp ?_)
      rintro ht' rfl
      exact hcommitted ((depCommits_iff ht).mpr ht').1
    · rw [hentry]
      exact h.held

theorem eraseScan (h : w.DepCoherent id) {c : Cache} (hentry : c.entry id = w.cache.entry id)
    (t : Nat) : DepCoherent { w with cache := c, scans := w.scans.erase t } id := by
  refine h.congr (fun _ => Iff.rfl) rfl rfl (congrArg Entry.deps hentry) ?_ rfl h.failed
  rw [hentry]
  exact forall_erase h.held t

theorem scanPublish (hw : w.Sound) (hr : w.RowCoherent id) (h : w.DepCoherent id) {s : Scan}
    {failedBlockers : Option (Finset String)} {partialErr : Bool} {now : Time}
    (ht : w.scans.get t = some s)
    (hmark : (w.cache.entry id).dirty = true → s.reinstalls id (w.cache.entry id) = false)
    (hcond : w.DepStep id (.scanPublish t failedBlockers partialErr now)) :
    DepCoherent
      { w with
        cache := s.publish w.bdStore w.cache failedBlockers partialErr now
        scans := w.scans.erase t } id := by
  have hscan : Scanned s w.bdStore w.cache id (w.cache.entry id)
      ((s.publish w.bdStore w.cache failedBlockers partialErr now).entry id) :=
    scanned_publish (hw.bounded id)
  by_cases hguarded : (w.cache.entry id).Guarded s.startSeq
  · exact h.eraseScan (hscan.eq_of_guarded hguarded hmark) t
  · have hothers := (hcond s ht).resolve_left hguarded
    have hheld := h.held t s ht
    simp only [or_iff_left hguarded] at hheld
    constructor
    · exact h.carries
    · refine hscan.deps_inv h.cached hheld.2 ?_ h.cached
      intro b hb
      obtain ⟨hneeds, hdeps⟩ := hheld.1 b (mem_heldRows_of_offers hb hr.cached
        fun b hb => (hr.held t s ht b hb).1)
      rw [depsFromBeadFields_of_needs hneeds]
      exact hdeps
    · intro t' s' ht'
      obtain ⟨hne, ht'⟩ := get_erase_iff.mp ht'
      have hold := h.held t' s' ht'
      rcases hothers with hwindow | hcurrent
      · exact hold.mono fun _ _ => .inr (.inl hwindow)
      · have hcurrent := hcurrent t' s' ht' hne
        exact ⟨fun b hb => ⟨(hold.1 b hb).1, .inl (hcurrent.1 b hb)⟩,
          fun d hd => .inl (hcurrent.2 d hd)⟩
    · exact h.fills
    · exact h.failed

/-- Every step that meets the conditions keeps the dependencies of the bead coherent. -/
theorem step (hw : w.Sound) (hr : w.RowCoherent id) (h : w.DepCoherent id) (hstep : Step w l w')
    (hrow : w.RowStep id l) (hcond : w.DepStep id l) : w'.DepCoherent id := by
  cases hstep with
  | skip => exact h
  | @issue t wr ht =>
    refine h.setFlight ⟨fun hid => absurd hid.1 (Finset.notMem_empty id), ?_⟩ fun hr => nomatch hr
    rintro ⟨f, hf, _⟩
    rw [ht] at hf
    cases hf
  | commit ht hreply => exact h.commit ht hreply hcond
  | @reply t f r ht =>
    exact h.advance ht rfl rfl fun hreply => hcond (some.inj hreply) f ht
  | fetch ht hreply | fetchDeps ht hreply =>
    have hfailed := h.failed _ _ ht
    exact h.advance ht rfl rfl hfailed
  | publish ht hcomplete => exact h.publish hw hr ht hcomplete
  | scanStart =>
    exact h.congr (fun _ => Iff.rfl) rfl rfl rfl
      (forall_set h.held ⟨(fun _ hb => nomatch hb), fun _ hd => nomatch hd⟩) rfl h.failed
  | scanRow ht hread =>
    refine h.scanOn ht (progress_readRow hread).startSeq ?_ ?_
    · intro b hb
      rcases heldRows_readRow hread hb with hb | ⟨rfl, hread'⟩
      · exact .inl hb
      · exact .inr hread'
    · rw [depMap_readRow hread]
      exact fun _ hd => .inl hd
  | scanCandidates ht => exact h.scanOn ht rfl (fun _ hb => .inl hb) fun _ hd => .inl hd
  | scanRecover ht =>
    refine h.scanOn ht (progress_recover ..).startSeq
      (fun _ hb => hr.heldRows_recover hrow hb) ?_
    rw [depMap_recover]
    exact fun _ hd => .inl hd
  | @scanDeps t s id' b ht =>
    refine h.scanOn ht rfl (fun _ hb => .inl hb) fun d hd => ?_
    rw [get_set] at hd
    split at hd
    · rename_i heq
      subst heq
      exact .inr (some.inj hd).symm
    · exact .inl hd
  | scanPublish ht => exact h.scanPublish hw hr ht (hrow _ ht).1 hcond
  | @scanAbort t s degrade ht =>
    exact h.eraseScan (RowCoherent.entry_abort w.cache degrade id) t
  | fillStart => exact { h with fills := forall_set h.fills fun _ _ hd => nomatch hd }
  | fillRead ht =>
    refine { h with fills := forall_set h.fills ?_ }
    intro hid d hd
    rw [← hid]
    exact (some.inj hd).symm
  | @fillPublish t f deps ht hdeps =>
    have hentry := RowCoherent.entry_fill w.cache f.id deps id
    refine ⟨h.carries, ?_, ?_, forall_erase h.fills t, h.failed⟩
    · rw [hentry]
      intro d hd
      dsimp only at hd
      split at hd
      · rename_i heq
        exact .inl (h.fills t f ht heq.symm d (hdeps.trans hd))
      · exact h.cached d hd
    · rw [hentry]
      exact h.held
  | eventStart | eventRead => exact { h with }
  | eventApply | depEvent | external => exact hrow.elim

end DepCoherent

/-- A row that carries its dependencies and no readiness projection. -/
def Plain (backing : Backing) (id : String) : Prop :=
  ∀ b ∈ backing.rows.get id,
    b.id = id ∧ b.isBlocked = none ∧ b.dependencies = backing.depList id ∧ b.needs = []

instance {backing : Backing} : Decidable (Plain backing id) :=
  inferInstanceAs (Decidable (∀ b ∈ backing.rows.get id, _))

variable {backing : Backing}

theorem rowCoherent_init (h : Plain backing id) (bdStore : Bool) :
    (init backing bdStore).RowCoherent id where
  flights _ _ hf := nomatch hf
  exclusive _ _ ht := by
    obtain ⟨f, hf, _⟩ := ht
    cases hf
  backing b hb := ⟨(h b hb).1, (h b hb).2.1⟩
  cached _ hb := nomatch hb
  clean _ _ _ hb := nomatch hb
  held _ _ hs := nomatch hs

theorem depCoherent_init (h : Plain backing id) (bdStore : Bool) :
    (init backing bdStore).DepCoherent id where
  carries b hb := (h b hb).2.2
  cached _ hd := nomatch hd
  held _ _ hs := nomatch hs
  fills _ _ hf := nomatch hf
  failed _ _ hf := nomatch hf

/-- Once nothing is in flight, a clean cached row and a cached dependency list are those of the
backing store. -/
theorem coherent_at_quiescence {backing : Backing} {bdStore : Bool} {id : String}
    {as : List Label} {w : World} (hbacking : Plain backing id)
    (hrun : Run (fun v a v' => StepOf step v a v' ∧ v.RowStep id a ∧ v.DepStep id a)
      (init backing bdStore) as w)
    (hquiescent : w.Quiescent) :
    (∀ b, w.cache.bead id = some b → w.cache.isDirty id = false →
      w.backing.rows.get id = some b) ∧
    ∀ deps, (w.cache.entry id).deps = some deps → deps = w.backing.depList id := by
  obtain ⟨-, hrow, hdep⟩ : w.Sound ∧ w.RowCoherent id ∧ w.DepCoherent id := by
    refine hrun.invariant (fun v => v.Sound ∧ v.RowCoherent id ∧ v.DepCoherent id) ?_
      ⟨sound_init backing bdStore, rowCoherent_init hbacking bdStore,
        depCoherent_init hbacking bdStore⟩
    rintro v a v' ⟨hv, hr, hd⟩ ⟨hva, hrow, hdep⟩
    have hva' := step_cases hva
    exact ⟨sound_step hv hva', hr.step hv hva' hrow, hd.step hv hr hva' hrow hdep⟩
  constructor
  · intro b hb hclean
    exact hrow.clean (not_window_of_quiescent hquiescent) hclean b hb
  · intro deps hdeps
    refine (hdep.cached deps hdeps).resolve_right ?_
    rintro ⟨t, f, hf, hcommitted, _⟩
    exact not_window_of_quiescent hquiescent ⟨t, f, hf, hcommitted⟩

def renamed (title : String) (deps : List Dep) : Bead :=
  { id := "gc-1", title, status := "open", dependencies := deps }

def renamedBacking : Backing := { rows := (∅ : Table String Bead).set "gc-1" (renamed "A" []) }

/-- Start a scan of the bead and read everything but publish nothing. -/
def renamedScan (t : Nat) (kind : ScanKind) : List Label :=
  [.scanStart t kind, .scanRow t "gc-1", .scanDeps t "gc-1"]

def renamedPrime : List Label := renamedScan 0 .prime ++ [.scanPublish 0 none false ⟨1⟩]

def renamedUpdate : List Label :=
  [.issue 0 (.update "gc-1" { title := some "B" }), .commit 0 "gc-1" (some (renamed "B" [])) [],
    .reply 0 .ok, .fetch 0 "gc-1" true, .publish 0 ⟨2⟩]

/-- A live `List` reads the bead and publishes it after the recency window. -/
def renamedList : List Label :=
  [.scanStart 2 (.list { live := true }), .scanRow 2 "gc-1", .scanCandidates 2,
    .scanPublish 2 none false ⟨6000000000⟩]

/-- A pass that read the old title publishes after the rename, and is held back. -/
theorem coherent_at_quiescence_renamed : ∃ w : World,
    Run (fun v a v' => StepOf step v a v' ∧ v.RowStep "gc-1" a ∧ v.DepStep "gc-1" a)
      (init renamedBacking false)
      (renamedPrime ++ renamedScan 1 .reconcile ++ [.scanCandidates 1] ++ renamedUpdate ++
        [.scanPublish 1 none false ⟨7000000000⟩] ++ renamedList) w ∧
    w.Quiescent ∧ w.cache.bead "gc-1" = some (renamed "B" []) ∧
    w.cache.isDirty "gc-1" = false ∧
    ((∀ b, w.cache.bead "gc-1" = some b → w.cache.isDirty "gc-1" = false →
      w.backing.rows.get "gc-1" = some b) ∧
    ∀ deps, (w.cache.entry "gc-1").deps = some deps → deps = w.backing.depList "gc-1") := by
  refine ⟨_, and_of_imp (run_of_exec_guarded rfl) fun hrun =>
    and_of_imp ?_ fun hquiescent => ⟨?_, ?_, ?_⟩⟩
  · decide
  · decide
  · decide
  · exact coherent_at_quiescence (by decide) hrun hquiescent

/-- A conditional write evicts the bead, a `DepList` call reads its empty list and publishes it only
after a dependency was added. -/
def renamedFill : List Label :=
  [.issue 0 (.compareAndSetMetadataKey "gc-1"), .commit 0 "gc-1" (some (renamed "A" [])) [],
    .reply 0 .ok, .publish 0 ⟨2⟩, .fillStart 0 "gc-1", .fillRead 0,
    .issue 0 (.depAdd "gc-1" "gc-2" "blocks"),
    .commit 0 "gc-1" (some (renamed "A" [⟨"gc-1", "gc-2", "blocks"⟩])) [⟨"gc-1", "gc-2", "blocks"⟩],
    .reply 0 .ok, .fetch 0 "gc-1" true, .fetchDeps 0 "gc-1" true, .publish 0 ⟨3⟩, .fillPublish 0]

/-- A `List` refresh lifts the fence of a rename while a pass that read the old title is in flight,
and the pass then publishes it; a `DepList` fill has no fence. -/
theorem incoherent_at_quiescence : (∃ w : World, Run (StepOf step) (init renamedBacking false)
        (renamedPrime ++ renamedScan 1 .reconcile ++ [.scanCandidates 1] ++ renamedUpdate ++
          renamedList ++ [.scanPublish 1 none false ⟨7000000000⟩]) w ∧
      w.Quiescent ∧ w.cache.bead "gc-1" = some (renamed "A" []) ∧
      w.cache.isDirty "gc-1" = false ∧ w.backing.rows.get "gc-1" = some (renamed "B" [])) ∧
    ∃ w : World, Run (StepOf step) (init renamedBacking false) (renamedPrime ++ renamedFill) w ∧
      w.Quiescent ∧ w.cache.depsComplete = true ∧ (w.cache.entry "gc-1").deps = some [] ∧
      w.backing.depList "gc-1" = [⟨"gc-1", "gc-2", "blocks"⟩] := by
  constructor
  · refine ⟨_, run_of_exec rfl, ?_⟩
    decide
  · refine ⟨_, run_of_exec rfl, ?_⟩
    decide

/-- No row and no pass of a cache is numbered beyond its mutation counter. -/
theorem sequences_bounded {backing : Backing} {bdStore : Bool} {as : List Label} {w : World}
    (h : Run (StepOf step) (init backing bdStore) as w) :
    (∀ id, (w.cache.entry id).beadSeq ≤ w.cache.mutationSeq ∧
      (w.cache.entry id).deletedSeq ≤ w.cache.mutationSeq) ∧
    ∀ t s, w.scans.get t = some s → s.startSeq ≤ w.cache.mutationSeq := by
  have hw := sound_run h (sound_init backing bdStore)
  exact ⟨hw.bounded, hw.started⟩

theorem sequences_bounded_filled : ∃ w : World,
    Run (StepOf step) (init renamedBacking false) (renamedPrime ++ renamedFill) w ∧
      0 < (w.cache.entry "gc-1").beadSeq ∧
      (w.cache.entry "gc-1").beadSeq ≤ w.cache.mutationSeq := by
  have hrun : Run (StepOf step) (init renamedBacking false) (renamedPrime ++ renamedFill) _ :=
    run_of_exec rfl
  exact ⟨_, hrun, by decide, ((sequences_bounded hrun).1 "gc-1").1⟩

end World

end GasCity
