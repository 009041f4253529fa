import GasCity.Caching.Sections

/-! # What the publication of a scan can do to an entry

A scan keeps an entry, drops it, or installs a row it holds.  All scans but the
two primes do so only where the fences of the entry are not past their start.
-/

namespace GasCity

open Entry Scan

namespace Scan

def Offers (s : Scan) (bdStore : Bool) (c : Cache) (id : String) (b : Bead) : Prop :=
  match s.kind with
  | .reconcile => c.mergeRow bdStore s.snapshot id = some b
  | .list _ => s.rows.get id = some b ∨ s.recovered.get id = some b
  | _ => s.rows.get id = some b

def depsMode (s : Scan) (bdStore : Bool) (c : Cache) (id : String) : AbsorbDepsMode :=
  match s.kind with
  | .reconcile => .depsExplicit (c.mergeDeps bdStore s.snapshot id)
  | .prime | .primeActive => s.snapshot.primeDepsMode id
  | .overlay => (s.depMap.get id).elim .depsFromFields .depsExplicit
  | .dirtyGet _ => .depsFromFields
  | .list _ => .depsFromFieldsIfCarried

/-- A prime keeps the dirty mark of an entry it installs a row in, a plain one only where there is
no row. -/
def keepsMark (s : Scan) (e : Entry) : Bool :=
  match s.kind with
  | .prime => e.bead.isNone
  | .primeActive => true
  | _ => false

/-- Whether the publication of a scan may install a row and keep its dirty mark. -/
def reinstalls (s : Scan) (id : String) (e : Entry) : Bool :=
  (s.rows.get id).isSome && s.keepsMark e

theorem row_of_keepsMark {s : Scan} {bdStore : Bool} {c : Cache} {id : String} {b : Bead}
    {e : Entry} (hoffers : s.Offers bdStore c id b) (h : s.keepsMark e = true) :
    s.rows.get id = some b := by
  unfold Offers at hoffers
  unfold keepsMark at h
  cases hkind : s.kind <;> simp_all

end Scan

/-- The row of a scan is installed in an entry.  Only an interrupted prime ignores the mutation
fence, where there is no row. -/
structure Installed (s : Scan) (bdStore : Bool) (c : Cache) (id : String) (b : Bead)
    (e e' : Entry) : Prop where
  offers : s.Offers bdStore c id b
  unfenced : e.fenced s.startSeq = false ∨ e.bead = none ∧ e.deletedSeq ≤ s.startSeq
  bead : e'.bead = some b
  deps : e'.deps = e.absorbDeps b (s.depsMode bdStore c id)
  dirty : e.fenced s.startSeq = false ∧ e'.dirty = false ∨
    s.keepsMark e = true ∧ e'.dirty = e.dirty
  beadSeq : e'.beadSeq = 0 ∨ e'.beadSeq = e.beadSeq
  deletedSeq : e'.deletedSeq = 0

/-- What the publication of a scan does to the entry of an id. -/
inductive Scanned (s : Scan) (bdStore : Bool) (c : Cache) (id : String) : Entry → Entry → Prop where
  | kept (e : Entry) : Scanned s bdStore c id e e
  | dropped {e : Entry} : e.fenced s.startSeq = false → Scanned s bdStore c id e {}
  | retained {e : Entry} {deps : Option (List Dep)} :
      s.kind = .prime → e.fenced s.startSeq = false →
      (deps = e.deps ∨ e.deps = none ∧ ∃ b, s.rows.get id = some b ∧
        deps = some (s.snapshot.primeDeps id b)) →
      Scanned s bdStore c id e { e with deps, deletedSeq := 0 }
  | installed {e e' : Entry} (b : Bead) : Installed s bdStore c id b e e' →
      Scanned s bdStore c id e e'
  | trans {e e' e'' : Entry} {q : ListQuery} : s.kind = .list q → Scanned s bdStore c id e e' →
      Scanned s bdStore c id e' e'' → Scanned s bdStore c id e e''

variable {s : Scan} {bdStore : Bool} {c : Cache} {id : String} {e : Entry} {b : Bead} {now : Time}
  {fresh : Option Bead} {deps : List Dep} {startSeq : Nat}

theorem Entry.Bounded.fenced_eq_false {seq : Nat} (h : e.Bounded seq) :
    e.fenced seq = false := by
  simp [fenced, h.1, h.2]

theorem absorb_beadSeq {opts : AbsorbOpts} :
    (e.absorbFresh b now opts).beadSeq = 0 ∨ (e.absorbFresh b now opts).beadSeq = e.beadSeq := by
  unfold absorbFresh
  split
  · exact .inl rfl
  · exact .inr rfl

theorem Scanned.ite {p : Prop} [Decidable p] {e' : Entry}
    (h : ¬ p → Scanned s bdStore c id e e') : Scanned s bdStore c id e (if p then e else e') := by
  split_ifs with hp
  · exact .kept e
  · exact h hp

theorem scanned_absorb {mode : AbsorbDepsMode} {seqMode : AbsorbSeqMode}
    (hmode : s.depsMode bdStore c id = mode) (hoffers : s.Offers bdStore c id b)
    (hfenced : ¬ e.fenced s.startSeq = true) :
    Scanned s bdStore c id e (e.absorbFresh b now ⟨mode, seqMode, true⟩) := by
  subst hmode
  refine .installed b ⟨hoffers, .inl (by simpa using hfenced), rfl, rfl, .inl ⟨?_, ?_⟩,
    absorb_beadSeq, rfl⟩
  · simpa using hfenced
  · simp [absorbFresh]

theorem installed_prime {mode : AbsorbSeqMode} (hoffers : s.Offers bdStore c id b)
    (hunfenced : e.fenced s.startSeq = false ∨ e.bead = none ∧ e.deletedSeq ≤ s.startSeq)
    (hkeeps : s.keepsMark e = true) :
    Installed s bdStore c id b e
      (e.absorbFresh b now ⟨s.depsMode bdStore c id, mode, false⟩) where
  offers := hoffers
  unfenced := hunfenced
  bead := rfl
  deps := rfl
  dirty := .inr ⟨hkeeps, by simp [absorbFresh]⟩
  beadSeq := absorb_beadSeq
  deletedSeq := rfl

namespace Entry

/-- The merge keeps an entry, drops it without a snapshot row, or absorbs the snapshot row, and
announces `event`. -/
inductive Merged (e : Entry) (fresh : Option Bead) (deps : List Dep) (startSeq : Nat) (now : Time)
    (event : Option EventType) (e' : Entry) : Prop where
  | kept (hevent : event = none) (h : e' = e)
  | dropped (hfenced : e.fenced startSeq = false) (hfresh : fresh = none)
      (hevent : event = if e.bead.any (·.status != "closed") then some .closed else none)
      (h : e' = {})
  | absorbed {b : Bead} (hfenced : e.fenced startSeq = false) (hfresh : fresh = some b)
      (hevent : event = match e.bead with
        | none => some .created
        | some cached =>
          if beadChanged cached b true || depsChanged (e.deps.getD []) deps then some .updated
          else none)
      (h : e' = e.absorbFresh b now ⟨.depsExplicit deps, .seqClearGuarded, true⟩)

theorem merged (e : Entry) (fresh : Option Bead) (deps : List Dep) (startSeq : Nat) (now : Time) :
    Merged e fresh deps startSeq now (reconcileMergeDecision e fresh deps startSeq now).notification
      (e.merge fresh deps startSeq now) := by
  unfold merge reconcileMergeDecision
  cases fresh with
  | some b =>
    dsimp only
    split_ifs with hfenced
    · exact .kept rfl rfl
    · exact .kept rfl rfl
    · exact .absorbed (by simpa using hfenced) rfl rfl rfl
  | none =>
    cases hbead : e.bead with
    | some cached =>
      dsimp only
      split_ifs with hfenced hrecent hopen
      · exact .kept rfl rfl
      · exact .kept rfl rfl
      · exact .dropped (by simpa using hfenced) rfl (by simp [hbead, hopen]) rfl
      · exact .dropped (by simpa using hfenced) rfl (by simp [hbead, hopen]) rfl
    | none =>
      split_ifs with hfenced
      · exact .kept rfl rfl
      · exact .kept rfl rfl
      · exact .dropped (by simpa using hfenced) rfl (by simp [hbead]) rfl

end Entry

theorem scanned_merge (hkind : s.kind = .reconcile) :
    Scanned s bdStore c id e (e.merge (c.mergeRow bdStore s.snapshot id)
      (c.mergeDeps bdStore s.snapshot id) s.startSeq now) := by
  cases e.merged (c.mergeRow bdStore s.snapshot id) (c.mergeDeps bdStore s.snapshot id) s.startSeq
    now with
  | kept _ h =>
    rw [h]
    exact .kept e
  | dropped hfenced _ _ h =>
    rw [h]
    exact .dropped hfenced
  | absorbed hfenced hrow _ h =>
    rw [h]
    refine scanned_absorb (by rw [depsMode, hkind]) ?_ (by simp [hfenced])
    simpa only [Offers, hkind] using hrow

theorem scanned_primeFast (hkind : s.kind = .prime) (hb : e.Bounded s.startSeq) :
    Scanned s bdStore c id e (e.primeFast (s.rows.get id)
      (((s.rows.get id).map (s.snapshot.primeDeps id)).getD []) now) := by
  have hfenced := hb.fenced_eq_false
  have hinstall : ∀ b, s.rows.get id = some b → Installed s bdStore c id b e
      { bead := some b, deps := some (s.snapshot.primeDeps id b) } := by
    intro b hrow
    refine ⟨?_, .inl hfenced, rfl, ?_, .inl ⟨hfenced, rfl⟩, .inl rfl, rfl⟩
    · simpa only [Offers, hkind] using hrow
    · simp only [depsMode, hkind, Snapshot.primeDepsMode, Snapshot.primeDeps]
      split <;> rfl
  unfold primeFast
  cases hrow : s.rows.get id with
  | some b =>
    cases hbead : e.bead with
    | some current =>
      simp only [Option.map_some, Option.getD_some]
      split
      · rw [← hbead]
        refine .retained hkind hfenced ?_
        cases hdeps : e.deps with
        | some deps => exact .inl rfl
        | none => exact .inr ⟨rfl, b, hrow, rfl⟩
      · exact .installed b (hinstall b hrow)
    | none => exact .installed b (hinstall b hrow)
  | none =>
    cases hbead : e.bead with
    | some current =>
      dsimp only
      split
      · rw [← hbead]
        exact .retained hkind hfenced (.inl rfl)
      · exact .dropped hfenced
    | none => exact .dropped hfenced

theorem scanned_primeSlow (hkind : s.kind = .prime) (hrow : s.rows.get id = some b) :
    Scanned s bdStore c id e
      (e.primeSlow b (s.snapshot.primeDepsMode id) s.startSeq now) := by
  refine .ite fun hdeleted => .ite fun hbead => ?_
  have hnone : e.bead = none := by simpa using hbead
  have hmode : s.depsMode bdStore c id = s.snapshot.primeDepsMode id := by
    rw [depsMode, hkind]
  rw [← hmode]
  refine .installed b (installed_prime ?_ (.inr ⟨hnone, not_lt.mp hdeleted⟩) ?_)
  · simpa only [Offers, hkind] using hrow
  · simp only [keepsMark, hkind, hnone, Option.isNone_none]

theorem scanned_primeActive (hkind : s.kind = .primeActive) (hrow : s.rows.get id = some b)
    (hb : e.Bounded c.mutationSeq) :
    Scanned s bdStore c id e (e.primeActive b (s.snapshot.primeDepsMode id) s.startSeq
      (decide (c.mutationSeq ≠ s.startSeq)) now) := by
  have hmode : s.depsMode bdStore c id = s.snapshot.primeDepsMode id := by
    rw [depsMode, hkind]
  rw [← hmode]
  refine .ite fun hguard => .ite fun _ => .installed b (installed_prime ?_ ?_ ?_)
  · simpa only [Offers, hkind] using hrow
  · by_cases hseq : c.mutationSeq = s.startSeq
    · exact .inl (hseq ▸ hb).fenced_eq_false
    · right
      simp only [hseq, ne_eq, not_false_eq_true, decide_true, Bool.true_and, Bool.or_eq_true,
        decide_eq_true_eq, not_or, not_lt, Bool.not_eq_true, Option.isSome_eq_false_iff,
        Option.isNone_iff_eq_none] at hguard
      exact ⟨hguard.2, hguard.1⟩
  · simp only [keepsMark, hkind]

theorem scanned_overlay (hkind : s.kind = .overlay) (hrow : s.rows.get id = some b) :
    Scanned s bdStore c id e (e.publishOverlay s.startSeq b (s.depMap.get id) now) := by
  refine .ite fun hfenced => scanned_absorb (by rw [depsMode, hkind]) ?_ hfenced
  simpa only [Offers, hkind] using hrow

theorem scanned_dirtyGet {id' : String} (hkind : s.kind = .dirtyGet id')
    (hrow : s.rows.get id = some b) :
    Scanned s bdStore c id e (e.publishDirtyGet s.startSeq b now) := by
  refine .ite fun hfenced => scanned_absorb (by rw [depsMode, hkind]) ?_ hfenced
  simpa only [Offers, hkind] using hrow

section List

variable {q : ListQuery}

theorem scanned_listAbsorb (hkind : s.kind = .list q) (hfenced : ¬ e.fenced s.startSeq = true)
    (hrow : s.rows.get id = some b ∨ s.recovered.get id = some b) :
    Scanned s bdStore c id e
      (e.absorbFresh b now ⟨.depsFromFieldsIfCarried, .seqClearGuarded, true⟩) := by
  refine scanned_absorb (by rw [depsMode, hkind]) ?_ hfenced
  simpa only [Offers, hkind] using hrow

theorem scanned_refreshItem (hkind : s.kind = .list q) (hrow : s.rows.get id = some b) :
    Scanned s bdStore c id e (e.refreshItem s.startSeq b now) :=
  .ite fun hfenced => .ite fun _ => .ite fun _ => scanned_listAbsorb hkind hfenced (.inl hrow)

theorem scanned_refreshMissing (hkind : s.kind = .list q) (hrow : s.recovered.get id = some b) :
    Scanned s bdStore c id e (e.refreshMissing s.startSeq b now) :=
  .ite fun hfenced => .ite fun _ => scanned_listAbsorb hkind hfenced (.inr hrow)

theorem scanned_refreshRemoved : Scanned s bdStore c id e (e.refreshRemoved s.startSeq now) :=
  .ite fun hfenced => .ite fun _ => .dropped (by simpa using hfenced)

end List

namespace Scan

variable {failedBlockers : Option (Finset String)} {partialErr : Bool}

@[simp]
theorem mutationSeq_publish :
    (s.publish bdStore c failedBlockers partialErr now).mutationSeq = c.mutationSeq := by
  unfold publish
  cases s.kind with
  | reconcile | primeActive => rfl
  | prime =>
    dsimp only [Cache.publishPrime]
    split <;> rfl
  | overlay =>
    dsimp only
    split <;> rfl
  | dirtyGet id =>
    cases hrow : s.rows.get id with
    | none => simp only [hrow, Option.elim_none]
    | some b =>
      simp only [hrow, Option.elim_some, Cache.publishDirtyGet]
      split <;> rfl
  | list q =>
    dsimp only [Cache.publishRefresh]
    split <;> rfl

theorem scanned_modifyAll {c' : Cache} {ids : Finset String} (f : String → Entry → Entry)
    (hc : c'.entries = (c.modifyAll ids f).entries)
    (h : Scanned s bdStore c id (c.entry id) (f id (c.entry id))) :
    Scanned s bdStore c id (c.entry id) (c'.entry id) := by
  have hentry : c'.entry id = (c.modifyAll ids f).entry id := by rw [Cache.entry, hc, Cache.entry]
  rw [hentry, Cache.entry_modifyAll]
  split
  · exact h
  · exact .kept _

theorem scanned_elim {row : Option Bead} {f : Bead → Entry}
    (h : ∀ b, row = some b → Scanned s bdStore c id e (f b)) :
    Scanned s bdStore c id e (row.elim e f) := by
  cases row with
  | none => exact .kept e
  | some b => exact h b rfl

theorem scanned_publish (hb : (c.entry id).Bounded c.mutationSeq) :
    Scanned s bdStore c id (c.entry id)
      ((s.publish bdStore c failedBlockers partialErr now).entry id) := by
  unfold publish
  cases hkind : s.kind with
  | reconcile =>
    exact scanned_modifyAll (fun id e => e.merge (c.mergeRow bdStore s.snapshot id)
      (c.mergeDeps bdStore s.snapshot id) s.startSeq now) rfl (scanned_merge hkind)
  | prime =>
    dsimp only [Cache.publishPrime]
    split
    · rename_i hseq
      have hstart : c.mutationSeq = s.startSeq := hseq
      exact scanned_modifyAll (fun id e => e.primeFast (s.rows.get id)
        (((s.rows.get id).map (s.snapshot.primeDeps id)).getD []) now) rfl
        (scanned_primeFast hkind (hstart ▸ hb))
    · exact scanned_modifyAll (fun id e => (s.rows.get id).elim e fun b =>
        e.primeSlow b (s.snapshot.primeDepsMode id) s.startSeq now) rfl
        (scanned_elim fun b hrow => scanned_primeSlow hkind hrow)
  | primeActive =>
    exact scanned_modifyAll (fun id e => (s.rows.get id).elim e fun b =>
      e.primeActive b (s.snapshot.primeDepsMode id) s.startSeq
        (decide (c.mutationSeq ≠ s.startSeq)) now) rfl
      (scanned_elim fun b hrow => scanned_primeActive hkind hrow hb)
  | overlay =>
    dsimp only
    split
    · exact scanned_modifyAll (fun id e => (s.rows.get id).elim e fun b =>
        e.publishOverlay s.startSeq b (s.depMap.get id) now) rfl
        (scanned_elim fun b hrow => scanned_overlay hkind hrow)
    · exact .kept _
  | dirtyGet id' =>
    cases hrow : s.rows.get id' with
    | none =>
      simp only [hrow]
      exact .kept _
    | some b =>
      simp only [hrow, Option.elim_some, Cache.publishDirtyGet]
      split
      · rw [Cache.entry_modify]
        split
        · rename_i heq
          subst heq
          exact scanned_dirtyGet hkind hrow
        · exact .kept _
      · exact .kept _
  | list q =>
    dsimp only [Cache.publishRefresh]
    split
    · exact .kept _
    · rw [Cache.entry_modifyAll]
      split
      · have hlisted : Scanned s bdStore c id (c.entry id)
            ((s.rows.get id).elim (c.entry id) fun b =>
              (c.entry id).refreshItem s.startSeq b now) :=
          scanned_elim fun b hrow => scanned_refreshItem hkind hrow
        split
        · refine .trans hkind (.trans hkind hlisted (scanned_elim fun b hrow => ?_))
            scanned_refreshRemoved
          exact scanned_refreshMissing hkind hrow
        · refine .trans hkind hlisted (scanned_elim fun b hrow => ?_)
          exact scanned_refreshMissing hkind hrow
      · exact .kept _

end Scan

end GasCity
