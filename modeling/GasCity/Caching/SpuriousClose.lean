import GasCity.Caching.Steps

/-! # Closes synthesized by a reconcile pass

A pass treats a cached row that its listing missed as closed only after a read of
its own, as long as no other scan installs a row behind the back of the pass.
-/

namespace GasCity

open Entry

variable {deps : List Dep} {e : Entry} {fresh : Option Bead} {startSeq : Nat}

variable {now : Time} {c : Cache} {id : String} {b : Bead}

theorem active_of_any (h : e.bead.any (·.status != "closed") = true) : e.Active := by
  cases hb : e.bead with
  | none => simp [hb] at h
  | some b => exact ⟨b, hb, by simpa [hb] using h⟩

theorem reconcileMergeDecision_closed
    (h : (reconcileMergeDecision e fresh deps startSeq now).notification = some .closed) :
    fresh = none ∧ e.Active ∧ e.fenced startSeq = false := by
  cases e.merged fresh deps startSeq now with
  | kept hevent => simp [hevent] at h
  | dropped hfenced hfresh hevent =>
    refine ⟨hfresh, active_of_any ?_, hfenced⟩
    by_contra hopen
    simp [hevent, hopen] at h
  | absorbed _ _ hevent =>
    rw [hevent] at h
    split at h
    · cases h
    · split_ifs at h
      cases h

/-- A merge that evicts a row has no snapshot row for it, and the row is not fenced. -/
theorem Entry.merge_evicts
    (hactive : e.Active) (h : (e.merge fresh deps startSeq now).bead = none) :
    fresh = none ∧ e.fenced startSeq = false := by
  cases e.merged fresh deps startSeq now with
  | kept _ heq =>
    obtain ⟨b, hb, _⟩ := hactive
    rw [heq, hb] at h
    cases h
  | dropped hfenced hfresh => exact ⟨hfresh, hfenced⟩
  | absorbed _ _ _ heq =>
    rw [heq] at h
    cases h

namespace Cache

variable {c : Cache} {bdStore : Bool} {s : Snapshot} {id : String} {now : Time}

/-- A pass that evicts an active row has no snapshot row for it, and the row is not fenced. -/
theorem publishReconcile_evicts {failedBlockers : Option (Finset String)}
    (hactive : (c.entry id).Active)
    (h : ((c.publishReconcile bdStore s failedBlockers now).entry id).bead = none) :
    c.mergeRow bdStore s id = none ∧ (c.entry id).fenced s.startSeq = false := by
  have hentry : (c.publishReconcile bdStore s failedBlockers now).entry id =
      (c.modifyAll (c.entries.keys ∪ s.rows.keys) fun id e =>
        e.merge (c.mergeRow bdStore s id) (c.mergeDeps bdStore s id) s.startSeq now).entry id := rfl
  rw [hentry, entry_modifyAll] at h
  split at h
  · exact Entry.merge_evicts hactive h
  · obtain ⟨b, hb, _⟩ := hactive
    rw [hb] at h
    cases h

theorem mergeNotification_closed {confirmedClosed : Table String Bead}
    (h : ((c.mergeNotification bdStore s confirmedClosed now id).any
      fun n => decide (n.1 = .closed)) = true) :
    (c.mergeDecision bdStore s now id).notification = some .closed := by
  unfold mergeNotification at h
  split at h
  · simp at h
  · rename_i hclosed
    exact hclosed
  · rename_i event hne hevent
    cases hrow : c.mergeRow bdStore s id with
    | none => simp [hrow] at h
    | some b =>
      have hclosed : event = .closed := by simpa [hrow] using h
      rw [hevent, hclosed]

end Cache

def Scan.holdsActive (s : Scan) (id : String) : Bool :=
  (s.rows.get id).any (·.status != "closed") || (s.recovered.get id).any (·.status != "closed")

variable {bdStore : Bool}

/-- A row the merge of a reconcile pass uses has the status of the snapshot row. -/
theorem Cache.mergeRow_status {s : Snapshot} (h : c.mergeRow bdStore s id = some b) :
    ∃ b', s.rows.get id = some b' ∧ b'.status = b.status := by
  obtain ⟨b', hrow, rfl⟩ := Option.map_eq_some_iff.mp h
  refine ⟨b', hrow, ?_⟩
  unfold preserveCachedReadyProjection
  dsimp only
  split <;> rfl

theorem Scan.holdsActive_of_offers {s : Scan}
    (h : s.Offers bdStore c id b) (hb : b.status ≠ "closed") : s.holdsActive id = true := by
  have hrow : ∀ b', s.rows.get id = some b' → b'.status = b.status → s.holdsActive id = true := by
    intro b' hrow hstatus
    simp [holdsActive, hrow, hstatus, hb]
  unfold Offers at h
  split at h
  · obtain ⟨b', hget, hstatus⟩ := Cache.mergeRow_status h
    exact hrow b' hget hstatus
  · rcases h with h | h
    · exact hrow b h rfl
    · simp [holdsActive, h, hb]
  · exact hrow b h rfl

def Fetched.gone : Fetched → Bool
  | .row b => b.status == "closed"
  | .notFound => true
  | .failed => false

theorem Scan.recover_reconcile (p : Scan) (hkind : p.kind = .reconcile) (id : String)
    (cached : Bead) (fetched : Fetched) :
    (p.recover id cached fetched).checked = insert id p.checked ∧
      (p.recover id cached fetched).candidates = p.candidates ∧
      (fetched.gone = false → id ∈ (p.recover id cached fetched).rows.keys) := by
  unfold recover
  rw [hkind]
  cases fetched with
  | row b =>
    dsimp only
    split
    · exact ⟨rfl, rfl, fun _ => Finset.mem_insert_self _ _⟩
    · split
      · rename_i hclosed
        exact ⟨rfl, rfl, fun h => by simp [Fetched.gone, hclosed] at h⟩
      · exact ⟨rfl, rfl, fun _ => Finset.mem_insert_self _ _⟩
  | notFound => exact ⟨rfl, rfl, fun h => nomatch h⟩
  | failed => exact ⟨rfl, rfl, fun _ => Finset.mem_insert_self _ _⟩

namespace Scanned

variable {s : Scan} {bdStore : Bool} {c : Cache} {id : String} {e e' : Entry}

theorem active_inv (h : Scanned s bdStore c id e e') (hs : s.holdsActive id = false)
    (hactive : e'.Active) : e.Active ∧ e.beadSeq ≤ e'.beadSeq := by
  induction h with
  | kept => exact ⟨hactive, le_rfl⟩
  | dropped =>
    obtain ⟨b, hb, _⟩ := hactive
    cases hb
  | retained => exact ⟨hactive, le_rfl⟩
  | installed b h =>
    obtain ⟨b', hb', hstatus⟩ := hactive
    cases h.bead.symm.trans hb'
    simp [Scan.holdsActive_of_offers h.offers hstatus] at hs
  | trans _ _ _ ih ih' =>
    obtain ⟨hactive', hseq'⟩ := ih' hactive
    obtain ⟨hactive'', hseq⟩ := ih hactive'
    exact ⟨hactive'', hseq.trans hseq'⟩

end Scanned

namespace World

variable {w w' : World} {l : Label} {id : String} {t : Nat} {p p' : Scan}

def Gone (w : World) (id : String) : Prop := (w.backing.get id true).gone = true

instance : Decidable (w.Gone id) := inferInstanceAs (Decidable (_ = true))

/-- Once a reconcile pass has captured its candidates, no other scan publishes an active row of a
bead that is neither in its snapshot nor a candidate. -/
def Covers (w : World) (t : Nat) (id : String) : Label → Prop
  | .scanPublish t' _ _ _ =>
    t' ≠ t → ∀ p ∈ w.scans.get t, ∀ cs ∈ p.candidates, id ∉ p.rows.keys → id ∉ cs.keys →
      ∀ s ∈ w.scans.get t', s.holdsActive id = false
  | _ => True

instance : Decidable (w.Covers t id l) := by
  apply l.casesOn (motive := fun l => Decidable (w.Covers t id l)) <;> intros <;>
    dsimp only [Covers] <;> infer_instance

/-- While the bead stays alive: once looked up it is in the snapshot, and an active cached row is in
the snapshot, a candidate, or fenced. -/
structure Knows (w : World) (id : String) (p : Scan) : Prop where
  kind : p.kind = .reconcile
  checked : id ∈ p.checked → id ∈ p.rows.keys
  active : ∀ cs, p.candidates = some cs → (w.cache.entry id).Active →
    id ∈ p.rows.keys ∨ id ∈ cs.keys ∨ p.startSeq < (w.cache.entry id).beadSeq

theorem knows_row {id' : String} (hp : w.Knows id p) {row : Option Bead}
    (hread : p.readRow id' row = some p') : w.Knows id p' := by
  have hprogress := Scan.progress_readRow hread
  have hsame : p'.checked = p.checked ∧ p'.candidates = p.candidates := by
    unfold Scan.readRow at hread
    split at hread
    · obtain ⟨_, rfl⟩ := guard_inv hread
      exact ⟨rfl, rfl⟩
    · obtain ⟨_, rfl⟩ := guard_inv hread
      exact ⟨rfl, rfl⟩
  constructor
  · rw [hprogress.kind, hp.kind]
  · rw [hsame.1]
    exact fun h => hprogress.rows (hp.checked h)
  · rw [hsame.2, hprogress.startSeq]
    exact fun cs hcs hactive => (hp.active cs hcs hactive).imp_left (hprogress.rows ·)

theorem knows_candidates (hp : w.Knows id p) :
    w.Knows id { p with candidates := some (p.missed w.cache) } where
  kind := hp.kind
  checked := hp.checked
  active cs hcs hactive := by
    cases hcs
    by_cases hrows : id ∈ p.rows.keys
    · exact .inl hrows
    · right
      left
      obtain ⟨b, hb, hstatus⟩ := hactive
      have hentry : id ∈ w.cache.entries.keys := by
        by_contra hnot
        rw [Cache.entry_eq_default hnot] at hb
        cases hb
      have hget : (p.missed w.cache).get id = some b := by
        rw [Scan.missed, hp.kind]
        simp [Table.get_ofKeys, hentry, hrows, Cache.bead, hb, hstatus]
      exact Table.mem_keys_of_get hget

theorem knows_recover (hp : w.Knows id p) (halive : ¬ w.Gone id) (id' : String) (cached : Bead)
    (ok : Bool) : w.Knows id (p.recover id' cached (w.backing.get id' ok)) := by
  have hprogress := p.progress_recover id' cached (w.backing.get id' ok)
  obtain ⟨hchecked, hcandidates, hlooked⟩ := p.recover_reconcile hp.kind id' cached
    (w.backing.get id' ok)
  constructor
  · rw [hprogress.kind, hp.kind]
  · intro hmem
    rw [hchecked, Finset.mem_insert] at hmem
    rcases hmem with rfl | hmem
    · apply hlooked
      cases ok with
      | false => rfl
      | true => simpa [Gone] using halive
    · exact hprogress.rows (hp.checked hmem)
  · rw [hcandidates, hprogress.startSeq]
    exact fun cs hcs hactive => (hp.active cs hcs hactive).imp_left (hprogress.rows ·)

theorem knows_scanStep (hp : w.Knows id p) (halive : ¬ w.Gone id) (h : ScanStep w p p') :
    w.Knows id p' := by
  cases h with
  | row hread => exact knows_row hp hread
  | candidates => exact knows_candidates hp
  | recover => exact knows_recover hp halive _ _ _
  | deps => exact { hp with }

theorem knows_cacheStep (hw : w.Sound) (ht : w.scans.get t = some p) (hp : w.Knows id p)
    (h : CacheStep w l w') (hcond : w.Covers t id l) (ht' : w'.scans.get t = some p) :
    w'.Knows id p where
  kind := hp.kind
  checked := hp.checked
  active cs hcs hactive := by
    cases h with
    | «section» hsection =>
      cases hsection.kept id with
      | fenced hseq => exact .inr (.inr ((hw.started t p ht).trans_lt hseq))
      | dropped hinactive => exact absurd hactive hinactive
      | same _ hseq hkept =>
        rcases hp.active cs hcs (hkept hactive) with h | h | h
        · exact .inl h
        · exact .inr (.inl h)
        · exact .inr (.inr (h.trans_le hseq))
    | mark _ _ _ hc =>
      rw [hc, Cache.entry_markDirty] at hactive ⊢
      exact hp.active cs hcs hactive
    | @scan t' _ _ _ _ hl hs hscans _ hscan =>
      subst hl
      by_cases hrows : id ∈ p.rows.keys
      · exact .inl hrows
      by_cases hcands : id ∈ cs.keys
      · exact .inr (.inl hcands)
      rw [hscans] at ht'
      have hne := (Table.get_erase_iff.mp ht').1.symm
      obtain ⟨hactive', hseq⟩ := (hscan id).active_inv
        (hcond hne p ht cs hcs hrows hcands _ hs) hactive
      rcases hp.active cs hcs hactive' with h | h | h
      · exact absurd h hrows
      · exact absurd h hcands
      · exact .inr (.inr (h.trans_le hseq))

def PassKnows (t : Nat) (id : String) (w : World) : Prop :=
  w.Sound ∧ ∀ p, w.scans.get t = some p → w.Knows id p

theorem passKnows_start (hw : w.Sound) (h : Step w (.scanStart t .reconcile) w') :
    PassKnows t id w' := by
  refine ⟨sound_step hw h, fun p ht => ?_⟩
  cases h with
  | scanStart =>
    rw [Table.get_set_self] at ht
    cases ht
    exact ⟨rfl, fun hmem => absurd hmem (Finset.notMem_empty id), fun _ hcs => nomatch hcs⟩

theorem passKnows_step (hw : PassKnows t id w) (h : Step w l w') (hcond : w.Covers t id l)
    (hl : ∀ kind, l ≠ .scanStart t kind) (halive : ¬ w.Gone id) : PassKnows t id w' := by
  obtain ⟨hw, hknows⟩ := hw
  refine ⟨sound_step hw h, fun p' ht' => ?_⟩
  rcases scan_step h t p' ht' with ⟨p, ht, rfl | ⟨hcache, hstep⟩⟩ | ⟨kind, hl', _⟩
  · exact knows_cacheStep hw ht (hknows p' ht) (cache_step hw h) hcond ht'
  · have hknows' := knows_scanStep (hknows p ht) halive hstep
    refine ⟨hknows'.kind, hknows'.checked, ?_⟩
    rw [hcache]
    exact hknows'.active
  · exact absurd hl' (hl kind)

theorem mergeRow_of_knows (hp : w.Knows id p) (hcomplete : p.complete = true)
    (hactive : (w.cache.entry id).Active)
    (hfenced : (w.cache.entry id).fenced p.startSeq = false) : id ∈ p.rows.keys := by
  simp only [Scan.complete, hp.kind] at hcomplete
  cases hcs : p.candidates with
  | none => simp [hcs] at hcomplete
  | some cs =>
    have hall : cs.keys ⊆ p.checked := by simpa [hcs] using hcomplete
    rcases hp.active cs hcs hactive with h | h | h
    · exact h
    · exact hp.checked (hall h)
    · simp [fenced, h] at hfenced

/-- The publication of a pass evicts a cached row that is not closed. -/
def Evicts (w w' : World) (id : String) : Prop :=
  (w.cache.bead id).any (·.status != "closed") = true ∧ w'.cache.bead id = none

def NotifiesClosed (w : World) (t : Nat) (now : Time) (id : String) : Prop :=
  ∃ p ∈ w.scans.get t,
    ((w.cache.mergeNotification w.bdStore p.snapshot p.confirmedClosed now id).any
      fun n => decide (n.1 = .closed)) = true

instance : Decidable (Evicts w w' id) := inferInstanceAs (Decidable (_ ∧ _))

instance {now : Time} : Decidable (w.NotifiesClosed t now id) := by
  unfold NotifiesClosed
  infer_instance

theorem not_closes_of_knows (hw : PassKnows t id w) {failedBlockers : Option (Finset String)}
    {partialErr : Bool} {now : Time}
    (h : Step w (.scanPublish t failedBlockers partialErr now) w') :
    ¬ (Evicts w w' id ∨ w.NotifiesClosed t now id) := by
  cases h with
  | @scanPublish _ p _ _ _ ht hcomplete =>
    have hp := hw.2 p ht
    have hrow : w.cache.mergeRow w.bdStore p.snapshot id = none →
        (w.cache.entry id).Active → (w.cache.entry id).fenced p.startSeq = true := by
      intro hnone hactive
      by_contra hfenced
      have hmem := mergeRow_of_knows hp hcomplete hactive (by simpa using hfenced)
      rw [Cache.mergeRow, Option.map_eq_none_iff] at hnone
      exact Table.notMem_keys.mpr hnone hmem
    rintro (⟨hcached, hevicted⟩ | ⟨p', ht', hnotified⟩)
    · have hactive := active_of_any hcached
      rw [Cache.bead, Scan.publish, hp.kind] at hevicted
      obtain ⟨hnone, hfenced⟩ := Cache.publishReconcile_evicts hactive hevicted
      have hfenced' := hrow hnone hactive
      rw [show p.startSeq = p.snapshot.startSeq from rfl, hfenced] at hfenced'
      cases hfenced'
    · cases ht.symm.trans ht'
      obtain ⟨hnone, hactive, hfenced⟩ :=
        reconcileMergeDecision_closed (Cache.mergeNotification_closed hnotified)
      have hfenced' := hrow hnone hactive
      rw [show p.startSeq = p.snapshot.startSeq from rfl, hfenced] at hfenced'
      cases hfenced'

/-- A reconcile pass evicts an active row or notifies its close only if the backing store reported
the bead closed or not found between the start of the pass and its merge. -/
theorem closes_only_gone {backing : Backing} {bdStore : Bool} {id : String} {t : Nat}
    {as bs : List Label} {w w₁ w₂ w₃ : World} {failedBlockers : Option (Finset String)}
    {partialErr : Bool} {now : Time}
    (hreach : Run (StepOf step) (init backing bdStore) as w)
    (hstart : w.step (.scanStart t .reconcile) = some w₁)
    (hrun : Run (fun v a v' => StepOf step v a v' ∧ v.Covers t id a) w₁ bs w₂)
    (hsame : ∀ kind, .scanStart t kind ∉ bs)
    (hpublish : w₂.step (.scanPublish t failedBlockers partialErr now) = some w₃)
    (hcloses : Evicts w₂ w₃ id ∨ w₂.NotifiesClosed t now id) :
    ∃ bs₁ bs₂ v, bs = bs₁ ++ bs₂ ∧ Run (StepOf step) w₁ bs₁ v ∧ Run (StepOf step) v bs₂ w₂ ∧
      v.Gone id := by
  rcases hrun.visits_or_avoids (·.Gone id) with ⟨bs₁, bs₂, v, heq, h₁, h₂, hgone⟩ | halive
  · exact ⟨bs₁, bs₂, v, heq, h₁.mono fun _ _ _ h => h.1, h₂.mono fun _ _ _ h => h.1, hgone⟩
  · exfalso
    have hw := sound_run hreach (sound_init backing bdStore)
    have hsame' : ∀ a ∈ bs, ∀ kind, a ≠ .scanStart t kind :=
      fun a ha kind heq => hsame kind (heq ▸ ha)
    have hknows : PassKnows t id w₂ := by
      refine (halive.restrict hsame').invariant (PassKnows t id) ?_
        (passKnows_start hw (step_cases hstart))
      rintro v a v' hv ⟨⟨⟨hva, hcond⟩, halive⟩, hl⟩
      exact passKnows_step hv (step_cases hva) hcond hl halive
    exact not_closes_of_knows hknows (step_cases hpublish) hcloses

def droppedBead (status : String) : Bead := { id := "gc-1", title := "dropped", status }

def droppedBacking : Backing :=
  { rows := (∅ : Table String Bead).set "gc-1" (droppedBead "open") }

def droppedScan (t : Nat) (kind : ScanKind) : List Label :=
  [.scanStart t kind, .scanRow t "gc-1", .scanCandidates t, .scanPublish t none false ⟨1⟩]

/-- The bead is cached and closed outside of the cache before the pass looks it up. -/
theorem closes_only_gone_dropped : ∃ w w₁ w₂ w₃ : World,
    Run (StepOf step) (init droppedBacking false)
      [.scanStart 0 .prime, .scanRow 0 "gc-1", .scanPublish 0 none false ⟨1⟩] w ∧
    w.step (.scanStart 1 .reconcile) = some w₁ ∧
    w₂.step (.scanPublish 1 none false ⟨2⟩) = some w₃ ∧ Evicts w₂ w₃ "gc-1" ∧
    ∃ bs₁ bs₂ v, [.external "gc-1" (some (droppedBead "closed")) [], .scanCandidates 1,
        .scanRecover 1 "gc-1" true] = bs₁ ++ bs₂ ∧
      Run (StepOf step) w₁ bs₁ v ∧ Run (StepOf step) v bs₂ w₂ ∧ v.Gone "gc-1" := by
  obtain ⟨w, w₁, w₂, w₃, hreach, hstart, hrun, hpublish, hevicts⟩ : ∃ w w₁ w₂ w₃ : World,
      Run (StepOf step) (init droppedBacking false)
        [.scanStart 0 .prime, .scanRow 0 "gc-1", .scanPublish 0 none false ⟨1⟩] w ∧
      w.step (.scanStart 1 .reconcile) = some w₁ ∧
      Run (fun v a v' => StepOf step v a v' ∧ v.Covers 1 "gc-1" a) w₁
        [.external "gc-1" (some (droppedBead "closed")) [], .scanCandidates 1,
          .scanRecover 1 "gc-1" true] w₂ ∧
      w₂.step (.scanPublish 1 none false ⟨2⟩) = some w₃ ∧ Evicts w₂ w₃ "gc-1" := by
    refine ⟨_, _, _, _, run_of_exec rfl, rfl, run_of_exec_guarded rfl, rfl, ?_⟩
    decide
  exact ⟨w, w₁, w₂, w₃, hreach, hstart, hpublish, hevicts,
    closes_only_gone hreach hstart hrun (by simp) hpublish (.inl hevicts)⟩

/-- The listing drops the bead, which is not cached when the candidates are captured; a live `List`
installs it before the merge, which closes it although it is open throughout. -/
theorem open_bead_closed : ∃ w w₁ w₂ w₃ : World,
    Run (StepOf step) (init droppedBacking false)
      [.scanStart 0 .prime, .scanPublish 0 none false ⟨1⟩] w ∧
    w.step (.scanStart 1 .reconcile) = some w₁ ∧
    Run (fun v a v' => StepOf step v a v' ∧ ¬ v.Gone "gc-1") w₁
      (.scanCandidates 1 :: droppedScan 2 (.list { live := true })) w₂ ∧ ¬ w₂.Gone "gc-1" ∧
    w₂.step (.scanPublish 1 none false ⟨2⟩) = some w₃ ∧
    Evicts w₂ w₃ "gc-1" ∧ w₂.NotifiesClosed 1 ⟨2⟩ "gc-1" := by
  refine ⟨_, _, _, _, run_of_exec rfl, rfl, run_of_exec_guarded rfl, ?_, rfl, ?_, ?_⟩
  · decide
  · decide
  · decide

end World

end GasCity
