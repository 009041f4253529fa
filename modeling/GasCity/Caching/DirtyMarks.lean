import GasCity.Caching.Steps

/-! # Dirty marks and the scans that are older than them

A dirty mark that is set while a scan is in flight has to survive the
publication of that scan.  It does when the mark is set behind a mutation fence
past the start of the scan and no prime erases that fence.
-/

namespace GasCity

open Entry Cache

/-- Whether the call marks its bead dirty because the event could not be verified. -/
def EventFlight.marks (f : EventFlight) : Bool :=
  decide (f.view.verdict (f.fetched.getD .failed) = .markDirty)

namespace Scanned

variable {s : Scan} {bdStore : Bool} {c : Cache} {id : String} {e e' : Entry}

theorem eq_of_fenced {q : ListQuery} (hkind : s.kind = .list q) (h : Scanned s bdStore c id e e')
    (hfenced : e.fenced s.startSeq = true) : e' = e := by
  induction h with
  | kept => rfl
  | dropped hf | retained _ hf => simp [hf] at hfenced
  | installed b h =>
    rcases h.dirty with ⟨hf, _⟩ | ⟨hkeeps, _⟩
    · simp [hf] at hfenced
    · simp [Scan.keepsMark, hkind] at hkeeps
  | trans _ _ _ ih ih' =>
    obtain rfl := ih hfenced
    exact ih' hfenced

theorem dirty_of_fenced (h : Scanned s bdStore c id e e') (hfenced : e.fenced s.startSeq = true)
    (hdirty : e.dirty = true) : e'.dirty = true := by
  cases h with
  | kept => exact hdirty
  | dropped hf | retained _ hf => simp [hf] at hfenced
  | installed b h =>
    rcases h.dirty with ⟨hf, _⟩ | ⟨_, heq⟩
    · simp [hf] at hfenced
    · rwa [heq]
  | trans hkind h h' =>
    obtain rfl := h.eq_of_fenced hkind hfenced
    obtain rfl := h'.eq_of_fenced hkind hfenced
    exact hdirty

/-- A scan sets no mark, and it lowers the fence of a marked entry only by reinstalling a row. -/
theorem dirty_inv (h : Scanned s bdStore c id e e') (hdirty : e'.dirty = true) :
    e.dirty = true ∧
      (e.beadSeq ≤ e'.beadSeq ∨ s.reinstalls id e = true) := by
  induction h with
  | kept => exact ⟨hdirty, .inl le_rfl⟩
  | dropped => cases hdirty
  | retained => exact ⟨hdirty, .inl le_rfl⟩
  | installed b h =>
    rcases h.dirty with ⟨_, hclean⟩ | ⟨hkeeps, heq⟩
    · simp [hclean] at hdirty
    · refine ⟨heq ▸ hdirty, .inr ?_⟩
      simp [Scan.reinstalls, Scan.row_of_keepsMark h.offers hkeeps, hkeeps]
  | trans hkind _ _ ih ih' =>
    obtain ⟨hdirty', hseq'⟩ := ih' hdirty
    obtain ⟨hdirty, hseq⟩ := ih hdirty'
    refine ⟨hdirty, .inl ?_⟩
    have hnot : ∀ e, s.reinstalls id e = false := by
      simp [Scan.reinstalls, Scan.keepsMark, hkind]
    simp only [hnot, Bool.false_eq_true, or_false] at hseq hseq'
    exact hseq.trans hseq'

end Scanned

namespace World

variable {w w' : World} {l : Label} {id : String} {t : Nat}

/-- Whether the lock section of a step writes the mark of a bead, whatever the mark was. -/
def WritesMark (w : World) (id : String) : Label → Prop
  | .publish t _ => ∃ f ∈ w.writes.get t, id ∈ f.rewrites
  | .eventApply t _ => ∃ f ∈ w.events.get t, f.marks = true ∧ f.view.event.patch.id = id
  | _ => False

def Marks (w : World) (l : Label) (w' : World) (id : String) : Prop :=
  w'.cache.isDirty id = true ∧ (w.cache.isDirty id = false ∨ w.WritesMark id l)

/-- An event that could not be verified marks only a row whose fence is past the start of every scan
in flight, and no prime reinstalls the row of a marked bead. -/
def FencesMarks (w : World) (id : String) : Label → Prop
  | .eventApply t _ =>
    ∀ f ∈ w.events.get t, f.marks = true → f.view.event.patch.id = id →
      ∀ t' s, w.scans.get t' = some s → s.startSeq < (w.cache.entry id).beadSeq
  | .scanPublish t _ _ _ =>
    ∀ s ∈ w.scans.get t, w.cache.isDirty id = true → s.reinstalls id (w.cache.entry id) = false
  | _ => True

instance : Decidable (w.WritesMark id l) := by
  cases l <;> dsimp only [WritesMark] <;> infer_instance

instance : Decidable (Marks w l w' id) := inferInstanceAs (Decidable (_ ∧ _))

instance : Decidable (w.FencesMarks id l) := by
  cases l <;> dsimp only [FencesMarks] <;> infer_instance

def FencedStep (id : String) (w : World) (l : Label) (w' : World) : Prop :=
  StepOf step w l w' ∧ w.FencesMarks id l

def FencedAgainst (w : World) (t : Nat) (id : String) : Prop :=
  ∀ s, w.scans.get t = some s → s.startSeq < (w.cache.entry id).beadSeq

theorem fencedAgainst_of_lt (hw : w.Sound) (h : Step w l w') (hl : ∀ kind, l ≠ .scanStart t kind)
    (hseq : w.cache.mutationSeq < (w'.cache.entry id).beadSeq) : w'.FencedAgainst t id := by
  intro s' ht
  obtain ⟨s, hs, hprogress⟩ := scan_progress h hl ht
  rw [hprogress.startSeq]
  exact (hw.started t s hs).trans_lt hseq

theorem FencedAgainst.mono (hf : w.FencedAgainst t id) (h : Step w l w')
    (hl : ∀ kind, l ≠ .scanStart t kind)
    (hseq : (w.cache.entry id).beadSeq ≤ (w'.cache.entry id).beadSeq) :
    w'.FencedAgainst t id := by
  intro s' ht
  obtain ⟨s, hs, hprogress⟩ := scan_progress h hl ht
  rw [hprogress.startSeq]
  exact (hf s hs).trans_le hseq

theorem fencedAgainst_step (hw : w.Sound) (hf : w.FencedAgainst t id) (h : Step w l w')
    (hcond : w.FencesMarks id l) (hl : ∀ kind, l ≠ .scanStart t kind)
    (hdirty : w'.cache.isDirty id = true) : w'.FencedAgainst t id := by
  cases cache_step hw h with
  | «section» hsection =>
    cases hsection.kept id with
    | fenced hseq => exact fencedAgainst_of_lt hw h hl hseq
    | dropped _ hclean => simp [isDirty, hclean] at hdirty
    | same _ hseq => exact hf.mono h hl hseq
  | mark _ _ _ hc =>
    apply hf.mono h hl
    rw [hc, entry_markDirty]
  | scan hl' hs _ _ hscan =>
    subst hl'
    obtain ⟨hdirty₀, hseq | hkeeps⟩ := (hscan id).dirty_inv hdirty
    · exact hf.mono h hl hseq
    · have hnot := hcond _ hs hdirty₀
      rw [hkeeps] at hnot
      cases hnot

theorem fencedAgainst_marks (hw : w.Sound) (h : Step w l w') (hcond : w.FencesMarks id l)
    (hl : ∀ kind, l ≠ .scanStart t kind) (hmarks : Marks w l w' id) : w'.FencedAgainst t id := by
  obtain ⟨hdirty, hclean | hwrites⟩ := hmarks
  · cases cache_step hw h with
    | «section» hsection =>
      cases hsection.kept id with
      | fenced hseq => exact fencedAgainst_of_lt hw h hl hseq
      | dropped _ hclean' => simp [isDirty, hclean'] at hdirty
      | same hd => simp [isDirty, hd hdirty] at hclean
    | @mark _ f _ hl' ht hverdict hc =>
      subst hl'
      by_cases hid : f.view.event.patch.id = id
      · have hfenced : w.FencedAgainst t id :=
          hcond f ht (decide_eq_true hverdict) hid t
        apply hfenced.mono h hl
        rw [hc, entry_markDirty]
      · rw [hc, isDirty, entry_markDirty] at hdirty
        rw [isDirty] at hclean
        simp [hclean, Ne.symm hid] at hdirty
    | scan _ _ _ _ hscan =>
      have hdirty₀ := ((hscan id).dirty_inv hdirty).1
      simp [isDirty, hdirty₀] at hclean
  · cases h with
    | @publish t' f now ht hcomplete =>
      obtain ⟨f', ht', hid⟩ := hwrites
      cases ht.symm.trans ht'
      have hrewrites : Rewrites f.rewrites w.cache (f.publish w.cache now) :=
        (WriteFlight.publishes (hw.writeIDs t' f ht)).toRewrites
      rcases hrewrites.rewritten id hid with hseq | ⟨_, hclean⟩
      · exact fencedAgainst_of_lt hw (.publish ht hcomplete) hl hseq
      · simp [isDirty, hclean] at hdirty
    | @eventApply t' f now ht hwaiting =>
      obtain ⟨f', ht', hmarks, hid⟩ := hwrites
      cases ht.symm.trans ht'
      have hfenced : w.FencedAgainst t id := hcond f ht hmarks hid t
      apply hfenced.mono (.eventApply ht hwaiting) hl
      have hverdict := of_decide_eq_true hmarks
      simp only [finishEvent, hverdict]
      rw [entry_markDirty]
    | _ => exact hwrites.elim

/-- A bead that is marked dirty while a scan is in flight and stays marked until the scan publishes
is still marked afterwards. -/
theorem dirty_mark_survives {backing : Backing} {bdStore : Bool} {id : String} {t : Nat}
    {as bs : List Label} {w w₁ w₂ w₃ : World} {l : Label}
    {failedBlockers : Option (Finset String)} {partialErr : Bool} {now : Time}
    (hreach : Run (StepOf step) (init backing bdStore) as w)
    (hstep : FencedStep id w l w₁) (hmarks : Marks w l w₁ id)
    (hrun : Run (fun v a v' => FencedStep id v a v' ∧ v'.cache.isDirty id = true) w₁ bs w₂)
    (hsame : ∀ kind, .scanStart t kind ∉ l :: bs)
    (hpublish : w₂.step (.scanPublish t failedBlockers partialErr now) = some w₃) :
    w₃.cache.isDirty id = true := by
  have hw := sound_run hreach (sound_init backing bdStore)
  have hfenced : w₁.FencedAgainst t id :=
    fencedAgainst_marks hw (step_cases hstep.1) hstep.2
      (fun kind heq => hsame kind (heq ▸ List.mem_cons_self)) hmarks
  have hsame' : ∀ a ∈ bs, ∀ kind, a ≠ .scanStart t kind :=
    fun a ha kind heq => hsame kind (List.mem_cons_of_mem l (heq ▸ ha))
  obtain ⟨hw₂, hfenced₂, hdirty₂⟩ : w₂.Sound ∧ w₂.FencedAgainst t id ∧
      w₂.cache.isDirty id = true := by
    refine (hrun.restrict hsame').invariant
      (fun v => v.Sound ∧ v.FencedAgainst t id ∧ v.cache.isDirty id = true) ?_
      ⟨sound_step hw (step_cases hstep.1), hfenced, hmarks.1⟩
    rintro v a v' ⟨hv, hf, _⟩ ⟨⟨⟨hva, hcond⟩, hdirty⟩, hl⟩
    have hva' := step_cases hva
    exact ⟨sound_step hv hva', fencedAgainst_step hv hf hva' hcond hl hdirty, hdirty⟩
  cases step_cases hpublish with
  | @scanPublish _ s _ _ _ hs =>
    have hseq : (w₂.cache.entry id).fenced s.startSeq = true := by
      simp [fenced, hfenced₂ s hs]
    exact (Scan.scanned_publish (hw₂.bounded id)).dirty_of_fenced hseq hdirty₂

def titled (title : String) (metadata : StringMap) : Bead :=
  { id := "gc-1", title, status := "open", metadata }

def titledBacking : Backing := { rows := (∅ : Table String Bead).set "gc-1" (titled "A" ∅) }

def titledWrite : List Label :=
  [.issue 0 (.setMetadata "gc-1" "k" "v"),
    .commit 0 "gc-1" (some (titled "A" ((∅ : StringMap).set "k" "v"))) [], .reply 0 .ok,
    .fetch 0 "gc-1" true, .publish 0 ⟨2⟩]

def titledScan (t : Nat) (kind : ScanKind) : List Label :=
  [.scanStart t kind, .scanRow t "gc-1", .scanDeps t "gc-1"]

/-- The bead is renamed twice outside of the cache, and the event of the first rename arrives. -/
def titledEvent : List Label :=
  [.external "gc-1" (some (titled "B" ((∅ : StringMap).set "k" "v"))) [],
    .external "gc-1" (some (titled "C" ((∅ : StringMap).set "k" "v"))) [],
    .eventStart 0 ⟨.updated, titled "B" ∅, ["title"]⟩ ⟨6000000000⟩, .eventRead 0 true]

def titledPrime : List Label := titledScan 0 .prime ++ [.scanPublish 0 none false ⟨1⟩]

/-- The reconcile pass starts before the local write, whose fence is past it when the event marks
the bead. -/
theorem dirty_mark_survives_titled : ∃ w w₁ w₂ : World,
    Run (StepOf step) (init titledBacking false)
      (titledPrime ++ titledScan 1 .reconcile ++ [.scanCandidates 1] ++ titledWrite ++ titledEvent)
      w ∧
    FencedStep "gc-1" w (.eventApply 0 ⟨6000000000⟩) w₁ ∧
    Marks w (.eventApply 0 ⟨6000000000⟩) w₁ "gc-1" ∧
    w₁.step (.scanPublish 1 none false ⟨7000000000⟩) = some w₂ ∧
    w₂.cache.isDirty "gc-1" = true := by
  refine ⟨_, _, _, and_of_imp (run_of_exec rfl) fun hreach => and_of_imp ⟨rfl, ?_⟩ fun hstep =>
    and_of_imp ?_ fun hmarks => and_of_imp rfl fun hpublish => ?_⟩
  · decide
  · decide
  · exact dirty_mark_survives hreach hstep hmarks (.nil _) (by simp) hpublish

/-- The event marks the bead at the sequence the reconcile pass started at, so the pass clears the
mark and leaves a row that the backing store no longer has. -/
theorem dirty_mark_lost : ∃ w w₁ w₂ : World,
    Run (StepOf step) (init titledBacking false)
      (titledPrime ++ titledWrite ++ titledScan 1 .reconcile ++ [.scanCandidates 1] ++ titledEvent)
      w ∧
    w.step (.eventApply 0 ⟨6000000000⟩) = some w₁ ∧
    Marks w (.eventApply 0 ⟨6000000000⟩) w₁ "gc-1" ∧
    w₁.step (.scanPublish 1 none false ⟨7000000000⟩) = some w₂ ∧
    w₂.cache.isDirty "gc-1" = false ∧ w₂.cache.bead "gc-1" ≠ w₂.backing.rows.get "gc-1" := by
  refine ⟨_, _, _, run_of_exec rfl, rfl, ?_, rfl, ?_, ?_⟩
  · decide
  · decide
  · decide

end World

end GasCity
