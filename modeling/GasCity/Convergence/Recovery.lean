import GasCity.Convergence.Stop
import GasCity.Convergence.Creation

/-! # Reconciliation and the whole controller

Startup reconciliation takes up a root wherever the controller went down, and every request
keeps the discipline.
-/

namespace GasCity.Convergence

variable {κ τ : Prop}

/-- Reconciliation has read the metadata of a root that was left behind by a stop. -/
structure Left (τ : Prop) (m : Metadata) (s : World) : Prop where
  metadata : s.metadata = m
  down : τ → Down s

instance {m : Metadata} : Steady (Left τ m) :=
  ⟨fun _ _ h hs => ⟨h.metadata.trans hs.metadata, fun hτ => (hs.down hτ).evolve h.evolves⟩⟩

namespace Left

variable {m : Metadata} {s : World}

theorem idle (h : Left τ m s) (hr : m.terminalReason = none) (hτ : τ) : Idle s := by
  refine ⟨(h.down hτ).1, fun hne => ?_⟩
  rw [h.metadata] at hne
  exact absurd hr hne

theorem finished (h : Left τ m s) (hw : m.state = .waitingManual ∨ m.state = .waitingTrigger)
    (hτ : τ) : Finished s := by
  rw [← h.metadata] at hw
  exact ((h.down hτ).1.waiting hw).2

theorem closing (h : Left τ m s) (hlive : m.state.Live) (hr : m.terminalReason ≠ none) :
    Closing τ s := by
  refine ⟨by rw [h.metadata]; exact hlive.not_early, fun hτ => (h.down hτ).1, fun hτ => ?_⟩
  rw [← h.metadata] at hr hlive
  rcases (h.down hτ).2 hr with hs | hs | hf
  · exact absurd hs hlive.ne_terminated
  · exact absurd (.inr hs) hlive.not_early
  · exact hf

end Left

section Reconcile

variable {m : Metadata}

theorem keeps_completeLeft (hlive : m.state.Live) (hr : m.terminalReason ≠ none) :
    Rests κ τ (Left τ m) (completeTerminalTransition m) :=
  (keeps_completeTerminalTransition m m.lastProcessedWisp).pre fun _ _ h =>
    ⟨h.closing hlive hr, by rw [h.metadata], by rw [h.metadata]⟩

theorem keeps_reconcileWaitingTrigger (hw : m.state = .waitingTrigger) :
    Rests κ τ (Left τ m) (reconcileWaitingTrigger m) := by
  unfold reconcileWaitingTrigger
  split_ifs with hr
  · exact keeps_completeLeft (.inr (.inr hw)) hr
  · exact keeps_pure fun _ _ h => h.idle (not_not.mp hr)

theorem Idle.mark {s : World} (h : Idle s) (hst : s.metadata.state = .waitingManual)
    (x : Option ID) : Idle (s.write (.lastProcessedWisp x)) := by
  refine ⟨⟨h.1.waiting, h.1.room, fun ha => ?_⟩, h.2⟩
  change s.metadata.state = .active at ha
  rw [hst] at ha
  cases ha

theorem keeps_reconcileWaitingManual (hw : m.state = .waitingManual) :
    Rests κ τ (Left τ m) (reconcileWaitingManual m) := by
  have hlive : m.state.Live := .inr (.inl hw)
  have hpresent : ∀ s, Left τ m s → s.metadata.state ≠ .missing := fun s h => by
    rw [h.metadata, hw]
    simp
  refine keeps_ite (fun hr => keeps_completeLeft hlive hr) fun hr => ?_
  have hnone : m.terminalReason = none := not_not.mp hr
  refine keeps_ite (fun _ => ?_) fun _ => ?_
  · refine keeps_children (fun _ _ h => h.down) fun ws => ?_
    refine keeps_then (R := fun s => Left τ m s ∧ Grown ws s.wisps) ?_ ?_
    · refine ((keeps_emit (fun _ _ h hτ _ => h.1.down hτ) (fun _ _ h => ?_) (by simp)
        fun s h => ⟨⟨h.1.metadata, fun hτ => (h.1.down hτ).evolve (.record s _)⟩, h.2⟩).pre
        fun _ _ h => ⟨h.1, h.2.2⟩).post fun _ _ _ h => h.1
      rw [h.1.metadata]
      exact hlive.not_early
    · cases hhigh : highestClosed ws with
      | none => exact keeps_pure fun _ _ h => h.1.idle hnone
      | some v =>
        refine keeps_ite (fun _ => keeps_pure fun _ _ h => h.1.idle hnone) fun _ => ?_
        refine keeps_setIdle (fun _ h => h.1.idle hnone) (fun s hs h => ?_) fun s _ h hτ => ?_
        · obtain ⟨u, hu, huid, huit, -⟩ := h.2.mem (mem_of_highestClosed hhigh)
          exact hs.mark ⟨u, hu, huid, huit⟩ (h.1.finished (.inl hw))
        · exact (h.1.idle hnone hτ).mark (by rw [h.1.metadata]; exact hw) _
  · refine keeps_children (fun _ _ h => h.down) fun ws => ?_
    refine keeps_ite (fun _ => keeps_pure fun _ _ h => h.1.idle hnone) fun _ => ?_
    refine (keeps_setIdle (w := .waitingReason (some .manual)) (fun _ h => h.idle hnone)
      (fun s hs h => hs.write_neutral (hpresent s h) trivial) fun s _ h hτ => ?_).pre
      fun _ _ h => h.1
    exact ⟨Tidy.write_neutral (h.idle hnone hτ).1 trivial,
      (h.idle hnone hτ).2⟩

theorem keeps_resumeActive (hact : m.state = .active) (hr : m.terminalReason = none) {v : Wisp}
    (hv : m.activeWisp = some v.id) :
    Rests κ τ (fun s => Left τ m s ∧ Found v.id (some v) s) (resumeActive m false v) := by
  refine keeps_then
    keeps_return ?_
  refine keeps_ite (fun hc => ?_) fun _ => keeps_pure fun _ _ h => h.1.idle hr
  refine keeps_then ((keeps_handleWispClosed v.id).pre fun s _ h => ?_)
    (keeps_pure fun _ _ h hτ => (h.2 hτ).1)
  exact ⟨by rw [h.1.metadata, hact]; exact .inl rfl, by rw [h.1.metadata, hv],
    ⟨_, h.2.2.2 hc.1⟩, h.1.idle hr⟩

theorem keeps_reconcileActive (hact : m.state = .active) :
    Rests κ τ (Left τ m) (reconcileActive m) := by
  refine keeps_ite (fun hr => keeps_completeLeft (.inl hact) hr) fun hr => ?_
  have hnone : m.terminalReason = none := not_not.mp hr
  cases hname : m.activeWisp with
  | none =>
    refine (keeps_rebuildActive m).pre fun s _ h => ?_
    exact ⟨by rw [h.metadata, hact], by rw [h.metadata, hname], h.idle hnone⟩
  | some id =>
    refine keeps_getBead (fun _ _ h => h.down) fun b => ?_
    cases b with
    | none =>
      refine Respects.of_false fun s hs h => ?_
      obtain ⟨v, hv, hid⟩ := hs.1.active id (by rw [h.1.metadata, hname])
      exact h.2 v hv hid
    | some v =>
      refine keeps_of_fact (fun _ _ h => h.2.1) ?_
      rintro rfl
      exact keeps_resumeActive hact hnone hname

theorem keeps_reconcileState : Rests κ τ (fun s => τ → Down s) reconcileState := by
  refine keeps_getMetadata (fun _ _ h => h) fun m v => ?_
  have hleft : ∀ s, Sound κ τ s → (τ → Down s) ∧ s.metadata = m → Left τ m s :=
    fun _ _ h => ⟨h.2, h.1⟩
  have hstate : ∀ {x : State}, m.state = x → ∀ s, Sound κ τ s →
      (τ → Down s) ∧ s.metadata = m → s.metadata.state = x :=
    fun hx _ _ h => by rw [h.2, hx]
  dsimp only
  cases hst : m.state with
  | missing => exact keeps_reconcileMissingState.pre (hstate hst)
  | creating => exact keeps_reconcileCreating.pre (hstate hst)
  | terminated => exact (keeps_reconcileTerminated m).pre (hstate hst)
  | waitingManual => exact (keeps_reconcileWaitingManual hst).pre hleft
  | waitingTrigger => exact (keeps_reconcileWaitingTrigger hst).pre hleft
  | active => exact (keeps_reconcileActive hst).pre hleft

end Reconcile

theorem Down.idle_of_not_opened {s : World} (hs : Sound κ τ s) (h : Down s) (hτ : τ)
    (hr : s.root ≠ .opened) : Idle s := by
  cases hroot : s.root with
  | opened => exact absurd hroot hr
  | closed => exact idle_of_terminated ((hs.2.2 hτ).sealed hroot)
  | absent =>
    refine ⟨h.1, fun hne => ?_⟩
    rw [hs.1.unformed (hs.1.born hroot)] at hne
    exact absurd rfl hne

theorem keeps_startupReconcile : Rests κ τ (fun s => τ → Down s) startupReconcile := by
  refine keeps_rootStatus (fun _ _ h => h) fun r => ?_
  refine keeps_ite (fun _ => keeps_reconcileState.pre fun _ _ h => h.1) fun hr => ?_
  refine keeps_pure fun s hs h hτ => (h.1 hτ).idle_of_not_opened hs hτ ?_
  rw [h.2]
  exact hr

theorem keeps_convergenceTick : Rests κ τ (Resting τ) convergenceTick := by
  have hdown : ∀ s, Sound κ τ s → (τ → Idle s) → τ → Down s := fun _ _ h hτ => (h hτ).down
  refine keeps_rootStatus hdown fun r => ?_
  refine keeps_ite (fun _ => ?_) fun _ => keeps_pure fun _ _ h => h.1
  refine (keeps_getMetadata hdown fun m v => ?_).pre fun _ _ h => h.1
  have hpure : Rests κ τ (fun s => Resting τ s ∧ s.metadata = m) (pure ()) :=
    keeps_pure fun _ _ h => h.1
  dsimp only
  cases hst : m.state with
  | waitingTrigger =>
    exact keeps_then (keeps_handleTrigger.pre fun _ _ h => h.1)
      keeps_return
  | active =>
    cases hact : m.activeWisp with
    | none => exact hpure
    | some id =>
      refine keeps_getBead (fun s hs h => hdown s hs h.1) fun b => ?_
      cases b with
      | none => exact keeps_reconcileState.pre fun s hs h => hdown s hs h.1.1
      | some b =>
        refine keeps_ite (fun hc => ?_) fun _ => hpure.pre fun _ _ h => h.1
        refine keeps_then ((keeps_handleWispClosed id).pre fun s _ h => ?_)
          (keeps_pure fun _ _ h hτ => (h.2 hτ).1)
        exact ⟨by rw [h.1.2, hst]; exact .inl rfl, by rw [h.1.2, hact],
          ⟨_, h.2.2.2 hc⟩, h.1.1⟩
  | missing => exact hpure
  | creating => exact hpure
  | waitingManual => exact hpure
  | terminated => exact hpure

/-- Every request keeps the discipline, also after a stop if it is the reconciliation. -/
theorem controller_disciplined (κ τ : Prop) :
    controller.Disciplined (discipline κ τ) fun _ _ => True where
  body r := by
    have hrest : ∀ {p : Handler HandlerAction},
        Rests κ τ (Resting τ) p → Rests κ τ (Resting τ) (do
          let _ ← p
          pure ()) := fun hp => keeps_then hp keeps_return
    have hidle : ∀ {p : Handler Unit}, r ≠ .reconcile →
        Rests κ τ (Resting τ) p →
        Rests κ τ (fun s => Resting τ s ∨ controller.recovers r = true ∧ (τ → Down s)) p :=
      fun hr hp => hp.pre fun s _ h => by
      rcases h with h | ⟨h, -⟩
      · exact h
      · exact absurd (by simpa [controller] using h) hr
    cases r with
    | create p => exact hidle (by simp) (keeps_createHandler p)
    | tick => exact hidle (by simp) keeps_convergenceTick
    | approve user => exact hidle (by simp) (hrest (keeps_approveHandler user))
    | iterate => exact hidle (by simp) (hrest keeps_iterateHandler)
    | stop user => exact hidle (by simp) (hrest (keeps_stopHandler user))
    | reconcile =>
      refine keeps_startupReconcile.pre fun s _ h hτ => ?_
      rcases h with h | ⟨-, h⟩
      · exact (h hτ).down
      · exact h hτ
  outside e s hs _ := ⟨hs.agents (agents_agentAct e s), agents_agentAct e s⟩

/-- What holds before any root exists. -/
theorem kept_start (κ τ : Prop) : controller.Kept (discipline κ τ) start := by
  have hbase : Base ({} : World) := by
    refine ⟨?_, List.nodup_nil, List.nodup_nil, ?_, ?_, ?_, ?_, ?_, ?_, ?_, ?_, ?_, ?_, ?_, ?_, ?_,
      ?_, ?_⟩ <;> simp [State.Live]
  refine ⟨⟨hbase, fun _ n _ hp => ?_, fun _ => ?_⟩, fun _ => ?_⟩
  · rcases hp with hp | hp <;> cases hp
  · exact ⟨by simp [start], by simp [start], by simp [start], by simp [start], by simp [start],
      by simp [start]⟩
  · exact idle_of_early (.inl rfl) (by simp [start])

end GasCity.Convergence
