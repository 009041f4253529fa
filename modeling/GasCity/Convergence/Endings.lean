import GasCity.Convergence.WispClosed

/-! # Ends of a loop

The approval of the operator and the terminal transitions that reconciliation completes: the
events are out before the root is closed, and no wisp is left open.
-/

namespace GasCity.Convergence

structure Over (τ : Prop) (last : Option ID) (s : World) : Prop where
  state : s.metadata.state = .terminated
  marker : s.metadata.lastProcessedWisp = last
  finished : τ → Finished s

section Over

variable {κ τ : Prop} {last : Option ID} {s t : World}

theorem Over.evolve (h : Over τ last s) (he : Evolves s t) : Over τ last t :=
  ⟨he.metadata ▸ h.state, he.metadata ▸ h.marker, fun hτ => (h.finished hτ).evolve he⟩

instance : Steady (Over τ last) := .of_evolve Over.evolve

variable {P : World → Prop}

theorem keeps_emit {site : Site} {e : Event} [Steady P]
    (hdown : ∀ s, Sound κ τ s → P s → τ → site.stoppable = true → Down s)
    (hawake : ∀ s, Sound κ τ s → P s → ¬ s.metadata.state.Early) (he : e ≠ .created)
    (hPr : ∀ s, P s → P (s.record (.emit e))) :
    Keeps κ τ P (call (.emit site e)) fun _ s => P s ∧ Entry.emit e ∈ s.log :=
  keeps_record hdown (fun s hs h => hs.emit (hawake s hs h) he)
    fun s _ h => ⟨hPr s h, List.mem_append_right _ (List.mem_singleton_self _)⟩

theorem Over.awake (h : Over τ last s) : ¬ s.metadata.state.Early :=
  h.state ▸ not_early_terminated

theorem keeps_emitOver {e : Event} (he : e ≠ .created) :
    Keeps κ τ (Over τ last) (emit e) fun _ s => Over τ last s ∧ Entry.emit e ∈ s.log :=
  keeps_emit (fun _ _ h _ _ => (idle_of_terminated h.state).down)
    (fun _ _ h => h.awake) he fun s h => h.evolve (.record s _)

theorem keeps_closeOver :
    Keeps κ τ (fun s => Over τ last s ∧ Entry.emit .terminated ∈ s.log) closeRoot
      fun _ => Over τ last :=
  keeps_closeRoot (fun _ _ h _ => idle_of_terminated h.1.state)
    (fun _ hs h => hs.closeRoot (fun _ => h.1.state) fun _ _ => h.2)
    fun s _ h => h.1.evolve (.closeRoot s)

theorem write_lastProcessedWisp_self {id : ID} (h : s.metadata.lastProcessedWisp = some id) :
    s.write (.lastProcessedWisp (some id)) = s := by
  obtain ⟨m, v, r, ws, k, l⟩ := s
  obtain ⟨⟩ := m
  simp only at h
  subst h
  rfl

theorem keeps_sameMarker (last : Option ID) [Steady P]
    (hover : ∀ s, P s → s.metadata.state = .terminated)
    (hlast : ∀ s, P s → s.metadata.lastProcessedWisp = last) :
    Keeps κ τ P (match last with
      | none => pure ()
      | some w => setMetadata .plain (.lastProcessedWisp (some w))) fun _ => P := by
  cases last with
  | none => exact keeps_return
  | some id =>
    refine keeps_setIdle (fun s h _ => idle_of_terminated (hover s h)) ?_ ?_ <;> intro s hs h <;>
      rw [write_lastProcessedWisp_self (hlast s h)]
    · exact hs
    · exact h

end Over

section Approve

variable {κ τ : Prop}

theorem keeps_approveHandler (user : String) : Rests κ τ (Resting τ) (approveHandler user) := by
  refine keeps_getMetadata (fun _ _ h hτ => (h hτ).down) fun m v => ?_
  dsimp only
  split_ifs with happroved hstate
  · exact keeps_pure fun _ _ h => h.1
  · exact keeps_fail fun _ _ h => h.1
  · have hwait : m.state = .waitingManual := not_not.mp hstate
    refine Respects.bind (keeps_deriveIterationCount fun _ _ h hτ => (h.1 hτ).down) fun _ => ?_
    refine keeps_then (R := Over τ m.lastProcessedWisp) ?_
      (keeps_pure fun _ _ h _ => idle_of_terminated h.state)
    refine keeps_then (R := Over τ m.lastProcessedWisp) ?_ (keeps_then ?_
      (keeps_sameMarker m.lastProcessedWisp (fun _ h => h.state) fun _ h => h.marker))
    · refine keeps_then (R := fun s => Closing τ s ∧
        s.metadata.lastProcessedWisp = m.lastProcessedWisp) ?_ ?_
      · refine keeps_setIdle (fun _ h => h.1.1) ?_ ?_
        · rintro s hs ⟨⟨-, rfl⟩, -⟩
          exact hs.write_neutral (by rw [hwait]; simp) trivial
        · rintro s hs ⟨⟨hidle, rfl⟩, -⟩
          refine ⟨⟨?_, fun hτ => Tidy.write_neutral (hidle hτ).1 trivial,
            fun hτ => ((hidle hτ).1.waiting (.inl hwait)).2.congr rfl rfl⟩, rfl⟩
          change ¬ s.metadata.state.Early
          rw [hwait]
          rintro (h | h) <;> cases h
      · refine keeps_then (keeps_closing trivial fun _ h => h) (keeps_then
          (keeps_closing trivial fun _ h => h) (keeps_then (keeps_closed fun _ h hf => ?_)
            keeps_return))
        exact ⟨rfl, h, hf⟩
    · refine keeps_then (keeps_emitOver (by simp)) (keeps_then keeps_closeOver ?_)
      exact (keeps_emitOver (by simp)).post fun _ _ _ h => h.1

end Approve

section Complete

variable {κ τ : Prop}

theorem mem_of_highestClosed {ws : List Wisp} {v : Wisp} (h : highestClosed ws = some v) :
    v ∈ ws :=
  (List.mem_filter.mp (List.argmax_mem h)).1

theorem Sound.mark {s : World} (h : Sound κ τ s) {id : ID} {n : ℕ} (hid : Has id n s)
    (hf : τ → Finished s) : Sound κ τ (s.write (.lastProcessedWisp (some id))) := by
  refine h.write (h.1.write_lastProcessedWisp (h.1.present hid) (h.1.lt_next hid)) trivial
    fun hτ => ?_
  exact { h.2.2 hτ with passed := fun _ _ _ v hv _ => (hf hτ v hv).2 }

theorem keeps_completeTerminalTransition (m : Metadata) (last : Option ID) :
    Rests κ τ (fun s => Closing τ s ∧ s.metadata.lastProcessedWisp = last ∧
        s.metadata.state = m.state)
      (completeTerminalTransition m) := by
  refine keeps_then (R := fun s => Closing τ s ∧ s.metadata.lastProcessedWisp = last ∧
    s.metadata.state = m.state) ?_ ?_
  · unfold backfillTerminalActor setIf
    split_ifs
    · exact keeps_then (keeps_closing trivial fun _ h => h) keeps_return
    · exact keeps_return
  · refine keeps_children (fun _ _ h hτ => h.1.down hτ) fun ws => ?_
    refine keeps_then ((keeps_emit (P := fun s => Closing τ s ∧
      (s.metadata.lastProcessedWisp = last ∧ s.metadata.state = m.state) ∧ Grown ws s.wisps)
      (fun _ _ h hτ _ => h.1.down hτ) (fun _ _ h => h.1.awake) (by simp)
      fun s h => ⟨h.1.evolve (.record s _), h.2⟩).pre fun _ _ h => ⟨h.1.1, h.1.2, h.2.2⟩) ?_
    refine keeps_then (R := fun s => (Over τ last s ∧ Entry.emit .terminated ∈ s.log) ∧
      Grown ws s.wisps) ?_ ?_
    · unfold setIf
      split_ifs with hst
      · refine keeps_then ((keeps_closed (E := fun s => ((s.metadata.lastProcessedWisp = last ∧
          s.metadata.state = m.state) ∧ Grown ws s.wisps) ∧ Entry.emit .terminated ∈ s.log)
          fun _ h hf => ⟨⟨⟨rfl, h.1.1.1, hf⟩, h.2⟩, h.1.2⟩).pre fun _ _ h => ⟨h.1.1, h.1.2, h.2⟩)
          keeps_return
      · refine keeps_pure fun _ _ h => ⟨⟨⟨?_, h.1.2.1.1, h.1.1.finished⟩, h.2⟩, h.1.2.2⟩
        exact h.1.2.1.2.trans (not_not.mp hst)
    · refine keeps_then (R := fun s => Over τ last s ∧ Grown ws s.wisps) ?_ ?_
      · exact keeps_closeRoot (fun _ _ h _ => idle_of_terminated h.1.1.state)
          (fun _ hs h => hs.closeRoot (fun _ => h.1.1.state) fun _ _ => h.1.2)
          fun s _ h => ⟨h.1.1.evolve (.closeRoot s), h.2⟩
      · have hdone : ∀ s, Sound κ τ s → Over τ last s ∧ Grown ws s.wisps → τ → Idle s :=
          fun _ _ h _ => idle_of_terminated h.1.state
        cases hhigh : highestClosed ws with
        | none => exact keeps_pure hdone
        | some v =>
          refine keeps_trySet (fun s hs h hτ => (hdone s hs h hτ).down) ?_
            hdone fun _ _ h _ => idle_of_terminated h.1.state
          intro s hs h
          obtain ⟨u, hu, huid, huit, -⟩ := h.2.mem (mem_of_highestClosed hhigh)
          exact hs.mark ⟨u, hu, huid, huit⟩ h.1.finished

theorem keeps_reconcileTerminated (m : Metadata) :
    Rests κ τ (fun s => s.metadata.state = .terminated) (reconcileTerminatedNotClosed m) := by
  have hidle : ∀ s, Sound κ τ s → s.metadata.state = .terminated → τ → Idle s :=
    fun _ _ h _ => idle_of_terminated h
  have hdown : ∀ s, Sound κ τ s → s.metadata.state = .terminated → τ → Down s :=
    fun _ _ h _ => (idle_of_terminated h).down
  have hpresent : ∀ s : World, s.metadata.state = .terminated → s.metadata.state ≠ .missing :=
    fun _ h => by rw [h]; simp
  refine keeps_rootStatus hdown fun r => ?_
  split_ifs
  · exact keeps_pure fun s hs h => hidle s hs h.1
  · refine keeps_then (R := fun s => s.metadata.state = .terminated) ?_ ?_
    · unfold backfillTerminalActor setIf
      split_ifs
      · refine keeps_then ?_ keeps_return
        exact (keeps_set (w := .terminalActor (some .recovery))
          (fun s hs h hτ _ => hdown s hs h hτ) (never rfl)
          (fun s hs h => hs.write_neutral (hpresent s h) trivial) fun _ _ h => h).pre
          fun _ _ h => h.1
      · exact keeps_pure fun _ _ h => h.1
    · refine keeps_children hdown fun _ => ?_
      refine keeps_then ((keeps_emit (fun s hs h hτ _ => hdown s hs h hτ)
        (fun _ _ h => h ▸ not_early_terminated) (by simp) fun _ h => h).pre fun _ _ h => h.1) ?_
      exact keeps_closeRoot
        (fun s hs h => hidle s hs h.1) (fun _ hs h => hs.closeRoot (fun _ => h.1) fun _ _ => h.2)
        fun _ _ h _ => idle_of_terminated h.1

end Complete

section Creating

variable {κ τ : Prop}

theorem idle_of_early {s : World} (h : s.metadata.state.Early)
    (hr : s.metadata.terminalReason ≠ none → s.metadata.state = .creating) : Idle s := by
  refine ⟨⟨fun hs => ?_, fun hs => ?_, fun hs => ?_⟩, fun hne => .inr (hr hne)⟩
  · rcases h with h | h <;> rw [h] at hs <;> rcases hs with hs | hs <;> cases hs
  · rcases h with h | h <;> rw [h] at hs <;> cases hs
  · rcases h with h | h <;> rw [h] at hs <;> cases hs

def Blank (s : World) : Prop :=
  s.wisps = [] ∧ s.log = []

instance : Steady Blank :=
  ⟨fun _ _ h hs => ⟨h.grown.eq_nil.mpr hs.1, h.log.trans hs.2⟩⟩

theorem keeps_reconcileCreating :
    Rests κ τ (fun s => s.metadata.state = .creating) reconcileCreating := by
  have hidle : ∀ s : World, s.metadata.state = .creating → Idle s := fun _ h =>
    idle_of_early (.inr h) fun _ => h
  have hwrite : ∀ x : MetaWrite, x.Neutral → (∀ s : World, (s.write x).metadata.state =
      s.metadata.state) → Keeps κ τ (fun s => s.metadata.state = .creating) (setMetadata .plain x)
      fun _ s => s.metadata.state = .creating := by
    intro x hx hstate
    refine keeps_setIdle (fun s h _ => hidle s h)
      (fun s hs h => hs.write_neutral (by rw [h]; simp) hx) fun s _ h => ?_
    rw [hstate]
    exact h
  refine keeps_then (hwrite _ trivial fun _ => rfl) (keeps_then (hwrite _ trivial fun _ => rfl) ?_)
  refine keeps_then (R := fun s => s.metadata.state = .terminated ∧ Blank s) ?_ ?_
  · refine keeps_setIdle (fun s h _ => hidle s h) ?_ ?_
    · intro s hs h
      refine hs.terminate (by rw [h]; simp) fun _ v hv => ?_
      rw [(hs.1.early (.inr h)).1] at hv
      cases hv
    · intro s hs h
      obtain ⟨hw, hl, -⟩ := hs.1.early (.inr h)
      exact ⟨rfl, hw, hl⟩
  · refine keeps_closeRoot (fun _ _ h _ => idle_of_terminated h.1) (fun s hs h => ?_)
      fun _ _ h _ => idle_of_terminated h.1
    refine hs.closeRoot (fun _ => h.1) fun _ hc => ?_
    rw [h.2.2] at hc
    cases hc

end Creating

end GasCity.Convergence
