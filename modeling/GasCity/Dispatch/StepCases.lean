import GasCity.Dispatch.ScopeInvariant

/-! # What a step does to the beads

Every step rewrites the beads in place or attaches new ones.  A bead keeps its id and
everything but its status and result, and a closed bead stays closed.
-/

namespace GasCity.Dispatch

/-- The beads are rewritten in place by `g`. -/
structure Changed (g : Bead → Bead) (s t : Store) : Prop where
  store : t = { s with beads := s.beads.map g }
  frame : ∀ b, Frame b (g b)
  closed : ∀ b ∈ s.beads, b.status = .closed → (g b).status = .closed

namespace Changed

variable {g g' : Bead → Bead} {s t u : Store}

theorem ids (h : Changed g s t) : t.beads.map Bead.id = s.beads.map Bead.id := by
  rw [h.store, List.map_map]
  exact List.map_congr_left fun b _ => (h.frame b).1

theorem blocks (h : Changed g s t) : t.blocks = s.blocks := by
  rw [h.store]

variable {b body : Bead}

theorem mem (h : Changed g s t) (hb : b ∈ s.beads) : g b ∈ t.beads := by
  rw [h.store]
  exact List.mem_map_of_mem hb

theorem get (h : Changed g s t) {d : String} (hb : s.get d = some b) : t.get d = some (g b) := by
  rw [h.store, Store.get, Keyed.lookup_map (fun b => (h.frame b).1), ← Store.get, hb]
  rfl

theorem trans (h : Changed g s t) (h' : Changed g' t u) : Changed (g' ∘ g) s u where
  store := by
    rw [h'.store, h.store]
    simp
  frame b := (h.frame b).trans (h'.frame (g b))
  closed b hb hclosed := h'.closed _ (h.mem hb) (h.closed b hb hclosed)

theorem refl (s : Store) : Changed id s s where
  store := by simp
  frame := .refl
  closed _ _ := id

theorem close (s : Store) (id : String) {batch : Metadata} (hbatch : OnlyResults batch) :
    Changed (onBead id (closeWith batch)) s (s.updateMetadataAndClose id batch) where
  store := rfl
  frame := frame_onBead (frame_closeWith hbatch)
  closed b _ hclosed := by
    unfold onBead
    split
    · rfl
    · exact hclosed

variable (hids : (s.beads.map Bead.id).Nodup)
include hids

theorem claim (hb : b ∈ s.beads) (hopen : b.status = .opened) :
    Changed (onBead b.id fun b => { b with status := .inProgress }) s
      (s.update b.id fun b => { b with status := .inProgress }) where
  store := rfl
  frame := frame_onBead fun _ => ⟨rfl, fun _ _ => rfl⟩
  closed b' hb' hclosed := by
    unfold onBead
    split
    · next hid =>
      rw [eq_of_id_eq_of_nodup hids hb' hb hid, hopen] at hclosed
      cases hclosed
    · exact hclosed

theorem abort (scopeRef skipControlID : String) (body : Bead) :
    ∃ g, Changed g s (abortScope s scopeRef body skipControlID).1 := by
  obtain ⟨ids, hopened, ⟨-, hmap, -⟩ | ⟨-, hmap⟩⟩ := abortScope_cases hids body
  · exact ⟨_, hmap, frame_abortBead, fun _ hb => abortBead_scope_closed hopened hb⟩
  · exact ⟨_, hmap, frame_skipped ids, fun _ hb => (skipped_spared hopened hb).closed⟩

theorem complete (scopeRef : String) (hbody : body ∈ s.beads) (subject : Bead) :
    Changed (passBead s scopeRef body subject) s (closeScopeAsPassed s scopeRef body subject) where
  store := closeScopeAsPassed_map
  frame := frame_passBead
  closed _ hb hclosed := (passBead_kept hids hbody hb hclosed).1

omit hids

theorem closeOutcome (s : Store) (id outcome : String) :
    ∃ g, Changed g s (s.setOutcomeAndClose id outcome) :=
  ⟨_, close s id (onlyResults_ofList (by simp [isResultKey]))⟩

end Changed

variable {s t : Store}

variable {a : Label} {b c : Bead}

variable (hids : (s.beads.map Bead.id).Nodup)
include hids

theorem changed_scopeCheck (h : processScopeCheck s c = some t) : ∃ g, Changed g s t := by
  obtain ⟨mid, m, body, -, -, hbody, -, hcase⟩ := processScopeCheck_cases h
  have hmem := (resolveScopeBody_mem hbody).1
  rcases hcase with ⟨-, rfl⟩ | ⟨-, rfl⟩
  · obtain ⟨g, hg⟩ := Changed.abort hids c.scopeRef c.id body
    split
    · obtain ⟨g', hg'⟩ := Changed.closeOutcome _ c.id Outcome.pass
      exact ⟨_, hg.trans hg'⟩
    · exact ⟨_, hg⟩
  · unfold completeScopeCheck
    split
    · exact Changed.closeOutcome s c.id Outcome.pass
    · obtain ⟨g, hg⟩ := Changed.closeOutcome (closeScopeAsPassed s c.scopeRef body m) c.id
        Outcome.pass
      exact ⟨_, (Changed.complete hids c.scopeRef hmem m).trans hg⟩

theorem changed_reconcile (b : Bead) : ∃ g, Changed g s (reconcileTerminalScopedMember s b) := by
  unfold reconcileTerminalScopedMember
  split
  · exact ⟨_, .refl s⟩
  · split
    · exact ⟨_, .refl s⟩
    · next body hbody =>
      have hmem := (resolveScopeBody_mem hbody).1
      split
      · exact Changed.abort hids _ _ body
      · split
        · exact ⟨_, .refl s⟩
        · exact ⟨_, .complete hids _ hmem b⟩

theorem changed_settle {result : Result}
    (h : some (reconcileTerminalScopedMember (s.updateMetadataAndClose c.id result.batch)
      (closeWith result.batch c)) = some t) :
    ∃ g, Changed g s t ∧ ∀ b ∈ s.beads, b.id = c.id → (g b).status = .closed := by
  have hclose := Changed.close s c.id (onlyResults_result result)
  have hids' : ((s.updateMetadataAndClose c.id result.batch).beads.map Bead.id).Nodup := by
    rw [hclose.ids]
    exact hids
  obtain rfl := Option.some.inj h
  obtain ⟨g, hg⟩ := changed_reconcile hids' (closeWith result.batch c)
  refine ⟨_, hclose.trans hg, ?_⟩
  intro b hb hid
  apply hg.closed _ (hclose.mem hb)
  rw [onBead, if_pos hid]
  rfl

variable (h : step s a = some t)
include h

theorem step_cases : (∃ g, Changed g s t) ∨
      ∃ c attached, a = .process c.id (.spawn attached) ∧ c ∈ s.beads ∧ s.ready c = true ∧
        Attachable s c attached ∧ t = s.attach attached := by
  cases a with
  | claim id =>
    obtain ⟨b, hmem, rfl, -, hopen, rfl⟩ := step_claim_cases hids h
    exact .inl ⟨_, .claim hids hmem hopen⟩
  | finish id result =>
    obtain ⟨b, -, -, -, -, -, rfl⟩ := step_finish_cases hids h
    exact .inl ⟨_, .close s id (onlyResults_result result)⟩
  | process id verdict =>
    obtain ⟨c, hmem, -, rfl, hready, -, hprocess⟩ := step_process_cases hids h
    unfold processControl at hprocess
    split at hprocess
    · exact .inl (changed_scopeCheck hids hprocess)
    · cases verdict with
      | settle result =>
        obtain ⟨g, hg, -⟩ := changed_settle hids hprocess
        exact .inl ⟨g, hg⟩
      | spawn attached =>
        obtain ⟨hatt, ht⟩ := Option.ite_none_right_eq_some.mp hprocess
        exact .inr ⟨c, attached, rfl, hmem, hready, hatt, (Option.some.inj ht).symm⟩

theorem step_ids : (t.beads.map Bead.id).Nodup := by
  rcases step_cases hids h with ⟨g, hg⟩ | ⟨c, attached, -, -, -, hatt, rfl⟩
  · rw [hg.ids]
    exact hids
  · exact hatt.ids

theorem step_mem (hb : b ∈ s.beads) :
    ∃ b' ∈ t.beads, Frame b b' ∧ (b.status = .closed → b'.status = .closed) := by
  rcases step_cases hids h with ⟨g, hg⟩ | ⟨c, attached, -, -, -, -, rfl⟩
  · exact ⟨g b, hg.mem hb, hg.frame b, hg.closed b hb⟩
  · exact ⟨b, List.mem_append_left _ hb, .refl b, id⟩

theorem step_blocks : s.blocks <+: t.blocks := by
  rcases step_cases hids h with ⟨g, hg⟩ | ⟨c, attached, -, -, -, -, rfl⟩
  · rw [hg.blocks]
  · exact List.prefix_append ..

omit h

omit hids

theorem downDeps_head {id d : String} (h : s.blocks <+: t.blocks)
    (hd : (s.downDeps id).head? = some d) : (t.downDeps id).head? = some d := by
  obtain ⟨more, hmore⟩ := h
  rw [Store.downDeps] at hd ⊢
  rw [← hmore, List.filter_append, List.map_append, List.head?_append, hd]
  rfl

theorem changed_completeScopeCheck (hids : (s.beads.map Bead.id).Nodup) {x body : Bead}
    (hbody : body ∈ s.beads) (subject : Bead) :
    ∃ g, Changed g s (completeScopeCheck s x body subject) ∧
      (∀ b, b.id ≠ x.id → b.id ≠ body.id → g b = b) ∧
      ∀ b, b.id = x.id → (g b).status = .closed ∧ (g b).val .outcome = Outcome.pass := by
  have hclose := Changed.close s x.id
    (onlyResults_ofList (l := [(.outcome, Outcome.pass)]) (by simp [isResultKey]))
  unfold completeScopeCheck
  split
  · refine ⟨_, hclose, fun b hb _ => if_neg hb, fun b hb => ?_⟩
    rw [onBead, if_pos hb]
    exact ⟨rfl, closeOutcome_outcome _ _⟩
  · have hcomplete := Changed.complete hids x.scopeRef hbody subject
    refine ⟨_, hcomplete.trans (.close _ x.id (onlyResults_ofList (by simp [isResultKey]))), ?_, ?_⟩
    · intro b hx hb
      rw [Function.comp_apply, passBead_of_ne hb, onBead, if_neg hx]
    · intro b hb
      rw [Function.comp_apply, onBead, if_pos ((hcomplete.frame b).1.trans hb)]
      exact ⟨rfl, closeOutcome_outcome _ _⟩

end GasCity.Dispatch
