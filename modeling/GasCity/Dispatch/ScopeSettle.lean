import GasCity.Dispatch.ScopeInvariant

/-! # Scope bodies settle

The beads of a compiled workflow satisfy the invariant.  A scope body then passes
only over settled members, and keeps its outcome, along every run that does not
reconcile a failure into a scope that has passed.
-/

namespace GasCity.Dispatch

open List

open Formula

theorem Settling.step {s t : Store} {a : Label} (h : Settling ∅ s)
    (hstep : Dispatch.step s a = some t) (hsound : Sound s a) :
    Settling ∅ t ∧ ScopesSettled s t := by
  cases a with
  | claim id => exact h.claim hstep
  | finish id result => exact h.finish hstep
  | process id verdict =>
    obtain ⟨c, hmem, hget, -, hready, hcontrol, hprocess⟩ := step_process_cases h.ids hstep
    have hopen : c.status = .opened := by
      simp only [Store.ready, Bool.and_eq_true, decide_eq_true_eq] at hready
      exact hready.1
    have hsound' := hsound c hget
    unfold processControl at hprocess
    split at hprocess
    · next hkind =>
      rw [settlementStore_scopeCheck hkind] at hsound'
      exact h.scopeCheck hmem hkind hsound' hprocess
    · next hkind =>
      cases verdict with
      | settle result =>
        obtain rfl := Option.some.inj hprocess
        exact h.settle hmem hcontrol hkind hopen hsound'
      | spawn attached =>
        obtain ⟨hatt, ht⟩ := Option.ite_none_right_eq_some.mp hprocess
        cases ht
        exact ⟨h.attach hatt hmem hopen, scopesSettled_attach hatt h⟩

theorem Settling.run {s t : Store} {as : List Label} (h : Settling ∅ s)
    (hrun : Run (fun s a t => StepOf Dispatch.step s a t ∧ Sound s a) s as t) : Settling ∅ t :=
  hrun.invariant (Settling ∅) (fun _ _ _ hs hstep => (hs.step hstep.1 hstep.2).1) h

def workflowBy (creation : Creation) (ids : String ↪ String) (name : String)
    (steps : Forest Step) : Store :=
  instantiateBy ids creation (toRecipe name (applyGraphControls steps true))

abbrev workflow (ids : String ↪ String) (name : String) (steps : Forest Step) : Store :=
  workflowBy .graphApply ids name steps

section Compiled

variable {creation : Creation} {ids : String ↪ String} {name : String} {steps : Forest Step}

theorem compiled_watched (hfresh : FreshControls steps.flatten) {x : Step}
    (hx : x ∈ (applyGraphControls steps true).flatten) (href : x.metadata.val .scopeRef ≠ "")
    (hrole : x.metadata.val .scopeRole ≠ ScopeRole.teardown) :
    isScopeCheckExemptKind x.kind = true ∨
      ∃ c ∈ (applyGraphControls steps true).flatten, c.kind = Kind.scopeCheck ∧
        c.metadata.val .scopeRole = ScopeRole.control ∧
        c.metadata.val .scopeRef = x.metadata.val .scopeRef ∧ c.deps = [x.id] ∧
        c.drain = false := by
  have hperm := applyGraphControls_perm hfresh
  rw [hperm.mem_iff, mem_append] at hx
  rcases hx with hx | hx
  · rcases mem_spliced.mp hx with ⟨s, hs, rfl⟩ | hcontrol
    · by_cases hexempt : isScopeCheckExemptKind (markOutputRequired s).kind = true
      · exact .inl hexempt
      · right
        have hneeds : needsScopeCheck (markOutputRequired s) := by
          rw [Bool.not_eq_true] at hexempt
          simp only [needsScopeCheck, Bool.and_eq_true, bne_iff_ne, Bool.not_eq_true']
          exact ⟨⟨href, hrole⟩, hexempt⟩
        have hmem : scopeCheckControl (markOutputRequired s) ∈
            (applyGraphControls steps true).flatten := by
          rw [hperm.mem_iff, mem_append]
          exact .inl (mem_spliced.mpr (.inr (mem_controls.mpr
            ⟨_, mem_map_of_mem hs, .inr ⟨hneeds, rfl⟩⟩)))
        refine ⟨_, hmem, scopeCheckControl_kind _, ?_, ?_, rfl, rfl⟩
        · rw [scopeCheckControl, Table.val_copyNonempty_of_notMem (by decide)]
          rfl
        · rw [scopeCheckControl, Table.val_copyNonempty_of_notMem (by decide)]
          rfl
    · left
      rcases kind_of_mem_controls hcontrol with hkind | hkind <;> rw [hkind] <;> decide
  · left
    unfold finalizer at hx
    split at hx
    · cases hx
    · rw [mem_singleton.mp hx]
      rfl

theorem compiled_ids_nodup (hfresh : FreshControls steps.flatten) :
    ((applyGraphControls steps true).flatten.map Step.id).Nodup := by
  have hperm := (applyGraphControls_perm hfresh).map Step.id
  rw [hperm.nodup_iff, map_append]
  refine List.Nodup.sublist (List.Sublist.append_left ?_ _) (spliced_ids_nodup hfresh)
  unfold finalizer
  split
  · exact nil_sublist _
  · exact .refl _

variable (creation ids name steps) in
abbrev issueBead (issue : String × Step) : Bead :=
  makeBead ids creation (toRecipe name (applyGraphControls steps true)).steps (recipeStep issue)

theorem issueBead_val (issue : String × Step) {k : MetaKey} (hk : k ∉ .kind :: stampedKeys) :
    (issueBead creation ids name steps issue).val k = issue.2.metadata.val k := by
  rw [mem_cons, not_or] at hk
  rw [issueBead, makeBead, stepToBead_val hk.2, recipeStep, drainMetadata]
  split
  · exact Table.val_set_of_ne hk.1
  · rfl

theorem issueBead_kind (issue : String × Step) :
    (issueBead creation ids name steps issue).kind =
      if issue.2.drain then Kind.drain else issue.2.kind := by
  rw [Bead.kind, issueBead, makeBead, stepToBead_val (by decide), recipeStep, drainMetadata]
  split
  · exact Table.val_set_self
  · rfl

theorem workflow_beads : (workflowBy creation ids name steps).beads =
    (issues name (applyGraphControls steps true)).map (issueBead creation ids name steps) := by
  simp [workflowBy, instantiateBy, toRecipe, issueBead]

theorem workflow_ids : (workflowBy creation ids name steps).beads.map Bead.id =
    ((issues name (applyGraphControls steps true)).map Prod.fst).map ids := by
  rw [workflow_beads, map_map, map_map]
  rfl

theorem workflow_opened : ∀ b ∈ (workflowBy creation ids name steps).beads,
    b.status = .opened := by
  intro b hb
  rw [workflow_beads] at hb
  obtain ⟨_, _, rfl⟩ := mem_map.mp hb
  rfl

variable (hfresh : FreshControls steps.flatten)
  (hissues : ((issues name (applyGraphControls steps true)).map Prod.fst).Nodup)
include hfresh

theorem workflow_blocks {dep : String × String}
    (hdep : dep ∈ (workflowBy creation ids name steps).blocks) :
    dep.1 ∈ (workflowBy creation ids name steps).beads.map Bead.id ∧
      dep.2 ∈ (workflowBy creation ids name steps).beads.map Bead.id := by
  obtain ⟨recipeDep, hrecipe, rfl⟩ := mem_map.mp hdep
  obtain ⟨issue, hissue, hrecipe⟩ := mem_flatMap.mp hrecipe
  obtain ⟨target, htarget, rfl⟩ := mem_map.mp hrecipe
  obtain ⟨_, _, hmap⟩ := mem_filterMap.mp htarget
  obtain ⟨s, hs, _⟩ := (idMapping_eq_some (compiled_ids_nodup hfresh)).mp hmap
  rw [workflow_ids]
  exact ⟨mem_map_of_mem (mem_map_of_mem hissue), mem_map_of_mem (mem_map_of_mem hs)⟩

include hissues

/-- A step that needs one other step alone waits for its bead. -/
theorem workflow_downDeps {id cid : String} {x c : Step}
    (hx : (id, x) ∈ issues name (applyGraphControls steps true))
    (hc : (cid, c) ∈ issues name (applyGraphControls steps true)) (hdeps : c.deps = [x.id]) :
    (workflowBy creation ids name steps).downDeps (ids cid) = [ids id] := by
  have htarget : idMapping (issues name (applyGraphControls steps true)) x.id = some id :=
    (idMapping_eq_some (compiled_ids_nodup hfresh)).mpr ⟨x, hx, rfl⟩
  have hfilter := filter_issueDeps (issues name (applyGraphControls steps true)) hissues hc
  rw [issueDeps, hdeps, filterMap_cons_some htarget] at hfilter
  simp only [Store.downDeps, workflowBy, instantiateBy, toRecipe, filter_map, Function.comp_def,
    ids.injective.eq_iff, hfilter]
  rfl

theorem workflow_watched : Watched (workflowBy creation ids name steps) := by
  intro m hm href hrole
  rw [workflow_beads] at hm
  obtain ⟨⟨id, x⟩, hissue, rfl⟩ := mem_map.mp hm
  rw [Bead.scopeRef, issueBead_val _ (by decide)] at href
  rw [Bead.scopeRole, issueBead_val _ (by decide)] at hrole
  rw [issueBead_kind]
  split
  · exact .inl (by decide)
  · rcases compiled_watched hfresh (mem_of_mem_issues hissue) href hrole with
      hexempt | ⟨c, hc, hckind, hcrole, hcref, hcdeps, hcdrain⟩
    · exact .inl hexempt
    · obtain ⟨cid, hcissue⟩ := exists_issue name hc
      refine .inr ⟨issueBead creation ids name steps (cid, c), ?_, ?_⟩
      · rw [workflow_beads]
        exact mem_map_of_mem hcissue
      · rw [isScopeCheckOf_iff, Bead.scopeRole, Bead.scopeRef, Bead.scopeRef,
          issueBead_val _ (by decide), issueBead_val _ (by decide), issueBead_val _ (by decide),
          issueBead_kind, hcdrain]
        have hdeps : (workflowBy creation ids name steps).downDeps (ids cid) = [ids id] :=
          workflow_downDeps hfresh hissues hissue hcissue hcdeps
        exact ⟨⟨⟨hckind, hcrole⟩, hcref⟩, congrArg head? hdeps⟩

theorem workflow_settling : Settling ∅ (workflowBy creation ids name steps) := by
  have hnotClosed : ∀ b ∈ (workflowBy creation ids name steps).beads, b.status ≠ .closed := by
    intro b hb hclosed
    rw [workflow_opened b hb] at hclosed
    cases hclosed
  constructor
  · rw [workflow_ids]
    exact hissues.map ids.injective
  · exact fun dep hdep => (workflow_blocks hfresh hdep).1
  · exact fun dep hdep => (workflow_blocks hfresh hdep).2
  · exact workflow_watched hfresh hissues
  · intro b hb _ hstatus
    rw [workflow_opened b hb] at hstatus
    cases hstatus
  · exact fun b hb _ _ hclosed => absurd hclosed (hnotClosed b hb)
  · exact fun c hc _ _ hclosed => absurd hclosed (hnotClosed c hc)

end Compiled

/-- Scope bodies settle once and correctly along every run of sound steps: a body passes only over
settled members, and its outcome stays. -/
theorem scopeBodies_settle {creation : Creation} {ids : String ↪ String} {name : String}
    {steps : Forest Step}
    (hfresh : FreshControls steps.flatten)
    (hissues : ((issues name (applyGraphControls steps true)).map Prod.fst).Nodup)
    {as : List Label} {s t : Store} {a : Label}
    (hrun : Run (fun s a t => StepOf step s a t ∧ Sound s a)
      (workflowBy creation ids name steps) as s)
    (hstep : step s a = some t) (hsound : Sound s a) : ScopesSettled s t :=
  (((workflow_settling hfresh hissues).run hrun).step hstep hsound).2

/-- The scope of the specification's own example, with a retry-managed teardown step. -/
def worktree : Forest Step :=
  applyAttempts <| .ofList [
    { id := "body", title := "Worktree scope", needs := ["implement"]
      metadata := .ofList [(.kind, Kind.scope), (.scopeName, "worktree"),
        (.scopeRole, ScopeRole.body)] },
    { id := "implement", title := "Implement the change"
      metadata := .ofList [(.scopeRef, "body"), (.scopeRole, ScopeRole.member),
        (.onFail, "abort_scope")] },
    { id := "cleanup", title := "Tear down the worktree", needs := ["body"]
      retry := some { maxAttempts := 1 }
      metadata := .ofList [(.kind, "cleanup"), (.scopeRef, "body"),
        (.scopeRole, ScopeRole.teardown)] }]

def worktreeStart : Store := workflow (.refl String) "mol" worktree

def implemented : List Label := [.finish "mol.implement" { outcome := Outcome.pass }]

def tornDown : List Label :=
  implemented ++ [.process "mol.implement-scope-check" (.settle {}),
    .finish "mol.cleanup.attempt.1" { outcome := Outcome.fail }]

def worktreeAfter (as : List Label) : Store := (exec step worktreeStart as).getD {}

/-- The scope check of the finished member passes the scope. -/
theorem scopeBodies_settle_worktree :
    Run (fun s a t => StepOf step s a t ∧ Sound s a) worktreeStart implemented
        (worktreeAfter implemented) ∧
      ∃ t, step (worktreeAfter implemented) (.process "mol.implement-scope-check" (.settle {})) =
          some t ∧ ScopesSettled (worktreeAfter implemented) t := by
  have hrun : Run (fun s a t => StepOf step s a t ∧ Sound s a) worktreeStart implemented
      (worktreeAfter implemented) := run_of_exec_guarded (by decide +kernel)
  have hsome : (step (worktreeAfter implemented)
      (.process "mol.implement-scope-check" (.settle {}))).isSome := by decide +kernel
  obtain ⟨t, ht⟩ := Option.isSome_iff_exists.mp hsome
  exact ⟨hrun, t, ht, scopeBodies_settle (by decide +kernel) (by decide +kernel) hrun ht
    (by decide +kernel)⟩

/-- The teardown step fails after the scope has passed, and the scope body fails with it. -/
theorem tornDown_not_settled : Run (StepOf step) worktreeStart tornDown (worktreeAfter tornDown) ∧
      ∃ t, step (worktreeAfter tornDown) (.process "mol.cleanup" (.settle { outcome := "fail" })) =
          some t ∧ ¬ ScopesSettled (worktreeAfter tornDown) t := by
  refine ⟨run_of_exec (by decide +kernel), worktreeAfter (tornDown ++
    [.process "mol.cleanup" (.settle { outcome := "fail" })]), by decide +kernel, ?_⟩
  intro h
  have hchanged : ∃ b₀ ∈ (worktreeAfter tornDown).beads, b₀.kind = Kind.scope ∧
      b₀.status = .closed ∧ ∃ b ∈ (worktreeAfter (tornDown ++
        [.process "mol.cleanup" (.settle { outcome := "fail" })])).beads, b.id = b₀.id ∧
        b.val .outcome ≠ b₀.val .outcome := by decide +kernel
  obtain ⟨b₀, hb₀, hkind, hclosed, b, hb, hid, hne⟩ := hchanged
  exact hne (h.kept b₀ hb₀ hkind hclosed b hb hid)

end GasCity.Dispatch
