import GasCity.Dispatch.AttemptControl
import GasCity.Dispatch.StepCases

/-! # The budget of a retry control

Along a run in which every attempt fails transiently, the greatest attempt number
grows by one with each attempt that the control spawns.
-/

namespace GasCity.Dispatch

open List Kind

open Formula

section Attempts

variable {control c b b' : Bead} {s : Store}

theorem Frame.isAttemptOf (h : Frame b b') (control : Bead) :
    Dispatch.isAttemptOf control b' = Dispatch.isAttemptOf control b := by
  simp only [Dispatch.isAttemptOf, isFailedPartialMolecule, h.kind, h.2 .moleculeFailed rfl,
    h.2 .controlFor rfl]

theorem Frame.attemptNum (h : Frame b b') : Dispatch.attemptNum b' = Dispatch.attemptNum b := by
  simp only [Dispatch.attemptNum, h.2 .attempt rfl]

theorem Frame.attemptCandidates (h : Frame control c) :
    Dispatch.attemptCandidates c = Dispatch.attemptCandidates control := by
  have hidentity : controlIdentitySet c = controlIdentitySet control := by
    simp only [controlIdentitySet, h.1, h.2 .stepRef rfl, h.2 .stepID rfl]
  funext beads
  simp only [Dispatch.attemptCandidates, Dispatch.isAttemptOf, hidentity]

theorem mem_attemptCandidates {beads : List Bead} :
    b ∈ attemptCandidates control beads ↔
      b ∈ beads ∧ isAttemptOf control b = true ∧ 0 < attemptNum b := by
  simp [attemptCandidates]

theorem attemptCandidates_map {g : Bead → Bead} (hg : ∀ b, Frame b (g b)) (beads : List Bead) :
    attemptCandidates control (beads.map g) = (attemptCandidates control beads).map g := by
  rw [attemptCandidates, filter_map, attemptCandidates]
  refine congrArg (map g) (filter_congr ?_)
  intro b _
  simp only [Function.comp_apply, (hg b).isAttemptOf, (hg b).attemptNum]

theorem attemptCandidates_append (beads beads' : List Bead) :
    attemptCandidates control (beads ++ beads') =
      attemptCandidates control beads ++ attemptCandidates control beads' :=
  filter_append ..

theorem exists_latestAttempt {beads : List Bead} (h : b ∈ attemptCandidates control beads) :
    ∃ a, latestAttempt control beads = some a := by
  rw [← Option.isSome_iff_exists, Option.isSome_iff_ne_none, latestAttempt, Ne, argmax_eq_none]
  exact ne_nil_of_mem h

theorem frame_of_present (hids : (s.beads.map Bead.id).Nodup) (h : ∃ c ∈ s.beads, Frame control c)
    (hb : b ∈ s.beads) (hid : b.id = control.id) : Frame control b := by
  obtain ⟨c, hc, hframe⟩ := h
  rwa [eq_of_id_eq_of_nodup hids hb hc (hid.trans hframe.1.symm)]

theorem id_ne_of_work (hids : (s.beads.map Bead.id).Nodup) (hb : b ∈ s.beads)
    (hwork : isWork b = true) (hc : c ∈ s.beads) (hcontrol : isControlKind c.kind = true) :
    c.id ≠ b.id := by
  intro hid
  rw [eq_of_id_eq_of_nodup hids hc hb hid, (isWork_iff.mp hwork).1] at hcontrol
  cases hcontrol

theorem mem_downDeps {id d : String} : d ∈ s.downDeps id ↔ (id, d) ∈ s.blocks := by
  simp [Store.downDeps]

theorem ready_iff : s.ready c = true ↔ c.status = .opened ∧
    ∀ d, (c.id, d) ∈ s.blocks → ∃ b, s.get d = some b ∧ b.status = .closed := by
  simp [Store.ready, Option.any_eq_true, mem_downDeps]

end Attempts

section Spawned

/-- The root of an attempt of a retry. -/
abbrev retryRoot (r : Step) (c : Bead) (n : ℕ) : RecipeStep := attemptRootStep r false c n

variable {r : Step} {c : Bead} {n : ℕ} (ids : String ↪ String)

theorem attemptRootStep_val {k : MetaKey} {v : String}
    (h : (k, v) ∈ [(MetaKey.kind, task), (.attempt, toString n),
      (.stepID, controlStepID c), (.stepRef, attemptPrefix r c n), (.controlFor, c.id)]) :
    (retryRoot r c n).metadata.val k = v := by
  have hk : k ≠ .outputJSONRequired := by
    rintro rfl
    simp at h
  rw [retryRoot, attemptRootStep]
  rw [val_withMetadata_of_notMem (by simp), withOutputRequired_val _ _ hk]
  exact val_withMetadata_of_mem (by simp) h

theorem attemptRootStep_authored {k : MetaKey}
    (h : k ∉ [.kind, .attempt, .stepID, .stepRef, .controlFor, MetaKey.outputJSONRequired]) :
    (retryRoot r c n).metadata.val k = r.metadata.val k := by
  simp only [mem_cons, not_mem_nil, or_false, not_or] at h
  rw [retryRoot, attemptRootStep]
  rw [val_withMetadata_of_notMem (by simp), withOutputRequired_val _ _ h.2.2.2.2.2,
    val_withMetadata_of_notMem (by simp [h])]

theorem scopeChecked_singleton (step : RecipeStep) :
    scopeChecked [step] = if attemptRecipeStepNeedsScopeCheck step then [step] else [] := by
  have hne : ¬ step.id ++ "-scope-check" = step.id := by
    intro h
    have hlength := congrArg String.length h
    simp at hlength
  by_cases hneeds : attemptRecipeStepNeedsScopeCheck step = true <;>
    simp [scopeChecked, hneeds, hne]

theorem attemptScopeCheck_kind (step : RecipeStep) :
    (attemptScopeCheck step).metadata.val .kind = Kind.scopeCheck := by
  rw [attemptScopeCheck, Table.val_copyNonempty_of_notMem (by decide)]
  rfl

theorem kind_attemptScopeCheck (logical : String → Option String) (step : RecipeStep) :
    (stepToBead ids logical (attemptScopeCheck step)).kind = Kind.scopeCheck :=
  (stepToBead_val (by decide)).trans (attemptScopeCheck_kind step)

/-- The beads of an attempt of a retry: its root, and the scope check of a root with a scope. -/
theorem spawnNextAttempt_eq (hralph : r.ralph = none) : ∃ logical,
    spawnNextAttempt ids r .nil c n =
      if attemptRecipeStepNeedsScopeCheck (retryRoot r c n) then
        { beads := [stepToBead ids logical (retryRoot r c n),
            stepToBead ids logical (attemptScopeCheck (retryRoot r c n))]
          blocks := [(ids (attemptScopeCheck (retryRoot r c n)).id,
            ids (attemptPrefix r c n)), (c.id, ids (attemptPrefix r c n))] }
      else
        { beads := [stepToBead ids logical (retryRoot r c n)]
          blocks := [(c.id, ids (attemptPrefix r c n))] } := by
  have hrecipe : buildAttemptRecipe r .nil c n = applyAttemptRecipeScopeChecks
      { steps := [retryRoot r c n], deps := [] } := by
    simp [buildAttemptRecipe, assembleAttempt, attemptParts, appendRecipe, isScopedAttempt, hralph,
      Forest.roots]
  have hspec : ∀ logical, ∀ step : RecipeStep, step.metadata.val .kind ≠ spec →
      closeSpec (stepToBead ids logical step) = stepToBead ids logical step := by
    intro logical step hkind
    rw [closeSpec, if_neg]
    rwa [Bead.kind, stepToBead_val (by decide)]
  have hroot : (retryRoot r c n).metadata.val .kind ≠ spec := by
    rw [attemptRootStep_val (mem_cons_self ..)]
    decide
  have hcheck : (attemptScopeCheck (retryRoot r c n)).metadata.val .kind ≠ spec := by
    rw [attemptScopeCheck_kind]
    decide
  have hid : (retryRoot r c n).id = attemptPrefix r c n := rfl
  rw [spawnNextAttempt, hrecipe, applyAttemptRecipeScopeChecks, scopeChecked_singleton]
  split
  · simp only [instantiateBy, makeBead, Creation.known, map_cons, map_nil, cons_append, nil_append,
      hspec _ _ hroot, hspec _ _ hcheck, hid]
    exact ⟨_, rfl⟩
  · simp only [instantiateBy, makeBead, Creation.known, map_cons, map_nil, append_nil, nil_append,
      hspec _ _ hroot, hid]
    exact ⟨_, rfl⟩

theorem attemptCandidates_spawned {control : Bead} (hralph : r.ralph = none)
    (hmolecule : trimSpace (r.metadata.val .moleculeFailed) ≠ "true")
    (hnamed : trimSpace control.id ≠ "") (hid : c.id = control.id) (hn : 0 < n) :
    ∃ root : Bead, attemptCandidates control (spawnNextAttempt ids r .nil c n).beads = [root] ∧
      attemptNum root = n ∧ root.status = .opened ∧ root.id = ids (attemptPrefix r c n) ∧
      isWork root = true := by
  obtain ⟨logical, hspawn⟩ := spawnNextAttempt_eq ids hralph
  have hval : ∀ {k : MetaKey} {v : String} (_ : k ∉ stampedKeys),
      (retryRoot r c n).metadata.val k = v →
      (stepToBead ids logical (retryRoot r c n)).val k = v := by
    intro k v hk h
    rw [stepToBead_val hk, h]
  have hkind : (stepToBead ids logical (retryRoot r c n)).kind = task :=
    hval (by decide) (attemptRootStep_val (by simp))
  have hnum : attemptNum (stepToBead ids logical (retryRoot r c n)) = n := by
    rw [attemptNum, hval (by decide) (attemptRootStep_val (by simp) : _ = toString n),
      atoi_toString]
    rfl
  have hattempt : isAttemptOf control (stepToBead ids logical (retryRoot r c n)) := by
    have hcontrol : (stepToBead ids logical (retryRoot r c n)).val .controlFor = c.id :=
      hval (by decide) (attemptRootStep_val (by simp))
    have hfailed : (stepToBead ids logical (retryRoot r c n)).val .moleculeFailed =
        r.metadata.val .moleculeFailed :=
      hval (by decide) (attemptRootStep_authored (by decide))
    have htask : isControlInfrastructure task = false := by decide
    simp [isAttemptOf, isFailedPartialMolecule, hfailed, hmolecule, hkind, htask, hcontrol, hid,
      controlIdentitySet, hnamed]
  have hcheck : isAttemptOf control
      (stepToBead ids logical (attemptScopeCheck (retryRoot r c n))) = false := by
    have hinfra : isControlInfrastructure Kind.scopeCheck = true := by decide
    simp [isAttemptOf, kind_attemptScopeCheck, hinfra]
  refine ⟨_, ?_, hnum, rfl, rfl, ?_⟩
  · rw [hspawn]
    split <;> simp [attemptCandidates, hattempt, hcheck, hnum, hn]
  · rw [isWork, hkind]
    decide

end Spawned

def FailedTransiently (b : Bead) : Prop :=
  trimSpace (b.val .outcome) = Outcome.fail ∧ trimSpace (b.val .failureClass) = "transient"

theorem FailedTransiently.classify {b : Bead} (h : FailedTransiently b)
    (jsonValid : String → Bool) : classifyRetryAttempt jsonValid b =
      some { disposition := .more, reason := retryFailureReason b } := by
  have hne : Outcome.fail ≠ Outcome.pass := by decide
  simp [classifyRetryAttempt, h.1, h.2, hne]

section Retry

variable (jsonValid : String → Bool) (r : Step) (control check : Bead)

/-- The control decides as `processAttemptControl` does on its stored spec `r`. -/
def Governed (s : Store) : Label → Prop
  | .process id verdict => id = control.id →
      ∃ ids artifacts c, s.get id = some c ∧
        processAttemptControl (retryStrategy jsonValid artifacts c) ids r .nil s c = some verdict
  | _ => True

/-- Attempts close with transient failures.  Only the control and the scope check of its first
attempt touch the attempts, the control or the check, and the check ends without an error. -/
def AllTransient (s : Store) (a : Label) (t : Store) : Prop :=
  match a with
  | .claim _ => True
  | .finish id result => ∀ b, s.get id = some b → isAttemptOf control b →
      FailedTransiently (closeWith result.batch b)
  | .process id _ => id = control.id ∨
      (id = check.id ∧ ∃ x, t.get check.id = some x ∧ x.status = .closed ∧
        x.val .outcome = Outcome.pass) ∨
      attemptCandidates control t.beads = attemptCandidates control s.beads ∧
        t.get control.id = s.get control.id ∧ t.get check.id = s.get check.id

def spawns (id : String) : Label → Bool
  | .process id' (.spawn _) => id' = id
  | _ => false

/-- The attempts of the control along a run: the first one and those it spawned. -/
def attemptsRun (id : String) (as : List Label) : ℕ :=
  1 + as.countP (spawns id)

abbrev GovernedRun : Store → List Label → Store → Prop :=
  Run fun s a t => StepOf step s a t ∧ Governed jsonValid r control s a

abbrev TransientRun : Store → List Label → Store → Prop :=
  Run fun s a t => (StepOf step s a t ∧ Governed jsonValid r control s a) ∧
    AllTransient control check s a t

/-- The retry control uses exactly its budget of `m` attempts. -/
structure BudgetKept (m : ℕ) (start : Store) : Prop where
  /-- Whenever the control is processed, it spawns an attempt while fewer than `m` have run, and
  then exhausts. -/
  exact : ∀ as s, TransientRun jsonValid r control check start as s →
    ∀ c, s.get control.id = some c → s.ready c = true → ∀ ids artifacts, ∃ verdict,
      processAttemptControl (retryStrategy jsonValid artifacts c) ids r .nil s c = some verdict ∧
      if attemptsRun control.id as < m then ∃ attached, verdict = .spawn attached
      else ∃ reason, verdict = .settle (handleRetryExhaustion (c.val .onExhausted) reason)
  /-- All `m` attempts can run before the control is processed for the last time. -/
  reached : ∃ as s c, TransientRun jsonValid r control check start as s ∧
    s.get control.id = some c ∧ s.ready c = true ∧ attemptsRun control.id as = m
  /-- Whatever the outcomes, no more than `m` attempts run. -/
  bounded : ∀ as s, GovernedRun jsonValid r control start as s → attemptsRun control.id as ≤ m

/-- The control belongs to the retry step `r` with a budget of `m` attempts. -/
structure ControlOf (m : ℕ) : Prop where
  ralph : r.ralph = none
  molecule : trimSpace (r.metadata.val .moleculeFailed) ≠ "true"
  named : trimSpace control.id ≠ ""
  kind : control.kind = retry
  max : control.val .maxAttempts = toString m
  positive : 1 ≤ m

/-- The control waits for the check of its first attempt. -/
structure Standing (first : Bead) (s : Store) : Prop where
  ids : (s.beads.map Bead.id).Nodup
  present : ∃ c ∈ s.beads, Frame control c
  checks : ∃ x ∈ s.beads, Frame check x
  subject : ∃ a ∈ s.beads, Frame first a
  waits : (control.id, check.id) ∈ s.blocks
  guards : (s.downDeps check.id).head? = some first.id

/-- The control is still at work on its `n`-th attempt, and the greatest attempt number was `L` at
the start. -/
structure Counting (first : Bead) (L : ℤ) (m : ℕ) (s : Store) (n : ℕ) : Prop
    extends Standing control check first s where
  closed : ∀ b ∈ attemptCandidates control s.beads, b.status = .closed → FailedTransiently b
  opened : ∀ b ∈ attemptCandidates control s.beads, b.status ≠ .closed →
    (control.id, b.id) ∈ s.blocks ∨
      b.id = first.id ∧ ∃ x ∈ s.beads, x.id = check.id ∧ x.status ≠ .closed
  scopes : ∀ b ∈ attemptCandidates control s.beads, b.kind ≠ scope
  top : ∃ b ∈ attemptCandidates control s.beads, attemptNum b = L + n - 1
  bound : ∀ b ∈ attemptCandidates control s.beads, attemptNum b ≤ L + n - 1
  budget : n = 1 ∨ L + n - 1 ≤ m

variable {jsonValid r control check} {first : Bead} {L : ℤ} {m n : ℕ} {s t : Store}

theorem Standing.keep (h : Standing control check first s) (hids : (t.beads.map Bead.id).Nodup)
    (hmem : ∀ b ∈ s.beads, ∃ b' ∈ t.beads, Frame b b') (hblocks : s.blocks <+: t.blocks) :
    Standing control check first t := by
  have hsurvives : ∀ {b}, (∃ b' ∈ s.beads, Frame b b') → ∃ b' ∈ t.beads, Frame b b' := by
    rintro b ⟨b', hb', hframe⟩
    obtain ⟨b'', hb'', hframe'⟩ := hmem b' hb'
    exact ⟨b'', hb'', hframe.trans hframe'⟩
  exact ⟨hids, hsurvives h.present, hsurvives h.checks, hsurvives h.subject,
    hblocks.subset h.waits, downDeps_head hblocks h.guards⟩

theorem Standing.changed (h : Standing control check first s) {g : Bead → Bead}
    (hg : Changed g s t) : Standing control check first t := by
  refine h.keep (hg.ids ▸ h.ids) (fun b hb => ⟨g b, hg.mem hb, hg.frame b⟩) ?_
  rw [hg.blocks]

theorem Standing.step (h : Standing control check first s) {a : Label}
    (hstep : Dispatch.step s a = some t) : Standing control check first t := by
  refine h.keep (step_ids h.ids hstep) (fun b hb => ?_) (step_blocks h.ids hstep)
  obtain ⟨b', hb', hframe, -⟩ := step_mem h.ids hstep hb
  exact ⟨b', hb', hframe⟩

/-- A change that closes attempts only with transient failures, and the check only after the first
attempt. -/
theorem Counting.changed (h : Counting control check first L m s n) {g : Bead → Bead}
    (hg : Changed g s t)
    (hclosed : ∀ b ∈ attemptCandidates control s.beads, (g b).status = .closed →
      FailedTransiently (g b))
    (hcheck : ∀ x ∈ s.beads, x.id = check.id → (g x).status = .closed → x.status = .closed ∨
      ∀ b ∈ attemptCandidates control s.beads, b.id = first.id → b.status = .closed) :
    Counting control check first L m t n := by
  have hcandidates : attemptCandidates control t.beads =
      (attemptCandidates control s.beads).map g := by
    rw [hg.store]
    exact attemptCandidates_map hg.frame _
  constructor
  case toStanding => exact h.toStanding.changed hg
  case closed => rwa [hcandidates, forall_mem_map]
  case opened =>
    rw [hcandidates, forall_mem_map]
    intro b hb hopen
    have hbopen : b.status ≠ .closed := fun hb' =>
      hopen (hg.closed b (mem_attemptCandidates.mp hb).1 hb')
    rw [hg.blocks, (hg.frame b).1]
    rcases h.opened b hb hbopen with hblock | ⟨hid, x, hx, hxid, hxopen⟩
    · exact .inl hblock
    · refine .inr ⟨hid, g x, hg.mem hx, (hg.frame x).1.trans hxid, ?_⟩
      intro hxclosed
      rcases hcheck x hx hxid hxclosed with hx' | hfirst
      · exact hxopen hx'
      · exact hbopen (hfirst b hb hid)
  case scopes =>
    rw [hcandidates, forall_mem_map]
    intro b hb
    rw [(hg.frame b).kind]
    exact h.scopes b hb
  case top =>
    obtain ⟨b, hb, hnum⟩ := h.top
    rw [hcandidates]
    exact ⟨g b, mem_map_of_mem hb, (hg.frame b).attemptNum.trans hnum⟩
  case bound =>
    rw [hcandidates, forall_mem_map]
    intro b hb
    rw [(hg.frame b).attemptNum]
    exact h.bound b hb
  case budget => exact h.budget

variable {a : Label} {as : List Label} {attached : Store} {b c : Bead} {ids : String ↪ String}

variable (h : Counting control check first L m s n)
include h

theorem Counting.all_closed (hid : c.id = control.id) (hready : s.ready c = true)
    (hb : b ∈ attemptCandidates control s.beads) : b.status = .closed := by
  have hblocked : ∀ {x : Bead}, x ∈ s.beads → (control.id, x.id) ∈ s.blocks →
      x.status = .closed := by
    intro x hx hblock
    rw [← hid] at hblock
    obtain ⟨x', hx', hclosed⟩ := (ready_iff.mp hready).2 x.id hblock
    obtain ⟨hmem, hxid⟩ := (Store.get_eq_some h.ids).mp hx'
    rwa [eq_of_id_eq_of_nodup h.ids hmem hx hxid] at hclosed
  by_contra hopen
  rcases h.opened b hb hopen with hblock | ⟨-, x, hx, hxid, hxopen⟩
  · exact hopen (hblocked (mem_attemptCandidates.mp hb).1 hblock)
  · exact hxopen (hblocked hx (hxid ▸ h.waits))

theorem Counting.verdict (hr : ControlOf r control m)
    (hget : s.get control.id = some c) (hready : s.ready c = true)
    (jsonValid : String → Bool) (ids : String ↪ String) (artifacts : String) :
    ∃ reason, processAttemptControl (retryStrategy jsonValid artifacts c) ids r .nil s c =
      some (if (m : ℤ) ≤ L + n - 1 then
          .settle (handleRetryExhaustion (c.val .onExhausted) reason)
        else .spawn (spawnNextAttempt ids r .nil c (L + n).toNat)) := by
  obtain ⟨hmem, hid⟩ := (Store.get_eq_some h.ids).mp hget
  have hframe := frame_of_present h.ids h.present hmem hid
  have hcandidates := hframe.attemptCandidates
  obtain ⟨top, htop, htopNum⟩ := h.top
  rw [← hcandidates] at htop
  obtain ⟨a, ha⟩ := exists_latestAttempt htop
  have hmemA : a ∈ attemptCandidates control s.beads := by
    rw [← hcandidates]
    exact argmax_mem ha
  have hnum : attemptNum a = L + n - 1 := by
    apply le_antisymm (h.bound a hmemA)
    rw [← htopNum]
    exact le_of_mem_argmax htop ha
  have hclosed : a.status = .closed := h.all_closed hid hready hmemA
  have hmax : atoi (c.val .maxAttempts) = some (m : ℤ) := by
    rw [hframe.2 .maxAttempts rfl, hr.max, atoi_toString]
  have hpost : classifyRetryAttemptWithPostconditions jsonValid artifacts a =
      some { disposition := .more, reason := retryFailureReason a } := by
    rw [classifyRetryAttemptWithPostconditions, (h.closed a hmemA hclosed).classify]
    rfl
  have hpositive : ¬ ((m : ℤ) < 1 ∨ a.status ≠ .closed) := by
    have := hr.positive
    simp only [hclosed, ne_eq, not_true_eq_false, or_false]
    omega
  have hnext : L + (n : ℤ) - 1 + 1 = L + n := by omega
  refine ⟨retryFailureReason a, ?_⟩
  rw [processAttemptControl, hmax, ha]
  simp only [Option.bind_eq_bind, Option.bind_some]
  rw [if_neg hpositive]
  simp only [retryStrategy, hpost, Option.bind_some, attemptVerdict, hnum, hnext]

theorem Counting.attach (hr : ControlOf r control m)
    (hL : 1 ≤ L) (hid : c.id = control.id) (hless : L + n - 1 < m)
    (hatt : Attachable s c (spawnNextAttempt ids r .nil c (L + n).toNat)) :
    Counting control check first L m
      (s.attach (spawnNextAttempt ids r .nil c (L + n).toNat)) (n + 1) := by
  have hpos : 0 < (L + n).toNat := by omega
  obtain ⟨root, hroot, hnum, hopen, hrootID, hwork⟩ :=
    attemptCandidates_spawned ids hr.ralph hr.molecule hr.named hid hpos
  have hnum' : attemptNum root = L + (n + 1 : ℕ) - 1 := by
    rw [hnum]
    omega
  have hcandidates : attemptCandidates control
      (s.attach (spawnNextAttempt ids r .nil c (L + n).toNat)).beads =
      attemptCandidates control s.beads ++ [root] := by
    rw [Store.attach, attemptCandidates_append, hroot]
  constructor
  case toStanding =>
    exact h.keep hatt.ids (fun b hb => ⟨b, mem_append_left _ hb, .refl b⟩) (prefix_append ..)
  case closed =>
    rw [hcandidates, forall_mem_append, forall_mem_singleton, hopen]
    exact ⟨h.closed, by rintro ⟨⟩⟩
  case opened =>
    rw [hcandidates, forall_mem_append, forall_mem_singleton]
    constructor
    · intro b hb hbopen
      rcases h.opened b hb hbopen with hblock | ⟨hfirst, x, hx, hx'⟩
      · exact .inl (mem_append_left _ hblock)
      · exact .inr ⟨hfirst, x, mem_append_left _ hx, hx'⟩
    · intro _
      left
      rw [hrootID, ← hid]
      exact mem_append_right _ (mem_append_right _ (mem_singleton_self _))
  case scopes =>
    rw [hcandidates, forall_mem_append, forall_mem_singleton]
    exact ⟨h.scopes, (isWork_iff.mp hwork).2.1⟩
  case top =>
    rw [hcandidates]
    exact ⟨root, mem_append_right _ (mem_singleton_self _), hnum'⟩
  case bound =>
    rw [hcandidates, forall_mem_append, forall_mem_singleton]
    constructor
    · intro b hb
      have := h.bound b hb
      omega
    · exact hnum'.le
  case budget =>
    right
    omega

omit h

variable (control) in
def ControlClosed (s : Store) : Prop :=
  (s.beads.map Bead.id).Nodup ∧ ∃ c ∈ s.beads, c.id = control.id ∧ c.status = .closed

theorem ControlClosed.step (h : ControlClosed control s)
    (hstep : Dispatch.step s a = some t) : ControlClosed control t := by
  obtain ⟨hids, c, hc, hid, hclosed⟩ := h
  obtain ⟨c', hc', hframe, hkeep⟩ := step_mem hids hstep hc
  exact ⟨step_ids hids hstep, c', hc', hframe.1.trans hid, hkeep hclosed⟩

variable (h : Counting control check first L m s n)
include h

theorem Counting.work (hkind : check.kind = Kind.scopeCheck) {f : Bead → Bead} (hb : b ∈ s.beads)
    (hwork : isWork b = true) (hg : Changed (onBead b.id f) s t)
    (hf : isAttemptOf control b = true → (f b).status = .closed → FailedTransiently (f b)) :
    Counting control check first L m t n := by
  apply h.changed hg
  · intro b' hb' hclosed
    obtain ⟨hmem, hattempt, -⟩ := mem_attemptCandidates.mp hb'
    unfold onBead at hclosed ⊢
    split at hclosed
    · next hid =>
      obtain rfl := eq_of_id_eq_of_nodup h.ids hmem hb hid
      rw [if_pos rfl]
      exact hf hattempt hclosed
    · next hid =>
      rw [if_neg hid]
      exact h.closed b' hb' hclosed
  · intro x hx hxid hclosed
    left
    have hframe := frame_of_present h.ids h.checks hx hxid
    rwa [onBead, if_neg] at hclosed
    exact id_ne_of_work h.ids hb hwork hx (by rw [hframe.kind, hkind]; decide)

theorem Counting.scopeCheck
    (hkind : check.kind = Kind.scopeCheck) (hsubject : isRetryAttemptSubject first = true)
    {x : Bead} (hx : x ∈ s.beads) (hxid : x.id = check.id)
    (hprocess : processScopeCheck s x = some t) : Counting control check first L m t n := by
  obtain ⟨mid, a, body, hhead, hget, hbody, hclosed, hcase⟩ := processScopeCheck_cases hprocess
  rw [hxid, h.guards, Option.some.injEq] at hhead
  subst hhead
  obtain ⟨ha, haid⟩ := (Store.get_eq_some h.ids).mp hget
  have hframe := frame_of_present h.ids h.subject ha haid
  have hfine : scopeFailed a = false := by
    rw [scopeFailed, hframe.attemptSubject, hsubject]
    rfl
  obtain ⟨hbodyMem, hbodyKind⟩ := resolveScopeBody_mem hbody
  rw [hfine] at hcase
  obtain ⟨-, rfl⟩ := hcase.resolve_left fun hcase => Bool.false_ne_true hcase.1
  obtain ⟨g, hg, hsame, -⟩ := changed_completeScopeCheck h.ids hbodyMem a
  have hxframe := frame_of_present h.ids h.checks hx hxid
  apply h.changed hg
  · intro b hb hbclosed
    obtain ⟨hbMem, hattempt, -⟩ := mem_attemptCandidates.mp hb
    have hbx : b.id ≠ x.id := by
      intro hid
      rw [eq_of_id_eq_of_nodup h.ids hbMem hx hid, isAttemptOf, hxframe.kind, hkind] at hattempt
      have hinfra : isControlInfrastructure Kind.scopeCheck = true := by decide
      simp [hinfra] at hattempt
    have hbbody : b.id ≠ body.id := by
      intro hid
      apply h.scopes b hb
      rw [eq_of_id_eq_of_nodup h.ids hbMem hbodyMem hid, hbodyKind]
    rw [hsame b hbx hbbody] at hbclosed ⊢
    exact h.closed b hb hbclosed
  · intro _ _ _ _
    right
    intro b hb hid
    rwa [eq_of_id_eq_of_nodup h.ids (mem_attemptCandidates.mp hb).1 ha (hid.trans haid.symm)]

theorem Counting.elsewhere (hstep : Dispatch.step s a = some t)
    (hcandidates : attemptCandidates control t.beads = attemptCandidates control s.beads)
    (hget : t.get check.id = s.get check.id) : Counting control check first L m t n := by
  have hblocks := step_blocks h.ids hstep
  constructor
  case toStanding => exact h.toStanding.step hstep
  case closed => rw [hcandidates]; exact h.closed
  case opened =>
    rw [hcandidates]
    intro b hb hopen
    rcases h.opened b hb hopen with hblock | ⟨hfirst, x, hx, hxid, hxopen⟩
    · exact .inl (hblocks.subset hblock)
    · refine .inr ⟨hfirst, x, ?_, hxid, hxopen⟩
      rw [(Store.get_eq_some h.ids).mpr ⟨hx, hxid⟩] at hget
      exact Keyed.mem_of_lookup hget
  case scopes => rw [hcandidates]; exact h.scopes
  case top => rw [hcandidates]; exact h.top
  case bound => rw [hcandidates]; exact h.bound
  case budget => exact h.budget

theorem Counting.process (hr : ControlOf r control m) (hL : 1 ≤ L) {verdict : Verdict}
    (hstep : Dispatch.step s (.process control.id verdict) = some t)
    (hgoverned : Governed jsonValid r control s (.process control.id verdict)) :
    ControlClosed control t ∨
      Counting control check first L m t
        (n + [Label.process control.id verdict].countP (spawns control.id)) := by
  obtain ⟨c, hmem, hget, hid, hready, -, hprocess⟩ := step_process_cases h.ids hstep
  obtain ⟨ids, artifacts, c', hget', hverdict⟩ := hgoverned rfl
  cases hget.symm.trans hget'
  have hkind : c.kind ≠ Kind.scopeCheck := by
    rw [(frame_of_present h.ids h.present hmem hid).kind, hr.kind]
    decide
  obtain ⟨reason, hdecided⟩ := h.verdict hr hget hready jsonValid ids artifacts
  rw [hverdict] at hdecided
  cases hdecided
  by_cases hless : (m : ℤ) ≤ L + n - 1
  · left
    rw [if_pos hless] at hprocess
    obtain ⟨g, hg, hclosed⟩ := changed_settle h.ids ((if_neg hkind).symm.trans hprocess)
    refine ⟨by rw [hg.ids]; exact h.ids, g c, hg.mem hmem, (hg.frame c).1.trans hid, ?_⟩
    exact hclosed c hmem rfl
  · right
    rw [if_neg hless] at hprocess ⊢
    obtain ⟨hatt, ht⟩ := Option.ite_none_right_eq_some.mp ((if_neg hkind).symm.trans hprocess)
    cases ht
    rw [show [Label.process control.id (.spawn _)].countP (spawns control.id) = 1 by
      simp [spawns]]
    exact h.attach hr hL hid (not_le.mp hless) hatt

theorem Counting.step (hr : ControlOf r control m) (hkind : check.kind = Kind.scopeCheck)
    (hsubject : isRetryAttemptSubject first = true) (hL : 1 ≤ L)
    (hstep : Dispatch.step s a = some t) (hgoverned : Governed jsonValid r control s a)
    (htransient : AllTransient control check s a t) :
    ControlClosed control t ∨
      Counting control check first L m t (n + [a].countP (spawns control.id)) := by
  cases a with
  | claim id =>
    right
    obtain ⟨b, hmem, rfl, hwork, hopen, rfl⟩ := step_claim_cases h.ids hstep
    exact h.work hkind hmem hwork (.claim h.ids hmem hopen) nofun
  | finish id result =>
    right
    obtain ⟨b, hmem, hget, rfl, hwork, -, rfl⟩ := step_finish_cases h.ids hstep
    have hfinish := htransient b hget
    exact h.work hkind hmem hwork (.close s b.id (onlyResults_result result))
      fun hattempt _ => hfinish hattempt
  | process id verdict =>
    by_cases hid : id = control.id
    · subst hid
      exact h.process hr hL hstep hgoverned
    · right
      have hcount : [Label.process id verdict].countP (spawns control.id) = 0 := by
        cases verdict <;> simp [spawns, hid]
      rw [hcount]
      rcases htransient.resolve_left hid with ⟨rfl, -⟩ | ⟨hcandidates, -, hget⟩
      · obtain ⟨x, hmem, -, hxid, -, -, hprocess⟩ := step_process_cases h.ids hstep
        have hxkind : x.kind = Kind.scopeCheck :=
          (frame_of_present h.ids h.checks hmem hxid).kind.trans hkind
        exact h.scopeCheck hkind hsubject hmem hxid ((if_pos hxkind).symm.trans hprocess)
      · exact h.elsewhere hstep hcandidates hget

theorem Counting.run (hr : ControlOf r control m) (hkind : check.kind = Kind.scopeCheck)
    (hsubject : isRetryAttemptSubject first = true) (hL : 1 ≤ L)
    (hrun : TransientRun jsonValid r control check s as t) :
    ControlClosed control t ∨
      Counting control check first L m t (n + as.countP (spawns control.id)) := by
  induction hrun generalizing n with
  | nil s => exact .inr h
  | @cons s u t a as hstep hrest ih =>
    obtain ⟨⟨hstep, hgoverned⟩, htransient⟩ := hstep
    rcases h.step hr hkind hsubject hL hstep hgoverned htransient with hclosed | hcounting
    · left
      exact hrest.invariant (ControlClosed control) (fun _ _ _ h hs => h.step hs.1.1) hclosed
    · rw [← singleton_append, countP_append, ← Nat.add_assoc]
      exact ih hcounting

omit h

theorem processAttemptControl_spawn {strategy : AttemptStrategy}
    {step : Step} {children : Forest Step}
    (h : processAttemptControl strategy ids step children s c = some (.spawn attached)) :
    ∃ maxAttempts a, atoi (c.val .maxAttempts) = some maxAttempts ∧
      latestAttempt c s.beads = some a ∧ attemptNum a < maxAttempts ∧
      attached = spawnNextAttempt ids step children c (attemptNum a + 1).toNat := by
  obtain ⟨maxAttempts, hmax, h⟩ := Option.bind_eq_some_iff.mp h
  obtain ⟨a, ha, h⟩ := Option.bind_eq_some_iff.mp h
  obtain ⟨-, h⟩ := Option.ite_none_left_eq_some.mp h
  obtain ⟨eval, -, h⟩ := Option.bind_eq_some_iff.mp h
  refine ⟨maxAttempts, a, hmax, ha, ?_⟩
  have hverdict := Option.some.inj h
  unfold attemptVerdict at hverdict
  split at hverdict
  · cases hverdict
  · cases hverdict
  · split at hverdict
    · cases hverdict
    · next hless =>
      cases hverdict
      exact ⟨not_le.mp hless, rfl⟩

theorem spawns_iff {id : String} :
    spawns id a = true ↔ ∃ attached, a = .process id (.spawn attached) := by
  unfold spawns
  split
  · simp
  · next hne =>
    simp only [Bool.false_eq_true, false_iff, not_exists]
    exact fun attached h => hne _ _ h

theorem step_spawn {id : String} (hget : s.get id = some c) (hkind : c.kind ≠ Kind.scopeCheck)
    (hstep : Dispatch.step s (.process id (.spawn attached)) = some t) :
    Attachable s c attached ∧ t = s.attach attached := by
  obtain ⟨c', hget', hc⟩ := Option.bind_eq_some_iff.mp hstep
  cases hget.symm.trans hget'
  obtain ⟨-, hprocess⟩ := Option.ite_none_right_eq_some.mp hc
  obtain ⟨hatt, ht⟩ := Option.ite_none_right_eq_some.mp ((if_neg hkind).symm.trans hprocess)
  exact ⟨hatt, (Option.some.inj ht).symm⟩

variable (control) in
/-- The control has run `n` attempts, and one that answers to it is numbered as if the first of them
had been the `L`-th. -/
structure Spent (L : ℤ) (m : ℕ) (s : Store) (n : ℕ) : Prop where
  ids : (s.beads.map Bead.id).Nodup
  present : ∃ c ∈ s.beads, Frame control c
  numbered : ∃ b ∈ s.beads, isAttemptOf control b = true ∧ L + n - 1 ≤ attemptNum b
  positive : 1 ≤ n
  within : n = 1 ∨ L + n - 1 ≤ m

theorem Spent.step (h : Spent control L m s n) (hr : ControlOf r control m)
    (hL : 1 ≤ L) (hstep : Dispatch.step s a = some t)
    (hgoverned : Governed jsonValid r control s a) :
    Spent control L m t (n + [a].countP (spawns control.id)) := by
  obtain ⟨c, hc, hframe⟩ := h.present
  obtain ⟨b, hb, hattempt, hnum⟩ := h.numbered
  obtain ⟨c', hc', hframe', -⟩ := step_mem h.ids hstep hc
  obtain ⟨b', hb', hbframe, -⟩ := step_mem h.ids hstep hb
  by_cases hspawns : spawns control.id a = true
  · obtain ⟨attached, rfl⟩ := spawns_iff.mp hspawns
    obtain ⟨ids, artifacts, c₁, hget, hverdict⟩ := hgoverned rfl
    obtain ⟨hmem, hid⟩ := (Store.get_eq_some h.ids).mp hget
    obtain rfl := eq_of_id_eq_of_nodup h.ids hmem hc (hid.trans hframe.1.symm)
    have hkind : c₁.kind ≠ Kind.scopeCheck := by
      rw [hframe.kind, hr.kind]
      decide
    obtain ⟨hatt, rfl⟩ := step_spawn hget hkind hstep
    obtain ⟨maxAttempts, top, hmax, htop, hless, rfl⟩ := processAttemptControl_spawn hverdict
    rw [hframe.2 .maxAttempts rfl, hr.max, atoi_toString, Option.some.injEq] at hmax
    subst hmax
    have hpos : (1 : ℤ) ≤ n := by exact_mod_cast h.positive
    have hle : attemptNum b ≤ attemptNum top := by
      refine le_of_mem_argmax ?_ htop
      rw [hframe.attemptCandidates]
      exact mem_attemptCandidates.mpr ⟨hb, hattempt, by omega⟩
    obtain ⟨root, hroot, hrootNum, -, -, -⟩ := attemptCandidates_spawned ids hr.ralph
      hr.molecule hr.named hid (show 0 < (attemptNum top + 1).toNat by omega)
    have hrootMem : root ∈ attemptCandidates control
        (spawnNextAttempt ids r .nil c₁ (attemptNum top + 1).toNat).beads := by
      rw [hroot]
      exact mem_singleton_self _
    obtain ⟨hrootBead, hrootAttempt, -⟩ := mem_attemptCandidates.mp hrootMem
    rw [countP_singleton, if_pos hspawns]
    exact
      { ids := hatt.ids
        present := ⟨c₁, mem_append_left _ hc, hframe⟩
        numbered := ⟨root, mem_append_right _ hrootBead, hrootAttempt, by omega⟩
        positive := by omega
        within := by omega }
  · rw [countP_singleton, if_neg hspawns, Nat.add_zero]
    exact
      { ids := step_ids h.ids hstep
        present := ⟨c', hc', hframe.trans hframe'⟩
        numbered := ⟨b', hb', (hbframe.isAttemptOf control).trans hattempt,
          hnum.trans hbframe.attemptNum.ge⟩
        positive := h.positive
        within := h.within }

theorem Spent.run (h : Spent control L m s n) (hr : ControlOf r control m)
    (hL : 1 ≤ L) (hrun : GovernedRun jsonValid r control s as t) :
    Spent control L m t (n + as.countP (spawns control.id)) := by
  induction hrun generalizing n with
  | nil s => exact h
  | @cons s u t a as hstep hrest ih =>
    rw [← singleton_append, countP_append, ← Nat.add_assoc]
    exact ih (h.step hr hL hstep.1 hstep.2)

end Retry

end GasCity.Dispatch
