import GasCity.Dispatch.Lineage
import GasCity.Search.Argmax

/-! # Isolation of attempt lineages

A control should take only the attempts made for it for its own.  A re-spawned iteration stamps the
first attempts of its retries with the bare step id, which every other iteration uses as well, so
its control may find an older attempt with a number as high.
-/

namespace GasCity.Dispatch

open List

open Formula

def Mint.rename (ids : String → String) (m : Mint) : Mint :=
  { m with control := ids m.control, root := ids m.root }

def IsAttemptControl (b : Bead) : Prop :=
  b.kind = Kind.retry ∨ b.kind = Kind.ralph

instance (b : Bead) : Decidable (IsAttemptControl b) :=
  inferInstanceAs (Decidable (_ ∨ _))

def IsAttemptRoot (b : Bead) : Prop :=
  isFailedPartialMolecule b = false ∧ isControlInfrastructure b.kind = false ∧
    trimSpace (b.val .controlFor) ≠ ""

instance (b : Bead) : Decidable (IsAttemptRoot b) :=
  inferInstanceAs (Decidable (_ ∧ _ ∧ _))

/-- The beads of a workflow and the record of which attempt was made for which control. -/
structure TracedWorkflow where
  store : Store
  mints : List Mint

/-- The attempt `a` was made for the control `c`. -/
def TracedWorkflow.MadeFor (w : TracedWorkflow) (c a : Bead) : Prop :=
  ∃ m ∈ w.mints, m.control = c.id ∧ m.root = a.id

def Isolated (w : TracedWorkflow) : Prop :=
  ∀ c ∈ w.store.beads, IsAttemptControl c → c.status ≠ .closed →
    ∀ a, findLatestAttempt w.store c = some a → w.MadeFor c a

def compiledWorkflow (ids : String ↪ String) (name : String) (f : Forest Step) :
    TracedWorkflow where
  store := workflow ids name (applyAttempts f)
  mints := ((compiledMints f).map (Mint.rename fun id => (idMapping (issues name
    (applyGraphControls (applyAttempts f) true)) id).getD "")).map (Mint.rename ids)

/-- What a control mints when it spawns an attempt: the root of the attempt, and the controls of
its members. -/
def spawnedMints (ids : String ↪ String) (control : Bead) (owner : Step) (body : Forest Step)
    (attempt : ℕ) : List Mint :=
  { control := control.id
    root := ids (attemptPrefix owner control attempt)
    name := trimSpace (control.val .stepID)
    stamp := trimSpace control.id
    number := attempt } ::
  (respawnedMints (attemptPrefix owner control attempt) attempt body).map (Mint.rename ids)

inductive LineageEvent where
  /-- A step that attaches no attempts: work, settled controls, scope checks. -/
  | act (label : Label)
  /-- A control spawns an attempt from its stored step and the authored children of it. -/
  | spawn (ids : String ↪ String) (control : String) (owner : Step) (body : Forest Step)
      (attempt : ℕ)

/-- Whatever the label attaches is neither a control with attempts nor an attempt. -/
def Label.Quiet : Label → Prop
  | .process _ (.spawn attached) =>
    ∀ b ∈ attached.beads, ¬ IsAttemptControl b ∧ ¬ IsAttemptRoot b
  | _ => True

instance (label : Label) : Decidable label.Quiet :=
  match label with
  | .process _ (.spawn attached) =>
    inferInstanceAs (Decidable (∀ b ∈ attached.beads, _ ∧ _))
  | .process _ (.settle _) => .isTrue trivial
  | .claim _ => .isTrue trivial
  | .finish _ _ => .isTrue trivial

def advance (w : TracedWorkflow) : LineageEvent → Option TracedWorkflow
  | .act label =>
    if label.Quiet then (step w.store label).map fun store => { w with store } else none
  | .spawn ids id owner body attempt => do
    let control ← w.store.get id
    let store ← step w.store (.process id (.spawn (spawnNextAttempt ids owner
      (applyRetries body) control attempt)))
    if IsAttemptControl control then
      some { store, mints := w.mints ++ spawnedMints ids control owner body attempt }
    else none

/-- A spawned attempt is numbered from one and built from authored steps. -/
def LineageEvent.Stored : LineageEvent → Prop
  | .act _ => True
  | .spawn _ _ owner body attempt => WorkStep owner ∧ Authored body ∧ 1 ≤ attempt

/-- Bead ids, step references and step ids of controls are not confused, and no two controls share
an id or a reference. -/
def Apart (s : Store) : Prop :=
  ∀ c ∈ s.beads, IsAttemptControl c → trimSpace c.id ≠ "" ∧
    ∀ d ∈ s.beads, IsAttemptControl d →
      trimSpace c.id ≠ trimSpace (d.val .stepRef) ∧ trimSpace c.id ≠ trimSpace (d.val .stepID) ∧
      trimSpace (c.val .stepRef) ≠ trimSpace (d.val .stepID) ∧
      (trimSpace c.id = trimSpace d.id → c.id = d.id) ∧
      (trimSpace (c.val .stepRef) = trimSpace (d.val .stepRef) → c.id = d.id)

instance (s : Store) : Decidable (Apart s) :=
  inferInstanceAs (Decidable (∀ c ∈ s.beads, _ → _ ∧ ∀ d ∈ s.beads, _ → _))

def Advances (w : TracedWorkflow) (e : LineageEvent) (w' : TracedWorkflow) : Prop :=
  advance w e = some w' ∧ e.Stored ∧ Apart w'.store

/-- The retries and checks that a re-spawned iteration makes again, with the number of the first
attempt: the iteration's for a retry, one for a nested check. -/
def remade (n : ℕ) : Forest Step → List (Step × ℕ)
  | .nil => []
  | .cons s children rest =>
    (match s.retry with
      | some _ => [(s, n)]
      | none =>
        match s.ralph with
        | none => []
        | some _ => (s, 1) :: remade 1 children) ++ remade n rest

/-- Each attempt with the step id of one that an iteration makes again has a lower number, and every
other open control of that step has an attempt with a number at least as high. -/
def Unshadowed (s : Store) : LineageEvent → Prop
  | .act _ => True
  | .spawn _ id _ body attempt => ∀ p ∈ remade attempt body,
      (∀ a ∈ s.beads, IsAttemptRoot a → trimSpace (a.val .controlFor) = p.1.id →
        attemptNum a < p.2) ∧
      ∀ c ∈ s.beads, IsAttemptControl c → c.status ≠ .closed → c.id ≠ id →
        trimSpace (c.val .stepID) = p.1.id →
          ∃ a ∈ s.beads, isAttemptOf c a = true ∧ (p.2 : ℤ) ≤ attemptNum a

/-- The control of a mint, which the stamp knows by its id, its reference or its step id. -/
def Mint.ControlledBy (m : Mint) (b : Bead) : Prop :=
  trimSpace (b.val .stepID) = m.name ∧
    (trimSpace b.id = m.stamp ∨ trimSpace (b.val .stepRef) = m.stamp ∨ m.name = m.stamp)

def Mint.RootedAt (m : Mint) (b : Bead) : Prop :=
  trimSpace (b.val .controlFor) = m.stamp ∧ attemptNum b = m.number

/-- The controls and attempts among the beads are those of the mints. -/
structure Traced (beads : List Bead) (mints : List Mint) : Prop where
  controls : Named Bead.id IsAttemptControl Mint.control Mint.ControlledBy beads mints
  roots : Named Bead.id IsAttemptRoot Mint.root Mint.RootedAt beads mints

section Tags

variable {b b' : Bead}

theorem isAttemptControl_iff : IsAttemptControl b ↔ (Tag.ofBead b).IsControl := by
  simp [IsAttemptControl, Tag.IsControl, Tag.ofBead, Tag.read, Bead.kind]

theorem isAttemptRoot_iff : IsAttemptRoot b ↔ (Tag.ofBead b).IsRoot := by
  simp [IsAttemptRoot, Tag.IsRoot, Tag.ofBead, Tag.read, Bead.kind, isFailedPartialMolecule]

theorem Frame.tag (h : Frame b b') : Tag.ofBead b' = Tag.ofBead b := by
  rw [Tag.ofBead, h.1]
  exact Tag.read_congr fun k hk => h.2 k (by revert k; decide)

theorem Frame.isAttemptControl (h : Frame b b') : IsAttemptControl b' ↔ IsAttemptControl b := by
  rw [IsAttemptControl, h.kind, IsAttemptControl]

theorem frame_closeSpec (b : Bead) : Frame b (closeSpec b) := by
  unfold closeSpec
  split
  · exact frame_closeOutcome _ b
  · exact .refl b

theorem tag_stepToBead (ids : String ↪ String) (logical : String → Option String)
    (x : RecipeStep) : Tag.ofBead (stepToBead ids logical x) =
      { Tag.ofRecipeStep x with
        id := ids x.id
        stepRef := if x.metadata.val .stepRef = "" then x.id else x.metadata.val .stepRef } := by
  have href : (stepToBead ids logical x).val .stepRef =
      if x.metadata.val .stepRef = "" then x.id else x.metadata.val .stepRef := by
    have hval : (withStepRef x).val .stepRef =
        if x.metadata.val .stepRef = "" then x.id else x.metadata.val .stepRef := by
      unfold withStepRef
      split
      · exact Table.val_set_self
      · rfl
    rw [Bead.val, stepToBead]
    split
    · exact hval
    · rw [Table.val_set_of_ne (by decide), hval]
  have hval : ∀ {k : MetaKey}, k ∉ stampedKeys →
      (stepToBead ids logical x).metadata.val k = x.metadata.val k := stepToBead_val
  simp (disch := decide) only [Tag.ofBead, Tag.read, Tag.ofRecipeStep, hval, stepToBead_id, ← href]

theorem attemptNum_eq {n : ℕ} (h : b.val .attempt = toString n) : attemptNum b = n := by
  rw [attemptNum, h, atoi_toString]
  rfl

end Tags

section Beads

variable {ids : String ↪ String} {logical : String → Option String} {beadOf : RecipeStep → Bead}
  (hframe : ∀ x, Frame (stepToBead ids logical x) (beadOf x))
include hframe

theorem isAttemptControl_beadOf (x : RecipeStep) :
    IsAttemptControl (beadOf x) ↔ (Tag.ofRecipeStep x).IsControl := by
  rw [isAttemptControl_iff, (hframe x).tag, tag_stepToBead]
  rfl

theorem isAttemptRoot_beadOf (x : RecipeStep) :
    IsAttemptRoot (beadOf x) ↔ (Tag.ofRecipeStep x).IsRoot := by
  rw [isAttemptRoot_iff, (hframe x).tag, tag_stepToBead]
  rfl

theorem beadOf_val (x : RecipeStep) {k : MetaKey} (hk : isResultKey k = false)
    (hk' : k ∉ stampedKeys) : (beadOf x).val k = x.metadata.val k :=
  ((hframe x).2 k hk).trans (stepToBead_val hk')

theorem beadOf_id (x : RecipeStep) : (beadOf x).id = ids x.id := (hframe x).1

theorem Described.traced {l : List RecipeStep} {mints : List Mint}
    (h : Described (l.map Tag.ofRecipeStep) mints) :
    Traced (l.map beadOf) (mints.map (Mint.rename ids)) := by
  constructor
  case controls =>
    refine h.controls.of_map.map (fun _ => rfl) (beadOf_id hframe)
      (fun x => (isAttemptControl_beadOf hframe x).mp) ?_
    rintro m hm x - hc ⟨hname, hlineage⟩
    obtain ⟨t, -, -, hroot, -, hstamp, -⟩ := h.roots.of_mint m hm
    refine ⟨(isAttemptControl_beadOf hframe x).mpr hc, ?_, .inr ?_⟩
    · rw [beadOf_val hframe x rfl (by decide)]
      exact hname
    · refine hlineage.imp (fun href => ?_) id
      have hne : x.metadata.val .stepRef ≠ "" := by
        intro hempty
        apply hroot.2.2.2
        rw [hstamp, ← href]
        exact congrArg trimSpace hempty
      have hval : (beadOf x).val .stepRef = x.metadata.val .stepRef :=
        ((hframe x).2 .stepRef rfl).trans (stepToBead_stepRef hne)
      rw [hval]
      exact href
  case roots =>
    refine h.roots.of_map.map (fun _ => rfl) (beadOf_id hframe)
      (fun x => (isAttemptRoot_beadOf hframe x).mp) ?_
    rintro m - x - hr ⟨-, hstamp, hnumber⟩
    refine ⟨(isAttemptRoot_beadOf hframe x).mpr hr, ?_, attemptNum_eq ?_⟩
    · rw [beadOf_val hframe x rfl (by decide)]
      exact hstamp
    · rw [beadOf_val hframe x rfl (by decide)]
      exact hnumber

end Beads

section Compiled

variable {f : Forest Step} {name : String}

/-- The tag of a step in the recipe. -/
def Tag.compiled (id : String) (t : Tag) : Tag :=
  { t with id, kind := if t.drain then Kind.drain else t.kind, drain := false }

theorem Tag.isControl_compiled {id : String} {t : Tag} :
    (t.compiled id).IsControl ↔ t.IsControl := by
  have hdrainKind : Kind.drain ≠ Kind.retry ∧ Kind.drain ≠ Kind.ralph := by decide
  cases hdrain : t.drain <;> simp [Tag.IsControl, Tag.compiled, hdrain, hdrainKind]

theorem Tag.isRoot_compiled {id : String} {t : Tag} : (t.compiled id).IsRoot ↔ t.IsRoot := by
  have hinfra : isControlInfrastructure Kind.drain = true := by decide
  cases hdrain : t.drain <;> simp [Tag.IsRoot, Tag.compiled, hdrain, hinfra]

theorem tag_recipeStep (id : String) (n : Step) :
    Tag.ofRecipeStep (recipeStep (id, n)) = (Tag.ofStep n).compiled id := by
  have hval : ∀ {k : MetaKey}, k ≠ .kind →
      (drainMetadata n n.metadata).val k = n.metadata.val k := drainMetadata_val
  have hkind : (drainMetadata n n.metadata).val .kind = if n.drain then Kind.drain else n.kind := by
    unfold drainMetadata
    split
    · exact Table.val_set_self
    · rfl
  simp (disch := decide) only [Tag.ofRecipeStep, recipeStep, Tag.read, Tag.ofStep, Tag.compiled,
    hkind, Step.kind, hval]
  rfl

variable {n : Step} {steps : Forest Step}

theorem tag_rewritten (steps : List Step) (m : Step) :
    Tag.ofStep (rewriteGraphStepRefs steps (markOutputRequired m)) = Tag.ofStep m := by
  rw [Tag.ofStep, rewriteGraphStepRefs, markOutputRequired_id, markOutputRequired_drain]
  exact Tag.read_congr fun k hk => markOutputRequired_val (by rintro rfl; revert hk; decide)

/-- Every node of the compiled graph is a transformed step or a control of another kind. -/
theorem compiled_cases (hfresh : FreshControls steps.flatten)
    (hn : n ∈ (applyGraphControls steps true).flatten) :
    (∃ m ∈ steps.flatten, Tag.ofStep n = Tag.ofStep m) ∨
      ¬ (Tag.ofStep n).IsControl ∧ ¬ (Tag.ofStep n).IsRoot := by
  have hplain : ∀ {kind : String}, n.kind = kind → kind ≠ Kind.retry ∧ kind ≠ Kind.ralph →
      isControlInfrastructure kind = true →
      ¬ (Tag.ofStep n).IsControl ∧ ¬ (Tag.ofStep n).IsRoot := by
    rintro kind rfl hcontrol hinfra
    refine ⟨fun h => h.2.elim hcontrol.1 hcontrol.2, fun h => ?_⟩
    have hwork : isControlInfrastructure n.kind = false := h.2.2.1
    rw [hinfra] at hwork
    cases hwork
  rw [(applyGraphControls_perm hfresh).mem_iff, mem_append, mem_spliced] at hn
  rcases hn with (⟨m, hm, rfl⟩ | hc) | hfinal
  · exact .inl ⟨m, hm, tag_rewritten _ m⟩
  · rcases kind_of_mem_controls hc with hkind | hkind <;>
      exact .inr (hplain hkind (by decide) (by decide))
  · rw [finalizer] at hfinal
    split at hfinal
    · cases hfinal
    · obtain rfl := mem_singleton.mp hfinal
      have hkind : (workflowFinalize (graphSinkStepIDs (spliced steps))).kind =
          Kind.workflowFinalize := rfl
      exact .inr (hplain hkind (by decide) (by decide))

theorem mem_compiled_tag (hfresh : FreshControls steps.flatten) {m : Step}
    (hm : m ∈ steps.flatten) :
    ∃ n ∈ (applyGraphControls steps true).flatten, Tag.ofStep n = Tag.ofStep m := by
  have hnode : rewriteGraphStepRefs (marked steps) (markOutputRequired m) ∈ spliced steps :=
    mem_spliced.mpr (.inl ⟨m, hm, rfl⟩)
  exact ⟨_, mem_compiled hfresh hnode, tag_rewritten _ m⟩

variable (name) in
theorem described_recipe {mints : List Mint}
    (hfresh : FreshControls steps.flatten) (h : Described (steps.flatten.map Tag.ofStep) mints) :
    Described ((toRecipe name (applyGraphControls steps true)).steps.map Tag.ofRecipeStep)
      (mints.map (Mint.rename fun id =>
        (idMapping (issues name (applyGraphControls steps true)) id).getD "")) := by
  let ρ := fun id => (idMapping (issues name (applyGraphControls steps true)) id).getD ""
  have hissue : ∀ {id : String} {n : Step},
      (id, n) ∈ issues name (applyGraphControls steps true) → id = ρ n.id := by
    intro id n hmem
    simp only [ρ, (idMapping_eq_some (compiled_ids_nodup hfresh)).mpr ⟨n, hmem, rfl⟩,
      Option.getD_some]
  have hsteps : ∀ {t : Tag}, t ∈ (toRecipe name (applyGraphControls steps true)).steps.map
      Tag.ofRecipeStep ↔ ∃ id n, (id, n) ∈ issues name (applyGraphControls steps true) ∧
        (Tag.ofStep n).compiled id = t := by
    intro t
    simp only [toRecipe, map_map, mem_map, Prod.exists, Function.comp_apply, tag_recipeStep]
  have hback : ∀ t ∈ (toRecipe name (applyGraphControls steps true)).steps.map Tag.ofRecipeStep,
      (∃ a ∈ steps.flatten.map Tag.ofStep, t = a.compiled (ρ a.id)) ∨
        ¬ t.IsControl ∧ ¬ t.IsRoot := by
    intro t ht
    obtain ⟨id, n, hmem, rfl⟩ := hsteps.mp ht
    rw [Tag.isControl_compiled, Tag.isRoot_compiled]
    refine (compiled_cases hfresh (mem_of_mem_issues hmem)).imp_left ?_
    rintro ⟨m, hm, htag⟩
    refine ⟨_, mem_map_of_mem hm, ?_⟩
    rw [hissue hmem, ← htag]
    rfl
  have hforth : ∀ a ∈ steps.flatten.map Tag.ofStep, a.compiled (ρ a.id) ∈
      (toRecipe name (applyGraphControls steps true)).steps.map Tag.ofRecipeStep := by
    intro a ha
    obtain ⟨m, hm, rfl⟩ := mem_map.mp ha
    obtain ⟨n, hn, htag⟩ := mem_compiled_tag hfresh hm
    obtain ⟨id, hmem⟩ := exists_issue name hn
    refine hsteps.mpr ⟨id, n, hmem, ?_⟩
    rw [hissue hmem, ← htag]
    rfl
  constructor
  case controls =>
    refine h.controls.transport (ρ := ρ) (fun _ => rfl) ?_ ?_
    · intro t ht hc
      obtain ⟨a, ha, rfl⟩ := (hback t ht).resolve_right fun hplain => hplain.1 hc
      exact ⟨a, ha, Tag.isControl_compiled.mp hc, rfl⟩
    · exact fun m _ a ha _ hc hmint =>
        ⟨_, hforth a ha, rfl, Tag.isControl_compiled.mpr hc, hmint⟩
  case roots =>
    refine h.roots.transport (ρ := ρ) (fun _ => rfl) ?_ ?_
    · intro t ht hr
      obtain ⟨a, ha, rfl⟩ := (hback t ht).resolve_right fun hplain => hplain.2 hr
      exact ⟨a, ha, Tag.isRoot_compiled.mp hr, rfl⟩
    · rintro m - a ha - hr ⟨hkind, hmint⟩
      refine ⟨_, hforth a ha, rfl, Tag.isRoot_compiled.mpr hr, ?_, hmint⟩
      rwa [Tag.compiled, hr.1]

end Compiled

section Spawned

variable {beads : List Bead} {mints : List Mint}

/-- New beads with the mints of an attempt: the root first, made for the control `c₀`, and the
controls of its members. -/
structure SpawnedFor (c₀ root : Bead) (rest : List Bead) (rm : Mint) (bm : List Mint) : Prop where
  control : rm.control = c₀.id
  name : rm.name = trimSpace (c₀.val .stepID)
  stamp : rm.stamp = trimSpace c₀.id
  root_id : root.id = rm.root
  isRoot : IsAttemptRoot root
  root_stamp : trimSpace (root.val .controlFor) = rm.stamp
  root_number : attemptNum root = rm.number
  members : Traced rest bm

theorem IsAttemptRoot.not_control {b : Bead} (h : IsAttemptRoot b) : ¬ IsAttemptControl b := by
  rw [isAttemptControl_iff]
  exact (isAttemptRoot_iff.mp h).not_isControl

theorem Traced.congr {beads' : List Bead} (h : Traced beads mints) (hsub : ∀ b ∈ beads, b ∈ beads')
    (hnew : ∀ b ∈ beads', b ∈ beads ∨ ¬ IsAttemptControl b ∧ ¬ IsAttemptRoot b) :
    Traced beads' mints where
  controls := h.controls.congr (fun b hc => ⟨hsub b, fun hb =>
    (hnew b hb).resolve_right fun hplain => hplain.1 hc⟩) fun _ => .rfl
  roots := h.roots.congr (fun b hr => ⟨hsub b, fun hb =>
    (hnew b hb).resolve_right fun hplain => hplain.2 hr⟩) fun _ => .rfl

theorem Traced.attach (h : Traced beads mints) {c₀ root : Bead} {rest : List Bead} {rm : Mint}
    {bm : List Mint} (hc₀ : c₀ ∈ beads) (hcontrol : IsAttemptControl c₀)
    (hnew : SpawnedFor c₀ root rest rm bm) :
    Traced (beads ++ root :: rest) (mints ++ rm :: bm) := by
  constructor
  case controls =>
    refine ((h.controls.append hnew.members.controls).add_mint (mem_append_left _ hc₀)
      hnew.control.symm hcontrol ⟨hnew.name.symm, .inl hnew.stamp.symm⟩).congr (fun b hc => ?_) ?_
    · have hne : b ≠ root := fun heq => hnew.isRoot.not_control (heq ▸ hc)
      simp [hne]
    · simp only [mem_append, mem_cons]
      tauto
  case roots =>
    have hroot : Named Bead.id IsAttemptRoot Mint.root Mint.RootedAt [root] [rm] :=
      .single hnew.root_id hnew.isRoot ⟨hnew.root_stamp, hnew.root_number⟩
    exact h.roots.append (hroot.append hnew.members.roots)

/-- The root of an attempt comes first, and the children contribute the rest of its lineage. -/
theorem buildAttemptRecipe_steps (owner : Step) (children : Forest Step) (c₀ : Bead) (n : ℕ) :
    ∃ tail, (buildAttemptRecipe owner children c₀ n).steps =
        attemptRootStep owner (isScopedAttempt owner children) c₀ n :: tail ∧
      ∀ x, ¬ PlainStep x → (x ∈ (attemptParts (attemptPrefix owner c₀ n) (controlStepID c₀) n
        children).steps ↔ x ∈ tail) := by
  simp only [buildAttemptRecipe, assembleAttempt, appendRecipe, applyAttemptRecipeScopeChecks,
    cons_append, nil_append]
  refine ⟨_, rfl, fun x hx => ?_⟩
  simp only [AttemptParts.steps, mem_append, notMem_map_attemptScopeCheck hx]
  tauto

/-- The mints of an attempt that come from the body of its owner. -/
abbrev memberMints (ids : String ↪ String) (owner : Step) (c₀ : Bead) (n : ℕ)
    (body : Forest Step) : List Mint :=
  (respawnedMints (attemptPrefix owner c₀ n) n body).map (Mint.rename ids)

theorem spawnNextAttempt_spawned (ids : String ↪ String) {c₀ : Bead} {owner : Step}
    {body : Forest Step} (n : ℕ) (howner : WorkStep owner) (hbody : Authored body)
    (hnamed : trimSpace c₀.id ≠ "") :
    ∃ root rest rm, (spawnNextAttempt ids owner (applyRetries body) c₀ n).beads = root :: rest ∧
      rm.number = n ∧ spawnedMints ids c₀ owner body n = rm :: memberMints ids owner c₀ n body ∧
      SpawnedFor c₀ root rest rm (memberMints ids owner c₀ n body) := by
  obtain ⟨tail, hsteps, htail⟩ := buildAttemptRecipe_steps owner (applyRetries body) c₀ n
  have hparts := described_attemptParts hbody (attemptPrefix owner c₀ n) (controlStepID c₀) n
  obtain ⟨hroot, -, hstamp, hnumber⟩ :=
    isRoot_attemptRootStep (isScopedAttempt owner (applyRetries body)) n howner hnamed
  let logical : String → Option String := fun id =>
    if id ∈ (buildAttemptRecipe owner (applyRetries body) c₀ n).steps.map RecipeStep.id then
      some (ids id) else none
  have hframe : ∀ x, Frame (stepToBead ids logical x) (closeSpec (stepToBead ids logical x)) :=
    fun x => frame_closeSpec _
  have hbeads : (spawnNextAttempt ids owner (applyRetries body) c₀ n).beads =
      closeSpec (stepToBead ids logical (attemptRootStep owner
        (isScopedAttempt owner (applyRetries body)) c₀ n)) ::
      tail.map fun x => closeSpec (stepToBead ids logical x) := by
    show ((buildAttemptRecipe owner (applyRetries body) c₀ n).steps.map
      (stepToBead ids logical)).map closeSpec = _
    rw [hsteps, map_cons, map_cons, map_map]
    rfl
  refine ⟨_, _, _, hbeads, rfl, rfl, ?_⟩
  constructor
  case control => rfl
  case name => rfl
  case stamp => rfl
  case root_id => exact beadOf_id hframe _
  case isRoot => exact (isAttemptRoot_beadOf hframe _).mpr hroot
  case root_stamp =>
    rw [beadOf_val hframe _ rfl (by decide), hstamp]
  case root_number =>
    exact attemptNum_eq ((beadOf_val hframe _ rfl (by decide)).trans hnumber)
  case members => exact (hparts.congrSteps htail).traced hframe

end Spawned

section Names

theorem compiledMints_names (f : Forest Step) :
    ((compiledMints f).map Mint.name).Sublist (f.flatten.map Step.id) := by
  induction f with
  | nil => exact .slnil
  | cons s children rest ihc ihr =>
    rw [compiledMints, Forest.flatten_cons, map_append, map_cons, map_append,
      ← cons_append]
    refine List.Sublist.append ?_ ihr
    split
    · exact ihc.cons _
    · rw [map_cons, map_map]
      exact ihc.cons_cons _

variable {pfx : String} {n : ℕ}

theorem respawnedMints_names (g : Forest Step) :
    ((respawnedMints pfx n g).map Mint.name).Sublist (g.flatten.map Step.id) := by
  induction g generalizing pfx n with
  | nil => exact .slnil
  | cons s children rest ihc ihr =>
    rw [respawnedMints, Forest.flatten_cons, map_append, map_cons, map_append,
      ← cons_append]
    refine List.Sublist.append ?_ ihr
    split
    · exact (nil_sublist _).cons_cons _
    · split
      · exact nil_sublist _
      · exact ihc.cons_cons _

variable (pfx n) in
theorem respawnedMints_remade (g : Forest Step) :
    (respawnedMints pfx n g).map (fun m => (m.name, m.number)) =
      (remade n g).map fun p => (p.1.id, p.2) := by
  induction g generalizing pfx n with
  | nil => rfl
  | cons s children rest ihc ihr =>
    rw [respawnedMints, remade, map_append, map_append, ihr]
    congr 1
    cases s.retry with
    | some spec => rfl
    | none =>
      cases s.ralph with
      | none => rfl
      | some spec => simp only [map_cons, ihc]

variable {g : Forest Step}

theorem respawnedMints_numbers (hn : 1 ≤ n) {m : Mint} (hm : m ∈ respawnedMints pfx n g) :
    (1 ≤ m.number ∧ m.number ≤ n) ∧ (m.stamp = m.name ∨ m.number = 1) := by
  induction g generalizing pfx n with
  | nil => cases hm
  | cons s children rest ihc ihr =>
    rcases mem_append.mp hm with hm | hm
    · split at hm
      · obtain rfl := mem_singleton.mp hm
        exact ⟨⟨hn, le_rfl⟩, .inl rfl⟩
      · split at hm
        · cases hm
        · rcases mem_cons.mp hm with rfl | hm
          · exact ⟨⟨le_rfl, hn⟩, .inr rfl⟩
          · obtain ⟨⟨hlow, hhigh⟩, hstamp⟩ := ihc le_rfl hm
            exact ⟨⟨hlow, hhigh.trans hn⟩, hstamp⟩
    · exact ihr hn hm

end Names

section Found

variable {s : Store} {mints : List Mint} {c a : Bead}

theorem isAttemptOf_iff : isAttemptOf c a = true ↔ IsAttemptRoot a ∧
    (trimSpace (a.val .controlFor) = trimSpace c.id ∨
      trimSpace (a.val .controlFor) = trimSpace (c.val .stepRef) ∨
      trimSpace (a.val .controlFor) = trimSpace (c.val .stepID)) := by
  simp only [isAttemptOf, IsAttemptRoot, controlIdentitySet, Bool.and_eq_true, Bool.not_eq_true',
    contains_iff_mem, mem_filter, mem_map, mem_cons, not_mem_nil, or_false,
    exists_eq_or_imp, exists_eq_left, decide_eq_true_eq]
  constructor
  · rintro ⟨⟨hfailed, hinfra⟩, hname, hne⟩
    exact ⟨⟨hfailed, hinfra, hne⟩, hname.imp Eq.symm (Or.imp Eq.symm Eq.symm)⟩
  · rintro ⟨⟨hfailed, hinfra, hne⟩, hname⟩
    exact ⟨⟨hfailed, hinfra⟩, hname.imp Eq.symm (Or.imp Eq.symm Eq.symm), hne⟩

section Traced

variable (h : Traced s.beads mints) (hids : (s.beads.map Bead.id).Nodup) (hc : c ∈ s.beads)
  (hcontrol : IsAttemptControl c)
include h hids

theorem Traced.mint (ha : a ∈ s.beads) (hroot : IsAttemptRoot a) : ∃ m ∈ mints, m.root = a.id ∧
      trimSpace (a.val .controlFor) = m.stamp ∧ attemptNum a = m.number := by
  obtain ⟨m, hm, hid⟩ := h.roots.mem a ha hroot
  obtain ⟨b, hb, hbid, -, hstamp, hnumber⟩ := h.roots.of_mint m hm
  obtain rfl := eq_of_id_eq_of_nodup hids hb ha (hbid.trans hid)
  exact ⟨m, hm, hid, hstamp, hnumber⟩

include hc hcontrol

/-- What answers to a control was made for it, or is stamped with its bare step id. -/
theorem Traced.own_or_named (hapart : Apart s) (ha : a ∈ s.beads) (hof : isAttemptOf c a = true) :
    ∃ m ∈ mints, m.root = a.id ∧ attemptNum a = m.number ∧
      (m.control = c.id ∨ m.stamp = m.name ∧ m.name = trimSpace (c.val .stepID)) := by
  obtain ⟨hroot, hname⟩ := isAttemptOf_iff.mp hof
  obtain ⟨m, hm, hid, hstamp, hnumber⟩ := h.mint hids ha hroot
  obtain ⟨x, hx, hxid, hxcontrol, hxname, hlineage⟩ := h.controls.of_mint m hm
  obtain ⟨-, hxc⟩ := hapart x hx hxcontrol
  obtain ⟨-, hcx⟩ := hapart c hc hcontrol
  obtain ⟨hidRef, hidName, hrefName, hidEq, hrefEq⟩ := hxc c hc hcontrol
  obtain ⟨hidRef', hidName', hrefName', -, -⟩ := hcx x hx hxcontrol
  rw [hstamp] at hname
  refine ⟨m, hm, hid, hnumber, ?_⟩
  rcases hlineage with hlineage | hlineage | hlineage
  · rw [← hlineage] at hname
    rcases hname with hname | hname | hname
    · exact .inl (hxid.symm.trans (hidEq hname))
    · exact absurd hname hidRef
    · exact absurd hname hidName
  · rw [← hlineage] at hname
    rcases hname with hname | hname | hname
    · exact absurd hname.symm hidRef'
    · exact .inl (hxid.symm.trans (hrefEq hname))
    · exact absurd hname hrefName
  · rw [← hlineage, ← hxname] at hname
    rcases hname with hname | hname | hname
    · exact absurd hname.symm hidName'
    · exact absurd hname.symm hrefName'
    · exact .inr ⟨hlineage.symm, hxname.symm.trans hname⟩

theorem Traced.own :
    ∃ m ∈ mints, ∃ a ∈ s.beads, m.control = c.id ∧ m.root = a.id ∧ attemptNum a = m.number ∧
      m.name = trimSpace (c.val .stepID) ∧ isAttemptOf c a = true := by
  obtain ⟨m, hm, hid⟩ := h.controls.mem c hc hcontrol
  obtain ⟨x, hx, hxid, -, hxname, hlineage⟩ := h.controls.of_mint m hm
  obtain rfl := eq_of_id_eq_of_nodup hids hx hc (hxid.trans hid)
  obtain ⟨a, ha, haid, hroot, hstamp, hnumber⟩ := h.roots.of_mint m hm
  refine ⟨m, hm, a, ha, hid, haid.symm, hnumber, hxname.symm, ?_⟩
  rw [isAttemptOf_iff, hstamp]
  refine ⟨hroot, ?_⟩
  rcases hlineage with hlineage | hlineage | hlineage
  · exact .inl hlineage.symm
  · exact .inr (.inl hlineage.symm)
  · exact .inr (.inr (hlineage.symm.trans hxname.symm))

theorem Traced.exists_latest (hpositive : ∀ m ∈ mints, 1 ≤ m.number) :
    ∃ a, latestAttempt c s.beads = some a := by
  obtain ⟨m, hm, a, ha, -, -, hnumber, -, hof⟩ := h.own hids hc hcontrol
  have hpos : 0 < attemptNum a := by
    have := hpositive m hm
    omega
  exact exists_latestAttempt (mem_attemptCandidates.mpr ⟨ha, hof, hpos⟩)

end Traced

def Found (w : TracedWorkflow) : Prop :=
  ∀ c ∈ w.store.beads, IsAttemptControl c → c.status ≠ .closed →
    ∃ a, latestAttempt c w.store.beads = some a ∧ w.MadeFor c a

variable {w : TracedWorkflow}

theorem Found.isolated (h : Found w) : Isolated w := by
  intro c hc hcontrol hopen a ha
  obtain ⟨b, hlatest, hmade⟩ := h c hc hcontrol hopen
  rw [findLatestAttempt_of_latest hlatest] at ha
  exact Option.some.inj ha ▸ hmade

/-- The invariant: beads and mints agree, numbers count from one, and controls find their own. -/
structure Lined (w : TracedWorkflow) : Prop where
  ids : (w.store.beads.map Bead.id).Nodup
  traced : Traced w.store.beads w.mints
  positive : ∀ m ∈ w.mints, 1 ≤ m.number
  found : Found w

theorem found_of_isolated (hids : (w.store.beads.map Bead.id).Nodup)
    (htraced : Traced w.store.beads w.mints) (hpositive : ∀ m ∈ w.mints, 1 ≤ m.number)
    (h : Isolated w) : Found w := by
  intro c hc hcontrol hopen
  obtain ⟨a, hlatest⟩ := htraced.exists_latest hids hc hcontrol hpositive
  exact ⟨a, hlatest, h c hc hcontrol hopen a (findLatestAttempt_of_latest hlatest)⟩

theorem latestAttempt_spec {beads : List Bead} (h : latestAttempt c beads = some a) :
    a ∈ beads ∧ isAttemptOf c a = true ∧ 0 < attemptNum a ∧
      ∀ b ∈ beads, isAttemptOf c b = true → attemptNum b ≤ attemptNum a := by
  obtain ⟨ha, hof, hpos⟩ := mem_attemptCandidates.mp (argmax_mem h)
  refine ⟨ha, hof, hpos, fun b hb hb' => ?_⟩
  by_cases hb0 : 0 < attemptNum b
  · exact le_of_mem_argmax (mem_attemptCandidates.mpr ⟨hb, hb', hb0⟩) h
  · omega

theorem Found.changed (h : Found w) {g : Bead → Bead} {t : Store}
    (hg : Changed g w.store t) : Found { w with store := t } := by
  intro c' hc' hcontrol hopen
  have hbeads : t.beads = w.store.beads.map g := by rw [hg.store]
  rw [hbeads] at hc'
  obtain ⟨c, hc, rfl⟩ := mem_map.mp hc'
  have hframe := hg.frame c
  obtain ⟨a, hlatest, m, hm, hcid, haid⟩ := h c hc
    (by rwa [IsAttemptControl, hframe.kind] at hcontrol) fun hclosed =>
      hopen (hg.closed c hc hclosed)
  refine ⟨g a, ?_, m, hm, hcid.trans hframe.1.symm, haid.trans (hg.frame a).1.symm⟩
  have hnum : attemptNum ∘ g = attemptNum := funext fun b => (hg.frame b).attemptNum
  rw [hbeads, latestAttempt, hframe.attemptCandidates, attemptCandidates_map hg.frame,
    latestOf, Search.argmax_map, hnum]
  exact congrArg (Option.map g) hlatest

end Found

/-- The control `c₀` attaches `root` and `rest` with their mints. -/
structure Spawning (w : TracedWorkflow) (c₀ root : Bead) (rest : List Bead) (rm : Mint)
    (bm : List Mint) (t : Store) : Prop where
  lined : Lined w
  mem : c₀ ∈ w.store.beads
  control : IsAttemptControl c₀
  spawned : SpawnedFor c₀ root rest rm bm
  beads : t.beads = w.store.beads ++ root :: rest
  ids : (t.beads.map Bead.id).Nodup
  apart : Apart t
  names : (bm.map Mint.name).Nodup
  numbers : ∀ m ∈ bm, (1 ≤ m.number ∧ m.number ≤ rm.number) ∧ (m.stamp = m.name ∨ m.number = 1)
  positive : 1 ≤ rm.number

def UnshadowedBy (s : Store) (id : String) (made : List (String × ℕ)) : Prop :=
  ∀ p ∈ made,
    (∀ a ∈ s.beads, IsAttemptRoot a → trimSpace (a.val .controlFor) = p.1 → attemptNum a < p.2) ∧
    ∀ c ∈ s.beads, IsAttemptControl c → c.status ≠ .closed → c.id ≠ id →
      trimSpace (c.val .stepID) = p.1 →
        ∃ a ∈ s.beads, isAttemptOf c a = true ∧ (p.2 : ℤ) ≤ attemptNum a

namespace Spawning

variable {w : TracedWorkflow} {c₀ root : Bead} {rest : List Bead} {rm : Mint} {bm : List Mint}
  {t : Store} (h : Spawning w c₀ root rest rm bm t)
include h

theorem traced : Traced t.beads (w.mints ++ rm :: bm) := by
  rw [h.beads]
  exact h.lined.traced.attach h.mem h.control h.spawned

variable {a b c : Bead} {m : Mint}

theorem old_mem (hb : b ∈ w.store.beads) : b ∈ t.beads := by
  rw [h.beads]
  exact mem_append_left _ hb

theorem new_mem (hb : b ∈ root :: rest) : b ∈ t.beads := by
  rw [h.beads]
  exact mem_append_right _ hb

theorem disjoint {b' : Bead} (hb : b ∈ w.store.beads) (hb' : b' ∈ root :: rest) :
    b.id ≠ b'.id := by
  have hids := h.ids
  rw [h.beads, map_append] at hids
  exact (nodup_append.mp hids).2.2 _ (mem_map_of_mem hb) _ (mem_map_of_mem hb')

theorem bm_root (hm : m ∈ bm) : ∃ b ∈ root :: rest, b.id = m.root ∧ IsAttemptRoot b ∧
    trimSpace (b.val .controlFor) = m.stamp ∧ attemptNum b = m.number := by
  obtain ⟨b, hb, hmint⟩ := h.spawned.members.roots.of_mint m hm
  exact ⟨b, mem_cons_of_mem _ hb, hmint⟩

theorem bm_control (hm : m ∈ bm) : ∃ b ∈ root :: rest, b.id = m.control ∧
    IsAttemptControl b ∧ trimSpace (b.val .stepID) = m.name := by
  obtain ⟨b, hb, hid, hcontrol, hname, -⟩ := h.spawned.members.controls.of_mint m hm
  exact ⟨b, mem_cons_of_mem _ hb, hid, hcontrol, hname⟩

theorem mint_of_old (ha : a ∈ w.store.beads) (hm : m ∈ w.mints ++ rm :: bm)
    (hid : m.root = a.id) : m ∈ w.mints := by
  rw [mem_append, mem_cons] at hm
  rcases hm with hm | rfl | hm
  · exact hm
  · exact absurd (hid.symm.trans h.spawned.root_id.symm) (h.disjoint ha (mem_cons_self ..))
  · obtain ⟨b, hb, hbid, -⟩ := h.bm_root hm
    exact absurd (hid.symm.trans hbid.symm) (h.disjoint ha hb)

theorem mint_of_new (ha : a ∈ root :: rest) (hm : m ∈ w.mints ++ rm :: bm)
    (hid : m.root = a.id) : m = rm ∨ m ∈ bm := by
  rw [mem_append, mem_cons] at hm
  rcases hm with hm | hm
  · obtain ⟨b, hb, hbid, -⟩ := h.lined.traced.roots.of_mint m hm
    exact absurd (hbid.trans hid) (h.disjoint hb ha)
  · exact hm

theorem control_of_old (hc : c ∈ w.store.beads) (hm : m ∈ bm) :
    m.control ≠ c.id := by
  obtain ⟨b, hb, hid, -⟩ := h.bm_control hm
  exact fun heq => h.disjoint hc hb (heq.symm.trans hid.symm)

theorem control_of_new (hc : c ∈ root :: rest)
    (hm : m ∈ w.mints ++ rm :: bm) (hid : m.control = c.id) : m ∈ bm := by
  rw [mem_append, mem_cons] at hm
  rcases hm with hm | rfl | hm
  · obtain ⟨b, hb, hbid, -⟩ := h.lined.traced.controls.of_mint m hm
    exact absurd (hbid.trans hid) (h.disjoint hb hc)
  · exact absurd (h.spawned.control.symm.trans hid) (h.disjoint h.mem hc)
  · exact hm

theorem rm_stamp : rm.stamp ≠ rm.name := by
  rw [h.spawned.stamp, h.spawned.name]
  exact ((h.apart c₀ (h.old_mem h.mem) h.control).2 c₀ (h.old_mem h.mem) h.control).2.1

theorem mint_eq {m' : Mint} (hm : m ∈ bm) (hm' : m' ∈ bm) (hname : m.name = m'.name) : m = m' :=
  inj_on_of_nodup_map h.names hm hm' hname

/-- The new attempts that answer to an old control. -/
theorem answers_old (hc : c ∈ w.store.beads) (hcontrol : IsAttemptControl c)
    (hb : b ∈ root :: rest) (hof : isAttemptOf c b = true) :
    (b = root ∧ c.id = c₀.id) ∨
      ∃ m ∈ bm, attemptNum b = m.number ∧ m.name = trimSpace (c.val .stepID) := by
  obtain ⟨m, hm, hid, hnumber, hcase⟩ := h.traced.own_or_named h.ids (h.old_mem hc) hcontrol
    h.apart (h.new_mem hb) hof
  rcases h.mint_of_new hb hm hid with rfl | hbm
  · rcases hcase with hown | ⟨hstamp, -⟩
    · left
      refine ⟨?_, hown.symm.trans h.spawned.control⟩
      exact eq_of_id_eq_of_nodup h.ids (h.new_mem hb) (h.new_mem (mem_cons_self ..))
        (hid.symm.trans h.spawned.root_id.symm)
    · exact absurd hstamp h.rm_stamp
  · rcases hcase with hown | ⟨-, hname⟩
    · exact absurd hown (h.control_of_old hc hbm)
    · exact .inr ⟨m, hbm, hnumber, hname⟩

theorem old_answers (hc : c ∈ root :: rest) (hcontrol : IsAttemptControl c)
    (ha : a ∈ w.store.beads) (hof : isAttemptOf c a = true) :
    IsAttemptRoot a ∧ trimSpace (a.val .controlFor) = trimSpace (c.val .stepID) := by
  obtain ⟨hroot, -⟩ := isAttemptOf_iff.mp hof
  obtain ⟨m, hm, hid, -, hcase⟩ := h.traced.own_or_named h.ids (h.new_mem hc) hcontrol h.apart
    (h.old_mem ha) hof
  obtain ⟨b, hb, hbid, -, hstamp, -⟩ := h.traced.roots.of_mint m hm
  obtain rfl := eq_of_id_eq_of_nodup h.ids hb (h.old_mem ha) (hbid.trans hid)
  refine ⟨hroot, ?_⟩
  rcases hcase with hown | ⟨hbare, hname⟩
  · have hmem := h.mint_of_old ha hm hid
    obtain ⟨x, hx, hxid, -⟩ := h.lined.traced.controls.of_mint m hmem
    exact absurd (hxid.trans hown) (h.disjoint hx hc)
  · rw [hstamp, hbare, hname]

theorem new_answers (hc : c ∈ root :: rest) (hcontrol : IsAttemptControl c)
    (hb : b ∈ root :: rest) (hof : isAttemptOf c b = true) (hm : m ∈ bm)
    (hmc : m.control = c.id) (hname : m.name = trimSpace (c.val .stepID)) :
    m.root = b.id ∧ attemptNum b = m.number := by
  obtain ⟨m', hm', hid, hnumber, hcase⟩ := h.traced.own_or_named h.ids (h.new_mem hc) hcontrol
    h.apart (h.new_mem hb) hof
  have hsame : m' ∈ bm ∧ m'.name = m.name := by
    rcases hcase with hown | ⟨hbare, hname'⟩
    · have hbm := h.control_of_new hc hm' hown
      obtain ⟨x, hx, hxid, -, hxname⟩ := h.bm_control hbm
      obtain rfl := eq_of_id_eq_of_nodup h.ids (h.new_mem hx) (h.new_mem hc) (hxid.trans hown)
      exact ⟨hbm, hxname.symm.trans hname.symm⟩
    · rcases h.mint_of_new hb hm' hid with rfl | hbm
      · exact absurd hbare h.rm_stamp
      · exact ⟨hbm, hname'.trans hname.symm⟩
  obtain rfl := h.mint_eq hsame.1 hm hsame.2
  exact ⟨hid, hnumber⟩

theorem latest_append (c : Bead) : latestAttempt c t.beads =
    latestOf (attemptCandidates c w.store.beads ++ attemptCandidates c (root :: rest)) := by
  rw [latestAttempt, h.beads, attemptCandidates_append]

/-- The root of the attempt answers to the control that spawned it, before the members. -/
theorem latest_root : latestAttempt c₀ (root :: rest) = some root := by
  have hof : isAttemptOf c₀ root = true := by
    rw [isAttemptOf_iff]
    exact ⟨h.spawned.isRoot, .inl (h.spawned.root_stamp.trans h.spawned.stamp)⟩
  have hpos : 0 < attemptNum root := by
    have := h.positive
    have := h.spawned.root_number
    omega
  have hhead : attemptCandidates c₀ (root :: rest) = [root] ++ attemptCandidates c₀ rest := by
    simp [attemptCandidates, hof, hpos]
  rw [latestAttempt, hhead]
  refine Search.argmax_append_left rfl fun b hb => ?_
  obtain ⟨hmem, hb, -⟩ := mem_attemptCandidates.mp hb
  rcases h.answers_old h.mem h.control (mem_cons_of_mem _ hmem) hb with
    ⟨rfl, -⟩ | ⟨m, hm, hnumber, -⟩
  · exact le_rfl
  · have := (h.numbers m hm).1.2
    have := h.spawned.root_number
    omega

variable (hun : UnshadowedBy w.store c₀.id (bm.map fun m => (m.name, m.number)))
include hun

theorem found_old (hc : c ∈ w.store.beads)
    (hcontrol : IsAttemptControl c) (hopen : c.status ≠ .closed) :
    ∃ a, latestAttempt c t.beads = some a ∧
      ∃ m ∈ w.mints ++ rm :: bm, m.control = c.id ∧ m.root = a.id := by
  obtain ⟨a₀, hlatest, m₀, hm₀, hmc, hmr⟩ := h.lined.found c hc hcontrol hopen
  rw [h.latest_append]
  by_cases hspawner : c.id = c₀.id
  · obtain rfl := eq_of_id_eq_of_nodup h.lined.ids hc h.mem hspawner
    by_cases hnew : attemptNum a₀ < attemptNum root
    · refine ⟨root, Search.argmax_append_right h.latest_root fun a ha => ?_, rm, by simp,
        h.spawned.control, h.spawned.root_id.symm⟩
      exact (le_of_mem_argmax ha hlatest).trans_lt hnew
    · refine ⟨a₀, Search.argmax_append_left hlatest fun b hb => ?_, m₀,
        mem_append_left _ hm₀, hmc, hmr⟩
      exact (le_of_mem_argmax hb h.latest_root).trans (not_lt.mp hnew)
  · refine ⟨a₀, Search.argmax_append_left hlatest fun b hb => ?_, m₀,
      mem_append_left _ hm₀, hmc, hmr⟩
    obtain ⟨hmem, hb, -⟩ := mem_attemptCandidates.mp hb
    rcases h.answers_old hc hcontrol hmem hb with ⟨-, heq⟩ | ⟨m, hm, hnumber, hname⟩
    · exact absurd heq hspawner
    · obtain ⟨a, ha, hof, hle⟩ :=
        (hun _ (mem_map_of_mem hm)).2 c hc hcontrol hopen hspawner hname.symm
      have hmax := (latestAttempt_spec hlatest).2.2.2 a ha hof
      omega

theorem found_new (hc : c ∈ root :: rest) (hcontrol : IsAttemptControl c) :
    ∃ a, latestAttempt c t.beads = some a ∧
      ∃ m ∈ w.mints ++ rm :: bm, m.control = c.id ∧ m.root = a.id := by
  obtain ⟨m, hm, a, ha, hmc, hmr, hnumber, hname, hof⟩ := h.traced.own h.ids (h.new_mem hc) hcontrol
  have hbm := h.control_of_new hc hm hmc
  obtain ⟨x, hx, hxid, -⟩ := h.bm_root hbm
  obtain rfl := eq_of_id_eq_of_nodup h.ids ha (h.new_mem hx) (hmr.symm.trans hxid.symm)
  have hpos : 0 < attemptNum a := by
    have := (h.numbers m hbm).1.1
    omega
  obtain ⟨b, hlatest⟩ := exists_latestAttempt (mem_attemptCandidates.mpr ⟨hx, hof, hpos⟩)
  obtain ⟨hb, hbof, -⟩ := mem_attemptCandidates.mp (argmax_mem hlatest)
  obtain ⟨hroot, hbnum⟩ := h.new_answers hc hcontrol hb hbof hbm hmc hname
  refine ⟨b, ?_, m, hm, hmc, hroot⟩
  rw [h.latest_append]
  refine Search.argmax_append_right hlatest fun a' ha' => ?_
  obtain ⟨hmem, hof', -⟩ := mem_attemptCandidates.mp ha'
  obtain ⟨hroot', hstamp'⟩ := h.old_answers hc hcontrol hmem hof'
  rw [hbnum]
  exact (hun _ (mem_map_of_mem hbm)).1 a' hmem hroot' (hstamp'.trans hname.symm)

theorem found_of_unshadowed : Found { store := t, mints := w.mints ++ rm :: bm } := by
  intro c hc hcontrol hopen
  rcases mem_append.mp (h.beads ▸ hc) with hc | hc
  · exact h.found_old hun hc hcontrol hopen
  · exact h.found_new hun hc hcontrol

omit hun

/-- An older attempt with the stamp of a new one and a number as high takes its place. -/
theorem unshadowed_new (hfound : Found { store := t, mints := w.mints ++ rm :: bm })
    (hopened : ∀ b ∈ root :: rest, IsAttemptControl b → b.status ≠ .closed) {m : Mint} (hm : m ∈ bm)
    {a : Bead} (ha : a ∈ w.store.beads) (hroot : IsAttemptRoot a)
    (hstamp : trimSpace (a.val .controlFor) = m.name) : attemptNum a < m.number := by
  by_contra hle
  obtain ⟨c, hc, hcid, hcontrol, hname⟩ := h.bm_control hm
  obtain ⟨x, hlatest, m', hm', hmc, hmr⟩ := hfound c (h.new_mem hc) hcontrol (hopened c hc hcontrol)
  have hbm := h.control_of_new hc hm' hmc
  obtain ⟨y, hy, hyid, -, hyname⟩ := h.bm_control hbm
  obtain rfl := eq_of_id_eq_of_nodup h.ids (h.new_mem hy) (h.new_mem hc) (hyid.trans hmc)
  obtain rfl := h.mint_eq hbm hm (hyname.symm.trans hname)
  obtain ⟨b, hb, hbid, -, -, hbnum⟩ := h.bm_root hbm
  obtain ⟨hx, -⟩ := latestAttempt_spec hlatest
  obtain rfl := eq_of_id_eq_of_nodup h.ids hx (h.new_mem hb) (hmr.symm.trans hbid.symm)
  have hof : isAttemptOf y a = true :=
    isAttemptOf_iff.mpr ⟨hroot, .inr (.inr (hstamp.trans hname.symm))⟩
  have hpos : 0 < attemptNum a := by
    have := (h.numbers m' hm).1.1
    omega
  have hold := Search.mem_left_of_argmax_append ((h.latest_append y).symm.trans hlatest)
    (mem_attemptCandidates.mpr ⟨ha, hof, hpos⟩) (by omega)
  exact h.disjoint (mem_attemptCandidates.mp hold).1 hb rfl

/-- A new attempt with the step id of another open control takes the place of its attempts. -/
theorem unshadowed_old (hfound : Found { store := t, mints := w.mints ++ rm :: bm })
    (hm : m ∈ bm) {c : Bead} (hc : c ∈ w.store.beads) (hcontrol : IsAttemptControl c)
    (hopen : c.status ≠ .closed) (hother : c.id ≠ c₀.id)
    (hname : trimSpace (c.val .stepID) = m.name) :
    ∃ a ∈ w.store.beads, isAttemptOf c a = true ∧ (m.number : ℤ) ≤ attemptNum a := by
  rcases (h.numbers m hm).2 with hbare | hone
  · by_contra hnone
    push Not at hnone
    obtain ⟨b, hb, -, hroot, hstamp, hnumber⟩ := h.bm_root hm
    have hof : isAttemptOf c b = true :=
      isAttemptOf_iff.mpr ⟨hroot, .inr (.inr (hstamp.trans (hbare.trans hname.symm)))⟩
    obtain ⟨x, hlatest, m', hm', hmc, hmr⟩ := hfound c (h.old_mem hc) hcontrol hopen
    obtain ⟨hx, hxof, -, hmax⟩ := latestAttempt_spec hlatest
    have hxnum := hmax b (h.new_mem hb) hof
    have hxnew : x ∈ root :: rest := by
      refine (mem_append.mp (h.beads ▸ hx)).resolve_left fun hxold => ?_
      have := hnone x hxold hxof
      omega
    rcases h.mint_of_new hxnew hm' hmr with rfl | hbm
    · exact hother (hmc.symm.trans h.spawned.control)
    · exact h.control_of_old hc hbm hmc
  · obtain ⟨a, hlatest, -⟩ := h.lined.found c hc hcontrol hopen
    obtain ⟨ha, hof, hpos, -⟩ := latestAttempt_spec hlatest
    refine ⟨a, ha, hof, ?_⟩
    rw [hone]
    exact_mod_cast hpos

/-- Controls keep finding their own attempts exactly when no attempt shadows another. -/
theorem found_iff (hopened : ∀ b ∈ root :: rest, IsAttemptControl b → b.status ≠ .closed) :
    Found { store := t, mints := w.mints ++ rm :: bm } ↔
      UnshadowedBy w.store c₀.id (bm.map fun m => (m.name, m.number)) := by
  constructor
  · intro hfound p hp
    obtain ⟨m, hm, rfl⟩ := mem_map.mp hp
    exact ⟨fun _ => h.unshadowed_new hfound hopened hm, fun _ => h.unshadowed_old hfound hm⟩
  · exact h.found_of_unshadowed

theorem lined_of_isolated (hiso : Isolated { store := t, mints := w.mints ++ rm :: bm }) :
    Lined { store := t, mints := w.mints ++ rm :: bm } := by
  have hpositive : ∀ m ∈ w.mints ++ rm :: bm, 1 ≤ m.number := by
    rw [forall_mem_append, forall_mem_cons]
    exact ⟨h.lined.positive, h.positive, fun m hm => (h.numbers m hm).1.1⟩
  exact ⟨h.ids, h.traced, hpositive, found_of_isolated h.ids h.traced hpositive hiso⟩

end Spawning

section Steps

variable {w w' : TracedWorkflow}

theorem Traced.changed {beads : List Bead} {mints : List Mint} (h : Traced beads mints)
    {g : Bead → Bead} (hg : ∀ b, Frame b (g b)) : Traced (beads.map g) mints := by
  rw [← map_id mints]
  constructor
  case controls =>
    refine h.controls.map (ρ := id) (fun _ => rfl) (fun b => (hg b).1) (fun b => ?_) ?_
    · exact (hg b).isAttemptControl.mp
    · rintro m - b - hc hmint
      refine ⟨(hg b).isAttemptControl.mpr hc, ?_⟩
      rwa [Mint.ControlledBy, (hg b).1, (hg b).2 .stepID rfl, (hg b).2 .stepRef rfl]
  case roots =>
    refine h.roots.map (ρ := id) (fun _ => rfl) (fun b => (hg b).1) (fun b hr => ?_) ?_
    · rwa [isAttemptRoot_iff, (hg b).tag, ← isAttemptRoot_iff] at hr
    · rintro m - b - hr hmint
      refine ⟨by rwa [isAttemptRoot_iff, (hg b).tag, ← isAttemptRoot_iff], ?_⟩
      rwa [Mint.RootedAt, (hg b).2 .controlFor rfl, (hg b).attemptNum]

theorem Lined.attach_quiet (h : Lined w) {attached : Store}
    (hids : ((w.store.attach attached).beads.map Bead.id).Nodup)
    (hquiet : ∀ b ∈ attached.beads, ¬ IsAttemptControl b ∧ ¬ IsAttemptRoot b) :
    Lined { w with store := w.store.attach attached } where
  ids := hids
  positive := h.positive
  traced := by
    refine h.traced.congr (fun b hb => mem_append_left _ hb) fun b hb => ?_
    exact (mem_append.mp hb).imp_right (hquiet b)
  found := by
    intro c hc hcontrol hopen
    rcases mem_append.mp hc with hc | hc
    · obtain ⟨a, hlatest, hmade⟩ := h.found c hc hcontrol hopen
      refine ⟨a, ?_, hmade⟩
      have hnone : attemptCandidates c attached.beads = [] := by
        rw [eq_nil_iff_forall_not_mem]
        intro b hb
        obtain ⟨hb, hof, -⟩ := mem_attemptCandidates.mp hb
        exact (hquiet b hb).2 (isAttemptOf_iff.mp hof).1
      show latestAttempt c (w.store.beads ++ attached.beads) = some a
      rw [latestAttempt, attemptCandidates_append, hnone, append_nil]
      exact hlatest
    · exact absurd hcontrol (hquiet c hc).1

theorem Lined.act (h : Lined w) {label : Label} {t : Store} (hquiet : label.Quiet)
    (hstep : step w.store label = some t) : Lined { w with store := t } := by
  rcases step_cases h.ids hstep with ⟨g, hg⟩ | ⟨c, attached, rfl, -, -, hatt, rfl⟩
  · constructor
    case ids => exact hg.ids ▸ h.ids
    case traced =>
      rw [hg.store]
      exact h.traced.changed hg.frame
    case positive => exact h.positive
    case found => exact h.found.changed hg
  · exact h.attach_quiet hatt.ids hquiet

variable {body : Forest Step} {ids : String ↪ String}

theorem Lined.spawning (h : Lined w) {id : String} {owner : Step}
    {n : ℕ} (hadvance : Advances w (.spawn ids id owner body n) w') :
    ∃ c₀ root rest rm t, c₀.id = id ∧
      w' = { store := t, mints := w.mints ++ rm :: memberMints ids owner c₀ n body } ∧
      Spawning w c₀ root rest rm (memberMints ids owner c₀ n body) t ∧
      ∀ b ∈ root :: rest, IsAttemptControl b → b.status ≠ .closed := by
  obtain ⟨hstep, ⟨howner, hbody, hn⟩, hapart⟩ := hadvance
  obtain ⟨c₀, hget, hstep⟩ := Option.bind_eq_some_iff.mp hstep
  obtain ⟨t, ht, hstep⟩ := Option.bind_eq_some_iff.mp hstep
  obtain ⟨hcontrol, hw'⟩ := Option.ite_none_right_eq_some.mp hstep
  cases hw'
  have hmem : c₀ ∈ w.store.beads := Keyed.mem_of_lookup hget
  have hid : c₀.id = id := Keyed.key_of_lookup hget
  have hkind : c₀.kind ≠ Kind.scopeCheck := by
    rcases hcontrol with hkind | hkind <;> rw [hkind] <;> decide
  obtain ⟨hatt, rfl⟩ := step_spawn hget hkind ht
  have hnamed : trimSpace c₀.id ≠ "" := (hapart c₀ (mem_append_left _ hmem) hcontrol).1
  obtain ⟨root, rest, rm, hbeads, hnumber, hmints, hspawned⟩ :=
    spawnNextAttempt_spawned ids n howner hbody hnamed
  refine ⟨c₀, root, rest, rm, _, hid, by rw [hmints], ?_, ?_⟩
  · constructor
    case lined => exact h
    case mem => exact hmem
    case control => exact hcontrol
    case spawned => exact hspawned
    case beads => exact congrArg (w.store.beads ++ ·) hbeads
    case ids => exact hatt.ids
    case apart => exact hapart
    case names =>
      rw [map_map]
      exact hbody.ids.sublist (respawnedMints_names body)
    case numbers =>
      rw [hnumber, forall_mem_map]
      exact fun m hm => (respawnedMints_numbers hn hm :)
    case positive => rwa [hnumber]
  · intro b hb hcb hclosed
    rw [← hbeads] at hb
    rcases hatt.opened b hb with hopen | hspec
    · rw [hopen] at hclosed
      cases hclosed
    · rw [IsAttemptControl, hspec] at hcb
      exact absurd hcb (by decide)

theorem unshadowed_iff {id pfx : String} {owner : Step}
    {n : ℕ} : Unshadowed w.store (.spawn ids id owner body n) ↔
      UnshadowedBy w.store id (((respawnedMints pfx n body).map (Mint.rename ids)).map
        fun m => (m.name, m.number)) := by
  have hmade : ((respawnedMints pfx n body).map (Mint.rename ids)).map
      (fun m => (m.name, m.number)) = (remade n body).map fun p => (p.1.id, p.2) := by
    rw [map_map]
    exact respawnedMints_remade pfx n body
  rw [hmade, UnshadowedBy, forall_mem_map]
  rfl

theorem Lined.step (h : Lined w) {e : LineageEvent} (hadvance : Advances w e w') :
    (Isolated w' ↔ Unshadowed w.store e) ∧ (Isolated w' → Lined w') := by
  cases e with
  | act label =>
    obtain ⟨hquiet, hstep⟩ := Option.ite_none_right_eq_some.mp hadvance.1
    obtain ⟨t, ht, rfl⟩ := Option.map_eq_some_iff.mp hstep
    have hlined := h.act hquiet ht
    exact ⟨⟨fun _ => trivial, fun _ => hlined.found.isolated⟩, fun _ => hlined⟩
  | spawn ids id owner body n =>
    obtain ⟨c₀, root, rest, rm, t, rfl, rfl, hspawning, hopened⟩ := h.spawning hadvance
    have hlined := hspawning.lined_of_isolated
    refine ⟨?_, hlined⟩
    rw [unshadowed_iff, ← hspawning.found_iff hopened]
    exact ⟨fun hiso => (hlined hiso).found, Found.isolated⟩

end Steps

section Start

variable {f : Forest Step} {ids : String ↪ String} {name : String}

theorem lined_compiled (h : Authored f) (hfresh : FreshControls (applyAttempts f).flatten)
    (hissues : ((issues name (applyGraphControls (applyAttempts f) true)).map Prod.fst).Nodup)
    (hapart : Apart (compiledWorkflow ids name f).store) : Lined (compiledWorkflow ids name f) := by
  have hids : ((compiledWorkflow ids name f).store.beads.map Bead.id).Nodup :=
    (workflow_settling hfresh hissues).ids
  let steps := (toRecipe name (applyGraphControls (applyAttempts f) true)).steps
  have hframe : ∀ x, Frame (stepToBead ids (fun id =>
      if id ∈ steps.map RecipeStep.id then some (ids id) else none) x)
      (makeBead ids .graphApply steps x) := fun _ => .refl _
  have htraced : Traced (compiledWorkflow ids name f).store.beads
      (compiledWorkflow ids name f).mints :=
    (described_recipe name hfresh (described_compiled h)).traced hframe
  have hnames : ((compiledWorkflow ids name f).mints.map Mint.name).Nodup := by
    rw [compiledWorkflow, map_map, map_map]
    exact h.ids.sublist (compiledMints_names f)
  have hone : ∀ m ∈ (compiledWorkflow ids name f).mints, m.number = 1 := by
    intro m'' hm''
    obtain ⟨m', hm', rfl⟩ := mem_map.mp hm''
    obtain ⟨m, hm, rfl⟩ := mem_map.mp hm'
    exact (compiledMints_fromCompiler h m hm).number
  have hpositive : ∀ m ∈ (compiledWorkflow ids name f).mints, 1 ≤ m.number := fun m hm =>
    (hone m hm).ge
  refine ⟨hids, htraced, hpositive, fun c hc hcontrol _ => ?_⟩
  obtain ⟨a, hlatest⟩ := htraced.exists_latest hids hc hcontrol hpositive
  obtain ⟨ha, hof, -⟩ := latestAttempt_spec hlatest
  obtain ⟨m, hm, -, -, hmc, -, -, hname, -⟩ := htraced.own hids hc hcontrol
  obtain ⟨m', hm', hmr, -, hown | ⟨-, hname'⟩⟩ :=
    htraced.own_or_named hids hc hcontrol hapart ha hof
  · exact ⟨a, hlatest, m', hm', hown, hmr⟩
  · obtain rfl := inj_on_of_nodup_map hnames hm' hm (hname'.trans hname.symm)
    exact ⟨a, hlatest, m', hm', hmc, hmr⟩

/-- In every run of a compiled workflow whose controls keep their names apart, each control finds no
attempt but its own exactly as long as every spawned iteration is unshadowed. -/
theorem lineage_isolated_iff (h : Authored f) (hfresh : FreshControls (applyAttempts f).flatten)
    (hissues : ((issues name (applyGraphControls (applyAttempts f) true)).map Prod.fst).Nodup)
    (hapart : Apart (compiledWorkflow ids name f).store) :
    Isolated (compiledWorkflow ids name f) ∧
      ∀ (es : List LineageEvent) (w : TracedWorkflow),
        Run (fun w e w' => Advances w e w' ∧ Isolated w') (compiledWorkflow ids name f) es w ↔
          Run (fun w e w' => Advances w e w' ∧ Unshadowed w.store e)
            (compiledWorkflow ids name f) es w := by
  have hstart := lined_compiled h hfresh hissues hapart
  refine ⟨hstart.found.isolated, fun es w => ⟨fun hrun => ?_, fun hrun => ?_⟩⟩
  · refine hrun.mono_of_invariant Lined ?_ ?_ hstart
    · exact fun w e w' hw hstep => (hw.step hstep.1).2 hstep.2
    · exact fun w e w' hw hstep => ⟨hstep.1, (hw.step hstep.1).1.mp hstep.2⟩
  · refine hrun.mono_of_invariant Lined ?_ ?_ hstart
    · intro w e w' hw hstep
      obtain ⟨hiff, hlined⟩ := hw.step hstep.1
      exact hlined (hiff.mpr hstep.2)
    · exact fun w e w' hw hstep => ⟨hstep.1, (hw.step hstep.1).1.mpr hstep.2⟩

def beadIDs : String ↪ String where
  toFun x := "#" ++ x
  inj' a b h := by simpa using h

/-- The workflow of a retry in a check is isolated as long as its iterations are unshadowed. -/
theorem lineage_isolated_fetchLoop : Isolated (compiledWorkflow beadIDs "mol" fetchLoop) ∧
    ∀ (es : List LineageEvent) (w : TracedWorkflow),
      Run (fun w e w' => Advances w e w' ∧ Isolated w') (compiledWorkflow beadIDs "mol" fetchLoop)
        es w ↔
      Run (fun w e w' => Advances w e w' ∧ Unshadowed w.store e)
        (compiledWorkflow beadIDs "mol" fetchLoop) es w :=
  lineage_isolated_iff (by decide +kernel) (by decide +kernel) (by decide +kernel)
    (by decide +kernel)

end Start

section Stale

theorem Apart.of_survivors {s t : Store} (h : Apart t)
    (hsurvive : ∀ b ∈ s.beads, ∃ b' ∈ t.beads, Frame b b') : Apart s := by
  intro c hc hcontrol
  obtain ⟨c', hc', hframe⟩ := hsurvive c hc
  obtain ⟨hne, hothers⟩ := h c' hc' (hframe.isAttemptControl.mpr hcontrol)
  rw [hframe.1] at hne
  refine ⟨hne, fun d hd hdcontrol => ?_⟩
  obtain ⟨d', hd', hframe'⟩ := hsurvive d hd
  have hapart := hothers d' hd' (hframe'.isAttemptControl.mpr hdcontrol)
  rwa [hframe.1, hframe'.1, hframe.2 .stepRef rfl, hframe'.2 .stepRef rfl,
    hframe'.2 .stepID rfl] at hapart

variable {w w' : TracedWorkflow}

theorem advance_step {e : LineageEvent} (h : advance w e = some w') :
    ∃ label, step w.store label = some w'.store := by
  cases e with
  | act label =>
    obtain ⟨-, hstep⟩ := Option.ite_none_right_eq_some.mp h
    obtain ⟨t, ht, rfl⟩ := Option.map_eq_some_iff.mp hstep
    exact ⟨label, ht⟩
  | spawn ids id owner body n =>
    obtain ⟨c, -, h⟩ := Option.bind_eq_some_iff.mp h
    obtain ⟨t, ht, h⟩ := Option.bind_eq_some_iff.mp h
    obtain ⟨-, h⟩ := Option.ite_none_right_eq_some.mp h
    cases h
    exact ⟨_, ht⟩

theorem run_advances {es : List LineageEvent}
    (hrun : Run (fun w e w' => StepOf advance w e w' ∧ e.Stored) w es w')
    (hids : (w.store.beads.map Bead.id).Nodup) (hapart : Apart w'.store) :
    Apart w.store ∧ Run Advances w es w' := by
  induction hrun with
  | nil => exact ⟨hapart, .nil _⟩
  | cons hstep _ ih =>
    obtain ⟨label, hlabel⟩ := advance_step hstep.1
    obtain ⟨hmid, htail⟩ := ih (step_ids hids hlabel) hapart
    refine ⟨hmid.of_survivors fun b hb => ?_, .cons ⟨hstep.1, hstep.2, hmid⟩ htail⟩
    obtain ⟨b', hb', hframe, -⟩ := step_mem hids hlabel hb
    exact ⟨b', hb', hframe⟩

instance (s : Step) : Decidable (WorkStep s) :=
  decidable_of_iff' _ (workStep_iff s)

instance (e : LineageEvent) : Decidable e.Stored :=
  match e with
  | .act _ => .isTrue trivial
  | .spawn _ _ owner body attempt =>
    inferInstanceAs (Decidable (WorkStep owner ∧ Authored body ∧ 1 ≤ attempt))

def runStep : Step := { id := "r", retry := some { maxAttempts := 3 } }

def fixLoop : Step := { id := "f", ralph := some { maxAttempts := 2 } }

def shipLoop : Step := { id := "s", ralph := some { maxAttempts := 3 } }

def fixBody : Forest Step := .cons runStep .nil .nil

def shipBody : Forest Step := .cons fixLoop fixBody .nil

def shipping : Forest Step := .cons shipLoop shipBody .nil

def failedHard : Result where
  outcome := Outcome.fail
  failureClass := "hard"

def passed : Result where
  outcome := Outcome.pass

def ranOnce (iteration : String) (result : Result) : List LineageEvent :=
  [.act (.finish (iteration ++ ".r.attempt.1") result),
    .act (.process (iteration ++ ".r.attempt.1-scope-check") (.settle {})),
    .act (.process (iteration ++ ".r") (.settle result))]

/-- The first iteration of the outer check `s` fails, in the second the inner check `f` needs two,
and in the third the retry `r` fails transiently. -/
def staleEvents : List LineageEvent :=
  ranOnce "#m.s.iteration.1.f.iteration.1" failedHard ++
  [.act (.process "#m.s.iteration.1.f.iteration.1.r-scope-check" (.settle {})),
    .spawn beadIDs "#m.s" shipLoop shipBody 2] ++
  ranOnce "#m.s.iteration.2.f.iteration.1" passed ++
  [.act (.process "#m.s.iteration.2.f.iteration.1.r-scope-check" (.settle {})),
    .spawn beadIDs "#m.s.iteration.2.f" fixLoop fixBody 2] ++
  ranOnce "#m.s.iteration.2.f.iteration.2" passed ++
  [.act (.process "#m.s.iteration.2.f.iteration.2.r-scope-check" (.settle {})),
    .act (.process "#m.s.iteration.2.f" (.settle passed)),
    .act (.process "#m.s.iteration.2.f-scope-check" (.settle {})),
    .spawn beadIDs "#m.s" shipLoop shipBody 3,
    .act (.finish "#m.s.iteration.3.f.iteration.1.r.attempt.1" transientFailure),
    .act (.process "#m.s.iteration.3.f.iteration.1.r.attempt.1-scope-check"
      (.settle {}))]

/-- The retry control of the third iteration is ready, and takes the attempt of the second one for
its own. -/
def RunsStale (w : TracedWorkflow) : Bool :=
  (w.store.get "#m.s.iteration.3.f.iteration.1.r").any fun c =>
    w.store.ready c && decide (IsAttemptControl c) && (findLatestAttempt w.store c).any fun a =>
      a.id == "#m.s.iteration.2.f.iteration.2.r.attempt.1" &&
        w.mints.all fun m => m.control != c.id || m.root != a.id

theorem staleEvents_exec : (exec (fun w e => if e.Stored then advance w e else none)
      (compiledWorkflow beadIDs "m" shipping) staleEvents).any (fun w =>
        RunsStale w && decide (Apart w.store)) = true := by
  decide +kernel

/-- The retry control of the third outer iteration takes an attempt of the second one for its own,
which failed. -/
theorem staleAttempt_found :
    ∃ w, Run Advances (compiledWorkflow beadIDs "m" shipping) staleEvents w ∧ ¬ Isolated w := by
  obtain ⟨w, hexec, hw⟩ := (Option.any_eq_true ..).mp staleEvents_exec
  rw [Bool.and_eq_true] at hw
  obtain ⟨hstale, hapart⟩ := hw
  have hids : ((compiledWorkflow beadIDs "m" shipping).store.beads.map Bead.id).Nodup :=
    (workflow_settling (by decide +kernel) (by decide +kernel)).ids
  have hrun := run_of_exec_guarded hexec
  refine ⟨w, (run_advances hrun hids (of_decide_eq_true hapart)).2, fun hiso => ?_⟩
  obtain ⟨c, hget, hc⟩ := (Option.any_eq_true ..).mp hstale
  simp only [Bool.and_eq_true, decide_eq_true_eq] at hc
  obtain ⟨⟨hready, hcontrol⟩, ha⟩ := hc
  obtain ⟨a, hfind, ha⟩ := (Option.any_eq_true ..).mp ha
  have hopen : c.status ≠ .closed := by
    rw [(ready_iff.mp hready).1]
    decide
  obtain ⟨m, hm, hmc, hmr⟩ := hiso c (Keyed.mem_of_lookup hget) hcontrol hopen a hfind
  rw [Bool.and_eq_true, all_eq_true] at ha
  have hmint := ha.2 m hm
  simp [hmc, hmr] at hmint

end Stale

end GasCity.Dispatch
