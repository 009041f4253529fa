import GasCity.Dispatch.RetryProgress
import GasCity.Dispatch.ScopeSettle
import GasCity.Formula.RalphScope

/-! # Retries inside checks

The control and the first attempt of a retry in the body of a check, as the compiler and as
`buildAttemptRecipe` make them.  A re-spawned iteration gives the first attempt its own number while
the id still says `.attempt.1`, so the attempt is not taken for one and the control is skipped.
-/

namespace GasCity

open List

namespace Dispatch

open Formula

/-- A retry of a formula, with the ids of its compiled control and first attempt.  `inside` tells
whether a check encloses it. -/
structure RetryAt where
  retry : Step
  spec : RetrySpec
  control : String
  run : String
  inside : Bool := false

def RetryAt.within (root : String) (e : RetryAt) : RetryAt :=
  { e with control := root ++ "." ++ e.control, run := root ++ "." ++ e.run, inside := true }

def retries : Forest Step → List RetryAt
  | .nil => []
  | .cons s children rest =>
    (match s.retry with
      | some spec => [{ retry := s, spec, control := s.id, run := attemptID s }]
      | none =>
        match s.ralph with
        | none => retries children
        | some _ => (retries children).map (RetryAt.within (iterationID s))) ++ retries rest

def runtimeKeys : List MetaKey := [.kind, .moleculeFailed, .logicalBeadID]

/-- What the compiler writes on the control and the first attempt of a retry. -/
structure CompiledPair (e : RetryAt) (c a : Step) : Prop where
  control_id : c.id = e.control
  run_id : a.id = e.run
  control_kind : c.kind = Kind.retry
  max : c.metadata.val .maxAttempts = toString e.spec.maxAttempts
  control_drain : c.drain = e.retry.drain
  run_drain : a.drain = e.retry.drain
  authored : ∀ k ∈ runtimeKeys, a.metadata.val k = e.retry.metadata.val k
  lineage : a.metadata.val .controlFor = e.control
  number : a.metadata.val .attempt = "1"
  ref : e.inside = true → c.metadata.val .stepRef = e.control
  trimmed : Trimmed e.control

variable {e : RetryAt} {f : Forest Step} {ids : List String} {node owner r x : Step}
  {spec : RetrySpec}

theorem inBody_val {top : Bool} {k : MetaKey} (h : isSourceSpecStep node = false)
    (hk : k ∉ [.scopeRef, .onFail, .scopeRole, .stepID, .ralphStepID, .attempt, .stepRef,
      MetaKey.controlFor]) :
    (inBody owner ids top node).metadata.val k = node.metadata.val k := by
  rw [inBody, h, if_neg (by decide), namespaceBodyStep]
  apply val_withMetadata_of_notMem
  exact fun hmem => hk ((bodyMetadata_keys _ owner node).2 _ hmem)

theorem inBody_stamp {top : Bool} {k : MetaKey} {v : String} (h : isSourceSpecStep node = false)
    (hv : (k, v) ∈ bodyMetadata (iterationID owner) owner node) :
    (inBody owner ids top node).metadata.val k = v := by
  rw [inBody, h, if_neg (by decide), namespaceBodyStep]
  exact val_withMetadata_of_mem (bodyMetadata_keys _ owner node).1 hv

theorem compiledPair_retry (htrimmed : Trimmed r.id) :
    CompiledPair { retry := r, spec, control := r.id, run := attemptID r }
      (retryControl r spec) (retryRun r) := by
  have hrun : ∀ {k : MetaKey}, k ≠ .originalKind → k ∉ [.scopeRef, .scopeRole, MetaKey.onFail] →
      (retryRun r).metadata.val k = (withMetadata r.metadata
        [(.attempt, "1"), (.stepID, r.id), (.controlFor, r.id)]).val k := by
    intro k hk hk'
    rw [retryRun, val_eraseKeys_of_notMem hk', withOriginalKind_val _ _ hk]
  constructor
  case control_id => rfl
  case run_id => rfl
  case control_kind => exact retryControl_kind spec
  case max =>
    rw [retryControl, withOriginalKind_val _ _ (by decide)]
    exact val_withMetadata_of_mem (by simp) (by simp)
  case control_drain => rfl
  case run_drain => rfl
  case authored =>
    intro k hk
    simp only [runtimeKeys, mem_cons, not_mem_nil, or_false] at hk
    rcases hk with rfl | rfl | rfl <;>
      exact (hrun (by decide) (by decide)).trans (val_withMetadata_of_notMem (by simp))
  case lineage =>
    rw [hrun (by decide) (by decide)]
    exact val_withMetadata_of_mem (by simp) (by simp)
  case number =>
    rw [hrun (by decide) (by decide)]
    exact val_withMetadata_of_mem (by simp) (by simp)
  case ref => rintro ⟨⟩
  case trimmed => exact htrimmed

theorem retries_spec (he : e ∈ retries f) :
    e.retry ∈ f.flatten ∧ e.run = e.control ++ ".attempt.1" := by
  induction f generalizing e with
  | nil => cases he
  | cons s children rest ihc ihr =>
    rcases mem_append.mp he with he | he
    · split at he
      · obtain rfl := mem_singleton.mp he
        exact ⟨mem_cons_self .., rfl⟩
      · split at he
        · exact (ihc he).imp_left Forest.mem_of_children
        · obtain ⟨e', he', rfl⟩ := mem_map.mp he
          obtain ⟨hmem, hrun⟩ := ihc he'
          refine ⟨Forest.mem_of_children hmem, ?_⟩
          simp only [RetryAt.within, hrun, String.append_assoc]
    · exact (ihr he).imp_left Forest.mem_of_rest

theorem CompiledPair.within {c a : Step} (h : CompiledPair e c a)
    {s : Step} (spec : RalphSpec) {body : Forest Step} (hbody : SpecLeaf body)
    (htrimmed : Trimmed s.id) (hspec : isSourceSpecStep a = false)
    (hc : c ∈ body.flatten) (ha : a ∈ body.flatten) :
    ∃ c' ∈ expandNestedRalph s spec body, ∃ a' ∈ expandNestedRalph s spec body,
      CompiledPair (e.within (iterationID s)) c' a' := by
  obtain ⟨c', hc', top, hcid, hcdrain, hcval⟩ := mem_expandNestedRalph hbody s spec hc
  obtain ⟨a', ha', top', haid, hadrain, haval⟩ := mem_expandNestedRalph hbody s spec ha
  have hcspec : isSourceSpecStep c = false := by
    rw [isSourceSpecStep, h.control_kind]
    decide
  have hcontrol : trimSpace (a.metadata.val .controlFor) = e.control := by
    rw [h.lineage, h.trimmed.trimSpace_eq]
  refine ⟨c', hc', a', ha', ?_⟩
  constructor
  case control_id => rw [hcid, h.control_id]; rfl
  case run_id => rw [haid, h.run_id]; rfl
  case control_kind =>
    rw [Step.kind, hcval _ (by decide), inBody_val hcspec (by decide)]
    exact h.control_kind
  case max =>
    rw [hcval _ (by decide), inBody_val hcspec (by decide)]
    exact h.max
  case control_drain => exact hcdrain.trans h.control_drain
  case run_drain => exact hadrain.trans h.run_drain
  case authored =>
    intro k hk
    refine Eq.trans ?_ (h.authored k hk)
    simp only [runtimeKeys, mem_cons, not_mem_nil, or_false] at hk
    rcases hk with rfl | rfl | rfl <;> rw [haval _ (by decide), inBody_val hspec (by decide)]
  case lineage =>
    rw [haval _ (by decide)]
    apply inBody_stamp hspec
    simp [bodyMetadata, hcontrol, h.trimmed.ne_empty, RetryAt.within]
  case number =>
    rw [haval _ (by decide)]
    apply inBody_stamp hspec
    simp [bodyMetadata]
  case ref =>
    intro _
    rw [hcval _ (by decide)]
    apply inBody_stamp hcspec
    simp [bodyMetadata, h.control_id, RetryAt.within]
  case trimmed =>
    have hjoin := htrimmed.join h.trimmed (".iteration.1" ++ ".")
    simpa only [RetryAt.within, iterationID, String.append_assoc] using hjoin

theorem exists_compiledPair (hretry : RetryAlone f) (hspecs : NoSpecs f.flatten)
    (htrimmed : ∀ s ∈ f.flatten, Trimmed s.id) (he : e ∈ retries f) :
    ∃ c ∈ (applyAttempts f).flatten, ∃ a ∈ (applyAttempts f).flatten, CompiledPair e c a := by
  induction f generalizing e with
  | nil => cases he
  | cons s children rest ihc ihr =>
    obtain ⟨hspecsC, hspecsR⟩ := noSpecs_down hspecs
    have hdown : ∀ n ∈ children.flatten, Trimmed n.id := fun n hn =>
      htrimmed n (Forest.mem_of_children hn)
    have hnext : ∀ n ∈ rest.flatten, Trimmed n.id := fun n hn =>
      htrimmed n (Forest.mem_of_rest hn)
    have htop : Trimmed s.id := htrimmed s (mem_cons_self ..)
    rcases mem_append.mp he with he | he
    · rcases hretry.cases with ⟨hr, hp, -⟩ | ⟨spec, hr, hp, -, -⟩ | ⟨spec, hr, hp, -⟩
      · rw [hr, hp] at he
        obtain ⟨c, hc, a, ha, hpair⟩ := ihc hretry.2.1 hspecsC hdown he
        rw [applyAttempts_plain hr hp]
        exact ⟨c, mem_cons_of_mem _ (mem_append_left _ hc), a,
          mem_cons_of_mem _ (mem_append_left _ ha), hpair⟩
      · rw [hr] at he
        obtain rfl := mem_singleton.mp he
        rw [applyAttempts_retry hr hp, Forest.flatten_append, Forest.flatten_ofList]
        exact ⟨_, mem_append_left _ (mem_cons_self ..), _,
          mem_append_left _ (by simp [expandRetry]), compiledPair_retry htop⟩
      · rw [hr, hp] at he
        obtain ⟨e', he', rfl⟩ := mem_map.mp he
        obtain ⟨c, hc, a, ha, hpair⟩ := ihc hretry.2.1 hspecsC hdown he'
        have hne : children ≠ .nil := by
          rintro rfl
          cases he'
        have hspec : isSourceSpecStep a = false := by
          rw [isSourceSpecStep, Step.kind, hpair.authored _ (by decide)]
          exact hspecsC _ (retries_spec he').1
        obtain ⟨c', hc', a', ha', hpair'⟩ := hpair.within spec
          (applyAttempts_labels hretry.2.1 hspecsC).2 htop hspec hc ha
        rw [applyAttempts_ralph hr hp, expandRalph, if_neg hne, Forest.flatten_append,
          Forest.flatten_ofList]
        exact ⟨c', mem_append_left _ hc', a', mem_append_left _ ha', hpair'⟩
    · obtain ⟨c, hc, a, ha, hpair⟩ := ihr hretry.2.2 hspecsR hnext he
      exact ⟨c, mem_applyAttempts_rest hretry hc, a, mem_applyAttempts_rest hretry ha, hpair⟩

theorem recipeStep_val {steps : Forest Step} {n : Step} {name id : String} {k : MetaKey}
    (h : FreshControls steps.flatten) (hx : x ∈ steps.flatten)
    (hn : (id, n) ∈ issues name (applyGraphControls steps true)) (hid : n.id = x.id)
    (hdrain : x.drain = false) (hk : k ≠ .outputJSONRequired) :
    (recipeStep (id, n)).metadata.val k = x.metadata.val k := by
  have hmarked : (markOutputRequired x).drain = false := markOutputRequired_drain.trans hdrain
  have heq : n = _ := compiled_eq h hx (mem_of_mem_issues hn) hid
  rw [heq, recipeStep, rewriteGraphStepRefs, drainMetadata, if_neg (by simp [hmarked])]
  exact markOutputRequired_val hk

theorem mem_roots_applyRetries {children : Forest Step}
    (hr : r ∈ children.roots) (hretry : r.retry = some spec) :
    retryControl r spec ∈ (applyRetries children).roots ∧
      retryRun r ∈ (applyRetries children).roots := by
  induction children with
  | nil => cases hr
  | cons s children rest _ ih =>
    rcases mem_cons.mp hr with rfl | hr
    · simp [applyRetries, hretry, expandRetry, Forest.ofList, Forest.roots]
    · obtain ⟨hcontrol, hrun⟩ := ih hr
      cases hs : s.retry with
      | none => simp [applyRetries, hs, Forest.roots, hcontrol, hrun]
      | some spec' =>
        simp [applyRetries, hs, expandRetry, Forest.ofList, Forest.roots, hcontrol, hrun]

theorem memberStep_mem_parts (pfx stepID : String) (k : ℕ) (hx : x ∈ f.roots) :
    memberStep pfx stepID k x ∈ (attemptParts pfx stepID k f).members.steps := by
  induction f with
  | nil => cases hx
  | cons s children rest _ ih =>
    rcases mem_cons.mp hx with rfl | hx
    · simp [attemptParts, appendParts, appendRecipe, memberParts]
    · simp [attemptParts, appendParts, appendRecipe, ih hx]

theorem memberStep_mem {control : Bead} {k : ℕ} (hx : x ∈ f.roots) :
    memberStep (attemptPrefix owner control k) (controlStepID control) k x ∈
      (buildAttemptRecipe owner f control k).steps := by
  have hmem := memberStep_mem_parts (attemptPrefix owner control k) (controlStepID control) k hx
  simp only [buildAttemptRecipe, assembleAttempt, appendRecipe, applyAttemptRecipeScopeChecks,
    mem_append]
  exact .inl (.inl (.inl (.inr hmem)))

section Member

variable {pfx stepID : String} {n : ℕ} {child : Step}

variable {k : MetaKey}
  (hplain : child.retry = none ∧ child.ralph = none ∧ child.drain = false)
include hplain

theorem memberStep_authored (hk : k ∉ [.attempt, .stepRef, .stepID, .scopeRef, .ralphStepID,
      .scopeRole, .onFail, MetaKey.outputJSONRequired]) :
    (memberStep pfx stepID n child).metadata.val k = child.metadata.val k := by
  simp only [mem_cons, not_mem_nil, or_false, not_or] at hk
  simp only [memberStep, drainMetadata, hplain, Bool.false_eq_true, if_false, controlStamps,
    Option.map_none, Option.getD_none, append_nil]
  rw [val_withMetadata_of_notMem (by simp), withOutputRequired_val _ _ hk.2.2.2.2.2.2.2,
    val_withMetadata_of_notMem (by simp [memberStamps, hk])]

theorem memberStep_stamp {v : String} (hv : (k, v) ∈ memberStamps pfx stepID n child) :
    (memberStep pfx stepID n child).metadata.val k = v := by
  have hk : k ≠ .outputJSONRequired := by
    rintro rfl
    simp [memberStamps] at hv
  simp only [memberStep, drainMetadata, hplain, Bool.false_eq_true, if_false, controlStamps,
    Option.map_none, Option.getD_none, append_nil]
  rw [val_withMetadata_of_notMem (by simp), withOutputRequired_val _ _ hk]
  exact val_withMetadata_of_mem (by simp [memberStamps]) hv

end Member

/-- A valid retry step with a budget of `m` attempts. -/
structure ValidRetry (r : Step) (spec : RetrySpec) (m : ℕ) : Prop where
  retry : r.retry = some spec
  ralph : r.ralph = none
  drain : r.drain = false
  budget : spec.maxAttempts = m
  positive : 1 ≤ m
  named : Trimmed r.id
  control : isControlKind r.kind = false
  kind : r.kind ∉ [Kind.scope, Kind.spec, Kind.workflow, Kind.run, Kind.retryRun]
  molecule : trimSpace (r.metadata.val .moleculeFailed) ≠ "true"
  unlinked : r.metadata.val .logicalBeadID = ""

/-- `c` and `a` are made for the control and the first attempt of the retry `r` in iteration `k` of
the check that encloses it. -/
inductive MintedRetry (r : Step) (spec : RetrySpec) : ℕ → RecipeStep → RecipeStep → Prop where
  /-- The compiler makes the first iteration. -/
  | compiled {name parent : String} {f : Forest Step} {e : RetryAt} {c a : Step}
      (retries : RetryAlone f) (specs : NoSpecs f.flatten)
      (trimmed : ∀ s ∈ f.flatten, Trimmed s.id) (fresh : FreshControls (applyAttempts f).flatten)
      (mem : e ∈ Dispatch.retries f) (inside : e.inside = true) (hr : e.retry = r)
      (hspec : e.spec = spec) (hcid : c.id = e.control) (haid : a.id = e.run)
      (hc : (parent ++ "." ++ c.id, c) ∈ issues name (applyGraphControls (applyAttempts f) true))
      (ha : (parent ++ "." ++ a.id, a) ∈ issues name (applyGraphControls (applyAttempts f) true)) :
      MintedRetry r spec 1 (recipeStep (parent ++ "." ++ c.id, c))
        (recipeStep (parent ++ "." ++ a.id, a))
  /-- Later iterations, and the first iterations of nested checks in them, are re-spawned from the
  stored spec, in which retries are expanded. -/
  | respawned {owner : Step} {children : Forest Step} {control : Bead} {k : ℕ} {c a : RecipeStep}
      (positive : 1 ≤ k) (mem : r ∈ children.roots)
      (ids : ((buildAttemptRecipe owner (applyRetries children) control k).steps.map
        RecipeStep.id).Nodup)
      (hc : c ∈ (buildAttemptRecipe owner (applyRetries children) control k).steps)
      (hcid : c.id = attemptPrefix owner control k ++ "." ++ r.id)
      (ha : a ∈ (buildAttemptRecipe owner (applyRetries children) control k).steps)
      (haid : a.id = attemptPrefix owner control k ++ "." ++ attemptID r) :
      MintedRetry r spec k c a

/-- What both ways of making an iteration agree on. -/
structure MintedPair (r : Step) (m k : ℕ) (c a : RecipeStep) : Prop where
  run_id : a.id = c.id ++ ".attempt.1"
  control_kind : c.metadata.val .kind = Kind.retry
  max : c.metadata.val .maxAttempts = toString m
  authored : ∀ k ∈ runtimeKeys, a.metadata.val k = r.metadata.val k
  number : a.metadata.val .attempt = toString k
  lineage : a.metadata.val .controlFor = c.metadata.val .stepID ∨
    a.metadata.val .controlFor = c.metadata.val .stepRef
  named : trimSpace (a.metadata.val .controlFor) ≠ ""
  role : 1 < k → c.metadata.val .scopeRole = ScopeRole.member
  positive : 1 ≤ k

variable {r : Step} {spec : RetrySpec} {m k : ℕ} {c a : RecipeStep}

theorem MintedRetry.pair (h : MintedRetry r spec k c a) (hr : ValidRetry r spec m) :
    MintedPair r m k c a := by
  cases h with
  | @compiled name parent f e ic ia retries specs trimmed fresh mem inside hretry hspec hcid haid hc
      ha =>
      subst hretry hspec
      obtain ⟨c, hcmem, a, hamem, hpair⟩ := exists_compiledPair retries specs trimmed mem
      have hcval := fun {k} => recipeStep_val (k := k) fresh hcmem hc
        (hcid.trans hpair.control_id.symm) (hpair.control_drain.trans hr.drain)
      have haval := fun {k} => recipeStep_val (k := k) fresh hamem ha
        (haid.trans hpair.run_id.symm) (hpair.run_drain.trans hr.drain)
      constructor
      case run_id =>
        simp only [recipeStep, hcid, haid, (retries_spec mem).2, String.append_assoc]
      case control_kind => exact (hcval (by decide)).trans hpair.control_kind
      case max =>
        rw [hcval (by decide), hpair.max, hr.budget]
        rfl
      case authored =>
        intro k hk
        refine Eq.trans ?_ (hpair.authored k hk)
        simp only [runtimeKeys, mem_cons, not_mem_nil, or_false] at hk
        rcases hk with rfl | rfl | rfl <;> exact haval (by decide)
      case number => exact (haval (by decide)).trans hpair.number
      case lineage =>
        right
        rw [haval (by decide), hcval (by decide), hpair.lineage, hpair.ref inside]
      case named =>
        rw [haval (by decide), hpair.lineage, hpair.trimmed.trimSpace_eq]
        exact hpair.trimmed.ne_empty
      case role => exact fun h => absurd h (by decide)
      case positive => exact le_rfl
  | @respawned owner children control k c a positive mem ids hc hcid ha haid =>
    obtain ⟨hcontrol, hrun⟩ := mem_roots_applyRetries mem hr.retry
    obtain rfl := inj_on_of_nodup_map ids hc (memberStep_mem hcontrol) hcid
    obtain rfl := inj_on_of_nodup_map ids ha (memberStep_mem hrun) haid
    have hpair : CompiledPair { retry := r, spec, control := r.id, run := attemptID r }
        (retryControl r spec) (retryRun r) := compiledPair_retry hr.named
    have hcplain : (retryControl r spec).retry = none ∧ (retryControl r spec).ralph = none ∧
        (retryControl r spec).drain = false := ⟨rfl, hr.ralph, hr.drain⟩
    have haplain : (retryRun r).retry = none ∧ (retryRun r).ralph = none ∧
        (retryRun r).drain = false := ⟨rfl, hr.ralph, hr.drain⟩
    constructor
    case run_id =>
      simp only [memberStep, retryControl, retryRun, attemptID, String.append_assoc]
    case control_kind => exact (memberStep_authored hcplain (by decide)).trans hpair.control_kind
    case max =>
      rw [memberStep_authored hcplain (by decide), hpair.max, hr.budget]
      rfl
    case authored =>
      intro key hk
      refine Eq.trans ?_ (hpair.authored key hk)
      simp only [runtimeKeys, mem_cons, not_mem_nil, or_false] at hk
      rcases hk with rfl | rfl | rfl <;> exact memberStep_authored haplain (by decide)
    case number => exact memberStep_stamp haplain (by simp [memberStamps])
    case lineage =>
      left
      rw [memberStep_authored haplain (by decide), hpair.lineage]
      exact (memberStep_stamp hcplain (by simp [memberStamps, retryControl])).symm
    case named =>
      rw [memberStep_authored haplain (by decide), hpair.lineage, hr.named.trimSpace_eq]
      exact hr.named.ne_empty
    case role => exact fun _ => memberStep_stamp hcplain (by simp [memberStamps])
    case positive => exact positive

section Beads

variable {ids : String ↪ String} {logical logical' : String → Option String}

variable (h : MintedPair r m k c a)
include h

theorem MintedPair.controlOf (hr : ValidRetry r spec m)
    (hnamed : trimSpace (ids c.id) ≠ "") : ControlOf r (stepToBead ids logical c) m where
  ralph := hr.ralph
  molecule := hr.molecule
  named := hnamed
  kind := (stepToBead_val (by decide)).trans h.control_kind
  max := (stepToBead_val (by decide)).trans h.max
  positive := hr.positive

theorem MintedPair.run_kind : a.metadata.val .kind = r.kind := h.authored _ (by decide)

theorem MintedPair.attemptNum : Dispatch.attemptNum (stepToBead ids logical a) = k := by
  rw [Dispatch.attemptNum, stepToBead_val (by decide), h.number, atoi_toString]
  rfl

theorem MintedPair.isWork (hr : ValidRetry r spec m) :
    Dispatch.isWork (stepToBead ids logical a) = true := by
  have hkind : (stepToBead ids logical a).kind = r.kind :=
    (stepToBead_val (by decide)).trans h.run_kind
  have hother := hr.kind
  rw [isWork_iff, hkind]
  simp only [mem_cons, not_mem_nil, or_false, not_or] at hother
  exact ⟨hr.control, hother.1, hother.2.1, hother.2.2.1⟩

theorem MintedPair.isAttemptOf (hr : ValidRetry r spec m) :
    Dispatch.isAttemptOf (stepToBead ids logical c) (stepToBead ids logical' a) = true := by
  have hkind : (stepToBead ids logical' a).kind = r.kind :=
    (stepToBead_val (by decide)).trans h.run_kind
  have hother := hr.kind
  simp only [mem_cons, not_mem_nil, or_false, not_or] at hother
  have hinfra : isControlInfrastructure r.kind = false := by
    simp [isControlInfrastructure, hr.control, hother.2.2.1]
  have hmolecule : isFailedPartialMolecule (stepToBead ids logical' a) = false := by
    rw [isFailedPartialMolecule, stepToBead_val (by decide), h.authored _ (by decide)]
    simpa using hr.molecule
  have hnames : trimSpace ((stepToBead ids logical' a).val .controlFor) ∈
      controlIdentitySet (stepToBead ids logical c) := by
    rw [stepToBead_val (by decide), controlIdentitySet, mem_filter]
    refine ⟨?_, by simpa using h.named⟩
    rcases h.lineage with hstep | href
    · have hval : (stepToBead ids logical c).val .stepID = c.metadata.val .stepID :=
        stepToBead_val (by decide)
      rw [hstep, ← hval]
      simp
    · have hne : c.metadata.val .stepRef ≠ "" := by
        intro hempty
        have hnamed := h.named
        rw [href, hempty] at hnamed
        exact hnamed (by decide)
      have hvalRef : (stepToBead ids logical c).val .stepRef = c.metadata.val .stepRef :=
        stepToBead_stepRef hne
      rw [href, ← hvalRef]
      simp
  rw [Dispatch.isAttemptOf, hmolecule, hkind, hinfra]
  simpa using hnames

omit h

theorem trimAttemptSuffix_append (id : String) {suffix : String} (h : suffix ≠ "") :
    trimAttemptSuffix (id ++ suffix) suffix = some id := by
  have hsuffix : hasSuffix (id ++ suffix) suffix = true := by
    simp [hasSuffix]
  rw [trimAttemptSuffix, if_pos ⟨h, hsuffix⟩]
  simp

theorem hasSuffix_number {id sep : String} {n k : ℕ} (hsep : sep.toList.getLast? = some '.')
    (h : hasSuffix (id ++ "." ++ toString n) (sep ++ toString k) = true) :
    toString k = toString n := by
  have hdigit : ∀ (n : ℕ), ∀ c ∈ (toString n).toList.reverse, (c != '.') = true := by
    intro n c hc
    rw [mem_reverse, Nat.toString_eq_ofList_toDigits, String.toList_ofList] at hc
    have hdigit : c.isDigit = true := Nat.isDigit_of_mem_toDigits (by decide) (by decide) hc
    rw [bne_iff_ne]
    rintro rfl
    exact absurd hdigit (by decide)
  obtain ⟨start, hstart⟩ : ∃ start, sep.toList = start ++ ['.'] :=
    ⟨_, (dropLast_append_getLast? '.' hsep).symm⟩
  have hprefix : (toString k).toList.reverse ++ '.' :: start.reverse <+:
      (toString n).toList.reverse ++ '.' :: id.toList.reverse := by
    have hsuffix : (sep ++ toString k).toList <:+ (id ++ "." ++ toString n).toList :=
      of_decide_eq_true h
    have := reverse_prefix.mpr hsuffix
    simpa [hstart] using this
  have htake : ∀ (n : ℕ) (l : List Char),
      ((toString n).toList.reverse ++ '.' :: l).takeWhile (· != '.') =
        (toString n).toList.reverse := by
    intro n l
    rw [takeWhile_append_of_pos (hdigit n)]
    simp
  obtain ⟨rest, hrest⟩ := hprefix
  have hparts := congrArg (takeWhile (· != '.')) hrest
  rw [append_assoc, cons_append, htake, htake, reverse_inj] at hparts
  exact String.toList_inj.mp hparts

theorem ValidRetry.suffixes (hr : ValidRetry r spec m) :
    r.kind ∉ [Kind.scope, Kind.spec, Kind.workflow, Kind.run, Kind.retryRun, Kind.check,
      Kind.retryEval] ∧ attemptSuffixes r.kind = [".attempt.", ".iteration."] := by
  have hkind := hr.kind
  have hcheck : r.kind ≠ Kind.check ∧ r.kind ≠ Kind.retryEval := by
    constructor <;> intro hk <;> exact absurd hr.control (by rw [hk]; decide)
  simp only [mem_cons, not_mem_nil, or_false, not_or] at hkind ⊢
  exact ⟨by tauto, by simp [attemptSuffixes, hkind, hcheck]⟩

theorem MintedPair.logical_first (h : MintedPair r m 1 c a) (hr : ValidRetry r spec m) :
    logicalRecipeStepID a = some c.id := by
  have hsuffixes := hr.suffixes.2
  have hone : a.metadata.val .attempt = "1" := h.number
  have hne : ("1" : String) ≠ "" := by decide
  have htrim : trimAttemptSuffix a.id (".attempt." ++ "1") = some c.id := by
    rw [h.run_id]
    exact trimAttemptSuffix_append c.id (by decide)
  simp only [logicalRecipeStepID, h.run_kind, hone, hsuffixes, if_neg hne, findSome?_cons,
    htrim, Option.some_or]

/-- From the second iteration on they differ, and the attempt belongs to no step. -/
theorem MintedPair.logical_later (h : MintedPair r m k c a) (hr : ValidRetry r spec m)
    (hk : 1 < k) : logicalRecipeStepID a = none := by
  obtain ⟨hkind, hsuffixes⟩ := hr.suffixes
  simp only [mem_cons, not_mem_nil, or_false, not_or] at hkind
  have htrim : ∀ sep : String, sep.toList.getLast? = some '.' →
      trimAttemptSuffix a.id (sep ++ toString k) = none := by
    intro sep hsep
    refine if_neg fun hsuffix => ?_
    have hid : a.id = c.id ++ ".attempt" ++ "." ++ toString 1 := by
      rw [h.run_id, String.append_assoc, String.append_assoc]
      rfl
    have hnumber := hasSuffix_number hsep (hid ▸ hsuffix.2)
    have hatoi := congrArg atoi hnumber
    rw [atoi_toString, atoi_toString, Option.some.injEq] at hatoi
    omega
  simp only [logicalRecipeStepID, h.run_kind, h.number, hsuffixes, findSome?_cons,
    findSome?_nil, htrim ".attempt." (by decide), htrim ".iteration." (by decide)]
  simp [hkind]

theorem MintedPair.attemptSubject (h : MintedPair r m 1 c a) (hr : ValidRetry r spec m)
    (hlogical : logical c.id = some (ids c.id)) (hnamed : trimSpace (ids c.id) ≠ "") :
    isRetryAttemptSubject (stepToBead ids logical a) = true := by
  have hnumber : (stepToBead ids logical a).val .attempt = "1" :=
    (stepToBead_val (by decide)).trans h.number
  have hbead : (stepToBead ids logical a).val .logicalBeadID = ids c.id := by
    rw [Bead.val, stepToBead, h.logical_first hr]
    simp only [Option.bind_some, hlogical]
    exact Table.val_set_self
  have hne : ids c.id ≠ "" := by
    intro hempty
    rw [hempty] at hnamed
    exact hnamed (by decide)
  simp [isRetryAttemptSubject, hnumber, hbead, hne]

theorem MintedPair.not_attemptSubject (h : MintedPair r m k c a) (hr : ValidRetry r spec m)
    (hlogical : (logicalRecipeStepID a).bind logical = none) :
    isRetryAttemptSubject (stepToBead ids logical a) = false := by
  have hplain : a.metadata.val .logicalBeadID = "" :=
    (h.authored _ (by decide)).trans hr.unlinked
  have hbead : (stepToBead ids logical a).val .logicalBeadID = "" := by
    rw [Bead.val, stepToBead, hlogical]
    simp only [withStepRef]
    split
    · exact (Table.val_set_of_ne (by decide)).trans hplain
    · exact hplain
  simp [isRetryAttemptSubject, hbead]

end Beads

section Budget

variable {ids : String ↪ String} {creation : Creation} {steps : List RecipeStep}

/-- The attempt is taken for one exactly in a first iteration in which the control is known. -/
theorem attemptSubject_iff (hr : ValidRetry r spec m) (h : MintedPair r m k c a)
    (hnamed : trimSpace (ids c.id) ≠ "") :
    isRetryAttemptSubject (makeBead ids creation steps a) = true ↔
      k = 1 ∧ c.id ∈ creation.known steps a := by
  constructor
  · intro hsubject
    by_contra hnot
    have hnone : isRetryAttemptSubject (makeBead ids creation steps a) = false := by
      apply h.not_attemptSubject hr
      by_cases hk : k = 1
      · subst hk
        rw [h.logical_first hr]
        exact if_neg fun hknown => hnot ⟨rfl, hknown⟩
      · rw [h.logical_later hr (by have := h.positive; omega)]
        rfl
    rw [hnone] at hsubject
    cases hsubject
  · rintro ⟨rfl, hknown⟩
    exact h.attemptSubject hr (if_pos hknown) hnamed

/-- The retry control in iteration `k` keeps its budget of `m` attempts when the iteration is the
first one, the control is known when its first attempt is made, and `m` is one or no attempt of
another iteration that answers to its names counts as more than one.  It does not otherwise, unless
a role of its own keeps the control out of the scope. -/
theorem nestedRetry_budget {jsonValid : String → Bool} {check : Bead} {s : Store}
    (hr : ValidRetry r spec m) (hminted : MintedRetry r spec k c a)
    (hnamed : trimSpace (ids c.id) ≠ "")
    (hstart : RetryStart (makeBead ids creation steps c) check (makeBead ids creation steps a) s) :
    ((k = 1 ∧ c.id ∈ creation.known steps a) ∧ (m = 1 ∨ ∀ b ∈ s.beads,
        isAttemptOf (makeBead ids creation steps c) b = true → attemptNum b ≤ 1) →
      BudgetKept jsonValid r (makeBead ids creation steps c) check m s) ∧
    (BudgetKept jsonValid r (makeBead ids creation steps c) check m s →
      (k = 1 ∧ (c.id ∈ creation.known steps a ∨
        holdsScope (makeBead ids creation steps c) = false)) ∧
      (m = 1 ∨ ∀ b ∈ s.beads, isAttemptOf (makeBead ids creation steps c) b = true →
        attemptNum b ≤ 1)) := by
  have hpair := hminted.pair hr
  have hnum : attemptNum (makeBead ids creation steps a) = k := hpair.attemptNum
  have hcontrol : ControlOf r (makeBead ids creation steps c) m := hpair.controlOf hr hnamed
  have hlineage : isAttemptOf (makeBead ids creation steps c) (makeBead ids creation steps a) =
      true := hpair.isAttemptOf hr
  have hsubject : isRetryAttemptSubject (makeBead ids creation steps a) = true ↔
      k = 1 ∧ c.id ∈ creation.known steps a := attemptSubject_iff hr hpair hnamed
  constructor
  · rintro ⟨hfirst, hcounts⟩
    obtain rfl := hfirst.1
    exact budgetKept_of_counts hstart hcontrol (hpair.isWork hr) (hsubject.mpr hfirst) hlineage
      hnum hcounts
  · intro hkept
    refine ⟨?_, counts_of_budgetKept hstart hcontrol hkept⟩
    have hpos := hpair.positive
    -- an attempt that is not taken for one starves a control in the scope
    have hstarves : holdsScope (makeBead ids creation steps c) = true →
        isRetryAttemptSubject (makeBead ids creation steps a) = true := by
      intro hholds
      by_contra hnot
      refine not_budgetKept_of_starving hstart hcontrol hholds hlineage ?_
        (Bool.not_eq_true _ ▸ hnot) hkept
      rw [hnum]
      exact_mod_cast hpos
    by_cases hk : k = 1
    · refine ⟨hk, ?_⟩
      cases hholds : holdsScope (makeBead ids creation steps c) with
      | false => exact .inr rfl
      | true => exact .inl (hsubject.mp (hstarves hholds)).2
    · have hholds : holdsScope (makeBead ids creation steps c) = true := by
        rw [holdsScope, Bead.scopeRole, makeBead, stepToBead_val (by decide),
          hpair.role (by omega)]
        decide
      exact absurd (hsubject.mp (hstarves hholds)).1 hk

end Budget

def fetchSpec : RetrySpec := { maxAttempts := 2 }

def fetch : Step := { id := "fetch", retry := some fetchSpec }

def loop : Step := { id := "loop", ralph := some { maxAttempts := 3 } }

def fetchBody : Forest Step := .cons fetch .nil .nil

def fetchLoop : Forest Step := .cons loop fetchBody .nil

def fetchIssues : List (String × Step) :=
  issues "mol" (applyGraphControls (applyAttempts fetchLoop) true)

def compiledLoop : Store := workflow (.refl String) "mol" (applyAttempts fetchLoop)

def secondIteration : Recipe :=
  buildAttemptRecipe loop (applyRetries fetchBody)
    { id := "mol.loop", metadata := .ofList [(.stepID, "loop"), (.stepRef, "mol.loop")] } 2

def respawnedLoop : Store := instantiate (.refl String) secondIteration

/-- Only the first attempt answers to the control, which waits for its scope check alone. -/
def StartsAlone (control check first : Bead) (s : Store) : Prop :=
  (s.beads.map Bead.id).Nodup ∧
    (∀ b ∈ [control, check, first], b ∈ s.beads ∧ b.status = .opened) ∧
    (check.kind = Kind.scopeCheck ∧ check.scopeRef = control.scopeRef) ∧
    (∃ b ∈ s.beads, b.kind = Kind.scope ∧ matchesScopeRef b check.scopeRef = true) ∧
    (s.downDeps control.id = [check.id] ∧ s.downDeps check.id = [first.id]) ∧
    ∀ b ∈ s.beads, isAttemptOf control b = true → b = first ∧ b.kind ≠ Kind.scope

instance (control check first : Bead) (s : Store) : Decidable (StartsAlone control check first s) :=
  inferInstanceAs (Decidable (_ ∧ _ ∧ _ ∧ _ ∧ _ ∧ _))

theorem StartsAlone.retryStart {control check first : Bead} {s : Store}
    (h : StartsAlone control check first s) : RetryStart control check first s := by
  obtain ⟨hids, hmem, ⟨hkind, hscope⟩, hbody, ⟨hwaits, hguards⟩, halone⟩ := h
  simp only [mem_cons, not_mem_nil, or_false, forall_eq_or_imp, forall_eq] at hmem
  constructor
  case ids => exact hids
  case control_mem => exact hmem.1.1
  case control_opened => exact hmem.1.2
  case first_mem => exact hmem.2.2.1
  case first_opened => exact hmem.2.2.2
  case check_mem => exact hmem.2.1.1
  case check_opened => exact hmem.2.1.2
  case check_kind => exact hkind
  case check_scope => exact hscope
  case body => exact hbody
  case waits => simp [← mem_downDeps, hwaits]
  case blockers =>
    intro d hd
    rw [← mem_downDeps, hwaits, mem_singleton] at hd
    exact .inl hd
  case guards => exact hguards
  case others => exact fun b hb hattempt hne => absurd (halone b hb hattempt).1 hne
  case scopes => exact fun b hb hattempt => (halone b hb hattempt).2

def compiledStep (id : String) : Step :=
  ((fetchIssues.map Prod.snd).find? fun step => step.id = id).getD {}

def beadOf (s : Store) (id : String) : Bead := (s.get id).getD {}

theorem validRetry_fetch : ValidRetry fetch fetchSpec 2 := by
  constructor <;> decide

theorem minted_fetch : MintedRetry fetch fetchSpec 1
    (recipeStep ("mol" ++ "." ++ (compiledStep "loop.iteration.1.fetch").id,
      compiledStep "loop.iteration.1.fetch"))
    (recipeStep ("mol" ++ "." ++ (compiledStep "loop.iteration.1.fetch.attempt.1").id,
      compiledStep "loop.iteration.1.fetch.attempt.1")) :=
  .compiled (by decide +kernel) (by decide +kernel)
    (by decide +kernel) (by decide +kernel) (mem_singleton_self _) rfl rfl rfl
    (by decide +kernel) (by decide +kernel) (show _ ∈ fetchIssues by decide +kernel)
    (show _ ∈ fetchIssues by decide +kernel)

def fetchSteps : List RecipeStep := fetchIssues.map recipeStep

/-- In the first iteration the control of the retry runs both attempts of its budget. -/
theorem nestedRetry_budget_first : BudgetKept (fun _ => true) fetch
    (beadOf compiledLoop "mol.loop.iteration.1.fetch")
    (beadOf compiledLoop "mol.loop.iteration.1.fetch.attempt.1-scope-check") 2 compiledLoop := by
  have hcontrol : beadOf compiledLoop "mol.loop.iteration.1.fetch" =
      makeBead (.refl String) .graphApply fetchSteps (recipeStep ("mol" ++ "." ++
        (compiledStep "loop.iteration.1.fetch").id, compiledStep "loop.iteration.1.fetch")) := by
    decide +kernel
  have hstart : StartsAlone (makeBead (.refl String) .graphApply fetchSteps (recipeStep ("mol" ++
        "." ++ (compiledStep "loop.iteration.1.fetch").id, compiledStep "loop.iteration.1.fetch")))
      (beadOf compiledLoop "mol.loop.iteration.1.fetch.attempt.1-scope-check")
      (makeBead (.refl String) .graphApply fetchSteps (recipeStep ("mol" ++ "." ++
        (compiledStep "loop.iteration.1.fetch.attempt.1").id,
          compiledStep "loop.iteration.1.fetch.attempt.1"))) compiledLoop := by
    decide +kernel
  rw [hcontrol]
  exact (nestedRetry_budget validRetry_fetch minted_fetch (by decide +kernel)
    hstart.retryStart).1 ⟨⟨rfl, by decide +kernel⟩, .inr (by decide +kernel)⟩

/-- In the second iteration the scope check of the first attempt aborts the scope.  The control is
skipped after one attempt of its budget of two. -/
theorem secondIteration_skips_retry :
    ((step respawnedLoop (.finish "mol.loop.iteration.2.fetch.attempt.1" transientFailure)).bind
        fun s => step s (.process "mol.loop.iteration.2.fetch.attempt.1-scope-check"
          (.settle transientFailure))).any
        (fun s => (beadOf s "mol.loop.iteration.2.fetch").status = .closed ∧
          (beadOf s "mol.loop.iteration.2.fetch").val .outcome = Outcome.skipped ∧
          attemptCandidates (beadOf respawnedLoop "mol.loop.iteration.2.fetch") s.beads =
            [beadOf s "mol.loop.iteration.2.fetch.attempt.1"]) = true ∧
      ¬ BudgetKept (fun _ => true) fetch (beadOf respawnedLoop "mol.loop.iteration.2.fetch")
        (beadOf respawnedLoop "mol.loop.iteration.2.fetch.attempt.1-scope-check") 2
        respawnedLoop := by
  have hstart : StartsAlone (beadOf respawnedLoop "mol.loop.iteration.2.fetch")
      (beadOf respawnedLoop "mol.loop.iteration.2.fetch.attempt.1-scope-check")
      (beadOf respawnedLoop "mol.loop.iteration.2.fetch.attempt.1") respawnedLoop := by
    decide +kernel
  refine ⟨by decide +kernel, not_budgetKept_of_starving hstart.retryStart ?_ (by decide +kernel)
    (by decide +kernel) (by decide +kernel) (by decide +kernel)⟩
  constructor <;> decide +kernel

/-- A retry control that decides as `processAttemptControl` does never numbers an attempt beyond its
budget, wherever its count starts and whatever the other steps do. -/
theorem retry_within_budget {r : Step} {control b : Bead} {m : ℕ} {jsonValid : String → Bool}
    {s t : Store} {as : List Label} (hr : ControlOf r control m)
    (hids : (s.beads.map Bead.id).Nodup) (hcontrol : control ∈ s.beads) (hb : b ∈ s.beads)
    (hattempt : isAttemptOf control b = true)
    (hnum : 1 ≤ attemptNum b) (hrun : GovernedRun jsonValid r control s as t) :
    as.countP (spawns control.id) = 0 ∨ attemptNum b + as.countP (spawns control.id) ≤ m := by
  have hspent : Spent control (attemptNum b) m s 1 :=
    ⟨hids, ⟨control, hcontrol, .refl control⟩, ⟨b, hb, hattempt, by omega⟩, le_rfl, .inl rfl⟩
  have := (hspent.run hr hnum hrun).within
  omega

def fetchControl : Bead := beadOf compiledLoop "mol.loop.iteration.1.fetch"

def fetchAttempt : Bead := beadOf compiledLoop "mol.loop.iteration.1.fetch.attempt.1"

def failed : Label := .finish fetchAttempt.id transientFailure

def checked : Label :=
  .process "mol.loop.iteration.1.fetch.attempt.1-scope-check" (.settle transientFailure)

def retried : Label :=
  .process fetchControl.id (.spawn (spawnNextAttempt (.refl String) fetch .nil fetchControl 2))

def loopAfter (as : List Label) : Store := (exec step compiledLoop as).getD {}

/-- The first attempt fails transiently, and the control spawns the second and last one. -/
theorem retry_within_budget_spawns : ∃ as t,
    GovernedRun (fun _ => true) fetch fetchControl compiledLoop as t ∧
      as.countP (spawns fetchControl.id) = 1 ∧
      (as.countP (spawns fetchControl.id) = 0 ∨
        attemptNum fetchAttempt + as.countP (spawns fetchControl.id) ≤ 2) := by
  have hdecided : processAttemptControl (retryStrategy (fun _ => true) "" fetchControl)
      (.refl String) fetch .nil (loopAfter [failed, checked]) fetchControl =
        some (.spawn (spawnNextAttempt (.refl String) fetch .nil fetchControl 2)) := by
    decide +kernel
  have hrun : GovernedRun (fun _ => true) fetch fetchControl compiledLoop
      [failed, checked, retried] (loopAfter [failed, checked, retried]) := by
    refine .cons (t := loopAfter [failed]) ⟨?_, trivial⟩
      (.cons (t := loopAfter [failed, checked]) ⟨?_, fun hid => ?_⟩
        (.cons ⟨?_, fun _ => ⟨.refl String, "", fetchControl, ?_, hdecided⟩⟩ (.nil _)))
    · show step _ _ = some _
      decide +kernel
    · show step _ _ = some _
      decide +kernel
    · exact absurd hid (by decide +kernel)
    · show step _ _ = some _
      decide +kernel
    · decide +kernel
  refine ⟨_, _, hrun, by decide +kernel, retry_within_budget ?_ ?_ ?_ ?_ ?_ ?_ hrun⟩
  · constructor <;> decide +kernel
  all_goals decide +kernel

end Dispatch

end GasCity
