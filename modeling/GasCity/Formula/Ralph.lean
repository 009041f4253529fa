import GasCity.Formula.Step
import GasCity.Text.Trim

/-! # Retry and check transforms

`ApplyRetries` and `ApplyRalph` replace a retry-managed or checked step by a
control that keeps its id, a spec sidecar and the first attempt.  The children
of a checked step become the flat body of its first iteration.
-/

namespace GasCity

open Table

namespace Formula

def appendUniqueCopy (l : List String) (item : String) : List String :=
  if item = "" ∨ item ∈ l then l else l ++ [item]

def metadataDefault (m : Metadata) (key : MetaKey) (default : String) : String :=
  if m.val key = "" then default else m.val key

def withMetadata (base : Metadata) (extra : List (MetaKey × String)) : Metadata :=
  base.merge (.ofList extra)

def eraseKeys (m : Metadata) (keys : List MetaKey) : Metadata :=
  keys.foldl (fun m k => m.erase k) m

section Metadata

variable {m : Metadata} {k : MetaKey} {v : String} {extra : List (MetaKey × String)}

theorem val_withMetadata_of_notMem (h : k ∉ extra.map Prod.fst) :
    (withMetadata m extra).val k = m.val k := by
  have hnone : (ofList extra).get k = none := notMem_keys.mp (mt mem_keys_ofList.mp h)
  simp [withMetadata, val, getD, hnone]

theorem val_withMetadata_of_mem (hl : (extra.map Prod.fst).Nodup) (h : (k, v) ∈ extra) :
    (withMetadata m extra).val k = v := by
  have hget : (ofList extra).get k = some v := (get_ofList hl).mpr h
  simp [withMetadata, val, getD, hget]

theorem val_eraseKeys_of_notMem {keys : List MetaKey} (h : k ∉ keys) :
    (eraseKeys m keys).val k = m.val k := by
  induction keys generalizing m with
  | nil => rfl
  | cons k' keys ih =>
    rw [List.mem_cons, not_or] at h
    rw [eraseKeys, List.foldl_cons, ← eraseKeys, ih h.2, val_erase_of_ne h.1]

theorem val_eraseKeys_of_mem {keys : List MetaKey} (h : k ∈ keys) :
    (eraseKeys m keys).val k = "" := by
  induction keys generalizing m with
  | nil => cases h
  | cons k' keys ih =>
    rw [eraseKeys, List.foldl_cons, ← eraseKeys]
    by_cases hk : k ∈ keys
    · exact ih hk
    · obtain rfl := (List.mem_cons.mp h).resolve_right hk
      rw [val_eraseKeys_of_notMem hk, val_erase_self]

end Metadata

/-- The sidecar that stores a step as written.  The stored text is not modelled: a reader gets the
step and its children back. -/
def newSourceSpecStep (s : Step) : Step where
  id := s.id ++ ".spec"
  title := "Step spec for " ++ s.title
  type := "spec"
  metadata := .ofList [(.kind, Kind.spec), (.specFor, s.id), (.specForRef, s.id)]

def isSourceSpecStep (s : Step) : Bool :=
  s.kind == Kind.spec

def namespacedSpecRef (m : Metadata) (iterationID : String) : Metadata :=
  if m.val .specForRef ≠ "" then m.set .specForRef (iterationID ++ "." ++ m.val .specForRef)
  else if m.val .specFor ≠ "" then m.set .specForRef (iterationID ++ "." ++ m.val .specFor)
  else m

def namespaceSourceSpecStep (s : Step) (iterationID : String) : Step :=
  { s with
    id := iterationID ++ "." ++ s.id
    ralph := none
    retry := none
    dependsOn := []
    needs := []
    assignee := ""
    metadata := namespacedSpecRef (eraseKeys s.metadata
      [.scopeRef, .scopeRole, .onFail, .stepID, .ralphStepID, .attempt, .stepRef]) iterationID }

def attemptID (s : Step) : String := s.id ++ ".attempt.1"

/-- The authored kind, kept beside the kind of the control or attempt. -/
def withOriginalKind (s : Step) (m : Metadata) : Metadata :=
  if s.kind = "" then m else m.set .originalKind s.kind

/-- The control keeps the step's id and waits for the first attempt. -/
def retryControl (s : Step) (spec : RetrySpec) : Step :=
  { s with
    retry := none
    assignee := ""
    needs := appendUniqueCopy s.needs (attemptID s)
    metadata := withOriginalKind s (withMetadata s.metadata
      [(.kind, Kind.retry), (.stepID, s.id), (.maxAttempts, toString spec.maxAttempts),
        (.onExhausted, if spec.onExhausted = "" then "hard_fail" else spec.onExhausted),
        (.controlEpoch, "1")]) }

/-- The first attempt does the work under the dependencies of the step. -/
def retryRun (s : Step) : Step :=
  { s with
    id := attemptID s
    retry := none
    onComplete := none
    metadata := eraseKeys (withOriginalKind s (withMetadata s.metadata
      [(.attempt, "1"), (.stepID, s.id), (.controlFor, s.id)])) [.scopeRef, .scopeRole, .onFail] }

def expandRetry (s : Step) (spec : RetrySpec) : List Step :=
  [retryControl s spec, newSourceSpecStep s, retryRun s]

def applyRetries : Forest Step → Forest Step
  | .nil => .nil
  | .cons s children rest =>
    match s.retry with
    | none => .cons s (applyRetries children) (applyRetries rest)
    | some spec => .ofList (expandRetry s spec) ++ applyRetries rest

def iterationID (s : Step) : String := s.id ++ ".iteration.1"

def ralphControl (s : Step) (spec : RalphSpec) : Step :=
  { s with
    ralph := none
    needs := appendUniqueCopy s.needs (iterationID s)
    metadata := withMetadata s.metadata
      ([(.kind, Kind.ralph), (.stepID, s.id), (.maxAttempts, toString spec.maxAttempts),
        (.checkMode, spec.check.mode), (.checkPath, spec.check.path),
        (.checkTimeout, spec.check.timeout), (.controlEpoch, "1")] ++
          if s.timeout = "" then [] else [(.stepTimeout, s.timeout)]) }

def withOutputRequired (s : Step) (m : Metadata) : Metadata :=
  if s.onComplete.isSome then m.set .outputJSONRequired "true" else m

/-- The first iteration of a check without children: a single work step. -/
def simpleIteration (s : Step) : Step :=
  { s with
    id := iterationID s
    ralph := none
    onComplete := none
    metadata := withOutputRequired s (eraseKeys (withMetadata s.metadata
      [(.attempt, "1"), (.stepID, s.id), (.ralphStepID, s.id), (.stepRef, iterationID s),
        (.controlFor, s.id)]) [.scopeRef, .scopeRole, .onFail]) }

def iterationScope (s : Step) (topLevelBodyIDs : List String) : Step :=
  { s with
    id := iterationID s
    ralph := none
    onComplete := none
    dependsOn := []
    needs := topLevelBodyIDs
    metadata := eraseKeys (withOutputRequired s (withMetadata s.metadata
      [(.kind, Kind.scope), (.scopeRole, ScopeRole.body), (.scopeName, s.id), (.stepID, s.id),
        (.ralphStepID, s.id), (.attempt, "1"), (.stepRef, iterationID s), (.controlFor, s.id)]))
      [.scopeRef, .onFail] }

def rewriteRalphBodyDependencies (deps : List String) (iterationID : String)
    (bodyIDs : List String) : List String :=
  deps.map fun dep => if dep ∈ bodyIDs then iterationID ++ "." ++ dep else dep

def bodyMetadata (iterationID : String) (owner node : Step) : List (MetaKey × String) :=
  [(.scopeRef, iterationID),
    (.onFail, metadataDefault node.metadata .onFail "abort_scope"),
    (.scopeRole, metadataDefault node.metadata .scopeRole ScopeRole.member),
    (.stepID, metadataDefault node.metadata .stepID node.id),
    (.ralphStepID, owner.id), (.attempt, "1"), (.stepRef, iterationID ++ "." ++ node.id)] ++
  let controlFor := trimSpace (node.metadata.val .controlFor)
  if controlFor = "" then [] else [(.controlFor, iterationID ++ "." ++ controlFor)]

/-- A step of the body under its name in the iteration; a top-level one also waits for what the
owner waits for. -/
def namespaceBodyStep (iterationID : String) (owner : Step) (bodyIDs : List String) (top : Bool)
    (node : Step) : Step :=
  { node with
    id := iterationID ++ "." ++ node.id
    ralph := none
    dependsOn := rewriteRalphBodyDependencies node.dependsOn iterationID bodyIDs ++
      if top then owner.dependsOn else []
    needs := rewriteRalphBodyDependencies node.needs iterationID bodyIDs ++
      if top then owner.needs else []
    metadata := withMetadata node.metadata (bodyMetadata iterationID owner node) }

def namespaceRalphBodySteps (iterationID : String) (owner : Step) (bodyIDs : List String) :
    Bool → Forest Step → List Step
  | _, .nil => []
  | top, .cons node children rest =>
    if isSourceSpecStep node then
      namespaceSourceSpecStep node iterationID ::
        namespaceRalphBodySteps iterationID owner bodyIDs top rest
    else
      namespaceBodyStep iterationID owner bodyIDs top node ::
        (namespaceRalphBodySteps iterationID owner bodyIDs false children ++
          namespaceRalphBodySteps iterationID owner bodyIDs top rest)

def topLevelBodyIDs (iterationID : String) (body : Forest Step) : List String :=
  (body.roots.filter fun node => !isSourceSpecStep node).map fun node =>
    iterationID ++ "." ++ node.id

/-- A work step of the body that nothing in it waits for must produce output. -/
def markOutputSink (steps : List Step) (s : Step) : Step :=
  if isScopeCheckExemptKind s.kind ∨ s.kind = Kind.ralph ∨
      s.metadata.val .scopeRole = ScopeRole.teardown ∨ s.id ∈ steps.flatMap Step.deps then s
  else { s with metadata := s.metadata.set .outputJSONRequired "true" }

def markRalphBodyOutputSinks (steps : List Step) : List Step :=
  steps.map (markOutputSink steps)

def collectRalphBodyStepIDs (body : Forest Step) : List String :=
  body.flatten.map Step.id

def expandNestedRalph (s : Step) (spec : RalphSpec) (body : Forest Step) : List Step :=
  let flattenedBody := namespaceRalphBodySteps (iterationID s) s (collectRalphBodyStepIDs body)
    true body
  ralphControl s spec :: newSourceSpecStep s ::
    iterationScope s (topLevelBodyIDs (iterationID s) body) ::
    if s.onComplete.isSome then markRalphBodyOutputSinks flattenedBody else flattenedBody

/-- Expand a checked step; `body` is the transformed body of its children. -/
def expandRalph (s : Step) (spec : RalphSpec) (children body : Forest Step) : List Step :=
  if children = .nil then [ralphControl s spec, newSourceSpecStep s, simpleIteration s]
  else expandNestedRalph s spec body

def applyRalph : Forest Step → Forest Step
  | .nil => .nil
  | .cons s children rest =>
    match s.ralph with
    | none => .cons s (applyRalph children) (applyRalph rest)
    | some spec => .ofList (expandRalph s spec children (applyRalph children)) ++ applyRalph rest

def applyAttempts (steps : Forest Step) : Forest Step :=
  applyRalph (applyRetries steps)

def RetryAlone : Forest Step → Prop
  | .nil => True
  | .cons s children rest =>
    (s.retry.isSome → s.ralph = none ∧ children = .nil) ∧ RetryAlone children ∧ RetryAlone rest

instance decidableRetryAlone : (f : Forest Step) → Decidable (RetryAlone f)
  | .nil => .isTrue trivial
  | .cons _ children rest =>
    have := decidableRetryAlone children
    have := decidableRetryAlone rest
    inferInstanceAs (Decidable (_ ∧ _ ∧ _))

def NoSpecs (steps : List Step) : Prop :=
  ∀ s ∈ steps, isSourceSpecStep s = false

instance (steps : List Step) : Decidable (NoSpecs steps) :=
  inferInstanceAs (Decidable (∀ s ∈ steps, _))

def attemptRoot (s : Step) : Option String :=
  match s.retry with
  | some _ => some (attemptID s)
  | none => s.ralph.map fun _ => iterationID s

theorem RetryAlone.cases {s : Step} {children rest : Forest Step}
    (h : RetryAlone (.cons s children rest)) :
    (s.retry = none ∧ s.ralph = none ∧ attemptRoot s = none) ∨
    (∃ spec, s.retry = some spec ∧ s.ralph = none ∧ children = .nil ∧
      attemptRoot s = some (attemptID s)) ∨
    ∃ spec, s.retry = none ∧ s.ralph = some spec ∧ attemptRoot s = some (iterationID s) := by
  cases hr : s.retry with
  | some spec =>
    obtain ⟨hralph, hnil⟩ := h.1 (by simp [hr])
    exact .inr (.inl ⟨spec, rfl, hralph, hnil, by simp [attemptRoot, hr]⟩)
  | none =>
    cases hp : s.ralph with
    | none => exact .inl ⟨rfl, rfl, by simp [attemptRoot, hr, hp]⟩
    | some spec => exact .inr (.inr ⟨spec, rfl, rfl, by simp [attemptRoot, hr, hp]⟩)

theorem applyRetries_eq_nil {f : Forest Step} : applyRetries f = .nil ↔ f = .nil := by
  cases f with
  | nil => simp [applyRetries]
  | cons s children rest =>
    cases hs : s.retry with
    | none => simp [applyRetries, hs]
    | some spec => simp [applyRetries, hs, expandRetry, Forest.ofList]

section Equations

variable {s : Step} {children rest : Forest Step}

theorem applyAttempts_plain (hretry : s.retry = none) (hralph : s.ralph = none) :
    applyAttempts (.cons s children rest) =
      .cons s (applyAttempts children) (applyAttempts rest) := by
  simp [applyAttempts, applyRetries, applyRalph, hretry, hralph]

theorem applyAttempts_retry {spec : RetrySpec} (hretry : s.retry = some spec)
    (hralph : s.ralph = none) :
    applyAttempts (.cons s children rest) =
      .ofList (expandRetry s spec) ++ applyAttempts rest := by
  simp [applyAttempts, applyRetries, hretry, expandRetry, Forest.ofList,
    applyRalph, retryControl, newSourceSpecStep, retryRun, hralph]

theorem applyAttempts_ralph {spec : RalphSpec} (hretry : s.retry = none)
    (hralph : s.ralph = some spec) :
    applyAttempts (.cons s children rest) =
      .ofList (expandRalph s spec children (applyAttempts children)) ++ applyAttempts rest := by
  simp [applyAttempts, applyRetries, hretry, applyRalph, hralph, expandRalph, applyRetries_eq_nil]

end Equations

section Generated

variable {s node : Step}

theorem mem_appendUniqueCopy {l : List String} {item x : String} (hitem : item ≠ "") :
    x ∈ appendUniqueCopy l item ↔ x ∈ l ∨ x = item := by
  unfold appendUniqueCopy
  split
  · next h =>
    have hmem : item ∈ l := h.resolve_left hitem
    constructor
    · exact .inl
    · rintro (hx | rfl)
      · exact hx
      · exact hmem
  · simp

theorem withOriginalKind_val (s : Step) (m : Metadata) {k : MetaKey} (hk : k ≠ .originalKind) :
    (withOriginalKind s m).val k = m.val k := by
  unfold withOriginalKind
  split
  · rfl
  · exact val_set_of_ne hk

theorem withOutputRequired_val (s : Step) (m : Metadata) {k : MetaKey}
    (hk : k ≠ .outputJSONRequired) : (withOutputRequired s m).val k = m.val k := by
  unfold withOutputRequired
  split
  · exact val_set_of_ne hk
  · rfl

theorem retryControl_kind (spec : RetrySpec) : (retryControl s spec).kind = Kind.retry := by
  rw [Step.kind, retryControl, withOriginalKind_val _ _ (by decide),
    val_withMetadata_of_mem (by simp) (List.mem_cons_self ..)]

theorem iterationScope_role (ids : List String) :
    (iterationScope s ids).metadata.val .scopeRole = ScopeRole.body := by
  rw [iterationScope, val_eraseKeys_of_notMem (by decide), withOutputRequired_val _ _ (by decide)]
  exact val_withMetadata_of_mem (by simp) (by simp)

theorem retryRun_kind : (retryRun s).kind = s.kind := by
  rw [Step.kind, retryRun, val_eraseKeys_of_notMem (by decide),
    withOriginalKind_val _ _ (by decide), val_withMetadata_of_notMem (by simp), Step.kind]

theorem ralphControl_kind (spec : RalphSpec) : (ralphControl s spec).kind = Kind.ralph := by
  apply val_withMetadata_of_mem
  · split <;> simp
  · exact List.mem_cons_self ..

theorem simpleIteration_kind : (simpleIteration s).kind = s.kind := by
  rw [Step.kind, simpleIteration, withOutputRequired_val _ _ (by decide),
    val_eraseKeys_of_notMem (by decide), val_withMetadata_of_notMem (by simp), Step.kind]

theorem iterationScope_kind (ids : List String) : (iterationScope s ids).kind = Kind.scope := by
  rw [Step.kind, iterationScope, val_eraseKeys_of_notMem (by decide),
    withOutputRequired_val _ _ (by decide),
    val_withMetadata_of_mem (by simp) (List.mem_cons_self ..)]

theorem bodyMetadata_keys (it : String) (owner node : Step) :
    ((bodyMetadata it owner node).map Prod.fst).Nodup ∧
      ∀ k ∈ (bodyMetadata it owner node).map Prod.fst,
        k ∈ [.scopeRef, .onFail, .scopeRole, .stepID, .ralphStepID, .attempt, .stepRef,
          MetaKey.controlFor] := by
  unfold bodyMetadata
  dsimp only
  split <;> simp

theorem namespaceBodyStep_kind (it : String) (owner : Step) (ids : List String) (top : Bool) :
    (namespaceBodyStep it owner ids top node).kind = node.kind := by
  apply val_withMetadata_of_notMem
  intro hmem
  exact absurd ((bodyMetadata_keys it owner node).2 _ hmem) (by decide)

theorem newSourceSpecStep_kind : (newSourceSpecStep s).kind = Kind.spec := rfl

theorem markOutputSink_id (steps : List Step) : (markOutputSink steps s).id = s.id := by
  unfold markOutputSink
  split <;> rfl

theorem markOutputSink_deps (steps : List Step) : (markOutputSink steps s).deps = s.deps := by
  unfold markOutputSink
  split <;> rfl

theorem markOutputSink_drain (steps : List Step) : (markOutputSink steps s).drain = s.drain := by
  unfold markOutputSink
  split <;> rfl

theorem markOutputSink_val (steps : List Step) {k : MetaKey} (hk : k ≠ .outputJSONRequired) :
    (markOutputSink steps s).metadata.val k = s.metadata.val k := by
  unfold markOutputSink
  split
  · rfl
  · exact val_set_of_ne hk

theorem namespacedSpecRef_val {m : Metadata} {k : MetaKey} (it : String) (hk : k ≠ .specForRef) :
    (namespacedSpecRef m it).val k = m.val k := by
  unfold namespacedSpecRef
  split
  · exact val_set_of_ne hk
  · split
    · exact val_set_of_ne hk
    · rfl

theorem namespaceSourceSpecStep_kind (it : String) :
    (namespaceSourceSpecStep node it).kind = node.kind := by
  rw [Step.kind, namespaceSourceSpecStep, namespacedSpecRef_val it (by decide),
    val_eraseKeys_of_notMem (by decide), Step.kind]

end Generated

end Formula

end GasCity
