import GasCity.Formula.Step
import Mathlib.Algebra.Ring.Int.Defs

/-! # Graph controls

`applyGraphControls` splices fanout and scope-check controls into the steps of a
workflow, points references at the controls, and closes the graph with the
`workflow-finalize` step and a topological sort of the top level.
-/

namespace GasCity.Formula

open List

def markOutputRequired (s : Step) : Step :=
  match s.onComplete with
  | none => s
  | some _ => { s with metadata := s.metadata.set .outputJSONRequired "true" }

def fanoutMode (oc : OnCompleteSpec) : String :=
  if oc.sequential then "sequential" else "parallel"

/-- The metadata of a fanout control, before its role in a scope is stamped. -/
def fanoutMetadata (s : Step) (oc : OnCompleteSpec) : Metadata :=
  Table.copyNonempty [.scopeRef, .onFail, .stepID, .ralphStepID, .attempt] s.metadata
    (Table.ofList [(.kind, Kind.fanout), (.controlFor, s.id), (.forEach, oc.forEach),
      (.bond, oc.bond), (.fanoutMode, fanoutMode oc)])

/-- The control that expands the `on_complete` of a step. -/
def fanoutControl (s : Step) (oc : OnCompleteSpec) : Step where
  id := s.id ++ "-fanout"
  title := "Expand fanout for " ++ s.title
  type := "task"
  needs := [s.id]
  metadata :=
    if (fanoutMetadata s oc).val .scopeRef = "" then fanoutMetadata s oc
    else (fanoutMetadata s oc).set .scopeRole ScopeRole.control

def needsScopeCheck (s : Step) : Bool :=
  s.metadata.val .scopeRef != "" && s.metadata.val .scopeRole != ScopeRole.teardown &&
    !isScopeCheckExemptKind s.kind

def scopeCheckControl (s : Step) : Step where
  id := s.id ++ "-scope-check"
  title := "Finalize scope for " ++ s.title
  type := "task"
  needs := [s.id]
  metadata := Table.copyNonempty [.stepID, .ralphStepID, .attempt, .onFail] s.metadata
    (Table.ofList [(.kind, Kind.scopeCheck), (.scopeRef, s.metadata.val .scopeRef),
      (.scopeRole, ScopeRole.control), (.controlFor, s.id)])

/-- The controls of a list of steps: all fanouts, then all scope checks. -/
def controls (steps : List Step) : List Step :=
  steps.filterMap (fun s => s.onComplete.map (fanoutControl s)) ++
    (steps.filter needsScopeCheck).map scopeCheckControl

def stepByID (steps : List Step) (id : String) : Option Step :=
  steps.reverse.find? fun s => s.id = id

/-- The scope-check control that stands for the step named `id`. -/
def scopeControl (steps : List Step) (id : String) : Option Step :=
  (stepByID (steps.filter needsScopeCheck) id).map scopeCheckControl

/-- Points a reference at the control that finalizes the step it names, unless the control closes
the very node that refers to it. -/
def rewriteGraphRef (steps : List Step) (referrer : Step) (id : String) : String :=
  match scopeControl steps id with
  | none => id
  | some control =>
    if controlClosesNode control.metadata referrer.id referrer.metadata then id else control.id

def rewriteGraphStepRefs (steps : List Step) (s : Step) : Step :=
  { s with
    dependsOn := s.dependsOn.map (rewriteGraphRef steps s)
    needs := s.needs.map (rewriteGraphRef steps s) }

/-- The control of an attempt scope: the scope is a numbered attempt of a retry or check control. -/
def attemptControl (steps : List Step) (s : Step) : Option Step :=
  match stepByID steps (s.metadata.val .controlFor) with
  | none => none
  | some control =>
    if s.metadata.val .attempt ≠ "" ∧ s.metadata.val .stepID ≠ "" ∧
        s.metadata.val .stepID = control.metadata.val .stepID ∧
        (control.kind = Kind.retry ∨ control.kind = Kind.ralph) then some control
    else none

def enclosedByScope (steps : List Step) (s : Step) : Bool :=
  match stepByID steps (s.metadata.val .scopeRef) with
  | none => false
  | some enclosing => enclosing.kind = Kind.scope

/-- What a step contributes to the sinks: nothing, its own id, or the id of its control. -/
def sinkOf (steps : List Step) (s : Step) : Option String :=
  if s.kind = Kind.workflowFinalize ∨ s.kind = Kind.spec then none
  else if s.kind = Kind.scope then
    match attemptControl steps s with
    | none => some s.id
    | some control =>
      if s.metadata.val .scopeRef = "" then some control.id
      else if enclosedByScope steps s then none else some s.id
  else if s.id ∈ steps.flatMap Step.deps then none
  else some s.id

def graphSinkStepIDs (steps : List Step) : List String :=
  (steps.filterMap (sinkOf steps)).eraseDups

section Sorting

variable (nonRoot : List (Step × Forest Step))

def treeIDs : List String := nonRoot.map fun t => t.1.id

/-- The references of a tree's root to other trees, `depends_on` first. -/
def treeDeps (t : Step × Forest Step) : List String :=
  t.1.deps.filter (· ∈ treeIDs nonRoot)

def indegree (id : String) : Int :=
  ((nonRoot.filter fun t => t.1.id = id).map fun t => ((treeDeps nonRoot t).length : Int)).sum

/-- The roots that wait for `id`, one entry for each reference. -/
def adj (id : String) : List String :=
  nonRoot.flatMap fun t => ((treeDeps nonRoot t).filter (· = id)).map fun _ => t.1.id

def indexByID (id : String) : Nat :=
  nonRoot.length - 1 - (treeIDs nonRoot).reverse.idxOf id

def insertReady : List String → String → List String
  | [], id => [id]
  | existing :: queue, id =>
    if indexByID nonRoot id < indexByID nonRoot existing then id :: existing :: queue
    else existing :: insertReady queue id

/-- One reference less to wait for; the last one makes the tree ready. -/
def releaseOne (state : (String → Int) × List String) (next : String) :
    (String → Int) × List String :=
  let count := state.1 next - 1
  (fun x => if x = next then count else state.1 x,
    if count = 0 then insertReady nonRoot state.2 next else state.2)

/-- Release the trees that wait for `id`. -/
def release (id : String) (indegree : String → Int) (ready : List String) :
    (String → Int) × List String :=
  (adj nonRoot id).foldl (releaseOne nonRoot) (indegree, ready)

/-- The ids in the order in which they become ready.  Every pass takes one entry off the queue; an
id enters it at most once per tree and once when released. -/
def visit : Nat → (String → Int) → List String → List String → List String
  | 0, _, _, visited => visited
  | _ + 1, _, [], visited => visited
  | fuel + 1, indegree, id :: ready, visited =>
    if id ∈ visited then visit fuel indegree ready visited
    else
      let released := release nonRoot id indegree ready
      visit fuel released.1 released.2 (visited ++ [id])

def visited : List String :=
  let ready := ((treeIDs nonRoot).filter fun id => indegree nonRoot id = 0).foldl
    (insertReady nonRoot) []
  visit nonRoot (2 * nonRoot.length) (indegree nonRoot) ready []

def treeByID (id : String) : Option (Step × Forest Step) :=
  nonRoot.reverse.find? fun t => t.1.id = id

/-- The sorted trees; on a cycle the trees that never became ready keep their order at the end. -/
def sortTrees : List (Step × Forest Step) :=
  let ordered := (visited nonRoot).filterMap (treeByID nonRoot)
  if ordered.length = nonRoot.length then ordered
  else ordered ++ nonRoot.filter fun t => t.1.id ∉ visited nonRoot

variable {nonRoot}

variable {count : String → Int} {id : String} {queue ready : List String}

theorem mem_insertReady {x : String} :
    x ∈ insertReady nonRoot queue id ↔ x = id ∨ x ∈ queue := by
  induction queue with
  | nil => simp [insertReady]
  | cons existing queue ih =>
    rw [insertReady]
    split
    · simp
    · simp only [mem_cons, ih]
      tauto

theorem adj_subset (id : String) : adj nonRoot id ⊆ treeIDs nonRoot := by
  intro x hx
  obtain ⟨t, ht, hx⟩ := mem_flatMap.mp hx
  obtain ⟨_, _, rfl⟩ := mem_map.mp hx
  exact mem_map_of_mem ht

theorem insertReady_subset (hqueue : queue ⊆ treeIDs nonRoot)
    (hid : id ∈ treeIDs nonRoot) : insertReady nonRoot queue id ⊆ treeIDs nonRoot := by
  intro x hx
  rcases mem_insertReady.mp hx with rfl | hx
  · exact hid
  · exact hqueue hx

theorem release_subset (hready : ready ⊆ treeIDs nonRoot) :
    (release nonRoot id count ready).2 ⊆ treeIDs nonRoot := by
  apply foldlRecOn (motive := fun state : (String → Int) × List String =>
    state.2 ⊆ treeIDs nonRoot) (adj nonRoot id) (releaseOne nonRoot) hready
  intro state hstate next hnext
  rw [releaseOne]
  split
  · exact insertReady_subset hstate (adj_subset id hnext)
  · exact hstate

theorem visit_nodup_subset {fuel : Nat} {seen : List String}
    (hready : ready ⊆ treeIDs nonRoot) (hseen : seen.Nodup ∧ seen ⊆ treeIDs nonRoot) :
    (visit nonRoot fuel count ready seen).Nodup ∧
      visit nonRoot fuel count ready seen ⊆ treeIDs nonRoot := by
  induction fuel generalizing count ready seen with
  | zero => exact hseen
  | succ fuel ih =>
    cases ready with
    | nil => exact hseen
    | cons id ready =>
      obtain ⟨hid, hready⟩ := cons_subset.mp hready
      rw [visit]
      split
      · exact ih hready hseen
      · next hnew =>
        apply ih (release_subset hready)
        constructor
        · exact hseen.1.append (nodup_singleton id) (by simpa using hnew)
        · exact append_subset.mpr ⟨hseen.2, by simpa using hid⟩

variable (nonRoot) in
theorem visited_nodup_subset : (visited nonRoot).Nodup ∧ visited nonRoot ⊆ treeIDs nonRoot := by
  apply visit_nodup_subset
  · apply foldlRecOn (motive := fun queue => queue ⊆ treeIDs nonRoot) _ _
      (nil_subset _)
    intro queue hqueue id hid
    exact insertReady_subset hqueue (mem_of_mem_filter hid)
  · exact ⟨nodup_nil, nil_subset _⟩

theorem treeByID_eq_some (hids : (treeIDs nonRoot).Nodup) {t : Step × Forest Step} :
    treeByID nonRoot id = some t ↔ t ∈ nonRoot ∧ t.1.id = id := by
  constructor
  · intro h
    exact ⟨mem_reverse.mp (mem_of_find?_eq_some h), by simpa using find?_some h⟩
  · rintro ⟨ht, rfl⟩
    have hsome : (treeByID nonRoot t.1.id).isSome := by
      rw [treeByID, find?_isSome]
      exact ⟨t, mem_reverse.mpr ht, by simp⟩
    obtain ⟨u, hu⟩ := Option.isSome_iff_exists.mp hsome
    have hmem := mem_reverse.mp (mem_of_find?_eq_some hu)
    have hid : u.1.id = t.1.id := by simpa using find?_some hu
    rw [hu, inj_on_of_nodup_map hids hmem ht hid]

theorem sortTrees_perm (hids : (treeIDs nonRoot).Nodup) :
    (sortTrees nonRoot).Perm nonRoot := by
  obtain ⟨hnodup, _⟩ := visited_nodup_subset nonRoot
  let ordered := (visited nonRoot).filterMap (treeByID nonRoot)
  let rest := nonRoot.filter fun t => t.1.id ∉ visited nonRoot
  have hordered : ∀ t, t ∈ ordered ↔ t ∈ nonRoot ∧ t.1.id ∈ visited nonRoot := by
    intro t
    simp only [ordered, mem_filterMap, treeByID_eq_some hids]
    constructor
    · rintro ⟨id, hid, ht, rfl⟩
      exact ⟨ht, hid⟩
    · rintro ⟨ht, hid⟩
      exact ⟨_, hid, ht, rfl⟩
  have hperm : (ordered ++ rest).Perm nonRoot := by
    rw [perm_ext_iff_of_nodup]
    · intro t
      simp only [mem_append, hordered, rest, mem_filter, decide_eq_true_eq]
      tauto
    · apply List.Nodup.append
      · apply hnodup.filterMap
        intro id id' t h h'
        exact ((treeByID_eq_some hids).mp h).2.symm.trans ((treeByID_eq_some hids).mp h').2
      · exact (List.Nodup.of_map _ hids).filter _
      · intro t ht ht'
        exact (by simpa [rest] using ht' : t ∈ nonRoot ∧ t.1.id ∉ visited nonRoot).2
          ((hordered t).mp ht).2
    · exact List.Nodup.of_map _ hids
  rw [sortTrees]
  split
  · next hlen =>
    have hrest : rest = [] := by
      have hsum := hperm.length_eq
      rw [length_append, show ordered.length = nonRoot.length from hlen] at hsum
      exact length_eq_zero_iff.mp (by omega)
    rwa [hrest, append_nil] at hperm
  · exact hperm

end Sorting

def sortGraphSteps (steps : Forest Step) : Forest Step :=
  match steps.trees with
  | [] => steps
  | root :: nonRoot =>
    if nonRoot.length ≤ 1 then steps else .ofTrees (root :: sortTrees nonRoot)

theorem sortGraphSteps_perm {steps : Forest Step} (hids : (steps.roots.map Step.id).Nodup) :
    (sortGraphSteps steps).flatten.Perm steps.flatten := by
  rw [← Forest.trees_map_fst, map_map] at hids
  rw [sortGraphSteps]
  cases htrees : steps.trees with
  | nil => exact .refl _
  | cons root nonRoot =>
    dsimp only
    split
    · exact .refl _
    · rw [htrees] at hids
      have hperm := Forest.flatten_perm ((sortTrees_perm (nodup_cons.mp hids).2).cons root)
      rwa [← htrees, Forest.ofTrees_trees] at hperm

def workflowFinalize (sinks : List String) : Step where
  id := "workflow-finalize"
  title := "Finalize workflow"
  type := "task"
  needs := sinks
  metadata := Table.ofList [(.kind, Kind.workflowFinalize)]

/-- The steps with their references rewritten, followed by the controls. -/
def spliceControls (steps : Forest Step) : Forest Step :=
  let marked := steps.map markOutputRequired
  marked.map (rewriteGraphStepRefs marked.flatten) ++ .ofList (controls marked.flatten)

def applyGraphControls (steps : Forest Step) (includeWorkflowFinalize : Bool) : Forest Step :=
  let spliced := spliceControls steps
  if includeWorkflowFinalize then
    let sinks := graphSinkStepIDs spliced.flatten
    if sinks.isEmpty then sortGraphSteps spliced
    else sortGraphSteps (spliced ++ .ofList [workflowFinalize sinks])
  else spliced

end GasCity.Formula
