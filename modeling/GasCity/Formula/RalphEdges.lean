import GasCity.Formula.Ralph

/-! # The graph of the retry and check transforms

When the bodies of checks are flat, the ids and the edges of the transformed
forest are given by a recursion over the source: a transformed step becomes its
control and the root of its first attempt, and the body moves behind the root.
-/

namespace GasCity.Formula

open List Forest

def derivedIDs : Forest Step → List String
  | .nil => []
  | .cons s children rest =>
    match attemptRoot s with
    | none => s.id :: (derivedIDs children ++ derivedIDs rest)
    | some root =>
      s.id :: (s.id ++ ".spec") :: root ::
        ((derivedIDs children).map (fun id => root ++ "." ++ id) ++ derivedIDs rest)

def workIDs : Forest Step → List String
  | .nil => []
  | .cons s children rest =>
    match attemptRoot s with
    | none => s.id :: (workIDs children ++ workIDs rest)
    | some root =>
      s.id :: root :: ((workIDs children).map (fun id => root ++ "." ++ id) ++ workIDs rest)

theorem inside_ne_root (root x : String) : root ++ "." ++ x ≠ root := by
  intro h
  have hlen := congrArg String.length h
  rw [String.length_append, String.length_append, show ".".length = 1 from rfl] at hlen
  omega

def inBody (owner : Step) (ids : List String) (top : Bool) (node : Step) : Step :=
  if isSourceSpecStep node then namespaceSourceSpecStep node (iterationID owner)
  else namespaceBodyStep (iterationID owner) owner ids top node

section InBody

variable {owner node : Step} {ids : List String} {top : Bool}

theorem inBody_id : (inBody owner ids top node).id = iterationID owner ++ "." ++ node.id := by
  unfold inBody
  split <;> rfl

theorem inBody_drain : (inBody owner ids top node).drain = node.drain := by
  unfold inBody
  split <;> rfl

theorem inBody_isSpec : isSourceSpecStep (inBody owner ids top node) = isSourceSpecStep node := by
  unfold inBody
  split
  · rw [isSourceSpecStep, namespaceSourceSpecStep_kind, isSourceSpecStep]
  · rw [isSourceSpecStep, namespaceBodyStep_kind, isSourceSpecStep]

theorem mem_inBody_deps {d : String} : d ∈ (inBody owner ids top node).deps ↔
    isSourceSpecStep node = false ∧
      ((∃ e ∈ node.deps, d = if e ∈ ids then iterationID owner ++ "." ++ e else e) ∨
        top ∧ d ∈ owner.deps) := by
  unfold inBody
  split
  · next h => simp [namespaceSourceSpecStep, h]
  · next h =>
    simp only [namespaceBodyStep, rewriteRalphBodyDependencies, Step.mem_deps, mem_append,
      mem_map, h, true_and]
    cases top <;> grind

end InBody

def SpecLeaf : Forest Step → Prop
  | .nil => True
  | .cons s children rest =>
    (isSourceSpecStep s → children = .nil) ∧ SpecLeaf children ∧ SpecLeaf rest

variable {f : Forest Step}

theorem SpecLeaf.ofList_append (hf : SpecLeaf f) (l : List Step) :
    SpecLeaf (.ofList l ++ f) := by
  induction l with
  | nil => exact hf
  | cons s l ih => exact ⟨fun _ => rfl, trivial, ih⟩

theorem namespaceRalphBodySteps_map {β : Type*} (owner : Step) (ids : List String)
    (g g' : Step → β) (hg : ∀ top node, g (inBody owner ids top node) = g' node)
    (hf : SpecLeaf f) (top : Bool) :
    (namespaceRalphBodySteps (iterationID owner) owner ids top f).map g = f.flatten.map g' := by
  induction f generalizing top with
  | nil => rfl
  | cons node children rest ihc ihr =>
    have hnode := hg top node
    rw [namespaceRalphBodySteps]
    split
    · next hspec =>
      rw [inBody, if_pos hspec] at hnode
      simp [hf.1 hspec, hnode, ihr hf.2.2]
    · next hspec =>
      rw [inBody, if_neg hspec] at hnode
      simp [hnode, ihc hf.2.1, ihr hf.2.2]

theorem mem_namespaceRalphBodySteps (owner : Step) (ids : List String)
    (hf : SpecLeaf f) {node : Step} (hnode : node ∈ f.flatten) (top : Bool) :
    ∃ b, inBody owner ids b node ∈
      namespaceRalphBodySteps (iterationID owner) owner ids top f := by
  induction f generalizing top with
  | nil => cases hnode
  | cons s children rest ihc ihr =>
    rw [namespaceRalphBodySteps]
    split
    · next hspec =>
      rw [hf.1 hspec] at hnode
      rcases mem_cons.mp hnode with rfl | hnode
      · exact ⟨top, by simp [inBody, hspec]⟩
      · obtain ⟨b, hb⟩ := ihr hf.2.2 hnode top
        exact ⟨b, mem_cons_of_mem _ hb⟩
    · next hspec =>
      rcases mem_cons.mp hnode with rfl | hnode
      · exact ⟨top, by simp [inBody, hspec]⟩
      · rcases mem_append.mp hnode with hnode | hnode
        · obtain ⟨b, hb⟩ := ihc hf.2.1 hnode false
          exact ⟨b, mem_cons_of_mem _ (mem_append_left _ hb)⟩
        · obtain ⟨b, hb⟩ := ihr hf.2.2 hnode top
          exact ⟨b, mem_cons_of_mem _ (mem_append_right _ hb)⟩

theorem body_eq_map (s : Step) (l : List Step) : ∃ g : Step → Step,
    (if s.onComplete.isSome then markRalphBodyOutputSinks l else l) = l.map g ∧
      (∀ n, (g n).id = n.id) ∧ (∀ n, (g n).deps = n.deps) ∧
      (∀ n k, k ≠ .outputJSONRequired → (g n).metadata.val k = n.metadata.val k) ∧
      ∀ n, (g n).drain = n.drain := by
  split
  · exact ⟨markOutputSink l, rfl, fun _ => markOutputSink_id l, fun _ => markOutputSink_deps l,
      fun _ _ => markOutputSink_val l, fun _ => markOutputSink_drain l⟩
  · exact ⟨id, (map_id l).symm, fun _ => rfl, fun _ => rfl, fun _ _ _ => rfl, fun _ => rfl⟩

def label (n : Step) : String × Bool := (n.id, isSourceSpecStep n)

def derivedLabels : Forest Step → List (String × Bool)
  | .nil => []
  | .cons s children rest =>
    match attemptRoot s with
    | none => (s.id, false) :: (derivedLabels children ++ derivedLabels rest)
    | some root =>
      (s.id, false) :: (s.id ++ ".spec", true) :: (root, false) ::
        ((derivedLabels children).map (fun p => (root ++ "." ++ p.1, p.2)) ++
          derivedLabels rest)

theorem derivedLabels_fst (f : Forest Step) : (derivedLabels f).map Prod.fst = derivedIDs f := by
  induction f with
  | nil => rfl
  | cons s children rest ihc ihr =>
    cases hroot : attemptRoot s with
    | none => simp [derivedLabels, derivedIDs, hroot, ihc, ihr]
    | some root => simp [derivedLabels, derivedIDs, hroot, ← ihc, ihr, Function.comp_def]

theorem derivedLabels_work (f : Forest Step) :
    ((derivedLabels f).filter fun p => !p.2).map Prod.fst = workIDs f := by
  induction f with
  | nil => rfl
  | cons s children rest ihc ihr =>
    cases hroot : attemptRoot s with
    | none => simp [derivedLabels, workIDs, hroot, ihc, ihr]
    | some root =>
      simp [derivedLabels, workIDs, hroot, ← ihc, ihr, filter_map, Function.comp_def]

theorem isSpec_of_kind {s : Step} {kind : String} (hkind : s.kind = kind) :
    isSourceSpecStep s = (kind == Kind.spec) := by
  rw [isSourceSpecStep, hkind]

section Labels

variable {s : Step}

theorem label_retryControl (spec : RetrySpec) : label (retryControl s spec) = (s.id, false) := by
  rw [label, isSpec_of_kind (retryControl_kind spec)]; rfl

theorem label_newSourceSpecStep : label (newSourceSpecStep s) = (s.id ++ ".spec", true) := by
  rw [label, isSpec_of_kind newSourceSpecStep_kind]; rfl

theorem label_ralphControl (spec : RalphSpec) : label (ralphControl s spec) = (s.id, false) := by
  rw [label, isSpec_of_kind (ralphControl_kind spec)]; rfl

theorem label_iterationScope (ids : List String) :
    label (iterationScope s ids) = (iterationID s, false) := by
  rw [label, isSpec_of_kind (iterationScope_kind ids)]; rfl

theorem label_retryRun (hs : isSourceSpecStep s = false) :
    label (retryRun s) = (attemptID s, false) := by
  rw [label, isSpec_of_kind retryRun_kind, ← isSourceSpecStep, hs]; rfl

theorem label_simpleIteration (hs : isSourceSpecStep s = false) :
    label (simpleIteration s) = (iterationID s, false) := by
  rw [label, isSpec_of_kind simpleIteration_kind, ← isSourceSpecStep, hs]; rfl

end Labels

theorem expandNestedRalph_labels {body : Forest Step} (hbody : SpecLeaf body) (s : Step)
    (spec : RalphSpec) :
    (expandNestedRalph s spec body).map label =
      (s.id, false) :: (s.id ++ ".spec", true) :: (iterationID s, false) ::
        (body.flatten.map label).map fun p => (iterationID s ++ "." ++ p.1, p.2) := by
  obtain ⟨g, hg, hgid, _, hgval, _⟩ := body_eq_map s (namespaceRalphBodySteps (iterationID s) s
    (collectRalphBodyStepIDs body) true body)
  have hlabel : ∀ n, label (g n) = label n := by
    intro n
    rw [label, hgid, isSpec_of_kind (hgval n .kind (by decide)), label, isSpec_of_kind rfl]
    rfl
  have hmap := namespaceRalphBodySteps_map s (collectRalphBodyStepIDs body) label
    (fun n => (iterationID s ++ "." ++ n.id, isSourceSpecStep n))
    (fun top node => by rw [label, inBody_id, inBody_isSpec]) hbody true
  simp only [expandNestedRalph, hg, map_cons, map_map, Function.comp_def, hlabel, hmap,
    label_ralphControl, label_newSourceSpecStep, label_iterationScope]
  rfl

variable {f : Forest Step}

theorem applyAttempts_labels (hretry : RetryAlone f) (hspecs : NoSpecs f.flatten) :
    (applyAttempts f).flatten.map label = derivedLabels f ∧ SpecLeaf (applyAttempts f) := by
  induction f with
  | nil => exact ⟨rfl, trivial⟩
  | cons s children rest ihc ihr =>
    have hs : isSourceSpecStep s = false := hspecs s (mem_cons_self ..)
    obtain ⟨hchildren, hcleaf⟩ := ihc hretry.2.1
      (fun n hn => hspecs n (mem_of_children hn))
    obtain ⟨hrest, hrleaf⟩ := ihr hretry.2.2
      (fun n hn => hspecs n (mem_of_rest hn))
    rcases hretry.cases with ⟨hr, hp, hroot⟩ | ⟨spec, hr, hp, rfl, hroot⟩ | ⟨spec, hr, hp, hroot⟩
    · rw [applyAttempts_plain hr hp]
      refine ⟨?_, fun h => by simp [hs] at h, hcleaf, hrleaf⟩
      simp [derivedLabels, hroot, hchildren, hrest, label, hs]
    · rw [applyAttempts_retry hr hp]
      refine ⟨?_, hrleaf.ofList_append _⟩
      simp [expandRetry, derivedLabels, hroot, hrest, label_retryControl,
        label_newSourceSpecStep, label_retryRun hs]
    · rw [applyAttempts_ralph hr hp]
      refine ⟨?_, hrleaf.ofList_append _⟩
      rw [Forest.flatten_append, flatten_ofList, map_append, hrest, expandRalph]
      split
      · next hnil =>
        subst hnil
        simp [derivedLabels, hroot, label_ralphControl, label_newSourceSpecStep,
          label_simpleIteration hs]
      · rw [expandNestedRalph_labels hcleaf, hchildren]
        simp [derivedLabels, hroot]

theorem applyAttempts_ids (hretry : RetryAlone f) (hspecs : NoSpecs f.flatten) :
    (applyAttempts f).flatten.map Step.id = derivedIDs f := by
  rw [← derivedLabels_fst, ← (applyAttempts_labels hretry hspecs).1, map_map]
  rfl

theorem mem_workIDs_iff (hretry : RetryAlone f) (hspecs : NoSpecs f.flatten) {x : String} :
    x ∈ workIDs f ↔ ∃ n ∈ (applyAttempts f).flatten, isSourceSpecStep n = false ∧ n.id = x := by
  rw [← derivedLabels_work, ← (applyAttempts_labels hretry hspecs).1]
  simp [label, and_assoc]

def Leafy : Forest Step → Prop
  | .nil => True
  | .cons s children rest => (attemptRoot s = none → children = .nil) ∧ Leafy rest

/-- The body of every check is flat: a plain step in it has no children. -/
def FlatBodies : Forest Step → Prop
  | .nil => True
  | .cons s children rest =>
    ((attemptRoot s).isSome → Leafy children) ∧ FlatBodies children ∧ FlatBodies rest

instance decidableLeafy : (f : Forest Step) → Decidable (Leafy f)
  | .nil => .isTrue trivial
  | .cons _ _ rest =>
    have := decidableLeafy rest
    inferInstanceAs (Decidable (_ ∧ _))

instance decidableFlatBodies : (f : Forest Step) → Decidable (FlatBodies f)
  | .nil => .isTrue trivial
  | .cons _ children rest =>
    have := decidableFlatBodies children
    have := decidableFlatBodies rest
    inferInstanceAs (Decidable (_ ∧ _ ∧ _))

/-- The name of `d` in the body of the attempt: the ids of the body move into it. -/
def renameIn (root : String) (ids : List String) (d : String) : String :=
  if d ∈ ids then root ++ "." ++ d else d

def Waits : Forest Step → String → String → Prop
  | .nil, _, _ => False
  | .cons s children rest, a, b =>
    (match attemptRoot s with
    | none => a = s.id ∧ b ∈ s.deps ∨ Waits children a b
    | some root =>
      a = s.id ∧ (b ∈ s.deps ∨ b = root) ∨
      children = .nil ∧ a = root ∧ b ∈ s.deps ∨
      (∃ x ∈ workIDs children,
        a = root ∧ b = root ++ "." ++ x ∨ a = root ++ "." ++ x ∧ b ∈ s.deps) ∨
      ∃ x y, Waits children x y ∧ a = root ++ "." ++ x ∧
        b = renameIn root (derivedIDs children) y) ∨
    Waits rest a b

theorem applyAttempts_flat (hf : Leafy f) (hretry : RetryAlone f) :
    applyAttempts f = .ofList (applyAttempts f).flatten := by
  induction f with
  | nil => rfl
  | cons s children rest _ ih =>
    have hrest := ih hf.2 hretry.2.2
    rcases hretry.cases with ⟨hr, hp, hroot⟩ | ⟨spec, hr, hp, _, _⟩ | ⟨spec, hr, hp, _⟩
    · have hchildren : children = .nil := hf.1 hroot
      subst hchildren
      rw [applyAttempts_plain hr hp, Forest.flatten_cons, hrest]
      simp [applyAttempts, applyRetries, applyRalph, ofList]
    · rw [applyAttempts_retry hr hp, Forest.flatten_append, flatten_ofList,
        ofList_append, ← hrest]
    · rw [applyAttempts_ralph hr hp, Forest.flatten_append, flatten_ofList,
        ofList_append, ← hrest]

theorem namespaceRalphBodySteps_ofList (owner : Step) (ids : List String) (l : List Step) :
    namespaceRalphBodySteps (iterationID owner) owner ids true (.ofList l) =
      l.map (inBody owner ids true) := by
  induction l with
  | nil => rfl
  | cons node l ih =>
    rw [ofList, namespaceRalphBodySteps, ih, namespaceRalphBodySteps, map_cons,
      inBody]
    split <;> rfl

/-- The edges of a list of steps are those of a relation, and a spec sidecar has none. -/
structure Described (l : List Step) (r : String → String → Prop) : Prop where
  edges : ∀ a b, Digraph.Needs Step.id Step.deps l a b ↔ r a b
  specs : ∀ n ∈ l, isSourceSpecStep n → n.deps = []

section Described

variable {l l' : List Step} {r r' : String → String → Prop}

theorem Described.append (h : Described l r) (h' : Described l' r') :
    Described (l ++ l') fun a b => r a b ∨ r' a b where
  edges a b := by rw [Digraph.needs_append, h.edges, h'.edges]
  specs n hn := by
    rcases mem_append.mp hn with hn | hn
    · exact h.specs n hn
    · exact h'.specs n hn

theorem Described.cons {s : Step} (hspec : isSourceSpecStep s = false) (h : Described l r) :
    Described (s :: l) fun a b => a = s.id ∧ b ∈ s.deps ∨ r a b where
  edges a b := by rw [Digraph.needs_cons, h.edges, eq_comm]
  specs n hn hspecn := by
    rcases mem_cons.mp hn with rfl | hn
    · rw [hspec] at hspecn
      cases hspecn
    · exact h.specs n hn hspecn

theorem Described.cons_spec {s : Step} (hdeps : s.deps = []) (h : Described l r) :
    Described (s :: l) r where
  edges a b := by simp [h.edges, hdeps]
  specs n hn hspecn := by
    rcases mem_cons.mp hn with rfl | hn
    · exact hdeps
    · exact h.specs n hn hspecn

theorem Described.nil : Described [] fun _ _ => False :=
  ⟨fun _ _ => Digraph.needs_nil, fun _ hn => by cases hn⟩

theorem Described.congr (h : Described l r) (hr : ∀ a b, r a b ↔ r' a b) : Described l r' :=
  ⟨fun a b => (h.edges a b).trans (hr a b), h.specs⟩

theorem Described.map (h : Described l r) {g : Step → Step} (hid : ∀ n, (g n).id = n.id)
    (hdeps : ∀ n, (g n).deps = n.deps)
    (hspec : ∀ n, isSourceSpecStep (g n) = isSourceSpecStep n) : Described (l.map g) r where
  edges a b := by
    rw [← h.edges]
    simp only [Digraph.Needs, mem_map, exists_exists_and_eq_and, hid, hdeps]
  specs n hn hspecn := by
    obtain ⟨m, hm, rfl⟩ := mem_map.mp hn
    rw [hdeps]
    exact h.specs m hm (hspec m ▸ hspecn)

theorem Described.namespaced (h : Described l r) (owner : Step) (ids : List String) :
    Described (l.map (inBody owner ids true)) fun a b =>
      (∃ n ∈ l, isSourceSpecStep n = false ∧ a = iterationID owner ++ "." ++ n.id ∧
        b ∈ owner.deps) ∨
      ∃ x y, r x y ∧ a = iterationID owner ++ "." ++ x ∧
        b = renameIn (iterationID owner) ids y where
  edges a b := by
    constructor
    · rintro ⟨n, hn, rfl, hb⟩
      obtain ⟨node, hnode, rfl⟩ := mem_map.mp hn
      obtain ⟨hspec, ⟨e, he, rfl⟩ | ⟨_, hb⟩⟩ := mem_inBody_deps.mp hb
      · exact .inr ⟨node.id, e, (h.edges _ _).mp (.of_mem hnode he), inBody_id, rfl⟩
      · exact .inl ⟨node, hnode, hspec, inBody_id, hb⟩
    · rintro (⟨node, hnode, hspec, rfl, hb⟩ | ⟨x, y, hxy, rfl, rfl⟩)
      · exact ⟨_, mem_map_of_mem hnode, inBody_id,
          mem_inBody_deps.mpr ⟨hspec, .inr ⟨rfl, hb⟩⟩⟩
      · obtain ⟨node, hnode, rfl, hy⟩ := (h.edges x y).mpr hxy
        have hspec : isSourceSpecStep node = false := by
          rw [Bool.eq_false_iff]
          intro hspec
          rw [h.specs node hnode hspec] at hy
          cases hy
        exact ⟨_, mem_map_of_mem hnode, inBody_id,
          mem_inBody_deps.mpr ⟨hspec, .inl ⟨y, hy, rfl⟩⟩⟩
  specs n hn hspec := by
    obtain ⟨node, _, rfl⟩ := mem_map.mp hn
    rw [inBody_isSpec] at hspec
    rw [eq_nil_iff_forall_not_mem]
    intro d hd
    rw [mem_inBody_deps, hspec] at hd
    exact absurd hd.1 (by decide)

end Described

theorem isSpec_of_label {n : Step} {p : String × Bool} (h : label n = p) :
    isSourceSpecStep n = p.2 := by
  rw [← h, label]

theorem iterationID_ne (s : Step) : iterationID s ≠ "" := by
  intro h
  have hlen := congrArg String.length h
  simp [iterationID] at hlen

theorem attemptID_ne (s : Step) : attemptID s ≠ "" := by
  intro h
  have hlen := congrArg String.length h
  simp [attemptID] at hlen

theorem mem_ralphControl_deps {s : Step} {spec : RalphSpec} {d : String} :
    d ∈ (ralphControl s spec).deps ↔ d ∈ s.deps ∨ d = iterationID s := by
  simp [ralphControl, mem_appendUniqueCopy (iterationID_ne s), or_assoc]

/-- The edges of a transformed step without a body: its control and one attempt. -/
theorem Described.single {s control run : Step} {root : String}
    (hcontrol : label control = (s.id, false))
    (hcdeps : ∀ d, d ∈ control.deps ↔ d ∈ s.deps ∨ d = root)
    (hrun : label run = (root, false)) (hrdeps : run.deps = s.deps) :
    Described [control, newSourceSpecStep s, run] fun a b =>
      a = s.id ∧ (b ∈ s.deps ∨ b = root) ∨ a = root ∧ b ∈ s.deps := by
  refine (Described.cons (isSpec_of_label hcontrol)
    (.cons_spec rfl (.cons (isSpec_of_label hrun) .nil))).congr fun a b => ?_
  rw [show control.id = s.id from congrArg Prod.fst hcontrol,
    show run.id = root from congrArg Prod.fst hrun, hcdeps, hrdeps, or_false]

theorem Described.nested {children : Forest Step} (hretry : RetryAlone children)
    (hspecs : NoSpecs children.flatten) (hleafy : Leafy children)
    (h : Described (applyAttempts children).flatten (Waits children)) (s : Step)
    (spec : RalphSpec) :
    Described (expandNestedRalph s spec (applyAttempts children)) fun a b =>
      a = s.id ∧ (b ∈ s.deps ∨ b = iterationID s) ∨
      (∃ x ∈ workIDs children, a = iterationID s ∧ b = iterationID s ++ "." ++ x ∨
        a = iterationID s ++ "." ++ x ∧ b ∈ s.deps) ∨
      ∃ x y, Waits children x y ∧ a = iterationID s ++ "." ++ x ∧
        b = renameIn (iterationID s) (derivedIDs children) y := by
  have hids := applyAttempts_ids hretry hspecs
  have hwork := fun x => mem_workIDs_iff hretry hspecs (x := x)
  set l := (applyAttempts children).flatten
  have hflat : applyAttempts children = .ofList l := applyAttempts_flat hleafy hretry
  obtain ⟨g, hg, hgid, hgdeps, hgval, _⟩ :=
    body_eq_map s (l.map (inBody s (derivedIDs children) true))
  have htop : ∀ d, d ∈ (iterationScope s (topLevelBodyIDs (iterationID s) (.ofList l))).deps ↔
      ∃ x ∈ workIDs children, d = iterationID s ++ "." ++ x := by
    intro d
    simp only [iterationScope, topLevelBodyIDs, roots_ofList, Step.mem_deps,
      not_mem_nil, false_or, mem_map, mem_filter, Bool.not_eq_true', hwork]
    constructor
    · rintro ⟨n, ⟨hn, hspec⟩, rfl⟩
      exact ⟨n.id, ⟨n, hn, hspec, rfl⟩, rfl⟩
    · rintro ⟨_, ⟨n, hn, hspec, rfl⟩, rfl⟩
      exact ⟨n, ⟨hn, hspec⟩, rfl⟩
  rw [hflat, expandNestedRalph, collectRalphBodyStepIDs, flatten_ofList, hids,
    namespaceRalphBodySteps_ofList, hg]
  have hbody := (h.namespaced s (derivedIDs children)).map hgid hgdeps
    fun n => by rw [isSpec_of_kind (hgval n .kind (by decide)), isSpec_of_kind rfl]; rfl
  refine (Described.cons (isSpec_of_label (label_ralphControl spec)) (.cons_spec rfl
    (.cons (isSpec_of_label (label_iterationScope _)) hbody))).congr fun a b => ?_
  simp only [mem_ralphControl_deps, htop, hwork]
  have hcid : (ralphControl s spec).id = s.id := rfl
  have hsid : ∀ ids, (iterationScope s ids).id = iterationID s := fun _ => rfl
  rw [hcid, hsid]
  grind

theorem described {f : Forest Step} (hretry : RetryAlone f) (hflat : FlatBodies f)
    (hspecs : NoSpecs f.flatten) : Described (applyAttempts f).flatten (Waits f) := by
  induction f with
  | nil => exact .nil
  | cons s children rest ihc ihr =>
    have hs : isSourceSpecStep s = false := hspecs s (mem_cons_self ..)
    have hcspecs : NoSpecs children.flatten :=
      fun n hn => hspecs n (mem_of_children hn)
    have hchildren := ihc hretry.2.1 hflat.2.1 hcspecs
    have hrest := ihr hretry.2.2 hflat.2.2
      (fun n hn => hspecs n (mem_of_rest hn))
    rcases hretry.cases with ⟨hr, hp, hroot⟩ | ⟨spec, hr, hp, rfl, hroot⟩ | ⟨spec, hr, hp, hroot⟩
    · rw [applyAttempts_plain hr hp]
      refine (Described.cons hs (hchildren.append hrest)).congr fun a b => ?_
      simp only [Waits, hroot, or_assoc]
    · rw [applyAttempts_retry hr hp, Forest.flatten_append, flatten_ofList]
      have hdeps : ∀ d, d ∈ (retryControl s spec).deps ↔ d ∈ s.deps ∨ d = attemptID s := by
        simp [retryControl, mem_appendUniqueCopy (attemptID_ne s), or_assoc]
      refine ((Described.single (label_retryControl spec) hdeps
        (label_retryRun hs) rfl).append hrest).congr fun a b => ?_
      simp [Waits, hroot, workIDs]
    · rw [applyAttempts_ralph hr hp, Forest.flatten_append, flatten_ofList, expandRalph]
      split
      · next hnil =>
        subst hnil
        refine ((Described.single (label_ralphControl spec) (fun _ => mem_ralphControl_deps)
          (label_simpleIteration hs) rfl).append hrest).congr fun a b => ?_
        simp [Waits, hroot, workIDs]
      · next hne =>
        refine ((hchildren.nested hretry.2.1 hcspecs (hflat.1 (by simp [hroot])) s
          spec).append hrest).congr fun a b => ?_
        simp only [Waits, hroot, hne, false_and, false_or]

end GasCity.Formula
