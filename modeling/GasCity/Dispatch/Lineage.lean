import GasCity.Dispatch.NestedRetry

/-! # Attempt lineage

`findLatestAttempt` recognises the attempts of a control by the stamp `gc.control_for`, and by the
shape of step references when no stamp fits.  Which attempt the compiler or `buildAttemptRecipe`
made for which control is recorded here beside the beads, as mints.
-/

namespace GasCity.Dispatch

open List

open Formula

/-- The text after the last occurrence of `sep`. -/
def afterLast (s sep : String) : Option String :=
  ((range (s.toList.length + 1)).reverse.find? fun i =>
    decide (sep.toList <+: s.toList.drop i)).map
      fun i => .ofList (s.toList.drop (i + sep.toList.length))

def afterFirstDot (s : String) : Option String :=
  match s.toList.dropWhile (· != '.') with
  | [] => none
  | _ :: rest => some (.ofList rest)

/-- The names that unstamped attempts may know a control by: its ref and step id, the part of the
ref inside the last iteration or attempt, and its last segment. -/
def legacyNames (control : Bead) : List String :=
  let controlRef := if control.val .stepRef = "" then control.id else control.val .stepRef
  [controlRef] ++ [control.val .stepID].filter (· ≠ "") ++
    [".iteration.", ".attempt."].filterMap (fun marker =>
      ((afterLast controlRef marker).bind afterFirstDot).filter (· ≠ "")) ++
    (afterLast controlRef ".").toList

def isLegacyAttemptOf (control b : Bead) : Bool :=
  !isFailedPartialMolecule b && !isControlInfrastructure b.kind &&
    !(b.kind == Kind.scope && control.kind != Kind.ralph) && b.val .stepRef != "" &&
    (legacyNames control).any fun name => [".attempt.", ".iteration."].any fun sep =>
      hasPrefix (b.val .stepRef) (name ++ sep)

def latestAttemptFromCandidatesLegacyRefSurgery (control : Bead) (beads : List Bead) :
    Option Bead :=
  latestOf (beads.filter fun b => isLegacyAttemptOf control b && decide (0 < attemptNum b))

def latestAttemptFromCandidates (control : Bead) (beads : List Bead) : Option Bead :=
  (latestAttempt control beads).or (latestAttemptFromCandidatesLegacyRefSurgery control beads)

def latestAttemptFromDependencies (s : Store) (control : Bead) : Option Bead :=
  ((s.downDeps control.id).mapM s.get).bind (latestAttemptFromCandidates control)

/-- The latest attempt of a control among the beads of the workflow, or else among those that block
it. -/
def findLatestAttempt (s : Store) (control : Bead) : Option Bead :=
  (latestAttemptFromCandidates control s.beads).or (latestAttemptFromDependencies s control)

theorem findLatestAttempt_of_latest {s : Store} {control a : Bead}
    (h : latestAttempt control s.beads = some a) : findLatestAttempt s control = some a := by
  simp [findLatestAttempt, latestAttemptFromCandidates, h]

/-- What the lineage of a step or bead is read from. -/
structure Tag where
  id : String
  kind : String
  failed : String
  controlFor : String
  stepRef : String
  stepID : String
  attempt : String
  drain : Bool

namespace Tag

def read (id : String) (m : Metadata) (drain : Bool := false) : Tag where
  id := id
  kind := m.val .kind
  failed := m.val .moleculeFailed
  controlFor := m.val .controlFor
  stepRef := m.val .stepRef
  stepID := m.val .stepID
  attempt := m.val .attempt
  drain := drain

theorem read_congr {id : String} {m m' : Metadata} {drain : Bool} (h : ∀ k ∈ [.kind,
    .moleculeFailed, .controlFor, .stepRef, .stepID, MetaKey.attempt], m.val k = m'.val k) :
    read id m drain = read id m' drain := by
  simp only [forall_mem_cons] at h
  simp only [read, h]

def IsControl (t : Tag) : Prop :=
  t.drain = false ∧ (t.kind = Kind.retry ∨ t.kind = Kind.ralph)

def IsRoot (t : Tag) : Prop :=
  t.drain = false ∧ trimSpace t.failed ≠ "true" ∧ isControlInfrastructure t.kind = false ∧
    trimSpace t.controlFor ≠ ""

theorem plain_of_spec {t : Tag} (hkind : t.kind = Kind.spec) (hstamp : t.controlFor = "") :
    ¬ t.IsControl ∧ ¬ t.IsRoot := by
  constructor
  · rintro ⟨-, h⟩
    rw [hkind] at h
    exact absurd h (by decide)
  · rintro ⟨-, -, -, h⟩
    exact h (by rw [hstamp]; decide)

def ofStep (s : Step) : Tag := .read s.id s.metadata s.drain

def ofRecipeStep (s : RecipeStep) : Tag := .read s.id s.metadata

def ofBead (b : Bead) : Tag := .read b.id b.metadata

def inBody (root : String) (t : Tag) : Tag :=
  if t.kind = Kind.spec then
    { t with id := root ++ "." ++ t.id, stepRef := "", stepID := "", attempt := "" }
  else
    { t with
      id := root ++ "." ++ t.id
      controlFor := if trimSpace t.controlFor = "" then t.controlFor
        else root ++ "." ++ trimSpace t.controlFor
      stepRef := root ++ "." ++ t.id
      stepID := if t.stepID = "" then t.id else t.stepID
      attempt := "1" }

variable {root : String} {t : Tag}

theorem inBody_id : (t.inBody root).id = root ++ "." ++ t.id := by
  unfold inBody
  split <;> rfl

theorem inBody_isControl : (t.inBody root).IsControl ↔ t.IsControl := by
  unfold inBody
  split <;> rfl

theorem isRoot_of_inBody (h : (t.inBody root).IsRoot) : t.IsRoot := by
  unfold inBody at h
  split at h
  · exact h
  · obtain ⟨hdrain, hfailed, hkind, hstamp⟩ := h
    refine ⟨hdrain, hfailed, hkind, fun hempty => hstamp ?_⟩
    simp [hempty]

theorem IsControl.not_isRoot (h : t.IsControl) : ¬ t.IsRoot := by
  intro hroot
  have hinfra := hroot.2.2.1
  rcases h.2 with hkind | hkind <;> rw [hkind] at hinfra <;> exact absurd hinfra (by decide)

theorem IsRoot.not_isControl (h : t.IsRoot) : ¬ t.IsControl :=
  fun hc => hc.not_isRoot h

end Tag

/-- An attempt root made for a control: the ids of both, the step id of the control, the stamp and
the number of the root. -/
structure Mint where
  control : String
  root : String
  name : String
  stamp : String
  number : ℕ

/-- The members of a list with the property `P` are those that the mints name. -/
structure Named {α : Type} (id : α → String) (P : α → Prop) (key : Mint → String)
    (Q : Mint → α → Prop) (l : List α) (mints : List Mint) : Prop where
  mem : ∀ a ∈ l, P a → ∃ m ∈ mints, key m = id a
  of_mint : ∀ m ∈ mints, ∃ a ∈ l, id a = key m ∧ P a ∧ Q m a

namespace Named

variable {α β : Type} {id : α → String} {P : α → Prop} {key : Mint → String} {Q : Mint → α → Prop}
  {l l' : List α} {mints mints' : List Mint} {a : α} {m : Mint}

theorem nil : Named id P key Q [] [] := ⟨nofun, nofun⟩

theorem of_map {π : β → α} {k : List β} (h : Named id P key Q (k.map π) mints) :
    Named (id ∘ π) (P ∘ π) key (fun m b => Q m (π b)) k mints where
  mem b hb hP := h.mem (π b) (mem_map_of_mem hb) hP
  of_mint m hm := by
    obtain ⟨a, ha, hmint⟩ := h.of_mint m hm
    obtain ⟨b, hb, rfl⟩ := mem_map.mp ha
    exact ⟨b, hb, hmint⟩

theorem single (hid : id a = key m) (hP : P a) (hQ : Q m a) : Named id P key Q [a] [m] where
  mem _ hx _ := ⟨m, mem_singleton_self _, mem_singleton.mp hx ▸ hid.symm⟩
  of_mint _ hx := ⟨a, mem_singleton_self _, mem_singleton.mp hx ▸ ⟨hid, hP, hQ⟩⟩

variable (h : Named id P key Q l mints)
include h

theorem append (h' : Named id P key Q l' mints') :
    Named id P key Q (l ++ l') (mints ++ mints') where
  mem a ha hP := by
    rcases mem_append.mp ha with ha | ha
    · obtain ⟨m, hm, hid⟩ := h.mem a ha hP
      exact ⟨m, mem_append_left _ hm, hid⟩
    · obtain ⟨m, hm, hid⟩ := h'.mem a ha hP
      exact ⟨m, mem_append_right _ hm, hid⟩
  of_mint m hm := by
    rcases mem_append.mp hm with hm | hm
    · obtain ⟨a, ha, hmint⟩ := h.of_mint m hm
      exact ⟨a, mem_append_left _ ha, hmint⟩
    · obtain ⟨a, ha, hmint⟩ := h'.of_mint m hm
      exact ⟨a, mem_append_right _ ha, hmint⟩

theorem congr (hl : ∀ a, P a → (a ∈ l ↔ a ∈ l')) (hmints : ∀ m, m ∈ mints ↔ m ∈ mints') :
    Named id P key Q l' mints' where
  mem a ha hP := by
    obtain ⟨m, hm, hid⟩ := h.mem a ((hl a hP).mpr ha) hP
    exact ⟨m, (hmints m).mp hm, hid⟩
  of_mint m hm := by
    obtain ⟨a, ha, hid, hP, hQ⟩ := h.of_mint m ((hmints m).mpr hm)
    exact ⟨a, (hl a hP).mp ha, hid, hP, hQ⟩

theorem add_mint (ha : a ∈ l) (hid : id a = key m) (hP : P a) (hQ : Q m a) :
    Named id P key Q l (m :: mints) where
  mem b hb hb' := by
    obtain ⟨m', hm', hid'⟩ := h.mem b hb hb'
    exact ⟨m', mem_cons_of_mem _ hm', hid'⟩
  of_mint m' hm' := by
    rcases mem_cons.mp hm' with rfl | hm'
    · exact ⟨a, ha, hid, hP, hQ⟩
    · exact h.of_mint m' hm'

variable {id' : β → String} {P' : β → Prop} {Q' : Mint → β → Prop} {f : Mint → Mint}
  {ρ : String → String} (hkey : ∀ m, key (f m) = ρ (key m))
include hkey

theorem transport {k : List β} (hback : ∀ b ∈ k, P' b → ∃ a ∈ l, P a ∧ id' b = ρ (id a))
    (hforth : ∀ m ∈ mints, ∀ a ∈ l, id a = key m → P a → Q m a →
      ∃ b ∈ k, id' b = ρ (id a) ∧ P' b ∧ Q' (f m) b) :
    Named id' P' key Q' k (mints.map f) where
  mem b hb hPb := by
    obtain ⟨a, ha, hPa, hid⟩ := hback b hb hPb
    obtain ⟨m, hm, hma⟩ := h.mem a ha hPa
    exact ⟨f m, mem_map_of_mem hm, by rw [hkey, hma, hid]⟩
  of_mint m' hm' := by
    obtain ⟨m, hm, rfl⟩ := mem_map.mp hm'
    obtain ⟨a, ha, hma, hPa, hQa⟩ := h.of_mint m hm
    obtain ⟨b, hb, hid, hmint⟩ := hforth m hm a ha hma hPa hQa
    exact ⟨b, hb, by rw [hkey, hid, hma], hmint⟩

theorem map {g : α → β} (hid : ∀ a, id' (g a) = ρ (id a)) (hP : ∀ a, P' (g a) → P a)
    (hQ : ∀ m ∈ mints, ∀ a, id a = key m → P a → Q m a → P' (g a) ∧ Q' (f m) (g a)) :
    Named id' P' key Q' (l.map g) (mints.map f) := by
  refine h.transport hkey ?_ fun m hm a ha hma hPa hQa =>
    ⟨g a, mem_map_of_mem ha, hid a, hQ m hm a hma hPa hQa⟩
  intro b hb hPb
  obtain ⟨a, ha, rfl⟩ := mem_map.mp hb
  exact ⟨a, ha, hP a hPb, hid a⟩

end Named

/-- The tag of the control of a mint. -/
def Mint.Controls (m : Mint) (t : Tag) : Prop :=
  trimSpace t.stepID = m.name ∧ (trimSpace t.stepRef = m.stamp ∨ m.name = m.stamp)

/-- The tag of the attempt root of a mint. -/
def Mint.Roots (m : Mint) (t : Tag) : Prop :=
  t.kind ≠ Kind.spec ∧ trimSpace t.controlFor = m.stamp ∧ t.attempt = toString m.number

/-- The controls and attempt roots among the tags are those of the mints. -/
structure Described (tags : List Tag) (mints : List Mint) : Prop where
  controls : Named Tag.id Tag.IsControl Mint.control Mint.Controls tags mints
  roots : Named Tag.id Tag.IsRoot Mint.root Mint.Roots tags mints

namespace Described

variable {tags tags' : List Tag} {mints mints' : List Mint}

theorem nil : Described [] [] := ⟨.nil, .nil⟩

theorem append (h : Described tags mints) (h' : Described tags' mints') :
    Described (tags ++ tags') (mints ++ mints') :=
  ⟨h.controls.append h'.controls, h.roots.append h'.roots⟩

theorem congr (h : Described tags mints)
    (ht : ∀ t : Tag, ¬ (¬ t.IsControl ∧ ¬ t.IsRoot) → (t ∈ tags ↔ t ∈ tags')) :
    Described tags' mints where
  controls := h.controls.congr (fun t hc => ht t fun hplain => hplain.1 hc) fun _ => .rfl
  roots := h.roots.congr (fun t hr => ht t fun hplain => hplain.2 hr) fun _ => .rfl

theorem cons_plain (h : Described tags mints) {t : Tag} (hc : ¬ t.IsControl) (hr : ¬ t.IsRoot) :
    Described (t :: tags) mints := by
  refine h.congr fun u hu => ?_
  have hne : u ≠ t := fun heq => hu (heq ▸ ⟨hc, hr⟩)
  simp [hne]

theorem insert_plain {c t : Tag} (h : Described (c :: tags) mints)
    (ht : ¬ t.IsControl ∧ ¬ t.IsRoot) : Described (c :: t :: tags) mints := by
  refine (h.cons_plain ht.1 ht.2).congr fun u _ => ?_
  simp only [mem_cons]
  tauto

theorem pair {c a : Tag} {m : Mint} (hc : c.IsControl) (ha : a.IsRoot) (hcid : c.id = m.control)
    (haid : a.id = m.root) (hname : trimSpace c.stepID = m.name)
    (hlineage : trimSpace c.stepRef = m.stamp ∨ m.name = m.stamp)
    (hspec : a.kind ≠ Kind.spec) (hstamp : trimSpace a.controlFor = m.stamp)
    (hnumber : a.attempt = toString m.number) : Described [c, a] [m] where
  controls := by
    refine (Named.single hcid hc ⟨hname, hlineage⟩).congr (fun t ht => ?_) fun _ => .rfl
    have hne : t ≠ a := fun heq => ha.not_isControl (heq ▸ ht)
    simp [hne]
  roots := by
    refine (Named.single haid ha ⟨hspec, hstamp, hnumber⟩).congr (fun t ht => ?_) fun _ => .rfl
    have hne : t ≠ c := fun heq => hc.not_isRoot (heq ▸ ht)
    simp [hne]

end Described

/-- A formula writes no lineage stamp and no kind of a retry or check control or a spec sidecar, and
a step with attempts is itself work. -/
@[mk_iff]
structure Authored (f : Forest Step) : Prop where
  retries : RetryAlone f
  ids : (f.flatten.map Step.id).Nodup
  trimmed : ∀ s ∈ f.flatten, Trimmed s.id
  plain : ∀ s ∈ f.flatten, trimSpace (s.metadata.val .controlFor) = "" ∧
    s.kind ∉ [Kind.retry, Kind.ralph, Kind.spec]
  work : ∀ s ∈ f.flatten, (s.retry.isSome ∨ s.ralph.isSome) → s.drain = false ∧
    isControlInfrastructure s.kind = false ∧ trimSpace (s.metadata.val .moleculeFailed) ≠ "true"

instance (f : Forest Step) : Decidable (Authored f) :=
  decidable_of_iff' _ (authored_iff f)

namespace Authored

variable {s : Step} {children rest : Forest Step}

theorem down (h : Authored (.cons s children rest)) : Authored children where
  retries := h.retries.2.1
  ids := h.ids.sublist (((sublist_append_left ..).cons _).map _)
  trimmed n hn := h.trimmed n (Forest.mem_of_children hn)
  plain n hn := h.plain n (Forest.mem_of_children hn)
  work n hn := h.work n (Forest.mem_of_children hn)

theorem next (h : Authored (.cons s children rest)) : Authored rest where
  retries := h.retries.2.2
  ids := h.ids.sublist (((sublist_append_right ..).cons _).map _)
  trimmed n hn := h.trimmed n (Forest.mem_of_rest hn)
  plain n hn := h.plain n (Forest.mem_of_rest hn)
  work n hn := h.work n (Forest.mem_of_rest hn)

theorem kind_ne {f : Forest Step} (h : Authored f) (hs : s ∈ f.flatten) :
    s.kind ≠ Kind.retry ∧ s.kind ≠ Kind.ralph ∧ s.kind ≠ Kind.spec := by
  simpa using (h.plain s hs).2

theorem noSpecs {f : Forest Step} (h : Authored f) : NoSpecs f.flatten := by
  intro s hs
  simpa [isSourceSpecStep] using (h.kind_ne hs).2.2

end Authored

def Mint.within (root : String) (m : Mint) : Mint :=
  { m with
    control := root ++ "." ++ m.control
    root := root ++ "." ++ m.root
    stamp := root ++ "." ++ m.stamp }

/-- The first attempt of a step, with the root that the compiler gives it. -/
def firstMint (s : Step) (root : String) : Mint where
  control := s.id
  root := root
  name := s.id
  stamp := s.id
  number := 1

theorem firstMint_number {s : Step} {root : String} :
    toString (firstMint s root).number = "1" :=
  show toString 1 = "1" by decide

def compiledMints : Forest Step → List Mint
  | .nil => []
  | .cons s children rest =>
    (match attemptRoot s with
      | none => compiledMints children
      | some root => firstMint s root :: (compiledMints children).map (Mint.within root)) ++
    compiledMints rest

theorem tag_inBody {owner node : Step} {ids : List String} {top : Bool} :
    Tag.ofStep (inBody owner ids top node) = (Tag.ofStep node).inBody (iterationID owner) := by
  cases hspec : isSourceSpecStep node with
  | true =>
    have hkind : (Tag.ofStep node).kind = Kind.spec := beq_iff_eq.mp hspec
    have hread := fun {k : MetaKey} => namespacedSpecRef_val (m := eraseKeys node.metadata
      [.scopeRef, .scopeRole, .onFail, .stepID, .ralphStepID, .attempt, .stepRef])
      (k := k) (iterationID owner)
    have hkept := fun {k : MetaKey} hk hmem => (hread (k := k) hk).trans
      (val_eraseKeys_of_notMem hmem)
    have herased := fun {k : MetaKey} hk hmem => (hread (k := k) hk).trans
      (val_eraseKeys_of_mem hmem)
    rw [Tag.inBody, if_pos hkind, inBody, if_pos hspec, namespaceSourceSpecStep]
    simp (disch := decide) only [Tag.ofStep, Tag.read, hkept, herased]
  | false =>
    have hkind : (Tag.ofStep node).kind ≠ Kind.spec := beq_eq_false_iff_ne.mp hspec
    have hkept : ∀ {k : MetaKey}, k ∉ [.scopeRef, .onFail, .scopeRole, .stepID, .ralphStepID,
        .attempt, .stepRef, MetaKey.controlFor] →
        (inBody owner ids top node).metadata.val k = node.metadata.val k := inBody_val hspec
    have hstamped : ∀ {k : MetaKey} {v : String},
        (k, v) ∈ bodyMetadata (iterationID owner) owner node →
        (inBody owner ids top node).metadata.val k = v := inBody_stamp hspec
    have hstamp : (inBody owner ids top node).metadata.val .controlFor =
        if trimSpace (node.metadata.val .controlFor) = "" then node.metadata.val .controlFor
        else iterationID owner ++ "." ++ trimSpace (node.metadata.val .controlFor) := by
      split
      · next hempty =>
        rw [inBody, hspec, if_neg (by decide), namespaceBodyStep]
        exact val_withMetadata_of_notMem (by simp [bodyMetadata, hempty])
      · next hne => exact hstamped (by simp [bodyMetadata, hne])
    rw [Tag.inBody, if_neg hkind]
    simp only [Tag.ofStep, Tag.read, inBody_id, inBody_drain, hstamp,
      hkept (k := .kind) (by decide), hkept (k := .moleculeFailed) (by decide),
      hstamped (k := .stepRef) (v := iterationID owner ++ "." ++ node.id) (by simp [bodyMetadata]),
      hstamped (k := .attempt) (v := "1") (by simp [bodyMetadata]),
      hstamped (k := .stepID) (v := metadataDefault node.metadata .stepID node.id)
        (by simp [bodyMetadata])]
    rfl

theorem tags_expandNestedRalph (s : Step) (spec : RalphSpec) {body : Forest Step}
    (hbody : SpecLeaf body) :
    (expandNestedRalph s spec body).map Tag.ofStep =
      Tag.ofStep (ralphControl s spec) :: Tag.ofStep (newSourceSpecStep s) ::
        Tag.ofStep (iterationScope s (topLevelBodyIDs (iterationID s) body)) ::
          (body.flatten.map Tag.ofStep).map (Tag.inBody (iterationID s)) := by
  obtain ⟨g, hg, hgid, -, hgval, hgdrain⟩ := body_eq_map s (namespaceRalphBodySteps (iterationID s)
    s (collectRalphBodyStepIDs body) true body)
  have htag : ∀ n, Tag.ofStep (g n) = Tag.ofStep n := by
    intro n
    rw [Tag.ofStep, hgid, hgdrain]
    exact Tag.read_congr fun k hk => hgval n k (by rintro rfl; revert hk; decide)
  have hbodyTags := namespaceRalphBodySteps_map s (collectRalphBodyStepIDs body) Tag.ofStep
    (fun node => (Tag.ofStep node).inBody (iterationID s)) (fun _ _ => tag_inBody) hbody true
  rw [expandNestedRalph, hg]
  simp only [map_cons, map_map]
  refine congrArg _ (congrArg _ (congrArg _ ?_))
  rw [show Tag.ofStep ∘ g = Tag.ofStep from funext htag, hbodyTags]
  rfl

/-- The compiler stamps a root with the id of its control, and numbers it one. -/
structure Mint.FromCompiler (m : Mint) : Prop where
  stamp : m.stamp = m.control
  number : m.number = 1
  trimmed : Trimmed m.stamp
  named : Trimmed m.name

theorem trimmed_iteration {s : Step} (hs : Trimmed s.id) {x : String} (hx : Trimmed x) :
    Trimmed (iterationID s ++ "." ++ x) := by
  have := hs.join hx (".iteration.1" ++ ".")
  simpa only [iterationID, String.append_assoc] using this

theorem Described.inBody {tags : List Tag} {mints : List Mint} (h : Described tags mints)
    (hmints : ∀ m ∈ mints, m.FromCompiler) {s : Step} (hs : Trimmed s.id) :
    Described (tags.map (Tag.inBody (iterationID s)))
      (mints.map (Mint.within (iterationID s))) := by
  constructor
  case controls =>
    refine h.controls.map (fun _ => rfl) (fun _ => Tag.inBody_id)
      (fun _ => Tag.inBody_isControl.mp) fun m hm t hid hc ⟨hname, _⟩ => ?_
    have hmint := hmints m hm
    have hkind : t.kind ≠ Kind.spec := by
      rcases hc.2 with hkind | hkind <;> rw [hkind] <;> decide
    have hstepID : t.stepID ≠ "" := by
      intro hempty
      rw [hempty] at hname
      exact hmint.named.ne_empty (hname.symm.trans rfl)
    refine ⟨Tag.inBody_isControl.mpr hc, ?_, .inl ?_⟩
    · simp only [Tag.inBody, if_neg hkind, if_neg hstepID]
      exact hname
    · simp only [Tag.inBody, if_neg hkind, hid, Mint.within, ← hmint.stamp]
      exact (trimmed_iteration hs hmint.trimmed).trimSpace_eq
  case roots =>
    refine h.roots.map (fun _ => rfl) (fun _ => Tag.inBody_id)
      (fun _ => Tag.isRoot_of_inBody) fun m hm t hid hr ⟨hkind, hstamp, _⟩ => ?_
    have hmint := hmints m hm
    have hne : trimSpace t.controlFor ≠ "" := hr.2.2.2
    have hstamp' : trimSpace ((t.inBody (iterationID s)).controlFor) =
        (m.within (iterationID s)).stamp := by
      simp only [Tag.inBody, if_neg hkind, if_neg hne]
      rw [hstamp]
      exact (trimmed_iteration hs hmint.trimmed).trimSpace_eq
    refine ⟨⟨?_, ?_, ?_, ?_⟩, ?_, hstamp', ?_⟩
    · simpa only [Tag.inBody, if_neg hkind] using hr.1
    · simpa only [Tag.inBody, if_neg hkind] using hr.2.1
    · simpa only [Tag.inBody, if_neg hkind] using hr.2.2.1
    · rw [hstamp']
      exact (trimmed_iteration hs hmint.trimmed).ne_empty
    · simpa only [Tag.inBody, if_neg hkind] using hkind
    · simp only [Tag.inBody, if_neg hkind, Mint.within, hmint.number]
      rfl

section Compiled

variable {s : Step}

theorem retryControl_stepID (spec : RetrySpec) :
    (retryControl s spec).metadata.val .stepID = s.id := by
  rw [retryControl, withOriginalKind_val _ _ (by decide)]
  exact val_withMetadata_of_mem (by simp) (by simp)

theorem ralphControl_stepID (spec : RalphSpec) :
    (ralphControl s spec).metadata.val .stepID = s.id := by
  apply val_withMetadata_of_mem
  · split <;> simp
  · simp

theorem iteration_val {stamps : List (MetaKey × String)} (hl : (stamps.map Prod.fst).Nodup)
    (hmolecule : .moleculeFailed ∉ stamps.map Prod.fst) (hattempt : (.attempt, "1") ∈ stamps)
    (hlineage : (.controlFor, s.id) ∈ stamps) :
    ∀ k ∈ [MetaKey.moleculeFailed, .controlFor, .attempt], (withMetadata s.metadata stamps).val k =
      (withMetadata s.metadata [(.attempt, "1"), (.controlFor, s.id)]).val k := by
  intro k hk
  simp only [mem_cons, not_mem_nil, or_false] at hk
  rcases hk with rfl | rfl | rfl
  · rw [val_withMetadata_of_notMem hmolecule, val_withMetadata_of_notMem (by simp)]
  · rw [val_withMetadata_of_mem hl hlineage,
      val_withMetadata_of_mem (v := s.id) (by simp) (by simp)]
  · rw [val_withMetadata_of_mem hl hattempt,
      val_withMetadata_of_mem (v := "1") (by simp) (by simp)]

theorem newSourceSpecStep_plain :
    ¬ (Tag.ofStep (newSourceSpecStep s)).IsControl ∧ ¬ (Tag.ofStep (newSourceSpecStep s)).IsRoot :=
  Tag.plain_of_spec rfl rfl

/-- A step that may have attempts is itself work. -/
@[mk_iff]
structure WorkStep (s : Step) : Prop where
  trimmed : Trimmed s.id
  drain : s.drain = false
  infra : isControlInfrastructure s.kind = false
  spec : s.kind ≠ Kind.spec
  molecule : trimSpace (s.metadata.val .moleculeFailed) ≠ "true"

theorem Authored.workStep {f : Forest Step} (h : Authored f) {s : Step} (hs : s ∈ f.flatten)
    (hattempts : s.retry.isSome ∨ s.ralph.isSome) : WorkStep s := by
  obtain ⟨hdrain, hinfra, hmolecule⟩ := h.work s hs hattempts
  exact ⟨h.trimmed s hs, hdrain, hinfra, (h.kind_ne hs).2.2, hmolecule⟩

variable (h : WorkStep s)
include h

/-- A root with the kind of the step, or that of a scope, which keeps the failure mark. -/
theorem WorkStep.isRoot {t : Tag} (hdrain : t.drain = false)
    (hkind : t.kind ∈ [s.kind, Kind.scope, Kind.task])
    (hfailed : t.failed = s.metadata.val .moleculeFailed) (hstamp : trimSpace t.controlFor ≠ "") :
    t.IsRoot ∧ t.kind ≠ Kind.spec := by
  have hwork : isControlInfrastructure t.kind = false ∧ t.kind ≠ Kind.spec := by
    simp only [mem_cons, not_mem_nil, or_false] at hkind
    rcases hkind with hkind | hkind | hkind <;> rw [hkind]
    · exact ⟨h.infra, h.spec⟩
    · decide
    · decide
  exact ⟨⟨hdrain, hfailed ▸ h.molecule, hwork.1, hstamp⟩, hwork.2⟩

/-- A control that bears the id of the step, and its first root. -/
theorem WorkStep.pair {c a : Tag} {m : Mint} (hc : c.IsControl) (hcid : c.id = m.control)
    (haid : a.id = m.root) (hm : m.name = s.id ∧ m.stamp = s.id) (hname : c.stepID = s.id)
    (hdrain : a.drain = false) (hkind : a.kind ∈ [s.kind, Kind.scope, Kind.task])
    (hfailed : a.failed = s.metadata.val .moleculeFailed) (hstamp : a.controlFor = s.id)
    (hnumber : a.attempt = toString m.number) : Described [c, a] [m] := by
  have hself := h.trimmed.trimSpace_eq
  have hstamp' : trimSpace a.controlFor = s.id := by rw [hstamp, hself]
  obtain ⟨hroot, hspec⟩ := h.isRoot hdrain hkind hfailed (hstamp' ▸ h.trimmed.ne_empty)
  refine .pair hc hroot hcid haid ?_ (.inr (hm.1.trans hm.2.symm)) hspec
    (hstamp'.trans hm.2.symm) hnumber
  rw [hname, hself, hm.1]

theorem described_retry (spec : RetrySpec) :
    Described [Tag.ofStep (retryControl s spec), Tag.ofStep (retryRun s)]
      [firstMint s (attemptID s)] := by
  have hpair : CompiledPair { retry := s, spec, control := s.id, run := attemptID s }
      (retryControl s spec) (retryRun s) := compiledPair_retry h.trimmed
  apply h.pair ⟨h.drain, .inl (retryControl_kind spec)⟩ rfl rfl ⟨rfl, rfl⟩
  case hname => exact retryControl_stepID spec
  case hdrain => exact h.drain
  case hkind => exact mem_cons.mpr (.inl retryRun_kind)
  case hfailed => exact hpair.authored _ (by decide)
  case hstamp => exact hpair.lineage
  case hnumber => exact hpair.number.trans firstMint_number.symm

theorem described_ralph (spec : RalphSpec) {root : Step} (hid : root.id = iterationID s)
    (hdrain : root.drain = s.drain) (hkind : root.kind = s.kind ∨ root.kind = Kind.scope)
    (hval : ∀ k ∈ [MetaKey.moleculeFailed, .controlFor, .attempt], root.metadata.val k =
      (withMetadata s.metadata [(.attempt, "1"), (.controlFor, s.id)]).val k) :
    Described [Tag.ofStep (ralphControl s spec), Tag.ofStep root]
      [firstMint s (iterationID s)] := by
  apply h.pair ⟨h.drain, .inr (ralphControl_kind spec)⟩ rfl hid ⟨rfl, rfl⟩
  case hname => exact ralphControl_stepID spec
  case hdrain => exact hdrain.trans h.drain
  case hkind =>
    show root.kind ∈ _
    simpa using hkind.imp_right .inl
  case hfailed => exact (hval _ (by decide)).trans (val_withMetadata_of_notMem (by simp))
  case hstamp => exact (hval _ (by decide)).trans (val_withMetadata_of_mem (by simp) (by simp))
  case hnumber =>
    have hnumber : root.metadata.val .attempt = "1" :=
      (hval _ (by decide)).trans (val_withMetadata_of_mem (by simp) (by simp))
    exact hnumber.trans firstMint_number.symm

theorem described_simpleIteration (spec : RalphSpec) :
    Described [Tag.ofStep (ralphControl s spec), Tag.ofStep (simpleIteration s)]
      [firstMint s (iterationID s)] := by
  refine described_ralph h spec rfl rfl (.inl simpleIteration_kind) ?_
  intro k hk
  rw [simpleIteration, withOutputRequired_val _ _ (by revert k; decide),
    val_eraseKeys_of_notMem (by revert k; decide)]
  exact iteration_val (by simp) (by simp) (by simp) (by simp) k hk

theorem described_iterationScope (spec : RalphSpec) (ids : List String) :
    Described [Tag.ofStep (ralphControl s spec), Tag.ofStep (iterationScope s ids)]
      [firstMint s (iterationID s)] := by
  refine described_ralph h spec rfl rfl (.inr (iterationScope_kind ids)) ?_
  intro k hk
  rw [iterationScope, val_eraseKeys_of_notMem (by revert k; decide),
    withOutputRequired_val _ _ (by revert k; decide)]
  exact iteration_val (by simp) (by simp) (by simp) (by simp) k hk

end Compiled

variable {f : Forest Step}

theorem compiledMints_fromCompiler (h : Authored f) :
    ∀ m ∈ compiledMints f, m.FromCompiler := by
  induction f with
  | nil => exact nofun
  | cons s children rest ihc ihr =>
    intro m hm
    have hs : Trimmed s.id := h.trimmed s (mem_cons_self ..)
    have hfirst : ∀ root, (firstMint s root).FromCompiler := fun root => ⟨rfl, rfl, hs, hs⟩
    rcases mem_append.mp hm with hm | hm
    · rcases h.retries.cases with ⟨-, -, hroot⟩ | ⟨spec, -, -, rfl, hroot⟩ | ⟨spec, -, -, hroot⟩
      · rw [hroot] at hm
        exact ihc h.down m hm
      · rw [hroot] at hm
        obtain rfl := mem_singleton.mp hm
        exact hfirst _
      · rw [hroot] at hm
        rcases mem_cons.mp hm with rfl | hm
        · exact hfirst _
        · obtain ⟨m', hm', rfl⟩ := mem_map.mp hm
          obtain ⟨hstamp, hnumber, htrimmed, hnamed⟩ := ihc h.down m' hm'
          exact ⟨by simp only [Mint.within, hstamp], hnumber, trimmed_iteration hs htrimmed, hnamed⟩
    · exact ihr h.next m hm

theorem described_compiled (h : Authored f) :
    Described ((applyAttempts f).flatten.map Tag.ofStep) (compiledMints f) := by
  induction f with
  | nil => exact .nil
  | cons s children rest ihc ihr =>
    have hmem : s ∈ (Forest.cons s children rest).flatten := mem_cons_self ..
    have hrest := ihr h.next
    rw [compiledMints]
    rcases h.retries.cases with
      ⟨hr, hp, hroot⟩ | ⟨spec, hr, hp, rfl, hroot⟩ | ⟨spec, hr, hp, hroot⟩
    · have hkind := h.kind_ne hmem
      rw [hroot, applyAttempts_plain hr hp, Forest.flatten_cons, map_cons, map_append]
      apply ((ihc h.down).append hrest).cons_plain
      · rintro ⟨-, hcontrol⟩
        exact hcontrol.elim hkind.1 hkind.2.1
      · exact fun hroot => hroot.2.2.2 (h.plain s hmem).1
    · have hs := h.workStep hmem (.inl (by simp [hr]))
      rw [hroot, applyAttempts_retry hr hp, Forest.flatten_append, Forest.flatten_ofList,
        map_append]
      exact ((described_retry hs spec).insert_plain newSourceSpecStep_plain).append hrest
    · have hs := h.workStep hmem (.inr (by simp [hp]))
      rw [hroot, applyAttempts_ralph hr hp, Forest.flatten_append, Forest.flatten_ofList,
        map_append]
      refine Described.append ?_ hrest
      unfold expandRalph
      split
      · next hnil =>
        subst hnil
        exact (described_simpleIteration hs spec).insert_plain newSourceSpecStep_plain
      · have hleaf := (applyAttempts_labels h.down.retries h.down.noSpecs).2
        have hbody := (ihc h.down).inBody (compiledMints_fromCompiler h.down) hs.trimmed
        have hscope := described_iterationScope hs spec
          (topLevelBodyIDs (iterationID s) (applyAttempts children))
        rw [tags_expandNestedRalph s spec hleaf]
        exact (hscope.append hbody).insert_plain newSourceSpecStep_plain

/-- The controls of a re-spawned iteration `n` with their first attempts.  A retry keeps the bare
step id as its stamp, and its attempt takes the number of the iteration. -/
def respawnedMints (pfx : String) (n : ℕ) : Forest Step → List Mint
  | .nil => []
  | .cons s children rest =>
    let control := pfx ++ "." ++ s.id
    let iteration := control ++ ".iteration." ++ toString 1
    (match s.retry with
      | some _ => [{ control, root := pfx ++ "." ++ attemptID s, name := s.id, stamp := s.id,
                     number := n }]
      | none =>
        match s.ralph with
        | none => []
        | some _ =>
          { control, root := iteration, name := s.id, stamp := trimSpace control,
            number := 1 } :: respawnedMints iteration 1 children) ++
    respawnedMints pfx n rest

section Member

variable {pfx stepID : String} {n : ℕ} {child : Step}

variable {k : MetaKey}

theorem controlStamps_keys (hk : k ∈ (controlStamps child).map Prod.fst) :
    k ∈ [.kind, .maxAttempts, .controlEpoch, .onExhausted, .checkMode, .checkPath, .checkTimeout,
      MetaKey.stepTimeout] := by
  rw [controlStamps, map_append, mem_append] at hk
  rcases hk with hk | hk
  · cases hr : child.retry with
    | none => simp [hr] at hk
    | some spec =>
      simp only [hr, Option.map_some, Option.getD_some, retryStamps, map_cons, map_nil,
        mem_cons, not_mem_nil, or_false] at hk ⊢
      tauto
  · cases hp : child.ralph with
    | none => simp [hp] at hk
    | some spec =>
      simp only [hp, Option.map_some, Option.getD_some, ralphStamps] at hk
      split at hk
      · simp only [append_nil, map_cons, map_nil, mem_cons, not_mem_nil,
          or_false] at hk ⊢
        tauto
      · simp only [cons_append, nil_append, map_cons, map_nil, mem_cons,
          not_mem_nil, or_false] at hk ⊢
        tauto

theorem drainMetadata_val {s : Step} {m : Metadata} (hk : k ≠ .kind) :
    (drainMetadata s m).val k = m.val k := by
  unfold drainMetadata
  split
  · exact Table.val_set_of_ne hk
  · rfl

theorem memberStep_lineage (hk : k ∈ [.moleculeFailed, .controlFor, .stepRef, .stepID,
      MetaKey.attempt]) :
    (memberStep pfx stepID n child).metadata.val k =
      (withMetadata child.metadata (memberStamps pfx stepID n child)).val k := by
  have hkeys : k ≠ .kind ∧ k ≠ .outputJSONRequired ∧ k ∉ [.kind, .maxAttempts, .controlEpoch,
      .onExhausted, .checkMode, .checkPath, .checkTimeout, MetaKey.stepTimeout] := by
    simp only [mem_cons, not_mem_nil, or_false] at hk
    rcases hk with rfl | rfl | rfl | rfl | rfl <;> decide
  rw [memberStep]
  rw [drainMetadata_val hkeys.1,
    val_withMetadata_of_notMem fun hmem => hkeys.2.2 (controlStamps_keys hmem),
    withOutputRequired_val _ _ hkeys.2.1]

theorem memberStep_authoredLineage (hk : k ∈ [.moleculeFailed, MetaKey.controlFor]) :
    (memberStep pfx stepID n child).metadata.val k = child.metadata.val k := by
  simp only [mem_cons, not_mem_nil, or_false] at hk
  rcases hk with rfl | rfl <;>
    exact (memberStep_lineage (by decide)).trans
      (val_withMetadata_of_notMem (by simp [memberStamps]))

theorem memberStep_stampedLineage {v : String}
    (hv : (k, v) ∈ [(.attempt, toString n), (.stepRef, pfx ++ "." ++ child.id),
      (MetaKey.stepID, child.id)]) :
    (memberStep pfx stepID n child).metadata.val k = v := by
  have hmem : (k, v) ∈ memberStamps pfx stepID n child := by
    simp only [memberStamps, mem_cons, not_mem_nil, or_false] at hv ⊢
    tauto
  have hk : k ∈ [.moleculeFailed, .controlFor, .stepRef, .stepID, MetaKey.attempt] := by
    simp only [mem_cons, not_mem_nil, or_false, Prod.mk.injEq] at hv
    rcases hv with ⟨rfl, -⟩ | ⟨rfl, -⟩ | ⟨rfl, -⟩ <;> decide
  exact (memberStep_lineage hk).trans (val_withMetadata_of_mem (by simp [memberStamps]) hmem)

variable (pfx stepID n) in
theorem memberStep_kind (hretry : child.retry = none) (hralph : child.ralph = none) :
    (memberStep pfx stepID n child).metadata.val .kind =
      if child.drain then Kind.drain else child.kind := by
  rw [memberStep]
  rw [drainMetadata, controlStamps, hretry, hralph]
  split
  · exact Table.val_set_self
  · exact (val_withMetadata_of_notMem (by simp)).trans
      ((withOutputRequired_val _ _ (by decide)).trans
        (val_withMetadata_of_notMem (by simp [memberStamps])))

theorem memberStep_ralph_kind {spec : RalphSpec} (hretry : child.retry = none)
    (hralph : child.ralph = some spec) (hdrain : child.drain = false) :
    (memberStep pfx stepID n child).metadata.val .kind = Kind.ralph := by
  rw [memberStep]
  rw [drainMetadata, hdrain, if_neg (by decide), controlStamps, hretry, hralph]
  apply val_withMetadata_of_mem
  · simp only [Option.map_none, Option.getD_none, Option.map_some, Option.getD_some, ralphStamps,
      nil_append]
    split <;> simp
  · simp [ralphStamps]

end Member

section Respawned

variable {pfx stepID : String} {n : ℕ} {s : Step}

def PlainStep (x : RecipeStep) : Prop :=
  ¬ (Tag.ofRecipeStep x).IsControl ∧ ¬ (Tag.ofRecipeStep x).IsRoot

theorem memberStep_plain (hretry : s.retry = none) (hralph : s.ralph = none)
    (hstamp : trimSpace (s.metadata.val .controlFor) = "")
    (hkind : s.kind ≠ Kind.retry ∧ s.kind ≠ Kind.ralph) :
    PlainStep (memberStep pfx stepID n s) := by
  constructor
  · rintro ⟨-, hcontrol⟩
    change (memberStep pfx stepID n s).metadata.val .kind = _ ∨
      (memberStep pfx stepID n s).metadata.val .kind = _ at hcontrol
    rw [memberStep_kind pfx stepID n hretry hralph] at hcontrol
    split at hcontrol
    · exact absurd hcontrol (by decide)
    · exact hcontrol.elim hkind.1 hkind.2
  · rintro ⟨-, -, -, hroot⟩
    change trimSpace ((memberStep pfx stepID n s).metadata.val .controlFor) ≠ "" at hroot
    rw [memberStep_authoredLineage (by decide)] at hroot
    exact hroot hstamp

theorem plain_of_kind {step : RecipeStep} {kind : String} (hkind : step.metadata.val .kind = kind)
    (hcontrol : kind ≠ Kind.retry ∧ kind ≠ Kind.ralph)
    (hinfra : isControlInfrastructure kind = true) : PlainStep step := by
  constructor
  · rintro ⟨-, h⟩
    change step.metadata.val .kind = _ ∨ step.metadata.val .kind = _ at h
    rw [hkind] at h
    exact h.elim hcontrol.1 hcontrol.2
  · rintro ⟨-, -, h, -⟩
    change isControlInfrastructure (step.metadata.val .kind) = false at h
    rw [hkind, hinfra] at h
    cases h

theorem attemptFanout_plain (source : RecipeStep) (oc : OnCompleteSpec) :
    PlainStep (attemptFanout source oc) := by
  have hkind : (attemptFanout source oc).metadata.val .kind = Kind.fanout := by
    have hcopy : ∀ (ref mode : String),
        (Table.copyNonempty [.scopeRef, .onFail, .stepID, .ralphStepID, .attempt]
          source.metadata (Table.ofList [(.kind, Kind.fanout), (.controlFor, ref),
            (.forEach, oc.forEach), (.bond, oc.bond), (.fanoutMode, mode)])).val .kind =
          Kind.fanout := by
      intro ref mode
      rw [Table.val_copyNonempty_of_notMem (by decide)]
      rfl
    rw [attemptFanout]
    generalize (if source.metadata.val .stepRef = "" then source.id
      else source.metadata.val .stepRef) = ref
    generalize (if oc.sequential then "sequential" else "parallel") = mode
    split
    · exact hcopy ref mode
    · rw [Table.val_set_of_ne (by decide)]
      exact hcopy ref mode
  exact plain_of_kind hkind (by decide) (by decide)

theorem attemptScopeCheck_plain (step : RecipeStep) : PlainStep (attemptScopeCheck step) :=
  plain_of_kind (attemptScopeCheck_kind step) (by decide) (by decide)

theorem notMem_map_attemptScopeCheck {x : RecipeStep} (hx : ¬ PlainStep x)
    {steps : List RecipeStep} : x ∉ steps.map attemptScopeCheck := by
  intro hmem
  obtain ⟨step, -, rfl⟩ := mem_map.mp hmem
  exact hx (attemptScopeCheck_plain step)

theorem described_memberRetry (h : WorkStep s) (hralph : s.ralph = none) (spec : RetrySpec) :
    Described
      [Tag.ofRecipeStep (memberStep pfx stepID n (retryControl s spec)),
        Tag.ofRecipeStep (memberStep pfx stepID n (retryRun s))]
      [{ control := pfx ++ "." ++ s.id, root := pfx ++ "." ++ attemptID s, name := s.id,
         stamp := s.id, number := n }] := by
  have hpair : CompiledPair { retry := s, spec, control := s.id, run := attemptID s }
      (retryControl s spec) (retryRun s) := compiledPair_retry h.trimmed
  have hkind : ∀ t : Step, t.retry = none → t.ralph = none → t.drain = false →
      (memberStep pfx stepID n t).metadata.val .kind = t.kind := by
    intro t hretry hralph hdrain
    rw [memberStep_kind pfx stepID n hretry hralph, hdrain, if_neg (by decide)]
  have hcontrol := (hkind (retryControl s spec) rfl hralph h.drain).trans (retryControl_kind spec)
  have hrun := (hkind (retryRun s) rfl hralph h.drain).trans retryRun_kind
  apply h.pair ⟨rfl, .inl hcontrol⟩ rfl rfl ⟨rfl, rfl⟩
  case hname => exact memberStep_stampedLineage (by simp [retryControl])
  case hdrain => rfl
  case hkind => exact mem_cons.mpr (.inl hrun)
  case hfailed =>
    exact (memberStep_authoredLineage (by decide)).trans (hpair.authored _ (by decide))
  case hstamp => exact (memberStep_authoredLineage (by decide)).trans hpair.lineage
  case hnumber => exact memberStep_stampedLineage (by simp)

theorem isRoot_attemptRootStep (isScope : Bool) {control : Bead} (n : ℕ) (h : WorkStep s)
    (hnamed : trimSpace control.id ≠ "") :
    (Tag.ofRecipeStep (attemptRootStep s isScope control n)).IsRoot ∧
      (attemptRootStep s isScope control n).metadata.val .kind ≠ Kind.spec ∧
      (attemptRootStep s isScope control n).metadata.val .controlFor = control.id ∧
      (attemptRootStep s isScope control n).metadata.val .attempt = toString n := by
  have hval : ∀ {k : MetaKey}, k ∈ [.kind, .moleculeFailed, .controlFor, MetaKey.attempt] →
      (attemptRootStep s isScope control n).metadata.val k = (withMetadata s.metadata
        [(.kind, if isScope then Kind.scope else Kind.task), (.attempt, toString n),
          (.stepID, controlStepID control), (.stepRef, attemptPrefix s control n),
          (.controlFor, control.id)]).val k := by
    intro k hk
    simp only [mem_cons, not_mem_nil, or_false] at hk
    rw [attemptRootStep]
    rw [val_withMetadata_of_notMem, withOutputRequired_val]
    · rcases hk with rfl | rfl | rfl | rfl <;> decide
    · rcases hk with rfl | rfl | rfl | rfl <;> split <;> simp
  have hkind : (attemptRootStep s isScope control n).metadata.val .kind =
      if isScope then Kind.scope else Kind.task :=
    (hval (by decide)).trans (val_withMetadata_of_mem (by simp) (by simp))
  have hstamp : (attemptRootStep s isScope control n).metadata.val .controlFor = control.id :=
    (hval (by decide)).trans (val_withMetadata_of_mem (by simp) (by simp))
  have hroot := h.isRoot (t := .ofRecipeStep (attemptRootStep s isScope control n)) rfl
    (by
      show (attemptRootStep s isScope control n).metadata.val .kind ∈ _
      rw [hkind]
      split <;> simp)
    ((hval (by decide)).trans (val_withMetadata_of_notMem (by simp)))
    (show trimSpace ((attemptRootStep s isScope control n).metadata.val .controlFor) ≠ "" from
      hstamp ▸ hnamed)
  exact ⟨hroot.1, hroot.2, hstamp,
    (hval (by decide)).trans (val_withMetadata_of_mem (by simp) (by simp))⟩

def AttemptParts.steps (parts : AttemptParts) : List RecipeStep :=
  parts.members.steps ++ (parts.fanouts.steps ++ parts.seeds.steps)

variable {x : RecipeStep}

theorem mem_appendParts {a b : AttemptParts} :
    x ∈ (appendParts a b).steps ↔ x ∈ a.steps ∨ x ∈ b.steps := by
  simp only [AttemptParts.steps, appendParts, appendRecipe, mem_append]
  tauto

theorem mem_memberParts {seed : Recipe} (hx : ¬ PlainStep x) :
    x ∈ (memberParts pfx stepID n s seed).steps ↔
      x = memberStep pfx stepID n s ∨ s.ralph.isSome ∧ x ∈ seed.steps := by
  have hspecs : x ∉ memberSpecs pfx s := by
    simp only [memberSpecs, mem_append, Option.mem_toList, Option.map_eq_some_iff]
    rintro (⟨_, -, rfl⟩ | ⟨_, -, rfl⟩) <;> exact hx (Tag.plain_of_spec rfl rfl)
  have hfanout : x ∉ (s.onComplete.map (attemptFanout (memberStep pfx stepID n s))).toList := by
    intro hmem
    obtain ⟨oc, -, rfl⟩ := Option.map_eq_some_iff.mp (Option.mem_toList.mp hmem)
    exact hx (attemptFanout_plain _ oc)
  cases hp : s.ralph <;> simp [AttemptParts.steps, memberParts, hspecs, hfanout, hp]

section Assemble

variable {children : Forest Step} {control : Bead} {parts : AttemptParts} {x : RecipeStep}

theorem mem_assembleAttempt (hx : ¬ PlainStep x) :
    x ∈ (assembleAttempt s children control n parts).steps ↔
      x = attemptRootStep s (isScopedAttempt s children) control n ∨ x ∈ parts.steps := by
  simp only [assembleAttempt, appendRecipe, applyAttemptRecipeScopeChecks, AttemptParts.steps,
    mem_append, mem_singleton, notMem_map_attemptScopeCheck hx]
  tauto

end Assemble

theorem mem_attemptParts_cons {children rest : Forest Step} {x : RecipeStep} :
    x ∈ (attemptParts pfx stepID n (.cons s children rest)).steps ↔
      x ∈ (memberParts pfx stepID n s (assembleAttempt s children
        (syntheticControl (pfx ++ "." ++ s.id) s) 1 (attemptParts
          (attemptPrefix s (syntheticControl (pfx ++ "." ++ s.id) s) 1)
          (controlStepID (syntheticControl (pfx ++ "." ++ s.id) s)) 1 children))).steps ∨
      x ∈ (attemptParts pfx stepID n rest).steps := by
  exact mem_appendParts

theorem attemptPrefix_synthetic (id : String) (hid : id ≠ "") (hralph : s.ralph.isSome) :
    attemptPrefix s (syntheticControl id s) 1 = id ++ ".iteration." ++ toString 1 := by
  have href : (syntheticControl id s).val .stepRef = id := rfl
  simp [attemptPrefix, controlStepRef, href, hid, hralph]

theorem Described.congrSteps {l l' : List RecipeStep} {mints : List Mint}
    (h : Described (l.map Tag.ofRecipeStep) mints)
    (hl : ∀ x, ¬ PlainStep x → (x ∈ l ↔ x ∈ l')) : Described (l'.map Tag.ofRecipeStep) mints := by
  refine h.congr fun t ht => ?_
  simp only [mem_map]
  refine exists_congr fun x => and_congr_left ?_
  rintro rfl
  exact hl x ht

theorem child_ne_empty (pfx : String) (h : Trimmed s.id) : pfx ++ "." ++ s.id ≠ "" := by
  intro hempty
  have hnamed := trimSpace_append_ne_empty (pfx ++ ".") h
  rw [hempty] at hnamed
  exact hnamed (by decide)

theorem described_memberRalph (h : WorkStep s) {spec : RalphSpec} (hretry : s.retry = none)
    (hralph : s.ralph = some spec) (children : Forest Step) :
    Described
      [Tag.ofRecipeStep (memberStep pfx stepID n s),
        Tag.ofRecipeStep (attemptRootStep s (isScopedAttempt s children)
          (syntheticControl (pfx ++ "." ++ s.id) s) 1)]
      [{ control := pfx ++ "." ++ s.id
         root := pfx ++ "." ++ s.id ++ ".iteration." ++ toString 1
         name := s.id
         stamp := trimSpace (pfx ++ "." ++ s.id)
         number := 1 }] := by
  have hnamed : trimSpace (pfx ++ "." ++ s.id) ≠ "" := trimSpace_append_ne_empty _ h.trimmed
  obtain ⟨hroot, hspec, hstamp, hnumber⟩ := isRoot_attemptRootStep (isScopedAttempt s children) 1 h
    (show trimSpace (syntheticControl (pfx ++ "." ++ s.id) s).id ≠ "" from hnamed)
  apply Described.pair
  case hc => exact ⟨rfl, .inr (memberStep_ralph_kind hretry hralph h.drain)⟩
  case ha => exact hroot
  case hcid => rfl
  case haid => exact attemptPrefix_synthetic _ (child_ne_empty pfx h.trimmed) (by simp [hralph])
  case hname =>
    have hid : (memberStep pfx stepID n s).metadata.val .stepID = s.id :=
      memberStep_stampedLineage (by simp)
    exact (congrArg trimSpace hid).trans h.trimmed.trimSpace_eq
  case hlineage =>
    have href : (memberStep pfx stepID n s).metadata.val .stepRef = pfx ++ "." ++ s.id :=
      memberStep_stampedLineage (by simp)
    exact .inl (congrArg trimSpace href)
  case hspec => exact hspec
  case hstamp => exact congrArg trimSpace hstamp
  case hnumber => exact hnumber

theorem described_attemptParts {g : Forest Step} (h : Authored g) (pfx stepID : String) (n : ℕ) :
    Described ((attemptParts pfx stepID n (applyRetries g)).steps.map Tag.ofRecipeStep)
      (respawnedMints pfx n g) := by
  induction g generalizing pfx stepID n with
  | nil => exact .nil
  | cons s children rest ihc ihr =>
    have hmem : s ∈ (Forest.cons s children rest).flatten := mem_cons_self ..
    have hrest := ihr h.next pfx stepID n
    rw [respawnedMints]
    rcases h.retries.cases with ⟨hr, hp, -⟩ | ⟨spec, hr, hp, rfl, -⟩ | ⟨spec, hr, hp, -⟩
    · have hkind := h.kind_ne hmem
      have happly : applyRetries (.cons s children rest) =
          .cons s (applyRetries children) (applyRetries rest) := by simp [applyRetries, hr]
      rw [hr, hp, happly]
      refine hrest.congrSteps fun x hx => ?_
      have hne : x ≠ memberStep pfx stepID n s := by
        rintro rfl
        exact hx (memberStep_plain hr hp (h.plain s hmem).1 ⟨hkind.1, hkind.2.1⟩)
      simp [mem_attemptParts_cons, mem_memberParts hx, hne, hp]
    · have hs := h.workStep hmem (.inl (by simp [hr]))
      have happly : applyRetries (.cons s .nil rest) = .cons (retryControl s spec) .nil
          (.cons (newSourceSpecStep s) .nil (.cons (retryRun s) .nil (applyRetries rest))) := by
        simp [applyRetries, hr, expandRetry, Forest.ofList]
      rw [hr, happly]
      refine Described.congrSteps (l := [memberStep pfx stepID n (retryControl s spec),
        memberStep pfx stepID n (retryRun s)] ++ (attemptParts pfx stepID n
          (applyRetries rest)).steps) ?_ fun x hx => ?_
      · rw [map_append]
        exact (described_memberRetry hs hp spec).append hrest
      · have hcontrol : (retryControl s spec).ralph = none := hp
        have hrun : (retryRun s).ralph = none := hp
        have hspec : (newSourceSpecStep s).ralph = none := rfl
        have hne : x ≠ memberStep pfx stepID n (newSourceSpecStep s) := by
          rintro rfl
          refine hx (memberStep_plain rfl hspec rfl ?_)
          rw [newSourceSpecStep_kind]
          decide
        simp [mem_attemptParts_cons, mem_memberParts hx, hne, hcontrol, hrun, hspec]
    · have hs := h.workStep hmem (.inr (by simp [hp]))
      have happly : applyRetries (.cons s children rest) =
          .cons s (applyRetries children) (applyRetries rest) := by simp [applyRetries, hr]
      have hchildren := ihc h.down (pfx ++ "." ++ s.id ++ ".iteration." ++ toString 1)
        (controlStepID (syntheticControl (pfx ++ "." ++ s.id) s)) 1
      rw [hr, hp, happly]
      refine Described.congrSteps (l := [memberStep pfx stepID n s, attemptRootStep s
        (isScopedAttempt s (applyRetries children)) (syntheticControl (pfx ++ "." ++ s.id) s) 1] ++
        (attemptParts (pfx ++ "." ++ s.id ++ ".iteration." ++ toString 1)
          (controlStepID (syntheticControl (pfx ++ "." ++ s.id) s)) 1
          (applyRetries children)).steps ++
        (attemptParts pfx stepID n (applyRetries rest)).steps) ?_ fun x hx => ?_
      · rw [map_append, map_append]
        exact ((described_memberRalph hs hr hp (applyRetries children)).append hchildren).append
          hrest
      · rw [mem_attemptParts_cons, mem_memberParts hx, mem_assembleAttempt hx,
          attemptPrefix_synthetic _ (child_ne_empty pfx hs.trimmed) (by simp [hp])]
        simp [hp, or_assoc]

end Respawned

end GasCity.Dispatch
