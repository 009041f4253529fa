import GasCity.Formula.GraphControls
import GasCity.Formula.RalphEdges

/-! # Scope membership in check iterations

The steps of a check body carry a reference to the scope of their iteration, and
the scope check of a step closes the scope that the step refers to.  A check
inside the body of another one loses its members to the outer iteration.
-/

namespace GasCity.Formula

open List

def scopes : Forest Step → List String
  | .nil => []
  | .cons s children rest =>
    (match s.ralph with
    | none => scopes children
    | some _ =>
        if children = .nil then []
        else iterationID s :: (scopes children).map fun id => iterationID s ++ "." ++ id) ++
      scopes rest

/-- The body steps of all iterations, each with the scope that directly encloses it. -/
def members : Forest Step → List (String × String)
  | .nil => []
  | .cons s children rest =>
    (match s.ralph with
    | none => members children
    | some _ => (workIDs children).map fun x =>
        (iterationID s ++ "." ++ x,
          match Keyed.lookup Prod.fst x (members children) with
          | none => iterationID s
          | some inner => iterationID s ++ "." ++ inner.2)) ++
      members rest

def NoNestedChecks : Forest Step → Prop
  | .nil => True
  | .cons s children rest =>
    (s.ralph.isSome → scopes children = []) ∧ NoNestedChecks children ∧ NoNestedChecks rest

instance decidableNoNestedChecks : (f : Forest Step) → Decidable (NoNestedChecks f)
  | .nil => .isTrue trivial
  | .cons _ children rest =>
    have := decidableNoNestedChecks children
    have := decidableNoNestedChecks rest
    inferInstanceAs (Decidable (_ ∧ _ ∧ _))

/-- The step, or the control that replaces it, calls for a scope check. -/
def Checked (s : Step) : Prop :=
  s.metadata.val .scopeRole ≠ ScopeRole.teardown ∧
    ((attemptRoot s).isSome ∨ isScopeCheckExemptKind s.kind = false)

instance (s : Step) : Decidable (Checked s) := inferInstanceAs (Decidable (_ ∧ _))

def BodiesChecked : Forest Step → Prop
  | .nil => True
  | .cons s children rest =>
    (s.ralph.isSome → children ≠ .nil → ∃ t ∈ children.flatten, Checked t) ∧
      BodiesChecked children ∧ BodiesChecked rest

instance decidableBodiesChecked : (f : Forest Step) → Decidable (BodiesChecked f)
  | .nil => .isTrue trivial
  | .cons _ children rest =>
    have := decidableBodiesChecked children
    have := decidableBodiesChecked rest
    inferInstanceAs (Decidable (_ ∧ _ ∧ _))

section Members

variable {f : Forest Step}

theorem members_subset (hretry : RetryAlone f) {p : String × String} (h : p ∈ members f) :
    p.1 ∈ workIDs f := by
  induction f with
  | nil => cases h
  | cons s children rest ihc ihr =>
    rw [members, mem_append] at h
    rcases h with h | h
    · rcases hretry.cases with ⟨_, hp, hroot⟩ | ⟨_, _, hp, rfl, _⟩ | ⟨_, _, hp, hroot⟩
      · simp only [hp] at h
        simp [workIDs, hroot, ihc hretry.2.1 h]
      · simp [hp, members] at h
      · simp only [hp, mem_map] at h
        obtain ⟨x, hx, rfl⟩ := h
        simp [workIDs, hroot, hx]
    · have hrest := ihr hretry.2.2 h
      rw [workIDs]
      split <;> simp [hrest]

theorem workIDs_eq_nil_iff : workIDs f = [] ↔ f = .nil := by
  cases f with
  | nil => simp [workIDs]
  | cons s children rest =>
    rw [workIDs]
    split <;> simp

theorem members_eq_nil_iff : members f = [] ↔ scopes f = [] := by
  induction f with
  | nil => simp [members, scopes]
  | cons s children rest ihc ihr =>
    cases hp : s.ralph with
    | none => simp [members, scopes, hp, ihc, ihr]
    | some spec =>
      by_cases hnil : children = .nil
      · simp [members, scopes, hp, hnil, workIDs, ihr]
      · simp [members, scopes, hp, hnil, workIDs_eq_nil_iff]

end Members

section InBody

variable {owner node : Step} {ids : List String} {top : Bool}

theorem inBody_scopeRef (h : isSourceSpecStep node = false) :
    (inBody owner ids top node).metadata.val .scopeRef = iterationID owner := by
  rw [inBody, h, if_neg (by decide), namespaceBodyStep]
  apply val_withMetadata_of_mem (bodyMetadata_keys _ owner node).1
  simp [bodyMetadata]

theorem inBody_scopeRole (h : isSourceSpecStep node = false) :
    (inBody owner ids top node).metadata.val .scopeRole =
      metadataDefault node.metadata .scopeRole ScopeRole.member := by
  rw [inBody, h, if_neg (by decide), namespaceBodyStep]
  apply val_withMetadata_of_mem (bodyMetadata_keys _ owner node).1
  simp [bodyMetadata]

theorem inBody_kind : (inBody owner ids top node).kind = node.kind := by
  unfold inBody
  split
  · exact namespaceSourceSpecStep_kind _
  · exact namespaceBodyStep_kind ..

theorem mem_expandNestedRalph {body : Forest Step} (hbody : SpecLeaf body) (s : Step)
    (spec : RalphSpec) {node : Step} (hnode : node ∈ body.flatten) :
    ∃ n ∈ expandNestedRalph s spec body, ∃ b, n.id = iterationID s ++ "." ++ node.id ∧
      n.drain = node.drain ∧ ∀ k, k ≠ .outputJSONRequired → n.metadata.val k =
        (inBody s (collectRalphBodyStepIDs body) b node).metadata.val k := by
  obtain ⟨b, hb⟩ := mem_namespaceRalphBodySteps s (collectRalphBodyStepIDs body) hbody hnode true
  obtain ⟨g, hg, hgid, _, hgval, hgdrain⟩ := body_eq_map s (namespaceRalphBodySteps (iterationID s)
    s (collectRalphBodyStepIDs body) true body)
  refine ⟨g (inBody s (collectRalphBodyStepIDs body) b node), ?_, b, ?_,
    (hgdrain _).trans inBody_drain, fun k => hgval _ k⟩
  · rw [expandNestedRalph, hg]
    exact mem_cons_of_mem _ (mem_cons_of_mem _ (mem_cons_of_mem _
      (mem_map_of_mem hb)))
  · rw [hgid, inBody_id]

end InBody

section Transformed

variable {f : Forest Step}

variable {children rest : Forest Step}

theorem noSpecs_down {s : Step} (h : NoSpecs (Forest.cons s children rest).flatten) :
    NoSpecs children.flatten ∧ NoSpecs rest.flatten :=
  ⟨fun n hn => h n (Forest.mem_of_children hn),
    fun n hn => h n (Forest.mem_of_rest hn)⟩

theorem mem_applyAttempts_rest {s : Step} (hretry : RetryAlone (.cons s children rest)) {n : Step}
    (hn : n ∈ (applyAttempts rest).flatten) :
    n ∈ (applyAttempts (.cons s children rest)).flatten := by
  rcases hretry.cases with ⟨hr, hp, _⟩ | ⟨_, hr, hp, _, _⟩ | ⟨_, hr, hp, _⟩
  · simp [applyAttempts_plain hr hp, hn]
  · simp [applyAttempts_retry hr hp, hn]
  · simp [applyAttempts_ralph hr hp, hn]

theorem noNestedChecks_of_scopes (h : scopes f = []) : NoNestedChecks f := by
  induction f with
  | nil => trivial
  | cons s children rest ihc ihr =>
    cases hp : s.ralph with
    | none =>
      simp only [scopes, hp, append_eq_nil_iff] at h
      exact ⟨fun hs => by simp [hp] at hs, ihc h.1, ihr h.2⟩
    | some spec =>
      simp only [scopes, hp, append_eq_nil_iff] at h
      split at h
      · next hnil =>
        subst hnil
        exact ⟨fun _ => rfl, trivial, ihr h.2⟩
      · simp at h

/-- A work step of a nonempty body is a member of the iteration, and of nothing else. -/
theorem exists_inBody (s : Step) (spec : RalphSpec)
    (hretry : RetryAlone children) (hspecs : NoSpecs children.flatten) {x : String}
    (hx : x ∈ workIDs children) :
    ∃ n ∈ expandRalph s spec children (applyAttempts children),
      n.id = iterationID s ++ "." ++ x ∧ n.metadata.val .scopeRef = iterationID s := by
  have hne : children ≠ .nil := by
    rintro rfl
    cases hx
  obtain ⟨node, hnode, hspec, rfl⟩ := (mem_workIDs_iff hretry hspecs).mp hx
  obtain ⟨n, hn, b, hid, -, hval⟩ :=
    mem_expandNestedRalph (applyAttempts_labels hretry hspecs).2 s spec hnode
  refine ⟨n, ?_, hid, ?_⟩
  · rwa [expandRalph, if_neg hne]
  · rw [hval _ (by decide), inBody_scopeRef hspec]

/-- The scope `id` has its body, and a member that calls for a scope check. -/
structure ScopeChecked (l : List Step) (id : String) : Prop where
  body : ∃ n ∈ l, n.id = id ∧ n.kind = Kind.scope ∧ n.metadata.val .scopeRole = ScopeRole.body
  named : id ≠ ""
  check : ∃ m ∈ l, needsScopeCheck m ∧ m.metadata.val .scopeRef = id

theorem ScopeChecked.mono {l l' : List Step} {id : String} (h : ScopeChecked l id)
    (hl : ∀ n ∈ l, n ∈ l') : ScopeChecked l' id := by
  obtain ⟨⟨n, hn, hbody⟩, hne, m, hm, hcheck⟩ := h
  exact ⟨⟨n, hl n hn, hbody⟩, hne, m, hl m hm, hcheck⟩

variable (hretry : RetryAlone f) (hspecs : NoSpecs f.flatten)
include hretry hspecs

theorem members_scopeRef (hnest : NoNestedChecks f) :
    ∀ p ∈ members f, ∃ n ∈ (applyAttempts f).flatten,
      n.id = p.1 ∧ n.metadata.val .scopeRef = p.2 := by
  induction f with
  | nil => simp [members]
  | cons s children rest ihc ihr =>
    obtain ⟨hcspecs, hrspecs⟩ := noSpecs_down hspecs
    intro p hp
    rw [members, mem_append] at hp
    rcases hp with hp | hp
    · rcases hretry.cases with ⟨hr, hralph, _⟩ | ⟨_, _, hralph, rfl, _⟩ | ⟨spec, hr, hralph, _⟩
      · simp only [hralph] at hp
        obtain ⟨n, hn, h⟩ := ihc hretry.2.1 hcspecs hnest.2.1 p hp
        exact ⟨n, by simp [applyAttempts_plain hr hralph, hn], h⟩
      · simp [hralph, members] at hp
      · have hnil : members children = [] := members_eq_nil_iff.mpr (hnest.1 (by simp [hralph]))
        simp only [hralph, mem_map] at hp
        obtain ⟨x, hx, rfl⟩ := hp
        obtain ⟨n, hn, hid, href⟩ := exists_inBody s spec hretry.2.1 hcspecs hx
        refine ⟨n, by simp [applyAttempts_ralph hr hralph, hn], hid, ?_⟩
        rw [hnil]
        exact href
    · obtain ⟨n, hn, h⟩ := ihr hretry.2.2 hrspecs hnest.2.2 p hp
      exact ⟨n, mem_applyAttempts_rest hretry hn, h⟩

/-- A nested check has a member that carries the scope of the outer iteration. -/
theorem exists_lost_member (hnest : ¬ NoNestedChecks f) :
    ∃ p ∈ members f, ∃ n ∈ (applyAttempts f).flatten,
      n.id = p.1 ∧ n.metadata.val .scopeRef ≠ p.2 := by
  induction f with
  | nil => exact absurd trivial hnest
  | cons s children rest ihc ihr =>
    obtain ⟨hcspecs, hrspecs⟩ := noSpecs_down hspecs
    have hmem : ∀ p ∈ members rest, p ∈ members (.cons s children rest) := by
      intro p hp
      exact mem_append_right _ hp
    by_cases hrest : NoNestedChecks rest
    · rcases hretry.cases with ⟨hr, hralph, _⟩ | ⟨spec, hr, hralph, rfl, _⟩ |
        ⟨spec, hr, hralph, _⟩
      · have hchildren : ¬ NoNestedChecks children := fun hchildren =>
          hnest ⟨fun hs => by simp [hralph] at hs, hchildren, hrest⟩
        obtain ⟨p, hp, n, hn, h⟩ := ihc hretry.2.1 hcspecs hchildren
        refine ⟨p, by simp [members, hralph, hp], n, ?_, h⟩
        simp [applyAttempts_plain hr hralph, hn]
      · exact absurd ⟨fun hs => by simp [hralph] at hs, trivial, hrest⟩ hnest
      · have hscopes : scopes children ≠ [] := fun hscopes =>
          hnest ⟨fun _ => hscopes, noNestedChecks_of_scopes hscopes, hrest⟩
        obtain ⟨p, hp⟩ := exists_mem_of_ne_nil _ (mt members_eq_nil_iff.mp hscopes)
        have hx := members_subset hretry.2.1 hp
        obtain ⟨inner, hinner⟩ : ∃ inner,
            Keyed.lookup Prod.fst p.1 (members children) = some inner := by
          rw [← Option.ne_none_iff_exists', Ne, Keyed.lookup_eq_none]
          exact fun hnone => hnone p hp rfl
        obtain ⟨n, hn, hid, href⟩ := exists_inBody s spec hretry.2.1 hcspecs hx
        refine ⟨(iterationID s ++ "." ++ p.1, iterationID s ++ "." ++ inner.2), ?_, n, ?_, hid, ?_⟩
        · simp only [members, hralph, mem_append, mem_map]
          exact .inl ⟨p.1, hx, by rw [hinner]⟩
        · simp [applyAttempts_ralph hr hralph, hn]
        · rw [href]
          exact (inside_ne_root _ _).symm
    · obtain ⟨p, hp, n, hn, h⟩ := ihr hretry.2.2 hrspecs hrest
      exact ⟨p, hmem p hp, n, mem_applyAttempts_rest hretry hn, h⟩

/-- Where a step calls for a scope check, one of the steps that replace it does. -/
theorem exists_checked (hscopes : scopes f = [])
    {t : Step} (ht : t ∈ f.flatten) (hchecked : Checked t) :
    ∃ m ∈ (applyAttempts f).flatten, isSourceSpecStep m = false ∧
      m.metadata.val .scopeRole ≠ ScopeRole.teardown ∧ isScopeCheckExemptKind m.kind = false := by
  induction f with
  | nil => cases ht
  | cons s children rest ihc ihr =>
    obtain ⟨hcspecs, hrspecs⟩ := noSpecs_down hspecs
    rw [scopes, append_eq_nil_iff] at hscopes
    rw [Forest.flatten_cons, ← cons_append, mem_append] at ht
    rcases ht with ht | ht
    · rcases hretry.cases with ⟨hr, hralph, hroot⟩ | ⟨spec, hr, hralph, rfl, _⟩ |
        ⟨spec, hr, hralph, _⟩
      · rw [applyAttempts_plain hr hralph]
        rcases mem_cons.mp ht with rfl | ht
        · refine ⟨t, mem_cons_self .., hspecs t (mem_cons_self ..), hchecked.1, ?_⟩
          exact hchecked.2.resolve_left (by simp [hroot])
        · simp only [hralph] at hscopes
          obtain ⟨m, hm, h⟩ := ihc hretry.2.1 hcspecs hscopes.1 ht
          exact ⟨m, by simp [hm], h⟩
      · obtain rfl := mem_singleton.mp ht
        rw [applyAttempts_retry hr hralph]
        refine ⟨retryControl t spec, by simp [expandRetry],
          isSpec_of_label (label_retryControl spec), ?_, ?_⟩
        · rw [retryControl, withOriginalKind_val _ _ (by decide),
            val_withMetadata_of_notMem (by simp)]
          exact hchecked.1
        · rw [retryControl_kind]
          decide
      · have hnil : children = .nil := by
          by_contra hne
          simp [hralph, hne] at hscopes
        subst hnil
        obtain rfl := mem_singleton.mp ht
        rw [applyAttempts_ralph hr hralph]
        refine ⟨ralphControl t spec, by simp [expandRalph],
          isSpec_of_label (label_ralphControl spec), ?_, ?_⟩
        · rw [ralphControl, val_withMetadata_of_notMem (by split <;> simp)]
          exact hchecked.1
        · rw [ralphControl_kind]
          decide
    · obtain ⟨m, hm, h⟩ := ihr hretry.2.2 hrspecs hscopes.2 ht
      exact ⟨m, mem_applyAttempts_rest hretry hm, h⟩

/-- Without nested checks every iteration scope is a scope body with a member that calls for a
scope check. -/
theorem scopes_checked (hnest : NoNestedChecks f) (hbodies : BodiesChecked f) :
    ∀ id ∈ scopes f, ScopeChecked (applyAttempts f).flatten id := by
  induction f with
  | nil => simp [scopes]
  | cons s children rest ihc ihr =>
    obtain ⟨hcspecs, hrspecs⟩ := noSpecs_down hspecs
    intro id hid
    rw [scopes, mem_append] at hid
    rcases hid with hid | hid
    · rcases hretry.cases with ⟨hr, hralph, _⟩ | ⟨_, _, hralph, rfl, _⟩ | ⟨spec, hr, hralph, _⟩
      · simp only [hralph] at hid
        refine (ihc hretry.2.1 hcspecs hnest.2.1 hbodies.2.1 id hid).mono fun n hn => ?_
        simp [applyAttempts_plain hr hralph, hn]
      · simp [hralph, scopes] at hid
      · have hnone := hnest.1 (by simp [hralph])
        simp only [hralph, hnone, map_nil] at hid
        split at hid
        · cases hid
        · next hne =>
          obtain rfl := mem_singleton.mp hid
          obtain ⟨t, ht, hchecked⟩ := hbodies.1 (by simp [hralph]) hne
          obtain ⟨m, hm, hspec, hrole, hkind⟩ :=
            exists_checked hretry.2.1 hcspecs hnone ht hchecked
          obtain ⟨n, hn, b, _, -, hval⟩ := mem_expandNestedRalph
            (applyAttempts_labels hretry.2.1 hcspecs).2 s spec hm
          have href : n.metadata.val .scopeRef = iterationID s := by
            rw [hval _ (by decide), inBody_scopeRef hspec]
          rw [applyAttempts_ralph hr hralph, expandRalph, if_neg hne, Forest.flatten_append,
            Forest.flatten_ofList]
          refine ⟨⟨iterationScope s (topLevelBodyIDs (iterationID s) (applyAttempts children)),
            by simp [expandNestedRalph], rfl, iterationScope_kind _, iterationScope_role _⟩,
            iterationID_ne s, n, by simp [hn], ?_, href⟩
          have hkindn : n.kind = m.kind := by
            rw [Step.kind, hval _ (by decide), ← Step.kind, inBody_kind]
          have hrolen : n.metadata.val .scopeRole ≠ ScopeRole.teardown := by
            rw [hval _ (by decide), inBody_scopeRole hspec, metadataDefault]
            split
            · decide
            · exact hrole
          simp [needsScopeCheck, href, iterationID_ne s, hrolen, hkindn, hkind]
    · refine (ihr hretry.2.2 hrspecs hnest.2.2 hbodies.2.2 id hid).mono fun n hn => ?_
      exact mem_applyAttempts_rest hretry hn

end Transformed

section Compiled

variable {steps : Forest Step} (h : FreshControls steps.flatten) {m n : Step}
include h

theorem compiled_eq (hm : m ∈ steps.flatten)
    (hn : n ∈ (applyGraphControls steps true).flatten) (hid : n.id = m.id) :
    n = rewriteGraphStepRefs (marked steps) (markOutputRequired m) := by
  have hnode : rewriteGraphStepRefs (marked steps) (markOutputRequired m) ∈ spliced steps :=
    mem_spliced.mpr (.inl ⟨m, hm, rfl⟩)
  have hnid : n.id = (rewriteGraphStepRefs (marked steps) (markOutputRequired m)).id :=
    hid.trans markOutputRequired_id.symm
  rw [(applyGraphControls_perm h).mem_iff, mem_append] at hn
  rcases hn with hn | hn
  · exact eq_of_id_eq h hn hnode hnid
  · rw [finalizer] at hn
    split at hn
    · cases hn
    · obtain rfl := mem_singleton.mp hn
      exact absurd rfl ((nodup_append.mp (spliced_ids_nodup h)).2.2 _
        (mem_map_of_mem hnode) _ (mem_singleton.mpr hnid.symm))

theorem compiled_val (hm : m ∈ steps.flatten)
    (hn : n ∈ (applyGraphControls steps true).flatten) (hid : n.id = m.id) {k : MetaKey}
    (hk : k ≠ .outputJSONRequired) : n.metadata.val k = m.metadata.val k := by
  rw [compiled_eq h hm hn hid]
  exact markOutputRequired_val hk

theorem mem_compiled (hn : n ∈ spliced steps) : n ∈ (applyGraphControls steps true).flatten :=
  (applyGraphControls_perm h).mem_iff.mpr (mem_append_left _ hn)

end Compiled

/-- Every body step names the scope that directly encloses it, and every iteration scope has a
scope check that closes it. -/
structure ScopesClosed (f : Forest Step) : Prop where
  member : ∀ p ∈ members f, ∀ n ∈ (applyGraphControls (applyAttempts f) true).flatten,
    n.id = p.1 → n.metadata.val .scopeRef = p.2
  closed : ∀ id ∈ scopes f, ∃ n ∈ (applyGraphControls (applyAttempts f) true).flatten, n.id = id ∧
    ∃ c ∈ (applyGraphControls (applyAttempts f) true).flatten, c.kind = Kind.scopeCheck ∧
      controlClosesNode c.metadata n.id n.metadata

theorem scopesClosed_iff (f : Forest Step) (hretry : RetryAlone f) (hspecs : NoSpecs f.flatten)
    (hfresh : FreshControls (applyAttempts f).flatten) (hbodies : BodiesChecked f) :
    ScopesClosed f ↔ NoNestedChecks f := by
  have hnode : ∀ m ∈ (applyAttempts f).flatten,
      ∃ n ∈ (applyGraphControls (applyAttempts f) true).flatten, n.id = m.id :=
    fun m hm => ⟨_, mem_compiled hfresh (mem_spliced.mpr (.inl ⟨m, hm, rfl⟩)),
      markOutputRequired_id⟩
  constructor
  · intro hclosed
    by_contra hnest
    obtain ⟨p, hp, m, hm, hid, hlost⟩ := exists_lost_member hretry hspecs hnest
    obtain ⟨n, hn, hnid⟩ := hnode m hm
    apply hlost
    rw [← compiled_val hfresh hm hn hnid (by decide)]
    exact hclosed.member p hp n hn (hnid.trans hid)
  · intro hnest
    constructor
    · intro p hp n hn hid
      obtain ⟨m, hm, hmid, href⟩ := members_scopeRef hretry hspecs hnest p hp
      rw [compiled_val hfresh hm hn (hid.trans hmid.symm) (by decide), href]
    · intro id hid
      obtain ⟨⟨s, hs, rfl, hkind, hrole⟩, hne, m, hm, hcheck, href⟩ :=
        scopes_checked hretry hspecs hnest hbodies id hid
      obtain ⟨n, hn, hnid⟩ := hnode s hs
      have hcontrol : scopeCheckControl (markOutputRequired m) ∈
          controls (marked (applyAttempts f)) :=
        mem_controls.mpr ⟨_, mem_map_of_mem hm, .inr ⟨by simpa using hcheck, rfl⟩⟩
      refine ⟨n, hn, hnid, _, mem_compiled hfresh (mem_spliced.mpr (.inr hcontrol)),
        scopeCheckControl_kind _, ?_⟩
      have hcref : (scopeCheckControl (markOutputRequired m)).metadata.val .scopeRef = s.id := by
        rw [scopeCheckControl, Table.val_copyNonempty_of_notMem (by decide)]
        exact (markOutputRequired_val (by decide)).trans href
      have hckind := scopeCheckControl_kind (markOutputRequired m)
      rw [Step.kind] at hckind hkind
      rw [controlClosesNode, hckind, if_pos rfl, hcref, compiled_val hfresh hs hn hnid (by decide),
        compiled_val hfresh hs hn hnid (by decide), hkind, hrole, hnid]
      simp [nodeIsScope, hne]

/-- A check with a teardown, a retry and a grouped step in its body, after another check. -/
def scopedChecks : Forest Step :=
  .cons { id := "lint", ralph := some { maxAttempts := 2 } } .nil
  (.cons { id := "loop", needs := ["lint"], ralph := some { maxAttempts := 3 } }
    (.cons { id := "build", retry := some { maxAttempts := 2 } } .nil
    (.cons { id := "group", needs := ["build"] } (.ofList [{ id := "test" }])
    (.cons { id := "clean", metadata := Table.ofList [(.scopeRole, ScopeRole.teardown)] } .nil
      .nil))) .nil)

theorem scopesClosed_scopedChecks : ScopesClosed scopedChecks :=
  (scopesClosed_iff scopedChecks (by decide) (by decide) (by decide) (by decide)).mpr (by decide)

def nestedChecks : Forest Step :=
  .cons { id := "outer", ralph := some { maxAttempts := 3 } }
    (.cons { id := "inner", ralph := some { maxAttempts := 2 } } (.ofList [{ id := "work" }]) .nil)
    .nil

/-- The inner body step names the outer iteration, and no control closes the inner scope. -/
theorem nestedChecks_not_closed :
    (("outer.iteration.1.inner.iteration.1.work", "outer.iteration.1.inner.iteration.1") ∈
      members nestedChecks) ∧
    (∃ n ∈ (applyGraphControls (applyAttempts nestedChecks) true).flatten,
      n.id = "outer.iteration.1.inner.iteration.1.work" ∧
      n.metadata.val .scopeRef = "outer.iteration.1") ∧
    (∀ n ∈ (applyGraphControls (applyAttempts nestedChecks) true).flatten,
      n.id = "outer.iteration.1.inner.iteration.1" → n.kind = Kind.scope ∧
        ∀ c ∈ (applyGraphControls (applyAttempts nestedChecks) true).flatten,
          controlClosesNode c.metadata n.id n.metadata = false) ∧
    ¬ ScopesClosed nestedChecks := by
  have hmember : ("outer.iteration.1.inner.iteration.1.work",
      "outer.iteration.1.inner.iteration.1") ∈ members nestedChecks := by
    decide
  have hlost : ∃ n ∈ (applyGraphControls (applyAttempts nestedChecks) true).flatten,
      n.id = "outer.iteration.1.inner.iteration.1.work" ∧
      n.metadata.val .scopeRef = "outer.iteration.1" := by
    decide
  refine ⟨hmember, hlost, by decide, ?_⟩
  intro hclosed
  obtain ⟨n, hn, hid, href⟩ := hlost
  have hmatch := hclosed.member _ hmember n hn hid
  rw [href] at hmatch
  exact absurd hmatch (by decide)

end GasCity.Formula
