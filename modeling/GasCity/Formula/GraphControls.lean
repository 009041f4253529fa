import GasCity.Formula.Graph
import GasCity.Keyed.List

/-! # What graph controls preserve

A control is spliced into the edges that lead to its step, so the graph before
the pass is a contraction of the graph after it: every old edge becomes a path
through at most one control.  The finalizer waits for the tops of what results.
-/

namespace GasCity.Formula

open List Kind

section Marked

variable {s : Step}

@[simp]
theorem markOutputRequired_id : (markOutputRequired s).id = s.id := by
  unfold markOutputRequired; split <;> rfl

@[simp]
theorem markOutputRequired_deps : (markOutputRequired s).deps = s.deps := by
  unfold markOutputRequired; split <;> rfl

theorem markOutputRequired_drain : (markOutputRequired s).drain = s.drain := by
  unfold markOutputRequired; split <;> rfl

@[simp]
theorem markOutputRequired_onComplete : (markOutputRequired s).onComplete = s.onComplete := by
  unfold markOutputRequired; split <;> simp_all

theorem markOutputRequired_val {k : MetaKey} (hk : k ≠ .outputJSONRequired) :
    (markOutputRequired s).metadata.val k = s.metadata.val k := by
  unfold markOutputRequired
  split
  · rfl
  · exact Table.val_set_of_ne hk

@[simp]
theorem markOutputRequired_kind : (markOutputRequired s).kind = s.kind :=
  markOutputRequired_val (by decide)

@[simp]
theorem markOutputRequired_needsScopeCheck :
    needsScopeCheck (markOutputRequired s) = needsScopeCheck s := by
  simp [needsScopeCheck, markOutputRequired_val]

end Marked

variable {c : Step} {steps : List Step}

theorem mem_controls :
    c ∈ controls steps ↔ ∃ s ∈ steps, (∃ oc, s.onComplete = some oc ∧ c = fanoutControl s oc) ∨
      (needsScopeCheck s ∧ c = scopeCheckControl s) := by
  simp only [controls, mem_append, mem_filterMap, Option.map_eq_some_iff, mem_map,
    mem_filter]
  constructor
  · rintro (⟨s, hs, oc, hoc, rfl⟩ | ⟨s, ⟨hs, hcheck⟩, rfl⟩)
    · exact ⟨s, hs, .inl ⟨oc, hoc, rfl⟩⟩
    · exact ⟨s, hs, .inr ⟨hcheck, rfl⟩⟩
  · rintro ⟨s, hs, ⟨oc, hoc, rfl⟩ | ⟨hcheck, rfl⟩⟩
    · exact .inl ⟨s, hs, oc, hoc, rfl⟩
    · exact .inr ⟨s, ⟨hs, hcheck⟩, rfl⟩

theorem deps_of_mem_controls (hc : c ∈ controls steps) :
    ∃ s ∈ steps, c.deps = [s.id] := by
  obtain ⟨s, hs, ⟨oc, _, rfl⟩ | ⟨_, rfl⟩⟩ := mem_controls.mp hc
  · exact ⟨s, hs, rfl⟩
  · exact ⟨s, hs, rfl⟩

theorem fanoutControl_kind (s : Step) (oc : OnCompleteSpec) :
    (fanoutControl s oc).kind = fanout := by
  have hkind : (fanoutMetadata s oc).val .kind = fanout := by
    rw [fanoutMetadata, Table.val_copyNonempty_of_notMem (by decide)]
    rfl
  simp only [fanoutControl, Step.kind]
  split
  · exact hkind
  · rw [Table.val_set_of_ne (by decide), hkind]

theorem scopeCheckControl_kind (s : Step) : (scopeCheckControl s).kind = scopeCheck := by
  rw [Step.kind, scopeCheckControl, Table.val_copyNonempty_of_notMem (by decide)]
  rfl

theorem kind_of_mem_controls (hc : c ∈ controls steps) : c.kind = fanout ∨ c.kind = scopeCheck := by
  obtain ⟨s, _, ⟨oc, _, rfl⟩ | ⟨_, rfl⟩⟩ := mem_controls.mp hc
  · exact .inl (fanoutControl_kind s oc)
  · exact .inr (scopeCheckControl_kind s)

theorem scopeControl_eq_some {id : String} (h : scopeControl steps id = some c) :
    ∃ s ∈ steps, s.id = id ∧ needsScopeCheck s ∧ c = scopeCheckControl s := by
  obtain ⟨s, hs, rfl⟩ := Option.map_eq_some_iff.mp h
  have hmem := mem_filter.mp (mem_reverse.mp (mem_of_find?_eq_some hs))
  exact ⟨s, hmem.1, by simpa using find?_some hs, hmem.2, rfl⟩

/-- A rewritten reference names the step it named before or that step's scope check; it names no
control that closes the referrer. -/
theorem rewriteGraphRef_cases (steps : List Step) (referrer : Step) (id : String) :
    rewriteGraphRef steps referrer id = id ∨
      ∃ s ∈ steps, s.id = id ∧ needsScopeCheck s ∧
        rewriteGraphRef steps referrer id = (scopeCheckControl s).id ∧
        controlClosesNode (scopeCheckControl s).metadata referrer.id referrer.metadata = false := by
  unfold rewriteGraphRef
  split
  · exact .inl rfl
  · next c hc =>
    obtain ⟨s, hs, hid, hcheck, rfl⟩ := scopeControl_eq_some hc
    split
    · exact .inl rfl
    · next hcloses => exact .inr ⟨s, hs, hid, hcheck, rfl, by simpa using hcloses⟩

theorem rewriteGraphStepRefs_deps (steps : List Step) (s : Step) :
    (rewriteGraphStepRefs steps s).deps = s.deps.map (rewriteGraphRef steps s) := by
  simp [rewriteGraphStepRefs, Step.deps]

def generatedIDs (steps : List Step) : List String :=
  (steps.filter fun s => s.onComplete.isSome).map (·.id ++ "-fanout") ++
    (steps.filter needsScopeCheck).map (·.id ++ "-scope-check") ++ ["workflow-finalize"]

/-- The generated ids are new and named by no step; no step is of the finalizer's kind, a step of
the root's kind is named by another one, and a spec sidecar waits for nothing. -/
@[mk_iff]
structure FreshControls (steps : List Step) : Prop where
  ids : (steps.map Step.id ++ generatedIDs steps).Nodup
  refs : ∀ s ∈ steps, ∀ d ∈ s.deps, d ∉ generatedIDs steps
  kinds : ∀ s ∈ steps, s.kind ≠ Kind.workflowFinalize ∧
    (s.kind = workflow → s.id ∈ steps.flatMap Step.deps)
  specs : ∀ s ∈ steps, s.kind = spec → s.deps = []

instance (steps : List Step) : Decidable (FreshControls steps) :=
  decidable_of_iff' _ (freshControls_iff steps)

theorem generatedIDs_eq (steps : List Step) :
    generatedIDs steps =
      (controls (steps.map markOutputRequired)).map Step.id ++ ["workflow-finalize"] := by
  have hfanout : ∀ l : List Step,
      (l.filter fun s => s.onComplete.isSome).map (·.id ++ "-fanout") =
        ((l.map markOutputRequired).filterMap fun s => s.onComplete.map (fanoutControl s)).map
          Step.id := by
    intro l
    induction l with
    | nil => rfl
    | cons s l ih =>
      cases hoc : s.onComplete with
      | none => simpa [filter_cons, hoc] using ih
      | some oc => simpa [filter_cons, hoc, fanoutControl] using ih
  have hcheck : ∀ l : List Step, (l.filter needsScopeCheck).map (·.id ++ "-scope-check") =
      (((l.map markOutputRequired).filter needsScopeCheck).map scopeCheckControl).map Step.id := by
    intro l
    induction l with
    | nil => rfl
    | cons s l ih =>
      cases hs : needsScopeCheck s with
      | false => simpa [filter_cons, hs] using ih
      | true => simpa [filter_cons, hs, scopeCheckControl] using ih
  rw [generatedIDs, controls, map_append, hfanout, hcheck]

section Spliced

variable {steps : Forest Step}

variable (steps) in
abbrev spliced : List Step := (spliceControls steps).flatten

variable (steps) in
abbrev marked : List Step := steps.flatten.map markOutputRequired

theorem spliced_eq : spliced steps = steps.flatten.map (fun s => rewriteGraphStepRefs (marked steps)
      (markOutputRequired s)) ++ controls (marked steps) := by
  simp [spliced, spliceControls, marked, Function.comp_def]

variable {n s : Step}

theorem mem_spliced : n ∈ spliced steps ↔
      (∃ s ∈ steps.flatten, n = rewriteGraphStepRefs (marked steps) (markOutputRequired s)) ∨
        n ∈ controls (marked steps) := by
  rw [spliced_eq, mem_append, mem_map]
  simp only [eq_comm]

theorem spliced_ids : (spliced steps).map Step.id =
      steps.flatten.map Step.id ++ (controls (marked steps)).map Step.id := by
  rw [spliced_eq, map_append, map_map]
  congr 2
  funext s
  exact markOutputRequired_id

theorem after_spliced {a b : String} (h : After steps.flatten a b) : After (spliced steps) a b := by
  apply h.lift id
  intro s hs b hb
  have hnode : rewriteGraphStepRefs (marked steps) (markOutputRequired s) ∈ spliced steps :=
    mem_spliced.mpr (.inl ⟨s, hs, rfl⟩)
  have hedge : ∀ {d}, rewriteGraphRef (marked steps) (markOutputRequired s) b = d →
      Digraph.Needs Step.id Step.deps (spliced steps) s.id d := by
    rintro d rfl
    refine ⟨_, hnode, markOutputRequired_id, ?_⟩
    rw [rewriteGraphStepRefs_deps, markOutputRequired_deps]
    exact mem_map_of_mem hb
  rcases rewriteGraphRef_cases (marked steps) (markOutputRequired s) b with
    href | ⟨t, ht, rfl, hcheck, href, _⟩
  · exact .single (hedge href)
  · refine .trans (.single (hedge href)) (.single ?_)
    exact .of_mem (mem_spliced.mpr (.inr (mem_controls.mpr ⟨t, ht, .inr ⟨hcheck, rfl⟩⟩)))
      (mem_singleton.mpr rfl)

variable (h : FreshControls steps.flatten)
include h

theorem spliced_ids_nodup : ((spliced steps).map Step.id ++ ["workflow-finalize"]).Nodup := by
  rw [spliced_ids, append_assoc, ← generatedIDs_eq]
  exact h.ids

theorem id_notMem_controls (hs : s ∈ steps.flatten) :
    s.id ∉ (controls (marked steps)).map Step.id := by
  have hnodup := h.ids
  rw [generatedIDs_eq, ← append_assoc] at hnodup
  intro hmem
  exact (nodup_append.mp (nodup_append.mp hnodup).1).2.2 _ (mem_map_of_mem hs) _
    hmem rfl

theorem dep_notMem_controls (hs : s ∈ steps.flatten) {d : String} (hd : d ∈ s.deps) :
    d ∉ (controls (marked steps)).map Step.id := by
  have hfresh := h.refs s hs d hd
  rw [generatedIDs_eq, mem_append, not_or] at hfresh
  exact hfresh.1

/-- Contracting each control to its step maps the spliced graph onto the old one. -/
theorem acyclic_spliced (hac : Acyclic steps.flatten) : Acyclic (spliced steps) := by
  let control? := fun id => Keyed.lookup Step.id id (controls (marked steps))
  have hcontrols : ((controls (marked steps)).map Step.id).Nodup := by
    have hnodup := spliced_ids_nodup h
    rw [spliced_ids] at hnodup
    exact (nodup_append.mp (nodup_append.mp hnodup).1).2.1
  have hnone : ∀ {id}, id ∉ (controls (marked steps)).map Step.id → control? id = none := by
    intro id hid
    rw [Keyed.lookup_eq_none]
    rintro c hc rfl
    exact hid (mem_map_of_mem hc)
  let host : String → String := fun id => (control? id).elim id fun c => c.deps.headD id
  let rank : String → ℕ := fun id => (control? id).elim 0 fun _ => 1
  have hhost : ∀ {c}, c ∈ controls (marked steps) → ∀ {d}, c.deps = [d] →
      host c.id = d ∧ rank c.id = 1 := by
    intro c hc d hd
    have hc? : control? c.id = some c := Keyed.lookup_of_mem hcontrols hc
    simp [host, rank, hc?, hd]
  have hself : ∀ {id}, id ∉ (controls (marked steps)).map Step.id →
      host id = id ∧ rank id = 0 := by
    intro id hid
    simp [host, rank, hnone hid]
  apply Digraph.acyclic_of_lex host rank hac
  rintro a b ⟨n, hn, rfl, hb⟩
  rcases mem_spliced.mp hn with ⟨s, hs, rfl⟩ | hc
  · rw [rewriteGraphStepRefs_deps, markOutputRequired_deps] at hb
    obtain ⟨d, hd, rfl⟩ := mem_map.mp hb
    have hid : (rewriteGraphStepRefs (marked steps) (markOutputRequired s)).id = s.id :=
      markOutputRequired_id
    refine .inl (.single ⟨s, hs, ?_, ?_⟩)
    · rw [hid, (hself (id_notMem_controls h hs)).1]
    · rcases rewriteGraphRef_cases (marked steps) (markOutputRequired s) d with
        href | ⟨t, ht, rfl, hcheck, href, _⟩
      · rwa [href, (hself (dep_notMem_controls h hs hd)).1]
      · rwa [href, (hhost (mem_controls.mpr ⟨t, ht, .inr ⟨hcheck, rfl⟩⟩) rfl).1]
  · obtain ⟨m, hm, hdeps⟩ := deps_of_mem_controls hc
    obtain ⟨s, hs, rfl⟩ := mem_map.mp hm
    rw [hdeps, mem_singleton] at hb
    subst hb
    rw [markOutputRequired_id] at hdeps
    obtain ⟨hhostc, hrankc⟩ := hhost hc hdeps
    obtain ⟨hhosts, hranks⟩ := hself (id_notMem_controls h hs)
    rw [markOutputRequired_id, hhostc, hrankc, hhosts, hranks]
    exact .inr ⟨rfl, Nat.one_pos⟩

theorem eq_of_id_eq {m : Step} (hm : m ∈ spliced steps) (hn : n ∈ spliced steps)
    (hid : m.id = n.id) : m = n :=
  inj_on_of_nodup_map (nodup_append.mp (spliced_ids_nodup h)).1 hm hn hid

theorem spliced_kind (hn : n ∈ spliced steps) : n.kind ≠ Kind.workflowFinalize ∧
    (n.kind = workflow → n.id ∈ (spliced steps).flatMap Step.deps) := by
  rcases mem_spliced.mp hn with ⟨s, hs, rfl⟩ | hc
  · have hkind : (rewriteGraphStepRefs (marked steps) (markOutputRequired s)).kind = s.kind :=
      markOutputRequired_kind
    have hid : (rewriteGraphStepRefs (marked steps) (markOutputRequired s)).id = s.id :=
      markOutputRequired_id
    rw [hkind, hid]
    refine (h.kinds s hs).imp_right fun href hroot => ?_
    -- what named the step still waits for it, perhaps through its scope check
    obtain ⟨x, hx, hd⟩ := mem_flatMap.mp (href hroot)
    obtain ⟨_, -, m, hm, -, hmd⟩ :=
      Relation.TransGen.tail'_iff.mp (after_spliced (.single ⟨x, hx, rfl, hd⟩))
    exact mem_flatMap.mpr ⟨m, hm, hmd⟩
  · rcases kind_of_mem_controls hc with hkind | hkind <;> rw [hkind] <;>
      exact ⟨by decide, fun hroot => absurd hroot (by decide)⟩

theorem spliced_spec_deps (hn : n ∈ spliced steps) (hspec : n.kind = spec) :
    n.deps = [] := by
  rcases mem_spliced.mp hn with ⟨s, hs, rfl⟩ | hc
  · have hkind : (rewriteGraphStepRefs (marked steps) (markOutputRequired s)).kind = s.kind :=
      markOutputRequired_kind
    rw [rewriteGraphStepRefs_deps, markOutputRequired_deps, h.specs s hs (hkind ▸ hspec)]
    rfl
  · rcases kind_of_mem_controls hc with hkind | hkind <;>
      exact absurd (hkind.symm.trans hspec) (by decide)

theorem finalize_notMem_deps (hn : n ∈ spliced steps) :
    "workflow-finalize" ∉ n.deps := by
  have hfresh : "workflow-finalize" ∉ (spliced steps).map Step.id := fun hmem =>
    (nodup_append.mp (spliced_ids_nodup h)).2.2 _ hmem _ (mem_singleton_self _) rfl
  rcases mem_spliced.mp hn with ⟨s, hs, rfl⟩ | hc
  · rw [rewriteGraphStepRefs_deps, markOutputRequired_deps]
    rintro hmem
    obtain ⟨d, hd, hdn⟩ := mem_map.mp hmem
    rcases rewriteGraphRef_cases (marked steps) (markOutputRequired s) d with
      href | ⟨t, ht, rfl, hcheck, href, _⟩
    · apply h.refs s hs d hd
      rw [← href, hdn, generatedIDs]
      simp
    · apply hfresh
      rw [← hdn, href]
      exact mem_map_of_mem
        (mem_spliced.mpr (.inr (mem_controls.mpr ⟨t, ht, .inr ⟨hcheck, rfl⟩⟩)))
  · obtain ⟨m, hm, hdeps⟩ := deps_of_mem_controls hc
    obtain ⟨s, hs, rfl⟩ := mem_map.mp hm
    rw [hdeps, mem_singleton, markOutputRequired_id]
    intro heq
    apply hfresh
    rw [heq, spliced_ids]
    exact mem_append_left _ (mem_map_of_mem hs)

end Spliced

/-- An attempt scope for which the sinks count its control or the attempt around it. -/
def RollsUp (steps : List Step) (s : Step) : Prop :=
  s.kind = scope ∧ (attemptControl steps s).isSome ∧
    (s.metadata.val .scopeRef = "" ∨ enclosedByScope steps s)

/-- The step is such an attempt scope or one of the steps the scope waits for. -/
def RolledUp (steps : List Step) (s : Step) : Prop :=
  ∃ m ∈ steps, RollsUp steps m ∧ (m = s ∨ After steps m.id s.id)

theorem sinkOf_cases (steps : List Step) (s : Step) :
    sinkOf steps s = some s.id ∨ s.kind = Kind.workflowFinalize ∨ s.kind = spec ∨
      RollsUp steps s ∨ s.id ∈ steps.flatMap Step.deps := by
  unfold sinkOf
  split
  · next hkind => exact .inr (hkind.imp_right .inl)
  · split
    · next hscope =>
      split
      · exact .inl rfl
      · next c hc =>
        have hroll : ∀ h, RollsUp steps s := fun h => ⟨hscope, by simp [hc], h⟩
        split
        · next href => exact .inr (.inr (.inr (.inl (hroll (.inl href)))))
        · split
          · next henc => exact .inr (.inr (.inr (.inl (hroll (.inr henc)))))
          · exact .inl rfl
    · split
      · next href => exact .inr (.inr (.inr (.inr href)))
      · exact .inl rfl

variable {s : Step} {steps : Forest Step}

/-- A sink is a scope, a retry or check control, or a step that no other one waits for. -/
theorem exists_sink {steps : List Step} {id : String} (hid : id ∈ graphSinkStepIDs steps) :
    ∃ s ∈ steps, s.id = id ∧ (s.kind ∈ [scope, retry, ralph] ∨ id ∉ steps.flatMap Step.deps) := by
  rw [graphSinkStepIDs, mem_eraseDups, mem_filterMap] at hid
  obtain ⟨s, hs, hsink⟩ := hid
  unfold sinkOf at hsink
  split at hsink
  · cases hsink
  · split at hsink
    · next hscope =>
      have hself : s.id = id → ∃ s ∈ steps, s.id = id ∧
          (s.kind ∈ [scope, retry, ralph] ∨ id ∉ steps.flatMap Step.deps) := fun heq =>
        ⟨s, hs, heq, .inl (by simp [hscope])⟩
      split at hsink
      · exact hself (Option.some.inj hsink)
      · next c hc =>
        split at hsink
        · obtain rfl := Option.some.inj hsink
          unfold attemptControl at hc
          split at hc
          · cases hc
          · next c' hc' =>
            obtain ⟨⟨-, -, -, hkind⟩, hc⟩ := Option.ite_none_right_eq_some.mp hc
            obtain rfl := Option.some.inj hc
            exact ⟨_, mem_reverse.mp (mem_of_find?_eq_some hc'), rfl, .inl (by simp [hkind])⟩
        · exact hself (Option.some.inj (Option.ite_none_left_eq_some.mp hsink).2)
    · obtain ⟨hfree, heq⟩ := Option.ite_none_left_eq_some.mp hsink
      obtain rfl := Option.some.inj heq
      exact ⟨s, hs, rfl, .inr hfree⟩

/-- Every step but a spec sidecar is a sink, waited for by a sink, or rolled up. -/
theorem sink_or_rolledUp (h : FreshControls steps.flatten)
    (hac : Acyclic steps.flatten) (hs : s ∈ spliced steps) (hspec : s.kind ≠ spec)
    (hroll : ¬ RolledUp (spliced steps) s) :
    ∃ m ∈ spliced steps, m.id ∈ graphSinkStepIDs (spliced steps) ∧
      (m = s ∨ After (spliced steps) m.id s.id) := by
  obtain ⟨m, hm, htop, hpath⟩ := Digraph.exists_top_of_acyclic
    (fun m => sinkOf (spliced steps) m = some m.id ∨ m.kind = spec ∨
      RollsUp (spliced steps) m) (acyclic_spliced h hac) (by
    intro n hn htop
    rw [not_or, not_or] at htop
    obtain hsink | hkind | hkind | hroll | href := sinkOf_cases (spliced steps) n
    · exact absurd hsink htop.1
    · exact absurd hkind (spliced_kind h hn).1
    · exact absurd hkind htop.2.1
    · exact absurd hroll htop.2.2
    · exact mem_flatMap.mp href) hs
  rcases htop with hsink | hkind | hrolls
  · exact ⟨m, hm, mem_eraseDups.mpr (mem_filterMap.mpr ⟨m, hm, hsink⟩), hpath⟩
  · rcases hpath with rfl | hpath
    · exact absurd hkind hspec
    · obtain ⟨n, hn, hid, hdeps⟩ := hpath.exists_node
      obtain rfl := eq_of_id_eq h hn hm hid
      exact absurd (spliced_spec_deps h hn hkind) hdeps
  · exact absurd ⟨m, hm, hrolls, hpath⟩ hroll

def finalizer (steps : List Step) : List Step :=
  if (graphSinkStepIDs steps).isEmpty then [] else [workflowFinalize (graphSinkStepIDs steps)]

theorem eq_of_mem_finalizer {steps : List Step} (hs : s ∈ finalizer steps) :
    s = workflowFinalize (graphSinkStepIDs steps) := by
  rw [finalizer] at hs
  split at hs
  · cases hs
  · exact mem_singleton.mp hs

theorem applyGraphControls_perm (h : FreshControls steps.flatten) :
    (applyGraphControls steps true).flatten.Perm
      (spliced steps ++ finalizer (spliced steps)) := by
  have hnodup := spliced_ids_nodup h
  have hroots : ∀ {f : Forest Step}, (f.flatten.map Step.id).Nodup →
      (sortGraphSteps f).flatten.Perm f.flatten := fun hf =>
    sortGraphSteps_perm (hf.sublist ((Forest.roots_sublist _).map _))
  rw [applyGraphControls, if_pos rfl, finalizer]
  dsimp only
  split
  · rw [append_nil]
    exact hroots (nodup_append.mp hnodup).1
  · refine (hroots ?_).trans ?_
    · rw [Forest.flatten_append, Forest.flatten_ofList, map_append]
      exact hnodup
    · rw [Forest.flatten_append, Forest.flatten_ofList]

theorem closes_eq_false (hscope : s.kind ≠ scope) (hroot : s.kind ≠ workflow)
    (controlMeta : Metadata) : controlClosesNode controlMeta s.id s.metadata = false := by
  have hscope : (s.metadata.val .kind == scope) = false := beq_eq_false_iff_ne.mpr hscope
  have hroot : (s.metadata.val .kind == workflow) = false := beq_eq_false_iff_ne.mpr hroot
  simp [controlClosesNode, hscope, hroot]

def NoCloser (s n : Step) : Prop :=
  controlClosesNode s.metadata n.id n.metadata = false ∧
    controlClosesNode n.metadata s.id s.metadata = false

/-- An edge of the spliced graph that was not there before joins no control to a node it
closes. -/
theorem noCloser_spliced (h : FreshControls steps.flatten) {n : Step}
    (hs : s ∈ spliced steps) (hn : n ∈ spliced steps) (hedge : n.id ∈ s.deps)
    (hnew : ¬ Digraph.Needs Step.id Step.deps steps.flatten s.id n.id) : NoCloser s n := by
  rcases mem_spliced.mp hs with ⟨x, hx, rfl⟩ | hc
  · rw [rewriteGraphStepRefs_deps, markOutputRequired_deps] at hedge
    obtain ⟨d, hd, hdn⟩ := mem_map.mp hedge
    rcases rewriteGraphRef_cases (marked steps) (markOutputRequired x) d with
      href | ⟨t, ht, rfl, hcheck, href, hcloses⟩
    · exact absurd ⟨x, hx, markOutputRequired_id.symm, hdn ▸ href.symm ▸ hd⟩ hnew
    · have hcontrol : scopeCheckControl t ∈ spliced steps :=
        mem_spliced.mpr (.inr (mem_controls.mpr ⟨t, ht, .inr ⟨hcheck, rfl⟩⟩))
      obtain rfl := eq_of_id_eq h hn hcontrol (hdn.symm.trans href)
      have hkind := scopeCheckControl_kind t
      exact ⟨closes_eq_false (by rw [hkind]; decide) (by rw [hkind]; decide) _, hcloses⟩
  · obtain ⟨t, ht, hcases⟩ := mem_controls.mp hc
    obtain ⟨x, hx, rfl⟩ := mem_map.mp ht
    have hnode : rewriteGraphStepRefs (marked steps) (markOutputRequired x) ∈ spliced steps :=
      mem_spliced.mpr (.inl ⟨x, hx, rfl⟩)
    rcases hcases with ⟨oc, _, rfl⟩ | ⟨hcheck, rfl⟩
    · have hkind := fanoutControl_kind (markOutputRequired x) oc
      refine ⟨?_, closes_eq_false (by rw [hkind]; decide) (by rw [hkind]; decide) _⟩
      rw [Step.kind] at hkind
      rw [controlClosesNode, hkind, if_neg (by decide), if_neg (by decide)]
    · have hkind := scopeCheckControl_kind (markOutputRequired x)
      obtain rfl := eq_of_id_eq h hn hnode (mem_singleton.mp hedge)
      refine ⟨?_, closes_eq_false (by rw [hkind]; decide) (by rw [hkind]; decide) _⟩
      -- a scope is exempt from scope checks
      have hscope : (markOutputRequired x).kind ≠ scope := by
        intro hscope
        rw [needsScopeCheck, hscope] at hcheck
        exact absurd (Bool.and_eq_true_iff.mp hcheck).2 (by decide)
      rw [Step.kind] at hkind hscope
      rw [controlClosesNode, if_pos hkind]
      simp [rewriteGraphStepRefs, hscope]

/-- What the pass preserves of the workflow it is applied to. -/
structure WorkflowPreserved (steps : Forest Step) : Prop where
  /-- The result has no cycle. -/
  acyclic : Acyclic (applyGraphControls steps true).flatten
  /-- Every step is still there. -/
  kept : ∀ s ∈ steps.flatten, ∃ t ∈ (applyGraphControls steps true).flatten, t.id = s.id
  /-- A step that waited for another still does. -/
  ordered : ∀ s ∈ steps.flatten, ∀ t ∈ steps.flatten, After steps.flatten s.id t.id →
    After (applyGraphControls steps true).flatten s.id t.id
  /-- The finalizer waits for every step that is neither a spec nor rolled up. -/
  finalized : ∀ s ∈ spliced steps, s.kind ≠ spec → ¬ RolledUp (spliced steps) s →
    After (applyGraphControls steps true).flatten "workflow-finalize" s.id
  /-- No inserted edge joins a control to a node that it closes. -/
  noCloser : ∀ s ∈ (applyGraphControls steps true).flatten,
    ∀ n ∈ (applyGraphControls steps true).flatten, n.id ∈ s.deps →
      ¬ Digraph.Needs Step.id Step.deps steps.flatten s.id n.id → NoCloser s n

theorem acyclic_applyGraphControls (h : FreshControls steps.flatten) (hac : Acyclic steps.flatten) :
    Acyclic (spliced steps ++ finalizer (spliced steps)) := by
  have hspliced := acyclic_spliced h hac
  rw [finalizer]
  split
  · rwa [append_nil]
  · apply hspliced.snoc
    intro m hm
    rcases mem_append.mp hm with hm | hm
    · exact finalize_notMem_deps h hm
    · obtain rfl := mem_singleton.mp hm
      intro hmem
      have hsink : "workflow-finalize" ∈ graphSinkStepIDs (spliced steps) := by
        simpa [workflowFinalize] using hmem
      obtain ⟨s, hs, hid, -⟩ := exists_sink hsink
      exact (nodup_append.mp (spliced_ids_nodup h)).2.2 _ (mem_map_of_mem hs) _
        (mem_singleton_self _) hid

theorem applyGraphControls_preserves (steps : Forest Step) (hac : Acyclic steps.flatten)
    (h : FreshControls steps.flatten) : WorkflowPreserved steps := by
  have hmem := fun n => (applyGraphControls_perm h).mem_iff (a := n)
  have hsub : ∀ n ∈ spliced steps, n ∈ (applyGraphControls steps true).flatten :=
    fun n hn => (hmem n).mpr (mem_append_left _ hn)
  constructor
  · intro a hcycle
    exact acyclic_applyGraphControls h hac a ((Digraph.after_congr hmem).mp hcycle)
  · intro s hs
    exact ⟨_, hsub _ (mem_spliced.mpr (.inl ⟨s, hs, rfl⟩)), markOutputRequired_id⟩
  · intro s _ t _ hafter
    exact (after_spliced hafter).mono hsub
  · intro s hs hspec hroll
    obtain ⟨m, hm, hsink, hpath⟩ := sink_or_rolledUp h hac hs hspec hroll
    have hfinal : workflowFinalize (graphSinkStepIDs (spliced steps)) ∈
        (applyGraphControls steps true).flatten := by
      refine (hmem _).mpr (mem_append_right _ ?_)
      rw [finalizer, if_neg (by simpa using ne_nil_of_mem hsink)]
      exact mem_singleton_self _
    have hedge : After (applyGraphControls steps true).flatten "workflow-finalize" m.id :=
      .single ⟨_, hfinal, rfl, by simpa [workflowFinalize] using hsink⟩
    rcases hpath with rfl | hpath
    · exact hedge
    · exact hedge.trans (hpath.mono hsub)
  · intro s hs n hn hedge hnew
    rw [hmem, mem_append] at hs hn
    rcases hs with hs | hs
    · rcases hn with hn | hn
      · exact noCloser_spliced h hs hn hedge hnew
      · obtain rfl := eq_of_mem_finalizer hn
        exact absurd hedge (finalize_notMem_deps h hs)
    · obtain rfl := eq_of_mem_finalizer hs
      have hfinal : (workflowFinalize (graphSinkStepIDs (spliced steps))).kind =
        Kind.workflowFinalize := rfl
      have hkind : n.kind ≠ workflow := by
        rcases hn with hn | hn
        · intro hroot
          obtain ⟨m, hm, hid, hsink⟩ := exists_sink (by simpa [workflowFinalize] using hedge)
          obtain rfl := eq_of_id_eq h hm hn hid
          rcases hsink with hsink | hsink
          · rw [hroot] at hsink
            exact absurd hsink (by decide)
          · exact hsink ((spliced_kind h hn).2 hroot)
        · obtain rfl := eq_of_mem_finalizer hn
          rw [hfinal]; decide
      exact ⟨beq_eq_false_iff_ne.mpr hkind,
        closes_eq_false (by rw [hfinal]; decide) (by rw [hfinal]; decide) _⟩

/-- A scope with one member, a step that needs it, and a member that fans out. -/
def scopedWorkflow : Forest Step :=
  .cons
    { id := "body"
      metadata := Table.ofList [(.kind, scope), (.scopeRole, ScopeRole.body)]
      needs := ["build"] } .nil
  (.cons { id := "build", metadata := Table.ofList [(.scopeRef, "body")], onComplete := some {} }
    (.cons { id := "fetch" } .nil .nil)
  (.cons { id := "ship", needs := ["build", "fetch"], dependsOn := ["body"] } .nil .nil))

theorem applyGraphControls_preserves_scoped : WorkflowPreserved scopedWorkflow :=
  applyGraphControls_preserves scopedWorkflow
    (Digraph.acyclic_of_rank (fun id => ["fetch", "build", "body", "ship"].idxOf id) (by decide))
    (by decide)

def hijackedWorkflow : Forest Step :=
  .ofList
    [{ id := "body", metadata := Table.ofList [(.kind, scope), (.scopeRole, ScopeRole.body)] },
      { id := "build", metadata := Table.ofList [(.scopeRef, "body")] },
      { id := "build-scope-check", needs := ["publish"] },
      { id := "publish" }]

/-- The sort keeps one of two steps with the same id: the authored step is gone and the finalizer no
longer waits for what it needed. -/
theorem hijacked_not_preserved :
    Acyclic hijackedWorkflow.flatten ∧ (hijackedWorkflow.flatten.map Step.id).Nodup ∧
      ¬ After (applyGraphControls hijackedWorkflow true).flatten "workflow-finalize" "publish" ∧
      ¬ WorkflowPreserved hijackedWorkflow := by
  have hclosed : ∀ n ∈ (applyGraphControls hijackedWorkflow true).flatten,
      n.id ≠ "publish" → ∀ d ∈ n.deps, d ≠ "publish" := by
    decide
  refine ⟨Digraph.acyclic_of_rank (fun id => if id = "build-scope-check" then 1 else 0)
    (by decide), by decide, ?_, ?_⟩
  · intro hafter
    exact hafter.mem_of_closed (s := {id | id ≠ "publish"}) hclosed (by decide) rfl
  · intro hpreserved
    have hafter := hpreserved.ordered { id := "build-scope-check", needs := ["publish"] }
      (by decide) { id := "publish" } (by decide) (.single ⟨_, by decide, rfl, by decide⟩)
    exact hafter.mem_of_closed (s := {id | id ≠ "publish"}) hclosed (by decide) rfl

end GasCity.Formula
