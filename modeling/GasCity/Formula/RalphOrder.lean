import GasCity.Formula.RalphEdges

/-! # Order under the retry and check transforms

The control of a transformed step keeps its id and dependencies, so what waited for the step still
waits for all of its work.  Inside a body the names of the steps move into the iteration; the
theorem is an induction over the nesting, with one renaming for each check.
-/

namespace GasCity.Formula

open List Relation Forest

abbrev sourceIDs (f : Forest Step) : List String := f.flatten.map Step.id

def bodies : Forest Step → List (Forest Step)
  | .nil => []
  | .cons s children rest =>
    match attemptRoot s with
    | none => bodies children ++ bodies rest
    | some _ => children :: (bodies children ++ bodies rest)

/-- The ids that the transforms make up for the result. -/
def newIDs : Forest Step → List String
  | .nil => []
  | .cons s children rest =>
    match attemptRoot s with
    | none => newIDs children ++ newIDs rest
    | some root => (s.id ++ ".spec") :: root ::
        ((derivedIDs children).map (fun id => root ++ "." ++ id) ++ newIDs rest)

/-- The id under which a source step, or what keeps its id, ends up. -/
def finalID : Forest Step → String → String
  | .nil, d => d
  | .cons s children rest, d =>
    if d = s.id then d
    else if d ∈ sourceIDs children then
      match attemptRoot s with
      | none => finalID children d
      | some root => root ++ "." ++ finalID children d
    else finalID rest d

/-- A name of the source: the id of a step or one of its references. -/
def IsName (f : Forest Step) (d : String) : Prop :=
  ∃ n ∈ f.flatten, d ∈ n.id :: n.deps

theorem IsName.of_mem {f : Forest Step} {d : String} (h : d ∈ sourceIDs f) : IsName f d := by
  obtain ⟨n, hn, rfl⟩ := mem_map.mp h
  exact ⟨n, hn, mem_cons_self ..⟩

theorem IsName.mono {f g : Forest Step} (hfg : ∀ n ∈ f.flatten, n ∈ g.flatten) {d : String}
    (h : IsName f d) : IsName g d := by
  obtain ⟨n, hn, hd⟩ := h
  exact ⟨n, hfg n hn, hd⟩

/-- Ids are distinct before and after, retries stand alone, bodies are flat, no id or reference of
the forest or of a body is one that the transforms make up there, and only the steps of a body refer
to its steps. -/
structure WellNested (f : Forest Step) : Prop where
  ids : (sourceIDs f).Nodup
  derived : (derivedIDs f).Nodup
  retries : RetryAlone f
  flat : FlatBodies f
  specs : NoSpecs f.flatten
  fresh : ∀ g ∈ f :: bodies f, ∀ s ∈ g.flatten, ∀ d ∈ s.id :: s.deps, d ∉ newIDs g
  inside : ∀ body ∈ bodies f, ∀ s ∈ f.flatten, s.id ∉ sourceIDs body →
    ∀ d ∈ s.deps, d ∉ sourceIDs body

section WellNested

variable {s : Step} {children rest f : Forest Step}

variable {a b d : String}

theorem mem_sourceIDs_cons : d ∈ sourceIDs (.cons s children rest) ↔
    d = s.id ∨ d ∈ sourceIDs children ∨ d ∈ sourceIDs rest := by
  simp [sourceIDs, eq_comm]

/-- What is called `x` among the children of `s` has this name in the result. -/
def placed (s : Step) (x : String) : String :=
  ((attemptRoot s).map fun root => root ++ "." ++ x).getD x

/-- A reference from the children of `s`: the ids among them move along. -/
def moved (s : Step) (children : Forest Step) (d : String) : String :=
  if d ∈ derivedIDs children then placed s d else d

theorem placed_some {root x : String} (hroot : attemptRoot s = some root) :
    placed s x = root ++ "." ++ x := by
  simp [placed, hroot]

theorem placed_inj : placed s a = placed s b ↔ a = b := by
  cases hroot : attemptRoot s <;> simp [placed, hroot]

theorem finalID_cons : finalID (.cons s children rest) d =
    if d = s.id then d
    else if d ∈ sourceIDs children then placed s (finalID children d)
    else finalID rest d := by
  rw [finalID]
  cases hroot : attemptRoot s <;> simp [placed, hroot]

theorem mem_workIDs_cons : d ∈ workIDs (.cons s children rest) ↔
    d = s.id ∨ attemptRoot s = some d ∨ (∃ x ∈ workIDs children, placed s x = d) ∨
      d ∈ workIDs rest := by
  cases hroot : attemptRoot s <;> simp [workIDs, placed, hroot, eq_comm]

theorem mem_derivedIDs_cons : d ∈ derivedIDs (.cons s children rest) ↔
    d = s.id ∨ (∃ root, attemptRoot s = some root ∧ (d = s.id ++ ".spec" ∨ d = root)) ∨
      (∃ x ∈ derivedIDs children, placed s x = d) ∨ d ∈ derivedIDs rest := by
  cases hroot : attemptRoot s <;> simp [derivedIDs, placed, hroot, or_assoc]

theorem waits_cons : Waits (.cons s children rest) a b ↔
    a = s.id ∧ (b ∈ s.deps ∨ attemptRoot s = some b) ∨
    (∃ root, attemptRoot s = some root ∧ (children = .nil ∧ a = root ∧ b ∈ s.deps ∨
      ∃ x ∈ workIDs children, a = root ∧ b = placed s x ∨ a = placed s x ∧ b ∈ s.deps)) ∨
    (∃ x y, Waits children x y ∧ a = placed s x ∧ b = moved s children y) ∨ Waits rest a b := by
  cases hroot : attemptRoot s <;>
    simp [Waits, placed, moved, renameIn, hroot, or_assoc, eq_comm]

theorem bodies_children : ∀ body ∈ bodies children, body ∈ bodies (.cons s children rest) := by
  intro body h
  rw [bodies]
  split <;> simp [h]

theorem bodies_rest : ∀ body ∈ bodies rest, body ∈ bodies (.cons s children rest) := by
  intro body h
  rw [bodies]
  split <;> simp [h]

theorem newIDs_children (hroot : attemptRoot s = none) :
    ∀ d ∈ newIDs children, d ∈ newIDs (.cons s children rest) := by
  intro d h
  simp [newIDs, hroot, h]

theorem newIDs_rest : ∀ d ∈ newIDs rest, d ∈ newIDs (.cons s children rest) := by
  intro d h
  rw [newIDs]
  split <;> simp [h]

variable (h : WellNested (.cons s children rest))
include h

theorem WellNested.distinct :
    s.id ∉ sourceIDs children ++ sourceIDs rest ∧ (sourceIDs children ++ sourceIDs rest).Nodup := by
  have hids := h.ids
  rwa [sourceIDs, Forest.flatten_cons, map_cons, map_append, nodup_cons] at hids

theorem WellNested.derived_parts : (derivedIDs children).Nodup ∧ (derivedIDs rest).Nodup := by
  have hids := h.derived
  rw [derivedIDs] at hids
  split at hids
  · rw [nodup_cons, nodup_append] at hids
    exact ⟨hids.2.1, hids.2.2.1⟩
  · simp only [nodup_cons, nodup_append] at hids
    exact ⟨hids.2.2.2.1.of_map _, hids.2.2.2.2.1⟩

theorem WellNested.down : WellNested children where
  ids := (nodup_append.mp h.distinct.2).1
  derived := h.derived_parts.1
  retries := h.retries.2.1
  flat := h.flat.2.1
  specs n hn := h.specs n (mem_of_children hn)
  fresh := by
    intro g hg n hn d hd hnew
    rcases mem_cons.mp hg with rfl | hg
    · cases hroot : attemptRoot s with
      | none =>
        exact h.fresh _ (mem_cons_self ..) n (mem_of_children hn) d hd
          (newIDs_children hroot d hnew)
      | some root => exact h.fresh g (by simp [bodies, hroot]) n hn d hd hnew
    · exact h.fresh g (mem_cons_of_mem _ (bodies_children g hg)) n hn d hd hnew
  inside body hbody n hn := h.inside body (bodies_children body hbody) n (mem_of_children hn)

theorem WellNested.next : WellNested rest where
  ids := (nodup_append.mp h.distinct.2).2.1
  derived := h.derived_parts.2
  retries := h.retries.2.2
  flat := h.flat.2.2
  specs n hn := h.specs n (mem_of_rest hn)
  fresh := by
    intro g hg n hn d hd hnew
    rcases mem_cons.mp hg with rfl | hg
    · exact h.fresh _ (mem_cons_self ..) n (mem_of_rest hn) d hd (newIDs_rest d hnew)
    · exact h.fresh g (mem_cons_of_mem _ (bodies_rest g hg)) n hn d hd hnew
  inside body hbody n hn := h.inside body (bodies_rest body hbody) n (mem_of_rest hn)

theorem WellNested.disjoint : s.id ∉ sourceIDs children ∧ s.id ∉ sourceIDs rest ∧
      ∀ d ∈ sourceIDs children, d ∉ sourceIDs rest := by
  obtain ⟨hs, hids⟩ := h.distinct
  rw [mem_append, not_or] at hs
  exact ⟨hs.1, hs.2, fun d hd hd' => (nodup_append.mp hids).2.2 d hd d hd' rfl⟩

omit h

theorem bodies_subset {body : Forest Step} (h : body ∈ bodies f) :
    ∀ d ∈ sourceIDs body, d ∈ sourceIDs f := by
  induction f with
  | nil => cases h
  | cons s children rest ihc ihr =>
    intro d hd
    rw [mem_sourceIDs_cons]
    rw [bodies] at h
    split at h
    · rcases mem_append.mp h with h | h
      · exact .inr (.inl (ihc h d hd))
      · exact .inr (.inr (ihr h d hd))
    · rcases mem_cons.mp h with rfl | h
      · exact .inr (.inl hd)
      · rcases mem_append.mp h with h | h
        · exact .inr (.inl (ihc h d hd))
        · exact .inr (.inr (ihr h d hd))

theorem finalID_of_notMem (h : d ∉ sourceIDs f) : finalID f d = d := by
  induction f with
  | nil => rfl
  | cons s children rest _ ihr =>
    rw [mem_sourceIDs_cons, not_or, not_or] at h
    rw [finalID, if_neg h.1, if_neg h.2.1, ihr h.2.2]

theorem finalID_of_outside (h : ∀ body ∈ bodies f, d ∉ sourceIDs body) :
    finalID f d = d := by
  induction f with
  | nil => rfl
  | cons s children rest ihc ihr =>
    rw [finalID]
    split
    · rfl
    · split
      · next hd =>
        cases hroot : attemptRoot s with
        | none => exact ihc fun body hbody => h body (bodies_children body hbody)
        | some root => exact absurd hd (h children (by simp [bodies, hroot]))
      · exact ihr fun body hbody => h body (bodies_rest body hbody)

theorem mem_derivedIDs (h : d ∈ derivedIDs f) : d ∈ sourceIDs f ∨ d ∈ newIDs f := by
  induction f with
  | nil => cases h
  | cons s children rest ihc ihr =>
    rw [mem_sourceIDs_cons]
    cases hroot : attemptRoot s with
    | none =>
      simp only [derivedIDs, newIDs, hroot, mem_cons, mem_append] at h ⊢
      rcases h with h | h | h
      · exact .inl (.inl h)
      · rcases ihc h with h | h <;> simp [h]
      · rcases ihr h with h | h <;> simp [h]
    | some root =>
      simp only [derivedIDs, newIDs, hroot, mem_cons, mem_append] at h ⊢
      rcases h with h | h | h | h | h
      · exact .inl (.inl h)
      · simp [h]
      · simp [h]
      · exact .inr (.inr (.inr (.inl h)))
      · rcases ihr h with h | h <;> simp [h]

theorem workIDs_subset (h : d ∈ workIDs f) : d ∈ derivedIDs f := by
  induction f generalizing d with
  | nil => cases h
  | cons s children rest ihc ihr =>
    rw [mem_derivedIDs_cons]
    rcases mem_workIDs_cons.mp h with h | h | ⟨x, hx, h⟩ | h
    · exact .inl h
    · exact .inr (.inl ⟨d, h, .inr rfl⟩)
    · exact .inr (.inr (.inl ⟨x, ihc hx, h⟩))
    · exact .inr (.inr (.inr (ihr h)))

theorem finalID_mem_workIDs (h : d ∈ sourceIDs f) : finalID f d ∈ workIDs f := by
  induction f with
  | nil => cases h
  | cons s children rest ihc ihr =>
    rw [mem_sourceIDs_cons] at h
    rw [finalID_cons, mem_workIDs_cons]
    split_ifs with hs hc
    · exact .inl hs
    · exact .inr (.inr (.inl ⟨_, ihc hc, rfl⟩))
    · exact .inr (.inr (.inr (ihr ((h.resolve_left hs).resolve_left hc))))

theorem Waits.mem_workIDs (h : Waits f a b) : a ∈ workIDs f := by
  induction f generalizing a b with
  | nil => cases h
  | cons s children rest ihc ihr =>
    rw [mem_workIDs_cons]
    rcases waits_cons.mp h with ⟨h, -⟩ | ⟨root, hroot, ⟨-, rfl, -⟩ | ⟨x, hx, ⟨rfl, -⟩ | ⟨rfl, -⟩⟩⟩ |
      ⟨x, y, hxy, rfl, -⟩ | h
    · exact .inl h
    · exact .inr (.inl hroot)
    · exact .inr (.inl hroot)
    · exact .inr (.inr (.inl ⟨x, hx, rfl⟩))
    · exact .inr (.inr (.inl ⟨x, ihc hxy, rfl⟩))
    · exact .inr (.inr (.inr (ihr h)))

/-- A reference from outside a part of the forest names no step in a body of that part. -/
theorem WellNested.finalID_elsewhere (h : WellNested f) {g : Forest Step} {n : Step}
    (hg : ∀ body ∈ bodies g, body ∈ bodies f) (hn : n ∈ f.flatten) (hng : n.id ∉ sourceIDs g)
    (hd : d ∈ n.deps) : finalID g d = d :=
  finalID_of_outside fun body hbody =>
    h.inside body (hg body hbody) n hn (fun hmem => hng (bodies_subset hbody _ hmem)) d hd

variable (h : WellNested (.cons s children rest))
include h

theorem WellNested.finalID_head (hd : d ∈ s.deps) :
    finalID (.cons s children rest) d = d := by
  obtain ⟨hsc, hsr, _⟩ := h.disjoint
  have hs : s ∈ (cons s children rest).flatten := mem_cons_self ..
  rw [finalID]
  split
  · rfl
  · split
    · next hdc =>
      cases hroot : attemptRoot s with
      | none => exact h.finalID_elsewhere bodies_children hs hsc hd
      | some root => exact absurd hdc (h.inside children (by simp [bodies, hroot]) s hs hsc d hd)
    · exact h.finalID_elsewhere bodies_rest hs hsr hd

theorem WellNested.finalID_next (hname : IsName rest d) :
    finalID (.cons s children rest) d = finalID rest d := by
  obtain ⟨n, hn, hd⟩ := hname
  obtain ⟨_, hsr, hcr⟩ := h.disjoint
  have hmem : n ∈ (cons s children rest).flatten :=
    mem_of_rest hn
  have hnr : n.id ∈ sourceIDs rest := mem_map_of_mem hn
  have hnc : n.id ∉ sourceIDs children := fun hnc => hcr _ hnc hnr
  rw [finalID]
  split
  · next hds => rw [finalID_of_notMem (hds ▸ hsr)]
  · split
    · next hdc =>
      rw [finalID_of_notMem (hcr d hdc)]
      have hd : d ∈ n.deps := (mem_cons.mp hd).resolve_left fun hdn => hnc (hdn ▸ hdc)
      cases hroot : attemptRoot s with
      | none => exact h.finalID_elsewhere bodies_children hmem hnc hd
      | some root => exact absurd hdc (h.inside children (by simp [bodies, hroot]) n hmem hnc d hd)
    · rfl

theorem WellNested.finalID_down (hname : IsName children d) :
    finalID (.cons s children rest) d = moved s children (finalID children d) := by
  obtain ⟨n, hn, hd⟩ := hname
  obtain ⟨hsc, _, hcr⟩ := h.disjoint
  have hmem : n ∈ (cons s children rest).flatten :=
    mem_of_children hn
  have hnc : n.id ∈ sourceIDs children := mem_map_of_mem hn
  -- a name that is not in the body is left alone by the renaming
  have hkeep : d ∉ sourceIDs children → moved s children (finalID children d) = d := by
    intro hdc
    rw [finalID_of_notMem hdc, moved, if_neg]
    intro hderived
    rcases mem_derivedIDs hderived with hd' | hd'
    · exact hdc hd'
    · exact h.down.fresh _ (mem_cons_self ..) n hn d hd hd'
  rw [finalID_cons]
  split_ifs with hds hdc
  · exact (hkeep (hds ▸ hsc)).symm
  · exact (if_pos (workIDs_subset (finalID_mem_workIDs hdc))).symm
  · have hd : d ∈ n.deps := (mem_cons.mp hd).resolve_left fun hdn => hdc (hdn ▸ hnc)
    rw [h.finalID_elsewhere bodies_rest hmem (hcr _ hnc) hd, hkeep hdc]

omit h

theorem waits_next (hab : TransGen (Waits rest) a b) :
    TransGen (Waits (.cons s children rest)) a b :=
  hab.lift id fun _ _ hxy => .inr hxy

/-- Paths among the children are paths of the forest, under the names they have in it. -/
theorem waits_down (s : Step) (rest : Forest Step) (hab : TransGen (Waits children) a b) :
    TransGen (Waits (.cons s children rest)) (moved s children a) (moved s children b) := by
  refine hab.lift (moved s children) fun x y hxy => waits_cons.mpr ?_
  have hx : moved s children x = placed s x := if_pos (workIDs_subset hxy.mem_workIDs)
  exact .inr (.inr (.inl ⟨x, y, hxy, hx, rfl⟩))

theorem WellNested.waits_declared (h : WellNested f) :
    ∀ n ∈ f.flatten, ∀ d ∈ n.deps,
      TransGen (Waits f) (finalID f n.id) (finalID f d) := by
  induction f with
  | nil => simp
  | cons s children rest ihc ihr =>
    intro n hn d hd
    rcases mem_cons.mp hn with rfl | hn
    · rw [h.finalID_head hd, finalID, if_pos rfl]
      exact .single (waits_cons.mpr (.inl ⟨rfl, .inl hd⟩))
    · rcases mem_append.mp hn with hn | hn
      · rw [h.finalID_down ⟨n, hn, mem_cons_self ..⟩,
          h.finalID_down ⟨n, hn, mem_cons_of_mem _ hd⟩]
        exact waits_down s rest (ihc h.down n hn d hd)
      · rw [h.finalID_next ⟨n, hn, mem_cons_self ..⟩,
          h.finalID_next ⟨n, hn, mem_cons_of_mem _ hd⟩]
        exact waits_next (ihr h.next n hn d hd)

end WellNested

/-- A transformed step with the ids of its control and of the work generated for it. -/
structure Expansion where
  owner : Step
  control : String
  work : List String

/-- The expansion of a step of a body, under the names it has in the iteration. -/
def Expansion.within (root : String) (e : Expansion) : Expansion :=
  { e with control := root ++ "." ++ e.control, work := e.work.map fun id => root ++ "." ++ id }

def expansions : Forest Step → List Expansion
  | .nil => []
  | .cons s children rest =>
    (match attemptRoot s with
    | none => expansions children
    | some root =>
      ⟨s, s.id, root :: (workIDs children).map fun id => root ++ "." ++ id⟩ ::
        (expansions children).map (Expansion.within root)) ++ expansions rest

section Expansions

variable {f : Forest Step} {e : Expansion}

theorem mem_expansions_cons {s : Step} {children rest : Forest Step} :
    e ∈ expansions (.cons s children rest) ↔
      (∃ root, attemptRoot s = some root ∧
        e = ⟨s, s.id, root :: (workIDs children).map (placed s)⟩) ∨
      (∃ e' ∈ expansions children,
        e = { e' with control := placed s e'.control, work := e'.work.map (placed s) }) ∨
      e ∈ expansions rest := by
  have hplaced : placed s = fun x => placed s x := rfl
  cases hroot : attemptRoot s <;>
    simp [expansions, hplaced, placed, hroot, Expansion.within, eq_comm]

theorem expansions_mem (he : e ∈ expansions f) :
    e.owner ∈ f.flatten ∧ e.control ∈ workIDs f ∧ ∀ w ∈ e.work, w ∈ workIDs f := by
  induction f generalizing e with
  | nil => cases he
  | cons s children rest ihc ihr =>
    simp only [mem_workIDs_cons]
    rcases mem_expansions_cons.mp he with ⟨root, hroot, rfl⟩ | ⟨e, hmem, rfl⟩ | he
    · refine ⟨mem_cons_self .., .inl rfl, fun w hw => ?_⟩
      rcases mem_cons.mp hw with rfl | hw
      · exact .inr (.inl hroot)
      · exact .inr (.inr (.inl (mem_map.mp hw)))
    · obtain ⟨howner, hcontrol, hwork⟩ := ihc hmem
      refine ⟨mem_of_children howner, .inr (.inr (.inl ⟨_, hcontrol, rfl⟩)), fun w hw => ?_⟩
      obtain ⟨x, hx, rfl⟩ := mem_map.mp hw
      exact .inr (.inr (.inl ⟨x, hwork x hx, rfl⟩))
    · obtain ⟨howner, hcontrol, hwork⟩ := ihr he
      exact ⟨mem_of_rest howner, .inr (.inr (.inr hcontrol)), fun w hw =>
        .inr (.inr (.inr (hwork w hw)))⟩

theorem workIDs_ne_nil (hf : f ≠ .nil) : ∃ x, x ∈ workIDs f := by
  cases f with
  | nil => exact absurd rfl hf
  | cons s children rest =>
    refine ⟨s.id, ?_⟩
    rw [workIDs]
    split <;> simp

/-- Every control waits for its work, and the work for what the owner declared. -/
theorem WellNested.waits_work (h : WellNested f) (he : e ∈ expansions f) :
    ∀ w ∈ e.work, TransGen (Waits f) e.control w ∧
      ∀ d ∈ e.owner.deps, TransGen (Waits f) w (finalID f d) := by
  induction f generalizing e with
  | nil => cases he
  | cons s children rest ihc ihr =>
    intro w hw
    rcases mem_expansions_cons.mp he with ⟨root, hroot, rfl⟩ | ⟨e, hmem, rfl⟩ | he
    · have hcontrol : TransGen (Waits (.cons s children rest)) s.id root :=
        .single (waits_cons.mpr (.inl ⟨rfl, .inr hroot⟩))
      have hbody : ∀ x ∈ workIDs children,
          TransGen (Waits (.cons s children rest)) root (placed s x) := fun x hx =>
        .single (waits_cons.mpr (.inr (.inl ⟨root, hroot, .inr ⟨x, hx, .inl ⟨rfl, rfl⟩⟩⟩)))
      have hwork : ∀ x ∈ workIDs children, ∀ d ∈ s.deps,
          TransGen (Waits (.cons s children rest)) (placed s x) d := fun x hx d hd =>
        .single (waits_cons.mpr (.inr (.inl ⟨root, hroot, .inr ⟨x, hx, .inr ⟨rfl, hd⟩⟩⟩)))
      rcases mem_cons.mp hw with rfl | hw
      · refine ⟨hcontrol, fun d hd => ?_⟩
        rw [h.finalID_head hd]
        by_cases hnil : children = .nil
        · exact .single (waits_cons.mpr (.inr (.inl ⟨w, hroot, .inl ⟨hnil, rfl, hd⟩⟩)))
        · obtain ⟨x, hx⟩ := workIDs_ne_nil hnil
          exact (hbody x hx).trans (hwork x hx d hd)
      · obtain ⟨x, hx, rfl⟩ := mem_map.mp hw
        refine ⟨hcontrol.trans (hbody x hx), fun d hd => ?_⟩
        rw [h.finalID_head hd]
        exact hwork x hx d hd
    · obtain ⟨x, hx, rfl⟩ := mem_map.mp hw
      obtain ⟨hcontrol, hdeps⟩ := ihc h.down hmem x hx
      obtain ⟨howner, hcmem, hwmem⟩ := expansions_mem hmem
      have hin : ∀ y ∈ workIDs children, moved s children y = placed s y :=
        fun y hy => if_pos (workIDs_subset hy)
      constructor
      · have hpath := waits_down s rest hcontrol
        rwa [hin _ hcmem, hin _ (hwmem x hx)] at hpath
      · intro d hd
        have hpath := waits_down s rest (hdeps d hd)
        rw [hin _ (hwmem x hx)] at hpath
        rwa [h.finalID_down ⟨_, howner, mem_cons_of_mem _ hd⟩]
    · obtain ⟨hcontrol, hdeps⟩ := ihr h.next he w hw
      refine ⟨waits_next hcontrol, fun d hd => ?_⟩
      rw [h.finalID_next ⟨_, (expansions_mem he).1, mem_cons_of_mem _ hd⟩]
      exact waits_next (hdeps d hd)

end Expansions

/-- What each step waits for with nesting: a transformed step waits for the steps of its body, and
these for everything that it declares. -/
def nestedNeeds (inherited : List String) : Forest Step → List (String × List String)
  | .nil => []
  | .cons s children rest =>
    match attemptRoot s with
    | none =>
      (s.id, s.deps ++ inherited) ::
        (nestedNeeds inherited children ++ nestedNeeds inherited rest)
    | some _ =>
      (s.id, s.deps ++ inherited ++ sourceIDs children) ::
        (nestedNeeds (s.deps ++ inherited) children ++ nestedNeeds inherited rest)

/-- `r` descends along the declared and the nested dependencies. -/
def Descends (r : String → ℕ) (inherited : List String) (f : Forest Step) : Prop :=
  ∀ p ∈ nestedNeeds inherited f, ∀ d ∈ p.2, r d < r p.1

/-- What the children of `s` inherit. -/
def inherits (s : Step) (inherited : List String) : List String :=
  if (attemptRoot s).isSome then s.deps ++ inherited else inherited

section Rank

variable {s : Step} {children rest f : Forest Step} {r : String → ℕ} {inh : List String}

variable {p : String × List String} {d : String}

theorem mem_inherits : d ∈ inherits s inh ↔ d ∈ inh ∨ (attemptRoot s).isSome ∧ d ∈ s.deps := by
  cases hroot : attemptRoot s <;> simp [inherits, hroot, or_comm]

theorem mem_nestedNeeds_cons : p ∈ nestedNeeds inh (.cons s children rest) ↔
    p = (s.id, s.deps ++ inh ++ if (attemptRoot s).isSome then sourceIDs children else []) ∨
      p ∈ nestedNeeds (inherits s inh) children ∨ p ∈ nestedNeeds inh rest := by
  cases hroot : attemptRoot s <;> simp [nestedNeeds, inherits, hroot]

variable {b root : String}

section Descends

variable (h : Descends r inh (.cons s children rest))
include h

theorem Descends.next : Descends r inh rest :=
  fun p hp => h p (mem_nestedNeeds_cons.mpr (.inr (.inr hp)))

theorem Descends.down : Descends r (inherits s inh) children :=
  fun p hp => h p (mem_nestedNeeds_cons.mpr (.inr (.inl hp)))

theorem Descends.head : ∀ d ∈ s.deps ++ inh, r d < r s.id :=
  fun d hd => h _ (mem_nestedNeeds_cons.mpr (.inl rfl)) d (mem_append_left _ hd)

theorem Descends.below (hroot : attemptRoot s = some root) :
    ∀ t ∈ sourceIDs children, r t < r s.id := by
  intro t ht
  apply h _ (mem_nestedNeeds_cons.mpr (.inl rfl))
  rw [hroot]
  exact mem_append_right _ ht

end Descends

theorem Descends.to_inherited (h : Descends r inh f) :
    ∀ t ∈ sourceIDs f, ∀ d ∈ inh, r d < r t := by
  induction f generalizing inh with
  | nil => simp
  | cons s children rest ihc ihr =>
    intro t ht d hd
    rcases mem_sourceIDs_cons.mp ht with rfl | ht | ht
    · exact h.head d (mem_append_right _ hd)
    · exact ihc h.down t ht d (mem_inherits.mpr (.inl hd))
    · exact ihr h.next t ht d hd

/-- A reference leads to a step of the result or is one that a source step declares. -/
theorem Waits.target {a : String} (h : Waits f a b) :
    b ∈ derivedIDs f ∨ ∃ n ∈ f.flatten, b ∈ n.deps := by
  induction f generalizing a b with
  | nil => cases h
  | cons s children rest ihc ihr =>
    have hself : b ∈ s.deps → ∃ n ∈ (cons s children rest).flatten, b ∈ n.deps :=
      fun hb => ⟨s, mem_cons_self .., hb⟩
    have hchild : (∃ n ∈ children.flatten, b ∈ n.deps) →
        ∃ n ∈ (cons s children rest).flatten, b ∈ n.deps :=
      fun ⟨n, hn, hb⟩ => ⟨n, mem_of_children hn, hb⟩
    rw [mem_derivedIDs_cons]
    rcases waits_cons.mp h with ⟨-, hb | hb⟩ | ⟨root, -, ⟨-, -, hb⟩ | ⟨x, hx, ⟨-, hb⟩ | ⟨-, hb⟩⟩⟩ |
      ⟨x, y, hxy, -, rfl⟩ | h
    · exact .inr (hself hb)
    · exact .inl (.inr (.inl ⟨b, hb, .inr rfl⟩))
    · exact .inr (hself hb)
    · exact .inl (.inr (.inr (.inl ⟨x, workIDs_subset hx, hb.symm⟩)))
    · exact .inr (hself hb)
    · unfold moved at hself hchild ⊢
      split_ifs with hy
      · exact .inl (.inr (.inr (.inl ⟨y, hy, rfl⟩)))
      · rw [if_neg hy] at hchild
        exact .inr (hchild ((ihc hxy).resolve_left hy))
    · refine (ihr h).imp (fun h => .inr (.inr (.inr h))) ?_
      exact fun ⟨n, hn, hb⟩ => ⟨n, mem_of_rest hn, hb⟩

/-- Each source step has three places in the rank of the result, the lowest for an attempt, the
highest for what keeps the id of the step. -/
structure Ranks (R : String → ℕ) (r : String → ℕ) (f : Forest Step) : Prop where
  edges : ∀ a b, Waits f a b → R b < R a
  near : ∀ a ∈ workIDs f, ∃ t ∈ sourceIDs f, 3 * r t ≤ R a ∧ R a ≤ 3 * r t + 2
  named : ∀ d, d ∉ newIDs f → R d = 3 * r d + 2

theorem WellNested.target_fresh (h : WellNested f)
    (hb : ∃ n ∈ f.flatten, b ∈ n.deps) : b ∉ newIDs f := by
  obtain ⟨n, hn, hb⟩ := hb
  exact h.fresh f (mem_cons_self ..) n hn b (mem_cons_of_mem _ hb)

variable {Rc Rr : String → ℕ}

/-- What a part of the forest declares has the rank it has in the part. -/
theorem Ranks.declared {R Rg : String → ℕ} {g : Forest Step} {y : String} (h : WellNested f)
    (hnamed : ∀ d, d ∉ newIDs f → R d = 3 * r d + 2) (hg : WellNested g) (hr : Ranks Rg r g)
    (hsub : ∀ n ∈ g.flatten, n ∈ f.flatten) (hy : ∃ n ∈ g.flatten, y ∈ n.deps) : R y = Rg y := by
  rw [hr.named y (hg.target_fresh hy)]
  obtain ⟨n, hn, hy⟩ := hy
  exact hnamed y (h.target_fresh ⟨n, hsub n hn, hy⟩)

/-- The attempt of the first step ranks just below it, and what comes from the children keeps its
rank. -/
noncomputable def consRank (r Rc Rr : String → ℕ) (s : Step) (children : Forest Step) (y : String) :
    ℕ :=
  open Classical in
  if attemptRoot s = some y then 3 * r s.id + 1
  else if h : ∃ x ∈ derivedIDs children, placed s x = y then Rc h.choose
  else Rr y

theorem attemptRoot_ne_placed (x : String) : attemptRoot s ≠ some (placed s x) := by
  intro hroot
  have hplaced := placed_some (x := x) hroot
  exact inside_ne_root _ _ hplaced.symm

theorem consRank_placed {x : String} (hx : x ∈ derivedIDs children) :
    consRank r Rc Rr s children (placed s x) = Rc x := by
  have hex : ∃ x' ∈ derivedIDs children, placed s x' = placed s x := ⟨x, hx, rfl⟩
  rw [consRank, if_neg (attemptRoot_ne_placed x), dif_pos hex, placed_inj.mp hex.choose_spec.2]

theorem consRank_outside {y : String} (hroot : attemptRoot s ≠ some y)
    (hy : ∀ x ∈ derivedIDs children, placed s x ≠ y) : consRank r Rc Rr s children y = Rr y := by
  rw [consRank, if_neg hroot, dif_neg]
  rintro ⟨x, hx, heq⟩
  exact hy x hx heq

theorem consRank_named (hc : Ranks Rc r children) (hn : Ranks Rr r rest) {d : String}
    (hd : d ∉ newIDs (.cons s children rest)) : consRank r Rc Rr s children d = 3 * r d + 2 := by
  by_cases hx : ∃ x ∈ derivedIDs children, placed s x = d
  · obtain ⟨x, hx, rfl⟩ := hx
    rw [consRank_placed hx]
    cases hroot : attemptRoot s with
    | none =>
      have hplaced : placed s x = x := by simp [placed, hroot]
      rw [hplaced] at hd ⊢
      exact hc.named x fun hnew => hd (newIDs_children hroot x hnew)
    | some root => simp [newIDs, hroot, placed_some hroot, hx] at hd
  · rw [consRank_outside ?_ fun x hx' heq => hx ⟨x, hx', heq⟩]
    · exact hn.named d fun hnew => hd (newIDs_rest d hnew)
    · intro hroot
      simp [newIDs, hroot] at hd

theorem consRank_rest (h : WellNested (.cons s children rest)) {y : String}
    (hy : y ∈ derivedIDs rest) : consRank r Rc Rr s children y = Rr y := by
  have hids := h.derived
  cases hroot : attemptRoot s with
  | none =>
    simp only [derivedIDs, hroot, nodup_cons] at hids
    refine consRank_outside (by simp [hroot]) fun x hx heq => ?_
    have hplaced : placed s x = x := by simp [placed, hroot]
    exact (nodup_append.mp hids.2).2.2 x hx y hy (hplaced.symm.trans heq)
  | some root =>
    simp only [derivedIDs, hroot, nodup_cons, mem_cons, mem_append, not_or] at hids
    refine consRank_outside ?_ fun x hx heq => ?_
    · rw [hroot]
      rintro ⟨⟩
      exact hids.2.2.1.2 hy
    · rw [placed_some hroot] at heq
      exact (nodup_append.mp hids.2.2.2).2.2 _ (mem_map_of_mem hx) y hy heq

theorem Ranks.cons (h : WellNested (.cons s children rest))
    (hr : Descends r inh (.cons s children rest)) (hc : Ranks Rc r children)
    (hn : Ranks Rr r rest) :
    Ranks (consRank r Rc Rr s children) r (.cons s children rest) := by
  set R := consRank r Rc Rr s children with hR
  have hrootRank : ∀ {root}, attemptRoot s = some root → R root = 3 * r s.id + 1 :=
    fun hroot => if_pos hroot
  have hnamed : ∀ d, d ∉ newIDs (.cons s children rest) → R d = 3 * r d + 2 :=
    fun d => consRank_named hc hn
  have hchildren : ∀ y, y ∈ derivedIDs children ∨ (∃ n ∈ children.flatten, y ∈ n.deps) →
      R (moved s children y) = Rc y := by
    intro y hy
    rw [moved]
    split
    · next hmem => exact consRank_placed hmem
    · next hmem =>
      exact Ranks.declared h hnamed h.down hc (fun _ => mem_of_children)
        (hy.resolve_left hmem)
  have hrest : ∀ y, y ∈ derivedIDs rest ∨ (∃ n ∈ rest.flatten, y ∈ n.deps) → R y = Rr y := by
    rintro y (hy | hy)
    · exact consRank_rest h hy
    · exact Ranks.declared h hnamed h.next hn (fun _ => mem_of_rest) hy
  have hs : R s.id = 3 * r s.id + 2 :=
    hnamed _ (h.fresh _ (mem_cons_self ..) s (mem_cons_self ..) _ (mem_cons_self ..))
  have hdeps : ∀ d ∈ s.deps, R d = 3 * r d + 2 ∧ r d < r s.id := fun d hd =>
    ⟨hnamed d (h.target_fresh ⟨s, mem_cons_self .., hd⟩),
      hr.head d (mem_append_left _ hd)⟩
  have hbody : ∀ x ∈ workIDs children, ∃ t ∈ sourceIDs children,
      3 * r t ≤ R (placed s x) ∧ R (placed s x) ≤ 3 * r t + 2 := by
    intro x hx
    rw [hR, consRank_placed (workIDs_subset hx)]
    exact hc.near x hx
  refine ⟨?_, ?_, hnamed⟩
  · intro a b hab
    rcases waits_cons.mp hab with ⟨rfl, hb | hb⟩ | ⟨root, hroot, ⟨-, rfl, hb⟩ |
      ⟨x, hx, ⟨rfl, rfl⟩ | ⟨rfl, hb⟩⟩⟩ | ⟨x, y, hxy, rfl, rfl⟩ | hab
    · obtain ⟨hb, hlt⟩ := hdeps b hb
      omega
    · have hb := hrootRank hb
      omega
    · obtain ⟨hb, hlt⟩ := hdeps b hb
      have ha := hrootRank hroot
      omega
    · obtain ⟨t, ht, hle⟩ := hbody x hx
      have hlt := hr.below hroot t ht
      have ha := hrootRank hroot
      omega
    · obtain ⟨t, ht, hle⟩ := hbody x hx
      have hlt := hr.down.to_inherited t ht b (mem_inherits.mpr (.inr ⟨by simp [hroot], hb⟩))
      obtain ⟨hb, -⟩ := hdeps b hb
      omega
    · have hx := workIDs_subset hxy.mem_workIDs
      rw [hchildren y hxy.target, hR, consRank_placed hx]
      exact hc.edges x y hxy
    · rw [hrest b hab.target, hrest a (.inl (workIDs_subset hab.mem_workIDs))]
      exact hn.edges a b hab
  · intro a ha
    rcases mem_workIDs_cons.mp ha with rfl | hroot | ⟨x, hx, rfl⟩ | ha
    · exact ⟨s.id, mem_sourceIDs_cons.mpr (.inl rfl), by omega, by omega⟩
    · have ha := hrootRank hroot
      exact ⟨s.id, mem_sourceIDs_cons.mpr (.inl rfl), by omega, by omega⟩
    · obtain ⟨t, ht, hle⟩ := hbody x hx
      exact ⟨t, mem_sourceIDs_cons.mpr (.inr (.inl ht)), hle⟩
    · obtain ⟨t, ht, hle⟩ := hn.near a ha
      rw [hrest a (.inl (workIDs_subset ha))]
      exact ⟨t, mem_sourceIDs_cons.mpr (.inr (.inr ht)), hle⟩

theorem WellNested.exists_ranks (h : WellNested f) (hr : Descends r inh f) :
    ∃ R, Ranks R r f := by
  induction f generalizing inh with
  | nil =>
    refine ⟨fun d => 3 * r d + 2, ?_, ?_, fun _ _ => rfl⟩
    · intro _ _ hab
      cases hab
    · intro _ ha
      cases ha
  | cons s children rest ihc ihr =>
    obtain ⟨Rr, hn⟩ := ihr h.next hr.next
    obtain ⟨Rc, hc⟩ := ihc h.down hr.down
    exact ⟨_, .cons h hr hc hn⟩

end Rank

section Nested

variable {s : Step} {children rest f : Forest Step} {inh : List String}

variable {p : String × List String}

theorem mem_ownNeeds {d : String}
    (hd : d ∈ s.deps ++ inh ++ if (attemptRoot s).isSome then sourceIDs children else []) :
    d ∈ inh ∨ d ∈ s.deps ∨ (attemptRoot s).isSome ∧ d ∈ sourceIDs children := by
  simp only [mem_append] at hd
  split at hd
  · next hroot => simpa [hroot, or_assoc, or_left_comm] using hd
  · exact .imp_right .inl (by simpa [or_comm] using hd)

theorem nestedNeeds_names (hp : p ∈ nestedNeeds inh f) :
    p.1 ∈ sourceIDs f ∧ ∀ d ∈ p.2, d ∈ inh ∨ IsName f d := by
  induction f generalizing inh with
  | nil => cases hp
  | cons s children rest ihc ihr =>
    have hself : ∀ d ∈ s.deps, IsName (.cons s children rest) d :=
      fun d hd => ⟨s, mem_cons_self .., mem_cons_of_mem _ hd⟩
    rw [mem_sourceIDs_cons]
    rcases mem_nestedNeeds_cons.mp hp with rfl | hp | hp
    · refine ⟨.inl rfl, fun d hd => ?_⟩
      rcases mem_ownNeeds hd with hd | hd | ⟨-, hd⟩
      · exact .inl hd
      · exact .inr (hself d hd)
      · exact .inr ((IsName.of_mem hd).mono fun _ => mem_of_children)
    · obtain ⟨hid, hdeps⟩ := ihc hp
      refine ⟨.inr (.inl hid), fun d hd => ?_⟩
      rcases hdeps d hd with hd | hd
      · exact (mem_inherits.mp hd).imp_right fun hd => hself d hd.2
      · exact .inr (hd.mono fun _ => mem_of_children)
    · obtain ⟨hid, hdeps⟩ := ihr hp
      exact ⟨.inr (.inr hid), fun d hd => (hdeps d hd).imp_right (.mono fun _ => mem_of_rest)⟩

/-- A nested dependency that is not inherited from outside is one of the result. -/
theorem WellNested.waits_nested (h : WellNested f)
    (hp : p ∈ nestedNeeds inh f) {d : String} (hd : d ∈ p.2) :
    d ∈ inh ∨ TransGen (Waits f) (finalID f p.1) (finalID f d) := by
  induction f generalizing inh with
  | nil => cases hp
  | cons s children rest ihc ihr =>
    obtain ⟨hsc, _, _⟩ := h.disjoint
    have hin : ∀ t ∈ sourceIDs children,
        finalID (.cons s children rest) t = placed s (finalID children t) := by
      intro t ht
      have hne : t ≠ s.id := fun heq => hsc (heq ▸ ht)
      rw [finalID_cons, if_neg hne, if_pos ht]
    rcases mem_nestedNeeds_cons.mp hp with rfl | hp | hp
    · rcases mem_ownNeeds hd with hd | hd | ⟨hroot, hd⟩
      · exact .inl hd
      · exact .inr (h.waits_declared s (mem_cons_self ..) d hd)
      · obtain ⟨root, hroot⟩ := Option.isSome_iff_exists.mp hroot
        rw [hin d hd, finalID, if_pos rfl]
        refine .inr (h.waits_work (mem_expansions_cons.mpr (.inl ⟨root, hroot, rfl⟩)) _ ?_).1
        exact mem_cons_of_mem _ (mem_map_of_mem (finalID_mem_workIDs hd))
    · obtain ⟨hid, hdeps⟩ := nestedNeeds_names hp
      have hinherit : d ∈ inherits s inh → d ∈ inh ∨ TransGen (Waits (.cons s children rest))
          (finalID (.cons s children rest) p.1) (finalID (.cons s children rest) d) := by
        refine fun hd => (mem_inherits.mp hd).imp_right fun ⟨hroot, hd⟩ => ?_
        obtain ⟨root, hroot⟩ := Option.isSome_iff_exists.mp hroot
        rw [h.finalID_head hd, hin p.1 hid]
        exact .single (waits_cons.mpr (.inr (.inl
          ⟨root, hroot, .inr ⟨_, finalID_mem_workIDs hid, .inr ⟨rfl, hd⟩⟩⟩)))
      rcases hdeps d hd with hmem | hname
      · exact hinherit hmem
      · rcases ihc h.down hp with hmem | hpath
        · exact hinherit hmem
        · rw [h.finalID_down (.of_mem hid), h.finalID_down hname]
          exact .inr (waits_down s rest hpath)
    · obtain ⟨hid, hdeps⟩ := nestedNeeds_names hp
      rcases hdeps d hd with hinh | hname
      · exact .inl hinh
      · refine (ihr h.next hp).imp_right fun hpath => ?_
        rw [h.finalID_next (.of_mem hid), h.finalID_next hname]
        exact waits_next hpath

end Nested

/-- What the transforms preserve of the order of the steps. -/
structure OrderPreserved (f : Forest Step) : Prop where
  /-- Every control waits for every work step generated from its owner. -/
  work : ∀ e ∈ expansions f, ∀ w ∈ e.work, After (applyAttempts f).flatten e.control w
  /-- Every generated work step waits for everything that its owner declared. -/
  declared : ∀ e ∈ expansions f, ∀ w ∈ e.work, ∀ d ∈ e.owner.deps,
    After (applyAttempts f).flatten w (finalID f d)
  /-- Every dependency between steps that are not transformed is there. -/
  kept : ∀ s ∈ f.flatten, ∀ t ∈ f.flatten, attemptRoot s = none → attemptRoot t = none →
    t.id ∈ s.deps → After (applyAttempts f).flatten (finalID f s.id) (finalID f t.id)
  /-- The result has a cycle only if the source has one. -/
  acyclic : Acyclic f.flatten → Acyclic (applyAttempts f).flatten

theorem applyAttempts_preserves_order (f : Forest Step) (h : WellNested f) :
    OrderPreserved f ↔
      (Acyclic f.flatten → Digraph.Acyclic Prod.fst Prod.snd (nestedNeeds [] f)) := by
  have hdesc := described h.retries h.flat h.specs
  have hafter : ∀ {a b}, TransGen (Waits f) a b → After (applyAttempts f).flatten a b :=
    fun hab => hab.lift id fun x y hxy => (hdesc.edges x y).mpr hxy
  constructor
  · intro hpreserved hsource a hcycle
    -- a cycle through the nesting would be one of the result
    apply hpreserved.acyclic hsource (finalID f a)
    refine hcycle.lift (finalID f) fun p hp d hd => hafter ?_
    exact (h.waits_nested hp hd).resolve_left not_mem_nil
  · intro hac
    constructor
    · intro e he w hw
      exact hafter (h.waits_work he w hw).1
    · intro e he w hw d hd
      exact hafter ((h.waits_work he w hw).2 d hd)
    · intro s hs t _ _ _ hst
      exact hafter (h.waits_declared s hs t.id hst)
    · intro hsource
      obtain ⟨r, hr⟩ := (hac hsource).exists_rank
      have hr : Descends r [] f := hr
      obtain ⟨R, hR⟩ := h.exists_ranks hr
      refine Digraph.acyclic_of_rank R fun n hn d hd => ?_
      exact hR.edges _ _ ((hdesc.edges _ _).mp (.of_mem hn hd))

def checkedBuild : Forest Step :=
  .cons { id := "setup" } .nil
  (.cons { id := "loop", needs := ["setup"], ralph := some { maxAttempts := 3 } }
    (.cons { id := "build", retry := some { maxAttempts := 2 } } .nil
    (.cons { id := "verify", needs := ["build"], ralph := some { maxAttempts := 2 } }
      (.ofList [{ id := "lint" }, { id := "test", dependsOn := ["lint"] }]) .nil))
  (.cons { id := "ship", needs := ["loop"] } .nil .nil))

theorem applyAttempts_preserves_order_checked : OrderPreserved checkedBuild := by
  refine (applyAttempts_preserves_order checkedBuild
    ⟨by decide, by decide, by decide, by decide, by decide, by decide, by decide⟩).mpr fun _ => ?_
  exact Digraph.acyclic_of_rank
    (fun id => ["setup", "build", "lint", "test", "verify", "loop", "ship"].idxOf id) (by decide)

def groupedBuild : Forest Step :=
  .cons { id := "setup" } .nil
  (.cons { id := "loop", needs := ["setup"], ralph := some { maxAttempts := 3 } }
    (.cons { id := "docs" } (.ofList [{ id := "write" }]) .nil) .nil)

/-- The grouped step becomes a step of the iteration that neither the control waits for nor that
waits for what the check declared. -/
theorem grouped_not_preserved : Acyclic groupedBuild.flatten ∧ (sourceIDs groupedBuild).Nodup ∧
      "loop.iteration.1.write" ∈ (applyAttempts groupedBuild).flatten.map Step.id ∧
      ¬ After (applyAttempts groupedBuild).flatten "loop" "loop.iteration.1.write" ∧
      ¬ After (applyAttempts groupedBuild).flatten "loop.iteration.1.write" "setup" ∧
      ¬ OrderPreserved groupedBuild := by
  have hcontrol :
      ¬ After (applyAttempts groupedBuild).flatten "loop" "loop.iteration.1.write" := by
    intro hafter
    have hclosed : ∀ n ∈ (applyAttempts groupedBuild).flatten, n.id ≠ "loop.iteration.1.write" →
        ∀ d ∈ n.deps, d ≠ "loop.iteration.1.write" := by
      decide
    exact hafter.mem_of_closed (s := {id | id ≠ "loop.iteration.1.write"}) hclosed (by decide) rfl
  refine ⟨Digraph.acyclic_of_rank (fun id => if id = "loop" then 1 else 0) (by decide), by decide,
    by decide, hcontrol, ?_, ?_⟩
  · intro hafter
    obtain ⟨n, hn, hid, hdeps⟩ := hafter.exists_node
    have hnone : ∀ n ∈ (applyAttempts groupedBuild).flatten,
        n.id = "loop.iteration.1.write" → n.deps = [] := by
      decide
    exact hdeps (hnone n hn hid)
  · intro hpreserved
    exact hcontrol (hpreserved.work
      ⟨{ id := "loop", needs := ["setup"], ralph := some { maxAttempts := 3 } }, "loop",
        ["loop.iteration.1", "loop.iteration.1.docs", "loop.iteration.1.write"]⟩
      (mem_cons_self ..) "loop.iteration.1.write" (by decide))

end GasCity.Formula
