import GasCity.Digraph.Greedy
import GasCity.Formula.Recipe

/-! # The order of a graph recipe

The steps of a graph recipe are sorted so that each comes after the steps that block it.  The
first step of a recipe is its root and the ids of its steps are distinct.
-/

namespace GasCity.Formula

open GasCity.Digraph List

structure RecipeDep where
  stepID : String
  dependsOnID : String
  type : String
  deriving DecidableEq

/-- The blockers still to come of each step, and the steps that have none. -/
structure Sorting where
  inDegree : String → ℕ
  ready : List String

namespace Sorting

def release (s : Sorting) (next : String) : Sorting where
  inDegree := Function.update s.inDegree next (s.inDegree next - 1)
  ready := if s.inDegree next - 1 = 0 then s.ready ++ [next] else s.ready

/-- The id with the least place, the first of these. -/
def best (order : String → ℕ) (id : String) : List String → String
  | [] => id
  | other :: rest => best order (if order other < order id then other else id) rest

def place (order : String → ℕ) (edges : String → List String) :
    ℕ → Sorting → List String → List String
  | 0, _, result => result
  | fuel + 1, s, result =>
    match s.ready with
    | [] => result
    | first :: rest =>
      let id := best order first rest
      place order edges fuel
        ((edges id).foldl release { s with ready := s.ready.erase id }) (result ++ [id])

end Sorting

structure GraphRecipe where
  rootID : String
  steps : List RecipeStep
  deps : List RecipeDep

namespace GraphRecipe

variable (r : GraphRecipe)

def ids : List String := r.steps.map RecipeStep.id

def orderedIDs : List String := r.ids.filter (· ≠ r.rootID)

/-- The blocking dependencies among the steps to sort. -/
def considered : List RecipeDep :=
  r.deps.filter fun d => d.type ≠ "parent-child" ∧ d.stepID ≠ r.rootID ∧
    d.stepID ∈ r.orderedIDs ∧ d.dependsOnID ∈ r.orderedIDs

def blockers (id : String) : List String :=
  (r.considered.filter (·.stepID = id)).map (·.dependsOnID)

def edges (id : String) : List String :=
  (r.considered.filter (·.dependsOnID = id)).map (·.stepID)

def initial : Sorting where
  inDegree id := r.considered.countP (·.stepID = id)
  ready := r.orderedIDs.filter fun id => r.considered.countP (·.stepID = id) = 0

def orderGraphRecipeSteps : Except String (List RecipeStep) :=
  if r.steps.length ≤ 2 then .ok r.steps
  else
    let root := (r.steps.find? (·.id = r.rootID)).or r.steps.head?
    let sorted := Sorting.place r.ids.idxOf r.edges r.steps.length r.initial
      (root.toList.map RecipeStep.id)
    let result := sorted.filterMap fun id => r.steps.find? (·.id = id)
    if result.length ≠ r.steps.length then
      .error ("v2 formula \"" ++ r.rootID ++ "\" contains a dependency cycle")
    else .ok result

end GraphRecipe

section Loop

variable (order : String → ℕ)

theorem best_mem (id : String) (rest : List String) :
    Sorting.best order id rest ∈ id :: rest := by
  induction rest generalizing id with
  | nil => exact mem_singleton_self id
  | cons other rest ih =>
    rcases mem_cons.mp (ih (if order other < order id then other else id)) with h | h
    · rw [Sorting.best, h]
      split_ifs <;> simp
    · exact mem_cons_of_mem _ (mem_cons_of_mem _ h)

theorem best_le (id : String) (rest : List String) :
    ∀ x ∈ id :: rest, order (Sorting.best order id rest) ≤ order x := by
  induction rest generalizing id with
  | nil => simp [Sorting.best]
  | cons other rest ih =>
    have h := ih (if order other < order id then other else id)
    rw [forall_mem_cons] at h
    intro x hx
    rcases mem_cons.mp hx with rfl | hx
    · refine h.1.trans ?_
      split_ifs <;> omega
    · rcases mem_cons.mp hx with rfl | hx
      · refine h.1.trans ?_
        split_ifs <;> omega
      · exact h.2 x hx

theorem foldl_release (nexts : List String) {s : Sorting}
    (hle : ∀ x, nexts.count x ≤ s.inDegree x) (hzero : ∀ x ∈ s.ready, s.inDegree x = 0)
    (hnodup : s.ready.Nodup) :
    (∀ x, (nexts.foldl Sorting.release s).inDegree x = s.inDegree x - nexts.count x) ∧
      (nexts.foldl Sorting.release s).ready.Nodup ∧
      ∀ x, x ∈ (nexts.foldl Sorting.release s).ready ↔
        x ∈ s.ready ∨ 0 < nexts.count x ∧ s.inDegree x = nexts.count x := by
  induction nexts generalizing s with
  | nil => simp [hnodup]
  | cons next nexts ih =>
    have hnext := hle next
    rw [count_cons_self] at hnext
    have hdegree : ∀ x, (s.release next).inDegree x =
        if x = next then s.inDegree next - 1 else s.inDegree x := by
      intro x
      simp [Sorting.release, Function.update_apply]
    have hready : ∀ x, x ∈ (s.release next).ready ↔
        x ∈ s.ready ∨ x = next ∧ s.inDegree next = 1 := by
      intro x
      have : s.inDegree next - 1 = 0 ↔ s.inDegree next = 1 := by omega
      simp only [Sorting.release, this]
      split_ifs with h <;> simp [h]
    have hnew : next ∉ s.ready := by
      intro h
      have := hzero next h
      omega
    have hcount : ∀ x, (next :: nexts).count x =
        nexts.count x + if x = next then 1 else 0 := by
      intro x
      simp only [count_cons, beq_iff_eq, @eq_comm _ next]
    have hle' : ∀ x, nexts.count x ≤ (s.release next).inDegree x := by
      intro x
      have := hle x
      rw [hcount] at this
      rw [hdegree]
      split_ifs at this ⊢ with h
      · subst h
        omega
      · exact this
    have hzero' : ∀ x ∈ (s.release next).ready, (s.release next).inDegree x = 0 := by
      intro x hx
      rw [hdegree]
      rcases (hready x).mp hx with h | ⟨rfl, h⟩
      · rw [if_neg (fun heq : x = next => hnew (heq ▸ h))]
        exact hzero x h
      · rw [if_pos rfl, h]
    have hnodup' : (s.release next).ready.Nodup := by
      simp only [Sorting.release]
      split_ifs
      · exact nodup_append_comm.mp (nodup_cons.mpr ⟨hnew, hnodup⟩)
      · exact hnodup
    obtain ⟨hdeg, hnd, hmem⟩ := ih hle' hzero' hnodup'
    refine ⟨fun x => ?_, hnd, fun x => ?_⟩
    · rw [foldl_cons, hdeg, hdegree, hcount]
      split_ifs with h
      · subst h
        omega
      · rfl
    · rw [foldl_cons, hmem, hready, hdegree, hcount]
      by_cases h : x = next
      · subst h
        simp only [hnew, if_true, true_and, false_or]
        omega
      · simp [h]

end Loop

namespace GraphRecipe

variable {r : GraphRecipe} {s : Sorting} {out : List String} {id x : String}

/-- The dependencies of a step that are not placed. -/
def pending (r : GraphRecipe) (out : List String) (x : String) : ℕ :=
  r.considered.countP fun d => d.stepID = x ∧ d.dependsOnID ∉ out

/-- Between two rounds the ready list and the counts describe what is placed. -/
structure Placing (r : GraphRecipe) (s : Sorting) (out : List String) : Prop where
  earliest : Earliest r.blockers r.ids out
  nodup : s.ready.Nodup
  ready : ∀ x, x ∈ s.ready ↔ x ∈ r.ids ∧ Ready r.blockers out x
  degree : ∀ x, s.inDegree x = r.pending out x

theorem mem_considered {d : RecipeDep} (hd : d ∈ r.considered) :
    d.stepID ∈ r.ids ∧ d.dependsOnID ∈ r.ids := by
  simp only [considered, mem_filter, decide_eq_true_eq] at hd
  exact ⟨mem_of_mem_filter hd.2.2.2.1, mem_of_mem_filter hd.2.2.2.2⟩

theorem pending_eq_zero : r.pending out x = 0 ↔ ∀ d ∈ r.blockers x, d ∈ out := by
  simp only [pending, blockers, countP_eq_zero, mem_map, mem_filter, decide_eq_true_eq]
  constructor
  · rintro h _ ⟨d, ⟨hd, hx⟩, rfl⟩
    by_contra hout
    exact h d hd ⟨hx, hout⟩
  · rintro h d hd ⟨hx, hout⟩
    exact hout (h _ ⟨d, ⟨hd, hx⟩, rfl⟩)

theorem pending_concat (hid : id ∉ out) : r.pending out x =
    r.pending (out ++ [id]) x + (r.edges id).count x := by
  rw [pending, pending, edges, count, countP_map, countP_filter]
  induction r.considered with
  | nil => rfl
  | cons d l ih =>
    simp only [countP_cons, ih, Function.comp_apply, beq_iff_eq, mem_append, mem_singleton,
      decide_eq_true_eq, Bool.and_eq_true]
    by_cases hx : d.stepID = x <;> by_cases hd : d.dependsOnID = id <;>
      by_cases hout : d.dependsOnID ∈ out <;> simp_all <;> omega

/-- A round places the first step that is ready. -/
theorem Placing.pick (h : Placing r s out) {first : String} {rest : List String}
    (hs : s.ready = first :: rest) :
    r.ids.find? (Ready r.blockers out ·) = some (Sorting.best r.ids.idxOf first rest) := by
  have hmem := best_mem r.ids.idxOf first rest
  have hle := best_le r.ids.idxOf first rest
  rw [← hs] at hmem hle
  obtain ⟨hids, hready⟩ := (h.ready _).mp hmem
  exact find?_of_idxOf_le hids (by simpa using hready) fun x hx hxr =>
    hle x ((h.ready x).mpr ⟨hx, by simpa using hxr⟩)

theorem Placing.round (h : Placing r s out) (hid : r.ids.find? (Ready r.blockers out ·) = some id) :
    Placing r ((r.edges id).foldl Sorting.release
      { s with ready := s.ready.erase id }) (out ++ [id]) := by
  obtain ⟨hmem, hready⟩ := ready_of_find hid
  have hsplit : ∀ x, r.pending out x = r.pending (out ++ [id]) x + (r.edges id).count x :=
    fun x => pending_concat hready.1
  have hzero : ∀ {x}, x ∈ s.ready → s.inDegree x = 0 := by
    intro x hx
    rw [h.degree, pending_eq_zero]
    exact ((h.ready x).mp hx).2.2
  obtain ⟨hdeg, hnd, hrdy⟩ := foldl_release (r.edges id)
    (s := { s with ready := s.ready.erase id })
    (fun x => by have := hsplit x; have := h.degree x; dsimp only; omega)
    (fun x hx => hzero (mem_of_mem_erase hx)) (h.nodup.erase id)
  refine ⟨h.earliest.snoc hid, hnd, fun x => ?_, fun x => ?_⟩
  · have hplaced : x ∈ out → r.pending out x = 0 := by
      intro hx
      obtain ⟨before, after, hout⟩ := append_of_mem hx
      rw [pending_eq_zero]
      intro d hd
      rw [hout]
      exact mem_append_left _ ((h.earliest.topological before x after hout).2 d hd)
    have hself := pending_eq_zero.mpr hready.2
    rw [hrdy, h.nodup.mem_erase_iff, h.ready, h.degree, hsplit x, Ready, Ready,
      ← pending_eq_zero, ← pending_eq_zero, mem_append, mem_singleton, not_or]
    constructor
    · rintro (⟨hne, hx, hout, hdone⟩ | ⟨hpos, hdone⟩)
      · exact ⟨hx, ⟨hout, hne⟩, by have := hsplit x; omega⟩
      · refine ⟨?_, ⟨fun hx => ?_, ?_⟩, by omega⟩
        · obtain ⟨d, hd, rfl⟩ := mem_map.mp (count_pos_iff.mp hpos)
          exact (mem_considered (mem_of_mem_filter hd)).1
        · have := hsplit x
          have := hplaced hx
          omega
        · rintro rfl
          have := hsplit x
          omega
    · rintro ⟨hx, ⟨hout, hne⟩, hdone⟩
      rcases Nat.eq_zero_or_pos ((r.edges id).count x) with hc | hc
      · exact .inl ⟨hne, hx, hout, by have := hsplit x; omega⟩
      · exact .inr ⟨hc, by omega⟩
  · rw [hdeg, h.degree]
    have := hsplit x
    omega

/-- The loop places steps until none is ready. -/
theorem Placing.place (h : Placing r s out) (fuel : ℕ) (hfuel : r.ids.length < out.length + fuel) :
    ∃ sorted, Sorting.place r.ids.idxOf r.edges fuel s out = sorted ∧
      Earliest r.blockers r.ids sorted ∧
      r.ids.find? (Ready r.blockers sorted ·) = none := by
  induction fuel generalizing s out with
  | zero =>
    have hlen := (h.earliest.topological.nodup.subperm h.earliest.subset).length_le
    omega
  | succ fuel ih =>
    unfold Sorting.place
    cases hs : s.ready with
    | nil =>
      refine ⟨out, rfl, h.earliest, ?_⟩
      rw [find?_eq_none]
      intro x hx hready
      have : x ∈ s.ready := (h.ready x).mpr ⟨hx, by simpa using hready⟩
      simp [hs] at this
    | cons first rest =>
      have hround := h.round (h.pick hs)
      rw [hs] at hround
      exact ih hround (by simp only [length_append, length_singleton]; omega)

/-- Some step waits for itself. -/
def Cyclic (r : GraphRecipe) : Prop :=
  ∃ id, Relation.TransGen (fun a b => b ∈ r.blockers a) id id

/-- The root comes first, and each other step is the first in the original order of those whose
blockers are placed. -/
structure Ordered (r : GraphRecipe) (out : List RecipeStep) : Prop where
  perm : out.Perm r.steps
  root : out.head? = r.steps.head?
  earliest : Earliest r.blockers r.ids (out.map RecipeStep.id)

/-- An error stands for a cycle, and every other result is ordered. -/
structure OrderedOrCyclic (r : GraphRecipe) : Prop where
  error : (∃ e, r.orderGraphRecipeSteps = .error e) ↔ r.Cyclic
  ok : ∀ out, r.orderGraphRecipeSteps = .ok out → r.Ordered out

/-- The first step is the root and no two steps share an id. -/
structure WellFormed (r : GraphRecipe) : Prop where
  root : r.ids.head? = some r.rootID
  nodup : r.ids.Nodup

theorem cyclic_iff_stuck : r.Cyclic ↔ ∃ id ∈ r.ids, Stuck r.blockers id := by
  constructor
  · rintro ⟨id, hcycle⟩
    obtain ⟨d, hd, -⟩ := Relation.TransGen.head'_iff.mp hcycle
    obtain ⟨e, he, -⟩ := mem_map.mp hd
    simp only [mem_filter, decide_eq_true_eq] at he
    exact ⟨id, he.2 ▸ (mem_considered he.1).1, id, .refl, hcycle⟩
  · rintro ⟨_, -, id, -, hcycle⟩
    exact ⟨id, hcycle⟩

theorem blockers_subset (a : String) : ∀ d ∈ r.blockers a, d ∈ r.ids := by
  intro d hd
  obtain ⟨e, he, rfl⟩ := mem_map.mp hd
  exact (mem_considered (mem_of_mem_filter he)).2

theorem WellFormed.exists_root (h : r.WellFormed) : ∃ root rest,
    r.steps = root :: rest ∧ root.id = r.rootID ∧ r.orderedIDs = rest.map RecipeStep.id := by
  obtain ⟨hroot, hnodup⟩ := h
  rw [orderedIDs]
  rw [ids] at hroot hnodup ⊢
  cases hsteps : r.steps with
  | nil => simp [hsteps] at hroot
  | cons root rest =>
    rw [hsteps, map_cons, head?_cons, Option.some.injEq] at hroot
    rw [hsteps, map_cons, nodup_cons] at hnodup
    refine ⟨root, rest, rfl, hroot, ?_⟩
    rw [map_cons, filter_cons, if_neg (by simpa using hroot), filter_eq_self]
    intro id hid
    have : id ≠ r.rootID := by
      rintro rfl
      exact hnodup.1 (hroot ▸ hid)
    simpa using this

theorem blockers_root : r.blockers r.rootID = [] := by
  simp only [blockers, map_eq_nil_iff, filter_eq_nil_iff, considered, mem_filter,
    decide_eq_true_eq]
  exact fun d hd => hd.2.2.1

theorem WellFormed.find_first (h : r.WellFormed) :
    r.ids.find? (Ready r.blockers [] ·) = some r.rootID := by
  obtain ⟨root, rest, hsteps, hroot, -⟩ := h.exists_root
  rw [ids, hsteps, map_cons, hroot, find?_cons_of_pos]
  simp [Ready, blockers_root]

theorem WellFormed.placing (h : r.WellFormed) : Placing r r.initial [r.rootID] := by
  have hdegree : ∀ x, r.considered.countP (·.stepID = x) = r.pending [r.rootID] x := by
    intro x
    apply countP_congr
    intro d hd
    simp only [considered, orderedIDs, mem_filter, decide_eq_true_eq] at hd
    simp [hd.2.2.2.2.2]
  refine ⟨?_, (h.nodup.filter _).filter _, fun x => ?_, hdegree⟩
  · intro before a after hout
    cases before with
    | nil =>
      cases hout
      exact h.find_first
    | cons b before => simp at hout
  · rw [initial, mem_filter, orderedIDs, mem_filter, Ready, ← pending_eq_zero, ← hdegree x,
      mem_singleton]
    simp only [decide_eq_true_eq]
    tauto

theorem map_id_filterMap {l : List String} (hl : l ⊆ r.ids) :
    (l.filterMap fun id => r.steps.find? (·.id = id)).map RecipeStep.id = l := by
  induction l with
  | nil => rfl
  | cons id l ih =>
    obtain ⟨step, hstep, hid⟩ := mem_map.mp (hl mem_cons_self)
    have hsome : (r.steps.find? (·.id = id)).isSome := find?_isSome.mpr ⟨step, hstep, by simpa⟩
    obtain ⟨found, hfound⟩ := Option.isSome_iff_exists.mp hsome
    have hfid : found.id = id := by simpa using find?_some hfound
    rw [filterMap_cons, hfound, map_cons, hfid, ih fun x hx => hl (mem_cons_of_mem _ hx)]

theorem WellFormed.ordered_of_long (h : r.WellFormed) (hlen : 2 < r.steps.length) :
    r.OrderedOrCyclic := by
  obtain ⟨sorted, hplace, hearliest, hend⟩ :=
    h.placing.place r.steps.length (by simp [ids])
  obtain ⟨root, rest, hsteps, hroot, -⟩ := h.exists_root
  have hfind : r.steps.find? (·.id = r.rootID) = some root := by
    rw [hsteps, find?_cons_of_pos (by simpa using hroot)]
  have hmap := map_id_filterMap hearliest.subset
  have hcount : (sorted.filterMap fun id => r.steps.find? (·.id = id)).length = sorted.length := by
    rw [← length_map RecipeStep.id, hmap]
  have heq : r.orderGraphRecipeSteps = if sorted.length ≠ r.steps.length then
      .error ("v2 formula \"" ++ r.rootID ++ "\" contains a dependency cycle")
      else .ok (sorted.filterMap fun id => r.steps.find? (·.id = id)) := by
    rw [← hcount, ← hplace]
    simp only [orderGraphRecipeSteps, if_neg (not_le.mpr hlen), hfind, Option.some_or,
      Option.toList_some, map_singleton, hroot]
  have hall : sorted.length ≠ r.steps.length ↔ r.Cyclic := by
    have hsub := hearliest.topological.nodup.subperm hearliest.subset
    have hplaced : ∀ id ∈ r.ids, id ∈ sorted ↔ ¬ Stuck r.blockers id := fun id =>
      hearliest.mem_iff hend fun a _ => blockers_subset a
    have hids : r.ids.length = r.steps.length := length_map _
    rw [cyclic_iff_stuck, ← hids]
    constructor
    · intro hne
      by_contra! hfree
      have hle := (h.nodup.subperm fun id hid => (hplaced id hid).mpr (hfree id hid)).length_le
      exact hne (le_antisymm hsub.length_le hle)
    · rintro ⟨id, hid, hstuck⟩ heq
      exact (hplaced id hid).mp ((hsub.perm_of_length_le heq.ge).mem_iff.mpr hid) hstuck
  constructor
  · rw [heq, ← hall]
    split_ifs with h <;> simp [h]
  · intro out hout
    rw [heq] at hout
    split_ifs at hout with hlen'
    cases hout
    refine ⟨?_, ?_, hmap.symm ▸ hearliest⟩
    · have hnodup := hearliest.topological.nodup
      rw [← hmap] at hnodup
      refine (hnodup.of_map.subperm fun step hstep => ?_).perm_of_length_le (by omega)
      obtain ⟨id, -, hid⟩ := mem_filterMap.mp hstep
      exact mem_of_find?_eq_some hid
    · cases sorted with
      | nil => simp at hlen' hlen; omega
      | cons id sorted =>
        have hid := (hearliest [] id sorted rfl).symm.trans h.find_first
        rw [Option.some.injEq] at hid
        rw [filterMap_cons, hid, hfind, head?_cons, hsteps, head?_cons]

theorem WellFormed.ordered_of_short (h : r.WellFormed) (hlen : ¬ 2 < r.steps.length)
    (hself : ∀ d ∈ r.considered, d.stepID ≠ d.dependsOnID) : r.OrderedOrCyclic := by
  obtain ⟨root, rest, hsteps, -, hordered⟩ := h.exists_root
  have hrest : rest.length ≤ 1 := by
    rw [hsteps, length_cons] at hlen
    omega
  have hnone : ∀ id, r.blockers id = [] := by
    intro id
    rw [blockers, map_eq_nil_iff, filter_eq_nil_iff]
    intro d hd
    have hmem := hd
    simp only [considered, mem_filter, decide_eq_true_eq, hordered] at hmem
    -- only one id is left to sort
    match rest, hrest with
    | [], _ => simp at hmem
    | [step], _ =>
      simp only [map_singleton, mem_singleton] at hmem
      exact absurd (hmem.2.2.2.1.trans hmem.2.2.2.2.symm) (hself d hd)
  have hok : r.orderGraphRecipeSteps = .ok r.steps := if_pos (not_lt.mp hlen)
  constructor
  · rw [hok]
    constructor
    · rintro ⟨e, he⟩
      cases he
    · rintro ⟨id, hcycle⟩
      obtain ⟨d, hd, -⟩ := Relation.TransGen.head'_iff.mp hcycle
      simp [hnone] at hd
  · intro out hout
    rw [hok] at hout
    cases hout
    refine ⟨.refl _, rfl, fun before id after hids => ?_⟩
    have hnodup := h.nodup
    rw [ids, hids, nodup_append, nodup_cons] at hnodup
    rw [ids, hids, find?_append, find?_eq_none.mpr fun x hx => by simp [Ready, hx]]
    simp only [Option.none_or]
    apply find?_cons_of_pos
    simpa [Ready, hnone] using fun hid => hnodup.2.2 id hid id mem_cons_self rfl

/-- A recipe of more than two steps is ordered or found cyclic.  A smaller one is returned as it
is, which is right unless its step blocks itself. -/
theorem orderedOrCyclic_iff (h : r.WellFormed) : r.OrderedOrCyclic ↔
    2 < r.steps.length ∨ ∀ d ∈ r.considered, d.stepID ≠ d.dependsOnID := by
  constructor
  · intro hr
    by_contra! hne
    obtain ⟨hlen, d, hd, hself⟩ := hne
    have hcyclic : r.Cyclic := by
      refine ⟨d.stepID, .single (mem_map.mpr ⟨d, mem_filter.mpr ⟨hd, by simp⟩, hself.symm⟩)⟩
    obtain ⟨e, he⟩ := hr.error.mpr hcyclic
    rw [orderGraphRecipeSteps, if_pos hlen] at he
    cases he
  · intro hcond
    by_cases hlen : 2 < r.steps.length
    · exact h.ordered_of_long hlen
    · exact h.ordered_of_short hlen (hcond.resolve_left hlen)

/-- A workflow of one step that needs itself. -/
def selfBlocked : GraphRecipe where
  rootID := "f"
  steps := [{ id := "f" }, { id := "f.a" }]
  deps := [⟨"f.a", "f.a", "blocks"⟩]

/-- The cycle of a recipe of two steps is not found. -/
theorem orderGraphRecipeSteps_selfBlocked :
    selfBlocked.orderGraphRecipeSteps = .ok selfBlocked.steps ∧ selfBlocked.Cyclic :=
  ⟨rfl, "f.a", .single (by decide)⟩

/-- A workflow of two steps in the wrong order. -/
def swapped : GraphRecipe where
  rootID := "f"
  steps := [{ id := "f" }, { id := "f.a" }, { id := "f.b" }]
  deps := [⟨"f.a", "f.b", "blocks"⟩]

theorem orderedOrCyclic_swapped : swapped.OrderedOrCyclic ↔
    2 < swapped.steps.length ∨ ∀ d ∈ swapped.considered, d.stepID ≠ d.dependsOnID :=
  orderedOrCyclic_iff ⟨by decide, by decide⟩

end GraphRecipe

end GasCity.Formula
