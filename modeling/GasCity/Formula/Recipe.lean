import GasCity.Formula.Step

/-! # Recipes

The flat form of a compiled formula: every step under its issue id, and the
blocking dependencies between them.  A reference to an id that no step has is
dropped.
-/

namespace GasCity.Formula

open List

structure RecipeStep where
  id : String := ""
  title : String := ""
  metadata : Metadata := ∅
  deriving DecidableEq

/-- The steps of a recipe and its blocking dependencies, a step before what it depends on. -/
structure Recipe where
  steps : List RecipeStep := []
  deps : List (String × String) := []
  deriving DecidableEq

def issues (parentID : String) : Forest Step → List (String × Step)
  | .nil => []
  | .cons s children rest =>
    (parentID ++ "." ++ s.id, s) ::
      (issues (parentID ++ "." ++ s.id) children ++ issues parentID rest)

def idMapping (table : List (String × Step)) (id : String) : Option String :=
  (table.reverse.find? fun issue => issue.2.id = id).map Prod.fst

def drainMetadata (s : Step) (m : Metadata) : Metadata :=
  if s.drain then m.set .kind Kind.drain else m

def recipeStep (issue : String × Step) : RecipeStep where
  id := issue.1
  title := issue.2.title
  metadata := drainMetadata issue.2 issue.2.metadata

def issueDeps (table : List (String × Step)) (issue : String × Step) : List (String × String) :=
  (issue.2.deps.filterMap (idMapping table)).map fun dep => (issue.1, dep)

def toRecipe (name : String) (steps : Forest Step) : Recipe where
  steps := (issues name steps).map recipeStep
  deps := (issues name steps).flatMap (issueDeps (issues name steps))

theorem issues_map_snd (name : String) (steps : Forest Step) :
    (issues name steps).map Prod.snd = steps.flatten := by
  induction steps generalizing name with
  | nil => rfl
  | cons s children rest ihc ihr => simp [issues, ihc, ihr]

variable {issue : String × Step} {steps : Forest Step}

theorem mem_of_mem_issues {name : String}
    (h : issue ∈ issues name steps) : issue.2 ∈ steps.flatten := by
  rw [← issues_map_snd name]
  exact mem_map_of_mem h

theorem exists_issue (name : String) {s : Step}
    (h : s ∈ steps.flatten) : ∃ id, (id, s) ∈ issues name steps := by
  rw [← issues_map_snd name] at h
  obtain ⟨⟨id, s'⟩, hmem, rfl⟩ := mem_map.mp h
  exact ⟨id, hmem⟩

theorem idMapping_eq_some {name : String}
    (hids : (steps.flatten.map Step.id).Nodup) {id issueID : String} :
    idMapping (issues name steps) id = some issueID ↔
      ∃ s, (issueID, s) ∈ issues name steps ∧ s.id = id := by
  have hnodup : ((issues name steps).map fun issue => issue.2.id).Nodup := by
    rwa [← issues_map_snd name, map_map] at hids
  constructor
  · intro h
    obtain ⟨⟨i, s⟩, hfind, rfl⟩ := Option.map_eq_some_iff.mp h
    exact ⟨s, mem_reverse.mp (mem_of_find?_eq_some hfind),
      by simpa using find?_some hfind⟩
  · rintro ⟨s, hmem, rfl⟩
    have hsome : ((issues name steps).reverse.find? fun issue => issue.2.id = s.id).isSome := by
      rw [find?_isSome]
      exact ⟨(issueID, s), mem_reverse.mpr hmem, by simp⟩
    obtain ⟨found, hfound⟩ := Option.isSome_iff_exists.mp hsome
    have hmem' := mem_reverse.mp (mem_of_find?_eq_some hfound)
    have hid : found.2.id = s.id := by simpa using find?_some hfound
    have heq : found = (issueID, s) := inj_on_of_nodup_map hnodup hmem' hmem hid
    rw [idMapping, hfound, heq]
    rfl

theorem filter_issueDeps (table : List (String × Step)) {l : List (String × Step)}
    (hl : (l.map Prod.fst).Nodup) (h : issue ∈ l) :
    (l.flatMap (issueDeps table)).filter (fun dep => dep.1 = issue.1) = issueDeps table issue := by
  have hother : ∀ {other : String × Step}, other.1 ≠ issue.1 →
      (issueDeps table other).filter (fun dep => dep.1 = issue.1) = [] := by
    intro other hne
    rw [filter_eq_nil_iff]
    intro dep hdep heq
    obtain ⟨_, _, rfl⟩ := mem_map.mp hdep
    exact hne (by simpa using heq)
  have hself : (issueDeps table issue).filter (fun dep => dep.1 = issue.1) =
      issueDeps table issue := by
    rw [filter_eq_self]
    intro dep hdep
    obtain ⟨_, _, rfl⟩ := mem_map.mp hdep
    simp
  induction l with
  | nil => cases h
  | cons other l ih =>
    rw [map_cons, nodup_cons] at hl
    rw [flatMap_cons, filter_append]
    rcases mem_cons.mp h with rfl | hmem
    · have hrest : (l.flatMap (issueDeps table)).filter (fun dep => dep.1 = issue.1) = [] := by
        rw [filter_flatMap, flatMap_eq_nil_iff]
        intro other hother'
        apply hother
        intro heq
        exact hl.1 (heq ▸ mem_map_of_mem hother')
      rw [hself, hrest, append_nil]
    · have hne : other.1 ≠ issue.1 := fun heq => hl.1 (heq ▸ mem_map_of_mem hmem)
      rw [hother hne, nil_append, ih hl.2 hmem]

end GasCity.Formula
