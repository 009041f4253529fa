import Mathlib.Data.List.Perm.Basic

/-! # Ordered forests

A `Forest α` is an ordered list of trees, written as first child and next
sibling, so that functions on it are structurally recursive and a proof by
induction has one case for the trees of a list and their children.
-/

namespace GasCity

/-- An ordered forest: a first tree with its label and children, and the trees after it. -/
inductive Forest (α : Type*) where
  | nil
  | cons (a : α) (children rest : Forest α)
  deriving DecidableEq

namespace Forest

variable {α β : Type*}

/-- The labels in preorder. -/
def flatten : Forest α → List α
  | nil => []
  | cons a children rest => a :: (children.flatten ++ rest.flatten)

/-- The labels of the roots. -/
def roots : Forest α → List α
  | nil => []
  | cons a _ rest => a :: rest.roots

/-- The trees, each with its root label and children. -/
def trees : Forest α → List (α × Forest α)
  | nil => []
  | cons a children rest => (a, children) :: rest.trees

/-- The forest of a list of trees. -/
def ofTrees : List (α × Forest α) → Forest α
  | [] => nil
  | (a, children) :: l => cons a children (ofTrees l)

/-- The forest of single nodes. -/
def ofList : List α → Forest α
  | [] => nil
  | a :: l => cons a nil (ofList l)

/-- One forest after another. -/
def append : Forest α → Forest α → Forest α
  | nil, g => g
  | cons a children rest, g => cons a children (rest.append g)

instance : Append (Forest α) := ⟨append⟩

/-- Relabel every node. -/
def map (f : α → β) : Forest α → Forest β
  | nil => nil
  | cons a children rest => cons (f a) (children.map f) (rest.map f)

@[simp]
theorem flatten_nil : (nil : Forest α).flatten = [] := rfl

@[simp]
theorem flatten_cons (a : α) (children rest : Forest α) :
    (cons a children rest).flatten = a :: (children.flatten ++ rest.flatten) := rfl

theorem mem_of_children {a b : α} {children rest : Forest α} (h : b ∈ children.flatten) :
    b ∈ (cons a children rest).flatten :=
  List.mem_cons_of_mem _ (List.mem_append_left _ h)

theorem mem_of_rest {a b : α} {children rest : Forest α} (h : b ∈ rest.flatten) :
    b ∈ (cons a children rest).flatten :=
  List.mem_cons_of_mem _ (List.mem_append_right _ h)

@[simp]
theorem nil_append (g : Forest α) : nil ++ g = g := rfl

@[simp]
theorem cons_append (a : α) (children rest g : Forest α) :
    cons a children rest ++ g = cons a children (rest ++ g) := rfl

@[simp]
theorem flatten_append (f g : Forest α) : (f ++ g).flatten = f.flatten ++ g.flatten := by
  induction f with
  | nil => rfl
  | cons a children rest _ ih => simp [ih]

@[simp]
theorem flatten_ofList (l : List α) : (ofList l).flatten = l := by
  induction l with
  | nil => rfl
  | cons a l ih => simp [ofList, ih]

@[simp]
theorem flatten_map (f : α → β) (t : Forest α) : (t.map f).flatten = t.flatten.map f := by
  induction t with
  | nil => rfl
  | cons a children rest ihc ihr => simp [map, ihc, ihr]

@[simp]
theorem roots_ofList (l : List α) : (ofList l).roots = l := by
  induction l with
  | nil => rfl
  | cons a l ih => simp [ofList, roots, ih]

theorem ofList_append (l l' : List α) : ofList (l ++ l') = ofList l ++ ofList l' := by
  induction l with
  | nil => rfl
  | cons a l ih => simp [ofList, ih]

theorem flatten_ofTrees (l : List (α × Forest α)) :
    (ofTrees l).flatten = l.flatMap fun t => t.1 :: t.2.flatten := by
  induction l with
  | nil => rfl
  | cons t l ih => simp [ofTrees, ih]

@[simp]
theorem ofTrees_trees (t : Forest α) : ofTrees t.trees = t := by
  induction t with
  | nil => rfl
  | cons a children rest _ ih => simp [trees, ofTrees, ih]

theorem flatten_perm {l l' : List (α × Forest α)} (h : l.Perm l') :
    (ofTrees l).flatten.Perm (ofTrees l').flatten := by
  rw [flatten_ofTrees, flatten_ofTrees]
  exact h.flatMap_right _

theorem trees_map_fst (t : Forest α) : t.trees.map Prod.fst = t.roots := by
  induction t with
  | nil => rfl
  | cons a children rest _ ih => simp [trees, roots, ih]

theorem roots_sublist (t : Forest α) : t.roots.Sublist t.flatten := by
  induction t with
  | nil => exact .slnil
  | cons a children rest _ ih =>
    exact (ih.trans (List.sublist_append_right _ _)).cons_cons a

end Forest

end GasCity
