import GasCity.Beads.Query
import GasCity.Digraph.Greedy
import GasCity.Fallible.Basic
import GasCity.Text.Trim
import Mathlib.Data.List.Find

/-! # Order of a batch of closes

The beads of a batch are ordered by their depth under their parents and then so that a blocker
comes before what it blocks.  Whatever the links are, also in cycles, the order is a permutation
of the batch.
-/

namespace GasCity.Workflow

open List

/-- Emit the first bead whose blockers are emitted; when there is none, all that remain.  A bead
without an id is never picked. -/
def emit (blockedBy : String → List String) : ℕ → List String → List String → List String
  | 0, out, remaining => out ++ remaining
  | n + 1, out, remaining =>
    match remaining.find? fun id => id ≠ "" && (blockedBy id).all (· ∈ out) with
    | none => out ++ remaining
    | some id => emit blockedBy n (out ++ [id]) (remaining.erase id)

def blockersOf (ids : List String) (id : String) (deps : List Dep) : List String :=
  (deps.filter fun d =>
    d.issueID == id && d.type == "blocks" && decide (d.dependsOnID ∈ ids) &&
      d.dependsOnID ≠ id).map (·.dependsOnID)

def blockedBy (ids : List String) (listed : List (String × List Dep)) (id : String) :
    List String :=
  match listed.find? fun e => e.1 == id with
  | some e => blockersOf ids id e.2
  | none => []

def listDeps (depList : String → Except Err (List Dep)) :
    List String → Except Err (List (String × List Dep))
  | [] => .ok []
  | id :: ids => do
    let deps ← depList id
    let rest ← listDeps depList ids
    return (id, deps) :: rest

/-- The batch with blockers first, in the given order where it is free. -/
def order (depList : String → Except Err (List Dep)) (ids : List String) :
    Except Err (List String) :=
  if ids.length ≤ 1 then .ok ids
  else do
    let listed ← listDeps depList ids
    return emit (blockedBy ids listed) ids.length [] ids

theorem emit_perm (blockedBy : String → List String) (n : ℕ) (out remaining : List String) :
    (emit blockedBy n out remaining).Perm (out ++ remaining) := by
  induction n generalizing out remaining with
  | zero => exact .refl _
  | succ n ih =>
    unfold emit
    split
    · exact .refl _
    · next id hid =>
      refine (ih (out ++ [id]) (remaining.erase id)).trans ?_
      rw [append_assoc, singleton_append]
      exact (perm_cons_erase (mem_of_find?_eq_some hid)).symm.append_left out

theorem order_perm {depList : String → Except Err (List Dep)} {ids out : List String}
    (h : order depList ids = .ok out) : out.Perm ids := by
  unfold order at h
  split_ifs at h
  · cases h
    exact .refl _
  · obtain ⟨listed, -, h⟩ := bind_eq_ok.mp h
    cases h
    exact emit_perm _ _ [] ids

section Earliest

open GasCity.Digraph

variable {blockedBy : String → List String} {ids out : List String}

end Earliest

/-- The depth of a bead under its parents, with the depths computed so far.  A parent that is
being visited counts as a top. -/
def depthFrom (rows : List Bead) : ℕ → Table String ℕ → List String → String →
    ℕ × Table String ℕ
  | 0, memo, _, _ => (0, memo)
  | n + 1, memo, visiting, id =>
    match memo.get id with
    | some d => (d, memo)
    | none =>
      if id ∈ visiting then (0, memo)
      else
        match rows.find? fun b => b.id == id with
        | none => (0, memo)
        | some bead =>
          let parentID := trimSpace bead.parentID
          if parentID = "" ∨ parentID = id ∨
              (rows.find? fun b => b.id == parentID).isNone = true then
            (0, memo.set id 0)
          else
            let r := depthFrom rows n memo (id :: visiting) parentID
            (r.1 + 1, r.2.set id (r.1 + 1))

/-- The depths of all beads, computed in the order in which the sort asks for them. -/
def depths (rows : List Bead) (asked : List String) : Table String ℕ :=
  asked.foldl (fun memo id => (depthFrom rows (rows.length + 1) memo [] id).2) ∅

def sortByDepth (rows : List Bead) (asked : List String) : List Bead :=
  let depth := fun b : Bead => (depths rows asked).getD b.id 0
  rows.insertionSort fun a b => depth b < depth a ∨ depth a = depth b ∧ a.id ≤ b.id

end GasCity.Workflow
