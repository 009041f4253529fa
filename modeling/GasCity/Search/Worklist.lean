import Mathlib.Data.Finset.Card

/-! # Worklist search

A search keeps a stack of nodes and the keys it has seen.  A node with a new key emits its values
and puts its successors on the stack.  The search ends when the reachable keys are finite, and it
emits the values of every node it was started with.
-/

namespace GasCity.Worklist

open List

variable {ν κ β : Type*} [DecidableEq κ] (key : ν → κ) (emit : ν → List β) (next : ν → List ν)

/-- The values of the search; `none` when the fuel does not last. -/
def search : ℕ → List ν → List κ → List β → Option (List β)
  | _, [], _, out => some out
  | 0, _ :: _, _, _ => none
  | fuel + 1, n :: stack, seen, out =>
    if key n ∈ seen then search fuel stack seen out
    else search fuel (next n ++ stack) (key n :: seen) (out ++ emit n)

variable {key emit next} {fuel : ℕ} {stack : List ν} {seen : List κ} {out out' : List β}

/-- The search ends when every node has at most `M` successors and the keys come from a finite
set. -/
theorem search_isSome {U : ν → Prop} {K : Finset κ} {M : ℕ} (hkey : ∀ n, U n → key n ∈ K)
    (hnext : ∀ n, U n → (∀ n' ∈ next n, U n') ∧ (next n).length ≤ M) (hstack : ∀ n ∈ stack, U n)
    (hfuel : stack.length + (K \ seen.toFinset).card * M ≤ fuel) :
    (search key emit next fuel stack seen out).isSome = true := by
  induction fuel generalizing stack seen out with
  | zero =>
    cases stack with
    | nil => rfl
    | cons n stack => simp at hfuel
  | succ fuel ih =>
    cases stack with
    | nil => rfl
    | cons n stack =>
      rw [forall_mem_cons] at hstack
      rw [length_cons] at hfuel
      rw [search]
      split
      · exact ih hstack.2 (by omega)
      · next hnew =>
        obtain ⟨hsuccessors, hlength⟩ := hnext n hstack.1
        apply ih
        · intro n' hn'
          rcases mem_append.mp hn' with hn' | hn'
          · exact hsuccessors n' hn'
          · exact hstack.2 n' hn'
        · have hfresh : key n ∈ K \ seen.toFinset := by
            simp [hkey n hstack.1, hnew]
          have herase : K \ (key n :: seen).toFinset = (K \ seen.toFinset).erase (key n) := by
            rw [toFinset_cons, Finset.sdiff_insert]
          have hcard := Finset.card_erase_of_mem hfresh
          have hpositive := Finset.card_pos.mpr ⟨_, hfresh⟩
          rw [herase, hcard, length_append]
          obtain ⟨c, hc⟩ : ∃ c, (K \ seen.toFinset).card = c + 1 :=
            ⟨_, (Nat.succ_pred_eq_of_pos hpositive).symm⟩
          rw [hc] at hfuel ⊢
          rw [Nat.add_mul, Nat.one_mul] at hfuel
          rw [Nat.add_sub_cancel]
          omega

/-- Nothing emitted is lost. -/
theorem subset_of_search (h : search key emit next fuel stack seen out = some out') :
    out ⊆ out' := by
  induction fuel generalizing stack seen out with
  | zero =>
    cases stack with
    | nil =>
      cases h
      exact Subset.refl _
    | cons n stack => cases h
  | succ fuel ih =>
    cases stack with
    | nil =>
      cases h
      exact Subset.refl _
    | cons n stack =>
      rw [search] at h
      split at h
      · exact ih h
      · exact Subset.trans (subset_append_left _ _) (ih h)

/-- With keys that tell the nodes apart, a search started with a node finds what it emits. -/
theorem emit_subset_of_search {U : ν → Prop} (hkey : ∀ n n', U n → U n' → key n = key n' → n = n')
    (hnext : ∀ n, U n → ∀ n' ∈ next n, U n') (hstack : ∀ n ∈ stack, U n)
    (hseen : ∀ n, U n → key n ∈ seen → emit n ⊆ out)
    (h : search key emit next fuel stack seen out = some out') {n : ν} (hn : n ∈ stack) :
    emit n ⊆ out' := by
  induction fuel generalizing stack seen out with
  | zero =>
    cases stack with
    | nil => cases hn
    | cons _ stack => cases h
  | succ fuel ih =>
    cases stack with
    | nil => cases hn
    | cons m stack =>
      rw [forall_mem_cons] at hstack
      rw [search] at h
      split at h
      · next hold =>
        rcases mem_cons.mp hn with rfl | hn
        · exact Subset.trans (hseen n hstack.1 hold) (subset_of_search h)
        · exact ih hstack.2 hseen h hn
      · next hnew =>
        rcases mem_cons.mp hn with rfl | hn
        · exact Subset.trans (subset_append_right _ _) (subset_of_search h)
        · refine ih ?_ ?_ h (mem_append_right _ hn)
          · intro n' hn'
            rcases mem_append.mp hn' with hn' | hn'
            · exact hnext m hstack.1 n' hn'
            · exact hstack.2 n' hn'
          · intro n' hU hn'
            rcases mem_cons.mp hn' with heq | hn'
            · obtain rfl := hkey _ _ hU hstack.1 heq
              exact subset_append_right _ _
            · exact Subset.trans (hseen n' hU hn') (subset_append_left _ _)

end GasCity.Worklist
