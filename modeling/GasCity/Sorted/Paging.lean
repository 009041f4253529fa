import Mathlib.Data.List.Basic

/-! # Reading a list page by page

A reader asks for pages of bounded length, each from a cursor that stands behind the last
element it has seen.  When the cursors cut the list exactly there, the pages are the list.
-/

namespace GasCity.Paging

open List

variable {α γ : Type*} {page : γ → List α} {resume : γ → α → γ} {done : List α → Bool}
  {n : ℕ}

/-- The pages read until one says that the reading is done. -/
def readPages (page : γ → List α) (resume : γ → α → γ) (done : List α → Bool) :
    ℕ → γ → List (List α)
  | 0, _ => []
  | fuel + 1, c =>
    if done (page c) then [page c]
    else
      match (page c).getLast? with
      | none => [page c]
      | some a => page c :: readPages page resume done fuel (resume c a)

/-- The pages hold each element once and in order, and the reading ends. -/
theorem flatten_readPages (rest : γ → List α) (hpage : ∀ c, page c = (rest c).take n)
    (hresume : ∀ c before a after, rest c = before ++ a :: after → rest (resume c a) = after)
    (hdone : ∀ p, done p = true → p.length < n) (hnil : done [] = true) {fuel : ℕ} {c : γ}
    (hfuel : (rest c).length < fuel) :
    (readPages page resume done fuel c).flatten = rest c ∧
      ∃ p ∈ (readPages page resume done fuel c).getLast?, done p = true := by
  induction fuel generalizing c with
  | zero => omega
  | succ fuel ih =>
    unfold readPages
    split_ifs with hd
    · have hshort := hdone _ hd
      rw [hpage, length_take] at hshort
      refine ⟨?_, _, rfl, hd⟩
      rw [flatten_singleton, hpage, take_of_length_le (by omega)]
    · have hne : page c ≠ [] := fun h => hd (h ▸ hnil)
      obtain ⟨before, a, hlast⟩ : ∃ before a, page c = before ++ [a] :=
        ⟨_, _, (dropLast_append_getLast hne).symm⟩
      have hsplit : rest c = before ++ a :: (rest c).drop n := by
        rw [append_cons, ← hlast, hpage, take_append_drop]
      have hrest := hresume c before a _ hsplit
      have hless : (rest (resume c a)).length < fuel := by
        rw [hsplit, length_append, length_cons] at hfuel
        rw [hrest]
        omega
      obtain ⟨hflat, p, hp, hdp⟩ := ih hless
      simp only [hlast, getLast?_concat]
      constructor
      · rw [flatten_cons, hflat, hrest, append_assoc, singleton_append]
        exact hsplit.symm
      · refine ⟨p, ?_, hdp⟩
        rw [Option.mem_def] at hp ⊢
        rw [getLast?_cons, hp, Option.getD_some]

end GasCity.Paging
