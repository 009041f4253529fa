import GasCity.Text.Strings
import Mathlib.Data.List.TakeWhile

/-! # Trimmed texts

Go's `strings.TrimSpace`, and texts without white space around them.
-/

namespace GasCity

open List

/-- Go's `strings.TrimSpace`, for blanks, tabs and line ends. -/
def trimSpace (s : String) : String :=
  .ofList ((s.toList.dropWhile Char.isWhitespace).reverse.dropWhile Char.isWhitespace).reverse

/-- Neither end is white space. -/
def Trimmed (s : String) : Prop :=
  s.toList.head?.any (fun c => !c.isWhitespace) = true ∧
    s.toList.getLast?.any (fun c => !c.isWhitespace) = true

instance (s : String) : Decidable (Trimmed s) :=
  inferInstanceAs (Decidable (_ ∧ _))

variable {p : Char → Bool} {s t : String}

theorem dropWhile_eq_self {l : List Char}
    (h : l.head?.any (fun c => !p c) = true) : l.dropWhile p = l := by
  cases l with
  | nil => rfl
  | cons c l => exact dropWhile_cons_of_neg (by simpa using h)

theorem Trimmed.trimSpace_eq (h : Trimmed s) : trimSpace s = s := by
  rw [trimSpace, dropWhile_eq_self h.1, dropWhile_eq_self, reverse_reverse,
    String.ofList_toList]
  rw [head?_reverse]
  exact h.2

theorem Trimmed.ne_empty (h : Trimmed s) : s ≠ "" := by
  rintro rfl
  exact absurd h.1 (by decide)

theorem Trimmed.join (hs : Trimmed s) (ht : Trimmed t) (x : String) :
    Trimmed (s ++ x ++ t) := by
  have hhead : s.toList ≠ [] := by
    intro h
    have := hs.1
    rw [h] at this
    cases this
  have hlast : t.toList ≠ [] := by
    intro h
    have := ht.2
    rw [h] at this
    cases this
  constructor
  · rw [String.toList_append, String.toList_append, append_assoc,
      head?_append_of_ne_nil _ hhead]
    exact hs.1
  · rw [String.toList_append, getLast?_append_of_ne_nil _ hlast]
    exact ht.2

theorem head_dropWhile (l : List Char) :
    l.dropWhile p = [] ∨ (l.dropWhile p).head?.any (fun c => !p c) = true := by
  induction l with
  | nil => exact .inl rfl
  | cons c l ih =>
    by_cases hc : p c = true
    · rwa [dropWhile_cons_of_pos hc]
    · right
      rw [dropWhile_cons_of_neg hc]
      simpa using hc

theorem trimSpace_cases (s : String) : trimSpace s = "" ∨ Trimmed (trimSpace s) := by
  have hlist : (trimSpace s).toList =
      ((s.toList.dropWhile Char.isWhitespace).reverse.dropWhile Char.isWhitespace).reverse := by
    rw [trimSpace, String.toList_ofList]
  rcases head_dropWhile
    (s.toList.dropWhile Char.isWhitespace).reverse with hnil | hlast
  · left
    rw [trimSpace, hnil]
    rfl
  · right
    refine ⟨?_, ?_⟩
    · obtain ⟨front, hfront⟩ := dropWhile_suffix Char.isWhitespace
      have hsplit :
          s.toList.dropWhile Char.isWhitespace = (trimSpace s).toList ++ front.reverse := by
        rw [hlist, ← reverse_append, hfront, reverse_reverse]
      have hne : (trimSpace s).toList ≠ [] := by
        rw [hlist]
        intro hnil
        rw [reverse_eq_nil_iff.mp hnil] at hlast
        cases hlast
      rcases head_dropWhile s.toList with hnil | hhead
      · rw [hnil] at hsplit
        exact absurd (append_eq_nil_iff.mp hsplit.symm).1 hne
      · rwa [hsplit, head?_append_of_ne_nil _ hne] at hhead
    · rw [hlist, getLast?_reverse]
      exact hlast

theorem whitespace_of_trimSpace (h : trimSpace s = "") :
    ∀ c ∈ s.toList, c.isWhitespace = true := by
  have hnil : (s.toList.dropWhile Char.isWhitespace).reverse.dropWhile Char.isWhitespace = [] := by
    rw [trimSpace, String.ofList_eq_empty_iff] at h
    exact reverse_eq_nil_iff.mp h
  rw [dropWhile_eq_nil_iff] at hnil
  rcases head_dropWhile s.toList with hdrop | hhead
  · exact dropWhile_eq_nil_iff.mp hdrop
  · obtain ⟨c, hc, hblank⟩ := (Option.any_eq_true ..).mp hhead
    have hspace := hnil c (mem_reverse.mpr (mem_of_mem_head? hc))
    simp [hspace] at hblank

theorem trimSpace_append_ne_empty (s : String) (ht : Trimmed t) :
    trimSpace (s ++ t) ≠ "" := by
  intro h
  have hall := whitespace_of_trimSpace h
  obtain ⟨c, hc, hblank⟩ := (Option.any_eq_true ..).mp ht.1
  have hspace := hall c (by
    rw [String.toList_append, mem_append]
    exact .inr (mem_of_mem_head? hc))
  simp [hspace] at hblank

@[simp]
theorem trimSpace_trimSpace (s : String) : trimSpace (trimSpace s) = trimSpace s := by
  rcases trimSpace_cases s with hempty | htrimmed
  · rw [hempty]
    rfl
  · exact htrimmed.trimSpace_eq

end GasCity
