import Mathlib.Data.List.Sort
import Mathlib.Data.List.Perm.Lattice

/-! # Sorting and truncating

Sorting with a total preorder that tells the elements of a list apart depends
only on which elements the list holds, and a prefix of the sorted list depends
only on a part of the list that contains it.
-/

namespace GasCity.Sorted

open List

variable {α : Type*} {r : α → α → Prop} {l l' s t u : List α} {n : ℕ}

/-- The order tells the elements of the list apart. -/
def Separates (r : α → α → Prop) (l : List α) : Prop :=
  ∀ a ∈ l, ∀ b ∈ l, r a b → r b a → a = b

theorem Separates.mono (h : Separates r l) (hs : ∀ a ∈ s, a ∈ l) : Separates r s :=
  fun a ha b hb => h a (hs a ha) b (hs b hb)

theorem take_eq_of_sublist (hs : s.Nodup) (ht : t <+ s) (hn : s.take n ⊆ t) :
    t.take n = s.take n := by
  induction ht generalizing n with
  | slnil => rfl
  | cons a ht ih =>
    rw [nodup_cons] at hs
    cases n with
    | zero => rfl
    | succ n => exact absurd (ht.subset (hn (by simp))) hs.1
  | cons_cons a ht ih =>
    rw [nodup_cons] at hs
    cases n with
    | zero => rfl
    | succ n =>
      rw [take_succ_cons, take_succ_cons, ih hs.2]
      intro b hb
      have hmem : b ∈ a :: _ := hn (by simp [hb])
      rcases mem_cons.mp hmem with rfl | hmem
      · exact absurd (mem_of_mem_take hb) hs.1
      · exact hmem

variable [DecidableRel r]

theorem orderedInsert_append {a : α} (l : List α) (h : ∀ b ∈ s, r a b) :
    orderedInsert r a (l ++ s) = orderedInsert r a l ++ s := by
  induction l with
  | nil =>
    cases s with
    | nil => rfl
    | cons b s =>
      rw [nil_append, orderedInsert_cons, if_pos (h b mem_cons_self)]
      rfl
  | cons c l ih =>
    by_cases hac : r a c
    · rw [cons_append, orderedInsert_cons, if_pos hac, orderedInsert_cons, if_pos hac]
      rfl
    · rw [cons_append, orderedInsert_cons, if_neg hac, orderedInsert_cons, if_neg hac, ih,
        cons_append]

theorem insertionSort_append (hs : s.Pairwise r) (h : ∀ a ∈ l, ∀ b ∈ s, r a b) :
    insertionSort r (l ++ s) = insertionSort r l ++ s := by
  induction l with
  | nil => exact hs.insertionSort_eq
  | cons a l ih =>
    rw [forall_mem_cons] at h
    rw [cons_append, insertionSort_cons, ih h.2, orderedInsert_append _ h.1, insertionSort_cons]

variable [Std.Total r] [IsTrans α r]

theorem insertionSort_congr (hr : Separates r l) (h : l ~ l') :
    insertionSort r l = insertionSort r l' := by
  apply @Perm.eq_of_pairwise _ r
  · intro a b ha hb
    have ha := (perm_insertionSort r l).subset ha
    have hb := h.symm.subset ((perm_insertionSort r l').subset hb)
    exact hr a ha b hb
  · exact pairwise_insertionSort r l
  · exact pairwise_insertionSort r l'
  · exact (perm_insertionSort r l).trans (h.trans (perm_insertionSort r l').symm)

theorem sublist_sorted (h : s <+ l) : insertionSort r s <+ insertionSort r l := by
  induction h with
  | slnil => exact .refl _
  | cons a _ ih => exact ih.trans (sublist_orderedInsert ..)
  | cons_cons a _ ih => exact ih.orderedInsert_sublist a (pairwise_insertionSort ..)

/-- The sort is stable. -/
theorem insertionSort_filter (p : α → Bool) :
    insertionSort r (l.filter p) = (insertionSort r l).filter p := by
  have hkept : (insertionSort r (l.filter p)).filter p = insertionSort r (l.filter p) := by
    rw [filter_eq_self]
    intro a ha
    exact of_mem_filter ((mem_insertionSort r).mp ha)
  rw [← hkept]
  apply ((sublist_sorted filter_sublist).filter p).eq_of_length
  rw [hkept, length_insertionSort]
  exact ((perm_insertionSort r l).filter p).length_eq.symm

/-- An element that goes into the first of two merged lists goes into the merged list. -/
theorem merge_orderedInsert (a : α) (s t : List α) :
    merge (orderedInsert r a s) t (fun x y => r x y) =
      orderedInsert r a (merge s t fun x y => r x y) := by
  induction s generalizing t with
  | nil =>
    induction t with
    | nil => simp
    | cons y t ih => by_cases hay : r a y <;> simp_all
  | cons x s ihs =>
    induction t with
    | nil => simp
    | cons y t iht =>
      by_cases hax : r a x
      · by_cases hxy : r x y
        · have hay : r a y := IsTrans.trans _ _ _ hax hxy
          simp [hax, hxy, hay]
        · by_cases hay : r a y <;> simp_all
      · have hxa : r x a := (Std.Total.total x a).resolve_right hax
        by_cases hxy : r x y
        · simp [hax, hxy, ihs]
        · have hay : ¬ r a y := fun hay => hxy (IsTrans.trans _ _ _ hxa hay)
          simp_all

theorem merge_insertionSort (l l' : List α) :
    merge (insertionSort r l) (insertionSort r l') (fun x y => r x y) =
      insertionSort r (l ++ l') := by
  induction l with
  | nil => simp
  | cons a l ih => rw [insertionSort_cons, merge_orderedInsert, ih, cons_append, insertionSort_cons]

theorem insertionSort_sublist [DecidableEq α] (hr : Separates r l) (hl : l.Nodup) (hu : u.Nodup)
    (h : u ⊆ l) : insertionSort r u <+ insertionSort r l := by
  have hperm : u ~ (insertionSort r l).filter (· ∈ u) := by
    rw [perm_ext_iff_of_nodup hu (((perm_insertionSort r l).nodup_iff.mpr hl).filter _)]
    intro a
    simp only [mem_filter, mem_insertionSort, decide_eq_true_eq]
    exact ⟨fun ha => ⟨h ha, ha⟩, And.right⟩
  have hsorted : insertionSort r u = (insertionSort r l).filter (· ∈ u) := by
    rw [insertionSort_congr (hr.mono h) hperm]
    exact (pairwise_insertionSort r l).filter _ |>.insertionSort_eq
  rw [hsorted]
  exact filter_sublist

/-- A part that contains the first `n` elements in order has the same first `n` elements. -/
theorem take_insertionSort [DecidableEq α] (hr : Separates r l) (hl : l.Nodup) (hu : u.Nodup)
    (h : u ⊆ l) (hn : (insertionSort r l).take n ⊆ u) :
    (insertionSort r u).take n = (insertionSort r l).take n := by
  apply take_eq_of_sublist ((perm_insertionSort r l).nodup_iff.mpr hl)
  · exact insertionSort_sublist hr hl hu h
  · intro a ha
    exact (mem_insertionSort r).mpr (hn ha)

omit [IsTrans α r] in
/-- What a sorted list holds behind an element is what follows it. -/
theorem filter_behind {a : α} (hsep : Separates r (s ++ a :: t))
    (hnodup : (s ++ a :: t).Nodup) (hs : (s ++ a :: t).Pairwise r) :
    (s ++ a :: t).filter (fun b => ¬ r b a) = t := by
  rw [pairwise_append, pairwise_cons] at hs
  have hbefore : s.filter (fun b => ¬ r b a) = [] := by
    rw [filter_eq_nil_iff]
    intro b hb
    simpa using hs.2.2 b hb a mem_cons_self
  have hafter : t.filter (fun b => ¬ r b a) = t := by
    rw [filter_eq_self]
    intro b hb
    have hne : a ≠ b := by
      rintro rfl
      exact (nodup_cons.mp hnodup.of_append_right).1 hb
    simpa using fun hba => hne (hsep a (by simp) b (by simp [hb]) (hs.2.1.1 b hb) hba)
  have hrefl : r a a := (Std.Total.total a a).elim id id
  rw [filter_append, hbefore, filter_cons, if_neg (by simpa using hrefl), hafter, nil_append]

end GasCity.Sorted
