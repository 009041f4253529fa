import Mathlib.Data.List.Nodup

/-! # Lists indexed by a key

Lookup, in-place change and removal of the first element with a given key, as a
linear scan performs them, how these operations compose, and grouping by the key.
-/

namespace GasCity.Keyed

open List

variable {α κ : Type*} [DecidableEq κ] (key : α → κ)

/-- The first element with key `k`. -/
def lookup (k : κ) (l : List α) : Option α :=
  l.find? fun a => key a = k

/-- Change the first element with key `k`. -/
def modify (k : κ) (f : α → α) : List α → List α
  | [] => []
  | a :: l => if key a = k then f a :: l else a :: modify k f l

/-- Remove the first element with key `k`. -/
def remove (k : κ) (l : List α) : List α :=
  l.eraseP fun a => key a = k

variable {key} {k k' : κ} {l : List α} {a : α} {f : α → α}

theorem lookup_cons (a : α) (l : List α) :
    lookup key k (a :: l) = if key a = k then some a else lookup key k l := by
  by_cases h : key a = k <;> simp [lookup, h]

theorem lookup_append (l l' : List α) :
    lookup key k (l ++ l') = (lookup key k l).or (lookup key k l') :=
  find?_append

theorem key_of_lookup (h : lookup key k l = some a) : key a = k := by
  simpa using find?_some h

theorem mem_of_lookup (h : lookup key k l = some a) : a ∈ l :=
  mem_of_find?_eq_some h

theorem lookup_eq_none : lookup key k l = none ↔ ∀ a ∈ l, key a ≠ k := by
  simp [lookup]

theorem lookup_of_mem (hl : (l.map key).Nodup) (ha : a ∈ l) : lookup key (key a) l = some a := by
  induction l with
  | nil => cases ha
  | cons b l ih =>
    rw [map_cons, nodup_cons] at hl
    rw [lookup_cons]
    rcases mem_cons.mp ha with rfl | ha
    · simp
    · have hne : key b ≠ key a := fun h => hl.1 (h ▸ mem_map_of_mem ha)
      rw [if_neg hne, ih hl.2 ha]

variable (hf : ∀ a, key (f a) = key a)
include hf

theorem lookup_map (l : List α) :
    lookup key k (l.map f) = (lookup key k l).map f := by
  induction l with
  | nil => rfl
  | cons a l ih =>
    rw [map_cons, lookup_cons, lookup_cons, hf, ih]
    split <;> rfl

theorem map_key_modify (l : List α) :
    (modify key k f l).map key = l.map key := by
  induction l with
  | nil => rfl
  | cons a l ih => by_cases h : key a = k <;> simp [modify, h, hf, ih]

theorem lookup_modify_self (l : List α) :
    lookup key k (modify key k f l) = (lookup key k l).map f := by
  induction l with
  | nil => rfl
  | cons a l ih => by_cases h : key a = k <;> simp [modify, lookup_cons, h, hf, ih]

theorem lookup_modify_of_ne (h : k' ≠ k) (l : List α) :
    lookup key k' (modify key k f l) = lookup key k' l := by
  induction l with
  | nil => rfl
  | cons a l ih =>
    by_cases ha : key a = k
    · simp [modify, lookup_cons, ha, hf, h.symm]
    · simp [modify, lookup_cons, ha, ih]

omit hf

theorem lookup_remove_of_ne (h : k' ≠ k) (l : List α) :
    lookup key k' (remove key k l) = lookup key k' l := by
  induction l with
  | nil => rfl
  | cons a l ih =>
    by_cases ha : key a = k
    · simp [remove, lookup_cons, ha, h.symm]
    · simp only [remove] at ih
      simp [remove, lookup_cons, ha, ih]

theorem lookup_remove_self (hl : (l.map key).Nodup) : lookup key k (remove key k l) = none := by
  induction l with
  | nil => rfl
  | cons a l ih =>
    rw [map_cons, nodup_cons] at hl
    by_cases ha : key a = k
    · have hrest : ∀ b ∈ l, key b ≠ k := fun b hb hk =>
        hl.1 (ha ▸ hk ▸ mem_map_of_mem hb)
      simpa [remove, ha] using lookup_eq_none.mpr hrest
    · have := ih hl.2
      simp only [remove] at this
      simp [remove, lookup_cons, ha, this]

theorem remove_sublist (l : List α) : (remove key k l).Sublist l :=
  eraseP_sublist

theorem filter_or_perm {p q : α → Bool} (h : ∀ a ∈ l, p a = true → q a = false) :
    (l.filter fun a => p a || q a).Perm (l.filter p ++ l.filter q) := by
  induction l with
  | nil => exact .nil
  | cons a l ih =>
    rw [forall_mem_cons] at h
    have ih := ih h.2
    cases hp : p a with
    | true =>
      simp only [filter_cons, hp, h.1 hp, Bool.true_or, if_true, Bool.false_eq_true,
        if_false]
      exact ih.cons a
    | false =>
      cases hq : q a with
      | true =>
        simp only [filter_cons, hp, hq, Bool.or_true, if_true, Bool.false_eq_true,
          if_false]
        exact (ih.cons a).trans perm_middle.symm
      | false =>
        simp only [filter_cons, hp, hq, Bool.or_false, Bool.false_eq_true, if_false]
        exact ih

theorem flatMap_filter_perm {ks : List κ} (hks : ks.Nodup) (l : List α) :
    (ks.flatMap fun k => l.filter fun a => key a == k).Perm (l.filter fun a => key a ∈ ks) := by
  induction ks with
  | nil => simp
  | cons k ks ih =>
    rw [nodup_cons] at hks
    have hsplit : (l.filter fun a => key a ∈ k :: ks) =
        l.filter fun a => (key a == k) || decide (key a ∈ ks) := by
      congr 1
      funext a
      by_cases hk : key a = k <;> simp [hk]
    rw [flatMap_cons, hsplit]
    refine (Perm.append_left _ (ih hks.2)).trans (filter_or_perm ?_).symm
    intro a _ hk
    rw [beq_iff_eq] at hk
    simpa [hk] using hks.1

end GasCity.Keyed
