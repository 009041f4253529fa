import Mathlib.Data.List.MinMax

/-! # The first greatest element

`List.argmax` picks the first of the greatest elements: how it behaves on mapped
and on appended lists.
-/

namespace GasCity.Search

open List

variable {α γ β : Type*} [LinearOrder β] {f : α → β} {l l' : List α} {a b x : α}

theorem argmax_map (g : γ → α) (l : List γ) :
    (l.map g).argmax f = (l.argmax (f ∘ g)).map g := by
  induction l using reverseRecOn with
  | nil => rfl
  | append_singleton l c ih =>
    rw [map_append, map_singleton, argmax_concat, argmax_concat, ih]
    cases l.argmax (f ∘ g) with
    | none => rfl
    | some d =>
      simp only [Option.map_some, Function.comp_apply]
      split <;> rfl

theorem argmax_append_left (h : l.argmax f = some a) (hle : ∀ b ∈ l', f b ≤ f a) :
    (l ++ l').argmax f = some a := by
  induction l' using reverseRecOn with
  | nil => rwa [append_nil]
  | append_singleton l' b ih =>
    have hprev := ih fun b hb => hle b (mem_append_left _ hb)
    have hlast := hle b (mem_append_right _ (mem_singleton_self b))
    rw [← append_assoc, argmax_concat, hprev]
    exact if_neg (not_lt.mpr hlast)

theorem argmax_append_right (h : l'.argmax f = some b) (hlt : ∀ a ∈ l, f a < f b) :
    (l ++ l').argmax f = some b := by
  induction l with
  | nil => exact h
  | cons a l ih =>
    have hrest := ih fun a ha => hlt a (mem_cons_of_mem _ ha)
    rw [cons_append, argmax_cons, hrest]
    exact if_pos (hlt a (mem_cons_self ..))

theorem mem_left_of_argmax_append (h : (l ++ l').argmax f = some x) (ha : a ∈ l)
    (hle : f x ≤ f a) : x ∈ l := by
  cases hl : l.argmax f with
  | none =>
    rw [argmax_eq_none.mp hl] at ha
    cases ha
  | some y =>
    have hy : y ∈ l := argmax_mem hl
    have hxy : f x ≤ f y := hle.trans (le_of_mem_argmax ha hl)
    have hpick : (l ++ l').argmax f = some y := by
      refine argmax_append_left hl fun b hb => ?_
      exact (le_of_mem_argmax (mem_append_right _ hb) h).trans hxy
    rw [Option.some.inj (h.symm.trans hpick)]
    exact hy

end GasCity.Search
