import Mathlib.Data.Set.Finite.List
import Mathlib.Order.Preorder.Finite

/-! # The earliest topological order

The elements of a list are placed one by one, each time the first of the list whose
dependencies are placed.  What is never placed is what lies on or behind a cycle, and of all
topological orders of the rest this one comes first.
-/

namespace GasCity.Digraph

open List

variable {α : Type*} {deps : α → List α} {l out s : List α} {a b : α}

/-- `a` is not placed and all it waits for is. -/
def Ready (deps : α → List α) (out : List α) (a : α) : Prop :=
  a ∉ out ∧ ∀ d ∈ deps a, d ∈ out

instance [DecidableEq α] : Decidable (Ready deps out a) := inferInstanceAs (Decidable (_ ∧ _))

/-- No element is repeated and each comes after all it waits for. -/
def Topological (deps : α → List α) (out : List α) : Prop :=
  ∀ before a after, out = before ++ a :: after → Ready deps before a

/-- At each place stands the first element of `l` that is ready there. -/
def Earliest [DecidableEq α] (deps : α → List α) (l out : List α) : Prop :=
  ∀ before a after, out = before ++ a :: after → l.find? (Ready deps before ·) = some a

/-- `a` lies on or behind a cycle. -/
def Stuck (deps : α → List α) (a : α) : Prop :=
  ∃ c, Relation.ReflTransGen (fun a b => b ∈ deps a) a c ∧
    Relation.TransGen (fun a b => b ∈ deps a) c c

/-- Elements that each wait for another of them are on or behind a cycle. -/
theorem stuck_of_forall_exists {s : Set α} (hs : s.Finite)
    (h : ∀ a ∈ s, ∃ d ∈ deps a, d ∈ s) (ha : a ∈ s) : Stuck deps a := by
  choose! next hdep hmem using h
  have hiter : ∀ n, next^[n] a ∈ s := by
    intro n
    induction n with
    | zero => exact ha
    | succ n ih =>
      rw [Function.iterate_succ_apply']
      exact hmem _ ih
  have hstep : ∀ n, Relation.TransGen (fun a b => b ∈ deps a) (next^[n] a) (next^[n + 1] a) := by
    intro n
    rw [Function.iterate_succ_apply']
    exact .single (hdep _ (hiter n))
  obtain ⟨m, n, hlt, heq⟩ := Set.Finite.exists_lt_map_eq_of_forall_mem hiter hs
  refine ⟨next^[m] a, ?_, ?_⟩
  · exact Nat.rel_of_forall_rel_succ_of_le (Relation.ReflTransGen fun a b => b ∈ deps a)
      (fun n => (hstep n).to_reflTransGen) (Nat.zero_le m)
  · have hcycle :=
      Nat.rel_of_forall_rel_succ_of_lt (Relation.TransGen fun a b => b ∈ deps a) hstep hlt
    rwa [← heq] at hcycle

theorem Stuck.exists_dep (h : Stuck deps a) : ∃ d ∈ deps a, Stuck deps d := by
  obtain ⟨c, hreach, hcycle⟩ := h
  rcases hreach.cases_head with rfl | ⟨d, hd, hdc⟩
  · obtain ⟨d, hd, hdc⟩ := Relation.TransGen.head'_iff.mp hcycle
    exact ⟨d, hd, a, hdc, hcycle⟩
  · exact ⟨d, hd, c, hdc, hcycle⟩

theorem forall_place_snoc {P : List α → α → Prop}
    (h : ∀ before b after, out = before ++ b :: after → P before b) (ha : P out a) :
    ∀ before b after, out ++ [a] = before ++ b :: after → P before b := by
  intro before b after hout
  induction after using reverseRecOn with
  | nil =>
    obtain ⟨rfl, hb⟩ := append_inj' hout rfl
    cases hb
    exact ha
  | append_singleton after c _ =>
    rw [← cons_append, ← append_assoc] at hout
    exact h before b after (append_inj' hout rfl).1

theorem Topological.snoc (h : Topological deps out) (ha : Ready deps out a) :
    Topological deps (out ++ [a]) :=
  forall_place_snoc h ha

theorem Topological.nodup (h : Topological deps out) : out.Nodup := by
  induction out using reverseRecOn with
  | nil => exact nodup_nil
  | append_singleton out a ih =>
    rw [nodup_append_comm, singleton_append, nodup_cons]
    constructor
    · exact (h out a [] rfl).1
    · apply ih
      rintro before b after rfl
      exact h before b (after ++ [a]) (by simp)

/-- What a topological order places is neither on nor behind a cycle. -/
theorem Topological.not_stuck (h : Topological deps out) (ha : a ∈ out) : ¬ Stuck deps a := by
  obtain ⟨before, after, hout⟩ := append_of_mem ha
  -- a stuck element waits for a stuck one, which stands further left
  induction hn : before.length using Nat.strong_induction_on generalizing a before after with
  | h n ih =>
    intro hstuck
    obtain ⟨d, hd, hstuck'⟩ := hstuck.exists_dep
    have hmem := (h before a after hout).2 d hd
    obtain ⟨left, right, rfl⟩ := append_of_mem hmem
    rw [append_assoc, cons_append] at hout
    refine ih left.length ?_ ?_ left _ hout rfl hstuck'
    · simp only [← hn, length_append, length_cons]
      omega
    · simp [hout]

variable [DecidableEq α]

theorem find?_of_idxOf_le {p : α → Bool} (ha : a ∈ l) (hp : p a = true)
    (hle : ∀ b ∈ l, p b = true → l.idxOf a ≤ l.idxOf b) : l.find? p = some a := by
  obtain ⟨b, hb⟩ := Option.isSome_iff_exists.mp (find?_isSome.mpr ⟨a, ha, hp⟩)
  obtain ⟨hpb, left, right, rfl, hleft⟩ := find?_eq_some_iff_append.mp hb
  have ha' : a ∉ left := fun h => by simpa [hp] using hleft a h
  have hb' : b ∉ left := fun h => by simpa [hpb] using hleft b h
  have hidx := hle b (by simp) hpb
  rw [idxOf_append_of_notMem ha', idxOf_append_of_notMem hb', idxOf_cons_self]
    at hidx
  by_cases hab : a = b
  · rw [hb, hab]
  · rw [idxOf_cons_ne _ (Ne.symm hab)] at hidx
    omega

theorem ready_of_find (h : l.find? (Ready deps out ·) = some a) : a ∈ l ∧ Ready deps out a :=
  ⟨mem_of_find?_eq_some h, by simpa using find?_some h⟩

variable (h : Earliest deps l out)
include h

theorem Earliest.topological : Topological deps out :=
  fun before a after hout => (ready_of_find (h before a after hout)).2

theorem Earliest.subset : out ⊆ l := by
  intro a ha
  obtain ⟨before, after, hout⟩ := append_of_mem ha
  exact (ready_of_find (h before a after hout)).1

theorem Earliest.snoc (ha : l.find? (Ready deps out ·) = some a) :
    Earliest deps l (out ++ [a]) :=
  forall_place_snoc h ha

/-- Once nothing is ready, the elements left over are those on or behind a cycle. -/
theorem Earliest.mem_iff (hend : l.find? (Ready deps out ·) = none)
    (hdeps : ∀ a ∈ l, ∀ d ∈ deps a, d ∈ l) (ha : a ∈ l) : a ∈ out ↔ ¬ Stuck deps a := by
  constructor
  · exact h.topological.not_stuck
  · contrapose!
    intro hout
    have hfin : {b | b ∈ l ∧ b ∉ out}.Finite := l.finite_toSet.subset fun _ hb => hb.1
    apply stuck_of_forall_exists hfin _ ⟨ha, hout⟩
    rintro b ⟨hb, hbout⟩
    obtain ⟨d, hd, hdout⟩ : ∃ d ∈ deps b, d ∉ out := by
      by_contra! hall
      exact find?_eq_none.mp hend b hb (decide_eq_true ⟨hbout, hall⟩)
    exact ⟨d, hd, hdeps b hb d hd, hdout⟩

end GasCity.Digraph
