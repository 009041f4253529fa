import Mathlib.Data.Set.Finite.List

/-! # Dependency graphs given by lists

A graph is a list of nodes, each with a key and the keys it waits for.  Waiting
transitively is the transitive closure; a listed key that no node has stands for
nothing and leads nowhere.
-/

namespace GasCity.Digraph

open Relation

variable {ν κ : Type*} {key : ν → κ} {deps : ν → List κ} {l l' : List ν} {a b c : κ}

variable (key deps) in
/-- Some node with key `a` lists `b`. -/
def Needs (l : List ν) (a b : κ) : Prop :=
  ∃ n ∈ l, key n = a ∧ b ∈ deps n

variable (key deps) in
/-- `a` waits for `b` through one or more nodes. -/
def After (l : List ν) : κ → κ → Prop :=
  TransGen (Needs key deps l)

variable (key deps) in
/-- No key waits for itself. -/
def Acyclic (l : List ν) : Prop :=
  ∀ a, ¬ After key deps l a a

theorem After.single (h : Needs key deps l a b) : After key deps l a b :=
  TransGen.single h

theorem After.trans (h : After key deps l a b) (h' : After key deps l b c) :
    After key deps l a c :=
  TransGen.trans h h'

theorem Needs.of_mem {n : ν} (hn : n ∈ l) (hb : b ∈ deps n) : Needs key deps l (key n) b :=
  ⟨n, hn, rfl, hb⟩

@[simp]
theorem needs_nil : Needs key deps [] a b ↔ False := by
  simp [Needs]

@[simp]
theorem needs_cons {n : ν} :
    Needs key deps (n :: l) a b ↔ key n = a ∧ b ∈ deps n ∨ Needs key deps l a b := by
  simp [Needs]

@[simp]
theorem needs_append :
    Needs key deps (l ++ l') a b ↔ Needs key deps l a b ∨ Needs key deps l' a b := by
  simp [Needs, or_and_right, exists_or]

/-- A key that waits for another is the key of a node that lists something. -/
theorem After.exists_node (h : After key deps l a b) : ∃ n ∈ l, key n = a ∧ deps n ≠ [] := by
  obtain ⟨c, ⟨n, hn, hkey, hc⟩, _⟩ := TransGen.head'_iff.mp h
  exact ⟨n, hn, hkey, List.ne_nil_of_mem hc⟩

/-- A map that sends every edge to a path sends every path to a path. -/
theorem After.lift {ν' κ' : Type*} {key' : ν' → κ'} {deps' : ν' → List κ'} {l' : List ν'}
    (f : κ → κ') (hedge : ∀ n ∈ l, ∀ d ∈ deps n, After key' deps' l' (f (key n)) (f d))
    (h : After key deps l a b) : After key' deps' l' (f a) (f b) := by
  have step : ∀ {x y}, Needs key deps l x y → After key' deps' l' (f x) (f y) := by
    rintro x y ⟨n, hn, rfl, hy⟩
    exact hedge n hn y hy
  induction h with
  | single h => exact step h
  | tail _ h ih => exact ih.trans (step h)

theorem After.mono (hsub : ∀ n ∈ l, n ∈ l') (h : After key deps l a b) :
    After key deps l' a b :=
  h.lift id fun _ hn _ hd => .single (.of_mem (hsub _ hn) hd)

theorem after_congr (hmem : ∀ n, n ∈ l ↔ n ∈ l') :
    After key deps l a b ↔ After key deps l' a b :=
  ⟨.mono fun n => (hmem n).mp, .mono fun n => (hmem n).mpr⟩

/-- What is reached from a set that contains all its needs lies in the set. -/
theorem After.mem_of_closed {s : Set κ} (hs : ∀ n ∈ l, key n ∈ s → ∀ d ∈ deps n, d ∈ s)
    (h : After key deps l a b) (ha : a ∈ s) : b ∈ s := by
  have step : ∀ {x y}, Needs key deps l x y → x ∈ s → y ∈ s := by
    rintro x y ⟨n, hn, rfl, hy⟩ hx
    exact hs n hn hx y hy
  induction h with
  | single h => exact step h ha
  | tail _ h ih => exact step h ih

/-- A relation is acyclic when each of its edges follows a path of an acyclic one, or stays at
one point of it and descends. -/
theorem acyclic_of_lex {κ' : Type*} {r : κ → κ → Prop} {s : κ' → κ' → Prop} (f : κ' → κ)
    (rank : κ' → ℕ) (hr : ∀ a, ¬ TransGen r a a)
    (hs : ∀ a b, s a b → TransGen r (f a) (f b) ∨ f a = f b ∧ rank b < rank a) :
    ∀ a, ¬ TransGen s a a := by
  have path : ∀ {a b}, TransGen s a b →
      TransGen r (f a) (f b) ∨ f a = f b ∧ rank b < rank a := by
    intro a b h
    induction h with
    | single h => exact hs _ _ h
    | tail _ h ih =>
      rcases ih with ih | ⟨hf, hlt⟩ <;> rcases hs _ _ h with h | ⟨hf', hlt'⟩
      · exact .inl (ih.trans h)
      · exact .inl (hf' ▸ ih)
      · exact .inl (hf ▸ h)
      · exact .inr ⟨hf.trans hf', hlt'.trans hlt⟩
  intro a h
  rcases path h with h | ⟨_, h⟩
  · exact hr _ h
  · exact lt_irrefl _ h

theorem acyclic_of_rank (rank : κ → ℕ) (h : ∀ n ∈ l, ∀ d ∈ deps n, rank d < rank (key n)) :
    Acyclic key deps l := by
  apply acyclic_of_lex (r := fun _ _ : Unit => False) (fun _ => ()) rank
  · intro _ hpath
    cases hpath with
    | single h => exact h
    | tail _ h => exact h
  · rintro a b ⟨n, hn, rfl, hb⟩
    exact .inr ⟨rfl, h n hn b hb⟩

theorem Acyclic.exists_rank (hac : Acyclic key deps l) :
    ∃ rank : κ → ℕ, ∀ n ∈ l, ∀ d ∈ deps n, rank d < rank (key n) := by
  classical
  -- count the names that a name waits for
  let reached : κ → Finset κ := fun a =>
    (l.flatMap deps).toFinset.filter fun x => After key deps l a x
  refine ⟨fun a => (reached a).card, fun n hn d hd => ?_⟩
  have hedge : After key deps l (key n) d := .single (.of_mem hn hd)
  apply Finset.card_lt_card
  rw [Finset.ssubset_iff_of_subset]
  · refine ⟨d, ?_, ?_⟩
    · simp only [reached, Finset.mem_filter, List.mem_toFinset, List.mem_flatMap]
      exact ⟨⟨n, hn, hd⟩, hedge⟩
    · simp only [reached, Finset.mem_filter, not_and]
      exact fun _ => hac d
  · intro x hx
    simp only [reached, Finset.mem_filter] at hx ⊢
    exact ⟨hx.1, hedge.trans hx.2⟩

/-- A node that nothing waits for closes no cycle. -/
theorem Acyclic.snoc {n : ν} (hac : Acyclic key deps l)
    (hn : ∀ m ∈ l ++ [n], key n ∉ deps m) : Acyclic key deps (l ++ [n]) := by
  -- a path that does not end in the new node can only use it as its start
  have path : ∀ {a b}, After key deps (l ++ [n]) a b → a ≠ key n → After key deps l a b := by
    intro a b h
    induction h using TransGen.head_induction_on with
    | single h =>
      intro ha
      obtain ⟨m, hm, rfl, hb⟩ := h
      rcases List.mem_append.mp hm with hm | hm
      · exact .single (.of_mem hm hb)
      · exact absurd (congrArg key (List.mem_singleton.mp hm)) ha
    | head h _ ih =>
      intro ha
      obtain ⟨m, hm, rfl, hb⟩ := h
      have hne : _ ≠ key n := fun heq => hn m hm (heq ▸ hb)
      rcases List.mem_append.mp hm with hm | hm
      · exact .trans (.single (.of_mem hm hb)) (ih hne)
      · exact absurd (congrArg key (List.mem_singleton.mp hm)) ha
  have target : ∀ {a b}, After key deps (l ++ [n]) a b → b ≠ key n := by
    rintro a b h rfl
    cases h with
    | single h =>
      obtain ⟨m, hm, _, hb⟩ := h
      exact hn m hm hb
    | tail _ h =>
      obtain ⟨m, hm, _, hb⟩ := h
      exact hn m hm hb
  intro a h
  exact hac a (path h (target h))

/-- In an acyclic graph every node is a top or waited for by one, provided that each node which
is no top has a dependent. -/
theorem exists_top_of_acyclic (top : ν → Prop) (hac : Acyclic key deps l)
    (hup : ∀ n ∈ l, ¬ top n → ∃ m ∈ l, key n ∈ deps m) {n : ν} (hn : n ∈ l) :
    ∃ m ∈ l, top m ∧ (m = n ∨ After key deps l (key m) (key n)) := by
  -- the nodes are finite and waiting is a strict order, so climbing to dependents ends
  let above : {m // m ∈ l} → {m // m ∈ l} → Prop := fun m n => After key deps l (key m) (key n)
  have : Finite {m // m ∈ l} := List.finite_toSet l
  have : IsTrans _ above := ⟨fun _ _ _ h h' => h.trans h'⟩
  have : Std.Irrefl above := ⟨fun m h => hac _ h⟩
  have hwf : WellFounded above := Finite.wellFounded_of_trans_of_irrefl above
  suffices H : ∀ x : {m // m ∈ l},
      ∃ m ∈ l, top m ∧ (m = x ∨ After key deps l (key m) (key x)) from H ⟨n, hn⟩
  intro x
  induction x using hwf.induction with
  | h x ih =>
    by_cases hx : top x
    · exact ⟨x, x.2, hx, .inl rfl⟩
    · obtain ⟨m, hm, hmx⟩ := hup x x.2 hx
      have hedge : After key deps l (key m) (key x) := .single (.of_mem hm hmx)
      obtain ⟨t, ht, htop, htm⟩ := ih ⟨m, hm⟩ hedge
      refine ⟨t, ht, htop, .inr ?_⟩
      rcases htm with rfl | htm
      · exact hedge
      · exact htm.trans hedge

end GasCity.Digraph
