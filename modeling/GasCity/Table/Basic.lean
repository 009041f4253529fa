import Mathlib.Data.Finset.Basic

/-! # Finite tables

A `Table κ α` is a partial function with finite support.  Lookups compute by
evaluating a function, so closed tables can be compared by `decide`, and the
support is available wherever a program iterates over its keys.
-/

namespace GasCity

/-- A partial function together with its finite set of keys. -/
structure Table (κ α : Type*) where
  get : κ → Option α
  keys : Finset κ
  mem_keys : ∀ k, k ∈ keys ↔ (get k).isSome

namespace Table

variable {κ α β : Type*}

@[ext]
theorem ext {s t : Table κ α} (h : ∀ k, s.get k = t.get k) : s = t := by
  obtain ⟨f, ks, hf⟩ := s
  obtain ⟨g, ls, hg⟩ := t
  obtain rfl : f = g := funext h
  obtain rfl : ks = ls := Finset.ext fun k => (hf k).trans (hg k).symm
  rfl

theorem notMem_keys {t : Table κ α} {k : κ} : k ∉ t.keys ↔ t.get k = none := by
  rw [t.mem_keys, Option.not_isSome_iff_eq_none]

theorem mem_keys_of_get {t : Table κ α} {k : κ} {a : α} (h : t.get k = some a) : k ∈ t.keys := by
  rw [t.mem_keys, h, Option.isSome_some]

instance [DecidableEq κ] [DecidableEq α] : DecidableEq (Table κ α) := fun s t =>
  decidable_of_iff (s.keys = t.keys ∧ ∀ k ∈ s.keys, s.get k = t.get k) <| by
    constructor
    · rintro ⟨hkeys, hget⟩
      ext1 k
      by_cases hk : k ∈ s.keys
      · exact hget k hk
      · rw [notMem_keys.mp hk, notMem_keys.mp (hkeys ▸ hk)]
    · rintro rfl
      exact ⟨rfl, fun _ _ => rfl⟩

/-- The table without keys. -/
def empty : Table κ α where
  get _ := none
  keys := ∅
  mem_keys := by simp

instance : EmptyCollection (Table κ α) := ⟨empty⟩

instance : Inhabited (Table κ α) := ⟨∅⟩

@[simp]
theorem get_empty (k : κ) : (∅ : Table κ α).get k = none := rfl

@[simp]
theorem keys_empty : (∅ : Table κ α).keys = ∅ := rfl

/-- A decidable property can be checked on all entries. -/
instance decidableForall (t : Table κ α) {P : κ → α → Prop} [∀ k a, Decidable (P k a)] :
    Decidable (∀ k a, t.get k = some a → P k a) :=
  decidable_of_iff (∀ k ∈ t.keys, ∀ a ∈ t.get k, P k a)
    ⟨fun h k a ha => h k (mem_keys_of_get ha) a ha, fun h k _ a ha => h k a ha⟩

instance decidableExists (t : Table κ α) {P : κ → α → Prop} [∀ k a, Decidable (P k a)] :
    Decidable (∃ k a, t.get k = some a ∧ P k a) :=
  decidable_of_iff (∃ k ∈ t.keys, ∃ a ∈ t.get k, P k a)
    ⟨fun ⟨k, _, a, ha, h⟩ => ⟨k, a, ha, h⟩, fun ⟨k, a, ha, h⟩ => ⟨k, mem_keys_of_get ha, a, ha, h⟩⟩

/-- The value under a key, or a default for a missing key. -/
def getD (t : Table κ α) (k : κ) (d : α) : α :=
  (t.get k).getD d

variable [DecidableEq κ]

/-- The table with the values of `f` on the keys in `s`. -/
def ofKeys (s : Finset κ) (f : κ → Option α) : Table κ α where
  get k := if k ∈ s then f k else none
  keys := s.filter fun k => (f k).isSome
  mem_keys k := by by_cases hk : k ∈ s <;> simp [hk]

theorem get_ofKeys (s : Finset κ) (f : κ → Option α) (k : κ) :
    (ofKeys s f).get k = if k ∈ s then f k else none := rfl

/-- Set the value under one key. -/
def set (t : Table κ α) (k : κ) (a : α) : Table κ α where
  get k' := if k' = k then some a else t.get k'
  keys := insert k t.keys
  mem_keys k' := by by_cases hk : k' = k <;> simp [hk, t.mem_keys]

@[simp]
theorem get_set_self (t : Table κ α) (k : κ) (a : α) : (t.set k a).get k = some a := by
  simp [set]

theorem get_set (t : Table κ α) (k k' : κ) (a : α) :
    (t.set k a).get k' = if k' = k then some a else t.get k' := rfl

@[simp]
theorem get_set_of_ne (t : Table κ α) {k k' : κ} (a : α) (h : k' ≠ k) :
    (t.set k a).get k' = t.get k' := by
  simp [set, h]

/-- Remove one key. -/
def erase (t : Table κ α) (k : κ) : Table κ α where
  get k' := if k' = k then none else t.get k'
  keys := t.keys.erase k
  mem_keys k' := by by_cases hk : k' = k <;> simp [hk, t.mem_keys]

theorem get_erase (t : Table κ α) (k k' : κ) :
    (t.erase k).get k' = if k' = k then none else t.get k' := rfl

@[simp]
theorem get_erase_self (t : Table κ α) (k : κ) : (t.erase k).get k = none := by
  simp [erase]

@[simp]
theorem get_erase_of_ne (t : Table κ α) {k k' : κ} (h : k' ≠ k) :
    (t.erase k).get k' = t.get k' := by
  simp [erase, h]

theorem get_erase_iff {t : Table κ α} {k k' : κ} {a : α} :
    (t.erase k).get k' = some a ↔ k' ≠ k ∧ t.get k' = some a := by
  by_cases hk : k' = k <;> simp [hk]

theorem exists_get_set {t : Table κ α} {P : α → Prop} {k : κ} {a : α}
    (h : P a ↔ ∃ a', t.get k = some a' ∧ P a') (k' : κ) :
    (∃ a', (t.set k a).get k' = some a' ∧ P a') ↔ ∃ a', t.get k' = some a' ∧ P a' := by
  by_cases hk : k' = k
  · subst hk
    simp [← h]
  · simp [hk]

theorem exists_get_erase {t : Table κ α} {P : α → Prop} {k : κ} (k' : κ) :
    (∃ a, (t.erase k).get k' = some a ∧ P a) ↔ k' ≠ k ∧ ∃ a, t.get k' = some a ∧ P a := by
  simp [get_erase_iff, and_assoc]

theorem forall_set {t : Table κ α} {P : κ → α → Prop} (h : ∀ k a, t.get k = some a → P k a)
    {k : κ} {a : α} (ha : P k a) : ∀ k' a', (t.set k a).get k' = some a' → P k' a' := by
  intro k' a' hget
  by_cases hk : k' = k
  · subst hk
    rw [get_set_self] at hget
    exact Option.some.inj hget ▸ ha
  · rw [get_set_of_ne t a hk] at hget
    exact h k' a' hget

theorem forall_erase {t : Table κ α} {P : κ → α → Prop} (h : ∀ k a, t.get k = some a → P k a)
    (k : κ) : ∀ k' a', (t.erase k).get k' = some a' → P k' a' := by
  intro k' a' hget
  exact h k' a' (get_erase_iff.mp hget).2

/-- Write every entry of `s` over `t`. -/
def merge (t s : Table κ α) : Table κ α where
  get k := (s.get k).or (t.get k)
  keys := s.keys ∪ t.keys
  mem_keys k := by simp [s.mem_keys, t.mem_keys]

@[simp]
theorem get_merge (t s : Table κ α) (k : κ) : (t.merge s).get k = (s.get k).or (t.get k) := rfl

/-- The table of a list of pairs; a later pair overwrites an earlier one. -/
def ofList (l : List (κ × α)) : Table κ α :=
  l.foldl (fun t p => t.set p.1 p.2) ∅

theorem mem_keys_foldl_set {l : List (κ × α)} {t : Table κ α} {k : κ} :
    k ∈ (l.foldl (fun t p => t.set p.1 p.2) t).keys ↔ k ∈ l.map Prod.fst ∨ k ∈ t.keys := by
  induction l generalizing t with
  | nil => simp
  | cons p l ih =>
    rw [List.foldl_cons, ih, List.map_cons, List.mem_cons, set, Finset.mem_insert, or_assoc,
      or_left_comm]

theorem mem_keys_ofList {l : List (κ × α)} {k : κ} :
    k ∈ (ofList l).keys ↔ k ∈ l.map Prod.fst := by
  simp [ofList, mem_keys_foldl_set]

theorem get_foldl_set {l : List (κ × α)} (hl : (l.map Prod.fst).Nodup) (t : Table κ α) (k : κ)
    (a : α) : (l.foldl (fun t p => t.set p.1 p.2) t).get k = some a ↔
      (k, a) ∈ l ∨ t.get k = some a ∧ k ∉ l.map Prod.fst := by
  induction l generalizing t with
  | nil => simp
  | cons p l ih =>
    rw [List.map_cons, List.nodup_cons] at hl
    rw [List.foldl_cons, ih hl.2, get_set]
    by_cases hk : k = p.1
    · subst hk
      have hnot : (p.1, a) ∉ l := fun h =>
        hl.1 (List.mem_map.mpr ⟨(p.1, a), h, rfl⟩)
      rw [if_pos rfl, List.mem_cons, Option.some.injEq]
      constructor
      · rintro (h | ⟨rfl, _⟩)
        · exact absurd h hnot
        · exact .inl (.inl rfl)
      · rintro ((h | h) | ⟨_, h⟩)
        · exact .inr ⟨(congrArg Prod.snd h).symm, hl.1⟩
        · exact absurd h hnot
        · simp at h
    · simp [hk, Prod.ext_iff]

theorem get_ofList {l : List (κ × α)} (hl : (l.map Prod.fst).Nodup) {k : κ} {a : α} :
    (ofList l).get k = some a ↔ (k, a) ∈ l := by
  simp [ofList, get_foldl_set hl]

end Table

end GasCity
