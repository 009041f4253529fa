import Mathlib.Logic.Basic

/-! # Fallible computations

When a sequence of computations that may fail succeeds.
-/

namespace GasCity

variable {ε α β : Type}

theorem bind_eq_ok {x : Except ε α} {f : α → Except ε β} {b : β} :
    (x >>= f) = .ok b ↔ ∃ a, x = .ok a ∧ f a = .ok b := by
  cases x with
  | error e =>
    constructor
    · rintro ⟨⟩
    · rintro ⟨a, ⟨⟩, -⟩
  | ok a =>
    constructor
    · intro h
      exact ⟨a, rfl, h⟩
    · rintro ⟨a, ⟨⟩, h⟩
      exact h

theorem map_eq_ok {x : Except ε α} {f : α → β} {b : β} :
    x.map f = .ok b ↔ ∃ a, x = .ok a ∧ f a = b := by
  cases x with
  | error e =>
    constructor
    · rintro ⟨⟩
    · rintro ⟨a, ⟨⟩, -⟩
  | ok a =>
    constructor
    · rintro ⟨⟩
      exact ⟨a, rfl, rfl⟩
    · rintro ⟨a, ⟨⟩, rfl⟩
      rfl

theorem map_ne_error {x : Except ε α} {f : α → β} {e : ε} (h : x ≠ .error e) :
    x.map f ≠ .error e := by
  cases x with
  | error e' =>
    rintro ⟨⟩
    exact h rfl
  | ok a => rintro ⟨⟩

end GasCity
