import Mathlib.Data.Finset.Card

/-! # Depth-first walks

A walk visits a key, then what the key leads to, and leaves the key last.  A key already seen is
passed over, so a walk needs no more depth than there are keys left to see.  Listing what a key
leads to may fail, and then the walk fails.
-/

namespace GasCity.Depth

open List

variable {κ ε α β : Type*}

/-- What a walk has seen, and what it has left, in the order of leaving. -/
structure Walk (κ : Type*) where
  seen : List κ
  left : List κ

section

variable [DecidableEq κ] (next : κ → Except ε (List κ))

/-- Visit a key with a bound on the depth.  The error `none` means that the bound was hit. -/
def visit : ℕ → κ → Walk κ → Except (Option ε) (Walk κ)
  | 0, _, _ => .error none
  | fuel + 1, k, w =>
    if k ∈ w.seen then .ok w
    else match next k with
      | .error e => .error (some e)
      | .ok ks =>
        match ks.foldlM (fun w k => visit fuel k w) { w with seen := k :: w.seen } with
        | .error e => .error e
        | .ok w => .ok { w with left := w.left ++ [k] }

/-- One key is listed under the other. -/
def Leads (a b : κ) : Prop :=
  ∃ ks, next a = .ok ks ∧ b ∈ ks

/-- The keys that a key leads to in any number of steps, itself included. -/
abbrev Reaches : κ → κ → Prop :=
  Relation.ReflTransGen (Leads next)

end

variable {P : β → Prop} {f : β → α → Except ε β} {fuel : ℕ} {k : κ} {w w' : Walk κ}

theorem foldlM_ok_invariant {l : List α}
    (step : ∀ a ∈ l, ∀ b b', P b → f b a = .ok b' → P b') {b b' : β}
    (hb : P b) (h : l.foldlM f b = .ok b') : P b' := by
  induction l generalizing b with
  | nil =>
    cases h
    exact hb
  | cons a l ih =>
    rw [foldlM_cons] at h
    cases hf : f b a with
    | error e => simp [hf, bind, Except.bind] at h
    | ok b₁ =>
      simp only [hf, bind, Except.bind] at h
      apply ih (fun a ha => step a (mem_cons_of_mem _ ha)) _ h
      exact step a mem_cons_self b b₁ hb hf

theorem foldlM_ne_error {e : ε} {l : List α} (step : ∀ a ∈ l, ∀ b, P b → f b a ≠ .error e)
    (keep : ∀ a ∈ l, ∀ b b', P b → f b a = .ok b' → P b') {b : β} (hb : P b) :
    l.foldlM f b ≠ .error e := by
  induction l generalizing b with
  | nil => simp [pure, Except.pure]
  | cons a l ih =>
    rw [foldlM_cons]
    have ha : a ∈ a :: l := mem_cons_self
    cases hf : f b a with
    | error e' =>
      have hne := step a ha b hb
      simpa [hf, bind, Except.bind] using hne
    | ok b₁ =>
      exact ih (fun a ha => step a (mem_cons_of_mem _ ha))
        (fun a ha => keep a (mem_cons_of_mem _ ha)) (keep a ha b b₁ hb hf)

variable [DecidableEq κ] {next : κ → Except ε (List κ)}

theorem seen_subset_of_visit (h : visit next fuel k w = .ok w') : w.seen ⊆ w'.seen := by
  induction fuel generalizing k w w' with
  | zero => simp [visit] at h
  | succ fuel ih =>
    rw [visit] at h
    split_ifs at h with hk
    · cases h
      exact Subset.refl _
    · cases hn : next k with
      | error e => simp [hn] at h
      | ok ks =>
        simp only [hn] at h
        split at h
        · cases h
        · next w₁ hw₁ =>
          cases h
          apply foldlM_ok_invariant (P := fun v => w.seen ⊆ v.seen) _ _ hw₁
          · intro a _ v v' hv hf
            exact Subset.trans hv (ih hf)
          · exact subset_cons_self k w.seen

theorem reaches_of_visit (h : visit next fuel k w = .ok w') {x : κ} (hx : x ∈ w'.left) :
    x ∈ w.left ∨ Reaches next k x := by
  induction fuel generalizing k w w' x with
  | zero => simp [visit] at h
  | succ fuel ih =>
    rw [visit] at h
    split_ifs at h with hk
    · cases h
      exact .inl hx
    · cases hn : next k with
      | error e => simp [hn] at h
      | ok ks =>
        simp only [hn] at h
        split at h
        · cases h
        · next w₁ hw₁ =>
          cases h
          have inv := foldlM_ok_invariant
            (P := fun v => ∀ y ∈ v.left, y ∈ w.left ∨ Reaches next k y) ?_ ?_ hw₁
          · rcases mem_append.mp hx with hx | hx
            · exact inv x hx
            · obtain rfl := mem_singleton.mp hx
              exact .inr .refl
          · intro a ha v v' hv hf y hy
            rcases ih hf hy with hy | hy
            · exact hv y hy
            · exact .inr (.head ⟨ks, hn, ha⟩ hy)
          · intro y hy
            exact .inl hy

/-- A walk inside a finite set of keys never hits a bound above the number of keys not yet
seen. -/
theorem visit_ne_bound {K : Finset κ} (closed : ∀ a ∈ K, ∀ b, Leads next a b → b ∈ K) (hk : k ∈ K)
    (hfuel : (K.filter (· ∉ w.seen)).card < fuel) : visit next fuel k w ≠ .error none := by
  induction fuel generalizing k w with
  | zero => omega
  | succ fuel ih =>
    rw [visit]
    split_ifs with hseen
    · simp
    · cases hn : next k with
      | error e => simp
      | ok ks =>
        have fewer : (K.filter (· ∉ k :: w.seen)).card < fuel := by
          have hlt : (K.filter (· ∉ k :: w.seen)).card < (K.filter (· ∉ w.seen)).card := by
            apply Finset.card_lt_card
            refine ⟨fun x hx => ?_, fun hsub => ?_⟩
            · simp only [Finset.mem_filter, mem_cons, not_or] at hx ⊢
              exact ⟨hx.1, hx.2.2⟩
            · have hmem := hsub (Finset.mem_filter.mpr ⟨hk, hseen⟩)
              simp at hmem
          omega
        have inner : ks.foldlM (fun w k => visit next fuel k w)
            { w with seen := k :: w.seen } ≠ .error none := by
          apply foldlM_ne_error (P := fun v => k :: w.seen ⊆ v.seen)
          · intro a ha v hv
            apply ih (closed k hk a ⟨ks, hn, ha⟩)
            refine lt_of_le_of_lt (Finset.card_le_card ?_) fewer
            intro x hx
            simp only [Finset.mem_filter] at hx ⊢
            exact ⟨hx.1, fun hmem => hx.2 (hv hmem)⟩
          · intro a _ v v' hv hf
            exact Subset.trans hv (seen_subset_of_visit hf)
          · exact Subset.refl _
        simp only
        split
        · next e he =>
          intro heq
          cases heq
          exact inner he
        · simp

end GasCity.Depth
