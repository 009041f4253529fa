import GasCity.Beads.Query
import GasCity.Sorted.Paging

/-! # Keyset pages

A client reads a sorted listing page by page and resumes each page after the last row of the
page before.  The pages together are the listing.
-/

namespace GasCity

open List

def seekAfterRow (b : Bead) : SeekBoundary := ⟨b.createdAt, b.id⟩

def ListQuery.seek (q : ListQuery) (sb : Option SeekBoundary) : ListQuery :=
  { q with seekAfter := sb }

def pages (items : List Bead) (fuel : ℕ) (q : ListQuery) : List (List Bead) :=
  Paging.readPages (fun sb => applyListQuery items (q.seek sb))
    (fun _ b => some (seekAfterRow b)) (fun page => page.length < q.limit) fuel q.seekAfter

def listing (items : List Bead) (q : ListQuery) : List Bead :=
  applyListQuery items { q with limit := 0 }

def QueryLE : SortOrder → Bead → Bead → Prop
  | .createdDesc => fun a b => CreatedLE b a
  | _ => CreatedLE

instance : (o : SortOrder) → DecidableRel (QueryLE o)
  | .createdDesc => fun a b => inferInstanceAs (Decidable (CreatedLE b a))
  | .createdAsc => inferInstanceAs (DecidableRel CreatedLE)
  | .default => inferInstanceAs (DecidableRel CreatedLE)

instance (o : SortOrder) : Std.Total (QueryLE o) := by
  cases o <;> unfold QueryLE <;> infer_instance

instance (o : SortOrder) : IsTrans Bead (QueryLE o) := by
  cases o <;> unfold QueryLE <;> infer_instance

variable {items : List Bead} {q : ListQuery} {o : SortOrder} {a b x : Bead} {sb : SeekBoundary}

theorem QueryLE.id_eq (h : QueryLE o a b) (h' : QueryLE o b a) : a.id = b.id := by
  cases o with
  | createdDesc => exact CreatedLE.id_eq h' h
  | createdAsc => exact CreatedLE.id_eq h h'
  | default => exact CreatedLE.id_eq h h'

theorem listing_eq (items : List Bead) (hsort : q.sort ≠ .default) :
    listing items q = (items.filter q.matches).insertionSort (QueryLE q.sort) := by
  change sortBeadsForQuery (items.filter q.matches) q.sort = _
  cases h : q.sort with
  | default => exact absurd h hsort
  | createdAsc => rfl
  | createdDesc => rfl

theorem applyListQuery_eq_take (items : List Bead) (hlimit : 1 ≤ q.limit) :
    applyListQuery items q = (listing items q).take q.limit.toNat := by
  unfold listing applyListQuery applyLimit
  rw [if_pos (by omega : 0 < q.limit), if_neg (by simp)]
  rfl

theorem after_iff (ho : o ≠ .default) : sb.after b o = true ↔
    ¬ QueryLE o b { createdAt := sb.createdAt, id := sb.id } := by
  have hid : ∀ s t : String, s < t ↔ ¬ t ≤ s := fun _ _ => not_le.symm
  cases o with
  | default => exact absurd rfl ho
  | createdAsc =>
    simp only [SeekBoundary.after, QueryLE, CreatedLE, Bool.or_eq_true, Bool.and_eq_true,
      decide_eq_true_eq, beq_iff_eq, Time.lt_def, Time.ext_iff', hid]
    by_cases h : b.id ≤ sb.id <;>
      simp only [h, not_true_eq_false, not_false_eq_true, and_true, and_false, or_false] <;> omega
  | createdDesc =>
    simp only [SeekBoundary.after, QueryLE, CreatedLE, Bool.or_eq_true, Bool.and_eq_true,
      decide_eq_true_eq, beq_iff_eq, Time.lt_def, Time.ext_iff', hid]
    by_cases h : sb.id ≤ b.id <;>
      simp only [h, not_true_eq_false, not_false_eq_true, and_true, and_false, or_false] <;> omega

theorem after_row_iff (ho : o ≠ .default) :
    (seekAfterRow a).after b o = true ↔ ¬ QueryLE o b a := by
  rw [after_iff ho]
  cases o <;> exact Iff.rfl

theorem after_trans (ho : o ≠ .default) (h : sb.after a o = true)
    (h' : (seekAfterRow a).after b o = true) : sb.after b o = true := by
  rw [after_row_iff ho] at h'
  rw [after_iff ho] at h ⊢
  intro hb
  have ha := (Std.Total.total _ _).resolve_left h
  exact h' (IsTrans.trans _ _ _ hb ha)

theorem matches_resume (hsort : q.sort ≠ .default) (hb : q.matches b = true) :
    (q.seek (some (seekAfterRow b))).matches x =
      (q.matches x && (seekAfterRow b).after x q.sort) := by
  have htrans : (seekAfterRow b).after x q.sort = true →
      (q.seekAfter.all fun sb => sb.after x q.sort) = true := by
    intro hx
    cases hq : q.seekAfter with
    | none => rfl
    | some sb =>
      have hsb : sb.after b q.sort = true := by
        simp only [ListQuery.matches, hq, Bool.and_eq_true] at hb
        exact hb.2
      exact after_trans hsort hsb hx
  cases hx : (seekAfterRow b).after x q.sort with
  | false => simp [ListQuery.matches, ListQuery.seek, hx]
  | true =>
    rw [Bool.and_true, ListQuery.matches, ListQuery.matches, htrans hx]
    simp only [ListQuery.seek, Option.all_some, hx, Bool.and_true]
    rfl

theorem separates (hids : (items.map Bead.id).Nodup) :
    Sorted.Separates (QueryLE o) items :=
  fun _ ha _ hb h h' => inj_on_of_nodup_map hids ha hb (h.id_eq h')

theorem listing_resume (hids : (items.map Bead.id).Nodup) (hsort : q.sort ≠ .default)
    {before rest : List Bead} (h : listing items q = before ++ b :: rest) :
    listing items (q.seek (some (seekAfterRow b))) = rest := by
  have hlisting := listing_eq items hsort
  have hperm : (before ++ b :: rest) ~ items.filter q.matches := by
    rw [← h, hlisting]
    exact perm_insertionSort _ _
  have hmem : ∀ a ∈ before ++ b :: rest, a ∈ items := fun a ha =>
    mem_of_mem_filter (hperm.subset ha)
  have hb : q.matches b = true := (mem_filter.mp (hperm.subset (by simp))).2
  have hfilter : items.filter (q.seek (some (seekAfterRow b))).matches =
      (items.filter q.matches).filter fun x => ¬ QueryLE q.sort x b := by
    rw [filter_filter]
    apply filter_congr
    intro x _
    rw [matches_resume hsort hb, Bool.and_comm]
    congr 1
    rw [Bool.eq_iff_iff, after_row_iff hsort, decide_eq_true_eq]
  have hsep := separates (o := q.sort) hids
  rw [listing_eq items (q := q.seek (some (seekAfterRow b))) hsort, hfilter]
  change insertionSort (QueryLE q.sort) _ = rest
  rw [Sorted.insertionSort_filter, ← hlisting, h]
  apply Sorted.filter_behind (hsep.mono hmem)
  · exact hperm.nodup_iff.mpr ((Nodup.of_map _ hids).filter _)
  · rw [← h, hlisting]
    exact pairwise_insertionSort _ _

/-- The pages read until one is short are the whole listing in order, and the reading ends. -/
theorem pages_flatten (hids : (items.map Bead.id).Nodup) (hsort : q.sort ≠ .default)
    (hlimit : 1 ≤ q.limit) {fuel : ℕ} (hfuel : (listing items q).length < fuel) :
    (pages items fuel q).flatten = listing items q ∧
      ∃ page ∈ (pages items fuel q).getLast?, page.length < q.limit := by
  have hread := Paging.flatten_readPages (n := q.limit.toNat) (fun sb => listing items (q.seek sb))
    (fun sb => applyListQuery_eq_take items (q := q.seek sb) hlimit)
    (fun sb _ b _ h => listing_resume hids (q := q.seek sb) hsort h)
    (fun page (h : decide (page.length < q.limit) = true) => by
      rw [decide_eq_true_eq] at h
      omega)
    (by simpa using (by omega : 0 < q.limit)) hfuel
  simp only [decide_eq_true_eq] at hread
  exact hread

def simultaneous : List Bead := [{ id := "b" }, { id := "c" }, { id := "a" }]

theorem pages_flatten_simultaneous :
    (pages simultaneous 4 { limit := 2, sort := .createdDesc }).flatten =
        listing simultaneous { limit := 2, sort := .createdDesc } ∧
      ∃ page ∈ (pages simultaneous 4 { limit := 2, sort := .createdDesc }).getLast?,
        page.length < (2 : ℤ) :=
  pages_flatten (by decide) (by decide) (by decide) (by decide +kernel)

end GasCity
