import GasCity.Nudge.Conservation
import GasCity.Sorted.List

/-! # Isolation of a session generation

A call through a strict scope leaves the items of other generations as they are, and what it does
to its own items does not depend on them.
-/

namespace GasCity.Nudge

open List State

/-- A call with a callback on the queue, which enqueues an item if one is given. -/
def Scope.withState (scope : Scope) (env : Env) (enqueue : Option Item)
    (fn : State → Option State) (q : State) : State × Bool :=
  if enqueue.any fun i => !scope.matches i || (scope.isSome && i.id == "") then (q, false)
  else Nudge.withState env (scope.run (enqueue.map Item.id) fn) q

variable (g : String × String) (env : Env) (enqueue : Option Item) (fn : State → Option State)

/-- The two queues hold the same items in each list. -/
def State.Perm (q q' : State) : Prop :=
  q.pending.Perm q'.pending ∧ q.inFlight.Perm q'.inFlight ∧ q.dead.Perm q'.dead

/-- The items whose ids a call sees: the enqueued one, those of the generation, and those that the
callback leaves. -/
def involved (q : State) : List Item :=
  enqueue.toList ++ (q.selected g).items ++ (fn (sortState (q.selected g))).elim [] items

/-- No foreign item has the id of one of these. -/
def Apart (q : State) (l : List Item) : Prop :=
  ∀ i ∈ l, ∀ j ∈ (q.foreign g).items, j.id ≠ i.id

variable {g enqueue fn} {q q' r : State}

theorem perm_sortState (q : State) : (sortState q).Perm q :=
  ⟨perm_sortItems _ _, perm_sortItems _ _, perm_sortItems _ _⟩

theorem State.Perm.trans (h : q.Perm q') (h' : q'.Perm r) : q.Perm r :=
  ⟨h.1.trans h'.1, h.2.1.trans h'.2.1, h.2.2.trans h'.2.2⟩

theorem State.Perm.items (h : q.Perm q') : q.items.Perm q'.items := (h.1.append h.2.1).append h.2.2

theorem filter_sortState (p : Item → Bool) (q : State) :
    (sortState q).filter p = sortState (q.filter p) := by
  ext1 <;> exact (Sorted.insertionSort_filter p).symm

theorem merged_list {p : Item → Bool} {l l' : List Item} (h : ∀ i ∈ l, p i = false)
    (h' : ∀ i ∈ l', p i = true) :
    (l ++ l').filter p = l' ∧ (l ++ l').filter (fun i => !p i) = l := by
  rw [filter_append, filter_append, filter_eq_nil_iff.mpr, filter_eq_self.mpr h',
    filter_eq_self.mpr, filter_eq_nil_iff.mpr]
  · exact ⟨rfl, append_nil l⟩
  all_goals simpa

/-- Merging and sorting can be undone. -/
theorem merged_parts (h : ∀ i ∈ r.items, Scope.matches (some g) i = true) :
    (sortState ((sortState (q.foreign g)).append r)).selected g = sortState r ∧
      (sortState ((sortState (q.foreign g)).append r)).foreign g =
        sortState (sortState (q.foreign g)) := by
  have hforeign : ∀ (rank : Item → Rank) (l : List Item),
      ∀ i ∈ sortItems rank (l.filter fun i => !Scope.matches (some g) i),
        Scope.matches (some g) i = false := by
    intro rank l i hi
    simpa using of_mem_filter ((perm_sortItems _ _).subset hi)
  simp only [items, mem_append, or_imp, forall_and] at h
  have hpending := merged_list (hforeign pendingRank q.pending) h.1.1
  have hinFlight := merged_list (hforeign inFlightRank q.inFlight) h.1.2
  have hdead := merged_list (hforeign deadRank q.dead) h.2
  constructor <;> apply (filter_sortState _ _).trans <;> congr 1 <;> ext1
  exacts [hpending.1, hinFlight.1, hdead.1, hpending.2, hinFlight.2, hdead.2]

/-- A call whose ids are not foreign depends on its generation only. -/
theorem run_apart (h : Apart g q (involved g enqueue fn q)) :
    Scope.run (some g) (enqueue.map Item.id) fn (sortState q) =
      (fn (sortState (q.selected g))).bind fun result =>
        if result.items.any fun i => !Scope.matches (some g) i then none
        else some (sortState ((sortState (q.foreign g)).append result)) := by
  have hforeign : ∀ i ∈ involved g enqueue fn q,
      (sortState (q.foreign g)).items.any (·.id == i.id) = false := by
    intro i hi
    rw [(perm_sortState _).items.any_eq]
    simpa using h i hi
  simp only [involved, mem_append, or_imp, forall_and] at hforeign
  obtain ⟨⟨henqueue, hselected⟩, hresult⟩ := hforeign
  simp only [Scope.run, filter_sortState]
  rw [if_neg]
  · unfold State.selected
    cases hfn : fn (sortState (q.filter (Scope.matches (some g)))) with
    | none => rfl
    | some result =>
      have hescape : result.items.any (fun i => !Scope.matches (some g) i ||
          (sortState (q.foreign g)).items.any (·.id == i.id)) =
          result.items.any fun i => !Scope.matches (some g) i := by
        rw [Bool.eq_iff_iff, any_eq_true, any_eq_true]
        refine exists_congr fun i => and_congr_right fun hi => ?_
        rw [hresult i (by rw [State.selected, hfn]; exact hi), Bool.or_false]
      exact if_congr (by rw [← hescape]; rfl) rfl rfl
  · rw [Bool.or_eq_true, not_or, Bool.not_eq_true, Bool.not_eq_true, any_eq_false]
    constructor
    · cases enqueue with
      | none => rfl
      | some i => exact henqueue i (by simp)
    · intro i hi
      rw [Bool.not_eq_true]
      exact hselected i ((perm_sortState _).items.subset hi)

/-- What a successful call leaves: its foreign items are those it found, and apart from its own. -/
theorem run_isolates {enqueued : Option String}
    (h : Scope.run (some g) enqueued fn (sortState q) = some q') :
    (q'.foreign g).Perm (q.foreign g) ∧ Apart g q' (q'.selected g).items := by
  obtain ⟨result, -, hinside, hq'⟩ := run_some_cases h
  rw [show (sortState q).foreign g = sortState (q.foreign g) from filter_sortState _ q]
    at hinside hq'
  obtain ⟨hselected, hforeign⟩ := merged_parts fun i hi => (hinside i hi).1
  rw [Apart, hq', hselected, hforeign]
  constructor
  · exact (perm_sortState _).trans (perm_sortState _)
  · intro i hi j hj
    exact (hinside i ((perm_sortState _).items.subset hi)).2 j ((perm_sortState _).items.subset hj)

/-- A call through a strict scope fails and changes nothing, or keeps the foreign items of each
list, none with an id of the generation; and its effect on the generation depends on that only. -/
theorem scope_isolates (g : String × String) (env : Env) (enqueue : Option Item)
    (fn : State → Option State) (q : State) :
    let call := Scope.withState (some g) env enqueue fn
    ((call q).2 = false → (call q).1 = q) ∧
      ((call q).2 = true → ((call q).1.foreign g).Perm (q.foreign g) ∧
        Apart g (call q).1 ((call q).1.selected g).items) ∧
      ∀ q', q'.selected g = q.selected g → Apart g q (involved g enqueue fn q) →
        Apart g q' (involved g enqueue fn q') →
        (call q').2 = (call q).2 ∧ (call q').1.selected g = (call q).1.selected g := by
  intro call
  have hcall : (∀ q, call q = (q, false)) ∨ ∀ q, call q =
      Nudge.withState env (Scope.run (some g) (enqueue.map Item.id) fn) q :=
    (em _).imp (fun h _ => if_pos h) fun h _ => if_neg h
  rcases hcall with hcall | hcall <;> simp only [hcall]
  · simp +contextual
  · refine ⟨withState_false, fun h => run_isolates (withState_true h), ?_⟩
    intro q' hsame hq hq'
    rw [Nudge.withState, Nudge.withState, run_apart hq, run_apart hq', hsame]
    cases fn (sortState (q.selected g)) with
    | none => exact ⟨rfl, hsame⟩
    | some result =>
      rw [Option.bind_some, Option.bind_some]
      by_cases hescape : result.items.any fun i => !Scope.matches (some g) i
      · rw [if_pos hescape, if_pos hescape]
        exact ⟨rfl, hsame⟩
      · have hresult : ∀ i ∈ result.items, Scope.matches (some g) i = true := by
          simpa using hescape
        rw [if_neg hescape, if_neg hescape]
        cases env.writes with
        | false => exact ⟨rfl, hsame⟩
        | true => exact ⟨rfl, (merged_parts hresult).1.trans (merged_parts hresult).1.symm⟩

end GasCity.Nudge
