import GasCity.Nudge.Queue
import Mathlib.Data.List.Count

/-! # Conservation of nudges

Every enqueued nudge is in exactly one place of the queue until it is acknowledged, or pruned from
the dead items after its shadow was confirmed terminal and its retention passed.
-/

namespace GasCity.Nudge

open List State Option

def countID (id : String) (items : List Item) : ℕ := items.countP (·.id == id)

@[simp] theorem countID_nil (id : String) : countID id [] = 0 := rfl

@[simp] theorem countID_append (id : String) (l l' : List Item) :
    countID id (l ++ l') = countID id l + countID id l' :=
  countP_append

variable {id : String} {l : List Item}

theorem countID_perm {l' : List Item} (h : l.Perm l') :
    countID id l = countID id l' :=
  h.countP_eq _

/-- A change of an item that keeps its id. -/
class KeepsID (f : Item → Item) : Prop where
  id : ∀ i, (f i).id = i.id

theorem countID_map (f : Item → Item) [hf : KeepsID f] (id : String) (l : List Item) :
    countID id (l.map f) = countID id l := by
  unfold countID
  rw [countP_map]
  congr 1
  ext i
  simp [hf.id]

instance (now : ℤ) : KeepsID (expire now) := ⟨fun _ => rfl⟩

instance (now : ℤ) : KeepsID (recover now) := ⟨fun _ => rfl⟩

instance (now : ℤ) : KeepsID (claim now) := ⟨fun _ => rfl⟩

instance : KeepsID release := ⟨fun _ => rfl⟩

instance (now : ℤ) : KeepsID (supersede now) := ⟨fun _ => rfl⟩

instance (reason : String) (now : ℤ) : KeepsID (rollBack reason now) := ⟨fun _ => rfl⟩

theorem countID_split (p : Item → Bool) (id : String) (l : List Item) :
    countID id (l.filter p) + countID id (l.filter fun i => !p i) = countID id l := by
  rw [← countID_append]
  exact countID_perm (filter_append_perm p l)

theorem countID_take_drop (n : ℕ) (id : String) (l : List Item) :
    countID id (l.take n) + countID id (l.drop n) = countID id l := by
  rw [← countID_append, take_append_drop]

theorem countID_eq_zero : countID id l = 0 ↔ ∀ i ∈ l, i.id ≠ id := by
  simp [countID]

theorem exists_of_countID_pos (h : 0 < countID id l) :
    ∃ i ∈ l, i.id = id := by
  obtain ⟨i, hi, hid⟩ := countP_pos_iff.mp h
  exact ⟨i, hi, by simpa using hid⟩

def State.occurs (q : State) (id : String) : ℕ :=
  countID id q.pending + countID id q.inFlight + countID id q.dead

theorem State.occurs_eq_items (q : State) (id : String) : q.occurs id = countID id q.items := by
  simp [occurs, items, Nat.add_assoc]

theorem State.occurs_filter (p : Item → Bool) (q : State) (id : String) :
    (q.filter p).occurs id + (q.filter fun i => !p i).occurs id = q.occurs id := by
  simp only [occurs, filter]
  have h₁ := countID_split p id q.pending
  have h₂ := countID_split p id q.inFlight
  have h₃ := countID_split p id q.dead
  omega

theorem perm_sortItems (r : Item → Rank) (l : List Item) : (sortItems r l).Perm l :=
  perm_insertionSort _ l

@[simp] theorem occurs_sortState (q : State) (id : String) :
    (sortState q).occurs id = q.occurs id := by
  simp [occurs, sortState, countID_perm (perm_sortItems _ _)]

theorem mem_sortState_dead {q : State} {i : Item} : i ∈ (sortState q).dead ↔ i ∈ q.dead :=
  (perm_sortItems _ _).mem_iff

/-- Every list of the queue is in order, as the last operation left it. -/
structure Sorted (q : State) : Prop where
  pending : q.pending.Pairwise fun a b => pendingRank a ≤ pendingRank b
  inFlight : q.inFlight.Pairwise fun a b => inFlightRank a ≤ inFlightRank b
  dead : q.dead.Pairwise fun a b => deadRank a ≤ deadRank b

theorem pairwise_sortItems (r : Item → Rank) (l : List Item) :
    (sortItems r l).Pairwise fun a b => r a ≤ r b := by
  exact pairwise_insertionSort _ l

theorem sorted_sortState (q : State) : Sorted (sortState q) where
  pending := pairwise_sortItems _ _
  inFlight := pairwise_sortItems _ _
  dead := pairwise_sortItems _ _

theorem sortState_of_sorted {q : State} (h : Sorted q) : sortState q = q := by
  ext1
  · exact h.pending.insertionSort_eq
  · exact h.inFlight.insertionSort_eq
  · exact h.dead.insertionSort_eq

theorem Sorted.sublist {q q' : State} (h : Sorted q) (hp : q'.pending.Sublist q.pending)
    (hf : q'.inFlight.Sublist q.inFlight) (hd : q'.dead.Sublist q.dead) : Sorted q' where
  pending := h.pending.sublist hp
  inFlight := h.inFlight.sublist hf
  dead := h.dead.sublist hd

section Maintenance

variable (env : Env)

theorem occurs_recoverExpiredInFlightNudges (q : State) (id : String) :
    (recoverExpiredInFlightNudges env q).occurs id = q.occurs id := by
  unfold recoverExpiredInFlightNudges
  rw [occurs_sortState]
  simp only [occurs, countID_append, countID_map]
  have hall := countID_take_drop env.recoverBudget id q.inFlight
  have hexp := countID_split (isExpired env.now) id (q.inFlight.take env.recoverBudget)
  have hlease := countID_split (leaseOver env.now) id
    ((q.inFlight.take env.recoverBudget).filter fun i => !isExpired env.now i)
  omega

theorem occurs_pruneExpiredQueuedNudges (q : State) (id : String) :
    (pruneExpiredQueuedNudges env q).occurs id = q.occurs id := by
  unfold pruneExpiredQueuedNudges
  rw [occurs_sortState]
  simp only [occurs, countID_append, countID_map]
  have hall := countID_take_drop env.expireBudget id q.pending
  have hexp := countID_split (isExpired env.now) id (q.pending.take env.expireBudget)
  omega

def Pruned (q : State) (id : String) : Prop :=
  ∃ i ∈ q.dead, i.id = id ∧ prunable env i = true

theorem not_prunable_of_deadAt {i : Item} (h : i.deadAt = env.now) : prunable env i = false := by
  simp only [prunable, h, Bool.and_eq_false_iff, decide_eq_false_iff_not]
  right
  simp only [defaultQueuedNudgeDeadRetention, second]
  omega

/-- The passes before the pruning add only items that die now, which are not prunable. -/
theorem mem_dead_of_prunable {q : State} {i : Item}
    (h : i ∈ (pruneExpiredQueuedNudges env (recoverExpiredInFlightNudges env q)).dead)
    (hp : prunable env i = true) : i ∈ q.dead := by
  have fresh : ∀ l : List Item, i ∉ l.map (expire env.now) := by
    intro l hmem
    obtain ⟨j, _, rfl⟩ := mem_map.mp hmem
    rw [not_prunable_of_deadAt env rfl] at hp
    exact absurd hp (by decide)
  rcases mem_append.mp (mem_sortState_dead.mp h) with h | h
  · rcases mem_append.mp (mem_sortState_dead.mp h) with h | h
    · exact h
    · exact absurd h (fresh _)
  · exact absurd h (fresh _)

theorem countID_pruned (q : State) (id : String) :
    q.occurs id = (pruneDeadQueuedNudges env q).occurs id +
      countID id ((q.dead.take env.pruneBudget).filter (prunable env)) := by
  simp only [occurs, pruneDeadQueuedNudges, countID_append]
  have hall := countID_take_drop env.pruneBudget id q.dead
  have hp := countID_split (prunable env) id (q.dead.take env.pruneBudget)
  omega

theorem occurs_maintain_le (q : State) (id : String) :
    (maintain env q).occurs id ≤ q.occurs id := by
  have h := countID_pruned env
    (pruneExpiredQueuedNudges env (recoverExpiredInFlightNudges env q)) id
  rw [occurs_pruneExpiredQueuedNudges, occurs_recoverExpiredInFlightNudges] at h
  unfold maintain
  omega

theorem pruned_of_occurs_maintain_lt {q : State} {id : String}
    (h : (maintain env q).occurs id < q.occurs id) : Pruned env q id := by
  have hsum := countID_pruned env
    (pruneExpiredQueuedNudges env (recoverExpiredInFlightNudges env q)) id
  rw [occurs_pruneExpiredQueuedNudges, occurs_recoverExpiredInFlightNudges] at hsum
  unfold maintain at h
  have hpos : 0 < countID id (((pruneExpiredQueuedNudges env
      (recoverExpiredInFlightNudges env q)).dead.take env.pruneBudget).filter (prunable env)) := by
    omega
  obtain ⟨i, hi, hid⟩ := exists_of_countID_pos hpos
  obtain ⟨hi, hp⟩ := mem_filter.mp hi
  exact ⟨i, mem_dead_of_prunable env (mem_of_mem_take hi) hp, hid, hp⟩

theorem sorted_maintain (q : State) : Sorted (maintain env q) := by
  apply (sorted_sortState _).sublist
  · exact List.Sublist.refl _
  · exact List.Sublist.refl _
  · conv_rhs => rw [← take_append_drop env.pruneBudget (sortState _).dead]
    exact filter_sublist.append (List.Sublist.refl _)

end Maintenance

/-- What an operation may do to a queue: lose acknowledged and pruned ids, and add a new one. -/
structure Effect (env : Env) (acks : List String) (new : Option String) (q q' : State) : Prop where
  lost : ∀ id, q'.occurs id < q.occurs id → id ∈ acks ∨ Pruned env q id
  gained : ∀ id, q.occurs id < q'.occurs id → new = some id ∧ q'.occurs id = 1
  present : ∀ id, new = some id → 0 < q'.occurs id
  sorted : Sorted q'

section Operations

variable {env : Env} {q q' : State}

theorem Effect.of_moves (h : ∀ id, q'.occurs id = (maintain env q).occurs id) (hs : Sorted q') :
    Effect env [] none q q' where
  lost := by
    intro id hlt
    rw [h] at hlt
    exact .inr (pruned_of_occurs_maintain_lt env hlt)
  gained := by
    intro id hlt
    have hle := occurs_maintain_le env q id
    rw [h] at hlt
    omega
  present := by
    intro id hnew
    cases hnew
  sorted := hs

theorem effect_claim {wanted : Item → Bool}
    (h : claimDueQueuedNudgesMatching env wanted q = some q') : Effect env [] none q q' := by
  cases h
  apply Effect.of_moves _ (sorted_sortState _)
  intro id
  rw [occurs_sortState]
  simp only [occurs, countID_append, countID_map]
  have hsplit := countID_split (claimable env.now wanted) id (maintain env q).pending
  omega

theorem countID_not_mem (ids : List String) (id : String) (l : List Item) :
    countID id (l.filter (·.id ∈ ids)) + countID id (l.filter (·.id ∉ ids)) = countID id l := by
  have h := countID_split (fun i => decide (i.id ∈ ids)) id l
  simpa using h

variable {id reason : String} {ids : List String}

theorem effect_release (h : releaseQueuedNudgeClaims env ids q = some q') :
    Effect env [] none q q' := by
  cases h
  apply Effect.of_moves _ (sorted_sortState _)
  intro id
  rw [occurs_sortState]
  simp only [occurs, countID_append, countID_map]
  have hsplit := countID_not_mem ids id (maintain env q).inFlight
  omega

instance (cause : Cause) (now : ℤ) : KeepsID fun i => (failedQueuedNudge i cause now).1 where
  id i := by
    simp only [failedQueuedNudge]
    split_ifs <;> rfl

theorem countID_failed (cause : Cause) (now : ℤ) (id : String) (l : List Item) :
    countID id (((l.map (failedQueuedNudge · cause now)).filter fun r => !r.2).map (·.1)) +
      countID id (((l.map (failedQueuedNudge · cause now)).filter (·.2)).map (·.1)) =
      countID id l := by
  have hperm := (filter_append_perm (fun r : Item × Bool => r.2)
    (l.map (failedQueuedNudge · cause now))).map (·.1)
  have hcount : countID id _ = countID id _ := countID_perm hperm
  rw [map_append, countID_append, List.map_map] at hcount
  rw [Nat.add_comm, hcount]
  exact countID_map (fun i => (failedQueuedNudge i cause now).1) id l

theorem effect_fail {cause : Cause}
    (h : recordQueuedNudgeFailure env ids cause q = some q') : Effect env [] none q q' := by
  cases h
  apply Effect.of_moves _ (sorted_sortState _)
  intro id
  rw [occurs_sortState]
  simp only [occurs, countID_append]
  have hfailed := countID_failed cause env.now id
    ((maintain env q).pending.filter (·.id ∈ ids) ++ (maintain env q).inFlight.filter (·.id ∈ ids))
  rw [countID_append] at hfailed
  have hp := countID_not_mem ids id (maintain env q).pending
  have hf := countID_not_mem ids id (maintain env q).inFlight
  omega

theorem effect_ack {outcome commitBoundary : String}
    (h : ackQueuedNudgesWithOutcome env ids outcome reason commitBoundary q = some q') :
    Effect env ids none q q' := by
  obtain ⟨_, ⟨⟩⟩ := ite_none_right_eq_some.mp h
  have sum : ∀ id, (maintain env q).occurs id =
      occurs ⟨(maintain env q).pending.filter (·.id ∉ ids),
        (maintain env q).inFlight.filter (·.id ∉ ids), (maintain env q).dead⟩ id +
      (countID id ((maintain env q).pending.filter (·.id ∈ ids)) +
        countID id ((maintain env q).inFlight.filter (·.id ∈ ids))) := by
    intro id
    simp only [occurs]
    have hp := countID_not_mem ids id (maintain env q).pending
    have hf := countID_not_mem ids id (maintain env q).inFlight
    omega
  have acked : ∀ (id : String) (l : List Item), 0 < countID id (l.filter (·.id ∈ ids)) →
      id ∈ ids := by
    intro id l hpos
    obtain ⟨i, hi, rfl⟩ := exists_of_countID_pos hpos
    simpa using (mem_filter.mp hi).2
  refine ⟨?_, ?_, ?_, ?_⟩
  · intro id hlt
    by_cases hm : (maintain env q).occurs id < q.occurs id
    · exact .inr (pruned_of_occurs_maintain_lt env hm)
    · left
      have hsum := sum id
      by_cases hp : 0 < countID id ((maintain env q).pending.filter (·.id ∈ ids))
      · exact acked id _ hp
      · apply acked id (maintain env q).inFlight
        omega
  · intro id hlt
    have hle := occurs_maintain_le env q id
    have hsum := sum id
    omega
  · intro id hnew
    cases hnew
  · exact (sorted_maintain env q).sublist filter_sublist filter_sublist
      (List.Sublist.refl _)

theorem occurs_supersedeMatching {new : Item} (h : supersedeMatching env new q = some q')
    (id : String) : q'.occurs id = q.occurs id := by
  obtain ⟨_, ⟨⟩⟩ := ite_none_right_eq_some.mp h
  simp only [occurs, countID_append, countID_map]
  have hp := countID_take_drop env.supersedePendingBudget id q.pending
  have hf := countID_take_drop env.supersedeInFlightBudget id q.inFlight
  have hsp := countID_split (matchesSupersession new) id
    (q.pending.take env.supersedePendingBudget)
  have hsf := countID_split (matchesSupersession new) id
    (q.inFlight.take env.supersedeInFlightBudget)
  omega

@[simp] theorem id_shadowed (i : Item) (beadID : String) : (shadowed i beadID).id = i.id := by
  unfold shadowed
  split_ifs <;> rfl

theorem queuedNudgeExists_iff : queuedNudgeExists q id = true ↔ 0 < q.occurs id := by
  rw [occurs_eq_items, countID, countP_pos_iff, ← List.any_eq_true]
  simp only [queuedNudgeExists, items, any_append]

theorem occurs_snoc (i : Item) (id : String) :
    occurs { q with pending := q.pending ++ [i] } id =
      q.occurs id + if i.id = id then 1 else 0 := by
  have hone : countID id [i] = if i.id = id then 1 else 0 := by simp [countID, countP_cons]
  simp only [occurs, countID_append, hone]
  omega

theorem effect_enqueue {i : Item} (h : enqueueQueuedNudge env i q = some q') :
    Effect env [] (some i.id) q q' := by
  simp only [enqueueQueuedNudge, id_shadowed, bind_eq_bind, bind_eq_some_iff] at h
  obtain ⟨beadID, _, h⟩ := h
  split_ifs at h with hex
  · cases h
    rw [queuedNudgeExists_iff] at hex
    have keep : Effect env [] none q (maintain env q) :=
      Effect.of_moves (fun _ => rfl) (sorted_maintain env q)
    refine ⟨keep.lost, ?_, ?_, keep.sorted⟩
    · intro id hlt
      have hle := occurs_maintain_le env q id
      omega
    · rintro id ⟨⟩
      exact hex
  · rw [queuedNudgeExists_iff] at hex
    simp only [bind_eq_some_iff, some.injEq] at h
    obtain ⟨q₁, h₁, rfl⟩ := h
    have count : ∀ id, (sortState { q₁ with
        pending := q₁.pending ++ [shadowed i beadID] }).occurs id =
        (maintain env q).occurs id + if i.id = id then 1 else 0 := by
      intro id
      rw [occurs_sortState, occurs_snoc, occurs_supersedeMatching h₁, id_shadowed]
    refine ⟨?_, ?_, ?_, sorted_sortState _⟩
    · intro id hlt
      rw [count] at hlt
      exact .inr (pruned_of_occurs_maintain_lt env (by omega))
    · intro id hlt
      have hle := occurs_maintain_le env q id
      rw [count] at hlt ⊢
      by_cases hid : i.id = id
      · subst hid
        rw [if_pos rfl] at hlt ⊢
        exact ⟨rfl, by omega⟩
      · rw [if_neg hid] at hlt
        omega
    · rintro id ⟨⟩
      rw [count, if_pos rfl]
      omega

theorem occurs_rollback (h : rollbackQueuedNudge env id reason q = some q')
    (id' : String) : q'.occurs id' = q.occurs id' := by
  obtain ⟨_, ⟨⟩⟩ := ite_none_right_eq_some.mp h
  rw [occurs_sortState]
  simp only [occurs, rolledBack, countID_append, countID_map]
  have hp := countID_split (fun i => i.id == id) id' q.pending
  have hf := countID_split (fun i => i.id == id) id' q.inFlight
  simp only [bne] at hp hf ⊢
  omega

theorem effect_rollback (h : rollbackQueuedNudge env id reason q = some q') :
    Effect env [] none q q' where
  lost := by
    intro id' hlt
    rw [occurs_rollback h] at hlt
    omega
  gained := by
    intro id' hlt
    rw [occurs_rollback h] at hlt
    omega
  present := by
    intro id' hnew
    cases hnew
  sorted := by
    obtain ⟨_, ⟨⟩⟩ := ite_none_right_eq_some.mp h
    exact sorted_sortState _

end Operations

section Scopes

variable {env : Env} {acks : List String} {new : Option String} {q q' : State}
  {fn : State → Option State}

theorem pruned_filter {p : Item → Bool} {id : String} (h : Pruned env (q.filter p) id) :
    Pruned env q id := by
  obtain ⟨i, hi, hid, hp⟩ := h
  exact ⟨i, (mem_filter.mp hi).1, hid, hp⟩

theorem filter_matches_none (q : State) : q.filter (Scope.matches none) = q := by
  have always : Scope.matches none = fun _ => true := rfl
  simp [State.filter, always]

def State.selected (g : String × String) (q : State) : State := q.filter (Scope.matches (some g))

def State.foreign (g : String × String) (q : State) : State :=
  q.filter fun i => !Scope.matches (some g) i

theorem run_some_cases {g : String × String} {enqueued : Option String}
    (h : Scope.run (some g) enqueued fn q = some q') :
    ∃ result, fn (q.selected g) = some result ∧
      (∀ i ∈ result.items, Scope.matches (some g) i = true ∧
        ∀ j ∈ (q.foreign g).items, j.id ≠ i.id) ∧
      q' = sortState ((q.foreign g).append result) := by
  simp only [Scope.run] at h
  split_ifs at h
  split at h
  · cases h
  next result hresult =>
  simp only [ite_none_left_eq_some, Bool.not_eq_true, List.any_eq_false, Bool.or_eq_false_iff,
    Bool.not_eq_false', beq_eq_false_iff_ne, some.injEq] at h
  exact ⟨result, hresult, h.1, h.2.symm⟩

theorem effect_run {scope : Scope} {enqueued : Option String}
    (hfn : ∀ q q', fn q = some q' → Effect env acks new q q')
    (h : scope.run enqueued fn q = some q') : Effect env acks new q q' := by
  cases scope with
  | none => exact hfn q q' h
  | some g =>
    obtain ⟨result, hresult, inside, rfl⟩ := run_some_cases h
    have eff := hfn _ _ hresult
    have whole : ∀ id, (q.selected g).occurs id + (q.foreign g).occurs id = q.occurs id :=
      occurs_filter _ q
    have count : ∀ id, (sortState ((q.foreign g).append result)).occurs id =
        (q.foreign g).occurs id + result.occurs id := by
      intro id
      rw [occurs_sortState]
      simp only [occurs, append, countID_append]
      omega
    refine ⟨?_, ?_, ?_, sorted_sortState _⟩
    · intro id hlt
      rw [count, ← whole id] at hlt
      rcases eff.lost id (by omega) with h | h
      · exact .inl h
      · exact .inr (pruned_filter h)
    · intro id hlt
      rw [count] at hlt ⊢
      rw [← whole id] at hlt
      obtain ⟨hnew, hone⟩ := eff.gained id (by omega)
      refine ⟨hnew, ?_⟩
      have foreign : (q.foreign g).occurs id = 0 := by
        have hpos : 0 < result.occurs id := by omega
        rw [occurs_eq_items] at hpos
        obtain ⟨i, hi, rfl⟩ := exists_of_countID_pos hpos
        rw [occurs_eq_items, countID_eq_zero]
        exact (inside i hi).2
      omega
    · intro id hnew
      rw [count]
      have hpos := eff.present id hnew
      omega

theorem withState_false (h : (withState env fn q).2 = false) : (withState env fn q).1 = q := by
  unfold withState at h ⊢
  cases hq : fn (sortState q) <;> cases hw : env.writes <;> simp_all

theorem withState_true (h : (withState env fn q).2 = true) :
    fn (sortState q) = some (withState env fn q).1 := by
  unfold withState at h ⊢
  cases hq : fn (sortState q) <;> cases hw : env.writes <;> simp_all

theorem effect_withState (hfn : ∀ q q', fn q = some q' → Effect env acks new q q')
    (h : (withState env fn q).2 = true) : Effect env acks new q (withState env fn q).1 := by
  have eff := hfn _ _ (withState_true h)
  refine ⟨?_, ?_, eff.present, eff.sorted⟩
  · intro id hlt
    rcases eff.lost id (by rwa [occurs_sortState]) with h | ⟨i, hi, hid, hp⟩
    · exact .inl h
    · exact .inr ⟨i, mem_sortState_dead.mp hi, hid, hp⟩
  · intro id hlt
    exact eff.gained id (by rwa [occurs_sortState])

end Scopes

structure Valid (q : State) : Prop where
  sorted : Sorted q
  single : ∀ id, q.occurs id ≤ 1

theorem eq_of_countID_le_one {l : List Item} {a b : Item} (h : countID a.id l ≤ 1) (ha : a ∈ l)
    (hb : b ∈ l) (hid : b.id = a.id) : a = b := by
  rw [countID, countP_eq_length_filter] at h
  have ha' : a ∈ l.filter (·.id == a.id) := mem_filter.mpr ⟨ha, by simp⟩
  have hb' : b ∈ l.filter (·.id == a.id) := mem_filter.mpr ⟨hb, by simpa using hid⟩
  rcases Nat.le_one_iff_eq_zero_or_eq_one.mp h with h | h
  · rw [length_eq_zero_iff.mp h] at ha'
    cases ha'
  · obtain ⟨c, hc⟩ := length_eq_one_iff.mp h
    rw [hc, mem_singleton] at ha' hb'
    rw [ha', hb']

variable {e : Event} {id reason : String} {q q' : State}

theorem id_eq_of_rank_eq {x y x' y' : ℤ} {id' : String} (h : rank x y id = rank x' y' id') :
    id = id' := by
  have h' : (x, (y, id)) = (x', (y', id')) := h
  simp only [Prod.mk.injEq] at h'
  exact h'.2.2

theorem sortItems_filter_append {r : Item → Rank} (hr : ∀ a b, r a = r b → a.id = b.id)
    {l : List Item} (hl : l.Pairwise fun a b => r a ≤ r b) (h : ∀ id, countID id l ≤ 1)
    (p : Item → Bool) : sortItems r ((l.filter fun i => !p i) ++ l.filter p) = l := by
  have perm : (sortItems r ((l.filter fun i => !p i) ++ l.filter p)).Perm l :=
    (perm_sortItems r _).trans (perm_append_comm.trans (filter_append_perm p l))
  refine perm.eq_of_pairwise ?_ (pairwise_sortItems r _) hl
  intro a b ha hb hab hba
  exact eq_of_countID_le_one (h a.id) (perm.mem_iff.mp ha) hb (hr _ _ (le_antisymm hba hab))

theorem sortState_filter_append (h : Valid q) (p : Item → Bool) :
    sortState ((q.filter fun i => !p i).append (q.filter p)) = q := by
  have single := h.single
  simp only [occurs] at single
  ext1
  · apply sortItems_filter_append (fun a b => id_eq_of_rank_eq) h.sorted.pending
    intro id
    have := single id
    omega
  · apply sortItems_filter_append (fun a b => id_eq_of_rank_eq) h.sorted.inFlight
    intro id
    have := single id
    omega
  · apply sortItems_filter_append (fun a b => id_eq_of_rank_eq) h.sorted.dead
    intro id
    have := single id
    omega

theorem rollback_missing {env : Env} (hs : Sorted q)
    (hnone : rolledBack q id = []) (h : rollbackQueuedNudge env id reason q = some q') :
    q' = q := by
  have hempty := hnone
  simp only [rolledBack, append_eq_nil_iff, filter_eq_nil_iff, beq_iff_eq] at hnone
  have hp : (q.pending.filter fun i => i.id != id) = q.pending := by
    simpa using hnone.1
  have hf : (q.inFlight.filter fun i => i.id != id) = q.inFlight := by
    simpa using hnone.2
  simp only [rollbackQueuedNudge, hempty, map_nil, all_nil, if_true, hp, hf,
    append_nil, some.injEq] at h
  rw [← h]
  exact sortState_of_sorted hs

theorem run_rollback_missing {env : Env} {scope : Scope}
    (hq : Valid q) (hnone : rolledBack (q.filter scope.matches) id = [])
    (h : scope.run none (rollbackQueuedNudge env id reason) q = some q') : q' = q := by
  cases scope with
  | none =>
    rw [filter_matches_none] at hnone
    exact rollback_missing hq.sorted hnone h
  | some g =>
    obtain ⟨result, hresult, -, rfl⟩ := run_some_cases h
    have same : result = q.selected g := by
      refine rollback_missing ?_ hnone hresult
      exact hq.sorted.sublist filter_sublist filter_sublist filter_sublist
    subst same
    exact sortState_filter_append hq _

def Event.acks (e : Event) : List String :=
  match e.op with
  | .ack _ ids _ _ _ => ids
  | _ => []

def Event.enqueues (e : Event) : Option String :=
  match e.op with
  | .enqueue _ i => some i.id
  | _ => none

inductive Outcome (q : State) (e : Event) : Prop
  | unchanged (same : (step q e).1 = q) (refused : (step q e).2 = true → e.enqueues = none)
  | changed (ok : (step q e).2 = true) (effect : Effect e.env e.acks e.enqueues q (step q e).1)

theorem outcome_of_withState {f : State → Option State}
    (hfn : ∀ q q', f q = some q' → Effect e.env e.acks e.enqueues q q')
    (h : step q e = withState e.env f q) : Outcome q e := by
  cases hok : (withState e.env f q).2 with
  | false =>
    refine .unchanged ?_ ?_
    · rw [h]
      exact withState_false hok
    · rw [h, hok]
      intro hfalse
      cases hfalse
  | true =>
    refine .changed ?_ ?_
    · rw [h]
      exact hok
    · rw [h]
      exact effect_withState hfn hok

theorem outcome_rollback (hq : Valid q) (scope : Scope) (i : Item) (reason : String)
    (env : Env) : Outcome q ⟨.rollback scope i reason, env⟩ := by
  by_cases hid : i.id = ""
  · exact .unchanged (by simp [step, hid]) fun _ => rfl
  by_cases hfound : (withState env (scope.run none (rollbackQueuedNudge env i.id reason)) q).2 &&
      (rolledBack (q.filter scope.matches) i.id).isEmpty
  · refine .unchanged ?_ fun _ => rfl
    simp only [step, if_neg hid, if_pos hfound]
    simp only [Bool.and_eq_true, List.isEmpty_iff] at hfound
    obtain ⟨hok, hnone⟩ := hfound
    unfold withState at hok ⊢
    rw [sortState_of_sorted hq.sorted] at hok ⊢
    split at hok
    · cases hok
    · next q' hq' =>
      rw [run_rollback_missing hq hnone hq']
      split_ifs <;> rfl
  · refine outcome_of_withState
      (f := scope.run none (rollbackQueuedNudge env i.id reason)) ?_ ?_
    · intro q q' h
      exact effect_run (fun _ _ => effect_rollback) h
    · simp only [step, if_neg hid, if_neg hfound]

theorem outcome_of_ids {ids : List String} {scope : Scope} {f : State → Option State}
    (hnew : e.enqueues = none)
    (hfn : ∀ q q', f q = some q' → Effect e.env e.acks e.enqueues q q')
    (h : step q e = if ids = [] then (q, true) else withState e.env (scope.run none f) q) :
    Outcome q e := by
  split_ifs at h
  · exact .unchanged (by rw [h]) fun _ => hnew
  · exact outcome_of_withState (fun q q' => effect_run hfn) h

theorem outcome_step (hq : Valid q) (e : Event) : Outcome q e := by
  obtain ⟨op, env⟩ := e
  cases op with
  | enqueue scope i =>
    by_cases hin : (!scope.matches i || (scope.isSome && i.id == "")) = true
    · refine .unchanged ?_ ?_
      · simp only [step, if_pos hin]
      · simp only [step, if_pos hin]
        intro h
        cases h
    · have hstep : step q ⟨.enqueue scope i, env⟩ =
          withState env (scope.run (some i.id) (enqueueQueuedNudge env i)) q := by
        simp only [step, if_neg hin]
      exact outcome_of_withState (fun q q' => effect_run fun _ _ => effect_enqueue) hstep
  | claim scope wanted =>
    exact outcome_of_withState (fun q q' => effect_run fun _ _ => effect_claim) rfl
  | ack scope ids outcome reason commitBoundary =>
    exact outcome_of_ids rfl (fun _ _ => effect_ack) rfl
  | release scope ids => exact outcome_of_ids rfl (fun _ _ => effect_release) rfl
  | fail scope ids cause => exact outcome_of_ids rfl (fun _ _ => effect_fail) rfl
  | rollback scope i reason => exact outcome_rollback hq scope i reason env
  | list =>
    refine outcome_of_withState (f := fun q => some (maintain env q)) ?_ rfl
    intro q q' h
    cases h
    exact Effect.of_moves (fun _ => rfl) (sorted_maintain env q)

theorem valid_empty : Valid empty where
  sorted := ⟨.nil, .nil, .nil⟩
  single := fun _ => Nat.zero_le 1

theorem valid_step (hq : Valid q) (e : Event) : Valid (step q e).1 := by
  cases outcome_step hq e with
  | unchanged same _ =>
    rw [same]
    exact hq
  | changed _ effect =>
    refine ⟨effect.sorted, fun id => ?_⟩
    by_cases hlt : q.occurs id < (step q e).1.occurs id
    · exact (effect.gained id hlt).2.le
    · have := hq.single id
      omega

theorem valid_play (hq : Valid q) (events : List Event) : Valid (play q events) := by
  induction events generalizing q with
  | nil => exact hq
  | cons e events ih => exact ih (valid_step hq e)

/-- The operation takes the id out of the queue, as acknowledged or as a dead item whose shadow was
confirmed terminal and whose retention has passed. -/
def Retires (q : State) (e : Event) (id : String) : Prop :=
  (step q e).1.occurs id = 0 ∧ (id ∈ e.acks ∨ Pruned e.env q id)

theorem kept_or_retired (hq : Valid q) (e : Event)
    (h : q.occurs id = 1) : (step q e).1.occurs id = 1 ∨ Retires q e id := by
  have hone := (valid_step hq e).single id
  by_cases hkept : (step q e).1.occurs id = 1
  · exact .inl hkept
  · right
    cases outcome_step hq e with
    | unchanged same _ =>
      rw [same] at hkept
      exact absurd h hkept
    | changed _ effect => exact ⟨by omega, effect.lost id (by omega)⟩

theorem kept_until_retired (hq : Valid q) (later : List Event) (h : q.occurs id = 1) :
    (play q later).occurs id = 1 ∨ ∃ mid e rest, later = mid ++ e :: rest ∧
      (play q mid).occurs id = 1 ∧ Retires (play q mid) e id := by
  induction later generalizing q with
  | nil => exact .inl h
  | cons e later ih =>
    rcases kept_or_retired hq e h with hkept | hret
    · rcases ih (valid_step hq e) hkept with hend | ⟨mid, e', rest, rfl, hmid, hret⟩
      · exact .inl hend
      · exact .inr ⟨e :: mid, e', rest, rfl, hmid, hret⟩
    · exact .inr ⟨[], e, later, rfl, h, hret⟩

theorem unchanged_of_error (hq : Valid q) (h : (step q e).2 = false) :
    (step q e).1 = q := by
  cases outcome_step hq e with
  | unchanged same _ => exact same
  | changed ok _ =>
    rw [ok] at h
    cases h

theorem enqueued_once (hq : Valid q)
    (hnew : e.enqueues = some id) (h : (step q e).2 = true) : (step q e).1.occurs id = 1 := by
  have hone := (valid_step hq e).single id
  cases outcome_step hq e with
  | unchanged _ refused =>
    rw [refused h] at hnew
    cases hnew
  | changed _ effect =>
    have hpos := effect.present id hnew
    omega

/-- After any history no id is in the queue twice, an enqueued id is there once and stays there
once until an operation retires it, and a failed operation changes nothing. -/
theorem nudges_conserved (history : List Event) (e : Event) (later : List Event) (id : String) :
    (play empty history).occurs id ≤ 1 ∧
    (e.enqueues = some id → (step (play empty history) e).2 = true →
      (play empty (history ++ [e])).occurs id = 1) ∧
    ((play empty history).occurs id = 1 →
      (play empty (history ++ later)).occurs id = 1 ∨
      ∃ mid e rest, later = mid ++ e :: rest ∧
        (play empty (history ++ mid)).occurs id = 1 ∧
        Retires (play empty (history ++ mid)) e id) ∧
    ((step (play empty history) e).2 = false →
      play empty (history ++ [e]) = play empty history) := by
  have hq := valid_play valid_empty history
  have split : ∀ events, play empty (history ++ events) =
      play (play empty history) events := fun events => foldl_append
  simp only [split]
  refine ⟨hq.single id, ?_, ?_, ?_⟩
  · intro hnew hok
    exact enqueued_once hq hnew hok
  · intro hone
    exact kept_until_retired hq later hone
  · intro herr
    exact unchanged_of_error hq herr

/-- A queue that the operations left is in order, and loading it changes nothing. -/
theorem sortState_play (history : List Event) :
    sortState (play .empty history) = play .empty history :=
  sortState_of_sorted (valid_play valid_empty history).sorted

end GasCity.Nudge
