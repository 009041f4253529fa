import GasCity.Convergence.Reconcile
import Mathlib.Data.List.Nodup
import Mathlib.Data.List.Perm.Subperm

/-! # Invariants of a convergence root

What holds in every run, whatever stops and whichever writes fail: wisps are numbered without gaps
and all but the newest are closed, the active wisp exists, and a persisted gate outcome belongs to
a wisp that was judged.
-/

namespace GasCity.Convergence

open List

/-- The same wisps, some of them closed or published in the meantime. -/
def Grown (ws us : List Wisp) : Prop :=
  List.Forall₂ (fun v u => u.id = v.id ∧ u.iteration = v.iteration ∧
    (v.closed = true → u.closed = true)) ws us

namespace Grown

variable {ws us xs : List Wisp} {v u : Wisp}

theorem refl (ws : List Wisp) : Grown ws ws :=
  forall₂_same.mpr fun _ _ => ⟨rfl, rfl, id⟩

theorem trans (h : Grown ws us) (h' : Grown us xs) : Grown ws xs := by
  induction h generalizing xs with
  | nil =>
    cases h'
    exact .nil
  | cons hv _ ih =>
    cases h' with
    | cons hu hrest =>
      obtain ⟨hid, hit, hcl⟩ := hv
      obtain ⟨hid', hit', hcl'⟩ := hu
      exact .cons ⟨hid'.trans hid, hit'.trans hit, hcl' ∘ hcl⟩ (ih hrest)

theorem mem (h : Grown ws us) (hv : v ∈ ws) :
    ∃ u ∈ us, u.id = v.id ∧ u.iteration = v.iteration ∧ (v.closed = true → u.closed = true) := by
  induction h with
  | nil => cases hv
  | cons hd _ ih =>
    rcases mem_cons.mp hv with rfl | hv
    · exact ⟨_, mem_cons_self, hd⟩
    · obtain ⟨u, hu, h⟩ := ih hv
      exact ⟨u, mem_cons_of_mem _ hu, h⟩

theorem mem_right (h : Grown ws us) (hu : u ∈ us) :
    ∃ v ∈ ws, u.id = v.id ∧ u.iteration = v.iteration ∧ (v.closed = true → u.closed = true) := by
  induction h with
  | nil => cases hu
  | cons hd _ ih =>
    rcases mem_cons.mp hu with rfl | hu
    · exact ⟨_, mem_cons_self, hd⟩
    · obtain ⟨v, hv, h⟩ := ih hu
      exact ⟨v, mem_cons_of_mem _ hv, h⟩

theorem forall_mem {P : ID → ℕ → Prop} (h : Grown ws us) (hP : ∀ v ∈ ws, P v.id v.iteration) :
    ∀ u ∈ us, P u.id u.iteration := by
  intro u hu
  obtain ⟨v, hv, hid, hit, -⟩ := h.mem_right hu
  rw [hid, hit]
  exact hP v hv

theorem map_id (h : Grown ws us) : us.map Wisp.id = ws.map Wisp.id := by
  induction h with
  | nil => rfl
  | cons hd _ ih => rw [map_cons, map_cons, hd.1, ih]

theorem map_iteration (h : Grown ws us) : us.map Wisp.iteration = ws.map Wisp.iteration := by
  induction h with
  | nil => rfl
  | cons hd _ ih => rw [map_cons, map_cons, hd.2.1, ih]

theorem eq_nil (h : Grown ws us) : us = [] ↔ ws = [] := by
  cases h <;> simp

theorem map {f : Wisp → Wisp} (h : ∀ v ∈ ws, (f v).id = v.id ∧ (f v).iteration = v.iteration ∧
    (v.closed = true → (f v).closed = true)) : Grown ws (ws.map f) := by
  induction ws with
  | nil => exact .nil
  | cons v ws ih =>
    rw [forall_mem_cons] at h
    exact .cons h.1 (ih h.2)

end Grown

/-- Agents close wisps that they see and write verdicts; everything else is the controller's. -/
structure Agents (s t : World) : Prop where
  metadata : t.metadata = s.metadata
  root : t.root = s.root
  next : t.next = s.next
  log : t.log = s.log
  grown : Grown s.wisps t.wisps
  hidden : t.wisps.map (fun v => (v.id, v.hidden)) = s.wisps.map fun v => (v.id, v.hidden)

namespace Agents

variable {s t u : World}

theorem refl (s : World) : Agents s s :=
  ⟨rfl, rfl, rfl, rfl, .refl _, rfl⟩

theorem trans (h : Agents s t) (h' : Agents t u) : Agents s u :=
  ⟨h'.metadata.trans h.metadata, h'.root.trans h.root, h'.next.trans h.next, h'.log.trans h.log,
    h.grown.trans h'.grown, h'.hidden.trans h.hidden⟩

end Agents

theorem agents_agentAct (e : AgentAct) (s : World) : Agents s (agentAct e s) := by
  cases e with
  | verdict v => exact ⟨rfl, rfl, rfl, rfl, .refl _, rfl⟩
  | close id =>
    refine ⟨rfl, rfl, rfl, rfl, Grown.map fun v _ => ?_, ?_⟩
    · dsimp only
      split_ifs <;> simp
    · simp only [agentAct, World.mapWisp, map_map]
      refine map_congr_left fun v _ => ?_
      simp only [Function.comp_apply]
      split_ifs <;> rfl

def State.Live (state : State) : Prop :=
  state = .active ∨ state = .waitingManual ∨ state = .waitingTrigger

def State.Early (state : State) : Prop :=
  state = .missing ∨ state = .creating

structure Base (s : World) : Prop where
  fresh : ∀ v ∈ s.wisps, v.id < s.next
  ids : (s.wisps.map Wisp.id).Nodup
  keys : (s.wisps.map Wisp.iteration).Nodup
  positive : ∀ v ∈ s.wisps, 1 ≤ v.iteration
  chain : ∀ v ∈ s.wisps, ∀ k, 1 ≤ k → k < v.iteration →
    ∃ u ∈ s.wisps, u.iteration = k ∧ u.closed = true
  active : ∀ id, s.metadata.activeWisp = some id → ∃ v ∈ s.wisps, v.id = id
  top : s.metadata.trigger = .none → ∀ a ∈ s.wisps, s.metadata.activeWisp = some a.id →
    ∀ v ∈ s.wisps, v.iteration ≤ a.iteration + 1
  judged : ∀ id, s.metadata.gateOutcomeWisp = some id →
    ∃ g ∈ s.wisps, g.id = id ∧ g.closed = true ∧ (s.metadata.trigger = .none →
      ∀ a ∈ s.wisps, s.metadata.activeWisp = some a.id → g.iteration ≤ a.iteration)
  gated : s.metadata.gateOutcomeWisp ≠ none → needsManualWithoutGate s.metadata = none
  decided : ∀ a ∈ s.wisps, s.metadata.activeWisp = some a.id →
    s.metadata.gateOutcomeWisp = some a.id →
    decision s.metadata a.iteration s.metadata.gateOutcome = .continue →
    ∃ w o, Entry.gate w a.iteration o ∈ s.log ∧
      decision s.metadata a.iteration (some o) = .continue
  manual : s.metadata.state = .waitingManual → s.metadata.activeWisp = none
  settings : s.metadata.state.Live → s.metadata.formula ≠ "" ∧ 1 ≤ s.metadata.maxIterations
  early : s.metadata.state.Early → s.wisps = [] ∧ s.log = [] ∧ s.metadata.activeWisp = none ∧
    s.metadata.gateOutcomeWisp = none ∧ s.metadata.pendingNextWisp = none
  born : s.root = .absent → s.metadata.state = .missing
  unformed : s.metadata.state = .missing → s.metadata = {}
  pending : s.metadata.pendingNextWisp ≠ none → s.metadata.trigger = .none
  marked : ∀ id, s.metadata.lastProcessedWisp = some id → id < s.next
  shown : ∀ v ∈ s.wisps, v.hidden = false →
    Entry.pour v.iteration false ∈ s.log ∨ Entry.activate v.iteration ∈ s.log

namespace Base

variable {s t : World} {v u : Wisp}

theorem eq_of_id (h : Base s) (hv : v ∈ s.wisps) (hu : u ∈ s.wisps) (hvu : v.id = u.id) :
    v = u :=
  inj_on_of_nodup_map h.ids hv hu hvu

theorem eq_of_iteration (h : Base s) (hv : v ∈ s.wisps) (hu : u ∈ s.wisps)
    (hvu : v.iteration = u.iteration) : v = u :=
  inj_on_of_nodup_map h.keys hv hu hvu

theorem bead_eq_some (h : Base s) {id : ID} :
    s.bead id = some v ↔ v ∈ s.wisps ∧ v.id = id := by
  constructor
  · intro hv
    exact ⟨mem_of_find?_eq_some hv, by simpa using find?_some hv⟩
  · rintro ⟨hv, rfl⟩
    cases hb : s.bead v.id with
    | none => exact absurd (find?_eq_none.mp hb v hv) (by simp)
    | some u =>
      have hu : u.id = v.id := by simpa using find?_some hb
      rw [h.eq_of_id (mem_of_find?_eq_some hb) hv hu]

theorem keyed_eq_some (h : Base s) {n : ℕ} :
    s.keyed n = some v ↔ v ∈ s.wisps ∧ v.iteration = n := by
  constructor
  · intro hv
    exact ⟨mem_of_find?_eq_some hv, by simpa using find?_some hv⟩
  · rintro ⟨hv, rfl⟩
    cases hb : s.keyed v.iteration with
    | none => exact absurd (find?_eq_none.mp hb v hv) (by simp)
    | some u =>
      have hu : u.iteration = v.iteration := by simpa using find?_some hb
      rw [h.eq_of_iteration (mem_of_find?_eq_some hb) hv hu]

end Base

theorem keyed_eq_none {s : World} {n : ℕ} :
    s.keyed n = none ↔ ∀ v ∈ s.wisps, v.iteration ≠ n := by
  simp [World.keyed, find?_eq_none]

theorem bead_eq_none {s : World} {id : ID} :
    s.bead id = none ↔ ∀ v ∈ s.wisps, v.id ≠ id := by
  simp [World.bead, find?_eq_none]

namespace Base

variable {s : World} {v : Wisp}

theorem mem_closed {ws : List Wisp} {k : ℕ} :
    k ∈ (ws.filter fun v => v.closed).map Wisp.iteration ↔
      ∃ u ∈ ws, u.iteration = k ∧ u.closed = true := by
  simp only [mem_map, mem_filter]
  constructor
  · rintro ⟨u, ⟨hu, hc⟩, rfl⟩
    exact ⟨u, hu, rfl, hc⟩
  · rintro ⟨u, hu, rfl, hc⟩
    exact ⟨u, ⟨hu, hc⟩, rfl⟩

theorem closedCount_eq_length (ws : List Wisp) :
    closedCount ws = ((ws.filter fun v => v.closed).map Wisp.iteration).length := by
  rw [length_map, closedCount, countP_eq_length_filter]

theorem le_closedCount (h : Base s) (hv : v ∈ s.wisps) {k : ℕ} (hk : k < v.iteration) :
    k ≤ closedCount s.wisps := by
  have hsub : range' 1 k ⊆ (s.wisps.filter fun v => v.closed).map Wisp.iteration := by
    intro i hi
    rw [mem_range'_1] at hi
    exact mem_closed.mpr (h.chain v hv i hi.1 (by omega))
  have hlen := (subperm_of_subset nodup_range' hsub).length_le
  rwa [← closedCount_eq_length, length_range'] at hlen

theorem closedCount_lt (h : Base s) {k : ℕ} (hk : 1 ≤ k)
    (hopen : ∀ u ∈ s.wisps, u.iteration = k → u.closed = false) :
    closedCount s.wisps < k := by
  have hsub : ((s.wisps.filter fun v => v.closed).map Wisp.iteration) ⊆ range' 1 (k - 1) := by
    intro i hi
    obtain ⟨u, hu, rfl, hc⟩ := mem_closed.mp hi
    have hpos := h.positive u hu
    rw [mem_range'_1]
    refine ⟨hpos, ?_⟩
    by_contra hge
    rcases Nat.lt_or_eq_of_le (show k ≤ u.iteration by omega) with hlt | heq
    · obtain ⟨x, hx, hxk, hxc⟩ := h.chain u hu k hk hlt
      rw [hopen x hx hxk] at hxc
      cases hxc
    · rw [hopen u hu heq.symm] at hc
      cases hc
  have hlen := (subperm_of_subset (h.keys.sublist (filter_sublist.map _)) hsub).length_le
  rw [← closedCount_eq_length, length_range'] at hlen
  omega

theorem iteration_le (h : Base s) (hv : v ∈ s.wisps) :
    v.iteration ≤ closedCount s.wisps + 1 := by
  have hpos := h.positive v hv
  have := h.le_closedCount hv (show v.iteration - 1 < v.iteration by omega)
  omega

theorem closed_iff (h : Base s) (hv : v ∈ s.wisps) :
    v.closed = true ↔ v.iteration ≤ closedCount s.wisps := by
  have hpos := h.positive v hv
  constructor
  · intro hc
    by_contra hlt
    rw [not_le] at hlt
    have heq : v.iteration = closedCount s.wisps + 1 := by
      have := h.iteration_le hv
      omega
    have hsub : range' 1 v.iteration ⊆
        (s.wisps.filter fun v => v.closed).map Wisp.iteration := by
      intro i hi
      rw [mem_range'_1] at hi
      rcases Nat.lt_or_eq_of_le (show i ≤ v.iteration by omega) with hlt | rfl
      · exact mem_closed.mpr (h.chain v hv i hi.1 hlt)
      · exact mem_closed.mpr ⟨v, hv, rfl, hc⟩
    have hlen := (subperm_of_subset nodup_range' hsub).length_le
    rw [← closedCount_eq_length, length_range'] at hlen
    omega
  · intro hle
    by_contra hopen
    have hlt := h.closedCount_lt hpos fun u hu huk => by
      rw [h.eq_of_iteration hu hv huk]
      simpa using hopen
    omega

theorem exists_closed (h : Base s) {k : ℕ} (hk : 1 ≤ k) (hle : k ≤ closedCount s.wisps) :
    ∃ u ∈ s.wisps, u.iteration = k ∧ u.closed = true := by
  by_contra hnone
  have hlt := h.closedCount_lt hk fun u hu huk => by
    cases hc : u.closed with
    | false => rfl
    | true => exact absurd ⟨u, hu, huk, hc⟩ hnone
  omega

end Base

end GasCity.Convergence
