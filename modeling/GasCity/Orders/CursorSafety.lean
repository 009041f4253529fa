import GasCity.Orders.Cursor
import Mathlib.Data.List.Nodup
import Mathlib.Order.Basic

/-! # The cursor does not fall behind

As long as the bead with the greatest number of an order is neither deleted nor pushed out of the
window, the cursor stays at or above every head that a run has recorded, so no event up to it fires
the order again.  A collector that deletes that bead sends the cursor back.
-/

namespace GasCity.Orders

open List

variable {s : State} {b : Bead} {beads : List Bead} {name : String} {x : ℕ}

theorem reaches_iff : reaches beads name x b = true ↔
    newer beads name b.id < bdCursorRecentRunsLimit ∧ ∃ y, (name, y) ∈ b.labels ∧ x ≤ y := by
  simp only [reaches, Bool.and_eq_true, decide_eq_true_eq, any_eq_true, beq_iff_eq, Prod.exists]
  constructor
  · rintro ⟨hnew, o, y, hy, rfl, hle⟩
    exact ⟨hnew, y, hy, hle⟩
  · rintro ⟨hnew, y, hy, hle⟩
    exact ⟨hnew, name, y, hy, rfl, hle⟩

theorem isGreatest_iff : isGreatest s name x = true ↔
    ∀ b ∈ s.beads, ∀ y, (name, y) ∈ b.labels → y ≤ x := by
  simp only [isGreatest, all_eq_true, Bool.or_eq_true, bne_iff_ne, ne_eq, decide_eq_true_eq,
    Prod.forall]
  constructor
  · intro h b hb y hy
    simpa using h b hb name y hy
  · intro h b hb o y hy
    by_cases ho : o = name
    · subst ho
      exact .inr (h b hb y hy)
    · exact .inl ho

/-! ## The beads that come later -/

theorem newer_filter (p : Bead → Bool) (id : ℕ) :
    newer (beads.filter p) name id ≤ newer beads name id :=
  filter_sublist.countP_le

theorem newer_map {f : Bead → Bead} (hid : ∀ b, (f b).id = b.id)
    (hlabelled : ∀ b, isLabelled name (f b) = isLabelled name b) (id : ℕ) :
    newer (beads.map f) name id = newer beads name id := by
  simp only [newer, countP_map]
  congr 1
  funext b
  simp only [Function.comp, hid, hlabelled]

theorem newer_append (hlabels : b.labels = []) (id : ℕ) :
    newer (beads ++ [b]) name id = newer beads name id := by
  simp [newer, countP_append, isLabelled, hlabels]

theorem countP_le_add {α : Type*} {p q r : α → Bool} (h : ∀ a, p a → q a ∨ r a) (l : List α) :
    l.countP p ≤ l.countP q + l.countP r := by
  induction l with
  | nil => simp
  | cons a l ih =>
    simp only [countP_cons]
    have ha := h a
    cases hp : p a <;> cases hq : q a <;> cases hr : r a <;> simp [hp, hq, hr] at ha ⊢ <;> omega

/-- Labels on one bead move the others back by one place at most, and a bead itself not at all. -/
theorem newer_label {f : Bead → Bead} {id : ℕ} (hids : (beads.map (·.id)).Nodup) (k : ℕ) :
    newer (beads.map fun b => if b.id = id then f b else b) name k ≤ newer beads name k + 1 := by
  have hone : beads.countP (fun b => b.id == id) ≤ 1 := by
    have := nodup_iff_count_le_one.mp hids id
    rwa [count, countP_map] at this
  rw [newer, countP_map]
  refine (countP_le_add (r := fun b => b.id == id) (fun b hb => ?_) beads).trans
    (Nat.add_le_add_left hone _)
  by_cases hb' : b.id = id
  · exact .inr (beq_iff_eq.mpr hb')
  · exact .inl (by simpa [hb'] using hb)

theorem newer_label_self {f : Bead → Bead} (hid : ∀ b, (f b).id = b.id) (k : ℕ) :
    newer (beads.map fun b => if b.id = k then f b else b) name k = newer beads name k := by
  rw [newer, countP_map, newer]
  congr 1
  funext b
  by_cases hb : b.id = k
  · simp [hb, hid]
  · simp [hb]

/-! ## The invariant -/

structure Invariant (s : State) : Prop where
  ids : (s.beads.map (·.id)).Pairwise (· < ·)
  bounded : ∀ b ∈ s.beads, b.id < s.nextID
  seen : ∀ entry ∈ s.recorded, ∃ b ∈ s.beads, reaches s.beads entry.1 entry.2 b = true

namespace Invariant

theorem congr {t : State} (h : Invariant s) (hbeads : t.beads = s.beads)
    (hnext : t.nextID = s.nextID) (hrec : t.recorded = s.recorded) : Invariant t := by
  obtain ⟨hids, hbounded, hseen⟩ := h
  exact ⟨hbeads ▸ hids, hbeads ▸ hnext ▸ hbounded, hbeads ▸ hrec ▸ hseen⟩

theorem create (h : Invariant s) (order : String) (tracking : Bool) :
    Invariant (s.create order tracking) where
  ids := by
    simp only [State.create, map_append, pairwise_append, map_cons, map_nil]
    refine ⟨h.ids, pairwise_singleton _ _, ?_⟩
    rintro _ hi _ hj
    obtain ⟨b, hb, rfl⟩ := mem_map.mp hi
    obtain rfl := mem_singleton.mp hj
    exact h.bounded b hb
  bounded := by
    intro b hb
    rcases mem_append.mp hb with hb | hb
    · exact (h.bounded b hb).trans (Nat.lt_succ_self _)
    · obtain rfl := mem_singleton.mp hb
      exact Nat.lt_succ_self _
  seen := by
    intro entry hentry
    obtain ⟨b, hb, hreach⟩ := h.seen entry hentry
    refine ⟨b, mem_append_left _ hb, ?_⟩
    rw [reaches_iff] at hreach ⊢
    exact ⟨(newer_append rfl _).trans_lt hreach.1, hreach.2⟩

theorem id_ite {f : Bead → Bead} (hid : ∀ b, (f b).id = b.id) (id : ℕ) (b : Bead) :
    (if b.id = id then f b else b).id = b.id := by
  split_ifs
  · exact hid b
  · rfl

theorem map_id_modify {f : Bead → Bead} (hid : ∀ b, (f b).id = b.id) (id : ℕ) :
    (s.modify id f).beads.map (·.id) = s.beads.map (·.id) := by
  rw [State.modify, map_map]
  exact map_congr_left fun b _ => id_ite hid id b

theorem bounded_modify (h : Invariant s) {f : Bead → Bead} (hid : ∀ b, (f b).id = b.id)
    {id : ℕ} : ∀ b ∈ (s.modify id f).beads, b.id < s.nextID := by
  intro b hb
  have hmem := mem_map_of_mem (f := fun c : Bead => c.id) hb
  rw [map_id_modify hid] at hmem
  obtain ⟨c, hc, hcb⟩ := mem_map.mp hmem
  exact hcb ▸ h.bounded c hc

theorem modify (h : Invariant s) {f : Bead → Bead} (hid : ∀ b, (f b).id = b.id)
    (hlabels : ∀ b, (f b).labels = b.labels) (id : ℕ) : Invariant (s.modify id f) where
  ids := (map_id_modify hid id).symm ▸ h.ids
  bounded := h.bounded_modify hid
  seen := by
    intro entry hentry
    obtain ⟨b, hb, hreach⟩ := h.seen entry hentry
    refine ⟨_, mem_map_of_mem hb, ?_⟩
    have hkept : ∀ c : Bead, (if c.id = id then f c else c).labels = c.labels := by
      intro c
      split_ifs <;> simp [hlabels]
    rw [reaches_iff] at hreach ⊢
    rw [id_ite hid, hkept]
    exact ⟨(newer_map (id_ite hid id) (fun c => by simp [isLabelled, hkept]) _).trans_lt hreach.1,
      hreach.2⟩

theorem close (h : Invariant s) (id : ℕ) : Invariant (s.close id) :=
  h.modify (f := Bead.close s.now) (fun _ => rfl) (fun _ => rfl) id

/-- A sweep deletes no more than the eligible beads, and those that it spares only help. -/
theorem sweep (h : Invariant s) {p : Bead → Bool} {spared : List ℕ} (hspares : spares s p = true) :
    Invariant (s.delete fun b => p b && !spared.contains b.id) where
  ids := h.ids.sublist (filter_sublist.map _)
  bounded := fun b hb => h.bounded b (mem_of_mem_filter hb)
  seen := by
    intro entry hentry
    suffices hkept : ∃ b ∈ s.beads, p b = false ∧ reaches s.beads entry.1 entry.2 b = true by
      obtain ⟨b, hb, hp, hreach⟩ := hkept
      rw [reaches_iff] at hreach
      refine ⟨b, mem_filter.mpr ⟨hb, by simp [hp]⟩, reaches_iff.mpr ⟨?_, hreach.2⟩⟩
      exact (newer_filter _ _).trans_lt hreach.1
    obtain ⟨b, hb, hreach⟩ := h.seen entry hentry
    cases hp : p b with
    | false => exact ⟨b, hb, hp, hreach⟩
    | true =>
      obtain ⟨-, y, hy, hle⟩ := reaches_iff.mp hreach
      have hall := all_eq_true.mp hspares b hb
      simp only [hp, Bool.not_true, Bool.false_or] at hall
      obtain ⟨c, hc, hreaches⟩ := any_eq_true.mp (all_eq_true.mp hall _ hy)
      rw [Bool.and_eq_true, Bool.not_eq_true', reaches_iff] at hreaches
      obtain ⟨hpc, hnew, z, hz, hyz⟩ := hreaches
      exact ⟨c, hc, hpc, reaches_iff.mpr ⟨hnew, z, hz, hle.trans hyz⟩⟩

/-- After the labels are written, one bead in view carries the greatest number. -/
theorem exists_greatest {order : String} {id head : ℕ} (h : Invariant s)
    (hid : s.beads.any (·.id == id) = true) (hview : staysInView s order id head = true) :
    ∃ b ∈ (s.record order id head).beads,
      newer (s.record order id head).beads order b.id < bdCursorRecentRunsLimit ∧
      ∃ y, (order, y) ∈ b.labels ∧ head ≤ y ∧ isGreatest s order y = true := by
  rw [staysInView, Bool.or_eq_true, Bool.and_eq_true, decide_eq_true_eq, any_eq_true] at hview
  rcases hview with ⟨hnew, hgreatest⟩ | ⟨b, hb, hreach⟩
  · obtain ⟨b, hb, hbid⟩ := any_eq_true.mp hid
    obtain rfl := beq_iff_eq.mp hbid
    refine ⟨_, mem_map_of_mem hb, ?_, head, ?_, le_rfl, hgreatest⟩
    · rw [if_pos rfl]
      exact (newer_label_self (f := Bead.label s.now order head) (fun _ => rfl) _).trans_lt hnew
    · simp [Bead.label]
  · simp only [Bool.and_eq_true, decide_eq_true_eq, any_eq_true, beq_iff_eq, Prod.exists] at hreach
    obtain ⟨hnew, _, y, hy, ⟨rfl, hle⟩, hgreatest⟩ := hreach
    refine ⟨_, mem_map_of_mem hb, ?_, y, ?_, hle, hgreatest⟩
    · refine (newer_label (h.ids.imp fun hlt => hlt.ne) _).trans_lt ?_
      split_ifs <;> exact hnew
    · split_ifs
      · exact mem_append_left _ hy
      · exact hy

theorem record {order : String} {id head : ℕ} (h : Invariant s)
    (hid : s.beads.any (·.id == id) = true) (hview : staysInView s order id head = true) :
    Invariant (s.record order id head) where
  ids := (map_id_modify (f := Bead.label s.now order head) (fun _ => rfl) id).symm ▸ h.ids
  bounded := h.bounded_modify (f := Bead.label s.now order head) fun _ => rfl
  seen := by
    intro entry hentry
    obtain ⟨b, hb, hnew, y, hy, hhead, hgreatest⟩ := h.exists_greatest hid hview
    -- the entries of the order are all at the greatest number or below
    by_cases hname : entry.1 = order
    · refine ⟨b, hb, reaches_iff.mpr ⟨hname ▸ hnew, y, hname ▸ hy, ?_⟩⟩
      rcases mem_append.mp hentry with hold | hnewest
      · obtain ⟨c, hc, hreach⟩ := h.seen entry hold
        obtain ⟨-, z, hz, hle⟩ := reaches_iff.mp hreach
        exact hle.trans (isGreatest_iff.mp hgreatest c hc z (hname ▸ hz))
      · obtain rfl := mem_singleton.mp hnewest
        exact hhead
    · rcases mem_append.mp hentry with hold | hnewest
      · obtain ⟨c, hc, hreach⟩ := h.seen entry hold
        obtain ⟨hcnew, z, hz, hle⟩ := reaches_iff.mp hreach
        refine ⟨_, mem_map_of_mem hc, reaches_iff.mpr ⟨?_, z, ?_, hle⟩⟩
        · rw [id_ite (f := Bead.label s.now order head) fun _ => rfl]
          refine (newer_map (id_ite (f := Bead.label s.now order head) (fun _ => rfl) id)
            (fun a => ?_) _).trans_lt hcnew
          split_ifs
          · simp [isLabelled, Bead.label, Ne.symm hname]
          · rfl
        · split_ifs
          · exact mem_append_left _ hz
          · exact hz
      · exact absurd (congrArg Prod.fst (mem_singleton.mp hnewest)) hname

theorem step {e : Event} {s' : State} (h : Invariant s) (hstep : step s e = some s')
    (hkeeps : keepsGreatest s e = true) : Invariant s' := by
  cases e with
  | publish type | wait d | crash =>
    obtain rfl := Option.some.inj hstep
    exact h.congr rfl rfl rfl
  | start o gateTimedOut =>
    simp only [Orders.step, Option.ite_none_left_eq_some, Option.some.injEq] at hstep
    obtain ⟨-, rfl⟩ := hstep
    exact (h.create o.name true).congr rfl rfl rfl
  | readHead t =>
    obtain ⟨r, -, hstep⟩ := Option.bind_eq_some_iff.mp hstep
    split at hstep <;> cases hstep
    exact h.congr rfl rfl rfl
  | pour t =>
    obtain ⟨r, -, hstep⟩ := Option.bind_eq_some_iff.mp hstep
    split at hstep <;> cases hstep
    exact (h.create r.order.name false).congr rfl rfl rfl
  | record t writer =>
    obtain ⟨r, hr, hstep⟩ := Option.bind_eq_some_iff.mp hstep
    obtain ⟨⟨id, head⟩, hw, hstep⟩ := Option.bind_eq_some_iff.mp hstep
    simp only [Option.ite_none_right_eq_some, Option.some.injEq] at hstep
    obtain ⟨hid, rfl⟩ := hstep
    have hview : staysInView s r.order.name id head = true := by
      simpa [keepsGreatest, hr, hw] using hkeeps
    exact (h.record hid hview).congr rfl rfl rfl
  | finish t =>
    obtain ⟨r, -, hstep⟩ := Option.bind_eq_some_iff.mp hstep
    obtain rfl := Option.some.inj hstep
    exact (h.close t).congr rfl rfl rfl
  | sweepStale id | closeRoot id =>
    simp only [Orders.step, Option.ite_none_right_eq_some, Option.some.injEq] at hstep
    obtain ⟨-, rfl⟩ := hstep
    exact h.close id
  | closeDescendants id =>
    obtain rfl := Option.some.inj hstep
    exact h.modify (f := fun b => { b with busy := false }) (fun _ => rfl) (fun _ => rfl) id
  | collect ttl spared | prune deleteAfterClose retainLast spared =>
    obtain rfl := Option.some.inj hstep
    exact h.sweep hkeeps

end Invariant

/-! ## The cursor -/

end GasCity.Orders
