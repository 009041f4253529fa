import GasCity.Convergence.Discipline

/-! # What single calls preserve

How the invariants of a root carry over the calls of the store: metadata writes, log
entries, and wisps that are poured, published, closed or deleted.
-/

namespace GasCity.Convergence

open List

/-- The metadata without the keys that the handling of a wisp writes before it commits. -/
def Metadata.frame (m : Metadata) : Metadata :=
  { m with iteration := 0, pendingNextWisp := none, gateOutcome := none, gateOutcomeWisp := none }

section Frame

variable {s t : World}

/-- The two worlds differ at most in the keys outside the frame and in the verdict. -/
structure SameFrame (s t : World) : Prop where
  frame : t.metadata.frame = s.metadata.frame
  root : t.root = s.root
  wisps : t.wisps = s.wisps
  log : t.log = s.log

namespace SameFrame

variable (h : SameFrame s t)
include h

theorem state : t.metadata.state = s.metadata.state :=
  (congrArg Metadata.state h.frame :)

theorem activeWisp : t.metadata.activeWisp = s.metadata.activeWisp :=
  (congrArg Metadata.activeWisp h.frame :)

theorem lastProcessedWisp : t.metadata.lastProcessedWisp = s.metadata.lastProcessedWisp :=
  (congrArg Metadata.lastProcessedWisp h.frame :)

theorem maxIterations : t.metadata.maxIterations = s.metadata.maxIterations :=
  (congrArg Metadata.maxIterations h.frame :)

theorem trigger : t.metadata.trigger = s.metadata.trigger :=
  (congrArg Metadata.trigger h.frame :)

theorem terminalReason : t.metadata.terminalReason = s.metadata.terminalReason :=
  (congrArg Metadata.terminalReason h.frame :)

theorem needsManualWithoutGate :
    needsManualWithoutGate t.metadata = Convergence.needsManualWithoutGate s.metadata :=
  (congrArg Convergence.needsManualWithoutGate h.frame :)

theorem decision (n : ℕ) (o : Option Outcome) :
    decision t.metadata n o = Convergence.decision s.metadata n o :=
  (congrArg (Convergence.decision · n o) h.frame :)

end SameFrame

theorem Gated.frame (h : Gated s) (hf : SameFrame s t) : Gated t := by
  intro n hn hp
  rw [hf.log] at hp ⊢
  rcases h n hn hp with ⟨w, o, hg, hd⟩ | hop | htr
  · exact .inl ⟨w, o, hg, by rw [hf.decision]; exact hd⟩
  · exact .inr (.inl hop)
  · exact .inr (.inr htr)

theorem Lawful.frame (h : Lawful s) (hf : SameFrame s t) : Lawful t := by
  rw [lawful_iff] at h ⊢
  rwa [hf.state, hf.wisps, hf.log, hf.maxIterations, hf.lastProcessedWisp, hf.root]

theorem Current.frame {a : Wisp} (h : Current s a) (hf : SameFrame s t) : Current t a := by
  rw [current_iff] at h ⊢
  rwa [hf.activeWisp, hf.wisps, hf.log, hf.needsManualWithoutGate, hf.trigger,
    hf.lastProcessedWisp]

theorem Finished.congr (h : Finished s) (hw : t.wisps = s.wisps) (hl : t.log = s.log) :
    Finished t := by
  unfold Finished
  rw [hw, hl]
  exact h

theorem Tidy.frame (h : Tidy s) (hf : SameFrame s t) : Tidy t where
  waiting hs := by
    rw [hf.state] at hs
    rw [hf.activeWisp]
    exact ⟨(h.waiting hs).1, (h.waiting hs).2.congr hf.wisps hf.log⟩
  room := by
    rw [hf.state, hf.wisps, hf.maxIterations]
    exact h.room
  active hs := by
    rw [hf.state] at hs
    rw [hf.activeWisp, hf.wisps]
    exact (h.active hs).imp_right fun ⟨a, ha, hcur⟩ => ⟨a, ha, hcur.frame hf⟩

theorem Idle.frame (h : Idle s) (hf : SameFrame s t) : Idle t := by
  refine ⟨h.1.frame hf, ?_⟩
  rw [hf.terminalReason, hf.state]
  exact h.2

end Frame

section Base

variable {s : World}

theorem Evolves.record (s : World) (e : Entry) : Evolves s (s.record e) :=
  ⟨rfl, rfl, subset_append_left _ _, .refl _⟩

theorem Evolves.closeWisp (s : World) (id : ID) : Evolves s (s.closeWisp id) := by
  refine ⟨rfl, rfl, fun _ hx => hx, Grown.map fun v _ => ?_⟩
  split_ifs <;> simp

theorem Evolves.reveal (s : World) (v : Wisp) : Evolves s (s.reveal v) := by
  refine ⟨rfl, rfl, subset_append_left _ _, Grown.map fun v _ => ?_⟩
  split_ifs <;> simp

theorem Evolves.closeRoot (s : World) : Evolves s { s with root := .closed } :=
  ⟨rfl, rfl, fun _ hx => hx, .refl _⟩

theorem Published.mono {log log' : List Entry} {n : ℕ} (h : Published log n)
    (hsub : log ⊆ log') : Published log' n :=
  h.imp (fun h => hsub h) fun h => hsub h

theorem Base.record (h : Base s) (hs : ¬ s.metadata.state.Early) (e : Entry) :
    Base (s.record e) :=
  h.evolve (.record s e) id
    (fun v hv hhid => Published.mono (h.shown v hv hhid) (Evolves.record s e).log)
    fun he => absurd he hs

theorem Base.closeWisp (h : Base s) (id : ID) : Base (s.closeWisp id) := by
  refine h.evolve (.closeWisp s id) (fun hr => hr) (fun v hv hhid => ?_) fun he => (h.early he).2.1
  obtain ⟨u, hu, rfl⟩ := mem_map.mp hv
  split_ifs at hhid ⊢ with huid
  · exact h.shown u hu hhid
  · exact h.shown u hu hhid

theorem Base.reveal (h : Base s) {v : Wisp} (hv : v ∈ s.wisps) : Base (s.reveal v) := by
  have hnot : ¬ s.metadata.state.Early := fun he => by
    rw [(h.early he).1] at hv
    cases hv
  refine h.evolve (.reveal s v) id (fun x hx hhid => ?_) fun he => absurd he hnot
  obtain ⟨u, hu, rfl⟩ := mem_map.mp hx
  by_cases huid : u.id = v.id
  · rw [if_pos huid, h.eq_of_id hu hv huid]
    exact .inr (mem_append_right _ (mem_singleton_self _))
  · rw [if_neg huid] at hhid ⊢
    exact Published.mono (h.shown u hu hhid) (Evolves.reveal s v).log

theorem forall_snoc {α : Type*} {l : List α} {a : α} {P : α → Prop} (h : ∀ v ∈ l, P v) (ha : P a) :
    ∀ v ∈ l ++ [a], P v :=
  forall_mem_append.mpr ⟨h, forall_mem_singleton.mpr ha⟩

theorem Base.addWisp (h : Base s) {n : ℕ} (hidden : Bool) (hn : 1 ≤ n)
    (hlack : ∀ v ∈ s.wisps, v.iteration ≠ n)
    (hchain : ∀ k, 1 ≤ k → k < n → ∃ u ∈ s.wisps, u.iteration = k ∧ u.closed = true)
    (htop : s.metadata.trigger = .none → ∀ a ∈ s.wisps, s.metadata.activeWisp = some a.id →
      n ≤ a.iteration + 1)
    (hs : ¬ s.metadata.state.Early) : Base (s.addWisp n hidden) := by
  have hold : ∀ a ∈ s.wisps ++ [⟨s.next, n, false, hidden⟩],
      s.metadata.activeWisp = some a.id → a ∈ s.wisps := by
    refine forall_snoc (fun a ha _ => ha) fun hact => ?_
    obtain ⟨v, hv, hvid⟩ := h.active _ hact
    exact absurd hvid (Nat.ne_of_lt (h.fresh v hv))
  have hsub : s.log ⊆ s.log ++ [Entry.pour n hidden] := subset_append_left _ _
  refine ⟨?_, ?_, ?_, ?_, ?_, ?_, ?_, ?_, h.gated, ?_, h.manual, h.settings, ?_, h.born,
    h.unformed, h.pending, ?_, ?_⟩
  · exact forall_snoc (fun v hv => Nat.lt_succ_of_lt (h.fresh v hv)) (Nat.lt_succ_self _)
  · change ((s.wisps ++ [_]).map Wisp.id).Nodup
    rw [map_append, map_singleton, nodup_append]
    refine ⟨h.ids, nodup_singleton _, fun i hi j hj => ?_⟩
    obtain ⟨v, hv, rfl⟩ := mem_map.mp hi
    rw [mem_singleton.mp hj]
    exact Nat.ne_of_lt (h.fresh v hv)
  · change ((s.wisps ++ [_]).map Wisp.iteration).Nodup
    rw [map_append, map_singleton, nodup_append]
    refine ⟨h.keys, nodup_singleton _, fun i hi j hj => ?_⟩
    obtain ⟨v, hv, rfl⟩ := mem_map.mp hi
    rw [mem_singleton.mp hj]
    exact hlack v hv
  · exact forall_snoc h.positive hn
  · intro v hv k hk hlt
    obtain ⟨u, hu, huk⟩ := forall_snoc h.chain hchain v hv k hk hlt
    exact ⟨u, mem_append_left _ hu, huk⟩
  · intro id hid
    obtain ⟨v, hv, hvid⟩ := h.active id hid
    exact ⟨v, mem_append_left _ hv, hvid⟩
  · intro ht a ha hact
    have ha := hold a ha hact
    exact forall_snoc (h.top ht a ha hact) (htop ht a ha hact)
  · intro id hid
    obtain ⟨g, hg, hgid, hgc, hgle⟩ := h.judged id hid
    refine ⟨g, mem_append_left _ hg, hgid, hgc, fun ht a ha hact => ?_⟩
    exact hgle ht a (hold a ha hact) hact
  · intro a ha hact hout hdec
    obtain ⟨w, o, hg, hd⟩ := h.decided a (hold a ha hact) hact hout hdec
    exact ⟨w, o, hsub hg, hd⟩
  · exact fun he => absurd he hs
  · exact fun id hid => Nat.lt_succ_of_lt (h.marked id hid)
  · refine forall_snoc (fun v hv hhid => Published.mono (h.shown v hv hhid) hsub) fun hhid => ?_
    obtain rfl : hidden = false := hhid
    exact .inl (mem_append_right _ (mem_singleton_self _))

/-- The wisp of the dedup marker was there before a new one is poured. -/
theorem Base.mem_of_marked (h : Base s) {n : ℕ} {hidden : Bool} : ∀ u ∈ (s.addWisp n hidden).wisps,
    s.metadata.lastProcessedWisp = some u.id → u ∈ s.wisps :=
  forall_snoc (fun _ hu _ => hu) fun hl => absurd (h.marked _ hl) (Nat.lt_irrefl _)

theorem Base.closeRoot (h : Base s) : Base { s with root := .closed } :=
  { h with born := fun hr => by cases hr }

theorem Base.deleteWisp (h : Base s) {id : ID}
    (hmax : ∀ v ∈ s.wisps, v.id = id → ∀ u ∈ s.wisps, u.iteration ≤ v.iteration)
    (hact : s.metadata.activeWisp ≠ some id) (hout : s.metadata.gateOutcomeWisp ≠ some id) :
    Base (s.deleteWisp id) := by
  have hmem : ∀ {v}, v ∈ (s.deleteWisp id).wisps ↔ v ∈ s.wisps ∧ v.id ≠ id := by
    simp [World.deleteWisp]
  have hsubl : (s.deleteWisp id).wisps.Sublist s.wisps := filter_sublist
  refine ⟨?_, h.ids.sublist (hsubl.map _), h.keys.sublist (hsubl.map _), ?_, ?_, ?_, ?_, ?_,
    h.gated, ?_, h.manual, h.settings, ?_, h.born, h.unformed, h.pending, h.marked, ?_⟩
  · exact fun v hv => h.fresh v (hmem.mp hv).1
  · exact fun v hv => h.positive v (hmem.mp hv).1
  · intro v hv k hk hlt
    obtain ⟨u, hu, huk, huc⟩ := h.chain v (hmem.mp hv).1 k hk hlt
    refine ⟨u, hmem.mpr ⟨hu, fun huid => ?_⟩, huk, huc⟩
    have := hmax u hu huid v (hmem.mp hv).1
    omega
  · intro i hi
    obtain ⟨v, hv, hvid⟩ := h.active i hi
    refine ⟨v, hmem.mpr ⟨hv, fun hid => hact ?_⟩, hvid⟩
    rw [← hid, hvid]
    exact hi
  · exact fun ht a ha hact v hv => h.top ht a (hmem.mp ha).1 hact v (hmem.mp hv).1
  · intro i hi
    obtain ⟨g, hg, hgid, hgc, hgle⟩ := h.judged i hi
    refine ⟨g, hmem.mpr ⟨hg, fun hid => hout ?_⟩, hgid, hgc, fun ht a ha =>
      hgle ht a (hmem.mp ha).1⟩
    rw [← hid, hgid]
    exact hi
  · exact fun a ha => h.decided a (hmem.mp ha).1
  · intro he
    obtain ⟨hw, hrest⟩ := h.early he
    exact ⟨eq_nil_of_subset_nil (hw ▸ hsubl.subset), hrest⟩
  · exact fun v hv => h.shown v (hmem.mp hv).1

def MetaWrite.Neutral : MetaWrite → Prop
  | .iteration _ | .waitingReason _ | .terminalReason _ | .terminalActor _ | .agentVerdict _
  | .agentVerdictWisp _ => True
  | _ => False

variable (h : Base s)
include h

theorem Base.write_neutral (hs : s.metadata.state ≠ .missing) {w : MetaWrite}
    (hw : w.Neutral) : Base (s.write w) := by
  cases w <;> first
    | exact hw.elim
    | exact { h with unformed := fun hm => absurd hm hs }

theorem Base.write_lastProcessedWisp (hs : s.metadata.state ≠ .missing) {id : ID}
    (hid : id < s.next) : Base (s.write (.lastProcessedWisp (some id))) :=
  { h with
    unformed := fun hm => absurd hm hs
    marked := fun _ hi => Option.some.inj hi ▸ hid }

theorem Base.write_pendingNextWisp {p : Option ID} (hs : ¬ s.metadata.state.Early)
    (hp : p ≠ none → s.metadata.trigger = .none) : Base (s.write (.pendingNextWisp p)) :=
  { h with
    early := fun he => absurd he hs
    unformed := fun hm => absurd (.inl hm) hs
    pending := hp }

theorem Base.write_gateOutcomeWisp {a : Wisp} {o : Outcome} (ha : a ∈ s.wisps)
    (hact : s.metadata.activeWisp = some a.id) (hc : a.closed = true)
    (hneed : needsManualWithoutGate s.metadata = none)
    (hlog : Entry.gate a.id a.iteration o ∈ s.log) (hout : s.metadata.gateOutcome = some o) :
    Base (s.write (.gateOutcomeWisp (some a.id))) := by
  have hnot : ¬ s.metadata.state.Early := fun he => by
    rw [(h.early he).1] at ha
    cases ha
  refine { h with
    judged := fun i hi => ?_
    gated := fun _ => hneed
    decided := fun b hb hbact _ hdec => ?_
    early := fun he => absurd he hnot
    unformed := fun hm => absurd (.inl hm) hnot }
  · cases hi
    refine ⟨a, ha, rfl, hc, fun _ b hb hbact => ?_⟩
    have hid : a.id = b.id := Option.some.inj (hact.symm.trans hbact)
    rw [h.eq_of_id ha hb hid]
  · have hid : a.id = b.id := Option.some.inj (hact.symm.trans hbact)
    obtain rfl := h.eq_of_id ha hb hid
    refine ⟨a.id, o, hlog, ?_⟩
    rw [← hout]
    exact hdec

theorem Base.write_activeWisp_none (hs : s.metadata.state ≠ .missing) :
    Base (s.write (.activeWisp none)) := by
  refine { h with
    active := fun _ hact => by cases hact
    top := fun _ _ _ hact => by cases hact
    judged := fun i hi => ?_
    decided := fun _ _ hact => by cases hact
    manual := fun _ => rfl
    early := fun he => ?_
    unformed := fun hm => absurd hm hs }
  · obtain ⟨g, hg, hgid, hgc, -⟩ := h.judged i hi
    exact ⟨g, hg, hgid, hgc, fun _ a _ hact => by cases hact⟩
  · obtain ⟨hw, hl, -, hrest⟩ := h.early he
    exact ⟨hw, hl, rfl, hrest⟩

theorem Base.write_activeWisp {a : Wisp} (ha : a ∈ s.wisps) (hs : s.metadata.state ≠ .waitingManual)
    (htop : s.metadata.trigger = .none → ∀ v ∈ s.wisps, v.iteration ≤ a.iteration + 1)
    (hjudged : ∀ g ∈ s.wisps, s.metadata.gateOutcomeWisp = some g.id →
      g.iteration < a.iteration) :
    Base (s.write (.activeWisp (some a.id))) := by
  have hnot : ¬ s.metadata.state.Early := fun he => by
    rw [(h.early he).1] at ha
    cases ha
  have hsame : ∀ b ∈ s.wisps, some a.id = some b.id → b = a := fun b hb hid =>
    h.eq_of_id hb ha (Option.some.inj hid).symm
  refine { h with
    active := fun i hi => ⟨a, ha, Option.some.inj hi⟩
    top := fun ht b hb hact => hsame b hb hact ▸ htop ht
    judged := fun i hi => ?_
    decided := fun b hb hact hout => ?_
    manual := fun hm => absurd hm hs
    early := fun he => absurd he hnot
    unformed := fun hm => absurd (.inl hm) hnot }
  · obtain ⟨g, hg, hgid, hgc, -⟩ := h.judged i hi
    refine ⟨g, hg, hgid, hgc, fun _ b hb hact => ?_⟩
    rw [hsame b hb hact]
    exact Nat.le_of_lt (hjudged g hg (by rw [hgid]; exact hi))
  · rw [hsame b hb hact] at hout
    exact absurd (hjudged a ha hout) (Nat.lt_irrefl _)

theorem Base.write_state (hr : s.root ≠ .absent) {x : State} (hx : ¬ x.Early)
    (hmanual : x = .waitingManual → s.metadata.activeWisp = none)
    (hsettings : x.Live → s.metadata.formula ≠ "" ∧ 1 ≤ s.metadata.maxIterations) :
    Base (s.write (.state x)) :=
  { h with
    manual := hmanual
    settings := hsettings
    early := fun he => absurd he hx
    born := fun ha => absurd ha hr
    unformed := fun he => absurd (.inl he) hx }

theorem Base.rooted (hs : s.metadata.state ≠ .missing) : s.root ≠ .absent :=
  fun hr => hs (h.born hr)

end Base

section Rest

variable {s t : World}

theorem Gated.extend (h : Gated s) (hdec : ∀ n o, decision t.metadata n o = decision s.metadata n o)
    (hsub : s.log ⊆ t.log)
    (hnew : ∀ n, 1 ≤ n → Published t.log (n + 1) →
      Published s.log (n + 1) ∨ Permitted t.metadata t.log n) : Gated t := by
  intro n hn hp
  rcases hnew n hn hp with hp | hperm
  · have hperm := (h n hn hp).mono hsub
    unfold Permitted at hperm ⊢
    simp only [hdec]
    exact hperm
  · exact hperm

theorem Published.of_snoc {log : List Entry} {e : Entry} {n : ℕ} (h : Published (log ++ [e]) n) :
    Published log n ∨ e = .pour n false ∨ e = .activate n := by
  rcases h with h | h <;> rcases mem_append.mp h with h | h
  · exact .inl (.inl h)
  · exact .inr (.inl (mem_singleton.mp h).symm)
  · exact .inl (.inr h)
  · exact .inr (.inr (mem_singleton.mp h).symm)

theorem Gated.record (h : Gated s) {e : Entry}
    (he : ∀ n, e ≠ .pour n false ∧ e ≠ .activate n) : Gated (s.record e) := by
  refine h.extend (fun _ _ => rfl) (subset_append_left _ _) fun n _ hp => .inl ?_
  exact hp.of_snoc.resolve_right (not_or.mpr (he (n + 1)))

variable {hidden : Bool} {n : ℕ}

theorem Gated.addHidden (h : Gated s) : Gated (s.addWisp n true) := by
  refine h.extend (fun _ _ => rfl) (subset_append_left _ _) fun k _ hp => .inl ?_
  exact hp.of_snoc.resolve_right (by simp)

theorem Gated.addWisp (h : Gated s)
    (hn : 2 ≤ n → Permitted s.metadata s.log (n - 1)) : Gated (s.addWisp n hidden) := by
  have hsub : s.log ⊆ (s.addWisp n hidden).log := subset_append_left _ _
  refine h.extend (fun _ _ => rfl) hsub fun k hk hp => ?_
  rcases hp.of_snoc with hp | hp | hp
  · exact .inl hp
  · obtain ⟨rfl, -⟩ := Entry.pour.inj hp
    exact .inr ((hn (by omega)).mono hsub)
  · cases hp

theorem Gated.reveal (h : Gated s) {v : Wisp}
    (hv : 2 ≤ v.iteration → Permitted s.metadata s.log (v.iteration - 1)) :
    Gated (s.reveal v) := by
  have hsub : s.log ⊆ (s.reveal v).log := subset_append_left _ _
  refine h.extend (fun _ _ => rfl) hsub fun k hk hp => ?_
  rcases hp.of_snoc with hp | hp | hp
  · exact .inl hp
  · cases hp
  · have heq := Entry.activate.inj hp
    have hperm := hv (by omega)
    rw [heq, Nat.add_sub_cancel] at hperm
    exact .inr (hperm.mono hsub)

variable (h : Lawful s)
include h

theorem Lawful.record {e : Entry} (he : ∀ n hidden, e ≠ .pour n hidden)
    (hc : e = .emit .created → s.root ≠ .closed) : Lawful (s.record e) := by
  refine h.evolve (.record s e) rfl (fun n hidden hp => ?_) fun hp => ?_
  · rcases mem_append.mp hp with hp | hp
    · exact hp
    · exact absurd (mem_singleton.mp hp).symm (he n hidden)
  · rcases mem_append.mp hp with hp | hp
    · exact .inl hp
    · exact .inr (hc (mem_singleton.mp hp).symm)

theorem Lawful.closeWisp (id : ID) : Lawful (s.closeWisp id) :=
  h.evolve (.closeWisp s id) rfl (fun _ _ hp => hp) .inl

theorem Lawful.reveal (v : Wisp) : Lawful (s.reveal v) := by
  refine h.evolve (.reveal s v) rfl (fun n hidden hp => ?_) fun hp => .inl ?_
  · rcases mem_append.mp hp with hp | hp
    · exact hp
    · cases mem_singleton.mp hp
  · rcases mem_append.mp hp with hp | hp
    · exact hp
    · cases mem_singleton.mp hp

theorem Lawful.deleteWisp (id : ID) : Lawful (s.deleteWisp id) := by
  have hmem : ∀ v ∈ (s.deleteWisp id).wisps, v ∈ s.wisps := fun v hv => (mem_filter.mp hv).1
  exact ⟨fun hs v hv => h.ended hs v (hmem v hv), h.bound, fun v hv => h.within v (hmem v hv),
    fun u hu hl v hv => h.passed u (hmem u hu) hl v (hmem v hv), h.told, h.sealed⟩

theorem Lawful.addWisp (hb : Base s) (hn : 1 ≤ n)
    (hs : s.metadata.state ≠ .terminated) (hlack : ∀ v ∈ s.wisps, v.iteration ≠ n)
    (hmax : n ≤ s.metadata.maxIterations) : Lawful (s.addWisp n hidden) := by
  have hsub : s.log ⊆ (s.addWisp n hidden).log := subset_append_left _ _
  refine ⟨fun ht => absurd ht hs, fun k hid hp => ?_, fun v hv => ?_, fun u hu hl v hv hle => ?_,
    fun hr hc => ?_, h.sealed⟩
  · rcases mem_append.mp hp with hp | hp
    · exact h.bound k hid hp
    · obtain ⟨rfl, -⟩ : k = n ∧ hid = hidden := by simpa using hp
      exact hmax
  · exact forall_snoc h.within hmax v hv
  · have hu := hb.mem_of_marked u hu hl
    rcases mem_append.mp hv with hv | hv
    · exact (h.passed u hu hl v hv hle).mono hsub
    · obtain rfl := mem_singleton.mp hv
      rcases Nat.lt_or_eq_of_le hle with hlt | heq
      · obtain ⟨x, hx, hxn, -⟩ := hb.chain u hu n hn hlt
        exact absurd hxn (hlack x hx)
      · exact absurd heq.symm (hlack u hu)
  · rcases mem_append.mp hc with hc | hc
    · exact hsub (h.told hr hc)
    · cases mem_singleton.mp hc

theorem Lawful.closeRoot (hs : s.metadata.state = .terminated)
    (ht : Entry.emit .created ∈ s.log → Entry.emit .terminated ∈ s.log) :
    Lawful { s with root := .closed } :=
  { h with told := fun _ => ht, sealed := fun _ => hs }

theorem Lawful.terminate (hc : ∀ v ∈ s.wisps, v.closed = true) :
    Lawful (s.write (.state .terminated)) :=
  { h with ended := fun _ => hc, sealed := fun _ => rfl }

theorem Lawful.write_state {x : State} (hs : s.root ≠ .closed)
    (hx : x ≠ .terminated) : Lawful (s.write (.state x)) :=
  { h with ended := fun ht => absurd ht hx, sealed := fun hr => absurd hr hs }

omit h

/-- Writes that neither change the state nor move the dedup marker nor change the limit. -/
def MetaWrite.Lax : MetaWrite → Prop
  | .state _ | .lastProcessedWisp _ | .maxIterations _ => False
  | _ => True

theorem Lawful.write (h : Lawful s) {w : MetaWrite} (hw : w.Lax) : Lawful (s.write w) := by
  cases w <;> first
    | exact hw.elim
    | exact { h with }

theorem Current.addWisp (hb : Base s) {a : Wisp} (h : Current s a)
    (hn : n = a.iteration + 1) (hneed : needsManualWithoutGate s.metadata = none)
    (htr : s.metadata.trigger = .none) : Current (s.addWisp n hidden) a := by
  have hsub : s.log ⊆ (s.addWisp n hidden).log := subset_append_left _ _
  refine ⟨h.named, fun v hv hlt => ?_, fun v hv => ?_, fun _ _ _ => ⟨hneed, htr⟩,
    fun u hu hl => ?_⟩
  · rcases mem_append.mp hv with hv | hv
    · exact (h.before v hv hlt).mono hsub
    · obtain rfl := mem_singleton.mp hv
      simp only [hn] at hlt
      omega
  · exact forall_snoc h.top (Nat.le_of_eq hn) v hv
  · exact h.last u (hb.mem_of_marked u hu hl) hl

theorem Current.deleteWisp {a : Wisp} (h : Current s a) (id : ID) :
    Current (s.deleteWisp id) a := by
  have hmem : ∀ v ∈ (s.deleteWisp id).wisps, v ∈ s.wisps := fun v hv => (mem_filter.mp hv).1
  exact ⟨h.named, fun v hv => h.before v (hmem v hv), fun v hv => h.top v (hmem v hv),
    fun v hv => h.successor v (hmem v hv), fun u hu => h.last u (hmem u hu)⟩

end Rest

end GasCity.Convergence
