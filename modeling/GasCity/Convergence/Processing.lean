import GasCity.Convergence.Rules

/-! # Handling a closed wisp

The steps of `HandleWispClosed` keep the discipline of the handlers: until it commits, the
loop stays at the closed wisp, with at most a successor that is hidden or permitted.
-/

namespace GasCity.Convergence

open List

variable {κ τ : Prop} {m : Metadata} {g : Option ID × Option Outcome} {w : ID} {n : ℕ}

/-- The loop is at the closed wisp `w` of iteration `n`; `m` is the metadata as read at the start,
`g` the gate outcome that is persisted. -/
structure Handling (τ : Prop) (m : Metadata) (g : Option ID × Option Outcome) (w : ID) (n : ℕ)
    (s : World) : Prop where
  frame : s.metadata.frame = m.frame
  outcome : (s.metadata.gateOutcomeWisp, s.metadata.gateOutcome) = g
  shut : Shut w n s
  idle : τ → Idle s

theorem Handling.evolve {s t : World} (h : Handling τ m g w n s) (he : Evolves s t) :
    Handling τ m g w n t :=
  ⟨he.metadata ▸ h.frame, he.metadata ▸ h.outcome, h.shut.evolve he,
    fun hτ => (h.idle hτ).evolve he⟩

instance : Steady (Handling τ m g w n) := .of_evolve Handling.evolve

section Frame

variable {m' : Metadata} (h : m'.frame = m.frame)
include h

theorem frame_state : m'.state = m.state := (congrArg Metadata.state h :)

theorem frame_trigger : m'.trigger = m.trigger := (congrArg Metadata.trigger h :)

theorem frame_maxIterations : m'.maxIterations = m.maxIterations :=
  (congrArg Metadata.maxIterations h :)

theorem frame_needsManual : needsManualWithoutGate m' = needsManualWithoutGate m :=
  (congrArg needsManualWithoutGate h :)

theorem frame_decision (n : ℕ) (o : Option Outcome) : decision m' n o = decision m n o :=
  (congrArg (decision · n o) h :)

end Frame

theorem State.Live.not_early {x : State} (h : x.Live) : ¬ x.Early := by
  rintro (rfl | rfl) <;> rcases h with h | h | h <;> cases h

theorem State.Live.ne_terminated {x : State} (h : x.Live) : x ≠ .terminated := by
  rintro rfl
  rcases h with h | h | h <;> cases h

namespace Handling

variable {s : World} (hlive : m.state.Live) (hact : m.activeWisp = some w)

theorem activeWisp (h : Handling τ m g w n s) (hact : m.activeWisp = some w) :
    s.metadata.activeWisp = some w :=
  (congrArg Metadata.activeWisp h.frame :).trans hact

theorem not_early (h : Handling τ m g w n s) (hlive : m.state.Live) :
    ¬ s.metadata.state.Early := by
  rw [frame_state h.frame]
  exact hlive.not_early

include hact in
theorem current (h : Handling τ m g w n s) (hb : Base s) (hlive : m.state.Live) (hτ : τ) :
    m.state = .active ∧ ∃ a ∈ s.wisps, a.id = w ∧ a.iteration = n ∧ a.closed = true ∧
      Current s a := by
  obtain ⟨v, hv, hid, hit, hc⟩ := h.shut
  have hidle := h.idle hτ
  have hstate : s.metadata.state = .active := by
    rw [← frame_state h.frame] at hlive
    rcases hlive with hs | hs | hs
    · exact hs
    · have := (hidle.1.waiting (.inl hs)).1
      rw [h.activeWisp hact] at this
      cases this
    · have := (hidle.1.waiting (.inr hs)).1
      rw [h.activeWisp hact] at this
      cases this
  refine ⟨(frame_state h.frame).symm.trans hstate, ?_⟩
  rcases hidle.1.active hstate with ⟨hnone, -⟩ | ⟨a, ha, hcur⟩
  · rw [h.activeWisp hact] at hnone
    cases hnone
  · have haid : a.id = w := Option.some.inj (hcur.named.symm.trans (h.activeWisp hact))
    have hav : a = v := hb.eq_of_id ha hv (haid.trans hid.symm)
    exact ⟨a, ha, haid, hav ▸ hit, hav ▸ hc, hcur⟩

include hact in
theorem top (h : Handling τ m g w n s) (hb : Base s) (htr : m.trigger = .none) :
    ∀ v ∈ s.wisps, v.iteration ≤ n + 1 := by
  obtain ⟨a, ha, hid, hit, -⟩ := h.shut
  intro v hv
  rw [← hit]
  refine hb.top ((frame_trigger h.frame).trans htr) a ha ?_ v hv
  rw [hid]
  exact h.activeWisp hact

theorem of_sameFrame (h : Handling τ m g w n s) {t : World} (hf : SameFrame s t)
    {g' : Option ID × Option Outcome}
    (hg : (t.metadata.gateOutcomeWisp, t.metadata.gateOutcome) = g') :
    Handling τ m g' w n t := by
  refine ⟨hf.frame.trans h.frame, hg, ?_, fun hτ => (h.idle hτ).frame hf⟩
  unfold Shut
  rw [hf.wisps]
  exact h.shut

theorem record (h : Handling τ m g w n s) (e : Entry) : Handling τ m g w n (s.record e) :=
  { h with idle := fun hτ => (h.idle hτ).evolve (.record s e) }

end Handling

def MetaWrite.Outside : MetaWrite → Prop
  | .iteration _ | .pendingNextWisp _ | .agentVerdict _ | .agentVerdictWisp _ => True
  | _ => False

theorem MetaWrite.Outside.sameFrame {w : MetaWrite} (hw : w.Outside) (s : World) :
    SameFrame s (s.write w) := by
  cases w <;> first
    | exact hw.elim
    | exact ⟨rfl, rfl, rfl, rfl⟩

theorem sameFrame_pending (s : World) (x : Option ID) :
    SameFrame s (s.write (.pendingNextWisp x)) :=
  ⟨rfl, rfl, rfl, rfl⟩

theorem Sound.sameFrame {s t : World} (h : Sound κ τ s) (hb : Base t)
    (hf : SameFrame s t) : Sound κ τ t :=
  ⟨hb, fun hκ => (h.2.1 hκ).frame hf, fun hτ => (h.2.2 hτ).frame hf⟩

section Steps

variable {E : World → Prop}

theorem keeps_outside {x : MetaWrite} (hx : x.Neutral) (hx' : x.Outside) [Steady E]
    (hEw : ∀ s, E s → E (s.write x)) :
    Keeps κ τ (fun s => Handling τ m g w n s ∧ E s) (setMetadata .plain x)
      fun _ s => Handling τ m g w n s ∧ E s := by
  have hout : ∀ s : World,
      ((s.write x).metadata.gateOutcomeWisp, (s.write x).metadata.gateOutcome) =
      (s.metadata.gateOutcomeWisp, s.metadata.gateOutcome) := by
    intro s
    cases x <;> first
      | exact hx'.elim
      | rfl
  refine keeps_setIdle (fun _ h => h.1.idle) ?_ ?_
  · exact fun s hs h => hs.sameFrame (hs.1.write_neutral (hs.1.present h.1.shut.has) hx)
      (hx'.sameFrame s)
  · exact fun s _ h => ⟨h.1.of_sameFrame (hx'.sameFrame s) ((hout s).trans h.1.outcome), hEw s h.2⟩

variable (hlive : m.state.Live) (hact : m.activeWisp = some w)
include hlive

theorem keeps_clearPending [Steady E] (hEw : ∀ s x, E s → E (s.write (.pendingNextWisp x))) :
    Keeps κ τ (fun s => Handling τ m g w n s ∧ E s) (trySetMetadata (.pendingNextWisp none))
      fun _ s => Handling τ m g w n s ∧ E s := by
  refine keeps_trySet ?_ ?_ (fun _ _ h => h) ?_
  · exact fun s _ h hτ => (h.1.idle hτ).down
  · exact fun s hs h => hs.sameFrame
      (hs.1.write_pendingNextWisp (h.1.not_early hlive) fun hp => absurd rfl hp)
      (sameFrame_pending s none)
  · exact fun s _ h => ⟨h.1.of_sameFrame (sameFrame_pending s none) h.1.outcome, hEw s none h.2⟩

/-- A speculative wisp, if there is one, is the successor in a loop without a trigger. -/
def Speculative (m : Metadata) (n : ℕ) (speculative : Option ID) (s : World) : Prop :=
  ∀ id, speculative = some id → m.trigger = .none ∧ Has id (n + 1) s

instance {x : Option ID} : Steady (Speculative m n x) :=
  ⟨fun _ _ h hs id hid => ⟨(hs id hid).1, (hs id hid).2.evolve h.evolves⟩⟩

variable {id : ID} {s : World}

omit hlive in
theorem Speculative.some (htr : m.trigger = .none)
    (h : Has id (n + 1) s) : Speculative m n (some id) s := by
  rintro _ ⟨⟩
  exact ⟨htr, h⟩

omit hlive in
theorem Speculative.none : Speculative m n none s := by
  rintro _ ⟨⟩

omit hlive in
theorem Idle.deleteWisp (h : Idle s)
    (hne : s.metadata.activeWisp ≠ some id) : Idle (s.deleteWisp id) := by
  have hmem : ∀ v ∈ (s.deleteWisp id).wisps, v ∈ s.wisps := fun v hv => (mem_filter.mp hv).1
  refine ⟨⟨fun hs => ?_, fun hs v hv => h.1.room hs v (hmem v hv), fun hs => ?_⟩, h.2⟩
  · exact ⟨(h.1.waiting hs).1, fun v hv => (h.1.waiting hs).2 v (hmem v hv)⟩
  · rcases h.1.active hs with ⟨hnone, hw⟩ | ⟨a, ha, hcur⟩
    · refine .inl ⟨hnone, eq_nil_iff_forall_not_mem.mpr fun v hv => ?_⟩
      have := hmem v hv
      rw [hw] at this
      cases this
    · refine .inr ⟨a, mem_filter.mpr ⟨ha, ?_⟩, hcur.deleteWisp id⟩
      simp only [ne_eq, decide_not, Bool.not_eq_true', decide_eq_false_iff_not]
      rintro rfl
      exact hne hcur.named

include hact

omit hlive in
theorem Handling.deleteWisp (hs : Sound κ τ s) (h : Handling τ m g w n s)
    (hspec : Speculative m n (some id) s) :
    Sound κ τ (s.deleteWisp id) ∧ Handling τ m g w n (s.deleteWisp id) := by
  obtain ⟨htr, y, hy, hyid, hyit⟩ := hspec id rfl
  have hid : ∀ v ∈ s.wisps, v.id = id → v.iteration = n + 1 := fun v hv hvid => by
    rw [hs.1.eq_of_id hv hy (hvid.trans hyid.symm)]
    exact hyit
  obtain ⟨a, ha, haid, hait, hac⟩ := h.shut
  have hne : w ≠ id := by
    rintro rfl
    have := hid a ha haid
    omega
  have hactive := h.activeWisp hact
  have hnact : s.metadata.activeWisp ≠ some id := by
    rw [hactive]
    exact fun heq => hne (Option.some.inj heq)
  refine ⟨⟨hs.1.deleteWisp ?_ hnact ?_, ?_, ?_⟩, ⟨h.frame, h.outcome, ?_, ?_⟩⟩
  · intro v hv hvid u hu
    rw [hid v hv hvid]
    exact h.top hact hs.1 htr u hu
  · intro hout
    obtain ⟨x, hx, hxid, -, hle⟩ := hs.1.judged id hout
    have := hle ((frame_trigger h.frame).trans htr) a ha (by rw [haid]; exact hactive)
    have := hid x hx hxid
    omega
  · exact fun hκ => hs.2.1 hκ
  · exact fun hτ => (hs.2.2 hτ).deleteWisp id
  · refine ⟨a, mem_filter.mpr ⟨ha, ?_⟩, haid, hait, hac⟩
    simpa [haid] using hne
  · exact fun hτ => (h.idle hτ).deleteWisp hnact

theorem keeps_burn (x : Option ID) :
    Keeps κ τ (fun s => Handling τ m g w n s ∧ Speculative m n x s) (burnSpeculativeWisp x)
      fun _ s => Handling τ m g w n s ∧ (x ≠ none → Lacks (n + 1) s) := by
  cases x with
  | none =>
    refine keeps_pure fun s _ h => ⟨h.1, ?_⟩
    exact fun hne => absurd rfl hne
  | some id =>
    refine Respects.call (R := fun r s => Handling τ m g w n s ∧
      (r = true → Lacks (n + 1) s)) Steady.stays
      (fun s _ h _ hτ => (h.1.idle hτ).down) ?_ fun r => ?_
    · intro s c hs h _
      by_cases ha : c.answer = .ok
      · simp only [exec, attempt, if_pos ha]
        obtain ⟨hs', hh⟩ := h.1.deleteWisp hact hs h.2
        refine ⟨hs', hh, fun _ v hv hvit => ?_⟩
        obtain ⟨-, y, hy, hyid, hyit⟩ := h.2 id rfl
        obtain ⟨hv, hvid⟩ := mem_filter.mp hv
        have hvy : v = y := hs.1.eq_of_iteration hv hy (hvit.trans hyit.symm)
        simp [hvy, hyid] at hvid
      · simp only [exec, attempt, if_neg ha]
        exact ⟨hs, h.1, fun hr => absurd hr (by simp)⟩
    · cases r with
      | false => exact keeps_fail fun s _ h => h.1.idle
      | true =>
        refine Respects.conseq (keeps_clearPending hlive fun s x h => h)
          (fun s _ h => ⟨h.1, h.2 rfl⟩) fun _ s _ h => ⟨h.1, fun _ => h.2⟩

omit hact in
theorem keeps_validPending (hpend : m.pendingNextWisp ≠ none → m.trigger = .none) :
    Keeps κ τ (Handling τ m g w n) (validPendingNextWisp (n + 1) m.pendingNextWisp)
      fun x s => Handling τ m g w n s ∧ Speculative m n x s := by
  have hclear : Keeps κ τ (Handling τ m g w n) (do
      trySetMetadata (.pendingNextWisp none)
      pure none) fun x s => Handling τ m g w n s ∧ Speculative m n x s := by
    refine keeps_then (R := Handling τ m g w n) ?_ ?_
    · refine Respects.conseq (keeps_clearPending hlive
        fun _ _ h => h) (fun _ _ h => ⟨h, trivial⟩) fun _ _ _ h => h.1
    · refine keeps_pure fun s _ h => ⟨h, .none⟩
  cases hp : m.pendingNextWisp with
  | none =>
    exact keeps_pure fun s _ h => ⟨h, .none⟩
  | some id =>
    have htr : m.trigger = .none := hpend (by rw [hp]; exact Option.some_ne_none _)
    refine keeps_getBead (fun s _ h hτ => (h.idle hτ).down) fun b => ?_
    cases b with
    | none => exact hclear.pre fun _ _ h => h.1
    | some v =>
      dsimp only
      split_ifs with hv
      · refine keeps_pure fun s hs h => ⟨h.1, ?_⟩
        exact .some htr (hv.1 ▸ h.2.2.1)
      · exact hclear.pre fun _ _ h => h.1

/-- The successor can be poured, hidden, while the loop is at its predecessor. -/
theorem Handling.addSuccessor (hs : Sound κ τ s) (h : Handling τ m g w n s)
    (hlack : Lacks (n + 1) s) (hmax : n < m.maxIterations)
    (hneed : needsManualWithoutGate m = none) (htr : m.trigger = .none) :
    Sound κ τ (s.addWisp (n + 1) true) ∧ Handling τ m g w n (s.addWisp (n + 1) true) := by
  obtain ⟨a, ha, haid, hait, hac⟩ := h.shut
  have hstate : s.metadata.state ≠ .terminated := by
    rw [frame_state h.frame]
    exact hlive.ne_terminated
  have hbase : Base (s.addWisp (n + 1) true) := by
    refine hs.1.addWisp true (by omega) hlack (fun k hk hlt => ?_) (fun _ b hb hbact => ?_)
      (h.not_early hlive)
    · rcases Nat.lt_or_eq_of_le (show k ≤ n by omega) with hkn | rfl
      · exact hs.1.chain a ha k hk (by omega)
      · exact ⟨a, ha, hait, hac⟩
    · have hid : b.id = a.id := by
        rw [haid]
        exact Option.some.inj (hbact.symm.trans (h.activeWisp hact))
      rw [hs.1.eq_of_id hb ha hid, hait]
  refine ⟨⟨hbase, fun hκ => (hs.2.1 hκ).addHidden, fun hτ => ?_⟩,
    ⟨h.frame, h.outcome, ⟨a, mem_append_left _ ha, haid, hait, hac⟩, fun hτ => ?_⟩⟩
  · refine (hs.2.2 hτ).addWisp hs.1 (by omega) hstate hlack ?_
    rw [frame_maxIterations h.frame]
    omega
  · obtain ⟨hactive, b, hb, hbid, hbit, -, hcur⟩ := h.current hact hs.1 hlive hτ
    have hst : s.metadata.state = .active := (frame_state h.frame).trans hactive
    refine ⟨⟨fun hw => ?_, fun hw => ?_, fun _ => .inr ⟨b, mem_append_left _ hb, ?_⟩⟩,
      (h.idle hτ).2⟩
    · change s.metadata.state = _ ∨ s.metadata.state = _ at hw
      rw [hst] at hw
      rcases hw with hw | hw <;> cases hw
    · change s.metadata.state = _ at hw
      rw [hst] at hw
      cases hw
    · exact hcur.addWisp hs.1 (by rw [hbit]) ((frame_needsManual h.frame).trans hneed)
        ((frame_trigger h.frame).trans htr)

/-- What is known of the successor once it was prepared. -/
structure Prepared (τ : Prop) (m : Metadata) (n : ℕ) (r : Option ID × Bool) (s : World) :
    Prop where
  spec : Speculative m n r.1 s
  lacks : τ → r.1 = none → Lacks (n + 1) s
  failed : r.2 = true → r.1 = none
  unneeded : r.1 = none → r.2 = false →
    ¬ (n < m.maxIterations ∧ needsManualWithoutGate m = none ∧ m.trigger = .none)

instance {r : Option ID × Bool} : Steady (Prepared τ m n r) :=
  ⟨fun s t h hs => { hs with
    spec := Steady.stays s t h hs.spec
    lacks := fun hτ hr => Steady.stays s t h (hs.lacks hτ hr) }⟩

theorem Handling.lacks_of_unneeded (hs : Sound κ τ s) (h : Handling τ m g w n s)
    (hno : ¬ (n < m.maxIterations ∧ needsManualWithoutGate m = none ∧ m.trigger = .none))
    (hτ : τ) : Lacks (n + 1) s := by
  intro v hv hit
  obtain ⟨-, a, ha, -, hait, -, hcur⟩ := h.current hact hs.1 hlive hτ
  obtain ⟨hneed, htr⟩ := hcur.successor v hv (by rw [hait]; exact hit)
  have hmax := (hs.2.2 hτ).within v hv
  rw [frame_maxIterations h.frame] at hmax
  exact hno ⟨by omega, (frame_needsManual h.frame).symm.trans hneed,
    (frame_trigger h.frame).symm.trans htr⟩

theorem keeps_pourSuccessor (hmax : n < m.maxIterations)
    (hneed : needsManualWithoutGate m = none) (htr : m.trigger = .none) :
    Keeps κ τ (Handling τ m g w n) (pourOrFind .plain (n + 1) true)
      fun x s => Handling τ m g w n s ∧ FoundKey (n + 1) x s := by
  refine keeps_pour (R := fun id s => Handling τ m g w n s ∧ Has id (n + 1) s)
    (fun s _ h hτ _ => (h.idle hτ).down) (fun s _ h v hv hit => ⟨h, v, hv, rfl, hit⟩) ?_ ?_ ?_
  · intro s hs h hlack _
    obtain ⟨hs', h'⟩ := h.addSuccessor hlive hact hs hlack hmax hneed htr
    exact ⟨hs', h', _, mem_append_right _ (mem_singleton_self _), rfl, rfl⟩
  · exact fun id => keeps_pure fun _ _ h => h
  · refine Respects.pre (P := Handling τ m g w n) ?_ ?_
    · refine keeps_findByKey (fun s _ h hτ => (h.idle hτ).down) fun b => ?_
      exact keeps_pure fun _ _ h => h
    · rintro s - (h | ⟨-, id, h, -⟩) <;> exact h

theorem keeps_prepareSuccessor (hpend : m.pendingNextWisp ≠ none → m.trigger = .none) :
    Keeps κ τ (Handling τ m g w n) (prepareSuccessor m n)
      fun r s => Handling τ m g w n s ∧ Prepared τ m n r s := by
  refine Respects.bind (keeps_validPending hlive hpend) fun x => ?_
  cases x with
  | some id =>
    refine keeps_pure fun s _ h => ⟨h.1, h.2, ?_, ?_, ?_⟩
    · rintro - ⟨⟩
    · rintro ⟨⟩
    · rintro ⟨⟩
  | none =>
    split_ifs with hcond
    · obtain ⟨hmax, hneed, htr⟩ := hcond
      refine Respects.bind ((keeps_pourSuccessor hlive hact hmax hneed htr).pre
        fun _ _ h => h.1) fun y => ?_
      cases y with
      | none =>
        refine keeps_pure fun s _ h => ⟨h.1, .none, fun _ _ => h.2, fun _ => rfl, ?_⟩
        rintro - ⟨⟩
      | some id =>
        have hspec : ∀ s, Sound κ τ s → Handling τ m g w n s ∧ FoundKey (n + 1) (some id) s →
            Speculative m n (some id) s := fun s _ h => .some htr h.2
        refine keeps_callSet (R := fun s => Handling τ m g w n s ∧ Speculative m n (some id) s)
          (fun s _ h hτ => (h.1.idle hτ).down) ?_ ?_ ?_ ?_
        · intro s hs h
          refine hs.sameFrame (hs.1.write_pendingNextWisp (h.1.not_early hlive) fun _ => ?_)
            (sameFrame_pending s _)
          exact (frame_trigger h.1.frame).trans htr
        · intro s hs h
          exact ⟨h.1.of_sameFrame (sameFrame_pending s _) h.1.outcome, hspec s hs h⟩
        · refine keeps_pure fun s _ h => ⟨h.1, h.2, ?_, ?_, ?_⟩
          · rintro - ⟨⟩
          · rintro ⟨⟩
          · rintro ⟨⟩
        · refine keeps_then (R := Handling τ m g w n) ?_ (keeps_fail fun s _ h => h.idle)
          exact (keeps_burn hlive hact (some id)).conseq
            (fun s hs h => ⟨h.1, hspec s hs h⟩) fun _ _ _ h => h.1
    · refine keeps_pure fun s hs h =>
        ⟨h.1, .none, fun hτ _ => h.1.lacks_of_unneeded hlive hact hs hcond hτ, ?_,
          fun _ _ => hcond⟩
      rintro ⟨⟩

theorem keeps_burnPrepared (r : Option ID × Bool) :
    Keeps κ τ (fun s => Handling τ m g w n s ∧ Prepared τ m n r s) (burnSpeculativeWisp r.1)
      fun _ s => Handling τ m g w n s ∧ (τ → Lacks (n + 1) s) := by
  obtain ⟨x, failed⟩ := r
  cases x with
  | none =>
    exact keeps_pure fun s _ h => ⟨h.1, fun hτ => h.2.lacks hτ rfl⟩
  | some id =>
    exact (keeps_burn hlive hact (some id)).conseq (fun s _ h => ⟨h.1, h.2.spec⟩)
      fun _ s _ h => ⟨h.1, fun _ => h.2 (Option.some_ne_none id)⟩

end Steps

end GasCity.Convergence
