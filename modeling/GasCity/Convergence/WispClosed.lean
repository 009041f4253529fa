import GasCity.Convergence.Transitions

/-! # `HandleWispClosed`

The whole handler keeps the discipline, from the guard to the dedup marker, and leaves a
loop that is settled.
-/

namespace GasCity.Convergence

theorem not_early_terminated : ¬ State.terminated.Early := by
  rintro (h | h) <;> cases h

theorem not_live_terminated : ¬ State.terminated.Live := by
  rintro (h | h | h) <;> cases h

theorem idle_of_terminated {s : World} (h : s.metadata.state = .terminated) : Idle s := by
  refine ⟨⟨fun hs => ?_, fun hs => ?_, fun hs => ?_⟩, fun _ => .inl h⟩
  · rw [h] at hs
    rcases hs with hs | hs <;> cases hs
  · rw [h] at hs
    cases hs
  · rw [h] at hs
    cases hs

theorem lt_of_decision_continue {m : Metadata} {n : ℕ} {o : Option Outcome}
    (h : decision m n o = .continue) : n < m.maxIterations := by
  unfold decision at h
  split_ifs at h with _ _ _ hmax
  exact Nat.lt_of_not_le hmax

/-- A terminal reason is written and everything of the loop is finished. -/
structure Closing (τ : Prop) (s : World) : Prop where
  awake : ¬ s.metadata.state.Early
  tidy : τ → Tidy s
  finished : τ → Finished s

section Closing

variable {κ τ : Prop} {s t : World} {x : MetaWrite}

theorem Closing.evolve (h : Closing τ s) (he : Evolves s t) : Closing τ t :=
  ⟨he.metadata ▸ h.awake, fun hτ => (h.tidy hτ).evolve he, fun hτ => (h.finished hτ).evolve he⟩

instance : Steady (Closing τ) := .of_evolve Closing.evolve

theorem Closing.down (h : Closing τ s) (hτ : τ) : Down s :=
  ⟨h.tidy hτ, fun _ => .inr (.inr (h.finished hτ))⟩

/-- Writes that the course of the loop does not read, as far as it is not over. -/
theorem Tidy.write_neutral (h : Tidy s) (hx : x.Neutral) : Tidy (s.write x) := by
  have hcur : ∀ a, Current s a → Current (s.write x) a := by
    rintro a ⟨h1, h2, h3, h4, h5⟩
    cases x <;> first
      | exact hx.elim
      | exact ⟨h1, h2, h3, h4, h5⟩
  cases x <;> first
    | exact hx.elim
    | exact ⟨h.waiting, h.room, fun hs => (h.active hs).imp_right fun ⟨a, ha, hc⟩ =>
      ⟨a, ha, hcur a hc⟩⟩

theorem Closing.write_neutral (h : Closing τ s) (hx : x.Neutral) : Closing τ (s.write x) := by
  have htidy : τ → Tidy (s.write x) := fun hτ => (h.tidy hτ).write_neutral hx
  cases x <;> first
    | exact hx.elim
    | exact ⟨h.awake, htidy, h.finished⟩

theorem Sound.write_neutral (h : Sound κ τ s) (hs : s.metadata.state ≠ .missing)
    (hx : x.Neutral) : Sound κ τ (s.write x) := by
  refine h.write (h.1.write_neutral hs hx) ?_ fun hτ => (h.2.2 hτ).write ?_ <;>
    cases x <;> first
      | exact hx.elim
      | trivial

theorem Sound.terminate (h : Sound κ τ s) (hs : s.metadata.state ≠ .missing)
    (hc : τ → ∀ v ∈ s.wisps, v.closed = true) : Sound κ τ (s.write (.state .terminated)) :=
  h.write (h.1.write_state (h.1.rooted hs) not_early_terminated (by rintro ⟨⟩) fun hl =>
    absurd hl not_live_terminated) trivial fun hτ => (h.2.2 hτ).terminate (hc hτ)

variable {E : World → Prop} [Steady E]

theorem keeps_closing (hx : x.Neutral) (hE : ∀ s, E s → E (s.write x)) :
    Keeps κ τ (fun s => Closing τ s ∧ E s) (setMetadata .ending x)
      fun _ s => Closing τ s ∧ E s :=
  keeps_set (fun _ _ h hτ _ => h.1.down hτ) (never rfl)
    (fun _ hs h => hs.write_neutral (fun hm => h.1.awake (.inl hm)) hx)
    fun s _ h => ⟨h.1.write_neutral hx, hE s h.2⟩

theorem keeps_closed {Q : World → Prop} [Steady Q]
    (hQ : ∀ s, E s → (τ → Finished s) → Q (s.write (.state .terminated))) :
    Keeps κ τ (fun s => Closing τ s ∧ E s) (setMetadata .ending (.state .terminated)) fun _ => Q :=
  keeps_set (fun _ _ h hτ _ => h.1.down hτ) (never rfl)
    (fun _ hs h => hs.terminate (fun hm => h.1.awake (.inl hm))
      fun hτ v hv => (h.1.finished hτ v hv).1)
    fun s _ h => hQ s h.2 h.1.finished

end Closing

variable {κ τ : Prop} {m : Metadata} {g : Option ID × Option Outcome} {w : ID} {n : ℕ}
  (hlive : m.state.Live) (hact : m.activeWisp = some w)

theorem keeps_closeEnded : Keeps κ τ (fun s => Markable τ w n s ∧ s.metadata.state = .terminated ∧
      Entry.emit .terminated ∈ s.log) closeRoot fun _ => Markable τ w n := by
  refine keeps_closeRoot (fun s _ h _ => idle_of_terminated h.2.1)
    (fun s hs h => hs.closeRoot (fun _ => h.2.1) fun _ _ => h.2.2)
    fun s _ h => h.1.evolve (.closeRoot s)

include hlive hact

theorem keeps_terminate (reason : TerminalReason) (actor : Actor) :
    Keeps κ τ (fun s => Handling τ m g w n s ∧ (τ → Lacks (n + 1) s))
      (terminate w n reason actor) fun _ => Settled τ := by
  refine keeps_then (keeps_emitIteration hlive fun s e h => h) ?_
  refine keeps_then (R := fun s => Handling τ m g w n s ∧ ((τ → Lacks (n + 1) s) ∧
    Emitted s.log w) ∧ Entry.emit .terminated ∈ s.log) ?_ ?_
  · refine keeps_record (fun s _ h hτ _ => (h.1.idle hτ).down) ?_ ?_
    · exact fun s hs h => hs.emit (h.1.not_early hlive) (by simp)
    · exact fun s _ h => ⟨h.1.record _, ⟨h.2.1, h.2.2.mono (List.subset_append_left _ _)⟩,
        List.mem_append_right _ (List.mem_singleton_self _)⟩
  refine keeps_then (R := fun s => Markable τ w n s ∧ s.metadata.state = .terminated ∧
    Entry.emit .terminated ∈ s.log) ?_ (keeps_then keeps_closeEnded keeps_marker)
  refine keeps_then (R := fun s => Closing τ s ∧ Shut w n s ∧ Entry.emit .terminated ∈ s.log ∧
    (τ → Fresh s)) ?_ (keeps_then (keeps_closing trivial fun _ h => h)
    (keeps_then (keeps_closed ?_) keeps_return))
  · refine keeps_setIdle (fun _ h => h.1.idle) ?_ ?_
    · exact fun s hs h => hs.write_neutral (hs.1.present h.1.shut.has) trivial
    · rintro s hs ⟨h, ⟨hlack, he⟩, htold⟩
      refine ⟨⟨(h.not_early hlive :),
        fun hτ => Tidy.write_neutral (h.idle hτ).1 trivial,
        fun hτ => (h.finished hlive hact hs hτ (hlack hτ) he).congr rfl rfl⟩, h.shut, htold,
        fun hτ => ?_⟩
      obtain ⟨-, a, ha, haid, hait, -, hcur⟩ := h.current hact hs.1 hlive hτ
      intro b hb hbact v hv
      have hba : b = a := hs.1.eq_of_id hb ha
        (Option.some.inj (hbact.symm.trans hcur.named))
      have hle := hcur.top v hv
      have hne := hlack hτ v hv
      rw [hba]
      omega
  · rintro s ⟨hshut, htold, hfresh⟩ hfinished
    have hidle : Idle (s.write (.state .terminated)) := idle_of_terminated rfl
    exact ⟨⟨not_early_terminated, hshut, fun _ => hidle, hfresh,
      fun hτ v hv _ => (hfinished hτ v hv).2, fun _ hst => by cases hst⟩, rfl, htold⟩

/-- Step 7: what follows from a persisted outcome. -/
theorem keeps_settle (v : Verdict) (r : Option ID × Bool) (hg : g.1 = some w) :
    Keeps κ τ (fun s => Handling τ m g w n s ∧ Prepared τ m n r s)
      (settle m v w n r.1 r.2 g.2) fun _ => Settled τ := by
  unfold settle
  cases hd : decision m n g.2 with
  | wait =>
    exact keeps_then (keeps_burnPrepared hlive hact r)
      (keeps_transitionToWaitingManual hlive hact _)
  | «end» reason =>
    refine keeps_then (keeps_burnPrepared hlive hact r) ?_
    refine keeps_then (keeps_terminate hlive hact _ _) ?_
    exact keeps_return
  | «continue» =>
    have hmax := lt_of_decision_continue hd
    obtain ⟨x, failed⟩ := r
    split_ifs with hfailed htrigger
    · refine (keeps_transitionToWaitingManual hlive hact _).pre fun s _ h => ⟨h.1, fun hτ => ?_⟩
      exact h.2.lacks hτ (h.2.failed hfailed)
    · refine (keeps_transitionToWaitingTrigger hlive hact v hmax).pre fun s _ h =>
        ⟨h.1, fun hτ => h.2.lacks hτ ?_⟩
      cases x with
      | none => rfl
      | some id => exact absurd (h.2.spec id rfl).1 (by rw [htrigger]; simp)
    · have htr : m.trigger = .none := by
        cases ht : m.trigger with
        | none => rfl
        | event => exact absurd ht htrigger
      refine keeps_then (keeps_clearVerdict v fun s x _ h => { h with }) ?_
      cases x with
      | some id =>
        exact (keeps_adopt hlive hact hg hd htr id).pre fun s _ h => ⟨h.1, h.2.spec⟩
      | none =>
        refine Respects.of_false fun s hs h => h.2.unneeded rfl (by simpa using hfailed) ?_
        refine ⟨hmax, ?_, htr⟩
        rw [← frame_needsManual h.1.frame]
        refine hs.1.gated ?_
        rw [(Prod.mk.inj h.1.outcome).1, hg]
        simp

omit hlive in
/-- Persist the outcome of the gate, its marker last. -/
theorem keeps_persistGateOutcome (r : Option ID × Bool) (o : Outcome) (hne : g.1 ≠ some w)
    (hneed : needsManualWithoutGate m = none) :
    Keeps κ τ (fun s => (Handling τ m g w n s ∧ Prepared τ m n r s) ∧ Entry.gate w n o ∈ s.log)
      (persistGateOutcome w o)
      fun b s => (if b = true then Handling τ m (some w, some o) w n s
        else ∃ g, Handling τ m g w n s) ∧ Prepared τ m n r s := by
  have hpost : ∀ b : Bool, Steady fun s => if b = true then Handling τ m (some w, some o) w n s
      else ∃ g, Handling τ m g w n s := by
    refine fun b => .of_evolve fun hs he => ?_
    cases b with
    | true => exact Handling.evolve hs he
    | false => exact hs.imp fun g hg => hg.evolve he
  refine keeps_callSet (R := fun s => (Handling τ m (g.1, some o) w n s ∧ Prepared τ m n r s) ∧
      Entry.gate w n o ∈ s.log) (fun s _ h hτ => (h.1.1.idle hτ).down) ?_ ?_ ?_ ?_
  · rintro s hs ⟨⟨h, -⟩, -⟩
    refine hs.sameFrame { hs.1 with
      decided := fun a _ hid hout => absurd ?_ hne
      unformed := fun hm => absurd hm (hs.1.present h.shut.has) } ⟨rfl, rfl, rfl, rfl⟩
    calc
      g.1 = some a.id := (Prod.mk.inj h.outcome).1.symm.trans hout
      _ = some w := hid.symm.trans (h.activeWisp hact)
  · rintro s - ⟨⟨h, hp⟩, hl⟩
    have hf : SameFrame s (s.write (.gateOutcome (some o))) := ⟨rfl, rfl, rfl, rfl⟩
    refine ⟨⟨h.of_sameFrame hf ?_, { hp with }⟩, hl⟩
    exact Prod.ext (Prod.mk.inj h.outcome).1 rfl
  · refine keeps_callSet
      (fun s _ h hτ => (h.1.1.idle hτ).down) ?_ ?_ (keeps_pure fun _ _ h => h) ?_
    · rintro s hs ⟨⟨h, -⟩, hl⟩
      obtain ⟨a, ha, haid, hait, hac⟩ := h.shut
      have hb := hs.1.write_gateOutcomeWisp ha (by rw [haid]; exact h.activeWisp hact) hac
        ((frame_needsManual h.frame).trans hneed) (by rw [haid, hait]; exact hl)
        (Prod.mk.inj h.outcome).2
      rw [haid] at hb
      exact hs.sameFrame hb ⟨rfl, rfl, rfl, rfl⟩
    · rintro s - ⟨⟨h, hp⟩, -⟩
      have hf : SameFrame s (s.write (.gateOutcomeWisp (some w))) := ⟨rfl, rfl, rfl, rfl⟩
      refine ⟨h.of_sameFrame hf ?_, { hp with }⟩
      exact Prod.ext rfl (Prod.mk.inj h.outcome).2
    · exact keeps_pure fun s _ h => ⟨⟨_, h.1.1⟩, h.1.2⟩
  · exact keeps_pure fun s _ h => ⟨⟨g, h.1.1⟩, h.1.2⟩

/-- Steps 4 to 9. -/
theorem keeps_judge (v : Verdict) (r : Option ID × Bool)
    (hg : g = (m.gateOutcomeWisp, m.gateOutcome)) :
    Keeps κ τ (fun s => Handling τ m g w n s ∧ Prepared τ m n r s)
      (judge m v w n r.1 r.2) fun _ => Settled τ := by
  subst hg
  unfold judge
  split_ifs with hskip
  · exact keeps_settle hlive hact v r hskip
  · cases hneed : needsManualWithoutGate m with
    | some reason =>
      exact keeps_then (keeps_burnPrepared hlive hact r)
        (keeps_transitionToWaitingManual hlive hact reason)
    | none =>
      refine Respects.call (R := fun o s => (Handling τ m (m.gateOutcomeWisp, m.gateOutcome) w n s ∧
        Prepared τ m n r s) ∧ Entry.gate w n o ∈ s.log) Steady.stays
        (fun s _ h _ hτ => (h.1.idle hτ).down) ?_ fun o => ?_
      · intro s c hs h _
        refine ⟨hs.record (h.1.not_early hlive) (by simp) (by simp) (by simp), ⟨h.1.record _, ?_⟩,
          List.mem_append_right _ (List.mem_singleton_self _)⟩
        exact ⟨h.2.spec, h.2.lacks, h.2.failed, h.2.unneeded⟩
      · refine Respects.bind (keeps_persistGateOutcome hact r o hskip hneed) fun b => ?_
        cases b with
        | true => exact keeps_settle hlive hact v r rfl
        | false =>
          intro s hs ⟨⟨g, h⟩, hp⟩
          have hburn := keeps_burnPrepared (κ := κ) (τ := τ) (g := g) (n := n) hlive hact r
          exact keeps_then hburn (keeps_fail fun _ _ h => h.1.idle) s hs ⟨h, hp⟩

/-- Steps 3 to 9. -/
theorem keeps_processWisp (v : Verdict) (hpend : m.pendingNextWisp ≠ none → m.trigger = .none) :
    Keeps κ τ (Handling τ m (m.gateOutcomeWisp, m.gateOutcome) w n) (processWisp m v w n)
      fun _ => Settled τ := by
  refine Respects.bind (keeps_deriveIterationCount fun s _ h hτ => (h.idle hτ).down) fun total => ?_
  refine keeps_then (R := Handling τ m (m.gateOutcomeWisp, m.gateOutcome) w n) ?_ ?_
  · unfold setIf
    split_ifs
    · refine keeps_then ((keeps_outside (x := .iteration total) trivial
        trivial fun _ h => h).pre fun _ _ h => ⟨h.1, trivial⟩) ?_
      exact keeps_pure fun _ _ h => h.1
    · exact keeps_pure fun _ _ h => h.1
  · split_ifs
    · refine Respects.bind (keeps_validPending hlive hpend) fun x => ?_
      exact keeps_then (keeps_burn hlive hact x) (keeps_fail fun _ _ h => h.1.idle)
    · exact Respects.bind (keeps_prepareSuccessor hlive hact hpend) fun r =>
        keeps_judge hlive hact v r rfl

omit hlive hact

/-- The loop is at a closed wisp that is to be handled. -/
structure AtClosed (τ : Prop) (w : ID) (s : World) : Prop where
  live : s.metadata.state.Live
  activeWisp : s.metadata.activeWisp = some w
  shut : ∃ n, Shut w n s
  idle : τ → Idle s

instance : Steady (AtClosed τ w) :=
  ⟨fun _ _ h hs => ⟨h.metadata ▸ hs.live, h.metadata ▸ hs.activeWisp,
    hs.shut.imp fun _ hn => hn.evolve h.evolves, fun hτ => (hs.idle hτ).evolve h.evolves⟩⟩

theorem keeps_lastProcessedIteration {P : World → Prop} [Steady P]
    (hdown : ∀ s, Sound κ τ s → P s → τ → Down s) {n : ℕ} (hn : 1 ≤ n) (last : Option ID)
    (hlast : ∀ s, Sound κ τ s → P s → τ → ∀ u ∈ s.wisps, last = some u.id → u.iteration < n) :
    Keeps κ τ P (lastProcessedIteration last) fun k s => P s ∧ (τ → k < n) := by
  cases last with
  | none => exact keeps_pure fun s _ h => ⟨h, fun _ => hn⟩
  | some id =>
    refine keeps_getBead hdown fun b => ?_
    cases b with
    | none => exact keeps_pure fun s _ h => ⟨h.1, fun _ => hn⟩
    | some v =>
      refine keeps_pure fun s hs h => ⟨h.1, fun hτ => ?_⟩
      obtain ⟨-, ⟨u, hu, huid, huit⟩, -⟩ := h.2
      rw [← huit]
      exact hlast s hs h.1 hτ u hu (by rw [huid])

theorem keeps_handleWispClosed (w : ID) :
    Keeps κ τ (AtClosed τ w) (handleWispClosed w) fun _ => Settled τ := by
  refine keeps_getMetadata (fun s _ h hτ => (h.idle hτ).down) fun m v => ?_
  refine keeps_of_fact (φ := m.state.Live ∧ m.activeWisp = some w ∧
    (m.pendingNextWisp ≠ none → m.trigger = .none))
    (fun s hs h => h.2 ▸ ⟨h.1.live, h.1.activeWisp, hs.1.pending⟩) fun ⟨hlive, hact, hpend⟩ => ?_
  dsimp only
  rw [if_neg hlive.ne_terminated]
  refine keeps_getBead (fun s _ h hτ => (h.1.idle hτ).down) fun b => ?_
  cases b with
  | none =>
    refine Respects.of_false fun s _ h => ?_
    obtain ⟨n, v, hv, hid, -⟩ := h.1.1.shut
    exact h.2 v hv hid
  | some b =>
    have hhandling : ∀ s, Sound κ τ s → (AtClosed τ w s ∧ s.metadata = m) ∧ Found w (some b) s →
        Handling τ m (m.gateOutcomeWisp, m.gateOutcome) w b.iteration s := by
      rintro s hs ⟨⟨h, rfl⟩, -, ⟨u, hu, huid, huit⟩, -⟩
      obtain ⟨n, x, hx, hxid, hxit, hxc⟩ := h.shut
      rw [← huit, hs.1.eq_of_id hu hx (huid.trans hxid.symm)]
      exact ⟨rfl, rfl, ⟨x, hx, hxid, rfl, hxc⟩, h.idle⟩
    refine keeps_of_fact (φ := 1 ≤ b.iteration) (fun s hs h => ?_) fun hpos => ?_
    · obtain ⟨u, hu, -, huit⟩ := h.2.2.1
      rw [← huit]
      exact hs.1.positive u hu
    refine Respects.bind ((keeps_lastProcessedIteration
      (fun s _ h hτ => (h.idle hτ).down) hpos m.lastProcessedWisp ?_).pre hhandling) fun k => ?_
    · intro s hs h hτ u hu hl
      obtain ⟨-, a, ha, -, hait, -, hcur⟩ := h.current hact hs.1 hlive hτ
      rw [← hait]
      refine hcur.last u hu ?_
      rw [← hl]
      exact (congrArg Metadata.lastProcessedWisp h.frame :)
    · split_ifs with hle
      · refine keeps_pure fun s _ h => ⟨h.1.not_early hlive, fun hτ => ?_⟩
        have := h.2 hτ
        omega
      · exact (keeps_processWisp hlive hact v hpend).pre fun _ _ h => h.1

end GasCity.Convergence
