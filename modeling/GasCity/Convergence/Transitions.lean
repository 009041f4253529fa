import GasCity.Convergence.Processing

/-! # Transitions out of a closed wisp

The commits of `HandleWispClosed`: waiting for the operator or for the trigger, iterating
and terminating.  Each ends with the dedup marker, and until then the loop can be taken up
again at the closed wisp.
-/

namespace GasCity.Convergence

def Fresh (s : World) : Prop :=
  ∀ a ∈ s.wisps, s.metadata.activeWisp = some a.id → ∀ v ∈ s.wisps, v.iteration ≤ a.iteration

def Settled (τ : Prop) (s : World) : Prop :=
  ¬ s.metadata.state.Early ∧ (τ → Idle s ∧ Fresh s)

variable {s t : World}

theorem Fresh.evolve (h : Fresh s) (he : Evolves s t) : Fresh t := by
  intro a ha hact v hv
  obtain ⟨b, hb, hbid, hbit, -⟩ := he.grown.mem_right ha
  obtain ⟨u, hu, -, huit, -⟩ := he.grown.mem_right hv
  rw [he.metadata, hbid] at hact
  rw [hbit, huit]
  exact h b hb hact u hu

instance : Steady Fresh := .of_evolve Fresh.evolve

theorem Settled.evolve {τ : Prop} (h : Settled τ s) (he : Evolves s t) :
    Settled τ t :=
  ⟨he.metadata ▸ h.1, fun hτ => ⟨(h.2 hτ).1.evolve he, (h.2 hτ).2.evolve he⟩⟩

instance {τ : Prop} : Steady (Settled τ) := .of_evolve Settled.evolve

/-- The dedup marker can be moved to wisp `w` of iteration `n`. -/
structure Markable (τ : Prop) (w : ID) (n : ℕ) (s : World) : Prop where
  awake : ¬ s.metadata.state.Early
  shut : Shut w n s
  idle : τ → Idle s
  fresh : τ → Fresh s
  emitted : τ → ∀ v ∈ s.wisps, v.iteration ≤ n → Emitted s.log v.id
  ahead : τ → s.metadata.state = .active → ∀ a ∈ s.wisps, s.metadata.activeWisp = some a.id →
    n < a.iteration

theorem Markable.evolve {τ : Prop} {w : ID} {n : ℕ} (h : Markable τ w n s)
    (he : Evolves s t) : Markable τ w n t := by
  refine ⟨he.metadata ▸ h.awake, Shut.evolve h.shut he, fun hτ => (h.idle hτ).evolve he,
    fun hτ => (h.fresh hτ).evolve he,
    fun hτ => he.emitted (Q := (· ≤ n)) (h.emitted hτ), fun hτ => ?_⟩
  rw [he.metadata]
  exact fun hst => he.grown.forall_mem (P := fun id k => _ = some id → n < k) (h.ahead hτ hst)

instance {τ : Prop} {w : ID} {n : ℕ} : Steady (Markable τ w n) := .of_evolve Markable.evolve

theorem Base.lt_next (h : Base s) {w : ID} {n : ℕ} (hw : Has w n s) : w < s.next := by
  obtain ⟨v, hv, rfl, -⟩ := hw
  exact h.fresh v hv

variable {κ τ : Prop} {m : Metadata} {g : Option ID × Option Outcome} {w : ID} {n : ℕ}

theorem Lawful.mark {s : World} (h : Lawful s) (hb : Base s) (hw : Shut w n s)
    (he : ∀ v ∈ s.wisps, v.iteration ≤ n → Emitted s.log v.id) :
    Lawful (s.write (.lastProcessedWisp (some w))) := by
  refine { h with passed := fun u hu hl v hv hle => ?_ }
  obtain ⟨x, hx, hxid, hxit, -⟩ := hw
  have hux : u = x := hb.eq_of_id hu hx ((Option.some.inj hl).symm.trans hxid.symm)
  exact he v hv (by rw [hux] at hle; omega)

theorem keeps_marker : Keeps κ τ (Markable τ w n) (setMetadata .plain (.lastProcessedWisp (some w)))
      fun _ => Settled τ := by
  refine keeps_setIdle (fun _ h => h.idle) ?_ ?_
  · intro s hs h
    refine hs.write (hs.1.write_lastProcessedWisp (hs.1.present h.shut.has)
      (hs.1.lt_next h.shut.has)) trivial fun hτ => ?_
    exact (hs.2.2 hτ).mark hs.1 h.shut (h.emitted hτ)
  · intro s hs h
    refine ⟨h.awake, fun hτ => ?_⟩
    refine ⟨⟨⟨(h.idle hτ).1.waiting, (h.idle hτ).1.room, fun hst => ?_⟩, (h.idle hτ).2⟩,
      h.fresh hτ⟩
    rcases (h.idle hτ).1.active hst with hnone | ⟨a, ha, hcur⟩
    · exact .inl hnone
    · refine .inr ⟨a, ha, { hcur with last := fun u hu hl => ?_ }⟩
      obtain ⟨x, hx, hxid, hxit, -⟩ := h.shut
      have hux : u = x := hs.1.eq_of_id hu hx ((Option.some.inj hl).symm.trans hxid.symm)
      rw [hux, hxit]
      exact h.ahead hτ hst a ha hcur.named

variable (hlive : m.state.Live) (hact : m.activeWisp = some w)
include hlive hact

/-- Once its iteration event is out, everything up to the closed wisp is finished. -/
theorem Handling.finished {s : World} (hs : Sound κ τ s) (h : Handling τ m g w n s) (hτ : τ)
    (hlack : Lacks (n + 1) s) (he : Emitted s.log w) : Finished s := by
  obtain ⟨-, a, ha, haid, hait, hac, hcur⟩ := h.current hact hs.1 hlive hτ
  intro v hv
  have hne := hlack v hv
  have hle := hcur.top v hv
  rcases Nat.lt_or_eq_of_le (show v.iteration ≤ n by omega) with hlt | heq
  · refine ⟨?_, hcur.before v hv (by omega)⟩
    obtain ⟨u, hu, huit, huc⟩ := hs.1.chain a ha v.iteration (hs.1.positive v hv) (by omega)
    rw [← hs.1.eq_of_iteration hu hv huit]
    exact huc
  · have hva : v = a := hs.1.eq_of_iteration hv ha (heq.trans hait.symm)
    rw [hva]
    exact ⟨hac, haid ▸ he⟩

theorem Handling.terminalReason {s : World} (hs : Sound κ τ s) (h : Handling τ m g w n s)
    (hτ : τ) : s.metadata.terminalReason = none := by
  obtain ⟨hst, -⟩ := h.current hact hs.1 hlive hτ
  by_contra hr
  rcases (h.idle hτ).2 hr with hs | hs <;> rw [frame_state h.frame, hst] at hs <;> cases hs

variable {E : World → Prop}

omit hact in
theorem keeps_emitIteration [Steady E] (hEr : ∀ s e, E s → E (s.record e)) :
    Keeps κ τ (fun s => Handling τ m g w n s ∧ E s) (emit (.iteration n w))
      fun _ s => Handling τ m g w n s ∧ E s ∧ Emitted s.log w := by
  refine keeps_record (fun s _ h hτ _ => (h.1.idle hτ).down) ?_ ?_
  · exact fun s hs h => hs.emit (h.1.not_early hlive) (by simp)
  · exact fun s _ h => ⟨h.1.record _, hEr s _ h.2,
      n, List.mem_append_right _ (List.mem_singleton_self _)⟩

/-- The loop leaves the closed wisp: the active wisp is cleared, the state not yet changed. -/
structure Leaving (τ : Prop) (m : Metadata) (w : ID) (n : ℕ) (s : World) : Prop where
  state : s.metadata.state = m.state
  activeWisp : s.metadata.activeWisp = none
  settings : s.metadata.formula ≠ "" ∧ 1 ≤ s.metadata.maxIterations
  limit : s.metadata.maxIterations = m.maxIterations
  shut : Shut w n s
  finished : τ → Finished s
  below : τ → ∀ v ∈ s.wisps, v.iteration ≤ n
  terminal : τ → s.metadata.terminalReason = none

instance : Steady (Leaving τ m w n) :=
  ⟨fun _ _ h hs => ⟨h.metadata ▸ hs.state, h.metadata ▸ hs.activeWisp, h.metadata ▸ hs.settings,
    h.metadata ▸ hs.limit, hs.shut.evolve h.evolves, fun hτ => (hs.finished hτ).evolve h.evolves,
    fun hτ => h.grown.forall_mem (P := fun _ k => k ≤ n) (hs.below hτ), h.metadata ▸ hs.terminal⟩⟩

theorem keeps_clearActive :
    Keeps κ τ (fun s => Handling τ m g w n s ∧ (τ → Lacks (n + 1) s) ∧ Emitted s.log w)
      (setMetadata .plain (.activeWisp none)) fun _ => Leaving τ m w n := by
  refine keeps_setIdle (fun _ h => h.1.idle) ?_ ?_
  · exact fun s hs h => hs.write (hs.1.write_activeWisp_none (hs.1.present h.1.shut.has)) trivial
      fun hτ => (hs.2.2 hτ).write trivial
  · rintro s hs ⟨h, hlack, he⟩
    refine ⟨(frame_state h.frame :), rfl, ?_, (frame_maxIterations h.frame :), h.shut,
      fun hτ => (h.finished hlive hact hs hτ (hlack hτ) he).congr rfl rfl, fun hτ v hv => ?_,
      (h.terminalReason hlive hact hs :)⟩
    · refine hs.1.settings ?_
      rw [frame_state h.frame]
      exact hlive
    · obtain ⟨-, a, ha, -, hait, -, hcur⟩ := h.current hact hs.1 hlive hτ
      have := hcur.top v hv
      have := hlack hτ v hv
      omega

omit hact in
theorem keeps_enter {x : State} (hx : x = .waitingManual ∨ x = .waitingTrigger)
    (hroom : x = .waitingTrigger → n < m.maxIterations) :
    Keeps κ τ (Leaving τ m w n) (setMetadata .entering (.state x)) fun _ => Markable τ w n := by
  have hxlive : x.Live := by
    rcases hx with rfl | rfl
    · exact .inr (.inl rfl)
    · exact .inr (.inr rfl)
  refine keeps_set (never rfl) (never rfl) ?_ ?_
  · intro s hs h
    refine hs.write (hs.1.write_state (hs.1.rooted (hs.1.present h.shut.has)) hxlive.not_early
      (fun _ => h.activeWisp) fun _ => h.settings) trivial fun hτ => ?_
    refine (hs.2.2 hτ).write_state (fun hr => hlive.ne_terminated ?_) hxlive.ne_terminated
    rw [← h.state]
    exact (hs.2.2 hτ).sealed hr
  · intro s hs h
    refine ⟨hxlive.not_early, h.shut, fun hτ => ⟨⟨fun _ => ⟨h.activeWisp, h.finished hτ⟩,
      fun hw v hv => ?_, fun hw => ?_⟩, fun hr => absurd (h.terminal hτ) hr⟩, fun _ a _ hact => ?_,
      fun hτ v hv _ => (h.finished hτ v hv).2, fun _ _ a _ hact => ?_⟩
    · have := h.below hτ v hv
      have := hroom hw
      change v.iteration < s.metadata.maxIterations
      rw [h.limit]
      omega
    · rcases hx with rfl | rfl <;> cases hw
    · exact absurd (h.activeWisp.symm.trans hact) (by simp)
    · exact absurd (h.activeWisp.symm.trans hact) (by simp)

theorem keeps_transitionToWaitingManual (reason : WaitReason) :
    Keeps κ τ (fun s => Handling τ m g w n s ∧ (τ → Lacks (n + 1) s))
      (transitionToWaitingManual w n reason) fun _ => Settled τ := by
  refine keeps_then (keeps_emitIteration hlive fun s e h => h) ?_
  refine keeps_then (R := Settled τ) ?_ ?_
  · refine keeps_then (R := Markable τ w n) ?_ (keeps_then (R := Markable τ w n) ?_ keeps_marker)
    · refine keeps_then (keeps_clearActive hlive hact) ?_
      refine keeps_then (R := Leaving τ m w n) ?_
        (keeps_then (keeps_enter hlive (.inl rfl) (by rintro ⟨⟩)) ?_)
      · refine keeps_set (never rfl) (never rfl) ?_ ?_
        · exact fun s hs h => hs.write (hs.1.write_neutral (hs.1.present h.shut.has) trivial)
            trivial fun hτ => (hs.2.2 hτ).write trivial
        · exact fun s _ h => { h with }
      · exact keeps_return
    · exact keeps_return
  · refine keeps_then ?_ keeps_return
    refine keeps_record (fun s _ h hτ _ => (h.2 hτ).1.down) ?_ ?_
    · exact fun s hs h => hs.emit h.1 (by simp)
    · exact fun s _ h => h.evolve (.record s _)

omit hlive hact in
theorem keeps_clearVerdict (v : Verdict) [Steady E]
    (hEw : ∀ s x, MetaWrite.Outside x → E s → E (s.write x)) :
    Keeps κ τ (fun s => Handling τ m g w n s ∧ E s) (clearVerdict v w)
      fun _ s => Handling τ m g w n s ∧ E s := by
  unfold clearVerdict setIf
  split_ifs
  · refine keeps_then (keeps_outside trivial trivial fun s h => hEw s _ trivial h) ?_
    refine keeps_then (keeps_outside trivial trivial fun s h => hEw s _ trivial h) ?_
    exact keeps_return
  · exact keeps_return

theorem keeps_transitionToWaitingTrigger (v : Verdict) (hmax : n < m.maxIterations) :
    Keeps κ τ (fun s => Handling τ m g w n s ∧ (τ → Lacks (n + 1) s))
      (transitionToWaitingTrigger v w n) fun _ => Settled τ := by
  refine keeps_then (keeps_clearVerdict v fun s x _ h => h) ?_
  refine keeps_then (keeps_emitIteration hlive fun s e h => h) ?_
  refine keeps_then ?_ keeps_return
  refine keeps_then (R := Markable τ w n) ?_ (keeps_then (R := Markable τ w n) ?_ keeps_marker)
  · refine keeps_then (keeps_clearActive hlive hact) ?_
    refine keeps_then (keeps_enter hlive (.inr rfl) fun _ => hmax) ?_
    exact keeps_return
  · exact keeps_return

omit hlive hact

include hact in
/-- A persisted outcome that decides to iterate comes from an evaluation of the gate. -/
theorem Handling.permitted {s : World} (hs : Sound κ τ s) (h : Handling τ m g w n s)
    (hg : g.1 = some w) (hdec : decision m n g.2 = .continue) :
    Permitted s.metadata s.log n := by
  obtain ⟨a, ha, haid, hait, -⟩ := h.shut
  obtain ⟨hout, hval⟩ : s.metadata.gateOutcomeWisp = g.1 ∧ s.metadata.gateOutcome = g.2 :=
    Prod.mk.inj h.outcome
  obtain ⟨x, o, hlog, hd⟩ := hs.1.decided a ha (by rw [haid]; exact h.activeWisp hact)
    (by rw [haid, hout]; exact hg) (by rw [frame_decision h.frame, hait, hval]; exact hdec)
  rw [hait] at hlog hd
  exact .inl ⟨x, o, hlog, hd⟩

include hlive hact in
theorem keeps_moveOn (hg : g.1 = some w) (htr : m.trigger = .none) (id : ID) :
    Keeps κ τ (fun s => Handling τ m g w n s ∧ Has id (n + 1) s ∧ Emitted s.log w)
      (setMetadata .plain (.activeWisp (some id))) fun _ => Markable τ w n := by
  refine keeps_setIdle (fun _ h => h.1.idle) ?_ ?_
  · rintro s hs ⟨h, ⟨v, hv, rfl, hvit⟩, -⟩
    refine hs.write (hs.1.write_activeWisp hv ?_ ?_ ?_) trivial fun hτ => (hs.2.2 hτ).write trivial
    · intro hst
      exact absurd ((hs.1.manual hst).symm.trans (h.activeWisp hact)) (by simp)
    · intro _ u hu
      have := h.top hact hs.1 htr u hu
      omega
    · intro u hu hout
      obtain ⟨hout', -⟩ := Prod.mk.inj h.outcome
      obtain ⟨a, ha, haid, hait, -⟩ := h.shut
      have huw : u.id = w := Option.some.inj (hout.symm.trans (hout'.trans hg))
      rw [hs.1.eq_of_id hu ha (huw.trans haid.symm), hait]
      omega
  · rintro s hs ⟨h, ⟨v, hv, rfl, hvit⟩, he⟩
    have hstep : τ → ∃ a ∈ s.wisps, a.id = w ∧ a.iteration = n ∧ Current s a := fun hτ => by
      obtain ⟨-, a, ha, haid, hait, -, hcur⟩ := h.current hact hs.1 hlive hτ
      exact ⟨a, ha, haid, hait, hcur⟩
    have hemitted : τ → ∀ u ∈ s.wisps, u.iteration ≤ n → Emitted s.log u.id := fun hτ u hu hle => by
      obtain ⟨a, ha, haid, hait, hcur⟩ := hstep hτ
      rcases Nat.lt_or_eq_of_le hle with hlt | heq
      · exact hcur.before u hu (by omega)
      · rw [hs.1.eq_of_iteration hu ha (heq.trans hait.symm), haid]
        exact he
    have hsame : ∀ u ∈ s.wisps, some v.id = some u.id → u = v := fun u hu hid =>
      hs.1.eq_of_id hu hv (Option.some.inj hid).symm
    refine ⟨(h.not_early hlive :), h.shut, fun hτ => ⟨⟨fun hst => ?_, fun hst => ?_, fun _ => ?_⟩,
      fun hr => absurd (h.terminalReason hlive hact hs hτ) hr⟩, fun hτ u hu hid x hx => ?_,
      hemitted, fun hτ _ u hu hid => ?_⟩
    · obtain ⟨hst', -⟩ := h.current hact hs.1 hlive hτ
      change s.metadata.state = _ ∨ s.metadata.state = _ at hst
      rw [frame_state h.frame, hst'] at hst
      rcases hst with hst | hst <;> cases hst
    · obtain ⟨hst', -⟩ := h.current hact hs.1 hlive hτ
      change s.metadata.state = _ at hst
      rw [frame_state h.frame, hst'] at hst
      cases hst
    · obtain ⟨a, ha, haid, hait, hcur⟩ := hstep hτ
      refine .inr ⟨v, hv, rfl, fun u hu hlt => hemitted hτ u hu (by omega), fun u hu => ?_,
        fun u hu hu2 => ?_, fun u hu hl => ?_⟩
      · have := hcur.top u hu
        omega
      · have := hcur.top u hu
        omega
      · have := hcur.last u hu hl
        omega
    · rw [hsame u hu hid, hvit]
      exact h.top hact hs.1 htr x hx
    · rw [hsame u hu hid]
      omega

theorem keeps_clearPendingSettled :
    Keeps κ τ (Settled τ) (trySetMetadata (.pendingNextWisp none)) fun _ => Settled τ := by
  refine keeps_trySet (fun s _ h hτ => (h.2 hτ).1.down) ?_ (fun _ _ h => h) ?_
  · exact fun s hs h => hs.sameFrame (hs.1.write_pendingNextWisp h.1 fun hp => absurd rfl hp)
      (sameFrame_pending s none)
  · exact fun s _ h => ⟨h.1, fun hτ => ⟨(h.2 hτ).1.frame (sameFrame_pending s none), (h.2 hτ).2⟩⟩

include hlive hact

theorem keeps_adopt (hg : g.1 = some w) (hdec : decision m n g.2 = .continue)
    (htr : m.trigger = .none) (id : ID) :
    Keeps κ τ (fun s => Handling τ m g w n s ∧ Speculative m n (some id) s) (adopt w n id)
      fun _ => Settled τ := by
  refine keeps_activate (R := fun s => Handling τ m g w n s ∧ Has id (n + 1) s)
    (fun s _ h hτ _ => (h.1.idle hτ).down) ?_ ?_ (fun s _ h _ hτ => h.1.idle hτ)
    (fun s h hτ _ => h.1.idle hτ) ?_ (keeps_fail fun _ _ h => h)
  · rintro s hs ⟨h, hspec⟩ v hv hvid
    refine hs.reveal hv fun _ _ => ?_
    obtain ⟨y, hy, hyid, hyit⟩ := (hspec id rfl).2
    rw [hs.1.eq_of_id hv hy (hvid.trans hyid.symm), hyit]
    exact h.permitted hact hs hg hdec
  · rintro s hs ⟨h, hspec⟩ v hv hvid
    refine ⟨h.evolve (.reveal s v), ?_⟩
    obtain ⟨y, hy, hyid, hyit⟩ := (hspec id rfl).2
    obtain ⟨u, hu, huid, huit, -⟩ := (Evolves.reveal s v).grown.mem hy
    exact ⟨u, hu, huid.trans hyid, huit.trans hyit⟩
  · refine keeps_then (keeps_emitIteration hlive fun s e h => h) ?_
    refine keeps_then (R := Settled τ) ?_ ?_
    · refine keeps_then (R := Markable τ w n) ?_ (keeps_then (R := Markable τ w n) ?_ keeps_marker)
      · refine keeps_then (keeps_moveOn hlive hact hg htr id) ?_
        exact keeps_return
      · exact keeps_return
    · refine keeps_then keeps_clearPendingSettled ?_
      exact keeps_return

end GasCity.Convergence
