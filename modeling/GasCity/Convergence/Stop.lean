import GasCity.Convergence.Endings

/-! # The operator's stop

A stop handles the active wisp if it is closed and closes it if it is open.  When the loop
is terminated no wisp is open, and the marker moves to the wisp that the stop closed only
once its iteration event is out.
-/

namespace GasCity.Convergence

variable {κ τ : Prop}

/-- The loop can be stopped: its metadata is `m`, and its active wisp has no successor. -/
structure Stoppable (τ : Prop) (m : Metadata) (s : World) : Prop where
  metadata : s.metadata = m
  awake : ¬ m.state.Early
  notOver : m.state ≠ .terminated
  idle : τ → Idle s
  fresh : τ → Fresh s

variable {m : Metadata} {s t : World}

theorem Stoppable.evolve (h : Stoppable τ m s) (he : Evolves s t) :
    Stoppable τ m t :=
  ⟨he.metadata.trans h.metadata, h.awake, h.notOver, fun hτ => (h.idle hτ).evolve he,
    fun hτ => (h.fresh hτ).evolve he⟩

instance : Steady (Stoppable τ m) := .of_evolve Stoppable.evolve

theorem Stoppable.live (h : Stoppable τ m s) : m.state.Live := by
  have hawake := h.awake
  have hover := h.notOver
  unfold State.Early at hawake
  unfold State.Live
  cases hs : m.state <;> simp_all

/-- Once the active wisp is closed, every wisp of a loop that can be stopped is. -/
theorem Stoppable.allClosed (hs : Sound κ τ s) (h : Stoppable τ m s)
    (hact : ∀ a ∈ s.wisps, m.activeWisp = some a.id → a.closed = true) (hτ : τ) :
    ∀ v ∈ s.wisps, v.closed = true := by
  have hidle := h.idle hτ
  rcases h.live with hst | hst | hst <;> rw [← h.metadata] at hst hact
  · rcases hidle.1.active hst with ⟨-, hw⟩ | ⟨a, ha, hcur⟩
    · rw [hw]
      exact fun v hv => by cases hv
    · intro v hv
      have hle := h.fresh hτ a ha hcur.named v hv
      rw [hs.1.closed_iff hv]
      have := (hs.1.closed_iff ha).mp (hact a ha hcur.named)
      omega
  · exact fun v hv => ((hidle.1.waiting (.inl hst)).2 v hv).1
  · exact fun v hv => ((hidle.1.waiting (.inr hst)).2 v hv).1

theorem Stoppable.before (h : Stoppable τ m s) (hτ : τ) :
    ∀ a ∈ s.wisps, m.activeWisp = some a.id → ∀ v ∈ s.wisps, v.iteration < a.iteration →
      Emitted s.log v.id := by
  intro a ha hact v hv hlt
  have hidle := h.idle hτ
  rw [← h.metadata] at hact
  rcases h.live with hst | hst | hst <;> rw [← h.metadata] at hst
  · rcases hidle.1.active hst with ⟨hnone, -⟩ | ⟨b, hb, hcur⟩
    · rw [hnone] at hact
      cases hact
    · have hfresh := h.fresh hτ a ha hact b hb
      have hfresh' := h.fresh hτ b hb hcur.named a ha
      exact hcur.before v hv (by omega)
  · exact ((hidle.1.waiting (.inl hst)).2 v hv).2
  · exact ((hidle.1.waiting (.inr hst)).2 v hv).2

def Active (active : Option ID) : Option Wisp → World → Prop
  | none, _ => active = none
  | some v, s => active = some v.id ∧ Has v.id v.iteration s ∧
      (v.closed = true → Shut v.id v.iteration s) ∧
      (v.closed = false → ∀ u ∈ s.wisps, u.iteration ≤ v.iteration)

instance {active : Option ID} {b : Option Wisp} : Steady (Active active b) := by
  refine .of_evolve fun hs he => ?_
  cases b with
  | none => exact hs
  | some v =>
    exact ⟨hs.1, hs.2.1.evolve he, fun hc => (hs.2.2.1 hc).evolve he,
      fun hc => he.grown.forall_mem (P := fun _ k => k ≤ v.iteration) (hs.2.2.2 hc)⟩

theorem keeps_currentWisp {P : World → Prop} {active last : Option ID} [Steady P]
    (hdown : ∀ s, Sound κ τ s → P s → τ → Down s)
    (hactive : ∀ s, P s → s.metadata.activeWisp = active) :
    Keeps κ τ P (currentWisp active last) fun b s => P s ∧ Active active b s := by
  cases active with
  | none => exact keeps_pure fun s _ h => ⟨h, rfl⟩
  | some id =>
    refine keeps_read (R := fun b s => (b = none → False) ∧ ∀ v, b = some v →
      Active (some id) (some v) s) hdown (fun _ _ => rfl) ?_ fun b => ?_
    · intro s c hs h _
      refine ⟨fun hb => ?_, fun v hv => ?_⟩
      · obtain ⟨u, hu, huid⟩ := hs.1.active id (hactive s h)
        exact bead_eq_none.mp hb u hu huid
      · obtain ⟨hmem, hid⟩ := hs.1.bead_eq_some.mp hv
        refine ⟨by rw [hid], ⟨v, hmem, rfl, rfl⟩, fun hc => ⟨v, hmem, rfl, rfl, hc⟩,
          fun hopen u hu => ?_⟩
        by_contra hlt
        obtain ⟨x, hx, hxit, hxc⟩ := hs.1.chain u hu v.iteration (hs.1.positive v hmem)
          (by omega)
        rw [hs.1.eq_of_iteration hx hmem hxit, hopen] at hxc
        cases hxc
    · cases b with
      | none => exact Respects.of_false fun s _ h => h.2.1 rfl
      | some v =>
        exact keeps_pure fun s _ h => ⟨h.1, h.2.2 v rfl⟩

/-- Every wisp is closed, and what came before the wisp that the stop closed is processed. -/
structure Halting (τ : Prop) (forced last : Option ID) (s : World) : Prop where
  awake : ¬ s.metadata.state.Early
  marker : s.metadata.lastProcessedWisp = last
  closed : τ → ∀ v ∈ s.wisps, v.closed = true
  forced : ∀ w, forced = some w →
    ∃ n, Shut w n s ∧ (τ → ∀ v ∈ s.wisps, v.iteration < n → Emitted s.log v.id)

variable {forced last : Option ID} {m : Metadata}

theorem Halting.evolve (h : Halting τ forced last s) (he : Evolves s t) :
    Halting τ forced last t := by
  refine ⟨he.metadata ▸ h.awake, he.metadata ▸ h.marker, fun hτ v hv => ?_, fun w hw => ?_⟩
  · obtain ⟨u, hu, -, -, hc⟩ := he.grown.mem_right hv
    exact hc (h.closed hτ u hu)
  · obtain ⟨n, hshut, hbefore⟩ := h.forced w hw
    exact ⟨n, Shut.evolve hshut he, fun hτ => he.emitted (Q := (· < n)) (hbefore hτ)⟩

instance : Steady (Halting τ forced last) := .of_evolve Halting.evolve

theorem Halting.write_neutral (h : Halting τ forced last s) {x : MetaWrite}
    (hx : x.Neutral) : Halting τ forced last (s.write x) := by
  cases x <;> first
    | exact hx.elim
    | exact { h with }

theorem Sound.closeWisp (h : Sound κ τ s) (id : ID) : Sound κ τ (s.closeWisp id) :=
  ⟨h.1.closeWisp id, h.2.1, fun hτ => (h.2.2 hτ).closeWisp id⟩

theorem keeps_forceClose (hlast : m.lastProcessedWisp = last) :
    Keeps κ τ (Stoppable τ m) (forceClose m.activeWisp last)
      fun forced s => Stoppable τ m s ∧ Halting τ forced last s := by
  have hawake : ∀ s, Stoppable τ m s → ¬ s.metadata.state.Early := fun s h => by
    rw [h.metadata]
    exact h.awake
  have hmarker : ∀ s, Stoppable τ m s → s.metadata.lastProcessedWisp = last := fun s h => by
    rw [h.metadata, hlast]
  refine Respects.bind (keeps_currentWisp (fun _ _ h hτ => (h.idle hτ).down)
    fun _ h => by rw [h.metadata]) fun b => ?_
  cases b with
  | none =>
    refine keeps_pure fun s hs ⟨h, hnone⟩ => ⟨h, hawake s h, hmarker s h, ?_, ?_⟩
    · refine fun hτ => h.allClosed hs (fun a _ hact => ?_) hτ
      rw [hnone] at hact
      cases hact
    · rintro w ⟨⟩
  | some v =>
    dsimp only
    split_ifs with hc
    · refine keeps_pure fun s hs ⟨h, hact⟩ => ⟨h, hawake s h, hmarker s h, ?_, ?_⟩
      · refine fun hτ => h.allClosed hs (fun a ha hid => ?_) hτ
        obtain ⟨x, hx, hxid, -, hxc⟩ := hact.2.2.1 hc
        rw [hact.1] at hid
        rw [hs.1.eq_of_id ha hx ((Option.some.inj hid).symm.trans hxid.symm)]
        exact hxc
      · rintro w ⟨⟩
    · refine Respects.call (R := fun r s => if r = true then Stoppable τ m s ∧
        Halting τ (some v.id) last s else Stoppable τ m s)
        Steady.stays
        (fun _ _ h _ hτ => (h.1.idle hτ).down) ?_ fun r => ?_
      · rintro s c hs ⟨h, hact⟩ -
        by_cases ha : c.answer = .ok
        · simp only [exec, attempt, if_pos ha, if_true]
          have hs' := hs.closeWisp v.id
          have h' := h.evolve (.closeWisp s v.id)
          have hshut : ∀ a ∈ (s.closeWisp v.id).wisps, a.id = v.id → a.closed = true := by
            intro a ha hid
            obtain ⟨u, hu, rfl⟩ := List.mem_map.mp ha
            split_ifs at hid ⊢ with huid
            · rfl
            · exact absurd hid huid
          refine ⟨hs', h', hawake _ h', hmarker _ h', fun hτ => ?_, ?_⟩
          · refine h'.allClosed hs' (fun a ha hid => hshut a ha ?_) hτ
            rw [hact.1] at hid
            exact (Option.some.inj hid).symm
          · rintro w ⟨⟩
            obtain ⟨x, hx, hxid, hxit⟩ := Has.evolve hact.2.1 (.closeWisp s v.id)
            refine ⟨v.iteration, ⟨x, hx, hxid, hxit, hshut x hx hxid⟩, fun hτ u hu hlt => ?_⟩
            refine h'.before hτ x hx ?_ u hu (by omega)
            rw [hact.1, hxid]
        · simp only [exec, attempt, if_neg ha]
          exact ⟨hs, h⟩
      · cases r with
        | true => exact keeps_pure fun _ _ h => h
        | false => exact keeps_fail fun _ _ h => h.idle

theorem keeps_halting {x : MetaWrite} (hx : x.Neutral) :
    Keeps κ τ (Halting τ forced last) (setMetadata .stopping x) fun _ => Halting τ forced last :=
  keeps_set (never rfl) (never rfl)
    (fun _ hs h => hs.write_neutral (fun hm => h.awake (.inl hm)) hx)
    fun _ _ h => h.write_neutral hx

/-- The loop was stopped and its last iteration event is out. -/
structure Halted (τ : Prop) (forced last : Option ID) (s : World) : Prop where
  state : s.metadata.state = .terminated
  halting : Halting τ forced last s
  emitted : ∀ w, forced = some w → Emitted s.log w

theorem Halted.evolve (h : Halted τ forced last s) (he : Evolves s t) :
    Halted τ forced last t :=
  ⟨he.metadata ▸ h.state, h.halting.evolve he, fun w hw => (h.emitted w hw).mono he.log⟩

instance : Steady (Halted τ forced last) := .of_evolve Halted.evolve

theorem keeps_halt : Keeps κ τ (Halting τ forced last) (setMetadata .stopping (.state .terminated))
      fun _ s => Halting τ forced last s ∧ s.metadata.state = .terminated :=
  keeps_set (never rfl) (never rfl)
    (fun _ hs h => hs.terminate (fun hm => h.awake (.inl hm)) h.closed)
    fun _ _ h => ⟨{ h with awake := not_early_terminated }, rfl⟩

theorem keeps_emitForced (forced : Option ID) (n : ℕ) :
    Keeps κ τ (fun s => Halting τ forced last s ∧ s.metadata.state = .terminated)
      (emitForced n forced) fun _ => Halted τ forced last := by
  cases forced with
  | none => exact keeps_pure fun _ _ h => ⟨h.2, h.1, by rintro w ⟨⟩⟩
  | some w =>
    refine (keeps_emit (never rfl) (fun _ _ h => h.1.awake) (by simp)
      fun s h => ⟨h.1.evolve (.record s _), h.2⟩).post ?_
    rintro _ s - ⟨h, he⟩
    refine ⟨h.2, h.1, ?_⟩
    rintro _ ⟨⟩
    exact ⟨n, he⟩

theorem Halted.idle (h : Halted τ forced last s) : Idle s :=
  idle_of_terminated h.state

theorem keeps_emitHalted {e : Event} (he : e ≠ .created) : Keeps κ τ (Halted τ forced last) (emit e)
      fun _ s => Halted τ forced last s ∧ Entry.emit e ∈ s.log :=
  keeps_emit (fun _ _ h _ _ => h.idle.down) (fun _ _ h => h.halting.awake) he
    fun s h => h.evolve (.record s _)

theorem keeps_haltMarker (forced last : Option ID) :
    Rests κ τ (Halted τ forced last) (match forced.or last with
      | none => pure ()
      | some w => setMetadata .plain (.lastProcessedWisp (some w))) := by
  cases forced with
  | some w =>
    refine keeps_setIdle (fun _ h _ => h.idle) ?_ fun _ _ h _ => idle_of_terminated h.state
    intro s hs h
    obtain ⟨n, hshut, hbefore⟩ := h.halting.forced w rfl
    refine hs.write (hs.1.write_lastProcessedWisp (hs.1.present hshut.has)
      (hs.1.lt_next hshut.has)) trivial fun hτ => (hs.2.2 hτ).mark hs.1 hshut fun v hv hle => ?_
    rcases Nat.lt_or_eq_of_le hle with hlt | heq
    · exact hbefore hτ v hv hlt
    · obtain ⟨x, hx, rfl, hxit, -⟩ := hshut
      rw [hs.1.eq_of_iteration hv hx (heq.trans hxit.symm)]
      exact h.emitted _ rfl
  | none =>
    rw [Option.none_or]
    exact (keeps_sameMarker last (fun _ h => h.state)
      fun _ h => h.halting.marker).post fun _ _ _ h _ => h.idle

theorem keeps_stopLoop (user : String) (m : Metadata) :
    Rests κ τ (Stoppable τ m) (stopLoop user m.activeWisp m.lastProcessedWisp) := by
  refine Respects.bind (keeps_forceClose rfl) fun forced => ?_
  set last := m.lastProcessedWisp
  refine Respects.bind (keeps_deriveIterationCount fun _ _ h hτ => (h.1.idle hτ).down) fun n => ?_
  have hverdict : ∀ x : MetaWrite, x.Neutral → (∀ s : World, (s.write x).metadata = s.metadata) →
      Keeps κ τ (fun s => Stoppable τ m s ∧ Halting τ forced last s) (setMetadata .plain x)
        fun _ s => Stoppable τ m s ∧ Halting τ forced last s := by
    intro x hx hmeta
    refine keeps_setIdle (fun _ h => h.1.idle)
      (fun _ hs h => hs.write_neutral (fun hm => h.2.awake (.inl hm)) hx)
      fun s _ h => ⟨h.1.evolve ?_, h.2.write_neutral hx⟩
    exact ⟨hmeta s, rfl, fun _ hx => hx, .refl _⟩
  refine (keeps_then (hverdict (.agentVerdict "") trivial fun _ => rfl) (keeps_then
    (hverdict (.agentVerdictWisp none) trivial fun _ => rfl) ?_)).pre fun _ _ h => h.1
  refine keeps_then ?_ keeps_return
  refine keeps_then (R := fun s => Halting τ forced last s ∧ s.metadata.state = .terminated) ?_
    (keeps_then ?_ (keeps_haltMarker forced last))
  · refine keeps_then (R := Halting τ forced last) ?_ (keeps_then (keeps_halting trivial)
      (keeps_then (keeps_halting trivial) (keeps_then keeps_halt ?_)))
    · exact keeps_setIdle (fun _ h => h.1.idle)
        (fun _ hs h => hs.write_neutral (fun hm => h.2.awake (.inl hm)) trivial)
        fun _ _ h => h.2.write_neutral trivial
    · exact keeps_return
  · refine keeps_then (keeps_emitForced forced n) (keeps_then (keeps_emitHalted
      (by simp)) (keeps_then (R := Halted τ forced last) ?_ ?_))
    · exact keeps_closeRoot (fun _ _ h _ => h.1.idle)
        (fun _ hs h => hs.closeRoot (fun _ => h.1.state) fun _ _ => h.2)
        fun s _ h => h.1.evolve (.closeRoot s)
    · exact (keeps_emitHalted (by simp)).post fun _ _ _ h => h.1

theorem stoppable_of_active {b : Option Wisp} (hs : Sound κ τ s)
    (hm : s.metadata = m) (hlive : m.state.Live) (hidle : τ → Idle s)
    (hact : Active m.activeWisp b s) (hopen : ∀ v, b = some v → v.closed = false) :
    Stoppable τ m s := by
  refine ⟨hm, hlive.not_early, hlive.ne_terminated, hidle, fun _ a ha hid u hu => ?_⟩
  rw [hm] at hid
  cases b with
  | none =>
    rw [hact] at hid
    cases hid
  | some v =>
    obtain ⟨x, hx, hxid, hxit⟩ := hact.2.1
    rw [hact.1] at hid
    rw [hs.1.eq_of_id ha hx ((Option.some.inj hid).symm.trans hxid.symm), hxit]
    exact hact.2.2.2 (hopen v rfl) u hu

theorem keeps_stopHandler (user : String) : Rests κ τ (Resting τ) (stopHandler user) := by
  refine keeps_getMetadata (fun _ _ h hτ => (h hτ).down) fun m v => ?_
  dsimp only
  split_ifs with hdone hstate
  · exact keeps_pure fun _ _ h => h.1
  · exact keeps_fail fun _ _ h => h.1
  · have hlive : m.state.Live := by
      tauto
    refine Respects.bind (keeps_currentWisp (fun _ _ h hτ => (h.1 hτ).down)
      fun _ h => by rw [h.2]) fun b => ?_
    cases b with
    | none =>
      refine keeps_of_fact (fun _ _ h => h.2) fun hnone => ?_
      rw [← hnone]
      exact (keeps_stopLoop user m).pre fun s hs h =>
        stoppable_of_active hs h.1.2 hlive h.1.1 h.2 (by simp)
    | some b =>
      dsimp only
      split_ifs with hc
      · refine keeps_then (R := Settled τ) ?_ ?_
        · refine (keeps_handleWispClosed b.id).pre fun s hs h => ?_
          exact ⟨by rw [h.1.2]; exact hlive, by rw [h.1.2]; exact h.2.1, ⟨_, h.2.2.2.1 hc⟩, h.1.1⟩
        · refine keeps_getMetadata (fun _ _ h hτ => (h.2 hτ).1.down) fun m' v' => ?_
          split_ifs with hterm
          · exact keeps_pure fun _ _ h hτ => (h.1.2 hτ).1
          · exact (keeps_stopLoop user m').pre fun s hs h =>
              ⟨h.2, h.2 ▸ h.1.1, hterm, fun hτ => (h.1.2 hτ).1, fun hτ => (h.1.2 hτ).2⟩
      · refine keeps_of_fact (fun _ _ h => h.2.1) fun hsome => ?_
        rw [← hsome]
        exact (keeps_stopLoop user m).pre fun s hs h =>
          stoppable_of_active hs h.1.2 hlive h.1.1 h.2 (by simpa using hc)

end GasCity.Convergence
