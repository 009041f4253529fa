import GasCity.Convergence.Endings

/-! # Starts of an iteration

The operator's `Iterate`, the trigger and the rebuilding of an active loop: each counts the
closed wisps, pours the next one unless it exists, and names it as the active wisp.
-/

namespace GasCity.Convergence

open List

variable {κ τ : Prop} {c n : ℕ} {id : ID}

/-- After `c` closed wisps the loop may go on with the next one. -/
structure Resuming (κ τ : Prop) (c : ℕ) (s : World) : Prop where
  live : s.metadata.state.Live
  counted : Counted c s
  judged : ∀ g ∈ s.wisps, s.metadata.gateOutcomeWisp = some g.id → g.iteration ≤ c
  vacant : s.metadata.trigger = .none → s.metadata.activeWisp = none
  permitted : κ → 1 ≤ c → Permitted s.metadata s.log c
  idle : τ → Idle s
  room : τ → c + 1 ≤ s.metadata.maxIterations
  below : τ → ∀ v ∈ s.wisps, v.iteration ≤ c ∧ Emitted s.log v.id

/-- The wisp of iteration `n` is there to be named as the active wisp. -/
structure Naming (κ τ : Prop) (n : ℕ) (id : ID) (s : World) : Prop where
  settings : s.metadata.formula ≠ "" ∧ 1 ≤ s.metadata.maxIterations
  has : Has id n s
  top : ∀ v ∈ s.wisps, v.iteration ≤ n
  judged : ∀ g ∈ s.wisps, s.metadata.gateOutcomeWisp = some g.id → g.iteration < n
  permitted : κ → 2 ≤ n → Permitted s.metadata s.log (n - 1)
  before : τ → ∀ v ∈ s.wisps, v.iteration < n → Emitted s.log v.id
  last : τ → ∀ u ∈ s.wisps, s.metadata.lastProcessedWisp = some u.id → u.iteration < n
  terminal : τ → s.metadata.terminalReason = none
  unsealed : τ → s.root ≠ .closed

theorem Resuming.evolve {s t : World} (h : Resuming κ τ c s) (he : Evolves s t) :
    Resuming κ τ c t := by
  refine ⟨he.metadata ▸ h.live, h.counted.evolve he, ?_, he.metadata ▸ h.vacant, fun hκ hc => ?_,
    fun hτ => (h.idle hτ).evolve he, he.metadata ▸ h.room, fun hτ => ?_⟩
  · rw [he.metadata]
    exact he.grown.forall_mem (P := fun id k => _ = some id → k ≤ c) h.judged
  · rw [he.metadata]
    exact (h.permitted hκ hc).mono he.log
  · refine he.grown.forall_mem (P := fun id k => k ≤ c ∧ Emitted t.log id) fun v hv => ?_
    exact (h.below hτ v hv).imp_right (·.mono he.log)

instance : Steady (Resuming κ τ c) := .of_evolve Resuming.evolve

theorem Naming.evolve {s t : World} (h : Naming κ τ n id s) (he : Evolves s t)
    (hroot : t.root = s.root) : Naming κ τ n id t := by
  refine ⟨he.metadata ▸ h.settings, Has.evolve h.has he,
    he.grown.forall_mem (P := fun _ k => k ≤ n) h.top, ?_, fun hκ hn => ?_,
    fun hτ => he.emitted (Q := (· < n)) (h.before hτ), fun hτ => ?_, he.metadata ▸ h.terminal,
    hroot ▸ h.unsealed⟩
  · rw [he.metadata]
    exact he.grown.forall_mem (P := fun id k => _ = some id → k < n) h.judged
  · rw [he.metadata]
    exact (h.permitted hκ hn).mono he.log
  · rw [he.metadata]
    exact he.grown.forall_mem (P := fun id k => _ = some id → k < n) (h.last hτ)

instance : Steady (Naming κ τ n id) :=
  ⟨fun _ _ h hs => hs.evolve h.evolves h.root⟩

section Next

variable {E : World → Prop} {s : World}

theorem Resuming.terminal (h : Resuming κ τ c s) (hτ : τ) :
    s.metadata.terminalReason = none := by
  by_contra hr
  rcases (h.idle hτ).2 hr with hs | hs
  · exact h.live.ne_terminated hs
  · exact h.live.not_early (.inr hs)

theorem Resuming.permit (h : Resuming False τ c s)
    (hp : κ → 1 ≤ c → Permitted s.metadata s.log c) : Resuming κ τ c s :=
  { h with permitted := hp }

theorem Base.judged_le (h : Base s) {g : Wisp} (hg : g ∈ s.wisps)
    (hout : s.metadata.gateOutcomeWisp = some g.id) : g.iteration ≤ closedCount s.wisps := by
  obtain ⟨x, hx, hxid, hxc, -⟩ := h.judged _ hout
  rw [← h.eq_of_id hx hg hxid]
  exact (h.closed_iff hx).mp hxc

theorem Base.closedCount_lt_max (h : Base s) {k : ℕ} (hk : 1 ≤ k)
    (hlt : ∀ v ∈ s.wisps, v.iteration < k) : closedCount s.wisps + 1 ≤ k := by
  by_contra hle
  obtain ⟨u, hu, huk, -⟩ := h.exists_closed hk (by omega)
  have := hlt u hu
  omega

theorem Sound.resuming (hs : Sound κ τ s)
    (hwait : s.metadata.state = .waitingManual ∨ s.metadata.state = .waitingTrigger)
    (hvacant : s.metadata.trigger = .none → s.metadata.activeWisp = none)
    (hidle : τ → Idle s) (hroom : τ → closedCount s.wisps + 1 ≤ s.metadata.maxIterations) :
    Resuming False τ (closedCount s.wisps) s := by
  refine ⟨hwait.elim (fun h => .inr (.inl h)) fun h => .inr (.inr h), hs.1.counted,
    fun _ => hs.1.judged_le, hvacant, False.elim, hidle, hroom, fun hτ u hu => ?_⟩
  obtain ⟨hc, he⟩ := ((hidle hτ).1.waiting hwait).2 u hu
  exact ⟨(hs.1.closed_iff hu).mp hc, he⟩

theorem Resuming.unsealed (h : Resuming κ τ c s) (hs : Sound κ τ s) (hτ : τ) :
    s.root ≠ .closed :=
  fun hr => h.live.ne_terminated ((hs.2.2 hτ).sealed hr)

theorem Resuming.naming (h : Resuming κ τ c s) (hs : Sound κ τ s)
    (hid : Has id (c + 1) s) : Naming κ τ (c + 1) id s := by
  refine ⟨hs.1.settings h.live, hid, h.counted.top, fun g hg hout => ?_, fun hκ hn => ?_,
    fun hτ v hv _ => (h.below hτ v hv).2, fun hτ u hu _ => ?_, h.terminal, h.unsealed hs⟩
  · exact Nat.lt_succ_of_le (h.judged g hg hout)
  · exact h.permitted hκ (by omega)
  · exact Nat.lt_succ_of_le (h.below hτ u hu).1

theorem Sound.addNext (hs : Sound κ τ s) (h : Resuming κ τ c s)
    (hlack : Lacks (c + 1) s) : Sound κ τ (s.addWisp (c + 1) false) := by
  refine ⟨hs.1.addWisp false (Nat.le_add_left 1 c) hlack ?_ ?_ h.live.not_early, fun hκ => ?_,
    fun hτ => ?_⟩
  · exact fun k hk hlt => h.counted.all k hk (by omega)
  · intro ht a _ hact
    rw [h.vacant ht] at hact
    cases hact
  · exact (hs.2.1 hκ).addWisp fun hn => h.permitted hκ (by omega)
  · exact (hs.2.2 hτ).addWisp hs.1 (Nat.le_add_left 1 c) h.live.ne_terminated hlack (h.room hτ)

theorem Resuming.naming_addWisp (h : Resuming κ τ c s) (hs : Sound κ τ s) :
    Naming κ τ (c + 1) s.next (s.addWisp (c + 1) false) := by
  have hsub : s.log ⊆ (s.addWisp (c + 1) false).log := subset_append_left _ _
  have hmem : ∀ v ∈ (s.addWisp (c + 1) false).wisps,
      v ∈ s.wisps ∨ v.id = s.next ∧ v.iteration = c + 1 := by
    intro v hv
    rcases mem_append.mp hv with hv | hv
    · exact .inl hv
    · obtain rfl := mem_singleton.mp hv
      exact .inr ⟨rfl, rfl⟩
  refine ⟨hs.1.settings h.live, ⟨_, mem_append_right _ (mem_singleton_self _), rfl, rfl⟩,
    fun v hv => ?_, fun g hg hout => ?_, fun hκ hn => ?_, fun hτ v hv hlt => ?_,
    fun hτ u hu hl => ?_, h.terminal, h.unsealed hs⟩
  · rcases hmem v hv with hv | ⟨-, hit⟩
    · exact h.counted.top v hv
    · exact Nat.le_of_eq hit
  · rcases hmem g hg with hg | ⟨hid, -⟩
    · exact Nat.lt_succ_of_le (h.judged g hg hout)
    · obtain ⟨x, hx, hxid, -⟩ := hs.1.judged _ hout
      have hlt := hs.1.fresh x hx
      rw [hxid, hid] at hlt
      exact absurd hlt (Nat.lt_irrefl _)
  · exact (h.permitted hκ (by omega)).mono hsub
  · rcases hmem v hv with hv | ⟨-, hit⟩
    · exact (h.below hτ v hv).2.mono hsub
    · omega
  · rcases hmem u hu with hu | ⟨hid, -⟩
    · exact Nat.lt_succ_of_le (h.below hτ u hu).1
    · have hlt := hs.1.marked _ hl
      rw [hid] at hlt
      exact absurd hlt (Nat.lt_irrefl _)

theorem keeps_pourNext {α : Type} {f : Option ID → Handler α}
    {Q : α → World → Prop} [Steady E] (hadd : ∀ s, E s → E (s.addWisp (c + 1) false))
    (hsome : ∀ id, Keeps κ τ (fun s => Naming κ τ (c + 1) id s ∧ E s) (f (some id)) Q)
    (hnone : Keeps κ τ (fun s => (Resuming κ τ c s ∨ ¬ τ ∧ ∃ id, Naming κ τ (c + 1) id s) ∧ E s)
      (f none) Q) :
    Keeps κ τ (fun s => Resuming κ τ c s ∧ E s)
      (call (.pour .pouring (c + 1) false) >>= f) Q := by
  refine keeps_pour (fun _ _ h hτ _ => (h.1.idle hτ).down)
    (fun s hs h v hv hit => ⟨h.1.naming hs ⟨v, hv, rfl, hit⟩, h.2⟩)
    (fun s hs h hlack _ => ⟨hs.addNext h.1 hlack, h.1.naming_addWisp hs, hadd s h.2⟩) hsome
    (hnone.pre fun s _ h => ?_)
  rcases h with h | ⟨hτ, id, h⟩
  · exact ⟨.inl h.1, h.2⟩
  · exact ⟨.inr ⟨hτ rfl, id, h.1⟩, h.2⟩

theorem keeps_pourOrFindNext [Steady E] (hadd : ∀ s, E s → E (s.addWisp (c + 1) false)) :
    Keeps κ τ (fun s => Resuming κ τ c s ∧ E s) (pourOrFind .pouring (c + 1) false)
      fun r s => match r with
        | some id => Naming κ τ (c + 1) id s ∧ E s
        | none => τ → Idle s := by
  refine keeps_pourNext hadd (fun id => keeps_pure fun _ _ h => h) ?_
  have : Steady fun s => Resuming κ τ c s ∨ ¬ τ ∧ ∃ id, Naming κ τ (c + 1) id s := by
    refine ⟨fun s t h hs => ?_⟩
    rcases hs with hs | ⟨hτ, id, hs⟩
    · exact .inl (hs.evolve h.evolves)
    · exact .inr ⟨hτ, id, hs.evolve h.evolves h.root⟩
  have hidle : ∀ s, (Resuming κ τ c s ∨ ¬ τ ∧ ∃ id, Naming κ τ (c + 1) id s) → τ → Idle s := by
    rintro s (h | ⟨hτ, -⟩) hτ'
    · exact h.idle hτ'
    · exact absurd hτ' hτ
  refine keeps_findByKey (fun s _ h hτ => (hidle s h.1 hτ).down) fun b => ?_
  cases b with
  | none => exact keeps_pure fun s _ h => hidle s h.1.1
  | some id =>
    refine keeps_pure fun s hs ⟨⟨h, he⟩, hid⟩ => ⟨?_, he⟩
    rcases h with h | ⟨-, i, h⟩
    · exact h.naming hs hid
    · obtain ⟨v, hv, hvid, hvit⟩ := hid
      obtain ⟨u, hu, huid, huit⟩ := h.has
      rw [← hvid, hs.1.eq_of_iteration hv hu (hvit.trans huit.symm), huid]
      exact h

end Next

section Name

variable {E E' : World → Prop}

def MetaWrite.Names : MetaWrite → Prop
  | .iteration _ | .waitingReason _ | .agentVerdict _ | .agentVerdictWisp _ | .state _
  | .activeWisp _ | .pendingNextWisp _ => True
  | _ => False

variable {s : World} {x : MetaWrite}

theorem Naming.write (h : Naming κ τ n id s) (hx : x.Names) :
    Naming κ τ n id (s.write x) := by
  cases x <;> first
    | exact hx.elim
    | exact { h with }

theorem keeps_name (hx : x.Names) [Steady E] [Steady E']
    (hinv : ∀ s, Sound κ τ s → Naming κ τ n id s → E s → Sound κ τ (s.write x))
    (hpost : ∀ s, E s → E' (s.write x)) :
    Keeps κ τ (fun s => Naming κ τ n id s ∧ E s) (setMetadata .naming x)
      fun _ s => Naming κ τ n id s ∧ E' s :=
  keeps_set (never rfl) (never rfl)
    (fun s hs h => hinv s hs h.1 h.2) fun s _ h => ⟨h.1.write hx, hpost s h.2⟩

theorem keeps_nameNeutral (hx : x.Names) (hx' : x.Neutral) [Steady E]
    (hpost : ∀ s, E s → E (s.write x)) :
    Keeps κ τ (fun s => Naming κ τ n id s ∧ E s) (setMetadata .naming x)
      fun _ s => Naming κ τ n id s ∧ E s :=
  keeps_name hx (fun _ hs h _ => hs.write_neutral (hs.1.present h.has) hx') hpost

theorem Sound.nameActive (hs : Sound κ τ s) (h : Naming κ τ n id s)
    (hst : s.metadata.state ≠ .waitingManual) : Sound κ τ (s.write (.activeWisp (some id))) := by
  obtain ⟨a, ha, rfl, rfl⟩ := h.has
  refine hs.write (hs.1.write_activeWisp ha hst (fun _ v hv => ?_) h.judged) trivial
    fun hτ => (hs.2.2 hτ).write trivial
  exact Nat.le_succ_of_le (h.top v hv)

theorem Sound.resume (hs : Sound κ τ s) (h : Naming κ τ n id s) :
    Sound κ τ (s.write (.state .active)) :=
  hs.write (hs.1.write_state (hs.1.rooted (hs.1.present h.has))
    (State.Live.not_early (.inl rfl)) (by rintro ⟨⟩) fun _ => h.settings) trivial
    fun hτ => (hs.2.2 hτ).write_state (h.unsealed hτ) (by rintro ⟨⟩)

structure Named (id : ID) (s : World) : Prop where
  state : s.metadata.state = .active
  activeWisp : s.metadata.activeWisp = some id

instance : Steady (Named id) :=
  ⟨fun _ _ h hs => ⟨h.metadata ▸ hs.state, h.metadata ▸ hs.activeWisp⟩⟩

theorem Naming.settled (hs : Sound κ τ s) (h : Naming κ τ n id s) (hn : Named id s) :
    Settled τ s := by
  obtain ⟨a, ha, rfl, rfl⟩ := h.has
  refine ⟨?_, fun hτ => ⟨⟨⟨fun hw => ?_, fun hw => ?_, fun _ => .inr ⟨a, ha, ?_⟩⟩, fun hr => ?_⟩,
    fun b hb hact v hv => ?_⟩⟩
  · rw [hn.state]
    exact State.Live.not_early (.inl rfl)
  · rw [hn.state] at hw
    rcases hw with hw | hw <;> cases hw
  · rw [hn.state] at hw
    cases hw
  · refine ⟨hn.activeWisp, h.before hτ, fun v hv => Nat.le_succ_of_le (h.top v hv),
      fun v hv hit => ?_, h.last hτ⟩
    have := h.top v hv
    omega
  · exact absurd (h.terminal hτ) hr
  · rw [hn.activeWisp] at hact
    rw [← hs.1.eq_of_id ha hb (Option.some.inj hact)]
    exact h.top v hv

theorem keeps_emitNamed {e : Event} (he : e ≠ .created) :
    Rests κ τ (fun s => Naming κ τ n id s ∧ Named id s) (emit e) := by
  refine keeps_record (fun _ hs h hτ _ => ((h.1.settled hs h.2).2 hτ).1.down)
    (fun _ hs h => hs.emit (h.1.settled hs h.2).1 he) fun s hs h hτ => ?_
  exact ((h.1.settled hs h.2).2 hτ).1.evolve (.record s _)

end Name

theorem keeps_resumeLoop (m : Metadata) (v : Verdict) (k : ℕ) :
    Rests κ τ (Naming κ τ n id) (resumeLoop m v k id) := by
  have hneutral : ∀ x : MetaWrite, x.Names → x.Neutral →
      Keeps κ τ (Naming κ τ n id) (setMetadata .naming x) fun _ => Naming κ τ n id := by
    intro x hx hx'
    exact ((keeps_nameNeutral hx hx' fun _ h => h).pre
      fun _ _ h => ⟨h, trivial⟩).post fun _ _ _ h => h.1
  refine keeps_then (R := Naming κ τ n id) ?_ (keeps_then (R := fun s => Naming κ τ n id s ∧
    Named id s) ?_ (keeps_then (keeps_emitNamed (by simp))
      keeps_return))
  · unfold setIf
    split_ifs
    · exact keeps_then (hneutral _ trivial trivial) (keeps_then (hneutral _ trivial trivial)
        keeps_return)
    · exact keeps_return
  · refine keeps_then (hneutral _ trivial trivial) (keeps_then
      (R := fun s => Naming κ τ n id s ∧ s.metadata.state = .active) ?_ (keeps_then ?_
      keeps_return))
    · exact (keeps_name (x := .state .active) trivial (fun _ hs h _ => hs.resume h)
        fun _ _ => rfl).pre fun _ _ h => ⟨h, trivial⟩
    · exact keeps_name trivial
        (fun _ hs h hst => hs.nameActive h (by rw [hst]; simp)) fun _ hst => ⟨hst, rfl⟩

theorem keeps_iterateHandler : Rests κ τ (Resting τ) iterateHandler := by
  refine keeps_getMetadata (fun _ _ h hτ => (h hτ).down) fun m v => ?_
  dsimp only
  split_ifs with hstate
  · exact keeps_fail fun _ _ h => h.1
  · have hwait : m.state = .waitingManual := not_not.mp hstate
    have hlive : m.state.Live := .inr (.inl hwait)
    refine Respects.call (R := fun ws s => m.maxIterations ≤ closedCount ws ∧ (τ → Idle s) ∨
      Resuming κ τ (closedCount ws) s) Steady.stays (fun _ _ h _ hτ => (h.1 hτ).down) ?_
      fun ws => ?_
    · rintro s ch hs ⟨hidle, rfl⟩ -
      have hs' : Sound κ τ (s.record (.operator (closedCount s.wisps))) :=
        hs.record hlive.not_early (by simp) (by simp) (by simp)
      refine ⟨hs', ?_⟩
      by_cases hmax : s.metadata.maxIterations ≤ closedCount s.wisps
      · exact .inl ⟨hmax, fun hτ => (hidle hτ).evolve (.record s _)⟩
      · refine .inr (Resuming.permit ?_ fun _ _ => ?_)
        · exact (hs.resuming (.inl hwait) (fun _ => hs.1.manual hwait) hidle
            fun _ => not_le.mp hmax).evolve (.record s _)
        · exact .inr (.inl (mem_append_right _ (mem_singleton_self _)))
    · split_ifs with hmax
      · refine keeps_fail fun s _ h => ?_
        rcases h with h | h
        · exact h.2
        · exact h.idle
      · refine Respects.bind ((keeps_pourOrFindNext
          fun _ h => h).pre fun s _ h => ⟨h.resolve_left fun h => hmax h.1, trivial⟩) fun b => ?_
        cases b with
        | none => exact keeps_fail fun _ _ h => h
        | some id => exact (keeps_resumeLoop m v _).pre fun _ _ h => h.1

theorem keeps_activateNext {α : Type} {E : World → Prop} {f : Bool → Handler α}
    {Q : α → World → Prop} [Steady E] (hEr : ∀ s v, E s → E (s.reveal v))
    (hok : Keeps κ τ (fun s => Naming κ τ n id s ∧ E s) (f true) Q)
    (hfail : Keeps κ τ (Resting τ) (f false) Q) :
    Keeps κ τ (fun s => Naming κ τ n id s ∧ E s) (call (.activate .naming id) >>= f) Q := by
  refine keeps_activate (never rfl) ?_ ?_ ?_ (fun _ _ _ hsite => by cases hsite) hok hfail
  · intro s hs h v hv hvid
    refine hs.reveal hv fun hκ htwo => ?_
    obtain ⟨u, hu, huid, huit⟩ := h.1.has
    rw [hs.1.eq_of_id hv hu (hvid.trans huid.symm), huit] at htwo ⊢
    exact h.1.permitted hκ htwo
  · exact fun s _ h v _ _ => ⟨h.1.evolve (.reveal s v) rfl, hEr s v h.2⟩
  · intro s _ h hmissing
    obtain ⟨u, hu, huid, -⟩ := h.1.has
    exact absurd huid (hmissing u hu)

theorem keeps_advanceFromTrigger {c : ℕ} :
    Rests κ τ (fun s => Resuming κ τ c s ∧ s.metadata.state = .waitingTrigger)
      (advanceFromTrigger (c + 1)) := by
  refine Respects.bind (keeps_pourOrFindNext fun _ h => h) fun b => ?_
  cases b with
  | none => exact keeps_fail fun _ _ h => h
  | some id =>
    refine keeps_activateNext (fun _ _ h => h) ?_ (keeps_fail fun _ _ h => h)
    refine keeps_then (R := fun s => Naming κ τ (c + 1) id s ∧ Named id s) ?_
      (keeps_then (keeps_emitNamed (by simp)) keeps_return)
    · refine keeps_then (keeps_nameNeutral trivial trivial fun _ h => h)
        (keeps_then (R := fun s => Naming κ τ (c + 1) id s ∧ s.metadata.activeWisp = some id) ?_
          (keeps_then ?_ keeps_return))
      · exact keeps_name trivial
          (fun _ hs h hst => hs.nameActive h (by rw [hst]; simp)) fun _ _ => rfl
      · exact keeps_name trivial (fun _ hs h _ => hs.resume h) fun _ hact => ⟨rfl, hact⟩

theorem keeps_handleTrigger : Rests κ τ (Resting τ) handleTrigger := by
  refine keeps_getMetadata (fun _ _ h hτ => (h hτ).down) fun m v => ?_
  dsimp only
  split_ifs with hstate htrigger
  · exact keeps_pure fun _ _ h => h.1
  · exact keeps_fail fun _ _ h => h.1
  · have hwait : m.state = .waitingTrigger := not_not.mp hstate
    have hevent : m.trigger = .event := not_not.mp htrigger
    have hlive : m.state.Live := .inr (.inr hwait)
    refine Respects.bind (R := fun c s => Resuming False τ c s ∧ s.metadata = m) ?_ fun c => ?_
    · refine keeps_read (R := fun ws s => Resuming False τ (closedCount ws) s)
        (fun _ _ h hτ => (h.1 hτ).down) (fun _ _ => rfl) ?_ fun ws => ?_
      · rintro s - hs ⟨hidle, rfl⟩ -
        refine hs.resuming (.inr hwait) (fun hnone => ?_) hidle fun hτ => ?_
        · rw [hevent] at hnone
          cases hnone
        · exact hs.1.closedCount_lt_max (hs.1.settings hlive).2 ((hidle hτ).1.room hwait)
      · exact keeps_pure fun _ _ h => ⟨h.2, h.1.2⟩
    · split_ifs with hlimit
      · exact keeps_fail fun _ _ h => h.1.idle
      · refine Respects.call (R := fun o s => if o = Outcome.pass then Resuming κ τ c s ∧
          s.metadata.state = .waitingTrigger else τ → Idle s) Steady.stays
          (fun _ _ h _ hτ => (h.1.idle hτ).down) ?_ fun o => ?_
        · rintro s ch hs ⟨h, rfl⟩ -
          simp only [exec, Nat.add_sub_cancel]
          by_cases ho : ch.outcome = .pass
          · rw [if_pos ho, if_pos ho]
            refine ⟨hs.record hlive.not_early (by simp) (by simp) (by simp),
              (h.evolve (.record s _)).permit fun _ _ => ?_, hwait⟩
            exact .inr (.inr (mem_append_right _ (mem_singleton_self _)))
          · rw [if_neg ho, if_neg ho]
            exact ⟨hs, h.idle⟩
        · split_ifs with ho
          · exact keeps_advanceFromTrigger
          · exact keeps_return

section Rebuild

variable {s : World}

theorem Resuming.write_pending (h : Resuming κ τ c s) (x : Option ID) :
    Resuming κ τ c (s.write (.pendingNextWisp x)) :=
  ⟨h.live, ⟨h.counted.top, h.counted.closed, h.counted.all⟩, h.judged, h.vacant, h.permitted,
    fun hτ => (h.idle hτ).frame (sameFrame_pending s x), h.room, h.below⟩

theorem Sound.clearPending (hs : Sound κ τ s) (hlive : s.metadata.state.Live) :
    Sound κ τ (s.write (.pendingNextWisp none)) :=
  hs.sameFrame (hs.1.write_pendingNextWisp hlive.not_early fun hp => absurd rfl hp)
    (sameFrame_pending s none)

theorem keeps_pendingNext {E : World → Prop} [Steady E]
    (hEw : ∀ s x, E s → E (s.write (.pendingNextWisp x))) (pending : Option ID) :
    Keeps κ τ (fun s => Resuming κ τ c s ∧ E s) (validPendingNextWisp n pending)
      fun r s => (Resuming κ τ c s ∧ E s) ∧ ∀ id, r = some id → Has id n s := by
  have (r : Option ID) : Steady fun s => ∀ id, r = some id → Has id n s :=
    ⟨fun _ _ h hs id hid => (hs id hid).evolve h.evolves⟩
  have hclear : Keeps κ τ (fun s => Resuming κ τ c s ∧ E s) (do
      trySetMetadata (.pendingNextWisp none)
      pure none) fun r s => (Resuming κ τ c s ∧ E s) ∧ ∀ id, r = some id → Has id n s := by
    refine keeps_then ?_
      (keeps_pure fun _ _ h => ⟨h, by simp⟩)
    exact keeps_trySet (fun _ _ h hτ => (h.1.idle hτ).down)
      (fun _ hs h => hs.clearPending h.1.live) (fun _ _ h => h)
      fun s _ h => ⟨h.1.write_pending none, hEw s none h.2⟩
  cases pending with
  | none => exact keeps_pure fun _ _ h => ⟨h, by simp⟩
  | some id =>
    refine keeps_getBead (fun _ _ h hτ => (h.1.idle hτ).down) fun b => ?_
    cases b with
    | none => exact hclear.pre fun _ _ h => h.1
    | some v =>
      dsimp only
      split_ifs with hv
      · refine keeps_pure fun s _ h => ⟨h.1, ?_⟩
        rintro _ ⟨⟩
        exact hv.1 ▸ h.2.2.1
      · exact hclear.pre fun _ _ h => h.1

theorem keeps_adoptRebuilt (id : ID) :
    Rests κ τ (fun s => Naming κ τ n id s ∧ s.metadata.state = .active) (adoptRebuilt id) := by
  refine keeps_activateNext (fun _ _ h => h) ?_ (keeps_fail fun _ _ h => h)
  refine keeps_then (R := fun s => Naming κ τ n id s ∧ Named id s) ?_ ?_
  · exact keeps_name trivial
      (fun _ hs h hst => hs.nameActive h (by rw [hst]; simp)) fun _ hst => ⟨hst, rfl⟩
  · refine keeps_trySet (fun _ hs h hτ => ((h.1.settled hs h.2).2 hτ).1.down)
      (fun _ hs h => hs.clearPending (.inl h.2.state))
      (fun _ hs h hτ => ((h.1.settled hs h.2).2 hτ).1) fun s hs h hτ => ?_
    exact ((h.1.settled hs h.2).2 hτ).1.frame (sameFrame_pending s none)

structure Unnamed (τ : Prop) (s : World) : Prop where
  state : s.metadata.state = .active
  activeWisp : s.metadata.activeWisp = none
  idle : τ → Idle s

instance : Steady (Unnamed τ) :=
  ⟨fun _ _ h hs => ⟨h.metadata ▸ hs.state, h.metadata ▸ hs.activeWisp,
    fun hτ => (hs.idle hτ).evolve h.evolves⟩⟩

theorem Unnamed.wisps_eq_nil (h : Unnamed τ s) (hτ : τ) : s.wisps = [] := by
  rcases (h.idle hτ).1.active h.state with ⟨-, hw⟩ | ⟨a, -, hcur⟩
  · exact hw
  · have := hcur.named
    rw [h.activeWisp] at this
    cases this

theorem keeps_rebuildActive (m : Metadata) : Rests κ τ (Unnamed τ) (rebuildActive m) := by
  refine keeps_read (R := fun ws s => Resuming κ τ (closedCount ws) s ∧ s.metadata.state = .active)
    (fun _ _ h hτ => (h.idle hτ).down) (fun _ _ => rfl) ?_ fun ws => ?_
  · intro s ch hs h hadm
    have hlive : s.metadata.state.Live := .inl h.state
    refine ⟨⟨hlive, hs.1.counted, fun _ => hs.1.judged_le, fun _ => h.activeWisp, fun hκ hc => ?_,
      h.idle, fun hτ => ?_, fun hτ v hv => ?_⟩, h.state⟩
    · rcases hadm.1 hκ rfl with hzero | ⟨v, hv, hit, hhid⟩
      · change 1 ≤ closedCount s.wisps at hc
        omega
      · exact hs.2.1 hκ _ hc (hit ▸ hs.1.shown v hv hhid)
    · change closedCount s.wisps + 1 ≤ s.metadata.maxIterations
      rw [h.wisps_eq_nil hτ]
      exact (hs.1.settings hlive).2
    · rw [h.wisps_eq_nil hτ] at hv
      cases hv
  · refine Respects.bind ((keeps_pendingNext (fun _ _ h => h) m.pendingNextWisp).pre
      fun _ _ h => h.2) fun r => ?_
    cases r with
    | some id =>
      exact (keeps_adoptRebuilt id).pre fun _ hs h => ⟨h.1.1.naming hs (h.2 id rfl), h.1.2⟩
    | none =>
      refine (keeps_findByKey (fun _ _ h hτ => (h.1.idle hτ).down) fun b => ?_).pre fun _ _ h => h.1
      cases b with
      | some id => exact (keeps_adoptRebuilt id).pre fun _ hs h => ⟨h.1.1.naming hs h.2, h.1.2⟩
      | none =>
        refine (keeps_pourNext (fun _ h => h) keeps_adoptRebuilt ?_).pre fun _ _ h => h.1
        refine keeps_fail fun s _ h => ?_
        rcases h.1 with h | ⟨hτ, -⟩
        · exact h.idle
        · exact fun hτ' => absurd hτ' hτ

end Rebuild

end GasCity.Convergence
