import GasCity.Convergence.Beginnings

/-! # Creation of a loop

The writes of a creation on a root without wisps, the first wisp, and the rollback after a
failed write.
-/

namespace GasCity.Convergence

open List

variable {κ τ : Prop}

structure Metadata.Bare (m : Metadata) : Prop where
  activeWisp : m.activeWisp = none
  lastProcessedWisp : m.lastProcessedWisp = none
  pendingNextWisp : m.pendingNextWisp = none
  gateOutcomeWisp : m.gateOutcomeWisp = none
  terminalReason : m.terminalReason = none

structure Forming (s : World) : Prop where
  blank : Blank s
  bare : s.metadata.Bare
  rooted : s.root ≠ .absent
  unformed : s.metadata.state = .missing → s.metadata = {}
  settings : s.metadata.state.Live → s.metadata.formula ≠ "" ∧ 1 ≤ s.metadata.maxIterations
  sealed : s.root = .closed → s.metadata.state = .terminated

instance : Steady Forming := by
  refine ⟨fun s t h hs => ?_⟩
  refine ⟨Steady.stays s t h hs.blank, h.metadata ▸ hs.bare, h.root ▸ hs.rooted,
    h.metadata ▸ hs.unformed, h.metadata ▸ hs.settings, fun hr => ?_⟩
  rw [h.metadata]
  exact hs.sealed (h.root ▸ hr)

namespace Forming

variable {s : World}

variable (h : Forming s)
include h

theorem not_mem (v : Wisp) : v ∉ s.wisps := by
  rw [h.blank.1]
  exact not_mem_nil

theorem not_mem_log (e : Entry) : e ∉ s.log := by
  rw [h.blank.2]
  exact not_mem_nil

theorem base : Base s := by
  have hmem := h.not_mem
  refine ⟨fun v hv => absurd hv (hmem v), ?_, ?_, fun v hv => absurd hv (hmem v),
    fun v hv => absurd hv (hmem v), fun id hid => ?_, fun _ a ha => absurd ha (hmem a),
    fun id hid => ?_, fun hne => absurd h.bare.gateOutcomeWisp hne,
    fun a ha => absurd ha (hmem a), fun _ => h.bare.activeWisp, h.settings,
    fun _ => ⟨h.blank.1, h.blank.2, h.bare.activeWisp, h.bare.gateOutcomeWisp,
      h.bare.pendingNextWisp⟩, fun hr => absurd hr h.rooted, h.unformed,
    fun hne => absurd h.bare.pendingNextWisp hne, fun id hid => ?_,
    fun v hv => absurd hv (hmem v)⟩
  · rw [h.blank.1]
    exact nodup_nil
  · rw [h.blank.1]
    exact nodup_nil
  · rw [h.bare.activeWisp] at hid
    cases hid
  · rw [h.bare.gateOutcomeWisp] at hid
    cases hid
  · rw [h.bare.lastProcessedWisp] at hid
    cases hid

theorem sound : Sound κ τ s := by
  refine ⟨h.base, fun _ n _ hp => ?_, fun _ => ⟨fun _ v hv => absurd hv (h.not_mem v),
    fun _ _ hp => absurd hp (h.not_mem_log _), fun v hv => absurd hv (h.not_mem v),
    fun u hu => absurd hu (h.not_mem u), fun _ hc => absurd hc (h.not_mem_log _), h.sealed⟩⟩
  rcases hp with hp | hp <;> exact absurd hp (h.not_mem_log _)

theorem idle : Idle s :=
  ⟨⟨fun _ => ⟨h.bare.activeWisp, fun v hv => absurd hv (h.not_mem v)⟩,
    fun _ v hv => absurd hv (h.not_mem v), fun _ => .inl ⟨h.bare.activeWisp, h.blank.1⟩⟩,
    fun hr => absurd h.bare.terminalReason hr⟩

theorem write {x : MetaWrite}
    (hseal : s.root = .closed → (s.metadata.write x).state = .terminated)
    (hbare : (s.metadata.write x).Bare)
    (hstate : (s.metadata.write x).state ≠ .missing)
    (hset : (s.metadata.write x).state.Live →
      (s.metadata.write x).formula ≠ "" ∧ 1 ≤ (s.metadata.write x).maxIterations) :
    Forming (s.write x) :=
  ⟨h.blank, hbare, h.rooted, fun hm => absurd hm hstate, hset, hseal⟩

theorem terminate : Forming (s.write (.state .terminated)) :=
  h.write (fun _ => rfl) ⟨h.bare.activeWisp, h.bare.lastProcessedWisp, h.bare.pendingNextWisp,
    h.bare.gateOutcomeWisp, h.bare.terminalReason⟩ (by simp [Metadata.write])
    fun hl => absurd hl not_live_terminated

theorem resuming (hs : s.metadata.state = .active) : Resuming κ τ 0 s := by
  have hmem := h.not_mem
  have hlive : s.metadata.state.Live := .inl hs
  refine ⟨hlive, ⟨fun v hv => absurd hv (hmem v), fun v hv => absurd hv (hmem v), ?_⟩,
    fun g hg => absurd hg (hmem g), fun _ => h.bare.activeWisp, fun _ hc => by omega,
    fun _ => h.idle, fun _ => (h.settings hlive).2, fun _ v hv => absurd hv (hmem v)⟩
  intro k hk hle
  omega

end Forming

def Rollable (τ : Prop) (s : World) : Prop :=
  s.root ≠ .absent ∧ (τ → Forming s)

instance : Steady (Rollable τ) :=
  ⟨fun s t h hs => ⟨h.root ▸ hs.1, fun hτ => Steady.stays s t h (hs.2 hτ)⟩⟩

theorem Forming.rollable {s : World} (h : Forming s) : Rollable τ s :=
  ⟨h.rooted, fun _ => h⟩

theorem keeps_rollBack {Q : Unit → World → Prop} : Keeps κ τ (Rollable τ) rollBack Q := by
  have hterminate : ∀ s, Sound κ τ s → Rollable τ s → Sound κ τ (s.write (.state .terminated)) :=
    fun s hs h => hs.write (hs.1.write_state h.1 not_early_terminated (by rintro ⟨⟩) fun hl =>
      absurd hl not_live_terminated) trivial fun hτ =>
      (hs.2.2 hτ).terminate fun v hv => absurd hv ((h.2 hτ).not_mem v)
  refine Respects.call (R := fun _ s => Rollable τ s ∧ (τ → s.metadata.state = .terminated))
    Steady.stays (fun _ _ h _ hτ => (h.2 hτ).idle.down) ?_ fun _ => ?_
  · intro s c hs h hc
    by_cases ha : c.answer = .ok
    · simp only [exec, attempt, if_pos ha]
      exact ⟨hterminate s hs h, ⟨h.1, fun hτ => (h.2 hτ).terminate⟩, fun _ => rfl⟩
    · simp only [exec, attempt, if_neg ha]
      exact ⟨hs, h, fun hτ => absurd ((hc.2 hτ).1 rfl) ha⟩
  · refine Respects.call Steady.stays
      (fun _ _ h _ hτ => (h.1.2 hτ).idle.down) ?_ fun _ => keeps_fail fun _ _ h => h
    intro s c hs h _
    by_cases ha : c.answer = .ok
    · simp only [exec, attempt, if_pos ha]
      exact ⟨hs.closeRoot h.2 fun hτ hc => absurd hc ((h.1.2 hτ).not_mem_log _),
        fun hτ => (h.1.2 hτ).idle.evolve (.closeRoot s)⟩
    · simp only [exec, attempt, if_neg ha]
      exact ⟨hs, fun hτ => (h.1.2 hτ).idle⟩

variable {m : Metadata} {x : MetaWrite}

theorem keeps_createWrite {site : Site} {P Q : World → Prop} [Steady P] [Steady Q]
    (hdown : ∀ s, Sound κ τ s → P s → τ → site.stoppable = true → Down s)
    (hroll : ∀ s, Sound κ τ s → P s → (τ → site.refusable = true) → Rollable τ s)
    (hinv : ∀ s, Sound κ τ s → P s → Sound κ τ (s.write x))
    (hpost : ∀ s, Sound κ τ s → P s → Q (s.write x)) :
    Keeps κ τ P (createWrite site x) fun _ => Q :=
  keeps_write hdown hinv hpost hroll keeps_return keeps_rollBack

/-- An open root with the metadata `m` of which nothing has come yet. -/
def Formed (m : Metadata) (s : World) : Prop :=
  Forming s ∧ s.metadata = m ∧ s.root = .opened

instance : Steady (Formed m) :=
  inferInstanceAs (Steady fun s => Forming s ∧ s.metadata = m ∧ s.root = .opened)

theorem keeps_formed (hbare : (m.write x).Bare) (hstate : (m.write x).state ≠ .missing)
    (hset : (m.write x).state.Live →
      (m.write x).formula ≠ "" ∧ 1 ≤ (m.write x).maxIterations) :
    Keeps κ τ (Formed m) (createWrite .plain x) fun _ => Formed (m.write x) := by
  have hwrite : ∀ s, Formed m s → Forming (s.write x) := by
    rintro s ⟨h, rfl, hr⟩
    refine h.write (fun hc => ?_) hbare hstate hset
    rw [hr] at hc
    cases hc
  refine keeps_createWrite (fun _ _ h _ _ => h.1.idle.down)
    (fun _ _ h _ => h.1.rollable) (fun s _ h => (hwrite s h).sound) fun s _ h => ?_
  exact ⟨hwrite s h, congrArg (Metadata.write · x) h.2.1, h.2.2⟩

def MetaWrite.Setting : MetaWrite → Prop
  | .formula _ | .maxIterations _ | .gateMode _ | .gateCondition _ | .gateTimeoutAction _
  | .trigger _ | .triggerCondition _ => True
  | _ => False

theorem Metadata.Bare.write (h : m.Bare) (hx : x.Setting) :
    (m.write x).Bare ∧ (m.write x).state = m.state := by
  cases x <;> first
    | exact hx.elim
    | exact ⟨{ h with }, rfl⟩

theorem keeps_createWrites (xs : List MetaWrite) (hxs : ∀ x ∈ xs, x.Setting)
    (hm : m.Bare) (hst : m.state = .creating) :
    Keeps κ τ (Formed m) (createWrites xs) fun _ => Formed (xs.foldl Metadata.write m) := by
  induction xs generalizing m with
  | nil => exact keeps_return
  | cons x xs ih =>
    rw [forall_mem_cons] at hxs
    obtain ⟨hbare, hstate⟩ := hm.write hxs.1
    rw [hst] at hstate
    refine keeps_then (keeps_formed hbare (by rw [hstate]; simp) fun hl => ?_)
      (ih hxs.2 hbare hstate)
    rw [hstate] at hl
    exact absurd (.inr rfl) hl.not_early

def CreateParams.metadata (p : CreateParams) : Metadata :=
  { state := .creating, formula := p.formula, maxIterations := p.maxIterations,
    gateMode := p.gateMode, gateCondition := p.gateCondition,
    gateTimeoutAction := p.gateTimeoutAction, trigger := p.trigger,
    triggerCondition := p.triggerCondition }

theorem keeps_createSettings (p : CreateParams) :
    Keeps κ τ (Formed { state := .creating }) (createWrites p.writes)
      fun _ => Formed p.metadata := by
  refine keeps_createWrites p.writes (fun x hx => ?_) ⟨rfl, rfl, rfl, rfl, rfl⟩ rfl
  simp only [CreateParams.writes, mem_cons, not_mem_nil, or_false] at hx
  rcases hx with rfl | rfl | rfl | rfl | rfl | rfl | rfl <;> trivial

section Create

variable {p : CreateParams}

theorem formed_createRoot {s : World} (h : Base s) (hr : s.root = .absent) :
    Formed {} { s with root := .opened } := by
  have hmissing := h.born hr
  have hm := h.unformed hmissing
  obtain ⟨hw, hl, -⟩ := h.early (.inl hmissing)
  refine ⟨⟨⟨hw, hl⟩, ?_, by simp, fun _ => hm, fun hlive => ?_, by simp⟩, hm, rfl⟩
  · rw [hm]
    exact ⟨rfl, rfl, rfl, rfl, rfl⟩
  · exact absurd (.inl hmissing) hlive.not_early

variable {P : World → Prop}

theorem keeps_emitCreated [Steady P]
    (hsettled : ∀ s, Sound κ τ s → P s → ¬ s.metadata.state.Early ∧ (τ → Idle s))
    (hroot : ∀ s, P s → s.root = .opened) :
    Rests κ τ P (emit .created) :=
  keeps_record (fun s hs h hτ _ => ((hsettled s hs h).2 hτ).down)
    (fun s hs h => hs.record (hsettled s hs h).1 (by simp) (by simp) fun _ => by
      rw [hroot s h]
      simp)
    fun s hs h hτ => ((hsettled s hs h).2 hτ).evolve (.record s _)

theorem keeps_createTriggered (hf : p.formula ≠ "") (hmax : p.maxIterations ≠ 0) :
    Rests κ τ (Formed p.metadata) (do
      createWrite .plain (.iteration 0)
      createWrite .plain (.state .waitingTrigger)
      emit .created) := by
  have hset : p.formula ≠ "" ∧ 1 ≤ p.maxIterations := ⟨hf, Nat.one_le_iff_ne_zero.mpr hmax⟩
  refine keeps_then (keeps_formed ⟨rfl, rfl, rfl, rfl, rfl⟩ (by simp [Metadata.write,
    CreateParams.metadata]) fun _ => hset) (keeps_then (keeps_formed ⟨rfl, rfl, rfl, rfl, rfl⟩
    (by simp [Metadata.write]) fun _ => hset) ?_)
  refine keeps_emitCreated (fun s _ h => ⟨?_, fun _ => h.1.idle⟩) fun _ h => h.2.2
  rw [h.2.1]
  exact State.Live.not_early (.inr (.inr rfl))

theorem keeps_createNames (id : ID) :
    Rests κ τ (fun s => Naming κ τ 1 id s ∧ s.metadata.state = .active ∧ s.root = .opened) (do
      createWrite .naming (.activeWisp (some id))
      createWrite .naming (.iteration 1)
      emit .created) := by
  refine keeps_then (R := fun s => (Naming κ τ 1 id s ∧ Named id s) ∧ s.root = .opened) ?_
    (keeps_then (R := fun s => (Naming κ τ 1 id s ∧ Named id s) ∧ s.root = .opened) ?_ ?_)
  · refine keeps_createWrite (never rfl)
      (fun s _ h hsite => ⟨by rw [h.2.2]; simp, fun hτ => by cases hsite hτ⟩)
      (fun s hs h => hs.nameActive h.1 (by rw [h.2.1]; simp)) fun s _ h => ?_
    exact ⟨⟨h.1.write trivial, h.2.1, rfl⟩, h.2.2⟩
  · refine keeps_createWrite (never rfl)
      (fun s _ h hsite => ⟨by rw [h.2]; simp, fun hτ => by cases hsite hτ⟩)
      (fun s hs h => hs.write_neutral (hs.1.present h.1.1.has) trivial) fun s _ h => ?_
    exact ⟨⟨h.1.1.write trivial, h.1.2.state, h.1.2.activeWisp⟩, h.2⟩
  · refine keeps_emitCreated (fun s hs h => ?_) fun _ h => h.2
    have hsettled := h.1.1.settled hs h.1.2
    exact ⟨hsettled.1, fun hτ => (hsettled.2 hτ).1⟩

theorem keeps_createActive (hf : p.formula ≠ "") (hmax : p.maxIterations ≠ 0) :
    Rests κ τ (Formed p.metadata) (do
      createWrite .plain (.state .active)
      match ← call (.pour .pouring 1 false) with
      | none => rollBack
      | some id => do
        createWrite .naming (.activeWisp (some id))
        createWrite .naming (.iteration 1)
        emit .created) := by
  have hset : p.formula ≠ "" ∧ 1 ≤ p.maxIterations := ⟨hf, Nat.one_le_iff_ne_zero.mpr hmax⟩
  refine keeps_then (keeps_formed ⟨rfl, rfl, rfl, rfl, rfl⟩ (by simp [Metadata.write])
    fun _ => hset) ?_
  set m := p.metadata.write (.state .active)
  refine keeps_pour (fun _ _ h _ _ => h.1.idle.down) ?_ ?_ keeps_createNames ?_
  · exact fun s _ h v hv => absurd hv (h.1.not_mem v)
  · rintro s hs ⟨h, hm, hr⟩ hlack -
    have hresume : Resuming κ τ 0 s := h.resuming (by rw [hm]; rfl)
    refine ⟨hs.addNext hresume hlack, hresume.naming_addWisp hs, ?_, hr⟩
    change s.metadata.state = .active
    rw [hm]
    rfl
  · refine keeps_rollBack.pre fun s _ h => ?_
    rcases h with h | ⟨hτ, id, -, -, hr⟩
    · exact h.1.rollable
    · exact ⟨by rw [hr]; simp, fun hτ' => absurd hτ' (hτ rfl)⟩

theorem keeps_ite {α : Type} {φ : Prop} [Decidable φ] {q q' : Handler α}
    {Q : α → World → Prop} (h : φ → Keeps κ τ P q Q) (h' : ¬ φ → Keeps κ τ P q' Q) :
    Keeps κ τ P (if φ then q else q') Q := by
  split_ifs with hφ
  · exact h hφ
  · exact h' hφ

theorem keeps_createHandler (p : CreateParams) : Rests κ τ (Resting τ) (createHandler p) := by
  refine keeps_ite (fun _ => keeps_fail fun _ _ h => h) fun hf => ?_
  refine keeps_ite (fun _ => keeps_fail fun _ _ h => h) fun _ => ?_
  refine keeps_ite (fun _ => keeps_fail fun _ _ h => h) fun hmax => ?_
  refine keeps_ite (fun _ => keeps_fail fun _ _ h => h) fun _ => ?_
  refine Respects.call (R := fun r s => if r = true then Formed {} s else τ → Idle s)
    Steady.stays (fun _ _ h _ hτ => (h hτ).down) ?_ fun r => ?_
  · intro s c hs h _
    by_cases hok : s.root = .absent ∧ c.answer = .ok
    · simp only [exec, if_pos hok, if_true]
      have hf := formed_createRoot hs.1 hok.1
      exact ⟨hf.1.sound, hf⟩
    · simp only [exec, if_neg hok]
      exact ⟨hs, h⟩
  · cases r with
    | false => exact keeps_fail fun _ _ h => h
    | true =>
      refine keeps_then ?_ (keeps_then
        (keeps_createSettings p) ?_)
      · exact keeps_formed ⟨rfl, rfl, rfl, rfl, rfl⟩ (by simp [Metadata.write]) fun hl =>
          absurd (.inr rfl) hl.not_early
      · exact keeps_ite (fun _ => keeps_createTriggered hf hmax) fun _ =>
          keeps_createActive hf hmax

end Create

theorem keeps_reconcileMissingState :
    Rests κ τ (fun s => s.metadata.state = .missing) reconcileMissingState := by
  have hidle : ∀ s, Sound κ τ s → s.metadata.state = .missing → Idle s := fun s hs h =>
    idle_of_early (.inl h) fun hr => by
      rw [hs.1.unformed h] at hr
      exact absurd rfl hr
  have hempty : ∀ s, Sound κ τ s → s.metadata.state = .missing → ∀ v, v ∉ s.wisps := by
    intro s hs h v
    rw [(hs.1.early (.inl h)).1]
    exact not_mem_nil
  refine keeps_findByKey (fun s hs h _ => (hidle s hs h).down) fun b => ?_
  cases b with
  | some id =>
    refine Respects.of_false fun s hs h => ?_
    obtain ⟨v, hv, -⟩ := h.2
    exact hempty s hs h.1 v hv
  | none =>
    refine keeps_pour (R := fun _ _ => False) (fun s hs h _ _ => (hidle s hs h.1).down) ?_ ?_ ?_ ?_
    · exact fun s hs h v hv => absurd hv (hempty s hs h.1 v)
    · intro s hs h _ hf
      rw [hs.1.unformed h.1] at hf
      exact absurd rfl hf
    · exact fun id => Respects.of_false fun _ _ h => h
    · refine keeps_fail fun s hs h _ => ?_
      rcases h with h | ⟨-, -, h⟩
      · exact hidle s hs h.1
      · exact h.elim

end GasCity.Convergence
