import GasCity.Convergence.Updates

/-! # Rules for the calls of the handlers

One rule for each call: what has to hold before it, under the discipline of the handlers,
and what is known after it while agents go on working.
-/

namespace GasCity.Convergence

def Stays (P : World → Prop) : Prop :=
  ∀ s t, Agents s t → P s → P t

/-- The facts that the rules find to stay by themselves. -/
class Steady (P : World → Prop) : Prop where
  stays : Stays P

def Has (id : ID) (n : ℕ) (s : World) : Prop :=
  ∃ v ∈ s.wisps, v.id = id ∧ v.iteration = n

def Shut (id : ID) (n : ℕ) (s : World) : Prop :=
  ∃ v ∈ s.wisps, v.id = id ∧ v.iteration = n ∧ v.closed = true

def Lacks (n : ℕ) (s : World) : Prop :=
  ∀ v ∈ s.wisps, v.iteration ≠ n

/-- The iterations up to `c` are closed and at most one more exists. -/
structure Counted (c : ℕ) (s : World) : Prop where
  top : ∀ v ∈ s.wisps, v.iteration ≤ c + 1
  closed : ∀ v ∈ s.wisps, v.iteration ≤ c → v.closed = true
  all : ∀ k, 1 ≤ k → k ≤ c → ∃ u ∈ s.wisps, u.iteration = k ∧ u.closed = true

def Found (id : ID) : Option Wisp → World → Prop
  | none, s => ∀ v ∈ s.wisps, v.id ≠ id
  | some b, s => b.id = id ∧ Has id b.iteration s ∧ (b.closed = true → Shut id b.iteration s)

def FoundKey (n : ℕ) : Option ID → World → Prop
  | none, s => Lacks n s
  | some id, s => Has id n s

section Stays

variable {P P' : World → Prop}

theorem Steady.of_evolve (h : ∀ {s t}, P s → Evolves s t → P t) : Steady P :=
  ⟨fun _ _ ha hs => h hs ha.evolves⟩

theorem Steady.of_metadata (Q : Metadata → Prop) : Steady fun s => Q s.metadata :=
  ⟨fun _ _ h hQ => h.metadata.symm ▸ hQ⟩

theorem Steady.of_log (Q : List Entry → Prop) : Steady fun s => Q s.log :=
  ⟨fun _ _ h hQ => h.log.symm ▸ hQ⟩

instance [Steady P] [Steady P'] : Steady fun s => P s ∧ P' s :=
  ⟨fun s t h hP => ⟨Steady.stays s t h hP.1, Steady.stays s t h hP.2⟩⟩

instance {τ : Prop} [Steady P] : Steady fun s => τ → P s :=
  ⟨fun s t h hP hτ => Steady.stays s t h (hP hτ)⟩

instance {p : Prop} : Steady fun _ => p :=
  ⟨fun _ _ _ hp => hp⟩

instance {m : Metadata} : Steady (·.metadata = m) := .of_metadata (· = m)

instance {x : State} : Steady (·.metadata.state = x) := .of_metadata (·.state = x)

instance {x : Option ID} : Steady (·.metadata.activeWisp = x) := .of_metadata (·.activeWisp = x)

instance {x : Option ID} : Steady (·.metadata.lastProcessedWisp = x) :=
  .of_metadata (·.lastProcessedWisp = x)

instance {x : RootStatus} : Steady (·.root = x) :=
  ⟨fun _ _ h hr => h.root.trans hr⟩

instance {e : Entry} : Steady (e ∈ ·.log) := .of_log (e ∈ ·)

instance {w : ID} : Steady (Emitted ·.log w) := .of_log (Emitted · w)

instance {ws : List Wisp} : Steady (Grown ws ·.wisps) :=
  ⟨fun _ _ h hg => hg.trans h.grown⟩

theorem Has.evolve {s t : World} {id : ID} {n : ℕ} (h : Has id n s) (he : Evolves s t) :
    Has id n t := by
  obtain ⟨v, hv, hid, hit⟩ := h
  obtain ⟨u, hu, huid, huit, -⟩ := he.grown.mem hv
  exact ⟨u, hu, huid.trans hid, huit.trans hit⟩

instance {id : ID} {n : ℕ} : Steady (Has id n) := .of_evolve Has.evolve

theorem Shut.evolve {s t : World} {id : ID} {n : ℕ} (h : Shut id n s) (he : Evolves s t) :
    Shut id n t := by
  obtain ⟨v, hv, hid, hit, hc⟩ := h
  obtain ⟨u, hu, huid, huit, huc⟩ := he.grown.mem hv
  exact ⟨u, hu, huid.trans hid, huit.trans hit, huc hc⟩

instance {id : ID} {n : ℕ} : Steady (Shut id n) := .of_evolve Shut.evolve

instance {n : ℕ} : Steady (Lacks n) :=
  ⟨fun _ _ h hQ => h.grown.forall_mem (P := fun _ k => k ≠ n) hQ⟩

instance : Steady Idle := .of_evolve Idle.evolve

instance : Steady Down := .of_evolve Down.evolve

theorem Counted.evolve {s t : World} {c : ℕ} (h : Counted c s) (he : Evolves s t) :
    Counted c t := by
  refine ⟨he.grown.forall_mem (P := fun _ k => k ≤ c + 1) h.top, fun v hv hle => ?_,
    fun k hk hle => ?_⟩
  · obtain ⟨u, hu, -, hit, hcl⟩ := he.grown.mem_right hv
    exact hcl (h.closed u hu (by omega))
  · obtain ⟨u, hu, huk, hcl⟩ := h.all k hk hle
    obtain ⟨x, hx, -, hxit, hxc⟩ := he.grown.mem hu
    exact ⟨x, hx, hxit.trans huk, hxc hcl⟩

instance {c : ℕ} : Steady (Counted c) := .of_evolve Counted.evolve

instance {id : ID} {b : Option Wisp} : Steady (Found id b) := by
  refine ⟨fun s t h hf => ?_⟩
  cases b with
  | none =>
    exact h.grown.forall_mem (P := fun x _ => x ≠ id) hf
  | some b =>
    exact ⟨hf.1, hf.2.1.evolve h.evolves, fun hc => (hf.2.2 hc).evolve h.evolves⟩

instance {n : ℕ} {b : Option ID} : Steady (FoundKey n b) := by
  cases b with
  | none => exact inferInstanceAs (Steady (Lacks n))
  | some id => exact inferInstanceAs (Steady (Has id n))

end Stays

variable {s : World}

theorem Base.counted (h : Base s) : Counted (closedCount s.wisps) s :=
  ⟨fun _ hv => h.iteration_le hv, fun _ hv => (h.closed_iff hv).mpr, fun _ => h.exists_closed⟩

variable {id : ID} {n : ℕ} {w : MetaWrite} {κ τ : Prop}

theorem Shut.has (h : Shut id n s) : Has id n s :=
  h.imp fun _ ⟨hv, hid, hit, _⟩ => ⟨hv, hid, hit⟩

theorem Base.present (h : Base s) (hw : Has id n s) :
    s.metadata.state ≠ .missing := by
  intro hm
  obtain ⟨v, hv, -⟩ := hw
  rw [(h.early (.inl hm)).1] at hv
  cases hv

theorem found_bead (h : Base s) (id : ID) : Found id (s.bead id) s := by
  cases hb : s.bead id with
  | none => exact bead_eq_none.mp hb
  | some b =>
    obtain ⟨hmem, hid⟩ := h.bead_eq_some.mp hb
    exact ⟨hid, ⟨b, hmem, hid, rfl⟩, fun hc => ⟨b, hmem, hid, rfl, hc⟩⟩

theorem foundKey_keyed (h : Base s) (n : ℕ) :
    FoundKey n ((s.keyed n).map Wisp.id) s := by
  cases hb : s.keyed n with
  | none => exact keyed_eq_none.mp hb
  | some b =>
    obtain ⟨hmem, hit⟩ := h.keyed_eq_some.mp hb
    exact ⟨b, hmem, rfl, hit⟩

def MetaWrite.KeepsGate : MetaWrite → Prop
  | .maxIterations _ | .gateTimeoutAction _ => False
  | _ => True

theorem Gated.write (h : Gated s) (hw : w.KeepsGate) :
    Gated (s.write w) := by
  refine h.extend (fun n o => ?_) (fun _ hx => hx) fun _ _ hp => .inl hp
  cases w <;> first
    | exact hw.elim
    | rfl

theorem Sound.write (h : Sound κ τ s)
    (hb : Base (s.write w)) (hw : w.KeepsGate) (hl : τ → Lawful (s.write w)) :
    Sound κ τ (s.write w) :=
  ⟨hb, fun hκ => (h.2.1 hκ).write hw, hl⟩

theorem Sound.record (h : Sound κ τ s) {e : Entry}
    (hs : ¬ s.metadata.state.Early) (hpour : ∀ n hidden, e ≠ .pour n hidden)
    (hact : ∀ n, e ≠ .activate n) (hc : e = .emit .created → s.root ≠ .closed) :
    Sound κ τ (s.record e) :=
  ⟨h.1.record hs e, fun hκ => (h.2.1 hκ).record fun n => ⟨hpour n false, hact n⟩,
    fun hτ => (h.2.2 hτ).record hpour hc⟩

theorem Sound.emit (h : Sound κ τ s) {e : Event}
    (hs : ¬ s.metadata.state.Early) (hc : e ≠ .created) : Sound κ τ (s.record (.emit e)) :=
  h.record hs (by simp) (by simp) fun he => absurd (Entry.emit.inj he) hc

theorem Sound.closeRoot (h : Sound κ τ s) (hs : τ → s.metadata.state = .terminated)
    (ht : τ → Entry.emit .created ∈ s.log → Entry.emit .terminated ∈ s.log) :
    Sound κ τ { s with root := .closed } :=
  ⟨h.1.closeRoot, h.2.1, fun hτ => (h.2.2 hτ).closeRoot (hs hτ) (ht hτ)⟩

theorem Sound.reveal (h : Sound κ τ s) {v : Wisp} (hv : v ∈ s.wisps)
    (hp : κ → 2 ≤ v.iteration → Permitted s.metadata s.log (v.iteration - 1)) :
    Sound κ τ (s.reveal v) :=
  ⟨h.1.reveal hv, fun hκ => (h.2.1 hκ).reveal (hp hκ), fun hτ => (h.2.2 hτ).reveal v⟩

abbrev Keeps (κ τ : Prop) {α : Type} (P : World → Prop) (p : Handler α)
    (Q : α → World → Prop) : Prop :=
  Respects exec (discipline κ τ) P p Q

abbrev Resting (τ : Prop) (s : World) : Prop :=
  τ → Idle s

/-- A handler that leaves the loop as it is between two requests. -/
abbrev Rests (κ τ : Prop) {α : Type} (P : World → Prop) (p : Handler α) : Prop :=
  Keeps κ τ P p fun _ => Resting τ

section Rules

variable {κ τ : Prop} {α β : Type} {P P' : World → Prop} {Q : α → World → Prop}

theorem keeps_pure {a : α} [Steady (Q a)] (h : ∀ s, Sound κ τ s → P s → Q a s) :
    Keeps κ τ P (pure a) Q :=
  Respects.done Steady.stays h

theorem keeps_return {a : α} [Steady P] : Keeps κ τ P (pure a) fun _ => P :=
  keeps_pure fun _ _ h => h

theorem keeps_fail {e : HandlerError} (h : ∀ s, Sound κ τ s → P s → τ → Idle s) :
    Keeps κ τ P (.fail e : Handler α) Q :=
  Respects.fail h

theorem keeps_of_fact {φ : Prop} {p : Handler α} (h : ∀ s, Sound κ τ s → P s → φ)
    (hk : φ → Keeps κ τ P p Q) : Keeps κ τ P p Q :=
  fun s hs hPs => hk (h s hs hPs) s hs hPs

variable {R : World → Prop} {f : Option ID → Handler α} {site : Site} {w : MetaWrite}

/-- Nothing has to hold for what cannot happen at a call. -/
theorem never {b : Bool} (hb : b = false) : ∀ s, Sound κ τ s → P s → τ → b = true → R s :=
  fun _ _ _ _ h => absurd (hb.symm.trans h) (by decide)

theorem keeps_then {p : Handler β} {q : Handler α}
    (hp : Keeps κ τ P p fun _ => R) (hq : Keeps κ τ R q Q) :
    Keeps κ τ P (p >>= fun _ => q) Q :=
  Respects.bind hp fun _ => hq

variable [Steady P]

section Reads

variable (hdown : ∀ s, Sound κ τ s → P s → τ → Down s)
include hdown

theorem keeps_read {o : Op} {f : Ans o → Handler α} {R : Ans o → World → Prop}
    (hread : ∀ c s, (exec o c s).2 = s)
    (hR : ∀ s c, Sound κ τ s → P s → (discipline κ τ).admits s o c → R (exec o c s).1 s)
    (hnext : ∀ r, Keeps κ τ (fun s => P s ∧ R r s) (f r) Q) :
    Keeps κ τ P (call o >>= f) Q := by
  refine Respects.call Steady.stays (fun s hs hPs _ => hdown s hs hPs) ?_ hnext
  intro s c hs hPs hc
  rw [hread c s]
  exact ⟨hs, hPs, hR s c hs hPs hc⟩

theorem keeps_getMetadata {f : Metadata × Verdict → Handler α}
    (hnext : ∀ m v, Keeps κ τ (fun s => P s ∧ s.metadata = m) (f (m, v)) Q) :
    Keeps κ τ P (call .getMetadata >>= f) Q :=
  keeps_read hdown (fun _ _ => rfl) (fun _ _ _ _ _ => rfl) fun r => hnext r.1 r.2

theorem keeps_rootStatus {f : RootStatus → Handler α}
    (hnext : ∀ r, Keeps κ τ (fun s => P s ∧ s.root = r) (f r) Q) :
    Keeps κ τ P (call .rootStatus >>= f) Q :=
  keeps_read hdown (fun _ _ => rfl) (fun _ _ _ _ _ => rfl) hnext

theorem keeps_getBead {id : ID} {f : Option Wisp → Handler α}
    (hnext : ∀ b, Keeps κ τ (fun s => P s ∧ Found id b s) (f b) Q) :
    Keeps κ τ P (call (.getBead id) >>= f) Q :=
  keeps_read hdown (fun _ _ => rfl) (fun _ _ hs _ _ => found_bead hs.1 id) hnext

theorem keeps_findByKey {n : ℕ} (hnext : ∀ b, Keeps κ τ (fun s => P s ∧ FoundKey n b s) (f b) Q) :
    Keeps κ τ P (call (.findByKey n) >>= f) Q :=
  keeps_read hdown (fun _ _ => rfl) (fun _ _ hs _ _ => foundKey_keyed hs.1 n) hnext

theorem keeps_children {f : List Wisp → Handler α}
    (hnext : ∀ ws, Keeps κ τ (fun s => P s ∧ Counted (closedCount ws) s ∧ Grown ws s.wisps)
      (f ws) Q) :
    Keeps κ τ P (call (.children .plain) >>= f) Q :=
  keeps_read hdown (fun _ _ => rfl) (fun _ _ hs _ _ => ⟨hs.1.counted, .refl _⟩) hnext

theorem keeps_deriveIterationCount :
    Keeps κ τ P deriveIterationCount fun c s => P s ∧ Counted c s := by
  refine keeps_children hdown fun ws => ?_
  exact keeps_pure fun s _ h => ⟨h.1, h.2.1⟩

end Reads

section Stoppable

variable (hdown : ∀ s, Sound κ τ s → P s → τ → site.stoppable = true → Down s)
include hdown

/-- Write the metadata: `R` holds after the write, `F` after a refusal. -/
theorem keeps_write {f : Bool → Handler α} {F : World → Prop}
    (hinv : ∀ s, Sound κ τ s → P s → Sound κ τ (s.write w))
    (hpost : ∀ s, Sound κ τ s → P s → R (s.write w))
    (hfail : ∀ s, Sound κ τ s → P s → (τ → site.refusable = true) → F s)
    (hok : Keeps κ τ R (f true) Q) (hrefused : Keeps κ τ F (f false) Q) :
    Keeps κ τ P (call (.set site w) >>= f) Q := by
  refine Respects.call (R := fun r s => if r = true then R s else F s) Steady.stays
    (fun s hs hPs hstop hτ => hdown s hs hPs hτ (hstop hτ)) ?_ fun r => ?_
  · intro s c hs hPs hc
    by_cases ha : c.answer = .ok
    · simp only [exec, attempt, if_pos ha, if_true]
      exact ⟨hinv s hs hPs, hpost s hs hPs⟩
    · simp only [exec, attempt, if_neg ha]
      refine ⟨hs, hfail s hs hPs fun hτ => ?_⟩
      by_contra hsite
      have hsite : site.refusable = false := by simpa using hsite
      exact ha ((hc.2 hτ).1 hsite)
  · cases r with
    | true => exact hok
    | false => exact hrefused

theorem keeps_set {Q : World → Prop} [Steady Q]
    (hidle : ∀ s, Sound κ τ s → P s → τ → site.refusable = true → Idle s)
    (hinv : ∀ s, Sound κ τ s → P s → Sound κ τ (s.write w))
    (hpost : ∀ s, Sound κ τ s → P s → Q (s.write w)) :
    Keeps κ τ P (setMetadata site w) fun _ => Q := by
  refine keeps_write hdown hinv hpost ?_
    keeps_return (keeps_fail fun _ _ h => h)
  exact fun s hs hPs hsite hτ => hidle s hs hPs hτ (hsite hτ)

theorem keeps_record {e : Event} {Q : World → Prop} [Steady Q]
    (hinv : ∀ s, Sound κ τ s → P s → Sound κ τ (s.record (.emit e)))
    (hpost : ∀ s, Sound κ τ s → P s → Q (s.record (.emit e))) :
    Keeps κ τ P (call (.emit site e)) fun _ => Q := by
  refine Respects.call Steady.stays
    (fun s hs hPs hstop hτ => hdown s hs hPs hτ (hstop hτ)) ?_ fun r => keeps_return
  intro s c hs hPs hc
  exact ⟨hinv s hs hPs, hpost s hs hPs⟩

/-- Pour a wisp: `R id` holds once the wisp `id` of the iteration exists.  Without an answer it may
exist or not. -/
theorem keeps_pour {n : ℕ} {hidden : Bool} {R : ID → World → Prop}
    (hold : ∀ s, Sound κ τ s → P s → ∀ v ∈ s.wisps, v.iteration = n → R v.id s)
    (hadd : ∀ s, Sound κ τ s → P s → Lacks n s → s.metadata.formula ≠ "" →
      Sound κ τ (s.addWisp n hidden) ∧ R s.next (s.addWisp n hidden))
    (hsome : ∀ id, Keeps κ τ (R id) (f (some id)) Q)
    (hnone : Keeps κ τ (fun s => P s ∨ (site = .pouring → ¬ τ) ∧ ∃ id, R id s) (f none) Q) :
    Keeps κ τ P (call (.pour site n hidden) >>= f) Q := by
  refine Respects.call (R := fun r s => r.elim (P s ∨ (site = .pouring → ¬ τ) ∧ ∃ id, R id s)
    (R · s)) Steady.stays
    (fun s hs hPs hstop hτ => hdown s hs hPs hτ (hstop hτ)) ?_ fun r => ?_
  · intro s c hs hPs hc
    have hlost : c.answer = .lost → site = .pouring → ¬ τ := fun ha hsite hτ =>
      (hc.2 hτ).2 hsite ha
    simp only [exec, World.pour]
    cases hk : s.keyed n with
    | some v =>
      obtain ⟨hv, hit⟩ := hs.1.keyed_eq_some.mp hk
      cases c.answer <;> exact ⟨hs, by first | exact hold s hs hPs v hv hit | exact .inl hPs⟩
    | none =>
      have hlack := keyed_eq_none.mp hk
      dsimp only
      split_ifs with hrefused hok
      · exact ⟨hs, .inl hPs⟩
      · rw [not_or] at hrefused
        exact hadd s hs hPs hlack hrefused.2
      · rw [not_or] at hrefused
        obtain ⟨hs', hR⟩ := hadd s hs hPs hlack hrefused.2
        refine ⟨hs', .inr ⟨hlost ?_, s.next, hR⟩⟩
        cases ha : c.answer <;> simp_all
  · cases r with
    | some id => exact hsome id
    | none => exact hnone

theorem keeps_activate {id : ID} {f : Bool → Handler α}
    (hinv : ∀ s, Sound κ τ s → P s → ∀ v ∈ s.wisps, v.id = id → Sound κ τ (s.reveal v))
    (hpost : ∀ s, Sound κ τ s → P s → ∀ v ∈ s.wisps, v.id = id → R (s.reveal v))
    (hmissing : ∀ s, Sound κ τ s → P s → (∀ v ∈ s.wisps, v.id ≠ id) → τ → Idle s)
    (hrefused : ∀ s, P s → τ → site.refusable = true → Idle s)
    (hok : Keeps κ τ R (f true) Q) (hfail : Keeps κ τ (Resting τ) (f false) Q) :
    Keeps κ τ P (call (.activate site id) >>= f) Q := by
  refine Respects.call (R := fun r s => if r = true then R s else τ → Idle s) Steady.stays
    (fun s hs hPs hstop hτ => hdown s hs hPs hτ (hstop hτ)) ?_ fun r => ?_
  · intro s c hs hPs hc
    have hcareful : c.answer ≠ .ok → τ → Idle s := fun ha hτ => by
      refine hrefused s hPs hτ ?_
      by_contra hsite
      have hsite : site.refusable = false := by simpa using hsite
      exact ha ((hc.2 hτ).1 hsite)
    change Sound κ τ (s.activate c.answer id).2 ∧ (if (s.activate c.answer id).1 = true then
      R (s.activate c.answer id).2 else τ → Idle (s.activate c.answer id).2)
    unfold World.activate
    cases hb : s.bead id with
    | none => exact ⟨hs, hmissing s hs hPs (bead_eq_none.mp hb)⟩
    | some v =>
      obtain ⟨hv, hvid⟩ := hs.1.bead_eq_some.mp hb
      have hinv := hinv s hs hPs v hv hvid
      cases ha : c.answer
      · exact ⟨hinv, hpost s hs hPs v hv hvid⟩
      · exact ⟨hs, hcareful (by simp [ha])⟩
      · exact ⟨hinv, fun hτ => (hcareful (by simp [ha]) hτ).evolve (.reveal s v)⟩
  · cases r with
    | true => exact hok
    | false => exact hfail

end Stoppable

theorem keeps_setIdle {Q : World → Prop} [Steady Q] (hidle : ∀ s, P s → Resting τ s)
    (hinv : ∀ s, Sound κ τ s → P s → Sound κ τ (s.write w))
    (hpost : ∀ s, Sound κ τ s → P s → Q (s.write w)) :
    Keeps κ τ P (setMetadata site w) fun _ => Q :=
  keeps_set (fun s _ h hτ _ => (hidle s h hτ).down) (fun s _ h hτ _ => hidle s h hτ) hinv hpost

theorem keeps_trySet {Q : World → Prop} [Steady Q] (hdown : ∀ s, Sound κ τ s → P s → τ → Down s)
    (hinv : ∀ s, Sound κ τ s → P s → Sound κ τ (s.write w))
    (hold : ∀ s, Sound κ τ s → P s → Q s)
    (hpost : ∀ s, Sound κ τ s → P s → Q (s.write w)) :
    Keeps κ τ P (trySetMetadata w) fun _ => Q :=
  keeps_write (fun s hs hPs hτ _ => hdown s hs hPs hτ) hinv hpost
    (fun s hs hPs _ => hold s hs hPs) keeps_return keeps_return

theorem keeps_callSet {f : Bool → Handler α} (hdown : ∀ s, Sound κ τ s → P s → τ → Down s)
    (hinv : ∀ s, Sound κ τ s → P s → Sound κ τ (s.write w))
    (hpost : ∀ s, Sound κ τ s → P s → R (s.write w))
    (hok : Keeps κ τ R (f true) Q) (hrefused : Keeps κ τ P (f false) Q) :
    Keeps κ τ P (call (.set .plain w) >>= f) Q :=
  keeps_write (fun s hs hPs hτ _ => hdown s hs hPs hτ) hinv hpost (fun _ _ hPs _ => hPs) hok
    hrefused

theorem keeps_closeRoot {Q : World → Prop} [Steady Q]
    (hidle : ∀ s, Sound κ τ s → P s → τ → Idle s)
    (hinv : ∀ s, Sound κ τ s → P s → Sound κ τ { s with root := .closed })
    (hpost : ∀ s, Sound κ τ s → P s → Q { s with root := .closed }) :
    Keeps κ τ P closeRoot fun _ => Q := by
  refine Respects.call (R := fun r s => if r = true then Q s else τ → Idle s) Steady.stays
    (fun s hs hPs _ hτ => (hidle s hs hPs hτ).down) ?_ fun r => ?_
  · intro s c hs hPs hc
    by_cases ha : c.answer = .ok
    · simp only [exec, attempt, if_pos ha, if_true]
      exact ⟨hinv s hs hPs, hpost s hs hPs⟩
    · simp only [exec, attempt, if_neg ha]
      exact ⟨hs, hidle s hs hPs⟩
  · cases r with
    | true => exact keeps_pure fun _ _ h => h
    | false => exact keeps_fail fun _ _ h => h

end Rules

end GasCity.Convergence
