import GasCity.MemStore.Revision

/-! # The ownership fence

`ClaimFence` counts ownership transitions: an assignee that changes, a closed
bead that is reopened under a real status, and a successful release.
-/

namespace GasCity.MemStore

variable {m : MemStore} {id : String} {b b' : Bead} {op : Op}

/-- The two beads have different owners, or the first is closed and the second reopened. -/
def OwnershipChange (b b' : Bead) : Prop :=
  b'.assignee ≠ b.assignee ∨ b.status = "closed" ∧ b'.status ≠ "closed" ∧ b'.status ≠ ""

/-- The call is a `ReleaseIfCurrent` of this bead that reports success. -/
def Releases (m : MemStore) (id : String) (op : Op) : Prop :=
  ∃ assignee now, op = .releaseIfCurrent id assignee now ∧ (m.call op).2 = .flag true

/-- The call moves the bead under `id` to a new ownership generation. -/
def Transition (m : MemStore) (id : String) (op : Op) : Prop :=
  ∃ b b', m.find id = some b ∧ (m.call op).1.find id = some b' ∧
    (OwnershipChange b b' ∨ m.Releases id op)

/-- Some call of the sequence is an ownership transition of the bead. -/
def TransitionDuring (id : String) : MemStore → List Op → Prop
  | _, [] => False
  | m, op :: ops => m.Transition id op ∨ TransitionDuring id (m.call op).1 ops

theorem not_ownershipChange (ha : b'.assignee = b.assignee)
    (hs : b'.status = b.status ∨ b'.status = "closed") : ¬ OwnershipChange b b' := by
  rintro (h | ⟨hb, hb', -⟩)
  · exact h ha
  · exact hb' (hs.elim (·.trans hb) id)

theorem isOwnershipTransition_iff (b : Bead) (opts : UpdateOpts) (now : Time) :
    isOwnershipTransition b.status b.assignee opts ↔
      OwnershipChange b (applyUpdateLocked b opts now) := by
  unfold isOwnershipTransition OwnershipChange applyUpdateLocked
  cases opts.assignee <;> cases opts.status <;> simp <;> tauto

theorem releases_iff (hb : m.find id = some b) (assignee : String) (now : Time) :
    m.Releases id (.releaseIfCurrent id assignee now) ↔
      b.status = "in_progress" ∧ b.assignee = assignee := by
  have hflag : (m.call (.releaseIfCurrent id assignee now)).2 = .flag true ↔
      b.status = "in_progress" ∧ b.assignee = assignee := by
    by_cases hs : b.status = "in_progress" <;> by_cases ha : b.assignee = assignee <;>
      simp [call, releaseIfCurrent, hb, hs, ha]
  constructor
  · rintro ⟨_, _, -, h⟩
    exact hflag.mp h
  · exact fun h => ⟨assignee, now, rfl, hflag.mpr h⟩

theorem claimFence_of_write (hb : m.find id = some b)
    (h : op.effect m.disableConditionalWrites b = .write b') :
    (OwnershipChange b b' ∨ m.Releases id op → b'.claimFence = b.claimFence + 1) ∧
      (¬ (OwnershipChange b b' ∨ m.Releases id op) → b'.claimFence = b.claimFence) := by
  have hrel : (∀ id assignee now, op ≠ .releaseIfCurrent id assignee now) →
      ¬ m.Releases id op := by
    rintro hne ⟨assignee, now, rfl, -⟩
    exact hne _ _ _ rfl
  have hkeep : ∀ c : Bead, ¬ OwnershipChange b c →
      (∀ id assignee now, op ≠ .releaseIfCurrent id assignee now) →
      c.claimFence = b.claimFence →
      (OwnershipChange b c ∨ m.Releases id op → c.claimFence = b.claimFence + 1) ∧
        (¬ (OwnershipChange b c ∨ m.Releases id op) → c.claimFence = b.claimFence) :=
    fun c hc hne heq => ⟨fun h => absurd h (not_or.mpr ⟨hc, hrel hne⟩), fun _ => heq⟩
  cases op with
  | update | updateIfMatch =>
    obtain rfl := effect_on_write h
    simp only [hrel (by simp), or_false, ← isOwnershipTransition_iff]
    constructor <;> intro ht <;> simp [applyUpdateLocked, ht]
  | releaseIfCurrent id' assignee now =>
    obtain rfl := effect_on_write h
    have hguard : m.Releases id (.releaseIfCurrent id' assignee now) := by
      obtain rfl := id_of_find hb
      by_cases hg : id' = b.id ∧ b.status = "in_progress" ∧ b.assignee = assignee
      · obtain ⟨rfl, hg⟩ := hg
        exact (releases_iff hb assignee now).mpr hg
      · simp [Op.effect, Effect.on, hg] at h
    exact ⟨fun _ => rfl, fun hn => absurd (.inr hguard) hn⟩
  | reopen id' now =>
    obtain rfl := effect_on_write h
    simp only [hrel (by simp), or_false, OwnershipChange, reopenBead]
    by_cases hs : b.status = "closed" <;> simp [hs]
  | closeAll ids metadata now =>
    simp only [Op.effect] at h
    split at h
    · cases h
    · next hc =>
        obtain rfl := Effect.write.inj h
        rw [closeAllBead, if_neg hc]
        exact hkeep _ (not_ownershipChange rfl (.inr rfl)) (by simp) rfl
  | close | closeIfMatch =>
    obtain rfl := effect_on_write h
    exact hkeep _ (not_ownershipChange rfl (.inr rfl)) (by simp) rfl
  | setMetadata | setMetadataBatch | compareAndSetMetadataKey =>
    obtain rfl := effect_on_write h
    exact hkeep _ (not_ownershipChange rfl (.inl rfl)) (by simp) rfl
  | deleteIfMatch | delete => exact (effect_on_remove h).elim
  | create | depAdd | depRemove | setLocalString | get | list | depList | getLocalString => cases h

theorem claimFence_call (hm : m.WellFormed) (hb : m.find id = some b)
    (hb' : (m.call op).1.find id = some b') :
    (m.Transition id op → b'.claimFence = b.claimFence + 1) ∧
      (¬ m.Transition id op → b'.claimFence = b.claimFence) := by
  have htrans : m.Transition id op ↔ OwnershipChange b b' ∨ m.Releases id op := by
    constructor
    · rintro ⟨c, c', hc, hc', h⟩
      rwa [Option.some.inj (hb.symm.trans hc), Option.some.inj (hb'.symm.trans hc')]
    · exact fun h => ⟨b, b', hb, hb', h⟩
  rw [htrans]
  have hfind := (find_call hm hb op).symm.trans hb'
  cases heff : op.effect m.disableConditionalWrites b with
  | write c =>
    rw [heff] at hfind
    cases hfind
    exact claimFence_of_write hb heff
  | remove =>
    rw [heff] at hfind
    cases hfind
  | keep =>
    rw [heff] at hfind
    cases hfind
    refine ⟨?_, fun _ => rfl⟩
    rintro (h | ⟨assignee, now, rfl, hflag⟩)
    · exact absurd h (not_ownershipChange rfl (.inl rfl))
    · have hg := (releases_iff hb assignee now).mp ⟨_, _, rfl, hflag⟩
      simp [Op.effect, Effect.on, id_of_find hb, hg] at heff

theorem claimFence_after (hm : m.WellFormed) (hb : m.find id = some b) (ops : List Op)
    (hb' : (m.after ops).find id = some b') :
    b.claimFence ≤ b'.claimFence ∧
      (TransitionDuring id m ops → b.claimFence < b'.claimFence) ∧
      (b'.assignee ≠ b.assignee → TransitionDuring id m ops) := by
  induction ops generalizing m b with
  | nil =>
    cases hb.symm.trans hb'
    exact ⟨le_rfl, False.elim, fun h => absurd rfl h⟩
  | cons op ops ih =>
    rw [after_cons] at hb'
    cases hc : (m.call op).1.find id with
    | none => exact nomatch ((retired_of_removed hm hb hc).after ops).1.symm.trans hb'
    | some c =>
      obtain ⟨hle, hlt, hassign⟩ := ih (hm.call op) hc hb'
      obtain ⟨hbump, hsame⟩ := claimFence_call hm hb hc
      have hstep : b.claimFence ≤ c.claimFence := by
        by_cases ht : m.Transition id op
        · exact (hbump ht).symm ▸ Int.le_add_one le_rfl
        · exact (hsame ht).ge
      refine ⟨hstep.trans hle, ?_, ?_⟩
      · rintro (ht | ht)
        · exact (Int.lt_add_one_iff.mpr le_rfl).trans_le ((hbump ht).ge.trans hle)
        · exact hstep.trans_lt (hlt ht)
      · intro hne
        by_cases hcb : c.assignee = b.assignee
        · exact .inr (hassign (hcb ▸ hne))
        · exact .inl ⟨b, c, hb, hc, .inl (.inl hcb)⟩

/-- The fence counts ownership generations.  It grows by one at a call that changes the assignee,
reopens a closed bead under a non-empty status or releases the bead, and at no other call; so beads
on the two sides of a transition carry different fences. -/
theorem claimFence_counts_generations (off : Bool) (history : List Op) (id : String) (b : Bead)
    (hb : (after { disableConditionalWrites := off } history).get id = .ok b) :
    let m := after { disableConditionalWrites := off } history
    (∀ op b', (m.call op).1.get id = .ok b' →
      (OwnershipChange b b' ∨ m.Releases id op → b'.claimFence = b.claimFence + 1) ∧
      (¬ (OwnershipChange b b' ∨ m.Releases id op) → b'.claimFence = b.claimFence)) ∧
    (∀ ops b', (m.after ops).get id = .ok b' →
      b.claimFence ≤ b'.claimFence ∧
      (TransitionDuring id m ops → b.claimFence < b'.claimFence) ∧
      (b'.assignee ≠ b.assignee → b.claimFence < b'.claimFence)) := by
  intro m
  have hm : m.WellFormed := (wellFormed_new off).after history
  rw [get_eq_ok] at hb
  refine ⟨fun op b' hb' => ?_, fun ops b' hb' => ?_⟩
  · rw [get_eq_ok] at hb'
    obtain ⟨hbump, hsame⟩ := claimFence_call hm hb hb'
    refine ⟨fun h => hbump ⟨b, b', hb, hb', h⟩, fun h => hsame ?_⟩
    rintro ⟨c, c', hc, hc', ht⟩
    rw [← Option.some.inj (hb.symm.trans hc), ← Option.some.inj (hb'.symm.trans hc')] at ht
    exact h ht
  · rw [get_eq_ok] at hb'
    obtain ⟨hle, hlt, hassign⟩ := claimFence_after hm hb ops hb'
    exact ⟨hle, hlt, fun h => hlt (hassign h)⟩

theorem claimFence_counts_generations_claim : let m := after {} [.create { title := "plan" } ⟨5⟩]
    let claim := Op.update "gc-1" { assignee := some "ada" } ⟨6⟩
    ∃ b b', m.get "gc-1" = .ok b ∧ (m.after [claim]).get "gc-1" = .ok b' ∧
      b.claimFence < b'.claimFence := by
  intro m claim
  have hb := claimFence_counts_generations false [.create { title := "plan" } ⟨5⟩] "gc-1" _ rfl
  exact ⟨_, _, rfl, rfl, (hb.2 [claim] _ rfl).2.2 (by decide)⟩

/-- A closed bead given the empty status keeps its fence, and a release of an unowned bead moves
it although the assignee stays empty. -/
theorem claimFence_unlike_owner : let m := after {} [.create { title := "plan" } ⟨5⟩]
    let closed := m.after [.close "gc-1" ⟨6⟩]
    let started := m.after [.update "gc-1" { status := some "in_progress" } ⟨6⟩]
    (∃ b b', closed.get "gc-1" = .ok b ∧
      (closed.call (.update "gc-1" { status := some "" } ⟨7⟩)).1.get "gc-1" = .ok b' ∧
      b.status = "closed" ∧ b'.status ≠ "closed" ∧ b'.claimFence = b.claimFence) ∧
    (∃ b b', started.get "gc-1" = .ok b ∧
      (started.call (.releaseIfCurrent "gc-1" "" ⟨7⟩)).1.get "gc-1" = .ok b' ∧
      b'.assignee = b.assignee ∧ b.status ≠ "closed" ∧ b'.claimFence = b.claimFence + 1) := by
  refine ⟨⟨_, _, rfl, rfl, ?_⟩, ⟨_, _, rfl, rfl, ?_⟩⟩ <;> decide

end GasCity.MemStore
