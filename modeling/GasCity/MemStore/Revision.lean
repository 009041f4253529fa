import GasCity.MemStore.Step

/-! # The revision token

`Revision` is the optimistic-concurrency token of the conditional writes.  Each
call that writes to a bead bumps it by one, whether or not the values written
differ from the ones already there, and nothing else moves it.
-/

namespace GasCity.MemStore

variable {m m' : MemStore} {id : String} {b b' : Bead} {op : Op} {ops : List Op}

/-- The call writes to the bead stored under `id`, or deletes it. -/
def Writes (m : MemStore) (id : String) (op : Op) : Prop :=
  ∃ b, m.find id = some b ∧ op.effect m.disableConditionalWrites b ≠ .keep

/-- Some call of the sequence writes to the bead under `id`, or deletes it. -/
def WrittenDuring (id : String) : MemStore → List Op → Prop
  | _, [] => False
  | m, op :: ops => m.Writes id op ∨ WrittenDuring id (m.call op).1 ops

def after (m : MemStore) (ops : List Op) : MemStore := ops.foldl (fun m op => (m.call op).1) m

theorem after_cons (m : MemStore) (op : Op) (ops : List Op) :
    m.after (op :: ops) = (m.call op).1.after ops := rfl

theorem WellFormed.after (hm : m.WellFormed) (ops : List Op) : (m.after ops).WellFormed := by
  induction ops generalizing m with
  | nil => exact hm
  | cons op ops ih => exact ih (hm.call op)

theorem capability_after (m : MemStore) (ops : List Op) :
    (m.after ops).disableConditionalWrites = m.disableConditionalWrites := by
  induction ops generalizing m with
  | nil => rfl
  | cons op ops ih => rw [after_cons, ih, capability_call]

theorem Retired.after (h : m.Retired id) (ops : List Op) : (m.after ops).Retired id := by
  induction ops generalizing m with
  | nil => exact h
  | cons op ops ih => exact ih (h.call op)

theorem effect_on_write {id : String} {p : Prop} [Decidable p] {c : Bead}
    (h : Effect.on id b p (.write c) = .write b') : c = b' := by
  unfold Effect.on at h
  split at h
  · exact Effect.write.inj h
  · cases h

theorem effect_on_remove {id : String} {p : Prop} [Decidable p]
    (h : Effect.on id b p .remove = .write b') : False := by
  unfold Effect.on at h
  split at h <;> cases h

theorem revision_of_write {off : Bool} (h : op.effect off b = .write b') :
    b'.revision = b.revision + 1 := by
  cases op with
  | closeAll ids metadata now =>
    simp only [Op.effect] at h
    split at h
    · cases h
    · next hc =>
        obtain rfl := Effect.write.inj h
        simp [closeAllBead, hc, closeBead]
  | deleteIfMatch | delete => exact (effect_on_remove h).elim
  | create | depAdd | depRemove | setLocalString | get | list | depList | getLocalString => cases h
  | _ => obtain rfl := effect_on_write h; rfl

/-- A call either writes to the bead, removes it, or leaves it exactly as it is. -/
theorem call_cases (hm : m.WellFormed) (hb : m.find id = some b) (op : Op) :
    (¬ m.Writes id op ∧ (m.call op).1.find id = some b) ∨
      (m.Writes id op ∧ (m.call op).1.find id = none) ∨
      ∃ b', m.Writes id op ∧ (m.call op).1.find id = some b' ∧ b'.revision = b.revision + 1 := by
  have hfind := find_call hm hb op
  cases heff : op.effect m.disableConditionalWrites b with
  | keep =>
    rw [heff] at hfind
    refine .inl ⟨?_, hfind⟩
    rintro ⟨c, hc, hne⟩
    cases hb.symm.trans hc
    exact hne heff
  | write b' =>
    rw [heff] at hfind
    exact .inr (.inr ⟨b', ⟨b, hb, by simp [heff]⟩, hfind, revision_of_write heff⟩)
  | remove =>
    rw [heff] at hfind
    exact .inr (.inl ⟨⟨b, hb, by simp [heff]⟩, hfind⟩)

/-- Along a run the bead is untouched, or gone for good, or its revision has grown. -/
theorem after_cases (hm : m.WellFormed) (hb : m.find id = some b) (ops : List Op) :
    (¬ WrittenDuring id m ops ∧ (m.after ops).find id = some b) ∨
      (WrittenDuring id m ops ∧ (m.after ops).find id = none) ∨
      ∃ b', WrittenDuring id m ops ∧ (m.after ops).find id = some b' ∧
        b.revision < b'.revision := by
  induction ops generalizing m b with
  | nil => exact .inl ⟨not_false, hb⟩
  | cons op ops ih =>
    rw [after_cons]
    rcases call_cases hm hb op with ⟨hw, hkeep⟩ | ⟨hw, hgone⟩ | ⟨c, hw, hc, hrev⟩
    · rcases ih (hm.call op) hkeep with ⟨hws, h⟩ | ⟨hws, h⟩ | ⟨b', hws, h⟩
      · exact .inl ⟨fun h => h.elim hw hws, h⟩
      · exact .inr (.inl ⟨.inr hws, h⟩)
      · exact .inr (.inr ⟨b', .inr hws, h⟩)
    · exact .inr (.inl ⟨.inl hw, ((retired_of_removed hm hb hgone).after ops).1⟩)
    · rcases ih (hm.call op) hc with ⟨-, h⟩ | ⟨-, h⟩ | ⟨b', -, h, hlt⟩
      · exact .inr (.inr ⟨c, .inl hw, h, by omega⟩)
      · exact .inr (.inl ⟨.inl hw, h⟩)
      · exact .inr (.inr ⟨b', .inl hw, h, by omega⟩)

theorem get_eq_ok : m.get id = .ok b ↔ m.find id = some b := by
  unfold get
  cases m.find id <;> simp

theorem find_unchanged_iff (hm : m.WellFormed) (hb : m.find id = some b) (ops : List Op) :
    (∃ b', (m.after ops).find id = some b' ∧ b'.revision = b.revision) ↔
      ¬ WrittenDuring id m ops := by
  rcases after_cases hm hb ops with ⟨hw, h⟩ | ⟨hw, h⟩ | ⟨c, hw, h, hlt⟩
  · exact ⟨fun _ => hw, fun _ => ⟨b, h, rfl⟩⟩
  · simp [h, hw]
  · refine ⟨?_, fun hn => absurd hw hn⟩
    rintro ⟨b', hb', hrev⟩
    cases h.symm.trans hb'
    omega

section Conditional

variable {rev : Int} {now : Time}

variable (hoff : m.disableConditionalWrites = false)
include hoff

theorem updateIfMatch_isOk {opts : UpdateOpts} (hopts : isEmptyUpdateOpts opts = false) :
    (m.updateIfMatch id rev opts now).isOk ↔ ∃ b, m.find id = some b ∧ b.revision = rev := by
  cases hb : m.find id with
  | none => simp [updateIfMatch, hoff, hopts, hb, Except.isOk, Except.toBool]
  | some b =>
    by_cases hr : b.revision = rev <;>
      simp [updateIfMatch, hoff, hopts, hb, hr, Except.isOk, Except.toBool]

theorem closeIfMatch_isOk :
    (m.closeIfMatch id rev now).isOk ↔ ∃ b, m.find id = some b ∧ b.revision = rev := by
  cases hb : m.find id with
  | none => simp [closeIfMatch, hoff, hb, Except.isOk, Except.toBool]
  | some b =>
    by_cases hr : b.revision = rev <;>
      simp [closeIfMatch, hoff, hb, hr, Except.isOk, Except.toBool]

theorem deleteIfMatch_isOk :
    (m.deleteIfMatch id rev).isOk ↔ ∃ b, m.find id = some b ∧ b.revision = rev := by
  cases hb : m.find id with
  | none => simp [deleteIfMatch, hoff, hb, Except.isOk, Except.toBool]
  | some b =>
    by_cases hr : b.revision = rev <;>
      simp [deleteIfMatch, hoff, hb, hr, Except.isOk, Except.toBool]

end Conditional

theorem call_token (hm : m.WellFormed) (hb : m.find id = some b)
    (hb' : (m.call op).1.find id = some b') :
    (m.Writes id op → b'.revision = b.revision + 1) ∧ (¬ m.Writes id op → b' = b) := by
  rcases call_cases hm hb op with ⟨hw, h⟩ | ⟨hw, h⟩ | ⟨c, hw, h, hrev⟩
  · exact ⟨fun h => absurd h hw, fun _ => Option.some.inj (hb'.symm.trans h)⟩
  · exact nomatch hb'.symm.trans h
  · cases hb'.symm.trans h
    exact ⟨fun _ => hrev, fun h => absurd hw h⟩

/-- A call that writes to a bead bumps its revision by one, any other call leaves the bead alone;
equal tokens mean equal content; and a conditional write with an earlier token succeeds exactly when
no call wrote to the bead in between. -/
theorem revision_write_token (off : Bool) (history ops : List Op) (id : String) (b : Bead)
    (hb : (after { disableConditionalWrites := off } history).get id = .ok b) :
    let m := after { disableConditionalWrites := off } history
    (∀ op b', (m.call op).1.get id = .ok b' →
      (b'.visible ≠ b.visible → b.revision < b'.revision) ∧
      (m.Writes id op → b'.revision = b.revision + 1) ∧
      (¬ m.Writes id op → b' = b) ∧
      ((m.call op).2.isFailed → ¬ m.Writes id op)) ∧
    (∀ b', (m.after ops).get id = .ok b' → b'.revision = b.revision → b'.visible = b.visible) ∧
    (off = false → ∀ now,
      (∀ opts, isEmptyUpdateOpts opts = false →
        (((m.after ops).updateIfMatch id b.revision opts now).isOk ↔ ¬ WrittenDuring id m ops)) ∧
      (((m.after ops).closeIfMatch id b.revision now).isOk ↔ ¬ WrittenDuring id m ops) ∧
      (((m.after ops).deleteIfMatch id b.revision).isOk ↔ ¬ WrittenDuring id m ops)) := by
  intro m
  have hm : m.WellFormed := (wellFormed_new off).after history
  have hcap : ∀ ops, (m.after ops).disableConditionalWrites = off := fun ops =>
    (capability_after m ops).trans (capability_after _ history)
  rw [get_eq_ok] at hb
  refine ⟨fun op b' hb' => ?_, fun b' hb' hrev => ?_, fun hoff now => ?_⟩
  · rw [get_eq_ok] at hb'
    obtain ⟨hwrite, hkeep⟩ := call_token hm hb hb'
    refine ⟨fun hne => ?_, hwrite, hkeep, fun hfail hw => ?_⟩
    · have hw : m.Writes id op := by
        by_contra hw
        exact hne (by rw [hkeep hw])
      have := hwrite hw
      omega
    · rw [call_of_failed op hfail, hb] at hb'
      have := hwrite hw
      rw [Option.some.inj hb'] at this
      omega
  · rw [get_eq_ok] at hb'
    rcases after_cases hm hb ops with ⟨-, h⟩ | ⟨-, h⟩ | ⟨c, -, h, hlt⟩
    · rw [Option.some.inj (hb'.symm.trans h)]
    · exact nomatch hb'.symm.trans h
    · rw [Option.some.inj (hb'.symm.trans h)] at hrev
      omega
  · have hoff' : (m.after ops).disableConditionalWrites = false := (hcap ops).trans hoff
    have hiff := find_unchanged_iff hm hb ops
    exact ⟨fun opts hopts => (updateIfMatch_isOk hoff' hopts).trans hiff,
      (closeIfMatch_isOk hoff').trans hiff, (deleteIfMatch_isOk hoff').trans hiff⟩

theorem revision_write_token_fresh_bead : let m := after {} [.create { title := "plan" } ⟨5⟩]
    let b : Bead :=
      { id := "gc-1", title := "plan", status := "open", type := "task", createdAt := ⟨5⟩,
        updatedAt := ⟨5⟩, revision := 1 }
    m.get "gc-1" = .ok b ∧
      (((m.after [.get "gc-1"]).closeIfMatch "gc-1" b.revision ⟨7⟩).isOk ↔
        ¬ WrittenDuring "gc-1" m [.get "gc-1"]) := by
  intro m b
  have hb : m.get "gc-1" = .ok b := by rfl
  exact ⟨hb, ((revision_write_token false _ [.get "gc-1"] "gc-1" b hb).2.2 rfl ⟨7⟩).2.1⟩

/-- A conditional update without fields is refused although nothing changed the bead, and an update
that writes nothing moves the token. -/
theorem revision_moves_without_change : let m := after {} [.create { title := "plan" } ⟨5⟩]
    let m' := (m.call (.update "gc-1" {} ⟨5⟩)).1
    ∃ b b', m.get "gc-1" = .ok b ∧
      (m.updateIfMatch "gc-1" b.revision {} ⟨6⟩).isOk = false ∧
      m'.get "gc-1" = .ok b' ∧ b'.visible = b.visible ∧ b.revision < b'.revision ∧
      (m'.closeIfMatch "gc-1" b.revision ⟨6⟩).isOk = false := by
  refine ⟨_, _, rfl, ?_, rfl, ?_, ?_, ?_⟩ <;> decide

theorem seq_le_after (m : MemStore) (ops : List Op) : m.seq ≤ (m.after ops).seq := by
  induction ops generalizing m with
  | nil => exact le_rfl
  | cons op ops ih => exact (seq_le_call op).trans (ih _)

/-- `Create` takes an id that no bead has and that no later `Create` takes, whatever is deleted. -/
theorem create_id_unused (off : Bool) (history ops : List Op) (b c : Bead) (now later : Time) :
    let m := after { disableConditionalWrites := off } history
    let created := m.create b now
    (∀ x ∈ m.beads, x.id ≠ created.2.id) ∧
      ((created.1.after ops).create c later).2.id ≠ created.2.id := by
  intro m created
  have hm : m.WellFormed := (wellFormed_new off).after history
  have hseq : m.seq + 1 ≤ (created.1.after ops).seq := seq_le_after created.1 ops
  refine ⟨fun x hx => hm.fresh x hx _ (Nat.lt_succ_self _), fun hid => ?_⟩
  have := beadID_injective hid
  omega

end GasCity.MemStore
