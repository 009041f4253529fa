import GasCity.Caching.Coherence

/-! # Concurrent writers of one bead

Any number of `Update`, `Close`, `SetMetadata` and `SetMetadataBatch` calls on one
bead.  A call commits, reads the row back and publishes it in separate steps, or
returns at once because the cached row already has what it writes.
-/

namespace GasCity

namespace Write

def skippable (id : String) : Write → Bool
  | update id' _ | close id' | setMetadata id' _ _ | setMetadataBatch id' _ => id' == id
  | _ => false

def satisfied (row : Option Bead) : Write → Bool
  | update _ opts => row.any (updateMatches · opts)
  | close _ => row.any (·.status == "closed")
  | setMetadata _ key value => row.any (metadataMatches · ((∅ : StringMap).set key value))
  | setMetadataBatch _ kvs => StringMap.isEmpty kvs || row.any (metadataMatches · kvs)
  | _ => false

variable {wr : Write} {id : String}

theorem single_of_skippable (h : wr.skippable id = true) : wr.single = true := by
  cases wr <;> first | rfl | cases h

end Write

theorem Cache.any_of_matchesCached {c : Cache} {id : String} {row : Option Bead} {p : Bead → Bool}
    (h : c.matchesCached id p = true)
    (hrow : c.isDirty id = false → ∀ b, c.bead id = some b → row = some b) :
    row.any p = true := by
  simp only [Cache.matchesCached, Bool.and_eq_true, Bool.not_eq_true'] at h
  obtain ⟨⟨-, hclean⟩, hmatch⟩ := h
  obtain ⟨b, hb⟩ := Option.isSome_iff_exists.mp (Option.isSome_of_any hmatch)
  rw [hb] at hmatch
  rw [hrow hclean b hb]
  exact hmatch

/-- A skipped call finds a row that has what it writes, when a clean cached row is that row. -/
theorem Write.satisfied_of_alreadyMatches {c : Cache} {wr : Write} {id : String}
    {row : Option Bead} (hwr : wr.skippable id = true) (h : wr.alreadyMatches c = true)
    (hrow : c.isDirty id = false → ∀ b, c.bead id = some b → row = some b) :
    wr.satisfied row = true := by
  cases wr with
  | update id' | close id' | setMetadata id' =>
    obtain rfl : id' = id := beq_iff_eq.mp hwr
    exact Cache.any_of_matchesCached h hrow
  | setMetadataBatch id' kvs =>
    obtain rfl : id' = id := beq_iff_eq.mp hwr
    rcases Bool.or_eq_true_iff.mp h with hempty | h
    · simp [Write.satisfied, hempty]
    · simp [Write.satisfied, Cache.any_of_matchesCached h hrow]
  | _ => cases hwr

namespace World

variable {w w' : World} {l : Label} {id : String}

def Writer (id : String) : Label → Prop
  | .skip wr | .issue _ wr => wr.skippable id = true
  | .commit _ _ _ _ | .reply _ _ | .fetch _ _ _ | .fetchDeps _ _ _ | .publish _ _ => True
  | _ => False

/-- Between commit and publication of a call no other call commits or is skipped, a commit leaves
what the cache overlays, and the read after it succeeds. -/
def WriterStep (w : World) (id : String) : Label → Prop
  | .skip _ => ¬ w.Window id
  | .commit t id' row deps =>
    id' = id → ¬ w.Window id ∧ (∀ f ∈ w.writes.get t, f.write.leaves row deps = true) ∧
      ∀ b ∈ row, b.isBlocked = none
  | .fetch _ id' ok => id' = id → ok = true
  | _ => True

instance : Decidable (Writer id l) := by
  apply l.casesOn (motive := fun l => Decidable (Writer id l)) <;> intros <;>
    dsimp only [Writer] <;> infer_instance

instance : Decidable (w.WriterStep id l) := by
  apply l.casesOn (motive := fun l => Decidable (w.WriterStep id l)) <;> intros <;>
    dsimp only [WriterStep] <;> infer_instance

theorem rowStep_of_writer (hl : Writer id l) (h : w.WriterStep id l) : w.RowStep id l := by
  cases l with
  | skip | reply | fetchDeps | publish => trivial
  | issue t wr => exact Write.single_of_skippable hl
  | commit | fetch => exact h
  | _ => exact hl.elim

/-- A cache that agrees with the backing store on a bead, whose rows have no readiness
projection. -/
structure Agrees (w : World) (id : String) : Prop where
  backing : ∀ b, w.backing.rows.get id = some b → b.id = id ∧ b.isBlocked = none
  cached : ∀ b, w.cache.bead id = some b → b.isBlocked = none
  clean : w.cache.isDirty id = false → ∀ b, w.cache.bead id = some b →
    w.backing.rows.get id = some b

theorem rowCoherent_of_quiescent (hquiescent : w.Quiescent) (h : w.Agrees id) :
    w.RowCoherent id where
  flights t f hf := by
    rw [hquiescent.1, Table.get_empty] at hf
    cases hf
  exclusive t _ ht := (not_window_of_quiescent hquiescent ⟨t, ht⟩).elim
  backing := h.backing
  cached := h.cached
  clean _ := h.clean
  held t s hs := by
    rw [hquiescent.2.1, Table.get_empty] at hs
    cases hs

/-- Once all writers have returned, a clean cached row is that of the backing store, and every
skipped call found the stored row to have what it writes. -/
theorem writers_agree {backing : Backing} {bdStore : Bool} {id : String} {as bs : List Label}
    {w₀ w : World} (hstart : Run (StepOf step) (init backing bdStore) bs w₀)
    (hquiescent : w₀.Quiescent) (hagrees : w₀.Agrees id)
    (hrun : Run (fun v a v' => StepOf step v a v' ∧ Writer id a ∧ v.WriterStep id a) w₀ as w) :
    (w.Quiescent → w.cache.isDirty id = false → ∀ b, w.cache.bead id = some b →
      w.backing.rows.get id = some b) ∧
    Run (fun v a v' => StepOf step v a v' ∧
      ∀ wr, a = .skip wr → wr.satisfied (v.backing.rows.get id) = true) w₀ as w := by
  have hinit : w₀.Sound ∧ w₀.RowCoherent id :=
    ⟨sound_run hstart (sound_init backing bdStore), rowCoherent_of_quiescent hquiescent hagrees⟩
  have hkeep : ∀ v a v', v.Sound ∧ v.RowCoherent id →
      StepOf step v a v' ∧ Writer id a ∧ v.WriterStep id a → v'.Sound ∧ v'.RowCoherent id := by
    rintro v a v' ⟨hv, hr⟩ ⟨hva, hwriter, hcond⟩
    have hva' := step_cases hva
    exact ⟨sound_step hv hva', hr.step hv hva' (rowStep_of_writer hwriter hcond)⟩
  constructor
  · intro hquiescent
    obtain ⟨-, hr⟩ := hrun.invariant _ hkeep hinit
    exact hr.clean (not_window_of_quiescent hquiescent)
  · refine hrun.mono_of_invariant _ hkeep ?_ hinit
    rintro v a v' ⟨-, hr⟩ ⟨hva, hwriter, hcond⟩
    refine ⟨hva, ?_⟩
    rintro wr rfl
    obtain ⟨hmatches⟩ := step_cases hva
    exact Write.satisfied_of_alreadyMatches hwriter hmatches (hr.clean hcond)

def renamedTo (t : Nat) (title : String) : List Label :=
  [.commit t "gc-1" (some (renamed title [])) [], .reply t .ok, .fetch t "gc-1" true]

def renamedTwice : List Label :=
  [.issue 0 (.update "gc-1" { title := some "B" }), .issue 1 (.update "gc-1" { title := some "C" })]

/-- Two concurrent renames that are published in the order in which they commit. -/
theorem writers_agree_renamed : ∃ w₀ w : World,
    Run (StepOf step) (init renamedBacking false) renamedPrime w₀ ∧ w₀.Quiescent ∧
    w₀.Agrees "gc-1" ∧
    Run (fun v a v' => StepOf step v a v' ∧ Writer "gc-1" a ∧ v.WriterStep "gc-1" a) w₀
      (renamedTwice ++ renamedTo 0 "B" ++ [.publish 0 ⟨2⟩] ++ renamedTo 1 "C" ++
        [.publish 1 ⟨3⟩, .skip (.update "gc-1" { title := some "C" })]) w ∧
    w.Quiescent ∧ w.cache.bead "gc-1" = some (renamed "C" []) ∧
    ((w.Quiescent → w.cache.isDirty "gc-1" = false → ∀ b, w.cache.bead "gc-1" = some b →
      w.backing.rows.get "gc-1" = some b) ∧
    Run (fun v a v' => StepOf step v a v' ∧
      ∀ wr, a = .skip wr → wr.satisfied (v.backing.rows.get "gc-1") = true) w₀
      (renamedTwice ++ renamedTo 0 "B" ++ [.publish 0 ⟨2⟩] ++ renamedTo 1 "C" ++
        [.publish 1 ⟨3⟩, .skip (.update "gc-1" { title := some "C" })]) w) := by
  refine ⟨_, _, and_of_imp (run_of_exec rfl) fun hstart => and_of_imp ?_ fun hquiescent =>
    and_of_imp ⟨?_, ?_, ?_⟩ fun hagrees => and_of_imp (run_of_exec_guarded rfl) fun hrun =>
      ⟨?_, ?_, writers_agree hstart hquiescent hagrees hrun⟩⟩ <;> decide

/-- The first rename commits and reads the row back, the second runs to its end, and the first
publishes the older title; a later rename to it is skipped. -/
theorem writers_disagree : ∃ w : World,
    Run (StepOf step) (init renamedBacking false)
      (renamedPrime ++ renamedTwice ++ renamedTo 0 "B" ++ renamedTo 1 "C" ++
        [.publish 1 ⟨2⟩, .publish 0 ⟨3⟩]) w ∧
    w.Quiescent ∧ w.cache.isDirty "gc-1" = false ∧
    w.cache.bead "gc-1" = some (renamed "B" []) ∧
    w.backing.rows.get "gc-1" = some (renamed "C" []) ∧
    w.step (.skip (.update "gc-1" { title := some "B" })) = some w ∧
    (Write.update "gc-1" { title := some "B" }).satisfied (w.backing.rows.get "gc-1") = false := by
  refine ⟨_, run_of_exec rfl, ?_⟩
  decide

end World

end GasCity
