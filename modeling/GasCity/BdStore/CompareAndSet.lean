import GasCity.BdStore.Conditional
import GasCity.Runs.Basic

/-! # Compare-and-set of a metadata key over the revision fence

One `CompareAndSetMetadataKey` call against a bead that other writers change between any two of its
commands.  The state records what bd applied for the call and what the call has read, so that its
result can be compared with what happened.
-/

namespace GasCity

open Option

namespace BdStore

structure Row where
  revision : Int
  metadata : StringMap := ∅
  deriving DecidableEq

structure Cas where
  id : String
  key : String
  expected : String
  next : String
  deriving DecidableEq

/-- `writing` is about to run the fenced write for the given time, `rereading` checks the revision
after a rolled-back one. -/
inductive Phase where
  | probing
  | reading (attempt : Nat)
  | writing (attempt : Nat) (revision : Int) (tries : Nat)
  | rereading (attempt : Nat) (revision : Int) (tries : Nat)
  | finalRead (attempt : Nat) (revision : Int)
  | done (swapped : Bool) (err : Option WriteErr)
  deriving DecidableEq

/-- The bead, the call, the values of the key around each write that bd applied for it, and the
values it has read. -/
structure CasWorld where
  row : Option Row
  /-- The highest revision the bead ever had. -/
  top : Int
  latched : Bool := false
  phase : Phase := .probing
  swaps : List (String × String) := []
  seen : List String := []
  deriving DecidableEq

/-- The steps of the call and of other writers.  A write carries the revision it was applied at, if
it was, and the failure it reports, if any. -/
inductive CasLabel where
  | probe (capable : Bool)
  | read (err : Option WriteErr)
  | write (applied : Option Int) (reply : Option Failure)
  | other (row : Option Row)
  deriving DecidableEq

def conditionalWriteMaxAttempts : Nat := 3

def casEmulationMaxAttempts : Nat := 4

namespace CasWorld

variable (c : Cas)

def value (r : Row) : String := StringMap.val r.metadata c.key

def afterWrite (w : CasWorld) (attempt : Nat) (revision : Int) (err : WriteErr) : CasWorld :=
  match finalizeConditionalWrite c.id "update" revision err with
  | .preconditionFailed _ _ _ =>
    if casEmulationMaxAttempts ≤ attempt then { w with phase := .finalRead attempt revision }
    else { w with phase := .reading (attempt + 1) }
  | .unsupported => { w with latched := true, phase := .done false (some .unsupported) }
  | e => { w with phase := .done false (some e) }

def afterFailure (w : CasWorld) (attempt : Nat) (revision : Int) (tries : Nat) (f : Failure) :
    CasWorld :=
  if !isAmbiguousWriteError f.msg && isTransientWriteError f.msg &&
      decide (tries < conditionalWriteMaxAttempts) then
    { w with phase := .rereading attempt revision tries }
  else w.afterWrite c attempt revision (classifyConditionalWriteResult f)

/-- bd applies a fenced write only to the row it is fenced to, under a new revision. -/
def apply (w : CasWorld) (revision : Int) : Option Int → Option CasWorld
  | none => some w
  | some revision' =>
    match w.row with
    | some r =>
      if r.revision = revision ∧ w.top < revision' then
        some
          { w with
            row := some { revision := revision', metadata := r.metadata.set c.key c.next }
            top := revision'
            swaps := w.swaps ++ [(value c r, c.next)] }
      else none
    | none => none

/-- One step.  A write without a failure was applied, and one that reports a rolled-back
transaction was not. -/
def step (w : CasWorld) (l : CasLabel) : Option CasWorld :=
  match w.phase, l with
  | .probing, .probe capable =>
    if capable && !w.latched then some { w with phase := .reading 1 }
    else some { w with phase := .done false (some .unsupported) }
  | .reading attempt, .read err =>
    match err, w.row with
    | some e, _ => some { w with phase := .done false (some e) }
    | none, none => some { w with phase := .done false (some .notFound) }
    | none, some r =>
      if value c r = c.expected then
        some { w with seen := value c r :: w.seen, phase := .writing attempt r.revision 1 }
      else some { w with seen := value c r :: w.seen, phase := .done false none }
  | .writing attempt revision tries, .write applied reply =>
    match reply with
    | none =>
      if applied.isSome then
        (w.apply c revision applied).map fun w => { w with phase := .done true none }
      else none
    | some f =>
      if applied.isSome && isTransientWriteError f.msg && !isAmbiguousWriteError f.msg then none
      else (w.apply c revision applied).map fun w => w.afterFailure c attempt revision tries f
  | .rereading attempt revision tries, .read err =>
    match err, w.row with
    | none, some r =>
      if r.revision ≠ revision then
        some (w.afterWrite c attempt revision (.preconditionFailed "" 0 r.revision))
      else some { w with phase := .writing attempt revision (tries + 1) }
    | _, _ => some { w with phase := .writing attempt revision (tries + 1) }
  | .finalRead attempt revision, .read err =>
    let exhausted := { w with
      phase := .done false (some (.casRetriesExhausted c.id c.key attempt revision)) }
    match err, w.row with
    | none, some r =>
      if value c r = c.expected then some { exhausted with seen := value c r :: w.seen }
      else some { w with seen := value c r :: w.seen, phase := .done false none }
    | _, _ => some exhausted
  | _, .other row =>
    match row with
    | none => some { w with row := none }
    | some r =>
      if w.top < r.revision then some { w with row := some r, top := r.revision } else none
  | _, _ => none

variable {c}
variable {w w' : CasWorld} {l : CasLabel} {attempt tries : Nat} {revision : Int}

/-- What the result says happened: the key was swapped from exactly the expected value, or nothing
was written since it was seen to differ or an error that is not ambiguous occurred. -/
def Settles (c : Cas) (w : CasWorld) : Option WriteErr → Bool → Prop
  | none, true => w.swaps = [(c.expected, c.next)]
  | none, false => w.swaps = [] ∧ ∃ v ∈ w.seen, v ≠ c.expected
  | some e, _ => e.ambiguous = false → w.swaps = []

def Fenced (c : Cas) (w : CasWorld) (revision : Int) : Prop :=
  revision ≤ w.top ∧ ∀ r, w.row = some r → r.revision = revision → value c r = c.expected

def PhaseInv (c : Cas) (w : CasWorld) : Prop :=
  match w.phase with
  | .probing | .reading _ | .finalRead _ _ => w.swaps = []
  | .writing _ revision _ | .rereading _ revision _ => w.swaps = [] ∧ Fenced c w revision
  | .done swapped err => Settles c w err swapped

structure Inv (c : Cas) (w : CasWorld) : Prop where
  bounded : ∀ r, w.row = some r → r.revision ≤ w.top
  phase : PhaseInv c w

/-- The condition on a step: a write that bd applied and that reports a failure is surfaced as
one that may have committed. -/
def Honest : CasLabel → Prop
  | .write (some _) (some f) => (classifyConditionalWriteResult f).ambiguous = true
  | _ => True

instance : Decidable (Honest l) := by
  unfold Honest
  split <;> infer_instance

theorem phaseInv_afterWrite {err : WriteErr} (h : w.swaps = []) :
    PhaseInv c (w.afterWrite c attempt revision err) := by
  unfold afterWrite
  split
  · split <;> exact h
  · exact fun _ => h
  · exact fun _ => h

@[simp]
theorem row_afterWrite {err : WriteErr} : (w.afterWrite c attempt revision err).row = w.row := by
  unfold afterWrite
  split <;> first | rfl | (split <;> rfl)

@[simp]
theorem top_afterWrite {err : WriteErr} : (w.afterWrite c attempt revision err).top = w.top := by
  unfold afterWrite
  split <;> first | rfl | (split <;> rfl)

theorem inv_other {row : Option Row} (hw : Inv c w) (h : ∀ r, row = some r → w.top < r.revision) :
    Inv c { w with row, top := (row.map Row.revision).getD w.top } := by
  have htop : w.top ≤ (row.map Row.revision).getD w.top := by
    cases row with
    | none => exact le_rfl
    | some r => exact (h r rfl).le
  constructor
  · rintro r rfl
    exact le_rfl
  · have hphase := hw.phase
    have hfenced : ∀ revision, Fenced c w revision →
        Fenced c { w with row, top := (row.map Row.revision).getD w.top } revision := by
      rintro revision ⟨hle, _⟩
      refine ⟨hle.trans htop, ?_⟩
      rintro r rfl hr
      have := h r rfl
      omega
    unfold PhaseInv at hphase ⊢
    dsimp only
    split at hphase
    all_goals first | exact hphase | exact ⟨hphase.1, hfenced _ hphase.2⟩

theorem inv_read {r : Row} (hw : Inv c w) (hrow : w.row = some r) (hswaps : w.swaps = []) :
    Inv c (if value c r = c.expected then
        { w with seen := value c r :: w.seen, phase := .writing attempt r.revision 1 }
      else { w with seen := value c r :: w.seen, phase := .done false none }) := by
  split
  · rename_i hvalue
    refine ⟨hw.bounded, hswaps, hw.bounded r hrow, ?_⟩
    intro r' hr' _
    cases hrow.symm.trans hr'
    exact hvalue
  · rename_i hvalue
    exact ⟨hw.bounded, hswaps, value c r, List.mem_cons_self, hvalue⟩

theorem apply_some {revision' : Int} (hswaps : w.swaps = [])
    (hfenced : Fenced c w revision) (h : w.apply c revision (some revision') = some w') :
    w'.swaps = [(c.expected, c.next)] ∧ ∀ r, w'.row = some r → r.revision ≤ w'.top := by
  cases hrow : w.row with
  | none => simp [apply, hrow] at h
  | some r =>
    simp only [apply, hrow] at h
    obtain ⟨⟨hrevision, -⟩, h⟩ := ite_none_right_eq_some.mp h
    cases h
    constructor
    · simp [hswaps, hfenced.2 r hrow hrevision]
    · rintro r' hr'
      cases hr'
      exact le_rfl

theorem inv_write {applied : Option Int} {reply : Option Failure} (hw : Inv c w)
    (hphase : w.phase = .writing attempt revision tries)
    (h : w.step c (.write applied reply) = some w') (hhonest : Honest (.write applied reply)) :
    Inv c w' := by
  obtain ⟨hswaps, hfenced⟩ : w.swaps = [] ∧ Fenced c w revision := by
    have := hw.phase
    rwa [PhaseInv, hphase] at this
  unfold step at h
  rw [hphase] at h
  cases reply with
  | none =>
    obtain ⟨happlied, h⟩ := ite_none_right_eq_some.mp h
    obtain ⟨v, hv, rfl⟩ := map_eq_some_iff.mp h
    obtain ⟨revision', rfl⟩ := isSome_iff_exists.mp happlied
    obtain ⟨hv, hbounded⟩ := apply_some hswaps hfenced hv
    exact ⟨hbounded, hv⟩
  | some f =>
    obtain ⟨-, h⟩ := ite_none_left_eq_some.mp h
    obtain ⟨v, hv, rfl⟩ := map_eq_some_iff.mp h
    cases applied with
    | none =>
      cases hv
      unfold afterFailure
      split
      · exact ⟨hw.bounded, hswaps, hfenced⟩
      · exact ⟨by simpa using hw.bounded, phaseInv_afterWrite hswaps⟩
    | some revision' =>
      obtain ⟨-, hbounded⟩ := apply_some hswaps hfenced hv
      obtain ⟨hclass, hambiguous⟩ := classify_of_ambiguous hhonest
      have hafter : v.afterFailure c attempt revision tries f =
          { v with phase := .done false (some (.other f.msg)) } := by
        rw [afterFailure, hambiguous, hclass]
        rfl
      rw [hafter]
      refine ⟨hbounded, ?_⟩
      intro hfalse
      rw [WriteErr.ambiguous, hambiguous] at hfalse
      cases hfalse

theorem step_other (row : Option Row) : w.step c (.other row) =
    if ∀ r ∈ row, w.top < r.revision then
      some { w with row, top := (row.map Row.revision).getD w.top }
    else none := by
  unfold step
  cases w.phase <;> cases row <;> simp

theorem inv_step (hw : Inv c w) (h : w.step c l = some w') (hhonest : Honest l) : Inv c w' := by
  have hinv := hw.phase
  cases l with
  | other row =>
    rw [step_other] at h
    obtain ⟨hrow, h⟩ := ite_none_right_eq_some.mp h
    cases h
    exact inv_other hw hrow
  | probe capable =>
    cases hphase : w.phase with
    | probing =>
      simp only [step, hphase] at h
      rw [PhaseInv, hphase] at hinv
      split at h
      · cases h
        exact ⟨hw.bounded, hinv⟩
      · cases h
        exact ⟨hw.bounded, fun _ => hinv⟩
    | _ => simp [step, hphase] at h
  | read err =>
    cases hphase : w.phase with
    | reading attempt =>
      simp only [step, hphase] at h
      rw [PhaseInv, hphase] at hinv
      split at h
      · cases h
        exact ⟨hw.bounded, fun _ => hinv⟩
      · cases h
        exact ⟨hw.bounded, fun _ => hinv⟩
      · rename_i r hrow
        rw [← apply_ite some] at h
        cases h
        exact inv_read hw hrow hinv
    | rereading attempt revision tries =>
      simp only [step, hphase] at h
      rw [PhaseInv, hphase] at hinv
      split at h
      · split at h
        · cases h
          exact ⟨by simpa using hw.bounded, phaseInv_afterWrite hinv.1⟩
        · cases h
          exact ⟨hw.bounded, hinv⟩
      · cases h
        exact ⟨hw.bounded, hinv⟩
    | finalRead attempt revision =>
      simp only [step, hphase] at h
      rw [PhaseInv, hphase] at hinv
      split at h
      · split at h
        · cases h
          exact ⟨hw.bounded, fun _ => hinv⟩
        · rename_i r _ hvalue
          cases h
          exact ⟨hw.bounded, hinv, value c r, List.mem_cons_self, hvalue⟩
      · cases h
        exact ⟨hw.bounded, fun _ => hinv⟩
    | _ => simp [step, hphase] at h
  | write applied reply =>
    cases hphase : w.phase with
    | writing attempt revision tries => exact inv_write hw hphase h hhonest
    | _ => simp [step, hphase] at h

def init (row : Option Row) (top : Int) (latched : Bool) : CasWorld := { row, top, latched }

/-- In every interleaving with other writers the result of the call tells what happened. -/
theorem result_linearizable {row : Option Row} {top : Int} {latched : Bool} {as : List CasLabel}
    {swapped : Bool} {err : Option WriteErr} (hrow : ∀ r, row = some r → r.revision ≤ top)
    (hrun : Run (fun v a v' => StepOf (step c) v a v' ∧ Honest a) (init row top latched) as w)
    (hdone : w.phase = .done swapped err) : Settles c w err swapped := by
  have hinv : Inv c w :=
    hrun.invariant (Inv c) (fun v a v' hv hstep => inv_step hv hstep.1 hstep.2) ⟨hrow, rfl⟩
  have hsettles := hinv.phase
  rwa [PhaseInv, hdone] at hsettles

def claimKey : Cas := ⟨"gc-1", "owner", "", "me"⟩

/-- A serialization failure is retried, another key is written in between, and the second lap
swaps. -/
theorem result_linearizable_claimed : ∃ w : CasWorld,
    Run (fun v a v' => StepOf (step claimKey) v a v' ∧ Honest a) (init (some ⟨1, ∅⟩) 1 false)
      [.probe true, .read none,
        .write none (some ⟨"Error 1213 (40001): serialization failure", [], []⟩),
        .other (some ⟨2, (∅ : StringMap).set "k" "v"⟩), .read none, .read none,
        .write (some 3) none] w ∧
    w.phase = .done true none ∧ Settles claimKey w none true := by
  refine ⟨_, and_of_imp (run_of_exec_guarded rfl) fun hrun => and_of_imp ?_ fun hdone => ?_⟩
  · decide
  · exact result_linearizable (by decide) hrun hdone

/-- The connection drops after bd committed the write, and the text is not of the connection class:
the error counts as one of a write that did not happen. -/
theorem committed_not_ambiguous : ∃ w : CasWorld, ∃ e : WriteErr,
    Run (StepOf (step claimKey)) (init (some ⟨1, ∅⟩) 1 false)
      [.probe true, .read none, .write (some 2) (some ⟨"exit status 1: unexpected EOF", [], []⟩)]
      w ∧
    w.phase = .done false (some e) ∧ e.ambiguous = false ∧ w.swaps = [("", "me")] := by
  refine ⟨_, .other "exit status 1: unexpected EOF", run_of_exec rfl, ?_⟩
  decide

end CasWorld

end BdStore

end GasCity
