import GasCity.Convergence.Progress

/-! # Guarantees of convergence loops

What holds in every run with stops, failed writes and agents at work: if reconciliation does not
rebuild a loop beyond what was published, no gate is bypassed; if no fault falls into a window of
the handlers, the limit holds, events are not lost and no wisp is left behind.
-/

namespace GasCity.Convergence

def pending (p : Controller) : Option Op :=
  match p.activity with
  | .running (.call o _) => some o
  | _ => none

def Anchoring (p : Controller) : Step → Prop
  | .act _ => ∀ o ∈ pending p, Anchored p.store o
  | _ => True

/-- No fault falls into a window: a wisp poured but not named, the active wisp cleared but the state
not changed, a loop that ends. -/
def Sheltered (p : Controller) : Step → Prop
  | .act c => ∀ o ∈ pending p, Careful o.site c.answer
  | .stop => ∀ o ∈ pending p, o.site.stoppable = true
  | _ => True

instance (p : Controller) : (e : Step) → Decidable (Anchoring p e)
  | .act _ => inferInstanceAs (Decidable (∀ o ∈ pending p, Anchored p.store o))
  | .launch _ | .finish | .stop | .outside _ => inferInstanceAs (Decidable True)

instance (p : Controller) : (e : Step) → Decidable (Sheltered p e)
  | .act c => inferInstanceAs (Decidable (∀ o ∈ pending p, Careful o.site c.answer))
  | .stop => inferInstanceAs (Decidable (∀ o ∈ pending p, o.site.stoppable = true))
  | .launch _ | .finish | .outside _ => inferInstanceAs (Decidable True)

abbrev Runs (P : Controller → Step → Prop) (es : List Step) (p : Controller) : Prop :=
  Run (fun p e q => StepOf controller.step p e q ∧ P p e) start es p

variable {es : List Step} {log : List Entry} {p : Controller}

theorem Runs.kept {κ τ : Prop}
    (h : Runs (fun p e => (κ → Anchoring p e) ∧ (τ → Sheltered p e)) es p) :
    controller.Kept (discipline κ τ) p := by
  refine (controller_disciplined κ τ).run (h.mono fun p e q ⟨hstep, hκ, hτ⟩ => ⟨hstep, ?_⟩)
    (kept_start κ τ)
  have hpending : ∀ o next, p.activity = .running (.call o next) → o ∈ pending p := by
    intro o next hrun
    rw [pending, hrun]
    rfl
  cases e with
  | act c =>
    intro o next hrun
    exact ⟨fun h => hκ h o (hpending o next hrun), fun h => hτ h o (hpending o next hrun)⟩
  | stop => exact fun o next hrun h => hτ h o (hpending o next hrun)
  | outside x => trivial
  | launch r => trivial
  | finish => trivial

theorem Runs.sheltered (h : Runs Sheltered es p) : controller.Kept (discipline False True) p :=
  Runs.kept (h.mono fun _ _ _ hs => ⟨hs.1, False.elim, fun _ => hs.2⟩)

def reached (es : List Step) : World :=
  match GasCity.exec controller.step start es with
  | some p => p.store
  | none => {}

theorem exists_runs {P : Controller → Step → Prop} [∀ p e, Decidable (P p e)] (es : List Step)
    (h : (GasCity.exec (fun p e => if P p e then controller.step p e else none) start
      es).isSome = true) : ∃ p, Runs P es p := by
  obtain ⟨p, hp⟩ := Option.isSome_iff_exists.mp h
  exact ⟨p, run_of_exec_guarded hp⟩

theorem store_of_run (h : Run (StepOf controller.step) start es p) :
    p.store = reached es := by
  have hexec : GasCity.exec controller.step start es = some p := by
    generalize start = q at h
    induction h with
    | nil s => rfl
    | cons ha _ ih => exact Option.bind_eq_some_iff.mpr ⟨_, ha, ih⟩
  rw [reached, hexec]

/-- Without a loop rebuilt beyond what was published, the wisp of an iteration is published only
after the gate, the operator or the trigger let the loop iterate. -/
theorem gates_not_bypassed {es : List Step} {p : Controller} (h : Runs Anchoring es p) :
    Gated p.store :=
  (Runs.kept
    (h.mono fun _ _ _ hs => ⟨hs.1, fun _ => hs.2, False.elim⟩)).1.2.1 trivial

instance (log : List Entry) (n : ℕ) : Decidable (Published log n) :=
  inferInstanceAs (Decidable (_ ∨ _))

/-- The entry lets the loop iterate after iteration `n`. -/
def permits (m : Metadata) (n : ℕ) : Entry → Bool
  | .gate _ k o => k = n && decide (decision m n (some o) = .continue)
  | .operator k | .trigger k => k = n
  | _ => false

theorem permitted_iff {m : Metadata} {n : ℕ} :
    Permitted m log n ↔ log.any (permits m n) = true := by
  rw [List.any_eq_true]
  constructor
  · rintro (⟨w, o, hg, hd⟩ | h | h)
    · exact ⟨_, hg, by simp [permits, hd]⟩
    · exact ⟨_, h, by simp [permits]⟩
    · exact ⟨_, h, by simp [permits]⟩
  · rintro ⟨e, he, hp⟩
    cases e with
    | gate w k o =>
      obtain ⟨rfl, hd⟩ : k = n ∧ decision m n (some o) = .continue := by simpa [permits] using hp
      exact .inl ⟨w, o, he, hd⟩
    | operator k =>
      obtain rfl : k = n := by simpa [permits] using hp
      exact .inr (.inl he)
    | trigger k =>
      obtain rfl : k = n := by simpa [permits] using hp
      exact .inr (.inr he)
    | pour k hidden => simp [permits] at hp
    | activate k => simp [permits] at hp
    | emit x => simp [permits] at hp

instance (m : Metadata) (log : List Entry) (n : ℕ) : Decidable (Permitted m log n) :=
  decidable_of_iff _ permitted_iff.symm

def answered (k : ℕ) : List Step :=
  List.replicate k (.act {})

/-- A loop with a manual gate is created, and its first wisp is closed. -/
def firstClosed (limit : ℕ) : List Step :=
  .launch (.create { formula := "f", target := "t", maxIterations := limit }) :: answered 14 ++
    [.finish, .outside (.close 0)]

/-- The wisp is handled until the active wisp is cleared; the controller stops before the state is
changed, and reconciles. -/
def brokenOff (limit : ℕ) : List Step :=
  firstClosed limit ++ [.launch .tick] ++ answered 8 ++ [.stop, .launch .reconcile] ++
    answered 8 ++ [.finish]

theorem exists_run (es : List Step) (h : (GasCity.exec controller.step start es).isSome = true) :
    ∃ p, Run (StepOf controller.step) start es p ∧ p.store = reached es := by
  obtain ⟨p, hp⟩ := Option.isSome_iff_exists.mp h
  exact ⟨p, run_of_exec hp, store_of_run (run_of_exec hp)⟩

/-- A stop between the cleared active wisp and the state `waiting_manual` makes reconciliation
activate the next wisp, although nothing let the loop iterate. -/
theorem stopped_wait_bypasses_gate :
    ∃ p, Run (StepOf controller.step) start (brokenOff 3) p ∧ ¬ Gated p.store := by
  obtain ⟨p, hrun, hstore⟩ := exists_run (brokenOff 3) (by decide +kernel)
  refine ⟨p, hrun, fun hg => ?_⟩
  rw [hstore] at hg
  have hpermitted : Permitted (reached (brokenOff 3)).metadata (reached (brokenOff 3)).log 1 :=
    hg 1 le_rfl (by decide +kernel)
  revert hpermitted
  decide +kernel

/-- The controller stops before it has named the first wisp, and reconciliation rebuilds the loop;
then the wisp is closed and its gate fails. -/
def rebuiltLoop : List Step :=
  .launch (.create
    { formula := "f", target := "t", maxIterations := 2, gateMode := .condition
      gateCondition := "check.sh" }) :: answered 11 ++ [.stop, .launch .reconcile] ++ answered 7 ++
    [.finish, .outside (.close 0), .launch .tick] ++
    List.replicate 17 (.act { outcome := .fail }) ++ [.finish]

theorem gates_not_bypassed_rebuilt :
    ∃ p, Runs Anchoring rebuiltLoop p ∧ Gated p.store ∧ Published p.store.log 2 := by
  obtain ⟨p, hrun⟩ := exists_runs (P := Anchoring) rebuiltLoop (by decide +kernel)
  refine ⟨p, hrun, gates_not_bypassed hrun, ?_⟩
  rw [store_of_run (hrun.mono fun _ _ _ h => h.1)]
  decide +kernel

/-- In a careful run no wisp above the limit is poured, and once the last allowed iteration is
closed, two ticks without a fault take the loop to the operator or to its end. -/
theorem iterations_bounded {es : List Step} {p : Controller} (h : Runs Sheltered es p) :
    (∀ n hidden, Entry.pour n hidden ∈ p.store.log → n ≤ p.store.metadata.maxIterations) ∧
      (p.activity = .idle →
        (p.store.metadata.gateMode = .condition → p.store.metadata.gateCondition ≠ "") →
        (∃ v ∈ p.store.wisps, v.iteration = p.store.metadata.maxIterations ∧ v.closed = true) →
        (∃ q r, controller.Served Accepted .tick p q ∧ controller.Served Accepted .tick q r) ∧
          ∀ q r, controller.Served Accepted .tick p q → controller.Served Accepted .tick q r →
            Ended r.store) := by
  have hkept := h.sheltered
  refine ⟨(hkept.1.2.2 trivial).bound, fun hidle hgate ⟨v, hv, hmax, hc⟩ => ?_⟩
  have hrest : Idle p.store := by
    have := hkept.2
    rw [hidle] at this
    exact this trivial
  have htick : ∀ {q r : Controller} {P Q : World → Prop}, controller.Served Accepted .tick q r →
      Alone P convergenceTick (fun _ => Q) → P q.store → r.activity = .idle ∧ Q r.store :=
    fun hserved halone hP => hserved.guarded (halone _ _ trivial hP)
  have hended : ∀ q r, controller.Served Accepted .tick p q →
      controller.Served Accepted .tick q r → Ended r.store := by
    intro q r hpq hqr
    have hthen : ∀ {P : World → Prop}, P p.store →
        Alone P convergenceTick (fun _ => Ended) → Ended r.store := fun hP ha =>
      (htick hqr alone_ended (htick hpq ha hP).2).2
    rcases Idle.atLimit hkept.1 hrest hv hmax hc hgate with he | ⟨w, n, hripe⟩ | ⟨w, x, n, hb⟩
    · exact hthen he alone_ended
    · exact hthen hripe alone_ripe
    · rcases (htick hpq alone_behind hb).2 with he | hripe
      · exact (htick hqr alone_ended he).2
      · exact (htick hqr alone_ripe hripe).2
  refine ⟨?_, hended⟩
  have hserved : ∀ x : Controller, x.activity = .idle →
      ∃ y : Controller, y.activity = .idle ∧ controller.Served Accepted .tick x y :=
    fun x hx => Service.exists_served (show Accepted {} from rfl) Request.tick hx
  obtain ⟨q, hqidle, hq⟩ := hserved p hidle
  obtain ⟨r, -, hr⟩ := hserved q hqidle
  exact ⟨q, r, hq, hr⟩

/-- The stop that bypasses the gate also lets a loop of one iteration go on to a second. -/
theorem stopped_wait_exceeds_limit : ∃ p, Run (StepOf controller.step) start (brokenOff 1) p ∧
      p.store.metadata.maxIterations = 1 ∧ Entry.pour 2 false ∈ p.store.log := by
  obtain ⟨p, hrun, hstore⟩ := exists_run (brokenOff 1) (by decide +kernel)
  refine ⟨p, hrun, ?_⟩
  rw [hstore]
  decide +kernel

def isIdle (p : Controller) : Bool :=
  match p.activity with
  | .idle => true
  | _ => false

theorem isIdle_iff : isIdle p = true ↔ p.activity = .idle := by
  unfold isIdle
  cases p.activity <;> simp

theorem iterations_bounded_firstClosed :
    ∃ p, Runs Sheltered (firstClosed 1) p ∧ Entry.pour 1 false ∈ p.store.log ∧
      (∀ n hidden, Entry.pour n hidden ∈ p.store.log → n ≤ p.store.metadata.maxIterations) ∧
      ∀ q r, controller.Served Accepted .tick p q → controller.Served Accepted .tick q r →
        Ended r.store := by
  obtain ⟨p, hp⟩ := Option.isSome_iff_exists.mp (show (GasCity.exec (fun p e =>
    if Sheltered p e then controller.step p e else none) start (firstClosed 1)).isSome = true by
    decide +kernel)
  have hrun : Runs Sheltered (firstClosed 1) p := run_of_exec_guarded hp
  have hstore := store_of_run (hrun.mono fun _ _ _ h => h.1)
  obtain ⟨hbound, hend⟩ := iterations_bounded hrun
  have hidle : p.activity = .idle := by
    have hshown : (GasCity.exec (fun p e => if Sheltered p e then controller.step p e else none)
        start (firstClosed 1)).map isIdle = some true := by decide +kernel
    rw [hp] at hshown
    exact isIdle_iff.mp (Option.some.inj hshown)
  refine ⟨p, hrun, ?_, hbound, (hend hidle ?_ ?_).2⟩ <;> rw [hstore] <;> decide +kernel

/-- In a careful run every wisp behind the dedup marker had its iteration event emitted, and a
closed root whose creation was announced had its end announced. -/
theorem events_delivered {es : List Step} {p : Controller} (h : Runs Sheltered es p) :
    (∀ u ∈ p.store.wisps, p.store.metadata.lastProcessedWisp = some u.id →
      ∀ v ∈ p.store.wisps, v.iteration ≤ u.iteration → Emitted p.store.log v.id) ∧
      (p.store.root = .closed → Entry.emit .created ∈ p.store.log →
        Entry.emit .terminated ∈ p.store.log) := by
  have hlaw := h.sheltered.1.2.2 trivial
  exact ⟨hlaw.passed, hlaw.told⟩

theorem emitted_iff {w : ID} :
    Emitted log w ↔ log.any (fun e => match e with
      | .emit (.iteration _ x) => x = w
      | _ => false) = true := by
  rw [List.any_eq_true]
  constructor
  · rintro ⟨n, hn⟩
    exact ⟨_, hn, by simp⟩
  · rintro ⟨e, he, hw⟩
    split at hw
    · rename_i n x
      obtain rfl : x = w := by simpa using hw
      exact ⟨n, he⟩
    · cases hw

instance (log : List Entry) (w : ID) : Decidable (Emitted log w) :=
  decidable_of_iff _ emitted_iff.symm

def approved : List Step :=
  firstClosed 2 ++ [.launch .tick] ++ answered 12 ++ [.finish, .launch (.approve "user")] ++
    answered 10 ++ [.finish]

theorem events_delivered_approved : ∃ p, Runs Sheltered approved p ∧ p.store.root = .closed ∧
      p.store.metadata.lastProcessedWisp = some 0 ∧ Emitted p.store.log 0 ∧
      Entry.emit .terminated ∈ p.store.log := by
  obtain ⟨p, hrun⟩ := exists_runs (P := Sheltered) approved (by decide +kernel)
  have hstore := store_of_run (hrun.mono fun _ _ _ h => h.1)
  obtain ⟨hpassed, htold⟩ := events_delivered hrun
  rw [hstore] at hpassed htold
  refine ⟨p, hrun, ?_⟩
  rw [hstore]
  have hroot : (reached approved).root = .closed := by decide +kernel
  exact ⟨hroot, by decide +kernel, hpassed ⟨0, 1, true, false⟩ (by decide +kernel)
    (by decide +kernel) ⟨0, 1, true, false⟩ (by decide +kernel) le_rfl,
    htold hroot (by decide +kernel)⟩

/-- The loop waits for the operator, whose `Iterate` is interrupted after the pour. -/
def interruptedIterate : List Step :=
  firstClosed 2 ++ [.launch .tick] ++ answered 12 ++ [.finish, .launch .iterate] ++ answered 3 ++
    [.stop]

/-- An agent closes the wisp that the interrupted `Iterate` poured. -/
def closedUnnamed : List Step :=
  interruptedIterate ++ [.outside (.close 1), .launch .reconcile] ++ answered 5 ++ [.finish]

/-- Reconciliation moves the dedup marker past a wisp that closed while no metadata named it, and
its iteration event is never emitted. -/
theorem unnamed_wisp_loses_event : ∃ p, Run (StepOf controller.step) start closedUnnamed p ∧
      ∃ u ∈ p.store.wisps, p.store.metadata.lastProcessedWisp = some u.id ∧
        ¬ Emitted p.store.log u.id := by
  obtain ⟨p, hrun, hstore⟩ := exists_run closedUnnamed (by decide +kernel)
  refine ⟨p, hrun, ?_⟩
  rw [hstore]
  exact ⟨⟨1, 2, true, false⟩, by decide +kernel, by decide +kernel, by decide +kernel⟩

/-- In a careful run no wisp of a terminated loop is open. -/
theorem no_orphaned_wisp {es : List Step} {p : Controller} (h : Runs Sheltered es p)
    (ht : p.store.metadata.state = .terminated) : ∀ v ∈ p.store.wisps, v.closed = true :=
  (h.sheltered.1.2.2 trivial).ended ht

theorem no_orphaned_wisp_approved : ∃ p, Runs Sheltered approved p ∧ p.store.wisps ≠ [] ∧
      ∀ v ∈ p.store.wisps, v.closed = true := by
  obtain ⟨p, hrun⟩ := exists_runs (P := Sheltered) approved (by decide +kernel)
  have hstore := store_of_run (hrun.mono fun _ _ _ h => h.1)
  refine ⟨p, hrun, ?_, no_orphaned_wisp hrun ?_⟩ <;> rw [hstore] <;> decide +kernel

/-- The operator approves a loop whose `Iterate` was interrupted: its root is closed, and the wisp
that was poured stays open. -/
theorem interrupted_iterate_orphans_wisp :
    ∃ p, Run (StepOf controller.step) start (interruptedIterate ++ [.launch .reconcile] ++
        answered 4 ++ [.finish, .launch (.approve "user")] ++ answered 10 ++ [.finish]) p ∧
      p.store.metadata.state = .terminated ∧ p.store.root = .closed ∧
      ∃ v ∈ p.store.wisps, v.closed = false := by
  obtain ⟨p, hrun, hstore⟩ := exists_run (interruptedIterate ++ [.launch .reconcile] ++
    answered 4 ++ [.finish, .launch (.approve "user")] ++ answered 10 ++ [.finish])
    (by decide +kernel)
  refine ⟨p, hrun, ?_⟩
  rw [hstore]
  decide +kernel

/-- Whatever stops and fails, the wisps of a loop have distinct ids and iterations, an iteration
follows closed ones, and the loop names only wisps that exist. -/
theorem iterations_chained {es : List Step} {p : Controller}
    (h : Run (StepOf controller.step) start es p) :
    (p.store.wisps.map Wisp.id).Nodup ∧ (p.store.wisps.map Wisp.iteration).Nodup ∧
      (∀ v ∈ p.store.wisps, ∀ k, 1 ≤ k → k < v.iteration →
        ∃ u ∈ p.store.wisps, u.iteration = k ∧ u.closed = true) ∧
      (∀ id, p.store.metadata.activeWisp = some id → ∃ v ∈ p.store.wisps, v.id = id) ∧
      (∀ id, p.store.metadata.gateOutcomeWisp = some id →
        ∃ v ∈ p.store.wisps, v.id = id ∧ v.closed = true) ∧
      (p.store.metadata.state = .waitingManual → p.store.metadata.activeWisp = none) := by
  have hkept : controller.Kept (discipline False False) p :=
    Runs.kept (h.mono fun _ _ _ hs => ⟨hs, False.elim, False.elim⟩)
  have hbase : Base p.store := hkept.1.1
  refine ⟨hbase.ids, hbase.keys, hbase.chain, hbase.active, fun id hid => ?_, hbase.manual⟩
  obtain ⟨v, hv, hid', hclosed, -⟩ := hbase.judged id hid
  exact ⟨v, hv, hid', hclosed⟩

theorem iterations_chained_stopped : ∃ p, Run (StepOf controller.step) start (brokenOff 3) p ∧
    (p.store.wisps.map Wisp.iteration).Nodup ∧ p.store.wisps.length = 2 := by
  obtain ⟨p, hrun, hstore⟩ := exists_run (brokenOff 3) (by decide +kernel)
  refine ⟨p, hrun, (iterations_chained hrun).2.1, ?_⟩
  rw [hstore]
  decide +kernel

end GasCity.Convergence
