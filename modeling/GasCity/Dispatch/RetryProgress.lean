import GasCity.Dispatch.RetryBudget
import Mathlib.Algebra.Order.BigOperators.Group.List

/-! # Progress of a retry control

As long as its budget lasts, a retry control can spawn its next attempt, and the
attempt can fail.  The budget is kept exactly when the first attempt counts as one.
-/

namespace GasCity.Dispatch

open List Kind

open Formula

theorem exists_fresh_ids (l : List String) : ∃ ids : String ↪ String, ∀ x, ids x ∉ l := by
  let start := String.ofList (replicate ((l.map String.length).sum + 1) 'x')
  refine ⟨⟨fun x => start ++ x, fun x y h => (String.append_right_inj start).mp h⟩, ?_⟩
  intro x hx
  have hle : (start ++ x).length ≤ (l.map String.length).sum :=
    le_sum_of_mem (mem_map_of_mem hx)
  have hlength : (start ++ x).length = (l.map String.length).sum + 1 + x.length := by
    simp [start]
  omega

section Attachable

variable {s : Store} {r : Step} {c : Bead} {n : ℕ} {ids : String ↪ String}

theorem isScopeCheckOf_attemptScopeCheck {logical : String → Option String} {step : RecipeStep}
    {attached : Store}
    (h : (attached.downDeps (ids (attemptScopeCheck step).id)).head? = some (ids step.id)) :
    isScopeCheckOf attached (stepToBead ids logical step)
      (stepToBead ids logical (attemptScopeCheck step)) = true := by
  rw [isScopeCheckOf_iff, kind_attemptScopeCheck]
  refine ⟨⟨⟨rfl, ?_⟩, ?_⟩, h⟩
  · rw [Bead.scopeRole, stepToBead_val (by decide), attemptScopeCheck,
      Table.val_copyNonempty_of_notMem (by decide)]
    rfl
  · rw [Bead.scopeRef, stepToBead_val (by decide), attemptScopeCheck,
      Table.val_copyNonempty_of_notMem (by decide), Bead.scopeRef, stepToBead_val (by decide)]
    rfl

theorem attachable_spawned (hids : (s.beads.map Bead.id).Nodup) (hralph : r.ralph = none)
    (hfresh : ∀ x, ids x ∉ s.beads.map Bead.id) :
    Attachable s c (spawnNextAttempt ids r .nil c n) := by
  obtain ⟨logical, hspawn⟩ := spawnNextAttempt_eq ids hralph
  have hne : (attemptScopeCheck (retryRoot r c n)).id ≠ (retryRoot r c n).id := by
    intro h
    have hlength := congrArg String.length h
    simp [attemptScopeCheck] at hlength
  have hroot : ∀ {k}, k ∉ stampedKeys →
      (stepToBead ids logical (retryRoot r c n)).val k =
        (retryRoot r c n).metadata.val k := stepToBead_val
  rw [hspawn]
  split
  · next hneeds =>
    constructor
    case ids =>
      simp only [map_append, map_cons, map_nil, stepToBead_id]
      rw [nodup_append]
      refine ⟨hids, by simp [ids.injective.ne hne.symm], ?_⟩
      rintro _ hx _ hy rfl
      simp only [mem_cons, not_mem_nil, or_false] at hy
      rcases hy with rfl | rfl <;> exact hfresh _ hx
    case opened =>
      intro b hb
      simp only [mem_cons, not_mem_nil, or_false] at hb
      rcases hb with rfl | rfl <;> exact .inl rfl
    case watched =>
      intro b hb _ _
      simp only [mem_cons, not_mem_nil, or_false] at hb
      rcases hb with rfl | rfl
      · refine .inr ⟨_, mem_cons_of_mem _ (mem_singleton_self _),
          isScopeCheckOf_attemptScopeCheck ?_⟩
        simp [Store.downDeps, attemptRootStep]
      · left
        rw [kind_attemptScopeCheck]
        decide
    case issues => simp [stepToBead_id]
    case targets =>
      have htarget : ids (attemptPrefix r c n) ∈ (s.beads ++
          [stepToBead ids logical (retryRoot r c n),
            stepToBead ids logical (attemptScopeCheck (retryRoot r c n))]).map
              Bead.id := by
        simp [stepToBead_id, attemptRootStep]
      intro dep hdep
      simp only [mem_cons, not_mem_nil, or_false] at hdep
      rcases hdep with rfl | rfl <;> exact htarget
  · next hneeds =>
    constructor
    case ids =>
      simp only [map_append, map_cons, map_nil, stepToBead_id]
      rw [nodup_append]
      refine ⟨hids, by simp, ?_⟩
      rintro _ hx _ hy rfl
      obtain rfl := mem_singleton.mp hy
      exact hfresh _ hx
    case opened =>
      intro b hb
      obtain rfl := mem_singleton.mp hb
      exact .inl rfl
    case watched =>
      intro b hb href hrole
      obtain rfl := mem_singleton.mp hb
      rw [Bead.scopeRef, hroot (by decide)] at href
      rw [Bead.scopeRole, hroot (by decide)] at hrole
      have hkind : (retryRoot r c n).metadata.val .kind = task :=
        attemptRootStep_val (by simp)
      have hexempt : isScopeCheckExemptKind task = false := by decide
      exact absurd (by simp [attemptRecipeStepNeedsScopeCheck, href, hrole, hkind, hexempt]) hneeds
    case issues => simp
    case targets => simp [stepToBead_id, attemptRootStep]

/-- Among the new edges, the control waits for the root of the attempt alone. -/
theorem spawned_blocks (hralph : r.ralph = none) (hfresh : ∀ x, ids x ≠ c.id) {d : String}
    (h : (c.id, d) ∈ (spawnNextAttempt ids r .nil c n).blocks) : d = ids (attemptPrefix r c n) := by
  obtain ⟨logical, hspawn⟩ := spawnNextAttempt_eq ids hralph
  rw [hspawn] at h
  split at h
  · simp only [mem_cons, Prod.mk.injEq, not_mem_nil, or_false] at h
    rcases h with ⟨hid, -⟩ | ⟨-, rfl⟩
    · exact absurd hid.symm (hfresh _)
    · rfl
  · simpa using h

end Attachable

def transientFailure : Result where
  outcome := Outcome.fail
  failureClass := "transient"

theorem failedTransiently_close (b : Bead) :
    FailedTransiently (closeWith transientFailure.batch b) := by
  have hval : ∀ {k v}, (k, v) ∈ [(MetaKey.outcome, Outcome.fail), (.failureClass, "transient"),
      (.failureReason, ""), (.outputJSON, "")] →
      (closeWith transientFailure.batch b).val k = v := fun h =>
    val_withMetadata_of_mem (by simp [transientFailure]) (by simpa [transientFailure] using h)
  constructor
  · rw [hval (v := Outcome.fail) (by simp)]
    decide
  · rw [hval (v := "transient") (by simp)]
    decide

section Progress

variable {jsonValid : String → Bool} {r : Step} {control check first : Bead} {L : ℤ} {m n : ℕ}
  {s t : Store}

variable {a b c : Bead}

theorem Changed.ready {g : Bead → Bead} (h : Changed g s t) (hopen : c.status = .opened)
    (hblockers : ∀ d, (c.id, d) ∈ s.blocks →
      ∃ b, s.get d = some b ∧ (g b).status = .closed) : t.ready c = true := by
  refine ready_iff.mpr ⟨hopen, ?_⟩
  intro d hd
  rw [h.blocks] at hd
  obtain ⟨b, hb, hclosed⟩ := hblockers d hd
  exact ⟨g b, h.get hb, hclosed⟩

variable (control check) in
/-- The control waits for nothing but its open attempt `a`. -/
structure Waiting (first : Bead) (L : ℤ) (m : ℕ) (s : Store) (n : ℕ) (a : Bead) : Prop where
  counting : Counting control check first L m s n
  present : ∃ c ∈ s.beads, Frame control c ∧ c.status = .opened
  attempt : a ∈ s.beads
  work : isWork a = true
  opened : a.status = .opened
  blockers : ∀ d, (control.id, d) ∈ s.blocks →
    d = a.id ∨ ∃ b, s.get d = some b ∧ b.status = .closed

variable (control check) in
structure Deciding (first : Bead) (L : ℤ) (m : ℕ) (s : Store) (n : ℕ) : Prop where
  counting : Counting control check first L m s n
  ready : ∃ c, s.get control.id = some c ∧ s.ready c = true

theorem step_finish (hids : (s.beads.map Bead.id).Nodup) (ha : a ∈ s.beads)
    (hwork : isWork a = true) (hopen : a.status = .opened) (result : Result) :
    step s (.finish a.id result) = some (s.updateMetadataAndClose a.id result.batch) := by
  have hget : s.get a.id = some a := (Store.get_eq_some hids).mpr ⟨ha, rfl⟩
  have hnot : a.status ≠ .closed := by
    rw [hopen]
    exact nofun
  simp [step, hget, hwork, hnot]

theorem Waiting.finish (h : Waiting control check first L m s n a)
    (hr : ControlOf r control m) (hkind : check.kind = Kind.scopeCheck) :
    ∃ t, TransientRun jsonValid r control check s [.finish a.id transientFailure] t ∧
      Deciding control check first L m t n := by
  have hids := h.counting.ids
  have hget : s.get a.id = some a := (Store.get_eq_some hids).mpr ⟨h.attempt, rfl⟩
  have hchanged := Changed.close s a.id (onlyResults_result transientFailure)
  refine ⟨s.updateMetadataAndClose a.id transientFailure.batch, ?_, ?_, ?_⟩
  · exact .cons ⟨⟨step_finish hids h.attempt h.work h.opened _, trivial⟩,
      fun b _ _ => failedTransiently_close b⟩ (.nil _)
  · exact h.counting.work hkind h.attempt h.work hchanged fun _ _ => failedTransiently_close a
  · obtain ⟨c, hc, hframe, hopen⟩ := h.present
    have hsame : onBead a.id (closeWith transientFailure.batch) c = c :=
      if_neg (id_ne_of_work hids h.attempt h.work hc (by rw [hframe.kind, hr.kind]; decide))
    refine ⟨c, ?_, hchanged.ready hopen ?_⟩
    · rw [hchanged.get ((Store.get_eq_some hids).mpr ⟨hc, hframe.1⟩), hsame]
    · intro d hd
      rw [hframe.1] at hd
      rcases h.blockers d hd with rfl | ⟨b, hb, hclosed⟩
      · exact ⟨a, hget, by rw [onBead, if_pos rfl]; rfl⟩
      · exact ⟨b, hb, hchanged.closed b (Keyed.mem_of_lookup hb) hclosed⟩

theorem Deciding.spawn (h : Deciding control check first L m s n) (hr : ControlOf r control m)
    (hL : 1 ≤ L) (hless : L + n - 1 < m) :
    ∃ a t root, TransientRun jsonValid r control check s [a] t ∧ spawns control.id a = true ∧
      Waiting control check first L m t (n + 1) root := by
  have hids := h.counting.ids
  obtain ⟨c, hget, hready⟩ := h.ready
  obtain ⟨hmem, hid⟩ := (Store.get_eq_some hids).mp hget
  have hframe := frame_of_present hids h.counting.present hmem hid
  obtain ⟨ids, hfresh⟩ := exists_fresh_ids (s.beads.map Bead.id)
  have hkind : c.kind = retry := hframe.kind.trans hr.kind
  have hatt : Attachable s c (spawnNextAttempt ids r .nil c (L + n).toNat) :=
    attachable_spawned hids hr.ralph hfresh
  obtain ⟨reason, hverdict⟩ := h.counting.verdict hr hget hready jsonValid ids ""
  rw [if_neg (not_le.mpr hless)] at hverdict
  obtain ⟨root, hroot, -, hopen, hrootID, hwork⟩ := attemptCandidates_spawned ids hr.ralph
    hr.molecule hr.named hid (show 0 < (L + n).toNat by omega)
  have hrootMem : root ∈ (spawnNextAttempt ids r .nil c (L + n).toNat).beads := by
    have hcandidate : root ∈ attemptCandidates control
        (spawnNextAttempt ids r .nil c (L + n).toNat).beads := by
      rw [hroot]
      exact mem_singleton_self _
    exact (mem_attemptCandidates.mp hcandidate).1
  refine ⟨.process control.id (.spawn (spawnNextAttempt ids r .nil c (L + n).toNat)),
    s.attach (spawnNextAttempt ids r .nil c (L + n).toNat), root, ?_, by simp [spawns], ?_⟩
  · refine .cons ⟨⟨?_, fun _ => ⟨ids, "", c, hget, hverdict⟩⟩, .inl rfl⟩ (.nil _)
    have hcontrol : isControlKind retry = true := by decide
    have hne : retry ≠ Kind.scopeCheck := by decide
    simp [StepOf, step, hget, hready, hkind, hcontrol, processControl, hne, hatt]
  · constructor
    case counting => exact h.counting.attach hr hL hid hless hatt
    case present =>
      exact ⟨c, mem_append_left _ hmem, hframe, (ready_iff.mp hready).1⟩
    case attempt => exact mem_append_right _ hrootMem
    case work => exact hwork
    case opened => exact hopen
    case blockers =>
      intro d hd
      rcases mem_append.mp hd with hd | hd
      · right
        rw [← hid] at hd
        obtain ⟨b, hb, hclosed⟩ := (ready_iff.mp hready).2 d hd
        refine ⟨b, ?_, hclosed⟩
        rw [Store.get, Store.attach, Keyed.lookup_append, ← Store.get, hb]
        rfl
      · left
        rw [hrootID]
        rw [← hid] at hd
        exact spawned_blocks hr.ralph (fun x hx => hfresh x (hx ▸ mem_map_of_mem hmem)) hd

theorem Deciding.reach (h : Deciding control check first L m s n) (hr : ControlOf r control m)
    (hkind : check.kind = Kind.scopeCheck) (hL : 1 ≤ L) {j : ℕ} (hj : j = 0 ∨ L + n - 1 + j ≤ m) :
    ∃ as t, TransientRun jsonValid r control check s as t ∧
      Deciding control check first L m t (n + j) ∧ as.countP (spawns control.id) = j := by
  induction j with
  | zero => exact ⟨[], s, .nil s, h, rfl⟩
  | succ j ih =>
    have hnext : L + n - 1 + (j + 1 : ℕ) ≤ m := hj.resolve_left (Nat.succ_ne_zero j)
    obtain ⟨as, t, hrun, ht, hcount⟩ := ih (.inr (by omega))
    obtain ⟨a, u, root, hspawn, hspawns, hu⟩ := ht.spawn hr hL (by omega)
    obtain ⟨v, hfinish, hv⟩ := hu.finish hr hkind
    refine ⟨as ++ ([a] ++ [.finish root.id transientFailure]), v,
      hrun.append (hspawn.append hfinish), hv, ?_⟩
    rw [countP_append, countP_append, countP_singleton, countP_singleton,
      if_pos hspawns, hcount]
    rfl

variable (control check) in
/-- The control and its first attempt have been made.  The control waits for the scope check of the
attempt.  Attempts of other iterations that answer to its names have failed transiently. -/
structure RetryStart (first : Bead) (s : Store) : Prop where
  ids : (s.beads.map Bead.id).Nodup
  control_mem : control ∈ s.beads
  control_opened : control.status = .opened
  first_mem : first ∈ s.beads
  first_opened : first.status = .opened
  check_mem : check ∈ s.beads
  check_opened : check.status = .opened
  check_kind : check.kind = Kind.scopeCheck
  check_scope : check.scopeRef = control.scopeRef
  body : ∃ b ∈ s.beads, b.kind = scope ∧ matchesScopeRef b check.scopeRef = true
  waits : (control.id, check.id) ∈ s.blocks
  blockers : ∀ d, (control.id, d) ∈ s.blocks →
    d = check.id ∨ ∃ b, s.get d = some b ∧ b.status = .closed
  guards : s.downDeps check.id = [first.id]
  others : ∀ b ∈ s.beads, isAttemptOf control b = true → b ≠ first →
    b.status = .closed ∧ FailedTransiently b
  scopes : ∀ b ∈ s.beads, isAttemptOf control b = true → b.kind ≠ scope

theorem RetryStart.standing (h : RetryStart control check first s) :
    Standing control check first s :=
  ⟨h.ids, ⟨control, h.control_mem, .refl control⟩, ⟨check, h.check_mem, .refl check⟩,
    ⟨first, h.first_mem, .refl first⟩, h.waits, by rw [h.guards]; rfl⟩

theorem RetryStart.counting (h : RetryStart control check first s) (m : ℕ)
    (hlineage : isAttemptOf control first = true) (hnum : 1 ≤ attemptNum first) :
    ∃ top ∈ s.beads, isAttemptOf control top = true ∧
      (∀ b ∈ s.beads, isAttemptOf control b = true → attemptNum b ≤ attemptNum top) ∧
      Counting control check first (attemptNum top) m s 1 := by
  have hfirst : first ∈ attemptCandidates control s.beads :=
    mem_attemptCandidates.mpr ⟨h.first_mem, hlineage, by omega⟩
  obtain ⟨top, htop⟩ := exists_latestAttempt hfirst
  have hmem := argmax_mem htop
  have hle : ∀ b ∈ attemptCandidates control s.beads, attemptNum b ≤ attemptNum top :=
    fun b hb => le_of_mem_argmax hb htop
  obtain ⟨htopMem, htopAttempt, htopPos⟩ := mem_attemptCandidates.mp hmem
  refine ⟨top, htopMem, htopAttempt, ?_, ?_⟩
  · intro b hb hattempt
    by_cases hpos : 0 < attemptNum b
    · exact hle b (mem_attemptCandidates.mpr ⟨hb, hattempt, hpos⟩)
    · omega
  · constructor
    case toStanding => exact h.standing
    case closed =>
      intro b hb hclosed
      obtain ⟨hbMem, hattempt, -⟩ := mem_attemptCandidates.mp hb
      refine (h.others b hbMem hattempt ?_).2
      rintro rfl
      rw [h.first_opened] at hclosed
      cases hclosed
    case opened =>
      intro b hb hopen
      obtain ⟨hbMem, hattempt, -⟩ := mem_attemptCandidates.mp hb
      by_cases heq : b = first
      · refine .inr ⟨congrArg Bead.id heq, check, h.check_mem, rfl, ?_⟩
        rw [h.check_opened]
        exact nofun
      · exact absurd (h.others b hbMem hattempt heq).1 hopen
    case scopes =>
      intro b hb
      obtain ⟨hbMem, hattempt, -⟩ := mem_attemptCandidates.mp hb
      exact h.scopes b hbMem hattempt
    case top => exact ⟨top, hmem, by omega⟩
    case bound =>
      intro b hb
      have := hle b hb
      omega
    case budget => exact .inl rfl

theorem resolveScopeBody_isSome {scopeRef : String}
    (h : ∃ b ∈ s.beads, b.kind = scope ∧ matchesScopeRef b scopeRef = true) :
    ∃ body, resolveScopeBody s scopeRef = some body := by
  obtain ⟨b, hb, hkind, hmatches⟩ := h
  have hfind : (findScopeBody s scopeRef).isSome = true := by
    rw [findScopeBody, find?_isSome]
    exact ⟨b, hb, by simp [hkind, hmatches]⟩
  apply Option.isSome_iff_exists.mp
  simp [resolveScopeBody, hfind]

variable (control check) in
/-- The first attempt has failed, and its scope check can be processed. -/
structure Checking (first : Bead) (L : ℤ) (m : ℕ) (s : Store) : Prop where
  counting : Counting control check first L m s 1
  control_get : s.get control.id = some control
  control_opened : control.status = .opened
  check_get : s.get check.id = some check
  check_ready : s.ready check = true
  subject : ∃ a, s.get first.id = some a ∧ a.status = .closed ∧ isRetryAttemptSubject a = true
  body : ∃ body, resolveScopeBody s check.scopeRef = some body
  blockers : ∀ d, (control.id, d) ∈ s.blocks →
    d = check.id ∨ ∃ b, s.get d = some b ∧ b.status = .closed

theorem RetryStart.finishFirst (jsonValid : String → Bool)
    (h : RetryStart control check first s) (hr : ControlOf r control m)
    (hwork : isWork first = true) (hsubject : isRetryAttemptSubject first = true)
    (hcounting : Counting control check first L m s 1) :
    ∃ t, TransientRun jsonValid r control check s [.finish first.id transientFailure] t ∧
      Checking control check first L m t := by
  have hids := h.ids
  have hfailed := Changed.close s first.id (onlyResults_result transientFailure)
  have hget : ∀ {b : Bead}, b ∈ s.beads → s.get b.id = some b := fun hb =>
    (Store.get_eq_some hids).mpr ⟨hb, rfl⟩
  have hsame : ∀ {b : Bead}, b ∈ s.beads → isControlKind b.kind = true →
      onBead first.id (closeWith transientFailure.batch) b = b := fun hb hcontrol =>
    if_neg (id_ne_of_work hids h.first_mem hwork hb hcontrol)
  have hclosed : onBead first.id (closeWith transientFailure.batch) first =
      closeWith transientFailure.batch first := if_pos rfl
  refine ⟨_, .cons ⟨⟨step_finish hids h.first_mem hwork h.first_opened _, trivial⟩,
    fun b _ _ => failedTransiently_close b⟩ (.nil _), ?_⟩
  constructor
  case counting =>
    exact hcounting.work h.check_kind h.first_mem hwork hfailed
      fun _ _ => failedTransiently_close first
  case control_get =>
    rw [hfailed.get (hget h.control_mem), hsame h.control_mem (by rw [hr.kind]; decide)]
  case control_opened => exact h.control_opened
  case check_get =>
    rw [hfailed.get (hget h.check_mem), hsame h.check_mem (by rw [h.check_kind]; decide)]
  case check_ready =>
    apply hfailed.ready h.check_opened
    intro d hd
    rw [← mem_downDeps, h.guards, mem_singleton] at hd
    subst hd
    exact ⟨first, hget h.first_mem, by rw [hclosed]; rfl⟩
  case subject =>
    have hframe := hfailed.frame first
    rw [hclosed] at hframe
    exact ⟨_, hclosed ▸ hfailed.get (hget h.first_mem), rfl, hframe.attemptSubject.trans hsubject⟩
  case body =>
    apply resolveScopeBody_isSome
    obtain ⟨b, hb, hkind, hmatches⟩ := h.body
    exact ⟨_, hfailed.mem hb, (hfailed.frame b).kind.trans hkind,
      ((hfailed.frame b).matchesScopeRef _).trans hmatches⟩
  case blockers =>
    intro d hd
    rw [hfailed.blocks] at hd
    refine (h.blockers d hd).imp_right ?_
    rintro ⟨b, hb, hbclosed⟩
    exact ⟨_, hfailed.get hb, hfailed.closed b (Keyed.mem_of_lookup hb) hbclosed⟩

/-- The scope check lets the failure of the first attempt through, and the control becomes ready. -/
theorem Checking.decide (jsonValid : String → Bool) (h : Checking control check first L m s)
    (hr : ControlOf r control m) (hkind : check.kind = Kind.scopeCheck)
    (hsubject : isRetryAttemptSubject first = true) :
    ∃ t, TransientRun jsonValid r control check s [.process check.id (.settle transientFailure)] t ∧
      Deciding control check first L m t 1 := by
  have hids := h.counting.ids
  have hcheck := Keyed.mem_of_lookup h.check_get
  have hcontrol := Keyed.mem_of_lookup h.control_get
  have hretry : control.kind ≠ Kind.scopeCheck ∧ control.kind ≠ scope := by
    rw [hr.kind]
    decide
  have hne : control.id ≠ check.id := by
    intro hid
    exact hretry.1 ((eq_of_id_eq_of_nodup hids hcontrol hcheck hid) ▸ hkind)
  obtain ⟨a, hfirst, hstatus, hattempt⟩ := h.subject
  obtain ⟨body, hbody⟩ := h.body
  obtain ⟨hbodyMem, hbodyKind⟩ := resolveScopeBody_mem hbody
  have hprocess : processScopeCheck s check = some (completeScopeCheck s check body a) := by
    simp [processScopeCheck, h.counting.guards, hfirst, hbody, hstatus, hattempt]
  have hstep : step s (.process check.id (.settle transientFailure)) =
      some (completeScopeCheck s check body a) := by
    have hcontrolKind : isControlKind Kind.scopeCheck = true := by decide
    simp [step, h.check_get, h.check_ready, hkind, hcontrolKind, processControl, hprocess]
  obtain ⟨g, hg, huntouched, hdone⟩ := changed_completeScopeCheck hids hbodyMem a
  have hcontrolSame : g control = control :=
    huntouched control hne (id_ne_of_scope hids hbodyMem hbodyKind hcontrol hretry.2).symm
  refine ⟨_, .cons ⟨⟨hstep, fun hid => absurd hid.symm hne⟩,
    .inr (.inl ⟨rfl, _, hg.get h.check_get, hdone check rfl⟩)⟩ (.nil _), ?_, ?_⟩
  · exact h.counting.scopeCheck hkind hsubject hcheck rfl hprocess
  · refine ⟨control, by rw [hg.get h.control_get, hcontrolSame], hg.ready h.control_opened ?_⟩
    intro d hd
    rcases h.blockers d hd with rfl | ⟨b, hb, hbclosed⟩
    · exact ⟨check, h.check_get, (hdone check rfl).1⟩
    · exact ⟨b, hb, hg.closed b (Keyed.mem_of_lookup hb) hbclosed⟩

theorem ControlClosed.not_ready (h : ControlClosed control s)
    (hget : s.get control.id = some c) : s.ready c = false := by
  obtain ⟨hids, c', hc', hid, hclosed⟩ := h
  obtain ⟨hmem, hcid⟩ := (Store.get_eq_some hids).mp hget
  rw [eq_of_id_eq_of_nodup hids hmem hc' (hcid.trans hid.symm), Store.ready, hclosed]
  rfl

section Start

variable (h : RetryStart control check first s)
include h

theorem RetryStart.spent (m : ℕ) (hb : b ∈ s.beads) (hlineage : isAttemptOf control b = true) :
    Spent control (attemptNum b) m s 1 where
  ids := h.ids
  present := ⟨control, h.control_mem, .refl control⟩
  numbered := ⟨b, hb, hlineage, by omega⟩
  positive := le_rfl
  within := .inl rfl

theorem budgetKept_of_counts (hr : ControlOf r control m)
    (hwork : isWork first = true) (hsubject : isRetryAttemptSubject first = true)
    (hlineage : isAttemptOf control first = true) (hnum : attemptNum first = 1)
    (hcounts : m = 1 ∨ ∀ b ∈ s.beads, isAttemptOf control b = true → attemptNum b ≤ 1) :
    BudgetKept jsonValid r control check m s := by
  obtain ⟨top, htop, hattempt, hle, hcounting⟩ := h.counting m hlineage hnum.ge
  have hL : 1 ≤ attemptNum top := hnum.ge.trans (hle first h.first_mem hlineage)
  have hone : m = 1 ∨ attemptNum top = 1 :=
    hcounts.imp id fun hone => le_antisymm (hone top htop hattempt) hL
  have hpositive := hr.positive
  constructor
  case exact =>
    intro as t hrun c hget hready ids artifacts
    have hcounting' : Counting control check first (attemptNum top) m t
        (attemptsRun control.id as) := by
      refine (hcounting.run hr h.check_kind hsubject hL hrun).resolve_left ?_
      intro hclosed
      rw [hclosed.not_ready hget] at hready
      cases hready
    obtain ⟨reason, hverdict⟩ := hcounting'.verdict hr hget hready jsonValid ids artifacts
    have hpos : 1 ≤ attemptsRun control.id as := Nat.le_add_right 1 _
    refine ⟨_, hverdict, ?_⟩
    by_cases hmore : attemptsRun control.id as < m
    · rw [if_pos hmore, if_neg (by omega)]
      exact ⟨_, rfl⟩
    · rw [if_neg hmore, if_pos (by omega)]
      exact ⟨reason, rfl⟩
  case reached =>
    obtain ⟨s₁, hfinish, hchecking⟩ := h.finishFirst jsonValid hr hwork hsubject hcounting
    obtain ⟨s₂, hcheck, hdeciding⟩ := hchecking.decide jsonValid hr h.check_kind hsubject
    obtain ⟨as, t, hrun, ht, hcount⟩ := hdeciding.reach hr h.check_kind hL (j := m - 1) (by omega)
    obtain ⟨c, hget, hready⟩ := ht.ready
    refine ⟨_, t, c, (hfinish.append hcheck).append hrun, hget, hready, ?_⟩
    rw [attemptsRun, countP_append, hcount]
    simp only [cons_append, nil_append, countP_cons, countP_nil, spawns]
    simp
    omega
  case bounded =>
    intro as t hrun
    have hspent := (h.spent m h.first_mem hlineage).run hr hnum.ge hrun
    have := hspent.within
    rw [attemptsRun]
    omega

/-- An attempt that answers to the control and counts as more than one leaves too few. -/
theorem counts_of_budgetKept (hr : ControlOf r control m)
    (hkept : BudgetKept jsonValid r control check m s) :
    m = 1 ∨ ∀ b ∈ s.beads, isAttemptOf control b = true → attemptNum b ≤ 1 := by
  by_contra hnot
  obtain ⟨hm, hmany⟩ := not_or.mp hnot
  push Not at hmany
  obtain ⟨b, hb, hlineage, hnum⟩ := hmany
  obtain ⟨as, t, c, hrun, -, -, hcount⟩ := hkept.reached
  have hspent := (h.spent m hb hlineage).run hr (by omega) (hrun.mono fun _ _ _ hs => hs.1)
  have := hspent.within
  rw [attemptsRun] at hcount
  omega

end Start

variable (control check) in
/-- The control waits for the check of an attempt whose failure aborts the scope. -/
structure Starving (first : Bead) (s : Store) : Prop extends Standing control check first s where
  idle : ∃ c ∈ s.beads, Frame control c ∧ c.status = .opened
  pending : ∃ x ∈ s.beads, Frame check x ∧ x.status ≠ .closed
  failed : ∃ a ∈ s.beads, Frame first a ∧ (a.status = .closed → FailedTransiently a)

section Starving

variable (h : Starving control check first s) (hr : ControlOf r control m)
  (hkind : check.kind = Kind.scopeCheck) (hlineage : isAttemptOf control first = true)
  (hscope : check.scopeRef = control.scopeRef) (hholds : holdsScope control = true)
  (hnum : 1 ≤ attemptNum first) (hsubject : isRetryAttemptSubject first = false)
include h

theorem Starving.not_ready (hget : s.get control.id = some c) : s.ready c = false := by
  by_contra hready
  obtain ⟨-, hid⟩ := (Store.get_eq_some h.ids).mp hget
  obtain ⟨x, hx, hframe, hopen⟩ := h.pending
  have hblock : (c.id, check.id) ∈ s.blocks := by
    rw [hid]
    exact h.waits
  obtain ⟨x', hx', hclosed⟩ := (ready_iff.mp (Bool.not_eq_false _ ▸ hready)).2 check.id hblock
  obtain ⟨hmem, hxid⟩ := (Store.get_eq_some h.ids).mp hx'
  rw [eq_of_id_eq_of_nodup h.ids hmem hx (hxid.trans hframe.1.symm)] at hclosed
  exact hopen hclosed

include hr hkind

include hlineage in
theorem Starving.work {f : Bead → Bead} (hb : b ∈ s.beads) (hwork : isWork b = true)
    (hg : Changed (onBead b.id f) s t)
    (hf : isAttemptOf control b = true → (f b).status = .closed → FailedTransiently (f b)) :
    Starving control check first t := by
  obtain ⟨c, hc, hcframe, hcopen⟩ := h.idle
  obtain ⟨x, hx, hxframe, hxopen⟩ := h.pending
  obtain ⟨a, ha, haframe, hafailed⟩ := h.failed
  have hsame : ∀ {b' : Bead}, b' ∈ s.beads → isControlKind b'.kind = true →
      onBead b.id f b' = b' := fun hb' hcontrol =>
    if_neg (id_ne_of_work h.ids hb hwork hb' hcontrol)
  have hcsame := hsame hc (by rw [hcframe.kind, hr.kind]; decide)
  have hxsame := hsame hx (by rw [hxframe.kind, hkind]; decide)
  constructor
  case toStanding => exact h.toStanding.changed hg
  case idle => exact ⟨c, hcsame ▸ hg.mem hc, hcframe, hcopen⟩
  case pending => exact ⟨x, hxsame ▸ hg.mem hx, hxframe, hxopen⟩
  case failed =>
    refine ⟨_, hg.mem ha, haframe.trans (hg.frame a), ?_⟩
    unfold onBead
    split
    · next hid =>
      rw [eq_of_id_eq_of_nodup h.ids ha hb hid]
      apply hf
      rw [← eq_of_id_eq_of_nodup h.ids ha hb hid, haframe.isAttemptOf]
      exact hlineage
    · exact hafailed

include hscope hholds hsubject

/-- The check finds the failure of an attempt, aborts the scope and closes the control. -/
theorem Starving.scopeCheck {x : Bead} (hx : x ∈ s.beads) (hxid : x.id = check.id)
    (hprocess : processScopeCheck s x = some t)
    (hpassed : ∃ x, t.get check.id = some x ∧ x.status = .closed ∧ x.val .outcome = Outcome.pass) :
    ControlClosed control t := by
  obtain ⟨mid, a, body, hhead, hget, hbody, hclosed, hcase⟩ := processScopeCheck_cases hprocess
  rw [hxid, h.guards, Option.some.injEq] at hhead
  subst hhead
  obtain ⟨ha, haid⟩ := (Store.get_eq_some h.ids).mp hget
  obtain ⟨a', ha', hframe, hfailed⟩ := h.failed
  obtain rfl := eq_of_id_eq_of_nodup h.ids ha ha' (haid.trans hframe.1.symm)
  have hfails : scopeFailed a = true := by
    rw [scopeFailed, hframe.attemptSubject, hsubject, beadOutcomeFailed, (hfailed hclosed).1]
    rfl
  rw [hfails] at hcase
  obtain ⟨-, rfl⟩ := hcase.resolve_right (by simp)
  have hxframe := frame_of_present h.ids h.checks hx hxid
  obtain ⟨ids, hopened, ⟨hok, hmap, hall⟩ | ⟨herror, hmap⟩⟩ := abortScope_cases h.ids body
  · obtain ⟨c, hc, hcframe, hcopen⟩ := h.idle
    have hckind : c.kind = retry := hcframe.kind.trans hr.kind
    have hne : c.id ≠ x.id := by
      intro hid
      rw [eq_of_id_eq_of_nodup h.ids hc hx hid, hxframe.kind, hkind] at hckind
      exact absurd hckind (by decide)
    have hpending : c ∈ pendingSkip s x.scopeRef x.id := by
      have hcscope : c.scopeRef = x.scopeRef := by
        rw [hcframe.scopeRef, hxframe.scopeRef, hscope]
      have hcholds : holdsScope c = true := by
        rw [holdsScope, hcframe.scopeRole]
        exact hholds
      have hspec : retry ≠ spec := by decide
      exact mem_filter.mpr ⟨hc, by simp [hcopen, hcscope, hne, hckind, hspec, hcholds]⟩
    have hskipped : c.id ∈ ids := (hall c hpending).resolve_right (by rw [hckind]; decide)
    rw [if_pos hok, hmap]
    obtain ⟨g, hg⟩ := Changed.closeOutcome
      { s with beads := s.beads.map (abortBead s x.scopeRef ids body) } x.id Outcome.pass
    have hframeC : Frame c (abortBead s x.scopeRef ids body c) := frame_abortBead c
    refine ⟨?_, _, hg.mem (mem_map_of_mem hc), ?_, hg.closed _ (mem_map_of_mem hc) ?_⟩
    · rw [hg.ids, map_map]
      exact (map_congr_left fun b _ => (frame_abortBead b).1).symm ▸ h.ids
    · rw [(hg.frame _).1, hframeC.1]
      exact hcframe.1
    · rw [abortBead, if_pos hskipped]
      unfold onBead
      split <;> rfl
  · -- after an error the check is still open, or skipped
    obtain ⟨y, hy, hyclosed, hypassed⟩ := hpassed
    rw [herror, if_neg Bool.false_ne_true, hmap] at hy
    obtain ⟨y₀, hy₀, rfl⟩ := mem_map.mp (Keyed.mem_of_lookup hy)
    have hid : y₀.id = check.id := (frame_skipped ids y₀).1.symm.trans (Keyed.key_of_lookup hy)
    obtain ⟨z, hz, hzframe, hzopen⟩ := h.pending
    rw [eq_of_id_eq_of_nodup h.ids hy₀ hz (hid.trans hzframe.1.symm)] at hyclosed hypassed
    exact absurd hypassed ((skipped_spared hopened hz).unpassed.opened hzopen hyclosed)

include hlineage hnum in
theorem Starving.step {a : Label} (hstep : Dispatch.step s a = some t)
    (htransient : AllTransient control check s a t) :
    ControlClosed control t ∨ Starving control check first t := by
  cases a with
  | claim id =>
    right
    obtain ⟨b, hmem, rfl, hwork, hopen, rfl⟩ := step_claim_cases h.ids hstep
    exact h.work hr hkind hlineage hmem hwork (.claim h.ids hmem hopen) nofun
  | finish id result =>
    right
    obtain ⟨b, hmem, hget, rfl, hwork, -, rfl⟩ := step_finish_cases h.ids hstep
    have hfinish := htransient b hget
    exact h.work hr hkind hlineage hmem hwork (.close s b.id (onlyResults_result result))
      fun hattempt _ => hfinish hattempt
  | process id verdict =>
    obtain ⟨x, hmem, hget, hxid, hready, -, hprocess⟩ := step_process_cases h.ids hstep
    rcases htransient with rfl | ⟨rfl, hpassed⟩ | ⟨hcandidates, hcontrol, hcheck⟩
    · rw [h.not_ready hget] at hready
      cases hready
    · left
      have hxkind : x.kind = Kind.scopeCheck :=
        (frame_of_present h.ids h.checks hmem hxid).kind.trans hkind
      exact h.scopeCheck hr hkind hscope hholds hsubject hmem hxid
        ((if_pos hxkind).symm.trans hprocess) hpassed
    · right
      have hkept : ∀ {b : Bead}, b ∈ s.beads → t.get b.id = s.get b.id → b ∈ t.beads := by
        intro b hb hsame
        rw [(Store.get_eq_some h.ids).mpr ⟨hb, rfl⟩] at hsame
        exact Keyed.mem_of_lookup hsame
      obtain ⟨c, hc, hcframe, hcopen⟩ := h.idle
      obtain ⟨x, hx, hxframe, hxopen⟩ := h.pending
      obtain ⟨a, ha, haframe, hafailed⟩ := h.failed
      constructor
      case toStanding => exact h.toStanding.step hstep
      case idle => exact ⟨c, hkept hc (by rw [hcframe.1, hcontrol]), hcframe, hcopen⟩
      case pending => exact ⟨x, hkept hx (by rw [hxframe.1, hcheck]), hxframe, hxopen⟩
      case failed =>
        have hcandidate : a ∈ attemptCandidates control s.beads :=
          mem_attemptCandidates.mpr ⟨ha, (haframe.isAttemptOf control).trans hlineage,
            by rw [haframe.attemptNum]; omega⟩
        rw [← hcandidates] at hcandidate
        exact ⟨a, (mem_attemptCandidates.mp hcandidate).1, haframe, hafailed⟩

end Starving

theorem not_budgetKept_of_starving (h : RetryStart control check first s)
    (hr : ControlOf r control m) (hholds : holdsScope control = true)
    (hlineage : isAttemptOf control first = true) (hnum : 1 ≤ attemptNum first)
    (hsubject : isRetryAttemptSubject first = false) :
    ¬ BudgetKept jsonValid r control check m s := by
  intro hkept
  have hstart : Starving control check first s := by
    refine ⟨h.standing, ⟨control, h.control_mem, .refl control, h.control_opened⟩,
      ⟨check, h.check_mem, .refl check, ?_⟩, ⟨first, h.first_mem, .refl first, ?_⟩⟩
    · rw [h.check_opened]
      exact nofun
    · rw [h.first_opened]
      exact nofun
  obtain ⟨as, t, c, hrun, hget, hready, -⟩ := hkept.reached
  have hend : ControlClosed control t ∨ Starving control check first t := by
    refine hrun.invariant (fun u => ControlClosed control u ∨ Starving control check first u) ?_
      (.inr hstart)
    rintro u a v (hclosed | hstarving) ⟨⟨hstep, -⟩, htransient⟩
    · exact .inl (hclosed.step hstep)
    · exact hstarving.step hr h.check_kind hlineage h.check_scope hholds hnum hsubject hstep
        htransient
  rcases hend with hclosed | hstarving
  · rw [hclosed.not_ready hget] at hready
    cases hready
  · rw [hstarving.not_ready hget] at hready
    cases hready

end Progress

end GasCity.Dispatch
