import GasCity.Awake.Desired

/-! # Mandatory causes to wake

A session is decided from the reason for which it is desired, from overrides, idle time and holds.
Owned work keeps a session awake whatever its idle time is.  A create claim or an explicit request
does so only if the session is not put to sleep for being idle.
-/

namespace GasCity.Awake

open List AwakeInput Table

structure AwakeDecision where
  shouldWake : Bool
  reason : Option Reason
  hasAssignedWork : Bool
  assignedWorkBeadID : String
  requiresFreshCycle : Bool
  deriving DecidableEq

def defaultOnDemandIdleTimeout : ℤ := 5 * 60 * 1000000000

abbrev Verdict := Bool × Option Reason

def Verdict.unless (v : Verdict) (b : Bool) (reason : Reason) : Verdict :=
  if b then (false, some reason) else v

def Verdict.whenever (v : Verdict) (b : Bool) (reason : Reason) : Verdict :=
  if b then (true, some reason) else v

namespace AwakeInput

variable (input : AwakeInput) (bead : AwakeSessionBead)

def inManualGracePeriod : Bool :=
  bead.manualSession && decide (0 < input.manualGracePeriod) && bead.createdAt ≠ 0 &&
    decide (input.now - bead.createdAt < input.manualGracePeriod)

def desiredVerdict : Verdict :=
  match input.desired.get bead.sessionName with
  | some reason =>
    if !bead.waitHold || bead.pendingCreate || bead.explicitWake then (true, some reason)
    else (false, none)
  | none => (false, none)

/-- The overrides of a user, of a ready wait, of a running session and of a pin. -/
def overrides (v : Verdict) : Verdict :=
  let v := v.whenever (input.attachedSessions bead.sessionName && !bead.waitHold) .attached
  let v := v.whenever (input.pendingSessions bead.sessionName && !bead.waitHold) .pending
  let v := v.whenever (input.readyWaitSet bead.id) .waitReady
  let v := v.whenever (!v.1 && !bead.drained && !bead.waitHold &&
    bead.sleepReason ≠ .idleTimeout && input.runningSessions bead.sessionName &&
    isOnDemandSession input.namedSessions bead) .onDemandRunning
  v.whenever (!v.1 && bead.pinned &&
    !(bead.state == .suspended || bead.state == .closed || bead.drained) &&
    !bead.dependencyOnly && !bead.waitHold &&
    (input.agentOf bead.template).any fun agent => !agent.suspended) .pin

/-- The reasons under which a session is not put to sleep for being idle. -/
def isExempt : Option Reason → Bool
  | some .assignedWork | some .minActive | some .resetPending | some .namedDemand
  | some .routedDemand | some .workQuery => true
  | _ => false

def idleTimeout : ℤ :=
  if bead.manualSession = true ∧ 0 < input.chatIdleTimeout then input.chatIdleTimeout
  else
    match (input.agentOf bead.template).filter fun agent => decide (0 < agent.sleepAfterIdle) with
    | some agent => agent.sleepAfterIdle
    | none =>
      if isOnDemandSession input.namedSessions bead then defaultOnDemandIdleTimeout else 0

/-- The session has been idle past its timeout and nothing but a reason may spare it. -/
def isIdle : Bool :=
  !input.attachedSessions bead.sessionName && !input.pendingSessions bead.sessionName &&
    !bead.pinned && bead.idleSince ≠ 0 && !isAlwaysNamedSession input.namedSessions bead &&
    !input.inManualGracePeriod bead && decide (0 < input.idleTimeout bead) &&
    decide (input.idleTimeout bead ≤ input.now - bead.idleSince)

def verdict : Verdict :=
  let v := input.overrides bead (input.desiredVerdict bead)
  let v := v.unless
    (v.1 && !isExempt (input.desired.get bead.sessionName) && input.isIdle bead) .idleSleep
  let v := v.unless (input.inWindow bead.heldUntil) .held
  v.unless (input.inWindow bead.quarantinedUntil) .quarantined

def decision : AwakeDecision :=
  let anchor := input.assignedAnchor.get bead.sessionName
  { shouldWake := (input.verdict bead).1
    reason := (input.verdict bead).2
    hasAssignedWork := anchor.isSome
    assignedWorkBeadID := anchor.getD ""
    requiresFreshCycle := anchor.any fun id =>
      bead.currentlyProcessingBeadID ≠ "" && id ≠ bead.currentlyProcessingBeadID }

end AwakeInput

def computeAwakeSet (input : AwakeInput) : Table String AwakeDecision :=
  .ofList (input.sessionBeads.map fun bead => (bead.sessionName, input.decision bead))

section Writes

variable {input : AwakeInput} {bead : AwakeSessionBead} {t : Table String Reason} {name : String}
  {reason : Reason}

theorem isSome_ofList_of_mem {ws : List Write} (h : (name, reason) ∈ ws) :
    ((ofList ws).get name).isSome :=
  (Table.mem_keys _ _).mp (mem_keys_ofList.mpr (mem_map_of_mem h))

theorem get_foldl_set_of_mem {ws : List Write} (hall : ∀ w ∈ ws, w.2 = reason)
    (h : (name, reason) ∈ ws ∨ t.get name = some reason) :
    (ws.foldl (fun t p => t.set p.1 p.2) t).get name = some reason := by
  induction ws generalizing t with
  | nil =>
    rcases h with h | h
    · cases h
    · exact h
  | cons w ws ih =>
    rw [forall_mem_cons] at hall
    apply ih hall.2
    rw [get_set]
    by_cases hw : name = w.1
    · rw [if_pos hw, hall.1]
      exact .inr rfl
    · rw [if_neg hw]
      rcases h with h | h
      · rcases mem_cons.mp h with h | h
        · exact absurd (congrArg Prod.fst h) hw
        · exact .inl h
      · exact .inr h

variable (hbead : bead ∈ input.sessionBeads)
include hbead

theorem get_writes_of_isAnchored (h : input.isAnchored bead = true) :
    (ofList input.writes).get bead.sessionName = some .assignedWork := by
  rw [ofList, writes, foldl_append]
  apply get_foldl_set_of_mem
  · intro w hw
    obtain ⟨b, -, rfl⟩ := mem_map.mp hw
    rfl
  · left
    exact mem_map.mpr ⟨bead, mem_filter.mpr ⟨hbead, h⟩, rfl⟩

theorem isSome_writes_of_pendingCreate (h : bead.pendingCreate = true) :
    ((ofList input.writes).get bead.sessionName).isSome := by
  have hmem : (bead.sessionName, Reason.pendingCreate) ∈ input.pendingCreates :=
    mem_map.mpr ⟨bead, mem_filter.mpr ⟨hbead, h⟩, rfl⟩
  apply isSome_ofList_of_mem
  simp only [writes, append_assoc]
  exact mem_append_left _ hmem

theorem isSome_writes_of_wakesExplicitly (h : input.wakesExplicitly bead = true) :
    ((ofList input.writes).get bead.sessionName).isSome := by
  have hmem : (bead.sessionName, Reason.explicitWake) ∈ input.explicitWakes :=
    mem_map.mpr ⟨bead, mem_filter.mpr ⟨hbead, h⟩, rfl⟩
  apply isSome_ofList_of_mem
  simp only [writes, append_assoc]
  exact mem_append_right _ (mem_append_left _ hmem)

omit hbead

def Follows (t t' : Table String Reason) : Prop :=
  ∀ name reason, t.get name = some reason →
    t'.get name = some reason ∨ t'.get name = some .resetPending

theorem Follows.refl (t : Table String Reason) : Follows t t :=
  fun _ _ h => .inl h

theorem Follows.trans {t t' t'' : Table String Reason} (h : Follows t t') (h' : Follows t' t'') :
    Follows t t'' := by
  intro name reason hname
  rcases h name reason hname with hkeep | hreset
  · exact h' name reason hkeep
  · right
    rcases h' name .resetPending hreset with h'' | h''
    · exact h''
    · exact h''

theorem follows_foldl {α : Type} {f : Table String Reason → α → Table String Reason}
    (hf : ∀ t a, Follows t (f t a)) (l : List α) (t : Table String Reason) :
    Follows t (l.foldl f t) := by
  induction l generalizing t with
  | nil => exact .refl t
  | cons a l ih => exact (hf t a).trans (ih (f t a))

theorem follows_revive (minimum covered : ℤ) (beads : List AwakeSessionBead)
    (t : Table String Reason) : Follows t (input.revive minimum covered t beads) := by
  induction beads generalizing covered t with
  | nil => exact .refl t
  | cons bead beads ih =>
    unfold revive
    split_ifs with hcovered hskip
    · exact .refl t
    · exact ih covered t
    · refine Follows.trans ?_ (ih (covered + 1) (t.set bead.sessionName .minActive))
      intro name reason hname
      left
      rw [get_set_of_ne _ _ ?_]
      · exact hname
      · rintro rfl
        rw [hname] at hskip
        exact hskip rfl

theorem follows_minActive (t : Table String Reason) (agent : AwakeAgent) :
    Follows t (input.minActive t agent) := by
  unfold minActive
  split_ifs
  · exact .refl t
  · exact follows_revive _ _ _ t

theorem follows_reset (t : Table String Reason) (bead : AwakeSessionBead) :
    Follows t (reset t bead) := by
  have hset : Follows t (t.set bead.sessionName .resetPending) := by
    intro name reason hname
    rw [get_set]
    split_ifs
    · exact .inr rfl
    · exact .inl hname
  unfold reset
  split_ifs
  · exact .refl t
  · split
    · exact .refl t
    · exact .refl t
    · exact hset

theorem follows_desired : Follows (ofList input.writes) input.desired :=
  (follows_foldl follows_minActive _ _).trans (follows_foldl follows_reset _ _)

theorem isSome_desired (h : ((ofList input.writes).get name).isSome) :
    (input.desired.get name).isSome := by
  obtain ⟨reason, hreason⟩ := Option.isSome_iff_exists.mp h
  rcases follows_desired name reason hreason with h | h
  · rw [h]
    rfl
  · rw [h]
    rfl

end Writes

section Decisions

variable {input : AwakeInput} {bead : AwakeSessionBead} {v : Verdict}

theorem whenever_fst (h : v.1 = true) (b : Bool) (reason : Reason) :
    (v.whenever b reason).1 = true := by
  unfold Verdict.whenever
  split_ifs
  · rfl
  · exact h

theorem unless_of_false {b : Bool} (h : b = false) (reason : Reason) : v.unless b reason = v := by
  rw [Verdict.unless, h]
  rfl

theorem overrides_fst (h : v.1 = true) : (input.overrides bead v).1 = true := by
  exact whenever_fst (whenever_fst (whenever_fst (whenever_fst (whenever_fst h _ _) _ _) _ _) _ _)
    _ _

/-- A desired session without a hold wakes unless it is put to sleep for being idle. -/
theorem verdict_of_desired (hdesired : (input.desired.get bead.sessionName).isSome)
    (hwait : (!bead.waitHold || bead.pendingCreate || bead.explicitWake) = true)
    (hheld : input.inWindow bead.heldUntil = false)
    (hquarantined : input.inWindow bead.quarantinedUntil = false) :
    (input.verdict bead).1 = true ↔
      isExempt (input.desired.get bead.sessionName) = true ∨
        input.isIdle bead = false := by
  obtain ⟨reason, hreason⟩ := Option.isSome_iff_exists.mp hdesired
  have hwake : (input.overrides bead (input.desiredVerdict bead)).1 = true := by
    apply overrides_fst
    simp only [desiredVerdict, hreason, hwait, if_true]
  unfold verdict
  dsimp only
  rw [unless_of_false hheld, unless_of_false hquarantined, hwake, Bool.true_and, Verdict.unless]
  cases hexempt : isExempt (input.desired.get bead.sessionName) with
  | true => simp [hwake]
  | false =>
    cases hidle : input.isIdle bead with
    | true => simp
    | false => simp [hwake]

/-- The session is not closed, held or only a dependency, and has a create claim, an explicit
request with a running agent, or owned work that it does not wait to leave. -/
structure Mandatory (input : AwakeInput) (bead : AwakeSessionBead) : Prop where
  notClosed : bead.state ≠ .closed
  notHeld : input.inWindow bead.heldUntil = false
  notQuarantined : input.inWindow bead.quarantinedUntil = false
  notDependency : bead.dependencyOnly = false
  cause : bead.pendingCreate = true ∨
    bead.explicitWake = true ∧
      (∃ agent, (directory input.agents).byName.get bead.template = some agent ∧
        agent.suspended = false) ∨
    bead.waitHold = false ∧ input.hasAssignedWork bead = true ∧
      input.isSuspended bead.template = false

theorem Mandatory.isSome_desired (h : Mandatory input bead) (hbead : bead ∈ input.sessionBeads) :
    (input.desired.get bead.sessionName).isSome ∧
      (!bead.waitHold || bead.pendingCreate || bead.explicitWake) = true := by
  rcases h.cause with hpending | ⟨hwake, agent, hagent, hrunning⟩ | ⟨hwait, hwork, hrunning⟩
  · refine ⟨Awake.isSome_desired (isSome_writes_of_pendingCreate hbead hpending), ?_⟩
    rw [hpending, Bool.or_true, Bool.true_or]
  · refine ⟨Awake.isSome_desired (isSome_writes_of_wakesExplicitly hbead ?_), ?_⟩
    · simp [wakesExplicitly, hwake, h.notClosed, h.notDependency, hagent, hrunning]
    · rw [hwake, Bool.or_true]
  · refine ⟨Awake.isSome_desired ?_, ?_⟩
    · rw [get_writes_of_isAnchored hbead]
      · rfl
      · simp [isAnchored, h.notClosed, hrunning, hwork]
    · rw [hwait]
      rfl

theorem get_computeAwakeSet (hnames : (input.sessionBeads.map (·.sessionName)).Nodup)
    (hbead : bead ∈ input.sessionBeads) :
    (computeAwakeSet input).get bead.sessionName = some (input.decision bead) := by
  apply (get_ofList ?_).mpr
  · exact mem_map.mpr ⟨bead, hbead, rfl⟩
  · rw [map_map]
    exact hnames

/-- A session with a mandatory cause wakes if it owns work that it does not wait to leave or is not
idle past its timeout, and exactly if it is not idle or its last reason is exempt. -/
theorem mandatory_cause_wakes (hnames : (input.sessionBeads.map (·.sessionName)).Nodup)
    (hbead : bead ∈ input.sessionBeads) (h : Mandatory input bead) :
    ∃ d, (computeAwakeSet input).get bead.sessionName = some d ∧
      (input.hasAssignedWork bead = true ∧ input.isSuspended bead.template = false ∨
          input.isIdle bead = false → d.shouldWake = true) ∧
      (d.shouldWake = true ↔
        isExempt (input.desired.get bead.sessionName) = true ∨
          input.isIdle bead = false) := by
  obtain ⟨hdesired, hwait⟩ := h.isSome_desired hbead
  have hverdict := verdict_of_desired hdesired hwait h.notHeld h.notQuarantined
  refine ⟨input.decision bead, get_computeAwakeSet hnames hbead, ?_, hverdict⟩
  rintro (⟨hwork, hrunning⟩ | hidle)
  · apply hverdict.mpr
    left
    have hanchored : input.isAnchored bead = true := by
      simp [isAnchored, h.notClosed, hrunning, hwork]
    rcases follows_desired _ _ (get_writes_of_isAnchored hbead hanchored) with hd | hd
      <;> simp [hd, isExempt]
  · exact hverdict.mpr (.inr hidle)

end Decisions

def sleepyAgent : AwakeAgent := ⟨"city/worker", false, 60, 0⟩

def workerBead (pendingCreate : Bool) (idleSince : ℤ) : AwakeSessionBead where
  id := "s-1"
  sessionName := "city--worker"
  template := "city/worker"
  state := .creating
  sleepReason := .other ""
  manualSession := false
  pendingCreate := pendingCreate
  explicitWake := !pendingCreate
  dependencyOnly := false
  namedIdentity := ""
  configuredNamedSession := false
  pinned := false
  drained := false
  waitHold := false
  heldUntil := 0
  quarantinedUntil := 0
  idleSince := idleSince
  createdAt := 1
  restartRequested := false
  continuationResetPending := false
  currentlyProcessingBeadID := ""

def quietCity (bead : AwakeSessionBead) : AwakeInput where
  agents := [sleepyAgent]
  namedSessions := []
  sessionBeads := [bead]
  workBeads := []
  scaleCheckCounts := []
  namedSessionDemand _ := false
  namedSessionRoutedDemand _ := false
  namedSessionWorkQ _ := false
  workSet := []
  runningSessions _ := false
  attachedSessions _ := false
  pendingSessions _ := false
  readyWaitSet _ := false
  chatIdleTimeout := 0
  manualGracePeriod := 0
  now := 100

/-- A session with a create claim is put to sleep for being idle. -/
theorem idle_sleep_loses_claim : Mandatory (quietCity (workerBead true 10)) (workerBead true 10) ∧
      ((computeAwakeSet (quietCity (workerBead true 10))).get "city--worker").map
        (fun d => (d.shouldWake, d.reason)) = some (false, some .idleSleep) :=
  ⟨⟨nofun, rfl, rfl, rfl, .inl rfl⟩, by decide +kernel⟩

/-- Another session of the agent is asked for and restarted, two are demanded, and one is to be
kept active. -/
def busyCity : AwakeInput :=
  { quietCity (workerBead true 90) with
    agents := [{ sleepyAgent with minActiveSessions := 1 }]
    sessionBeads := [{ workerBead false 10 with
      id := "s-2", sessionName := "city--worker-2", continuationResetPending := true },
      workerBead true 90]
    scaleCheckCounts := [("city/worker", 2)] }

theorem mandatory_cause_wakes_busy :
    ∃ d, (computeAwakeSet busyCity).get "city--worker" = some d ∧ d.shouldWake = true := by
  have hnames : (busyCity.sessionBeads.map (·.sessionName)).Nodup := by decide
  have hmandatory : Mandatory busyCity (workerBead true 90) :=
    ⟨nofun, rfl, rfl, rfl, .inl rfl⟩
  obtain ⟨d, hd, hwake, -⟩ := mandatory_cause_wakes hnames
    (mem_cons_of_mem _ (mem_singleton.mpr rfl)) hmandatory
  exact ⟨d, hd, hwake (.inr (by decide +kernel))⟩

end GasCity.Awake
