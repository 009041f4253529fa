import GasCity.Dispatch.Finalize
import GasCity.Dispatch.SourceSafety

/-! # Canceled workflows

`ProcessControl` closes every control of a canceled workflow root instead of running
it.  The finalizer is exempt from this gate: processed after the cancellation it
computes an outcome of its own, writes it over the root and closes the sources.
-/

namespace GasCity.Dispatch.Cancellation

def rootCanceled (root : Bead) : Bool :=
  trimSpace (root.val .outcome) == Outcome.canceled || trimSpace (root.val .cancelRequested) != ""

def controlRootCanceledCloseReason : String :=
  "control closed: workflow root canceled via run cancel"

def clearControllerSpawnErrorMetadata (m : List (MetaKey × String)) : List (MetaKey × String) :=
  m ++ [(.controllerError, ""), (.controllerErrorClass, ""), (.controllerRetryable, "")]

def closeCanceledControl (w : Stores) (store : ℕ) (id : String) : Stores :=
  w.update store id (closeWith (.ofList (clearControllerSpawnErrorMetadata
    [(.outcome, Outcome.canceled), (.other "close_reason", controlRootCanceledCloseReason)])))

def closeMissingRootControl (w : Stores) (store : ℕ) (id rootID : String) : Stores :=
  w.update store id (closeWith (.ofList (clearControllerSpawnErrorMetadata
    [(.outcome, Outcome.fail), (.failureClass, "hard"),
      (.failureReason, "missing_workflow_root"), (.finalDisposition, "orphaned_workflow"),
      (.missingRootBeadID, rootID)])))

/-- The gate before the handlers; `none` lets the control through. -/
def closeOrphanedControl (faults : Faults) (w : Stores) (store : ℕ) (bead : Bead) :
    Option (Stores × ControlResult) :=
  let rootID := trimSpace (bead.val .rootBeadID)
  if bead.kind = Kind.workflowFinalize then none
  else if rootID = "" ∨ trimSpace (bead.val .rootStoreRef) = "" ∨ rootID = bead.id then none
  else if faults.loadRoot then some (w, .error (bead.id ++ ": loading workflow root " ++ rootID))
  else
    match (w store).get rootID with
    | some root =>
      if !rootCanceled root then none
      else if faults.closeControl then some (w, .error (bead.id ++ ": closing canceled control"))
      else some (closeCanceledControl w store bead.id, .processed "canceled-workflow")
    | none =>
      if faults.closeControl then some (w, .error (bead.id ++ ": closing orphaned control"))
      else some (closeMissingRootControl w store bead.id rootID, .processed "orphaned-workflow")

/-- The handlers of the other control kinds, with what they do to the stores left open. -/
abbrev Handlers := String → Stores → ℕ → Bead → Stores × ControlResult

/-- `ProcessControl` on a control bead as the caller has read it. -/
def processControl (opts : ChainOptions) (handlers : Handlers) (faults : Faults) (w : Stores)
    (store : ℕ) (bead : Bead) : Stores × ControlResult :=
  if bead.status ≠ .opened then (w, .skipped)
  else
    match closeOrphanedControl faults w store bead with
    | some result => result
    | none =>
      if bead.kind = Kind.workflowFinalize then processWorkflowFinalize opts faults w store bead
      else if isControlKind bead.kind then handlers bead.kind w store bead
      else (w, .error (bead.id ++ ": unsupported control bead kind"))

/-- A call of `ProcessControl`: the bead as read, and the store calls that fail. -/
structure Call where
  bead : Bead
  faults : Faults := {}

section Canceled

variable (opts : ChainOptions) (handlers : Handlers) (store : ℕ) (rootID : String)

def CallStep (w : Stores) (c : Call) (w' : Stores) : Prop :=
  trimSpace (c.bead.val .rootBeadID) = rootID ∧
    w' = (processControl opts handlers c.faults w store c.bead).1

/-- The call does not get past the gate, or finds a finalizer that still has to wait. -/
def Held (w : Stores) (c : Call) : Prop :=
  c.bead.status ≠ .opened ∨
    (c.bead.kind ≠ Kind.workflowFinalize ∧ trimSpace (c.bead.val .rootStoreRef) ≠ "" ∧
      c.bead.id ≠ rootID) ∨
    (c.bead.kind = Kind.workflowFinalize ∧
      ∃ d ∈ (w store).downDeps c.bead.id, ∀ b, (w store).get d = some b → b.status ≠ .closed)

def Canceled (w : Stores) : Prop :=
  rootID ≠ "" ∧ ∃ root, (w store).get rootID = some root ∧ rootCanceled root = true

/-- No bead is created, the root stays as it is, and only beads of `ids` are closed. -/
structure Stopped (ids : List String) (w w' : Stores) : Prop where
  created : ∀ k, (w' k).beads.map Bead.id = (w k).beads.map Bead.id
  root : (w' store).get rootID = (w store).get rootID
  closed : ∀ k id, OpenIn w k id → ClosedIn w' k id → k = store ∧ id ∈ ids

variable {opts handlers store rootID} {w w' w'' : Stores} {c : Call}

theorem Stopped.refl (ids : List String) (w : Stores) : Stopped store rootID ids w w where
  created _ := rfl
  root := rfl
  closed _ _ hopen hclosed := absurd hclosed hopen.not_closedIn

theorem Stopped.trans {ids ids' : List String} (h : Stopped store rootID ids w w')
    (h' : Stopped store rootID ids' w' w'') : Stopped store rootID (ids ++ ids') w w'' where
  created k := (h'.created k).trans (h.created k)
  root := h'.root.trans h.root
  closed := by
    intro k id hopen hclosed
    by_cases hnow : ClosedIn w' k id
    · obtain ⟨hk, hid⟩ := h.closed k id hopen hnow
      exact ⟨hk, List.mem_append_left _ hid⟩
    · have hstill : OpenIn w' k id := by
        obtain ⟨b, hb, -⟩ := hopen
        have hmem : id ∈ (w' k).beads.map Bead.id := by
          rw [h.created, ← Keyed.key_of_lookup hb]
          exact List.mem_map_of_mem (Keyed.mem_of_lookup hb)
        obtain ⟨b', hb'⟩ := Option.ne_none_iff_exists'.mp fun hnone =>
          absurd hmem (by simpa [Keyed.lookup_eq_none] using Keyed.lookup_eq_none.mp hnone)
        exact ⟨b', hb', fun hc => hnow ⟨b', hb', hc⟩⟩
      obtain ⟨hk, hid⟩ := h'.closed k id hstill hclosed
      exact ⟨hk, List.mem_append_right _ hid⟩

theorem stopped_close {id : String} {batch : Metadata} (hbatch : OnlyResults batch)
    (hne : id ≠ rootID) : Stopped store rootID [id] w (w.update store id (closeWith batch)) := by
  have htouched : Touched store id w (w.update store id (closeWith batch)) :=
    touched_update w store id (frame_closeWith hbatch) fun _ _ => rfl
  constructor
  case created =>
    intro k
    obtain ⟨g, hg, -⟩ := htouched k
    exact hg.ids
  case root =>
    obtain ⟨g, hg, hsame⟩ := htouched store
    rw [hg.store, Store.get, Keyed.lookup_map (fun b => (hg.frame b).1), ← Store.get]
    cases hget : (w store).get rootID with
    | none => rfl
    | some b =>
      have hb : b.id ≠ id := by
        rw [Keyed.key_of_lookup hget]
        exact hne.symm
      rw [Option.map_some, hsame b fun _ => hb]
  case closed =>
    intro k id' hopen hclosed
    rcases openIn_or_closedIn_of_touched htouched hopen with hstill | ⟨-, hk, hid⟩
    · exact absurd hclosed hstill.not_closedIn
    · exact ⟨hk, List.mem_singleton.mpr hid⟩

theorem processWorkflowFinalize_pending {faults : Faults} {bead : Bead} {d : String}
    (hd : d ∈ (w store).downDeps bead.id)
    (hopen : ∀ b, (w store).get d = some b → b.status ≠ .closed) :
    (processWorkflowFinalize opts faults w store bead).1 = w := by
  have hnone : ∀ result, resolveBlockedOutcome (w store) bead.id ≠ .ok result := by
    intro result hresult
    obtain ⟨b, hget, hclosed⟩ := closed_of_blockedOutcome hresult hd
    exact hopen b hget hclosed
  unfold processWorkflowFinalize
  simp only []
  split
  · rfl
  split
  · rfl
  · rfl
  · next outcome houtcome =>
    cases hblocked : resolveBlockedOutcome (w store) bead.id with
    | error e =>
      rw [resolveFinalizeOutcome, hblocked] at houtcome
      cases houtcome
    | ok result => exact absurd hblocked (hnone result)

theorem stopped_step (hcanceled : Canceled store rootID w)
    (hstep : CallStep opts handlers store rootID w c w') (hheld : Held store rootID w c) :
    Stopped store rootID [c.bead.id] w w' := by
  obtain ⟨hroot, rfl⟩ := hstep
  obtain ⟨hempty, root, hget, hroot'⟩ := hcanceled
  unfold processControl
  by_cases hopen : c.bead.status ≠ .opened
  · rw [if_pos hopen]
    exact .refl _ w
  rw [if_neg hopen]
  rcases hheld with hstatus | ⟨hkind, href, hid⟩ | ⟨hkind, d, hd, hwait⟩
  · exact absurd hstatus hopen
  · have hgate : ¬ (rootID = "" ∨ trimSpace (c.bead.val .rootStoreRef) = "" ∨
        rootID = c.bead.id) := by
      rintro (h | h | h)
      · exact hempty h
      · exact href h
      · exact hid h.symm
    simp only [closeOrphanedControl, hroot, if_neg hkind, if_neg hgate, hget, hroot']
    split
    · next result hresult =>
      split at hresult
      · cases hresult
        exact .refl _ w
      · simp only [Bool.not_true, Bool.false_eq_true, if_false] at hresult
        split at hresult
        · cases hresult
          exact .refl _ w
        · cases hresult
          exact stopped_close (onlyResults_ofList (by
            simp [clearControllerSpawnErrorMetadata, isResultKey])) hid
    · next hnone =>
      split at hnone
      · cases hnone
      · simp only [Bool.not_true, Bool.false_eq_true, if_false] at hnone
        split at hnone <;> cases hnone
  · rw [closeOrphanedControl, if_pos hkind]
    simp only [hkind, if_true]
    rw [processWorkflowFinalize_pending hd hwait]
    exact .refl _ w

/-- After a cancellation no sequence of held calls creates a bead, changes the root or closes
anything but the controls it is called for. -/
theorem canceled_run_stopped {calls : List Call} (hcanceled : Canceled store rootID w)
    (hrun : Run (fun w c w' => CallStep opts handlers store rootID w c w' ∧
      Held store rootID w c) w calls w') :
    Stopped store rootID (calls.map fun c => c.bead.id) w w' := by
  induction hrun with
  | nil w => exact .refl _ w
  | @cons w u w' c calls hstep _ ih =>
    have hfirst := stopped_step hcanceled hstep.1 hstep.2
    have hstill : Canceled store rootID u := by
      obtain ⟨hempty, root, hget, hroot⟩ := hcanceled
      exact ⟨hempty, root, hfirst.root.trans hget, hroot⟩
    exact hfirst.trans (ih hstill)

end Canceled

/-- A workflow `mol` started for `task`, canceled with its open step.  `fanout` and the finalizer
are as the dispatcher read them before. -/
def canceledWorkflow : Stores := fun _ =>
  { beads :=
      [{ id := "task" },
        { id := "mol", status := .closed
          metadata := .ofList [(.kind, Kind.workflow), (.sourceBeadID, "task"),
            (.outcome, Outcome.canceled), (.cancelRequested, "true")] },
        { id := "mol.build", status := .closed
          metadata := .ofList [(.rootBeadID, "mol"), (.rootStoreRef, "rig:a"),
            (.outcome, Outcome.canceled)] },
        { id := "mol.fanout"
          metadata := .ofList [(.kind, Kind.fanout), (.rootBeadID, "mol"),
            (.rootStoreRef, "rig:a")] },
        { id := "mol.workflow-finalize"
          metadata := .ofList [(.kind, Kind.workflowFinalize), (.rootBeadID, "mol"),
            (.rootStoreRef, "rig:a")] }]
    blocks := [("mol.workflow-finalize", "mol.build")] }

def readBead (id : String) : Bead := ((canceledWorkflow 0).get id).getD {}

def spawning : Handlers := fun _ w store bead =>
  (Function.update w store { w store with
    beads := (w store).beads ++ [{ id := bead.id ++ ".child" }] }, .processed "spawn")

/-- The fanout control of the canceled workflow is closed and spawns nothing. -/
theorem canceled_run_stopped_fanout : Stopped 0 "mol" ["mol.fanout"] canceledWorkflow
    (processControl {} spawning {} canceledWorkflow 0 (readBead "mol.fanout")).1 := by
  have hcanceled : Canceled 0 "mol" canceledWorkflow := by
    refine ⟨by decide, readBead "mol", by decide +kernel, by decide +kernel⟩
  have hheld : Held 0 "mol" canceledWorkflow { bead := readBead "mol.fanout" } :=
    .inr (.inl (by decide +kernel))
  exact canceled_run_stopped hcanceled (.cons ⟨⟨by decide +kernel, rfl⟩, hheld⟩ (.nil _))

/-- The finalizer turns the outcome of the canceled root into a pass and closes its source. -/
theorem canceledWorkflow_finalized : (((processControl {} spawning {} canceledWorkflow 0
        (readBead "mol.workflow-finalize")).1 0).get "mol").map (fun b =>
          (b.status, b.val .outcome)) = some (.closed, Outcome.pass) ∧
      ClosedIn (processControl {} spawning {} canceledWorkflow 0
        (readBead "mol.workflow-finalize")).1 0 "task" := by
  refine ⟨by decide +kernel, closeOutcome Outcome.pass (readBead "task"), ?_, rfl⟩
  decide +kernel

end GasCity.Dispatch.Cancellation
