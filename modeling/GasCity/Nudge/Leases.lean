import GasCity.Nudge.Conservation
import GasCity.Runs.Basic

/-! # Leases of claimed nudges

A claim puts a nudge in flight under a lease.  The queue does not record the worker that asked, so a
completion names only the id of the nudge.  As long as no worker completes a nudge that another one
holds, a claim is exclusive while its lease lasts.
-/

namespace GasCity.Nudge

open List Option

/-- The items that a claim returns; other operations and failed claims return none. -/
def granted (q : State) (e : Event) : List Item :=
  match e.op with
  | .claim scope wanted =>
    if (step q e).2 then
      ((maintain e.env ((sortState q).filter scope.matches)).pending.filter
        (claimable e.env.now wanted)).map (claim e.env.now)
    else []
  | _ => []

def Event.completes (e : Event) (i : Item) : Bool :=
  match e.op with
  | .ack scope ids _ _ _ | .release scope ids | .fail scope ids _ =>
    scope.matches i && decide (i.id ∈ ids)
  | _ => false

/-- The operation withdraws the item, for a newer nudge about the same thing or because its
enqueueing is rolled back. -/
def Event.withdraws (e : Event) (i : Item) : Bool :=
  match e.op with
  | .enqueue _ new => matchesSupersession new i
  | .rollback _ j _ => j.id == i.id
  | _ => false

structure Call (W : Type) where
  worker : W
  event : Event

/-- The queue, and the worker that each nudge was last given to. -/
structure Ledger (W : Type) where
  queue : State
  holder : String → Option W

def Ledger.empty {W : Type} : Ledger W := ⟨State.empty, fun _ => none⟩

def Ledger.step {W : Type} (l : Ledger W) (c : Call W) : Ledger W where
  queue := (Nudge.step l.queue c.event).1
  holder id := if (granted l.queue c.event).any (·.id == id) then some c.worker else l.holder id

def Ledger.play {W : Type} (l : Ledger W) (cs : List (Call W)) : Ledger W :=
  cs.foldl Ledger.step l

/-- A nudge whose lease is running is completed only by the worker that holds it. -/
def Own {W : Type} [DecidableEq W] (l : Ledger W) (c : Call W) : Prop :=
  ∀ i ∈ l.queue.inFlight, leaseOver c.event.env.now i = false → c.event.completes i = true →
    l.holder i.id = some c.worker

instance {W : Type} [DecidableEq W] (l : Ledger W) (c : Call W) : Decidable (Own l c) :=
  inferInstanceAs (Decidable (∀ i ∈ l.queue.inFlight, _ → _ → _))

/-- The claim of the item by the worker ends: its lease or its life is over, or the worker completes
it or it is withdrawn, so that it is no longer in flight. -/
def Ends {W : Type} (w : W) (i : Item) (l : Ledger W) (c : Call W) : Prop :=
  leaseOver c.event.env.now i = true ∨ isExpired c.event.env.now i = true ∨
    (c.worker = w ∧ c.event.completes i = true ∨ c.event.withdraws i = true) ∧
      i ∉ (l.step c).queue.inFlight

instance {W : Type} [DecidableEq W] (w : W) (i : Item) (l : Ledger W) (c : Call W) :
    Decidable (Ends w i l c) :=
  inferInstanceAs (Decidable (_ ∨ _ ∨ _ ∧ _))

section Flight

variable {env : Env} {i : Item} {q q' : State}

theorem mem_sortState_inFlight : i ∈ (sortState q).inFlight ↔ i ∈ q.inFlight :=
  (perm_sortItems _ _).mem_iff

theorem mem_take_or_drop {α : Type} {x : α} {l : List α} (n : ℕ) (h : x ∈ l) :
    x ∈ l.take n ∨ x ∈ l.drop n := by
  rw [← take_append_drop n l] at h
  exact mem_append.mp h

theorem mem_inFlight_maintain (h : i ∈ q.inFlight) (hexp : isExpired env.now i = false)
    (hlease : leaseOver env.now i = false) : i ∈ (maintain env q).inFlight := by
  change i ∈ (sortState _).inFlight
  rw [mem_sortState_inFlight]
  change i ∈ (sortState _).inFlight
  rw [mem_sortState_inFlight, mem_append]
  rcases mem_take_or_drop env.recoverBudget h with h | h
  · left
    simp only [mem_filter, Bool.not_eq_true']
    exact ⟨⟨h, hexp⟩, hlease⟩
  · exact .inr h

def Retains (i : Item) (fn : State → Option State) : Prop :=
  ∀ q q', i ∈ q.inFlight → fn q = some q' → i ∈ q'.inFlight

variable (hexp : isExpired env.now i = false) (hlease : leaseOver env.now i = false)
include hexp hlease

theorem retains_claim (wanted : Item → Bool) :
    Retains i (claimDueQueuedNudgesMatching env wanted) := by
  rintro q q' hi ⟨⟩
  rw [mem_sortState_inFlight]
  exact mem_append_left _ (mem_inFlight_maintain hi hexp hlease)

theorem retains_list : Retains i fun q => some (maintain env q) := by
  rintro q q' hi ⟨⟩
  exact mem_inFlight_maintain hi hexp hlease

variable {ids : List String}

theorem mem_uncompleted (hid : i.id ∉ ids) (hi : i ∈ q.inFlight) :
    i ∈ (maintain env q).inFlight.filter (·.id ∉ ids) := by
  rw [mem_filter]
  exact ⟨mem_inFlight_maintain hi hexp hlease, by simpa using hid⟩

theorem retains_ack (outcome reason commitBoundary : String) (hid : i.id ∉ ids) :
    Retains i (ackQueuedNudgesWithOutcome env ids outcome reason commitBoundary) := by
  intro q q' hi h
  obtain ⟨_, ⟨⟩⟩ := ite_none_right_eq_some.mp h
  exact mem_uncompleted hexp hlease hid hi

theorem retains_release (hid : i.id ∉ ids) :
    Retains i (releaseQueuedNudgeClaims env ids) := by
  rintro q q' hi ⟨⟩
  rw [mem_sortState_inFlight]
  exact mem_uncompleted hexp hlease hid hi

theorem retains_fail (cause : Cause) (hid : i.id ∉ ids) :
    Retains i (recordQueuedNudgeFailure env ids cause) := by
  rintro q q' hi ⟨⟩
  rw [mem_sortState_inFlight]
  exact mem_uncompleted hexp hlease hid hi

omit hexp hlease in
theorem retains_supersedeMatching {new : Item} (hnew : matchesSupersession new i = false) :
    Retains i (supersedeMatching env new) := by
  intro q q' hi h
  obtain ⟨_, ⟨⟩⟩ := ite_none_right_eq_some.mp h
  rw [mem_append]
  rcases mem_take_or_drop env.supersedeInFlightBudget hi with hi | hi
  · left
    rw [mem_filter, hnew]
    exact ⟨hi, rfl⟩
  · exact .inr hi

theorem retains_enqueue {new : Item} (hnew : matchesSupersession new i = false) :
    Retains i (enqueueQueuedNudge env new) := by
  intro q q' hi h
  simp only [enqueueQueuedNudge, bind_eq_bind, bind_eq_some_iff] at h
  obtain ⟨beadID, _, h⟩ := h
  have hkept := mem_inFlight_maintain hi hexp hlease
  split_ifs at h
  · cases h
    exact hkept
  · simp only [bind_eq_some_iff, some.injEq] at h
    obtain ⟨q₁, h₁, rfl⟩ := h
    have hshadow : matchesSupersession (shadowed new beadID) i = false := by
      unfold shadowed
      split_ifs <;> exact hnew
    rw [mem_sortState_inFlight]
    exact (retains_supersedeMatching hshadow _ _ hkept h₁ : i ∈ q₁.inFlight)

omit hexp hlease in
theorem retains_rollback {id reason : String} (hid : i.id ≠ id) :
    Retains i (rollbackQueuedNudge env id reason) := by
  intro q q' hi h
  obtain ⟨_, ⟨⟩⟩ := ite_none_right_eq_some.mp h
  rw [mem_sortState_inFlight, mem_filter]
  exact ⟨hi, by simpa using hid⟩

end Flight

section File

variable {env : Env} {i : Item} {fn : State → Option State}

theorem retains_run {scope : Scope} (enqueued : Option String)
    (h : scope.matches i = true → Retains i fn) : Retains i (scope.run enqueued fn) := by
  intro q q' hi hrun
  cases scope with
  | none => exact h rfl q q' hi hrun
  | some g =>
    obtain ⟨result, hresult, -, rfl⟩ := run_some_cases hrun
    rw [mem_sortState_inFlight]
    refine mem_append.mpr ?_
    by_cases hg : Scope.matches (some g) i = true
    · right
      exact h hg _ _ (mem_filter.mpr ⟨hi, hg⟩) hresult
    · left
      exact mem_filter.mpr ⟨hi, by simpa using hg⟩

theorem mem_withState {q : State} (h : Retains i fn) (hi : i ∈ q.inFlight) :
    i ∈ (withState env fn q).1.inFlight := by
  unfold withState
  cases hq : fn (sortState q) with
  | none => exact hi
  | some q' =>
    split_ifs
    · exact h _ _ (mem_sortState_inFlight.mpr hi) hq
    · exact hi

end File

section Step

variable {q : State} {i : Item}

variable {e : Event}

theorem mem_step (hi : i ∈ q.inFlight) (hexp : isExpired e.env.now i = false)
    (hlease : leaseOver e.env.now i = false) (hcomp : e.completes i = false)
    (hwith : e.withdraws i = false) : i ∈ (step q e).1.inFlight := by
  obtain ⟨op, env⟩ := e
  have outside : ∀ {scope : Scope} {ids : List String},
      (scope.matches i && decide (i.id ∈ ids)) = false → scope.matches i = true → i.id ∉ ids := by
    intro scope ids h hm
    simpa [hm] using h
  cases op with
  | enqueue scope new =>
    simp only [step]
    split_ifs
    · exact hi
    · exact mem_withState (retains_run _ fun _ => retains_enqueue hexp hlease hwith) hi
  | claim scope wanted =>
    exact mem_withState (retains_run none fun _ => retains_claim hexp hlease wanted) hi
  | ack scope ids outcome reason commitBoundary =>
    simp only [step]
    split_ifs
    · exact hi
    · exact mem_withState (retains_run none fun hm =>
        retains_ack hexp hlease _ _ _ (outside hcomp hm)) hi
  | release scope ids =>
    simp only [step]
    split_ifs
    · exact hi
    · exact mem_withState (retains_run none fun hm =>
        retains_release hexp hlease (outside hcomp hm)) hi
  | fail scope ids cause =>
    simp only [step]
    split_ifs
    · exact hi
    · exact mem_withState (retains_run none fun hm =>
        retains_fail hexp hlease cause (outside hcomp hm)) hi
  | rollback scope j reason =>
    have hid : i.id ≠ j.id := fun h => by simp [Event.withdraws, h] at hwith
    have hkept : i ∈ (withState env (scope.run none (rollbackQueuedNudge env j.id reason))
        q).1.inFlight := mem_withState (retains_run none fun _ => retains_rollback hid) hi
    simp only [step]
    split_ifs
    · exact hi
    · exact hkept
    · exact hkept
  | list => exact mem_withState (retains_list hexp hlease) hi

theorem countID_pos_of_mem {l : List Item} (h : i ∈ l) : 0 < countID i.id l :=
  countP_pos_iff.mpr ⟨i, h, by simp⟩

theorem not_granted (hq : Valid q) (hi : i ∈ q.inFlight)
    (hexp : isExpired e.env.now i = false) (hlease : leaseOver e.env.now i = false) :
    ∀ j ∈ granted q e, j.id ≠ i.id := by
  obtain ⟨op, env⟩ := e
  intro j hj hid
  cases op with
  | claim scope wanted =>
    simp only [granted] at hj
    split_ifs at hj
    · obtain ⟨p, hp, rfl⟩ := mem_map.mp hj
      have hp := (mem_filter.mp hp).1
      set s := (sortState q).filter scope.matches with hs
      have hpending : 0 < countID i.id (maintain env s).pending := by
        rw [← hid]
        exact countID_pos_of_mem (i := p) hp
      have hle := occurs_maintain_le env s i.id
      have hwhole := State.occurs_filter scope.matches (sortState q) i.id
      rw [occurs_sortState, ← hs] at hwhole
      have hone := hq.single i.id
      by_cases hm : scope.matches i = true
      · have hsel : i ∈ s.inFlight :=
          mem_filter.mpr ⟨mem_sortState_inFlight.mpr hi, hm⟩
        have hflight : 0 < countID i.id (maintain env s).inFlight :=
          countID_pos_of_mem (mem_inFlight_maintain hsel hexp hlease)
        simp only [State.occurs] at hle hwhole hone
        omega
      · have hfor : i ∈ ((sortState q).filter fun i => !scope.matches i).inFlight :=
          mem_filter.mpr ⟨mem_sortState_inFlight.mpr hi, by simpa using hm⟩
        have hforeign := countID_pos_of_mem hfor
        simp only [State.occurs] at hle hwhole hone
        omega
    · cases hj
  | _ => cases hj

theorem mem_inFlight_of_granted (h : i ∈ granted q e) :
    i ∈ (step q e).1.inFlight := by
  obtain ⟨op, env⟩ := e
  cases op with
  | claim scope wanted =>
    simp only [granted] at h
    split_ifs at h with hok
    · have hrun : scope.run none (claimDueQueuedNudgesMatching env wanted) (sortState q) = some _ :=
        withState_true hok
      change i ∈ (withState _ _ q).1.inFlight
      cases scope with
      | none =>
        rw [filter_matches_none] at h
        rw [← Option.some.inj hrun, mem_sortState_inFlight]
        exact mem_append_right _ h
      | some g =>
        obtain ⟨result, hresult, -, hq'⟩ := run_some_cases hrun
        rw [hq', mem_sortState_inFlight]
        refine mem_append_right _ ?_
        cases hresult
        rw [mem_sortState_inFlight]
        exact mem_append_right _ h
    · cases h
  | _ => cases h

end Step

section Runs

variable {W : Type} [DecidableEq W]

/-- Calls in which no worker completes a nudge that another one holds and the claim goes on. -/
abbrev OwnRun (w : W) (i : Item) (l : Ledger W) (cs : List (Call W)) (l' : Ledger W) : Prop :=
  Run (fun l c l' => l' = l.step c ∧ Own l c ∧ ¬ Ends w i l c) l cs l'

structure Leased (w : W) (i : Item) (l : Ledger W) : Prop where
  valid : Valid l.queue
  inFlight : i ∈ l.queue.inFlight
  holder : l.holder i.id = some w

variable {i : Item} {l : Ledger W}

/-- A call that does not end the lease grants the item to nobody and leaves it with its holder. -/
theorem Leased.step {w : W} {c : Call W} (h : Leased w i l)
    (hown : Own l c) (hends : ¬ Ends w i l c) :
    (∀ j ∈ granted l.queue c.event, j.id ≠ i.id) ∧ Leased w i (l.step c) := by
  simp only [Ends, not_or, Bool.not_eq_true] at hends
  obtain ⟨hlease, hexp, hkept⟩ := hends
  have hnone := not_granted h.valid h.inFlight hexp hlease
  refine ⟨hnone, valid_step h.valid c.event, ?_, ?_⟩
  · by_contra hgone
    have hneither := not_or.mp fun hended => hkept ⟨hended, hgone⟩
    refine hgone (mem_step h.inFlight hexp hlease ?_ (by simpa using hneither.2))
    by_contra hc
    rw [Bool.not_eq_false] at hc
    have hw : some w = some c.worker := h.holder.symm.trans (hown i h.inFlight hlease hc)
    exact hneither.1 ⟨(some.inj hw).symm, hc⟩
  · have hany : (granted l.queue c.event).any (·.id == i.id) = false := by
      simpa using hnone
    simp only [Ledger.step, hany, Bool.false_eq_true, if_false]
    exact h.holder

theorem Leased.run {w : W} {l' : Ledger W} {cs : List (Call W)}
    (hrun : OwnRun w i l cs l') (h : Leased w i l) : Leased w i l' := by
  induction hrun with
  | nil => exact h
  | @cons s t u c cs hstep hrest ih =>
    obtain ⟨rfl, hown, hends⟩ := hstep
    exact ih (h.step hown hends).2

omit [DecidableEq W] in
theorem valid_queue_play (cs : List (Call W)) (l : Ledger W) (h : Valid l.queue) :
    Valid (l.play cs).queue := by
  induction cs generalizing l with
  | nil => exact h
  | cons c cs ih => exact ih _ (valid_step h c.event)

omit [DecidableEq W] in
theorem leased_of_granted {c : Call W} (hl : Valid l.queue)
    (hi : i ∈ granted l.queue c.event) : Leased c.worker i (l.step c) := by
  refine ⟨valid_step hl c.event, mem_inFlight_of_granted hi, ?_⟩
  have hany : (granted l.queue c.event).any (·.id == i.id) = true :=
    any_eq_true.mpr ⟨i, hi, by simp⟩
  simp only [Ledger.step, hany, if_true]

/-- A nudge that a claim returned to a worker is returned by no claim until its lease or its life
ends, the worker completes it or it is withdrawn, provided that no worker completes what another one
holds. -/
theorem claim_exclusive {history cs : List (Call W)} {c d : Call W} {i : Item} {l : Ledger W}
    (hi : i ∈ granted (Ledger.empty.play history).queue c.event)
    (hrun : OwnRun c.worker i ((Ledger.empty.play history).step c) cs l) (hd : Own l d)
    (hends : ¬ Ends c.worker i l d) : ∀ j ∈ granted l.queue d.event, j.id ≠ i.id := by
  have hvalid := valid_queue_play history (Ledger.empty) valid_empty
  exact (((leased_of_granted hvalid hi).run hrun).step hd hends).1

end Runs

/-- An operation at a time, without a bead store and with every write of the file accepted. -/
def calmly (now : ℤ) (op : Op) : Event where
  op := op
  env :=
    { now := now * second, hasFront := false, recoverBudget := 10, expireBudget := 10
      pruneBudget := 10, supersedePendingBudget := 10, supersedeInFlightBudget := 10
      terminalize := fun _ _ _ _ _ => true, find := fun _ => .missing
      findAgain := fun _ => .missing, save := some "", writes := true }

def reminder : Item where
  id := "n1"
  beadID := ""
  agent := "mayor"
  sessionID := ""
  continuationEpoch := ""
  source := "session"
  message := ""
  reference := none
  createdAt := second
  deliverAfter := 0
  expiresAt := 0
  attempts := 0
  lastAttemptAt := 0
  lastError := ""
  claimedAt := 0
  leaseUntil := 0
  deadAt := 0

def claimedOnce : List (Call ℕ) :=
  [⟨0, calmly 1 (.enqueue none reminder)⟩, ⟨1, calmly 2 (.claim none fun _ => true)⟩]

def claimAt (worker : ℕ) (now : ℤ) : Call ℕ := ⟨worker, calmly now (.claim none fun _ => true)⟩

def releaseAt (worker : ℕ) (now : ℤ) : Call ℕ := ⟨worker, calmly now (.release none ["n1"])⟩

def ackAt (worker : ℕ) (now : ℤ) : Call ℕ := ⟨worker, calmly now (.ack none ["n2"] "" "" "")⟩

/-- The lease of the first worker ends, the second claims the nudge, the first releases it late, and
the third is given it under the lease of the second. -/
theorem late_release_breaks_lease :
    ∃ i ∈ granted ((Ledger.empty).play claimedOnce).queue (claimAt 2 130).event,
      ¬ Ends 2 i (((Ledger.empty).play claimedOnce).step (claimAt 2 130)) (releaseAt 1 131) ∧
      ¬ Ends 2 i (((Ledger.empty).play claimedOnce).play [claimAt 2 130, releaseAt 1 131])
        (claimAt 3 132) ∧
      ∃ j ∈ granted (((Ledger.empty).play claimedOnce).play
          [claimAt 2 130, releaseAt 1 131]).queue (claimAt 3 132).event, j.id = i.id := by
  decide +kernel

/-- The first worker holds a nudge `n2` and `n1` is pending. -/
def secondHeld : Ledger ℕ := (Ledger.empty).play
  [⟨0, calmly 1 (.enqueue none reminder)⟩,
    ⟨0, calmly 1 (.enqueue none { reminder with id := "n2" })⟩,
    ⟨1, calmly 129 (.claim none fun i => i.id == "n2")⟩]

/-- The second worker claims `n1`, and the first acknowledges `n2` under its running lease. -/
theorem claim_exclusive_acknowledged :
    ∃ i ∈ granted secondHeld.queue (claimAt 2 130).event,
      ∃ k ∈ (secondHeld.step (claimAt 2 130)).queue.inFlight, (ackAt 1 131).event.completes k ∧
        leaseOver (131 * second) k = false ∧
        ∀ j ∈ granted ((secondHeld.step (claimAt 2 130)).step (ackAt 1 131)).queue
          (claimAt 3 132).event, j.id ≠ i.id := by
  let lease := claim (130 * second) reminder
  have hi : lease ∈ granted secondHeld.queue (claimAt 2 130).event := by decide +kernel
  have hack : Own (secondHeld.step (claimAt 2 130)) (ackAt 1 131) ∧
      ¬ Ends 2 lease (secondHeld.step (claimAt 2 130)) (ackAt 1 131) := by decide +kernel
  have hclaim : Own ((secondHeld.step (claimAt 2 130)).step (ackAt 1 131)) (claimAt 3 132) ∧
      ¬ Ends 2 lease ((secondHeld.step (claimAt 2 130)).step (ackAt 1 131)) (claimAt 3 132) := by
    decide +kernel
  refine ⟨lease, hi, claim (129 * second) { reminder with id := "n2" }, by decide +kernel,
    by decide +kernel, by decide +kernel, ?_⟩
  exact claim_exclusive hi (.cons ⟨rfl, hack⟩ (.nil _)) hclaim.1 hclaim.2

end GasCity.Nudge
