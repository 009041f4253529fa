import GasCity.Text.Trim
import Mathlib.Data.List.Sort
import Mathlib.Data.Prod.Lex

/-! # The queue of deferred nudges

The queue is one file with three lists: pending, in flight and dead.  Every operation loads the file
under a lock, moves items and writes the file back, or fails and leaves it as it was.  A bead
shadows each nudge, in a store whose calls may fail.
-/

namespace GasCity.Nudge

structure Reference where
  kind : String
  id : String
  deriving DecidableEq

/-- A deferred nudge.  Times are in nanoseconds, and zero is Go's zero time. -/
structure Item where
  id : String
  beadID : String
  agent : String
  sessionID : String
  continuationEpoch : String
  source : String
  message : String
  reference : Option Reference
  createdAt : ℤ
  deliverAfter : ℤ
  expiresAt : ℤ
  attempts : ℕ
  lastAttemptAt : ℤ
  lastError : String
  claimedAt : ℤ
  leaseUntil : ℤ
  deadAt : ℤ
  deriving DecidableEq

@[ext]
structure State where
  pending : List Item
  inFlight : List Item
  dead : List Item
  deriving DecidableEq

def State.empty : State := ⟨[], [], []⟩

abbrev Rank := ℤ ×ₗ ℤ ×ₗ String

def rank (first second : ℤ) (id : String) : Rank := toLex (first, toLex (second, id))

def pendingRank (i : Item) : Rank := rank i.deliverAfter i.createdAt i.id

def inFlightRank (i : Item) : Rank := rank i.leaseUntil i.claimedAt i.id

def deadRank (i : Item) : Rank := rank i.deadAt i.createdAt i.id

def sortItems (r : Item → Rank) (items : List Item) : List Item :=
  items.insertionSort fun a b => r a ≤ r b

def sortState (q : State) : State where
  pending := sortItems pendingRank q.pending
  inFlight := sortItems inFlightRank q.inFlight
  dead := sortItems deadRank q.dead

/-- The answer of the bead store when the shadow of a nudge is looked up. -/
inductive Lookup
  | error
  | missing
  | found (state : String)
  deriving DecidableEq

/-- One operation's clock and deadline, and the answers of the bead store and the disk.  A budget is
the number of items handled before the deadline is found passed. -/
structure Env where
  now : ℤ
  hasFront : Bool
  recoverBudget : ℕ
  expireBudget : ℕ
  pruneBudget : ℕ
  supersedePendingBudget : ℕ
  supersedeInFlightBudget : ℕ
  terminalize : Item → (state reason commitBoundary : String) → ℤ → Bool
  find : String → Lookup
  findAgain : String → Lookup
  /-- The shadow bead of a new nudge, empty without a bead store, `none` on an error. -/
  save : Option String
  writes : Bool

def second : ℤ := 1000000000

def defaultQueuedNudgeClaimTTL : ℤ := 120 * second

def defaultQueuedNudgeRetryDelay : ℤ := 15 * second

def defaultQueuedNudgeMaxAttempts : ℕ := 5

def defaultQueuedNudgeDeadRetention : ℤ := 3600 * second

def Env.terminalizes (env : Env) (i : Item) (state reason commitBoundary : String) (at_ : ℤ) :
    Bool :=
  !env.hasFront || env.terminalize i state reason commitBoundary at_

def isTerminalNudgeState (state : String) : Bool :=
  state ∈ ["accepted_for_injection", "injected", "expired", "failed", "superseded"]

def isExpired (now : ℤ) (i : Item) : Bool :=
  i.expiresAt != 0 && i.expiresAt ≤ now

def leaseOver (now : ℤ) (i : Item) : Bool :=
  i.leaseUntil == 0 || i.leaseUntil ≤ now

def expire (now : ℤ) (i : Item) : Item :=
  { i with deadAt := now, lastError := if i.lastError = "" then "expired" else i.lastError }

def recover (now : ℤ) (i : Item) : Item :=
  { i with claimedAt := 0, leaseUntil := 0, deliverAfter := now }

/-- Expired items die and items with an ended lease are pending again.  The shadow of an expired
item is closed if it can be. -/
def recoverExpiredInFlightNudges (env : Env) (q : State) : State :=
  let handled := q.inFlight.take env.recoverBudget
  let live := handled.filter fun i => !isExpired env.now i
  sortState
    { pending := q.pending ++ (live.filter (leaseOver env.now)).map (recover env.now)
      inFlight := (live.filter fun i => !leaseOver env.now i) ++ q.inFlight.drop env.recoverBudget
      dead := q.dead ++ (handled.filter (isExpired env.now)).map (expire env.now) }

def pruneExpiredQueuedNudges (env : Env) (q : State) : State :=
  let handled := q.pending.take env.expireBudget
  sortState
    { pending := (handled.filter fun i => !isExpired env.now i) ++ q.pending.drop env.expireBudget
      inFlight := q.inFlight
      dead := q.dead ++ (handled.filter (isExpired env.now)).map (expire env.now) }

def terminalStateForDeadQueuedNudge (i : Item) : String :=
  match trimSpace i.lastError with
  | "expired" => "expired"
  | "superseded" => "superseded"
  | _ => "failed"

def Lookup.isTerminal : Lookup → Bool
  | .found state => isTerminalNudgeState state
  | _ => false

/-- The shadow is terminal, at the first look or after it was closed once more. -/
def confirmed (env : Env) (i : Item) : Bool :=
  match env.find i.id with
  | .error => false
  | answer =>
    answer.isTerminal ||
      (env.terminalizes i (terminalStateForDeadQueuedNudge i)
          (if trimSpace i.lastError = "" then "failed" else trimSpace i.lastError) ""
          (if i.deadAt ≠ 0 then i.deadAt else env.now) &&
        (env.findAgain i.id).isTerminal)

/-- A dead item may go when its shadow is terminal and its retention has passed. -/
def prunable (env : Env) (i : Item) : Bool :=
  i.beadID != "" && env.hasFront && confirmed env i && i.deadAt != 0 &&
    i.deadAt < env.now - defaultQueuedNudgeDeadRetention

def pruneDeadQueuedNudges (env : Env) (q : State) : State :=
  { q with dead := ((q.dead.take env.pruneBudget).filter fun i => !prunable env i) ++
      q.dead.drop env.pruneBudget }

def maintain (env : Env) (q : State) : State :=
  pruneDeadQueuedNudges env (pruneExpiredQueuedNudges env (recoverExpiredInFlightNudges env q))

def claim (now : ℤ) (i : Item) : Item :=
  { i with claimedAt := now, leaseUntil := now + defaultQueuedNudgeClaimTTL }

def claimable (now : ℤ) (wanted : Item → Bool) (i : Item) : Bool :=
  wanted i && (i.deliverAfter == 0 || i.deliverAfter ≤ now)

/-- The operations take a loaded queue; the result `none` is an error. -/
def claimDueQueuedNudgesMatching (env : Env) (wanted : Item → Bool) (q : State) : Option State :=
  let q := maintain env q
  some <| sortState
    { q with
      pending := q.pending.filter fun i => !claimable env.now wanted i
      inFlight := q.inFlight ++ (q.pending.filter (claimable env.now wanted)).map (claim env.now) }

def ackQueuedNudgesWithOutcome (env : Env) (ids : List String)
    (outcome reason commitBoundary : String) (q : State) : Option State :=
  let q := maintain env q
  let terminal := q.pending.filter (·.id ∈ ids) ++ q.inFlight.filter (·.id ∈ ids)
  if terminal.all fun i => env.terminalizes i outcome reason commitBoundary env.now then
    some { q with
      pending := q.pending.filter (·.id ∉ ids)
      inFlight := q.inFlight.filter (·.id ∉ ids) }
  else none

def release (i : Item) : Item := { i with claimedAt := 0, leaseUntil := 0 }

def releaseQueuedNudgeClaims (env : Env) (ids : List String) (q : State) : Option State :=
  let q := maintain env q
  some <| sortState
    { q with
      pending := q.pending ++ (q.inFlight.filter (·.id ∈ ids)).map release
      inFlight := q.inFlight.filter (·.id ∉ ids) }

structure Cause where
  text : String
  fenceMismatch : Bool
  deriving DecidableEq

def failedQueuedNudge (i : Item) (cause : Cause) (now : ℤ) : Item × Bool :=
  let i := { i with
    attempts := i.attempts + 1
    lastAttemptAt := now
    lastError := cause.text
    claimedAt := 0
    leaseUntil := 0 }
  if cause.fenceMismatch || defaultQueuedNudgeMaxAttempts ≤ i.attempts || isExpired now i then
    ({ i with deadAt := now }, true)
  else ({ i with deliverAfter := now + defaultQueuedNudgeRetryDelay }, false)

/-- The shadows of the dead items are closed after the queue is written, if they can be. -/
def recordQueuedNudgeFailure (env : Env) (ids : List String) (cause : Cause) (q : State) :
    Option State :=
  let q := maintain env q
  let failed := (q.pending.filter (·.id ∈ ids) ++ q.inFlight.filter (·.id ∈ ids)).map
    (failedQueuedNudge · cause env.now)
  some <| sortState
    { pending := q.pending.filter (·.id ∉ ids) ++ (failed.filter fun r => !r.2).map (·.1)
      inFlight := q.inFlight.filter (·.id ∉ ids)
      dead := q.dead ++ (failed.filter (·.2)).map (·.1) }

def queuedNudgeExists (q : State) (id : String) : Bool :=
  q.pending.any (·.id == id) || q.inFlight.any (·.id == id) || q.dead.any (·.id == id)

def matchesSupersession (new existing : Item) : Bool :=
  match new.reference, existing.reference with
  | some r, some r' => r.id != "" && existing.agent == new.agent &&
      existing.source == new.source && r'.kind == r.kind && r'.id == r.id
  | _, _ => false

def supersede (now : ℤ) (i : Item) : Item := { i with deadAt := now, lastError := "superseded" }

def closesSuperseded (env : Env) (i : Item) : Bool :=
  env.terminalizes (supersede env.now i) "superseded" "superseded" "" env.now

def supersedeMatching (env : Env) (new : Item) (q : State) : Option State :=
  let pending := q.pending.take env.supersedePendingBudget
  let inFlight := q.inFlight.take env.supersedeInFlightBudget
  let superseded := pending.filter (matchesSupersession new) ++
    inFlight.filter (matchesSupersession new)
  if superseded.all (closesSuperseded env) then
    some
      { pending := (pending.filter fun i => !matchesSupersession new i) ++
          q.pending.drop env.supersedePendingBudget
        inFlight := (inFlight.filter fun i => !matchesSupersession new i) ++
          q.inFlight.drop env.supersedeInFlightBudget
        dead := q.dead ++ superseded.map (supersede env.now) }
  else none

def shadowed (i : Item) (beadID : String) : Item :=
  if beadID ≠ "" then { i with beadID := beadID } else i

def enqueueQueuedNudge (env : Env) (i : Item) (q : State) : Option State := do
  let beadID ← env.save
  let i := shadowed i beadID
  let q := maintain env q
  if queuedNudgeExists q i.id then some q
  else do
    let q ← supersedeMatching env i q
    some <| sortState { q with pending := q.pending ++ [i] }

def rollBack (reason : String) (now : ℤ) (i : Item) : Item :=
  { i with lastError := reason, deadAt := now }

def rolledBack (q : State) (id : String) : List Item :=
  q.pending.filter (·.id == id) ++ q.inFlight.filter (·.id == id)

def rollbackQueuedNudge (env : Env) (id reason : String) (q : State) : Option State :=
  let removed := (rolledBack q id).map (rollBack reason env.now)
  if removed.all fun i => env.terminalizes i "failed" reason "" env.now then
    some <| sortState
      { pending := q.pending.filter fun i => i.id != id
        inFlight := q.inFlight.filter fun i => i.id != id
        dead := q.dead ++ removed }
  else none

/-- One generation of a session; `none` is the whole queue. -/
abbrev Scope := Option (String × String)

def Scope.matches : Scope → Item → Bool
  | none, _ => true
  | some (sessionID, epoch), i => i.sessionID == sessionID && i.continuationEpoch == epoch

def State.filter (p : Item → Bool) (q : State) : State where
  pending := q.pending.filter p
  inFlight := q.inFlight.filter p
  dead := q.dead.filter p

def State.items (q : State) : List Item := q.pending ++ q.inFlight ++ q.dead

def State.append (q q' : State) : State where
  pending := q.pending ++ q'.pending
  inFlight := q.inFlight ++ q'.inFlight
  dead := q.dead ++ q'.dead

/-- Run an operation on the items of the scope and put the others back beside its result. -/
def Scope.run (scope : Scope) (enqueued : Option String) (fn : State → Option State) (q : State) :
    Option State :=
  match scope with
  | none => fn q
  | some g =>
    let selected := q.filter (Scope.matches (some g))
    let foreign := q.filter fun i => !Scope.matches (some g) i
    let isForeign := fun id => foreign.items.any (·.id == id)
    if enqueued.any isForeign || selected.items.any (fun i => isForeign i.id) then none
    else match fn selected with
      | none => none
      | some result =>
        if result.items.any fun i => !Scope.matches (some g) i || isForeign i.id then none
        else some (sortState (foreign.append result))

def withState (env : Env) (fn : State → Option State) (q : State) : State × Bool :=
  match fn (sortState q) with
  | none => (q, false)
  | some q' => if env.writes then (q', true) else (q, false)

inductive Op
  | enqueue (scope : Scope) (i : Item)
  | claim (scope : Scope) (wanted : Item → Bool)
  | ack (scope : Scope) (ids : List String) (outcome reason commitBoundary : String)
  | release (scope : Scope) (ids : List String)
  | fail (scope : Scope) (ids : List String) (cause : Cause)
  | rollback (scope : Scope) (i : Item) (reason : String)
  | list

structure Event where
  op : Op
  env : Env

/-- The queue after an operation, and whether the operation succeeded. -/
def step (q : State) (e : Event) : State × Bool :=
  let env := e.env
  match e.op with
  | .enqueue scope i =>
    if !scope.matches i || (scope.isSome && i.id == "") then (q, false)
    else withState env (scope.run (some i.id) (enqueueQueuedNudge env i)) q
  | .claim scope wanted =>
    withState env (scope.run none (claimDueQueuedNudgesMatching env wanted)) q
  | .ack scope ids outcome reason commitBoundary =>
    if ids = [] then (q, true)
    else withState env
      (scope.run none (ackQueuedNudgesWithOutcome env ids outcome reason commitBoundary)) q
  | .release scope ids =>
    if ids = [] then (q, true)
    else withState env (scope.run none (releaseQueuedNudgeClaims env ids)) q
  | .fail scope ids cause =>
    if ids = [] then (q, true)
    else withState env (scope.run none (recordQueuedNudgeFailure env ids cause)) q
  | .rollback scope i reason =>
    if i.id = "" then (q, true)
    else
      let r := withState env (scope.run none (rollbackQueuedNudge env i.id reason)) q
      -- An item that was not queued has only a shadow to close.
      if r.2 && (rolledBack (q.filter scope.matches) i.id).isEmpty then
        (r.1, env.terminalizes { i with lastError := reason } "failed" reason "" env.now)
      else r
  | .list => withState env (fun q => some (maintain env q)) q

def play (q : State) (events : List Event) : State :=
  events.foldl (fun q e => (step q e).1) q

end GasCity.Nudge
