import GasCity.Runs.Basic
import Mathlib.Data.Nat.Basic

/-! # The event cursor of an order

An order that fires on events remembers how far it has read only by labels: a run puts the head of
the event log on its tracking bead or its workflow root, and the cursor is the greatest number on
the beads of the order.  Two collectors delete such closed beads.  Runs of one order may overlap.
-/

namespace GasCity.Orders

structure Order where
  name : String
  /-- The type of the events that fire the order. -/
  on : String
  exec : Bool
  idempotent : Bool
  deriving DecidableEq

/-- The tracking bead of a run, or the root of a workflow.  Ids count the beads in the order of
their creation. -/
structure Bead where
  id : ℕ
  order : String
  tracking : Bool
  /-- The labels `order:<name>` and `seq:<n>`, which are written together. -/
  labels : List (String × ℕ)
  isClosed : Bool
  /-- A root that is all of its workflow, or that has open descendants. -/
  busy : Bool
  createdAt : ℕ
  updatedAt : ℕ
  deriving DecidableEq

inductive Stage
  | started
  | read (head : ℕ)
  | poured (head root : ℕ)
  | done
  deriving DecidableEq

structure Dispatch where
  order : Order
  trackingID : ℕ
  stage : Stage
  deriving DecidableEq

/-- The event log by the types of its events, the clock in seconds, the beads, the dispatches under
way, and the heads that runs have recorded so far. -/
structure State where
  log : List String
  now : ℕ
  nextID : ℕ
  beads : List Bead
  dispatches : List Dispatch
  recorded : List (String × ℕ)
  deriving DecidableEq

def State.init : State := ⟨[], 0, 0, [], [], []⟩

def bdCursorRecentRunsLimit : ℕ := 256

def isLabelled (name : String) (b : Bead) : Bool := b.labels.any (·.1 == name)

def maxSeqFromLabels (labelSets : List (List ℕ)) : ℕ :=
  labelSets.flatten.foldr max 0

def bdCursor (s : State) (name : String) : ℕ :=
  maxSeqFromLabels <| ((s.beads.filter (isLabelled name)).reverse.take
    bdCursorRecentRunsLimit).map fun b => b.labels.map Prod.snd

def checkEvent (s : State) (o : Order) : Bool :=
  (s.log.drop (bdCursor s o.name)).any (· == o.on)

def hasOpenWork (s : State) (name : String) : Bool :=
  s.beads.any fun b => !b.isClosed &&
    (b.tracking && b.order == name || !b.tracking && isLabelled name b && b.busy)

def minClosedOrderTrackingRetained : ℕ := 10

def closedReferenceTime (b : Bead) : ℕ :=
  if b.updatedAt ≠ 0 then b.updatedAt else b.createdAt

def keptBefore (c b : Bead) : Bool :=
  closedReferenceTime b < closedReferenceTime c ||
    (closedReferenceTime c == closedReferenceTime b && b.id < c.id)

/-- The number of closed runs of the order that are kept before this one. -/
def retentionRank (s : State) (b : Bead) : ℕ :=
  (s.beads.filter fun c => c.tracking && c.isClosed && c.order == b.order && keptBefore c b).length

/-- A closed run past the retention that is not among the last ones. -/
def prunable (s : State) (deleteAfterClose retainLast : ℕ) (b : Bead) : Bool :=
  0 < deleteAfterClose && b.tracking && b.isClosed &&
    max retainLast minClosedOrderTrackingRetained ≤ retentionRank s b &&
    closedReferenceTime b + deleteAfterClose < s.now

def collectible (s : State) (ttl : ℕ) (b : Bead) : Bool :=
  0 < ttl && !b.tracking && b.isClosed && b.createdAt + ttl < s.now

def orderTrackingSweepWatchdogStaleAfter : ℕ := 120

/-- The call that puts the labels of a run on a bead. -/
inductive Writer
  | setCursor
  | label
  | markFailed
  deriving DecidableEq

/-- A dispatch is named by its tracking bead.  The beads that a sweep could not delete, or did not
reach, are spared. -/
inductive Event
  | publish (type : String)
  | wait (d : ℕ)
  | start (o : Order) (gateTimedOut : Bool)
  | readHead (t : ℕ)
  | pour (t : ℕ)
  | record (t : ℕ) (writer : Writer)
  | finish (t : ℕ)
  | crash
  | sweepStale (id : ℕ)
  | closeDescendants (id : ℕ)
  | closeRoot (id : ℕ)
  | collect (ttl : ℕ) (spared : List ℕ)
  | prune (deleteAfterClose retainLast : ℕ) (spared : List ℕ)
  deriving DecidableEq

/-- The bead that gets the labels, and the head. -/
def Dispatch.writes (r : Dispatch) : Writer → Option (ℕ × ℕ)
  -- An exec order records the head before its command runs.
  | .setCursor =>
    match r.order.exec, r.stage with
    | true, .read head => some (r.trackingID, head)
    | _, _ => none
  -- A started workflow carries the head on its root, and the tracking bead does not.
  | .label =>
    match r.stage with
    | .poured head root => some (root, head)
    | _ => none
  -- A run that failed after the head was read carries it on the tracking bead.
  | .markFailed =>
    match r.order.exec, r.stage with
    | false, .read head | false, .poured head _ =>
      if 0 < head then some (r.trackingID, head) else none
    | _, _ => none

def Bead.label (now : ℕ) (order : String) (head : ℕ) (b : Bead) : Bead :=
  { b with labels := b.labels ++ [(order, head)], updatedAt := now }

def Bead.close (now : ℕ) (b : Bead) : Bead :=
  { b with isClosed := true, updatedAt := now }

namespace State

def dispatch (s : State) (t : ℕ) : Option Dispatch :=
  s.dispatches.find? (·.trackingID == t)

def setStage (s : State) (t : ℕ) (stage : Stage) : State :=
  { s with dispatches := s.dispatches.map fun r =>
      if r.trackingID = t then { r with stage := stage } else r }

def create (s : State) (order : String) (tracking : Bool) : State :=
  { s with
    nextID := s.nextID + 1
    beads := s.beads ++ [⟨s.nextID, order, tracking, [], false, !tracking, s.now, s.now⟩] }

def modify (s : State) (id : ℕ) (f : Bead → Bead) : State :=
  { s with beads := s.beads.map fun b => if b.id = id then f b else b }

def close (s : State) (id : ℕ) : State :=
  s.modify id (Bead.close s.now)

def record (s : State) (order : String) (id head : ℕ) : State :=
  { s.modify id (Bead.label s.now order head) with recorded := s.recorded ++ [(order, head)] }

def delete (s : State) (p : Bead → Bool) : State :=
  { s with beads := s.beads.filter fun b => !p b }

end State

def step (s : State) (e : Event) : Option State :=
  match e with
  | .publish type => some { s with log := s.log ++ [type] }
  | .wait d => some { s with now := s.now + d }
  -- The gate of an idempotent order lets it pass when the query for open work times out.
  | .start o gateTimedOut =>
    if !checkEvent s o || (if gateTimedOut then !o.idempotent else hasOpenWork s o.name) then none
    else
      some { s.create o.name true with dispatches := s.dispatches ++ [⟨o, s.nextID, .started⟩] }
  | .readHead t => do
    let r ← s.dispatch t
    match r.stage with
    | .started => some (s.setStage t (.read s.log.length))
    | _ => none
  | .pour t => do
    let r ← s.dispatch t
    match r.order.exec, r.stage with
    | false, .read head => some ((s.create r.order.name false).setStage t (.poured head s.nextID))
    | _, _ => none
  -- The labels of a deleted bead cannot be written, and the run ends without them.
  | .record t writer => do
    let r ← s.dispatch t
    let (id, head) ← r.writes writer
    if s.beads.any (·.id == id) then some ((s.record r.order.name id head).setStage t .done)
    else none
  | .finish t => do
    let _ ← s.dispatch t
    some { s.close t with dispatches := s.dispatches.filter fun r => r.trackingID != t }
  | .crash => some { s with dispatches := [] }
  -- The watchdog closes every old tracking bead, also while its dispatch runs on.
  | .sweepStale id =>
    if s.beads.any fun b => b.id == id && b.tracking &&
        ((s.dispatch id).isNone || b.createdAt + orderTrackingSweepWatchdogStaleAfter ≤ s.now) then
      some (s.close id)
    else none
  | .closeDescendants id => some (s.modify id fun b => { b with busy := false })
  | .closeRoot id =>
    if s.beads.any fun b => b.id == id && !b.tracking then some (s.close id) else none
  | .collect ttl spared => some (s.delete fun b => collectible s ttl b && !spared.contains b.id)
  | .prune deleteAfterClose retainLast spared =>
    some (s.delete fun b => prunable s deleteAfterClose retainLast b && !spared.contains b.id)

/-- The number of later beads with labels of the order. -/
def newer (beads : List Bead) (name : String) (id : ℕ) : ℕ :=
  beads.countP fun c => isLabelled name c && id < c.id

/-- A bead within the window of the cursor that carries at least this number. -/
def reaches (beads : List Bead) (name : String) (x : ℕ) (b : Bead) : Bool :=
  newer beads name b.id < bdCursorRecentRunsLimit &&
    b.labels.any fun l => l.1 == name && x ≤ l.2

/-- Every number that an eligible bead carries is reached by a bead that is not eligible. -/
def spares (s : State) (eligible : Bead → Bool) : Bool :=
  s.beads.all fun b => !eligible b || b.labels.all fun l =>
    s.beads.any fun c => !eligible c && reaches s.beads l.1 l.2 c

/-- No number of the order is greater. -/
def isGreatest (s : State) (name : String) (x : ℕ) : Bool :=
  s.beads.all fun b => b.labels.all fun l => l.1 != name || l.2 ≤ x

/-- The greatest number stays within the window when one more bead gets labels of the order: the new
one on the bead that gets it, or one that is there already. -/
def staysInView (s : State) (name : String) (id head : ℕ) : Bool :=
  newer s.beads name id < bdCursorRecentRunsLimit && isGreatest s name head ||
    s.beads.any fun b => newer s.beads name b.id + 1 < bdCursorRecentRunsLimit &&
      b.labels.any fun l => l.1 == name && head ≤ l.2 && isGreatest s name l.2

/-- No collector finds the bead with the greatest number of an order old enough to delete, and no
run takes it out of the window. -/
def keepsGreatest (s : State) (e : Event) : Bool :=
  match e with
  | .collect ttl _ => spares s (collectible s ttl)
  | .prune deleteAfterClose retainLast _ => spares s (prunable s deleteAfterClose retainLast)
  | .record t writer =>
    match (s.dispatch t).bind fun r => (r.writes writer).map fun w => (r.order.name, w) with
    | some (name, id, head) => staysInView s name id head
    | none => true
  | _ => true

end GasCity.Orders
