import GasCity.Text.Trim

/-! # Cron orders

A cron order is due in every minute of the wall clock that its schedule names, and catches up on
minutes that no evaluation fell into.  The wall clock is the instant shifted by the offset of a time
zone, so it may skip minutes or show them twice, and the order remembers only when it ran last.
-/

namespace GasCity.Orders

/-- The offset of a time zone in minutes, by the minute of the instant. -/
abbrev Zone := ℤ → ℤ

def minuteOf (t : ℤ) : ℤ := t / 60

def Zone.wall (zone : Zone) (m : ℤ) : ℤ := m + zone m

/-- Minute zero of the wall clock is the start of January 1970. -/
def wallMinute (w : ℤ) : ℤ := w % 60

def wallHour (w : ℤ) : ℤ := w / 60 % 24

def wallWeekday (w : ℤ) : ℤ := (w / 1440 + 4) % 7

/-- The day of the year, counted from the first of March, so that a leap day comes last. -/
def marchDay (w : ℤ) : ℤ :=
  let doe := (w / 1440 + 719468) % 146097
  let yoe := (doe - doe / 1460 + doe / 36524 - doe / 146096) / 365
  doe - (365 * yoe + yoe / 4 - yoe / 100)

def wallMonth (w : ℤ) : ℤ :=
  let mp := (5 * marchDay w + 2) / 153
  if mp < 10 then mp + 3 else mp - 9

def wallDay (w : ℤ) : ℤ :=
  marchDay w - (153 * ((5 * marchDay w + 2) / 153) + 2) / 5 + 1

def cronPartMatches (part : String) (value : ℤ) : Bool :=
  match part.toList with
  | '*' :: '/' :: step => (atoi (.ofList step)).any fun n => 0 < n && value % n == 0
  | _ => atoi part == some value

def cronFieldMatches (field : String) (value : ℤ) : Bool :=
  field == "*" || (stringsSplit ',' field).any fun part => cronPartMatches (trimSpace part) value

structure Schedule where
  minute : String
  hour : String
  dom : String
  month : String
  dow : String
  deriving DecidableEq

def parseSchedule (s : String) : Option Schedule :=
  match fields s with
  | [minute, hour, dom, month, dow] => some ⟨minute, hour, dom, month, dow⟩
  | _ => none

def Schedule.matchesAt (sched : Schedule) (w : ℤ) : Bool :=
  cronFieldMatches sched.minute (wallMinute w) && cronFieldMatches sched.hour (wallHour w) &&
    cronFieldMatches sched.dom (wallDay w) && cronFieldMatches sched.month (wallMonth w) &&
    cronFieldMatches sched.dow (wallWeekday w)

structure TriggerResult where
  due : Bool
  reason : String
  lastRun : Option ℤ
  deriving DecidableEq

def maxCatchupLookback : ℤ := 366 * 24 * 60

def neverRunCatchupLookback : ℤ := 25 * 60

section

variable (zone : Zone) (sched : Schedule)

/-- Some reading strictly between those of two adjacent minutes is scheduled. -/
def matchesInWallGap (prev t : ℤ) : Bool :=
  (List.range (zone.wall t - zone.wall prev - 1).toNat).any fun k =>
    sched.matchesAt (zone.wall prev + 1 + k)

/-- In one minute the scan finds a reading that the clock jumped over, or a scheduled minute other
than that of the last run. -/
def findsAt (last : Option ℤ) (t : ℤ) : Option String :=
  if zone (t - 1) < zone t ∧ matchesInWallGap zone sched (t - 1) t = true then
    some "cron: caught up occurrence skipped by DST spring-forward"
  else if sched.matchesAt (zone.wall t) ∧ last.map zone.wall ≠ some (zone.wall t) then
    some "cron: caught up missed occurrence"
  else none

def scanMinutes (last : Option ℤ) : ℕ → ℤ → Option String
  | 0, _ => none
  | n + 1, t =>
    match findsAt zone sched last t with
    | some reason => some reason
    | none => scanMinutes last n (t + 1)

/-- Where the scan begins: after the last run, or a day back, and never more than a year back. -/
def scanStart (now : ℤ) (last : Option ℤ) : ℤ :=
  match last with
  | some last => max (last + 1) (now - maxCatchupLookback)
  | none => now - neverRunCatchupLookback

def checkMinute (now : ℤ) (last : Option ℤ) : Bool × String :=
  if sched.matchesAt (zone.wall now) then
    if last.map zone.wall = some (zone.wall now) then (false, "cron: already run this minute")
    else (true, "cron: schedule matched")
  else
    let start := scanStart now last
    match scanMinutes zone sched last (now - start + 1).toNat start with
    | some reason => (true, reason)
    | none => (false, "cron: schedule not matched")

end

def checkCron (zone : Zone) (schedule : String) (now : ℤ) (last : Option ℤ) : TriggerResult :=
  match parseSchedule schedule with
  | none =>
    ⟨false, "bad cron schedule: want 5 fields, got " ++ toString (fields schedule).length, none⟩
  | some sched =>
    let r := checkMinute zone sched (minuteOf now) (last.map minuteOf)
    ⟨r.1, r.2, last⟩

/-- The last run before an evaluation: every due result records its instant. -/
def lastRun (zone : Zone) (schedule : String) (evals : ℕ → ℤ) : ℕ → Option ℤ
  | 0 => none
  | n + 1 =>
    if (checkCron zone schedule (evals n) (lastRun zone schedule evals n)).due then some (evals n)
    else lastRun zone schedule evals n

def dueAt (zone : Zone) (schedule : String) (evals : ℕ → ℤ) (n : ℕ) : Bool :=
  (checkCron zone schedule (evals n) (lastRun zone schedule evals n)).due

end GasCity.Orders
