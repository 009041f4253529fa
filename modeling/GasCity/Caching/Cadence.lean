import GasCity.Caching.Cache
import Mathlib.Tactic.IntervalCases
import Mathlib.Tactic.Positivity

/-! # When the next reconcile pass is due

After failed passes the wait doubles with every failure up to a cap.  Otherwise it follows the
number of cached rows and the latency of the backing store.
-/

namespace GasCity

def second : ℤ := 1000000000

def cacheReconcileBaseBackoff : ℤ := 2 * second

def cacheReconcileMaxBackoff : ℤ := 600 * second

def beadCountCadence (total : ℕ) : ℤ :=
  if 5000 ≤ total then 120 * second
  else if 1000 ≤ total then 60 * second
  else 30 * second

def effectiveCadence (beadCount : ℕ) (latencyDriverActive : Bool) : ℤ :=
  max (if latencyDriverActive then 60 * second else 30 * second) (beadCountCadence beadCount)

/-- What the cache keeps about its reconcile passes. -/
structure Pacing where
  state : CacheState
  syncFailures : ℕ
  lastProblemAt : Time
  lastFreshAt : Time
  lastReconcileAt : Time
  beadCount : ℕ
  latencyDriverActive : Bool

/-- The wait after a number of failures; the shift wraps in 64 bits. -/
def reconcileBackoff (syncFailures : ℕ) : ℤ :=
  let backoff := (cacheReconcileBaseBackoff * 2 ^ syncFailures).bmod (2 ^ 64)
  if backoff > cacheReconcileMaxBackoff ∨ backoff ≤ 0 then cacheReconcileMaxBackoff else backoff

/-- The time until a wait from an instant is over, within the range of a duration. -/
def waitFrom (start : Time) (wait : ℤ) (now : Time) : ℤ :=
  if start.ns + wait ≤ now.ns then 0 else min (start.ns + wait - now.ns) (2 ^ 63 - 1)

def Pacing.nextReconcileDelay (c : Pacing) (now : Time) : ℤ :=
  if 0 < c.syncFailures ∧ c.lastProblemAt.isZero = false then
    waitFrom c.lastProblemAt (reconcileBackoff c.syncFailures) now
  else if c.state = .cacheDegraded then 0
  else if c.lastFreshAt.isZero then 0
  else
    let lastFullScanAt := if c.lastReconcileAt.isZero then c.lastFreshAt else c.lastReconcileAt
    waitFrom lastFullScanAt (effectiveCadence c.beadCount c.latencyDriverActive) now

/-- A shift that wraps leaves a multiple of a power of two above the cap, or nothing positive. -/
theorem reconcileBackoff_eq (n : ℕ) :
    reconcileBackoff n = min (cacheReconcileBaseBackoff * 2 ^ n) cacheReconcileMaxBackoff := by
  unfold reconcileBackoff cacheReconcileBaseBackoff cacheReconcileMaxBackoff second
  rcases Nat.lt_or_ge n 33 with hn | hn
  · interval_cases n <;> rfl
  · have hpow : (2 : ℤ) ^ n = 2 ^ 33 * 2 ^ (n - 33) := by
      rw [← pow_add, Nat.add_sub_cancel' hn]
    have hpos : 0 < (2 : ℤ) ^ (n - 33) := by positivity
    have hbmod := Int.bmod_add_bdiv (2 * 1000000000 * 2 ^ n) (2 ^ 64)
    generalize (2 * 1000000000 * 2 ^ n : ℤ).bmod (2 ^ 64) = backoff at hbmod ⊢
    rw [hpow] at hbmod ⊢
    dsimp only
    omega

/-- The wait after failures is the doubled base up to the cap, is positive, and never gets shorter
with more failures. -/
theorem nextReconcileDelay_backoff (n : ℕ) :
    reconcileBackoff n = min (cacheReconcileBaseBackoff * 2 ^ n) cacheReconcileMaxBackoff ∧
      0 < reconcileBackoff n ∧ reconcileBackoff n ≤ cacheReconcileMaxBackoff ∧
      (∀ m, n ≤ m → reconcileBackoff n ≤ reconcileBackoff m) ∧
      ∀ (c : Pacing) (now : Time), 1 ≤ n → c.syncFailures = n → c.lastProblemAt.isZero = false →
        c.nextReconcileDelay now = waitFrom c.lastProblemAt (reconcileBackoff n) now := by
  have hpos : 0 < cacheReconcileBaseBackoff := by decide
  refine ⟨reconcileBackoff_eq n, ?_, ?_, ?_, ?_⟩
  · rw [reconcileBackoff_eq]
    exact lt_min (by positivity) (by decide)
  · rw [reconcileBackoff_eq]
    exact min_le_right _ _
  · intro m hm
    rw [reconcileBackoff_eq, reconcileBackoff_eq]
    gcongr
    norm_num
  · rintro c now hn rfl hproblem
    exact if_pos ⟨hn, hproblem⟩

end GasCity
