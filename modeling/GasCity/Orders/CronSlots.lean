import GasCity.Orders.Cron
import Mathlib.Data.Int.ConditionallyCompleteOrder
import Mathlib.Order.ConditionallyCompleteLattice.Basic

/-! # One due result for every scheduled minute

The check compares a minute only with that of the last run.  As long as a scheduled reading that the
clock shows twice is evaluated at its first showing, with no other one up to the second, every
scheduled minute leads to one due result.
-/

namespace GasCity.Orders

open Option

variable {zone : Zone} {sched : Schedule} {schedule : String} {evals : ℕ → ℤ}

def SkippedAt (zone : Zone) (m w : ℤ) : Prop :=
  zone (m - 1) < zone m ∧ zone.wall (m - 1) < w ∧ w < zone.wall m

def OccursAt (zone : Zone) (m w : ℤ) : Prop :=
  zone.wall m = w ∨ SkippedAt zone m w

variable {l m now w : ℤ} {last : Option ℤ}

theorem matchesInWallGap_iff : matchesInWallGap zone sched (m - 1) m = true ↔
      ∃ w, zone.wall (m - 1) < w ∧ w < zone.wall m ∧ sched.matchesAt w = true := by
  simp only [matchesInWallGap, List.any_eq_true, List.mem_range]
  constructor
  · rintro ⟨k, hk, hm⟩
    exact ⟨_, by omega, by omega, hm⟩
  · rintro ⟨w, hlo, hhi, hm⟩
    refine ⟨(w - zone.wall (m - 1) - 1).toNat, by omega, ?_⟩
    have heq : zone.wall (m - 1) + 1 + ((w - zone.wall (m - 1) - 1).toNat : ℤ) = w := by omega
    rw [heq]
    exact hm

/-- A minute is found by the scan for a scheduled reading in it, other than a shown reading that
the last run showed too. -/
def CountsAt (zone : Zone) (last : Option ℤ) (m w : ℤ) : Prop :=
  SkippedAt zone m w ∨ (zone.wall m = w ∧ last.map zone.wall ≠ some w)

theorem CountsAt.occursAt (h : CountsAt zone last m w) :
    OccursAt zone m w := by
  rcases h with h | h
  · exact .inr h
  · exact .inl h.1

theorem findsAt_isSome_iff : (findsAt zone sched last m).isSome = true ↔
      ∃ w, sched.matchesAt w = true ∧ CountsAt zone last m w := by
  unfold findsAt
  split_ifs with hgap hshown
  · obtain ⟨hlt, hgap⟩ := hgap
    obtain ⟨w, hlo, hhi, hm⟩ := matchesInWallGap_iff.mp hgap
    simp only [isSome_some, true_iff]
    exact ⟨w, hm, .inl ⟨hlt, hlo, hhi⟩⟩
  · simp only [isSome_some, true_iff]
    exact ⟨_, hshown.1, .inr ⟨rfl, hshown.2⟩⟩
  · simp only [isSome_none, Bool.false_eq_true, false_iff]
    rintro ⟨w, hm, ⟨hlt, hlo, hhi⟩ | ⟨rfl, hne⟩⟩
    · exact hgap ⟨hlt, matchesInWallGap_iff.mpr ⟨w, hlo, hhi, hm⟩⟩
    · exact hshown ⟨hm, hne⟩

theorem scanMinutes_isSome_iff {n : ℕ} {start : ℤ} :
    (scanMinutes zone sched last n start).isSome = true ↔
      ∃ m, start ≤ m ∧ m < start + n ∧ (findsAt zone sched last m).isSome = true := by
  induction n generalizing start with
  | zero =>
    simp only [scanMinutes, isSome_none, Bool.false_eq_true, false_iff]
    rintro ⟨m, hlo, hhi, _⟩
    omega
  | succ n ih =>
    rw [scanMinutes]
    cases hf : findsAt zone sched last start with
    | some reason =>
      simp only [isSome_some, true_iff]
      exact ⟨start, le_rfl, by omega, by rw [hf]; rfl⟩
    | none =>
      simp only [ih]
      constructor
      · rintro ⟨m, hlo, hhi, hm⟩
        exact ⟨m, by omega, by omega, hm⟩
      · rintro ⟨m, hlo, hhi, hm⟩
        refine ⟨m, ?_, by omega, hm⟩
        by_contra hle
        obtain rfl : m = start := by omega
        rw [hf] at hm
        cases hm

theorem exists_of_due
    (h : (checkMinute zone sched now last).1 = true) (hle : ∀ l, last = some l → l ≤ now) :
    ∃ m w, m ≤ now ∧ (∀ l, last = some l → l < m) ∧
      (last = none → now - neverRunCatchupLookback ≤ m) ∧ sched.matchesAt w = true ∧
      CountsAt zone last m w := by
  unfold checkMinute at h
  split_ifs at h with hmatch hsame
  · refine ⟨now, zone.wall now, le_rfl, ?_, ?_, hmatch, .inr ⟨rfl, hsame⟩⟩
    · rintro l rfl
      rcases (hle l rfl).lt_or_eq with hlt | rfl
      · exact hlt
      · exact absurd rfl hsame
    · intro _
      simp only [neverRunCatchupLookback]
      omega
  · simp only at h
    split at h
    · next reason hscan =>
      obtain ⟨m, hlo, hhi, hm⟩ := scanMinutes_isSome_iff.mp (by rw [hscan]; rfl)
      obtain ⟨w, hw, hc⟩ := findsAt_isSome_iff.mp hm
      refine ⟨m, w, by omega, ?_, ?_, hw, hc⟩
      · rintro l rfl
        simp only [scanStart] at hlo
        omega
      · rintro rfl
        exact hlo
    · cases h

theorem shown_of_not_due (h : (checkMinute zone sched now (some l)).1 = false)
    (hmatch : sched.matchesAt (zone.wall now) = false) (hl : l < m)
    (hback : now - maxCatchupLookback ≤ m) (hm : m ≤ now) (hw : sched.matchesAt w = true)
    (ho : OccursAt zone m w) : w = zone.wall l ∧ zone.wall m = w := by
  unfold checkMinute at h
  rw [if_neg (by simp [hmatch])] at h
  simp only at h
  split at h
  · cases h
  · next hscan =>
    have hnone : ¬ CountsAt zone (some l) m w := by
      intro hc
      have hsome : (scanMinutes zone sched (some l) (now - scanStart now (some l) + 1).toNat
          (scanStart now (some l))).isSome = true := by
        rw [scanMinutes_isSome_iff]
        have hstart : scanStart now (some l) ≤ m := by
          simp only [scanStart]
          omega
        exact ⟨m, hstart, by omega, findsAt_isSome_iff.mpr ⟨w, hw, hc⟩⟩
      rw [hscan] at hsome
      cases hsome
    rcases ho with ho | ho
    · refine ⟨?_, ho⟩
      by_contra hne
      refine hnone (.inr ⟨ho, ?_⟩)
      simpa using fun heq => hne heq.symm
    · exact absurd (.inl ho) hnone

theorem CountsAt.not_shown (h : CountsAt zone (some l) m w)
    (hm : zone.wall m = w) : zone.wall l ≠ w := by
  rcases h with ⟨_, _, hlt⟩ | ⟨_, hne⟩
  · omega
  · simpa using hne

section Evaluations

variable (zone schedule evals) in
def lastMinute (n : ℕ) : Option ℤ := (lastRun zone schedule evals n).map minuteOf

variable (zone schedule sched evals) in
/-- The scheduled reading is one that the due evaluation found since the last run. -/
def LeadsTo (n : ℕ) (w : ℤ) : Prop :=
  dueAt zone schedule evals n = true ∧ sched.matchesAt w = true ∧
    ∃ m ≤ minuteOf (evals n),
      (∀ l, lastMinute zone schedule evals n = some l → l < m) ∧
      (lastMinute zone schedule evals n = none →
        minuteOf (evals n) - neverRunCatchupLookback ≤ m) ∧
      CountsAt zone (lastMinute zone schedule evals n) m w

variable (zone sched evals) in
/-- A scheduled reading that occurs again, up to an evaluation, is shown both times, an evaluation
falls into the first, and no other one occurs up to the second. -/
def RepeatsCovered (N : ℕ) : Prop :=
  ∀ m₁ m₂ w, minuteOf (evals 0) - neverRunCatchupLookback ≤ m₁ → m₁ < m₂ →
    m₂ ≤ minuteOf (evals N) → sched.matchesAt w = true → OccursAt zone m₁ w → OccursAt zone m₂ w →
    zone.wall m₁ = w ∧ zone.wall m₂ = w ∧ (∃ k, minuteOf (evals k) = m₁) ∧
      ∀ m w', m₁ < m → m ≤ m₂ → sched.matchesAt w' = true → OccursAt zone m w' → w' = w

theorem minuteOf_mono {s t : ℤ} (h : s ≤ t) : minuteOf s ≤ minuteOf t := by
  simp only [minuteOf]
  omega

theorem dueAt_eq (hparse : parseSchedule schedule = some sched) (n : ℕ) :
    dueAt zone schedule evals n =
      (checkMinute zone sched (minuteOf (evals n)) (lastMinute zone schedule evals n)).1 := by
  simp [dueAt, checkCron, hparse, lastMinute]

variable {i j n : ℕ} {l m w : ℤ}

theorem lastRun_succ_of_due (h : dueAt zone schedule evals n = true) :
    lastRun zone schedule evals (n + 1) = some (evals n) := by
  exact if_pos h

theorem lastRun_succ_of_not_due (h : dueAt zone schedule evals n = false) :
    lastRun zone schedule evals (n + 1) = lastRun zone schedule evals n := by
  exact if_neg (by simpa [dueAt] using h)

theorem exists_run {ℓ : ℤ} (h : lastRun zone schedule evals n = some ℓ) :
    ∃ i < n, dueAt zone schedule evals i = true ∧ ℓ = evals i := by
  induction n with
  | zero => cases h
  | succ n ih =>
    cases hd : dueAt zone schedule evals n with
    | true =>
      rw [lastRun_succ_of_due hd] at h
      cases h
      exact ⟨n, Nat.lt_succ_self n, hd, rfl⟩
    | false =>
      rw [lastRun_succ_of_not_due hd] at h
      obtain ⟨i, hi, hdi, rfl⟩ := ih h
      exact ⟨i, Nat.lt_succ_of_lt hi, hdi, rfl⟩

theorem exists_last_ge (hmono : StrictMono evals) (hij : i < j)
    (hd : dueAt zone schedule evals i = true) :
    ∃ ℓ, lastRun zone schedule evals j = some ℓ ∧ evals i ≤ ℓ := by
  induction j, hij using Nat.le_induction with
  | base => exact ⟨evals i, lastRun_succ_of_due hd, le_rfl⟩
  | succ j hij ih =>
    cases hj : dueAt zone schedule evals j with
    | true => exact ⟨evals j, lastRun_succ_of_due hj, hmono.monotone (by omega)⟩
    | false =>
      rw [lastRun_succ_of_not_due hj]
      exact ih

theorem exists_lastMinute (h : lastMinute zone schedule evals n = some l) :
    ∃ i < n, dueAt zone schedule evals i = true ∧ l = minuteOf (evals i) := by
  obtain ⟨ℓ, hℓ, rfl⟩ := map_eq_some_iff.mp h
  obtain ⟨i, hi, hd, rfl⟩ := exists_run hℓ
  exact ⟨i, hi, hd, rfl⟩

variable (hparse : parseSchedule schedule = some sched) (hmono : StrictMono evals)

include hparse in
/-- An evaluation in a scheduled minute leaves a last run that shows the same reading. -/
theorem lastMinute_succ_of_matches (h : sched.matchesAt (zone.wall (minuteOf (evals n))) = true) :
    ∃ l, lastMinute zone schedule evals (n + 1) = some l ∧
      zone.wall l = zone.wall (minuteOf (evals n)) := by
  cases hd : dueAt zone schedule evals n with
  | true =>
    refine ⟨minuteOf (evals n), ?_, rfl⟩
    simp [lastMinute, lastRun_succ_of_due hd]
  | false =>
    have hcheck := hd
    rw [dueAt_eq hparse, checkMinute, if_pos h] at hcheck
    split_ifs at hcheck with hsame
    obtain ⟨l, hl, hw⟩ := map_eq_some_iff.mp hsame
    refine ⟨l, ?_, hw⟩
    rw [lastMinute, lastRun_succ_of_not_due hd]
    exact hl

include hparse hmono in
theorem leadsTo_of_matches (hd : dueAt zone schedule evals n = true)
    (h : sched.matchesAt (zone.wall (minuteOf (evals n))) = true) :
    LeadsTo zone sched schedule evals n (zone.wall (minuteOf (evals n))) := by
  have hcheck := hd
  rw [dueAt_eq hparse, checkMinute, if_pos h] at hcheck
  split_ifs at hcheck with hsame
  refine ⟨hd, h, minuteOf (evals n), le_rfl, ?_, ?_, .inr ⟨rfl, hsame⟩⟩
  · intro l hl
    obtain ⟨i, hi, _, rfl⟩ := exists_lastMinute hl
    rcases (minuteOf_mono (hmono.monotone hi.le)).lt_or_eq with hlt | heq
    · exact hlt
    · exact absurd (by rw [hl, heq]; rfl) hsame
  · intro _
    simp only [neverRunCatchupLookback]
    omega

variable (hgap : ∀ n, evals (n + 1) - evals n ≤ 60 * maxCatchupLookback) {N : ℕ}
  (hrepeat : RepeatsCovered zone sched evals N)

include hparse hmono hgap hrepeat in
/-- What the last run leaves up to the latest evaluation: showings of its own reading. -/
theorem only_last_reading (hn : n ≤ N)
    (hl : lastMinute zone schedule evals (n + 1) = some l) (hlm : l < m)
    (hm : m ≤ minuteOf (evals n)) (hw : sched.matchesAt w = true) (ho : OccursAt zone m w) :
    w = zone.wall l ∧ zone.wall m = w := by
  induction n generalizing l m w with
  | zero =>
    cases hd : dueAt zone schedule evals 0 with
    | true =>
      simp only [lastMinute, lastRun_succ_of_due hd, map_some, some.injEq] at hl
      omega
    | false =>
      rw [lastMinute, lastRun_succ_of_not_due hd] at hl
      cases hl
  | succ n ih =>
    cases hd : dueAt zone schedule evals (n + 1) with
    | true =>
      simp only [lastMinute, lastRun_succ_of_due hd, map_some, some.injEq] at hl
      omega
    | false =>
      have hl' : lastMinute zone schedule evals (n + 1) = some l := by
        rw [lastMinute, ← lastRun_succ_of_not_due hd]
        exact hl
      by_cases hold : m ≤ minuteOf (evals n)
      · exact ih (by omega) hl' hlm hold hw ho
      have hcheck := hd
      rw [dueAt_eq hparse, hl'] at hcheck
      by_cases hmatch : sched.matchesAt (zone.wall (minuteOf (evals (n + 1)))) = true
      · -- The evaluation shows the reading of the last run once more.
        rw [checkMinute, if_pos hmatch] at hcheck
        split_ifs at hcheck with hsame
        simp only [map_some, some.injEq] at hsame
        obtain ⟨i, hi, _, rfl⟩ := exists_lastMinute hl'
        have hfrom : minuteOf (evals 0) - neverRunCatchupLookback ≤ minuteOf (evals i) := by
          have := minuteOf_mono (hmono.monotone (Nat.zero_le i))
          simp only [neverRunCatchupLookback]
          omega
        have hN := minuteOf_mono (hmono.monotone hn)
        have hwl : sched.matchesAt (zone.wall (minuteOf (evals i))) = true := by rwa [hsame]
        have hwm := (hrepeat _ _ _ hfrom (by omega) hN hwl (.inl rfl) (.inl hsame.symm)).2.2.2
          m w hlm hm hw ho
        refine ⟨hwm, ?_⟩
        subst hwm
        exact (hrepeat _ _ _ hfrom hlm (by omega) hw (.inl rfl) ho).2.1
      · refine shown_of_not_due hcheck (by simpa using hmatch) hlm ?_ hm hw ho
        have := hgap n
        simp only [minuteOf] at hold ⊢
        omega

include hparse hmono hgap hrepeat in
/-- An evaluation that is not due finds only readings that led to an earlier due result. -/
theorem served_of_not_due (hn : n ≤ N) (hd : dueAt zone schedule evals n = false)
    (hl : lastMinute zone schedule evals n = some l) (hlm : l < m)
    (hm : m ≤ minuteOf (evals n)) (hw : sched.matchesAt w = true) (ho : OccursAt zone m w) :
    ∃ i < n, LeadsTo zone sched schedule evals i w := by
  have hl' : lastMinute zone schedule evals (n + 1) = some l := by
    rw [lastMinute, lastRun_succ_of_not_due hd]
    exact hl
  obtain ⟨rfl, _⟩ := only_last_reading hparse hmono hgap hrepeat hn hl' hlm hm hw ho
  obtain ⟨i, hi, hdi, rfl⟩ := exists_lastMinute hl
  exact ⟨i, hi, leadsTo_of_matches hparse hmono hdi hw⟩

include hparse hmono hgap hrepeat in
theorem last_shows_until {k : ℕ} (hjN : j ≤ N) {m₂ : ℤ}
    (hfrom : minuteOf (evals 0) - neverRunCatchupLookback ≤ minuteOf (evals k))
    (hw : sched.matchesAt w = true) (hshown : zone.wall (minuteOf (evals k)) = w)
    (hN : m₂ ≤ minuteOf (evals N))
    (hbefore : ∀ n < j, dueAt zone schedule evals n = true → minuteOf (evals n) < m₂)
    (hlone : ∀ m w', minuteOf (evals k) < m → m ≤ m₂ → sched.matchesAt w' = true →
      OccursAt zone m w' → w' = w)
    (hkn : k < n) (hnj : n ≤ j) :
    ∃ l, lastMinute zone schedule evals n = some l ∧ zone.wall l = w := by
  induction n, hkn using Nat.le_induction with
  | base =>
    have hmatch : sched.matchesAt (zone.wall (minuteOf (evals k))) = true := by rwa [hshown]
    obtain ⟨l, hl, heq⟩ := lastMinute_succ_of_matches hparse hmatch
    exact ⟨l, hl, heq.trans hshown⟩
  | succ n hkn ih =>
    obtain ⟨l, hl, heq⟩ := ih (by omega)
    cases hd : dueAt zone schedule evals n with
    | false =>
      refine ⟨l, ?_, heq⟩
      rw [lastMinute, lastRun_succ_of_not_due hd]
      exact hl
    | true =>
      exfalso
      obtain ⟨p, rfl⟩ : ∃ p, n = p + 1 := ⟨n - 1, by omega⟩
      have hcheck := hd
      rw [dueAt_eq hparse, hl] at hcheck
      have hle : ∀ x, some l = some x → x ≤ minuteOf (evals (p + 1)) := by
        rintro x ⟨⟩
        obtain ⟨i, hi, _, rfl⟩ := exists_lastMinute hl
        exact minuteOf_mono (hmono.monotone hi.le)
      obtain ⟨m, w', hm, hlm, _, hw', hc⟩ := exists_of_due hcheck hle
      have hlm := hlm l rfl
      by_cases hold : m ≤ minuteOf (evals p)
      · obtain ⟨hwl, hmw⟩ := only_last_reading hparse hmono hgap hrepeat (by omega) hl hlm hold hw'
          hc.occursAt
        exact hc.not_shown hmw hwl.symm
      · have hkm : minuteOf (evals k) < m := by
          have := minuteOf_mono (hmono.monotone (show k ≤ p by omega))
          omega
        have hm₂ := hbefore (p + 1) (by omega) hd
        obtain rfl := hlone m w' hkm (by omega) hw' hc.occursAt
        have hmw := (hrepeat _ m w' hfrom hkm (by omega) hw' (.inl hshown) hc.occursAt).2.1
        exact hc.not_shown hmw heq

include hparse hmono hgap hrepeat in
theorem not_leadsTo_twice (hij : i < j) (hj : j ≤ N) (hi : LeadsTo zone sched schedule evals i w) :
    ¬ LeadsTo zone sched schedule evals j w := by
  rintro ⟨hdj, _, m₂, hm₂, hafter₂, _, hc₂⟩
  obtain ⟨hdi, hw, m₁, hm₁, hafter₁, hnever₁, hc₁⟩ := hi
  obtain ⟨ℓ, hℓ, hle⟩ := exists_last_ge hmono hij hdi
  have hlast : lastMinute zone schedule evals j = some (minuteOf ℓ) := by simp [lastMinute, hℓ]
  have hlt := hafter₂ _ hlast
  have hle' := minuteOf_mono hle
  have hfrom : minuteOf (evals 0) - neverRunCatchupLookback ≤ m₁ := by
    have hzero := minuteOf_mono (hmono.monotone (Nat.zero_le i))
    cases hl : lastMinute zone schedule evals i with
    | none =>
      have := hnever₁ hl
      omega
    | some l =>
      have hl₁ := hafter₁ l hl
      obtain ⟨i', _, _, rfl⟩ := exists_lastMinute hl
      have := minuteOf_mono (hmono.monotone (Nat.zero_le i'))
      simp only [neverRunCatchupLookback]
      omega
  have hN := minuteOf_mono (hmono.monotone hj)
  obtain ⟨hw₁, hw₂, ⟨k, rfl⟩, hlone⟩ := hrepeat m₁ m₂ w hfrom (by omega) (by omega) hw
    hc₁.occursAt hc₂.occursAt
  have hkj : k < j := by
    by_contra hge
    have := minuteOf_mono (hmono.monotone (show j ≤ k by omega))
    omega
  obtain ⟨l, hl, heq⟩ := last_shows_until hparse hmono hgap hrepeat hj hfrom hw hw₁
    (by omega : m₂ ≤ minuteOf (evals N)) (by
      intro n hn hd
      obtain ⟨ℓ', hℓ', hle''⟩ := exists_last_ge hmono hn hd
      rw [hℓ] at hℓ'
      cases hℓ'
      have := minuteOf_mono hle''
      omega) hlone hkj le_rfl
  rw [hl] at hc₂
  exact hc₂.not_shown hw₂ heq

end Evaluations

/-- When repeated readings are covered by evaluations, no scheduled reading leads to two due
results, and an evaluation since whose last run a scheduled reading occurred that led to none is
due. -/
theorem cron_once_and_none_missed {N : ℕ} (hparse : parseSchedule schedule = some sched)
    (hmono : StrictMono evals) (hgap : ∀ n, evals (n + 1) - evals n ≤ 60 * maxCatchupLookback)
    (hrepeat : RepeatsCovered zone sched evals N) :
    (∀ i j, i < j → j ≤ N → ∀ w, LeadsTo zone sched schedule evals i w →
      ¬ LeadsTo zone sched schedule evals j w) ∧
    (∀ n ≤ N, ∀ l, lastMinute zone schedule evals n = some l → ∀ m w, l < m →
      m ≤ minuteOf (evals n) → sched.matchesAt w = true → OccursAt zone m w →
      (∀ i < n, ¬ LeadsTo zone sched schedule evals i w) → dueAt zone schedule evals n = true) := by
  refine ⟨fun i j hij hj w => not_leadsTo_twice hparse hmono hgap hrepeat hij hj, ?_⟩
  intro n hn l hl m w hlm hm hw ho hunserved
  by_contra hd
  obtain ⟨i, hi, hlead⟩ := served_of_not_due hparse hmono hgap hrepeat hn (by simpa using hd) hl
    hlm hm hw ho
  exact hunserved i hi hlead

/-- The clocks of New York go back an hour at six in the morning, universal time, on the third of
November 2024. -/
def newYork2024 : Zone := fun m => if m < 28843560 then -240 else -300

def halfHours (n : ℕ) : ℤ := 1730610000 + 1800 * n

theorem strictMono_halfHours : StrictMono halfHours := by
  intro i j hij
  simp only [halfHours]
  omega

theorem halfHours_gap (n : ℕ) : halfHours (n + 1) - halfHours n ≤ 60 * maxCatchupLookback := by
  simp only [halfHours, maxCatchupLookback]
  push_cast
  omega

def halfPastOne : Schedule := ⟨"30", "1", "*", "*", "*"⟩

/-- The repeated hour has one scheduled reading, which is evaluated when it is shown first. -/
theorem repeatsCovered_halfPastOne : RepeatsCovered newYork2024 halfPastOne halfHours 3 := by
  have hsched : ∀ w, halfPastOne.matchesAt w = true → w % 60 = 30 := by
    intro w hw
    have hfield : cronFieldMatches "30" (w % 60) = true := by
      simp only [Schedule.matchesAt, Bool.and_eq_true] at hw
      exact hw.1.1.1.1
    have hparts : stringsSplit ',' "30" = ["30"] := by decide +kernel
    have hpart : cronPartMatches (trimSpace "30") (w % 60) = (some 30 == some (w % 60)) := rfl
    have hstar : ("30" == "*") = false := by decide
    rw [cronFieldMatches, hstar, hparts, List.any_cons, List.any_nil, hpart, Bool.false_or,
      Bool.or_false, beq_iff_eq, some.injEq] at hfield
    exact hfield.symm
  have hshown : ∀ {m w}, OccursAt newYork2024 m w → newYork2024.wall m = w := by
    rintro m w (h | ⟨hlt, -, -⟩)
    · exact h
    · simp only [newYork2024] at hlt
      split_ifs at hlt <;> omega
  intro m₁ m₂ w _ hlt hle hw h₁ h₂
  have hw₁ := hshown h₁
  have hw₂ := hshown h₂
  have hread := hsched w hw
  have hend : m₂ ≤ 28843590 := hle
  simp only [Zone.wall, newYork2024] at hw₁ hw₂
  obtain ⟨rfl, rfl⟩ : m₁ = 28843530 ∧ w = 28843290 := by split_ifs at hw₁ hw₂ <;> omega
  refine ⟨rfl, hshown h₂, ⟨1, by decide⟩, fun m w' hm hm' hw' ho => ?_⟩
  have hread' := hsched w' hw'
  have hwall := hshown ho
  simp only [Zone.wall, newYork2024] at hwall
  split_ifs at hwall <;> omega

/-- The clock shows half past one at the second and at the fourth evaluation. -/
theorem cron_once_and_none_missed_repeated :
    LeadsTo newYork2024 halfPastOne "30 1 * * *" halfHours 1 28843290 ∧
      newYork2024.wall (minuteOf (halfHours 3)) = 28843290 ∧
      ¬ LeadsTo newYork2024 halfPastOne "30 1 * * *" halfHours 3 28843290 := by
  have hparse : parseSchedule "30 1 * * *" = some halfPastOne := by decide +kernel
  have hfirst : LeadsTo newYork2024 halfPastOne "30 1 * * *" halfHours 1 28843290 :=
    leadsTo_of_matches hparse strictMono_halfHours (by decide +kernel) (by decide +kernel)
  exact ⟨hfirst, by decide, (cron_once_and_none_missed hparse strictMono_halfHours halfHours_gap
    repeatsCovered_halfPastOne).1 1 3 (by decide) le_rfl _ hfirst⟩

/-- The order is due at one o'clock, at half past one, and at one o'clock again. -/
theorem fallBack_serves_twice :
    ¬ ∀ (zone : Zone) (schedule : String) (sched : Schedule) (evals : ℕ → ℤ),
      parseSchedule schedule = some sched → StrictMono evals →
      (∀ n, evals (n + 1) - evals n ≤ 60 * maxCatchupLookback) →
      ∀ i j, i < j → ∀ w, LeadsTo zone sched schedule evals i w →
        ¬ LeadsTo zone sched schedule evals j w := by
  intro h
  have hparse : parseSchedule "0,30 1 * * *" = some ⟨"0,30", "1", "*", "*", "*"⟩ := by
    decide +kernel
  have due : dueAt newYork2024 "0,30 1 * * *" halfHours 0 = true ∧
      dueAt newYork2024 "0,30 1 * * *" halfHours 2 = true := by decide +kernel
  have first := leadsTo_of_matches hparse strictMono_halfHours due.1 (by decide +kernel)
  have second := leadsTo_of_matches hparse strictMono_halfHours due.2 (by decide +kernel)
  exact h newYork2024 _ _ halfHours hparse strictMono_halfHours halfHours_gap 0 2 (by decide) _
    first second

end GasCity.Orders
