import GasCity.CityWriteAuth.Verifier
import GasCity.Fallible.Basic
import GasCity.Runs.Basic
import Mathlib.Tactic.Cases

/-! # Single use of a grant

Calls of one verifier run concurrently.  Only the guard locks, so between the checks of a call and
the consumption of its identifier other calls and time may pass.  A token is accepted at most once
as long as every call reaches the guard before the deadline of its grant.
-/

namespace GasCity.CityWriteAuth

open Option

inductive Call where
  | consuming (token : String) (g : Grant)
  | accepted (token : String) (g : Grant)
  | rejected (token : String) (reason : Rejection)
  deriving DecidableEq

structure Server where
  clock : ℤ
  guard : MemoryReplayGuard
  calls : Table ℕ Call

inductive Event where
  | start (call : ℕ) (token : String) (expect : Expect)
  | consume (call : ℕ)
  | pass (d : ℕ)

def Server.initial (clock sweepThreshold : ℤ) : Server :=
  ⟨clock, ⟨∅, sweepThreshold⟩, ∅⟩

section Step

variable (v : Verifier) (C : Codec)

def started (now : ℤ) (token : String) (expect : Expect) : Call :=
  match v.vet C now token expect with
  | .error e => .rejected token e
  | .ok g => .consuming token g

def step (s : Server) : Event → Option Server
  | .start t token expect =>
    match s.calls.get t with
    | none => some { s with calls := s.calls.set t (started v C s.clock token expect) }
    | some _ => none
  | .consume t =>
    match s.calls.get t with
    | some (.consuming token g) =>
      match s.guard.use s.clock g.jti (v.deadline g) with
      | none => some { s with calls := s.calls.set t (.rejected token .replay) }
      | some m => some { s with guard := m, calls := s.calls.set t (.accepted token g) }
    | _ => none
  | .pass d => some { s with clock := s.clock + d }

def consumed (s : Server) : Event → Option Grant
  | .consume t =>
    match s.calls.get t with
    | some (.consuming _ g) => some g
    | _ => none
  | _ => none

/-- A call that consumes its identifier does so before the deadline of its grant. -/
def Prompt (s : Server) (e : Event) : Prop :=
  ∀ g ∈ consumed s e, s.clock ≤ v.deadline g

instance (s : Server) (e : Event) : Decidable (Prompt v s e) :=
  inferInstanceAs (Decidable (∀ g ∈ consumed s e, _))

end Step

variable {v : Verifier} {C : Codec} {s s' : Server} {e : Event}

variable {expect : Expect} {g : Grant} {t : ℕ} {token : String}

theorem step_start (h : step v C s (.start t token expect) = some s') :
    s.calls.get t = none ∧
      s' = { s with calls := s.calls.set t (started v C s.clock token expect) } := by
  simp only [step] at h
  split at h
  · next hnone => exact ⟨hnone, (some.inj h).symm⟩
  · cases h

theorem step_consume (h : step v C s (.consume t) = some s') :
    ∃ token g, s.calls.get t = some (.consuming token g) ∧
      (s.guard.use s.clock g.jti (v.deadline g) = none ∧
          s' = { s with calls := s.calls.set t (.rejected token .replay) } ∨
        ∃ m, s.guard.use s.clock g.jti (v.deadline g) = some m ∧
          s' = { s with guard := m, calls := s.calls.set t (.accepted token g) }) := by
  simp only [step] at h
  split at h
  · next token g hcall =>
    refine ⟨token, g, hcall, ?_⟩
    split at h
    · next hnone => exact .inl ⟨hnone, (some.inj h).symm⟩
    · next m hsome => exact .inr ⟨m, hsome, (some.inj h).symm⟩
  · cases h

theorem guard_step (h : step v C s e = some s') :
    s'.guard = s.guard ∨
      ∃ t token g, e = .consume t ∧ s'.calls.get t = some (.accepted token g) := by
  cases e with
  | start t token expect =>
    obtain ⟨-, rfl⟩ := step_start h
    exact .inl rfl
  | consume t =>
    obtain ⟨token, g, -, ⟨-, rfl⟩ | ⟨m, -, rfl⟩⟩ := step_consume h
    · exact .inl rfl
    · exact .inr ⟨t, token, g, rfl, Table.get_set_self _ _ _⟩
  | pass d =>
    cases h
    exact .inl rfl

def grantOf (C : Codec) (token : String) : Option Grant := do
  let (payload, _) ← splitToken C token
  C.unmarshal payload

theorem grantOf_of_authenticate
    (h : v.authenticate C token = .ok g) : grantOf C token = some g := by
  unfold Verifier.authenticate at h
  unfold grantOf
  split at h
  · cases h
  · next payload sig hsplit =>
    rw [hsplit]
    split at h
    · cases h
    · next g' hg =>
      split at h
      · cases h
      · split_ifs at h
        cases h
        exact hg

theorem grantOf_of_vet {now : ℤ}
    (h : v.vet C now token expect = .ok g) : grantOf C token = some g := by
  obtain ⟨g', hauth, h⟩ := bind_eq_ok.mp h
  obtain ⟨-, -, h⟩ := bind_eq_ok.mp h
  cases h
  exact grantOf_of_authenticate hauth

/-- The guard keeps the identifiers of the accepted grants until their deadlines, and no token has
been accepted twice. -/
structure Spent (v : Verifier) (C : Codec) (s : Server) : Prop where
  consuming : ∀ t token g, s.calls.get t = some (.consuming token g) → grantOf C token = some g
  accepted : ∀ t token g, s.calls.get t = some (.accepted token g) →
    grantOf C token = some g ∧
      (v.deadline g < s.clock ∨ s.guard.seen.get g.jti = some (v.deadline g))
  once : ∀ t u token g g', s.calls.get t = some (.accepted token g) →
    s.calls.get u = some (.accepted token g') → t = u

theorem Spent.set_call (h : Spent v C s) (t : ℕ) {c : Call}
    (hc : ∀ token g, c = .consuming token g → grantOf C token = some g)
    (hacc : ∀ token g, c ≠ .accepted token g) : Spent v C { s with calls := s.calls.set t c } := by
  have hold : ∀ u token g, (s.calls.set t c).get u = some (.accepted token g) →
      s.calls.get u = some (.accepted token g) := by
    intro u token g hu
    rw [Table.get_set] at hu
    split_ifs at hu
    · exact absurd (some.inj hu) (hacc token g)
    · exact hu
  refine ⟨?_, fun u token g hu => h.accepted u token g (hold u token g hu), ?_⟩
  · intro u token g hu
    rw [Table.get_set] at hu
    split_ifs at hu
    · exact hc token g (some.inj hu)
    · exact h.consuming u token g hu
  · intro u u' token g g' hu hu'
    exact h.once u u' token g g' (hold _ _ _ hu) (hold _ _ _ hu')

theorem Spent.accept (h : Spent v C s) {m : MemoryReplayGuard}
    (hcall : s.calls.get t = some (.consuming token g)) (hprompt : s.clock ≤ v.deadline g)
    (huse : s.guard.use s.clock g.jti (v.deadline g) = some m) :
    Spent v C { s with guard := m, calls := s.calls.set t (.accepted token g) } := by
  obtain ⟨hfresh, hkept, hothers⟩ := MemoryReplayGuard.use_eq_some huse
  have hgrant := h.consuming t token g hcall
  -- a token that was accepted before is known to the guard, or too late for this call
  have hnew : ∀ u g', s.calls.get u ≠ some (.accepted token g') := by
    intro u g' hu
    obtain ⟨hg', hlate | hseen⟩ := h.accepted u token g' hu
    · cases hgrant.symm.trans hg'
      omega
    · cases hgrant.symm.trans hg'
      rw [hfresh] at hseen
      cases hseen
  refine ⟨?_, ?_, ?_⟩
  · intro u token' g' hu
    rw [Table.get_set] at hu
    split_ifs at hu
    · cases hu
    · exact h.consuming u token' g' hu
  · intro u token' g' hu
    rw [Table.get_set] at hu
    split_ifs at hu with hut
    · cases hu
      exact ⟨hgrant, .inr hkept⟩
    · obtain ⟨hg', hlate | hseen⟩ := h.accepted u token' g' hu
      · exact ⟨hg', .inl hlate⟩
      · have hne : g'.jti ≠ g.jti := by
          intro heq
          rw [heq, hfresh] at hseen
          cases hseen
        exact ⟨hg', hothers _ _ hne hseen⟩
  · intro u u' token' g' g'' hu hu'
    rw [Table.get_set] at hu hu'
    split_ifs at hu hu' with hut hut' hut'
    · exact hut.trans hut'.symm
    · cases hu
      exact absurd hu' (hnew u' g'')
    · cases hu'
      exact absurd hu (hnew u g')
    · exact h.once u u' token' g' g'' hu hu'

theorem Spent.step (h : Spent v C s) (hstep : step v C s e = some s') (hprompt : Prompt v s e) :
    Spent v C s' := by
  cases e with
  | start t token expect =>
    obtain ⟨-, rfl⟩ := step_start hstep
    apply h.set_call
    · intro token' g hg
      unfold started at hg
      split at hg
      · cases hg
      · next g' hvet =>
        cases hg
        exact grantOf_of_vet hvet
    · intro token' g hg
      unfold started at hg
      split at hg <;> cases hg
  | consume t =>
    obtain ⟨token, g, hcall, ⟨-, rfl⟩ | ⟨m, huse, rfl⟩⟩ := step_consume hstep
    · exact h.set_call t (by rintro _ _ ⟨⟩) (by rintro _ _ ⟨⟩)
    · have hg : consumed s (.consume t) = some g := by simp only [consumed, hcall]
      exact h.accept hcall (hprompt g hg) huse
  | pass d =>
    cases hstep
    refine ⟨h.consuming, ?_, h.once⟩
    intro t token g hcall
    obtain ⟨hg, hlate | hseen⟩ := h.accepted t token g hcall
    · exact ⟨hg, .inl (by change v.deadline g < s.clock + d; omega)⟩
    · exact ⟨hg, .inr hseen⟩

/-- If every call reaches the guard before the deadline of its grant, no token is accepted twice.  A
failed call leaves the guard alone. -/
theorem grant_accepted_once {clock sweepThreshold : ℤ} {es : List Event}
    (hrun : Run (fun s e s' => StepOf (step v C) s e s' ∧ Prompt v s e)
      (Server.initial clock sweepThreshold) es s) :
    (∀ t u token g g', s.calls.get t = some (.accepted token g) →
      s.calls.get u = some (.accepted token g') → t = u) ∧
    ∀ r e r', step v C r e = some r' → r'.guard = r.guard ∨
      ∃ t token g, e = .consume t ∧ r'.calls.get t = some (.accepted token g) := by
  constructor
  · have hspent := hrun.invariant (Spent v C) (fun _ _ _ h hs => h.step hs.1 hs.2)
      ⟨nofun, nofun, nofun⟩
    exact hspent.once
  · intro r e r' h
    exact guard_step h

def grantUntil (exp : ℤ) (jti : String) : Grant :=
  ⟨"k", "gc-city-write", "c", "", 1, 0, exp, jti, "r"⟩

/-- Two tokens, with grants until the tenth and until the twentieth second. -/
def twoTokens : Codec where
  decodeString text :=
    if text = "sig" then some (List.replicate 64 0) else some [text.length.toUInt8]
  unmarshal
    | [1] => some (grantUntil 10 "j")
    | _ => some (grantUntil 20 "jj")
  verify _ _ _ := true

def cityVerifier : Verifier :=
  ⟨"gc-city-write", "", "", (∅ : Table String Bytes).set "k" [], 0, 60 * second, 0⟩

def request : Expect := ⟨"c", "r"⟩

/-- The second call with the token overtakes the first, the deadline passes, and the guard forgets
the identifier when a third call records its own. -/
def overtaken : List Event :=
  [.start 1 "a.sig" request, .start 2 "a.sig" request, .consume 2, .pass (second.toNat * 11),
    .start 3 "bb.sig" request, .consume 3, .consume 1]

theorem late_call_accepts_again :
    (exec (step cityVerifier twoTokens) (Server.initial 0 1) overtaken).map
        (fun s => (s.calls.get 1, s.calls.get 2)) =
      some (some (.accepted "a.sig" (grantUntil 10 "j")),
        some (.accepted "a.sig" (grantUntil 10 "j"))) := by
  decide +kernel

def contested : List Event :=
  [.start 1 "a.sig" request, .start 2 "a.sig" request, .consume 2, .consume 1]

theorem grant_accepted_once_contested :
    ∃ s, Run (fun s e s' => StepOf (step cityVerifier twoTokens) s e s' ∧ Prompt cityVerifier s e)
        (Server.initial 0 1) contested s ∧
      s.calls.get 2 = some (.accepted "a.sig" (grantUntil 10 "j")) ∧
      ∀ g, s.calls.get 1 ≠ some (.accepted "a.sig" g) := by
  have hsome : ((exec (fun s e => if Prompt cityVerifier s e then
      step cityVerifier twoTokens s e else none) (Server.initial 0 1) contested).bind
      fun s => s.calls.get 2) = some (.accepted "a.sig" (grantUntil 10 "j")) := by
    decide +kernel
  obtain ⟨s, hs, hcall⟩ := bind_eq_some_iff.mp hsome
  have hrun := run_of_exec_guarded hs
  refine ⟨s, hrun, hcall, ?_⟩
  intro g hg
  have := (grant_accepted_once hrun).1 1 2 _ _ _ hg hcall
  cases this

end GasCity.CityWriteAuth
