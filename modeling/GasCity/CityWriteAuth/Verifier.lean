import GasCity.Table.Basic
import GasCity.Text.Trim
import Mathlib.Data.Finset.Card

/-! # City write grants

A write to a city carries a signed grant for one request.  The verifier checks the signature, the
audience, the validity window and the binding to the request, and then consumes the identifier of
the grant in a guard against replays.  Instants are in nanoseconds.
-/

namespace GasCity.CityWriteAuth

abbrev Bytes := List UInt8

structure Grant where
  kid : String
  aud : String
  city : String
  cid : String
  epoch : ℤ
  iat : ℤ
  exp : ℤ
  jti : String
  req : String
  deriving DecidableEq

inductive Rejection where
  | malformed
  | unknownKey
  | badSignature
  | audience
  | expired
  | notYetValid
  | badWindow
  | ttlTooLong
  | epoch
  | missingClaim
  | missingExpectation
  | cityMismatch
  | cidMismatch
  | reqMismatch
  | replay
  deriving DecidableEq

structure Expect where
  city : String
  reqDigest : String

/-- Base64 and JSON decoding, and the check of a signature by key, payload and signature. -/
structure Codec where
  decodeString : String → Option Bytes
  unmarshal : Bytes → Option Grant
  verify : Bytes → Bytes → Bytes → Bool

structure Verifier where
  aud : String
  legacyAud : String
  cid : String
  keys : Table String Bytes
  epochFloor : ℤ
  maxTTL : ℤ
  skew : ℤ

def second : ℤ := 1000000000

def signatureSize : ℕ := 64

def splitToken (C : Codec) (token : String) : Option (Bytes × Bytes) := do
  let (p, s) ← cut '.' token.toList
  guard (p ≠ [] ∧ s ≠ [])
  let payload ← C.decodeString (String.ofList p)
  let sig ← C.decodeString (String.ofList s)
  guard (sig.length = signatureSize)
  return (payload, sig)

def requireBound (g : Grant) (expect : Expect) : Except Rejection Unit :=
  if g.city = "" ∨ g.req = "" ∨ g.jti = "" then .error .missingClaim
  else if expect.city = "" ∨ expect.reqDigest = "" then .error .missingExpectation
  else .ok ()

namespace Verifier

variable (v : Verifier)

def audienceOK (aud : String) : Bool :=
  if aud = v.aud then true
  else if v.cid ≠ "" ∨ v.legacyAud = "" then false
  else decide (aud = v.legacyAud)

def deadline (g : Grant) : ℤ :=
  g.exp * second + v.skew

def checkFreshness (now : ℤ) (g : Grant) : Except Rejection Unit :=
  let iat := g.iat * second
  let exp := g.exp * second
  if exp ≤ iat then .error .badWindow
  else if v.maxTTL < exp - iat then .error .ttlTooLong
  else if v.deadline g < now then .error .expired
  else if now < iat - v.skew then .error .notYetValid
  else if g.epoch < v.epochFloor then .error .epoch
  else .ok ()

/-- The grant of a token, if its signature is that of a configured key. -/
def authenticate (C : Codec) (token : String) : Except Rejection Grant :=
  match splitToken C token with
  | none => .error .malformed
  | some (payload, sig) =>
    match C.unmarshal payload with
    | none => .error .malformed
    | some g =>
      match v.keys.get g.kid with
      | none => .error .unknownKey
      | some pub => if C.verify pub payload sig then .ok g else .error .badSignature

def check (now : ℤ) (g : Grant) (expect : Expect) : Except Rejection Unit := do
  requireBound g expect
  if v.audienceOK g.aud = false then .error .audience
  v.checkFreshness now g
  if g.city ≠ expect.city then .error .cityMismatch
  if v.cid ≠ "" ∧ g.cid ≠ v.cid then .error .cidMismatch
  if g.req ≠ expect.reqDigest then .error .reqMismatch

/-- All that is decided before the identifier of the grant is consumed. -/
def vet (C : Codec) (now : ℤ) (token : String) (expect : Expect) : Except Rejection Grant := do
  let g ← v.authenticate C token
  v.check now g expect
  return g

end Verifier

/-- The consumed identifiers with the instants until which they are kept. -/
structure MemoryReplayGuard where
  seen : Table String ℤ
  sweepThreshold : ℤ
  deriving DecidableEq

namespace MemoryReplayGuard

variable (m : MemoryReplayGuard)

def swept (now : ℤ) : Table String ℤ :=
  Table.ofKeys m.seen.keys fun jti => (m.seen.get jti).filter fun exp => decide (now ≤ exp)

def use (now : ℤ) (jti : String) (exp : ℤ) : Option MemoryReplayGuard :=
  match m.seen.get jti with
  | some _ => none
  | none =>
    let seen := if m.sweepThreshold ≤ m.seen.keys.card then m.swept now else m.seen
    some { m with seen := seen.set jti exp }

variable {m} {now exp : ℤ} {jti jti' : String} {m' : MemoryReplayGuard}

theorem get_swept : (m.swept now).get jti = (m.seen.get jti).filter fun exp => now ≤ exp := by
  rw [swept, Table.get_ofKeys]
  split_ifs with h
  · rfl
  · rw [Table.notMem_keys.mp h]
    rfl

theorem use_eq_some (h : m.use now jti exp = some m') :
    m.seen.get jti = none ∧ m'.seen.get jti = some exp ∧
      ∀ k e, k ≠ jti → m.seen.get k = some e → e < now ∨ m'.seen.get k = some e := by
  unfold use at h
  split at h
  · cases h
  · next hnone =>
    cases h
    refine ⟨hnone, Table.get_set_self _ _ _, ?_⟩
    intro k e hk he
    rw [Table.get_set_of_ne _ _ hk]
    split_ifs
    · rw [get_swept, he]
      by_cases hlate : e < now
      · exact .inl hlate
      · exact .inr (Option.filter_some_pos (decide_eq_true (Int.not_lt.mp hlate)))
    · exact .inr he

end MemoryReplayGuard

end GasCity.CityWriteAuth
