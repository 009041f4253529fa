import GasCity.Beads.Bead
import GasCity.Text.Strings

/-! # Results of a conditional bd write

The bd command reports every failure as an error text and JSON objects on its
output streams.  The classification below reads the machine code of such an
object first and falls back to phrases of the text.
-/

namespace GasCity

namespace BdStore

/-- Go's `strings.Contains`. -/
def contains (s sub : String) : Bool := decide (sub.toList <:+: s.toList)

def mentions (phrases : List String) (s : String) : Bool := phrases.any (contains s)

/-- The machine body that bd attaches to a failed conditional write. -/
structure ErrorBody where
  code : String := ""
  expectedRevision : Option Int := none
  currentRevision : Option Int := none
  deriving DecidableEq

def ErrorBody.hasDiscriminator (b : ErrorBody) : Bool :=
  b.code != "" || b.expectedRevision.isSome || b.currentRevision.isSome

/-- A failed command: the error text and the bodies found on the output and in that text. -/
structure Failure where
  msg : String
  outBodies : List ErrorBody := []
  msgBodies : List ErrorBody := []
  deriving DecidableEq

/-- The typed errors of conditional writes; `other` is surfaced with its text as it came. -/
inductive WriteErr where
  | preconditionFailed (id : String) (expected current : Int)
  | unsupported
  | gateRefusal (id verb code : String)
  | notFound
  | casRetriesExhausted (id key : String) (attempts : Nat) (lastRevision : Int)
  | other (msg : String)
  deriving DecidableEq

def conditionalCodePreconditionFailed : String := "precondition-failed"

def conditionalCodeUnsupported : String := "conditional-write-unsupported"

def parseConditionalErrorBody (f : Failure) : Option ErrorBody :=
  let bodies := f.outBodies ++ f.msgBodies
  bodies.find? (·.hasDiscriminator) <|> bodies.head?

def isAmbiguousWriteError (msg : String) : Bool :=
  mentions ["i/o timeout", "invalid connection", "bad connection", "connection reset",
    "broken pipe", "timed out after", "deadline exceeded"] msg

def isSqliteBusyError (msg : String) : Bool :=
  mentions ["sqlite_busy", "sqlite_locked"] (toLower msg)

def isTransientWriteError (msg : String) : Bool :=
  mentions ["Error 1213 (40001): serialization failure",
    "this transaction conflicts with a committed transaction", "failed to prepare catalog"] msg ||
    isSqliteBusyError msg || isAmbiguousWriteError msg

def isNotFound (msg : String) : Bool :=
  mentions ["not found", "no issue found", "no issues found"] (toLower msg)

def isUnknownIfRevisionFlag (msg : String) : Bool :=
  mentions ["unknown flag: --if-revision", "unknown flag: -if-revision",
    "unknown flag '--if-revision'", "flag provided but not defined: -if-revision",
    "flag provided but not defined: --if-revision"] (toLower msg)

def isConditionalPrecondition (body : ErrorBody) (msg : String) : Bool :=
  body.expectedRevision.isSome || body.currentRevision.isSome ||
    mentions ["precondition failed", "precondition-failed", "revision mismatch"] (toLower msg)

def newPreconditionFailed (body : ErrorBody) : WriteErr :=
  .preconditionFailed "" (body.expectedRevision.getD 0) (body.currentRevision.getD 0)

def classifyConditionalWriteResult (f : Failure) : WriteErr :=
  let found := parseConditionalErrorBody f
  let body := found.getD {}
  if found.isSome && body.code == conditionalCodePreconditionFailed then newPreconditionFailed body
  else if found.isSome && body.code == conditionalCodeUnsupported then .unsupported
  else if isUnknownIfRevisionFlag f.msg then .unsupported
  else if isAmbiguousWriteError f.msg then .other f.msg
  else if found.isSome && body.code != "" then .gateRefusal "" "" body.code
  else if isNotFound f.msg then .notFound
  else if isConditionalPrecondition body f.msg then newPreconditionFailed body
  else .other f.msg

def finalizeConditionalWrite (id verb : String) (expectedRevision : Int) : WriteErr → WriteErr
  | .preconditionFailed id' _ current =>
    .preconditionFailed (if id' = "" then id else id') expectedRevision current
  | .gateRefusal id' verb' code =>
    .gateRefusal (if id' = "" then id else id') (if verb' = "" then verb else verb') code
  | e => e

def WriteErr.ambiguous : WriteErr → Bool
  | other msg => isAmbiguousWriteError msg
  | _ => false

theorem classify_of_ambiguous {f : Failure}
    (h : (classifyConditionalWriteResult f).ambiguous = true) :
    classifyConditionalWriteResult f = .other f.msg ∧ isAmbiguousWriteError f.msg = true := by
  have hcases : (∃ b, classifyConditionalWriteResult f = newPreconditionFailed b) ∨
      classifyConditionalWriteResult f = .unsupported ∨
      (∃ code, classifyConditionalWriteResult f = .gateRefusal "" "" code) ∨
      classifyConditionalWriteResult f = .notFound ∨
      classifyConditionalWriteResult f = .other f.msg := by
    unfold classifyConditionalWriteResult
    grind
  rcases hcases with ⟨b, hb⟩ | hb | ⟨code, hb⟩ | hb | hb <;> rw [hb] at h
  · cases h
  · cases h
  · cases h
  · cases h
  · exact ⟨hb, h⟩

end BdStore

end GasCity
