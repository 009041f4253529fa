import GasCity.MemStore.Step
import Mathlib.Algebra.Group.Int.Defs

/-! # The file-backed store

`FileStore` wraps a `MemStore`: every mutation reloads the file, runs in memory, writes the whole
file back and rolls back when the flush fails.  An `Env` says which calls of the lock and the file
system fail.  The file carries the two `json:"-"` tokens of a bead in maps of their own.
-/

namespace GasCity

structure FileData where
  seq : Nat := 0
  beads : List Bead := []
  deps : List Dep := []
  revisions : Table String Int := ∅
  revisionsSealed : Bool := false
  fences : Table String Int := ∅
  deriving DecidableEq

def extractTokens (token : Bead → Int) (beads : List Bead) : Table String Int :=
  beads.foldl (fun t b => if token b ≠ 0 then t.set b.id (token b) else t) ∅

def stampTokens (put : Bead → Int → Bead) (beads : List Bead) (tokens : Table String Int) :
    List Bead :=
  beads.map fun b => (tokens.get b.id).elim b (put b)

def beadFences : List Bead → Table String Int := extractTokens Bead.claimFence

def applyBeadFences : List Bead → Table String Int → List Bead :=
  stampTokens fun b f => { b with claimFence := f }

def beadRevisions : List Bead → Table String Int := extractTokens Bead.revision

def applyBeadRevisions : List Bead → Table String Int → List Bead :=
  stampTokens fun b r => { b with revision := r }

def revisionContinuityFloor : Int := 2 ^ 40

def raiseSeed (seed : Int) (t : Time) : Int :=
  if !t.isZero ∧ seed < t.unixNano then t.unixNano else seed

def revisionSeed (beads : List Bead) : Int :=
  beads.foldl (fun seed b => raiseSeed (raiseSeed seed b.updatedAt) b.createdAt)
    revisionContinuityFloor

/-- Apply the persisted revisions; an unsealed file re-seeds every lower one. -/
def applyBeadRevisionsSealed (fd : FileData) : List Bead :=
  let beads := applyBeadRevisions fd.beads fd.revisions
  if fd.revisionsSealed then beads
  else beads.map fun b =>
    if b.revision < revisionSeed fd.beads then { b with revision := revisionSeed fd.beads } else b

def FileData.load (fd : FileData) : List Bead :=
  applyBeadFences (applyBeadRevisionsSealed fd) fd.fences

/-- The file `save` writes for a store; JSON drops both tokens from the beads. -/
def FileData.ofStore (m : MemStore) : FileData where
  seq := m.seq
  beads := m.beads.map Bead.visible
  deps := m.deps
  revisions := beadRevisions m.beads
  revisionsSealed := true
  fences := beadFences m.beads

/-- What `Stat` reports of a file. -/
structure FileStat where
  size : Int
  modTime : Time
  deriving DecidableEq

/-- The store's file; its bytes may fail to decode. -/
structure StoreFile where
  contents : Option FileData
  stat : FileStat
  deriving DecidableEq

/-- What a handle remembers of the file it last read or wrote. -/
structure FileFreshness where
  known : Bool := false
  present : Bool := false
  size : Int := 0
  modTime : Time := .zero
  deriving DecidableEq

def FileFreshness.same (f other : FileFreshness) : Bool :=
  f.known && other.known && f.present == other.present &&
    (!f.present || f.size == other.size && f.modTime == other.modTime)

def currentFreshness : Option StoreFile → FileFreshness
  | none => { known := true }
  | some file =>
    { known := true, present := true, size := file.stat.size, modTime := file.stat.modTime }

/-- How the lock and the file system behave during one operation. -/
structure Env where
  lockFails : Bool := false
  readFails : Bool := false
  statFails : Bool := false
  flushFails : Bool := false
  stamp : FileStat := ⟨0, .zero⟩
  deriving DecidableEq

inductive FileErr where
  | store (e : Err)
  | locking
  | reloading
  | saving
  deriving DecidableEq

structure FileStore where
  mem : MemStore := {}
  freshness : FileFreshness := {}
  deriving DecidableEq

/-- Replace sequence, beads and dependencies; local strings are not part of a snapshot. -/
def MemStore.restoreFrom (m : MemStore) (seq : Nat) (beads : List Bead) (deps : List Dep) :
    MemStore :=
  { m with seq, beads, deps }

namespace FileStore

open MemStore (Op Result)

/-- The three failure points of `save` (encoding, temp file, rename) leave the file as it was. -/
def save (s : FileStore) (env : Env) : Except FileErr (FileStore × StoreFile) :=
  if env.flushFails then .error .saving
  else
    let file : StoreFile := { contents := some (.ofStore s.mem), stat := env.stamp }
    .ok ({ s with freshness := if env.statFails then {} else currentFreshness (some file) }, file)

def reloadFromDisk (s : FileStore) (disk : Option StoreFile) (env : Env) :
    Except FileErr FileStore :=
  if env.readFails then .error .reloading
  else
    match disk with
    | none => .ok s
    | some file =>
      match file.contents with
      | none => .error .reloading
      | some fd => .ok { s with mem := s.mem.restoreFrom fd.seq fd.load fd.deps }

def refreshReadStateLocked (s : FileStore) (disk : Option StoreFile) (env : Env) :
    Except FileErr FileStore :=
  if env.statFails then
    (s.reloadFromDisk disk env).map fun s' => { s' with freshness := {} }
  else if s.freshness.same (currentFreshness disk) then .ok s
  else if disk.isNone then
    .ok { mem := s.mem.restoreFrom 0 [] [], freshness := currentFreshness disk }
  else
    (s.reloadFromDisk disk env).map fun s' => { s' with freshness := currentFreshness disk }

/-- `OpenFileStore`: the freshness of a file just read is left unknown. -/
def openFileStore (disk : Option StoreFile) (env : Env) : Except FileErr FileStore :=
  if env.readFails then .error .reloading
  else
    match disk with
    | none => .ok { freshness := { known := true } }
    | some file =>
      match file.contents with
      | none => .error .reloading
      | some fd => .ok { mem := { seq := fd.seq, beads := fd.load, deps := fd.deps } }

/-- The checks the conditional writes make before they take the lock. -/
def precheck (s : FileStore) : Op → Option Err
  | .updateIfMatch id _ opts _ =>
    if isEmptyUpdateOpts opts then some (.emptyConditionalUpdate id)
    else if s.mem.disableConditionalWrites then some .conditionalWriteUnsupported
    else none
  | .closeIfMatch .. | .deleteIfMatch .. | .compareAndSetMetadataKey .. =>
    if s.mem.disableConditionalWrites then some .conditionalWriteUnsupported else none
  | _ => none

/-- Whether a successful call is followed by a flush: a batch that closed nothing and a
comparison that failed are not. -/
def flushes : Result → Bool
  | .count n => 0 < n
  | .flag applied => applied
  | _ => true

/-- The mutating calls of a file store; the other calls are reads or touch only memory. -/
def isMutation : Op → Bool
  | .get .. | .list .. | .depList .. | .getLocalString .. | .setLocalString .. => false
  | _ => true

structure Outcome where
  store : FileStore
  disk : Option StoreFile
  result : Except FileErr Result

/-- Run the call in memory, save, and roll back when the flush fails. -/
def delegate (s : FileStore) (disk : Option StoreFile) (env : Env) (op : Op) : Outcome :=
  match s.mem.call op with
  | (_, .failed e) => ⟨s, disk, .error (.store e)⟩
  | (m, r) =>
    if flushes r then
      match save { s with mem := m } env with
      | .ok (s', file) => ⟨s', some file, .ok r⟩
      | .error e =>
        ⟨{ s with mem := m.restoreFrom s.mem.seq s.mem.beads s.mem.deps }, disk, .error e⟩
    else ⟨{ s with mem := m }, disk, .ok r⟩

def mutate (s : FileStore) (disk : Option StoreFile) (env : Env) (op : Op) : Outcome :=
  match s.precheck op with
  | some e => ⟨s, disk, .error (.store e)⟩
  | none =>
    if env.lockFails then ⟨s, disk, .error .locking⟩
    else
      match s.reloadFromDisk disk env with
      | .error e => ⟨s, disk, .error e⟩
      | .ok s' => s'.delegate disk env op

section Mutators

variable (s : FileStore) (disk : Option StoreFile) (env : Env)

def create (b : Bead) (now : Time) : Outcome := s.mutate disk env (.create b now)

def delete (id : String) : Outcome := s.mutate disk env (.delete id)

def get (id : String) : Except FileErr Bead :=
  match s.refreshReadStateLocked disk env with
  | .error e => .error e
  | .ok s' => (s'.mem.get id).mapError .store

end Mutators

abbrev Core := Nat × List Bead × List Dep

def core (m : MemStore) : Core := (m.seq, m.beads, m.deps)

def fileCore (fd : FileData) : Core := (fd.seq, fd.load, fd.deps)

def replaced (s : FileStore) (k : Core) (strings : Table String StringMap) : FileStore :=
  { s with mem := { s.mem.restoreFrom k.1 k.2.1 k.2.2 with localStrings := strings } }

variable {s : FileStore} {disk : Option StoreFile} {env : Env} {op : Op}

theorem replaced_self (s : FileStore) : s.replaced (core s.mem) s.mem.localStrings = s := rfl

theorem reloadFromDisk_eq (s : FileStore) (disk : Option StoreFile) (env : Env) :
    s.reloadFromDisk disk env =
      if env.readFails then .error .reloading
      else
        match disk with
        | none => .ok s
        | some file => file.contents.elim (.error .reloading) fun fd =>
          .ok (s.replaced (fileCore fd) s.mem.localStrings) := by
  unfold reloadFromDisk
  split
  · rfl
  · cases disk with
    | none => rfl
    | some file =>
      obtain ⟨contents, stat⟩ := file
      cases contents <;> rfl

def workingCore (s : FileStore) : Option StoreFile → Option Core
  | none => some (core s.mem)
  | some file => file.contents.map fileCore

theorem reloadFromDisk_ok {s₁ : FileStore} (h : s.reloadFromDisk disk env = .ok s₁) :
    env.readFails = false ∧ ∃ k, s.workingCore disk = some k ∧
      s₁ = s.replaced k s.mem.localStrings := by
  rw [reloadFromDisk_eq] at h
  split at h
  · cases h
  · next hread =>
      refine ⟨by simpa using hread, ?_⟩
      cases disk with
      | none => exact ⟨core s.mem, rfl, (Except.ok.inj h).symm⟩
      | some file =>
        cases hc : file.contents with
        | none => simp [hc] at h
        | some fd =>
          simp only [hc, Option.elim, Except.ok.injEq] at h
          exact ⟨fileCore fd, by simp [workingCore, hc], h.symm⟩

/-- A delegated call fails in memory, or its flush fails and memory is rolled back. -/
theorem delegate_failed {e : FileErr} (h : (s.delegate disk env op).result = .error e) :
    (s.delegate disk env op).disk = disk ∧
      ((s.mem.call op).2.isFailed ∧ (s.delegate disk env op).store = s ∨
        env.flushFails = true ∧
          (s.delegate disk env op).store =
            s.replaced (core s.mem) (s.mem.call op).1.localStrings) := by
  unfold delegate at h ⊢
  cases hcall : s.mem.call op with
  | mk m r =>
    rw [hcall] at h
    have hcap : m.disableConditionalWrites = s.mem.disableConditionalWrites := by
      simpa [hcall] using MemStore.capability_call (m := s.mem) op
    cases r with
    | failed err => exact ⟨rfl, .inl ⟨rfl, rfl⟩⟩
    | _ =>
      simp only at h ⊢
      split at h
      · next hflush =>
          cases hf : env.flushFails with
          | false => simp [save, hf] at h
          | true => simp [hflush, save, hf, replaced, core, MemStore.restoreFrom, hcap]
      · cases h

end FileStore

end GasCity
