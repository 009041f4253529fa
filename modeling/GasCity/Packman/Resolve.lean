import GasCity.Table.Basic
import GasCity.Text.Trim
import Mathlib.Algebra.Group.Int.Defs
import Mathlib.Data.Prod.Lex

/-! # Versions of packs

A pack is resolved to the highest tag that satisfies a constraint.  The tags of a listing are
collected in a map and sorted by version, so tags of one version come in any order.
-/

namespace GasCity.Packman

open List

structure Semver where
  major : ℤ
  minor : ℤ
  patch : ℤ
  deriving DecidableEq

/-- A component in the range of Go's `int`. -/
def parseComponent (s : String) : Option ℤ :=
  (atoi s).filter fun n => -2 ^ 63 ≤ n && n < 2 ^ 63

def parseSemver (version : String) : Option Semver :=
  match stringsSplit '.' version with
  | [major, minor] => do return ⟨← parseComponent major, ← parseComponent minor, 0⟩
  | [major, minor, patch] => do
    return ⟨← parseComponent major, ← parseComponent minor, ← parseComponent patch⟩
  | _ => none

/-- The version of a tag of the map, which parses. -/
def mustParseSemver (version : String) : Semver := (parseSemver version).getD ⟨0, 0, 0⟩

def compareSemver (a b : Semver) : Ordering :=
  if a.major ≠ b.major then compare a.major b.major
  else if a.minor ≠ b.minor then compare a.minor b.minor
  else compare a.patch b.patch

/-- One more, in Go's `int`. -/
def succ (n : ℤ) : ℤ := (n + 1).bmod (2 ^ 64)

def matchesOne (version : Semver) (constraint : String) : Bool :=
  let against := fun operator test =>
    (parseSemver (trimPrefix constraint operator)).any fun base : Semver => test base
  if hasPrefix constraint "^" then
    against "^" fun base => compareSemver version base != .lt &&
      compareSemver version
        (if base.major = 0 then ⟨0, succ base.minor, 0⟩ else ⟨succ base.major, 0, 0⟩) == .lt
  else if hasPrefix constraint "~" then
    against "~" fun base => compareSemver version base != .lt &&
      compareSemver version ⟨base.major, succ base.minor, 0⟩ == .lt
  else if hasPrefix constraint ">=" then against ">=" (compareSemver version · != .lt)
  else if hasPrefix constraint "<=" then against "<=" (compareSemver version · != .gt)
  else if hasPrefix constraint ">" then against ">" (compareSemver version · == .gt)
  else if hasPrefix constraint "<" then against "<" (compareSemver version · == .lt)
  else against "" (compareSemver version · == .eq)

def matchesConstraint (version constraint : String) : Bool :=
  (parseSemver version).any fun v => (stringsSplit ',' constraint).all fun raw =>
    trimSpace raw == "" || matchesOne v (trimSpace raw)

def normalizeTagVersion (tag : String) : Option String :=
  if (parseSemver (trimPrefix tag "v")).isSome then some (trimPrefix tag "v") else none

/-- The version and the commit of a line of `git ls-remote --tags`. -/
def tagOfLine (line : String) : Option (String × String) :=
  match fields line with
  | [commit, ref] =>
    if hasPrefix ref "refs/tags/" then
      (normalizeTagVersion (trimSuffix (trimPrefix ref "refs/tags/") "^\x7b\x7d")).map (·, commit)
    else none
  | _ => none

def listedTags (out : String) : List (String × String) :=
  (stringsSplit '\n' (trimSpace out)).filterMap tagOfLine

def listRemoteTags (out : String) : Table String String :=
  .ofList (listedTags out)

inductive ResolveError
  | emptySHA
  | listing
  | noSemverTags
  | noMatch
  deriving DecidableEq

structure ResolvedVersion where
  version : String
  commit : String
  deriving DecidableEq

/-- The resolution, by the output of `git` and the order in which the sorting leaves the tags. -/
def resolveVersion (output : Option String) (versions : List String) (constraint : String) :
    Except ResolveError ResolvedVersion :=
  if hasPrefix constraint "sha:" then
    if trimPrefix constraint "sha:" = "" then .error .emptySHA
    else .ok ⟨constraint, trimPrefix constraint "sha:"⟩
  else
    match output with
    | none => .error .listing
    | some out =>
      let tags := listRemoteTags out
      if tags.keys = ∅ then .error .noSemverTags
      else
        match versions.find? fun version =>
            constraint == "" || matchesConstraint version constraint with
        | some version => .ok ⟨version, tags.getD version ""⟩
        | none => .error .noMatch

/-- The sorting may leave the keys of the map so: the iteration starts from any order, and the
sorting tells only versions apart. -/
structure Sorts (tags : Table String String) (versions : List String) : Prop where
  nodup : versions.Nodup
  keys : versions.toFinset = tags.keys
  sorted : versions.Pairwise fun v w =>
    compareSemver (mustParseSemver w) (mustParseSemver v) ≠ .gt

/-- The constraint accepts a tag.  A constraint on the commit accepts none. -/
def accepts (constraint version : String) : Bool :=
  !hasPrefix constraint "sha:" && (constraint == "" || matchesConstraint version constraint)

/-- An accepted version of the listing such that none is larger. -/
def Highest (out constraint v : String) : Prop :=
  (∃ tag ∈ listedTags out, tag.1 = v) ∧ accepts constraint v = true ∧
    ∀ tag ∈ listedTags out, accepts constraint tag.1 = true →
      compareSemver (mustParseSemver tag.1) (mustParseSemver v) ≠ .gt

def Semver.rank (v : Semver) : ℤ ×ₗ ℤ ×ₗ ℤ := toLex (v.major, toLex (v.minor, v.patch))

theorem compareSemver_ne_gt {a b : Semver} : compareSemver a b ≠ .gt ↔ a.rank ≤ b.rank := by
  simp only [compareSemver, Semver.rank, Prod.Lex.le_iff, ofLex_toLex]
  split_ifs with hmajor hminor <;> rw [Ne, compare_gt_iff_gt] <;> omega

variable {out constraint v w : String} {versions : List String}

theorem Sorts.mem (h : Sorts (listRemoteTags out) versions) :
    v ∈ versions ↔ ∃ tag ∈ listedTags out, tag.1 = v := by
  rw [← mem_toFinset, h.keys, listRemoteTags, Table.mem_keys_ofList, mem_map]

theorem eq_or_rel_of_find? {r : String → String → Prop} {p : String → Bool} {l : List String}
    (hl : l.Pairwise r) (hv : l.find? p = some v) (hw : w ∈ l) (hp : p w = true) :
    w = v ∨ r v w := by
  obtain ⟨-, before, after, rfl, hbefore⟩ := find?_eq_some_iff_append.mp hv
  rcases mem_append.mp hw with hw | hw
  · have := hbefore w hw
    rw [hp] at this
    cases this
  · exact (mem_cons.mp hw).imp_right ((pairwise_cons.mp (pairwise_append.mp hl).2.1).1 w)

/-- The first accepted version in order is a highest one. -/
theorem Sorts.highest (h : Sorts (listRemoteTags out) versions)
    (hv : versions.find? (accepts constraint) = some v) : Highest out constraint v := by
  refine ⟨h.mem.mp (mem_of_find?_eq_some hv), find?_some hv, ?_⟩
  intro tag htag haccepts
  rcases eq_or_rel_of_find? h.sorted hv (h.mem.mpr ⟨tag, htag, rfl⟩) haccepts with heq | hle
  · rw [heq, compareSemver_ne_gt]
  · exact hle

/-- Some order of the sorting puts a given highest version before the other ones. -/
theorem exists_sorts (hv : Highest out constraint v) :
    ∃ versions, Sorts (listRemoteTags out) versions ∧
      versions.find? (accepts constraint) = some v := by
  let key := fun w : String =>
    toLex (OrderDual.toDual (mustParseSemver w).rank, if w = v then 0 else 1)
  have total : Std.Total fun a b => key a ≤ key b := ⟨fun a b => le_total (key a) (key b)⟩
  have trans : IsTrans String fun a b => key a ≤ key b := ⟨fun a b c => le_trans⟩
  let versions := insertionSort (fun a b => key a ≤ key b) (listRemoteTags out).keys.toList
  have hkeys : versions.Pairwise fun a b => key a ≤ key b := pairwise_insertionSort _ _
  have hsorts : Sorts (listRemoteTags out) versions := by
    refine ⟨(perm_insertionSort _ _).nodup_iff.mpr (Finset.nodup_toList _), ?_, ?_⟩
    · ext w
      simp [versions]
    · refine hkeys.imp fun hab => compareSemver_ne_gt.mpr ?_
      rcases Prod.Lex.le_iff.mp hab with hlt | ⟨heq, -⟩
      · exact le_of_lt hlt
      · exact le_of_eq heq.symm
  have hmem := hsorts.mem.mpr hv.1
  refine ⟨versions, hsorts, ?_⟩
  cases hfind : versions.find? (accepts constraint) with
  | none => exact absurd hv.2.1 (find?_eq_none.mp hfind v hmem)
  | some w =>
    rcases eq_or_rel_of_find? hkeys hfind hmem hv.2.1 with rfl | hle
    · rfl
    · obtain ⟨⟨tag, htag, rfl⟩, hw, -⟩ := hsorts.highest hfind
      have hrank := compareSemver_ne_gt.mp (hv.2.2 tag htag hw)
      rcases Prod.Lex.le_iff.mp hle with hlt | ⟨-, hle⟩
      · exact absurd hrank (not_le_of_gt hlt)
      · by_contra hne
        simp [key, show tag.1 ≠ v from fun h => hne (congrArg some h)] at hle

theorem resolveVersion_eq (hsha : hasPrefix constraint "sha:" = false) :
    resolveVersion (some out) versions constraint =
      if (listRemoteTags out).keys = ∅ then .error .noSemverTags
      else (versions.find? (accepts constraint)).elim (.error .noMatch) fun version =>
        .ok ⟨version, (listRemoteTags out).getD version ""⟩ := by
  have haccepts : accepts constraint = fun version =>
      constraint == "" || matchesConstraint version constraint := by
    funext version
    simp [accepts, hsha]
  simp only [resolveVersion, hsha, haccepts, Bool.false_eq_true, if_false]
  congr 1
  split <;> simp [*]

theorem Sorts.find?_eq_some (h : Sorts (listRemoteTags out) versions)
    (hunique : ∀ v w, Highest out constraint v → Highest out constraint w → v = w)
    (hv : Highest out constraint v) : versions.find? (accepts constraint) = some v := by
  cases hfind : versions.find? (accepts constraint) with
  | none => exact absurd hv.2.1 (find?_eq_none.mp hfind v (h.mem.mpr hv.1))
  | some w => rw [hunique v w hv (h.highest hfind)]

/-- All orders of the map and of the sorting resolve a constraint to one version and one commit, of
a highest tag, exactly when the highest tags that it accepts are spelled alike. -/
theorem resolveVersion_deterministic_iff (out constraint : String) :
    (∀ versions versions', Sorts (listRemoteTags out) versions →
      Sorts (listRemoteTags out) versions' →
      resolveVersion (some out) versions constraint =
        resolveVersion (some out) versions' constraint ∧
      ∀ r, resolveVersion (some out) versions constraint = .ok r →
        ∀ tag ∈ listedTags out, accepts constraint tag.1 = true →
          compareSemver (mustParseSemver tag.1) (mustParseSemver r.version) ≠ .gt) ↔
    ∀ v w, Highest out constraint v → Highest out constraint w → v = w := by
  constructor
  · intro h v w hv hw
    have hsha : hasPrefix constraint "sha:" = false := by
      have := hv.2.1
      simp only [accepts, Bool.and_eq_true] at this
      simpa using this.1
    have hkeys : (listRemoteTags out).keys ≠ ∅ := by
      apply Finset.ne_empty_of_mem
      rw [listRemoteTags, Table.mem_keys_ofList, mem_map]
      exact hv.1
    obtain ⟨versions, hs, hfind⟩ := exists_sorts hv
    obtain ⟨versions', hs', hfind'⟩ := exists_sorts hw
    have heq := (h versions versions' hs hs').1
    rw [resolveVersion_eq hsha, resolveVersion_eq hsha, if_neg hkeys, if_neg hkeys, hfind,
      hfind'] at heq
    exact congrArg ResolvedVersion.version (Except.ok.inj heq)
  · intro hunique versions versions' hs hs'
    by_cases hsha : hasPrefix constraint "sha:" = true
    · simp [resolveVersion, accepts, hsha]
    · rw [Bool.not_eq_true] at hsha
      have hsame : versions.find? (accepts constraint) =
          versions'.find? (accepts constraint) :=
        Option.ext fun v => ⟨fun h => hs'.find?_eq_some hunique (hs.highest h),
          fun h => hs.find?_eq_some hunique (hs'.highest h)⟩
      rw [resolveVersion_eq hsha, resolveVersion_eq hsha, ← hsame]
      refine ⟨rfl, ?_⟩
      intro r hr
      split_ifs at hr
      cases hfind : versions.find? (accepts constraint) with
      | none =>
        rw [hfind] at hr
        cases hr
      | some v =>
        rw [hfind] at hr
        cases hr
        exact (hs.highest hfind).2.2

def twoSpellings : String := "c1 refs/tags/v1.0\nc2 refs/tags/v1.0.0"

/-- A tag of two components and one of three have the same version and different commits. -/
theorem resolution_depends_on_order :
    ∃ versions versions', Sorts (listRemoteTags twoSpellings) versions ∧
      Sorts (listRemoteTags twoSpellings) versions' ∧
      resolveVersion (some twoSpellings) versions "" = .ok ⟨"1.0", "c1"⟩ ∧
      resolveVersion (some twoSpellings) versions' "" = .ok ⟨"1.0.0", "c2"⟩ := by
  refine ⟨["1.0", "1.0.0"], ["1.0.0", "1.0"], ⟨?_, ?_, ?_⟩, ⟨?_, ?_, ?_⟩, ?_, ?_⟩ <;>
    decide +kernel

end GasCity.Packman
