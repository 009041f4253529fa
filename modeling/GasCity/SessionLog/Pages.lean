import Mathlib.Data.Int.Notation
import Mathlib.Data.List.Nodup

/-! # Pages of a transcript

A page is cut at compaction boundaries from the entries before a cursor.  Read from the
newest page back to the oldest, the pages make up the whole transcript.
-/

namespace GasCity.SessionLog

open List

structure Entry where
  uuid : String
  type : String := ""
  subtype : String := ""
deriving DecidableEq

def Entry.isCompactBoundary (e : Entry) : Bool :=
  e.type == "system" && e.subtype == "compact_boundary"

structure PaginationInfo where
  hasOlderMessages : Bool
  hasNewerMessages : Bool
  totalMessageCount : ℕ
  returnedMessageCount : ℕ
  truncatedBeforeMessage : String
  totalCompactions : ℕ
deriving DecidableEq

structure Session where
  messages : List Entry
  pagination : Option PaginationInfo := none
deriving DecidableEq

inductive CursorDirection where
  | before
  | after
deriving DecidableEq

inductive PageError where
  | nilSession
  | bothCursors
  | duplicateEntryID (id : String)
  | cursorNotFound (direction : CursorDirection) (id : String)
deriving DecidableEq

/-- Where the entries before the cursor end. -/
def endOffset (messages : List Entry) (beforeMessageID : String) : ℕ :=
  if beforeMessageID = "" then messages.length
  else messages.findIdx (·.uuid = beforeMessageID)

/-- Where the entries after the cursor start. -/
def startOffset (working : List Entry) (afterMessageID : String) : ℕ :=
  if afterMessageID ≠ "" ∧ afterMessageID ∈ working.map Entry.uuid then
    working.findIdx (·.uuid = afterMessageID) + 1
  else 0

def compactIndices (working : List Entry) : List ℕ :=
  (range working.length).filter fun i => working[i]?.any Entry.isCompactBoundary

/-- The boundary to cut at, unless everything is returned. -/
def sliceFrom (working : List Entry) (tailCompactions : ℤ) : Option ℕ :=
  let indices := compactIndices working
  if tailCompactions ≤ 0 ∨ indices.length ≤ tailCompactions then none
  else indices[indices.length - tailCompactions.toNat]?

def sliceAtCompactBoundaries (messages : List Entry) (tailCompactions : ℤ)
    (beforeMessageID afterMessageID : String) : List Entry × PaginationInfo :=
  let stop := endOffset messages beforeMessageID
  let start := startOffset (messages.take stop) afterMessageID
  let working := (messages.take stop).drop start
  let cut := sliceFrom working tailCompactions
  let sliced := working.drop (cut.getD 0)
  (sliced,
    { hasOlderMessages := 0 < start + cut.getD 0
      hasNewerMessages := stop < messages.length
      totalMessageCount := messages.length
      returnedMessageCount := sliced.length
      truncatedBeforeMessage := if cut.isSome then (sliced.head?.map Entry.uuid).getD "" else ""
      totalCompactions := if tailCompactions ≤ 0 then 0 else (compactIndices working).length })

def uniqueEntryIDs : List Entry → List String → Except PageError (List String)
  | [], seen => .ok seen
  | e :: es, seen =>
    if e.uuid = "" then uniqueEntryIDs es seen
    else if e.uuid ∈ seen then .error (.duplicateEntryID e.uuid)
    else uniqueEntryIDs es (e.uuid :: seen)

def paginateSession (session : Option Session) (tailCompactions : ℤ)
    (beforeEntryID afterEntryID : String) : Except PageError Session := do
  let some session := session | .error .nilSession
  if beforeEntryID ≠ "" ∧ afterEntryID ≠ "" then .error .bothCursors
  let seen ← uniqueEntryIDs session.messages []
  let direction := if afterEntryID ≠ "" then CursorDirection.after else .before
  let cursor := if afterEntryID ≠ "" then afterEntryID else beforeEntryID
  if cursor ≠ "" ∧ cursor ∉ seen then .error (.cursorNotFound direction cursor)
  let (paginated, info) := sliceAtCompactBoundaries session.messages tailCompactions
    beforeEntryID afterEntryID
  return { messages := paginated, pagination := some info }

def pageSession (session : Option Session) : ℤ → String → String → Except PageError Session :=
  paginateSession (session.map fun s => { s with pagination := none })

/-- The page before the cursor, and while older messages are reported the page before its first
entry.  The newest page comes first. -/
def readPages (session : Session) (tailCompactions : ℤ) : ℕ → String → Option (List Session)
  | 0, _ => none
  | fuel + 1, before =>
    match pageSession session tailCompactions before "" with
    | .error _ => none
    | .ok page =>
      if page.pagination.any PaginationInfo.hasOlderMessages then do
        let first ← page.messages.head?
        let older ← readPages session tailCompactions fuel first.uuid
        some (page :: older)
      else some [page]

/-- The flags of a page say whether there are entries of the transcript on either side of it. -/
def Flagged (messages : List Entry) (page : Session) : Prop :=
  ∃ older newer, messages = older ++ page.messages ++ newer ∧ ∃ info ∈ page.pagination,
    (info.hasOlderMessages ↔ older ≠ []) ∧ (info.hasNewerMessages ↔ newer ≠ [])

theorem startOffset_le (working : List Entry) (id : String) :
    startOffset working id ≤ working.length := by
  unfold startOffset
  split
  · next h =>
    obtain ⟨e, he, hid⟩ := mem_map.mp h.2
    exact findIdx_lt_length_of_exists ⟨e, he, by simpa using hid⟩
  · exact Nat.zero_le _

theorem sliceFrom_le (working : List Entry) (k : ℤ) :
    (sliceFrom working k).getD 0 ≤ working.length - 1 := by
  cases hcut : sliceFrom working k with
  | none => exact Nat.zero_le _
  | some i =>
    simp only [sliceFrom, Option.ite_none_left_eq_some] at hcut
    exact Nat.le_sub_one_of_lt (mem_range.mp (mem_filter.mp (mem_of_getElem? hcut.2)).1)

/-- The entries before the cursor are those before the page and those of the page, which holds one
if it is not cut at its start. -/
theorem slice_spec (messages : List Entry) (k : ℤ) (before after : String) :
    ∃ older page info, sliceAtCompactBoundaries messages k before after = (page, info) ∧
      messages.take (endOffset messages before) = older ++ page ∧
      (info.hasOlderMessages ↔ older ≠ []) ∧
      info.hasNewerMessages = decide (endOffset messages before < messages.length) ∧
      (after = "" → older ++ page ≠ [] → page ≠ []) := by
  unfold sliceAtCompactBoundaries
  dsimp only
  generalize messages.take (endOffset messages before) = entries
  have hstart := startOffset_le entries after
  have hcut := sliceFrom_le (entries.drop (startOffset entries after)) k
  rw [length_drop] at hcut
  generalize sliceFrom (entries.drop (startOffset entries after)) k = cut at hcut ⊢
  refine ⟨entries.take (startOffset entries after + cut.getD 0), _, _, rfl, ?_, ?_, rfl, ?_⟩
  · rw [drop_drop, take_append_drop]
  · rw [decide_eq_true_eq, ne_eq, take_eq_nil_iff, not_or, ← length_eq_zero_iff]
    omega
  · rintro rfl h
    have hzero : startOffset entries "" = 0 := if_neg (by simp)
    rw [drop_drop, take_append_drop, ← length_pos_iff] at h
    rw [drop_drop, ne_eq, drop_eq_nil_iff]
    omega

theorem pageSession_flagged {session page : Session} {k : ℤ} {before after : String}
    (h : pageSession session k before after = .ok page) : Flagged session.messages page := by
  simp [pageSession, paginateSession, bind, Except.bind, pure, Except.pure] at h
  generalize (if after = "" then before else after) = cursor at h
  split at h
  · cases h
  · split at h
    · cases h
    · split at h
      · cases h
      · obtain ⟨older, entries, info, hslice, htake, holder, hnewer, -⟩ :=
          slice_spec session.messages k before after
        rw [hslice] at h
        cases h
        refine ⟨older, session.messages.drop (endOffset session.messages before), ?_, info, rfl,
          holder, ?_⟩
        · rw [← htake, take_append_drop]
        · rw [hnewer, decide_eq_true_eq, ne_eq, drop_eq_nil_iff, Nat.not_le]

theorem uniqueEntryIDs_eq {es : List Entry} {seen : List String} (hid : ∀ e ∈ es, e.uuid ≠ "")
    (h : (es.map Entry.uuid ++ seen).Nodup) :
    uniqueEntryIDs es seen = .ok ((es.map Entry.uuid).reverse ++ seen) := by
  induction es generalizing seen with
  | nil => rfl
  | cons e es ih =>
    rw [forall_mem_cons] at hid
    rw [map_cons, cons_append] at h
    have hseen : e.uuid ∉ seen := fun hmem => (nodup_cons.mp h).1 (mem_append_right _ hmem)
    rw [uniqueEntryIDs, if_neg hid.1, if_neg hseen, ih hid.2 (nodup_middle.mpr h)]
    simp

section Pages

variable {session : Session} {k : ℤ} (hid : ∀ e ∈ session.messages, e.uuid ≠ "")
  (hnodup : (session.messages.map Entry.uuid).Nodup)
include hid hnodup

theorem pageSession_eq {before : String}
    (h : before = "" ∨ before ∈ session.messages.map Entry.uuid) :
    pageSession session k before "" = .ok
      ⟨(sliceAtCompactBoundaries session.messages k before "").1,
        some (sliceAtCompactBoundaries session.messages k before "").2⟩ := by
  rw [← append_nil (session.messages.map Entry.uuid)] at hnodup
  have hseen := uniqueEntryIDs_eq hid hnodup
  simp [pageSession, paginateSession, hseen, bind, Except.bind, pure, Except.pure]
  exact fun hne => mem_map.mp (h.resolve_left hne)

theorem endOffset_middle {l r : List Entry} {e : Entry} (h : session.messages = l ++ e :: r) :
    session.messages.take (endOffset session.messages e.uuid) = l := by
  rw [h] at hid hnodup ⊢
  rw [map_append, map_cons, nodup_append] at hnodup
  have hl : ∀ x ∈ l, x.uuid ≠ e.uuid := fun x hx =>
    hnodup.2.2 _ (mem_map_of_mem hx) _ (mem_cons_self ..)
  have hidx : (l ++ e :: r).findIdx (·.uuid = e.uuid) = l.length := by
    rw [findIdx_append, findIdx_eq_length.mpr (by simpa using hl)]
    simp [findIdx_cons]
  rw [endOffset, if_neg (hid e (by simp)), hidx, take_left]

/-- The pages before a cursor are the entries before it. -/
theorem readPages_before (fuel : ℕ) (before : String)
    (hbefore : before = "" ∨ before ∈ session.messages.map Entry.uuid)
    (hfuel : (session.messages.take (endOffset session.messages before)).length < fuel) :
    ∃ pages, readPages session k fuel before = some pages ∧
      pages.reverse.flatMap Session.messages =
        session.messages.take (endOffset session.messages before) := by
  induction fuel generalizing before with
  | zero => exact absurd hfuel (Nat.not_lt_zero _)
  | succ fuel ih =>
    obtain ⟨older, page, info, hslice, htake, holder, -, hne⟩ :=
      slice_spec session.messages k before ""
    rw [htake] at hfuel ⊢
    simp only [readPages, pageSession_eq hid hnodup hbefore, hslice, Option.any_some, holder]
    by_cases hnil : older = []
    · rw [if_neg (not_not.mpr hnil), hnil]
      exact ⟨[⟨page, some info⟩], rfl, by simp⟩
    · obtain ⟨first, rest, rfl⟩ := exists_cons_of_ne_nil (hne rfl (by simp [hnil]))
      have hmid : session.messages = older ++ first ::
          (rest ++ session.messages.drop (endOffset session.messages before)) := by
        rw [← cons_append, ← append_assoc, ← htake, take_append_drop]
      have hlast := endOffset_middle hid hnodup hmid
      obtain ⟨pages, hpages, hall⟩ := ih first.uuid
        (.inr (mem_map_of_mem (by rw [hmid]; simp))) (by rw [hlast]; simp at hfuel; omega)
      refine ⟨⟨first :: rest, some info⟩ :: pages, by simp [hnil, hpages], ?_⟩
      simp [hall, hlast]

end Pages

/-- Paging back from the newest page ends and gives every entry once, and the flags of every page
say what lies outside it. -/
theorem readPages_complete (session : Session) (hid : ∀ e ∈ session.messages, e.uuid ≠ "")
    (hnodup : (session.messages.map Entry.uuid).Nodup) (k : ℤ) :
    (∀ fuel > session.messages.length, ∃ pages, readPages session k fuel "" = some pages ∧
      pages.reverse.flatMap Session.messages = session.messages) ∧
    ∀ before after page, pageSession session k before after = .ok page →
      Flagged session.messages page := by
  constructor
  · intro fuel hfuel
    have hall : session.messages.take (endOffset session.messages "") = session.messages := by
      rw [endOffset, if_pos rfl, take_length]
    have h := readPages_before (k := k) hid hnodup fuel "" (.inl rfl)
    rw [hall] at h
    exact h hfuel
  · exact fun _ _ _ => pageSession_flagged

def compacted : Session where
  messages := [⟨"a", "user", ""⟩, ⟨"b", "system", "compact_boundary"⟩, ⟨"c", "user", ""⟩,
    ⟨"d", "system", "compact_boundary"⟩]

theorem readPages_complete_compacted : ∃ pages, readPages compacted 1 5 "" = some pages ∧
    pages.reverse.flatMap Session.messages = compacted.messages :=
  (readPages_complete compacted (by decide) (by decide) 1).1 5 (by decide)

example : (readPages compacted 1 5 "").map length = some 2 := by
  decide

end GasCity.SessionLog
