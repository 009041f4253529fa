import GasCity.Keyed.List
import GasCity.Sorted.List
import GasCity.Sorted.Paging
import GasCity.Text.Trim

/-! # Transcripts of external conversations

A transcript entry and the counter for the next sequence number are two writes of the store.
The model has one conversation, which is never hydrated, and an append may stop before each of
its writes.
-/

namespace GasCity.ExtMsg

open List

/-- A transcript entry; its bucket label is computed from its sequence number. -/
structure Record where
  id : String
  sequence : ℕ
  providerMessageID : String
  deriving DecidableEq

/-- The entries in the order of their creation, and the counter once the state bead exists. -/
structure Transcript where
  records : List Record := []
  nextSequence : Option ℕ := none
  deriving DecidableEq

/-- An append, the id that the store gives to its entry, and which of its writes go through. -/
structure Append where
  providerMessageID : String := ""
  id : String
  createState : Bool := true
  createEntry : Bool := true
  updateState : Bool := true
  deriving DecidableEq

def transcriptBucket (sequence : ℕ) : ℕ := (sequence - 1) / 64

def clampTranscriptLimit (limit : ℤ) : ℕ :=
  if limit ≤ 0 then 100 else if 500 < limit then 500 else limit.toNat

namespace Transcript

def byProviderMessage (t : Transcript) (providerMessageID : String) : List Record :=
  t.records.filter (·.providerMessageID = providerMessageID)

/-- Append to a conversation whose state bead exists; the answer is missing when it fails. -/
def appendEntry (t : Transcript) (sequence : ℕ) (a : Append) : Transcript × Option Record :=
  let providerMessageID := trimSpace a.providerMessageID
  match if providerMessageID ≠ "" then t.byProviderMessage providerMessageID else [] with
  | [existing] => (t, some existing)
  | _ :: _ :: _ => (t, none)
  | [] =>
    let entry : Record := ⟨a.id, sequence, providerMessageID⟩
    if !a.createEntry then (t, none)
    else if !a.updateState then ({ t with records := t.records ++ [entry] }, none)
    else ({ records := t.records ++ [entry], nextSequence := some (sequence + 1) }, some entry)

def append (t : Transcript) (a : Append) : Transcript × Option Record :=
  match t.nextSequence with
  | some sequence => t.appendEntry sequence a
  | none =>
    if a.createState then ({ t with nextSequence := some 1 } : Transcript).appendEntry 1 a
    else (t, none)

def run (as : List Append) : Transcript := as.foldl (fun t a => (t.append a).1) {}

/-- The entries of a bucket behind a sequence number, by sequence number and id. -/
def bucketRecords (t : Transcript) (after bucket : ℕ) : List Record :=
  (t.records.filter fun r =>
      after < r.sequence ∧ transcriptBucket r.sequence = bucket).insertionSort fun r s =>
    r.sequence < s.sequence ∨ r.sequence = s.sequence ∧ r.id ≤ s.id

def collect (bucketOf : ℕ → List Record) (limit : ℕ) : List ℕ → List Record → List Record
  | [], records => records
  | bucket :: rest, records =>
    if records.length < limit then
      collect bucketOf limit rest ((records ++ bucketOf bucket).take limit)
    else records

def list (t : Transcript) (after : ℕ) (limit : ℤ) : List Record :=
  match t.nextSequence with
  | none => []
  | some next =>
    if next ≤ 1 then []
    else if next - 1 < after + 1 then []
    else
      let startBucket := transcriptBucket (after + 1)
      let endBucket := transcriptBucket (next - 1)
      collect (t.bucketRecords after) (clampTranscriptLimit limit)
        (range' startBucket (endBucket + 1 - startBucket)) []

def pages (t : Transcript) (limit : ℤ) (fuel : ℕ) : List (List Record) :=
  Paging.readPages (fun after => t.list after limit) (fun _ r => r.sequence) isEmpty fuel 0

def Numbered (t : Transcript) : Prop :=
  t.records.map Record.sequence = range' 1 t.records.length ∧
    (t.nextSequence = none ∧ t.records = [] ∨ t.nextSequence = some (t.records.length + 1))

/-- Sequence numbers are unique, and pages of any size hold each entry once and in order. -/
structure Readable (t : Transcript) : Prop where
  unique : (t.records.map Record.sequence).Nodup
  pages (limit : ℤ) (fuel : ℕ) : t.records.length < fuel →
    (t.pages limit fuel).flatten.Perm t.records ∧
      ((t.pages limit fuel).flatten.map Record.sequence).Pairwise (· < ·) ∧
      [] ∈ (t.pages limit fuel).getLast?

variable {t : Transcript} {a : Append}

theorem Numbered.appendEntry {sequence : ℕ} (h : t.Numbered)
    (hnext : t.nextSequence = some sequence) (ha : a.createEntry = true → a.updateState = true) :
    (t.appendEntry sequence a).1.Numbered := by
  have hlen : sequence = t.records.length + 1 := by
    rcases h.2 with ⟨hnone, -⟩ | hsome
    · rw [hnone] at hnext
      cases hnext
    · exact Option.some.inj (hnext.symm.trans hsome)
  unfold Transcript.appendEntry
  dsimp only
  split
  · exact h
  · exact h
  · cases hcreate : a.createEntry with
    | false => exact h
    | true =>
      simp only [ha hcreate, Bool.not_true, Bool.false_eq_true, if_false]
      constructor
      · rw [map_append, h.1, map_singleton, length_append, length_singleton, hlen,
          range'_concat]
        simp [Nat.add_comm]
      · right
        rw [hlen, length_append, length_singleton]

theorem Numbered.append (h : t.Numbered) (ha : a.createEntry = true → a.updateState = true) :
    (t.append a).1.Numbered := by
  unfold Transcript.append
  cases hnext : t.nextSequence with
  | some sequence => exact h.appendEntry hnext ha
  | none =>
    split_ifs
    · apply Numbered.appendEntry _ rfl ha
      refine ⟨h.1, .inr ?_⟩
      rcases h.2 with ⟨-, hnil⟩ | hsome
      · rw [hnil]
        rfl
      · rw [hnext] at hsome
        cases hsome
    · exact h

theorem numbered_run {as : List Append}
    (has : ∀ a ∈ as, a.createEntry = true → a.updateState = true) : (run as).Numbered := by
  suffices H : ∀ t : Transcript, t.Numbered →
      (as.foldl (fun t a => (t.append a).1) t).Numbered from
    H {} ⟨rfl, .inl ⟨rfl, rfl⟩⟩
  induction as with
  | nil => exact fun t ht => ht
  | cons a as ih =>
    rw [forall_mem_cons] at has
    exact fun t ht => ih has.2 _ (ht.append has.1)

theorem transcriptBucket_mono {m n : ℕ} (h : m ≤ n) : transcriptBucket m ≤ transcriptBucket n :=
  Nat.div_le_div_right (Nat.sub_le_sub_right h 1)

theorem Numbered.sorted (h : t.Numbered) :
    t.records.Pairwise fun r s => r.sequence < s.sequence := by
  rw [← pairwise_map, h.1]
  exact pairwise_lt_range'

theorem Numbered.sequence_le (h : t.Numbered) {r : Record} (hr : r ∈ t.records) :
    r.sequence ≤ t.records.length := by
  have hmem := mem_map_of_mem (f := Record.sequence) hr
  rw [h.1, mem_range'_1] at hmem
  omega

theorem collect_eq_take (bucketOf : ℕ → List Record) (limit : ℕ) {bs : List ℕ}
    {records : List Record} (h : records.length ≤ limit) :
    collect bucketOf limit bs records = (records ++ bs.flatMap bucketOf).take limit := by
  induction bs generalizing records with
  | nil => rw [collect, flatMap_nil, append_nil, take_of_length_le h]
  | cons b bs ih =>
    rw [collect]
    split_ifs with hlt
    · generalize hall : records ++ bucketOf b = all
      rw [ih (by simp), flatMap_cons, ← append_assoc, hall, take_append, take_take, min_self,
        take_append, length_take]
      congr 2
      omega
    · rw [take_append_of_le_length (by omega), take_of_length_le h]

/-- The buckets from the cursor to the end of the stream hold what is behind the cursor. -/
theorem Numbered.flatMap_bucketRecords (h : t.Numbered) (after : ℕ) :
    (range' (transcriptBucket (after + 1))
        (transcriptBucket t.records.length + 1 - transcriptBucket (after + 1))).flatMap
      (t.bucketRecords after) = t.records.filter (after < ·.sequence) := by
  have hbucket : ∀ b, t.bucketRecords after b =
      (t.records.filter (after < ·.sequence)).filter (transcriptBucket ·.sequence == b) := by
    intro b
    rw [bucketRecords, ((h.sorted.filter _).imp fun hlt => .inl hlt).insertionSort_eq,
      filter_filter]
    apply filter_congr
    intro r _
    rw [Bool.eq_iff_iff]
    simp [and_comm]
  have hin : ∀ r ∈ t.records.filter (after < ·.sequence), decide (transcriptBucket r.sequence ∈
      range' (transcriptBucket (after + 1))
        (transcriptBucket t.records.length + 1 - transcriptBucket (after + 1))) = true := by
    intro r hr
    rw [mem_filter, decide_eq_true_eq] at hr
    have hlow := transcriptBucket_mono (m := after + 1) hr.2
    have hhigh := transcriptBucket_mono (h.sequence_le hr.1)
    rw [decide_eq_true_eq, mem_range'_1]
    omega
  rw [flatMap_congr fun b _ => hbucket b]
  apply @Perm.eq_of_pairwise _ fun r s => r.sequence < s.sequence
  · exact fun r s _ _ hrs hsr => absurd hrs (lt_asymm hsr)
  · rw [pairwise_flatMap]
    constructor
    · exact fun b _ => (h.sorted.filter _).filter _
    · apply Pairwise.imp _ pairwise_lt_range'
      intro b c hbc r hr s hs
      rw [mem_filter, beq_iff_eq] at hr hs
      by_contra hle
      have := transcriptBucket_mono (not_lt.mp hle)
      omega
  · exact h.sorted.filter _
  · conv_rhs => rw [← filter_eq_self.mpr hin]
    exact Keyed.flatMap_filter_perm nodup_range' _

theorem Numbered.list_eq_take (h : t.Numbered) (after : ℕ) (limit : ℤ) :
    t.list after limit =
      (t.records.filter (after < ·.sequence)).take (clampTranscriptLimit limit) := by
  have hnone : t.records.length ≤ after → t.records.filter (after < ·.sequence) = [] := by
    intro hle
    rw [filter_eq_nil_iff]
    intro r hr
    have := h.sequence_le hr
    simp only [decide_eq_true_eq]
    omega
  unfold list
  rcases h.2 with ⟨hnext, hnil⟩ | hnext
  · simp [hnext, hnil]
  · simp only [hnext, Nat.add_sub_cancel]
    split_ifs with hempty hend
    · rw [hnone (by omega), take_nil]
    · rw [hnone (by omega), take_nil]
    · rw [collect_eq_take _ _ (Nat.zero_le _), nil_append, h.flatMap_bucketRecords]

theorem clampTranscriptLimit_pos (limit : ℤ) : 0 < clampTranscriptLimit limit := by
  unfold clampTranscriptLimit
  split_ifs <;> omega

theorem Numbered.filter_behind (h : t.Numbered) {after : ℕ} {r : Record} {before rest : List Record}
    (hsplit : t.records.filter (after < ·.sequence) = before ++ r :: rest) :
    t.records.filter (r.sequence < ·.sequence) = rest := by
  have hsorted := h.sorted.filter (after < ·.sequence)
  have hr : after < r.sequence := by
    have hmem : r ∈ t.records.filter (after < ·.sequence) := by simp [hsplit]
    simpa using (mem_filter.mp hmem).2
  rw [hsplit] at hsorted
  rw [← Sorted.filter_behind (r := fun r s : Record => r.sequence ≤ s.sequence) (t := rest),
    ← hsplit, filter_filter]
  · apply filter_congr
    intro s _
    rw [Bool.eq_iff_iff]
    simp only [Bool.and_eq_true, decide_eq_true_eq]
    omega
  · have hnodup := (pairwise_map.mpr (hsorted.imp ne_of_lt) : (map Record.sequence _).Nodup)
    exact fun s hs s' hs' hle hge => inj_on_of_nodup_map hnodup hs hs' (le_antisymm hle hge)
  · exact hsorted.imp fun hlt heq => (heq ▸ hlt).false
  · exact hsorted.imp le_of_lt

/-- A run in which an append that creates its entry advances the counter can be read. -/
theorem readable_of_counted {as : List Append}
    (has : ∀ a ∈ as, a.createEntry = true → a.updateState = true) : (run as).Readable := by
  have h := numbered_run has
  constructor
  · rw [h.1]
    exact nodup_range'
  · intro limit fuel hfuel
    have hall : (run as).records.filter (0 < ·.sequence) = (run as).records := by
      rw [filter_eq_self]
      intro r hr
      have hmem := mem_map_of_mem (f := Record.sequence) hr
      rw [h.1, mem_range'_1] at hmem
      exact decide_eq_true hmem.1
    have hshort : ∀ p : List Record, p.isEmpty = true →
        p.length < clampTranscriptLimit limit := by
      intro p hp
      rw [isEmpty_iff.mp hp]
      exact clampTranscriptLimit_pos limit
    obtain ⟨hflat, p, hp, hdone⟩ := Paging.flatten_readPages
      (fun after => (run as).records.filter (after < ·.sequence))
      (fun after => h.list_eq_take after limit)
      (fun after before r rest hsplit => h.filter_behind hsplit)
      hshort rfl (by rwa [hall])
    rw [hall] at hflat
    rw [List.isEmpty_iff] at hdone
    subst hdone
    refine ⟨?_, ?_, hp⟩
    · exact Perm.of_eq hflat
    · unfold pages
      rw [hflat, h.1]
      exact pairwise_lt_range'

/-- An append that stops before it advances the counter, and one behind it. -/
def interrupted : List Append := [{ id := "e1", updateState := false }, { id := "e2" }]

/-- Both entries have the sequence number one, and the second is behind no page of one entry. -/
theorem not_readable_interrupted : ((run interrupted).append { id := "e3" }).2.isSome ∧
      ((run interrupted).records.map Record.sequence = [1, 1]) ∧
      ((run interrupted).pages 1 3).flatten.map Record.id = ["e1"] ∧
      ¬ (run interrupted).Readable := by
  have hrecords : (run interrupted).records.map Record.sequence = [1, 1] := by decide
  refine ⟨by decide, hrecords, by decide, fun h => ?_⟩
  have := h.unique
  rw [hrecords] at this
  exact absurd this (by decide)

theorem readable_retried : (run [{ id := "e1", createEntry := false, updateState := false },
    { id := "e2", providerMessageID := "m" }, { id := "e3", providerMessageID := "m" }]).Readable :=
  readable_of_counted (by decide)

end Transcript

end GasCity.ExtMsg
