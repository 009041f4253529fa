import GasCity.MemStore.Step
import GasCity.Workflow.CloseOrder

/-! # Closing a workflow

A workflow is its root and the beads that name the root in their metadata.  Closing it closes all
of them, in whatever storage tier they are, and metadata for the root alone is written when every
other bead is closed.
-/

namespace GasCity.Workflow

open List

/-- An open bead before and after it is closed with metadata.  Some stores write the metadata to a
closed one again. -/
def Closes (kvs : StringMap) (before after : Option Bead) : Prop :=
  ∀ b, before = some b → b.status ≠ "closed" →
    ∃ c, after = some c ∧ c.status = "closed" ∧ c.metadata = b.metadata.merge kvs

/-- The given beads are closed, each with its metadata, and no other bead changes. -/
def ClosesAll (ids : List String) (kvs : String → StringMap)
    (before after : String → Option Bead) : Prop :=
  ∀ id, (id ∈ ids → Closes (kvs id) (before id) (after id)) ∧ (id ∉ ids → after id = before id)

/-- A store whose operations may fail, and do what the interface says when they do not.
`markAndClose` is a transaction that sets metadata on a bead and closes it. -/
structure Backend (σ : Type) where
  find : σ → String → Option Bead
  get : σ → String → Except Err Bead
  list : σ → ListQuery → Except Err (List Bead)
  depList : σ → String → Except Err (List Dep)
  closeAll : σ → List String → StringMap → Except Err (σ × ℕ)
  atomicTx : Bool
  markAndClose : σ → String → StringMap → Except Err σ
  id_of_find : ∀ {s id b}, find s id = some b → b.id = id ∧ id ≠ ""
  find_of_get : ∀ {s id b}, get s id = .ok b → find s id = some b
  mem_list : ∀ {s q rows}, list s q = .ok rows → q.limit = 0 →
    ∀ b, b ∈ rows ↔ find s b.id = some b ∧ q.matches b = true
  closes_closeAll : ∀ {s ids kvs s' n}, closeAll s ids kvs = .ok (s', n) →
    ClosesAll ids (fun _ => kvs) (find s) (find s')
  closes_markAndClose : ∀ {s id kvs s' b}, find s id = some b → b.status ≠ "closed" →
    markAndClose s id kvs = .ok s' → ClosesAll [id] (fun _ => kvs) (find s) (find s')

section Source

variable {σ : Type} (B : Backend σ)

def rootBeadIDMetadataKey : String := "gc.root_bead_id"

def outcomeMetadataKey : String := "gc.outcome"

def liveList (s : σ) (q : ListQuery) : Except Err (List Bead) :=
  B.list s { q with live := true, tierMode := .both }

def memberQuery (rootID : String) : ListQuery :=
  { includeClosed := true, metadata := (∅ : StringMap).set rootBeadIDMetadataKey rootID }

def byID (rows : List Bead) : List Bead :=
  rows.foldr (fun b rest => if rest.any (fun c => c.id == b.id) then rest else b :: rest) []

def listWorkflowBeads (s : σ) (rootID : String) : Except Err (List Bead) :=
  let rootID := trimSpace rootID
  if rootID = "" then .ok []
  else do
    let root ← B.get s rootID
    let descendants ← liveList B s (memberQuery rootID)
    return (byID (root :: descendants)).insertionSort fun a b => a.id ≤ b.id

/-- The open beads of the workflow, deepest first and blockers first. -/
def orderedOpenWorkflowSubtree (asked : List String) (s : σ) (rootID : String) :
    Except Err (List String) := do
  let matched ← listWorkflowBeads B s rootID
  let ids := ((sortByDepth matched asked).filter fun b => b.id ≠ "" && b.status ≠ "closed").map
    (·.id)
  order (B.depList s) ids

def closeRootWithMarker (s : σ) (rootID : String) (rootMeta : StringMap) :
    Except Err (σ × ℕ) :=
  if B.atomicTx = false then B.closeAll s [rootID] rootMeta
  else do
    let current ← B.get s rootID
    if current.status = "closed" then return (s, 0)
    let s' ← B.markAndClose s rootID rootMeta
    return (s', 1)

def baseMeta (outcome reason : String) : StringMap :=
  ((∅ : StringMap).set outcomeMetadataKey outcome).set "close_reason" reason

def closeDescendants (s : σ) (descendants : List String) (kvs : StringMap) :
    Except Err (List σ × σ × ℕ) :=
  if descendants = [] then .ok ([], s, 0)
  else do
    let (s', n) ← B.closeAll s descendants kvs
    return ([s'], s', n)

/-- The stores after each write, and the number of beads that are newly closed. -/
def closeWorkflowSubtreeAs (asked : List String) (s : σ) (rootID outcome reason : String)
    (rootExtra : StringMap) : Except Err (List σ × ℕ) := do
  let ordered ← orderedOpenWorkflowSubtree B asked s rootID
  if ordered = [] then return ([], 0)
  if StringMap.isEmpty rootExtra then
    let (s', n) ← B.closeAll s ordered (baseMeta outcome reason)
    return ([s'], n)
  let rootID := trimSpace rootID
  let (trace, s₁, total) ←
    closeDescendants B s (ordered.filter (· ≠ rootID)) (baseMeta outcome reason)
  if rootID ∈ ordered then
    let (s₂, n) ←
      closeRootWithMarker B s₁ rootID ((baseMeta outcome reason).merge rootExtra)
    return (trace ++ [s₂], total + n)
  return (trace, total)

end Source

section Members

variable {σ : Type} {B : Backend σ} {s : σ} {root : String} {b : Bead}

def Member (root : String) (b : Bead) : Prop :=
  b.id = root ∨ StringMap.val b.metadata rootBeadIDMetadataKey = root

theorem matches_memberQuery :
    ({ memberQuery root with live := true, tierMode := .both } : ListQuery).matches b = true ↔
      StringMap.val b.metadata rootBeadIDMetadataKey = root := by
  have hval : StringMap.val ((∅ : StringMap).set rootBeadIDMetadataKey root)
      rootBeadIDMetadataKey = root := by
    simp [StringMap.val, Table.getD]
  have hkeys : ((∅ : StringMap).set rootBeadIDMetadataKey root).keys = {rootBeadIDMetadataKey} := by
    rfl
  simp [memberQuery, ListQuery.matches, ListQuery.matchesTier, ListQuery.matchesStatus,
    matchesMetadata, StringMap.isEmpty, Time.isZero, Time.zero, hval, hkeys]

variable {rootID : String} {rows : List Bead}

theorem mem_of_mem_byID (h : b ∈ byID rows) : b ∈ rows := by
  induction rows with
  | nil => exact h
  | cons c rows ih =>
    change b ∈ (if (byID rows).any (fun d => d.id == c.id) then byID rows else c :: byID rows) at h
    split_ifs at h
    · exact mem_cons_of_mem c (ih h)
    · rcases mem_cons.mp h with rfl | h
      · exact mem_cons_self
      · exact mem_cons_of_mem c (ih h)

theorem exists_mem_byID (h : b ∈ rows) : ∃ c ∈ byID rows, c.id = b.id := by
  induction rows with
  | nil => cases h
  | cons d rows ih =>
    change ∃ c ∈ (if (byID rows).any (fun c => c.id == d.id) then byID rows else d :: byID rows),
      c.id = b.id
    rcases mem_cons.mp h with rfl | h
    · split_ifs with hany
      · obtain ⟨c, hc, heq⟩ := any_eq_true.mp hany
        exact ⟨c, hc, beq_iff_eq.mp heq⟩
      · exact ⟨b, mem_cons_self, rfl⟩
    · obtain ⟨c, hc, heq⟩ := ih h
      split_ifs
      · exact ⟨c, hc, heq⟩
      · exact ⟨c, mem_cons_of_mem d hc, heq⟩

theorem mem_listWorkflowBeads (hroot : trimSpace rootID ≠ "")
    (h : listWorkflowBeads B s rootID = .ok rows) :
    (∃ r, B.find s (trimSpace rootID) = some r) ∧
      ∀ b, b ∈ rows ↔ B.find s b.id = some b ∧ Member (trimSpace rootID) b := by
  unfold listWorkflowBeads at h
  simp only [if_neg hroot] at h
  obtain ⟨r, hget, h⟩ := bind_eq_ok.mp h
  obtain ⟨descendants, hlist, h⟩ := bind_eq_ok.mp h
  cases h
  have hr := B.find_of_get hget
  have hid := (B.id_of_find hr).1
  have hmem := B.mem_list hlist rfl
  have hrows : ∀ c ∈ r :: descendants, B.find s c.id = some c ∧ Member (trimSpace rootID) c := by
    intro c hc
    rcases mem_cons.mp hc with rfl | hc
    · exact ⟨by rw [hid]; exact hr, .inl hid⟩
    · obtain ⟨hfind, hmatch⟩ := (hmem c).mp hc
      exact ⟨hfind, .inr (matches_memberQuery.mp hmatch)⟩
  refine ⟨⟨r, hr⟩, ?_⟩
  intro b
  rw [(perm_insertionSort _ _).mem_iff]
  constructor
  · intro hb
    exact hrows b (mem_of_mem_byID hb)
  · rintro ⟨hfind, hmember⟩
    have hb : b ∈ r :: descendants := by
      rcases hmember with hroot' | hmeta
      · rw [hroot', hr] at hfind
        cases hfind
        exact mem_cons_self
      · exact mem_cons_of_mem r ((hmem b).mpr ⟨hfind, matches_memberQuery.mpr hmeta⟩)
    obtain ⟨c, hc, hcid⟩ := exists_mem_byID hb
    have hcfind := (hrows c (mem_of_mem_byID hc)).1
    rw [hcid, hfind] at hcfind
    cases hcfind
    exact hc

theorem mem_orderedOpenWorkflowSubtree {asked ordered : List String} (hroot : trimSpace rootID ≠ "")
    (h : orderedOpenWorkflowSubtree B asked s rootID = .ok ordered) :
    (∃ r, B.find s (trimSpace rootID) = some r) ∧
      ∀ id, id ∈ ordered ↔ ∃ b, B.find s id = some b ∧ Member (trimSpace rootID) b ∧
        b.status ≠ "closed" := by
  obtain ⟨rows, hrows, h⟩ := bind_eq_ok.mp h
  obtain ⟨hr, hmem⟩ := mem_listWorkflowBeads hroot hrows
  refine ⟨hr, ?_⟩
  intro id
  rw [(order_perm h).mem_iff, mem_map]
  constructor
  · rintro ⟨b, hb, rfl⟩
    obtain ⟨hb, hopen⟩ := mem_filter.mp hb
    obtain ⟨hfind, hmember⟩ := (hmem b).mp ((perm_insertionSort _ _).mem_iff.mp hb)
    rw [Bool.and_eq_true, decide_eq_true_eq, decide_eq_true_eq] at hopen
    exact ⟨b, hfind, hmember, hopen.2⟩
  · rintro ⟨b, hfind, hmember, hopen⟩
    obtain ⟨hid, hne⟩ := B.id_of_find hfind
    refine ⟨b, mem_filter.mpr ⟨?_, ?_⟩, hid⟩
    · rw [sortByDepth, (perm_insertionSort _ _).mem_iff, hmem b, hid]
      exact ⟨hfind, hmember⟩
    · rw [Bool.and_eq_true, decide_eq_true_eq, decide_eq_true_eq, hid]
      exact ⟨hne, hopen⟩

end Members

section Closing

variable {σ : Type} {B : Backend σ} {s s₁ s₂ : σ} {root : String}
  {before between after : String → Option Bead}

variable {ids ordered : List String} {kvs : String → StringMap} {n : ℕ}
  {rootExtra rootMeta : StringMap} {trace : List σ}

theorem ClosesAll.nil : ClosesAll [] kvs before before :=
  fun _ => ⟨fun h => absurd h not_mem_nil, fun _ => rfl⟩

theorem ClosesAll.root_last {base : StringMap}
    (hids : ∀ id, id ∈ ids ↔ id ∈ ordered ∧ id ≠ root) (hroot : root ∈ ordered)
    (h : ClosesAll ids (fun _ => base) before between)
    (h' : ClosesAll [root] (fun _ => rootMeta) between after) :
    ClosesAll ordered (fun id => if id = root then rootMeta else base) before after := by
  intro id
  by_cases hid : id = root
  · subst hid
    have hsame := (h id).2 fun hmem => ((hids id).mp hmem).2 rfl
    have hcloses := (h' id).1 (mem_singleton_self id)
    rw [hsame] at hcloses
    dsimp only
    rw [if_pos rfl]
    exact ⟨fun _ => hcloses, fun hmem => absurd hroot hmem⟩
  · dsimp only
    rw [if_neg hid, (h' id).2 (mt mem_singleton.mp hid)]
    constructor
    · intro hmem
      exact (h id).1 ((hids id).mpr ⟨hmem, hid⟩)
    · intro hmem
      exact (h id).2 fun hin => hmem ((hids id).mp hin).1

theorem closesAll_closeDescendants {kvs : StringMap}
    (h : closeDescendants B s ids kvs = .ok (trace, s₁, n)) :
    ClosesAll ids (fun _ => kvs) (B.find s) (B.find s₁) ∧
      (∀ t ∈ trace, t = s₁) ∧ trace.getLastD s = s₁ := by
  unfold closeDescendants at h
  split_ifs at h with hids
  · cases h
    subst hids
    exact ⟨.nil, forall_mem_nil _, rfl⟩
  · obtain ⟨⟨s', m⟩, hclose, h⟩ := bind_eq_ok.mp h
    cases h
    exact ⟨B.closes_closeAll hclose, fun t ht => mem_singleton.mp ht, rfl⟩

theorem closesAll_closeRootWithMarker {r : Bead}
    (hr : B.find s root = some r) (hopen : r.status ≠ "closed")
    (h : closeRootWithMarker B s root rootMeta = .ok (s₂, n)) :
    ClosesAll [root] (fun _ => rootMeta) (B.find s) (B.find s₂) := by
  unfold closeRootWithMarker at h
  split_ifs at h
  · exact B.closes_closeAll h
  · obtain ⟨current, hget, h⟩ := bind_eq_ok.mp h
    have hcurrent := B.find_of_get hget
    rw [hr] at hcurrent
    cases hcurrent
    rw [if_neg hopen] at h
    obtain ⟨s', hmark, h⟩ := bind_eq_ok.mp h
    cases h
    exact B.closes_markAndClose hr hopen hmark

/-- The metadata of a close: that of the root has the extra entries. -/
def closeMeta (root outcome reason : String) (rootExtra : StringMap) (id : String) : StringMap :=
  if id = root then (baseMeta outcome reason).merge rootExtra else baseMeta outcome reason

theorem closeMeta_of_isEmpty {outcome reason : String} (h : StringMap.isEmpty rootExtra = true) :
    closeMeta root outcome reason rootExtra = fun _ => baseMeta outcome reason := by
  have hkeys : rootExtra.keys = ∅ := of_decide_eq_true h
  have hmerge : (baseMeta outcome reason).merge rootExtra = baseMeta outcome reason := by
    ext1 k
    have hnone : rootExtra.get k = none := Table.notMem_keys.mp (by simp [hkeys])
    rw [Table.get_merge, hnone, Option.none_or]
  funext id
  rw [closeMeta, hmerge, ite_self]

theorem closesAll_closeWorkflowSubtreeAs {asked : List String} {rootID outcome reason : String}
    (hordered : orderedOpenWorkflowSubtree B asked s rootID = .ok ordered)
    (hopen : ∀ id ∈ ordered, ∃ b, B.find s id = some b ∧ b.status ≠ "closed")
    (h : closeWorkflowSubtreeAs B asked s rootID outcome reason rootExtra = .ok (trace, n)) :
    ClosesAll ordered (closeMeta (trimSpace rootID) outcome reason rootExtra) (B.find s)
        (B.find (trace.getLastD s)) ∧
      (StringMap.isEmpty rootExtra = false → trimSpace rootID ∈ ordered →
        ∀ t ∈ trace, t = trace.getLastD s ∨
          B.find t (trimSpace rootID) = B.find s (trimSpace rootID)) := by
  unfold closeWorkflowSubtreeAs at h
  rw [hordered] at h
  change (if ordered = [] then _ else _) = _ at h
  split_ifs at h with hnil hempty
  · cases h
    subst hnil
    exact ⟨.nil, fun _ hmem => absurd hmem not_mem_nil⟩
  · obtain ⟨⟨s', m⟩, hclose, h⟩ := bind_eq_ok.mp h
    cases h
    rw [closeMeta_of_isEmpty hempty]
    refine ⟨B.closes_closeAll hclose, ?_⟩
    intro hne
    rw [hempty] at hne
    cases hne
  · obtain ⟨⟨first, s₁, total⟩, hdesc, h⟩ := bind_eq_ok.mp h
    obtain ⟨hcloses, hfirst, hlast⟩ := closesAll_closeDescendants hdesc
    have hids : ∀ id, id ∈ ordered.filter (· ≠ trimSpace rootID) ↔
        id ∈ ordered ∧ id ≠ trimSpace rootID := by
      simp
    have hsame : B.find s₁ (trimSpace rootID) = B.find s (trimSpace rootID) :=
      (hcloses _).2 fun hmem => ((hids _).mp hmem).2 rfl
    dsimp only at h
    split_ifs at h with hroot
    · obtain ⟨⟨s₂, m⟩, hmark, h⟩ := bind_eq_ok.mp h
      cases h
      obtain ⟨r, hr, hropen⟩ := hopen _ hroot
      have hrootCloses := closesAll_closeRootWithMarker (hsame.trans hr) hropen hmark
      have hend : (first ++ [s₂]).getLastD s = s₂ := by simp
      rw [hend]
      refine ⟨hcloses.root_last hids hroot hrootCloses, ?_⟩
      intro _ _ t ht
      rcases mem_append.mp ht with ht | ht
      · rw [hfirst t ht]
        exact .inr hsame
      · exact .inl (mem_singleton.mp ht)
    · cases h
      rw [hlast]
      refine ⟨?_, fun _ hmem => absurd hmem hroot⟩
      intro id
      have hmem : id ∈ ordered → id ≠ trimSpace rootID := fun hin heq => hroot (heq ▸ hin)
      constructor
      · intro hin
        rw [closeMeta, if_neg (hmem hin)]
        exact (hcloses id).1 ((hids id).mpr ⟨hin, hmem hin⟩)
      · intro hout
        exact (hcloses id).2 fun hin => hout ((hids id).mp hin).1

/-- Every member is closed, those that were closed before are as they were, the others have the
metadata of their close, and no other bead changes. -/
structure Completed (root : String) (kvs : String → StringMap)
    (before after : String → Option Bead) : Prop where
  root_exists : ∃ r, before root = some r
  closed : ∀ id b, before id = some b → Member root b →
    ∃ c, after id = some c ∧ c.status = "closed"
  kept : ∀ id b, before id = some b → Member root b → b.status = "closed" → after id = some b
  marked : ∀ id b, before id = some b → Member root b → b.status ≠ "closed" →
    ∀ c, after id = some c → c.metadata = b.metadata.merge (kvs id)
  frame : ∀ id, (∀ b, before id = some b → ¬ Member root b) → after id = before id

theorem ClosesAll.completed (hroot : ∃ r, before root = some r) (hordered : ∀ id, id ∈ ordered ↔
      ∃ b, before id = some b ∧ Member root b ∧ b.status ≠ "closed")
    (h : ClosesAll ordered kvs before after) : Completed root kvs before after := by
  have hkept : ∀ id b, before id = some b → Member root b → b.status = "closed" →
      after id = some b := by
    intro id b hb _ hclosed
    rw [(h id).2, hb]
    intro hmem
    obtain ⟨c, hc, -, hopen⟩ := (hordered id).mp hmem
    rw [hb] at hc
    cases hc
    exact hopen hclosed
  have hnew : ∀ id b, before id = some b → Member root b → b.status ≠ "closed" →
      ∃ c, after id = some c ∧ c.status = "closed" ∧ c.metadata = b.metadata.merge (kvs id) := by
    intro id b hb hmember hopen
    exact (h id).1 ((hordered id).mpr ⟨b, hb, hmember, hopen⟩) b hb hopen
  refine ⟨hroot, ?_, hkept, ?_, ?_⟩
  · intro id b hb hmember
    by_cases hstatus : b.status = "closed"
    · exact ⟨b, hkept id b hb hmember hstatus, hstatus⟩
    · obtain ⟨c, hc, hclosed, -⟩ := hnew id b hb hmember hstatus
      exact ⟨c, hc, hclosed⟩
  · intro id b hb hmember hopen c hc
    obtain ⟨d, hd, -, hmeta⟩ := hnew id b hb hmember hopen
    rw [hc] at hd
    cases hd
    exact hmeta
  · intro id hnone
    apply (h id).2
    intro hmem
    obtain ⟨b, hb, hmember, -⟩ := (hordered id).mp hmem
    exact hnone b hb hmember

/-- A close that reports no error has closed the whole workflow, in every tier and whatever its
links are.  With metadata for the root, a store in which the root is closed has every member closed,
also between the writes. -/
theorem close_completes_workflow (asked : List String) (s : σ) (rootID outcome reason : String)
    (rootExtra : StringMap) (trace : List σ) (n : ℕ) (hroot : trimSpace rootID ≠ "")
    (h : closeWorkflowSubtreeAs B asked s rootID outcome reason rootExtra = .ok (trace, n)) :
    Completed (trimSpace rootID) (closeMeta (trimSpace rootID) outcome reason rootExtra)
        (B.find s) (B.find (trace.getLastD s)) ∧
      (StringMap.isEmpty rootExtra = false →
        ∀ r, B.find s (trimSpace rootID) = some r → r.status ≠ "closed" →
          ∀ t ∈ trace, ∀ c, B.find t (trimSpace rootID) = some c → c.status = "closed" →
            ∀ id b, B.find s id = some b → Member (trimSpace rootID) b →
              ∃ d, B.find t id = some d ∧ d.status = "closed") := by
  obtain ⟨ordered, hordered, -⟩ := bind_eq_ok.mp h
  obtain ⟨hexists, hmem⟩ := mem_orderedOpenWorkflowSubtree hroot hordered
  have hopen : ∀ id ∈ ordered, ∃ b, B.find s id = some b ∧ b.status ≠ "closed" := by
    intro id hid
    obtain ⟨b, hb, -, hstatus⟩ := (hmem id).mp hid
    exact ⟨b, hb, hstatus⟩
  obtain ⟨hcloses, hlast⟩ := closesAll_closeWorkflowSubtreeAs hordered hopen h
  have hcompleted := hcloses.completed hexists hmem
  refine ⟨hcompleted, ?_⟩
  intro hextra r hr hropen t ht c hc hclosed id b hb hmember
  have hrid := (B.id_of_find hr).1
  have hrootMem := (hmem _).mpr ⟨r, hr, .inl hrid, hropen⟩
  rcases hlast hextra hrootMem t ht with rfl | hsame
  · exact hcompleted.closed id b hb hmember
  · rw [hsame, hr] at hc
    cases hc
    exact absurd hclosed hropen

end Closing

def Mem : Type := { m : MemStore // (m.beads.map Bead.id).Nodup ∧ ∀ b ∈ m.beads, b.id ≠ "" }

def Mem.closeAll (now : String → Time) (s : Mem) (ids : List String) (kvs : StringMap) : Mem × ℕ :=
  let r := s.1.closeAll ids kvs now
  have hids : r.1.beads.map Bead.id = s.1.beads.map Bead.id := by
    simp [r, MemStore.closeAll, Function.comp_def]
  (⟨r.1, hids ▸ s.2.1, by
    intro b hb
    obtain ⟨c, hc, rfl⟩ := mem_map.mp hb
    rw [MemStore.id_closeAllBead]
    exact s.2.2 c hc⟩, r.2)

theorem Mem.closesAll (now : String → Time) (s : Mem) (ids : List String) (kvs : StringMap) :
    ClosesAll ids (fun _ => kvs) s.1.find (s.closeAll now ids kvs).1.1.find := by
  intro id
  have hfind : (s.closeAll now ids kvs).1.1.find id =
      (s.1.find id).map (MemStore.closeAllBead ids kvs now) :=
    Keyed.lookup_map (MemStore.id_closeAllBead ids kvs now) _
  rw [hfind]
  constructor
  · intro hid b hb hopen
    rw [hb, Option.map_some, MemStore.closeAllBead, MemStore.id_of_find hb,
      if_neg (by simp [hid, hopen])]
    exact ⟨_, rfl, rfl, rfl⟩
  · intro hid
    cases hb : s.1.find id with
    | none => rfl
    | some b =>
      rw [Option.map_some, MemStore.closeAllBead, MemStore.id_of_find hb, if_pos (.inl hid)]

/-- The in-memory store meets the contract; its transactions are not atomic. -/
def memBackend (now : String → Time) : Backend Mem where
  find s := s.1.find
  get s := s.1.get
  list s := s.1.list
  depList s id := .ok (s.1.depList id .down)
  closeAll s ids kvs := .ok (s.closeAll now ids kvs)
  atomicTx := false
  markAndClose s id kvs := .ok (s.closeAll now [id] kvs).1
  id_of_find {s id b} h := by
    have hid := MemStore.id_of_find h
    exact ⟨hid, hid ▸ s.2.2 b (MemStore.mem_of_find h)⟩
  find_of_get {s id b} h := by
    unfold MemStore.get at h
    split at h
    · next hb =>
      cases h
      exact hb
    · cases h
  mem_list {s q rows} h hlimit b := by
    unfold MemStore.list at h
    split_ifs at h
    cases h
    have hmem : b ∈ applyListQuery s.1.beads q ↔ b ∈ s.1.beads ∧ q.matches b = true := by
      rw [applyListQuery, hlimit]
      cases hsort : q.sort <;> simp [applyLimit, sortBeadsForQuery]
    rw [hmem]
    constructor
    · rintro ⟨hb, hq⟩
      exact ⟨Keyed.lookup_of_mem s.2.1 hb, hq⟩
    · rintro ⟨hb, hq⟩
      exact ⟨MemStore.mem_of_find hb, hq⟩
  closes_closeAll {s ids kvs s' n} h := by
    cases h
    exact s.closesAll now ids kvs
  closes_markAndClose {s id kvs s' b} _ _ h := by
    cases h
    exact s.closesAll now [id] kvs

/-- A root, a wisp and a step that is closed, with a cycle of parents. -/
def smallWorkflow : Mem :=
  let named := (∅ : StringMap).set rootBeadIDMetadataKey "gc-1"
  ⟨{ seq := 3
     beads := [{ id := "gc-1", status := "open" },
       { id := "gc-2", status := "open", metadata := named, ephemeral := true, parentID := "gc-3" },
       { id := "gc-3", status := "closed", metadata := named, parentID := "gc-2" }] },
    by decide, by decide⟩

/-- The root of the small workflow is cancelled: the wisp is closed first, then the root. -/
theorem close_completes_workflow_small :
    ∃ trace n, closeWorkflowSubtreeAs (memBackend fun _ => .zero) ["gc-2"] smallWorkflow " gc-1"
        "skipped" "cancelled" ((∅ : StringMap).set "gc.cancel_requested" "true") =
          .ok (trace, n) ∧ trace.length = 2 ∧
      ∀ id b, smallWorkflow.1.find id = some b → Member "gc-1" b →
        ∃ c, (trace.getLastD smallWorkflow).1.find id = some c ∧ c.status = "closed" := by
  have hrun : ((closeWorkflowSubtreeAs (memBackend fun _ => .zero) ["gc-2"] smallWorkflow " gc-1"
      "skipped" "cancelled" ((∅ : StringMap).set "gc.cancel_requested" "true")).map
        fun r => r.1.length) = .ok 2 := by
    decide +kernel
  obtain ⟨⟨trace, n⟩, h, hlength⟩ := map_eq_ok.mp hrun
  have hroot : trimSpace " gc-1" = "gc-1" := by decide +kernel
  obtain ⟨hcompleted, -⟩ := close_completes_workflow ["gc-2"] smallWorkflow " gc-1" "skipped"
    "cancelled" _ trace n (by rw [hroot]; decide) h
  rw [hroot] at hcompleted
  exact ⟨trace, n, h, hlength, hcompleted.closed⟩

end GasCity.Workflow
