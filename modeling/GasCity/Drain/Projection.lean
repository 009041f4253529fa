import GasCity.Drain.Order
import GasCity.MemStore.Basic

/-! # Dependencies of drained members

Each member of a convoy is worked by an item workflow of its own.  Where a member blocks another
one, the beads of the other's workflow wait for the root of its workflow, and dependencies on the
members themselves are removed.  Ids come without blanks, so only the text of a dependency is
trimmed.
-/

namespace GasCity.Drain

open List MemStore

/-- A row of the manifest; its item root is empty until the row is materialized. -/
structure Row where
  memberID : String
  itemRootID : String := ""
  deriving DecidableEq

def drainRootByMember (rows : List Row) (memberID : String) : String :=
  rows.foldl (fun root row =>
    if row.memberID = memberID ∧ row.itemRootID ≠ "" then row.itemRootID else root) ""

/-- What an item workflow waits for: the item roots of the members that block its member, and the
blockers that are no members. -/
def drainProjectedBlockerIDs (source : String → List Dep) (rows : List Row) (memberID : String) :
    List String :=
  ((blockerIDs memberID (source memberID)).filterMap fun id =>
    if drainRootByMember rows id ≠ "" then some (drainRootByMember rows id)
    else if id ∈ rows.map Row.memberID then none
    else some id).eraseDups

def ensureBlockingDependency (issueID dependsOnID : String) (deps : List Dep) : List Dep :=
  if ⟨issueID, dependsOnID, "blocks"⟩ ∈ deps then deps
  else depInsert issueID dependsOnID "blocks" deps

def ensureDrainWorkflowBlocksOn (workflow : List String) (rootID : String) (deps : List Dep)
    (blockerID : String) : List Dep :=
  if rootID = "" ∨ blockerID = "" ∨ rootID = blockerID then deps
  else workflow.foldl (fun deps x =>
    if x = "" ∨ x = blockerID then deps else ensureBlockingDependency x blockerID deps) deps

/-- A blocking dependency on another member, left on a bead of a workflow by earlier versions. -/
def isSourceMemberDep (rows : List Row) (memberID : String) (d : Dep) : Bool :=
  isReadyBlockingDependencyType d.type && decide (trimSpace d.dependsOnID ≠ "" ∧
    trimSpace d.dependsOnID ≠ memberID ∧ trimSpace d.dependsOnID ∈ rows.map Row.memberID)

def repairBead (rows : List Row) (memberID : String) (deps : List Dep) (x : String) : List Dep :=
  (deps.filter (·.issueID = x)).foldl (fun deps d =>
    if isSourceMemberDep rows memberID d then depErase x (trimSpace d.dependsOnID) deps
    else deps) deps

def repairDrainWorkflowSourceMemberDeps (rows : List Row) (memberID : String)
    (workflow : List String) (deps : List Dep) : List Dep :=
  workflow.foldl (repairBead rows memberID) deps

/-- The item workflows: the root that is found or created for a member, and the beads under it. -/
structure ItemWorkflows where
  root : String → String
  beads : String → List String

def ensureDrainRowDependencyProjection (source : String → List Dep) (W : ItemWorkflows)
    (rows : List Row) (deps : List Dep) (row : Row) : List Dep :=
  repairDrainWorkflowSourceMemberDeps rows row.memberID (W.beads row.itemRootID)
    ((drainProjectedBlockerIDs source rows row.memberID).foldl
      (ensureDrainWorkflowBlocksOn (W.beads row.itemRootID) row.itemRootID) deps)

def ensureDrainDependencyProjection (source : String → List Dep) (W : ItemWorkflows)
    (rows : List Row) (deps : List Dep) : List Dep :=
  rows.foldl (fun deps row =>
    if row.memberID = "" ∨ row.itemRootID = "" then deps
    else ensureDrainRowDependencyProjection source W rows deps row) deps

def Row.rooted (W : ItemWorkflows) (row : Row) : Row :=
  { row with itemRootID := if row.itemRootID = "" then W.root row.memberID else row.itemRootID }

/-- Work the rows of a separate drain one after another, then sweep over all of them.  Each workflow
comes with its dependencies from the start, and earlier rows leave them alone. -/
def expandRows (source : String → List Dep) (W : ItemWorkflows) (controlID : String) :
    List Row → List Row → List Dep → List Dep
  | before, [], deps => ensureDrainDependencyProjection source W before deps
  | before, row :: rest, deps =>
    let row := row.rooted W
    let deps := ensureBlockingDependency controlID row.itemRootID deps
    let deps := ensureDrainRowDependencyProjection source W (before ++ row :: rest) deps row
    expandRows source W controlID (before ++ [row]) rest deps

theorem foldl_establishes {α σ : Type*} {f : σ → α → σ} {I P : σ → Prop} {l : List α} {a : α}
    (ha : a ∈ l) (hI : ∀ b ∈ l, ∀ s, I s → I (f s b)) (hset : ∀ s, I s → P (f s a))
    (hkeep : ∀ b ∈ l, ∀ s, P s → P (f s b)) {s : σ} (hs : I s) : P (l.foldl f s) := by
  obtain ⟨before, after, rfl⟩ := append_of_mem ha
  rw [foldl_append, foldl_cons]
  refine foldlRecOn after f (hset _ ?_) fun s h b hb => hkeep b (by simp [hb]) s h
  exact foldlRecOn before f hs fun s h b hb => hI b (by simp [hb]) s h

section Edges

variable {deps deps' : List Dep} {members : List String} {x y m t : String}

def edges (x t : String) (deps : List Dep) : List Dep :=
  deps.filter fun d => d.issueID = x ∧ d.dependsOnID = t

theorem mem_edges {d : Dep} :
    d ∈ edges x t deps ↔ d ∈ deps ∧ d.issueID = x ∧ d.dependsOnID = t := by
  simp [edges]

theorem edges_depInsert_of_ne {type : String} (h : t ≠ m) :
    edges x m (depInsert y t type deps) = edges x m deps := by
  induction deps with
  | nil => simp [depInsert, edges, h]
  | cons d deps ih =>
    unfold depInsert
    split_ifs with hsame hother
    · rfl
    · obtain ⟨rfl, rfl, -⟩ := hother
      simp [edges, h]
    · rw [edges, edges, filter_cons, filter_cons, ← edges, ← edges, ih]

theorem mem_depInsert_of_mem (h : ⟨x, t, "blocks"⟩ ∈ deps) :
    ⟨x, t, "blocks"⟩ ∈ depInsert y m "blocks" deps := by
  induction deps with
  | nil => cases h
  | cons d deps ih =>
    unfold depInsert
    split_ifs
    · exact h
    · rcases mem_cons.mp h with rfl | h
      · exact mem_cons_self ..
      · exact mem_cons_of_mem _ h
    · exact mem_cons.mpr ((mem_cons.mp h).imp_right ih)

theorem mem_depInsert_self : ⟨x, t, "blocks"⟩ ∈ depInsert x t "blocks" deps := by
  induction deps with
  | nil => exact mem_singleton_self _
  | cons d deps ih =>
    unfold depInsert
    split_ifs with hsame hother
    · obtain ⟨rfl, rfl, htype⟩ := hsame
      rw [← htype]
      exact mem_cons_self ..
    · obtain ⟨rfl, rfl, -⟩ := hother
      exact mem_cons_self ..
    · exact mem_cons_of_mem _ ih

theorem edges_depErase_self : edges x t (depErase x t deps) = (edges x t deps).tail := by
  induction deps with
  | nil => rfl
  | cons d deps ih =>
    unfold edges depErase at ih ⊢
    by_cases hd : d.issueID = x ∧ d.dependsOnID = t
    · simp [hd]
    · simp only [decide_eq_true_eq, hd, not_false_eq_true, eraseP_cons_of_neg,
        filter_cons_of_neg, ih]

theorem edges_depErase_of_ne (h : ¬ (x = y ∧ m = t)) :
    edges x m (depErase y t deps) = edges x m deps := by
  induction deps with
  | nil => rfl
  | cons d deps ih =>
    unfold edges depErase at ih ⊢
    by_cases hd : d.issueID = y ∧ d.dependsOnID = t
    · obtain ⟨rfl, rfl⟩ := hd
      have hne : ¬ (d.issueID = x ∧ d.dependsOnID = m) := fun heq => h ⟨heq.1.symm, heq.2.symm⟩
      simp [hne]
    · rw [eraseP_cons_of_neg (by simpa using hd), filter_cons, filter_cons, ih]

/-- Dependencies on beads that are no members stay, those on members are removed from the
front. -/
structure Projects (members : List String) (deps deps' : List Dep) : Prop where
  held : ∀ x t, t ∉ members → ⟨x, t, "blocks"⟩ ∈ deps → ⟨x, t, "blocks"⟩ ∈ deps'
  dropped : ∀ x, ∀ m ∈ members, ∃ n, edges x m deps' = (edges x m deps).drop n

theorem Projects.refl (members : List String) (deps : List Dep) : Projects members deps deps :=
  ⟨fun _ _ _ => id, fun _ _ _ => ⟨0, rfl⟩⟩

theorem Projects.held_of_nil (h : Projects [] deps deps') (hd : ⟨x, t, "blocks"⟩ ∈ deps) :
    ⟨x, t, "blocks"⟩ ∈ deps' :=
  h.held x t not_mem_nil hd

theorem Projects.trans {deps'' : List Dep} (h : Projects members deps deps')
    (h' : Projects members deps' deps'') : Projects members deps deps'' where
  held x t ht hd := h'.held x t ht (h.held x t ht hd)
  dropped x m hm := by
    obtain ⟨n, hn⟩ := h.dropped x m hm
    obtain ⟨n', hn'⟩ := h'.dropped x m hm
    exact ⟨n + n', by rw [hn', hn, drop_drop]⟩

theorem Projects.foldl {α : Type*} {f : List Dep → α → List Dep} {l : List α}
    (h : ∀ a ∈ l, ∀ deps, Projects members deps (f deps a)) (deps : List Dep) :
    Projects members deps (l.foldl f deps) :=
  foldlRecOn l f (.refl members deps) fun _ h' a ha => h'.trans (h a ha _)

theorem Projects.ensure (ht : t ∉ members) :
    Projects members deps (ensureBlockingDependency x t deps) := by
  unfold ensureBlockingDependency
  split_ifs
  · exact .refl members deps
  · exact ⟨fun _ _ _ => mem_depInsert_of_mem, fun y m hm =>
      ⟨0, edges_depInsert_of_ne fun heq => ht (heq ▸ hm)⟩⟩

theorem Projects.erase (ht : t ∈ members) : Projects members deps (depErase x t deps) where
  held y u hu hd := by
    apply (mem_eraseP_of_neg _).mpr hd
    simp only [decide_eq_true_eq]
    rintro ⟨-, rfl⟩
    exact hu ht
  dropped y m _ := by
    by_cases hsame : y = x ∧ m = t
    · obtain ⟨rfl, rfl⟩ := hsame
      exact ⟨1, by rw [edges_depErase_self, drop_one]⟩
    · exact ⟨0, edges_depErase_of_ne hsame⟩

theorem Projects.ensureUnless {p : Prop} [Decidable p] (ht : t ∉ members) :
    Projects members deps (if p then deps else ensureBlockingDependency x t deps) := by
  split_ifs
  · exact .refl members deps
  · exact .ensure ht

variable {l : List String} {rootID : String} {n : ℕ}

theorem Projects.workflow (ht : t ∉ members) :
    Projects members deps (ensureDrainWorkflowBlocksOn l rootID deps t) := by
  unfold ensureDrainWorkflowBlocksOn
  split_ifs
  · exact .refl members deps
  · exact .foldl (fun _ _ _ => .ensureUnless ht) deps

theorem mem_ensureDrainWorkflowBlocksOn (hx : x ∈ l)
    (hx0 : x ≠ "") (hxt : x ≠ t) (h : ¬ (rootID = "" ∨ t = "" ∨ rootID = t)) :
    ⟨x, t, "blocks"⟩ ∈ ensureDrainWorkflowBlocksOn l rootID deps t := by
  rw [ensureDrainWorkflowBlocksOn, if_neg h]
  refine foldl_establishes (I := fun _ => True) hx (fun _ _ _ h => h) (fun deps _ => ?_)
    (fun y _ deps h' => ?_) trivial
  · rw [if_neg (not_or.mpr ⟨hx0, hxt⟩), ensureBlockingDependency]
    split_ifs with hmem
    · exact hmem
    · exact mem_depInsert_self
  · exact Projects.held_of_nil (.ensureUnless not_mem_nil) h'

variable {rows : List Row} {memberID : String}

theorem Projects.repairBead (hrows : ∀ id ∈ rows.map Row.memberID, id ∈ members) :
    Projects members deps (repairBead rows memberID deps x) := by
  refine .foldl (fun d _ deps => ?_) deps
  split_ifs with hd
  · simp only [isSourceMemberDep, Bool.and_eq_true, decide_eq_true_eq] at hd
    exact .erase (hrows _ hd.2.2.2)
  · exact .refl members deps

theorem Projects.repair (hrows : ∀ id ∈ rows.map Row.memberID, id ∈ members) :
    Projects members deps (repairDrainWorkflowSourceMemberDeps rows memberID l deps) :=
  .foldl (fun _ _ _ => .repairBead hrows) deps

theorem edges_repairBead : edges x m (repairBead rows memberID deps x) =
    (edges x m deps).drop ((deps.filter (·.issueID = x)).countP fun d =>
      isSourceMemberDep rows memberID d && trimSpace d.dependsOnID = m) := by
  unfold repairBead
  generalize deps.filter (·.issueID = x) = l
  induction l generalizing deps with
  | nil => rfl
  | cons d l ih =>
    rw [foldl_cons, ih]
    by_cases hd : isSourceMemberDep rows memberID d
    · rw [if_pos hd]
      by_cases hm : trimSpace d.dependsOnID = m
      · rw [hm, edges_depErase_self, countP_cons_of_pos (by simp [hd, hm]), drop_tail]
      · rw [edges_depErase_of_ne fun h => hm h.2.symm, countP_cons_of_neg (by simp [hm])]
    · rw [if_neg hd, countP_cons_of_neg (by simp [hd])]

/-- No dependency of `x` on `m` blocks. -/
def Cleared (x m : String) (deps : List Dep) : Prop :=
  ∀ d ∈ edges x m deps, isReadyBlockingDependencyType d.type = false

/-- `n` repairs clear the dependencies of `x` on `m`. -/
def ClearedBy (n : ℕ) (x m : String) (deps : List Dep) : Prop :=
  (edges x m deps).length ≤ n ∨ Cleared x m deps

theorem Projects.clearedBy (h : Projects members deps deps') (hm : m ∈ members)
    (hn : ClearedBy n x m deps) : ClearedBy n x m deps' := by
  obtain ⟨k, hk⟩ := h.dropped x m hm
  refine hn.imp (fun hle => ?_) fun hc d hd => ?_
  · rw [hk, length_drop]
    omega
  · rw [hk] at hd
    exact hc d (mem_of_mem_drop hd)

/-- Each repair of a workflow removes a dependency on another member while one of them blocks. -/
theorem clearedBy_repair (hx : x ∈ l) (hm : m ∈ rows.map Row.memberID)
    (hne : m ≠ memberID) (hclean : m ≠ "" ∧ trimSpace m = m) (h : ClearedBy (n + 1) x m deps) :
    ClearedBy n x m (repairDrainWorkflowSourceMemberDeps rows memberID l deps) := by
  refine foldl_establishes hx (fun y _ deps => (Projects.repairBead fun _ h => h).clearedBy hm)
    (fun deps h => ?_) (fun y _ deps => (Projects.repairBead fun _ h => h).clearedBy hm) h
  by_cases hblocking : ∃ d ∈ edges x m deps, isReadyBlockingDependencyType d.type = true
  · obtain ⟨d, hd, htype⟩ := hblocking
    have hlen : (edges x m deps).length ≤ n + 1 := by
      refine h.resolve_right fun hc => ?_
      rw [hc d hd] at htype
      cases htype
    obtain ⟨hmem, hissue, rfl⟩ := mem_edges.mp hd
    have hsource : isSourceMemberDep rows memberID d = true := by
      rw [isSourceMemberDep, hclean.2, htype]
      simp only [Bool.true_and, decide_eq_true_eq]
      exact ⟨hclean.1, hne, hm⟩
    have hcount : 0 < (deps.filter (·.issueID = x)).countP fun d' =>
        isSourceMemberDep rows memberID d' && trimSpace d'.dependsOnID = d.dependsOnID :=
      countP_pos_iff.mpr ⟨d, mem_filter.mpr ⟨hmem, by simpa using hissue⟩,
        by simp [hsource, hclean.2]⟩
    left
    rw [edges_repairBead, length_drop]
    omega
  · right
    intro d hd
    rw [edges_repairBead] at hd
    exact Bool.eq_false_iff.mpr fun htype => hblocking ⟨d, mem_of_mem_drop hd, htype⟩

end Edges

/-- The item workflows of the members are apart: no two share a bead, and roots are no members. -/
structure ItemWorkflows.Apart (W : ItemWorkflows) (members : List String) : Prop where
  root_ne : ∀ m ∈ members, W.root m ≠ "" ∧ W.root m ∉ members
  root_mem : ∀ m ∈ members, W.root m ∈ W.beads (W.root m)
  named : ∀ m ∈ members, "" ∉ W.beads (W.root m)
  disjoint : ∀ m ∈ members, ∀ m' ∈ members, m ≠ m' →
    ∀ x ∈ W.beads (W.root m), x ∉ W.beads (W.root m')

/-- The manifest has a row for each member; a row that has an item root has that of its member. -/
structure ManifestOf (W : ItemWorkflows) (members : List String) (rows : List Row) : Prop where
  mem_iff : ∀ m, m ∈ rows.map Row.memberID ↔ m ∈ members
  root : ∀ row ∈ rows, row.itemRootID = "" ∨ row.itemRootID = W.root row.memberID

/-- The dependencies of the members as the item workflows have them. -/
structure Projected (source : String → List Dep) (W : ItemWorkflows) (members : List String)
    (deps : List Dep) : Prop where
  blocked : ∀ a ∈ members, ∀ b ∈ blockersByMember source members a,
    ∀ x ∈ W.beads (W.root a), ⟨x, W.root b, "blocks"⟩ ∈ deps
  released : ∀ a ∈ members, ∀ m ∈ members, m ≠ a → ∀ x ∈ W.beads (W.root a), Cleared x m deps

section Expansion

variable {source : String → List Dep} {W : ItemWorkflows} {members : List String}
  {rows : List Row} {deps : List Dep} {memberID : String}

theorem drainRootByMember_cases (h : ∀ row ∈ rows, row.itemRootID = "" ∨
      row.itemRootID = W.root row.memberID) :
    drainRootByMember rows memberID = "" ∨ memberID ∈ rows.map Row.memberID ∧
      drainRootByMember rows memberID = W.root memberID := by
  refine foldlRecOn (motive := fun root => root = "" ∨ memberID ∈ rows.map Row.memberID ∧
    root = W.root memberID) rows _ (.inl rfl) fun root hroot row hrow => ?_
  split_ifs with hid
  · obtain ⟨rfl, hne⟩ := hid
    exact .inr ⟨mem_map_of_mem hrow, (h row hrow).resolve_left hne⟩
  · exact hroot

theorem drainRootByMember_ne {row : Row} (hrow : row ∈ rows) (hroot : row.itemRootID ≠ "") :
    drainRootByMember rows row.memberID ≠ "" := by
  refine foldl_establishes (I := fun _ => True) (P := (· ≠ "")) hrow (fun _ _ _ h => h)
    (fun root _ => ?_) (fun r _ root h => ?_) trivial
  · rwa [if_pos ⟨rfl, hroot⟩]
  · split_ifs with hr
    · exact hr.2
    · exact h

variable (hW : W.Apart members) (hrows : ManifestOf W members rows)
include hW hrows

theorem projected_notMem {b : String} (hb : b ∈ drainProjectedBlockerIDs source rows memberID) :
    b ∉ members := by
  simp only [drainProjectedBlockerIDs, mem_eraseDups, mem_filterMap] at hb
  obtain ⟨id, -, hid⟩ := hb
  split_ifs at hid with hroot hmem
  · cases hid
    obtain ⟨hid, heq⟩ := (drainRootByMember_cases hrows.root).resolve_left hroot
    rw [heq]
    exact (hW.root_ne id ((hrows.mem_iff id).mp hid)).2
  · cases hid
    rwa [← hrows.mem_iff]

theorem projects_wires (workflow : List String) (rootID : String) :
    Projects members deps ((drainProjectedBlockerIDs source rows memberID).foldl
      (ensureDrainWorkflowBlocksOn workflow rootID) deps) :=
  .foldl (fun _ hb _ => .workflow (projected_notMem hW hrows hb)) deps

theorem projects_row (row : Row) :
    Projects members deps (ensureDrainRowDependencyProjection source W rows deps row) :=
  (projects_wires hW hrows _ _).trans (.repair fun id => (hrows.mem_iff id).mp)

theorem projects_sweepRow (row : Row) :
    Projects members deps (if row.memberID = "" ∨ row.itemRootID = "" then deps
      else ensureDrainRowDependencyProjection source W rows deps row) := by
  split_ifs
  · exact .refl members deps
  · exact projects_row hW hrows row

variable (hrooted : ∀ row ∈ rows, row.itemRootID = W.root row.memberID)

include hrooted in
theorem root_mem_projected {a b : String} (hb : b ∈ blockersByMember source members a) :
    W.root b ∈ drainProjectedBlockerIDs source rows a := by
  obtain ⟨hblocker, hmem⟩ := mem_filter.mp hb
  have hmem : b ∈ members := by simpa using hmem
  obtain ⟨row, hrow, rfl⟩ := mem_map.mp ((hrows.mem_iff b).mpr hmem)
  have hne : drainRootByMember rows row.memberID ≠ "" := by
    apply drainRootByMember_ne hrow
    rw [hrooted row hrow]
    exact (hW.root_ne _ hmem).1
  obtain ⟨-, heq⟩ := (drainRootByMember_cases hrows.root).resolve_left hne
  simp only [drainProjectedBlockerIDs, mem_eraseDups, mem_filterMap]
  exact ⟨row.memberID, hblocker, by rw [if_pos hne, heq]⟩

include hrooted in
theorem mem_row {row : Row} (hrow : row ∈ rows) {b x : String}
    (hb : b ∈ blockersByMember source members row.memberID)
    (hx : x ∈ W.beads (W.root row.memberID)) :
    ⟨x, W.root b, "blocks"⟩ ∈ ensureDrainRowDependencyProjection source W rows deps row := by
  have ha : row.memberID ∈ members := (hrows.mem_iff _).mp (mem_map_of_mem hrow)
  have hbm : b ∈ members := by simpa using of_mem_filter hb
  have hne : row.memberID ≠ b := by
    rintro rfl
    have hself := of_mem_filter (mem_of_mem_filter hb)
    simp at hself
  have hout := hW.disjoint _ ha b hbm hne
  have hxb : x ≠ W.root b := fun heq => hout x hx (heq ▸ hW.root_mem b hbm)
  have hroots : W.root row.memberID ≠ W.root b := fun heq =>
    hout _ (hW.root_mem _ ha) (heq ▸ hW.root_mem b hbm)
  have hnotMem := (hW.root_ne b hbm).2
  apply (Projects.repair fun id => (hrows.mem_iff id).mp).held x _ hnotMem
  rw [hrooted row hrow]
  refine foldl_establishes (I := fun _ => True) (root_mem_projected hW hrows hrooted hb)
    (fun _ _ _ h => h) (fun deps _ => ?_) (fun b' _ deps h => ?_) trivial
  · apply mem_ensureDrainWorkflowBlocksOn hx (fun h0 => hW.named _ ha (h0 ▸ hx)) hxb
    exact not_or.mpr ⟨(hW.root_ne _ ha).1, not_or.mpr ⟨(hW.root_ne b hbm).1, hroots⟩⟩
  · exact Projects.held_of_nil (.workflow not_mem_nil) h

variable (hclean : ∀ m ∈ members, m ≠ "" ∧ trimSpace m = m)
include hclean

/-- Working a row brings the dependencies of its workflow on other members nearer to none. -/
theorem clearedBy_row {row : Row} {n : ℕ} {x m : String} (hx : x ∈ W.beads row.itemRootID)
    (hm : m ∈ members) (hne : m ≠ row.memberID) (h : ClearedBy (n + 1) x m deps) :
    ClearedBy n x m (ensureDrainRowDependencyProjection source W rows deps row) := by
  apply clearedBy_repair hx ((hrows.mem_iff m).mpr hm) hne (hclean m hm)
  exact (projects_wires hW hrows _ _).clearedBy hm h

include hrooted in
/-- The sweep over all rows wires every workflow and leaves no dependency on another member. -/
theorem projected_sweep (hlow : ∀ row ∈ rows, ∀ x ∈ W.beads row.itemRootID, ∀ m ∈ members,
      m ≠ row.memberID → ClearedBy 1 x m deps) :
    Projected source W members (ensureDrainDependencyProjection source W rows deps) := by
  have hgo : ∀ row ∈ rows, ¬ (row.memberID = "" ∨ row.itemRootID = "") := by
    intro row hrow
    have hmem := (hrows.mem_iff _).mp (mem_map_of_mem hrow)
    rw [hrooted row hrow]
    exact not_or.mpr ⟨(hclean _ hmem).1, (hW.root_ne _ hmem).1⟩
  constructor
  · intro a ha b hb x hx
    obtain ⟨row, hrow, rfl⟩ := mem_map.mp ((hrows.mem_iff a).mpr ha)
    have hnotMem := (hW.root_ne b (by simpa using of_mem_filter hb)).2
    refine foldl_establishes (I := fun _ => True) hrow (fun _ _ _ h => h) (fun deps _ => ?_)
      (fun r _ deps h => (projects_sweepRow hW hrows r).held x _ hnotMem h) trivial
    rw [if_neg (hgo row hrow)]
    exact mem_row hW hrows hrooted hrow hb hx
  · intro a ha m hm hne x hx
    obtain ⟨row, hrow, rfl⟩ := mem_map.mp ((hrows.mem_iff a).mpr ha)
    rw [← hrooted row hrow] at hx
    have hcleared : ClearedBy 0 x m (ensureDrainDependencyProjection source W rows deps) := by
      refine foldl_establishes hrow (fun r _ deps => (projects_sweepRow hW hrows r).clearedBy hm)
        (fun deps h => ?_) (fun r _ deps => (projects_sweepRow hW hrows r).clearedBy hm)
        (hlow row hrow x hx m hm hne)
      rw [if_neg (hgo row hrow)]
      exact clearedBy_row hW hrows hclean hx hm hne h
    refine hcleared.elim (fun hlen d hd => ?_) id
    rw [eq_nil_of_length_eq_zero (Nat.le_zero.mp hlen)] at hd
    cases hd

omit hrows

theorem expandRows_projected {controlID : String} {before rest : List Row}
    (hrows : ManifestOf W members (before ++ rest))
    (hbefore : ∀ row ∈ before, row.itemRootID = W.root row.memberID)
    (htwo : ∀ x, ∀ m ∈ members, ClearedBy 2 x m deps)
    (hlow : ∀ row ∈ before, ∀ x ∈ W.beads row.itemRootID, ∀ m ∈ members,
      m ≠ row.memberID → ClearedBy 1 x m deps) :
    Projected source W members (expandRows source W controlID before rest deps) := by
  induction rest generalizing before deps with
  | nil =>
    rw [append_nil] at hrows
    exact projected_sweep hW hrows hbefore hclean hlow
  | cons row rest ih =>
    have hmem : row.memberID ∈ members := (hrows.mem_iff _).mp (by simp)
    have hroot : (row.rooted W).itemRootID = W.root row.memberID := by
      rw [Row.rooted]
      split_ifs with hnone
      · rfl
      · exact (hrows.root row (by simp)).resolve_left hnone
    have hrows' : ManifestOf W members (before ++ row.rooted W :: rest) := by
      refine ⟨fun m => ?_, fun r hr => ?_⟩
      · rw [← hrows.mem_iff]
        simp [Row.rooted]
      · simp only [mem_append, mem_cons] at hr
        rcases hr with hr | rfl | hr
        · exact hrows.root r (mem_append_left _ hr)
        · exact .inr hroot
        · exact hrows.root r (mem_append_right _ (mem_cons_of_mem _ hr))
    have hctl : Projects members deps
        (ensureBlockingDependency controlID (row.rooted W).itemRootID deps) :=
      .ensure (hroot ▸ (hW.root_ne _ hmem).2)
    have hproj : Projects members deps (ensureDrainRowDependencyProjection source W _ _ _) :=
      hctl.trans (projects_row hW hrows' (row.rooted W))
    refine ih (by simpa using hrows') ?_ (fun x m hm => hproj.clearedBy hm (htwo x m hm)) ?_
    · intro r hr
      rcases mem_append.mp hr with hr | hr
      · exact hbefore r hr
      · rw [mem_singleton.mp hr]
        exact hroot
    · intro r hr x hx m hm hne
      rcases mem_append.mp hr with hr | hr
      · exact hproj.clearedBy hm (hlow r hr x hx m hm hne)
      · obtain rfl := mem_singleton.mp hr
        exact clearedBy_row hW hrows' hclean hx hm hne (hctl.clearedBy hm (htwo x m hm))

end Expansion

/-- The members of a convoy can be ordered exactly when no member waits for itself, blockers first.
After the expansion, in any order of the rows, an item workflow waits for the item roots of what
blocks its member; two beads have at most a parent-child dependency and one other. -/
theorem drain_projects_dependencies (source : String → List Dep) {members : List String}
    (hids : members.Nodup) (hclean : ∀ m ∈ members, m ≠ "" ∧ trimSpace m = m) :
    ((orderDrainMembersByDependencies source members).isSome ↔
      ∀ m ∈ members, ¬ Relation.TransGen (fun a b => b ∈ blockersByMember source members a) m m) ∧
    (∀ out, orderDrainMembersByDependencies source members = some out →
      out.Perm members ∧ Digraph.Topological (blockersByMember source members) out) ∧
    ∀ W controlID rows deps, W.Apart members → ManifestOf W members rows →
      (∀ x t, (edges x t deps).length ≤ 2) →
      Projected source W members (expandRows source W controlID [] rows deps) := by
  obtain ⟨hiff, hout⟩ := orderDrainMembersByDependencies_spec source hids
  exact ⟨hiff, hout, fun W controlID rows deps hW hrows htwo =>
    expandRows_projected hW hclean hrows nofun (fun x m _ => .inl (htwo x m)) nofun⟩

def pairSource : String → List Dep
  | "a" => [⟨"a", "b", "blocks"⟩, ⟨"a", "other", "waits-for"⟩]
  | _ => []

def pairWorkflows : ItemWorkflows where
  root m := if m = "a" then "ra" else "rb"
  beads r := [r, r ++ ".1"]

theorem drain_projects_dependencies_pair :
    orderDrainMembersByDependencies pairSource ["a", "b"] = some ["b", "a"] ∧
      Projected pairSource pairWorkflows ["a", "b"]
        (expandRows pairSource pairWorkflows "ctl" [] [⟨"b", ""⟩, ⟨"a", ""⟩]
          [⟨"ra", "b", "parent-child"⟩, ⟨"ra", "b", "blocks"⟩]) := by
  refine ⟨by decide, (drain_projects_dependencies pairSource (by decide) (by decide)).2.2 _ _ _ _
    ⟨by decide, by decide, by decide, by decide⟩ ⟨?_, by decide⟩ fun x t => ?_⟩
  · intro m
    simp [or_comm]
  · exact length_filter_le ..

/-- A member that blocks itself does not stop the order, and a workflow stays blocked by its own
member. -/
theorem own_member_not_released :
    orderDrainMembersByDependencies (fun m => [⟨m, m, "blocks"⟩]) ["a", "b"] = some ["a", "b"] ∧
      ⟨"ra", "a", "blocks"⟩ ∈ expandRows pairSource pairWorkflows "ctl" []
        [⟨"b", ""⟩, ⟨"a", ""⟩] [⟨"ra", "a", "blocks"⟩] := by
  decide

end GasCity.Drain
