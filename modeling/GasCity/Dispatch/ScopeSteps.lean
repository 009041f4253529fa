import GasCity.Dispatch.Instantiate
import GasCity.Dispatch.Scope
import GasCity.Formula.GraphControls
import GasCity.Runs.Basic

/-! # Steps of a scoped workflow

Workers claim and close work beads, and the dispatcher processes ready controls.  How a retry,
check, fanout or drain control reaches its verdict is left open: it closes with some result and
reconciles its scope, or attaches new beads.
-/

namespace GasCity.Dispatch

open List

/-- What a worker or a control writes on the bead it closes. -/
structure Result where
  outcome : String := ""
  failureClass : String := ""
  failureReason : String := ""
  outputJSON : String := ""
  other : List (String × String) := []
  deriving DecidableEq

def Result.batch (r : Result) : Metadata :=
  .ofList ([(.outcome, r.outcome), (.failureClass, r.failureClass),
    (.failureReason, r.failureReason), (.outputJSON, r.outputJSON)] ++
      r.other.map fun entry => (.other entry.1, entry.2))

inductive Verdict where
  | settle (result : Result)
  | spawn (attached : Store)
  deriving DecidableEq

inductive Label where
  | claim (id : String)
  | finish (id : String) (result : Result)
  | process (id : String) (verdict : Verdict)
  deriving DecidableEq

def isWork (b : Bead) : Bool :=
  !isControlKind b.kind && !([Kind.scope, Kind.spec, Kind.workflow].contains b.kind)

/-- `c` is the scope check of `m`. -/
def isScopeCheckOf (s : Store) (m c : Bead) : Bool :=
  c.kind == Kind.scopeCheck && c.scopeRole == ScopeRole.control && c.scopeRef == m.scopeRef &&
    (s.downDeps c.id).head? == some m.id

/-- Every bead of a scope has a scope check, unless it is a teardown step or of an exempt kind. -/
def Watched (s : Store) : Prop :=
  ∀ m ∈ s.beads, m.scopeRef ≠ "" → m.scopeRole ≠ ScopeRole.teardown →
    isScopeCheckExemptKind m.kind ∨ ∃ c ∈ s.beads, isScopeCheckOf s m c

instance (s : Store) : Decidable (Watched s) :=
  inferInstanceAs (Decidable (∀ m ∈ s.beads, _ → _ → (_ ∨ ∃ c ∈ s.beads, _)))

/-- The new beads of an attempt, iteration or fragment attached to a control. -/
@[mk_iff]
structure Attachable (s : Store) (control : Bead) (attached : Store) : Prop where
  ids : ((s.beads ++ attached.beads).map Bead.id).Nodup
  opened : ∀ b ∈ attached.beads, b.status = .opened ∨ b.kind = Kind.spec
  watched : Watched attached
  issues : ∀ dep ∈ attached.blocks, dep.1 = control.id ∨ dep.1 ∈ attached.beads.map Bead.id
  targets : ∀ dep ∈ attached.blocks, dep.2 ∈ (s.beads ++ attached.beads).map Bead.id

instance (s : Store) (control : Bead) (attached : Store) :
    Decidable (Attachable s control attached) :=
  decidable_of_iff' _ (attachable_iff s control attached)

def Store.attach (s attached : Store) : Store :=
  { beads := s.beads ++ attached.beads, blocks := s.blocks ++ attached.blocks }

def processControl (s : Store) (b : Bead) (verdict : Verdict) : Option Store :=
  if b.kind = Kind.scopeCheck then processScopeCheck s b
  else
    match verdict with
    | .settle result =>
      some (reconcileTerminalScopedMember (s.updateMetadataAndClose b.id result.batch)
        (closeWith result.batch b))
    | .spawn attached => if Attachable s b attached then some (s.attach attached) else none

def step (s : Store) : Label → Option Store
  | .claim id => do
    let b ← s.get id
    if isWork b ∧ b.status = .opened then
      some (s.update id fun b => { b with status := .inProgress })
    else none
  | .finish id result => do
    let b ← s.get id
    if isWork b ∧ b.status ≠ .closed then some (s.updateMetadataAndClose id result.batch)
    else none
  | .process id verdict => do
    let b ← s.get id
    if s.ready b ∧ isControlKind b.kind then processControl s b verdict else none

def isResultKey : MetaKey → Bool
  | .outcome | .failureClass | .failureReason | .outputJSON | .other _ | .finalDisposition
  | .missingRootBeadID | .controllerError | .controllerErrorClass | .controllerRetryable => true
  | _ => false

def Frame (b b' : Bead) : Prop :=
  b'.id = b.id ∧ ∀ k, isResultKey k = false → b'.val k = b.val k

namespace Frame

variable {b b' b'' : Bead}

theorem refl (b : Bead) : Frame b b := ⟨rfl, fun _ _ => rfl⟩

theorem trans (h : Frame b b') (h' : Frame b' b'') : Frame b b'' :=
  ⟨h'.1.trans h.1, fun k hk => (h'.2 k hk).trans (h.2 k hk)⟩

variable (h : Frame b b')
include h

theorem kind : b'.kind = b.kind := h.2 _ rfl

theorem scopeRef : b'.scopeRef = b.scopeRef := h.2 _ rfl

theorem scopeRole : b'.scopeRole = b.scopeRole := h.2 _ rfl

theorem attemptSubject : isRetryAttemptSubject b' = isRetryAttemptSubject b := by
  simp only [isRetryAttemptSubject, h.kind, h.2 .logicalBeadID rfl, h.2 .attempt rfl]

theorem matchesScopeRef (scopeRef : String) :
    Dispatch.matchesScopeRef b' scopeRef = Dispatch.matchesScopeRef b scopeRef := by
  simp only [Dispatch.matchesScopeRef, h.scopeRef, h.2 .stepRef rfl]

end Frame

def OnlyResults (batch : Metadata) : Prop :=
  ∀ k, isResultKey k = false → batch.get k = none

theorem val_merge_of_onlyResults {m batch : Metadata} (h : OnlyResults batch) {k : MetaKey}
    (hk : isResultKey k = false) : (m.merge batch).val k = m.val k := by
  simp [Table.val, Table.getD, h k hk]

theorem frame_closeWith {batch : Metadata} (h : OnlyResults batch) (b : Bead) :
    Frame b (closeWith batch b) :=
  ⟨rfl, fun _ hk => val_merge_of_onlyResults h hk⟩

theorem onlyResults_ofList {l : List (MetaKey × String)}
    (h : ∀ entry ∈ l, isResultKey entry.1 = true) : OnlyResults (.ofList l) := by
  intro k hk
  apply foldlRecOn (motive := fun t : Metadata => t.get k = none) l _ rfl
  intro t ht entry hentry
  have hne : k ≠ entry.1 := by
    rintro rfl
    rw [h entry hentry] at hk
    cases hk
  rw [Table.get_set_of_ne _ _ hne, ht]

theorem onlyResults_result (r : Result) : OnlyResults r.batch := by
  apply onlyResults_ofList
  intro entry hentry
  rcases mem_append.mp hentry with hentry | hentry
  · simp only [mem_cons, not_mem_nil, or_false] at hentry
    rcases hentry with rfl | rfl | rfl | rfl <;> rfl
  · obtain ⟨_, _, rfl⟩ := mem_map.mp hentry
    rfl

theorem frame_closeOutcome (outcome : String) (b : Bead) : Frame b (closeOutcome outcome b) :=
  frame_closeWith (onlyResults_ofList (by simp [isResultKey])) b

theorem scopeMemberMetadata_get (members : List Bead) {k : MetaKey} (hk : isNonGCKey k = false) :
    (scopeMemberMetadata members).get k = none := by
  apply foldlRecOn (motive := fun t : Metadata => t.get k = none) _ _ rfl
  intro t ht m _
  have hnone : (nonGCMetadata m.metadata).get k = none := by
    rw [nonGCMetadata, Table.get_ofKeys, if_neg]
    simp [hk]
  rw [Table.get_merge, hnone, ht]
  rfl

theorem onlyResults_scopeMemberMetadata (members : List Bead) :
    OnlyResults (scopeMemberMetadata members) := by
  intro k hk
  apply scopeMemberMetadata_get
  cases k with
  | other key => cases hk
  | _ => rfl

@[simp]
theorem skipBead_id (b : Bead) : (skipBead b).id = b.id := rfl

theorem skipScopeMembers_nil (s : Store) : skipScopeMembers s [] = s := by
  simp [skipScopeMembers]

theorem skipScopeMembers_append {s : Store} {ids ids' : List String} (h : ids.Disjoint ids') :
    skipScopeMembers (skipScopeMembers s ids) ids' = skipScopeMembers s (ids ++ ids') := by
  rw [skipScopeMembers, skipScopeMembers, skipScopeMembers, map_map]
  congr 1
  apply map_congr_left
  intro b _
  by_cases hb : b.id ∈ ids
  · have hnot : b.id ∉ ids' := fun hb' => h hb hb'
    simp [hb, hnot]
  · simp [hb]

section Rounds

variable {s : Store} {skipControlID : String}

/-- A round skips beads that it looks at, and drops from the pending ones only preserved checks. -/
theorem skipRound_spec (bs pending : List Bead) :
    (∀ id ∈ (skipRound s skipControlID bs pending).2, id ∈ bs.map Bead.id) ∧
      (skipRound s skipControlID bs pending).1 ⊆ pending ∧
      ∀ p ∈ pending, p ∈ (skipRound s skipControlID bs pending).1 ∨
        ∃ b ∈ bs, b.id = p.id ∧ preserveScopeCheckForSubject s b skipControlID = true := by
  induction bs generalizing pending with
  | nil => exact ⟨nofun, fun _ => id, fun p hp => .inl hp⟩
  | cons b bs ih =>
    rw [skipRound]
    split
    · next hpreserve =>
      obtain ⟨hskip, hsub, hdrop⟩ := ih (pending.filter fun p => p.id != b.id)
      refine ⟨fun id hid => mem_cons_of_mem _ (hskip id hid),
        fun p hp => mem_of_mem_filter (hsub hp), ?_⟩
      intro p hp
      by_cases hid : p.id = b.id
      · exact .inr ⟨b, mem_cons_self .., hid.symm, hpreserve⟩
      · refine (hdrop p (mem_filter.mpr ⟨hp, by simpa using hid⟩)).imp_right ?_
        rintro ⟨c, hc, hcp⟩
        exact ⟨c, mem_cons_of_mem _ hc, hcp⟩
    · obtain ⟨hskip, hsub, hdrop⟩ := ih pending
      have hdrop' : ∀ p ∈ pending, p ∈ (skipRound s skipControlID bs pending).1 ∨
          ∃ c ∈ b :: bs, c.id = p.id ∧ preserveScopeCheckForSubject s c skipControlID = true := by
        intro p hp
        refine (hdrop p hp).imp_right ?_
        rintro ⟨c, hc, hcp⟩
        exact ⟨c, mem_cons_of_mem _ hc, hcp⟩
      dsimp only
      split
      · refine ⟨?_, hsub, hdrop'⟩
        intro id hid
        rcases mem_cons.mp hid with rfl | hid
        · exact mem_cons_self ..
        · exact mem_cons_of_mem _ (hskip id hid)
      · exact ⟨fun id hid => mem_cons_of_mem _ (hskip id hid), hsub, hdrop'⟩

/-- The rounds skip some of the pending beads.  Without an error they skip all but the preserved
checks. -/
theorem skipRounds_spec (fuel : Nat) (pending : List Bead) (s : Store) : ∃ ids,
    (skipRounds skipControlID fuel pending s).1 = skipScopeMembers s ids ∧
      (∀ id ∈ ids, id ∈ pending.map Bead.id) ∧
      ((skipRounds skipControlID fuel pending s).2 = true → ∀ p ∈ pending, p.id ∈ ids ∨
        ∃ b ∈ pending, b.id = p.id ∧ preserveScopeCheckForSubject s b skipControlID = true) := by
  induction fuel generalizing pending s with
  | zero =>
    refine ⟨[], (skipScopeMembers_nil s).symm, nofun, ?_⟩
    intro hdone p hp
    rw [skipRounds, List.isEmpty_iff] at hdone
    rw [hdone] at hp
    cases hp
  | succ fuel ih =>
    obtain ⟨hskip, hsub, hdrop⟩ := @skipRound_spec s skipControlID pending pending
    rw [skipRounds]
    split
    · refine ⟨[], (skipScopeMembers_nil s).symm, nofun, ?_⟩
      intro hdone p hp
      rw [List.isEmpty_iff] at hdone
      rw [hdone] at hdrop
      exact .inr ((hdrop p hp).resolve_left not_mem_nil)
    · obtain ⟨ids, hids, hmem, hall⟩ := ih
        ((skipRound s skipControlID pending pending).1.filter fun b =>
          b.id ∉ (skipRound s skipControlID pending pending).2)
        (skipScopeMembers s (skipRound s skipControlID pending pending).2)
      have hrest : ∀ id ∈ ids, id ∉ (skipRound s skipControlID pending pending).2 ∧
          id ∈ pending.map Bead.id := by
        intro id hid
        obtain ⟨b, hb, rfl⟩ := mem_map.mp (hmem id hid)
        obtain ⟨hb, hnot⟩ := mem_filter.mp hb
        exact ⟨by simpa using hnot, mem_map_of_mem (hsub hb)⟩
      refine ⟨_ ++ ids, hids.trans (skipScopeMembers_append fun id hid hid' =>
        (hrest id hid').1 hid), ?_, ?_⟩
      · intro id hid
        rcases mem_append.mp hid with hid | hid
        · exact hskip id hid
        · exact (hrest id hid).2
      · intro hdone p hp
        rw [mem_append]
        rcases hdrop p hp with hp | hpreserve
        · by_cases hround : p.id ∈ (skipRound s skipControlID pending pending).2
          · exact .inl (.inl hround)
          · rcases hall hdone p (mem_filter.mpr ⟨hp, by simpa using hround⟩) with hid | ⟨b, hb, hbp⟩
            · exact .inl (.inr hid)
            · exact .inr ⟨b, hsub (mem_of_mem_filter hb), hbp⟩
        · exact .inr hpreserve

end Rounds

def failBody (s : Store) (scopeRef : String) (b : Bead) : Bead :=
  closeOutcome Outcome.fail
    (mergeInto (scopeMemberMetadata (scopeMembers s scopeRef)) b)

def addOutput (output : String) (b : Bead) : Bead :=
  if output = "" then b else mergeInto (.ofList [(.outputJSON, output)]) b

def completeBody (s : Store) (scopeRef : String) (subject b : Bead) : Bead :=
  addOutput (resolveScopeOutputJSON (scopeMembers s scopeRef) subject)
    (mergeInto (scopeMemberMetadata (scopeMembers s scopeRef)) b)

theorem closeScopeAsPassed_eq (s : Store) (scopeRef : String) (body subject : Bead) :
    closeScopeAsPassed s scopeRef body subject =
      s.update body.id fun b =>
        if body.status = .closed then completeBody s scopeRef subject b
        else closeOutcome Outcome.pass (completeBody s scopeRef subject b) := by
  have hwrite : ∀ (u : Store) (output : String),
      writeOutputJSON u body.id output = u.update body.id (addOutput output) := by
    intro u output
    unfold writeOutputJSON addOutput
    split
    · have hsame : onBead body.id (fun b => b) = fun b => b := funext fun b => ite_self b
      simp [Store.update, hsame]
    · rfl
  have hid : ∀ b : Bead, (completeBody s scopeRef subject b).id = b.id := by
    intro b
    unfold completeBody addOutput
    split <;> rfl
  simp only [closeScopeAsPassed, hwrite, Store.setMetadataBatch]
  rw [Store.update_update s body.id (f := mergeInto _) _ (fun _ => rfl)]
  split
  · rfl
  · exact Store.update_update _ _ _ hid

theorem frame_mergeInto {batch : Metadata} (h : OnlyResults batch) (b : Bead) :
    Frame b (mergeInto batch b) :=
  ⟨rfl, fun _ hk => val_merge_of_onlyResults h hk⟩

theorem frame_onBead {id : String} {f : Bead → Bead} (h : ∀ b, Frame b (f b)) (b : Bead) :
    Frame b (onBead id f b) := by
  unfold onBead
  split
  · exact h b
  · exact .refl b

theorem frame_skipBead (b : Bead) : Frame b (skipBead b) :=
  frame_closeWith (onlyResults_ofList (by simp [isResultKey])) b

theorem frame_failBody (s : Store) (scopeRef : String) (b : Bead) :
    Frame b (failBody s scopeRef b) :=
  (frame_mergeInto (onlyResults_scopeMemberMetadata _) b).trans
    (frame_closeOutcome _ _)

theorem frame_completeBody (s : Store) (scopeRef : String) (subject b : Bead) :
    Frame b (completeBody s scopeRef subject b) := by
  have hmembers := frame_mergeInto (onlyResults_scopeMemberMetadata (scopeMembers s scopeRef)) b
  unfold completeBody addOutput
  split
  · exact hmembers
  · exact hmembers.trans (frame_mergeInto (onlyResults_ofList (by simp [isResultKey])) _)

/-- The outcome of a body is not among the results it takes over from its members. -/
theorem completeBody_outcome (s : Store) (scopeRef : String) (subject b : Bead) :
    (completeBody s scopeRef subject b).val .outcome = b.val .outcome := by
  have hnone : (scopeMemberMetadata (scopeMembers s scopeRef)).get .outcome = none :=
    scopeMemberMetadata_get _ rfl
  have hmembers : (mergeInto (scopeMemberMetadata (scopeMembers s scopeRef)) b).val .outcome =
      b.val .outcome := by
    simp [mergeInto, Table.val, Table.getD, hnone]
  unfold completeBody addOutput
  split
  · exact hmembers
  · exact hmembers

end GasCity.Dispatch
