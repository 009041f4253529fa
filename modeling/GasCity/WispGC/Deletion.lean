import GasCity.Fallible.Basic
import GasCity.WispGC.Collector

/-! # What a run of the collector deletes

Every deletion of a run has one of three grounds, whatever calls of the stores fail: the bead is
owned by a closed root past the cutoff, is a closed wisp whose root is gone or finished, or is a
read message past its retention.
-/

namespace GasCity.WispGC

open List

/-- The store lost some beads and edges, and only beads with the property. -/
structure Purges (P : Bead → Prop) (s s' : Store) : Prop where
  beads : s'.beads ⊆ s.beads
  deps : s'.deps ⊆ s.deps
  ground : ∀ b ∈ s.beads, b ∉ s'.beads → P b

namespace Purges

variable {P Q : Bead → Prop} {s s₁ s₂ : Store}

theorem refl (P : Bead → Prop) (s : Store) : Purges P s s where
  beads := List.Subset.refl _
  deps := List.Subset.refl _
  ground := fun _ hb hn => absurd hb hn

theorem trans (h₁ : Purges P s s₁) (h₂ : Purges P s₁ s₂) : Purges P s s₂ where
  beads := List.Subset.trans h₂.beads h₁.beads
  deps := List.Subset.trans h₂.deps h₁.deps
  ground := by
    intro b hb hn
    by_cases hb₁ : b ∈ s₁.beads
    · exact h₂.ground b hb₁ hn
    · exact h₁.ground b hb hb₁

theorem mono (h : Purges P s s₁) (hPQ : ∀ b ∈ s.beads, P b → Q b) : Purges Q s s₁ where
  beads := h.beads
  deps := h.deps
  ground := fun b hb hn => hPQ b hb (h.ground b hb hn)

end Purges

theorem purges_remove (s : Store) (ids : List String) :
    Purges (fun b => b.id ∈ ids) s (s.remove ids) where
  beads := fun _ hb => (mem_filter.mp hb).1
  deps := fun _ hd => (mem_filter.mp hd).1
  ground := by
    intro b hb hn
    by_contra hid
    exact hn (mem_filter.mpr ⟨hb, by simpa using hid⟩)

theorem purges_dropEdges (P : Bead → Prop) (s : Store) (p : Dep → Bool) :
    Purges P s (s.dropEdges p) where
  beads := List.Subset.refl _
  deps := fun _ hd => (mem_filter.mp hd).1
  ground := fun _ hb hn => absurd hb hn

section

variable (cfg : Config)

theorem purges_deleteWorkflowBead (call : Call) (s : Store) (id : String) :
    Purges (fun b => b.id = id) s (deleteWorkflowBead cfg call s id).1 := by
  unfold deleteWorkflowBead
  split_ifs
  · exact purges_dropEdges _ _ _
  · refine (purges_remove s [id]).mono ?_
    intro b _ hb
    exact mem_singleton.mp hb

theorem purges_deleteEach (rootID : String) (ids : List String) (s : Store) :
    Purges (fun b => b.id ∈ ids) s (deleteEach cfg rootID ids s).1 := by
  induction ids generalizing s with
  | nil => exact Purges.refl _ s
  | cons id ids ih =>
    have first : Purges (fun b => b.id ∈ id :: ids) s
        (deleteWorkflowBead cfg (.deleteOwned rootID id) s id).1 := by
      refine (purges_deleteWorkflowBead cfg _ s id).mono ?_
      rintro b _ rfl
      exact mem_cons_self
    rw [deleteEach]
    split
    · next s₁ h =>
      rw [h] at first
      apply first.trans
      exact (ih s₁).mono fun b _ hb => mem_cons_of_mem _ hb
    · next s₁ h =>
      rw [h] at first
      exact first

theorem purges_deleteBatch (rootID : String) {ids : List String} {chunks : List (List String)}
    (hsub : ∀ chunk ∈ chunks, chunk ⊆ ids) (s : Store) :
    Purges (fun b => b.id ∈ ids) s (deleteBatch cfg rootID chunks s).1 := by
  induction chunks generalizing s with
  | nil => exact Purges.refl _ s
  | cons chunk chunks ih =>
    rw [deleteBatch]
    split_ifs
    · exact Purges.refl _ s
    · have first := (purges_remove s chunk).mono fun b _ hb => hsub chunk mem_cons_self hb
      exact first.trans (ih (fun c hc => hsub c (mem_cons_of_mem _ hc)) _)

theorem purges_deleteWorkflowBeadsBatch (rootID : String) (ids : List String) (s : Store) :
    Purges (fun b => b.id ∈ ids) s (deleteWorkflowBeadsBatch cfg rootID ids s).1 := by
  unfold deleteWorkflowBeadsBatch
  split_ifs
  · refine purges_deleteBatch cfg rootID (fun chunk hchunk => ?_) s
    obtain ⟨i, -, rfl⟩ := mem_map.mp hchunk
    exact fun _ h => mem_of_mem_drop (mem_of_mem_take h)
  · exact purges_deleteEach cfg rootID ids s

end

variable {P : Bead → Prop} {a id rootID : String} {attempted : ℕ} {cfg : Config} {s s' : Store}

theorem purges_purgeExpiredBeads {cutoff : ℤ} {batchCap : ℕ}
    {deleteFn : Store → String → Store × Bool} {entries : List Bead}
    (step : ∀ entry ∈ entries, expired cutoff entry = true → ∀ s₁, Purges P s s₁ →
      Purges P s₁ (deleteFn s₁ entry.id).1)
    {w : Sweep} (h : Purges P s w.store) :
    Purges P s (purgeExpiredBeads cutoff batchCap deleteFn entries attempted w).store := by
  induction entries generalizing attempted w with
  | nil => exact h
  | cons entry entries ih =>
    have rest := fun e he => step e (mem_cons_of_mem entry he)
    rw [purgeExpiredBeads]
    split_ifs with _ hexp
    · exact h
    · apply ih rest
      exact h.trans (step entry mem_cons_self hexp w.store h)
    · exact ih rest h

abbrev Owns (s : Store) (rootID : String) : String → Prop :=
  Relation.ReflTransGen (fun a b => b ∈ owned s rootID a) rootID

theorem owned_subset (h : Purges P s s') (rootID id : String) :
    owned s' rootID id ⊆ owned s rootID id := by
  intro x hx
  simp only [owned, Store.children, mem_filter, mem_append, mem_map] at hx ⊢
  obtain ⟨(hx | ⟨b, ⟨hb, hp⟩, rfl⟩) | ⟨d, ⟨hd, hp⟩, rfl⟩, hne⟩ := hx
  · refine ⟨.inl (.inl ?_), hne⟩
    split_ifs at hx ⊢ with hid
    · simp only [mem_filter, mem_map] at hx ⊢
      obtain ⟨⟨b, ⟨hb, hp⟩, rfl⟩, hroot⟩ := hx
      exact ⟨⟨b, ⟨h.beads hb, hp⟩, rfl⟩, hroot⟩
    · simp at hx
  · exact ⟨.inl (.inr ⟨b, ⟨h.beads hb, hp⟩, rfl⟩), hne⟩
  · exact ⟨.inr ⟨d, ⟨h.deps hd, hp⟩, rfl⟩, hne⟩

theorem owns_mono (h : Purges P s s') (hown : Owns s' rootID id) : Owns s rootID id :=
  Relation.ReflTransGen.mono (fun a _ hab => owned_subset h rootID a hab) _ _ hown

theorem leads_ownedNext {b : String}
    (h : Depth.Leads (ownedNext cfg s rootID) a b) : b ∈ owned s rootID a := by
  obtain ⟨ks, hks, hb⟩ := h
  unfold ownedNext at hks
  split_ifs at hks
  cases hks
  exact hb

theorem owns_of_collect {ids : List String}
    (h : collectExpiredBeadClosure cfg s rootID = .ok ids) (hid : id ∈ ids) :
    Owns s rootID id := by
  unfold collectExpiredBeadClosure at h
  split_ifs at h
  cases hv : Depth.visit (ownedNext cfg s rootID) (s.beads.length + s.deps.length + 2) rootID
      ⟨[], []⟩ with
  | error e => simp [hv, Except.map] at h
  | ok w =>
    simp only [hv, Except.map, Except.ok.injEq] at h
    subst h
    rcases Depth.reaches_of_visit hv hid with hl | hr
    · simp at hl
    · exact Relation.ReflTransGen.mono (fun a b hab => leads_ownedNext hab) _ _ hr

theorem purges_deleteExpiredBeadClosure (cfg : Config) (s : Store) (rootID : String) :
    Purges (fun b => Owns s rootID b.id) s (deleteExpiredBeadClosure cfg s rootID).1 := by
  unfold deleteExpiredBeadClosure
  split
  · exact Purges.refl _ s
  · next ids h =>
    refine (purges_deleteWorkflowBeadsBatch cfg rootID ids s).mono ?_
    intro b _ hb
    exact owns_of_collect h hb

def known (s : Store) (rootID : String) : Finset String :=
  insert rootID (s.beads.map (·.id) ++ s.deps.map (·.issueID)).toFinset

theorem card_known_lt (s : Store) (rootID : String) :
    (known s rootID).card < s.beads.length + s.deps.length + 2 := by
  have hins := Finset.card_insert_le rootID (s.beads.map (·.id) ++ s.deps.map (·.issueID)).toFinset
  have hlen := toFinset_card_le (s.beads.map (·.id) ++ s.deps.map (·.issueID))
  simp only [length_append, length_map] at hlen
  unfold known
  omega

theorem owned_subset_known {b : String} (h : b ∈ owned s rootID a) :
    b ∈ known s rootID := by
  simp only [known, Finset.mem_insert, mem_toFinset, mem_append, mem_map]
  simp only [owned, Store.children, mem_filter, mem_append, mem_map] at h
  obtain ⟨(hx | ⟨b, ⟨hb, hp⟩, rfl⟩) | ⟨d, ⟨hd, hp⟩, rfl⟩, hne⟩ := h
  · split_ifs at hx
    · simp only [mem_filter, mem_map] at hx
      obtain ⟨⟨b, ⟨hb, hp⟩, rfl⟩, hroot⟩ := hx
      exact .inr (.inl ⟨b, hb, rfl⟩)
    · simp at hx
  · exact .inr (.inl ⟨b, hb, rfl⟩)
  · exact .inr (.inr ⟨d, hd, rfl⟩)

theorem collect_ne_bound (cfg : Config) (s : Store) (rootID : String) :
    collectExpiredBeadClosure cfg s rootID ≠ .error none := by
  unfold collectExpiredBeadClosure
  split_ifs
  · simp
  · have inside : ∀ a ∈ known s rootID, ∀ b,
        Depth.Leads (ownedNext cfg s rootID) a b → b ∈ known s rootID := by
      intro a _ b hab
      exact owned_subset_known (leads_ownedNext hab)
    have bound := Depth.visit_ne_bound (w := ⟨[], []⟩) inside (Finset.mem_insert_self _ _)
      (lt_of_le_of_lt (Finset.card_filter_le _ _) (card_known_lt s rootID))
    exact map_ne_error bound

theorem listSubtree_ne_bound (cfg : Config) (s : Store) (rootID : String) :
    listSubtree cfg s rootID ≠ .error none := by
  unfold listSubtree
  split_ifs
  · simp
  · have hcard : (insert rootID (s.beads.map (·.id)).toFinset).card < s.beads.length + 2 := by
      have hins := Finset.card_insert_le rootID (s.beads.map (·.id)).toFinset
      have hlen := toFinset_card_le (s.beads.map (·.id))
      simp only [length_map] at hlen
      omega
    have inside : ∀ a ∈ insert rootID (s.beads.map (·.id)).toFinset,
        ∀ b, Depth.Leads (subtreeNext s rootID) a b →
          b ∈ insert rootID (s.beads.map (·.id)).toFinset := by
      rintro a - b ⟨ks, hks, hb⟩
      cases hks
      simp only [Store.children, mem_filter, mem_map, mem_append] at hb
      obtain ⟨⟨x, hx, rfl⟩, -⟩ := hb
      have hmem : x ∈ s.beads := by
        rcases hx with hx | hx
        · split_ifs at hx
          · exact (mem_filter.mp hx).1
          · simp at hx
        · exact hx.1
      simp only [Finset.mem_insert, mem_toFinset, mem_map]
      exact .inr ⟨x, hmem, rfl⟩
    have bound := Depth.visit_ne_bound (w := ⟨[], []⟩) inside (Finset.mem_insert_self _ _)
      (lt_of_le_of_lt (Finset.card_filter_le _ _) hcard)
    exact map_ne_error bound

/-- The bead is owned by a closed root created before the cutoff, whatever its own status. -/
def OwnedByExpiredRoot (cfg : Config) (s : Store) (b : Bead) : Prop :=
  ∃ root ∈ s.beads, root.status = "closed" ∧ isWispGCRoot root = true ∧
    expired cfg.cutoff root = true ∧ Owns s root.id b.id

/-- The bead is an old closed wisp whose root is not in the store or is finished. -/
def OrphanedClosedWisp (cfg : Config) (s : Store) (b : Bead) : Prop :=
  b.status = "closed" ∧ b.wispTier = true ∧ b.rootBeadID ≠ "" ∧ expired cfg.cutoff b = true ∧
    (s.get b.rootBeadID = none ∨
      ∃ root ∈ s.beads, root.id = b.rootBeadID ∧ isTerminalStatus root.status = true)

def ReadMessageExpired (cfg : Config) (b : Bead) : Prop :=
  isReadMessageWisp b = true ∧ expired cfg.mailCutoff b = true

theorem mem_foldl_addUnique {l entries : List Bead} {b : Bead}
    (h : b ∈ l.foldl addUnique entries) : b ∈ entries ∨ b ∈ l := by
  induction l generalizing entries with
  | nil => exact .inl h
  | cons c l ih =>
    rcases ih h with h | h
    · unfold addUnique at h
      split_ifs at h
      · exact .inl h
      · rcases mem_append.mp h with h | h
        · exact .inl h
        · exact .inr (mem_cons.mpr (.inl (mem_singleton.mp h)))
    · exact .inr (mem_cons_of_mem c h)

theorem of_mem_closedWispGCEntries {b : Bead} (h : b ∈ closedWispGCEntries s) :
    b ∈ s.beads ∧ b.status = "closed" ∧ isWispGCRoot b = true := by
  rcases mem_foldl_addUnique h with h | h
  · simp at h
  · simp only [mem_flatMap, mem_singleton, mem_filter, Bool.and_eq_true,
      beq_iff_eq] at h
    obtain ⟨_, rfl, sel, hsel, hb, hstatus, hp⟩ := h
    exact ⟨hb, hstatus, any_eq_true.mpr ⟨sel, hsel, hp⟩⟩

theorem purges_purgePhase (cfg : Config) (s : Store) :
    Purges (OwnedByExpiredRoot cfg s) s (purgePhase cfg s).store := by
  unfold purgePhase
  split_ifs
  · apply purges_purgeExpiredBeads
    · intro entry hentry hexp s₁ h₁
      obtain ⟨hmem, hclosed, hroot⟩ := of_mem_closedWispGCEntries hentry
      refine (purges_deleteExpiredBeadClosure cfg s₁ entry.id).mono ?_
      intro b _ hown
      exact ⟨entry, hmem, hclosed, hroot, hexp, owns_mono h₁ hown⟩
    · exact Purges.refl _ s
  · exact Purges.refl _ s

theorem root_of_rootCollectible {s₁ : Store} (h : Purges (OrphanedClosedWisp cfg s) s s₁)
    (hroot : rootCollectible cfg s₁ rootID = true) :
    s.get rootID = none ∨
      ∃ root ∈ s.beads, root.id = rootID ∧ isTerminalStatus root.status = true := by
  simp only [rootCollectible, Bool.and_eq_true] at hroot
  cases hget : s.get rootID with
  | none => exact .inl rfl
  | some root =>
    right
    have hmem : root ∈ s.beads := mem_of_find?_eq_some hget
    have hid : root.id = rootID := by simpa using find?_some hget
    cases hget₁ : s₁.get rootID with
    | none =>
      have hgone : root ∉ s₁.beads := by
        intro hin
        have hne := find?_eq_none.mp hget₁ root hin
        simp [hid] at hne
      refine ⟨root, hmem, hid, ?_⟩
      simp [isTerminalStatus, (h.ground root hmem hgone).1]
    | some root₁ =>
      simp only [hget₁] at hroot
      exact ⟨root₁, h.beads (mem_of_find?_eq_some hget₁), by
        simpa using find?_some hget₁, hroot.2⟩

theorem eq_of_id_eq {a b : Bead} (ha : a ∈ s.beads) (hb : b ∈ s.beads) (h : a.id = b.id) : a = b :=
  inj_on_of_nodup_map s.unique ha hb h

theorem purges_reapLoop {candidates : List Bead}
    (hc : ∀ c ∈ candidates, c ∈ s.beads ∧ c.status = "closed" ∧ c.wispTier = true)
    {w : Sweep} (h : Purges (OrphanedClosedWisp cfg s) s w.store) :
    Purges (OrphanedClosedWisp cfg s) s (reapLoop cfg candidates attempted w).store := by
  induction candidates generalizing attempted w with
  | nil => exact h
  | cons c candidates ih =>
    have hc' := fun x hx => hc x (mem_cons_of_mem c hx)
    rw [reapLoop]
    split_ifs with _ hcond
    · exact h
    · simp only [Bool.and_eq_true, decide_eq_true_eq] at hcond
      obtain ⟨⟨hroot, hexp⟩, hcoll⟩ := hcond
      obtain ⟨hmem, hclosed, htier⟩ := hc c mem_cons_self
      apply ih hc'
      apply h.trans
      refine (purges_deleteWorkflowBead cfg _ w.store c.id).mono ?_
      intro b hb hid
      obtain rfl := eq_of_id_eq (h.beads hb) hmem hid
      exact ⟨hclosed, htier, hroot, hexp, root_of_rootCollectible h hcoll⟩
    · exact ih hc' h

theorem purges_reapOrphanedClosedWisps (cfg : Config) (w : Sweep) :
    Purges (OrphanedClosedWisp cfg w.store) w.store (reapOrphanedClosedWisps cfg w).store := by
  unfold reapOrphanedClosedWisps
  split_ifs
  · exact Purges.refl _ _
  · apply purges_reapLoop _ (Purges.refl _ _)
    intro c hc
    simpa using hc
  · exact Purges.refl _ _

theorem purges_purgeReadMessageWisps (cfg : Config) (w : Sweep) :
    Purges (ReadMessageExpired cfg) w.store (purgeReadMessageWisps cfg w).store := by
  unfold purgeReadMessageWisps
  split_ifs
  · exact Purges.refl _ _
  · apply purges_purgeExpiredBeads _ (Purges.refl _ _)
    intro entry hentry hexp s₁ h₁
    obtain ⟨hmem, hread⟩ := mem_filter.mp hentry
    refine (purges_deleteWorkflowBead cfg _ s₁ entry.id).mono ?_
    intro b hb hid
    obtain rfl := eq_of_id_eq (h₁.beads hb) hmem hid
    exact ⟨hread, hexp⟩

/-- Why a bead may be gone from the graph store after the sweeps of closed beads. -/
theorem purges_graphPhase (cfg : Config) (s : Store) :
    Purges (fun b => OwnedByExpiredRoot cfg s b ∨
      OrphanedClosedWisp cfg (purgePhase cfg s).store b) s (graphPhase cfg s).store := by
  have first := (purges_purgePhase cfg s).mono
    (Q := fun b => OwnedByExpiredRoot cfg s b ∨
      OrphanedClosedWisp cfg (purgePhase cfg s).store b) fun b _ hb => .inl hb
  unfold graphPhase
  split_ifs
  · apply first.trans
    exact (purges_reapOrphanedClosedWisps cfg (purgePhase cfg s)).mono fun b _ hb => .inr hb
  · exact first

def MailStore.Purged (P : Bead → Prop) : MailStore → MailStore → Prop
  | .own s, .own s' => Purges P s s'
  | before, after => before = after

theorem purged_mailPhase (cfg : Config) (mail : MailStore) (w : Sweep) :
    Purges (fun b => mail = .shared ∧ ReadMessageExpired cfg b) w.store
      (mailPhase cfg mail w).1.store ∧
    mail.Purged (ReadMessageExpired cfg) (mailPhase cfg mail w).2 := by
  unfold mailPhase
  split_ifs
  · cases mail with
    | absent => exact ⟨Purges.refl _ _, rfl⟩
    | shared =>
      refine ⟨?_, rfl⟩
      exact (purges_purgeReadMessageWisps cfg w).mono fun b _ hb => ⟨rfl, hb⟩
    | own s =>
      exact ⟨Purges.refl _ _, purges_purgeReadMessageWisps cfg { w with store := s }⟩
  · refine ⟨Purges.refl _ _, ?_⟩
    cases mail with
    | absent => rfl
    | shared => rfl
    | own s => exact Purges.refl _ s

/-- One run ends and deletes from the graph store only what an expired closed root owns, closed
orphans and read messages; from a mailbox store only read messages past their retention. -/
theorem runGC_deletes_only_grounded (cfg : Config) (w : Stores) :
    (∀ s rootID, collectExpiredBeadClosure cfg s rootID ≠ .error none ∧
      listSubtree cfg s rootID ≠ .error none) ∧
    (∀ b ∈ (closingPhase cfg w.graph).beads, b ∉ (runGC cfg w).1.store.beads →
      OwnedByExpiredRoot cfg (closingPhase cfg w.graph) b ∨
      OrphanedClosedWisp cfg (purgePhase cfg (closingPhase cfg w.graph)).store b ∨
      (w.mail = .shared ∧ ReadMessageExpired cfg b)) ∧
    w.mail.Purged (ReadMessageExpired cfg) (runGC cfg w).2 := by
  refine ⟨fun s rootID => ⟨collect_ne_bound cfg s rootID, listSubtree_ne_bound cfg s rootID⟩, ?_⟩
  unfold runGC
  simp only
  split_ifs
  · refine ⟨fun b hb hn => absurd hb hn, ?_⟩
    cases hm : w.mail with
    | absent => rfl
    | shared => rfl
    | own s => exact Purges.refl _ s
  · have graph := purges_graphPhase cfg (closingPhase cfg w.graph)
    obtain ⟨mail, own⟩ :=
      purged_mailPhase cfg w.mail (graphPhase cfg (closingPhase cfg w.graph))
    refine ⟨?_, own⟩
    intro b hb hn
    by_cases hkept : b ∈ (graphPhase cfg (closingPhase cfg w.graph)).store.beads
    · exact .inr (.inr (mail.ground b hkept hn))
    · rcases graph.ground b hb hkept with h | h
      · exact .inl h
      · exact .inr (.inl h)

/-- A closed molecule past the cutoff with a step that is still open. -/
def moleculeWithOpenStep : Stores where
  graph :=
    { beads :=
        [{ id := "mol", status := "closed", type := "molecule", createdAt := 1, updatedAt := 1,
           parentID := "", wispTier := false, kind := "", formulaContract := "", rootBeadID := "",
           gcExempt := "", read := "" },
         { id := "step", status := "open", type := "task", createdAt := 90, updatedAt := 95,
           parentID := "mol", wispTier := false, kind := "", formulaContract := "",
           rootBeadID := "", gcExempt := "", read := "" }]
      deps := []
      unique := by decide }
  mail := .absent

/-- No enforcement of the optional sweeps and no fault of the store. -/
def quietConfig : Config where
  now := 100
  ttl := 10
  mailRetentionTTL := 0
  closeAbandonedTTL := 24
  closeAbandonedEnforced := false
  reapOrphansEnforced := false
  closurePurgeBatchCap := 500
  reapOrphanBatchCap := 500
  batchDeleter := false
  fails := fun _ => false
  lost := fun _ _ => false

/-- The open step is deleted with its closed root. -/
theorem open_step_deleted_with_closed_root :
    ¬ ∀ (cfg : Config) (w : Stores), ∀ b ∈ (closingPhase cfg w.graph).beads,
      b ∉ (runGC cfg w).1.store.beads → isTerminalStatus b.status = true := by
  intro h
  have gone : (runGC quietConfig moleculeWithOpenStep).1.store.beads = [] := by decide +kernel
  have kept : (closingPhase quietConfig moleculeWithOpenStep.graph).beads =
      moleculeWithOpenStep.graph.beads := by decide +kernel
  have bad := h quietConfig moleculeWithOpenStep
    (moleculeWithOpenStep.graph.beads.getLast (by decide)) (by rw [kept]; decide)
    (by rw [gone]; decide)
  exact absurd bad (by decide)

end GasCity.WispGC
