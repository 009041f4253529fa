import GasCity.Dispatch.SourceChain
import GasCity.Dispatch.StepCases
import Mathlib.Algebra.Order.BigOperators.Group.List

/-! # Closing a source chain is safe

The scan for live roots ends and misses no root that the stores list.  Every source
that the walk closes has then no live workflow below it but those that the listing
overlooks, and a walk that only checks changes nothing.
-/

namespace GasCity.Dispatch

open List

section Scan

variable {w : Stores} {scanned : List SourceWorkflowStore} {sourceID sourceRef : String}

def scanScopes (scanned : List SourceWorkflowStore) : List String :=
  scanned.zipIdx.map fun entry => scanScope entry.2 entry.1.storeRef

def scanRefs (scanned : List SourceWorkflowStore) (sourceRef : String) : List String :=
  (sourceRef :: scanned.map SourceWorkflowStore.storeRef).map trimSpace

def scanIDs (w : Stores) (scanned : List SourceWorkflowStore) (sourceID : String) : List String :=
  (sourceID :: (scannedBeads w scanned).map Bead.id).map trimSpace

/-- The places that a scan for a source can reach. -/
structure Scannable (w : Stores) (scanned : List SourceWorkflowStore) (sourceID sourceRef : String)
    (n : ScanNode) : Prop where
  listed : (n.info, n.index) ∈ scanned.zipIdx
  ref : n.sourceRef ∈ scanRefs scanned sourceRef
  id : n.sourceID ∈ scanIDs w scanned sourceID

variable {info : SourceWorkflowStore} {n : ScanNode}

theorem mem_scanNodes : n ∈ scanNodes scanned sourceID sourceRef ↔
    trimSpace sourceID ≠ "" ∧ (n.info, n.index) ∈ scanned.zipIdx ∧
      n.sourceRef = trimSpace sourceRef ∧ n.sourceID = trimSpace sourceID := by
  unfold scanNodes
  split
  · next hempty => simp [hempty]
  · next hne =>
    simp only [mem_map, hne, ne_eq, not_false_eq_true, true_and]
    constructor
    · rintro ⟨⟨info, i⟩, hmem, rfl⟩
      exact ⟨hmem, rfl, rfl⟩
    · rintro ⟨hmem, href, hid⟩
      exact ⟨(n.info, n.index), hmem, by rw [← href, ← hid]⟩

theorem scannable_start (hn : n ∈ scanNodes scanned sourceID sourceRef) :
    Scannable w scanned sourceID sourceRef n := by
  obtain ⟨-, hlisted, href, hid⟩ := mem_scanNodes.mp hn
  exact ⟨hlisted, by simp [href, scanRefs], by simp [hid, scanIDs]⟩

theorem mem_scanned {i : ℕ} (h : (info, i) ∈ scanned.zipIdx) :
    info ∈ scanned := by
  rw [mem_zipIdx_iff_getElem?] at h
  exact mem_of_getElem? h

theorem Scannable.children {n' : ScanNode} (h : Scannable w scanned sourceID sourceRef n)
    (hn' : n' ∈ scanChildren w scanned n) : Scannable w scanned sourceID sourceRef n' := by
  obtain ⟨child, hchild, hn'⟩ := mem_flatMap.mp hn'
  obtain ⟨-, hlisted, href, hid⟩ := mem_scanNodes.mp hn'
  have hinfo : n.info ∈ scanned := mem_scanned h.listed
  have hmem : child ∈ scannedBeads w scanned :=
    mem_flatMap.mpr ⟨n.info, hinfo, (mem_filter.mp hchild).1⟩
  refine ⟨hlisted, ?_, ?_⟩
  · rw [href]
    exact mem_map_of_mem (mem_cons_of_mem _ (mem_map_of_mem hinfo))
  · rw [hid]
    exact mem_map_of_mem (mem_cons_of_mem _ (mem_map_of_mem hmem))

theorem length_scanNodes_le : (scanNodes scanned sourceID sourceRef).length ≤ scanned.length := by
  unfold scanNodes
  split <;> simp

theorem length_beads_le (h : info ∈ scanned) :
    (w info.store).beads.length ≤ (scannedBeads w scanned).length := by
  rw [scannedBeads, length_flatMap]
  exact le_sum_of_mem (mem_map_of_mem h)

theorem length_scanChildren_le (h : n.info ∈ scanned) :
    (scanChildren w scanned n).length ≤ (scannedBeads w scanned).length * scanned.length := by
  rw [scanChildren, length_flatMap]
  calc _ ≤ ((sourceWorkflowChildSources (w n.info.store) n.sourceID n.sourceRef
            n.info.storeRef).map fun _ => scanned.length).sum :=
        sum_le_sum fun _ _ => length_scanNodes_le
    _ = (sourceWorkflowChildSources (w n.info.store) n.sourceID n.sourceRef
          n.info.storeRef).length * scanned.length := by simp
    _ ≤ _ := Nat.mul_le_mul_right _ ((length_filter_le _ _).trans (length_beads_le h))

theorem trimSpace_of_mem {s : String} {l : List String} (h : s ∈ l.map trimSpace) :
    trimSpace s = s := by
  obtain ⟨t, -, rfl⟩ := mem_map.mp h
  exact trimSpace_trimSpace t

def scanKeys (w : Stores) (scanned : List SourceWorkflowStore) (sourceID sourceRef : String) :
    Finset (String × String × String) :=
  (scanScopes scanned).toFinset ×ˢ (scanRefs scanned sourceRef).toFinset ×ˢ
    (scanIDs w scanned sourceID).toFinset

theorem card_scanKeys_le : (scanKeys w scanned sourceID sourceRef).card ≤
    scanned.length * (scanned.length + 1) * ((scannedBeads w scanned).length + 1) := by
  rw [scanKeys, Finset.card_product, Finset.card_product, ← Nat.mul_assoc]
  refine Nat.mul_le_mul (Nat.mul_le_mul ?_ ?_) ?_
  · exact (toFinset_card_le _).trans (by simp [scanScopes])
  · exact (toFinset_card_le _).trans (by simp [scanRefs])
  · exact (toFinset_card_le _).trans (by simp [scanIDs])

theorem Scannable.key_mem (h : Scannable w scanned sourceID sourceRef n) :
    sourceWorkflowScanKey n ∈ scanKeys w scanned sourceID sourceRef := by
  have hscope : scanScope n.index n.info.storeRef ∈ scanScopes scanned :=
    mem_map.mpr ⟨_, h.listed, rfl⟩
  have href : trimSpace n.sourceRef ∈ scanRefs scanned sourceRef := by
    rw [trimSpace_of_mem h.ref]
    exact h.ref
  have hid : trimSpace n.sourceID ∈ scanIDs w scanned sourceID := by
    rw [trimSpace_of_mem h.id]
    exact h.id
  simp only [sourceWorkflowScanKey, scanKeys, Finset.mem_product, mem_toFinset]
  exact ⟨hscope, href, hid⟩

theorem listLiveSourceWorkflowRoots_isSome (rootID rootSourceRef : String) :
    (listLiveSourceWorkflowRoots w scanned sourceID sourceRef rootID rootSourceRef).isSome
      = true := by
  apply Worklist.search_isSome (U := Scannable w scanned sourceID sourceRef)
  · exact fun n hn => hn.key_mem
  · exact fun n hn => ⟨fun n' => hn.children, length_scanChildren_le (mem_scanned hn.listed)⟩
  · exact fun n => scannable_start
  · rw [toFinset_nil, Finset.sdiff_empty, scanFuel]
    exact Nat.add_le_add length_scanNodes_le (Nat.mul_le_mul_right _ card_scanKeys_le)

theorem mem_of_listLive {rootID rootSourceRef : String} {roots : List Bead}
    (hdistinct : (scanScopes scanned).Nodup)
    (h : listLiveSourceWorkflowRoots w scanned sourceID sourceRef rootID rootSourceRef = some roots)
    (hid : trimSpace sourceID ≠ "") (hinfo : info ∈ scanned)
    {root : Bead} (hroot : root ∈ listLiveRoots (w info.store) sourceID sourceRef info.storeRef)
    (hkeep : isExcludedRoot rootID rootSourceRef root = false) : root ∈ roots := by
  obtain ⟨i, hi, rfl⟩ := getElem_of_mem hinfo
  have hlisted : (scanned[i], i) ∈ scanned.zipIdx := by
    rw [mem_zipIdx_iff_getElem?]
    exact getElem?_eq_getElem hi
  have hstart : (⟨i, scanned[i], trimSpace sourceRef, trimSpace sourceID⟩ : ScanNode) ∈
      scanNodes scanned sourceID sourceRef := mem_scanNodes.mpr ⟨hid, hlisted, rfl, rfl⟩
  refine Worklist.emit_subset_of_search ?_
    (fun n hn n' => hn.children) (fun n => scannable_start)
    (fun _ _ hseen => absurd hseen not_mem_nil) h hstart ?_
  · intro n n' hn hn' hkey
    simp only [sourceWorkflowScanKey, Prod.mk.injEq] at hkey
    obtain ⟨hscope, href, hid⟩ := hkey
    have heq : (n.info, n.index) = (n'.info, n'.index) :=
      inj_on_of_nodup_map hdistinct hn.listed hn'.listed hscope
    rw [trimSpace_of_mem hn.ref, trimSpace_of_mem hn'.ref] at href
    rw [trimSpace_of_mem hn.id, trimSpace_of_mem hn'.id] at hid
    cases n
    cases n'
    simp_all
  · simp only [scanRoots, withoutSourceWorkflowRoot, mem_filter]
    refine ⟨?_, by simp [hkeep]⟩
    simpa [listLiveRoots, namesSource, workflowMatchesSource] using hroot

end Scan

/-- Only the bead with an id in one of the stores changes, in its status and result. -/
def Touched (store : ℕ) (id : String) (w w' : Stores) : Prop :=
  ∀ k, ∃ g, Changed g (w k) (w' k) ∧ ∀ b : Bead, (k = store → b.id ≠ id) → g b = b

theorem Touched.refl (store : ℕ) (id : String) (w : Stores) : Touched store id w w :=
  fun k => ⟨_, Changed.refl (w k), fun _ _ => rfl⟩

theorem Touched.trans {store : ℕ} {id : String} {w w' w'' : Stores} (h : Touched store id w w')
    (h' : Touched store id w' w'') : Touched store id w w'' := by
  intro k
  obtain ⟨g, hg, hsame⟩ := h k
  obtain ⟨g', hg', hsame'⟩ := h' k
  refine ⟨_, hg.trans hg', fun b hb => ?_⟩
  rw [Function.comp_apply, hsame b hb, hsame' b hb]

theorem touched_update (w : Stores) (store : ℕ) (id : String) {f : Bead → Bead}
    (hframe : ∀ b, Frame b (f b)) (hclosed : ∀ b, b.status = .closed → (f b).status = .closed) :
    Touched store id w (w.update store id f) := by
  intro k
  by_cases hk : k = store
  · subst hk
    refine ⟨onBead id f, ⟨?_, frame_onBead hframe, ?_⟩, fun b hb => if_neg (hb rfl)⟩
    · simp [Stores.update, Store.update]
    · intro b _ hb
      unfold onBead
      split
      · exact hclosed b hb
      · exact hb
  · refine ⟨_, ?_, fun _ _ => rfl⟩
    rw [Stores.update, Function.update_of_ne hk]
    exact Changed.refl _

theorem onlyResults_nonGC (m : Metadata) : OnlyResults (nonGCMetadata m) := by
  intro k hk
  rw [nonGCMetadata, Table.get_ofKeys, if_neg]
  intro hmem
  have hkey := (Finset.mem_filter.mp hmem).2
  cases k <;> simp_all [isResultKey, isNonGCKey]

theorem frame_closeSource (b : Bead) : Frame b (closeSourceBeadPreservingOutcome b) := by
  unfold closeSourceBeadPreservingOutcome
  split
  · exact frame_closeOutcome _ b
  · exact ⟨rfl, fun _ _ => rfl⟩

theorem closeSource_closed (b : Bead) :
    (closeSourceBeadPreservingOutcome b).status = .closed := by
  unfold closeSourceBeadPreservingOutcome
  split <;> rfl

section Hop

variable {opts : ChainOptions} {rootID : String} {mutate : Bool} {fails : ChainPhase → Bool}
  {w w' : Stores} {p p' : Position} {current : Bead}

def HopResult.stores : HopResult → Stores
  | .stop w | .fail w _ | .next w _ => w

def Position.source (rootID : String) (p : Position) (current : Bead) (store : ℕ) (ref : String) :
    Position where
  store := store
  id := trimSpace (current.val .sourceBeadID)
  ref := ref
  excludeRef := if p.id = rootID ∧ p.ref = "" then trimSpace (current.val .sourceStoreRef)
    else p.excludeRef
  visited := (trimSpace ref, trimSpace (current.val .sourceBeadID)) :: p.visited

variable (opts rootID mutate) in
/-- What a hop can do.  One that goes on has found no live root, and has at most changed the
source. -/
inductive Hopped (w : Stores) (p : Position) : HopResult → Prop where
  | stop : Hopped w p (.stop w)
  | fail {e : ChainError} (he : e ≠ .scanFuel) : Hopped w p (.fail w e)
  | merged {store : ℕ} {id : String} {batch : Metadata} {e : ChainError} (hmutate : mutate = true)
      (he : e ≠ .scanFuel) : Hopped w p (.fail (w.update store id (mergeInto batch)) e)
  | next {current : Bead} {p' : Position} {store : ℕ} {ref : String} {w' : Stores}
      (hget : (w p.store).get p.id = some current)
      (hid : trimSpace (current.val .sourceBeadID) ≠ "")
      (hhome : ref = "" → store = p.store ∧ p.ref = "")
      (hp' : p' = p.source rootID current store ref) (htouched : Touched p'.store p'.id w w')
      (hpure : mutate = false → w' = w)
      (hscan : listLiveSourceWorkflowRoots w (sourceWorkflowStoresForLiveRootScan opts p'.store
        p'.ref) p'.id p'.ref rootID p'.excludeRef = some []) : Hopped w p (.next w' p')

theorem resolveSourceStore_cases (opts : ChainOptions) (fails : ChainPhase → Bool) (p : Position)
    (nextRef : String) :
    match resolveSourceStore opts fails p nextRef with
    | .noResolver => True
    | .error e => e ≠ .scanFuel
    | .found store ref => ref = "" → store = p.store ∧ p.ref = "" := by
  unfold resolveSourceStore
  cases opts.resolveStoreRef with
  | none => split_ifs <;> simp
  | some resolve =>
    dsimp only
    cases resolve nextRef <;> split_ifs with href <;> simp [href]

variable (opts rootID mutate fails w p) in
theorem hopped : Hopped opts rootID mutate w p (hop opts rootID mutate fails w p) := by
  unfold hop
  split
  · exact .fail nofun
  split
  · exact .stop
  · next current hget =>
    dsimp only
    split
    · exact .stop
    · next hid =>
      have hresolve := resolveSourceStore_cases opts fails p
        (trimSpace (current.val .sourceStoreRef))
      split
      · exact .stop
      · next e he =>
        rw [he] at hresolve
        exact .fail hresolve
      · next store ref hfound =>
        rw [hfound] at hresolve
        have hmerge := touched_update w store (trimSpace (current.val .sourceBeadID))
          (frame_mergeInto (onlyResults_nonGC current.metadata)) fun _ => id
        split
        · exact .stop
        split
        · exact .fail nofun
        unfold loadAndClose
        split
        · exact .fail nofun
        split
        · exact .stop
        split
        · exact .fail nofun
        split
        · next hnone => exact absurd (hnone ▸ listLiveSourceWorkflowRoots_isSome ..) (by decide)
        · exact .stop
        · next hscan =>
          dsimp only
          split
          · exact .next hget hid hresolve rfl (Touched.refl _ _ w) (fun _ => rfl) hscan
          · next hmutate =>
            have hmutate : mutate = true := by simpa using hmutate
            have hpure : ∀ {w'}, mutate = false → w' = w := fun hfalse =>
              absurd (hmutate.symm.trans hfalse) (by decide)
            split
            · exact .fail nofun
            split
            · exact .next hget hid hresolve rfl hmerge hpure hscan
            split
            · exact .merged hmutate nofun
            · refine .next hget hid hresolve rfl (hmerge.trans ?_) hpure hscan
              exact touched_update _ _ _ frame_closeSource fun b _ => closeSource_closed b

end Hop

/-- A source of the chain: the store it is in, the reference it was named by, and its id. -/
structure Source where
  store : ℕ
  ref : String
  id : String
  deriving DecidableEq

def Position.toSource (p : Position) : Source := ⟨p.store, p.ref, p.id⟩

section Safety

variable (opts : ChainOptions) (rootStore : ℕ) (rootID : String)

/-- Every store is listed once, under a reference of its own. -/
def ChainOptions.Distinct : Prop :=
  (scanScopes (opts.sourceWorkflowStores.getD [])).Nodup

/-- A live workflow root other than the finalized one that was started for the source. -/
structure LiveReferrer (w : Stores) (v : Source) (info : SourceWorkflowStore) (root : Bead) :
    Prop where
  scanned : info ∈ sourceWorkflowStoresForLiveRootScan opts v.store v.ref
  mem : root ∈ (w info.store).beads
  live : root.status ≠ .closed
  isRoot : isWorkflowRoot root = true
  refers : workflowMatchesSource root v.id v.ref info.storeRef = true
  other : ¬ (info.store = rootStore ∧ root.id = rootID)

def Unreferenced (w : Stores) (sources : List Source) : Prop :=
  ∀ v ∈ sources, ∀ info root, ¬ LiveReferrer opts rootStore rootID w v info root

/-- The store lists the root under the source, and it is not taken for the finalized root. -/
def Listed (rootSourceRef : String) (v : Source) (root : Bead) : Prop :=
  namesSource root v.id = true ∧ isExcludedRoot rootID rootSourceRef root = false

/-- Every live workflow root that refers to one of the sources is listed. -/
def AllListed (rootSourceRef : String) (w : Stores) (sources : List Source) : Prop :=
  ∀ v ∈ sources, ∀ info root, LiveReferrer opts rootStore rootID w v info root →
    Listed rootID rootSourceRef v root

def rootSourceRef (w : Stores) : String :=
  trimSpace (((w rootStore).get rootID).elim "" (·.val .sourceStoreRef))

/-- The hops of a walk: the stores and the position before hop `n`, and the sources of the hops
before, the last one first. -/
inductive Reaches (fails : ℕ → ChainPhase → Bool) (start : Stores) :
    ℕ → Stores → Position → List Source → Prop where
  | start : Reaches fails start 0 start { store := rootStore, id := rootID } []
  | next {n : ℕ} {w w' : Stores} {p p' : Position} {earlier : List Source}
      (h : Reaches fails start n w p earlier)
      (hhop : hop opts rootID true (fails n) w p = .next w' p') :
      Reaches fails start (n + 1) w' p' (p'.toSource :: earlier)

structure Walking (start : Stores) (n : ℕ) (w : Stores) (p : Position) (earlier : List Source) :
    Prop where
  home : p.ref = "" → p.store = rootStore
  excluded : n = 0 ∧ p = { store := rootStore, id := rootID } ∨
    p.excludeRef = rootSourceRef rootStore rootID start
  root : ∀ b', (w rootStore).get rootID = some b' →
    trimSpace (b'.val .sourceStoreRef) = rootSourceRef rootStore rootID start
  clear : ∀ v ∈ earlier, ∀ info root, LiveReferrer opts rootStore rootID w v info root →
    ¬ Listed rootID (rootSourceRef rootStore rootID start) v root

variable {opts rootStore rootID} {fails : ℕ → ChainPhase → Bool} {start w w' : Stores}
  {p p' : Position} {earlier : List Source} {n : ℕ}

theorem ChainOptions.Distinct.scanned (hdistinct : opts.Distinct) (fallback : ℕ)
    (sourceRef : String) :
    (scanScopes (sourceWorkflowStoresForLiveRootScan opts fallback sourceRef)).Nodup := by
  unfold sourceWorkflowStoresForLiveRootScan
  split
  · simp [scanScopes]
  · simp [scanScopes]
  · next stores _ hstores =>
    rw [Distinct, hstores] at hdistinct
    have heq : scanScopes (stores.map fun info : SourceWorkflowStore =>
        { info with storeRef := trimSpace info.storeRef }) = scanScopes stores := by
      simp [scanScopes, zipIdx_map, scanScope, Function.comp_def]
    rw [heq]
    exact hdistinct

variable (rootStore) in
theorem hop_next (hdistinct : opts.Distinct)
    (h : hop opts rootID true (fails n) w p = .next w' p') :
    ∃ current store ref, (w p.store).get p.id = some current ∧
      (ref = "" → store = p.store ∧ p.ref = "") ∧ p' = p.source rootID current store ref ∧
      Touched p'.store p'.id w w' ∧
      ∀ info root, LiveReferrer opts rootStore rootID w p'.toSource info root →
        ¬ Listed rootID p'.excludeRef p'.toSource root := by
  have hhopped := hopped opts rootID true (fails n) w p
  rw [h] at hhopped
  cases hhopped with
  | @next current _ store ref _ hget hid hhome hp' htouched _ hscan =>
    refine ⟨current, store, ref, hget, hhome, hp', htouched, ?_⟩
    intro info root hreferrer ⟨hnames, hkeep⟩
    have hmem : root ∈ listLiveRoots (w info.store) p'.id p'.ref info.storeRef := by
      refine mem_filter.mpr ⟨hreferrer.mem, ?_⟩
      have hrefers := hreferrer.refers
      have hlive := hreferrer.live
      have hroot := hreferrer.isRoot
      simp only [Position.toSource] at hnames hrefers
      simp [hnames, hrefers, hroot, hlive]
    have hid' : trimSpace p'.id ≠ "" := by
      rw [hp', Position.source, trimSpace_trimSpace]
      exact hid
    exact absurd (mem_of_listLive (hdistinct.scanned _ _) hscan hid' hreferrer.scanned hmem hkeep)
      (not_mem_nil)

variable {hops k store : ℕ} {id id' : String}

theorem Touched.get (h : Touched store id w w') {d : String}
    {b' : Bead} (hb' : (w' k).get d = some b') :
    ∃ b, (w k).get d = some b ∧ Frame b b' ∧ (b.status = .closed → b'.status = .closed) ∧
      ((k = store → d ≠ id) → b' = b) := by
  obtain ⟨g, hg, hsame⟩ := h k
  rw [hg.store, Store.get, Keyed.lookup_map (fun b => (hg.frame b).1), ← Store.get,
    Option.map_eq_some_iff] at hb'
  obtain ⟨b, hb, rfl⟩ := hb'
  have hid : b.id = d := Keyed.key_of_lookup hb
  exact ⟨b, hb, hg.frame b, hg.closed b (Keyed.mem_of_lookup hb), fun hne =>
    hsame b fun hk => hid ▸ hne hk⟩

theorem LiveReferrer.of_touched (h : Touched store id w w') {v : Source}
    {info : SourceWorkflowStore} {root' : Bead}
    (hroot : LiveReferrer opts rootStore rootID w' v info root') :
    ∃ root, LiveReferrer opts rootStore rootID w v info root ∧ Frame root root' := by
  obtain ⟨g, hg, -⟩ := h info.store
  have hmem := hroot.mem
  rw [hg.store] at hmem
  obtain ⟨root, hbefore, rfl⟩ := mem_map.mp hmem
  have hframe := hg.frame root
  refine ⟨root, ⟨hroot.scanned, hbefore, ?_, ?_, ?_, ?_⟩, hframe⟩
  · exact fun hclosed => hroot.live (hg.closed root hbefore hclosed)
  · rw [← hroot.isRoot, isWorkflowRoot, isWorkflowRoot, hframe.kind, hframe.2 .formulaContract rfl]
  · rw [← hroot.refers, workflowMatchesSource, workflowMatchesSource, hframe.2 .sourceBeadID rfl,
      hframe.2 .sourceStoreRef rfl]
  · rw [← hframe.1]
    exact hroot.other

theorem Listed.of_frame {rootRef : String} {v : Source} {root root' : Bead}
    (hframe : Frame root root') (h : Listed rootID rootRef v root') :
    Listed rootID rootRef v root := by
  obtain ⟨hnames, hkeep⟩ := h
  refine ⟨?_, ?_⟩
  · rw [← hnames, namesSource, namesSource, hframe.2 .sourceBeadID rfl]
  · rw [← hkeep, isExcludedRoot, isExcludedRoot, hframe.1, hframe.2 .sourceStoreRef rfl]

variable (opts rootStore rootID) in
theorem walking_start (start : Stores) :
    Walking opts rootStore rootID start 0 start { store := rootStore, id := rootID } [] where
  home _ := rfl
  excluded := .inl ⟨rfl, rfl⟩
  root b' hb' := by simp [rootSourceRef, hb']
  clear := nofun

variable (h : Walking opts rootStore rootID start n w p earlier)
include h

theorem Walking.excludeRef {current : Bead}
    (hget : (w p.store).get p.id = some current) (store : ℕ) (ref : String) :
    (p.source rootID current store ref).excludeRef = rootSourceRef rootStore rootID start := by
  rw [Position.source]
  split
  · next hroot =>
    apply h.root
    rw [← hroot.1, ← h.home hroot.2]
    exact hget
  · next hroot =>
    rcases h.excluded with ⟨-, rfl⟩ | hexcluded
    · exact absurd ⟨rfl, rfl⟩ hroot
    · exact hexcluded

/-- No source of the walk has a listed root below it, the one of the hop included. -/
theorem Walking.clear_next (hdistinct : opts.Distinct)
    (hhop : hop opts rootID true (fails n) w p = .next w' p') :
    p'.excludeRef = rootSourceRef rootStore rootID start ∧
    ∀ v ∈ p'.toSource :: earlier, ∀ info root, LiveReferrer opts rootStore rootID w v info root →
      ¬ Listed rootID (rootSourceRef rootStore rootID start) v root := by
  obtain ⟨current, store, ref, hget, -, rfl, -, hclear⟩ := hop_next rootStore hdistinct hhop
  have hexclude := h.excludeRef hget store ref
  rw [hexclude] at hclear
  refine ⟨hexclude, ?_⟩
  intro v hv
  rcases mem_cons.mp hv with rfl | hv
  · exact hclear
  · exact h.clear v hv

theorem Walking.next (hdistinct : opts.Distinct)
    (hhop : hop opts rootID true (fails n) w p = .next w' p') :
    Walking opts rootStore rootID start (n + 1) w' p' (p'.toSource :: earlier) := by
  obtain ⟨hexclude, hclear⟩ := h.clear_next hdistinct hhop
  obtain ⟨current, store, ref, hget, hhome, rfl, htouched, -⟩ := hop_next rootStore hdistinct hhop
  constructor
  case home =>
    intro href
    obtain ⟨hstore, hp⟩ := hhome href
    exact hstore.trans (h.home hp)
  case excluded => exact .inr hexclude
  case root =>
    intro b' hb'
    obtain ⟨b, hb, hframe, -, -⟩ := htouched.get hb'
    rw [hframe.2 .sourceStoreRef rfl]
    exact h.root b hb
  case clear =>
    intro v hv info root' hroot' hlisted
    obtain ⟨root, hroot, hframe⟩ := hroot'.of_touched htouched
    exact hclear v hv info root hroot (hlisted.of_frame hframe)

omit h

theorem Reaches.walking (hdistinct : opts.Distinct)
    (h : Reaches opts rootStore rootID fails start n w p earlier) :
    Walking opts rootStore rootID start n w p earlier := by
  induction h with
  | start => exact walking_start opts rootStore rootID start
  | next _ hhop ih => exact ih.next hdistinct hhop

def OpenIn (w : Stores) (k : ℕ) (id : String) : Prop :=
  ∃ b, (w k).get id = some b ∧ b.status ≠ .closed

def ClosedIn (w : Stores) (k : ℕ) (id : String) : Prop :=
  ∃ b, (w k).get id = some b ∧ b.status = .closed

theorem OpenIn.not_closedIn (h : OpenIn w k id) : ¬ ClosedIn w k id := by
  obtain ⟨b, hb, hopen⟩ := h
  rintro ⟨b', hb', hclosed⟩
  cases hb.symm.trans hb'
  exact hopen hclosed

theorem openIn_or_closedIn_of_touched (h : Touched store id' w w')
    (hopen : OpenIn w k id) : OpenIn w' k id ∨
      ClosedIn w' k id ∧ k = store ∧ id = id' := by
  obtain ⟨b, hb, hb'⟩ := hopen
  obtain ⟨g, hg, hsame⟩ := h k
  have hget := hg.get hb
  by_cases hclosed : (g b).status = .closed
  · right
    refine ⟨⟨_, hget, hclosed⟩, ?_⟩
    by_contra hne
    rw [hsame b] at hclosed
    · exact hb' hclosed
    · intro hk hid
      exact hne ⟨hk, (Keyed.key_of_lookup hb).symm.trans hid⟩
  · exact .inl ⟨_, hget, hclosed⟩

theorem openIn_merge (batch : Metadata)
    (h : OpenIn w k id) : OpenIn (w.update store id' (mergeInto batch)) k id := by
  obtain ⟨b, hb, hopen⟩ := h
  by_cases hk : k = store
  · subst hk
    refine ⟨onBead id' (mergeInto batch) b, ?_, ?_⟩
    · rw [Stores.update, Function.update_self, Store.get, Store.update,
        Keyed.lookup_map (fun b => by unfold onBead; split <;> rfl), ← Store.get, hb]
      rfl
    · unfold onBead
      split <;> exact hopen
  · refine ⟨b, ?_, hopen⟩
    rw [Stores.update, Function.update_of_ne hk]
    exact hb

theorem openIn_hop_stores {fails : ChainPhase → Bool}
    (hend : ∀ w' p', hop opts rootID true fails w p ≠ .next w' p') (h : OpenIn w k id) :
    OpenIn (hop opts rootID true fails w p).stores k id := by
  have hhopped := hopped opts rootID true fails w p
  generalize hop opts rootID true fails w p = r at hhopped hend
  cases hhopped with
  | stop | fail => exact h
  | merged => exact openIn_merge _ h
  | next => exact absurd rfl (hend _ _)

theorem walkFrom_closes (hdistinct : opts.Distinct)
    (h : Reaches opts rootStore rootID fails start n w p earlier)
    (hopen : OpenIn w k id)
    (hclosed : ClosedIn (walkFrom opts rootID true fails hops n w p).1 k id) :
    ∃ m v q before v' q', m < n + hops ∧
      Reaches opts rootStore rootID fails start m v q before ∧
      hop opts rootID true (fails m) v q = .next v' q' ∧ q'.store = k ∧ q'.id = id ∧
      OpenIn v k id ∧ ClosedIn v' k id := by
  induction hops generalizing n w p earlier with
  | zero => exact absurd hclosed hopen.not_closedIn
  | succ hops ih =>
    rw [walkFrom] at hclosed
    cases hhop : hop opts rootID true (fails n) w p with
    | stop w' | fail w' e =>
      have hstill := openIn_hop_stores (by rw [hhop]; nofun) hopen
      rw [hhop] at hclosed hstill
      exact absurd hclosed hstill.not_closedIn
    | next w' p' =>
      rw [hhop] at hclosed
      obtain ⟨current, store, ref, -, -, -, htouched, -⟩ := hop_next rootStore hdistinct hhop
      rcases openIn_or_closedIn_of_touched htouched hopen with hstill | ⟨hnow, rfl, rfl⟩
      · obtain ⟨m, v, q, before, v', q', hm, hrest⟩ := ih (h.next hhop) hstill hclosed
        exact ⟨m, v, q, before, v', q', by omega, hrest⟩
      · exact ⟨n, w, p, earlier, w', p', by omega, h, hhop, rfl, rfl, hopen, hnow⟩

theorem walkFrom_fuel {mutate : Bool} :
    (walkFrom opts rootID mutate fails hops n w p).2 ≠ some .scanFuel := by
  induction hops generalizing n w p with
  | zero => nofun
  | succ hops ih =>
    rw [walkFrom]
    have hhopped := hopped opts rootID mutate (fails n) w p
    generalize hop opts rootID mutate (fails n) w p = r at hhopped
    cases hhopped with
    | stop => nofun
    | fail he | merged _ he => exact fun h => he (Option.some.inj h)
    | next => exact ih

theorem walkFrom_check : (walkFrom opts rootID false fails hops n w p).1 = w := by
  induction hops generalizing n w p with
  | zero => rfl
  | succ hops ih =>
    rw [walkFrom]
    have hhopped := hopped opts rootID false (fails n) w p
    generalize hop opts rootID false (fails n) w p = r at hhopped
    cases hhopped with
    | stop | fail => rfl
    | merged hmutate => cases hmutate
    | next _ _ _ _ _ hpure => exact ih.trans (hpure rfl)

variable (opts fails start rootStore rootID) in
/-- The walk ends, a check changes no store, and a source is closed with no live workflow root left
that refers to it or to an earlier source, exactly when the stores list all such roots. -/
theorem sourceChain_closing_safe (hdistinct : opts.Distinct) :
    (∀ mutate, (walkSourceBeadChain opts rootID mutate fails start rootStore).2 ≠
      some .scanFuel) ∧
    (preflightSourceBeadChain opts fails start rootStore rootID).1 = start ∧
    ∀ k id, OpenIn start k id →
      ClosedIn (closeSourceBeadChain opts fails start rootStore rootID).1 k id →
      ∃ n w p earlier w' p', n < maxSourceChainHops ∧
        Reaches opts rootStore rootID fails start n w p earlier ∧
        hop opts rootID true (fails n) w p = .next w' p' ∧ p'.store = k ∧ p'.id = id ∧
        OpenIn w k id ∧ ClosedIn w' k id ∧
        (Unreferenced opts rootStore rootID w (p'.toSource :: earlier) ↔
          AllListed opts rootStore rootID (rootSourceRef rootStore rootID start) w
            (p'.toSource :: earlier)) := by
  refine ⟨fun mutate => walkFrom_fuel, walkFrom_check, ?_⟩
  intro k id hopen hclosed
  obtain ⟨n, w, p, earlier, w', p', hn, hreaches, hhop, hstore, hid, hbefore, hafter⟩ :=
    walkFrom_closes hdistinct .start hopen hclosed
  obtain ⟨-, hclear⟩ := (hreaches.walking hdistinct).clear_next hdistinct hhop
  refine ⟨n, w, p, earlier, w', p', by simpa using hn, hreaches, hhop, hstore, hid, hbefore, hafter,
    fun hnone v hv info root hroot => absurd hroot (hnone v hv info root), ?_⟩
  intro hall v hv info root hroot
  exact hclear v hv info root hroot (hall v hv info root hroot)

end Safety

def twoStores : ChainOptions where
  resolveStoreRef := some fun ref => ["rig:a", "rig:b"].idxOf? ref
  sourceWorkflowStores := some [⟨0, "rig:a"⟩, ⟨1, "rig:b"⟩]

/-- A passed root in the first store whose source is in the second, beside a live root of another
source. -/
def forwarded : Stores := Function.update
  (fun _ => { beads :=
      [{ id := "task" }, { id := "mol-2", metadata := .ofList [(.kind, Kind.workflow),
          (.sourceBeadID, "other")] }] })
  0 { beads :=
      [{ id := "mol", status := .closed
         metadata := .ofList [(.kind, Kind.workflow), (.sourceBeadID, "task"),
          (.sourceStoreRef, "rig:b")] }] }

theorem sourceChain_closing_safe_twoStores :
    ClosedIn (closeSourceBeadChain twoStores (fun _ _ => false) forwarded 0 "mol").1 1 "task" ∧
      ∃ n w p earlier w' p', n < maxSourceChainHops ∧
        Reaches twoStores 0 "mol" (fun _ _ => false) forwarded n w p earlier ∧
        hop twoStores "mol" true (fun _ => false) w p = .next w' p' ∧ p'.store = 1 ∧
        p'.id = "task" ∧ OpenIn w 1 "task" ∧ ClosedIn w' 1 "task" ∧
        (Unreferenced twoStores 0 "mol" w (p'.toSource :: earlier) ↔
          AllListed twoStores 0 "mol" (rootSourceRef 0 "mol" forwarded) w
            (p'.toSource :: earlier)) := by
  have hclosed : ClosedIn (closeSourceBeadChain twoStores (fun _ _ => false) forwarded 0 "mol").1
      1 "task" := ⟨closeOutcome Outcome.pass { id := "task" }, by decide +kernel, rfl⟩
  refine ⟨hclosed, (sourceChain_closing_safe twoStores 0 "mol" _ forwarded ?_).2.2 1 "task" ?_
    hclosed⟩
  · exact (by decide : (scanScopes [⟨0, "rig:a"⟩, ⟨1, "rig:b"⟩]).Nodup)
  · exact ⟨{ id := "task" }, by decide +kernel, nofun⟩

/-- A closed root `mol` started for `task`, and a live root `mol-2` whose reference to `task` has a
blank at its end. -/
def blankReference : Stores := fun _ =>
  { beads :=
      [{ id := "task" },
        { id := "mol", status := .closed
          metadata := .ofList [(.kind, Kind.workflow), (.sourceBeadID, "task")] },
        { id := "mol-2"
          metadata := .ofList [(.kind, Kind.workflow), (.sourceBeadID, "task ")] }] }

/-- The source is closed although the other workflow started for it is live. -/
theorem blankReference_closed :
    ClosedIn (closeSourceBeadChain {} (fun _ _ => false) blankReference 0 "mol").1 0 "task" ∧
      LiveReferrer {} 0 "mol" (closeSourceBeadChain {} (fun _ _ => false) blankReference 0 "mol").1
        ⟨0, "", "task"⟩ ⟨0, ""⟩
        { id := "mol-2"
          metadata := .ofList [(.kind, Kind.workflow), (.sourceBeadID, "task ")] } := by
  refine ⟨⟨closeOutcome Outcome.pass { id := "task" }, by decide +kernel, rfl⟩, ?_⟩
  constructor <;> decide +kernel

end GasCity.Dispatch
