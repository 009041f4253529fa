import GasCity.Caching.Scans

/-! # Steps of the interleaved calls

The step function as a relation with one rule per label, and the invariants that
every interleaving keeps: the fences of the cache and the starts of the scans in
flight never pass the mutation sequence.
-/

namespace GasCity

open Entry Option Table

/-- The world after a write has committed the bead. -/
abbrev World.committed (w : World) (t : Nat) (f : WriteFlight) (id : String) (row : Option Bead)
    (deps : List Dep) : World :=
  { w with
    backing := w.backing.put id row deps
    writes := w.writes.set t
      { f with committed := insert id f.committed, created := row.getD f.created } }

inductive Step (w : World) : Label → World → Prop where
  | skip {wr : Write} : wr.alreadyMatches w.cache = true → Step w (.skip wr) w
  | issue {t : Nat} {wr : Write} : w.writes.get t = none → "" ∉ wr.ids →
      wr.alreadyMatches w.cache = false →
      Step w (.issue t wr) { w with writes := w.writes.set t { write := wr } }
  | commit {t : Nat} {f : WriteFlight} {id : String} {row : Option Bead} {deps : List Dep} :
      w.writes.get t = some f → f.reply = none → id ∈ f.write.ids → id ∉ f.committed →
      row.all (·.id == id) = true →
      Step w (.commit t id row deps) (w.committed t f id row deps)
  | reply {t : Nat} {f : WriteFlight} {r : Reply} : w.writes.get t = some f → f.reply = none →
      f.admits r = true →
      Step w (.reply t r) { w with writes := w.writes.set t { f with reply := some r } }
  | fetch {t : Nat} {f : WriteFlight} {id : String} {ok : Bool} : w.writes.get t = some f →
      f.reply = some .ok → id ∈ f.write.ids → f.fetched.get id = none →
      Step w (.fetch t id ok)
        { w with
          writes := w.writes.set t { f with fetched := f.fetched.set id (w.backing.get id ok) } }
  | fetchDeps {t : Nat} {f : WriteFlight} {id : String} {ok : Bool} : w.writes.get t = some f →
      f.reply = some .ok → id ∈ f.write.ids → (f.fetched.get id).isSome = true →
      Step w (.fetchDeps t id ok)
        { w with
          writes := w.writes.set t
            { f with
              fetchedDeps := f.fetchedDeps.set id
                (if ok then some (w.backing.depList id) else none) } }
  | publish {t : Nat} {f : WriteFlight} {now : Time} : w.writes.get t = some f →
      f.complete = true →
      Step w (.publish t now)
        { w with cache := f.publish w.cache now, writes := w.writes.erase t }
  | scanStart {t : Nat} {kind : ScanKind} : w.scans.get t = none → kind.enabled w.cache = true →
      Step w (.scanStart t kind)
        { w with
          scans := w.scans.set t
            { kind, startSeq := w.cache.mutationSeq, todo := kind.todo w.cache } }
  | scanRow {t : Nat} {s s' : Scan} {id : String} : w.scans.get t = some s →
      s.readRow id (w.backing.rows.get id) = some s' →
      Step w (.scanRow t id) { w with scans := w.scans.set t s' }
  | scanCandidates {t : Nat} {s : Scan} : w.scans.get t = some s → s.kind.recovers = true →
      s.candidates = none →
      Step w (.scanCandidates t)
        { w with scans := w.scans.set t { s with candidates := some (s.missed w.cache) } }
  | scanRecover {t : Nat} {s : Scan} {id : String} {ok : Bool} {cs : Table String Bead}
      {cached : Bead} : w.scans.get t = some s → s.candidates = some cs → cs.get id = some cached →
      id ∉ s.checked →
      Step w (.scanRecover t id ok)
        { w with scans := w.scans.set t (s.recover id cached (w.backing.get id ok)) }
  | scanDeps {t : Nat} {s : Scan} {id : String} {b : Bead} : w.scans.get t = some s →
      s.rows.get id = some b → s.kind.fetchesDeps b = true →
      Step w (.scanDeps t id)
        { w with
          scans := w.scans.set t { s with depMap := s.depMap.set id (w.backing.depList id) } }
  | scanPublish {t : Nat} {s : Scan} {failedBlockers : Option (Finset String)} {partialErr : Bool}
      {now : Time} : w.scans.get t = some s → s.complete = true →
      Step w (.scanPublish t failedBlockers partialErr now)
        { w with
          cache := s.publish w.bdStore w.cache failedBlockers partialErr now
          scans := w.scans.erase t }
  | scanAbort {t : Nat} {s : Scan} {degrade : Bool} : w.scans.get t = some s →
      Step w (.scanAbort t degrade)
        { w with
          cache :=
            if degrade && w.cache.liveOrPartial then { w.cache with state := .cacheDegraded }
            else w.cache
          scans := w.scans.erase t }
  | fillStart {t : Nat} {id : String} : w.fills.get t = none → w.cache.state = .cacheLive →
      w.cache.depsComplete = true → (w.cache.entry id).deps = none →
      Step w (.fillStart t id) { w with fills := w.fills.set t { id } }
  | fillRead {t : Nat} {f : Fill} : w.fills.get t = some f →
      Step w (.fillRead t)
        { w with fills := w.fills.set t { f with deps := some (w.backing.depList f.id) } }
  | fillPublish {t : Nat} {f : Fill} {deps : List Dep} : w.fills.get t = some f →
      f.deps = some deps →
      Step w (.fillPublish t)
        { w with
          cache := w.cache.modify f.id fun e => { e with deps := some deps }
          fills := w.fills.erase t }
  | eventStart {t : Nat} {ev : BeadEvent} {now : Time} : w.events.get t = none →
      w.cache.liveOrPartial = true → ev.patch.id ≠ "" →
      Step w (.eventStart t ev now)
        { w with
          events := w.events.set t
            { view :=
                { event := ev
                  entry := w.cache.entry ev.patch.id
                  depsComplete := w.cache.depsComplete
                  now } } }
  | eventRead {t : Nat} {f : EventFlight} {ok : Bool} : w.events.get t = some f →
      f.waiting = true →
      Step w (.eventRead t ok)
        { w with
          events := w.events.set t
            { f with fetched := some (w.backing.get f.view.event.patch.id ok) } }
  | eventApply {t : Nat} {f : EventFlight} {now : Time} : w.events.get t = some f →
      f.waiting = false →
      Step w (.eventApply t now)
        { w with
          cache := w.cache.finishEvent f.view (f.fetched.getD .failed) now
          events := w.events.erase t }
  | depEvent {id : String} {deps : List Dep} : id ≠ "" →
      Step w (.depEvent id deps) { w with cache := w.cache.applyDepEvent id deps }
  | external {id : String} {row : Option Bead} {deps : List Dep} :
      row.all (·.id == id) = true →
      Step w (.external id row deps) { w with backing := w.backing.put id row deps }

namespace World

variable {w w' : World} {l : Label}

theorem guard_inv {p : Prop} [Decidable p] {α : Type*} {a b : α}
    (h : (if p then some a else none) = some b) : p ∧ a = b :=
  (ite_none_right_eq_some.mp h).imp_right some.inj

theorem flight_inv {α β : Type} {o : Option α} {p : α → Prop} [DecidablePred p] {g : α → β} {b : β}
    (h : (o.bind fun a => if p a then some (g a) else none) = some b) :
    ∃ a, o = some a ∧ p a ∧ g a = b := by
  obtain ⟨a, ha, h⟩ := bind_eq_some_iff.mp h
  exact ⟨a, ha, guard_inv h⟩

theorem step_cases (h : w.step l = some w') : Step w l w' := by
  cases l with
  | skip wr =>
    obtain ⟨hmatch, rfl⟩ := guard_inv h
    exact .skip hmatch
  | issue t wr =>
    obtain ⟨⟨ht, hids, hmatch⟩, rfl⟩ := guard_inv h
    exact .issue ht hids hmatch
  | commit t id row deps =>
    obtain ⟨f, ht, ⟨hreply, hid, hnew, hrow⟩, rfl⟩ := flight_inv h
    exact .commit ht hreply hid hnew hrow
  | reply t r =>
    obtain ⟨f, ht, ⟨hreply, hadmits⟩, rfl⟩ := flight_inv h
    exact .reply ht hreply hadmits
  | fetch t id ok =>
    obtain ⟨f, ht, ⟨hreply, hid, hnew⟩, rfl⟩ := flight_inv h
    exact .fetch ht hreply hid hnew
  | fetchDeps t id ok =>
    obtain ⟨f, ht, ⟨hreply, hid, hrow⟩, rfl⟩ := flight_inv h
    exact .fetchDeps ht hreply hid hrow
  | publish t now =>
    obtain ⟨f, ht, hcomplete, rfl⟩ := flight_inv h
    exact .publish ht hcomplete
  | scanStart t kind =>
    obtain ⟨⟨ht, henabled⟩, rfl⟩ := guard_inv h
    exact .scanStart ht henabled
  | scanRow t id =>
    obtain ⟨s, ht, hstep⟩ := bind_eq_some_iff.mp h
    obtain ⟨s', hread, rfl⟩ := map_eq_some_iff.mp hstep
    exact .scanRow ht hread
  | scanCandidates t =>
    obtain ⟨s, ht, ⟨hrecovers, hnone⟩, rfl⟩ := flight_inv h
    exact .scanCandidates ht hrecovers hnone
  | scanRecover t id ok =>
    obtain ⟨s, ht, hstep⟩ := bind_eq_some_iff.mp h
    obtain ⟨cached, hfilter, rfl⟩ := map_eq_some_iff.mp hstep
    obtain ⟨hcached, hchecked⟩ := filter_eq_some_iff.mp hfilter
    obtain ⟨cs, hcs, hget⟩ := bind_eq_some_iff.mp hcached
    exact .scanRecover ht hcs hget (of_decide_eq_true hchecked)
  | scanDeps t id =>
    obtain ⟨s, ht, hany, rfl⟩ := flight_inv h
    cases hrow : s.rows.get id with
    | none => simp [hrow] at hany
    | some b =>
      rw [hrow] at hany
      exact .scanDeps ht hrow hany
  | scanPublish t failedBlockers partialErr now =>
    obtain ⟨s, ht, hcomplete, rfl⟩ := flight_inv h
    exact .scanPublish ht hcomplete
  | scanAbort t degrade =>
    obtain ⟨s, ht, hstep⟩ := bind_eq_some_iff.mp h
    cases hstep
    exact .scanAbort ht
  | fillStart t id =>
    obtain ⟨⟨ht, hlive, hcomplete, hdeps⟩, rfl⟩ := guard_inv h
    exact .fillStart ht hlive hcomplete hdeps
  | fillRead t =>
    obtain ⟨f, ht, hstep⟩ := bind_eq_some_iff.mp h
    cases hstep
    exact .fillRead ht
  | fillPublish t =>
    obtain ⟨f, ht, hstep⟩ := bind_eq_some_iff.mp h
    obtain ⟨deps, hdeps, rfl⟩ := map_eq_some_iff.mp hstep
    exact .fillPublish ht hdeps
  | eventStart t ev now =>
    obtain ⟨⟨ht, hlive, hid⟩, rfl⟩ := guard_inv h
    exact .eventStart ht hlive hid
  | eventRead t ok =>
    obtain ⟨f, ht, hwaiting, rfl⟩ := flight_inv h
    exact .eventRead ht hwaiting
  | eventApply t now =>
    obtain ⟨f, ht, hstep⟩ := bind_eq_some_iff.mp h
    obtain ⟨hwaiting, hstep⟩ := ite_none_left_eq_some.mp hstep
    cases hstep
    exact .eventApply ht (by simpa using hwaiting)
  | depEvent id deps =>
    obtain ⟨hid, rfl⟩ := guard_inv h
    exact .depEvent hid
  | external id row deps =>
    obtain ⟨hrow, rfl⟩ := guard_inv h
    exact .external hrow

structure Sound (w : World) : Prop where
  writeIDs : ∀ t f, w.writes.get t = some f → "" ∉ f.write.ids
  eventIDs : ∀ t f, w.events.get t = some f → f.view.event.patch.id ≠ ""
  bounded : ∀ id, (w.cache.entry id).Bounded w.cache.mutationSeq
  started : ∀ t s, w.scans.get t = some s → s.startSeq ≤ w.cache.mutationSeq

/-- A lock section, the dirty mark of an event that could not be verified, or the publication of a
scan. -/
inductive CacheStep (w : World) (l : Label) (w' : World) : Prop where
  | «section» : Section w.cache w'.cache → CacheStep w l w'
  | mark {t : Nat} {f : EventFlight} {now : Time} : l = .eventApply t now →
      w.events.get t = some f → f.view.verdict (f.fetched.getD .failed) = .markDirty →
      w'.cache = w.cache.markDirty f.view.event.patch.id → CacheStep w l w'
  | scan {t : Nat} {s : Scan} {failedBlockers : Option (Finset String)} {partialErr : Bool}
      {now : Time} : l = .scanPublish t failedBlockers partialErr now → w.scans.get t = some s →
      w'.scans = w.scans.erase t → w'.cache.mutationSeq = w.cache.mutationSeq →
      (∀ id, Scanned s w.bdStore w.cache id (w.cache.entry id) (w'.cache.entry id)) →
      CacheStep w l w'

theorem cache_step (hw : w.Sound) (h : Step w l w') : CacheStep w l w' := by
  cases h with
  | publish ht => exact .section (WriteFlight.publishes (hw.writeIDs _ _ ht)).toSection
  | scanPublish ht =>
    exact .scan rfl ht rfl Scan.mutationSeq_publish fun id => Scan.scanned_publish (hw.bounded id)
  | scanAbort =>
    apply CacheStep.section
    split
    · exact (Section.refl w.cache).congr rfl rfl
    · exact .refl _
  | fillPublish => exact .section (Quiet.modify _ fun e => inert_setDeps e _).section
  | @eventApply t f now ht =>
    cases hverdict : f.view.verdict (f.fetched.getD .failed) with
    | drop =>
      apply CacheStep.section
      simp only [Cache.finishEvent, hverdict]
      exact .refl _
    | markDirty =>
      apply CacheStep.mark rfl ht hverdict
      simp only [Cache.finishEvent, hverdict]
    | apply ver =>
      apply CacheStep.section
      simp only [Cache.finishEvent, hverdict]
      exact Cache.section_applyEvent (hw.eventIDs _ _ ht) ver
  | depEvent hid => exact .section (Cache.section_applyDepEvent hid _)
  | _ => exact .section (.refl _)

theorem mutationSeq_le (hw : w.Sound) (h : Step w l w') :
    w.cache.mutationSeq ≤ w'.cache.mutationSeq := by
  cases cache_step hw h with
  | «section» h => exact h.seq_le
  | mark _ _ _ hc => exact hc ▸ le_rfl
  | scan _ _ _ hseq => exact hseq.ge

inductive ScanStep (w : World) (s : Scan) : Scan → Prop where
  | row {s' : Scan} {id : String} : s.readRow id (w.backing.rows.get id) = some s' →
      ScanStep w s s'
  | candidates : s.kind.recovers = true → s.candidates = none →
      ScanStep w s { s with candidates := some (s.missed w.cache) }
  | recover {id : String} {ok : Bool} {cs : Table String Bead} {cached : Bead} :
      s.candidates = some cs → cs.get id = some cached → id ∉ s.checked →
      ScanStep w s (s.recover id cached (w.backing.get id ok))
  | deps {id : String} {b : Bead} : s.rows.get id = some b → s.kind.fetchesDeps b = true →
      ScanStep w s { s with depMap := s.depMap.set id (w.backing.depList id) }

/-- A scan in flight was so before the step, or the step started it.  Before its publication it
leaves the cache alone. -/
theorem scan_step (h : Step w l w') : ∀ t s', w'.scans.get t = some s' →
    (∃ s, w.scans.get t = some s ∧ (s' = s ∨ w'.cache = w.cache ∧ ScanStep w s s')) ∨
      ∃ kind, l = .scanStart t kind ∧ kind.enabled w.cache = true ∧
        s' = { kind, startSeq := w.cache.mutationSeq, todo := kind.todo w.cache } := by
  have hidle : ∀ t s, w.scans.get t = some s →
      (∃ s₀, w.scans.get t = some s₀ ∧ (s = s₀ ∨ w'.cache = w.cache ∧ ScanStep w s₀ s)) ∨
        ∃ kind, l = .scanStart t kind ∧ kind.enabled w.cache = true ∧
          s = { kind, startSeq := w.cache.mutationSeq, todo := kind.todo w.cache } :=
    fun _ s ht => .inl ⟨s, ht, .inl rfl⟩
  cases h with
  | scanStart ht henabled => exact forall_set hidle (.inr ⟨_, rfl, henabled, rfl⟩)
  | scanRow ht hread => exact forall_set hidle (.inl ⟨_, ht, .inr ⟨rfl, .row hread⟩⟩)
  | scanCandidates ht hrecovers hnone =>
    exact forall_set hidle (.inl ⟨_, ht, .inr ⟨rfl, .candidates hrecovers hnone⟩⟩)
  | scanRecover ht hcs hget hchecked =>
    exact forall_set hidle (.inl ⟨_, ht, .inr ⟨rfl, .recover hcs hget hchecked⟩⟩)
  | scanDeps ht hrow hfetches =>
    exact forall_set hidle (.inl ⟨_, ht, .inr ⟨rfl, .deps hrow hfetches⟩⟩)
  | scanPublish | scanAbort => exact forall_erase hidle _
  | _ => exact hidle

end World

/-- A scan keeps its kind, its start and the dirty ids it refreshes. -/
structure Scan.Progress (s s' : Scan) : Prop where
  kind : s'.kind = s.kind
  startSeq : s'.startSeq = s.startSeq
  todo : s'.todo = s.todo
  rows : s.rows.keys ⊆ s'.rows.keys

namespace Scan

theorem progress_readRow {s s' : Scan} {id : String} {row : Option Bead}
    (h : s.readRow id row = some s') : s.Progress s' := by
  unfold readRow at h
  split at h
  · obtain ⟨_, rfl⟩ := World.guard_inv h
    exact ⟨rfl, rfl, rfl, Finset.subset_insert _ _⟩
  · obtain ⟨_, rfl⟩ := World.guard_inv h
    exact ⟨rfl, rfl, rfl, subset_rfl⟩

theorem progress_recover (s : Scan) (id : String) (cached : Bead) (fetched : Fetched) :
    s.Progress (s.recover id cached fetched) := by
  unfold recover
  dsimp only
  split
  · split
    · exact ⟨rfl, rfl, rfl, Finset.subset_insert _ _⟩
    · split
      · exact ⟨rfl, rfl, rfl, subset_rfl⟩
      · exact ⟨rfl, rfl, rfl, Finset.subset_insert _ _⟩
  · exact ⟨rfl, rfl, rfl, subset_rfl⟩
  · exact ⟨rfl, rfl, rfl, Finset.subset_insert _ _⟩
  all_goals exact ⟨rfl, rfl, rfl, subset_rfl⟩

end Scan

theorem Scanned.bounded {s : Scan} {bdStore : Bool} {c : Cache} {id : String} {e e' : Entry}
    {seq : Nat} (h : Scanned s bdStore c id e e') (hb : e.Bounded seq) : e'.Bounded seq := by
  induction h with
  | kept => exact hb
  | dropped => exact ⟨Nat.zero_le _, Nat.zero_le _⟩
  | retained => exact ⟨hb.1, Nat.zero_le _⟩
  | installed b h =>
    constructor
    · rcases h.beadSeq with hseq | hseq
      · exact hseq ▸ Nat.zero_le _
      · exact hseq ▸ hb.1
    · exact h.deletedSeq ▸ Nat.zero_le _
  | trans _ _ _ ih ih' => exact ih' (ih hb)

namespace World

variable {w w' : World} {l : Label} {s s' : Scan}

theorem ScanStep.progress (h : ScanStep w s s') : s.Progress s' := by
  cases h with
  | candidates | deps => exact ⟨rfl, rfl, rfl, subset_rfl⟩
  | row hread => exact Scan.progress_readRow hread
  | recover => exact Scan.progress_recover _ _ _ _

theorem scan_progress (h : Step w l w') {t : Nat} (hl : ∀ kind, l ≠ .scanStart t kind)
    (ht : w'.scans.get t = some s') : ∃ s, w.scans.get t = some s ∧ s.Progress s' := by
  rcases scan_step h t s' ht with ⟨s, hs, rfl | ⟨_, hstep⟩⟩ | ⟨kind, hl', _⟩
  · exact ⟨s', hs, rfl, rfl, rfl, subset_rfl⟩
  · exact ⟨s, hs, hstep.progress⟩
  · exact absurd hl' (hl kind)

theorem sound_step (hw : w.Sound) (h : Step w l w') : w'.Sound where
  writeIDs := by
    cases h with
    | issue _ hids => exact forall_set hw.writeIDs hids
    | commit ht | reply ht | fetch ht | fetchDeps ht =>
      have hids := hw.writeIDs _ _ ht
      exact forall_set hw.writeIDs hids
    | publish => exact forall_erase hw.writeIDs _
    | _ => exact hw.writeIDs
  eventIDs := by
    cases h with
    | eventStart _ _ hid => exact forall_set hw.eventIDs hid
    | eventRead ht =>
      have hid := hw.eventIDs _ _ ht
      exact forall_set hw.eventIDs hid
    | eventApply => exact forall_erase hw.eventIDs _
    | _ => exact hw.eventIDs
  bounded id := by
    cases cache_step hw h with
    | «section» h => exact h.bounded id (hw.bounded id)
    | mark _ _ _ hc =>
      rw [hc, Cache.entry_markDirty]
      exact hw.bounded id
    | scan _ _ _ hseq hscan =>
      rw [hseq]
      exact (hscan id).bounded (hw.bounded id)
  started t s' ht := by
    rcases scan_step h t s' ht with ⟨s, hs, rfl | ⟨_, hstep⟩⟩ | ⟨kind, _, _, rfl⟩
    · exact (hw.started t s' hs).trans (mutationSeq_le hw h)
    · rw [hstep.progress.startSeq]
      exact (hw.started t s hs).trans (mutationSeq_le hw h)
    · exact mutationSeq_le hw h

def init (backing : Backing) (bdStore : Bool) : World := { backing, bdStore }

theorem sound_init (backing : Backing) (bdStore : Bool) : (init backing bdStore).Sound where
  writeIDs _ _ h := nomatch h
  eventIDs _ _ h := nomatch h
  bounded _ := ⟨le_rfl, le_rfl⟩
  started _ _ h := nomatch h

theorem sound_run {as : List Label} (h : Run (StepOf step) w as w') (hw : w.Sound) : w'.Sound :=
  h.invariant Sound (fun _ _ _ hw hstep => sound_step hw (step_cases hstep)) hw

end World

end GasCity
