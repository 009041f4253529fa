import GasCity.Convergence.Invariant

/-! # The discipline of the handlers

What a run has to avoid, and what then holds always, between two requests and after a stop.  Either
reconciliation rebuilds no active loop beyond what was published, or no stop and no failed write
falls into a window in which the metadata does not name the poured wisp, has no active wisp, or ends
the loop.
-/

namespace GasCity.Convergence

def Published (log : List Entry) (n : ℕ) : Prop :=
  Entry.pour n false ∈ log ∨ Entry.activate n ∈ log

/-- After iteration `n` the gate decided to iterate, the operator called `Iterate`, or the trigger
passed. -/
def Permitted (m : Metadata) (log : List Entry) (n : ℕ) : Prop :=
  (∃ w o, Entry.gate w n o ∈ log ∧ decision m n (some o) = .continue) ∨
    Entry.operator n ∈ log ∨ Entry.trigger n ∈ log

def Gated (s : World) : Prop :=
  ∀ n, 1 ≤ n → Published s.log (n + 1) → Permitted s.metadata s.log n

def Emitted (log : List Entry) (w : ID) : Prop :=
  ∃ n, Entry.emit (.iteration n w) ∈ log

@[mk_iff]
structure Lawful (s : World) : Prop where
  ended : s.metadata.state = .terminated → ∀ v ∈ s.wisps, v.closed = true
  bound : ∀ n hidden, Entry.pour n hidden ∈ s.log → n ≤ s.metadata.maxIterations
  within : ∀ v ∈ s.wisps, v.iteration ≤ s.metadata.maxIterations
  passed : ∀ u ∈ s.wisps, s.metadata.lastProcessedWisp = some u.id →
    ∀ v ∈ s.wisps, v.iteration ≤ u.iteration → Emitted s.log v.id
  told : s.root = .closed → Entry.emit .created ∈ s.log → Entry.emit .terminated ∈ s.log
  sealed : s.root = .closed → s.metadata.state = .terminated

/-- The loop is at wisp `a`: the wisps before it are processed, at most its successor exists. -/
@[mk_iff]
structure Current (s : World) (a : Wisp) : Prop where
  named : s.metadata.activeWisp = some a.id
  before : ∀ v ∈ s.wisps, v.iteration < a.iteration → Emitted s.log v.id
  top : ∀ v ∈ s.wisps, v.iteration ≤ a.iteration + 1
  successor : ∀ v ∈ s.wisps, v.iteration = a.iteration + 1 →
    needsManualWithoutGate s.metadata = none ∧ s.metadata.trigger = .none
  last : ∀ u ∈ s.wisps, s.metadata.lastProcessedWisp = some u.id → u.iteration < a.iteration

def Finished (s : World) : Prop :=
  ∀ v ∈ s.wisps, v.closed = true ∧ Emitted s.log v.id

structure Tidy (s : World) : Prop where
  waiting : s.metadata.state = .waitingManual ∨ s.metadata.state = .waitingTrigger →
    s.metadata.activeWisp = none ∧ Finished s
  room : s.metadata.state = .waitingTrigger →
    ∀ v ∈ s.wisps, v.iteration < s.metadata.maxIterations
  active : s.metadata.state = .active →
    s.metadata.activeWisp = none ∧ s.wisps = [] ∨ ∃ a ∈ s.wisps, Current s a

def Idle (s : World) : Prop :=
  Tidy s ∧ (s.metadata.terminalReason ≠ none →
    s.metadata.state = .terminated ∨ s.metadata.state = .creating)

def Down (s : World) : Prop :=
  Tidy s ∧ (s.metadata.terminalReason ≠ none →
    s.metadata.state = .terminated ∨ s.metadata.state = .creating ∨ Finished s)

theorem Idle.down {s : World} (h : Idle s) : Down s :=
  ⟨h.1, fun hr => (h.2 hr).imp_right .inl⟩

def Op.site : Op → Site
  | .children site | .set site _ | .pour site _ _ | .activate site _ | .emit site _ => site
  | _ => .plain

def Site.refusable : Site → Bool
  | .plain | .iterateCall | .rebuild | .pouring => true
  | .entering | .naming | .ending | .stopping => false

def Site.stoppable : Site → Bool
  | .plain | .iterateCall | .rebuild | .pouring | .ending => true
  | .entering | .naming | .stopping => false

def Careful (site : Site) (answer : Answer) : Prop :=
  (site.refusable = false → answer = .ok) ∧ (site = .pouring → answer ≠ .lost)

instance (site : Site) (answer : Answer) : Decidable (Careful site answer) :=
  inferInstanceAs (Decidable (_ ∧ _))

/-- A rebuilt loop continues with a wisp that was published before, or with the first one. -/
def Anchored (s : World) (o : Op) : Prop :=
  o = .children .rebuild → closedCount s.wisps = 0 ∨
    ∃ v ∈ s.wisps, v.iteration = closedCount s.wisps + 1 ∧ v.hidden = false

instance (s : World) (o : Op) : Decidable (Anchored s o) :=
  inferInstanceAs (Decidable (_ → _))

/-- The metadata stays, the log grows and wisps are only closed or published. -/
structure Evolves (s t : World) : Prop where
  metadata : t.metadata = s.metadata
  next : t.next = s.next
  log : s.log ⊆ t.log
  grown : Grown s.wisps t.wisps

theorem Agents.evolves {s t : World} (h : Agents s t) : Evolves s t :=
  ⟨h.metadata, h.next, by rw [h.log]; exact fun _ => id, h.grown⟩

section Evolve

variable {s t : World}

theorem Emitted.mono {log log' : List Entry} {w : ID} (h : Emitted log w) (hsub : log ⊆ log') :
    Emitted log' w :=
  h.imp fun _ hn => hsub hn

theorem Permitted.mono {m : Metadata} {log log' : List Entry} {n : ℕ} (h : Permitted m log n)
    (hsub : log ⊆ log') : Permitted m log' n := by
  rcases h with ⟨w, o, hg, hd⟩ | h | h
  · exact .inl ⟨w, o, hsub hg, hd⟩
  · exact .inr (.inl (hsub h))
  · exact .inr (.inr (hsub h))

theorem Base.evolve (h : Base s) (he : Evolves s t) (hroot : t.root = .absent → s.root = .absent)
    (hshown : ∀ v ∈ t.wisps, v.hidden = false → Published t.log v.iteration)
    (hearly : s.metadata.state.Early → t.log = []) : Base t := by
  obtain ⟨metadata, verdict, root, wisps, next, log⟩ := t
  obtain ⟨rfl, rfl, hlog, hgrown⟩ := he
  refine { h with
    fresh := hgrown.forall_mem (P := fun id _ => id < s.next) h.fresh
    ids := hgrown.map_id ▸ h.ids
    keys := hgrown.map_iteration ▸ h.keys
    positive := hgrown.forall_mem (P := fun _ k => 1 ≤ k) h.positive
    chain := fun v hv k hk hlt => ?_
    active := fun id hid => ?_
    top := fun ht a ha hact v hv => ?_
    judged := fun id hid => ?_
    decided := fun a ha hact hout hdec => ?_
    early := fun hs => ?_
    born := fun ht => h.born (hroot ht)
    shown := hshown }
  · obtain ⟨u, hu, -, hit, -⟩ := hgrown.mem_right hv
    obtain ⟨x, hx, hxk, hxc⟩ := h.chain u hu k hk (hit ▸ hlt)
    obtain ⟨y, hy, -, hyit, hyc⟩ := hgrown.mem hx
    exact ⟨y, hy, hyit.trans hxk, hyc hxc⟩
  · obtain ⟨v, hv, hvid⟩ := h.active id hid
    obtain ⟨u, hu, huid, -⟩ := hgrown.mem hv
    exact ⟨u, hu, huid.trans hvid⟩
  · obtain ⟨b, hb, hbid, hbit, -⟩ := hgrown.mem_right ha
    obtain ⟨u, hu, -, hit, -⟩ := hgrown.mem_right hv
    rw [hit, hbit]
    exact h.top ht b hb (hbid ▸ hact) u hu
  · obtain ⟨g, hg, hgid, hgc, hgle⟩ := h.judged id hid
    obtain ⟨u, hu, huid, huit, huc⟩ := hgrown.mem hg
    refine ⟨u, hu, huid.trans hgid, huc hgc, fun ht a ha hact => ?_⟩
    obtain ⟨b, hb, hbid, hbit, -⟩ := hgrown.mem_right ha
    rw [huit, hbit]
    exact hgle ht b hb (hbid ▸ hact)
  · obtain ⟨b, hb, hbid, hbit, -⟩ := hgrown.mem_right ha
    rw [hbid] at hact hout
    rw [hbit] at hdec ⊢
    obtain ⟨w, o, hg, hd⟩ := h.decided b hb hact hout hdec
    exact ⟨w, o, hlog hg, hd⟩
  · obtain ⟨hw, -, hrest⟩ := h.early hs
    exact ⟨hgrown.eq_nil.mpr hw, hearly hs, hrest⟩

theorem Lawful.evolve (h : Lawful s) (he : Evolves s t) (hroot : t.root = s.root)
    (hpour : ∀ n hidden, Entry.pour n hidden ∈ t.log → Entry.pour n hidden ∈ s.log)
    (hcreated : Entry.emit .created ∈ t.log → Entry.emit .created ∈ s.log ∨ t.root ≠ .closed) :
    Lawful t := by
  obtain ⟨metadata, verdict, root, wisps, next, log⟩ := t
  obtain ⟨rfl, rfl, hlog, hgrown⟩ := he
  obtain rfl := hroot
  refine { h with
    ended := fun hs v hv => ?_
    bound := fun n hidden hn => h.bound n hidden (hpour n hidden hn)
    within := hgrown.forall_mem (P := fun _ k => k ≤ s.metadata.maxIterations) h.within
    passed := fun u hu hlast v hv hle => ?_
    told := fun hr hc => ?_ }
  · obtain ⟨u, hu, -, -, hc⟩ := hgrown.mem_right hv
    exact hc (h.ended hs u hu)
  · obtain ⟨x, hx, hxid, hxit, -⟩ := hgrown.mem_right hu
    obtain ⟨y, hy, hyid, hyit, -⟩ := hgrown.mem_right hv
    rw [hxid] at hlast
    rw [hyid]
    exact (h.passed x hx hlast y hy (by omega)).mono hlog
  · rcases hcreated hc with hc | hne
    · exact hlog (h.told hr hc)
    · exact absurd hr hne

theorem Evolves.emitted {Q : ℕ → Prop} (he : Evolves s t)
    (h : ∀ v ∈ s.wisps, Q v.iteration → Emitted s.log v.id) :
    ∀ v ∈ t.wisps, Q v.iteration → Emitted t.log v.id :=
  he.grown.forall_mem (P := fun id k => Q k → Emitted t.log id) fun v hv hQ =>
    (h v hv hQ).mono he.log

theorem Finished.evolve (h : Finished s) (he : Evolves s t) : Finished t := by
  intro v hv
  obtain ⟨u, hu, hid, -, hc⟩ := he.grown.mem_right hv
  rw [hid]
  exact ⟨hc (h u hu).1, (h u hu).2.mono he.log⟩

theorem Current.evolve {a b : Wisp} (h : Current s a) (he : Evolves s t) (hid : b.id = a.id)
    (hit : b.iteration = a.iteration) : Current t b where
  named := by
    rw [he.metadata, hid]
    exact h.named
  before := by
    rw [hit]
    exact he.emitted (Q := (· < a.iteration)) h.before
  top := by
    rw [hit]
    exact he.grown.forall_mem (P := fun _ k => k ≤ a.iteration + 1) h.top
  successor := by
    rw [hit, he.metadata]
    exact he.grown.forall_mem (P := fun _ k => k = a.iteration + 1 → _) h.successor
  last := by
    rw [hit, he.metadata]
    exact he.grown.forall_mem (P := fun id k => _ = some id → k < a.iteration) h.last

theorem Tidy.evolve (h : Tidy s) (he : Evolves s t) : Tidy t where
  waiting hs := by
    rw [he.metadata] at hs ⊢
    exact ⟨(h.waiting hs).1, (h.waiting hs).2.evolve he⟩
  room hs := by
    rw [he.metadata] at hs ⊢
    exact he.grown.forall_mem (P := fun _ k => k < s.metadata.maxIterations) (h.room hs)
  active hs := by
    rw [he.metadata] at hs ⊢
    rcases h.active hs with ⟨hact, hw⟩ | ⟨a, ha, hcur⟩
    · exact .inl ⟨hact, he.grown.eq_nil.mpr hw⟩
    · obtain ⟨b, hb, hid, hit, -⟩ := he.grown.mem ha
      exact .inr ⟨b, hb, hcur.evolve he hid hit⟩

theorem Idle.evolve (h : Idle s) (he : Evolves s t) : Idle t :=
  ⟨h.1.evolve he, by rw [he.metadata]; exact h.2⟩

theorem Down.evolve (h : Down s) (he : Evolves s t) : Down t := by
  refine ⟨h.1.evolve he, fun hr => ?_⟩
  rw [he.metadata] at hr ⊢
  rcases h.2 hr with hs | hs | hf
  · exact .inl hs
  · exact .inr (.inl hs)
  · exact .inr (.inr (hf.evolve he))

end Evolve

def Sound (κ τ : Prop) (s : World) : Prop :=
  Base s ∧ (κ → Gated s) ∧ (τ → Lawful s)

theorem Sound.agents {κ τ : Prop} {s t : World} (h : Sound κ τ s) (ha : Agents s t) :
    Sound κ τ t := by
  obtain ⟨hbase, hgate, hlaw⟩ := h
  refine ⟨hbase.evolve ha.evolves (ha.root ▸ id) ?_ ?_, fun hκ => ?_, fun hτ => ?_⟩
  · intro v hv hhid
    obtain ⟨u, hu, huv⟩ : ∃ u ∈ s.wisps, (u.id, u.hidden) = (v.id, v.hidden) := by
      have hmem : (v.id, v.hidden) ∈ s.wisps.map fun v => (v.id, v.hidden) := by
        rw [← ha.hidden]
        exact List.mem_map_of_mem hv
      simpa using hmem
    obtain ⟨x, hx, hxid, hxit, -⟩ := ha.grown.mem_right hv
    obtain ⟨huid, huhid⟩ : u.id = v.id ∧ u.hidden = v.hidden := by simpa using huv
    have hux : u = x := hbase.eq_of_id hu hx (huid.trans hxid)
    rw [ha.log, hxit, ← hux]
    exact hbase.shown u hu (huhid.trans hhid)
  · intro he
    rw [ha.log]
    exact (hbase.early he).2.1
  · unfold Gated
    rw [ha.log, ha.metadata]
    exact hgate hκ
  · refine (hlaw hτ).evolve ha.evolves ha.root ?_ ?_ <;> rw [ha.log]
    · exact fun _ _ => id
    · exact .inl

/-- The controller under the condition of rebuilt loops (`κ`) and of the windows (`τ`). -/
def discipline (κ τ : Prop) : Discipline World Op Choice where
  rely := Agents
  inv := Sound κ τ
  idle s := τ → Idle s
  down s := τ → Down s
  admits s o c := (κ → Anchored s o) ∧ (τ → Careful o.site c.answer)
  stops _ o := τ → o.site.stoppable = true
  rely_refl := .refl
  rely_trans _ _ _ := .trans
  idle_rely _ _ h _ hi hτ := (hi hτ).evolve h.evolves
  down_rely _ _ h _ hd hτ := (hd hτ).evolve h.evolves
  down_of_idle _ _ hi hτ := (hi hτ).down

end GasCity.Convergence
