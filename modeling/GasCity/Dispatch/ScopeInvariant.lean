import GasCity.Dispatch.ScopeSteps

/-! # The invariant of scoped workflows

What a scope body may do in one step, the condition under which it does, and the
invariant that ties the open scope checks of a scope to the members that are not
yet settled.  Every kind of step keeps the invariant.
-/

namespace GasCity.Dispatch

open List Kind

open Formula

/-- The bead counts as failed for its scope; attempts are left to their control. -/
def scopeFailed (b : Bead) : Bool :=
  !isRetryAttemptSubject b && beadOutcomeFailed b

/-- The scope body goes by the name `scopeRef`. -/
def namesScope (b : Bead) (scopeRef : String) : Bool :=
  b.kind == scope && scopeRef != "" &&
    (b.val .stepRef == scopeRef || hasSuffix (b.val .stepRef) ("." ++ scopeRef))

def BodyClosed (s : Store) (scopeRef : String) : Prop :=
  ∃ b ∈ s.beads, namesScope b scopeRef ∧ b.status = .closed

def holdsBody (body m : Bead) : Bool :=
  namesScope body m.scopeRef && m.id != body.id && m.scopeRole != ScopeRole.teardown &&
    m.kind != spec

/-- A control in a scope that has no scope check of its own. -/
def isUnchecked (c : Bead) : Bool :=
  c.scopeRef != "" && c.scopeRole != ScopeRole.teardown && isControlKind c.kind &&
    isScopeCheckExemptKind c.kind

variable {b b' : Bead} {s : Store}

theorem Frame.namesScope (h : Frame b b') (scopeRef : String) :
    Dispatch.namesScope b' scopeRef = Dispatch.namesScope b scopeRef := by
  simp only [Dispatch.namesScope, h.kind, h.2 .stepRef rfl]

theorem Frame.isUnchecked (h : Frame b b') :
    Dispatch.isUnchecked b' = Dispatch.isUnchecked b := by
  simp only [Dispatch.isUnchecked, h.kind, h.scopeRef, h.scopeRole]

theorem kind_of_namesScope {scopeRef : String} (h : namesScope b scopeRef) : b.kind = scope := by
  simp only [namesScope, Bool.and_eq_true, beq_iff_eq] at h
  exact h.1.1

theorem id_ne_of_holdsBody {m : Bead} (h : holdsBody b m) : m.id ≠ b.id := by
  simp only [holdsBody, Bool.and_eq_true, bne_iff_ne] at h
  exact h.1.1.2

theorem not_scope_of_control (hcontrol : isControlKind b.kind) : b.kind ≠ scope := by
  intro hscope
  rw [hscope] at hcontrol
  exact absurd hcontrol (by decide)

theorem control_of_exempt {kind : String} (h : isScopeCheckExemptKind kind = true)
    (hscope : kind ≠ scope) (hspec : kind ≠ spec) : isControlKind kind = true := by
  simp only [isScopeCheckExemptKind, scopeCheckExemptKinds, contains_cons,
    contains_nil, Bool.or_eq_true, beq_iff_eq, Bool.or_false] at h
  rcases h with rfl | rfl | rfl | rfl | rfl | rfl | rfl
  · exact absurd rfl hscope
  · decide
  · decide
  · decide
  · decide
  · decide
  · exact absurd rfl hspec

theorem control_of_unchecked (h : isUnchecked b) : isControlKind b.kind := by
  simp only [isUnchecked, Bool.and_eq_true] at h
  exact h.1.2

structure ScopesSettled (s t : Store) : Prop where
  /-- A body that passes leaves no member open or failed behind. -/
  passed : ∀ b ∈ t.beads, b.kind = scope → b.status = .closed →
    b.val .outcome = Outcome.pass → (∀ b₀ ∈ s.beads, b₀.id = b.id → b₀.status ≠ .closed) →
    ∀ m ∈ t.beads, holdsBody b m → m.status = .closed ∧ scopeFailed m = false
  /-- The outcome of a closed body stays. -/
  kept : ∀ b₀ ∈ s.beads, b₀.kind = scope → b₀.status = .closed →
    ∀ b ∈ t.beads, b.id = b₀.id → b.val .outcome = b₀.val .outcome

/-- The store in which a control settles its scope: the control itself is closed first unless it
is a scope check. -/
def settlementStore (s : Store) (c : Bead) : Verdict → Store
  | .settle result =>
    if c.kind = scopeCheck then s else s.updateMetadataAndClose c.id result.batch
  | .spawn _ => s

def failsScope (s : Store) (c : Bead) (verdict : Verdict) : Bool :=
  if c.kind = scopeCheck then
    ((s.downDeps c.id).head?.bind s.get).any scopeFailed
  else
    match verdict with
    | .settle result => beadOutcomeFailed (closeWith result.batch c)
    | .spawn _ => false

def completesScope (s : Store) (c : Bead) (verdict : Verdict) : Bool :=
  !failsScope s c verdict &&
    !hasOpenScopeMembers (settlementStore s c verdict) c.scopeRef [c.id]

/-- The control fails its scope, and the skipping of the open members ends without an error. -/
def abortsScope (s : Store) (c : Bead) (verdict : Verdict) (body : Bead) : Bool :=
  failsScope s c verdict && (abortScope (settlementStore s c verdict) c.scopeRef body c.id).2

/-- The body is the only one with the name of the scope, and has no other name. -/
@[mk_iff]
structure OnlyBody (s : Store) (scopeRef : String) (body : Bead) : Prop where
  named : namesScope body scopeRef
  unique : ∀ b ∈ s.beads, namesScope b scopeRef → b.id = body.id
  members : ∀ m ∈ s.beads, namesScope body m.scopeRef → m.scopeRef = scopeRef

/-- No member that the completion check overlooks is open or failed, and no scope check of the
scope has been skipped. -/
@[mk_iff]
structure NoneOverlooked (s : Store) (c body : Bead) : Prop where
  bodies : ∀ m ∈ s.beads, m.scopeRef = c.scopeRef → m.id ≠ body.id → m.id ≠ c.id →
    m.kind = scope ∨ m.scopeRole = ScopeRole.body →
    m.status = .closed ∧ scopeFailed m = false
  checks : ∀ m ∈ s.beads, m.scopeRef = c.scopeRef → m.kind = scopeCheck →
    m.status = .closed → m.val .outcome ≠ Outcome.skipped

/-- Processing the control settles the right body, fails no body that has passed, and completes
no scope with an overlooked member. -/
@[mk_iff]
structure SoundSettlement (s : Store) (c : Bead) (verdict : Verdict) (body : Bead) : Prop where
  only : abortsScope s c verdict body ∨ completesScope s c verdict ∧ body.status ≠ .closed →
    OnlyBody (settlementStore s c verdict) c.scopeRef body
  late : abortsScope s c verdict body → body.status = .closed → body.val .outcome = Outcome.fail
  whole : completesScope s c verdict → body.status ≠ .closed →
    NoneOverlooked (settlementStore s c verdict) c body

instance (s : Store) (scopeRef : String) (body : Bead) : Decidable (OnlyBody s scopeRef body) :=
  decidable_of_iff' _ (onlyBody_iff s scopeRef body)

instance (s : Store) (c body : Bead) : Decidable (NoneOverlooked s c body) :=
  decidable_of_iff' _ (noneOverlooked_iff s c body)

instance (s : Store) (c : Bead) (verdict : Verdict) (body : Bead) :
    Decidable (SoundSettlement s c verdict body) :=
  decidable_of_iff' _ (soundSettlement_iff s c verdict body)

/-- A fanout or drain, which closes without a scope check of its own, fails its scope without an
error. -/
def SoundProcess (s : Store) (c : Bead) (verdict : Verdict) (body : Option Bead) : Prop :=
  (isUnchecked c → c.kind ≠ scopeCheck → failsScope s c verdict →
      ∃ b ∈ body, abortsScope s c verdict b) ∧
    ∀ b ∈ body, SoundSettlement s c verdict b

def Sound (s : Store) : Label → Prop
  | .process id verdict => ∀ c ∈ s.get id,
      SoundProcess s c verdict (resolveScopeBody (settlementStore s c verdict) c.scopeRef)
  | _ => True

instance (s : Store) (c : Bead) (verdict : Verdict) (body : Option Bead) :
    Decidable (SoundProcess s c verdict body) :=
  inferInstanceAs (Decidable ((_ → _ → _ → ∃ b ∈ body, _) ∧ ∀ b ∈ body, _))

instance (s : Store) : (a : Label) → Decidable (Sound s a)
  | .claim _ | .finish _ _ => .isTrue trivial
  | .process id _ => inferInstanceAs (Decidable (∀ c ∈ s.get id, _))

/-- What holds along a run.  The beads in `except` are just being closed. -/
structure Settling (except : Set String) (s : Store) : Prop where
  ids : (s.beads.map Bead.id).Nodup
  issues : ∀ dep ∈ s.blocks, dep.1 ∈ s.beads.map Bead.id
  targets : ∀ dep ∈ s.blocks, dep.2 ∈ s.beads.map Bead.id
  watched : Watched s
  /-- Workers claim no control. -/
  idle : ∀ b ∈ s.beads, isControlKind b.kind → b.status ≠ .inProgress
  /-- A control that failed has closed the body of its scope, unless it has a scope check. -/
  held : ∀ b ∈ s.beads, b.id ∉ except → isUnchecked b → b.status = .closed → scopeFailed b →
    BodyClosed s b.scopeRef
  /-- A scope check is closed once its subject is settled, or its scope is. -/
  checks : ∀ c ∈ s.beads, c.id ∉ except → c.kind = scopeCheck → c.status = .closed →
    ∀ m ∈ s.beads, m.kind ≠ scope → (s.downDeps c.id).head? = some m.id →
    c.val .outcome = Outcome.skipped ∨ m.status = .closed ∧ scopeFailed m = false ∨
      BodyClosed s c.scopeRef

variable {X Y : Set String} {id scopeRef : String} {body : Bead}

theorem Settling.mono (h : Settling X s) (hXY : X ⊆ Y) :
    Settling Y s :=
  { h with
    held := fun b hb hY => h.held b hb fun hX => hY (hXY hX)
    checks := fun c hc hY => h.checks c hc fun hX => hY (hXY hX) }

section Inversion

variable {s t : Store} {id : String} (hids : (s.beads.map Bead.id).Nodup)
include hids

theorem Store.get_eq_some : s.get id = some b ↔ b ∈ s.beads ∧ b.id = id := by
  constructor
  · intro h
    exact ⟨Keyed.mem_of_lookup h, Keyed.key_of_lookup h⟩
  · rintro ⟨hb, rfl⟩
    exact Keyed.lookup_of_mem hids hb

theorem eq_of_id_eq_of_nodup (hb : b ∈ s.beads) (hb' : b' ∈ s.beads) (h : b.id = b'.id) :
    b = b' :=
  inj_on_of_nodup_map hids hb hb' h

theorem id_ne_of_scope (hb : b ∈ s.beads) (hscope : b.kind = scope) (hb' : b' ∈ s.beads)
    (hkind : b'.kind ≠ scope) : b.id ≠ b'.id := by
  intro hid
  rw [eq_of_id_eq_of_nodup hids hb hb' hid] at hscope
  exact hkind hscope

theorem step_claim_cases (h : step s (.claim id) = some t) :
    ∃ b ∈ s.beads, b.id = id ∧ isWork b = true ∧ b.status = .opened ∧
      t = s.update id fun b => { b with status := .inProgress } := by
  obtain ⟨b, hget, hb⟩ := Option.bind_eq_some_iff.mp h
  obtain ⟨⟨hwork, hopen⟩, ht⟩ := Option.ite_none_right_eq_some.mp hb
  obtain ⟨hmem, hid⟩ := (Store.get_eq_some hids).mp hget
  exact ⟨b, hmem, hid, hwork, hopen, (Option.some.inj ht).symm⟩

theorem step_finish_cases {result : Result} (h : step s (.finish id result) = some t) :
    ∃ b ∈ s.beads, s.get id = some b ∧ b.id = id ∧ isWork b = true ∧ b.status ≠ .closed ∧
      t = s.updateMetadataAndClose id result.batch := by
  obtain ⟨b, hget, hb⟩ := Option.bind_eq_some_iff.mp h
  obtain ⟨⟨hwork, hopen⟩, ht⟩ := Option.ite_none_right_eq_some.mp hb
  obtain ⟨hmem, hid⟩ := (Store.get_eq_some hids).mp hget
  exact ⟨b, hmem, hget, hid, hwork, hopen, (Option.some.inj ht).symm⟩

theorem step_process_cases {verdict : Verdict} (h : step s (.process id verdict) = some t) :
    ∃ c ∈ s.beads, s.get id = some c ∧ c.id = id ∧ s.ready c = true ∧
      isControlKind c.kind = true ∧ processControl s c verdict = some t := by
  obtain ⟨c, hget, hc⟩ := Option.bind_eq_some_iff.mp h
  obtain ⟨⟨hready, hcontrol⟩, hprocess⟩ := Option.ite_none_right_eq_some.mp hc
  obtain ⟨hmem, hid⟩ := (Store.get_eq_some hids).mp hget
  exact ⟨c, hmem, hget, hid, hready, hcontrol, hprocess⟩

end Inversion

variable {g : Bead → Bead} {s t : Store}

/-- A settled scope: when no member is seen open, every member is settled or is the subject of the
scope check at work. -/
theorem Settling.members_settled {c : Bead} (h : Settling {c.id} s)
    (hbody : body ∈ s.beads) (hopen : body.status ≠ .closed)
    (honly : OnlyBody s c.scopeRef body) (hwhole : NoneOverlooked s c body)
    (hdone : hasOpenScopeMembers s c.scopeRef [c.id] = false) {m : Bead} (hm : m ∈ s.beads)
    (hholds : holdsBody body m) (hne : m.id ≠ c.id) :
    m.status = .closed ∧ scopeFailed m = false ∨
      (s.downDeps c.id).head? = some m.id ∧
        ∃ k ∈ s.beads, k.id = c.id ∧ k.kind = scopeCheck := by
  simp only [holdsBody, Bool.and_eq_true, bne_iff_ne] at hholds
  obtain ⟨⟨⟨hnames, hbodyid⟩, hteardown⟩, hspec⟩ := hholds
  have href : m.scopeRef = c.scopeRef := honly.members m hm hnames
  have hne' : m.scopeRef ≠ "" := by
    simp only [namesScope, Bool.and_eq_true, bne_iff_ne] at hnames
    exact hnames.1.2
  have hnotClosed : ¬ BodyClosed s c.scopeRef := by
    rintro ⟨b, hb, hbname, hbclosed⟩
    have heq := eq_of_id_eq_of_nodup h.ids hb hbody (honly.unique b hb hbname)
    exact hopen (heq ▸ hbclosed)
  have hcounted : ∀ x ∈ s.beads, x.scopeRef = c.scopeRef → x.id ≠ c.id → x.kind ≠ spec →
      holdsScope x → x.status ≠ .opened := by
    intro x hx hxref hxid hxspec hxholds hxopen
    have hany : hasOpenScopeMembers s c.scopeRef [c.id] = true := by
      rw [hasOpenScopeMembers, any_eq_true]
      refine ⟨x, mem_filter.mpr ⟨hx, by simpa using hxref⟩, ?_⟩
      simp [hxopen, hxid, hxspec, hxholds]
    rw [hdone] at hany
    cases hany
  by_cases hover : m.kind = scope ∨ m.scopeRole = ScopeRole.body
  · exact .inl (hwhole.bodies m hm href hbodyid hne hover)
  · rw [not_or] at hover
    rcases h.watched m hm hne' hteardown with hexempt | ⟨k, hk, hcheck⟩
    · left
      have hcontrol := control_of_exempt hexempt hover.1 hspec
      have hholds : holdsScope m := by
        simp [holdsScope, hover.2, hteardown]
      have hclosed : m.status = .closed := by
        cases hstatus : m.status with
        | opened => exact absurd hstatus (hcounted m hm href hne hspec hholds)
        | inProgress => exact absurd hstatus (h.idle m hm hcontrol)
        | closed => rfl
      refine ⟨hclosed, ?_⟩
      have hunchecked : isUnchecked m := by
        simp [isUnchecked, hne', hteardown, hcontrol, hexempt]
      by_contra hfailed
      rw [Bool.not_eq_false] at hfailed
      exact hnotClosed (href ▸ h.held m hm hne hunchecked hclosed hfailed)
    · simp only [isScopeCheckOf, Bool.and_eq_true, beq_iff_eq] at hcheck
      obtain ⟨⟨⟨hkind, hrole⟩, hkref⟩, hhead⟩ := hcheck
      by_cases hkid : k.id = c.id
      · exact .inr ⟨hkid ▸ hhead, k, hk, hkid, hkind⟩
      · have hcontrol : isControlKind k.kind := by rw [hkind]; decide
        have hkref' : k.scopeRef = c.scopeRef := hkref.trans href
        left
        cases hstatus : k.status with
        | opened =>
          have hholds : holdsScope k := by
            rw [holdsScope, hrole]
            decide
          exact absurd hstatus (hcounted k hk hkref' hkid (by rw [hkind]; decide) hholds)
        | inProgress => exact absurd hstatus (h.idle k hk hcontrol)
        | closed =>
          rcases h.checks k hk hkid hkind hstatus m hm hover.1 hhead with hskip | hdone | hclosed
          · exact absurd hskip (hwhole.checks k hk hkref' hkind hstatus)
          · exact hdone
          · exact absurd (hkref' ▸ hclosed) hnotClosed

theorem scopeFailed_of_outcome {b : Bead}
    (h : b.val .outcome = Outcome.pass ∨ b.val .outcome = Outcome.skipped) :
    scopeFailed b = false := by
  have hfailed : beadOutcomeFailed b = false := by
    rcases h with h | h
    · have htrim : trimSpace Outcome.pass = Outcome.pass := by decide
      have hne : Outcome.pass ≠ Outcome.fail := by decide
      simp [beadOutcomeFailed, h, htrim, hne]
    · have htrim : trimSpace Outcome.skipped = Outcome.skipped := by decide
      have hne : Outcome.skipped ≠ Outcome.fail := by decide
      simp [beadOutcomeFailed, h, htrim, hne]
  rw [scopeFailed, hfailed, Bool.and_false]

theorem closeOutcome_outcome (outcome : String) (b : Bead) :
    (closeOutcome outcome b).val .outcome = outcome :=
  val_withMetadata_of_mem (by simp) (mem_singleton_self _)

theorem skipBead_outcome (b : Bead) : (skipBead b).val .outcome = Outcome.skipped :=
  val_withMetadata_of_mem (by simp) (mem_cons_self ..)

/-- A bead that a settlement does not aim at is left alone or skipped. -/
def Spared (b b' : Bead) : Prop :=
  b' = b ∨ b.status = .opened ∧ b' = skipBead b

theorem Spared.eq_of_closed (h : Spared b b') (hclosed : b.status = .closed) : b' = b := by
  rcases h with heq | ⟨hopen, _⟩
  · exact heq
  · rw [hclosed] at hopen
    cases hopen

theorem Spared.closed (h : Spared b b') (hclosed : b.status = .closed) : b'.status = .closed := by
  rw [h.eq_of_closed hclosed, hclosed]

/-- A closed body keeps its outcome, and an open one does not pass. -/
structure Unpassed (b b' : Bead) : Prop where
  kept : b.status = .closed → b'.status = .closed ∧ b'.val .outcome = b.val .outcome
  opened : b.status ≠ .closed → b'.status = .closed → b'.val .outcome ≠ Outcome.pass

theorem Spared.unpassed (h : Spared b b') : Unpassed b b' := by
  constructor
  · intro hclosed
    rw [h.eq_of_closed hclosed]
    exact ⟨hclosed, rfl⟩
  · intro hopen hclosed
    rcases h with rfl | ⟨_, rfl⟩
    · exact absurd hclosed hopen
    · rw [skipBead_outcome]
      decide

theorem Unpassed.trans {b'' : Bead} (h : Unpassed b b') (h' : Unpassed b' b'') :
    Unpassed b b'' := by
  constructor
  · intro hclosed
    obtain ⟨hmid, houtcome⟩ := h.kept hclosed
    obtain ⟨hafter, houtcome'⟩ := h'.kept hmid
    exact ⟨hafter, houtcome'.trans houtcome⟩
  · intro hopen hclosed
    by_cases hmid : b'.status = .closed
    · rw [(h'.kept hmid).2]
      exact h.opened hopen hmid
    · exact h'.opened hmid hclosed

theorem unpassed_onBead {f : Bead → Bead} (h : b.id ≠ id) : Unpassed b (onBead id f b) :=
  Spared.unpassed (.inl (if_neg h))

section Map

variable (hframe : ∀ b, Frame b (g b))
  (hscope : ∀ b ∈ s.beads, b.kind = scope → b.status = .closed → (g b).status = .closed)
include hframe hscope

theorem BodyClosed.map (h : BodyClosed s scopeRef) (ht : t.beads = s.beads.map g) :
    BodyClosed t scopeRef := by
  obtain ⟨b, hb, hname, hclosed⟩ := h
  refine ⟨g b, ht ▸ mem_map_of_mem hb, ?_, ?_⟩
  · rwa [(hframe b).namesScope]
  · exact hscope b hb (kind_of_namesScope hname) hclosed

/-- The invariant across a change of the beads; the beads in `Y` change in other ways. -/
theorem Settling.map (h : Settling X s) (ht : t = { s with beads := s.beads.map g })
    (hspared : ∀ b ∈ s.beads, b.id ∉ Y → b.kind ≠ scope → Spared b (g b))
    (hidle : ∀ b ∈ s.beads, b.id ∈ Y → isControlKind b.kind → (g b).status ≠ .inProgress)
    (hsettled : ∀ b ∈ s.beads, b.id ∈ Y → b.status = .closed →
      (g b).status = .closed ∧ scopeFailed (g b) = false) : Settling (X ∪ Y) t := by
  subst ht
  have hids : (s.beads.map g).map Bead.id = s.beads.map Bead.id := by
    rw [map_map]
    exact map_congr_left fun b _ => (hframe b).1
  have hclosed : ∀ {scopeRef}, BodyClosed s scopeRef →
      BodyClosed { s with beads := s.beads.map g } scopeRef :=
    fun hbody => hbody.map hframe hscope rfl
  constructor
  · exact hids.symm ▸ h.ids
  · exact hids.symm ▸ h.issues
  · exact hids.symm ▸ h.targets
  · intro m' hm' href hrole
    obtain ⟨m, hm, rfl⟩ := mem_map.mp hm'
    rw [(hframe m).scopeRef] at href
    rw [(hframe m).scopeRole] at hrole
    rw [(hframe m).kind]
    rcases h.watched m hm href hrole with hexempt | ⟨c, hc, hcheck⟩
    · exact .inl hexempt
    · refine .inr ⟨g c, mem_map_of_mem hc, ?_⟩
      simp only [isScopeCheckOf, (hframe c).kind, (hframe c).scopeRole, (hframe c).scopeRef,
        (hframe m).scopeRef, (hframe c).1, (hframe m).1] at hcheck ⊢
      exact hcheck
  · intro b' hb' hcontrol
    obtain ⟨b, hb, rfl⟩ := mem_map.mp hb'
    rw [(hframe b).kind] at hcontrol
    by_cases hY : b.id ∈ Y
    · exact hidle b hb hY hcontrol
    · rcases hspared b hb hY (not_scope_of_control hcontrol) with heq | ⟨_, heq⟩
      · rw [heq]
        exact h.idle b hb hcontrol
      · rw [heq]
        exact nofun
  · intro b' hb' hX hunchecked hstatus hfailed
    obtain ⟨b, hb, rfl⟩ := mem_map.mp hb'
    rw [(hframe b).1, Set.mem_union, not_or] at hX
    rw [(hframe b).isUnchecked] at hunchecked
    rw [(hframe b).scopeRef]
    rcases hspared b hb hX.2 (not_scope_of_control (control_of_unchecked hunchecked)) with
      heq | ⟨_, heq⟩
    · rw [heq] at hstatus hfailed
      exact hclosed (h.held b hb hX.1 hunchecked hstatus hfailed)
    · rw [heq, scopeFailed_of_outcome (.inr (skipBead_outcome b))] at hfailed
      cases hfailed
  · intro c' hc' hX hkind hstatus m' hm' hmkind hhead
    obtain ⟨c, hc, rfl⟩ := mem_map.mp hc'
    obtain ⟨m, hm, rfl⟩ := mem_map.mp hm'
    rw [(hframe c).1, Set.mem_union, not_or] at hX
    rw [(hframe c).kind] at hkind
    rw [(hframe m).kind] at hmkind
    have hhead' : (s.downDeps c.id).head? = some m.id := by
      rw [(hframe m).1, (hframe c).1] at hhead
      exact hhead
    rcases hspared c hc hX.2 (by rw [hkind]; decide) with heq | ⟨_, heq⟩
    · rw [heq] at hstatus ⊢
      rcases h.checks c hc hX.1 hkind hstatus m hm hmkind hhead' with hskip | hdone | hbody
      · exact .inl hskip
      · right; left
        by_cases hY : m.id ∈ Y
        · exact hsettled m hm hY hdone.1
        · rcases hspared m hm hY hmkind with heq | ⟨hopen, _⟩
          · exact heq.symm ▸ hdone
          · rw [hdone.1] at hopen
            cases hopen
      · exact .inr (.inr (hclosed hbody))
    · exact .inl (heq ▸ skipBead_outcome c)

/-- A change that spares every bead but the scope bodies. -/
theorem Settling.map_spared (h : Settling X s) (ht : t = { s with beads := s.beads.map g })
    (hspared : ∀ b ∈ s.beads, b.kind ≠ scope → Spared b (g b)) : Settling X t := by
  rw [← Set.union_empty X]
  exact h.map hframe hscope ht (fun b hb _ => hspared b hb) nofun nofun

end Map

theorem Settling.discharge {c : Bead} (h : Settling {id} s) (hc : c ∈ s.beads) (hid : c.id = id)
    (hheld : isUnchecked c → c.status = .closed → scopeFailed c → BodyClosed s c.scopeRef)
    (hchecks : c.kind = scopeCheck → c.status = .closed → ∀ m ∈ s.beads,
      m.kind ≠ scope → (s.downDeps c.id).head? = some m.id →
      c.val .outcome = Outcome.skipped ∨ m.status = .closed ∧ scopeFailed m = false ∨
        BodyClosed s c.scopeRef) : Settling ∅ s := by
  subst hid
  refine { h with held := ?_, checks := ?_ }
  · intro b hb _
    by_cases hid : b.id = c.id
    · rw [eq_of_id_eq_of_nodup h.ids hb hc hid]
      exact hheld
    · exact h.held b hb hid
  · intro b hb _
    by_cases hid : b.id = c.id
    · rw [eq_of_id_eq_of_nodup h.ids hb hc hid]
      exact hchecks
    · exact h.checks b hb hid

section Settled

variable (hids : (s.beads.map Bead.id).Nodup) (ht : t.beads = s.beads.map g)
  (hframe : ∀ b, Frame b (g b))
include hids ht hframe

theorem scopesSettled_map
    (hkept : ∀ b ∈ s.beads, b.kind = scope → b.status = .closed →
      (g b).val .outcome = b.val .outcome)
    (hpassed : ∀ b ∈ s.beads, b.kind = scope → b.status ≠ .closed →
      (g b).status = .closed → (g b).val .outcome = Outcome.pass → ∀ m ∈ s.beads,
      holdsBody b m → (g m).status = .closed ∧ scopeFailed (g m) = false) :
    ScopesSettled s t := by
  constructor
  · intro b' hb' hkind hclosed hpass hbefore m' hm' hholds
    rw [ht] at hb' hm'
    obtain ⟨b, hb, rfl⟩ := mem_map.mp hb'
    obtain ⟨m, hm, rfl⟩ := mem_map.mp hm'
    rw [(hframe b).kind] at hkind
    apply hpassed b hb hkind (hbefore b hb (hframe b).1.symm) hclosed hpass m hm
    simpa only [holdsBody, (hframe b).namesScope, (hframe m).scopeRef, (hframe m).1,
      (hframe b).1, (hframe m).scopeRole, (hframe m).kind] using hholds
  · intro b hb hkind hclosed b' hb' hid
    rw [ht] at hb'
    obtain ⟨b₁, hb₁, rfl⟩ := mem_map.mp hb'
    rw [(hframe b₁).1] at hid
    rw [eq_of_id_eq_of_nodup hids hb₁ hb hid]
    exact hkept b hb hkind hclosed

theorem scopesSettled_unpassed (h : ∀ b ∈ s.beads, b.kind = scope → Unpassed b (g b)) :
    ScopesSettled s t := by
  apply scopesSettled_map hids ht hframe
  · exact fun b hb hscope hclosed => ((h b hb hscope).kept hclosed).2
  · intro b hb hscope hopen hclosed hpass
    exact absurd hpass ((h b hb hscope).opened hopen hclosed)

/-- A change of one body, which may pass when its members are settled. -/
theorem scopesSettled_body (hbody : body ∈ s.beads)
    (hothers : ∀ b ∈ s.beads, b.kind = scope → b.id ≠ body.id → g b = b)
    (hkept : body.status = .closed → (g body).val .outcome = body.val .outcome)
    (hmembers : body.status ≠ .closed → ∀ m ∈ s.beads, holdsBody body m →
      (g m).status = .closed ∧ scopeFailed (g m) = false) : ScopesSettled s t := by
  apply scopesSettled_map hids ht hframe
  · intro b hb hscope hclosed
    by_cases hid : b.id = body.id
    · obtain rfl := eq_of_id_eq_of_nodup hids hb hbody hid
      exact hkept hclosed
    · rw [hothers b hb hscope hid]
  · intro b hb hscope hopen hclosed _
    by_cases hid : b.id = body.id
    · obtain rfl := eq_of_id_eq_of_nodup hids hb hbody hid
      exact hmembers hopen
    · rw [hothers b hb hscope hid] at hclosed
      exact absurd hclosed hopen

end Settled

def abortBead (s : Store) (scopeRef : String) (ids : List String) (body b : Bead) : Bead :=
  onBead body.id (failBody s scopeRef) (if b.id ∈ ids then skipBead b else b)

section Abort

variable {s : Store} {scopeRef skipControlID : String} {ids : List String} {body b : Bead}

/-- An abort skips open beads.  It then fails the body, unless the skipping ended in an error. -/
theorem abortScope_cases (hids : (s.beads.map Bead.id).Nodup) (body : Bead) : ∃ ids,
    (∀ b ∈ s.beads, b.id ∈ ids → b.status = .opened) ∧
      ((abortScope s scopeRef body skipControlID).2 = true ∧
          (abortScope s scopeRef body skipControlID).1 =
            { s with beads := s.beads.map (abortBead s scopeRef ids body) } ∧
          (∀ p ∈ pendingSkip s scopeRef skipControlID, p.id ∈ ids ∨ p.kind = scopeCheck) ∨
        (abortScope s scopeRef body skipControlID).2 = false ∧
          (abortScope s scopeRef body skipControlID).1 = skipScopeMembers s ids) := by
  obtain ⟨ids, hstore, hmem, hall⟩ := @skipRounds_spec skipControlID
    (sortedPending s scopeRef skipControlID).length (sortedPending s scopeRef skipControlID) s
  have hpending : ∀ {b : Bead}, b ∈ sortedPending s scopeRef skipControlID ↔
      b ∈ pendingSkip s scopeRef skipControlID := mem_insertionSort _
  refine ⟨ids, ?_, ?_⟩
  · intro b hb hid
    obtain ⟨p, hp, hpid⟩ := mem_map.mp (hmem _ hid)
    obtain ⟨hpmem, hopen⟩ := mem_filter.mp (hpending.mp hp)
    rw [← eq_of_id_eq_of_nodup hids hpmem hb hpid]
    simp only [Bool.and_eq_true, decide_eq_true_eq] at hopen
    exact hopen.1
  · rw [abortScope]
    cases hdone : (skipOpenScopeMembers s scopeRef skipControlID).2 with
    | false => exact .inr ⟨rfl, hstore⟩
    | true =>
      refine .inl ⟨rfl, ?_, ?_⟩
      · rw [if_pos rfl, skipOpenScopeMembers, hstore, Store.setOutcomeAndClose,
          Store.setMetadataBatch, Store.update_update (f := mergeInto _) _ _ _ fun _ => rfl]
        simp [Store.update, skipScopeMembers, abortBead, onBead, failBody]
      · intro p hp
        refine (hall hdone p (hpending.mpr hp)).imp_right ?_
        rintro ⟨b, hb, hid, hpreserve⟩
        rw [← eq_of_id_eq_of_nodup hids (mem_of_mem_filter (hpending.mp hb))
          (mem_of_mem_filter hp) hid]
        simp only [preserveScopeCheckForSubject, Bool.and_eq_true, beq_iff_eq] at hpreserve
        exact hpreserve.1.1.2

variable (ids) in
theorem frame_skipped (b : Bead) : Frame b (if b.id ∈ ids then skipBead b else b) := by
  split
  · exact frame_skipBead b
  · exact .refl b

theorem frame_abortBead (b : Bead) : Frame b (abortBead s scopeRef ids body b) :=
  (frame_skipped ids b).trans (frame_onBead (frame_failBody s scopeRef) _)

theorem abortBead_body (h : b.id = body.id) :
    (abortBead s scopeRef ids body b).status = .closed ∧
      (abortBead s scopeRef ids body b).val .outcome = Outcome.fail := by
  have hid := (frame_skipped ids b).1
  rw [abortBead, onBead, if_pos (hid.trans h)]
  exact ⟨rfl, closeOutcome_outcome _ _⟩

section Kept

variable (hopened : ∀ b ∈ s.beads, b.id ∈ ids → b.status = .opened) (hb : b ∈ s.beads)
include hopened hb

theorem skipped_spared : Spared b (if b.id ∈ ids then skipBead b else b) := by
  split
  · next hid => exact .inr ⟨hopened b hb hid, rfl⟩
  · exact .inl rfl

theorem abortBead_spared (h : b.id ≠ body.id) : Spared b (abortBead s scopeRef ids body b) := by
  have hid := (frame_skipped ids b).1
  rw [abortBead, onBead, if_neg (hid.symm ▸ h)]
  exact skipped_spared hopened hb

theorem abortBead_scope_closed (hclosed : b.status = .closed) :
    (abortBead s scopeRef ids body b).status = .closed := by
  by_cases hid : b.id = body.id
  · exact (abortBead_body hid).1
  · exact (abortBead_spared hopened hb hid).closed hclosed

theorem abortBead_unpassed (hids : (s.beads.map Bead.id).Nodup) (hbody : body ∈ s.beads)
    (hlate : body.status = .closed → body.val .outcome = Outcome.fail) :
    Unpassed b (abortBead s scopeRef ids body b) := by
  by_cases hid : b.id = body.id
  · obtain ⟨hstatus, houtcome⟩ := @abortBead_body s scopeRef ids body b hid
    obtain rfl := eq_of_id_eq_of_nodup hids hb hbody hid
    constructor
    · exact fun hclosed => ⟨hstatus, houtcome.trans (hlate hclosed).symm⟩
    · intro _ _
      rw [houtcome]
      decide
  · exact (abortBead_spared hopened hb hid).unpassed

variable {X : Set String} (h : Settling X s)

omit hb in
include h in
theorem Settling.skip : Settling X (skipScopeMembers s ids) :=
  h.map_spared (frame_skipped ids) (fun _ hb _ => (skipped_spared hopened hb).closed) rfl
    fun _ hb _ => skipped_spared hopened hb

omit hb in
include h in
theorem Settling.abort (hbody : body ∈ s.beads) (hname : namesScope body scopeRef) :
    Settling X { s with beads := s.beads.map (abortBead s scopeRef ids body) } ∧
      BodyClosed { s with beads := s.beads.map (abortBead s scopeRef ids body) } scopeRef := by
  constructor
  · apply h.map_spared frame_abortBead
      (fun b hb _ hclosed => abortBead_scope_closed hopened hb hclosed) rfl
    intro b hb hscope
    exact abortBead_spared hopened hb
      (id_ne_of_scope h.ids hbody (kind_of_namesScope hname) hb hscope).symm
  · refine ⟨abortBead s scopeRef ids body body, mem_map_of_mem hbody, ?_, (abortBead_body rfl).1⟩
    rwa [(frame_abortBead body).namesScope]

end Kept

end Abort

def passBead (s : Store) (scopeRef : String) (body subject : Bead) : Bead → Bead :=
  onBead body.id fun b =>
    if body.status = .closed then completeBody s scopeRef subject b
    else closeOutcome Outcome.pass (completeBody s scopeRef subject b)

section Pass

variable {s : Store} {scopeRef : String} {body subject : Bead}

theorem closeScopeAsPassed_map : closeScopeAsPassed s scopeRef body subject =
      { s with beads := s.beads.map (passBead s scopeRef body subject) } :=
  closeScopeAsPassed_eq s scopeRef body subject

theorem frame_passBead (b : Bead) : Frame b (passBead s scopeRef body subject b) := by
  apply frame_onBead
  intro b
  split
  · exact frame_completeBody s scopeRef subject b
  · exact (frame_completeBody s scopeRef subject b).trans
      (frame_closeOutcome _ _)

theorem passBead_of_ne {b : Bead} (h : b.id ≠ body.id) :
    passBead s scopeRef body subject b = b :=
  if_neg h

theorem completeBody_status (b : Bead) :
    (completeBody s scopeRef subject b).status = b.status := by
  unfold completeBody addOutput
  split <;> rfl

section Kept

variable {b : Bead} (hids : (s.beads.map Bead.id).Nodup) (hbody : body ∈ s.beads)
  (hb : b ∈ s.beads)
include hids hbody hb

theorem passBead_kept (hclosed : b.status = .closed) :
    (passBead s scopeRef body subject b).status = .closed ∧
      (passBead s scopeRef body subject b).val .outcome = b.val .outcome := by
  by_cases hid : b.id = body.id
  · obtain rfl := eq_of_id_eq_of_nodup hids hb hbody hid
    rw [passBead, onBead, if_pos rfl, if_pos hclosed]
    exact ⟨(completeBody_status b).trans hclosed, completeBody_outcome s scopeRef subject b⟩
  · rw [passBead_of_ne hid]
    exact ⟨hclosed, rfl⟩

end Kept

theorem Settling.complete {X : Set String} (h : Settling X s) (hbody : body ∈ s.beads)
    (hkind : body.kind = scope) :
    Settling X (closeScopeAsPassed s scopeRef body subject) := by
  apply h.map_spared frame_passBead
    (fun b hb _ hclosed => (passBead_kept h.ids hbody hb hclosed).1) closeScopeAsPassed_map
  intro b hb hscope
  exact .inl (passBead_of_ne (id_ne_of_scope h.ids hbody hkind hb hscope).symm)

end Pass

variable {b c : Bead} {f : Bead → Bead} {s t : Store}

theorem resolveScopeBody_mem (h : resolveScopeBody s scopeRef = some body) :
    body ∈ s.beads ∧ body.kind = scope := by
  have hrole : ∀ {closed}, resolveScopeBodyByRole s scopeRef closed = some body →
      body ∈ s.beads ∧ body.kind = scope := by
    intro closed hfind
    have hsome := find?_some hfind
    simp only [Bool.and_eq_true, beq_iff_eq] at hsome
    exact ⟨mem_of_find?_eq_some hfind, hsome.1.1.1⟩
  rcases Option.or_eq_some_iff.mp h with h | ⟨_, h⟩
  · exact hrole h
  · rcases Option.or_eq_some_iff.mp h with h | ⟨_, h⟩
    · exact hrole h
    · have hsome := find?_some h
      simp only [Bool.and_eq_true, beq_iff_eq] at hsome
      exact ⟨mem_of_find?_eq_some h, hsome.1⟩

theorem Settling.close (h : Settling ∅ s)
    (hc : c ∈ s.beads) (hkind : c.kind ≠ scope) (hframe : ∀ b, Frame b (f b))
    (hidle : isControlKind c.kind → (f c).status ≠ .inProgress)
    (hfine : c.status = .closed → (f c).status = .closed ∧ scopeFailed (f c) = false) :
    Settling {c.id} (s.update c.id f) := by
  have hmap : Settling (∅ ∪ {c.id}) (s.update c.id f) := by
    refine h.map (frame_onBead hframe) ?_ rfl (fun b _ hid _ => .inl (if_neg hid)) ?_ ?_
    · intro b hb hscope hclosed
      rw [onBead, if_neg (id_ne_of_scope h.ids hb hscope hc hkind), hclosed]
    · intro b hb hid hcontrol
      obtain rfl := eq_of_id_eq_of_nodup h.ids hb hc hid
      rw [onBead, if_pos rfl]
      exact hidle hcontrol
    · intro b hb hid hclosed
      obtain rfl := eq_of_id_eq_of_nodup h.ids hb hc hid
      rw [onBead, if_pos rfl]
      exact hfine hclosed
  rwa [Set.empty_union] at hmap

section Close

variable (hids : (s.beads.map Bead.id).Nodup) (hc : c ∈ s.beads) (hkind : c.kind ≠ scope)
include hids hc hkind

theorem onBead_scope (hb : b ∈ s.beads) (hscope : b.kind = scope) : onBead c.id f b = b :=
  if_neg (id_ne_of_scope hids hb hscope hc hkind)

theorem scopesSettled_close (hframe : ∀ b, Frame b (f b)) :
    ScopesSettled s (s.update c.id f) :=
  scopesSettled_unpassed hids rfl (frame_onBead hframe) fun _ hb hscope =>
    unpassed_onBead (id_ne_of_scope hids hb hscope hc hkind)

end Close

theorem isWork_iff : isWork b ↔ isControlKind b.kind = false ∧ b.kind ≠ scope ∧
    b.kind ≠ spec ∧ b.kind ≠ workflow := by
  simp [isWork]

theorem Settling.work (h : Settling ∅ s)
    (hc : c ∈ s.beads) (hwork : isWork c) (hopen : c.status ≠ .closed)
    (hframe : ∀ b, Frame b (f b)) :
    Settling ∅ (s.update c.id f) ∧ ScopesSettled s (s.update c.id f) := by
  obtain ⟨hcontrol, hkind, _⟩ := isWork_iff.mp hwork
  have hnot : ¬ isControlKind c.kind := by rw [hcontrol]; exact Bool.false_ne_true
  have hclose : Settling {c.id} (s.update c.id f) :=
    h.close hc hkind hframe (fun hyes => absurd hyes hnot) fun hyes => absurd hyes hopen
  constructor
  · have hmem : f c ∈ (s.update c.id f).beads :=
      mem_map.mpr ⟨c, hc, if_pos rfl⟩
    rw [← (hframe c).kind] at hnot
    apply hclose.discharge hmem (hframe c).1
    · exact fun hunchecked => absurd (control_of_unchecked hunchecked) hnot
    · intro hcheck
      rw [hcheck] at hnot
      exact absurd (by decide) hnot
  · exact scopesSettled_close h.ids hc hkind hframe

theorem Settling.claim (h : Settling ∅ s)
    (hstep : step s (.claim id) = some t) : Settling ∅ t ∧ ScopesSettled s t := by
  obtain ⟨b, hmem, rfl, hwork, hopen, rfl⟩ := step_claim_cases h.ids hstep
  exact h.work hmem hwork (by rw [hopen]; exact nofun) fun b => ⟨rfl, fun _ _ => rfl⟩

theorem Settling.finish {result : Result} (h : Settling ∅ s)
    (hstep : step s (.finish id result) = some t) : Settling ∅ t ∧ ScopesSettled s t := by
  obtain ⟨b, hmem, -, rfl, hwork, hopen, rfl⟩ := step_finish_cases h.ids hstep
  exact h.work hmem hwork hopen (frame_closeWith (onlyResults_result result))

theorem processScopeCheck_cases (h : processScopeCheck s c = some t) :
    ∃ mid m body, (s.downDeps c.id).head? = some mid ∧ s.get mid = some m ∧
      resolveScopeBody s c.scopeRef = some body ∧ m.status = .closed ∧
      ((scopeFailed m = true ∧ t = if (abortScope s c.scopeRef body c.id).2 then
            (abortScope s c.scopeRef body c.id).1.setOutcomeAndClose c.id Outcome.pass
          else (abortScope s c.scopeRef body c.id).1) ∨
        (scopeFailed m = false ∧ t = completeScopeCheck s c body m)) := by
  obtain ⟨mid, hhead, h⟩ := Option.bind_eq_some_iff.mp h
  obtain ⟨m, hget, h⟩ := Option.bind_eq_some_iff.mp h
  obtain ⟨body, hbody, h⟩ := Option.bind_eq_some_iff.mp h
  obtain ⟨hclosed, h⟩ := Option.ite_none_left_eq_some.mp h
  refine ⟨mid, m, body, hhead, hget, hbody, not_not.mp hclosed, ?_⟩
  split at h
  · next hfailed => exact .inl ⟨hfailed, (Option.some.inj h).symm⟩
  · next hfailed => exact .inr ⟨Bool.not_eq_true _ ▸ hfailed, (Option.some.inj h).symm⟩

section ScopeCheck

variable {s t : Store} {c : Bead} {verdict : Verdict}

theorem settlementStore_scopeCheck (hkind : c.kind = scopeCheck) :
    settlementStore s c verdict = s := by
  cases verdict <;> simp [settlementStore, hkind]

theorem failsScope_scopeCheck (hkind : c.kind = scopeCheck) {mid : String} {m : Bead}
    (hhead : (s.downDeps c.id).head? = some mid) (hget : s.get mid = some m) :
    failsScope s c verdict = scopeFailed m := by
  simp [failsScope, hkind, hhead, hget]

/-- A scope check closes as passed once its subject is settled or the body is closed. -/
theorem Settling.closeCheck {u : Store} (hu : Settling ∅ u) {c : Bead} (hc : c ∈ u.beads)
    (hkind : c.kind = scopeCheck)
    (hdone : ∀ m ∈ u.beads, m.kind ≠ scope → (u.downDeps c.id).head? = some m.id →
      m.status = .closed ∧ scopeFailed m = false ∨ BodyClosed u c.scopeRef) :
    Settling ∅ (u.setOutcomeAndClose c.id Outcome.pass) := by
  have hscope : c.kind ≠ scope := by rw [hkind]; decide
  have hframe : ∀ b, Frame b (closeOutcome Outcome.pass b) :=
    frame_closeOutcome _
  have hfine : scopeFailed (closeOutcome Outcome.pass c) = false :=
    scopeFailed_of_outcome (.inl (closeOutcome_outcome _ _))
  have hclose := hu.close hc hscope hframe (fun _ => nofun) fun _ => ⟨rfl, hfine⟩
  apply hclose.discharge (mem_map.mpr ⟨c, hc, if_pos rfl⟩) rfl
  · intro _ _ hfailed
    rw [hfine] at hfailed
    cases hfailed
  · intro _ _ m' hm' hmkind hhead
    right
    obtain ⟨m, hm, rfl⟩ := mem_map.mp hm'
    rw [(frame_onBead hframe m).kind] at hmkind
    rw [(frame_onBead hframe m).1] at hhead
    rcases hdone m hm hmkind hhead with hm' | hbody
    · left
      by_cases hid : m.id = c.id
      · obtain rfl := eq_of_id_eq_of_nodup hu.ids hm hc hid
        rw [onBead, if_pos rfl]
        exact ⟨rfl, hfine⟩
      · rwa [onBead, if_neg hid]
    · right
      refine hbody.map (frame_onBead hframe) ?_ rfl
      intro b hb hbscope hclosed
      rwa [onBead_scope hu.ids hc hscope hb hbscope]

variable (h : Settling ∅ s) (hc : c ∈ s.beads) (hkind : c.kind = scopeCheck) {m body : Bead}
  (hbody : body ∈ s.beads) (hs : SoundSettlement s c verdict body)
  (hfails : failsScope s c verdict = scopeFailed m)
include h hc hkind hbody hs hfails

/-- The subject has failed: the scope is aborted, and its body fails unless there is an error. -/
theorem scopeCheck_fail (hfailed : scopeFailed m = true)
    (ht : t = if (abortScope s c.scopeRef body c.id).2 then
        (abortScope s c.scopeRef body c.id).1.setOutcomeAndClose c.id Outcome.pass
      else (abortScope s c.scopeRef body c.id).1) : Settling ∅ t ∧ ScopesSettled s t := by
  obtain ⟨ids, hopened, ⟨hok, hmap, -⟩ | ⟨herror, hmap⟩⟩ := abortScope_cases h.ids body
  · have haborts : abortsScope s c verdict body = true := by
      rw [abortsScope, hfails, hfailed, settlementStore_scopeCheck hkind, hok]
      rfl
    obtain ⟨hu, hbodyClosed⟩ := h.abort hopened hbody (hs.only (.inl haborts)).named
    rw [hok, if_pos rfl, hmap] at ht
    subst ht
    constructor
    · have hframe : Frame c (abortBead s c.scopeRef ids body c) := frame_abortBead c
      rw [← hframe.1]
      apply hu.closeCheck (mem_map_of_mem hc) (hframe.kind.trans hkind)
      intro _ _ _ _
      right
      rwa [hframe.scopeRef]
    · apply scopesSettled_unpassed h.ids map_map
        fun b => (frame_abortBead b).trans (frame_onBead (frame_closeOutcome _) _)
      intro b hb hscope
      have habort : Unpassed b (abortBead s c.scopeRef ids body b) :=
        abortBead_unpassed hopened hb h.ids hbody (hs.late haborts)
      apply habort.trans (unpassed_onBead _)
      rw [(frame_abortBead b).1]
      exact id_ne_of_scope h.ids hb hscope hc (by rw [hkind]; decide)
  · rw [herror, if_neg Bool.false_ne_true, hmap] at ht
    subst ht
    refine ⟨h.skip hopened, scopesSettled_unpassed h.ids rfl (frame_skipped ids) ?_⟩
    exact fun b hb _ => (skipped_spared hopened hb).unpassed

/-- The subject is settled: the check closes, and the scope with it if no other member is open. -/
theorem scopeCheck_complete (hbodykind : body.kind = scope) (hm : m ∈ s.beads)
    (hhead : (s.downDeps c.id).head? = some m.id) (hclosed : m.status = .closed)
    (hfine : scopeFailed m = false) :
    Settling ∅ (completeScopeCheck s c body m) ∧
      ScopesSettled s (completeScopeCheck s c body m) := by
  have hcscope : c.kind ≠ scope := by rw [hkind]; decide
  have hsubject : ∀ m' ∈ s.beads, (s.downDeps c.id).head? = some m'.id →
      m'.status = .closed ∧ scopeFailed m' = false := by
    intro m' hm' hhead'
    rw [hhead] at hhead'
    rw [eq_of_id_eq_of_nodup h.ids hm' hm (Option.some.inj hhead').symm]
    exact ⟨hclosed, hfine⟩
  unfold completeScopeCheck
  split
  · constructor
    · exact h.closeCheck hc hkind fun m' hm' _ hhead' => .inl (hsubject m' hm' hhead')
    · exact scopesSettled_close h.ids hc hcscope (frame_closeOutcome _)
  · next hdone =>
    rw [Bool.not_eq_true] at hdone
    have hcomplete : completesScope s c verdict = true := by
      rw [completesScope, hfails, hfine, settlementStore_scopeCheck hkind, hdone]
      rfl
    have hu : Settling ∅ (closeScopeAsPassed s c.scopeRef body m) := h.complete hbody hbodykind
    have hsame : ∀ {b : Bead}, b ∈ s.beads → b.kind ≠ scope →
        passBead s c.scopeRef body m b = b := fun hb hscope =>
      passBead_of_ne (id_ne_of_scope h.ids hbody hbodykind hb hscope).symm
    constructor
    · have hcu : c ∈ (closeScopeAsPassed s c.scopeRef body m).beads := by
        rw [closeScopeAsPassed_map]
        exact mem_map.mpr ⟨c, hc, hsame hc hcscope⟩
      apply hu.closeCheck hcu hkind
      intro m' hm' hmkind hhead'
      rw [closeScopeAsPassed_map] at hm' hhead'
      obtain ⟨m₀, hm₀, rfl⟩ := mem_map.mp hm'
      rw [(frame_passBead m₀).kind] at hmkind
      rw [(frame_passBead m₀).1] at hhead'
      rw [hsame hm₀ hmkind]
      exact .inl (hsubject m₀ hm₀ hhead')
    · apply scopesSettled_body h.ids (by rw [closeScopeAsPassed_map]; exact map_map)
        (fun b => (frame_passBead b).trans (frame_onBead (frame_closeOutcome _) _)) hbody
      · intro b hb hscope hid
        rw [passBead_of_ne hid, onBead_scope h.ids hc hcscope hb hscope]
      · intro hbclosed
        have hid : (passBead s c.scopeRef body m body).id = body.id := (frame_passBead body).1
        rw [onBead, if_neg (hid ▸ id_ne_of_scope h.ids hbody hbodykind hc hcscope)]
        exact (passBead_kept h.ids hbody hbody hbclosed).2
      · intro hopen x hx hholds
        rw [passBead_of_ne (id_ne_of_holdsBody hholds)]
        by_cases hxid : x.id = c.id
        · rw [onBead, if_pos hxid]
          exact ⟨rfl, scopeFailed_of_outcome (.inl (closeOutcome_outcome _ _))⟩
        · rw [onBead, if_neg hxid]
          have honly := hs.only (.inr ⟨hcomplete, hopen⟩)
          have hwhole := hs.whole hcomplete hopen
          rw [settlementStore_scopeCheck hkind] at honly hwhole
          exact ((h.mono (Set.empty_subset _)).members_settled hbody hopen honly hwhole hdone hx
            hholds hxid).elim id fun hhead' => hsubject x hx hhead'.1

omit hbody hs hfails

theorem Settling.scopeCheck (hsound : SoundProcess s c verdict (resolveScopeBody s c.scopeRef))
    (hstep : processScopeCheck s c = some t) : Settling ∅ t ∧ ScopesSettled s t := by
  obtain ⟨mid, m, body, hhead, hget, hbody, hclosed, hcase⟩ := processScopeCheck_cases hstep
  obtain ⟨hm, rfl⟩ := (Store.get_eq_some h.ids).mp hget
  obtain ⟨hbodymem, hbodykind⟩ := resolveScopeBody_mem hbody
  have hs := hsound.2 body hbody
  have hfails : failsScope s c verdict = scopeFailed m := failsScope_scopeCheck hkind hhead hget
  rcases hcase with ⟨hfailed, ht⟩ | ⟨hfine, rfl⟩
  · exact scopeCheck_fail h hc hkind hbodymem hs hfails hfailed ht
  · exact scopeCheck_complete h hc hkind hbodymem hs hfails hbodykind hm hhead hclosed hfine

end ScopeCheck

section Settle

variable {s t : Store} {c body : Bead} {result : Result}

abbrev Store.settledBy (s : Store) (c : Bead) (result : Result) : Store :=
  s.updateMetadataAndClose c.id result.batch

theorem frame_result (result : Result) (b : Bead) : Frame b (closeWith result.batch b) :=
  frame_closeWith (onlyResults_result result) b

variable (result) in
theorem mem_close (hc : c ∈ s.beads) :
    closeWith result.batch c ∈ (s.settledBy c result).beads :=
  mem_map.mpr ⟨c, hc, if_pos rfl⟩

theorem settling_discharge {u : Store} {c' : Bead} (hkind : c.kind ≠ scopeCheck)
    (hu : Settling {c.id} u) (hc' : c' ∈ u.beads) (hframe : Frame c c')
    (hbody : isUnchecked c → scopeFailed c' → BodyClosed u c.scopeRef) : Settling ∅ u := by
  apply hu.discharge hc' hframe.1
  · intro hunchecked _ hfailed
    rw [hframe.scopeRef]
    exact hbody (hframe.isUnchecked ▸ hunchecked) hfailed
  · intro hcheck
    rw [hframe.kind] at hcheck
    exact absurd hcheck hkind

variable (h : Settling ∅ s) (hc : c ∈ s.beads) (hcontrol : isControlKind c.kind)
  (hkind : c.kind ≠ Kind.scopeCheck) (hopen : c.status = .opened)
include h hc hcontrol

theorem mem_of_scope (hbody : body ∈ (s.settledBy c result).beads) (hscope : body.kind = scope) :
    body ∈ s.beads := by
  obtain ⟨b, hb, rfl⟩ := mem_map.mp hbody
  rw [(frame_onBead (frame_result result) b).kind] at hscope
  rwa [onBead_scope h.ids hc (not_scope_of_control hcontrol) hb hscope]

variable (result) in
include hopen in
theorem settling_close : Settling {c.id} (s.settledBy c result) := by
  apply h.close hc (not_scope_of_control hcontrol) (frame_result result) fun _ => nofun
  intro hclosed
  rw [hopen] at hclosed
  cases hclosed

include hkind hopen

omit hkind hopen in
/-- A change after the control closed that passes no body. -/
theorem scopesSettled_settled {g : Bead → Bead} (hframe : ∀ b, Frame b (g b))
    (hg : ∀ b ∈ (s.settledBy c result).beads, Unpassed b (g b)) :
    ScopesSettled s { s.settledBy c result with beads := (s.settledBy c result).beads.map g } := by
  apply scopesSettled_unpassed h.ids map_map
    fun b => (frame_onBead (frame_result result) b).trans (hframe _)
  intro b hb hscope
  have hne := id_ne_of_scope h.ids hb hscope hc (not_scope_of_control hcontrol)
  exact (unpassed_onBead hne).trans (hg _ (mem_map_of_mem hb))

theorem settle_fail (hbody : body ∈ (s.settledBy c result).beads)
    (hs : SoundSettlement s c (.settle result) body)
    (hfails : failsScope s c (.settle result) = true)
    (hlasts : isUnchecked c → abortsScope s c (.settle result) body) :
    Settling ∅ (abortScope (s.settledBy c result) c.scopeRef body c.id).1 ∧
      ScopesSettled s (abortScope (s.settledBy c result) c.scopeRef body c.id).1 := by
  have hu := settling_close result h hc hcontrol hopen
  have hstore : settlementStore s c (.settle result) = s.settledBy c result := if_neg hkind
  have haborts : abortsScope s c (.settle result) body =
      (abortScope (s.settledBy c result) c.scopeRef body c.id).2 := by
    rw [abortsScope, hfails, hstore, Bool.true_and]
  rw [haborts] at hlasts
  obtain ⟨ids, hopened, ⟨hok, hmap, -⟩ | ⟨herror, hmap⟩⟩ := abortScope_cases hu.ids body
  · rw [hok] at haborts
    obtain ⟨ht, hclosed⟩ := hu.abort hopened hbody (hs.only (.inl haborts)).named
    rw [hmap]
    constructor
    · apply settling_discharge hkind ht (mem_map_of_mem (mem_close result hc))
      · exact (frame_result result c).trans (frame_abortBead _)
      · exact fun _ _ => hclosed
    · exact scopesSettled_settled h hc hcontrol frame_abortBead
        fun b hb => abortBead_unpassed hopened hb hu.ids hbody (hs.late haborts)
  · rw [hmap]
    rw [herror] at hlasts
    constructor
    · apply settling_discharge hkind (hu.skip hopened) (mem_map_of_mem (mem_close result hc))
      · exact (frame_result result c).trans (frame_skipped ids _)
      · exact fun hunchecked => absurd (hlasts hunchecked) Bool.false_ne_true
    · exact scopesSettled_settled h hc hcontrol (frame_skipped ids)
        fun b hb => (skipped_spared hopened hb).unpassed

/-- A control that does not fail and finds no other member open passes its scope. -/
theorem settle_pass (hbody : body ∈ (s.settledBy c result).beads)
    (hbodykind : body.kind = scope) (hbodyopen : body.status ≠ .closed)
    (honly : OnlyBody (s.settledBy c result) c.scopeRef body)
    (hwhole : NoneOverlooked (s.settledBy c result) c body)
    (hdone : hasOpenScopeMembers (s.settledBy c result) c.scopeRef [c.id] = false)
    (hfine : scopeFailed (closeWith result.batch c) = false) :
    Settling ∅ (closeScopeAsPassed (s.settledBy c result) c.scopeRef body
      (closeWith result.batch c)) ∧
    ScopesSettled s (closeScopeAsPassed (s.settledBy c result) c.scopeRef body
      (closeWith result.batch c)) := by
  have hscope := not_scope_of_control hcontrol
  have hframe := frame_result result
  have hcu := mem_close result hc
  have hu := settling_close result h hc hcontrol hopen
  have hne : (closeWith result.batch c).id ≠ body.id :=
    (id_ne_of_scope hu.ids hbody hbodykind hcu ((hframe c).kind ▸ hscope)).symm
  constructor
  · apply settling_discharge hkind (hu.complete hbody hbodykind)
    · rw [closeScopeAsPassed_map]
      exact mem_map_of_mem hcu
    · exact (hframe c).trans (frame_passBead _)
    · intro _ hfailed
      rw [passBead_of_ne hne, hfine] at hfailed
      cases hfailed
  · apply scopesSettled_body h.ids (by rw [closeScopeAsPassed_map]; exact map_map)
      (fun b => (frame_onBead hframe b).trans (frame_passBead _))
      (mem_of_scope h hc hcontrol hbody hbodykind)
    · intro b hb hb' hid
      rw [onBead_scope h.ids hc hscope hb hb', passBead_of_ne hid]
    · exact fun hclosed => absurd hclosed hbodyopen
    · intro _ m hm hholds
      rw [passBead_of_ne ((frame_onBead hframe m).1.symm ▸ id_ne_of_holdsBody hholds)]
      by_cases hmid : m.id = c.id
      · obtain rfl := eq_of_id_eq_of_nodup h.ids hm hc hmid
        rw [onBead, if_pos rfl]
        exact ⟨rfl, hfine⟩
      · rw [onBead, if_neg hmid]
        have hmu : m ∈ (s.settledBy c result).beads :=
          mem_map.mpr ⟨m, hm, if_neg hmid⟩
        rcases hu.members_settled hbody hbodyopen honly hwhole hdone hmu hholds hmid with
          hsettled | ⟨_, k, hk, hkid, hkkind⟩
        · exact hsettled
        · rw [eq_of_id_eq_of_nodup hu.ids hk hcu hkid, (hframe c).kind] at hkkind
          exact absurd hkkind hkind

theorem Settling.settle
    (hsound : SoundProcess s c (.settle result)
      (resolveScopeBody (settlementStore s c (.settle result)) c.scopeRef)) :
    Settling ∅ (reconcileTerminalScopedMember (s.settledBy c result) (closeWith result.batch c)) ∧
      ScopesSettled s
        (reconcileTerminalScopedMember (s.settledBy c result) (closeWith result.batch c)) := by
  have hframe := frame_result result c
  have hstore : settlementStore s c (.settle result) = s.settledBy c result := if_neg hkind
  have hfails : failsScope s c (.settle result) = beadOutcomeFailed (closeWith result.batch c) :=
    if_neg hkind
  have hu := settling_close result h hc hcontrol hopen
  have halone : ScopesSettled s (s.settledBy c result) :=
    scopesSettled_close h.ids hc (not_scope_of_control hcontrol) (frame_result result)
  have hfineSettling : (isUnchecked c → scopeFailed (closeWith result.batch c) = false) →
      Settling ∅ (s.settledBy c result) := by
    intro hfine
    apply settling_discharge hkind hu (mem_close result hc) hframe
    intro hunchecked hfailed
    rw [hfine hunchecked] at hfailed
    cases hfailed
  rw [hstore] at hsound
  rw [reconcileTerminalScopedMember, hframe.scopeRef]
  split
  · next href =>
    refine ⟨hfineSettling fun hunchecked => ?_, halone⟩
    simp [isUnchecked, href] at hunchecked
  · split
    · next hnone =>
      refine ⟨hfineSettling fun hunchecked => ?_, halone⟩
      rw [hnone] at hsound
      by_contra hfailed
      rw [Bool.not_eq_false, scopeFailed, Bool.and_eq_true] at hfailed
      obtain ⟨b, hb, -⟩ := hsound.1 hunchecked hkind (hfails.trans hfailed.2)
      cases hb
    · next body hbody =>
      rw [hbody] at hsound
      obtain ⟨hbodymem, hbodykind⟩ := resolveScopeBody_mem hbody
      have hs := hsound.2 body rfl
      split
      · next hfailed =>
        refine settle_fail h hc hcontrol hkind hopen hbodymem hs (hfails.trans hfailed) ?_
        intro hunchecked
        obtain ⟨b, hb, haborts⟩ := hsound.1 hunchecked hkind (hfails.trans hfailed)
        cases hb
        exact haborts
      · next hfine =>
        rw [Bool.not_eq_true] at hfine
        have hfine' : scopeFailed (closeWith result.batch c) = false := by
          rw [scopeFailed, hfine, Bool.and_false]
        split
        · exact ⟨hfineSettling fun _ => hfine', halone⟩
        · next hdone =>
          rw [Bool.or_eq_true, not_or, decide_eq_true_eq, Bool.not_eq_true] at hdone
          obtain ⟨hdone, hbodyopen⟩ := hdone
          have hdone' : hasOpenScopeMembers (s.settledBy c result) c.scopeRef [c.id] = false := by
            rw [hasOpenScopeMembers, any_eq_false] at hdone ⊢
            intro m hm hmopen
            refine hdone m hm ?_
            simp only [Bool.and_eq_true] at hmopen ⊢
            exact ⟨⟨⟨hmopen.1.1.1, rfl⟩, hmopen.1.2⟩, hmopen.2⟩
          have hcomplete : completesScope s c (.settle result) = true := by
            rw [completesScope, hfails, hfine, hstore, hdone']
            rfl
          have honly := hs.only (.inr ⟨hcomplete, hbodyopen⟩)
          have hwhole := hs.whole hcomplete hbodyopen
          rw [hstore] at honly hwhole
          exact settle_pass h hc hcontrol hkind hopen hbodymem hbodykind hbodyopen honly hwhole
            hdone' hfine'

end Settle

section Attach

variable {s attached : Store} {c b : Bead}

theorem downDeps_attach (id : String) :
    (s.attach attached).downDeps id = s.downDeps id ++ attached.downDeps id := by
  simp [Store.downDeps, Store.attach]

theorem BodyClosed.attach {scopeRef : String} (h : BodyClosed s scopeRef) :
    BodyClosed (s.attach attached) scopeRef := by
  obtain ⟨b, hb, hname, hclosed⟩ := h
  exact ⟨b, mem_append_left _ hb, hname, hclosed⟩

theorem isScopeCheckOf_iff {m : Bead} : isScopeCheckOf s m c = true ↔
    ((c.kind = scopeCheck ∧ c.scopeRole = ScopeRole.control) ∧ c.scopeRef = m.scopeRef) ∧
      (s.downDeps c.id).head? = some m.id := by
  simp only [isScopeCheckOf, Bool.and_eq_true, beq_iff_eq]

variable (hatt : Attachable s c attached)
include hatt

theorem Attachable.new_id (hb : b ∈ attached.beads) : b.id ∉ s.beads.map Bead.id := by
  intro hold
  have hnodup := hatt.ids
  rw [map_append, nodup_append] at hnodup
  exact hnodup.2.2 _ hold _ (mem_map_of_mem hb) rfl

theorem Attachable.not_closed (hb : b ∈ attached.beads) (hkind : b.kind ≠ spec) :
    b.status = .opened :=
  (hatt.opened b hb).resolve_right hkind

variable (h : Settling ∅ s) (hc : c ∈ s.beads)
include h

theorem Settling.attach_watched : Watched (s.attach attached) := by
  intro m hm href hrole
  rcases mem_append.mp hm with hm | hm
  · refine (h.watched m hm href hrole).imp_right ?_
    rintro ⟨k, hk, hcheck⟩
    refine ⟨k, mem_append_left _ hk, ?_⟩
    rw [isScopeCheckOf_iff] at hcheck ⊢
    rw [downDeps_attach, head?_append, hcheck.2]
    exact ⟨hcheck.1, rfl⟩
  · refine (hatt.watched m hm href hrole).imp_right ?_
    rintro ⟨k, hk, hcheck⟩
    have hnone : s.downDeps k.id = [] := by
      rw [Store.downDeps, map_eq_nil_iff, filter_eq_nil_iff]
      intro dep hdep heq
      rw [decide_eq_true_eq] at heq
      exact hatt.new_id hk (heq ▸ h.issues dep hdep)
    refine ⟨k, mem_append_right _ hk, ?_⟩
    simpa only [isScopeCheckOf, downDeps_attach, hnone, nil_append] using hcheck

include hc

theorem Settling.attach_issues :
    ∀ dep ∈ (s.attach attached).blocks, dep.1 ∈ (s.attach attached).beads.map Bead.id := by
  intro dep hdep
  rw [Store.attach, map_append, mem_append]
  rcases mem_append.mp hdep with hdep | hdep
  · exact .inl (h.issues dep hdep)
  · rcases hatt.issues dep hdep with hissue | hissue
    · exact .inl (hissue ▸ mem_map_of_mem hc)
    · exact .inr hissue

variable (hopen : c.status = .opened)
include hopen

/-- The dependencies of a closed bead stay what they are, so its subject is an old bead. -/
theorem Settling.attach_head {k m : Bead} (hk : k ∈ s.beads) (hclosed : k.status = .closed)
    (hm : m ∈ (s.attach attached).beads)
    (hhead : ((s.attach attached).downDeps k.id).head? = some m.id) :
    m ∈ s.beads ∧ (s.downDeps k.id).head? = some m.id := by
  have hnone : attached.downDeps k.id = [] := by
    rw [Store.downDeps, map_eq_nil_iff, filter_eq_nil_iff]
    intro dep hdep heq
    rw [decide_eq_true_eq] at heq
    rcases hatt.issues dep hdep with hissue | hissue
    · rw [eq_of_id_eq_of_nodup h.ids hk hc (heq.symm.trans hissue), hopen] at hclosed
      cases hclosed
    · obtain ⟨b, hb, hid⟩ := mem_map.mp hissue
      exact hatt.new_id hb (by rw [hid, heq]; exact mem_map_of_mem hk)
  rw [downDeps_attach, hnone, append_nil] at hhead
  refine ⟨?_, hhead⟩
  rcases mem_append.mp hm with hm | hm
  · exact hm
  · obtain ⟨dep, hdep, hid⟩ := mem_map.mp (mem_of_mem_head? hhead)
    exact absurd (hid ▸ h.targets dep (mem_of_mem_filter hdep)) (hatt.new_id hm)

theorem Settling.attach : Settling ∅ (s.attach attached) where
  ids := hatt.ids
  issues := h.attach_issues hatt hc
  targets := by
    intro dep hdep
    rcases mem_append.mp hdep with hdep | hdep
    · rw [Store.attach, map_append]
      exact mem_append_left _ (h.targets dep hdep)
    · exact hatt.targets dep hdep
  watched := h.attach_watched hatt
  idle := by
    intro b hb hcontrol
    rcases mem_append.mp hb with hb | hb
    · exact h.idle b hb hcontrol
    · rw [hatt.not_closed hb (by rintro hspec; rw [hspec] at hcontrol; cases hcontrol)]
      exact nofun
  held := by
    intro b hb hX hunchecked hstatus hfailed
    rcases mem_append.mp hb with hb | hb
    · exact (h.held b hb hX hunchecked hstatus hfailed).attach
    · have hcontrol := control_of_unchecked hunchecked
      rw [hatt.not_closed hb (by rintro hspec; rw [hspec] at hcontrol; cases hcontrol)] at hstatus
      cases hstatus
  checks := by
    intro k hk hX hkind hstatus m hm hmkind hhead
    rcases mem_append.mp hk with hk | hk
    · obtain ⟨hm, hhead⟩ := h.attach_head hatt hc hopen hk hstatus hm hhead
      exact (h.checks k hk hX hkind hstatus m hm hmkind hhead).imp_right
        (Or.imp_right BodyClosed.attach)
    · rw [hatt.not_closed hk (by rw [hkind]; decide)] at hstatus
      cases hstatus

omit hc hopen

theorem scopesSettled_attach : ScopesSettled s (s.attach attached) where
  passed := by
    intro b hb hkind hstatus _ hbefore
    rcases mem_append.mp hb with hb | hb
    · exact absurd hstatus (hbefore b hb rfl)
    · rw [hatt.not_closed hb (by rw [hkind]; decide)] at hstatus
      cases hstatus
  kept := by
    intro b₀ hb₀ _ _ b hb hid
    rcases mem_append.mp hb with hb | hb
    · rw [eq_of_id_eq_of_nodup h.ids hb hb₀ hid]
    · exact absurd (hid ▸ mem_map_of_mem hb₀) (hatt.new_id hb)

end Attach

end GasCity.Dispatch
