import GasCity.Convergence.Recovery

/-! # The end of a loop at its limit

Once the wisp of the last allowed iteration is closed, at most two ticks without a fault
take the loop to the operator or to its end.
-/

namespace GasCity.Convergence

def Ended (s : World) : Prop :=
  s.metadata.state = .waitingManual ∨ s.metadata.state = .terminated

instance (s : World) : Decidable (Ended s) :=
  inferInstanceAs (Decidable (_ ∨ _))

def Accepted (c : Choice) : Prop :=
  c.answer = .ok

instance (c : Choice) : Decidable (Accepted c) :=
  inferInstanceAs (Decidable (_ = _))

/-- The program, when nothing else happens and every write is accepted. -/
abbrev Alone {α : Type} (P : World → Prop) (p : Handler α) (Q : α → World → Prop) : Prop :=
  ∀ E, Respects exec (.alone Accepted E) P p Q

section Calls

variable {α β : Type} {P R : World → Prop} {Q : α → World → Prop}

theorem alone_pure {a : α} (h : ∀ s, P s → Q a s) : Alone P (pure a) Q :=
  fun _ => Respects.alone_done h

theorem alone_call {o : Op} {f : Ans o → Handler α} {R : Ans o → World → Prop}
    (hcall : ∀ s c, P s → Accepted c → R (exec o c s).1 (exec o c s).2)
    (hnext : ∀ r, Alone (R r) (f r) Q) : Alone P (call o >>= f) Q :=
  fun E => Respects.alone_call hcall fun r => hnext r E

theorem alone_then {p : Handler β} {q : Handler α} (hp : Alone P p fun _ => R)
    (hq : Alone R q Q) : Alone P (p >>= fun _ => q) Q :=
  fun E => Respects.bind (hp E) fun _ => hq E

theorem alone_bind {p : Handler β} {q : β → Handler α} {R : β → World → Prop}
    (hp : Alone P p R) (hq : ∀ b, Alone (R b) (q b) Q) : Alone P (p >>= q) Q :=
  fun E => Respects.bind (hp E) fun b => hq b E

variable {p : Handler α}

theorem alone_pre {P' : World → Prop} (h : Alone P p Q) (hP : ∀ s, P' s → P s) :
    Alone P' p Q :=
  fun E => (h E).pre fun s _ => hP s

theorem alone_post {Q' : α → World → Prop} (h : Alone P p Q)
    (hQ : ∀ a s, Q a s → Q' a s) : Alone P p Q' :=
  fun E => (h E).post fun a s _ => hQ a s

theorem alone_return {a : α} : Alone P (pure a) fun _ => P := alone_pure fun _ h => h

theorem alone_of_false (h : ∀ s, ¬ P s) : Alone P p Q :=
  fun _ => Respects.of_false fun s _ => h s

theorem alone_ite {φ : Prop} [Decidable φ] {p' : Handler α} (h : φ → Alone P p Q)
    (h' : ¬ φ → Alone P p' Q) : Alone P (if φ then p else p') Q := by
  split_ifs with hφ
  · exact h hφ
  · exact h' hφ

theorem alone_of_fact {φ : Prop} (h : ∀ s, P s → φ) (hk : φ → Alone P p Q) :
    Alone P p Q :=
  fun E s hs hP => hk (h s hP) E s hs hP

theorem alone_true {f : Bool → Handler α} (h : Alone R (f true) Q) (r : Bool) :
    Alone (fun s => r = true ∧ R s) (f r) Q := by
  cases r with
  | true => exact alone_pre h fun _ h => h.2
  | false => exact alone_of_false fun _ h => by cases h.1

/-- A call that answers `a` when it is accepted. -/
theorem alone_answer {o : Op} {f : Ans o → Handler α} {a : Ans o}
    (hcall : ∀ s c, P s → c.answer = .ok → ∃ t, exec o c s = (a, t) ∧ R t)
    (hnext : Alone R (f a) Q) : Alone P (call o >>= f) Q := by
  refine alone_call (R := fun r s => r = a ∧ R s) (fun s c hs hc => ?_) fun r => ?_
  · obtain ⟨t, heq, ht⟩ := hcall s c hs hc
    rw [heq]
    exact ⟨rfl, ht⟩
  · refine alone_of_fact (fun _ h => h.1) ?_
    rintro rfl
    exact alone_pre hnext fun _ h => h.2

theorem alone_set {site : Site} {x : MetaWrite} (h : ∀ s, P s → R (s.write x)) :
    Alone P (setMetadata site x) fun _ => R :=
  alone_answer (fun s _ hs hc => ⟨_, if_pos hc, h s hs⟩) alone_return

theorem alone_trySet {x : MetaWrite} (h : ∀ s, P s → R (s.write x)) :
    Alone P (trySetMetadata x) fun _ => R :=
  alone_answer (fun s _ hs hc => ⟨_, if_pos hc, h s hs⟩) alone_return

theorem alone_emit {e : Event} (h : ∀ s, P s → R (s.record (.emit e))) :
    Alone P (emit e) fun _ => R :=
  fun _ => Respects.alone_call (fun s _ hs _ => h s hs)
    fun _ => Respects.alone_done fun _ h => h

theorem alone_closeRoot (h : ∀ s, P s → R { s with root := .closed }) :
    Alone P closeRoot fun _ => R :=
  alone_answer (fun s _ hs hc => ⟨_, if_pos hc, h s hs⟩) alone_return

theorem alone_getBead {id : ID} {f : Option Wisp → Handler α}
    (hnext : ∀ b, Alone (fun s => P s ∧ s.bead id = b) (f b) Q) :
    Alone P (call (.getBead id) >>= f) Q :=
  alone_call (fun _ _ hs _ => ⟨hs, rfl⟩) hnext

end Calls

section Ends

variable {P : World → Prop} {α : Type}

theorem alone_transitionToWaitingManual (w : ID) (n : ℕ) (reason : WaitReason) :
    Alone (fun _ => True) (transitionToWaitingManual w n reason) fun _ => Ended := by
  have hset : ∀ site x, Alone (fun _ => True) (setMetadata site x) fun _ _ => True :=
    fun _ _ => alone_set fun _ _ => trivial
  refine alone_then (R := fun _ => True) (alone_emit fun _ _ => trivial) ?_
  refine alone_then ?_ (alone_then (alone_emit fun _ h => h)
    alone_return)
  refine alone_then ?_ (alone_then alone_return
    (alone_set fun _ h => h))
  refine alone_then (hset _ _) (alone_then (hset _ _) (alone_then ?_
    alone_return))
  exact alone_set fun _ _ => .inl rfl

theorem alone_terminate (w : ID) (n : ℕ) (reason : TerminalReason) (actor : Actor) :
    Alone (fun _ => True) (terminate w n reason actor) fun _ => Ended := by
  have hset : ∀ site x, Alone (fun _ => True) (setMetadata site x) fun _ _ => True :=
    fun _ _ => alone_set fun _ _ => trivial
  refine alone_then (R := fun _ => True) (alone_emit fun _ _ => trivial) (alone_then
    (R := fun _ => True) (alone_emit fun _ _ => trivial) ?_)
  refine alone_then ?_ (alone_then (alone_closeRoot fun _ h => h)
    (alone_set fun _ h => h))
  refine alone_then (hset _ _) (alone_then (hset _ _) (alone_then ?_
    alone_return))
  exact alone_set fun _ _ => .inr rfl

theorem alone_burn (x : Option ID) : Alone P (burnSpeculativeWisp x) fun _ _ => True := by
  cases x with
  | none => exact alone_pure fun _ _ => trivial
  | some id =>
    exact alone_answer (R := fun _ => True) (fun _ _ _ hc => ⟨_, if_pos hc, trivial⟩)
      (alone_trySet fun _ _ => trivial)

variable {m : Metadata} {n : ℕ} {pourFailed : Bool} {speculative : Option ID}

theorem alone_settle_of_not_continue {v : Verdict} {w : ID} {o : Option Outcome}
    (h : decision m n o ≠ .continue) :
    Alone P (settle m v w n speculative pourFailed o) fun _ => Ended := by
  unfold settle
  cases hd : decision m n o with
  | wait =>
    exact alone_then (alone_burn speculative) (alone_transitionToWaitingManual w n .timeout)
  | «end» reason =>
    exact alone_then (alone_burn speculative) (alone_then
      (alone_terminate w n reason .controller) alone_return)
  | «continue» => exact absurd hd h

theorem alone_judge {v : Verdict} {w : ID} {Q : HandlerAction → World → Prop}
    (hkeep : ∀ s, P s → ∀ o, P (s.record (.gate w n o)))
    (hout : ∀ s, P s → ∀ o, P (s.write (.gateOutcome o)))
    (hwisp : ∀ s, P s → ∀ x, P (s.write (.gateOutcomeWisp x)))
    (hsettle : ∀ o, Alone P (settle m v w n speculative pourFailed o) Q)
    (hended : ∀ a s, Ended s → Q a s) :
    Alone P (judge m v w n speculative pourFailed) Q := by
  refine alone_ite (fun _ => hsettle _) fun _ => ?_
  cases needsManualWithoutGate m with
  | some reason =>
    exact alone_then (alone_burn speculative)
      (alone_post (alone_transitionToWaitingManual w n reason) hended)
  | none =>
    refine alone_call (R := fun _ => P) (fun s c hs _ => hkeep s hs _) fun o => ?_
    refine alone_bind ?_ (alone_true (hsettle _))
    refine alone_answer (fun s _ hs hc => ⟨_, if_pos hc, hout s hs _⟩) ?_
    exact alone_answer (fun s _ hs hc => ⟨_, if_pos hc, hwisp s hs _⟩)
      (alone_pure fun _ h => ⟨rfl, h⟩)

end Ends

/-- The loop is at the closed wisp `w` of iteration `n`, which was not processed yet. -/
structure Ripe (w : ID) (n limit : ℕ) (s : World) : Prop where
  root : s.root = .opened
  state : s.metadata.state = .active
  named : s.metadata.activeWisp = some w
  wisp : ∃ v, s.bead w = some v ∧ v.iteration = n ∧ v.closed = true
  last : ∀ id v, s.metadata.lastProcessedWisp = some id → s.bead id = some v → v.iteration < n
  positive : 1 ≤ n
  maxIterations : s.metadata.maxIterations = limit
  gate : s.metadata.gateMode = .condition → s.metadata.gateCondition ≠ ""

section Tick

variable {w : ID} {n limit : ℕ} {P : World → Prop} {Q : HandlerAction → World → Prop}

/-- The closed wisp is found when it is asked for. -/
theorem alone_getRipe {f : Option Wisp → Handler α} {Q : α → World → Prop}
    (hP : ∀ s, P s → Ripe w n limit s)
    (h : ∀ b : Wisp, b.iteration = n → b.closed = true → Alone P (f (some b)) Q) :
    Alone P (call (.getBead w) >>= f) Q := by
  refine alone_getBead fun b => ?_
  refine alone_of_fact
    (fun s hs => hs.2 ▸ (hP s hs.1).wisp) ?_
  rintro ⟨v, rfl, hit, hc⟩
  exact alone_pre (h v hit hc) fun _ hs => hs.1

theorem alone_tick {Q : World → Prop} (hP : ∀ s, P s → Ripe w n limit s)
    (h : Alone P (handleWispClosed w) fun _ => Q) : Alone P convergenceTick fun _ => Q := by
  refine alone_call (R := fun r s => P s ∧ r = .opened) (fun s _ hs _ => ⟨hs, (hP s hs).root⟩)
    fun r => ?_
  refine alone_ite (fun _ => ?_) fun hr => alone_of_false fun _ h => hr h.2
  refine alone_call (R := fun r s => P s ∧ r.1 = s.metadata) (fun s _ hs _ => ⟨hs.1, rfl⟩) ?_
  rintro ⟨m, v⟩
  refine alone_of_fact (φ := m.state = .active ∧ m.activeWisp = some w)
    (fun s hs => ?_) fun ⟨hst, hact⟩ => ?_
  · obtain ⟨hs, rfl⟩ := hs
    exact ⟨(hP s hs).state, (hP s hs).named⟩
  dsimp only
  rw [hst, hact]
  refine alone_getRipe (fun s hs => hP s hs.1) fun b _ hc => ?_
  dsimp only
  rw [if_pos hc]
  exact alone_then (alone_pre h fun _ hs => hs.1) alone_return

theorem alone_handleWispClosed {Q : HandlerAction → World → Prop} (hP : ∀ s, P s → Ripe w n limit s)
    (hiter : ∀ s k, P s → P (s.write (.iteration k)))
    (h : ∀ m v, (m.gateMode = .condition → m.gateCondition ≠ "") → m.maxIterations = limit →
      Alone (fun s => P s ∧ s.metadata.pendingNextWisp = m.pendingNextWisp ∧
        needsManualWithoutGate s.metadata = needsManualWithoutGate m ∧
        s.metadata.trigger = m.trigger)
        (do
          let (speculative, pourFailed) ← prepareSuccessor m n
          judge m v w n speculative pourFailed) Q) :
    Alone P (handleWispClosed w) Q := by
  refine alone_call (R := fun r s => P s ∧ r.1 = s.metadata) (fun s _ hs _ => ⟨hs, rfl⟩) ?_
  rintro ⟨m, v⟩
  refine alone_of_fact (φ := m.state = .active ∧ m.maxIterations = limit ∧
    (m.gateMode = .condition → m.gateCondition ≠ "")) (fun s hs => ?_) fun ⟨hst, hmax, hgate⟩ => ?_
  · obtain ⟨hs, rfl⟩ := hs
    exact ⟨(hP s hs).state, (hP s hs).maxIterations, (hP s hs).gate⟩
  dsimp only
  rw [if_neg (by rw [hst]; simp)]
  refine alone_getRipe (fun s hs => hP s hs.1) fun b hn _ => ?_
  refine alone_bind (R := fun k s => (P s ∧ m = s.metadata) ∧ k < n) ?_ fun k => ?_
  · cases hlast : m.lastProcessedWisp with
    | none => exact alone_pure fun s hs => ⟨hs, (hP s hs.1).positive⟩
    | some id =>
      refine alone_getBead fun x => ?_
      cases x with
      | none => exact alone_pure fun s hs => ⟨hs.1, (hP s hs.1.1).positive⟩
      | some x =>
        refine alone_pure fun s hs => ⟨hs.1, (hP s hs.1.1).last id x ?_ hs.2⟩
        rw [← hs.1.2]
        exact hlast
  · refine alone_of_fact (fun s hs => hs.2) fun hk => ?_
    rw [hn, if_neg (by omega)]
    refine alone_bind (R := fun _ s => P s ∧ m = s.metadata) ?_ fun total => ?_
    · exact alone_call (fun s _ hs _ => hs.1)
        fun _ => alone_return
    · refine alone_then (R := fun s => P s ∧ s.metadata.pendingNextWisp = m.pendingNextWisp ∧
        needsManualWithoutGate s.metadata = needsManualWithoutGate m ∧
        s.metadata.trigger = m.trigger) ?_ ?_
      · refine alone_ite (fun _ => ?_) fun _ => alone_pure ?_
        · refine alone_then (alone_set ?_) alone_return
          rintro s ⟨hs, rfl⟩
          exact ⟨hiter s total hs, rfl, rfl, rfl⟩
        · rintro s ⟨hs, rfl⟩
          exact ⟨hs, rfl, rfl, rfl⟩
      · rw [if_neg (fun hc => hgate hc.2.1 hc.2.2)]
        exact h m v hgate hmax

theorem alone_validPending {P : World → Prop} (k : ℕ) (pending : Option ID)
    (hclear : ∀ s, P s → P (s.write (.pendingNextWisp none))) :
    Alone P (validPendingNextWisp k pending) fun r s => P s ∧
      ∀ id, r = some id → ∃ v, s.bead id = some v ∧ v.iteration = k ∧ v.closed = false := by
  have hnone : Alone P (do
      trySetMetadata (.pendingNextWisp none)
      pure none) fun r s => P s ∧
      ∀ id, r = some id → ∃ v, s.bead id = some v ∧ v.iteration = k ∧ v.closed = false :=
    alone_then (alone_trySet hclear) (alone_pure fun _ hs => ⟨hs, by simp⟩)
  cases pending with
  | none => exact alone_pure fun _ hs => ⟨hs, by simp⟩
  | some id =>
    refine alone_getBead fun b => ?_
    cases b with
    | none => exact alone_pre hnone fun _ hs => hs.1
    | some v =>
      refine alone_ite (fun hv => alone_pure fun s hs => ⟨hs.1, ?_⟩) fun _ =>
        alone_pre hnone fun _ hs => hs.1
      rintro _ ⟨⟩
      exact ⟨v, hs.2, hv⟩

theorem alone_prepareSuccessor (m : Metadata) (n : ℕ) :
    Alone (fun _ => True) (prepareSuccessor m n) fun _ _ => True := by
  refine alone_bind (alone_validPending (n + 1) m.pendingNextWisp fun _ h => h) fun r => ?_
  cases r with
  | some id => exact alone_pure fun _ _ => trivial
  | none =>
    refine alone_ite (fun _ => ?_) fun _ => alone_pure fun _ _ => trivial
    refine alone_bind (R := fun _ _ => True) ?_ fun r => ?_
    · refine alone_call (R := fun _ _ => True) (fun _ _ _ _ => trivial) fun r => ?_
      cases r with
      | some id => exact alone_pure fun _ _ => trivial
      | none =>
        exact alone_call (R := fun _ _ => True) (fun _ _ _ _ => trivial) fun _ =>
          alone_pure fun _ _ => trivial
    · cases r with
      | none => exact alone_pure fun _ _ => trivial
      | some id =>
        exact alone_answer (R := fun _ => True) (fun _ _ _ hc => ⟨_, if_pos hc, trivial⟩)
          (alone_pure fun _ _ => trivial)

variable {s : World}

theorem alone_ripe : Alone (Ripe w n n) convergenceTick fun _ => Ended := by
  refine alone_tick (fun _ h => h) (alone_handleWispClosed (fun _ h => h)
    (fun _ _ h => { h with }) fun m v _ hmax => ?_)
  refine alone_bind (alone_pre (alone_prepareSuccessor m n) fun _ _ => trivial) fun r => ?_
  exact alone_judge (fun _ h _ => h) (fun _ h _ => h) (fun _ h _ => h)
    (fun _ => alone_settle_of_not_continue fun hd =>
      absurd (lt_of_decision_continue hd) (not_lt.mpr hmax.le)) fun _ _ h => h

/-- The wisp `x` after the closed wisp `w` is closed as well. -/
structure Behind (w x : ID) (n : ℕ) (s : World) : Prop where
  ripe : Ripe w n (n + 1) s
  keyed : ∃ v, s.keyed (n + 1) = some v ∧ v.id = x
  next : ∃ v, s.bead x = some v ∧ v.iteration = n + 1 ∧ v.closed = true
  closed : ∀ id v, s.bead id = some v → v.iteration = n + 1 → v.closed = true
  unguarded : needsManualWithoutGate s.metadata = none ∧ s.metadata.trigger = .none

variable {x : ID}

theorem Behind.write (h : Behind w x n s) {y : MetaWrite}
    (hy : y.Outside ∨ (∃ o, y = .gateOutcome o) ∨ ∃ o, y = .gateOutcomeWisp o) :
    Behind w x n (s.write y) := by
  rcases hy with hy | ⟨o, rfl⟩ | ⟨o, rfl⟩
  · cases y <;> first
      | exact hy.elim
      | exact { h with ripe := { h.ripe with } }
  · exact { h with ripe := { h.ripe with } }
  · exact { h with ripe := { h.ripe with } }

theorem Behind.record (h : Behind w x n s) (e : Entry) :
    Behind w x n (s.record e) :=
  { h with ripe := { h.ripe with } }

theorem alone_prepareBehind (m : Metadata) (hmax : m.maxIterations = n + 1)
    (hm : needsManualWithoutGate m = none ∧ m.trigger = .none) :
    Alone (Behind w x n) (prepareSuccessor m n)
      fun r s => r = (some x, false) ∧ Behind w x n s := by
  refine alone_bind (alone_validPending (n + 1) m.pendingNextWisp
    fun _ h => h.write (.inl trivial)) fun r => ?_
  cases r with
  | some id =>
    refine alone_of_false fun s hs => ?_
    obtain ⟨v, hv, hit, hopen⟩ := hs.2 id rfl
    rw [hs.1.closed id v hv hit] at hopen
    cases hopen
  | none =>
    rw [if_pos ⟨by omega, hm⟩]
    refine alone_bind (R := fun r s => r = some x ∧ Behind w x n s) ?_ fun r => ?_
    · refine alone_answer (a := some x) (fun s c hs hc => ?_)
        (alone_pure fun _ h => ⟨rfl, h⟩)
      obtain ⟨v, hv, hid⟩ := hs.1.keyed
      simp only [exec, World.pour, hv, if_pos hc, hid]
      exact ⟨s, rfl, hs.1⟩
    · cases r with
      | none => exact alone_of_false fun _ h => by cases h.1
      | some id =>
        refine alone_of_fact (fun _ h => Option.some.inj h.1) ?_
        rintro rfl
        exact alone_answer
          (fun s _ hs hc => ⟨_, if_pos hc, hs.2.write (.inl trivial)⟩)
          (alone_pure fun _ h => ⟨rfl, h⟩)

theorem bead_reveal {v : Wisp} (id : ID) :
    (s.reveal v).bead id = (s.bead id).map fun u =>
      if u.id = v.id then { u with hidden := false } else u := by
  have hid : (fun u : Wisp => decide (u.id = id)) ∘
      (fun u => if u.id = v.id then { u with hidden := false } else u) =
      fun u => decide (u.id = id) := by
    funext u
    simp only [Function.comp_apply]
    split_ifs <;> rfl
  simp only [World.reveal, World.mapWisp, World.record, World.bead, List.find?_map, hid]

theorem bead_reveal_eq {v u : Wisp} {id : ID} (h : (s.reveal v).bead id = some u) :
    ∃ y, s.bead id = some y ∧ u.iteration = y.iteration ∧ u.closed = y.closed := by
  rw [bead_reveal] at h
  obtain ⟨y, hy, rfl⟩ := Option.map_eq_some_iff.mp h
  refine ⟨y, hy, ?_⟩
  split_ifs <;> exact ⟨rfl, rfl⟩

theorem bead_reveal_of_bead {v y : Wisp} {id : ID} (h : s.bead id = some y) :
    ∃ u, (s.reveal v).bead id = some u ∧ u.iteration = y.iteration ∧ u.closed = y.closed := by
  rw [bead_reveal, h]
  refine ⟨_, rfl, ?_⟩
  dsimp only
  split_ifs <;> exact ⟨rfl, rfl⟩

theorem Behind.reveal (h : Behind w x n s) (v : Wisp) :
    Ripe w n (n + 1) (s.reveal v) ∧
      ∃ u, (s.reveal v).bead x = some u ∧ u.iteration = n + 1 ∧ u.closed = true := by
  refine ⟨{ h.ripe with wisp := ?_, last := fun id u hid hu => ?_ }, ?_⟩
  · obtain ⟨y, hy, hit, hc⟩ := h.ripe.wisp
    obtain ⟨u, hu, huit, huc⟩ := bead_reveal_of_bead hy
    exact ⟨u, hu, huit.trans hit, huc.trans hc⟩
  · obtain ⟨y, hy, hit, -⟩ := bead_reveal_eq hu
    rw [hit]
    exact h.ripe.last id y hid hy
  · obtain ⟨y, hy, hit, hc⟩ := h.next
    obtain ⟨u, hu, huit, huc⟩ := bead_reveal_of_bead hy
    exact ⟨u, hu, huit.trans hit, huc.trans hc⟩

theorem alone_adoptBehind : Alone (Behind w x n) (adopt w n x) fun _ => Ripe x (n + 1) (n + 1) := by
  refine alone_answer (a := true) (R := fun s => Ripe w n (n + 1) s ∧
    ∃ u, s.bead x = some u ∧ u.iteration = n + 1 ∧ u.closed = true) (fun s c hs hc => ?_) ?_
  · obtain ⟨v, hv, -⟩ := hs.next
    simp only [exec, World.activate, hv, hc, if_neg (show ¬ Answer.ok = .refused by simp)]
    exact ⟨_, by simp, hs.reveal v⟩
  refine alone_then (R := fun s => Ripe w n (n + 1) s ∧
    ∃ u, s.bead x = some u ∧ u.iteration = n + 1 ∧ u.closed = true) ?_ ?_
  · exact alone_emit fun s h => ⟨{ h.1 with }, h.2⟩
  refine alone_then (R := Ripe x (n + 1) (n + 1)) ?_
    (alone_then (alone_trySet fun s h => { h with }) alone_return)
  refine alone_then (alone_then (alone_set fun s hs => ?_)
    alone_return) (alone_then (R := fun s => Ripe x (n + 1) (n + 1) s ∧
    ∃ u, s.bead w = some u ∧ u.iteration = n) alone_return
    (alone_set fun s hs => ?_))
  · obtain ⟨h, hx⟩ := hs
    obtain ⟨u, hu, hit, -⟩ := h.wisp
    exact ⟨{ h with
      named := rfl
      wisp := hx
      last := fun id y hid hy => Nat.lt_succ_of_lt (h.last id y hid hy)
      positive := Nat.le_add_left _ _ }, u, hu, hit⟩
  · obtain ⟨h, u, hu, hit⟩ := hs
    refine { h with last := fun id y hid hy => ?_ }
    cases hid
    change s.bead w = some y at hy
    rw [hu] at hy
    cases hy
    omega

theorem alone_behind :
    Alone (Behind w x n) convergenceTick fun _ s => Ended s ∨ Ripe x (n + 1) (n + 1) s := by
  refine alone_tick (fun _ h => h.ripe) (alone_handleWispClosed (fun _ h => h.ripe)
    (fun _ k h => h.write (.inl trivial)) fun m v _ hmax => ?_)
  refine alone_of_fact (φ := needsManualWithoutGate m = none ∧ m.trigger = .none)
    (fun s hs => ⟨hs.2.2.1 ▸ hs.1.unguarded.1, hs.2.2.2 ▸ hs.1.unguarded.2⟩) fun hm => ?_
  refine alone_bind (alone_pre (alone_prepareBehind m hmax hm) fun _ h => h.1) fun r => ?_
  refine alone_of_fact (fun _ h => h.1) ?_
  rintro rfl
  refine alone_pre (alone_judge (fun _ h _ => h.record _)
    (fun _ h o => h.write (.inr (.inl ⟨o, rfl⟩))) (fun _ h o => h.write (.inr (.inr ⟨o, rfl⟩)))
    (fun o => ?_) fun _ _ h => .inl h) fun _ h => h.2
  by_cases hd : decision m n o = .continue
  · unfold settle
    rw [hd]
    rw [if_neg (by simp), if_neg (by rw [hm.2]; simp)]
    refine alone_then ?_ (alone_post alone_adoptBehind fun _ _ h => .inr h)
    refine alone_ite (fun _ => ?_) fun _ => alone_return
    exact alone_then (alone_set fun _ h => h.write (.inl trivial)) (alone_then
      (alone_set fun _ h => h.write (.inl trivial)) alone_return)
  · exact alone_post (alone_settle_of_not_continue hd) fun _ _ h => .inl h

end Tick

theorem alone_ended : Alone Ended convergenceTick fun _ => Ended := by
  refine alone_call (R := fun _ => Ended) (fun _ _ h _ => h) fun r => ?_
  refine alone_ite (fun _ => ?_) fun _ => alone_return
  refine alone_call (R := fun r s => Ended s ∧ r.1 = s.metadata) (fun s _ hs _ => ⟨hs, rfl⟩) ?_
  rintro ⟨m, v⟩
  refine alone_of_fact (φ := m.state = .waitingManual ∨ m.state = .terminated) (fun s hs => ?_) ?_
  · obtain ⟨hs, rfl⟩ := hs
    exact hs
  rintro (hst | hst) <;> dsimp only <;> rw [hst] <;> exact alone_pure fun _ h => h.1

theorem Idle.atLimit {κ : Prop} {s : World} (hs : Sound κ True s) (hidle : Idle s) {v : Wisp}
    (hv : v ∈ s.wisps) (hmax : v.iteration = s.metadata.maxIterations) (hc : v.closed = true)
    (hgate : s.metadata.gateMode = .condition → s.metadata.gateCondition ≠ "") :
    Ended s ∨ (∃ w n, Ripe w n n s) ∨ ∃ w x n, Behind w x n s := by
  have hpresent := hs.1.present ⟨v, hv, rfl, rfl⟩
  have hlaw := hs.2.2 trivial
  have hempty : s.wisps ≠ [] := List.ne_nil_of_mem hv
  cases hst : s.metadata.state with
  | waitingManual => exact .inl (.inl hst)
  | terminated => exact .inl (.inr hst)
  | missing => exact absurd hst hpresent
  | creating => exact absurd (hs.1.early (.inr hst)).1 hempty
  | waitingTrigger =>
    have := hidle.1.room hst v hv
    omega
  | active =>
    right
    rcases hidle.1.active hst with ⟨-, hnil⟩ | ⟨a, ha, hcur⟩
    · exact absurd hnil hempty
    · have htop := hcur.top v hv
      have hle := hlaw.within a ha
      have hac : a.closed = true := (hs.1.closed_iff ha).mpr
        (le_trans (by omega) ((hs.1.closed_iff hv).mp hc))
      have hroot : s.root = .opened := by
        cases hr : s.root with
        | opened => rfl
        | absent => exact absurd (hs.1.born hr) hpresent
        | closed =>
          have := hlaw.sealed hr
          rw [hst] at this
          cases this
      have hripe : Ripe a.id a.iteration s.metadata.maxIterations s := by
        refine ⟨hroot, hst, hcur.named, ⟨a, hs.1.bead_eq_some.mpr ⟨ha, rfl⟩, rfl, hac⟩,
          fun id u hid hu => ?_, hs.1.positive a ha, rfl, hgate⟩
        obtain ⟨hmem, rfl⟩ := hs.1.bead_eq_some.mp hu
        exact hcur.last u hmem hid
      rcases Nat.lt_or_eq_of_le hle with hlt | heq
      · right
        have hn : v.iteration = a.iteration + 1 := by omega
        refine ⟨a.id, v.id, a.iteration, by rw [← hn, hmax]; exact hripe,
          ⟨v, hs.1.keyed_eq_some.mpr ⟨hv, hn⟩, rfl⟩,
          ⟨v, hs.1.bead_eq_some.mpr ⟨hv, rfl⟩, hn, hc⟩, fun id u hu hit => ?_,
          hcur.successor v hv hn⟩
        rw [hs.1.eq_of_iteration (hs.1.bead_eq_some.mp hu).1 hv (hit.trans hn.symm)]
        exact hc
      · exact .inl ⟨a.id, a.iteration, by rw [← heq] at hripe; exact hripe⟩

end GasCity.Convergence
