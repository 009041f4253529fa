import GasCity.Process.Program
import GasCity.Runs.Basic

/-! # A process that serves one request at a time

Each request runs a program over a store.  The world may act between two calls, and the process may
stop before a call; after a stop only a recovery request can follow.  A discipline says what holds
always, between two requests and after a stop; programs that respect it keep it in every run.
-/

namespace GasCity

/-- What the world may do, what holds always, when the process is idle and when it is down, and the
answers and the stops that are considered. -/
structure Discipline (σ Op Choice : Type) where
  rely : σ → σ → Prop
  inv : σ → Prop
  idle : σ → Prop
  down : σ → Prop
  admits : σ → Op → Choice → Prop
  stops : σ → Op → Prop
  rely_refl : ∀ s, rely s s
  rely_trans : ∀ s t u, rely s t → rely t u → rely s u
  idle_rely : ∀ s t, rely s t → inv s → idle s → idle t
  down_rely : ∀ s t, rely s t → inv s → down s → down t
  down_of_idle : ∀ s, inv s → idle s → down s

section Guarded

variable {σ Op Choice ε α β : Type} {Ans : Op → Type}
  (exec : (o : Op) → Choice → σ → Ans o × σ) (D : Discipline σ Op Choice)

/-- The program keeps the invariant at every call, can be stopped where the discipline allows it,
and ends in a state of `Q` or, with an error, in an idle one. -/
def Guarded (Q : α → σ → Prop) : Program Op Ans ε α → σ → Prop
  | .done a, s => ∀ t, D.rely s t → D.inv t → Q a t
  | .fail _, s => ∀ t, D.rely s t → D.inv t → D.idle t
  | .call o next, s => ∀ t, D.rely s t → D.inv t →
      (D.stops t o → D.down t) ∧ ∀ c, D.admits t o c →
        D.inv (exec o c t).2 ∧ Guarded Q (next (exec o c t).1) (exec o c t).2

variable {exec D} {Q Q' : α → σ → Prop} {p : Program Op Ans ε α} {s t : σ}

theorem Guarded.rely (h : Guarded exec D Q p s) (hst : D.rely s t) : Guarded exec D Q p t := by
  cases p with
  | done a => exact fun u hu => h u (D.rely_trans _ _ _ hst hu)
  | fail e => exact fun u hu => h u (D.rely_trans _ _ _ hst hu)
  | call o next => exact fun u hu => h u (D.rely_trans _ _ _ hst hu)

theorem Guarded.mono (h : Guarded exec D Q p s) (hQ : ∀ a t, D.inv t → Q a t → Q' a t) :
    Guarded exec D Q' p s := by
  induction p generalizing s with
  | done a => exact fun t ht hi => hQ a t hi (h t ht hi)
  | fail e => exact h
  | call o next ih =>
    intro t ht hi
    obtain ⟨hstop, hcall⟩ := h t ht hi
    refine ⟨hstop, fun c hc => ?_⟩
    exact ⟨(hcall c hc).1, ih _ (hcall c hc).2⟩

theorem Guarded.bind {f : α → Program Op Ans ε β} {Q' : β → σ → Prop} (hs : D.inv s)
    (h : Guarded exec D Q p s) (hf : ∀ a t, D.inv t → Q a t → Guarded exec D Q' (f a) t) :
    Guarded exec D Q' (p >>= f) s := by
  induction p generalizing s with
  | done a => exact hf a s hs (h s (D.rely_refl s) hs)
  | fail e => exact h
  | call o next ih =>
    intro t ht hi
    obtain ⟨hstop, hcall⟩ := h t ht hi
    refine ⟨hstop, fun c hc => ?_⟩
    exact ⟨(hcall c hc).1, ih _ (hcall c hc).1 (hcall c hc).2⟩

variable (D) in
/-- A property that the world outside cannot break. -/
def Discipline.Stable (P : σ → Prop) : Prop :=
  ∀ s t, D.rely s t → P s → P t

variable (exec D) in
/-- From every state with `P`, the program respects the discipline and ends in a state of `Q`. -/
def Respects (P : σ → Prop) (p : Program Op Ans ε α) (Q : α → σ → Prop) : Prop :=
  ∀ s, D.inv s → P s → Guarded exec D Q p s

variable {P P' : σ → Prop} {o : Op} {f : Ans o → Program Op Ans ε α}

theorem Respects.done {a : α} (hQ : D.Stable (Q a)) (h : ∀ s, D.inv s → P s → Q a s) :
    Respects exec D P (.done a : Program Op Ans ε α) Q :=
  fun s hs hP t hst _ => hQ s t hst (h s hs hP)

theorem Respects.fail {e : ε} (h : ∀ s, D.inv s → P s → D.idle s) :
    Respects exec D P (.fail e : Program Op Ans ε α) Q :=
  fun s hs hP t hst _ => D.idle_rely s t hst hs (h s hs hP)

/-- One call and what follows it: `R r` is what holds after the answer `r`. -/
theorem Respects.call {R : Ans o → σ → Prop} (hP : D.Stable P)
    (hstop : ∀ s, D.inv s → P s → D.stops s o → D.down s)
    (hcall : ∀ s c, D.inv s → P s → D.admits s o c →
      D.inv (exec o c s).2 ∧ R (exec o c s).1 (exec o c s).2)
    (hnext : ∀ r, Respects exec D (R r) (f r) Q) :
    Respects exec D P (Program.op o >>= f) Q := by
  intro s hs hPs t hst ht
  have hPt : P t := hP s t hst hPs
  refine ⟨hstop t ht hPt, fun c hc => ?_⟩
  obtain ⟨hinv, hR⟩ := hcall t c ht hPt hc
  exact ⟨hinv, hnext _ _ hinv hR⟩

theorem Respects.bind {R : β → σ → Prop} {p : Program Op Ans ε β} {f : β → Program Op Ans ε α}
    (hp : Respects exec D P p R) (hf : ∀ b, Respects exec D (R b) (f b) Q) :
    Respects exec D P (p >>= f) Q :=
  fun s hs hP => (hp s hs hP).bind hs fun b t ht hR => hf b t ht hR

theorem Respects.conseq (h : Respects exec D P p Q) (hP : ∀ s, D.inv s → P' s → P s)
    (hQ : ∀ a s, D.inv s → Q a s → Q' a s) : Respects exec D P' p Q' :=
  fun s hs hP' => (h s hs (hP s hs hP')).mono hQ

theorem Respects.pre (h : Respects exec D P p Q) (hP : ∀ s, D.inv s → P' s → P s) :
    Respects exec D P' p Q :=
  h.conseq hP fun _ _ _ hQ => hQ

theorem Respects.post (h : Respects exec D P p Q) (hQ : ∀ a s, D.inv s → Q a s → Q' a s) :
    Respects exec D P p Q' :=
  h.conseq (fun _ _ hP => hP) hQ

theorem Respects.of_false (h : ∀ s, D.inv s → ¬ P s) : Respects exec D P p Q :=
  fun s hs hP => absurd hP (h s hs)

end Guarded

/-- Nothing happens outside and the process does not stop; an error must leave a state of `E`. -/
def Discipline.alone {σ Op Choice : Type} (ok : Choice → Prop) (E : σ → Prop) :
    Discipline σ Op Choice where
  rely := Eq
  inv _ := True
  idle := E
  down _ := True
  admits _ _ c := ok c
  stops _ _ := False
  rely_refl _ := rfl
  rely_trans _ _ _ := .trans
  idle_rely _ _ h _ hs := h ▸ hs
  down_rely _ _ _ _ _ := trivial
  down_of_idle _ _ _ := trivial

section Alone

variable {σ Op Choice ε α β : Type} {Ans : Op → Type} {exec : (o : Op) → Choice → σ → Ans o × σ}
  {ok : Choice → Prop} {E : σ → Prop} {P : σ → Prop} {Q : α → σ → Prop}

theorem Respects.alone_done {a : α} (h : ∀ s, P s → Q a s) :
    Respects exec (.alone ok E) P (.done a : Program Op Ans ε α) Q :=
  Respects.done (fun _ _ hst hs => hst ▸ hs) fun s _ hs => h s hs

/-- A call that is answered while nothing else happens. -/
theorem Respects.alone_call {o : Op} {f : Ans o → Program Op Ans ε α} {R : Ans o → σ → Prop}
    (hcall : ∀ s c, P s → ok c → R (exec o c s).1 (exec o c s).2)
    (hnext : ∀ r, Respects exec (.alone ok E) (R r) (f r) Q) :
    Respects exec (.alone ok E) P (Program.op o >>= f) Q :=
  Respects.call (fun _ _ hst hs => hst ▸ hs) (fun _ _ _ h => h.elim)
    (fun s c _ hs hc => ⟨trivial, hcall s c hs hc⟩) hnext

end Alone

/-- The requests that a process serves; `recovers` are those that may follow a stop. -/
structure Service (Req Op Choice Env ε σ : Type) (Ans : Op → Type) where
  exec : (o : Op) → Choice → σ → Ans o × σ
  body : Req → Program Op Ans ε Unit
  recovers : Req → Bool
  outside : Env → σ → σ

inductive Activity (Op ε : Type) (Ans : Op → Type) where
  | idle
  | down
  | running (p : Program Op Ans ε Unit)

/-- The store and what the process is doing. -/
structure Desk (Op ε σ : Type) (Ans : Op → Type) where
  store : σ
  activity : Activity Op ε Ans

inductive Occurrence (Req Choice Env : Type) where
  | launch (r : Req)
  | act (c : Choice)
  | finish
  | stop
  | outside (e : Env)

namespace Service

variable {Req Op Choice Env ε σ : Type} {Ans : Op → Type}

def step (S : Service Req Op Choice Env ε σ Ans) (p : Desk Op ε σ Ans) :
    Occurrence Req Choice Env → Option (Desk Op ε σ Ans)
  | .launch r =>
    match p.activity with
    | .idle => some { p with activity := .running (S.body r) }
    | .down => if S.recovers r then some { p with activity := .running (S.body r) } else none
    | .running _ => none
  | .act c =>
    match p.activity with
    | .running (.call o next) =>
      some { store := (S.exec o c p.store).2,
             activity := .running (next (S.exec o c p.store).1) }
    | _ => none
  | .finish =>
    match p.activity with
    | .running (.done _) | .running (.fail _) => some { p with activity := .idle }
    | _ => none
  | .stop => some { p with activity := .down }
  | .outside e => some { p with store := S.outside e p.store }

/-- The answers and the stops that the discipline considers, and what may happen outside. -/
def Allowed (D : Discipline σ Op Choice) (ok : σ → Env → Prop) (p : Desk Op ε σ Ans) :
    Occurrence Req Choice Env → Prop
  | .act c => ∀ o next, p.activity = .running (.call o next) → D.admits p.store o c
  | .stop => ∀ o next, p.activity = .running (.call o next) → D.stops p.store o
  | .outside e => ok p.store e
  | _ => True

/-- Every request respects the discipline from where it can be launched. -/
structure Disciplined (S : Service Req Op Choice Env ε σ Ans) (D : Discipline σ Op Choice)
    (ok : σ → Env → Prop) : Prop where
  body : ∀ r, Respects S.exec D (fun s => D.idle s ∨ S.recovers r = true ∧ D.down s) (S.body r)
    fun _ => D.idle
  outside : ∀ e s, D.inv s → ok s e → D.inv (S.outside e s) ∧ D.rely s (S.outside e s)

/-- The invariant holds, and what is left of the running program respects the discipline. -/
def Kept (S : Service Req Op Choice Env ε σ Ans) (D : Discipline σ Op Choice)
    (p : Desk Op ε σ Ans) : Prop :=
  D.inv p.store ∧
    match p.activity with
    | .idle => D.idle p.store
    | .down => D.down p.store
    | .running prog => Guarded S.exec D (fun _ => D.idle) prog p.store

variable {S : Service Req Op Choice Env ε σ Ans} {D : Discipline σ Op Choice}
  {ok : σ → Env → Prop} {p q : Desk Op ε σ Ans} {e : Occurrence Req Choice Env}

theorem Kept.launch (hS : Disciplined S D ok) (hp : Kept S D p) {r : Req}
    (hstep : S.step p (.launch r) = some q) : Kept S D q := by
  obtain ⟨s, activity⟩ := p
  cases activity with
  | idle =>
    obtain rfl : _ = q := by simpa [step] using hstep
    exact ⟨hp.1, hS.body r s hp.1 (.inl hp.2)⟩
  | down =>
    obtain ⟨hr, rfl⟩ : S.recovers r = true ∧ _ = q := by simpa [step] using hstep
    exact ⟨hp.1, hS.body r s hp.1 (.inr ⟨hr, hp.2⟩)⟩
  | running prog => simp [step] at hstep

theorem Kept.act (hp : Kept S D p) {c : Choice} (hstep : S.step p (.act c) = some q)
    (ha : Allowed D ok p (.act c : Occurrence Req Choice Env)) : Kept S D q := by
  obtain ⟨s, activity⟩ := p
  cases activity with
  | idle => simp [step] at hstep
  | down => simp [step] at hstep
  | running prog =>
    cases prog with
    | done a => simp [step] at hstep
    | fail a => simp [step] at hstep
    | call o next =>
      obtain rfl : _ = q := by simpa [step] using hstep
      exact (hp.2 s (D.rely_refl s) hp.1).2 c (ha o next rfl)

theorem Kept.finish (hp : Kept S D p) (hstep : S.step p .finish = some q) : Kept S D q := by
  obtain ⟨s, activity⟩ := p
  cases activity with
  | idle => simp [step] at hstep
  | down => simp [step] at hstep
  | running prog =>
    cases prog with
    | call o next => simp [step] at hstep
    | done a =>
      obtain rfl : _ = q := by simpa [step] using hstep
      exact ⟨hp.1, hp.2 s (D.rely_refl s) hp.1⟩
    | fail a =>
      obtain rfl : _ = q := by simpa [step] using hstep
      exact ⟨hp.1, hp.2 s (D.rely_refl s) hp.1⟩

theorem Kept.stop (hp : Kept S D p) (hstep : S.step p .stop = some q)
    (ha : Allowed D ok p (.stop : Occurrence Req Choice Env)) : Kept S D q := by
  obtain ⟨s, activity⟩ := p
  obtain rfl : _ = q := by simpa [step] using hstep
  refine ⟨hp.1, ?_⟩
  cases activity with
  | idle => exact D.down_of_idle s hp.1 hp.2
  | down => exact hp.2
  | running prog =>
    cases prog with
    | done a => exact D.down_of_idle s hp.1 (hp.2 s (D.rely_refl s) hp.1)
    | fail a => exact D.down_of_idle s hp.1 (hp.2 s (D.rely_refl s) hp.1)
    | call o next => exact (hp.2 s (D.rely_refl s) hp.1).1 (ha o next rfl)

theorem Kept.outside (hS : Disciplined S D ok) (hp : Kept S D p) {x : Env}
    (hstep : S.step p (.outside x) = some q)
    (ha : Allowed D ok p (.outside x : Occurrence Req Choice Env)) : Kept S D q := by
  obtain ⟨s, activity⟩ := p
  obtain rfl : _ = q := by simpa [step] using hstep
  obtain ⟨hinv, hrely⟩ := hS.outside x s hp.1 ha
  refine ⟨hinv, ?_⟩
  cases activity with
  | idle => exact D.idle_rely _ _ hrely hp.1 hp.2
  | down => exact D.down_rely _ _ hrely hp.1 hp.2
  | running prog => exact hp.2.rely hrely

theorem Kept.step (hS : Disciplined S D ok) (hp : Kept S D p) (hstep : S.step p e = some q)
    (ha : Allowed D ok p e) : Kept S D q := by
  cases e with
  | launch r => exact hp.launch hS hstep
  | act c => exact hp.act hstep ha
  | finish => exact hp.finish hstep
  | stop => exact hp.stop hstep ha
  | outside x => exact hp.outside hS hstep ha

theorem Disciplined.run (hS : Disciplined S D ok) {es : List (Occurrence Req Choice Env)}
    (h : Run (fun p e q => StepOf S.step p e q ∧ Allowed D ok p e) p es q)
    (hp : Kept S D p) : Kept S D q :=
  h.invariant (Kept S D) (fun _ _ _ hs ha => hs.step hS ha.1 ha.2) hp

/-- The request is served: its calls are answered with admitted choices and it returns. -/
def Served (S : Service Req Op Choice Env ε σ Ans) (ok : Choice → Prop) (r : Req)
    (p q : Desk Op ε σ Ans) : Prop :=
  ∃ cs : List Choice, (∀ c ∈ cs, ok c) ∧
    Run (StepOf S.step) p (.launch r :: (cs.map .act ++ [.finish])) q

variable {E : σ → Prop} {ok : Choice → Prop}

theorem guarded_run {cs : List Choice} {prog : Program Op Ans ε Unit} {s : σ} (hcs : ∀ c ∈ cs, ok c)
    (h : Guarded S.exec (.alone ok E) (fun _ => E) prog s)
    (hrun : Run (StepOf S.step) ⟨s, .running prog⟩ (cs.map .act ++ [.finish]) q) :
    q.activity = .idle ∧ E q.store := by
  induction cs generalizing prog s with
  | nil =>
    cases hrun with
    | cons hstep hnil =>
      cases hnil
      cases prog with
      | call o next => simp [StepOf, step] at hstep
      | done a =>
        obtain rfl : _ = q := by simpa [StepOf, step] using hstep
        exact ⟨rfl, h s rfl trivial⟩
      | fail e =>
        obtain rfl : _ = q := by simpa [StepOf, step] using hstep
        exact ⟨rfl, h s rfl trivial⟩
  | cons c cs ih =>
    rw [List.forall_mem_cons] at hcs
    cases hrun with
    | @cons _ x _ _ _ hstep hrest =>
      cases prog with
      | done a => simp [StepOf, step] at hstep
      | fail e => simp [StepOf, step] at hstep
      | call o next =>
        obtain rfl : _ = x := by simpa [StepOf, step] using hstep
        exact ih hcs.2 ((h s rfl trivial).2 c hcs.1).2 hrest

/-- A request that is served while nothing else happens ends where its program does. -/
theorem Served.guarded {r : Req} (h : Served S ok r p q)
    (hp : Guarded S.exec (.alone ok E) (fun _ => E) (S.body r) p.store) :
    q.activity = .idle ∧ E q.store := by
  obtain ⟨cs, hcs, hrun⟩ := h
  obtain ⟨s, activity⟩ := p
  cases hrun with
  | @cons _ x _ _ _ hstep hrest =>
    have hx : x = ⟨s, .running (S.body r)⟩ := by
      cases activity with
      | idle => simpa [StepOf, step, eq_comm] using hstep
      | running prog => simp [StepOf, step] at hstep
      | down =>
        obtain ⟨-, rfl⟩ : S.recovers r = true ∧ _ = x := by simpa [StepOf, step] using hstep
        rfl
    subst hx
    exact guarded_run hcs hp hrest

theorem exists_run_program (c : Choice) (prog : Program Op Ans ε Unit) (s : σ) :
    ∃ cs : List Choice, (∀ x ∈ cs, x = c) ∧ ∃ t,
      Run (StepOf S.step) ⟨s, .running prog⟩ (cs.map .act ++ [.finish]) ⟨t, .idle⟩ := by
  induction prog generalizing s with
  | done a => exact ⟨[], by simp, s, .cons rfl (.nil _)⟩
  | fail e => exact ⟨[], by simp, s, .cons rfl (.nil _)⟩
  | call o next ih =>
    obtain ⟨cs, hcs, t, hrun⟩ := ih (S.exec o c s).1 (S.exec o c s).2
    exact ⟨c :: cs, by simpa using hcs, t, .cons rfl hrun⟩

theorem exists_served {c : Choice} (hc : ok c) (r : Req)
    (hp : p.activity = .idle) : ∃ q, q.activity = .idle ∧ Served S ok r p q := by
  obtain ⟨s, activity⟩ := p
  obtain rfl : activity = .idle := hp
  obtain ⟨cs, hcs, t, hrun⟩ := exists_run_program c (S.body r) s
  exact ⟨⟨t, .idle⟩, rfl, cs, fun x hx => hcs x hx ▸ hc, .cons rfl hrun⟩

end Service

end GasCity
