import GasCity.Caching.Reads

/-! # Sorting ready results under a context

The cancellable sort of ready results merges runs through a scratch buffer, and asks the context
before it takes or copies an item.
-/

namespace GasCity.ReadyOrder

open List Function

def beadReadyLess (a b : Bead) : Bool :=
  if readySortPriority a ≠ readySortPriority b then readySortPriority a < readySortPriority b
  else if a.createdAt ≠ b.createdAt then a.createdAt < b.createdAt
  else a.id < b.id

inductive ContextErr
  | canceled
  | deadlineExceeded

/-- Whether a context can be cancelled, and what the successive calls of its `Err` return. -/
structure Context where
  done : Bool
  err : ℕ → Option ContextErr

/-- The two slices by index, and how often the context was asked. -/
structure Buffers where
  items : ℕ → Bead
  scratch : ℕ → Bead
  checks : ℕ

abbrev Sorting := ExceptT ContextErr (StateM Buffers)

section Loops

variable (ctx : Context)

def check : Sorting Unit := fun b =>
  ((ctx.err b.checks).elim (.ok ()) .error, { b with checks := b.checks + 1 })

/-- The last `n` steps of the loop that merges the runs before `mid` and before `hi`. -/
def mergeRuns (mid hi : ℕ) : (n k i j : ℕ) → Sorting Unit
  | 0, _, _, _ => pure ()
  | n + 1, k, i, j => do
    check ctx
    let b ← get
    if i = mid ∨ j ≠ hi ∧ beadReadyLess (b.items j) (b.items i) then
      set { b with scratch := update b.scratch k (b.items j) }
      mergeRuns mid hi n (k + 1) i (j + 1)
    else
      set { b with scratch := update b.scratch k (b.items i) }
      mergeRuns mid hi n (k + 1) (i + 1) j

def copyBack : (n k : ℕ) → Sorting Unit
  | 0, _ => pure ()
  | n + 1, k => do
    check ctx
    modify fun b => { b with items := update b.items k (b.scratch k) }
    copyBack n (k + 1)

def mergeSort (lo hi : ℕ) : Sorting Unit := do
  check ctx
  if _h : hi - lo < 2 then pure ()
  else
    let mid := lo + (hi - lo) / 2
    mergeSort lo mid
    mergeSort mid hi
    mergeRuns ctx mid hi (hi - lo) lo lo mid
    copyBack ctx (hi - lo) lo
termination_by hi - lo

end Loops

/-- The items afterwards, and the error.  A nil context is `none`. -/
def sortBeadsReadyOrderContext (ctx : Option Context) (items : List Bead) :
    List Bead × Option ContextErr :=
  match ctx.filter Context.done with
  | none => (sortBeadsReadyOrder items, none)
  | some ctx =>
    match ctx.err 0 with
    | some e => (items, some e)
    | none =>
      if items.length < 2 then (items, none)
      else
        let (result, b) := (mergeSort ctx 0 items.length).run.run
          { items := fun i => items.getD i {}, scratch := fun _ => {}, checks := 1 }
        let sorted := (range items.length).map b.items
        match result with
        | .ok _ => (sorted, none)
        | .error e => (sorted, some e)

theorem not_beadReadyLess {a b : Bead} : beadReadyLess b a = false ↔ ReadyLE a b := by
  simp only [beadReadyLess, ReadyLE, CreatedLE, Time.lt_def, ne_eq, ite_not, Time.ext_iff']
  split_ifs with hp ht
  · simp only [decide_eq_false_iff_not, not_lt, hp, ht, lt_irrefl, true_and, false_or]
  · simp [hp]
    omega
  · simp
    omega

instance : Std.Total ReadyLE := ⟨fun a b => by
  rcases lt_trichotomy (readySortPriority a) (readySortPriority b) with h | h | h
  · exact .inl (.inl h)
  · exact (Std.Total.total a b).imp (.inr ⟨h, ·⟩) (.inr ⟨h.symm, ·⟩)
  · exact .inr (.inl h)⟩

instance : IsTrans Bead ReadyLE := ⟨fun a b c => by
  rintro (h | ⟨h, hle⟩) (h' | ⟨h', hle'⟩)
  · exact .inl (h.trans h')
  · exact .inl (h' ▸ h)
  · exact .inl (h ▸ h')
  · exact .inr ⟨h.trans h', IsTrans.trans _ _ _ hle hle'⟩⟩

/-- The program ends in a state with the property, or with an error of the context. -/
def Ends (ctx : Context) (p : Sorting Unit) (b : Buffers) (Q : Buffers → Prop) : Prop :=
  match p.run.run b with
  | (.ok _, b') => Q b'
  | (.error e, _) => ∃ n, ctx.err n = some e

def segment (f : ℕ → Bead) (lo hi : ℕ) : List Bead := (range' lo (hi - lo)).map f

variable {p q : Sorting Unit} {b b' : Buffers} {P Q : Buffers → Prop} {ctx : Context}
  {lo mid hi : ℕ} {f g : ℕ → Bead}

theorem Ends.bind (hp : Ends ctx p b P) (hq : ∀ b', P b' → Ends ctx q b' Q) :
    Ends ctx (p >>= fun _ => q) b Q := by
  unfold Ends at hp ⊢
  simp only [ExceptT.run_bind, StateT.run_bind]
  rcases h : p.run.run b with ⟨_ | _, b'⟩
  · rwa [h] at hp
  · rw [h] at hp
    exact hq b' hp

theorem Ends.mono (h : Ends ctx p b P) (hPQ : ∀ b', P b' → Q b') : Ends ctx p b Q := by
  unfold Ends at h ⊢
  split at h
  · exact hPQ _ h
  · exact h

theorem Ends.check (h : Ends ctx q { b with checks := b.checks + 1 } Q) :
    Ends ctx (check ctx >>= fun _ => q) b Q := by
  refine Ends.bind (P := (· = { b with checks := b.checks + 1 })) ?_ fun b' hb => hb ▸ h
  have hrun : (ReadyOrder.check ctx).run.run b =
    ((ctx.err b.checks).elim (.ok ()) .error, { b with checks := b.checks + 1 }) := rfl
  rw [Ends, hrun]
  cases hctx : ctx.err b.checks with
  | none => rfl
  | some e => exact ⟨_, hctx⟩

theorem segment_succ (f : ℕ → Bead) (h : lo < hi) :
    segment f lo hi = f lo :: segment f (lo + 1) hi := by
  rw [segment, show hi - lo = hi - (lo + 1) + 1 by omega, range'_succ]
  rfl

theorem segment_congr (h : ∀ x, lo ≤ x → x < hi → f x = g x) :
    segment f lo hi = segment g lo hi := by
  apply map_congr_left
  intro x hx
  rw [mem_range'_1] at hx
  exact h x hx.1 (by omega)

theorem segment_append (f : ℕ → Bead) (h : lo ≤ mid) (h' : mid ≤ hi) :
    segment f lo mid ++ segment f mid hi = segment f lo hi := by
  rw [segment, segment, segment, ← map_append, show hi - lo = mid - lo + (hi - mid) by omega]
  simp [← range'_append, h]

/-- The scratch buffer holds the two lists merged in ready order from `k` on. -/
def Merged (b : Buffers) (n k : ℕ) (left right : List Bead) (b' : Buffers) : Prop :=
  b'.items = b.items ∧ (∀ x < k, b'.scratch x = b.scratch x) ∧
    (range' k n).map b'.scratch = merge left right fun a b => ReadyLE a b

theorem Merged.take {n k : ℕ} {a : Bead} {l l' r r' : List Bead}
    (h : Merged { b with scratch := update b.scratch k a } n (k + 1) l' r' b')
    (hfirst : merge l r (fun a b => ReadyLE a b) = a :: merge l' r' fun a b => ReadyLE a b) :
    Merged b (n + 1) k l r b' := by
  obtain ⟨hitems, hscratch, hrest⟩ := h
  refine ⟨hitems, fun x hx => ?_, ?_⟩
  · rw [hscratch x (by omega)]
    exact update_of_ne (by omega) ..
  · rw [range'_succ, map_cons, hrest, hfirst, hscratch k (by omega)]
    exact congrArg (· :: _) (update_self ..)

theorem mergeRuns_ends (n k i j : ℕ) (b : Buffers) (hi' : i ≤ mid) (hj : j ≤ hi)
    (hn : n = mid - i + (hi - j)) : Ends ctx (mergeRuns ctx mid hi n k i j) b
      (Merged b n k (segment b.items i mid) (segment b.items j hi)) := by
  induction n generalizing k i j b with
  | zero =>
    refine ⟨rfl, fun _ _ => rfl, ?_⟩
    simp [segment, show mid - i = 0 by omega, show hi - j = 0 by omega]
  | succ n ih =>
    apply Ends.check
    change Ends ctx (ite _ _ _) _ _
    split_ifs with htake
    · have hlt : j < hi := by omega
      refine (ih (k + 1) i (j + 1) ⟨b.items, update b.scratch k (b.items j), b.checks + 1⟩
        hi' hlt (by omega)).mono fun _ hmerged => hmerged.take ?_
      rw [segment_succ _ hlt]
      rcases hi'.eq_or_lt with rfl | hlt'
      · simp [segment]
      · have hless : ¬ ReadyLE (b.items i) (b.items j) := by
          simpa [← not_beadReadyLess, hlt.ne, hlt'.ne] using htake
        simp [segment_succ _ hlt', hless]
    · have hlt : i < mid := by omega
      refine (ih (k + 1) (i + 1) j ⟨b.items, update b.scratch k (b.items i), b.checks + 1⟩
        hlt hj (by omega)).mono fun _ hmerged => hmerged.take ?_
      rw [segment_succ _ hlt]
      rcases hj.eq_or_lt with rfl | hlt'
      · simp [segment]
      · have hle : ReadyLE (b.items i) (b.items j) := by
          simpa [← not_beadReadyLess, hlt.ne, hlt'.ne] using htake
        simp [segment_succ _ hlt', hle]

theorem copyBack_ends (n k : ℕ) (b : Buffers) : Ends ctx (copyBack ctx n k) b fun b' =>
    b'.scratch = b.scratch ∧
      ∀ x, b'.items x = if k ≤ x ∧ x < k + n then b.scratch x else b.items x := by
  induction n generalizing k b with
  | zero => exact ⟨rfl, fun x => (if_neg (by omega)).symm⟩
  | succ n ih =>
    apply Ends.check
    refine (ih (k + 1) ⟨update b.items k (b.scratch k), b.scratch, b.checks + 1⟩).mono ?_
    rintro b' ⟨hscratch, hitems⟩
    refine ⟨hscratch, fun x => ?_⟩
    simp only [hitems, update_apply]
    grind

/-- The sort of a range puts its items in ready order and leaves the other items alone. -/
theorem mergeSort_ends (lo hi : ℕ) (b : Buffers) :
    Ends ctx (mergeSort ctx lo hi) b fun b' => (∀ x, x < lo ∨ hi ≤ x → b'.items x = b.items x) ∧
      segment b'.items lo hi = insertionSort ReadyLE (segment b.items lo hi) := by
  induction hd : hi - lo using Nat.strong_induction_on generalizing lo hi b with
  | _ d ih =>
    subst hd
    rw [mergeSort]
    apply Ends.check
    split_ifs with hlen
    · refine ⟨fun _ _ => rfl, ?_⟩
      have hone : hi - lo = 0 ∨ hi - lo = 1 := by omega
      rcases hone with h | h <;> simp [segment, h]
    · have hmid : lo < lo + (hi - lo) / 2 ∧ lo + (hi - lo) / 2 < hi := by omega
      generalize lo + (hi - lo) / 2 = mid at hmid
      apply (ih _ (by omega) lo mid _ rfl).bind
      rintro b₁ ⟨hout₁, hsort₁⟩
      apply (ih _ (by omega) mid hi b₁ rfl).bind
      rintro b₂ ⟨hout₂, hsort₂⟩
      apply (mergeRuns_ends (hi - lo) lo lo mid b₂ hmid.1.le hmid.2.le (by omega)).bind
      rintro b₃ ⟨hitems, -, hmerge⟩
      refine (copyBack_ends (hi - lo) lo b₃).mono ?_
      rintro b₄ ⟨-, hcopy⟩
      refine ⟨fun x hx => ?_, ?_⟩
      · rw [hcopy, if_neg (by omega), hitems, hout₂ x (by omega), hout₁ x (by omega)]
      · have hcopied : segment b₄.items lo hi = segment b₃.scratch lo hi :=
          segment_congr fun x _ _ => by rw [hcopy, if_pos (by omega)]
        have hleft : segment b₂.items lo mid = segment b₁.items lo mid :=
          segment_congr fun x _ hx => hout₂ x (.inl hx)
        have hright : segment b₁.items mid hi = segment b.items mid hi :=
          segment_congr fun x hx _ => hout₁ x (.inr hx)
        rw [hsort₂, hright, hleft, hsort₁, Sorted.merge_insertionSort,
          segment_append _ hmid.1.le hmid.2.le] at hmerge
        exact hcopied.trans hmerge

theorem sorts_or_fails (hdone : ctx.done = true) (items : List Bead) :
    sortBeadsReadyOrderContext (some ctx) items = (items.insertionSort ReadyLE, none) ∨
      ∃ n e, ctx.err n = some e ∧ (sortBeadsReadyOrderContext (some ctx) items).2 = some e := by
  simp only [sortBeadsReadyOrderContext, Option.filter_some, hdone, if_true]
  cases herr : ctx.err 0 with
  | some e => exact .inr ⟨0, e, herr, rfl⟩
  | none =>
    split_ifs with hlen
    · left
      rcases items with _ | ⟨a, _ | ⟨a', l⟩⟩
      · rfl
      · rfl
      · simp only [length_cons] at hlen
        omega
    · have hends : Ends ctx _ _ _ := mergeSort_ends 0 items.length
        { items := fun i => items.getD i {}, scratch := fun _ => {}, checks := 1 }
      have hread : (range items.length).map (fun i => items.getD i {}) = items := by
        apply ext_getElem
        · simp
        · intro i _ hi
          simp [hi]
      simp only [Ends, segment, Nat.sub_zero, ← range_eq_range', hread] at hends
      split at hends
      · next hrun =>
        simp only [hrun, hends.2]
        exact .inl trivial
      · next hrun =>
        obtain ⟨n, hn⟩ := hends
        exact .inr ⟨n, _, hn, by simp only [hrun]⟩

/-- Under a context that is never cancelled, the sort ends without an error in the stable sort of
the items by `beadReadyLess`: a permutation in ready order, in which ties keep their order. -/
theorem sortBeadsReadyOrderContext_sorts (hdone : ctx.done = true)
    (hctx : ∀ n, ctx.err n = none) (items : List Bead) :
    ∃ sorted, sortBeadsReadyOrderContext (some ctx) items = (sorted, none) ∧
      sorted ~ items ∧ sorted.Pairwise ReadyLE ∧
      sorted = items.insertionSort (fun a b => beadReadyLess b a = false) ∧
      ∀ a, sorted.filter (fun b => !beadReadyLess a b && !beadReadyLess b a) =
        items.filter fun b => !beadReadyLess a b && !beadReadyLess b a := by
  have hsorts := (sorts_or_fails hdone items).resolve_right fun ⟨n, e, he, _⟩ => by
    rw [hctx] at he
    cases he
  refine ⟨_, hsorts, perm_insertionSort _ _, pairwise_insertionSort _ _, ?_, fun a => ?_⟩
  · simp only [not_beadReadyLess]
  · rw [← Sorted.insertionSort_filter]
    apply Pairwise.insertionSort_eq
    apply pairwise_of_forall_mem_list
    intro x hx y hy
    simp only [mem_filter, Bool.and_eq_true, Bool.not_eq_true', not_beadReadyLess] at hx hy
    exact IsTrans.trans _ _ _ hx.2.1 hy.2.2

theorem sorts_three_beads :
    sortBeadsReadyOrderContext (some ⟨true, fun _ => none⟩)
        [{ id := "a" }, { id := "b", priority := some 0 }, { id := "c", priority := some 1 }] =
      ([{ id := "b", priority := some 0 }, { id := "c", priority := some 1 }, { id := "a" }],
        none) := by
  obtain ⟨sorted, hrun, -, -, rfl, -⟩ :=
    @sortBeadsReadyOrderContext_sorts ⟨true, fun _ => none⟩ rfl (fun _ => rfl)
      [{ id := "a" }, { id := "b", priority := some 0 }, { id := "c", priority := some 1 }]
  exact hrun

/-- Whatever the context does, the sort ends in ready order, or with an error of the context. -/
theorem sortBeadsReadyOrderContext_ends (ctx : Option Context) (items : List Bead) :
    (∃ sorted, sortBeadsReadyOrderContext ctx items = (sorted, none) ∧ sorted ~ items ∧
      sorted.Pairwise ReadyLE) ∨
      ∃ c n e, ctx = some c ∧ c.err n = some e ∧
        (sortBeadsReadyOrderContext ctx items).2 = some e := by
  cases ctx with
  | none => exact .inl ⟨_, rfl, perm_insertionSort _ _, pairwise_insertionSort _ _⟩
  | some c =>
    cases hdone : c.done with
    | false =>
      refine .inl ⟨_, ?_, perm_insertionSort ReadyLE _, pairwise_insertionSort ReadyLE _⟩
      simp only [sortBeadsReadyOrderContext, Option.filter_some, hdone]
      rfl
    | true =>
      rcases sorts_or_fails hdone items with h | ⟨n, e, he, hresult⟩
      · exact .inl ⟨_, h, perm_insertionSort _ _, pairwise_insertionSort _ _⟩
      · exact .inr ⟨c, n, e, rfl, he, hresult⟩

end GasCity.ReadyOrder
