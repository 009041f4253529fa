import GasCity.Beads.Ready
import GasCity.Digraph.Greedy
import GasCity.Text.Trim

/-! # Order of drain members

A drain works the members of a convoy so that a blocker comes before the members that it blocks.
Members are emitted in sweeps over the convoy until all are out; a sweep that emits nothing means
that the rest blocks itself.
-/

namespace GasCity.Drain

open GasCity.Digraph List

/-- The beads that hold a member back, by its dependencies; a member does not hold itself back. -/
def blockerIDs (memberID : String) (deps : List Dep) : List String :=
  ((deps.filter fun d => isReadyBlockingDependencyType d.type).map
    fun d => trimSpace d.dependsOnID).filter fun id => id ≠ "" ∧ id ≠ memberID

def blockersByMember (source : String → List Dep) (members : List String) (memberID : String) :
    List String :=
  (blockerIDs memberID (source memberID)).filter (· ∈ members)

/-- One sweep over the members: emit those whose blockers are out. -/
def emitUnblocked (blockers : String → List String) (members ordered : List String) :
    List String :=
  members.foldl (fun ordered m =>
    if m ∈ ordered then ordered
    else if (blockers m).all (· ∈ ordered) then ordered ++ [m]
    else ordered) ordered

def emitSweeps (blockers : String → List String) (members : List String) :
    ℕ → List String → Option (List String)
  | n, ordered =>
    if members.length ≤ ordered.length then some ordered
    else
      match n with
      | 0 => none
      | n + 1 =>
        let next := emitUnblocked blockers members ordered
        if next.length = ordered.length then none else emitSweeps blockers members n next

/-- The members with blockers first; `none` when they block each other in a cycle. -/
def orderDrainMembersByDependencies (source : String → List Dep) (members : List String) :
    Option (List String) :=
  if members.length < 2 then some members
  else emitSweeps (blockersByMember source members) members members.length []

variable {blockers : String → List String} {members ordered : List String}

theorem emitUnblocked_spec (l : List String) (h : Topological blockers ordered) :
    ∃ new, emitUnblocked blockers l ordered = ordered ++ new ∧
      Topological blockers (ordered ++ new) ∧ (∀ m ∈ new, m ∈ l) ∧
      (new = [] → ∀ m ∈ l, ¬ Ready blockers ordered m) := by
  induction l generalizing ordered with
  | nil => exact ⟨[], by simp [emitUnblocked], by simpa, by simp, by simp⟩
  | cons m l ih =>
    have hskip : ¬ Ready blockers ordered m → emitUnblocked blockers (m :: l) ordered =
        emitUnblocked blockers l ordered := by
      intro hready
      rw [emitUnblocked, foldl_cons]
      split_ifs with hm hall
      · rfl
      · exact absurd ⟨hm, by simpa using hall⟩ hready
      · rfl
    by_cases hready : Ready blockers ordered m
    · have hpick : emitUnblocked blockers (m :: l) ordered =
          emitUnblocked blockers l (ordered ++ [m]) := by
        rw [emitUnblocked, foldl_cons, if_neg hready.1, if_pos (by simpa using hready.2)]
        rfl
      obtain ⟨new, hnew, htop, hsub, -⟩ := ih (h.snoc hready)
      rw [append_assoc, singleton_append] at hnew htop
      refine ⟨m :: new, hpick.trans hnew, htop, ?_, nofun⟩
      intro x hx
      exact mem_cons.mpr ((mem_cons.mp hx).imp_right (hsub x))
    · obtain ⟨new, hnew, htop, hsub, hnone⟩ := ih h
      refine ⟨new, (hskip hready).trans hnew, htop, fun x hx => mem_cons_of_mem _ (hsub x hx),
        fun hnil x hx => ?_⟩
      rcases mem_cons.mp hx with rfl | hx
      · exact hready
      · exact hnone hnil x hx

/-- The sweeps emit all members, or end where each of those left waits for another of them. -/
theorem emitSweeps_spec (hids : members.Nodup) (hblockers : ∀ m ∈ members, ∀ b ∈ blockers m,
      b ∈ members) {n : ℕ} (h : Topological blockers ordered) (hsub : ∀ m ∈ ordered, m ∈ members)
    (hn : members.length ≤ n + ordered.length) :
    (∃ out, emitSweeps blockers members n ordered = some out ∧ out.Perm members ∧
        Topological blockers out) ∨
      emitSweeps blockers members n ordered = none ∧ ∃ m ∈ members, Stuck blockers m := by
  induction n generalizing ordered with
  | zero =>
    rw [emitSweeps, if_pos (by omega)]
    refine .inl ⟨ordered, rfl, ?_, h⟩
    exact (h.nodup.subperm hsub).perm_of_length_le (by omega)
  | succ n ih =>
    rw [emitSweeps]
    split_ifs with hlen
    · exact .inl ⟨ordered, rfl, (h.nodup.subperm hsub).perm_of_length_le hlen, h⟩
    · obtain ⟨new, hnew, htop, hmem, hnone⟩ := emitUnblocked_spec members h
      dsimp only
      rw [hnew]
      split_ifs with hstop
      · right
        refine ⟨rfl, ?_⟩
        obtain ⟨m, hm, hout⟩ : ∃ m ∈ members, m ∉ ordered := by
          by_contra! hall
          exact hlen (hids.subperm hall).length_le
        refine ⟨m, hm, stuck_of_forall_exists (s := {m | m ∈ members ∧ m ∉ ordered})
          (members.finite_toSet.subset fun _ hx => hx.1) ?_ ⟨hm, hout⟩⟩
        rintro x ⟨hx, hxout⟩
        have hnil : new = [] := by simpa using hstop
        obtain ⟨b, hb, hbout⟩ : ∃ b ∈ blockers x, b ∉ ordered := by
          by_contra! hall
          exact hnone hnil x hx ⟨hxout, hall⟩
        exact ⟨b, hb, hblockers x hx b hb, hbout⟩
      · apply ih htop
        · intro x hx
          exact (mem_append.mp hx).elim (hsub x) (hmem x)
        · rw [length_append] at hstop ⊢
          omega

theorem orderDrainMembersByDependencies_eq (source : String → List Dep) (members : List String) :
    orderDrainMembersByDependencies source members =
      emitSweeps (blockersByMember source members) members members.length [] := by
  unfold orderDrainMembersByDependencies
  split_ifs with hlen
  · match members with
    | [] => rfl
    | [m] =>
      have hnone : blockersByMember source [m] m = [] := by
        simp only [blockersByMember, blockerIDs, filter_eq_nil_iff, mem_filter]
        rintro b ⟨-, hb⟩
        simpa using (of_decide_eq_true hb).2
      simp [emitSweeps, emitUnblocked, hnone]
    | _ :: _ :: _ =>
      simp only [length_cons] at hlen
      omega
  · rfl

/-- The members can be ordered exactly when no member waits for itself through others, and then
they come out with blockers first. -/
theorem orderDrainMembersByDependencies_spec (source : String → List Dep) (hids : members.Nodup) :
    ((orderDrainMembersByDependencies source members).isSome ↔
      ∀ m ∈ members, ¬ Relation.TransGen (fun a b => b ∈ blockersByMember source members a) m m) ∧
    ∀ out, orderDrainMembersByDependencies source members = some out →
      out.Perm members ∧ Topological (blockersByMember source members) out := by
  have hblockers : ∀ m ∈ members, ∀ b ∈ blockersByMember source members m, b ∈ members := by
    intro m _ b hb
    simpa using of_mem_filter hb
  have hcycle : ∀ m, Relation.TransGen (fun a b => b ∈ blockersByMember source members a) m m →
      Stuck (blockersByMember source members) m := fun m hm => ⟨m, .refl, hm⟩
  have hstart : Topological (blockersByMember source members) [] := by
    rintro before a after hnil
    simp at hnil
  rw [orderDrainMembersByDependencies_eq]
  rcases emitSweeps_spec hids hblockers (n := members.length) hstart nofun (by simp)
    with ⟨out, hout, hperm, htop⟩ | ⟨hnone, m, hm, c, hreach, hc⟩
  · rw [hout]
    refine ⟨⟨fun _ m hm hpath => ?_, fun _ => rfl⟩, ?_⟩
    · exact htop.not_stuck (hperm.mem_iff.mpr hm) (hcycle m hpath)
    · rintro out' heq
      cases heq
      exact ⟨hperm, htop⟩
  · rw [hnone]
    refine ⟨⟨nofun, fun hac => ?_⟩, nofun⟩
    have hmem : c ∈ members := by
      obtain ⟨b, -, hb⟩ := Relation.TransGen.tail'_iff.mp hc
      simpa using of_mem_filter hb
    exact absurd hc (hac c hmem)

end GasCity.Drain
