import GasCity.Pool.Caps

/-! # Urgency under caps

Ready work is handed out by ascending priority, where an unset one counts as 2.  Under a cap the
requests of work are accepted by descending priority, where an unset one counts as 0.
-/

namespace GasCity.Pool

open List

def readySortPriority (wb : WorkBead) : ℤ :=
  wb.priority.getD 2

section Owned

variable (cfg : City) (ids : Identities) (infos : List SessionInfo) (t : String)

def ownerOf (wb : WorkBead) : String :=
  (assigneeToSessionBeadID ids infos).getD (trimSpace wb.assignee) ""

def templateOf (wb : WorkBead) : String :=
  trimSpace ((sessionBeadTemplate ids infos).getD (ownerOf ids infos wb) "")

/-- Work of a template that a live session owns. -/
structure Owned (wb : WorkBead) : Prop where
  active : wb.status = "in_progress" ∨ wb.status = "open"
  assigned : trimSpace wb.assignee ≠ ""
  live : ownerOf ids infos wb ≠ ""
  route : routeOf cfg ids infos (ownerOf ids infos wb) wb = t
  fits : templateOf ids infos wb = "" ∨ t = "" ∨ ids.equivalent t (templateOf ids infos wb) = true
  pooled : isNamedSessionBead infos (ownerOf ids infos wb) = false

/-- The resume request that a work bead drives. -/
def resumeOf (wb : WorkBead) : SessionRequest :=
  requestFor t .resume (ownerOf ids infos wb) wb

/-- No work is turned away while less urgent work is accepted. -/
def KeepsUrgent (work : List WorkBead) (reqs : List SessionRequest) : Prop :=
  ∀ a ∈ work, ∀ b ∈ work, resumeOf ids infos t b ∈ reqs → resumeOf ids infos t a ∉ reqs →
    ¬ readySortPriority a < readySortPriority b

def serves (agent : Agent) : Bool :=
  agent.qualifiedName == t && !(agent.suspended || !agent.supportsGenericEphemeralSessions)

end Owned

section Requests

variable {cfg : City} {ids : Identities} {infos : List SessionInfo} {t t' : String}
  {work : List WorkBead}

theorem Owned.workRequest_eq {wb : WorkBead} (h : Owned cfg ids infos t wb) (woken : List String) :
    workRequest cfg ids infos t' woken wb =
      if t = t' then some (resumeOf ids infos t wb) else none := by
  obtain ⟨hactive, hassigned, hlive, hroute, hfits, hpooled⟩ := h
  unfold resumeOf
  unfold templateOf ownerOf at *
  unfold workRequest
  dsimp only
  rw [if_neg fun hs => hactive.elim hs.1 hs.2, if_neg hassigned, hroute, if_neg]
  · split_ifs <;> simp_all
  · rintro ⟨-, htemplate, ht, hdiffer⟩
    rw [(hfits.resolve_left htemplate).resolve_left ht] at hdiffer
    cases hdiffer

variable (h : ∀ wb ∈ work, Owned cfg ids infos t wb)
include h

theorem gather_owned (woken : List String) : gather cfg ids infos t' woken work =
    (if t = t' then work.map (resumeOf ids infos t) else [], woken) := by
  induction work with
  | nil => simp [gather]
  | cons wb work ih =>
    rw [forall_mem_cons] at h
    rw [gather, h.1.workRequest_eq]
    split_ifs with ht
    · simp [ih h.2, ht, resumeOf, requestFor]
    · simp [ih h.2, ht]

theorem gatherAgents_owned (agents : List Agent) (woken : List String) :
    gatherAgents cfg ids infos work woken agents =
      (agents.filter (serves t)).flatMap fun _ => work.map (resumeOf ids infos t) := by
  induction agents with
  | nil => rfl
  | cons agent agents ih =>
    rw [gatherAgents, gather_owned h, ih, filter_cons, serves]
    by_cases hskip : (agent.suspended || !agent.supportsGenericEphemeralSessions) = true
    · simp [hskip]
    · by_cases ht : t = agent.qualifiedName
      · simp [hskip, ih, ← ht]
      · simp [hskip, ih, ht, Ne.symm ht]

end Requests

section Order

variable {limits : Limits} {u : Usage} {reqs : List SessionRequest} {a b : SessionRequest}

instance : Std.Total fun a b : SessionRequest => ¬ before b a :=
  ⟨fun a b => by grind [before]⟩

instance : IsTrans SessionRequest fun a b => ¬ before b a :=
  ⟨fun a b c => by grind [before]⟩

/-- Once a cap of a template is full, nothing more is accepted for it. -/
theorem Fair.walk_full (hu : Fair limits u) (hfull : full limits u.requests a.template = true)
    (ha : a ∈ (u.walk limits reqs).requests) : a ∈ u.requests := by
  induction reqs generalizing u with
  | nil => exact ha
  | cons b reqs ih =>
    rw [walk_cons] at ha
    split_ifs at ha with hacc
    · obtain ⟨hdup, hroom⟩ := hu.canAccept_iff.mp hacc
      rcases mem_append.mp (ih (hu.accept hdup hroom) (full_append hfull) ha) with ha | ha
      · exact ha
      · rw [mem_singleton.mp ha, hroom] at hfull
        cases hfull
    · exact ih hu hfull ha

variable {cfg : City} {infos : List SessionInfo}

theorem mem_applyNestedCaps (ha : a.tier ≠ .new) :
    a ∈ requestsOf (applyNestedCaps cfg infos reqs) ↔
      a ∈ (Usage.empty.walk (newNestedCapLimits cfg) (sortRequests reqs)).requests := by
  have hfair : Fair (newNestedCapLimits cfg) _ := fair_empty.walk (sortRequests reqs)
  obtain ⟨-, floors, heq, hfloors, -⟩ := hfair.foldl_fillMinimum infos cfg.agents
  rw [applyNestedCaps, (requestsOf_grouped _).mem_iff, finalUsage, heq, mem_append, or_iff_left]
  intro hfloor
  obtain ⟨agent, -, hdemand⟩ := hfloors a hfloor
  exact ha hdemand.tier

/-- Work that a cap turns away does not go before what is accepted for its template. -/
theorem not_before_of_reject (hb : b ∈ reqs) (htiers : a.tier ≠ .new ∧ b.tier ≠ .new)
    (hfresh : ∀ q ∈ reqs, q.sessionBeadID = b.sessionBeadID → q = b)
    (hreject : b ∉ requestsOf (applyNestedCaps cfg infos reqs))
    (ha : a ∈ requestsOf (applyNestedCaps cfg infos reqs)) (ht : a.template = b.template) :
    ¬ before b a := by
  rw [mem_applyNestedCaps htiers.1] at ha
  rw [mem_applyNestedCaps htiers.2] at hreject
  have hsorted := pairwise_insertionSort (fun a b => ¬ before b a) reqs
  obtain ⟨front, behind, heq⟩ := append_of_mem ((mem_insertionSort fun a b => ¬ before b a).mpr hb)
  rw [heq] at hsorted
  rw [sortRequests, heq, append_cons, walk_append] at ha hreject
  obtain ⟨l, hl, hfront⟩ := requests_walk (newNestedCapLimits cfg) Usage.empty (front ++ [b])
  have hout : b ∉ (Usage.empty.walk (newNestedCapLimits cfg) (front ++ [b])).requests := by
    obtain ⟨m, -, hrest⟩ := requests_walk (newNestedCapLimits cfg)
      (Usage.empty.walk (newNestedCapLimits cfg) (front ++ [b])) behind
    rw [hrest] at hreject
    exact fun hb => hreject (mem_append_left _ hb)
  rcases fair_empty.walk_complete (mem_append_right front (mem_singleton_self b))
    with hin | hdup | hfull
  · exact absurd hin hout
  · obtain ⟨-, q, hq, hid⟩ := mem_sessionIDs.mp hdup
    rw [hfront] at hq
    have hmem : q ∈ reqs := by
      apply (mem_insertionSort fun a b => ¬ before b a).mp
      rw [heq, append_cons]
      exact mem_append_left _ (hl.subset hq)
    rw [hfront, ← hfresh q hmem hid] at hout
    exact absurd hq hout
  · have ha := (fair_empty.walk _).walk_full (ht ▸ hfull) ha
    have hfirst := ha
    rw [hfront] at hfirst
    rcases mem_append.mp (hl.subset hfirst) with hfirst | hself
    · exact (pairwise_append.mp hsorted).2.2 a hfirst b mem_cons_self
    · exact absurd (mem_singleton.mp hself ▸ ha) hout

end Order

section Urgency

variable {cfg : City} {ids : Identities} {infos : List SessionInfo} {t : String}
  {work : List WorkBead} {a b : WorkBead} {counts : String → Option ℤ}
  {demand : String → Option ScaleCheckDemand}

theorem tier_resumeOf : (resumeOf ids infos t a).tier ≠ .new := by
  rintro ⟨⟩

theorem not_before_resumeOf : ¬ before (resumeOf ids infos t a) (resumeOf ids infos t b) ↔
    beadPriority a ≤ beadPriority b := by
  simp [before, resumeOf, requestFor]

theorem beadPriority_le_of_reject (h : ∀ wb ∈ work, Owned cfg ids infos t wb)
    (hdistinct : (work.map (ownerOf ids infos)).Nodup) (ha : a ∈ work)
    (hacc : resumeOf ids infos t b ∈
      requestsOf (computePoolDesiredStates cfg ids infos work counts demand))
    (hreject : resumeOf ids infos t a ∉
      requestsOf (computePoolDesiredStates cfg ids infos work counts demand)) :
    beadPriority a ≤ beadPriority b := by
  have hmem : ∀ {q}, q ∈ resumeRequests cfg ids infos work ↔
      (∃ agent ∈ cfg.agents, serves t agent = true) ∧ ∃ wb ∈ work, resumeOf ids infos t wb = q := by
    rw [resumeRequests, gatherAgents_owned h]
    simp
  have ha' : resumeOf ids infos t a ∈ resumeRequests cfg ids infos work := by
    rcases mem_append.mp (mem_of_mem_walk ((mem_applyNestedCaps tier_resumeOf).mp hacc))
      with hb | hb
    · exact hmem.mpr ⟨(hmem.mp hb).1, a, ha, rfl⟩
    · obtain ⟨agent, -, hdemand, -⟩ := ofDemand_mergeDemand hb
      exact absurd hdemand.tier tier_resumeOf
  apply not_before_resumeOf.mp (not_before_of_reject (mem_append_left _ ha')
    ⟨tier_resumeOf, tier_resumeOf⟩ _ hreject hacc rfl)
  intro q hq hid
  rcases mem_append.mp hq with hq | hq
  · obtain ⟨-, wb, hwb, rfl⟩ := hmem.mp hq
    rw [inj_on_of_nodup_map hdistinct hwb ha hid]
  · obtain ⟨agent, -, -, hflight⟩ := ofDemand_mergeDemand hq
    have hlive := (h a ha).live
    exact absurd (mem_sessionIDs.mpr ⟨hlive, _, ha', rfl⟩) (hid ▸ hflight (hid ▸ hlive)).1

end Urgency

/-- The builder alone, with a cap of one session. -/
def narrowCity : City :=
  { smallCity with
    agents := [⟨"rig", "builder", false, none, some 1, false⟩]
    agents_nodup := by decide }

def twoSessions : List SessionInfo := [liveSession "s1", liveSession "s2"]

def prioritized (assignee : String) (priority : Option ℤ) : WorkBead :=
  { assignedWork assignee assignee with priority }

/-- Two work beads of the agent, each of a session of its own. -/
def narrowWork (p q : Option ℤ) : List WorkBead := [prioritized "s2" q, prioritized "s1" p]

def narrowAccepted (p q : Option ℤ) : List SessionRequest :=
  requestsOf (computePoolDesiredStates narrowCity plainIdentities twoSessions (narrowWork p q)
    (fun _ => none) fun _ => none)

abbrev narrowRequest (assignee : String) (p : Option ℤ) : SessionRequest :=
  resumeOf plainIdentities twoSessions "rig/builder" (prioritized assignee p)

theorem owned_narrowWork (p q : Option ℤ) : ∀ wb ∈ narrowWork p q,
    Owned narrowCity plainIdentities twoSessions "rig/builder" wb := by
  have hnone : ∀ assignee ∈ ["s1", "s2"],
      Owned narrowCity plainIdentities twoSessions "rig/builder" (prioritized assignee none) := by
    intro assignee ha
    constructor <;> revert assignee <;> decide +kernel
  intro wb hwb
  rcases mem_pair.mp hwb with rfl | rfl
  · exact { hnone "s2" (by simp) with }
  · exact { hnone "s1" (by simp) with }

theorem nodup_narrowWork (p q : Option ℤ) :
    ((narrowWork p q).map (ownerOf plainIdentities twoSessions)).Nodup :=
  (by decide +kernel : ((narrowWork none none).map (ownerOf plainIdentities twoSessions)).Nodup)

/-- A cap of one session turns away the work with the lower number, or the later work. -/
theorem narrow_rejects {p q : Option ℤ} (hle : p.getD 0 ≤ q.getD 0) :
    narrowRequest "s2" q ∈ narrowAccepted p q ∧ narrowRequest "s1" p ∉ narrowAccepted p q := by
  have hcap : (newNestedCapLimits narrowCity).agentCap "rig/builder" = 1 := by decide +kernel
  have hrig : (newNestedCapLimits narrowCity).rigCap
      ((newNestedCapLimits narrowCity).rigOf "rig/builder") = 2 := by decide +kernel
  have hworkspace : (newNestedCapLimits narrowCity).workspaceMax = -1 := rfl
  have hfirst : ¬ before (narrowRequest "s1" p) (narrowRequest "s2" q) :=
    not_before_resumeOf.mpr hle
  have hall : sortRequests
      (resumeRequests narrowCity plainIdentities twoSessions (narrowWork p q) ++
        demandRequests narrowCity plainIdentities twoSessions (narrowWork p q) (fun _ => none)
          fun _ => none) = [narrowRequest "s2" q, narrowRequest "s1" p] := by
    rw [resumeRequests, gatherAgents_owned (owned_narrowWork p q)]
    exact if_pos hfirst
  rw [narrowAccepted, computePoolDesiredStates, mem_applyNestedCaps tier_resumeOf,
    mem_applyNestedCaps tier_resumeOf, hall]
  simp [walk_cons, walk_nil, Usage.canAccept, Usage.isDuplicateSessionRequest, Usage.rejection,
    Usage.reached, Usage.accept, Usage.empty, resumeOf, requestFor, prioritized, assignedWork,
    hcap, hrig, hworkspace]

/-- With the priorities in use, a cap never turns away work for less urgent work if and only if one
number at most is in use, and besides an unset priority only 1 or 2. -/
theorem keepsUrgent_iff (used : Set (Option ℤ)) :
    (∀ cfg ids infos t work counts demand, (∀ wb ∈ work, Owned cfg ids infos t wb) →
      (work.map (ownerOf ids infos)).Nodup → (∀ wb ∈ work, wb.priority ∈ used) →
      KeepsUrgent ids infos t work
        (requestsOf (computePoolDesiredStates cfg ids infos work counts demand))) ↔
    ∀ p, some p ∈ used → (none ∈ used → p = 1 ∨ p = 2) ∧ ∀ q, some q ∈ used → q = p := by
  constructor
  · intro hkeeps
    have hagree : ∀ p ∈ used, ∀ q ∈ used, p.getD 0 ≤ q.getD 0 → q.getD 2 ≤ p.getD 2 := by
      intro p hp q hq hle
      obtain ⟨hacc, hreject⟩ := narrow_rejects hle
      have hurgent := hkeeps _ _ _ _ _ _ _ (owned_narrowWork p q) (nodup_narrowWork p q)
        (by simp [narrowWork, prioritized, hp, hq]) _ (by simp [narrowWork]) _
        (by simp [narrowWork]) hacc hreject
      exact not_lt.mp hurgent
    intro p hp
    constructor
    · intro hnone
      have hset := hagree _ hp _ hnone
      have hunset := hagree _ hnone _ hp
      simp only [Option.getD_some, Option.getD_none] at hset hunset
      omega
    · intro q hq
      have hpq := hagree _ hp _ hq
      have hqp := hagree _ hq _ hp
      simp only [Option.getD_some] at hpq hqp
      omega
  · intro hused cfg ids infos t work counts demand h hdistinct hwork a ha b hb hacc hreject
    have hle := beadPriority_le_of_reject h hdistinct ha hacc hreject
    have hpa := hwork a ha
    have hpb := hwork b hb
    unfold beadPriority at hle
    unfold readySortPriority
    cases hp : a.priority <;> cases hq : b.priority <;> rw [hp] at hpa hle <;>
      rw [hq] at hpb hle <;> simp only [Option.getD_some, Option.getD_none] at hle ⊢
    · omega
    · have := (hused _ hpb).1 hpa
      omega
    · have := (hused _ hpa).1 hpb
      omega
    · have := (hused _ hpa).2 _ hpb
      omega

theorem urgent_work_loses_place :
    (∀ wb ∈ narrowWork (some 0) (some 3),
      Owned narrowCity plainIdentities twoSessions "rig/builder" wb) ∧
    ((narrowWork (some 0) (some 3)).map (ownerOf plainIdentities twoSessions)).Nodup ∧
    ¬ KeepsUrgent plainIdentities twoSessions "rig/builder" (narrowWork (some 0) (some 3))
      (narrowAccepted (some 0) (some 3)) := by
  refine ⟨owned_narrowWork _ _, nodup_narrowWork _ _, ?_⟩
  unfold KeepsUrgent
  decide +kernel

end GasCity.Pool
