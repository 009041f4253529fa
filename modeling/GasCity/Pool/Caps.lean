import GasCity.Keyed.List
import GasCity.Pool.Usage

/-! # Caps and floors of session pools

The pass over demand and the final pass agree: requests for work that has a session come first in
both, and the new sessions that the first found room for are accepted by the second.  The result
is within every cap, and below a minimum only where a cap is full.
-/

namespace GasCity.Pool

open List

section Resume

variable {cfg : City} {ids : Identities} {infos : List SessionInfo} {work : List WorkBead}
  {req : SessionRequest}

structure OfWork (work : List WorkBead) (template : String) (req : SessionRequest) : Prop where
  template_eq : req.template = template
  resumeLike : isResumeLikeTier req.tier = true
  priority : ∃ wb ∈ work, req.beadPriority = beadPriority wb

variable {template : String} {woken : List String}

theorem ofWork_workRequest {wb : WorkBead}
    (h : workRequest cfg ids infos template woken wb = some req) : OfWork [wb] template req := by
  unfold workRequest at h
  dsimp only at h
  split_ifs at h
  · cases h
    exact ⟨rfl, rfl, wb, mem_singleton.mpr rfl, rfl⟩
  · cases h
    exact ⟨rfl, rfl, wb, mem_singleton.mpr rfl, rfl⟩

theorem OfWork.mono {more : List WorkBead} (h : OfWork work template req)
    (hsub : ∀ wb ∈ work, wb ∈ more) : OfWork more template req := by
  obtain ⟨wb, hwb, hp⟩ := h.priority
  exact ⟨h.template_eq, h.resumeLike, wb, hsub wb hwb, hp⟩

theorem ofWork_gather
    (h : req ∈ (gather cfg ids infos template woken work).1) : OfWork work template req := by
  induction work generalizing woken with
  | nil => cases h
  | cons wb work ih =>
    unfold gather at h
    split at h
    · exact (ih h).mono fun _ hwb => mem_cons_of_mem wb hwb
    · next first hfirst =>
      rcases mem_cons.mp h with rfl | h
      · apply (ofWork_workRequest hfirst).mono
        intro b hb
        rw [mem_singleton.mp hb]
        exact mem_cons_self
      · exact (ih h).mono fun _ hwb => mem_cons_of_mem wb hwb

theorem ofWork_gatherAgents {agents : List Agent}
    (h : req ∈ gatherAgents cfg ids infos work woken agents) :
    ∃ agent ∈ agents, agent.suspended = false ∧ OfWork work agent.qualifiedName req := by
  induction agents generalizing woken with
  | nil => cases h
  | cons agent agents ih =>
    unfold gatherAgents at h
    split_ifs at h with hskip
    · obtain ⟨a, ha, hreq⟩ := ih h
      exact ⟨a, mem_cons_of_mem agent ha, hreq⟩
    · rcases mem_append.mp h with h | h
      · rw [Bool.or_eq_true, not_or, Bool.not_eq_true] at hskip
        exact ⟨agent, mem_cons_self, hskip.1, ofWork_gather h⟩
      · obtain ⟨a, ha, hreq⟩ := ih h
        exact ⟨a, mem_cons_of_mem agent ha, hreq⟩

theorem ofWork_resumeRequests (h : req ∈ resumeRequests cfg ids infos work) :
    ∃ agent ∈ cfg.agents, agent.suspended = false ∧ OfWork work agent.qualifiedName req :=
  ofWork_gatherAgents h

end Resume

section Demand

variable {ids : Identities} {infos : List SessionInfo} {limits : Limits} {resumed : List String}
  {counts : String → Option ℤ} {demand : String → Option ScaleCheckDemand} {u : Usage}
  {agent : Agent} {agents : List Agent} {req : SessionRequest}

/-- A request for a new session of an agent that runs. -/
structure OfDemand (agent : Agent) (req : SessionRequest) : Prop where
  running : agent.suspended = false
  template_eq : req.template = agent.qualifiedName
  tier : req.tier = .new
  priority : req.beadPriority = 0

/-- The session that a request names is in flight and belongs to the agent. -/
def NamesInFlight (ids : Identities) (infos : List SessionInfo) (resumed : List String)
    (agent : Agent) (id : String) : Prop :=
  id ∉ resumed ∧ ∃ sb ∈ infos, sb.id = id ∧ ids.normalizedSessionTemplate sb = agent.qualifiedName

theorem mem_poolInFlightNewRequests (h : req ∈ poolInFlightNewRequests ids infos resumed agent) :
    ∃ sb ∈ infos, isInFlight ids resumed agent sb = true ∧
      req = inFlightRequest agent.qualifiedName sb := by
  unfold poolInFlightNewRequests at h
  split_ifs at h
  · cases h
  · obtain ⟨sb, hsb, rfl⟩ := mem_map.mp h
    obtain ⟨hsb, hin⟩ := mem_filter.mp hsb
    exact ⟨sb, (perm_insertionSort _ infos).mem_iff.mp hsb, hin, rfl⟩

theorem newRequests_spec (h : newRequests ids infos limits resumed counts demand u agent ≠ []) :
    agent.suspended = false ∧ ∃ count n inFlight, counts agent.qualifiedName = some count ∧
      n = capNewDemandCount limits u agent.qualifiedName count ∧
      inFlight = (poolInFlightNewRequests ids infos resumed agent).take n ∧
      newRequests ids infos limits resumed counts demand u agent =
        inFlight ++ (range' inFlight.length (n - inFlight.length)).map
          (anonymousRequest agent.qualifiedName (demand agent.qualifiedName)) := by
  unfold newRequests at h ⊢
  split_ifs at h ⊢ with hskip
  · exact absurd rfl h
  · rw [Bool.or_eq_true, not_or, Bool.not_eq_true] at hskip
    split at h
    · exact absurd rfl h
    · next count hcount => exact ⟨hskip.1, count, _, _, hcount, rfl, rfl, rfl⟩

theorem ofDemand_newRequests
    (h : req ∈ newRequests ids infos limits resumed counts demand u agent) :
    OfDemand agent req ∧ (req.sessionBeadID ≠ "" →
      NamesInFlight ids infos resumed agent req.sessionBeadID) := by
  obtain ⟨hrun, count, n, inFlight, -, -, hin, heq⟩ :=
    newRequests_spec (ne_nil_of_mem h)
  rw [heq] at h
  rcases mem_append.mp h with h | h
  · rw [hin] at h
    obtain ⟨sb, hsb, hflight, rfl⟩ := mem_poolInFlightNewRequests (mem_of_mem_take h)
    simp only [isInFlight, Bool.and_eq_true, decide_eq_true_eq, beq_iff_eq] at hflight
    exact ⟨⟨hrun, rfl, rfl, rfl⟩, fun _ =>
      ⟨hflight.1.1.1.1.2, sb, hsb, rfl, hflight.1.2⟩⟩
  · obtain ⟨j, -, rfl⟩ := mem_map.mp h
    exact ⟨⟨hrun, rfl, rfl, rfl⟩, fun hne => absurd rfl hne⟩

theorem nodup_sessionIDs_newRequests (hids : (infos.map (·.id)).Nodup) :
    (sessionIDs (newRequests ids infos limits resumed counts demand u agent)).Nodup := by
  by_cases hnil : newRequests ids infos limits resumed counts demand u agent = []
  · rw [hnil]
    exact nodup_nil
  · obtain ⟨-, count, n, inFlight, -, -, hin, heq⟩ := newRequests_spec hnil
    have hanon : sessionIDs ((range' inFlight.length (n - inFlight.length)).map
        (anonymousRequest agent.qualifiedName (demand agent.qualifiedName))) = [] := by
      rw [sessionIDs, map_map, filter_eq_nil_iff]
      intro id hid
      obtain ⟨j, -, rfl⟩ := mem_map.mp hid
      simp [anonymousRequest]
    rw [heq, sessionIDs_append, hanon, append_nil, hin]
    have hsub : ((poolInFlightNewRequests ids infos resumed agent).map
        (·.sessionBeadID)).Sublist ((sortInfos infos).map (·.id)) := by
      unfold poolInFlightNewRequests
      split_ifs
      · exact nil_sublist _
      · rw [map_map]
        exact filter_sublist.map _
    have hsorted : ((sortInfos infos).map (·.id)).Nodup :=
      ((perm_insertionSort _ infos).map _).nodup_iff.mpr hids
    exact (hsorted.sublist (((take_sublist n _).map _).trans hsub)).filter _

theorem roomy_capNewDemandCount (hu : Fair limits u) (t : String) (count : ℤ) :
    Roomy limits u.requests t (capNewDemandCount limits u t count) := by
  intro g hg hcap
  have hwithin := hu.within g hcap
  unfold capNewDemandCount
  split_ifs with hcount
  · simpa using hwithin
  · rw [hu.agentCount, hu.workspaceCount]
    simp only [gauges, mem_cons, not_mem_nil, or_false] at hg
    rcases hg with rfl | rfl | rfl <;> simp only [Gauge.cap, Gauge.count] at hcap hwithin ⊢
    · simp only [room, hcap, if_true]
      split_ifs <;> omega
    · have hrig : u.rigCount (limits.rigOf t) = rigCountOf limits u.requests (limits.rigOf t) := by
        apply hu.rigCount
        intro hempty
        rw [hempty, Limits.rigCap, if_pos rfl] at hcap
        omega
      simp only [room, hcap, if_true]
      split_ifs <;> omega
    · simp only [room, hcap, if_true]
      split_ifs <;> omega

theorem length_newRequests_le (count : ℤ) (hcount : counts agent.qualifiedName = some count) :
    (newRequests ids infos limits resumed counts demand u agent).length ≤
      capNewDemandCount limits u agent.qualifiedName count := by
  by_cases hnil : newRequests ids infos limits resumed counts demand u agent = []
  · rw [hnil]
    exact Nat.zero_le _
  · obtain ⟨-, count', n, inFlight, hcount', hn, hin, heq⟩ := newRequests_spec hnil
    rw [hcount] at hcount'
    cases hcount'
    have hlen : inFlight.length ≤ n := by
      rw [hin]
      exact length_take_le n _
    rw [heq, length_append, length_map, length_range', ← hn]
    omega

theorem ofDemand_mergeDemand
    (h : req ∈ mergeDemand ids infos limits resumed counts demand u agents) :
    ∃ agent ∈ agents, OfDemand agent req ∧ (req.sessionBeadID ≠ "" →
      NamesInFlight ids infos resumed agent req.sessionBeadID) := by
  induction agents generalizing u with
  | nil => cases h
  | cons agent agents ih =>
    rcases mem_append.mp h with h | h
    · exact ⟨agent, mem_cons_self, ofDemand_newRequests h⟩
    · obtain ⟨a, ha, hreq⟩ := ih h
      exact ⟨a, mem_cons_of_mem agent ha, hreq⟩

theorem Roomy.mono {reqs : List SessionRequest} {t : String} {m n : ℕ} (h : Roomy limits reqs t n)
    (hmn : m ≤ n) : Roomy limits reqs t m := by
  intro g hg hc
  have := h g hg hc
  omega

theorem roomy_newRequests (hu : Fair limits u) :
    Roomy limits u.requests agent.qualifiedName
      (newRequests ids infos limits resumed counts demand u agent).length := by
  by_cases hnil : newRequests ids infos limits resumed counts demand u agent = []
  · rw [hnil]
    exact (roomy_capNewDemandCount hu _ 0).mono (Nat.zero_le _)
  · obtain ⟨-, count, -, -, hcount, -⟩ := newRequests_spec hnil
    exact (roomy_capNewDemandCount hu _ count).mono (length_newRequests_le count hcount)

theorem not_namesInFlight_of_ne {id : String} {other : Agent} (hids : (infos.map (·.id)).Nodup)
    (hne : agent.qualifiedName ≠ other.qualifiedName)
    (h : NamesInFlight ids infos resumed agent id) :
    ¬ NamesInFlight ids infos resumed other id := by
  rintro ⟨-, sb', hsb', hid', ht'⟩
  obtain ⟨-, sb, hsb, hid, ht⟩ := h
  obtain rfl := inj_on_of_nodup_map hids hsb hsb' (hid.trans hid'.symm)
  exact hne (ht.symm.trans ht')

/-- The requests for demand are all accepted after the requests they were counted against. -/
theorem Fair.walk_mergeDemand (hu : Fair limits u) (hids : (infos.map (·.id)).Nodup)
    (hnames : (agents.map Agent.qualifiedName).Nodup)
    (hsep : ∀ id ∈ sessionIDs u.requests, ∀ agent ∈ agents,
      ¬ NamesInFlight ids infos resumed agent id) :
    (u.walk limits (mergeDemand ids infos limits resumed counts demand u agents)).requests =
      u.requests ++ mergeDemand ids infos limits resumed counts demand u agents := by
  induction agents generalizing u with
  | nil => exact (append_nil _).symm
  | cons agent agents ih =>
    rw [map_cons, nodup_cons] at hnames
    let new := newRequests ids infos limits resumed counts demand u agent
    have hnew : ∀ q ∈ new, OfDemand agent q ∧ (q.sessionBeadID ≠ "" →
        NamesInFlight ids infos resumed agent q.sessionBeadID) := fun q hq =>
      ofDemand_newRequests hq
    have hnewIDs : ∀ id ∈ sessionIDs new, NamesInFlight ids infos resumed agent id := by
      intro id hid
      obtain ⟨hne, q, hq, rfl⟩ := mem_sessionIDs.mp hid
      exact (hnew q hq).2 hne
    have hall : (sessionIDs (u.requests ++ new)).Nodup := by
      rw [sessionIDs_append]
      refine List.Nodup.append hu.nodup (nodup_sessionIDs_newRequests hids) ?_
      intro id hid hid'
      exact hsep id hid agent mem_cons_self (hnewIDs id hid')
    have hwalk := hu.walk_eq_foldl (fun q hq => (hnew q hq).1.template_eq)
      (roomy_newRequests hu) hall
    have hfair : Fair limits (new.foldl (fun u req => u.accept limits req) u) := by
      rw [← hwalk]
      exact hu.walk _
    have hreqs := requests_foldl_accept limits u new
    have hrest := ih hfair hnames.2 ?_
    · change (u.walk limits (new ++ _)).requests = u.requests ++ (new ++ _)
      rw [walk_append, hwalk, hrest, hreqs, append_assoc]
    · intro id hid a ha
      rw [hreqs, sessionIDs_append] at hid
      rcases mem_append.mp hid with hid | hid
      · exact hsep id hid a (mem_cons_of_mem agent ha)
      · refine not_namesInFlight_of_ne hids ?_ (hnewIDs id hid)
        intro heq
        exact hnames.1 (mem_map.mpr ⟨a, ha, heq.symm⟩)

end Demand

section Passes

variable {cfg : City} {ids : Identities} {infos : List SessionInfo} {work : List WorkBead}
  {counts : String → Option ℤ} {demand : String → Option ScaleCheckDemand}

theorem sortRequests_append {resume new : List SessionRequest}
    (hresume : ∀ q ∈ resume, isResumeLikeTier q.tier = true ∧ 0 ≤ q.beadPriority)
    (hnew : ∀ q ∈ new, q.tier = .new ∧ q.beadPriority = 0) :
    sortRequests (resume ++ new) = sortRequests resume ++ new := by
  apply Sorted.insertionSort_append
  · rw [pairwise_iff_forall_sublist]
    intro a b hab
    have ha := hnew a (hab.subset (by simp))
    have hb := hnew b (hab.subset (by simp))
    rintro (hlt | ⟨-, hne, -⟩)
    · omega
    · exact hne (hb.1.trans ha.1.symm)
  · intro a ha b hb
    have ha := hresume a ha
    have hb := hnew b hb
    rintro (hlt | ⟨-, -, hlike, -⟩)
    · omega
    · rw [hb.1] at hlike
      cases hlike

def resumed (cfg : City) (ids : Identities) (infos : List SessionInfo) (work : List WorkBead) :
    List SessionRequest :=
  (acceptedNestedCapUsage (newNestedCapLimits cfg) (resumeRequests cfg ids infos work)).requests

theorem mem_of_mem_walk {limits : Limits} {req : SessionRequest} {reqs : List SessionRequest}
    (h : req ∈ (Usage.empty.walk limits (sortRequests reqs)).requests) : req ∈ reqs := by
  obtain ⟨l, hl, heq⟩ := requests_walk limits Usage.empty (sortRequests reqs)
  rw [heq] at h
  exact (perm_insertionSort _ _).mem_iff.mp (hl.subset h)

/-- The final pass accepts the requests of work as the first one did, and all of demand. -/
theorem requests_walk_sortRequests (cfg : City) (ids : Identities) (counts : String → Option ℤ)
    (demand : String → Option ScaleCheckDemand) (hids : (infos.map (·.id)).Nodup)
    (hprio : ∀ wb ∈ work, 0 ≤ beadPriority wb) :
    (Usage.empty.walk (newNestedCapLimits cfg)
      (sortRequests (resumeRequests cfg ids infos work ++
        demandRequests cfg ids infos work counts demand))).requests =
      resumed cfg ids infos work ++ demandRequests cfg ids infos work counts demand := by
  rw [sortRequests_append, walk_append]
  · apply Fair.walk_mergeDemand (fair_empty.walk _) hids cfg.agents_nodup
    rintro id hid agent - ⟨hnot, -⟩
    obtain ⟨hne, q, hq, rfl⟩ := mem_sessionIDs.mp hid
    exact hnot (mem_sessionIDs.mpr ⟨hne, q, mem_of_mem_walk hq, rfl⟩)
  · intro q hq
    obtain ⟨agent, -, -, hwork⟩ := ofWork_resumeRequests hq
    obtain ⟨wb, hwb, hp⟩ := hwork.priority
    exact ⟨hwork.resumeLike, hp ▸ hprio wb hwb⟩
  · intro q hq
    obtain ⟨agent, -, hdemand, -⟩ := ofDemand_mergeDemand hq
    exact ⟨hdemand.tier, hdemand.priority⟩

end Passes

section Floors

variable {infos : List SessionInfo} {limits : Limits} {u : Usage} {agent : Agent}

variable {reqs : List SessionRequest}

theorem Fair.fillFloor (hu : Fair limits u) (t : String) (n : ℕ) :
    Fair limits (fillFloor limits t n u) ∧ ∃ k, (Pool.fillFloor limits t n u).requests =
        u.requests ++ replicate k (floorRequest t) ∧
      (k = n ∨ full limits (Pool.fillFloor limits t n u).requests t = true) := by
  induction n generalizing u with
  | zero => exact ⟨hu, 0, (append_nil _).symm, .inl rfl⟩
  | succ n ih =>
    unfold Pool.fillFloor
    rw [hu.rejection_eq]
    split_ifs with hfull
    · exact ⟨hu, 0, (append_nil _).symm, .inr hfull⟩
    · have hacc := hu.accept (fun h => (mem_sessionIDs.mp h).1 rfl) (Bool.not_eq_true _ ▸ hfull)
      obtain ⟨hfair, k, heq, hk⟩ := ih hacc
      refine ⟨hfair, k + 1, ?_, ?_⟩
      · rw [heq, replicate_succ]
        exact append_assoc u.requests [floorRequest t] _
      · rcases hk with hk | hk
        · exact .inl (congrArg (· + 1) hk)
        · exact .inr hk

def Floored (limits : Limits) (reqs : List SessionRequest) (agent : Agent) : Prop :=
  agent.effectiveMinActiveSessions ≤ countOf reqs agent.qualifiedName ∨
    full limits reqs agent.qualifiedName = true

theorem Floored.append (h : Floored limits reqs agent)
    (more : List SessionRequest) : Floored limits (reqs ++ more) agent := by
  rcases h with h | h
  · left
    rw [countOf, countP_append]
    exact Nat.le_add_right_of_le h
  · exact .inr (full_append h)

theorem Fair.fillMinimum (hu : Fair limits u) (infos : List SessionInfo) (agent : Agent) :
    Fair limits (fillMinimum infos limits u agent) ∧ ∃ floors,
      (Pool.fillMinimum infos limits u agent).requests = u.requests ++ floors ∧
      (∀ q ∈ floors, OfDemand agent q) ∧
      (agent.suspended = false → aliasHeld infos agent = false →
        Floored limits (Pool.fillMinimum infos limits u agent).requests agent) := by
  unfold Pool.fillMinimum
  split_ifs with hskip
  · refine ⟨hu, [], (append_nil _).symm, forall_mem_nil _, ?_⟩
    intro hrun hfree
    rw [hrun, hfree] at hskip
    cases hskip
  · rw [Bool.or_eq_true, not_or, Bool.not_eq_true] at hskip
    obtain ⟨hfair, k, heq, hk⟩ := hu.fillFloor agent.qualifiedName
      (agent.effectiveMinActiveSessions - u.agentCount agent.qualifiedName)
    refine ⟨hfair, _, heq, ?_, ?_⟩
    · intro q hq
      rw [eq_of_mem_replicate hq]
      exact ⟨hskip.1, rfl, rfl, rfl⟩
    · intro _ _
      rcases hk with hk | hk
      · left
        rw [heq, countOf, countP_append, countP_replicate]
        have hcount := hu.agentCount agent.qualifiedName
        rw [countOf] at hcount
        simp only [floorRequest, beq_self_eq_true, if_true]
        omega
      · exact .inr hk

theorem Fair.foldl_fillMinimum (hu : Fair limits u) (infos : List SessionInfo)
    (agents : List Agent) :
    Fair limits (agents.foldl (Pool.fillMinimum infos limits) u) ∧ ∃ floors,
      (agents.foldl (Pool.fillMinimum infos limits) u).requests = u.requests ++ floors ∧
      (∀ q ∈ floors, ∃ agent ∈ agents, OfDemand agent q) ∧
      ∀ agent ∈ agents, agent.suspended = false → aliasHeld infos agent = false →
        Floored limits (agents.foldl (Pool.fillMinimum infos limits) u).requests agent := by
  induction agents generalizing u with
  | nil =>
    exact ⟨hu, [], (append_nil _).symm, forall_mem_nil _, forall_mem_nil _⟩
  | cons agent agents ih =>
    obtain ⟨hfirst, floors, heq, hfloors, hfloored⟩ := hu.fillMinimum infos agent
    obtain ⟨hfair, floors', heq', hfloors', hfloored'⟩ := ih hfirst
    rw [foldl_cons]
    refine ⟨hfair, floors ++ floors', ?_, ?_, ?_⟩
    · rw [heq', heq, append_assoc]
    · intro q hq
      rcases mem_append.mp hq with hq | hq
      · exact ⟨agent, mem_cons_self, hfloors q hq⟩
      · obtain ⟨a, ha, hqa⟩ := hfloors' q hq
        exact ⟨a, mem_cons_of_mem agent ha, hqa⟩
    · intro a ha hrun hfree
      rcases mem_cons.mp ha with rfl | ha
      · rw [heq']
        exact (hfloored hrun hfree).append floors'
      · exact hfloored' a ha hrun hfree

end Floors

section Result

variable {cfg : City} {ids : Identities} {infos : List SessionInfo} {work : List WorkBead}
  {counts : String → Option ℤ} {demand : String → Option ScaleCheckDemand}

def requestsOf (states : List PoolDesiredState) : List SessionRequest :=
  states.flatMap (·.requests)

theorem requestsOf_grouped (accepted : List SessionRequest) :
    (requestsOf (grouped accepted)).Perm accepted := by
  let templates := (accepted.map (·.template)).dedup.insertionSort (· ≤ ·)
  have hperm : templates.Perm (accepted.map (·.template)).dedup := perm_insertionSort _ _
  have hnodup : templates.Nodup := hperm.nodup_iff.mpr (nodup_dedup _)
  have hall : (accepted.filter fun q => q.template ∈ templates) = accepted := by
    rw [filter_eq_self]
    intro q hq
    apply decide_eq_true
    rw [hperm.mem_iff, mem_dedup]
    exact mem_map.mpr ⟨q, hq, rfl⟩
  have hflat : requestsOf (grouped accepted) =
      templates.flatMap fun t => accepted.filter fun q => q.template == t :=
    flatMap_map _ _ _
  rw [hflat]
  exact (Keyed.flatMap_filter_perm hnodup accepted).trans (List.Perm.of_eq hall)

theorem agentCap_eq {agent : Agent} (h : agent ∈ cfg.agents) :
    (newNestedCapLimits cfg).agentCap agent.qualifiedName =
      (agent.resolvedMaxActiveSessions cfg).getD (-1) := by
  have hget : (newNestedCapLimits cfg).agentMax.get agent.qualifiedName =
      some ((agent.resolvedMaxActiveSessions cfg).getD (-1)) := by
    apply (Table.get_ofList ?_).mpr
    · exact mem_map.mpr ⟨agent, h, rfl⟩
    · rw [map_map]
      exact cfg.agents_nodup
  rw [Limits.agentCap, Table.getD, hget]
  rfl

theorem rigCap_eq {rig : Rig} (h : rig ∈ cfg.rigs) :
    (newNestedCapLimits cfg).rigCap rig.name = rig.maxActiveSessions.getD (-1) := by
  have hget : (newNestedCapLimits cfg).rigMax.get rig.name =
      some (rig.maxActiveSessions.getD (-1)) := by
    apply (Table.get_ofList ?_).mpr
    · exact mem_map.mpr ⟨rig, h, rfl⟩
    · rw [map_map]
      exact cfg.rigs_nodup
  rw [Limits.rigCap, if_neg (cfg.rigs_named rig h), Table.getD, hget]
  rfl

/-- What a desired state owes to the configuration, to the requests of work and to those of
demand. -/
structure Respected (cfg : City) (infos : List SessionInfo)
    (resume demand reqs : List SessionRequest) : Prop where
  agentCap : ∀ agent ∈ cfg.agents, ∀ m, agent.resolvedMaxActiveSessions cfg = some m → 0 ≤ m →
    (countOf reqs agent.qualifiedName : ℤ) ≤ m
  rigCap : ∀ rig ∈ cfg.rigs, ∀ m, rig.maxActiveSessions = some m → 0 ≤ m →
    (rigCountOf (newNestedCapLimits cfg) reqs rig.name : ℤ) ≤ m
  workspaceCap : ∀ m, cfg.workspaceMax = some m → 0 ≤ m → (reqs.length : ℤ) ≤ m
  sessions : (sessionIDs reqs).Nodup
  running : ∀ agent ∈ cfg.agents, agent.suspended = true →
    ∀ q ∈ reqs, q.template ≠ agent.qualifiedName
  floors : ∀ agent ∈ cfg.agents, agent.suspended = false → aliasHeld infos agent = false →
    Floored (newNestedCapLimits cfg) reqs agent
  resumed : ∀ q ∈ resume, q ∈ reqs ∨ q.sessionBeadID ∈ sessionIDs reqs ∨
    full (newNestedCapLimits cfg) (reqs.filter fun r => isResumeLikeTier r.tier) q.template = true
  demanded : demand.Subperm reqs

variable {reqs reqs' : List SessionRequest}

theorem full_of_perm {limits : Limits} (h : reqs.Perm reqs')
    (t : String) : full limits reqs t = full limits reqs' t := by
  rw [full, full, countOf, countOf, rigCountOf, rigCountOf, h.countP_eq, h.countP_eq, h.length_eq]

theorem sessionIDs_perm (h : reqs.Perm reqs') :
    (sessionIDs reqs).Perm (sessionIDs reqs') :=
  (h.map _).filter _

theorem Respected.of_perm {resume demand : List SessionRequest}
    (h : Respected cfg infos resume demand reqs) (hp : reqs'.Perm reqs) :
    Respected cfg infos resume demand reqs' where
  agentCap agent ha m hm h0 := by
    rw [countOf, hp.countP_eq]
    exact h.agentCap agent ha m hm h0
  rigCap rig hr m hm h0 := by
    rw [rigCountOf, hp.countP_eq]
    exact h.rigCap rig hr m hm h0
  workspaceCap m hm h0 := by
    rw [hp.length_eq]
    exact h.workspaceCap m hm h0
  sessions := (sessionIDs_perm hp).nodup_iff.mpr h.sessions
  running agent ha hs q hq := h.running agent ha hs q (hp.mem_iff.mp hq)
  floors agent ha hrun hfree := by
    rw [Floored, countOf, hp.countP_eq, full_of_perm hp]
    exact h.floors agent ha hrun hfree
  resumed q hq := by
    rw [hp.mem_iff, (sessionIDs_perm hp).mem_iff, full_of_perm (hp.filter _)]
    exact h.resumed q hq
  demanded := h.demanded.trans hp.symm.subperm

section Accepted

variable {reqs floors : List SessionRequest}
  (heq : reqs = resumed cfg ids infos work ++ demandRequests cfg ids infos work counts demand ++
    floors) (hfloors : ∀ q ∈ floors, ∃ agent ∈ cfg.agents, OfDemand agent q)
include heq hfloors

theorem agent_of_request : ∀ q ∈ reqs, ∃ agent ∈ cfg.agents, agent.suspended = false ∧
    q.template = agent.qualifiedName := by
  intro q hq
  rw [heq, mem_append, mem_append] at hq
  rcases hq with (hq | hq) | hq
  · obtain ⟨agent, ha, hrun, hwork⟩ :=
      ofWork_resumeRequests (mem_of_mem_walk hq)
    exact ⟨agent, ha, hrun, hwork.template_eq⟩
  · obtain ⟨agent, ha, hdemand, -⟩ := ofDemand_mergeDemand hq
    exact ⟨agent, ha, hdemand.running, hdemand.template_eq⟩
  · obtain ⟨agent, ha, hdemand⟩ := hfloors q hq
    exact ⟨agent, ha, hdemand.running, hdemand.template_eq⟩

theorem filter_resumeLike :
    (reqs.filter fun r => isResumeLikeTier r.tier) = resumed cfg ids infos work := by
  have hnone : ∀ {l : List SessionRequest}, (∀ q ∈ l, ∃ agent ∈ cfg.agents, OfDemand agent q) →
      (l.filter fun r => isResumeLikeTier r.tier) = [] := by
    intro l hl
    rw [filter_eq_nil_iff]
    intro q hq hlike
    obtain ⟨agent, -, hdemand⟩ := hl q hq
    rw [hdemand.tier] at hlike
    cases hlike
  have hkeep : ((resumed cfg ids infos work).filter fun r => isResumeLikeTier r.tier) =
      resumed cfg ids infos work := by
    rw [filter_eq_self]
    intro q hq
    obtain ⟨agent, -, -, hwork⟩ := ofWork_resumeRequests (mem_of_mem_walk hq)
    exact hwork.resumeLike
  have hdemand : ((demandRequests cfg ids infos work counts demand).filter
      fun r => isResumeLikeTier r.tier) = [] := hnone fun q hq =>
    (ofDemand_mergeDemand hq).imp fun _ => .imp_right And.left
  rw [heq, filter_append, filter_append, hkeep, hnone hfloors, hdemand,
    append_nil, append_nil]

end Accepted

/-- The desired state respects every cap and every floor, names no session twice and serves no
suspended agent; work is turned away only by a cap full of work, and counted demand is served. -/
theorem pool_desired_states_respected (hids : (infos.map (·.id)).Nodup)
    (hprio : ∀ wb ∈ work, 0 ≤ beadPriority wb) :
    Respected cfg infos (resumeRequests cfg ids infos work)
      (demandRequests cfg ids infos work counts demand)
      (requestsOf (computePoolDesiredStates cfg ids infos work counts demand)) := by
  refine Respected.of_perm ?_ (requestsOf_grouped _)
  have hwalk := requests_walk_sortRequests cfg ids counts demand hids hprio
  obtain ⟨hfair, floors, heq, hfloors, hfloored⟩ := Fair.foldl_fillMinimum
    (fair_empty.walk (sortRequests (resumeRequests cfg ids infos work ++
      demandRequests cfg ids infos work counts demand))) infos cfg.agents
  change Respected cfg infos _ _ (cfg.agents.foldl (fillMinimum infos (newNestedCapLimits cfg))
    (Usage.empty.walk (newNestedCapLimits cfg) (sortRequests _))).requests
  rw [hwalk] at heq
  have hserved := agent_of_request heq hfloors
  refine ⟨?_, ?_, ?_, hfair.nodup, ?_, hfloored, ?_, ?_⟩
  · intro agent ha m hm h0
    have hcap := agentCap_eq ha
    rw [hm] at hcap
    have := hfair.within (.agent agent.qualifiedName)
    rw [Gauge.cap, hcap] at this
    exact this h0
  · intro rig hr m hm h0
    have hcap := rigCap_eq hr
    rw [hm] at hcap
    have := hfair.within (.rig rig.name)
    rw [Gauge.cap, hcap] at this
    exact this h0
  · intro m hm h0
    have hcap : (newNestedCapLimits cfg).workspaceMax = m := by
      rw [newNestedCapLimits, hm]
      rfl
    have := hfair.within .workspace
    rw [Gauge.cap, hcap] at this
    exact this h0
  · intro agent ha hs q hq heq'
    obtain ⟨a, ha', hrun, ht⟩ := hserved q hq
    obtain rfl := inj_on_of_nodup_map cfg.agents_nodup ha ha' (heq'.symm.trans ht)
    rw [hs] at hrun
    cases hrun
  · intro q hq
    rw [filter_resumeLike heq hfloors, heq, sessionIDs_append, sessionIDs_append]
    have hmem : q ∈ sortRequests (resumeRequests cfg ids infos work) :=
      (perm_insertionSort _ _).mem_iff.mpr hq
    rcases fair_empty.walk_complete hmem with h | h | h
    · exact .inl (mem_append_left _ (mem_append_left _ h))
    · exact .inr (.inl (mem_append_left _ (mem_append_left _ h)))
    · exact .inr (.inr h)
  · rw [heq]
    exact ((sublist_append_right _ _).trans (sublist_append_left _ _)).subperm

end Result

/-- Two workers of one rig with a cap of two sessions, one of them with a minimum. -/
def smallCity : City where
  agents := [⟨"rig", "builder", false, none, none, false⟩, ⟨"rig", "keeper", false, some 1, none,
    false⟩]
  rigs := [⟨"rig", some 2⟩]
  workspaceMax := none
  agents_nodup := by decide
  rigs_nodup := by decide
  rigs_named := by decide

def plainIdentities : Identities where
  normalizedSessionTemplate sb := sb.template
  assigneeIdentities sb := [sb.id]
  normalizeRoute route := route
  equivalent a b := a == b
  isConfiguredNamedSessionIdentity _ := false
  isEphemeralSessionForAgent _ _ := true

def liveSession (id : String) : SessionInfo :=
  ⟨id, false, false, "", "rig/builder", false, true, "active", "", false, 0, "", "", ""⟩

def assignedWork (id assignee : String) : WorkBead :=
  ⟨id, "", "in_progress", assignee, "rig/builder", some 1, "", "", ""⟩

/-- Work of one session, and demand for three more. -/
theorem pool_desired_states_respected_smallCity :
    (requestsOf (computePoolDesiredStates smallCity plainIdentities [liveSession "s1"]
      [assignedWork "w1" "s1"] (fun t => if t = "rig/builder" then some 3 else none)
      fun _ => none)).length ≤ 2 ∧
    Respected smallCity [liveSession "s1"]
      (resumeRequests smallCity plainIdentities [liveSession "s1"] [assignedWork "w1" "s1"])
      (demandRequests smallCity plainIdentities [liveSession "s1"] [assignedWork "w1" "s1"]
        (fun t => if t = "rig/builder" then some 3 else none) fun _ => none)
      (requestsOf (computePoolDesiredStates smallCity plainIdentities [liveSession "s1"]
        [assignedWork "w1" "s1"] (fun t => if t = "rig/builder" then some 3 else none)
        fun _ => none)) :=
  ⟨by decide +kernel, pool_desired_states_respected (by decide) (by decide)⟩

end GasCity.Pool
