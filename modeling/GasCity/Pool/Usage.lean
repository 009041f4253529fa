import GasCity.Pool.DesiredState
import GasCity.Sorted.List

/-! # Use of the caps

The counters of a pass are those of the requests that it has accepted, so the pass can be read on
these alone: they are within the caps and name no session twice, and a request that is left out is a
duplicate or meets a full cap.
-/

namespace GasCity.Pool

open List Usage

section Requests

variable (limits : Limits) (reqs : List SessionRequest)

def countOf (template : String) : ℕ :=
  reqs.countP fun q => q.template == template

def rigCountOf (rig : String) : ℕ :=
  reqs.countP fun q => limits.rigOf q.template == rig

def full (template : String) : Bool :=
  reached (limits.agentCap template) (countOf reqs template) ||
    reached (limits.rigCap (limits.rigOf template))
      (rigCountOf limits reqs (limits.rigOf template)) ||
    reached limits.workspaceMax reqs.length

/-- What a cap counts. -/
inductive Gauge
  | agent (template : String)
  | rig (name : String)
  | workspace
  deriving DecidableEq

def Gauge.cap : Gauge → ℤ
  | agent t => limits.agentCap t
  | rig r => limits.rigCap r
  | workspace => limits.workspaceMax

def Gauge.count : Gauge → ℕ
  | agent t => countOf reqs t
  | rig r => rigCountOf limits reqs r
  | workspace => reqs.length

/-- The gauges that a request for the template moves. -/
def gauges (template : String) : List Gauge :=
  [.agent template, .rig (limits.rigOf template), .workspace]

def WithinCaps : Prop :=
  ∀ g : Gauge, 0 ≤ g.cap limits → (g.count limits reqs : ℤ) ≤ g.cap limits

def sessionIDs : List String :=
  (reqs.map (·.sessionBeadID)).filter (· ≠ "")

end Requests

section Lemmas

variable {limits : Limits} {reqs more : List SessionRequest} {req : SessionRequest} {t : String}

theorem reached_eq_false {cap : ℤ} {count : ℕ} :
    reached cap count = false ↔ (0 ≤ cap → (count : ℤ) < cap) := by
  simp [reached]

theorem full_iff : full limits reqs t = true ↔
    ∃ g ∈ gauges limits t, reached (g.cap limits) (g.count limits reqs) = true := by
  simp [full, gauges, Gauge.cap, Gauge.count, or_assoc]

theorem Gauge.count_append (g : Gauge) :
    g.count limits (reqs ++ more) = g.count limits reqs + g.count limits more := by
  cases g <;> simp [count, countOf, rigCountOf]

theorem Gauge.count_singleton (g : Gauge) :
    g.count limits [req] = if g ∈ gauges limits req.template then 1 else 0 := by
  cases g with
  | agent t => simp [count, countOf, gauges, countP_singleton, eq_comm (a := t)]
  | rig r => simp [count, rigCountOf, gauges, countP_singleton, eq_comm (a := r)]
  | workspace => simp [count, gauges]

theorem full_append (h : full limits reqs t = true) : full limits (reqs ++ more) t = true := by
  rw [full_iff] at h ⊢
  obtain ⟨g, hg, hr⟩ := h
  refine ⟨g, hg, ?_⟩
  rw [g.count_append]
  simp only [reached, Bool.and_eq_true, decide_eq_true_eq] at hr ⊢
  omega

theorem WithinCaps.append_singleton (h : WithinCaps limits reqs)
    (hroom : full limits reqs req.template = false) : WithinCaps limits (reqs ++ [req]) := by
  intro g hg
  have hold := h g hg
  rw [g.count_append, g.count_singleton]
  split_ifs with hmem
  · have hless : reached (g.cap limits) (g.count limits reqs) = false := by
      rw [Bool.eq_false_iff] at hroom ⊢
      exact fun hr => hroom (full_iff.mpr ⟨g, hmem, hr⟩)
    have := reached_eq_false.mp hless hg
    push_cast
    omega
  · exact hold

theorem mem_sessionIDs {id : String} :
    id ∈ sessionIDs reqs ↔ id ≠ "" ∧ ∃ q ∈ reqs, q.sessionBeadID = id := by
  simp only [sessionIDs, mem_filter, mem_map, decide_eq_true_eq]
  exact And.comm

theorem sessionIDs_append : sessionIDs (reqs ++ more) = sessionIDs reqs ++ sessionIDs more := by
  rw [sessionIDs, map_append, filter_append]
  rfl

theorem sessionIDs_append_singleton : sessionIDs (reqs ++ [req]) =
      sessionIDs reqs ++ if req.sessionBeadID ≠ "" then [req.sessionBeadID] else [] := by
  rw [sessionIDs_append]
  congr 1
  by_cases h : req.sessionBeadID = "" <;> simp [sessionIDs, h]

end Lemmas

/-- The counters are those of the accepted requests, which are within the caps and name no
session twice. -/
structure Fair (limits : Limits) (u : Usage) : Prop where
  agentCount : ∀ t, u.agentCount t = countOf u.requests t
  rigCount : ∀ r, r ≠ "" → u.rigCount r = rigCountOf limits u.requests r
  workspaceCount : u.workspaceCount = u.requests.length
  seen : ∀ id, id ∈ u.seenSessionBead ↔ id ∈ sessionIDs u.requests
  within : WithinCaps limits u.requests
  nodup : (sessionIDs u.requests).Nodup

section Fair

variable {limits : Limits} {u : Usage} {req : SessionRequest}

theorem fair_empty : Fair limits empty where
  agentCount _ := rfl
  rigCount _ _ := rfl
  workspaceCount := rfl
  seen id := by simp [empty, sessionIDs]
  within := by
    rintro (_ | _ | _) h <;> exact h
  nodup := nodup_nil

theorem reached_rigCap_empty (count : ℕ) : reached (limits.rigCap "") count = false := by
  rw [reached_eq_false, Limits.rigCap, if_pos rfl]
  intro h
  omega

theorem Fair.rejection_eq (h : Fair limits u) :
    u.rejection limits req = full limits u.requests req.template := by
  have hrig : reached (limits.rigCap (limits.rigOf req.template))
      (u.rigCount (limits.rigOf req.template)) =
      reached (limits.rigCap (limits.rigOf req.template))
        (rigCountOf limits u.requests (limits.rigOf req.template)) := by
    by_cases hr : limits.rigOf req.template = ""
    · rw [hr, reached_rigCap_empty, reached_rigCap_empty]
    · rw [h.rigCount _ hr]
  rw [rejection, full, h.agentCount, hrig, h.workspaceCount]

theorem Fair.isDuplicate_iff (h : Fair limits u) :
    u.isDuplicateSessionRequest req = true ↔ req.sessionBeadID ∈ sessionIDs u.requests := by
  simp only [isDuplicateSessionRequest, Bool.and_eq_true, decide_eq_true_eq, h.seen]
  constructor
  · exact And.right
  · intro hmem
    exact ⟨(mem_sessionIDs.mp hmem).1, hmem⟩

theorem Fair.accept (h : Fair limits u) (hdup : req.sessionBeadID ∉ sessionIDs u.requests)
    (hroom : full limits u.requests req.template = false) : Fair limits (u.accept limits req) where
  agentCount t := by
    change (if t = req.template then u.agentCount t + 1 else u.agentCount t) =
      countOf (u.requests ++ [req]) t
    rw [countOf, countP_append, countP_singleton, h.agentCount]
    simp only [beq_iff_eq, eq_comm (a := t)]
    split_ifs <;> rfl
  rigCount r hr := by
    change (if r = limits.rigOf req.template ∧ r ≠ "" then u.rigCount r + 1 else u.rigCount r) =
      rigCountOf limits (u.requests ++ [req]) r
    rw [rigCountOf, countP_append, countP_singleton, h.rigCount r hr]
    simp only [ne_eq, hr, not_false_eq_true, and_true, beq_iff_eq]
    simp only [eq_comm]
    split_ifs <;> rfl
  workspaceCount := by
    change u.workspaceCount + 1 = (u.requests ++ [req]).length
    rw [h.workspaceCount, length_append]
    rfl
  seen id := by
    change id ∈ (if req.sessionBeadID ≠ "" then insert req.sessionBeadID u.seenSessionBead
      else u.seenSessionBead) ↔ id ∈ sessionIDs (u.requests ++ [req])
    rw [sessionIDs_append_singleton]
    split_ifs
    · rw [Finset.mem_insert, h.seen, mem_append, mem_singleton]
      exact Or.comm
    · rw [append_nil]
      exact h.seen id
  within := h.within.append_singleton hroom
  nodup := by
    change (sessionIDs (u.requests ++ [req])).Nodup
    rw [sessionIDs_append_singleton]
    split_ifs
    · exact List.Nodup.append h.nodup (nodup_singleton _)
        (disjoint_singleton.mpr hdup)
    · rw [append_nil]
      exact h.nodup

end Fair

section Walk

variable {limits : Limits} {u : Usage} {req : SessionRequest} {reqs more : List SessionRequest}

theorem walk_nil : u.walk limits [] = u := rfl

theorem walk_cons : u.walk limits (req :: reqs) =
    (if u.canAccept limits req then u.accept limits req else u).walk limits reqs := rfl

theorem walk_append : u.walk limits (reqs ++ more) = (u.walk limits reqs).walk limits more :=
  foldl_append

theorem Fair.canAccept_iff (h : Fair limits u) :
    u.canAccept limits req = true ↔ req.sessionBeadID ∉ sessionIDs u.requests ∧
      full limits u.requests req.template = false := by
  rw [canAccept, Bool.and_eq_true, Bool.not_eq_true', Bool.not_eq_true', h.rejection_eq,
    ← h.isDuplicate_iff, Bool.not_eq_true]

theorem Fair.step (h : Fair limits u) (req : SessionRequest) :
    Fair limits (if u.canAccept limits req then u.accept limits req else u) := by
  split_ifs with hacc
  · obtain ⟨hdup, hroom⟩ := h.canAccept_iff.mp hacc
    exact h.accept hdup hroom
  · exact h

theorem Fair.walk (h : Fair limits u) (reqs : List SessionRequest) :
    Fair limits (u.walk limits reqs) := by
  induction reqs generalizing u with
  | nil => exact h
  | cons req reqs ih => exact ih (h.step req)

theorem requests_walk (limits : Limits) (u : Usage) (reqs : List SessionRequest) :
    ∃ l, l.Sublist reqs ∧ (u.walk limits reqs).requests = u.requests ++ l := by
  induction reqs generalizing u with
  | nil => exact ⟨[], .slnil, (append_nil _).symm⟩
  | cons req reqs ih =>
    rw [walk_cons]
    split_ifs
    · obtain ⟨l, hl, heq⟩ := ih (u.accept limits req)
      refine ⟨req :: l, hl.cons_cons req, ?_⟩
      rw [heq]
      exact append_assoc u.requests [req] l
    · obtain ⟨l, hl, heq⟩ := ih u
      exact ⟨l, hl.cons req, heq⟩

/-- A request that is left out names a session that is accepted, or meets a full cap. -/
theorem Fair.walk_complete (h : Fair limits u) (hreq : req ∈ reqs) :
    req ∈ (u.walk limits reqs).requests ∨
      req.sessionBeadID ∈ sessionIDs (u.walk limits reqs).requests ∨
      full limits (u.walk limits reqs).requests req.template = true := by
  induction reqs generalizing u with
  | nil => cases hreq
  | cons first reqs ih =>
    rw [walk_cons]
    rcases mem_cons.mp hreq with rfl | hreq
    · obtain ⟨l, -, heq⟩ := requests_walk limits
        (if u.canAccept limits req then u.accept limits req else u) reqs
      rw [heq]
      by_cases hacc : u.canAccept limits req = true
      · left
        rw [if_pos hacc]
        exact mem_append_left _ (mem_append_right _ (mem_singleton.mpr rfl))
      · right
        rw [if_neg hacc, sessionIDs_append]
        rw [h.canAccept_iff, not_and_or, not_not, Bool.not_eq_false] at hacc
        rcases hacc with hdup | hfull
        · exact .inl (mem_append_left _ hdup)
        · exact .inr (full_append hfull)
    · exact ih (h.step first) hreq

/-- The caps leave room for a number of requests for a template. -/
def Roomy (limits : Limits) (reqs : List SessionRequest) (t : String) (n : ℕ) : Prop :=
  ∀ g ∈ gauges limits t, 0 ≤ g.cap limits → (g.count limits reqs + n : ℤ) ≤ g.cap limits

theorem Roomy.full_eq_false {t : String} {n : ℕ} (h : Roomy limits reqs t (n + 1)) :
    full limits reqs t = false := by
  rw [Bool.eq_false_iff, ne_eq, full_iff]
  rintro ⟨g, hg, hr⟩
  have := h g hg
  simp only [reached, Bool.and_eq_true, decide_eq_true_eq] at hr
  omega

theorem Roomy.append_singleton {n : ℕ} (h : Roomy limits reqs req.template (n + 1)) :
    Roomy limits (reqs ++ [req]) req.template n := by
  intro g hg hc
  have := h g hg hc
  rw [g.count_append, g.count_singleton, if_pos hg]
  push_cast at this ⊢
  omega

/-- Requests for which there is room, and that name new sessions, are all accepted. -/
theorem Fair.walk_eq_foldl {t : String} (h : Fair limits u) (ht : ∀ q ∈ reqs, q.template = t)
    (hroom : Roomy limits u.requests t reqs.length)
    (hids : (sessionIDs (u.requests ++ reqs)).Nodup) :
    u.walk limits reqs = reqs.foldl (fun u req => u.accept limits req) u := by
  induction reqs generalizing u with
  | nil => rfl
  | cons req reqs ih =>
    rw [forall_mem_cons] at ht
    obtain ⟨rfl, ht⟩ := ht
    rw [append_cons] at hids
    have hdup : req.sessionBeadID ∉ sessionIDs u.requests := by
      intro hmem
      have hne := (mem_sessionIDs.mp hmem).1
      rw [sessionIDs_append, nodup_append] at hids
      have hfirst := hids.1
      rw [sessionIDs_append_singleton, if_pos hne, nodup_append] at hfirst
      exact hfirst.2.2 _ hmem _ (mem_singleton.mpr rfl) rfl
    have hfull := hroom.full_eq_false
    have hacc := h.canAccept_iff.mpr ⟨hdup, hfull⟩
    rw [walk_cons, if_pos hacc, foldl_cons]
    exact ih (h.accept hdup hfull) ht hroom.append_singleton hids

theorem requests_foldl_accept (limits : Limits) (u : Usage) (reqs : List SessionRequest) :
    (reqs.foldl (fun u req => u.accept limits req) u).requests = u.requests ++ reqs := by
  induction reqs generalizing u with
  | nil => exact (append_nil _).symm
  | cons req reqs ih =>
    rw [foldl_cons, ih]
    exact append_assoc u.requests [req] reqs

end Walk

end GasCity.Pool
