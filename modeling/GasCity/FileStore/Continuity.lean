import GasCity.FileStore.Basic
import GasCity.MemStore.Revision
import GasCity.Runs.Basic

/-! # Revisions across handles and legacy writers

Several handles share one file with a legacy writer, which rewrites the whole
file and drops the revisions, the fences and the seal.  The model follows the
revision of a bead as `FileStore.Get` reports it through any handle.
-/

namespace GasCity.FileStore

open List

open MemStore (Op Result WellFormed)

def storeOf (k : Core) : MemStore := { seq := k.1, beads := k.2.1, deps := k.2.2 }

def diskCore : Option StoreFile → Option Core
  | none => some (0, [], [])
  | some file => file.contents.map fileCore

variable {beads : List Bead} {m : MemStore} {new old : FileData} {put : Bead → Int → Bead}
  {s' : FileStore} {stat : FileStat} {token : Bead → Int}

theorem get_foldl_tokens {id : String} (beads : List Bead)
    (t : Table String Int) (h : ∀ b ∈ beads, b.id ≠ id) :
    (beads.foldl (fun t b => if token b ≠ 0 then t.set b.id (token b) else t) t).get id =
      t.get id := by
  induction beads generalizing t with
  | nil => rfl
  | cons b beads ih =>
    rw [foldl_cons, ih _ fun c hc => h c (mem_cons_of_mem _ hc)]
    have hne : id ≠ b.id := (h b mem_cons_self).symm
    split
    · exact t.get_set_of_ne _ hne
    · rfl

theorem get_extractTokens (hnodup : (beads.map Bead.id).Nodup) {b : Bead} (hb : b ∈ beads) :
    (extractTokens token beads).get b.id = if token b ≠ 0 then some (token b) else none := by
  obtain ⟨pre, post, rfl⟩ := append_of_mem hb
  rw [map_append, map_cons, nodup_middle, nodup_cons, ← map_append] at hnodup
  have hne : ∀ c ∈ pre ++ post, c.id ≠ b.id := fun c hc hid =>
    hnodup.1 (hid ▸ mem_map_of_mem hc)
  rw [extractTokens, foldl_append, foldl_cons,
    get_foldl_tokens post _ fun c hc => hne c (mem_append_right _ hc)]
  split
  · exact Table.get_set_self ..
  · exact get_foldl_tokens pre _ fun c hc => hne c (mem_append_left _ hc)

theorem stampTokens_extractTokens (hnodup : (beads.map Bead.id).Nodup) {g h : Bead → Bead}
    (hg : ∀ b, (g b).id = b.id) (hput : ∀ b, put (g b) (token b) = h b)
    (hzero : ∀ b, token b = 0 → g b = h b) :
    stampTokens put (beads.map g) (extractTokens token beads) = beads.map h := by
  unfold stampTokens
  rw [map_map]
  refine map_congr_left fun b hb => ?_
  rw [Function.comp_apply, hg, get_extractTokens hnodup hb]
  split
  · exact hput b
  · next hne => exact hzero b (not_not.mp hne)

theorem load_ofStore (hm : (m.beads.map Bead.id).Nodup) :
    (FileData.ofStore m).load = m.beads := by
  have hrev : applyBeadRevisions (m.beads.map Bead.visible) (beadRevisions m.beads) =
      m.beads.map fun b => { b with claimFence := 0 } := by
    refine stampTokens_extractTokens hm (fun _ => rfl) (fun _ => rfl) fun b hb => ?_
    cases b
    subst hb
    rfl
  have hfence : applyBeadFences (m.beads.map fun b => { b with claimFence := 0 })
      (beadFences m.beads) = m.beads.map id := by
    refine stampTokens_extractTokens hm (fun _ => rfl) (fun _ => rfl) fun b hb => ?_
    cases b
    subst hb
    rfl
  have hsealed : applyBeadRevisionsSealed (FileData.ofStore m) =
      applyBeadRevisions (m.beads.map Bead.visible) (beadRevisions m.beads) := rfl
  rw [FileData.load, hsealed, hrev]
  exact hfence.trans (map_id _)

theorem le_raiseSeed (seed : Int) (t : Time) : seed ≤ raiseSeed seed t := by
  unfold raiseSeed
  split
  · next h => exact h.2.le
  · exact le_rfl

theorem le_foldl_raiseSeed (beads : List Bead) (seed : Int) : seed ≤
    beads.foldl (fun seed b => raiseSeed (raiseSeed seed b.updatedAt) b.createdAt) seed := by
  induction beads generalizing seed with
  | nil => exact le_rfl
  | cons b beads ih =>
    exact ((le_raiseSeed seed b.updatedAt).trans (le_raiseSeed _ b.createdAt)).trans (ih _)

theorem floor_le_revisionSeed (beads : List Bead) :
    revisionContinuityFloor ≤ revisionSeed beads :=
  le_foldl_raiseSeed beads _

/-- The seed reaches every timestamp that `int64` can hold. -/
theorem sinceEpoch_le_raiseSeed {seed : Int} {t : Time}
    (hseed : revisionContinuityFloor ≤ seed) (ht : t.sinceEpoch < 2 ^ 63) :
    t.sinceEpoch ≤ raiseSeed seed t := by
  rcases le_or_gt t.sinceEpoch seed with hle | hlt
  · exact hle.trans (le_raiseSeed seed t)
  · have hpos : (0 : Int) < t.sinceEpoch := lt_of_lt_of_le (by decide) (hseed.trans hlt.le)
    have hnano : t.unixNano = t.sinceEpoch := Int.bmod_eq_of_le (by omega) (by omega)
    have hzero : t.isZero = false := by
      simp only [Time.isZero, Time.sinceEpoch, beq_eq_false_iff_ne] at hpos ⊢
      omega
    rw [raiseSeed, hnano, hzero, if_pos ⟨rfl, hlt⟩]

/-- The timestamps of a file, and the floor of the seed. -/
def stamps (beads : List Bead) : List Int :=
  revisionContinuityFloor ::
    beads.flatMap fun b => [b.updatedAt.sinceEpoch, b.createdAt.sinceEpoch]

theorem stamp_le_revisionSeed {r : Int} (hr : r ∈ stamps beads) (hsmall : r < 2 ^ 63) :
    r ≤ revisionSeed beads := by
  rcases mem_cons.mp hr with rfl | hr
  · exact floor_le_revisionSeed beads
  · obtain ⟨b, hb, hrb⟩ := mem_flatMap.mp hr
    obtain ⟨pre, post, rfl⟩ := append_of_mem hb
    have hpre := floor_le_revisionSeed pre
    unfold revisionSeed at hpre ⊢
    rw [foldl_append, foldl_cons]
    refine le_trans ?_ (le_foldl_raiseSeed post _)
    simp only [mem_cons, not_mem_nil, or_false] at hrb
    rcases hrb with rfl | rfl
    · exact (sinceEpoch_le_raiseSeed hpre hsmall).trans (le_raiseSeed _ _)
    · exact sinceEpoch_le_raiseSeed (hpre.trans (le_raiseSeed _ _)) hsmall

/-- A whole-file rewrite by a legacy writer: the token maps and the seal are dropped, a surviving
bead is unchanged or stamped strictly later, and created beads take fresh ids. -/
def LegacyRewrite (old new : FileData) : Prop :=
  new.revisions = ∅ ∧ new.revisionsSealed = false ∧ new.fences = ∅ ∧ old.seq ≤ new.seq ∧
    (new.beads.map Bead.id).Nodup ∧ (∀ b ∈ new.beads, b.visible = b) ∧
    ∀ b ∈ new.beads,
      (∃ c ∈ old.beads, c.id = b.id ∧ (b = c.visible ∨ c.updatedAt < b.updatedAt)) ∨
        ∃ n ≤ new.seq, old.seq < n ∧ b.id = beadID n

instance (old new : FileData) : Decidable (LegacyRewrite old new) :=
  inferInstanceAs (Decidable (_ ∧ _))

/-- Some timestamp left in the rewritten file fits `int64` and reaches the revision of a surviving
bead, and exceeds that of a changed one. -/
def SeedAdvances (old new : FileData) : Prop :=
  ∀ b ∈ old.load, ∀ b' ∈ new.beads, b'.id = b.id →
    ∃ r ∈ stamps new.beads, r < 2 ^ 63 ∧ b.revision ≤ r ∧
      (b'.visible ≠ b.visible → b.revision < r)

instance (old new : FileData) : Decidable (SeedAdvances old new) :=
  inferInstanceAs (Decidable (∀ b ∈ old.load, ∀ b' ∈ new.beads, b'.id = b.id →
    ∃ r ∈ stamps new.beads, _ ∧ _ ∧ _))

theorem id_stampTokens (hput : ∀ b r, (put b r).id = b.id)
    (beads : List Bead) (tokens : Table String Int) :
    (stampTokens put beads tokens).map Bead.id = beads.map Bead.id := by
  unfold stampTokens
  rw [map_map]
  refine map_congr_left fun b _ => ?_
  cases h : tokens.get b.id <;> simp [h, hput]

theorem id_load (fd : FileData) : fd.load.map Bead.id = fd.beads.map Bead.id := by
  have hrev : (applyBeadRevisions fd.beads fd.revisions).map Bead.id = fd.beads.map Bead.id := by
    apply id_stampTokens
    exact fun _ _ => rfl
  have hsealed : (applyBeadRevisionsSealed fd).map Bead.id = fd.beads.map Bead.id := by
    unfold applyBeadRevisionsSealed
    split
    · exact hrev
    · rw [map_map, ← hrev]
      refine map_congr_left fun b _ => ?_
      rw [Function.comp_apply]
      split <;> rfl
  rw [FileData.load, ← hsealed]
  apply id_stampTokens
  exact fun _ _ => rfl

theorem load_legacy (h : LegacyRewrite old new) :
    new.load = new.beads.map fun b => { b with revision := revisionSeed new.beads } := by
  obtain ⟨hrev, hsealed, hfences, -, -, hvisible, -⟩ := h
  have hempty : ∀ put beads, stampTokens put beads ∅ = beads := by
    intro put beads
    exact map_id _
  have hpos : (0 : Int) < revisionSeed new.beads :=
    lt_of_lt_of_le (by decide) (floor_le_revisionSeed new.beads)
  unfold FileData.load applyBeadFences applyBeadRevisionsSealed applyBeadRevisions
  rw [hrev, hfences, hsealed, hempty, hempty]
  refine map_congr_left fun b hb => ?_
  have hzero : b.revision = 0 := by
    rw [← hvisible b hb]
    rfl
  rw [hzero, if_pos hpos]

/-- The counter never goes back, and a retired id stays away. -/
structure Continues (k k' : Core) : Prop where
  seq : k.1 ≤ k'.1
  retired : ∀ id, (storeOf k).Retired id → (storeOf k').find id = none

/-- The revisions never go back, and equal ones mean equal content. -/
def TokensKept (k k' : Core) : Prop :=
  ∀ id b b', (storeOf k).find id = some b → (storeOf k').find id = some b' →
    b.revision ≤ b'.revision ∧ (b.revision = b'.revision → b'.visible = b.visible)

theorem Continues.refl (k : Core) : Continues k k :=
  ⟨le_rfl, fun _ h => h.1⟩

theorem TokensKept.refl (k : Core) : TokensKept k k := by
  intro id b b' hb hb'
  cases hb.symm.trans hb'
  exact ⟨le_rfl, fun _ => rfl⟩

theorem Continues.retire {k k' : Core} (h : Continues k k') {id : String}
    (hid : ∀ n, (storeOf k).seq < n → id ≠ beadID n) (hnone : (storeOf k').find id = none) :
    (storeOf k').Retired id :=
  ⟨hnone, fun n hn => hid n (h.seq.trans_lt hn)⟩

theorem Continues.trans {k k' k'' : Core} (h : Continues k k') (h' : Continues k' k'') :
    Continues k k'' :=
  ⟨h.seq.trans h'.seq, fun id hid => h'.retired id (h.retire hid.2 (h.retired id hid))⟩

theorem TokensKept.trans {k k' k'' : Core} (hk : (storeOf k).WellFormed)
    (hcont : Continues k k') (hcont' : Continues k' k'') (h : TokensKept k k')
    (h' : TokensKept k' k'') : TokensKept k k'' := by
  intro id b b'' hb hb''
  cases hb' : (storeOf k').find id with
  | none =>
    have hid : ∀ n, (storeOf k).seq < n → id ≠ beadID n := by
      obtain rfl := MemStore.id_of_find hb
      exact hk.fresh b (MemStore.mem_of_find hb)
    exact nomatch (hcont'.retired id (hcont.retire hid hb')).symm.trans hb''
  | some b' =>
    obtain ⟨hle, heq⟩ := h id b b' hb hb'
    obtain ⟨hle', heq'⟩ := h' id b' b'' hb' hb''
    refine ⟨hle.trans hle', fun hrev => ?_⟩
    rw [heq' (by omega), heq (by omega)]

theorem continues_call (op : Op) : Continues (core m) (core (m.call op).1) :=
  ⟨MemStore.seq_le_call op, fun _ hid => (MemStore.Retired.call (m := m) hid op).1⟩

theorem tokensKept_call (hm : m.WellFormed) (op : Op) :
    TokensKept (core m) (core (m.call op).1) := by
  intro id b b' hb hb'
  obtain ⟨hwrite, hkeep⟩ :=
    MemStore.call_token hm hb (show (m.call op).1.find id = some b' from hb')
  by_cases hw : m.Writes id op
  · have := hwrite hw
    exact ⟨by omega, fun h => by omega⟩
  · rw [hkeep hw]
    exact ⟨le_rfl, fun _ => rfl⟩

theorem find_legacy (h : LegacyRewrite old new) (id : String) :
    (storeOf (fileCore new)).find id = (Keyed.lookup Bead.id id new.beads).map fun b =>
      { b with revision := revisionSeed new.beads } := by
  show Keyed.lookup Bead.id id new.load = _
  rw [load_legacy h]
  apply Keyed.lookup_map
  exact fun _ => rfl

theorem tokensKept_legacy (h : LegacyRewrite old new) (hseed : SeedAdvances old new) :
    TokensKept (fileCore old) (fileCore new) := by
  intro id b b' hb hb'
  rw [find_legacy h] at hb'
  obtain ⟨c, hc, rfl⟩ := Option.map_eq_some_iff.mp hb'
  have hid : c.id = b.id := (Keyed.key_of_lookup hc).trans (MemStore.id_of_find hb).symm
  obtain ⟨r, hr, hsmall, hle, hlt⟩ :=
    hseed b (MemStore.mem_of_find hb) c (Keyed.mem_of_lookup hc) hid
  have hreached := stamp_le_revisionSeed hr hsmall
  refine ⟨hle.trans hreached, fun heq => ?_⟩
  by_contra hne
  have := hlt hne
  simp only at heq
  omega

theorem continues_legacy (h : LegacyRewrite old new) :
    Continues (fileCore old) (fileCore new) := by
  have hfind := find_legacy h
  obtain ⟨-, -, -, hseq, -, -, hbeads⟩ := h
  refine ⟨hseq, fun id hid => ?_⟩
  rw [hfind, Option.map_eq_none_iff, Keyed.lookup_eq_none]
  rintro b hb rfl
  rcases hbeads b hb with ⟨c, hc, hcid, -⟩ | ⟨n, -, hn, hid'⟩
  · have hnone := MemStore.find_eq_none.mp hid.1
    have : c.id ∈ old.load.map Bead.id := by
      rw [id_load]
      exact mem_map_of_mem hc
    exact hnone (hcid ▸ this)
  · exact hid.2 n hn hid'

structure FileWorld where
  disk : Option StoreFile
  handles : Table Nat FileStore
  deriving DecidableEq

/-- The steps of the handles and of the legacy writer. -/
inductive FileLabel where
  | openStore (h : Nat) (env : Env)
  | write (h : Nat) (env : Env) (op : Op)
  | read (h : Nat) (env : Env)
  | legacy (new : FileData) (stat : FileStat)

/-- The contents a legacy writer starts from; a missing file reads as an empty one. -/
def oldContents : Option StoreFile → Option FileData
  | none => some {}
  | some file => file.contents

def fileStep (w : FileWorld) : FileLabel → Option FileWorld
  | .openStore h env =>
    match openFileStore w.disk env with
    | .ok s => some { w with handles := w.handles.set h s }
    | .error _ => some w
  | .write h env op =>
    if isMutation op then
      (w.handles.get h).map fun s =>
        { disk := (s.mutate w.disk env op).disk
          handles := w.handles.set h (s.mutate w.disk env op).store }
    else none
  | .read h env =>
    (w.handles.get h).map fun s =>
      match s.refreshReadStateLocked w.disk env with
      | .ok s' => { w with handles := w.handles.set h s' }
      | .error _ => w
  | .legacy new stat =>
    (oldContents w.disk).bind fun old =>
      if LegacyRewrite old new then some { w with disk := some ⟨some new, stat⟩ } else none

/-- No handle but `h` remembers the stamp a file is about to get. -/
def FreshStamp (w : FileWorld) (h : Option Nat) (stat : FileStat) : Prop :=
  ∀ h' s, w.handles.get h' = some s → some h' ≠ h →
    s.freshness.same (currentFreshness (some ⟨none, stat⟩)) = false

instance (w : FileWorld) (h : Option Nat) (stat : FileStat) : Decidable (FreshStamp w h stat) :=
  inferInstanceAs (Decidable (∀ h' s, _ = some s → some h' ≠ h → _))

/-- Every new file gets a stamp no other handle remembers. -/
def Stamped (w : FileWorld) : FileLabel → Prop
  | .write h env _ => FreshStamp w (some h) env.stamp
  | .legacy _ stat => FreshStamp w none stat
  | _ => True

/-- A write counts up no revision that is the last of `int64`, and a legacy rewrite leaves
timestamps that reach the revisions already issued. -/
def Timely (w : FileWorld) : FileLabel → Prop
  | .write .. => ∀ k ∈ diskCore w.disk, ∀ b ∈ k.2.1, b.revision < 2 ^ 63 - 1
  | .legacy new _ => ∀ old ∈ oldContents w.disk, SeedAdvances old new
  | _ => True

instance (w : FileWorld) : DecidablePred (Stamped w)
  | .openStore .. | .read .. => inferInstanceAs (Decidable True)
  | .write .. | .legacy .. => inferInstanceAs (Decidable (FreshStamp ..))

instance (w : FileWorld) : DecidablePred (Timely w)
  | .openStore .. | .read .. => inferInstanceAs (Decidable True)
  | .write .. => inferInstanceAs (Decidable (∀ k ∈ diskCore w.disk, ∀ b ∈ k.2.1, _))
  | .legacy new _ => inferInstanceAs (Decidable (∀ old ∈ oldContents w.disk, SeedAdvances old new))

def StampedStep (w : FileWorld) (l : FileLabel) (w' : FileWorld) : Prop :=
  StepOf fileStep w l w' ∧ Stamped w l

def OrderlyStep (w : FileWorld) (l : FileLabel) (w' : FileWorld) : Prop :=
  StepOf fileStep w l w' ∧ Stamped w l ∧ Timely w l

def ValidDisk (disk : Option StoreFile) : Prop :=
  ∃ k, diskCore disk = some k ∧ (storeOf k).WellFormed

/-- A handle that would answer from memory holds what the file holds. -/
def Synced (s : FileStore) (disk : Option StoreFile) : Prop :=
  s.freshness.same (currentFreshness disk) ∨ disk = none → diskCore disk = some (core s.mem)

structure FileInv (w : FileWorld) (k : Core) : Prop where
  core : diskCore w.disk = some k
  wellFormed : (storeOf k).WellFormed
  synced : ∀ h s, w.handles.get h = some s → Synced s w.disk

variable {s : FileStore} {disk : Option StoreFile} {env : Env} {op : Op}

theorem workingCore_of_synced (hs : Synced s disk) : s.workingCore disk = diskCore disk := by
  cases disk with
  | none => exact (hs (.inr rfl)).symm
  | some file => rfl

/-- A call that is not followed by a flush changed nothing that a file holds. -/
theorem core_call_of_not_flushes (h : flushes (m.call op).2 = false) :
    core (m.call op).1 = core m := by
  have hsettle : ∀ r : Except Err MemStore, flushes (m.settle r).2 = true := by
    rintro (e | m') <;> rfl
  cases op with
  | closeAll ids metadata now =>
    have hnone : ∀ b ∈ m.beads, ¬ (b.id ∈ ids ∧ b.status ≠ "closed") := by
      simpa [MemStore.call, MemStore.closeAll, flushes, countP_eq_zero] using h
    have hmap : m.beads.map (MemStore.closeAllBead ids metadata now) = m.beads := by
      refine (map_congr_left fun b hb => ?_).trans (map_id _)
      have hb' : b.id ∉ ids ∨ b.status = "closed" := by
        have := hnone b hb
        tauto
      exact if_pos hb'
    simp [MemStore.call, MemStore.closeAll, core, hmap]
  | releaseIfCurrent id assignee now =>
    simp only [MemStore.call, MemStore.releaseIfCurrent] at h ⊢
    split
    · rfl
    · next hb =>
        rw [hb] at h
        split
        · rfl
        · next hne => simp [hne, flushes] at h
  | compareAndSetMetadataKey id key expected next now =>
    simp only [MemStore.call] at h ⊢
    cases hc : m.compareAndSetMetadataKey id key expected next now with
    | error e => simp [hc, flushes] at h
    | ok r =>
      obtain ⟨m', swapped⟩ := r
      simp only [hc, flushes] at h
      subst h
      unfold MemStore.compareAndSetMetadataKey at hc
      split at hc
      · cases hc
      · split at hc
        · cases hc
        · split at hc
          · obtain ⟨rfl, -⟩ := Prod.mk.inj (Except.ok.inj hc)
            rfl
          · cases (Prod.mk.inj (Except.ok.inj hc)).2
  | get | list | getLocalString => exact congrArg core (MemStore.answer_fst ..)
  | create | depAdd | depRemove | depList => cases h
  | _ => exact absurd h (by simp [MemStore.call, hsettle])

/-- A delegated call that succeeds changes nothing a file holds, or is saved. -/
theorem delegate_ok {r : Result} (h : (s.delegate disk env op).result = .ok r) :
    ((s.delegate disk env op).disk = disk ∧
      core (s.delegate disk env op).store.mem = core s.mem) ∨
    ∃ m, core m = core s.mem ∧
      (s.delegate disk env op).disk = some ⟨some (.ofStore (m.call op).1), env.stamp⟩ ∧
      (s.delegate disk env op).store.mem = (m.call op).1 := by
  have hcore : flushes (s.mem.call op).2 = false → core (s.mem.call op).1 = core s.mem :=
    core_call_of_not_flushes
  unfold delegate at h ⊢
  cases hcall : s.mem.call op with
  | mk m r' =>
    rw [hcall] at h hcore
    cases r' with
    | failed err => cases h
    | _ =>
      simp only at h ⊢
      split at h
      · next hflush =>
          refine .inr ⟨s.mem, rfl, ?_⟩
          cases hf : env.flushFails with
          | false => simp [hflush, save, hf, hcall]
          | true => simp [save, hf] at h
      · next hflush =>
          refine .inl ?_
          rw [if_neg hflush]
          exact ⟨rfl, hcore (by simpa using hflush)⟩

theorem mutate_cases (env : Env) (op : Op) (hs : Synced s disk) {k : Core}
    (hk : diskCore disk = some k) :
    ((s.mutate disk env op).disk = disk ∧
      ((s.mutate disk env op).store = s ∨ core (s.mutate disk env op).store.mem = k)) ∨
    ∃ m, core m = k ∧
      (s.mutate disk env op).disk = some ⟨some (.ofStore (m.call op).1), env.stamp⟩ ∧
      (s.mutate disk env op).store.mem = (m.call op).1 := by
  unfold mutate
  split
  · exact .inl ⟨rfl, .inl rfl⟩
  · split
    · exact .inl ⟨rfl, .inl rfl⟩
    · cases hreload : s.reloadFromDisk disk env with
      | error e => exact .inl ⟨rfl, .inl rfl⟩
      | ok s₁ =>
        obtain ⟨-, k', hk', rfl⟩ := reloadFromDisk_ok hreload
        obtain rfl : k = k' :=
          Option.some.inj (hk.symm.trans ((workingCore_of_synced hs).symm.trans hk'))
        cases hr : ((s.replaced k s.mem.localStrings).delegate disk env op).result with
        | error e =>
          obtain ⟨hdisk, ⟨-, hstore⟩ | ⟨-, hstore⟩⟩ := delegate_failed hr
          · exact .inl ⟨hdisk, .inr (by simp only [hstore]; rfl)⟩
          · exact .inl ⟨hdisk, .inr (by simp only [hstore]; rfl)⟩
        | ok r =>
          rcases delegate_ok hr with ⟨hdisk, hcore⟩ | hsaved
          · exact .inl ⟨hdisk, .inr hcore⟩
          · exact .inr hsaved

theorem refresh_synced (hs : Synced s disk)
    (h : s.refreshReadStateLocked disk env = .ok s') : diskCore disk = some (core s'.mem) := by
  have hreload : ∀ f : FileFreshness,
      (s.reloadFromDisk disk env).map (fun s' => { s' with freshness := f }) = .ok s' →
      diskCore disk = some (core s'.mem) := by
    intro f hf
    cases hr : s.reloadFromDisk disk env with
    | error e => simp [hr, Except.map] at hf
    | ok s₁ =>
      obtain ⟨-, k', hk', rfl⟩ := reloadFromDisk_ok hr
      rw [hr] at hf
      cases hf
      exact (workingCore_of_synced hs).symm.trans hk'
  unfold refreshReadStateLocked at h
  split at h
  · exact hreload _ h
  · split at h
    · next hfresh =>
        cases h
        exact hs (.inl hfresh)
    · split at h
      · next hnone =>
          cases h
          obtain rfl := Option.isNone_iff_eq_none.mp hnone
          rfl
      · exact hreload _ h

theorem find_of_get {id : String} {b : Bead} {k : Core} (hs : Synced s disk)
    (hk : diskCore disk = some k) (h : s.get disk env id = .ok b) :
    (storeOf k).find id = some b := by
  unfold get at h
  split at h
  · cases h
  · next s' hrefresh =>
      cases hk.symm.trans (refresh_synced hs hrefresh)
      cases hget : s'.mem.get id with
      | error e => simp [hget, Except.mapError] at h
      | ok b' =>
        rw [hget] at h
        cases h
        exact MemStore.get_eq_ok.mp hget

theorem wellFormed_of_core {k : Core} (h : core m = k)
    (hk : (storeOf k).WellFormed) : m.WellFormed := by
  subst h
  exact ⟨hk.nodup, hk.fresh⟩

theorem wellFormed_legacy (h : LegacyRewrite old new)
    (hold : (storeOf (fileCore old)).WellFormed) : (storeOf (fileCore new)).WellFormed := by
  obtain ⟨-, -, -, hseq, hnodup, -, hbeads⟩ := h
  refine ⟨id_load new ▸ hnodup, fun b hb n hn hid => ?_⟩
  have hmem : b.id ∈ new.beads.map Bead.id := id_load new ▸ mem_map_of_mem hb
  obtain ⟨c, hc, hcb⟩ := mem_map.mp hmem
  rcases hbeads c hc with ⟨d, hd, hdc, -⟩ | ⟨n', hn', -, hid'⟩
  · have hload : d.id ∈ old.load.map Bead.id := id_load old ▸ mem_map_of_mem hd
    obtain ⟨d', hd', hdd⟩ := mem_map.mp hload
    refine hold.fresh d' hd' n (hseq.trans_lt hn) ?_
    rw [hdd, hdc, hcb, hid]
  · have : n = n' := MemStore.beadID_injective (hid.symm.trans (hcb.symm.trans hid'))
    have hn'' : new.seq < n := hn
    omega

theorem diskCore_ofStore (hm : m.WellFormed) (stat : FileStat) :
    diskCore (some ⟨some (.ofStore m), stat⟩) = some (core m) := by
  show some (m.seq, (FileData.ofStore m).load, m.deps) = _
  rw [load_ofStore hm.nodup]
  rfl

theorem oldContents_core (h : oldContents disk = some old) :
    diskCore disk = some (fileCore old) := by
  cases disk with
  | none =>
    cases h
    rfl
  | some file =>
    show file.contents.map fileCore = _
    rw [show file.contents = some old from h]
    rfl

theorem synced_of_fresh {w : FileWorld} {h : Option Nat} {h' : Nat}
    (hfresh : FreshStamp w h stat) (hne : some h' ≠ h) (hs : w.handles.get h' = some s)
    (contents : Option FileData) : Synced s (some ⟨contents, stat⟩) := by
  rintro (hsame | hnone)
  · exact nomatch hsame.symm.trans (hfresh h' s hs hne)
  · cases hnone

theorem open_synced {s : FileStore} (h : openFileStore disk env = .ok s) : Synced s disk := by
  unfold openFileStore at h
  split at h
  · cases h
  · cases disk with
    | none =>
      cases h
      exact fun _ => rfl
    | some file =>
      obtain ⟨contents, stat⟩ := file
      cases contents with
      | none => cases h
      | some fd =>
        cases h
        exact fun _ => rfl

theorem synced_set {w : FileWorld} {h : Nat} {disk' : Option StoreFile} (hs' : Synced s' disk')
    (hother : ∀ h' s, h' ≠ h → w.handles.get h' = some s → Synced s disk') :
    ∀ h' s, (w.handles.set h s').get h' = some s → Synced s disk' := by
  intro h' s hget
  rw [Table.get_set] at hget
  split at hget
  · cases hget
    exact hs'
  · next hne => exact hother h' s hne hget

variable {w w' : FileWorld} {k : Core}

theorem write_step {h : Nat} (hw : FileInv w k) (hs : w.handles.get h = some s)
    (hfresh : FreshStamp w (some h) env.stamp) :
    ∃ k', FileInv ⟨(s.mutate w.disk env op).disk,
        w.handles.set h (s.mutate w.disk env op).store⟩ k' ∧
      Continues k k' ∧ TokensKept k k' := by
  have hsynced := hw.synced h s hs
  rcases mutate_cases env op hsynced hw.core with
    ⟨hdisk, hstore⟩ | ⟨m, hm, hdisk, hstore⟩
  · rw [hdisk]
    refine ⟨k, { hw with synced := synced_set ?_ fun h' s' _ => hw.synced h' s' }, .refl k, .refl k⟩
    rcases hstore with hstore | hcore
    · rw [hstore]
      exact hsynced
    · exact fun _ => by rw [hw.core, hcore]
  · have hm' : m.WellFormed := wellFormed_of_core hm hw.wellFormed
    have hcall : (m.call op).1.WellFormed := hm'.call op
    have hcore := diskCore_ofStore hcall env.stamp
    rw [hdisk]
    refine ⟨_, ⟨hcore, ⟨hcall.nodup, hcall.fresh⟩, synced_set ?_ ?_⟩, ?_⟩
    · exact fun _ => by rw [hcore, hstore]
    · exact fun h' s' hne hs' => synced_of_fresh hfresh (by simpa using hne) hs' _
    · rw [← hm]
      exact ⟨continues_call op, tokensKept_call hm' op⟩

theorem stamped_step {l : FileLabel} (hw : FileInv w k) (h : StampedStep w l w') :
    ∃ k', FileInv w' k' ∧ Continues k k' ∧ (Timely w l → TokensKept k k') := by
  obtain ⟨hstep, hstamped⟩ := h
  have hsame : Continues k k ∧ (Timely w l → TokensKept k k) := ⟨.refl k, fun _ => .refl k⟩
  cases l with
  | openStore h env =>
    simp only [StepOf, fileStep] at hstep
    split at hstep
    · next s hopen =>
        cases hstep
        refine ⟨k, { hw with synced := ?_ }, hsame⟩
        exact synced_set (open_synced hopen) fun h' s' _ => hw.synced h' s'
    · cases hstep
      exact ⟨k, hw, hsame⟩
  | write h env op =>
    simp only [StepOf, fileStep] at hstep
    split at hstep
    · obtain ⟨s, hs, rfl⟩ := Option.map_eq_some_iff.mp hstep
      obtain ⟨k', hw', hcont, htokens⟩ := write_step hw hs hstamped
      exact ⟨k', hw', hcont, fun _ => htokens⟩
    · cases hstep
  | read h env =>
    obtain ⟨s, hs, hw'⟩ := Option.map_eq_some_iff.mp hstep
    split at hw'
    · next s' hrefresh =>
        subst hw'
        refine ⟨k, { hw with synced := synced_set ?_ fun h' s' _ => hw.synced h' s' }, hsame⟩
        exact fun _ => refresh_synced (hw.synced h s hs) hrefresh
    · subst hw'
      exact ⟨k, hw, hsame⟩
  | legacy new stat =>
    obtain ⟨old, hold, hif⟩ := Option.bind_eq_some_iff.mp hstep
    split at hif
    · next hrewrite =>
        cases hif
        cases hw.core.symm.trans (oldContents_core hold)
        refine ⟨_, ⟨rfl, wellFormed_legacy hrewrite hw.wellFormed, fun h s hs => ?_⟩,
          continues_legacy hrewrite, fun htimely => tokensKept_legacy hrewrite (htimely old hold)⟩
        exact synced_of_fresh hstamped (by simp) hs _
    · cases hif

theorem stamped_run {ls : List FileLabel} (hw : FileInv w k) (hrun : Run StampedStep w ls w') :
    ∃ k', FileInv w' k' ∧ Continues k k' := by
  refine hrun.invariant (fun v => ∃ k', FileInv v k' ∧ Continues k k') ?_ ⟨k, hw, .refl k⟩
  rintro v l v' ⟨k', hv, hcont⟩ hstep
  obtain ⟨k'', hv', hcont', -⟩ := stamped_step hv hstep
  exact ⟨k'', hv', hcont.trans hcont'⟩

theorem orderly_run {ls : List FileLabel} (hw : FileInv w k) (hrun : Run OrderlyStep w ls w') :
    ∃ k', FileInv w' k' ∧ Continues k k' ∧ TokensKept k k' := by
  refine hrun.invariant (fun v => ∃ k', FileInv v k' ∧ Continues k k' ∧ TokensKept k k') ?_
    ⟨k, hw, .refl k, .refl k⟩
  rintro v l v' ⟨k', hv, hcont, htokens⟩ ⟨hstep, hstamped, htimely⟩
  obtain ⟨k'', hv', hcont', htokens'⟩ := stamped_step hv ⟨hstep, hstamped⟩
  exact ⟨k'', hv', hcont.trans hcont',
    htokens.trans hw.wellFormed hcont hcont' (htokens' htimely)⟩

/-- Through whichever handles a bead is read, a later `Get` never reports a smaller revision, and
the same one only for the same content. -/
theorem orderly_run_continues_tokens (start w w' : FileWorld) (hdisk : ValidDisk start.disk)
    (hhandles : start.handles = ∅) (before between : List FileLabel)
    (hbefore : Run OrderlyStep start before w) (hbetween : Run OrderlyStep w between w')
    (h h' : Nat) (s s' : FileStore) (hs : w.handles.get h = some s)
    (hs' : w'.handles.get h' = some s') (env env' : Env) (id : String) (b b' : Bead)
    (hb : s.get w.disk env id = .ok b) (hb' : s'.get w'.disk env' id = .ok b') :
    b.revision ≤ b'.revision ∧ (b.revision = b'.revision → b'.visible = b.visible) := by
  obtain ⟨k₀, hk₀, hwf⟩ := hdisk
  have hstart : FileInv start k₀ := ⟨hk₀, hwf, fun h s hs => by simp [hhandles] at hs⟩
  obtain ⟨k, hw, -⟩ := orderly_run hstart hbefore
  obtain ⟨k', hw', -, htokens⟩ := orderly_run hw hbetween
  exact htokens id b b' (find_of_get (hw.synced h s hs) hw.core hb)
    (find_of_get (hw'.synced h' s' hs') hw'.core hb')

/-- An instant `n` nanoseconds after three thousand seconds of the Unix epoch. -/
def instant (n : Int) : Time := ⟨(62135596800 + 3000) * 1000000000 + n⟩

def filedBead (id title : String) (updated : Time) : Bead :=
  { id, title, status := "open", type := "task", createdAt := instant 0, updatedAt := updated }

def createdWorld : FileWorld :=
  let opened : FileStore := { freshness := { known := true } }
  let created := opened.create none { stamp := ⟨1, ⟨1⟩⟩ } { title := "plan" } (instant 0)
  { disk := created.disk, handles := ((∅ : Table Nat FileStore).set 0 opened).set 0 created.store }

theorem orderly_run_continues_tokens_legacy : let w := createdWorld
    let new : FileData := { seq := 1, beads := [filedBead "gc-1" "done" (instant 1)] }
    let w' : FileWorld := { w with disk := some ⟨some new, ⟨2, ⟨2⟩⟩⟩ }
    ∃ s b b', w.handles.get 0 = some s ∧ s.get w.disk {} "gc-1" = .ok b ∧
      s.get w'.disk {} "gc-1" = .ok b' ∧ b.visible ≠ b'.visible ∧ b.revision ≤ b'.revision := by
  intro w new w'
  have hbefore : Run OrderlyStep ⟨none, ∅⟩
      [.openStore 0 {},
        .write 0 { stamp := ⟨1, ⟨1⟩⟩ } (.create { title := "plan" } (instant 0))] w :=
    run_of_exec_guarded (by decide +kernel)
  have hbetween : Run OrderlyStep w [.legacy new ⟨2, ⟨2⟩⟩] w' :=
    run_of_exec_guarded (by decide +kernel)
  refine ⟨_, _, _, rfl, rfl, rfl, by decide, ?_⟩
  exact (orderly_run_continues_tokens ⟨none, ∅⟩ w w' ⟨_, rfl, MemStore.wellFormed_new false⟩ rfl _ _
    hbefore hbetween 0 0 _ _ rfl rfl {} {} "gc-1" _ _ rfl rfl).1

/-- A bead is re-seeded from another bead's timestamp; once a legacy writer deletes that bead, the
next update reuses the old token for new content. -/
theorem legacy_delete_reissues_token : let seeded : List FileLabel :=
      [.openStore 0 {},
        .write 0 { stamp := ⟨1, ⟨1⟩⟩ } (.create { title := "plan" } (instant 0)),
        .write 0 { stamp := ⟨2, ⟨2⟩⟩ } (.create { title := "build" } (instant 0)),
        .legacy { seq := 2, beads := [filedBead "gc-1" "plan" (instant 0),
          filedBead "gc-2" "build" (instant 1)] } ⟨3, ⟨3⟩⟩]
    let deleted : FileLabel :=
      .legacy { seq := 2, beads := [filedBead "gc-1" "plan" (instant 0)] } ⟨4, ⟨4⟩⟩
    let updated : FileLabel :=
      .write 0 { stamp := ⟨5, ⟨5⟩⟩ } (.update "gc-1" { title := some "done" } (instant 2))
    let seen (ls : List FileLabel) : Option (Option (Int × String)) :=
      (exec fileStep ⟨none, ∅⟩ ls).map fun w => (w.handles.get 0).bind fun s =>
        (s.get w.disk {} "gc-1").toOption.map fun b => (b.revision, b.title)
    seen seeded = some (some (3000 * 1000000000 + 1, "plan")) ∧
      seen (seeded ++ [deleted]) = some (some (3000 * 1000000000, "plan")) ∧
      seen (seeded ++ [deleted, updated]) = some (some (3000 * 1000000000 + 1, "done")) := by
  decide

def Reached (w : FileWorld) : Prop :=
  ∃ start ls, ValidDisk start.disk ∧ start.handles = ∅ ∧ Run StampedStep start ls w

/-- Some handle refreshes and finds `r` under the id. -/
def Sees (w : FileWorld) (id : String) (r : Except Err Bead) : Prop :=
  ∃ h s env t, w.handles.get h = some s ∧ s.refreshReadStateLocked w.disk env = .ok t ∧
    t.mem.get id = r

section Reached

variable {w w' w'' : FileWorld} {k : Core} {id : String} {r r' : Except Err Bead}

theorem Reached.inv (h : Reached w) : ∃ k, FileInv w k := by
  obtain ⟨start, ls, ⟨k, hk, hwf⟩, hhandles, hrun⟩ := h
  obtain ⟨k', hw, -⟩ := stamped_run ⟨hk, hwf, fun h s hs => by simp [hhandles] at hs⟩ hrun
  exact ⟨k', hw⟩

theorem Sees.eq (h : Sees w id r) (hw : FileInv w k) : (storeOf k).get id = r := by
  obtain ⟨h, s, env, t, hs, ht, rfl⟩ := h
  cases hw.core.symm.trans (refresh_synced (hw.synced h s hs) ht)
  rfl

/-- In a reached state all handles that refresh find the same. -/
theorem handles_agree (hw : Reached w) (h : Sees w id r) (h' : Sees w id r') : r = r' := by
  obtain ⟨k, hinv⟩ := hw.inv
  rw [← h.eq hinv, h'.eq hinv]

def shared : List FileLabel :=
  [.openStore 0 {}, .openStore 1 {},
    .write 0 { stamp := ⟨1, ⟨1⟩⟩ } (.create { title := "plan" } (instant 0))]

def worldAfter (ls : List FileLabel) : FileWorld := (exec fileStep ⟨none, ∅⟩ ls).getD ⟨none, ∅⟩

theorem reached_shared : Reached (worldAfter shared) :=
  ⟨⟨none, ∅⟩, shared, ⟨_, rfl, MemStore.wellFormed_new false⟩, rfl,
    run_of_exec_guarded (by decide +kernel)⟩

theorem handles_agree_stale : ∃ b c, Sees (worldAfter shared) "gc-1" (.ok b) ∧
    Sees (worldAfter shared) "gc-1" (.ok c) ∧ b = c := by
  have h : Sees (worldAfter shared) "gc-1" (.ok _) := ⟨0, _, {}, _, rfl, rfl, rfl⟩
  have h' : Sees (worldAfter shared) "gc-1" (.ok _) := ⟨1, _, {}, _, rfl, rfl, rfl⟩
  exact ⟨_, _, h, h', Except.ok.inj (handles_agree reached_shared h h')⟩

/-- A bead that was found and later missed is never found again, through whichever handle and
whatever a legacy writer leaves. -/
theorem missed_stays_missed {b c : Bead} {e : Err} {ls ls' : List FileLabel} (hw : Reached w)
    (hrun : Run StampedStep w ls w') (hrun' : Run StampedStep w' ls' w'')
    (hb : Sees w id (.ok b)) (hmissed : Sees w' id (.error e)) : ¬ Sees w'' id (.ok c) := by
  intro hc
  obtain ⟨k, hinv⟩ := hw.inv
  obtain ⟨k', hinv', hcont⟩ := stamped_run hinv hrun
  obtain ⟨k'', hinv'', hcont'⟩ := stamped_run hinv' hrun'
  have hfind := MemStore.get_eq_ok.mp (hb.eq hinv)
  have hnone : (storeOf k').find id = none := by
    cases hget : (storeOf k').find id with
    | none => rfl
    | some c => cases (MemStore.get_eq_ok.mpr hget).symm.trans (hmissed.eq hinv')
  have hid : ∀ n, (storeOf k).seq < n → id ≠ beadID n := by
    obtain rfl := MemStore.id_of_find hfind
    exact hinv.wellFormed.fresh b (MemStore.mem_of_find hfind)
  cases (hcont'.retired id (hcont.retire hid hnone)).symm.trans
    (MemStore.get_eq_ok.mp (hc.eq hinv''))

def deletion : List FileLabel := [.write 0 { stamp := ⟨2, ⟨2⟩⟩ } (.delete "gc-1")]

/-- A new bead, and a rewrite by a legacy writer that touches it. -/
def rewriting : List FileLabel :=
  [.write 1 { stamp := ⟨3, ⟨3⟩⟩ } (.create { title := "build" } (instant 0)),
    .legacy { seq := 2, beads := [filedBead "gc-2" "built" (instant 1)] } ⟨4, ⟨4⟩⟩]

theorem missed_stays_missed_deleted : ∃ b e, Sees (worldAfter shared) "gc-1" (.ok b) ∧
    Sees (worldAfter (shared ++ deletion)) "gc-1" (.error e) ∧
      ∀ c, ¬ Sees (worldAfter (shared ++ deletion ++ rewriting)) "gc-1" (.ok c) := by
  have hrun : Run StampedStep (worldAfter shared) deletion
    (worldAfter (shared ++ deletion)) := run_of_exec_guarded (by decide +kernel)
  have hrun' : Run StampedStep (worldAfter (shared ++ deletion)) rewriting
    (worldAfter (shared ++ deletion ++ rewriting)) := run_of_exec_guarded (by decide +kernel)
  have hb : Sees (worldAfter shared) "gc-1" (.ok _) := ⟨0, _, {}, _, rfl, rfl, rfl⟩
  have hmissed : Sees (worldAfter (shared ++ deletion)) "gc-1" (.error _) :=
    ⟨1, _, {}, _, rfl, rfl, rfl⟩
  exact ⟨_, _, hb, hmissed, fun _ => missed_stays_missed reached_shared hrun hrun' hb hmissed⟩

end Reached

end GasCity.FileStore
