import GasCity.FileStore.Basic

/-! # Failed mutations of the file store

What a mutating call that returns an error leaves behind, compared with what a
caller could observe before it: the file, every later read, and the local
strings, which are served from memory without a refresh.
-/

namespace GasCity.FileStore

open StringMap Keyed

open MemStore (Op Result)

/-- Everything a caller can observe through a handle, under any behaviour of the file system. -/
structure View where
  disk : Option StoreFile
  reads : Env → Except FileErr Core
  strings : String → String → Except Err String
  stringsAfterRead : Env → Except FileErr (String → String → Except Err String)

def observe (s : FileStore) (disk : Option StoreFile) : View where
  disk := disk
  reads env := (s.refreshReadStateLocked disk env).map fun s' => core s'.mem
  strings := s.mem.getLocalString
  stringsAfterRead env := (s.refreshReadStateLocked disk env).map fun s' => s'.mem.getLocalString

def reloads (s : FileStore) (disk : Option StoreFile) (env : Env) (op : Op) : Option FileData :=
  if (s.precheck op).isSome || env.lockFails || env.readFails then none
  else disk.bind StoreFile.contents

/-- The handle holds the beads of the file, and its whole state when it believes it is fresh. -/
def InSync (s : FileStore) (disk : Option StoreFile) (fd : FileData) : Prop :=
  (∀ id, (s.mem.find id).isSome ↔ (lookup Bead.id id fd.load).isSome) ∧
    (s.freshness.same (currentFreshness disk) → core s.mem = fileCore fd)

/-- The call deletes a bead that carries a local string, and its flush fails. -/
def LosesStrings (s : FileStore) (disk : Option StoreFile) (env : Env) (op : Op) : Prop :=
  env.lockFails = false ∧ env.readFails = false ∧ env.flushFails = true ∧
    ∃ id key, op = .delete id ∧ val (s.mem.localStrings.getD id ∅) key ≠ "" ∧
      match disk with
      | none => (s.mem.find id).isSome
      | some file => ∃ fd, file.contents = some fd ∧ (lookup Bead.id id fd.load).isSome

variable {s : FileStore} {disk : Option StoreFile} {env : Env} {op : Op}

theorem localStrings_call {m : MemStore} (hop : isMutation op) :
    (m.call op).1.localStrings = m.localStrings ∨
      ∃ id, op = .delete id ∧ (m.find id).isSome ∧
        (m.call op).1.localStrings = m.localStrings.erase id := by
  cases op with
  | delete id =>
    cases h : m.find id with
    | none => exact .inl (by simp [MemStore.call, MemStore.delete, MemStore.settle, h])
    | some b =>
      refine .inr ⟨id, rfl, by simp [h], ?_⟩
      simp [MemStore.call, MemStore.delete, MemStore.settle, h]
  | create | closeAll | depAdd | depRemove => exact .inl rfl
  | get | list | depList | getLocalString | setLocalString => cases hop
  | _ => exact .inl (MemStore.guarded_call rfl).localStrings

/-- The local strings a rolled-back call leaves, next to those it found. -/
structure StringsAfter (s : FileStore) (disk : Option StoreFile) (env : Env) (op : Op) (k : Core)
    (strings : Table String StringMap) : Prop where
  kept : ¬ s.LosesStrings disk env op → ∀ id key,
    val (strings.getD id ∅) key = val (s.mem.localStrings.getD id ∅) key
  lost : s.LosesStrings disk env op → ∃ id key, (lookup Bead.id id k.2.1).isSome ∧
    val (strings.getD id ∅) key ≠ val (s.mem.localStrings.getD id ∅) key

theorem stringsAfter_of_not_loses (k : Core) (h : ¬ s.LosesStrings disk env op) :
    StringsAfter s disk env op k s.mem.localStrings :=
  ⟨fun _ _ _ => rfl, fun hl => absurd hl h⟩

variable {e : FileErr} {k : Core}

theorem losesStrings_iff (hk : s.workingCore disk = some k) :
    s.LosesStrings disk env op ↔
      env.lockFails = false ∧ env.readFails = false ∧ env.flushFails = true ∧
        ∃ id key, op = .delete id ∧ val (s.mem.localStrings.getD id ∅) key ≠ "" ∧
          (lookup Bead.id id k.2.1).isSome := by
  unfold LosesStrings
  cases disk with
  | none =>
    cases hk
    rfl
  | some file =>
    obtain ⟨fd, hfd, rfl⟩ := Option.map_eq_some_iff.mp hk
    simp [hfd, fileCore]

theorem not_losesStrings_of_reload_error (h : s.reloadFromDisk disk env = .error e) :
    ¬ s.LosesStrings disk env op := by
  rintro ⟨-, hread, -, id, key, -, -, hdisk⟩
  rw [reloadFromDisk_eq, hread] at h
  cases disk with
  | none => cases h
  | some file =>
    obtain ⟨fd, hfd, -⟩ := hdisk
    simp [hfd] at h

theorem getD_erase (t : Table String StringMap) (id id' : String) :
    (t.erase id).getD id' ∅ = if id' = id then ∅ else t.getD id' ∅ := by
  unfold Table.getD
  rw [Table.get_erase]
  split <;> rfl

theorem call_delete_found {m : MemStore} {id : String} (h : (m.find id).isSome) :
    m.call (.delete id) =
      ({ m.remove id with localStrings := m.localStrings.erase id }, .done) := by
  obtain ⟨b, hb⟩ := Option.isSome_iff_exists.mp h
  simp [MemStore.call, MemStore.delete, MemStore.settle, hb]

theorem stringsAfter_call (hop : isMutation op) (hk : s.workingCore disk = some k)
    (hlock : env.lockFails = false) (hread : env.readFails = false)
    (hflush : env.flushFails = true) :
    StringsAfter s disk env op k
      ((s.replaced k s.mem.localStrings).mem.call op).1.localStrings := by
  have hsame : (s.replaced k s.mem.localStrings).mem.localStrings = s.mem.localStrings := rfl
  constructor
  · intro hl id key
    rw [losesStrings_iff hk] at hl
    rcases localStrings_call (m := (s.replaced k s.mem.localStrings).mem) hop with
      h | ⟨id', rfl, hfound, h⟩
    · rw [h, hsame]
    · rw [h, hsame, getD_erase]
      split
      · next heq =>
          subst heq
          by_contra hne
          exact hl ⟨hlock, hread, hflush, id, key, rfl, fun h0 => hne h0.symm, hfound⟩
      · rfl
  · intro hl
    obtain ⟨-, -, -, id, key, rfl, hne, hfound⟩ := (losesStrings_iff hk).mp hl
    refine ⟨id, key, hfound, ?_⟩
    rw [call_delete_found (m := (s.replaced k s.mem.localStrings).mem) hfound, hsame, getD_erase,
      if_pos rfl]
    exact fun h => hne h.symm

theorem mutate_failed_after_reload (hop : isMutation op) (hpre : s.precheck op = none)
    (hlock : env.lockFails = false) (hread : env.readFails = false)
    (hreload : s.reloadFromDisk disk env = .ok (s.replaced k s.mem.localStrings))
    (hk : s.workingCore disk = some k)
    (hfail : (s.mutate disk env op).result = .error e) :
    (s.mutate disk env op).disk = disk ∧ ∃ strings,
      (s.mutate disk env op).store = s.replaced k strings ∧
      StringsAfter s disk env op k strings := by
  simp only [mutate, hpre, hlock, hreload, Bool.false_eq_true, if_false] at hfail ⊢
  obtain ⟨hdisk, ⟨hcall, hstore⟩ | ⟨hflush, hstore⟩⟩ := delegate_failed hfail
  · refine ⟨hdisk, s.mem.localStrings, hstore, stringsAfter_of_not_loses k ?_⟩
    intro hl
    obtain ⟨-, -, -, id, key, rfl, -, hfound⟩ := (losesStrings_iff hk).mp hl
    rw [call_delete_found (m := (s.replaced k s.mem.localStrings).mem) hfound] at hcall
    cases hcall
  · exact ⟨hdisk, _, hstore, stringsAfter_call hop hk hlock hread hflush⟩

/-- A call that returns an error leaves the file alone, and memory as it was after the reload, up
to the local strings. -/
theorem mutate_failed (hop : isMutation op) (hfail : (s.mutate disk env op).result = .error e) :
    (s.mutate disk env op).disk = disk ∧ ∃ k strings,
      (s.mutate disk env op).store = s.replaced k strings ∧
      k = (s.reloads disk env op).elim (core s.mem) fileCore ∧
      StringsAfter s disk env op k strings := by
  have hsame : ∀ d, s.reloads disk env op = none → ¬ s.LosesStrings disk env op →
      s.mutate disk env op = ⟨s, disk, d⟩ →
      (s.mutate disk env op).disk = disk ∧ ∃ k strings,
        (s.mutate disk env op).store = s.replaced k strings ∧
        k = (s.reloads disk env op).elim (core s.mem) fileCore ∧
        StringsAfter s disk env op k strings := by
    intro d hr hl h
    refine ⟨by rw [h], core s.mem, s.mem.localStrings, by rw [h, replaced_self],
      by rw [hr]; rfl, ?_⟩
    exact stringsAfter_of_not_loses _ hl
  cases hpre : s.precheck op with
  | some err =>
    refine hsame (.error (.store err)) (by simp [reloads, hpre]) ?_ (by simp [mutate, hpre])
    rintro ⟨-, -, -, id, key, rfl, -⟩
    cases hpre
  | none =>
    cases hlock : env.lockFails with
    | true =>
      refine hsame (.error .locking) (by simp [reloads, hpre, hlock]) ?_
        (by simp [mutate, hpre, hlock])
      rintro ⟨h, -⟩
      simp [hlock] at h
    | false =>
      cases hreload : s.reloadFromDisk disk env with
      | error err =>
        refine hsame (.error err) ?_ (not_losesStrings_of_reload_error hreload)
          (by simp [mutate, hpre, hlock, hreload])
        rw [reloadFromDisk_eq] at hreload
        cases hread : env.readFails with
        | true => simp [reloads, hpre, hlock, hread]
        | false =>
          cases disk with
          | none => simp [hread] at hreload
          | some file =>
            cases hc : file.contents with
            | none => simp [reloads, hpre, hlock, hread, hc]
            | some fd => simp [hread, hc] at hreload
      | ok s₁ =>
        obtain ⟨hread, k, hk, rfl⟩ := reloadFromDisk_ok hreload
        have hcore : k = (s.reloads disk env op).elim (core s.mem) fileCore := by
          cases disk with
          | none => simpa [reloads] using (Option.some.inj hk).symm
          | some file =>
            obtain ⟨fd, hfd, rfl⟩ := Option.map_eq_some_iff.mp hk
            simp [reloads, hpre, hlock, hread, hfd]
        obtain ⟨hdisk, strings, hstore, hstrings⟩ :=
          mutate_failed_after_reload hop hpre hlock hread hreload hk hfail
        exact ⟨hdisk, k, strings, hstore, hcore, hstrings⟩

/-- What `GetLocalString` answers from a core and a table of local strings. -/
def stringsOf (k : Core) (strings : Table String StringMap) (id key : String) :
    Except Err String :=
  if (lookup Bead.id id k.2.1).isSome then .ok (val (strings.getD id ∅) key)
  else .error (.notFound "getting local string on" id)

def reloadCore (k : Core) (disk : Option StoreFile) (env : Env) : Except FileErr Core :=
  if env.readFails then .error .reloading
  else
    match disk with
    | none => .ok k
    | some file => file.contents.elim (.error .reloading) fun fd => .ok (fileCore fd)

def refreshCore (k : Core) (freshness : FileFreshness) (disk : Option StoreFile) (env : Env) :
    Except FileErr Core :=
  if env.statFails then reloadCore k disk env
  else if freshness.same (currentFreshness disk) then .ok k
  else if disk.isNone then .ok (0, [], [])
  else reloadCore k disk env

theorem getLocalString_replaced (k : Core) (strings : Table String StringMap) :
    (s.replaced k strings).mem.getLocalString = stringsOf k strings := by
  funext id key
  have hfind : (s.replaced k strings).mem.find id = lookup Bead.id id k.2.1 := rfl
  rw [MemStore.getLocalString, hfind, stringsOf]
  cases lookup Bead.id id k.2.1 <;> rfl

theorem reload_replaced (k : Core) (strings : Table String StringMap) (f : FileFreshness) :
    ((s.replaced k strings).reloadFromDisk disk env).map (fun s' => { s' with freshness := f }) =
      (reloadCore k disk env).map fun k' =>
        { s.replaced k' strings with freshness := f } := by
  rw [reloadFromDisk_eq]
  unfold reloadCore
  split
  · rfl
  · cases disk with
    | none => rfl
    | some file =>
      obtain ⟨contents, stat⟩ := file
      cases contents <;> rfl

theorem refresh_replaced (s : FileStore) (disk : Option StoreFile) (k : Core)
    (strings : Table String StringMap) (env : Env) :
    ((s.replaced k strings).refreshReadStateLocked disk env).map FileStore.mem =
      (refreshCore k s.freshness disk env).map fun k' => (s.replaced k' strings).mem := by
  have hfresh : (s.replaced k strings).freshness = s.freshness := rfl
  have hmap : ∀ f, (((s.replaced k strings).reloadFromDisk disk env).map
      fun s' => { s' with freshness := f }).map FileStore.mem =
        (reloadCore k disk env).map fun k' => (s.replaced k' strings).mem := by
    intro f
    rw [reload_replaced]
    cases reloadCore k disk env <;> rfl
  unfold refreshReadStateLocked refreshCore
  rw [hfresh]
  split
  · exact hmap {}
  · split
    · rfl
    · split
      · rfl
      · exact hmap (currentFreshness disk)

/-- The view through a handle depends on its core, its local strings and its freshness. -/
theorem observe_replaced (s : FileStore) (disk : Option StoreFile) (k : Core)
    (strings : Table String StringMap) :
    (s.replaced k strings).observe disk =
      { disk := disk
        reads := refreshCore k s.freshness disk
        strings := stringsOf k strings
        stringsAfterRead := fun env => (refreshCore k s.freshness disk env).map fun k' =>
          stringsOf k' strings } := by
  have hmap : ∀ {α : Type} (g : MemStore → α) (env : Env),
      ((s.replaced k strings).refreshReadStateLocked disk env).map (fun s' => g s'.mem) =
        (refreshCore k s.freshness disk env).map fun k' => g (s.replaced k' strings).mem := by
    intro α g env
    have h := congrArg (Except.map g) (refresh_replaced s disk k strings env)
    cases hl : (s.replaced k strings).refreshReadStateLocked disk env <;>
      cases hr : refreshCore k s.freshness disk env <;> simp_all [Except.map]
  unfold observe
  congr 1
  · funext env
    rw [hmap core env]
    cases refreshCore k s.freshness disk env <;> rfl
  · exact getLocalString_replaced k strings
  · funext env
    rw [hmap MemStore.getLocalString env]
    simp only [getLocalString_replaced]

theorem stringsOf_congr {k' : Core} {strings strings' : Table String StringMap}
    (hids : ∀ id, (lookup Bead.id id k.2.1).isSome ↔ (lookup Bead.id id k'.2.1).isSome)
    (hvals : ∀ id key,
      val (strings.getD id ∅) key = val (strings'.getD id ∅) key) :
    stringsOf k strings = stringsOf k' strings' := by
  funext id key
  unfold stringsOf
  simp only [hids id, hvals id key]

theorem stringsOf_isOk (k : Core) (strings : Table String StringMap) (id key : String) :
    (stringsOf k strings id key).isOk ↔ (lookup Bead.id id k.2.1).isSome := by
  unfold stringsOf
  split <;> simp_all [Except.isOk, Except.toBool]

theorem refreshCore_of_inSync {fd : FileData} (hreloads : s.reloads disk env op = some fd)
    (hsync : s.InSync disk fd) :
    refreshCore (fileCore fd) s.freshness disk = refreshCore (core s.mem) s.freshness disk := by
  obtain ⟨file, rfl, -⟩ := Option.bind_eq_some_iff.mp (Option.ite_none_left_eq_some.mp hreloads).2
  funext env
  unfold refreshCore
  split
  · rfl
  · split
    · next hfresh => rw [hsync.2 hfresh]
    · rfl

/-- A mutating call that returns an error is invisible exactly when the handle agreed with the file
it reloaded, if it did, and no local string was dropped by a delete whose flush failed. -/
theorem failed_mutation_invisible_iff (s : FileStore) (disk : Option StoreFile) (env : Env)
    (op : Op) (hop : isMutation op) (e : FileErr)
    (hfail : (s.mutate disk env op).result = .error e) :
    (s.mutate disk env op).store.observe (s.mutate disk env op).disk = s.observe disk ↔
      (∀ fd, s.reloads disk env op = some fd → s.InSync disk fd) ∧
        ¬ s.LosesStrings disk env op := by
  obtain ⟨hdisk, k, strings, hstore, hk, hstrings⟩ := mutate_failed hop hfail
  have hself := observe_replaced s disk (core s.mem) s.mem.localStrings
  rw [replaced_self] at hself
  rw [hdisk, hstore, observe_replaced, hself, View.mk.injEq]
  constructor
  · rintro ⟨-, hreads, hstr, -⟩
    have hids : ∀ id, (lookup Bead.id id k.2.1).isSome ↔ (s.mem.find id).isSome := by
      intro id
      have h := congrFun (congrFun hstr id) ""
      rw [← stringsOf_isOk k strings id "", h]
      exact stringsOf_isOk _ _ _ _
    refine ⟨fun fd hfd => ?_, fun hl => ?_⟩
    · rw [hfd] at hk
      subst hk
      refine ⟨fun id => (hids id).symm, fun hfresh => ?_⟩
      have h := congrFun hreads {}
      simpa [refreshCore, hfresh] using h.symm
    · obtain ⟨id, key, hid, hne⟩ := hstrings.lost hl
      have h := congrFun (congrFun hstr id) key
      have hid' : (lookup Bead.id id (core s.mem).2.1).isSome := (hids id).mp hid
      simp only [stringsOf, hid, hid', if_true, Except.ok.injEq] at h
      exact hne h
  · rintro ⟨hsync, hl⟩
    have hvals := hstrings.kept hl
    have hcores : refreshCore k s.freshness disk = refreshCore (core s.mem) s.freshness disk ∧
        ∀ id, (lookup Bead.id id k.2.1).isSome ↔
          (lookup Bead.id id (core s.mem).2.1).isSome := by
      cases hr : s.reloads disk env op with
      | none =>
        rw [hr] at hk
        subst hk
        exact ⟨rfl, fun _ => Iff.rfl⟩
      | some fd =>
        rw [hr] at hk
        subst hk
        exact ⟨refreshCore_of_inSync hr (hsync fd hr), fun id => ((hsync fd hr).1 id).symm⟩
    refine ⟨rfl, hcores.1, stringsOf_congr hcores.2 hvals, ?_⟩
    funext env'
    rw [hcores.1]
    congr 1
    funext k'
    exact stringsOf_congr (fun _ => Iff.rfl) hvals

def handleWithString : FileStore × Option StoreFile :=
  let opened : FileStore := { freshness := { known := true } }
  let created := opened.create none {} { title := "plan" } ⟨5⟩
  ({ created.store with
      mem := (created.store.mem.call (.setLocalString "gc-1" "draft" "v1")).1 }, created.disk)

theorem failed_mutation_invisible_iff_update : let s := handleWithString.1
    let disk := handleWithString.2
    let op := Op.update "gc-1" { title := some "done" } ⟨6⟩
    (s.mutate disk { flushFails := true } op).result = .error .saving ∧
      (s.mutate disk { flushFails := true } op).store.observe
        (s.mutate disk { flushFails := true } op).disk = s.observe disk := by
  intro s disk op
  have hfail : (s.mutate disk { flushFails := true } op).result = .error .saving := by rfl
  refine ⟨hfail, (failed_mutation_invisible_iff s disk _ op rfl _ hfail).mpr ⟨?_, ?_⟩⟩
  · intro fd hfd
    have hcore : core s.mem = fileCore fd := by
      cases hfd
      decide
    have hbeads : s.mem.beads = fd.load := congrArg (fun k => k.2.1) hcore
    exact ⟨fun id => by rw [MemStore.find, hbeads], fun _ => hcore⟩
  · rintro ⟨-, -, -, id, key, h, -⟩
    simp [op] at h

/-- A delete whose flush fails brings the bead back without its local string. -/
theorem failed_delete_drops_local_string : let s := handleWithString.1
    let disk := handleWithString.2
    let failed := s.delete disk { flushFails := true } "gc-1"
    failed.result = .error .saving ∧ s.mem.getLocalString "gc-1" "draft" = .ok "v1" ∧
      failed.store.mem.getLocalString "gc-1" "draft" = .ok "" ∧
      failed.store.observe failed.disk ≠ s.observe disk := by
  intro s disk failed
  have hstring : s.mem.getLocalString "gc-1" "draft" = .ok "v1" := by rfl
  have hdropped : failed.store.mem.getLocalString "gc-1" "draft" = .ok "" := by rfl
  refine ⟨by rfl, hstring, hdropped, fun h => ?_⟩
  have hstrings := congrFun (congrFun (congrArg View.strings h) "gc-1") "draft"
  exact absurd (hdropped.symm.trans (hstrings.trans hstring)) (by simp)

end GasCity.FileStore
