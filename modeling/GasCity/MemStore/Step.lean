import GasCity.MemStore.Basic

/-! # Operations of the in-memory store

Every call on a `MemStore` as one label, what it does to a single bead, and the
well-formedness that all calls preserve.  An id is never handed out twice, so
following one id through a run follows one bead.
-/

namespace GasCity.MemStore

open List

/-- The calls on a `MemStore`. -/
inductive Op where
  | create (b : Bead) (now : Time)
  | update (id : String) (opts : UpdateOpts) (now : Time)
  | close (id : String) (now : Time)
  | reopen (id : String) (now : Time)
  | closeAll (ids : List String) (metadata : StringMap) (now : String → Time)
  | setMetadata (id key value : String) (now : Time)
  | setMetadataBatch (id : String) (kvs : StringMap) (now : Time)
  | releaseIfCurrent (id expectedAssignee : String) (now : Time)
  | updateIfMatch (id : String) (expectedRevision : Int) (opts : UpdateOpts) (now : Time)
  | closeIfMatch (id : String) (expectedRevision : Int) (now : Time)
  | deleteIfMatch (id : String) (expectedRevision : Int)
  | compareAndSetMetadataKey (id key expected next : String) (now : Time)
  | delete (id : String)
  | depAdd (issueID dependsOnID depType : String)
  | depRemove (issueID dependsOnID : String)
  | setLocalString (id key value : String)
  | get (id : String)
  | list (q : ListQuery)
  | depList (id : String) (direction : Direction)
  | getLocalString (id key : String)

inductive Result where
  | done
  | created (b : Bead)
  | count (n : Nat)
  | flag (applied : Bool)
  | bead (b : Bead)
  | beads (bs : List Bead)
  | deps (ds : List Dep)
  | string (s : String)
  | failed (e : Err)
  deriving DecidableEq

def Result.isFailed : Result → Bool
  | .failed _ => true
  | _ => false

def settle (m : MemStore) : Except Err MemStore → MemStore × Result
  | .ok m' => (m', .done)
  | .error e => (m, .failed e)

def answer {α : Type} (m : MemStore) (f : α → Result) : Except Err α → MemStore × Result
  | .ok a => (m, f a)
  | .error e => (m, .failed e)

def call (m : MemStore) : Op → MemStore × Result
  | .create b now => ((m.create b now).1, .created (m.create b now).2)
  | .update id opts now => m.settle (m.update id opts now)
  | .close id now => m.settle (m.close id now)
  | .reopen id now => m.settle (m.reopen id now)
  | .closeAll ids metadata now =>
    ((m.closeAll ids metadata now).1, .count (m.closeAll ids metadata now).2)
  | .setMetadata id key value now => m.settle (m.setMetadata id key value now)
  | .setMetadataBatch id kvs now => m.settle (m.setMetadataBatch id kvs now)
  | .releaseIfCurrent id assignee now =>
    ((m.releaseIfCurrent id assignee now).1, .flag (m.releaseIfCurrent id assignee now).2)
  | .updateIfMatch id rev opts now => m.settle (m.updateIfMatch id rev opts now)
  | .closeIfMatch id rev now => m.settle (m.closeIfMatch id rev now)
  | .deleteIfMatch id rev => m.settle (m.deleteIfMatch id rev)
  | .compareAndSetMetadataKey id key expected next now =>
    match m.compareAndSetMetadataKey id key expected next now with
    | .ok (m', swapped) => (m', .flag swapped)
    | .error e => (m, .failed e)
  | .delete id => m.settle (m.delete id)
  | .depAdd issueID dependsOnID depType => (m.depAdd issueID dependsOnID depType, .done)
  | .depRemove issueID dependsOnID => (m.depRemove issueID dependsOnID, .done)
  | .setLocalString id key value => m.settle (m.setLocalString id key value)
  | .get id => m.answer .bead (m.get id)
  | .list q => m.answer .beads (m.list q)
  | .depList id direction => (m, .deps (m.depList id direction))
  | .getLocalString id key => m.answer .string (m.getLocalString id key)

inductive Effect where
  | keep
  | write (b : Bead)
  | remove
  deriving DecidableEq

def Effect.after (b : Bead) : Effect → Option Bead
  | .keep => some b
  | .write b' => some b'
  | .remove => none

/-- The effect `e` when the call is about this bead and `p` holds, nothing otherwise. -/
def Effect.on (id : String) (b : Bead) (p : Prop) [Decidable p] (e : Effect) : Effect :=
  if id = b.id ∧ p then e else .keep

/-- What a call does to the bead `b`; `off` is the store's `DisableConditionalWrites`. -/
def Op.effect (off : Bool) (b : Bead) : Op → Effect
  | .update id opts now => .on id b True (.write (applyUpdateLocked b opts now))
  | .close id now => .on id b (b.status ≠ "closed") (.write (closeBead b now))
  | .reopen id now => .on id b (b.status ≠ "open") (.write (reopenBead b now))
  | .closeAll ids metadata now =>
    if b.id ∉ ids ∨ b.status = "closed" then .keep else .write (closeAllBead ids metadata now b)
  | .setMetadata id key value now =>
    .on id b True (.write (setMetadataBead b ((∅ : StringMap).set key value) now))
  | .setMetadataBatch id kvs now =>
    .on id b (StringMap.isEmpty kvs = false) (.write (setMetadataBead b kvs now))
  | .releaseIfCurrent id assignee now =>
    .on id b (b.status = "in_progress" ∧ b.assignee = assignee) (.write (releaseBead b now))
  | .updateIfMatch id rev opts now =>
    .on id b (off = false ∧ isEmptyUpdateOpts opts = false ∧ b.revision = rev)
      (.write (applyUpdateLocked b opts now))
  | .closeIfMatch id rev now =>
    .on id b (off = false ∧ b.revision = rev ∧ b.status ≠ "closed") (.write (closeBead b now))
  | .deleteIfMatch id rev => .on id b (off = false ∧ b.revision = rev) .remove
  | .compareAndSetMetadataKey id key expected next now =>
    .on id b (off = false ∧ StringMap.val b.metadata key = expected)
      (.write (setMetadataBead b ((∅ : StringMap).set key next) now))
  | .delete id => .on id b True .remove
  | .create .. | .depAdd .. | .depRemove .. | .setLocalString .. | .get .. | .list ..
  | .depList .. | .getLocalString .. => .keep

/-- Bead ids are distinct, and no id the counter has yet to issue is in use. -/
structure WellFormed (m : MemStore) : Prop where
  nodup : (m.beads.map Bead.id).Nodup
  fresh : ∀ b ∈ m.beads, ∀ n, m.seq < n → b.id ≠ beadID n

theorem wellFormed_new (off : Bool) : WellFormed { disableConditionalWrites := off } :=
  ⟨nodup_nil, fun _ h => nomatch h⟩

theorem beadID_injective : Function.Injective beadID := by
  intro m n h
  have hdigits : Nat.toDigits 10 m = Nat.toDigits 10 n := by
    simpa [beadID, Nat.repr_eq_ofList_toDigits, String.ofList_inj] using h
  rw [← Nat.ofDigitChars_ten_toDigits (n := m), hdigits, Nat.ofDigitChars_ten_toDigits]

variable {m : MemStore} {id id' : String} {b b' : Bead} {f : Bead → Bead}

theorem id_of_find (h : m.find id = some b) : b.id = id := Keyed.key_of_lookup h

theorem mem_of_find (h : m.find id = some b) : b ∈ m.beads := Keyed.mem_of_lookup h

theorem find_modify (hf : ∀ b, (f b).id = b.id) (hb : m.find id = some b) (id' : String) :
    (m.modify id' f).find id = if id' = b.id then some (f b) else some b := by
  obtain rfl := id_of_find hb
  by_cases h : id' = b.id
  · subst h
    rw [if_pos rfl, find, modify, Keyed.lookup_modify_self hf]
    exact congrArg _ hb
  · rw [if_neg h, find, modify, Keyed.lookup_modify_of_ne hf (Ne.symm h)]
    exact hb

theorem find_remove_self (hm : m.WellFormed) : (m.remove id).find id = none :=
  Keyed.lookup_remove_self hm.nodup

theorem find_remove_of_ne (h : id ≠ id') : (m.remove id').find id = m.find id :=
  Keyed.lookup_remove_of_ne h _

/-- The store `m'` when a bead with the given id is there and satisfies `p`. -/
def provided (m : MemStore) (id : String) (p : Bead → Prop) [DecidablePred p] (m' : MemStore) :
    MemStore :=
  match m.find id with
  | some b => if p b then m' else m
  | none => m

section Provided

variable {m' : MemStore} {p : Bead → Prop} [DecidablePred p]

theorem provided_cases (m m' : MemStore) (id : String) (p : Bead → Prop) [DecidablePred p] :
    m.provided id p m' = m' ∨ m.provided id p m' = m := by
  unfold provided
  split
  · split
    · exact .inl rfl
    · exact .inr rfl
  · exact .inr rfl

theorem find_provided {e : Effect} (hb : m.find id = some b)
    (hself : id' = b.id → m'.find b.id = e.after b)
    (hother : id' ≠ b.id → m'.find b.id = some b) :
    (m.provided id' p m').find id = (Effect.on id' b (p b) e).after b := by
  obtain rfl := id_of_find hb
  by_cases h : id' = b.id
  · subst h
    by_cases hp : p b <;> simp [provided, hb, hp, Effect.on, Effect.after, hself]
  · cases h' : m.find id' with
    | none => simp [provided, h', h, Effect.on, Effect.after, hb]
    | some c =>
      by_cases hp : p c <;> simp [provided, h', hp, h, Effect.on, Effect.after, hb, hother]

end Provided

/-- A call other than `Create` adds no id and leaves the counter and the capability alone. -/
structure Frame (m m' : MemStore) : Prop where
  ids : (m'.beads.map Bead.id).Sublist (m.beads.map Bead.id)
  seq : m'.seq = m.seq
  capability : m'.disableConditionalWrites = m.disableConditionalWrites

theorem Frame.refl (m : MemStore) : Frame m m := ⟨Sublist.refl _, rfl, rfl⟩

/-- A mutator of an existing bead is a guarded change or a guarded removal. -/
inductive Guarded (m : MemStore) : (Bead → Effect) → MemStore → Prop
  | modify {m' : MemStore} (id : String) (p : Bead → Prop) [DecidablePred p] (f : Bead → Bead)
      (hf : ∀ b, (f b).id = b.id) (h : m' = m.provided id p (m.modify id f)) :
      Guarded m (fun b => .on id b (p b) (.write (f b))) m'
  | remove {m' : MemStore} (id : String) (p : Bead → Prop) [DecidablePred p]
      (h : m' = m.provided id p (m.remove id)) : Guarded m (fun b => .on id b (p b) .remove) m'

section Guarded

variable {m' : MemStore} {e : Bead → Effect}

theorem Guarded.find (h : Guarded m e m') (hm : m.WellFormed) (hb : m.find id = some b) :
    m'.find id = (e b).after b := by
  obtain rfl := id_of_find hb
  cases h with
  | modify id' p f hf h =>
    rw [h]
    apply find_provided hb
    · intro hid
      rw [find_modify hf hb, if_pos hid]
      rfl
    · intro hid
      rw [find_modify hf hb, if_neg hid]
  | remove id' p h =>
    rw [h]
    apply find_provided hb
    · rintro rfl
      exact find_remove_self hm
    · intro hid
      rw [find_remove_of_ne (Ne.symm hid), hb]

theorem Guarded.exists_beads (h : Guarded m e m') :
    ∃ beads, m' = { m with beads } ∧ (beads.map Bead.id).Sublist (m.beads.map Bead.id) := by
  cases h with
  | modify id p f hf h =>
    rw [h]
    rcases provided_cases m (m.modify id f) id p with h' | h'
    · exact ⟨_, h', by rw [Keyed.map_key_modify hf]⟩
    · exact ⟨_, h', .refl _⟩
  | remove id p h =>
    rw [h]
    rcases provided_cases m (m.remove id) id p with h' | h'
    · exact ⟨_, h', (Keyed.remove_sublist _).map _⟩
    · exact ⟨_, h', .refl _⟩

theorem Guarded.frame (h : Guarded m e m') : Frame m m' := by
  obtain ⟨beads, rfl, hids⟩ := h.exists_beads
  exact ⟨hids, rfl, rfl⟩

theorem Guarded.localStrings (h : Guarded m e m') : m'.localStrings = m.localStrings := by
  obtain ⟨beads, rfl, -⟩ := h.exists_beads
  rfl

end Guarded

def Op.guards : Op → Bool
  | .create .. | .closeAll .. | .delete .. | .depAdd .. | .depRemove .. | .setLocalString ..
  | .get .. | .list .. | .depList .. | .getLocalString .. => false
  | _ => true

theorem guarded_call {op : Op} (hop : op.guards = true) :
    Guarded m (op.effect m.disableConditionalWrites) (m.call op).1 := by
  cases op with
  | update id opts now =>
    refine .modify id _ _ (fun _ => rfl) ?_
    cases h : m.find id <;> simp [call, update, settle, provided, h]
  | close id now =>
    refine .modify id _ _ (fun _ => rfl) ?_
    cases h : m.find id with
    | none => simp [call, close, settle, provided, h]
    | some b => by_cases hs : b.status = "closed" <;> simp [call, close, settle, provided, h, hs]
  | reopen id now =>
    refine .modify id _ _ (fun _ => rfl) ?_
    cases h : m.find id with
    | none => simp [call, reopen, settle, provided, h]
    | some b => by_cases hs : b.status = "open" <;> simp [call, reopen, settle, provided, h, hs]
  | setMetadata id key value now =>
    refine .modify id _ _ (fun _ => rfl) ?_
    cases h : m.find id <;> simp [call, setMetadata, settle, provided, h]
  | setMetadataBatch id kvs now =>
    refine .modify id _ _ (fun _ => rfl) ?_
    cases hk : StringMap.isEmpty kvs <;> cases h : m.find id <;>
      simp [call, setMetadataBatch, settle, provided, h, hk]
  | releaseIfCurrent id assignee now =>
    refine .modify id _ _ (fun _ => rfl) ?_
    cases h : m.find id with
    | none => simp [call, releaseIfCurrent, provided, h]
    | some b =>
      by_cases hs : b.status = "in_progress" <;> by_cases ha : b.assignee = assignee <;>
        simp [call, releaseIfCurrent, provided, h, hs, ha]
  | updateIfMatch id rev opts now =>
    refine .modify id _ _ (fun _ => rfl) ?_
    cases ho : isEmptyUpdateOpts opts <;> cases hd : m.disableConditionalWrites <;>
      cases h : m.find id with
    | none => simp [call, updateIfMatch, settle, provided, h, ho, hd]
    | some b =>
      by_cases hr : b.revision = rev <;>
        simp [call, updateIfMatch, settle, provided, h, ho, hd, hr]
  | closeIfMatch id rev now =>
    refine .modify id _ _ (fun _ => rfl) ?_
    cases hd : m.disableConditionalWrites <;> cases h : m.find id with
    | none => simp [call, closeIfMatch, settle, provided, h, hd]
    | some b =>
      by_cases hr : b.revision = rev <;> by_cases hs : b.status = "closed" <;>
        simp [call, closeIfMatch, settle, provided, h, hd, hr, hs]
  | compareAndSetMetadataKey id key expected next now =>
    refine .modify id _ _ (fun _ => rfl) ?_
    cases hd : m.disableConditionalWrites <;> cases h : m.find id with
    | none => simp [call, compareAndSetMetadataKey, provided, h, hd]
    | some b =>
      by_cases hv : StringMap.val b.metadata key = expected <;>
        simp [call, compareAndSetMetadataKey, provided, h, hd, hv]
  | deleteIfMatch id rev =>
    refine .remove id _ ?_
    cases hd : m.disableConditionalWrites <;> cases h : m.find id with
    | none => simp [call, deleteIfMatch, settle, provided, h, hd]
    | some b =>
      by_cases hr : b.revision = rev <;>
        simp [call, deleteIfMatch, settle, provided, h, hd, hr]
  | _ => cases hop

section Shape

variable (m) (id)

theorem call_delete : ∃ m', Guarded m (.on id · True .remove) m' ∧
    (m.call (.delete id)).1 = { m' with
      localStrings := (m.call (.delete id)).1.localStrings } := by
  refine ⟨m.provided id (fun _ => True) (m.remove id), .remove id _ rfl, ?_⟩
  cases h : m.find id <;> simp [call, delete, settle, provided, h]

theorem call_setLocalString (key value : String) :
    (m.call (.setLocalString id key value)).1 = { m with
      localStrings := (m.call (.setLocalString id key value)).1.localStrings } := by
  cases h : m.find id with
  | none => simp [call, setLocalString, settle, h]
  | some b =>
    by_cases hv : value = "" <;> by_cases hl : (m.localStrings.get id).isSome <;>
      simp [call, setLocalString, settle, h, hv, hl]

theorem answer_fst {α : Type} (f : α → Result) (r : Except Err α) : (m.answer f r).1 = m := by
  cases r <;> rfl

end Shape

theorem call_of_failed (op : Op) (h : (m.call op).2.isFailed) : (m.call op).1 = m := by
  have hsettle : ∀ r : Except Err MemStore, (m.settle r).2.isFailed → (m.settle r).1 = m := by
    rintro (e | m') hr
    · rfl
    · cases hr
  cases op with
  | create | closeAll | releaseIfCurrent | depAdd | depRemove | depList => cases h
  | get id => exact answer_fst m _ _
  | list q => exact answer_fst m _ _
  | getLocalString id key => exact answer_fst m _ _
  | compareAndSetMetadataKey id key expected next now =>
    simp only [call] at h ⊢
    split at h
    · cases h
    · rfl
  | _ => exact hsettle _ h

@[simp]
theorem id_closeAllBead (ids : List String) (metadata : StringMap) (now : String → Time)
    (b : Bead) : (closeAllBead ids metadata now b).id = b.id := by
  unfold closeAllBead
  split <;> rfl

/-- The bead under an id after a call is what the call's effect leaves of it. -/
theorem find_call (hm : m.WellFormed) (hb : m.find id = some b) (op : Op) :
    (m.call op).1.find id = (op.effect m.disableConditionalWrites b).after b := by
  cases op with
  | create b' now => simp [call, create, find, Keyed.lookup_append, Op.effect, Effect.after,
      show Keyed.lookup Bead.id id m.beads = some b from hb]
  | closeAll ids metadata now =>
    have hmap : (m.call (.closeAll ids metadata now)).1.find id =
        some (closeAllBead ids metadata now b) :=
      (Keyed.lookup_map (id_closeAllBead ids metadata now) _).trans (congrArg _ hb)
    rw [hmap, Op.effect]
    by_cases h : b.id ∉ ids ∨ b.status = "closed" <;> simp [closeAllBead, h, Effect.after]
  | delete id' =>
    obtain ⟨m', hm', h⟩ := call_delete m id'
    rw [h]
    exact hm'.find hm hb
  | setLocalString id' key value => rw [call_setLocalString]; exact hb
  | get id' => rw [call, answer_fst]; exact hb
  | list q => rw [call, answer_fst]; exact hb
  | getLocalString id' key => rw [call, answer_fst]; exact hb
  | depAdd _ _ _ | depRemove _ _ | depList _ _ => exact hb
  | _ => exact (guarded_call rfl).find hm hb

theorem create_or_frame (op : Op) : (∃ b now, op = .create b now) ∨ Frame m (m.call op).1 := by
  cases op with
  | create b now => exact .inl ⟨b, now, rfl⟩
  | closeAll ids metadata now =>
    refine .inr ⟨?_, rfl, rfl⟩
    simp [call, closeAll, Function.comp_def]
  | delete id =>
    obtain ⟨m', hm', h⟩ := call_delete m id
    rw [h]
    exact .inr { hm'.frame with }
  | setLocalString id key value =>
    rw [call_setLocalString]
    exact .inr { Frame.refl m with }
  | get id => rw [call, answer_fst]; exact .inr (.refl m)
  | list q => rw [call, answer_fst]; exact .inr (.refl m)
  | getLocalString id key => rw [call, answer_fst]; exact .inr (.refl m)
  | depAdd _ _ _ | depRemove _ _ | depList _ _ => exact .inr { Frame.refl m with }
  | _ => exact .inr (guarded_call rfl).frame

theorem capability_call (op : Op) :
    (m.call op).1.disableConditionalWrites = m.disableConditionalWrites := by
  rcases create_or_frame op with ⟨b, now, rfl⟩ | h
  · rfl
  · exact h.capability

def Retired (m : MemStore) (id : String) : Prop :=
  m.find id = none ∧ ∀ n, m.seq < n → id ≠ beadID n

theorem find_eq_none : m.find id = none ↔ id ∉ m.beads.map Bead.id := by
  rw [find, Keyed.lookup_eq_none]
  simp

theorem WellFormed.frame {m' : MemStore} (hm : m.WellFormed) (h : Frame m m') :
    m'.WellFormed := by
  refine ⟨hm.nodup.sublist h.ids, fun b hb n hn => ?_⟩
  obtain ⟨c, hc, hcb⟩ := mem_map.mp (h.ids.subset (mem_map_of_mem hb))
  exact hcb ▸ hm.fresh c hc n (h.seq ▸ hn)

theorem WellFormed.create (hm : m.WellFormed) (b : Bead) (now : Time) :
    (m.create b now).1.WellFormed := by
  constructor
  · simp only [MemStore.create, map_append, map_cons, map_nil]
    refine Nodup.append hm.nodup (nodup_singleton _) ?_
    intro x hx hx'
    obtain ⟨c, hc, rfl⟩ := mem_map.mp hx
    exact hm.fresh c hc (m.seq + 1) (Nat.lt_succ_self _) (mem_singleton.mp hx')
  · intro c hc n hn
    have hn' : m.seq + 1 < n := hn
    rcases mem_append.mp hc with hc | hc
    · exact hm.fresh c hc n (by omega)
    · obtain rfl := mem_singleton.mp hc
      intro h
      have := beadID_injective h
      omega

theorem WellFormed.call (hm : m.WellFormed) (op : Op) : (m.call op).1.WellFormed := by
  rcases create_or_frame op with ⟨b, now, rfl⟩ | h
  · exact hm.create b now
  · exact hm.frame h

theorem seq_le_call (op : Op) : m.seq ≤ (m.call op).1.seq := by
  rcases create_or_frame op with ⟨b, now, rfl⟩ | h
  · exact Nat.le_succ _
  · exact h.seq.ge

theorem Retired.call (h : m.Retired id) (op : Op) : (m.call op).1.Retired id := by
  refine ⟨?_, fun n hn => h.2 n ((seq_le_call op).trans_lt hn)⟩
  rw [find_eq_none]
  rcases create_or_frame op with ⟨b, now, rfl⟩ | hframe
  · have hnew : id ≠ beadID (m.seq + 1) := h.2 _ (Nat.lt_succ_self _)
    simpa [MemStore.call, create, newBead, hnew] using find_eq_none.mp h.1
  · exact fun hid => find_eq_none.mp h.1 (hframe.ids.subset hid)

theorem retired_of_removed (hm : m.WellFormed) (hb : m.find id = some b) {op : Op}
    (h : (m.call op).1.find id = none) : (m.call op).1.Retired id := by
  refine ⟨h, fun n hn => ?_⟩
  obtain rfl := id_of_find hb
  exact hm.fresh b (mem_of_find hb) n ((seq_le_call op).trans_lt hn)

end GasCity.MemStore
