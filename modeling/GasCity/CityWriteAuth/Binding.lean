import GasCity.CityWriteAuth.Verifier

/-! # The request of a grant

A grant names its request by a digest of the method, the path, the query and the body.  Two
requests have one digest exactly if these agree, where queries are compared as a handler reads
them.
-/

namespace GasCity.CityWriteAuth

open List

def newline : UInt8 := 10

abbrev Values := Table Bytes (List Bytes)

/-- The hash and the codec of queries of the standard library. -/
structure Library where
  sum256 : Bytes → Bytes
  parseQuery : Bytes → Option Values
  encode : Values → Bytes

structure Library.Standard (L : Library) : Prop where
  noCollision : Function.Injective L.sum256
  parse_nil : L.parseQuery [] = some ∅
  encode_empty : L.encode ∅ = []
  parse_encode : ∀ raw values, L.parseQuery raw = some values →
    L.parseQuery (L.encode values) = some values
  encode_line : ∀ values, newline ∉ L.encode values

def hexDigit (n : ℕ) : UInt8 :=
  if n < 10 then .ofNat (48 + n) else .ofNat (87 + n)

def encodeToString (bytes : Bytes) : Bytes :=
  bytes.flatMap fun b => [hexDigit (b.toNat / 16), hexDigit (b.toNat % 16)]

structure Request where
  method : Bytes
  path : Bytes
  rawQuery : Bytes
  body : Bytes

def Request.Plain (r : Request) : Prop :=
  newline ∉ r.method ∧ (∀ c ∈ r.path, c ≠ newline ∧ c ≠ 13 ∧ c ≠ 0) ∧
    ∀ c ∈ r.rawQuery, 32 ≤ c ∧ c ≠ 127

instance (r : Request) : Decidable r.Plain :=
  have := decidableBAll (fun c => c ≠ newline ∧ c ≠ 13 ∧ c ≠ 0) r.path
  have := decidableBAll (fun c => 32 ≤ c ∧ c ≠ 127) r.rawQuery
  inferInstanceAs (Decidable (_ ∧ _ ∧ _))

namespace Library

variable (L : Library)

def canonicalizeQuery (rawQuery : Bytes) : Bytes :=
  if rawQuery = [] then []
  else
    match L.parseQuery rawQuery with
    | none => rawQuery
    | some values => L.encode values

def reqDigestFromBodyHash (method path rawQuery bodyHashHex : Bytes) : Bytes :=
  let preimage := method ++ newline :: path
  let canonical := L.canonicalizeQuery rawQuery
  let preimage := if canonical ≠ [] then preimage ++ newline :: canonical else preimage
  let preimage := preimage ++ newline :: bodyHashHex
  encodeToString (L.sum256 preimage)

def reqDigest (r : Request) : Bytes :=
  L.reqDigestFromBodyHash r.method r.path r.rawQuery (encodeToString (L.sum256 r.body))

def SameQuery (raw raw' : Bytes) : Prop :=
  (∃ values, L.parseQuery raw = some values ∧ L.parseQuery raw' = some values) ∨
    (L.parseQuery raw = none ∧ L.parseQuery raw' = none ∧ raw = raw')

end Library

theorem hexDigit_inj {m n : ℕ} (hm : m < 16) (hn : n < 16) (h : hexDigit m = hexDigit n) :
    m = n := by
  have hall : ∀ m n : Fin 16, hexDigit m = hexDigit n → m = n := by decide
  exact congrArg Fin.val (hall ⟨m, hm⟩ ⟨n, hn⟩ h)

theorem encodeToString_injective : Function.Injective encodeToString := by
  intro l
  induction l with
  | nil =>
    intro l' h
    cases l' with
    | nil => rfl
    | cons b l' => cases h
  | cons b l ih =>
    intro l' h
    cases l' with
    | nil => cases h
    | cons b' l' =>
      obtain ⟨hhigh, h⟩ := cons.inj h
      obtain ⟨hlow, h⟩ := cons.inj h
      have hb := b.toNat_lt
      have hb' := b'.toNat_lt
      have hdiv := hexDigit_inj (by omega) (by omega) hhigh
      have hmod := hexDigit_inj (by omega) (by omega) hlow
      have hbyte : b = b' := UInt8.toNat_inj.mp (by omega)
      rw [hbyte, ih h]

theorem newline_notMem_encodeToString (bytes : Bytes) : newline ∉ encodeToString bytes := by
  have hall : ∀ n : Fin 16, newline ≠ hexDigit n := by decide
  intro h
  obtain ⟨b, -, h⟩ := mem_flatMap.mp h
  have hb := b.toNat_lt
  rcases mem_pair.mp h with h | h
  · exact hall ⟨b.toNat / 16, by omega⟩ h
  · exact hall ⟨b.toNat % 16, by omega⟩ h

theorem line_inj {a a' b b' : Bytes} (ha : newline ∉ a) (ha' : newline ∉ a')
    (h : a ++ newline :: b = a' ++ newline :: b') : a = a' ∧ b = b' := by
  have hfirst : ∀ {a b : Bytes}, newline ∉ a →
      (a ++ newline :: b).takeWhile (· ≠ newline) = a := by
    intro a b ha
    have hne : ∀ c ∈ a, decide (c ≠ newline) = true := by
      intro c hc
      exact decide_eq_true fun heq => ha (heq ▸ hc)
    rw [takeWhile_append_of_pos hne]
    simp
  have heq : a = a' := by rw [← hfirst ha, h, hfirst ha']
  rw [heq] at h
  exact ⟨heq, (cons.inj (append_cancel_left h)).2⟩

namespace Library

variable {L : Library} {r r' : Request}

theorem Standard.canonicalizeQuery_eq (hL : L.Standard) (raw : Bytes) :
    L.canonicalizeQuery raw = ((L.parseQuery raw).map L.encode).getD raw := by
  unfold canonicalizeQuery
  split_ifs with hraw
  · rw [hraw, hL.parse_nil, Option.map_some, Option.getD_some, hL.encode_empty]
  · cases L.parseQuery raw <;> rfl

/-- The canonical form of a query parses as the query does. -/
theorem Standard.parse_canonicalizeQuery (hL : L.Standard) (raw : Bytes) :
    L.parseQuery (L.canonicalizeQuery raw) = L.parseQuery raw := by
  rw [hL.canonicalizeQuery_eq]
  cases hparse : L.parseQuery raw with
  | none => exact hparse
  | some values => exact hL.parse_encode raw values hparse

theorem Standard.canonicalizeQuery_eq_iff (hL : L.Standard) (raw raw' : Bytes) :
    L.canonicalizeQuery raw = L.canonicalizeQuery raw' ↔ L.SameQuery raw raw' := by
  constructor
  · intro h
    have hparse := congrArg L.parseQuery h
    rw [hL.parse_canonicalizeQuery, hL.parse_canonicalizeQuery] at hparse
    cases hparse' : L.parseQuery raw' with
    | none =>
      rw [hparse'] at hparse
      rw [hL.canonicalizeQuery_eq, hL.canonicalizeQuery_eq, hparse, hparse'] at h
      exact .inr ⟨hparse, hparse', h⟩
    | some values => exact .inl ⟨values, hparse.trans hparse', hparse'⟩
  · rintro (⟨values, hparse, hparse'⟩ | ⟨-, -, rfl⟩)
    · rw [hL.canonicalizeQuery_eq, hL.canonicalizeQuery_eq, hparse, hparse']
      rfl
    · rfl

theorem Standard.newline_notMem_canonical (hL : L.Standard) (hr : r.Plain) :
    newline ∉ L.canonicalizeQuery r.rawQuery := by
  rw [hL.canonicalizeQuery_eq]
  cases L.parseQuery r.rawQuery with
  | none => exact fun h => absurd (hr.2.2 newline h).1 (by decide)
  | some values => exact hL.encode_line values

/-- What follows the path: the query, if there is one, and the hash of the body. -/
def bound (canonical hash : Bytes) : Bytes :=
  if canonical = [] then hash else canonical ++ newline :: hash

theorem reqDigest_eq (r : Request) : L.reqDigest r = encodeToString (L.sum256 (r.method ++
    newline :: (r.path ++ newline ::
      bound (L.canonicalizeQuery r.rawQuery) (encodeToString (L.sum256 r.body))))) := by
  unfold reqDigest reqDigestFromBodyHash bound
  by_cases h : L.canonicalizeQuery r.rawQuery = [] <;> simp [h]

theorem bound_inj {canonical canonical' hash hash' : Bytes} (hc : newline ∉ canonical)
    (hc' : newline ∉ canonical') (hh : newline ∉ hash) (hh' : newline ∉ hash')
    (h : bound canonical hash = bound canonical' hash') :
    canonical = canonical' ∧ hash = hash' := by
  unfold bound at h
  split_ifs at h with hnil hnil' hnil'
  · exact ⟨hnil.trans hnil'.symm, h⟩
  · exact absurd (h ▸ mem_append_right _ mem_cons_self) hh
  · exact absurd (h ▸ mem_append_right _ mem_cons_self) hh'
  · exact line_inj hc hc' h

theorem reqDigest_eq_iff (hL : L.Standard) (hr : r.Plain) (hr' : r'.Plain) :
    (L.reqDigest r = L.reqDigest r' ↔ r.method = r'.method ∧ r.path = r'.path ∧
      L.SameQuery r.rawQuery r'.rawQuery ∧ r.body = r'.body) ∧
    L.reqDigest r = L.reqDigestFromBodyHash r.method r.path r.rawQuery
      (encodeToString (L.sum256 r.body)) := by
  refine ⟨?_, rfl⟩
  have hhex := encodeToString_injective.comp hL.noCollision
  rw [← hL.canonicalizeQuery_eq_iff, reqDigest_eq, reqDigest_eq]
  constructor
  · intro h
    have hpath : newline ∉ r.path := fun h => (hr.2.1 newline h).1 rfl
    have hpath' : newline ∉ r'.path := fun h => (hr'.2.1 newline h).1 rfl
    obtain ⟨hmethod, h⟩ := line_inj hr.1 hr'.1 (hhex h)
    obtain ⟨hpath, h⟩ := line_inj hpath hpath' h
    obtain ⟨hquery, hbody⟩ := bound_inj (hL.newline_notMem_canonical hr)
      (hL.newline_notMem_canonical hr') (newline_notMem_encodeToString _)
      (newline_notMem_encodeToString _) h
    exact ⟨hmethod, hpath, hquery, hhex hbody⟩
  · rintro ⟨hmethod, hpath, hquery, hbody⟩
    rw [hmethod, hpath, hquery, hbody]

end Library

/-- What the query `d` gives a handler. -/
def flag : Values := (∅ : Values).set [100] [[]]

/-- A library that hashes nothing and reads no queries but `d` and `d=`. -/
def transparent : Library where
  sum256 bytes := bytes
  parseQuery raw :=
    if raw = [] then some ∅ else if raw ∈ [[100], [100, 61]] then some flag else none
  encode values := if values = flag then [100, 61] else []

theorem transparent_standard : transparent.Standard where
  noCollision _ _ h := h
  parse_nil := rfl
  encode_empty := by decide
  parse_encode raw values h := by
    have hvalues : values = ∅ ∨ values = flag := by
      simp only [transparent] at h
      split_ifs at h
      · exact .inl (Option.some.inj h).symm
      · exact .inr (Option.some.inj h).symm
    rcases hvalues with rfl | rfl <;> decide
  encode_line values := by
    simp only [transparent]
    split_ifs <;> decide

/-- A grant to delete `/w` does not cover the deletion with the query `d`, which is also `d=`. -/
theorem reqDigest_eq_iff_delete :
    let delete := fun query => transparent.reqDigest ⟨[68], [47, 119], query, []⟩
    delete [] ≠ delete [100] ∧ delete [100] = delete [100, 61] := by
  have hiff := fun query query' => @Library.reqDigest_eq_iff transparent
    ⟨[68], [47, 119], query, []⟩ ⟨[68], [47, 119], query', []⟩ transparent_standard
  constructor
  · rw [ne_eq, (hiff _ _ (by decide) (by decide)).1]
    rintro ⟨-, -, ⟨values, h, h'⟩ | ⟨h, -⟩, -⟩
    · exact absurd (h.trans h'.symm) (by decide)
    · cases h
  · rw [(hiff _ _ (by decide) (by decide)).1]
    exact ⟨rfl, rfl, .inl ⟨flag, by decide, by decide⟩, rfl⟩

end GasCity.CityWriteAuth
