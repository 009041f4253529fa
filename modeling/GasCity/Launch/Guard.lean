import GasCity.Launch.Command

/-! # Launches from metadata

What is left of a command line without the selections of a model and of a reasoning effort does
not depend on the overrides in worker-writable metadata, provided that an override does not decide
whether flags are rewritten and replaces only such selections.
-/

namespace GasCity.Launch

open List

open ShellQuote

/-- The arguments without the selections that `benignFlagArgs` recognises. -/
def residue : List String → List String
  | [] => []
  | arg :: rest =>
    if benignFlagArgs [arg] then residue rest
    else
      match rest with
      | [] => [arg]
      | v :: rest' => if benignFlagArgs [arg, v] then residue rest' else arg :: residue (v :: rest')

def isSelectionValue (v : String) : Bool :=
  benignValue v || benignConfigValue v

/-- The first argument, if there is one, is not the value of a selection. -/
def Headed (args : List String) : Prop :=
  ∀ arg ∈ args.head?, isSelectionValue arg = false

instance (args : List String) : Decidable (Headed args) :=
  inferInstanceAs (Decidable (∀ arg ∈ args.head?, _))

theorem benignFlagArgs_cons {arg : String} {rest : List String}
    (h : benignFlagArgs (arg :: rest) = true) :
    benignFlagArgs [arg] = true ∧ benignFlagArgs rest = true ∨
      benignFlagArgs [arg] = false ∧ ∃ v rest', rest = v :: rest' ∧
        benignFlagArgs [arg, v] = true ∧ benignFlagArgs rest' = true ∧
        isSelectionValue v = true := by
  unfold benignFlagArgs at h
  split_ifs at h with hflag hassign hconfig hconfigAssign
  · cases rest with
    | nil => cases h
    | cons v rest =>
      obtain ⟨hv, hrest⟩ := Bool.and_eq_true_iff.mp h
      refine .inr ⟨?_, v, rest, rfl, ?_, hrest, ?_⟩
      · simp only [benignFlagArgs, if_pos hflag]
      · simp only [benignFlagArgs, if_pos hflag, hv, Bool.and_self]
      · rw [isSelectionValue, hv, Bool.true_or]
  · obtain ⟨hv, hrest⟩ := Bool.and_eq_true_iff.mp h
    refine .inl ⟨?_, hrest⟩
    simp only [benignFlagArgs, if_neg hflag, if_pos hassign, hv, Bool.and_self]
  · cases rest with
    | nil => cases h
    | cons v rest =>
      obtain ⟨hv, hrest⟩ := Bool.and_eq_true_iff.mp h
      refine .inr ⟨?_, v, rest, rfl, ?_, hrest, ?_⟩
      · simp only [benignFlagArgs, if_neg hflag, if_neg hassign, if_pos hconfig]
      · simp only [benignFlagArgs, if_neg hflag, if_neg hassign, if_pos hconfig, hv,
          Bool.and_self]
      · rw [isSelectionValue, hv, Bool.or_true]
  · obtain ⟨hv, hrest⟩ := Bool.and_eq_true_iff.mp h
    refine .inl ⟨?_, hrest⟩
    simp only [benignFlagArgs, if_neg hflag, if_neg hassign, if_neg hconfig,
      if_pos hconfigAssign, hv, Bool.and_self]

section Residue

variable {arg v : String} {args rest more : List String}

theorem residue_alone (h : benignFlagArgs [arg] = true) : residue (arg :: rest) = residue rest := by
  unfold residue
  rw [if_pos h]
  cases rest with
  | nil => rfl
  | cons v rest => rw [residue.eq_def (v :: rest)]

variable (h : ¬ benignFlagArgs [arg] = true)
include h

theorem residue_last : residue [arg] = [arg] := by
  unfold residue
  rw [if_neg h]

theorem residue_pair (hpair : benignFlagArgs [arg, v] = true) :
    residue (arg :: v :: rest) = residue rest := by
  rw [residue.eq_def]
  simp only [if_neg h, if_pos hpair]

theorem residue_other (hpair : ¬ benignFlagArgs [arg, v] = true) :
    residue (arg :: v :: rest) = arg :: residue (v :: rest) := by
  rw [residue.eq_def]
  simp only [if_neg h, if_neg hpair]

omit h

theorem residue_of_benignFlagArgs (h : benignFlagArgs args = true) : residue args = [] := by
  induction args using residue.induct with
  | case1 => rfl
  | case2 arg rest halone ih =>
    rw [residue_alone halone]
    rcases benignFlagArgs_cons h with ⟨-, hrest⟩ | ⟨hnot, -⟩
    · exact ih hrest
    · rw [halone] at hnot
      cases hnot
  | case3 arg halone => exact absurd h halone
  | case4 arg halone v rest hpair ih =>
    rw [residue_pair halone hpair]
    rcases benignFlagArgs_cons h with ⟨hnot, -⟩ | ⟨-, v', rest', hrest, -, hbenign, -⟩
    · exact absurd hnot halone
    · cases hrest
      exact ih hbenign
  | case5 arg halone v rest hpair ih =>
    rcases benignFlagArgs_cons h with ⟨hnot, -⟩ | ⟨-, v', rest', hrest, hbenign, -⟩
    · exact absurd hnot halone
    · cases hrest
      exact absurd hbenign hpair

/-- A selection does not reach into arguments that do not start with a value. -/
theorem residue_append (h : Headed more) :
    residue (args ++ more) = residue args ++ residue more := by
  induction args using residue.induct with
  | case1 => rfl
  | case2 arg rest halone ih =>
    rw [cons_append, residue_alone halone, residue_alone halone, ih]
  | case3 arg halone =>
    cases more with
    | nil => exact (append_nil (residue [arg])).symm
    | cons v more =>
      have hpair : ¬ benignFlagArgs [arg, v] = true := by
        intro hpair
        rcases benignFlagArgs_cons hpair with ⟨hnot, -⟩ | ⟨-, v', rest', hrest, -, -, hvalue⟩
        · exact halone hnot
        · cases hrest
          rw [h v rfl] at hvalue
          cases hvalue
      rw [singleton_append, residue_other halone hpair, residue_last halone,
        singleton_append]
  | case4 arg halone v rest hpair ih =>
    rw [cons_append, cons_append, residue_pair halone hpair, residue_pair halone hpair,
      ih]
  | case5 arg halone v rest hpair ih =>
    rw [cons_append, cons_append, residue_other halone hpair,
      residue_other halone hpair, ← cons_append, ih, cons_append]

end Residue

variable {args : List String} {schema : List ProviderOption} {selection : Table String String}

theorem Headed.append {more : List String} (h : Headed args) (hmore : Headed more) :
    Headed (args ++ more) := by
  cases args with
  | nil => exact hmore
  | cons arg args => exact h

/-- For every option two selections agree, or select only benign choices. -/
def Interchangeable (schema : List ProviderOption) (s t : Table String String) : Prop :=
  ∀ opt ∈ schema, s.get opt.key = t.get opt.key ∨
    ∀ value choice, s.get opt.key = some value ∨ t.get opt.key = some value →
      findChoice opt.choices value = some choice → benignFlagArgs choice.flagArgs = true

theorem selectedArgs_cons {opt : ProviderOption}
    (h : selectedArgs selection (opt :: schema) = .ok args) :
    ∃ flags more, args = flags ++ more ∧ selectedArgs selection schema = .ok more ∧
      (selection.get opt.key = none ∧ flags = [] ∨
        ∃ value choice, selection.get opt.key = some value ∧
          findChoice opt.choices value = some choice ∧ flags = choice.flagArgs) := by
  unfold selectedArgs at h
  split at h
  · next hnone => exact ⟨[], args, rfl, h, .inl ⟨hnone, rfl⟩⟩
  · next value hvalue =>
    split at h
    · cases h
    · next choice hchoice =>
      obtain ⟨more, hmore, rfl⟩ := map_eq_ok.mp h
      exact ⟨choice.flagArgs, more, rfl, hmore, .inr ⟨value, choice, hvalue, hchoice, rfl⟩⟩

/-- The flags of the selected choices do not start with the value of another flag. -/
def HeadedBy (schema : List ProviderOption) (selection : Table String String) : Prop :=
  ∀ opt ∈ schema, ∀ value choice, selection.get opt.key = some value →
    findChoice opt.choices value = some choice → Headed choice.flagArgs

theorem headed_selectedArgs (hheaded : HeadedBy schema selection)
    (h : selectedArgs selection schema = .ok args) : Headed args := by
  induction schema generalizing args with
  | nil =>
    cases h
    rintro _ ⟨⟩
  | cons opt schema ih =>
    obtain ⟨hopt, hrest⟩ := forall_mem_cons.mp hheaded
    obtain ⟨flags, more, rfl, hmore, hflags⟩ := selectedArgs_cons h
    refine Headed.append ?_ (ih hrest hmore)
    rcases hflags with ⟨-, rfl⟩ | ⟨value, choice, hvalue, hchoice, rfl⟩
    · rintro _ ⟨⟩
    · exact hopt value choice hvalue hchoice

theorem residue_selectedArgs {s t : Table String String} {args' : List String}
    (hheaded : HeadedBy schema s) (hheaded' : HeadedBy schema t)
    (hst : Interchangeable schema s t) (hs : selectedArgs s schema = .ok args)
    (ht : selectedArgs t schema = .ok args') : residue args = residue args' := by
  induction schema generalizing args args' with
  | nil =>
    cases hs
    cases ht
    rfl
  | cons opt schema ih =>
    have htail := (forall_mem_cons.mp hheaded).2
    have htail' := (forall_mem_cons.mp hheaded').2
    obtain ⟨hopt, hrest⟩ := forall_mem_cons.mp hst
    obtain ⟨flags, more, rfl, hmore, hflags⟩ := selectedArgs_cons hs
    obtain ⟨flags', more', rfl, hmore', hflags'⟩ := selectedArgs_cons ht
    rw [residue_append (headed_selectedArgs htail hmore),
      residue_append (headed_selectedArgs htail' hmore'), ih htail htail' hrest hmore hmore']
    congr 1
    rcases hopt with heq | hbenign
    · rw [heq] at hflags
      rcases hflags with ⟨hnone, rfl⟩ | ⟨value, choice, hvalue, hchoice, rfl⟩
      · rcases hflags' with ⟨-, rfl⟩ | ⟨value', choice', hvalue', -⟩
        · rfl
        · rw [hnone] at hvalue'
          cases hvalue'
      · rcases hflags' with ⟨hnone, -⟩ | ⟨value', choice', hvalue', hchoice', rfl⟩
        · rw [hvalue] at hnone
          cases hnone
        · rw [hvalue] at hvalue'
          cases hvalue'
          rw [hchoice] at hchoice'
          cases hchoice'
          rfl
    · have hempty : residue flags = [] := by
        rcases hflags with ⟨-, rfl⟩ | ⟨value, choice, hvalue, hchoice, rfl⟩
        · rfl
        · exact residue_of_benignFlagArgs (hbenign value choice (.inl hvalue) hchoice)
      have hempty' : residue flags' = [] := by
        rcases hflags' with ⟨-, rfl⟩ | ⟨value, choice, hvalue, hchoice, rfl⟩
        · rfl
        · exact residue_of_benignFlagArgs (hbenign value choice (.inr hvalue) hchoice)
      rw [hempty, hempty']

/-- The guard lets the override pass. -/
def Accepted (resolved : ResolvedProvider) (overrides : Table String String)
    (key value : String) : Prop :=
  overrides.get key = some value ∧ rejection resolved.optionsSchema key value = none

def Selects (resolved : ResolvedProvider) (overrides : Table String String)
    (key value : String) : Prop :=
  resolved.effectiveDefaults.get key = some value ∨ Accepted resolved overrides key value

/-- Overrides do not decide whether the flags of the schema are rewritten, or the command carries no
such flags but selections; accepted overrides only select models and efforts, in place of such; and
the flags of a selected choice do not start with the value of another flag. -/
structure Contained (resolved : ResolvedProvider) (overrides : Table String String)
    (transport : String) : Prop where
  trigger : resolved.optionsSchema = [] ∨ resolved.effectiveDefaults.keys ≠ ∅ ∨
    hasSchemaOptionOverrides overrides = false ∨
    Closed (providerLaunchBaseCommand resolved transport) ∧
      residue (stripTokens (collectAllSchemaFlags resolved.optionsSchema)
          (split (providerLaunchBaseCommand resolved transport))) =
        residue (split (providerLaunchBaseCommand resolved transport))
  choices : ∀ opt ∈ resolved.optionsSchema, (∃ value, Accepted resolved overrides opt.key value) →
    ∀ value choice, Selects resolved overrides opt.key value →
      findChoice opt.choices value = some choice → benignFlagArgs choice.flagArgs = true
  headed : ∀ opt ∈ resolved.optionsSchema, ∀ value choice,
    Selects resolved overrides opt.key value →
      findChoice opt.choices value = some choice → Headed choice.flagArgs

/-- An override names no option of the schema, so that the build with overrides fails. -/
def Unknown (resolved : ResolvedProvider) (overrides : Table String String) : Prop :=
  ∃ key value, overrides.get key = some value ∧ key ≠ "initial_message" ∧
    findOption resolved.optionsSchema key = none

section Launch

variable {host : Host} {resolved : ResolvedProvider} {overrides : Table String String}
  {transport command : String}

theorem mergedOptions_empty : mergedOptions resolved ∅ = resolved.effectiveDefaults := by
  apply Table.ext
  intro key
  rw [mergedOptions, Table.get_merge, Table.get_erase, get_filterMetadataOptionOverrides]
  split_ifs <;> rfl

theorem get_mergedOptions (key : String) :
    (mergedOptions resolved overrides).get key = resolved.effectiveDefaults.get key ∨
      ∃ value, (mergedOptions resolved overrides).get key = some value ∧
        Accepted resolved overrides key value := by
  rw [mergedOptions, Table.get_merge]
  cases hover : ((filterMetadataOptionOverrides resolved.optionsSchema overrides).1.erase
      "initial_message").get key with
  | none => exact .inl Option.none_or
  | some value =>
    rw [Table.get_erase, get_filterMetadataOptionOverrides] at hover
    split_ifs at hover
    obtain ⟨hvalue, hallowed⟩ := Option.filter_eq_some_iff.mp hover
    exact .inr ⟨value, Option.some_or, hvalue, Option.isNone_iff_eq_none.mp hallowed⟩

theorem selects_of_mergedOptions {key value : String}
    (h : (mergedOptions resolved overrides).get key = some value) :
    Selects resolved overrides key value := by
  rcases @get_mergedOptions resolved overrides key with heq | ⟨value', hvalue, haccepted⟩
  · exact .inl (heq.symm.trans h)
  · cases hvalue.symm.trans h
    exact .inr haccepted

theorem Contained.interchangeable (h : Contained resolved overrides transport) :
    Interchangeable resolved.optionsSchema (mergedOptions resolved overrides)
      resolved.effectiveDefaults := by
  intro opt hopt
  refine (get_mergedOptions opt.key).imp_right ?_
  rintro ⟨accepted, -, haccepted⟩ value choice hsel hchoice
  refine h.choices opt hopt ⟨accepted, haccepted⟩ value choice ?_ hchoice
  exact hsel.elim selects_of_mergedOptions .inl

theorem Contained.headedBy (h : Contained resolved overrides transport) :
    HeadedBy resolved.optionsSchema (mergedOptions resolved overrides) ∧
      HeadedBy resolved.optionsSchema resolved.effectiveDefaults :=
  ⟨fun opt hopt value choice hvalue =>
      h.headed opt hopt value choice (selects_of_mergedOptions hvalue),
    fun opt hopt value choice hvalue => h.headed opt hopt value choice (.inl hvalue)⟩

variable {args : List String}

theorem residue_replaceSchemaFlags (hheaded : Headed args) :
    residue (split (replaceSchemaFlags command resolved.optionsSchema args)) =
      residue (stripTokens (collectAllSchemaFlags resolved.optionsSchema) (split command)) ++
        residue args := by
  rw [split_replaceSchemaFlags, residue_append hheaded]

theorem selectedArgs_of_get_eq_none {selection : Table String String}
    (h : ∀ key, selection.get key = none) (schema : List ProviderOption) :
    selectedArgs selection schema = .ok [] := by
  induction schema with
  | nil => rfl
  | cons opt schema ih =>
    unfold selectedArgs
    rw [h opt.key]
    exact ih

theorem get_eq_none_of_keys {t : Table String String} (h : t.keys = ∅) (key : String) :
    t.get key = none := by
  apply Table.notMem_keys.mp
  rw [h]
  exact Finset.notMem_empty key

theorem selectedArgs_of_providerOptionArgs (h : providerOptionArgs resolved overrides = .ok args) :
    selectedArgs (mergedOptions resolved overrides) resolved.optionsSchema = .ok args := by
  unfold providerOptionArgs at h
  split_ifs at h with hschema
  · rw [hschema]
    exact h
  · unfold resolveExplicitOptions at h
    split_ifs at h with hkeys hvalid
    · rw [selectedArgs_of_get_eq_none (get_eq_none_of_keys hkeys)]
      exact h
    · exact h

theorem hasProviderOptionValues_empty :
    hasProviderOptionValues resolved ∅ = decide (resolved.effectiveDefaults.keys ≠ ∅) := by
  have hnone : hasSchemaOptionOverrides ∅ = false := by decide
  rw [hasProviderOptionValues, hnone, Bool.or_false]

/-- The command with contained overrides is that without them up to selections. -/
theorem Contained.applyOptions (h : Contained resolved overrides transport)
    {command command' : String}
    (hcommand : applyOptions resolved overrides (providerLaunchBaseCommand resolved transport) =
      .ok command)
    (hcommand' : applyOptions resolved ∅ (providerLaunchBaseCommand resolved transport) =
      .ok command') :
    command = command' ∨ Closed command ∧ Closed command' ∧
      residue (split command) = residue (split command') := by
  unfold Launch.applyOptions at hcommand hcommand'
  rw [hasProviderOptionValues_empty] at hcommand'
  by_cases hvalues : resolved.optionsSchema ≠ [] ∧
      hasProviderOptionValues resolved overrides = true
  · rw [if_pos hvalues] at hcommand
    obtain ⟨args, hargs, rfl⟩ := map_eq_ok.mp hcommand
    have hselected := selectedArgs_of_providerOptionArgs hargs
    obtain ⟨hmerged, hdefault⟩ := h.headedBy
    have hheaded := headed_selectedArgs hmerged hselected
    by_cases hdefaults : resolved.effectiveDefaults.keys = ∅
    · -- without defaults the command stays as it is unless an override triggers the rewriting
      have hskip : ¬ (resolved.optionsSchema ≠ [] ∧
          decide (resolved.effectiveDefaults.keys ≠ ∅) = true) := by
        simp [hdefaults]
      rw [if_neg hskip] at hcommand'
      cases hcommand'
      have hnone := selectedArgs_of_get_eq_none (get_eq_none_of_keys hdefaults)
        resolved.optionsSchema
      have hargs' := residue_selectedArgs hmerged hdefault h.interchangeable hselected hnone
      rcases h.trigger with hschema | hne | hno | ⟨hclosed, hstrip⟩
      · exact absurd hschema hvalues.1
      · exact absurd hdefaults hne
      · have := hvalues.2
        rw [hasProviderOptionValues, hno, hdefaults] at this
        cases this
      · refine .inr ⟨closed_replaceSchemaFlags _ _ _, hclosed, ?_⟩
        rw [residue_replaceSchemaFlags hheaded, hargs', hstrip]
        exact append_nil _
    · rw [if_pos ⟨hvalues.1, decide_eq_true hdefaults⟩] at hcommand'
      obtain ⟨args', hargs', rfl⟩ := map_eq_ok.mp hcommand'
      have hselected' := selectedArgs_of_providerOptionArgs hargs'
      rw [mergedOptions_empty] at hselected'
      refine .inr ⟨closed_replaceSchemaFlags _ _ _, closed_replaceSchemaFlags _ _ _, ?_⟩
      rw [residue_replaceSchemaFlags hheaded,
        residue_replaceSchemaFlags (headed_selectedArgs hdefault hselected'),
        residue_selectedArgs hmerged hdefault h.interchangeable hselected hselected']
  · left
    rw [if_neg hvalues] at hcommand
    have hskip : ¬ (resolved.optionsSchema ≠ [] ∧
        decide (resolved.effectiveDefaults.keys ≠ ∅) = true) := by
      rintro ⟨hschema, hdefaults⟩
      apply hvalues
      refine ⟨hschema, ?_⟩
      rw [hasProviderOptionValues, hdefaults, Bool.true_or]
    rw [if_neg hskip] at hcommand'
    exact Except.ok.inj (hcommand.symm.trans hcommand')

/-- An override that names no option leaves the command alone or makes the build fail. -/
theorem Unknown.applyOptions (h : Unknown resolved overrides)
    {command' : String}
    (hcommand : Launch.applyOptions resolved overrides command = .ok command') :
    Launch.applyOptions resolved ∅ command = .ok command' := by
  obtain ⟨key, value, hvalue, hmessage, hunknown⟩ := h
  unfold Launch.applyOptions at hcommand ⊢
  by_cases hschema : resolved.optionsSchema = []
  · simpa [hschema] using hcommand
  · have hover : hasSchemaOptionOverrides overrides = true :=
      decide_eq_true ⟨key, Table.mem_keys_of_get hvalue, hmessage⟩
    rw [if_pos ⟨hschema, by rw [hasProviderOptionValues, hover, Bool.or_true]⟩] at hcommand
    obtain ⟨args, hargs, -⟩ := map_eq_ok.mp hcommand
    have hmerged : (mergedOptions resolved overrides).get key = some value := by
      have hpass : rejection resolved.optionsSchema key value = none := by
        rw [rejection, hunknown]
      rw [mergedOptions, Table.get_merge, Table.get_erase_of_ne _ hmessage,
        get_filterMetadataOptionOverrides, hvalue, Option.filter_some_pos (by simp [hpass]),
        Option.some_or]
    rw [providerOptionArgs, if_neg hschema, resolveExplicitOptions] at hargs
    split_ifs at hargs with hkeys hknown
    · rw [get_eq_none_of_keys hkeys] at hmerged
      cases hmerged
    · have := hknown key value hmerged
      rw [hunknown] at this
      cases this

end Launch

end GasCity.Launch
