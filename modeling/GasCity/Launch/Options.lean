import GasCity.Launch.ShellQuote
import GasCity.Table.Basic
import GasCity.Text.Trim

/-! # Options of a provider

A provider declares options with choices, and a choice adds flags to the command line.  Metadata
that workers can write may select a model and a reasoning effort, and nothing else.
-/

namespace GasCity.Launch

open ShellQuote

structure OptionChoice where
  value : String
  flagArgs : List String
  flagAliases : List (List String)

structure ProviderOption where
  key : String
  choices : List OptionChoice

def findOption (schema : List ProviderOption) (key : String) : Option ProviderOption :=
  schema.find? fun opt => decide (opt.key = key)

def findChoice (choices : List OptionChoice) (value : String) : Option OptionChoice :=
  choices.find? fun c => decide (c.value = value)

def benignRune (r : Char) : Bool :=
  ('a' ≤ r && r ≤ 'z') || ('A' ≤ r && r ≤ 'Z') || ('0' ≤ r && r ≤ '9') ||
    r == '.' || r == '_' || r == '-' || r == ':' || r == '/'

def benignValue (v : String) : Bool :=
  v ≠ "" && !hasPrefix v "-" && v.toList.all benignRune

/-- Go's `strings.Trim` of one character. -/
def trimChar (c : Char) (text : List Char) : List Char :=
  ((text.dropWhile (· == c)).reverse.dropWhile (· == c)).reverse

def benignConfigValue (v : String) : Bool :=
  match cut '=' v.toList with
  | none => false
  | some (key, value) =>
    if .ofList key ≠ "model" ∧ .ofList key ≠ "model_reasoning_effort" then false
    else benignValue (.ofList (trimChar '"' value))

def assigned (arg : String) : String :=
  .ofList (arg.toList.dropWhile (· ≠ '=')).tail

def benignFlagArgs : List String → Bool
  | [] => true
  | arg :: rest =>
    if arg = "--model" ∨ arg = "-m" ∨ arg = "--effort" then
      match rest with
      | [] => false
      | v :: rest => benignValue v && benignFlagArgs rest
    else if hasPrefix arg "--model=" || hasPrefix arg "--effort=" then
      benignValue (assigned arg) && benignFlagArgs rest
    else if arg = "-c" ∨ arg = "--config" then
      match rest with
      | [] => false
      | v :: rest => benignConfigValue v && benignFlagArgs rest
    else if hasPrefix arg "--config=" then
      benignConfigValue (assigned arg) && benignFlagArgs rest
    else false

def metadataOverridableOptionKeys : List String := ["model", "effort"]

def metadataOverridableKey (key : String) : Bool :=
  decide (key ∈ metadataOverridableOptionKeys)

structure RejectedOptionOverride where
  key : String
  value : String
  reason : String

def rejection (schema : List ProviderOption) (key value : String) : Option String :=
  match findOption schema key with
  | none => none
  | some opt =>
    if metadataOverridableKey key = false then some "option key is not overridable from metadata"
    else
      match findChoice opt.choices value with
      | none => some "value is not a declared choice"
      | some choice =>
        if benignFlagArgs choice.flagArgs = false then some "choice carries security-bearing flags"
        else none

/-- The overrides that may be applied, and the others in the order of their keys. -/
def filterMetadataOptionOverrides (schema : List ProviderOption)
    (overrides : Table String String) : Table String String × List RejectedOptionOverride :=
  (Table.ofKeys overrides.keys fun key =>
      (overrides.get key).filter fun value => (rejection schema key value).isNone,
    (sortStrings overrides.keys).filterMap fun key => do
      let value ← overrides.get key
      let reason ← rejection schema key value
      return ⟨key, value, reason⟩)

theorem get_filterMetadataOptionOverrides (schema : List ProviderOption)
    (overrides : Table String String) (key : String) :
    (filterMetadataOptionOverrides schema overrides).1.get key =
      (overrides.get key).filter fun value => (rejection schema key value).isNone := by
  rw [filterMetadataOptionOverrides, Table.get_ofKeys]
  split_ifs with h
  · rfl
  · rw [Table.notMem_keys.mp h]
    rfl

/-- Go's failures of a launch; `crash` is a nil dereference. -/
inductive Failure where
  | unknownTransport (transport : String)
  | invalidOption
  | noPermissionPolicy (name : String)
  | crash
  deriving DecidableEq

def selectedArgs (selection : Table String String) : List ProviderOption →
    Except Failure (List String)
  | [] => .ok []
  | opt :: schema =>
    match selection.get opt.key with
    | none => selectedArgs selection schema
    | some value =>
      match findChoice opt.choices value with
      | none => .error .crash
      | some choice => (selectedArgs selection schema).map (choice.flagArgs ++ ·)

def resolveExplicitOptions (schema : List ProviderOption) (overrides : Table String String) :
    Except Failure (List String) :=
  if overrides.keys = ∅ then .ok []
  else if ∀ key value, overrides.get key = some value →
      ((findOption schema key).bind fun opt => findChoice opt.choices value).isSome = true then
    selectedArgs overrides schema
  else .error .invalidOption

def splitFlagArgsFrom (current : List String) : List String → List (List String)
  | [] => if current = [] then [] else [current]
  | arg :: rest =>
    if hasPrefix arg "--" = true ∧ current ≠ [] then current :: splitFlagArgsFrom [arg] rest
    else splitFlagArgsFrom (current ++ [arg]) rest

def splitFlagArgs (args : List String) : List (List String) :=
  splitFlagArgsFrom [] args

def choiceFlagSequences (choice : OptionChoice) : List (List String) :=
  splitFlagArgs choice.flagArgs ++ choice.flagAliases.flatMap splitFlagArgs

def collectAllSchemaFlags (schema : List ProviderOption) : List (List String) :=
  (schema.flatMap fun opt => opt.choices.flatMap choiceFlagSequences).foldl
    (fun flags seq => if seq ∈ flags then flags else flags ++ [seq]) []

/-- Skip the rest of a removed sequence, then remove the first sequence that starts here. -/
def stripFrom (flags : List (List String)) : ℕ → List String → List String
  | _, [] => []
  | n + 1, _ :: tokens => stripFrom flags n tokens
  | 0, token :: tokens =>
    match flags.find? fun seq => seq ≠ [] && seq.isPrefixOf (token :: tokens) with
    | some seq => stripFrom flags (seq.length - 1) tokens
    | none => token :: stripFrom flags 0 tokens

def stripTokens (flags : List (List String)) (tokens : List String) : List String :=
  stripFrom flags 0 tokens

def stripFlags (command : String) (flags : List (List String)) : String :=
  join (stripTokens flags (split command))

def replaceSchemaFlags (command : String) (schema : List ProviderOption)
    (overrideArgs : List String) : String :=
  let stripped := stripFlags command (collectAllSchemaFlags schema)
  if overrideArgs ≠ [] then stripped ++ " " ++ join overrideArgs else stripped

theorem split_replaceSchemaFlags (command : String) (schema : List ProviderOption)
    (overrideArgs : List String) :
    split (replaceSchemaFlags command schema overrideArgs) =
      stripTokens (collectAllSchemaFlags schema) (split command) ++ overrideArgs := by
  unfold replaceSchemaFlags stripFlags
  by_cases h : overrideArgs = []
  · simp [h, (join_spec _).2]
  · simp only [ne_eq, h, not_false_eq_true, if_true]
    rw [split_append (join_spec _).1, (join_spec _).2, (join_spec _).2]

theorem closed_replaceSchemaFlags (command : String) (schema : List ProviderOption)
    (overrideArgs : List String) : Closed (replaceSchemaFlags command schema overrideArgs) := by
  unfold replaceSchemaFlags stripFlags
  by_cases h : overrideArgs = []
  · simp only [ne_eq, h, not_true_eq_false, if_false]
    exact (join_spec _).1
  · simp only [ne_eq, h, not_false_eq_true, if_true]
    exact (join_spec _).1.append (join_spec _).1

end GasCity.Launch
