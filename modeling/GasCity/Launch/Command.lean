import GasCity.Fallible.Basic
import GasCity.Launch.Options

/-! # Launch commands

The command of a session is that of its provider with the flags of the selected options in place of
those that it carries, and with the settings file of the provider.  Overrides and transport may come
from metadata that workers can write.
-/

namespace GasCity.Launch

open ShellQuote

structure ResolvedProvider where
  name : String
  builtinAncestor : String
  command : String
  args : List String
  acpCommand : String
  acpArgs : Option (List String)
  optionsSchema : List ProviderOption
  effectiveDefaults : Table String String
  emitsPermissionWarning : Bool
  permissionModes : Table String String

namespace ResolvedProvider

variable (resolved : ResolvedProvider)

def commandString : String :=
  if resolved.args = [] then resolved.command
  else resolved.command ++ " " ++ join resolved.args

def acpCommandString : String :=
  let cmd := if resolved.acpCommand = "" then resolved.command else resolved.acpCommand
  let args := resolved.acpArgs.getD resolved.args
  if args = [] then cmd else cmd ++ " " ++ join args

end ResolvedProvider

def providerLaunchBaseCommand (resolved : ResolvedProvider) (transport : String) : String :=
  if trimSpace transport = "acp" then resolved.acpCommandString else resolved.commandString

def hasSchemaOptionOverrides (overrides : Table String String) : Bool :=
  decide (∃ key ∈ overrides.keys, key ≠ "initial_message")

def hasProviderOptionValues (resolved : ResolvedProvider) (overrides : Table String String) :
    Bool :=
  decide (resolved.effectiveDefaults.keys ≠ ∅) || hasSchemaOptionOverrides overrides

def mergedOptions (resolved : ResolvedProvider) (overrides : Table String String) :
    Table String String :=
  resolved.effectiveDefaults.merge
    ((filterMetadataOptionOverrides resolved.optionsSchema overrides).1.erase "initial_message")

def providerOptionArgs (resolved : ResolvedProvider) (overrides : Table String String) :
    Except Failure (List String) :=
  if resolved.optionsSchema = [] then .ok []
  else resolveExplicitOptions resolved.optionsSchema (mergedOptions resolved overrides)

/-- The command with the selected flags in place of those of the schema. -/
def applyOptions (resolved : ResolvedProvider) (overrides : Table String String)
    (command : String) : Except Failure String :=
  if resolved.optionsSchema ≠ [] ∧ hasProviderOptionValues resolved overrides = true then
    (providerOptionArgs resolved overrides).map (replaceSchemaFlags command resolved.optionsSchema)
  else .ok command

section

variable {host : Host} {resolved : ResolvedProvider} {overrides : Table String String}
  {transport : String} {cmd : ProviderLaunchCommand}

end

end GasCity.Launch
