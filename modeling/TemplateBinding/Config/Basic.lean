import TemplateBinding.Log

/-!
What can be configured: how unknown commands are met, whether `class` is renamed under
every command, and how much is logged.
-/
namespace TemplateBinding

inductive UnknownCommands
  | ignore
  | reject
deriving DecidableEq

def UnknownCommands.name : UnknownCommands → Text
  | .ignore => "ignore"
  | .reject => "reject"

structure Config where
  unknownCommands : UnknownCommands := .ignore
  unifyClassAlias : Bool := false
  logLevel : Level := .warn
deriving DecidableEq

end TemplateBinding
