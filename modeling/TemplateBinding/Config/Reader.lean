import TemplateBinding.Config.Basic
import TemplateBinding.Json.Reader

/-!
Reading a configuration document. Every setting may be missing. An object names its
settings, each at most once, and may have other fields; a list gives them by position.
-/
namespace TemplateBinding

/-- A choice is written as its name, or as an object with its name and `null`. -/
def RawJson.choice? : RawJson → Option Text
  | .string text => text
  | .object [(name, .null)] => name
  | _ => none

def RawJson.boolean? : RawJson → Option Bool
  | .boolean value => some value
  | _ => none

namespace Config

inductive Setting
  | unknownCommands
  | unifyClassAlias
  | logLevel
deriving DecidableEq

namespace Setting

def all : List Setting := [.unknownCommands, .unifyClassAlias, .logLevel]

def name : Setting → Text
  | .unknownCommands => "unknownCommands"
  | .unifyClassAlias => "unifyClassAlias"
  | .logLevel => "logLevel"

def ofName? (name : Text) : Option Setting := all.find? fun s => s.name = name

end Setting

def set? (config : Config) (value : RawJson) : Setting → Option Config
  | .unknownCommands => do
    let name ← value.choice?
    let policy ← [UnknownCommands.ignore, .reject].find? fun p => p.name = name
    some { config with unknownCommands := policy }
  | .unifyClassAlias => do
    let unify ← value.boolean?
    some { config with unifyClassAlias := unify }
  | .logLevel => do
    let name ← value.choice?
    let level ← Level.all.find? fun l => l.name = name
    some { config with logLevel := level }

/-- Applies the fields of an object. Those in `free` were not given yet. -/
def ofFields? (config : Config) (free : List Setting) :
    List (Option Text × RawJson) → Option Config
  | [] => some config
  | (name, value) :: fields => do
    let name ← name
    match Setting.ofName? name with
    | none => ofFields? config free fields
    | some setting =>
      if setting ∈ free then do
        let config ← config.set? value setting
        ofFields? config (free.erase setting) fields
      else none

def ofItems? (config : Config) : List Setting → List RawJson → Option Config
  | _, [] => some config
  | [], _ :: _ => none
  | setting :: settings, item :: items => do
    let config ← config.set? item setting
    ofItems? config settings items

def ofDocument? : RawJson → Option Config
  | .object fields => ofFields? {} Setting.all fields
  | .array items => ofItems? {} Setting.all items
  | _ => none

def read? (t : Text) : Option Config := (RawJson.read? t).bind ofDocument?

end Config
end TemplateBinding
