import TemplateBinding.Attribute.Document
import TemplateBinding.Attribute.Warnings
import TemplateBinding.CommandLine.Arguments
import TemplateBinding.Config.Reader
import TemplateBinding.Expr.Document
import TemplateBinding.Json.Pretty

/-!
The subcommands. Each run gives a document, or fails, and leaves what its session has
logged. The text of a configuration file is handed in by the caller.
-/
namespace TemplateBinding.CommandLine

def version : Text := "0.1.0"

inductive ReadFault
  | notFound
  | notPermitted
  | notDirectory
  | isDirectory
  | notText
  | other (reason : Text)

def ReadFault.message : ReadFault → Text
  | .notFound => "No such file or directory (os error 2)"
  | .notPermitted => "Permission denied (os error 13)"
  | .notDirectory => "Not a directory (os error 20)"
  | .isDirectory => "Is a directory (os error 21)"
  | .notText => "stream did not contain valid UTF-8"
  | .other reason => reason

inductive Failure
  | noAssignment (word : Text)
  | emptyName (word : Text)
  | unreadableConfig (path : Text) (fault : ReadFault)
  | invalidConfig (path : Text)
  | ofAttribute (name value : Text) (error : BindingError)
  | ofCommand (keyword name value : Text) (error : BindingError)
  | ofExpression (source : Text) (error : Grammar.Error)

def Failure.message : Failure → Text
  | .noAssignment word => "expected NAME=VALUE, got '" ++ word ++ "'"
  | .emptyName word => "attribute name is empty in '" ++ word ++ "'"
  | .unreadableConfig path fault =>
    "failed to load config " ++ path ++ ": failed to read config: " ++ fault.message ++ ": "
      ++ fault.message
  | .invalidConfig path => "failed to load config " ++ path ++ ": invalid config"
  | .ofAttribute name value error =>
    "failed to interpret " ++ name ++ "=\"" ++ value ++ "\": " ++ error.message
  | .ofCommand keyword name value error =>
    "failed to interpret " ++ name ++ "." ++ keyword ++ "=\"" ++ value ++ "\": "
      ++ error.message
  | .ofExpression source error =>
    "failed to parse expression [" ++ source ++ "]: "
      ++ (BindingError.expression source error).message

/-- `name=value` is split at the first `=`. -/
def assignment (word : Text) : Except Failure (Text × Text) :=
  match Text.cut? "=" word with
  | none => .error (.noAssignment word)
  | some (name, value) => if name.isEmpty then .error (.emptyName word) else .ok (name, value)

structure Session where
  tag : Text
  filters : Filters
  config : Config
  verbose : Bool

namespace Session

def logger (s : Session) : Logger := .console (if s.verbose then .debug else s.config.logLevel)

def context (s : Session) : Context := ⟨s.config, s.tag, s.filters, s.logger⟩

def describe (s : Session) (pair : Text × Text) : Run Failure Json := do
  let info ← (attributeInfo s.context pair.1 pair.2 none).mapError
    (.ofAttribute pair.1 pair.2)
  (info.warnings s.filters).forM (s.logger.record .warn)
  pure info.toJson

def attributes (s : Session) (given : List (Text × Text)) : Run Failure Json := do
  let documents ← given.mapM s.describe
  pure (.object [("tag", .string s.tag), ("attributes", .array documents)])

def command (s : Session) (keyword name value : Text) : Run Failure Json := do
  let result ← (interpret s.context keyword name value none).mapError
    (.ofCommand keyword name value)
  pure ((result.map Interpretation.toJson).getD .null)

end Session

def expressionDocument (source : Text) : Except Failure Json :=
  match Expr.parse source with
  | .ok e => .ok (.object [("expression", .string e.print), ("ast", e.toJson)])
  | .error error => .error (.ofExpression source error)

def loadConfig (readFile : Text → Except ReadFault Text) : Option Text → Except Failure Config
  | none => .ok {}
  | some path =>
    match readFile path with
    | .error fault => .error (.unreadableConfig path fault)
    | .ok text =>
      match Config.read? text with
      | some config => .ok config
      | none => .error (.invalidConfig path)

/-- Does what a command line asks for. Assignments are checked before the configuration is
loaded, and an expression needs no configuration. -/
def Invocation.run (i : Invocation) (readFile : Text → Except ReadFault Text) :
    Run Failure Json :=
  match i.request with
  | .attr tag filters words => do
    let given ← Run.ofExcept (words.mapM assignment)
    let config ← Run.ofExcept (loadConfig readFile i.configPath)
    let session : Session := ⟨tag, Filters.ofList filters, config, i.verbose⟩
    session.attributes given
  | .interpret tag filters keyword name value => do
    let config ← Run.ofExcept (loadConfig readFile i.configPath)
    let session : Session := ⟨tag, Filters.ofList filters, config, i.verbose⟩
    session.command keyword name value
  | .expr source => Run.ofExcept (expressionDocument source)

def logText (log : List Record) : Text := log.flatMap Record.line

end TemplateBinding.CommandLine
