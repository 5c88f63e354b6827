import TemplateBinding.Attribute.Command
import TemplateBinding.Attribute.Template
import TemplateBinding.Attribute.Writing
import TemplateBinding.Config.Basic

/-!
What the parts of an attribute mean: its name, the keyword of its command, and its value,
which may be an expression, a loop or a text with expressions in it. Property commands and
plain values are written into an instruction.
-/
namespace TemplateBinding

/-- What surrounds the attribute being interpreted. Bindings take the filters along. -/
structure Context where
  config : Config := {}
  tag : Text
  filters : Filters := .empty
  logger : Logger := .silent

/-- Hands a message to the logger, which is first asked whether it is interested. -/
def Context.trace (ctx : Context) (message : Text) : Interpreting Unit :=
  if ctx.logger.enabled .debug then ctx.logger.record .debug message else pure ()

theorem Context.trace_result (ctx : Context) (message : Text) :
    (ctx.trace message).result = .ok () := by
  unfold trace Logger.record
  cases ctx.logger.enabled .debug <;> rfl

/-- The command of a keyword. What an unknown one means is configured. -/
def resolve (ctx : Context) (keyword : Text) : Interpreting (Option Command) :=
  match Command.ofKeyword? keyword with
  | some command => pure (some command)
  | none => do
    ctx.trace ("unknown binding command '" ++ keyword ++ "'")
    match ctx.config.unknownCommands with
    | .ignore => pure none
    | .reject => Run.fail (.unknownCommand keyword)

def parsed (source : Text) : Interpreting Expr :=
  .ofExcept ((Expr.parse source).mapError (.expression source))

def classAlias (name : Text) : Text := if name = "class" then "className" else name

/-- The property that a command binds. Only one-way and one-time bindings rename `class`,
unless the others are told to. -/
def PropertyCommand.target (config : Config) (name : Text) : PropertyCommand → Text
  | .loop => name
  | .oneWay | .oneTime => classAlias name
  | .twoWay | .bind => if config.unifyClassAlias then classAlias name else name

def PropertyCommand.mode (tag name : Text) : PropertyCommand → Mode
  | .loop | .oneWay => .oneWay
  | .oneTime => .oneTime
  | .twoWay => .twoWay
  | .bind => .default tag name

/-- The two sides of `local of items`. The word between them occurs once, and neither side
is blank. -/
def loopForm? (value : Text) : Option (Text × Text) :=
  match Text.cut? " of " value with
  | none => none
  | some (item, items) =>
    if (Text.cut? " of " items).isSome || (Text.trim item).isEmpty
      || (Text.trim items).isEmpty then none
    else some (item, items)

def loopKey : Text := "local"

def PropertyCommand.bound (ctx : Context) (command : PropertyCommand) (name : Text) (e : Expr) :
    Entry :=
  .binding ⟨command.target ctx.config name, e, command.mode ctx.tag name, ctx.filters⟩

/-- Binds the property `name`. A loop also keeps its variable. -/
def PropertyCommand.write (ctx : Context) (command : PropertyCommand) (name value : Text) :
    Writing Unit :=
  match command with
  | .loop =>
    match loopForm? value with
    | none => Writing.ofRun (Run.fail .loopForm)
    | some (item, items) => do
      let e ← parsed items
      Writing.insert loopKey (.literal item)
      Writing.insert name (command.bound ctx name e)
  | _ => do
    let e ← parsed value
    Writing.insert name (command.bound ctx name e)

def interpolated (ctx : Context) (name value : Text) : Interpreting (Option Interpolation) :=
  let pieces := Template.pieces value
  if pieces.any Template.Piece.isExpression then do
    let parts ← pieces.mapM fun piece => Run.ofExcept piece.parse
    ctx.trace (name ++ ": interpolation with " ++ naturalText parts.length ++ " parts")
    pure (some ⟨name, parts, ctx.filters⟩)
  else pure none

def splitCommand? (full : Text) : Option (Text × Text) :=
  match Text.cut? "." full with
  | some (name, command) =>
    if '.' ∈ command then none else some (Text.trim name, Text.trim command)
  | none => none

def refName : Text := "ref"

def writePlain (ctx : Context) (name value : Text) : Writing Unit :=
  if name = refName then Writing.insert name (.name ⟨value, .element⟩)
  else do
    match ← (interpolated ctx name value : Interpreting (Option Interpolation)) with
    | some i => Writing.insert name (.interpolation i)
    | none => Writing.insert name (.literal value)

def listener (name value : Text) (delegated : Bool) : Interpreting Listener := do
  let e ← parsed value
  pure ⟨name, e, delegated⟩

end TemplateBinding
