import TemplateBinding.Attribute.Delivery
import TemplateBinding.Expr.Printer
import TemplateBinding.Json.Basic

/-!
Bindings, instructions and attributes as documents. Expressions appear in their canonical
text.
-/
namespace TemplateBinding

def Binding.toJson (b : Binding) : Json :=
  .object [("kind", .string "binding"), ("targetProperty", .string b.target),
    ("mode", .string b.mode.name), ("expression", .string b.expression.print)]

def Listener.toJson (l : Listener) : Json :=
  .object [("kind", .string "listener"), ("targetEvent", .string l.event),
    ("delegate", .boolean l.delegated), ("expression", .string l.expression.print)]

def NameReference.toJson (n : NameReference) : Json :=
  .object [("kind", .string "name"), ("property", .string n.property),
    ("mode", .string n.mode.name)]

def Part.toJson : Part → Json
  | .literal text => .object [("literal", .string text)]
  | .expression e => .object [("expression", .string e.print)]

def Interpolation.toJson (i : Interpolation) : Json :=
  .object [("kind", .string "interpolation"), ("targetProperty", .string i.target),
    ("mode", .string i.mode.name), ("parts", .array (i.parts.map Part.toJson))]

def Entry.toJson : Entry → Json
  | .literal text => .string text
  | .binding b => b.toJson
  | .name n => n.toJson
  | .interpolation i => i.toJson

def Instruction.toJson (i : Instruction) : Json :=
  .object [("attrName", .string i.name),
    ("attributes", .object (i.entries.map fun (key, entry) => (key, entry.toJson)))]

def Interpretation.toJson : Interpretation → Json
  | .instruction i => i.toJson
  | .listener l => l.toJson
  | .name n => n.toJson

def Meaning.toJson : Meaning → Json
  | .interpreted i => i.toJson
  | .interpolated i => i.toJson

def AttributeInfo.toJson (info : AttributeInfo) : Json :=
  .object [("attrName", .string info.name), ("attrValue", .string info.value),
    ("command", (info.command.map Json.string).getD .null),
    ("expression", (info.meaning.map Meaning.toJson).getD .null)]

end TemplateBinding
