import TemplateBinding.Attribute.Delivery
import TemplateBinding.Attribute.Filters

/-!
Diagnostics: filters that an attribute uses and nobody registered.
-/
namespace TemplateBinding

def Filters.missing (filters : Filters) (e : Expr) : List Text :=
  e.filterNames.filter fun name => !filters.has name

/-- A binding looks its filters up itself. -/
def Binding.missingFilters (b : Binding) : List Text := b.filters.missing b.expression

def Entry.sources : Entry → List (Text × Expr)
  | .binding b => [(b.target, b.expression)]
  | .interpolation i => i.expressions.map fun e => (i.target, e)
  | .literal _ | .name _ => []

def Interpretation.sources : Interpretation → List (Text × Expr)
  | .instruction i => i.entries.flatMap fun (_, entry) => entry.sources
  | .listener l => [(l.event, l.expression)]
  | .name _ => []

def AttributeInfo.sources (info : AttributeInfo) : List (Text × Expr) :=
  match info.meaning with
  | some (.interpreted i) => i.sources
  | some (.interpolated i) => i.expressions.map fun e => (i.target, e)
  | none => []

def missingFilterWarning (target name : Text) : Text :=
  target ++ ": filter '" ++ name ++ "' is not registered"

/-- One line for each use of a filter that is not registered. -/
def AttributeInfo.warnings (info : AttributeInfo) (filters : Filters) : List Text :=
  info.sources.flatMap fun (target, e) =>
    (filters.missing e).map (missingFilterWarning target)

end TemplateBinding
