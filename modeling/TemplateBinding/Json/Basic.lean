import TemplateBinding.Number.Shortest

/-!
Documents that the library writes. The fields of an object keep their order. Counts and
positions are natural numbers; `number` is for the numbers of expressions.
-/
namespace TemplateBinding

inductive Json
  | null
  | boolean (value : Bool)
  | natural (value : Nat)
  | number (value : Binary64)
  | string (value : Text)
  | array (items : List Json)
  | object (fields : List (Text × Json))

end TemplateBinding
