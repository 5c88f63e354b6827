import TemplateBinding.Text.Basic

/-!
The direction of data flow of a property binding, and the one that `bind` chooses.
-/
namespace TemplateBinding

inductive Mode
  | oneTime
  | oneWay
  | twoWay
deriving DecidableEq

namespace Mode

def name : Mode → Text
  | .oneTime => "one-time"
  | .oneWay => "one-way"
  | .twoWay => "two-way"

def writtenBack (tag : Text) : List Text :=
  if tag = "input" then ["value", "checked"]
  else if tag = "textarea" then ["value"]
  else if tag = "select" then ["value"]
  else []

/-- Two-way for what a form control writes back to, and one-way for all else. The case of
ASCII letters in the name of the element does not matter. -/
def default (tag property : Text) : Mode :=
  if property ∈ writtenBack (tag.map Char.toLower) then .twoWay else .oneWay

end Mode
end TemplateBinding
