import TemplateBinding.Text.Basic

/-!
Binding commands: the part behind the point in an attribute name such as `value.bind`.
-/
namespace TemplateBinding

inductive PropertyCommand
  | loop
  | oneWay
  | twoWay
  | oneTime
  | bind
deriving DecidableEq

inductive Command
  | property (command : PropertyCommand)
  | trigger
  | delegate
  | ref
  | options
deriving DecidableEq

namespace Command

def all : List Command :=
  [.property .loop, .property .oneWay, .property .twoWay, .property .oneTime, .property .bind,
   .trigger, .delegate, .ref, .options]

def keyword : Command → Text
  | .property .loop => "for"
  | .property .oneWay => "one-way"
  | .property .twoWay => "two-way"
  | .property .oneTime => "one-time"
  | .property .bind => "bind"
  | .trigger => "trigger"
  | .delegate => "delegate"
  | .ref => "ref"
  | .options => "options"

def ofKeyword? (word : Text) : Option Command := all.find? fun c => c.keyword = word

theorem ofKeyword?_eq_some_iff (word : Text) (c : Command) :
    ofKeyword? word = some c ↔ c.keyword = word := by
  constructor
  · intro found
    simpa using List.find?_some found
  · rintro rfl
    rcases c with (_ | _ | _ | _ | _) | _ <;> decide

end Command
end TemplateBinding
