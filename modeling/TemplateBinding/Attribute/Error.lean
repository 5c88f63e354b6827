import TemplateBinding.Grammar.Fault

/-!
Why an attribute cannot be interpreted.
-/
namespace TemplateBinding

inductive BindingError
  | loopForm
  | expression (source : Text) (error : Grammar.Error)
  | unknownCommand (keyword : Text)
deriving DecidableEq

def expressionMessage (complaint source : Text) : Text :=
  "Parser Error: " ++ complaint ++ " in [" ++ source ++ "]"

def BindingError.message : BindingError → Text
  | .loopForm => "Incorrect syntax for \"for\". The form is: \"$local of $items\"."
  | .expression source error => expressionMessage (error.message source) source
  | .unknownCommand keyword => "Unknown binding command '" ++ keyword ++ "'"

end TemplateBinding
