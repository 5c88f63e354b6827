import TemplateBinding.Expr.Basic
import TemplateBinding.Number.Shortest

/-!
The canonical text of an expression. No parentheses are added: those of the source are
nodes of their own. Strings are quoted with `'` and escape only that quote.
-/
namespace TemplateBinding

def escapeQuotes (t : Text) : Text :=
  t.flatMap fun c => if c = '\'' then ['\\', '\''] else [c]

def quoteText (t : Text) : Text := '\'' :: escapeQuotes t ++ "'"

def Literal.text : Literal → Text
  | .string value => quoteText value
  | .number value => value.plainText
  | .boolean true => "true"
  | .boolean false => "false"
  | .null => "null"
  | .undefined => "undefined"

/-- A quoted key is printed as it is, without escapes. -/
def Key.print (k : Key) : Text :=
  if k.quoted then '\'' :: k.text ++ "'" else k.text

namespace Expr

def dotted (receiver : Expr) (printed : Text) : Text :=
  if receiver.isImplicitThis then [] else printed ++ "."

mutual

def print : Expr → Text
  | .empty _ | .implicitThis _ => []
  | .explicitThis _ => "this"
  | .chain _ items => Text.join "; " (printAll items)
  | .conditional _ condition yes no => print condition ++ " ? " ++ print yes ++ " : " ++ print no
  | .property _ receiver name => dotted receiver (print receiver) ++ name
  | .keyed _ receiver key => print receiver ++ "[" ++ print key ++ "]"
  | .setProperty _ receiver name value =>
    dotted receiver (print receiver) ++ name ++ " = " ++ print value
  | .setKeyed _ receiver key value => print receiver ++ "[" ++ print key ++ "] = " ++ print value
  | .filter _ subject name args =>
    print subject ++ " | " ++ name ++ (printAll args).flatMap (':' :: ·)
  | .literal _ value => value.text
  | .array _ items => '[' :: Text.join ", " (printAll items) ++ "]"
  | .object _ keys values => '{' :: Text.join ", " (printEntries keys values) ++ "\x7d"
  | .binary _ operation left right => print left ++ " " ++ operation ++ " " ++ print right
  | .negation _ operand => '!' :: print operand
  | .unary _ sign operand => sign ++ print operand
  | .call _ callee args => print callee ++ "(" ++ Text.join ", " (printAll args) ++ ")"
  | .parenthesized _ inner => '(' :: print inner ++ ")"

def printAll : List Expr → List Text
  | [] => []
  | e :: es => print e :: printAll es

/-- Keys and values are paired up as far as both go. -/
def printEntries : List Key → List Expr → List Text
  | k :: ks, v :: vs => (k.print ++ ": " ++ print v) :: printEntries ks vs
  | _, _ => []

end

theorem printAll_eq (es : List Expr) : printAll es = es.map print := by
  induction es with
  | nil => rfl
  | cons e es ih => simp [printAll, ih]

theorem printEntries_eq (ks : List Key) (vs : List Expr) :
    printEntries ks vs = List.zipWith (fun k v => k.print ++ ": " ++ print v) ks vs := by
  induction ks generalizing vs with
  | nil => simp [printEntries]
  | cons k ks ih => cases vs <;> simp [printEntries, ih]

end Expr
end TemplateBinding
