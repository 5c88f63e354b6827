import TemplateBinding.Number.Binary64

/-!
Expressions of binding attributes. Every node carries the span of source bytes it was read
from. A tree can also be built without a source, so nothing ties the texts in it to the
texts that a parser would accept.
-/
namespace TemplateBinding

structure Span where
  start : Nat
  stop : Nat
deriving DecidableEq

def Span.length (s : Span) : Nat := s.stop - s.start

inductive Literal
  | string (value : Text)
  | number (value : Binary64)
  | boolean (value : Bool)
  | null
  | undefined
deriving DecidableEq

structure Key where
  text : Text
  quoted : Bool
deriving DecidableEq

/-- `implicitThis` stands before a bare name, and has no text. The keys and the values of
an object are two lists, which the parser makes equally long. -/
inductive Expr
  | empty (span : Span)
  | implicitThis (span : Span)
  | explicitThis (span : Span)
  | chain (span : Span) (items : List Expr)
  | conditional (span : Span) (condition yes no : Expr)
  | property (span : Span) (receiver : Expr) (name : Text)
  | keyed (span : Span) (receiver key : Expr)
  | setProperty (span : Span) (receiver : Expr) (name : Text) (value : Expr)
  | setKeyed (span : Span) (receiver key value : Expr)
  | filter (span : Span) (subject : Expr) (name : Text) (args : List Expr)
  | literal (span : Span) (value : Literal)
  | array (span : Span) (items : List Expr)
  | object (span : Span) (keys : List Key) (values : List Expr)
  | binary (span : Span) (operation : Text) (left right : Expr)
  | negation (span : Span) (operand : Expr)
  | unary (span : Span) (sign : Text) (operand : Expr)
  | call (span : Span) (callee : Expr) (args : List Expr)
  | parenthesized (span : Span) (inner : Expr)

instance : Inhabited Expr := ⟨.empty ⟨0, 0⟩⟩

namespace Expr

def span : Expr → Span
  | .empty s | .implicitThis s | .explicitThis s | .chain s _ | .conditional s ..
  | .property s .. | .keyed s .. | .setProperty s .. | .setKeyed s .. | .filter s ..
  | .literal s _ | .array s _ | .object s .. | .binary s .. | .negation s _ | .unary s ..
  | .call s .. | .parenthesized s _ => s

def children : Expr → List Expr
  | .empty _ | .implicitThis _ | .explicitThis _ | .literal .. => []
  | .chain _ items | .array _ items => items
  | .conditional _ condition yes no => [condition, yes, no]
  | .property _ receiver _ => [receiver]
  | .keyed _ receiver key => [receiver, key]
  | .setProperty _ receiver _ value => [receiver, value]
  | .setKeyed _ receiver key value => [receiver, key, value]
  | .filter _ subject _ args => subject :: args
  | .object _ _ values => values
  | .binary _ _ left right => [left, right]
  | .negation _ operand | .unary _ _ operand => [operand]
  | .call _ callee args => callee :: args
  | .parenthesized _ inner => [inner]

def isImplicitThis : Expr → Bool
  | .implicitThis _ => true
  | _ => false

def isFilter : Expr → Bool
  | .filter .. => true
  | _ => false

def isAssignable : Expr → Bool
  | .property .. | .keyed .. => true
  | _ => false

mutual

/-- The names of the filters applied anywhere in an expression, outermost first. -/
def filterNames : Expr → List Text
  | .empty _ | .implicitThis _ | .explicitThis _ | .literal .. => []
  | .chain _ items | .array _ items => filterNamesOfAll items
  | .conditional _ condition yes no => filterNames condition ++ filterNames yes ++ filterNames no
  | .property _ receiver _ => filterNames receiver
  | .keyed _ receiver key => filterNames receiver ++ filterNames key
  | .setProperty _ receiver _ value => filterNames receiver ++ filterNames value
  | .setKeyed _ receiver key value => filterNames receiver ++ filterNames key ++ filterNames value
  | .filter _ subject name args => name :: (filterNames subject ++ filterNamesOfAll args)
  | .object _ _ values => filterNamesOfAll values
  | .binary _ _ left right => filterNames left ++ filterNames right
  | .negation _ operand | .unary _ _ operand => filterNames operand
  | .call _ callee args => filterNames callee ++ filterNamesOfAll args
  | .parenthesized _ inner => filterNames inner

def filterNamesOfAll : List Expr → List Text
  | [] => []
  | e :: es => filterNames e ++ filterNamesOfAll es

end

theorem filterNamesOfAll_eq (es : List Expr) : filterNamesOfAll es = es.flatMap filterNames := by
  induction es with
  | nil => rfl
  | cons e es ih => simp [filterNamesOfAll, ih]

theorem filterNames_eq_children (e : Expr) :
    e.filterNames =
      (match e with | .filter _ _ name _ => [name] | _ => [])
        ++ e.children.flatMap filterNames := by
  cases e <;> simp [filterNames, children, filterNamesOfAll_eq]

end Expr
end TemplateBinding
