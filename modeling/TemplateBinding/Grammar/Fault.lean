import TemplateBinding.Expr.Basic
import TemplateBinding.Grammar.Token
import TemplateBinding.Text.Blank

/-!
What can be wrong with the text of an expression. A fault names a cause and the byte
position where it was noticed. Causes that quote the source hold the span to be quoted.
-/
namespace TemplateBinding.Grammar

inductive Cause
  | unconsumed (text : Text)
  | filterInChain
  | trailing (text : Text)
  | filterNameExpected
  | notAssignable (span : Span)
  | incompleteConditional (span : Span)
  | memberNameExpected (found : Option Text)
  | missing (mark : Char)
  | endOfText
  | reserved (word : Text)
  | unexpected (text : Text)
  | keyExpected
deriving DecidableEq

structure Fault where
  cause : Cause
  column : Nat
deriving DecidableEq

def Cause.message (source : Text) : Cause → Text
  | .unconsumed text => "Unconsumed token " ++ text
  | .filterInChain => "Cannot have a filter in a chain"
  | .trailing text => "Unexpected token '" ++ text ++ "'"
  | .filterNameExpected => "Expected filter name"
  | .notAssignable span =>
    "Expression " ++ Text.slice span.start span.stop source ++ " is not assignable"
  | .incompleteConditional span =>
    "Conditional expression " ++ Text.trimEnd (Text.slice span.start span.stop source)
      ++ " requires all 3 expressions"
  | .memberNameExpected (some text) =>
    "Unexpected token " ++ text ++ ", expected identifier or keyword"
  | .memberNameExpected none => "Unexpected end of expression, expected identifier or keyword"
  | .missing mark => "Missing expected " ++ [mark]
  | .endOfText => "Unexpected end of expression"
  | .reserved word => "Unexpected keyword " ++ word
  | .unexpected text => "Unexpected token " ++ text
  | .keyExpected => "Expected property name"

/-- Why a text is no expression: a piece of it is no token, or the tokens do not fit. -/
inductive Error
  | lexical (column : Nat) (fault : LexicalFault)
  | grammatical (fault : Fault)
deriving DecidableEq

def Error.message (source : Text) : Error → Text
  | .lexical column fault => fault.message column source
  | .grammatical fault =>
    fault.cause.message source ++ " at column " ++ naturalText fault.column

end TemplateBinding.Grammar
