import TemplateBinding.Number.Binary64

/-!
The tokens of the expression language. A token carries the byte positions where it begins
and ends. Text that is no token is kept in the list as an invalid token.
-/
namespace TemplateBinding.Grammar

inductive LexicalFault
  | unexpected (c : Char)
  | malformedNumeral (spelling : Text)
  | unterminatedQuote
deriving DecidableEq

inductive Lexeme
  | punctuation (mark : Char)
  | identifier (name : Text)
  | keyword (word : Text)
  | string (value : Text)
  | operator (symbol : Text)
  | number (value : Binary64) (spelling : Text)
  | invalid (fault : LexicalFault)
deriving DecidableEq

structure Token where
  start : Nat
  stop : Nat
  lexeme : Lexeme
deriving DecidableEq

def keywords : List Text := ["null", "undefined", "true", "false", "this", "in"]

/-- Every operator stands before its own beginnings, so the first match is the longest. -/
def operators : List Text :=
  ["===", "!==", "==", "!=", "<=", ">=", "&&", "||",
   "=", "!", "<", ">", "+", "-", "*", "/", "%", "?", "|"]

/-- The text of a token: the value of a string, and otherwise its spelling. -/
def Lexeme.text : Lexeme → Text
  | .punctuation mark => [mark]
  | .identifier name => name
  | .keyword word => word
  | .string value => value
  | .operator symbol => symbol
  | .number _ spelling => spelling
  | .invalid _ => []

def Lexeme.isInvalid : Lexeme → Bool
  | .invalid _ => true
  | _ => false

def LexicalFault.reason : LexicalFault → Text
  | .unexpected c => "Unexpected character [" ++ [c] ++ "]"
  | .malformedNumeral spelling => "Invalid number [" ++ spelling ++ "]"
  | .unterminatedQuote => "Unterminated quote"

def LexicalFault.message (fault : LexicalFault) (column : Nat) (source : Text) : Text :=
  "Lexer Error: " ++ fault.reason ++ " at column " ++ naturalText column
    ++ " in expression [" ++ source ++ "]"

end TemplateBinding.Grammar
