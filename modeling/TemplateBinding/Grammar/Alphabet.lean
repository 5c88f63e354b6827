/-!
The character classes of the expression language. All are ASCII, except that the no-break
space counts as layout.
-/
namespace TemplateBinding.Grammar

def layout : List Char := [' ', '\t', '\n', '\x0b', '\x0c', '\r', '\u00a0']

def isLayout (c : Char) : Bool := layout.contains c

def isDigit (c : Char) : Bool := '0' ≤ c && c ≤ '9'

def isNameStart (c : Char) : Bool :=
  ('a' ≤ c && c ≤ 'z') || ('A' ≤ c && c ≤ 'Z') || c = '_' || c = '$'

def isNamePart (c : Char) : Bool := isNameStart c || isDigit c

def isQuote (c : Char) : Bool := c = '\'' || c = '"'

/-- Characters that are tokens of their own. A point that a digit follows begins a number. -/
def punctuation : List Char := ['(', ')', '[', ']', '{', '}', ',', ':', ';', '.']

end TemplateBinding.Grammar
