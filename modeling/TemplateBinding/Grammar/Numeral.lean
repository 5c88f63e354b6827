import TemplateBinding.Grammar.Alphabet
import TemplateBinding.Number.Binary64

/-!
Numerals. A scan first takes the longest run that could be part of a numeral, and only
then asks whether the run is one, so `1.2.3` is one bad numeral and not two tokens.
-/
namespace TemplateBinding.Grammar

def isExponentMark (c : Char) : Bool := c = 'e' || c = 'E'

/-- A sign belongs to a run directly after an exponent mark only. -/
def extendsRun (afterMark : Bool) (c : Char) : Bool :=
  isDigit c || c = '.' || isExponentMark c || (afterMark && (c = '+' || c = '-'))

def numeralRun (afterMark : Bool) : Text → Text × Text
  | [] => ([], [])
  | c :: cs =>
    if extendsRun afterMark c then
      let r := numeralRun (isExponentMark c) cs
      (c :: r.1, r.2)
    else ([], c :: cs)

def exponent? (t : Text) : Option Int :=
  let (negative, ds) := match t with
    | '-' :: ds => (true, ds)
    | '+' :: ds => (false, ds)
    | ds => (false, ds)
  if ds ≠ [] ∧ ds.all isDigit then
    some (if negative then -(digitsValue ds : Int) else digitsValue ds)
  else none

/-- A numeral has digits, with at most one point among or beside them, and then perhaps an
exponent. -/
def numeral? (t : Text) : Option Decimal :=
  let whole := t.takeWhile isDigit
  let (places, tail) := match t.dropWhile isDigit with
    | '.' :: rest => (rest.takeWhile isDigit, rest.dropWhile isDigit)
    | rest => ([], rest)
  if whole ++ places = [] then none
  else
    let power := match tail with
      | [] => some 0
      | mark :: rest => if isExponentMark mark then exponent? rest else none
    power.map fun p => ⟨digitsValue (whole ++ places), p - places.length⟩

theorem numeralRun_append (afterMark : Bool) (t : Text) :
    (numeralRun afterMark t).1 ++ (numeralRun afterMark t).2 = t := by
  induction t generalizing afterMark with
  | nil => rfl
  | cons c cs ih =>
    unfold numeralRun
    split
    · simp [ih]
    · rfl

end TemplateBinding.Grammar
