import TemplateBinding.Number.Binary64

/-!
Number texts. A finite number is written with the fewest digits that read back to it; of
two such decimals the nearer one is taken, and a tie goes the way the format says. The
search tries each count of digits up to seventeen on the two neighbours of the value. If
nothing were found, the exact decimal value would be written.
-/
namespace TemplateBinding.Binary64

/-- Where a value goes that is midway between two shortest decimals. -/
inductive Tie
  | up
  | even

/-- The power of ten `k` with `10 ^ (k - 1) ≤ value < 10 ^ k`. -/
def decimalScale (rank : Nat) : Int :=
  ((naturalText (units rank * tenTo 400 / twoTo 1074)).length : Int) - 400

def inPowersOfTen (rank : Nat) (exponent : Int) : Nat × Nat :=
  if 0 ≤ exponent then (units rank, twoTo 1074 * tenTo exponent.toNat)
  else (units rank * tenTo (-exponent).toNat, twoTo 1074)

def neighbour? (tie : Tie) (rank : Nat) (exponent : Int) : Option Decimal :=
  let (n, d) := inPowersOfTen rank exponent
  let below : Decimal := ⟨n / d, exponent⟩
  let above : Decimal := ⟨n / d + 1, exponent⟩
  let up : Bool :=
    if 2 * (n % d) = d then
      match tie with
      | .up => true
      | .even => n / d % 2 = 1
    else d < 2 * (n % d)
  let (first, second) := if up then (above, below) else (below, above)
  if decimalRank first = rank then some first
  else if decimalRank second = rank then some second
  else none

def exactDecimal (rank : Nat) : Decimal := ⟨units rank * (tenTo 1074 / twoTo 1074), -1074⟩

def shortest (tie : Tie) (rank : Nat) : Decimal :=
  if rank = 0 then ⟨0, 0⟩
  else
    let found := (List.range 17).findSome? fun (count : Nat) =>
      neighbour? tie rank (decimalScale rank - (count + 1))
    (found.getD (exactDecimal rank)).stripped

def signText (x : Binary64) : Text := if x.negative then ['-'] else []

def plainText (x : Binary64) : Text :=
  if x.isNaN then "NaN"
  else if x.isFinite then signText x ++ (shortest .up x.rank).positional
  else signText x ++ "inf"

def withPoint (d : Decimal) : Text :=
  if 0 ≤ d.exponent then d.positional ++ ".0" else d.positional

/-- Numbers in documents keep a point, and change to an exponent from `10 ^ 16` on and
below `10 ^ -5`. What is not finite has no text there. -/
def documentText? (x : Binary64) : Option Text :=
  if x.isFinite then
    let d := shortest .even x.rank
    let body :=
      if d.digits = 0 ∨ (-5 ≤ d.leadingPower ∧ d.leadingPower < 16) then withPoint d
      else d.scientific
    some (signText x ++ body)
  else none

end TemplateBinding.Binary64
