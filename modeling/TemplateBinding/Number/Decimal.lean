import TemplateBinding.Text.Basic

/-!
Decimal numbers `digits * 10 ^ exponent`, the digits of a natural number, and the two
written forms of a decimal: positional, and with an exponent. Powers of two and of ten are
named, for they are all that the arithmetic of numbers needs.
-/
namespace TemplateBinding

def twoTo (n : Nat) : Nat := Nat.pow 2 n

def tenTo (n : Nat) : Nat := Nat.pow 10 n

def digitChar (d : Nat) : Char := Char.ofNat (48 + d)

def digitValue (c : Char) : Nat := c.toNat - 48

def naturalText (n : Nat) : Text :=
  if n < 10 then [digitChar n] else naturalText (n / 10) ++ [digitChar (n % 10)]

def digitsValue (ds : Text) : Nat :=
  ds.foldl (fun n c => 10 * n + digitValue c) 0

structure Decimal where
  digits : Nat
  exponent : Int
deriving DecidableEq, Repr

namespace Decimal

def stripped (d : Decimal) : Decimal :=
  if 0 < d.digits ∧ d.digits % 10 = 0 then stripped ⟨d.digits / 10, d.exponent + 1⟩ else d
termination_by d.digits
decreasing_by omega

def zeros (n : Nat) : Text := List.replicate n '0'

def positional (d : Decimal) : Text :=
  let ds := naturalText d.digits
  if 0 ≤ d.exponent then ds ++ zeros d.exponent.toNat
  else
    let places := (-d.exponent).toNat
    if places < ds.length then
      ds.take (ds.length - places) ++ '.' :: ds.drop (ds.length - places)
    else '0' :: '.' :: zeros (places - ds.length) ++ ds

def leadingPower (d : Decimal) : Int :=
  d.exponent + (naturalText d.digits).length - 1

def scientific (d : Decimal) : Text :=
  let mantissa := match naturalText d.digits with
    | [] => []
    | [c] => [c]
    | c :: cs => c :: '.' :: cs
  let power := d.leadingPower
  mantissa ++ 'e' :: (if power < 0 then '-' else '+') :: naturalText power.natAbs

end Decimal
end TemplateBinding
