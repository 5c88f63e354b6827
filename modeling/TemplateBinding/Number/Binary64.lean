import TemplateBinding.Number.Decimal

/-!
Double precision numbers, as a sign and a rank. The rank of a number is its place among
the non-negative ones in increasing order, so zero has rank zero, infinity has rank
`infinityRank`, and the ranks above it are not numbers. Every finite value is a natural
multiple of `2 ^ -1074`; `units` counts them.

A decimal is read exactly: the nearest value is taken, and of two equally near ones the
one with the even rank.
-/
namespace TemplateBinding

/-- The rank is also the lower 63 bits of the interchange format. -/
structure Binary64 where
  negative : Bool
  rank : Nat
  rank_lt : rank < twoTo 63
deriving DecidableEq

namespace Binary64

def infinityRank : Nat := 2047 * twoTo 52

def ofBits (bits : Nat) : Binary64 where
  negative := bits / twoTo 63 % 2 = 1
  rank := bits % twoTo 63
  rank_lt := Nat.mod_lt _ (by decide)

def toBits (x : Binary64) : Nat := (if x.negative then twoTo 63 else 0) + x.rank

def isFinite (x : Binary64) : Bool := x.rank < infinityRank

def isNaN (x : Binary64) : Bool := infinityRank < x.rank

def units (rank : Nat) : Nat :=
  if rank < twoTo 52 then rank
  else (twoTo 52 + rank % twoTo 52) * twoTo (rank / twoTo 52 - 1)

def roundDiv (n d : Nat) : Nat :=
  let q := n / d
  let r := n % d
  if 2 * r < d then q else if d < 2 * r then q + 1 else q + q % 2

/-- The rank nearest to `n / d`. A significand has 53 bits, so `shift` low bits are
rounded away. A carry out of the significand lands on the next power of two. -/
def nearestRank (n d : Nat) : Nat :=
  let shift := (n * twoTo 1074 / d).log2 - 52
  min infinityRank (shift * twoTo 52 + roundDiv (n * twoTo 1074) (d * twoTo shift))

/-- The rank nearest to a decimal. Exponents far outside the range of the format are
decided without computing the power of ten. -/
def decimalRank (x : Decimal) : Nat :=
  if x.digits = 0 then 0
  else if 400 < x.exponent then infinityRank
  else if x.exponent < -(400 + x.digits.log2 : Nat) then 0
  else if 0 ≤ x.exponent then nearestRank (x.digits * tenTo x.exponent.toNat) 1
  else nearestRank x.digits (tenTo (-x.exponent).toNat)

theorem nearestRank_le (n d : Nat) : nearestRank n d ≤ infinityRank := Nat.min_le_left ..

theorem decimalRank_le (x : Decimal) : decimalRank x ≤ infinityRank := by
  unfold decimalRank
  split
  · exact Nat.zero_le _
  · split
    · exact Nat.le_refl _
    · split
      · exact Nat.zero_le _
      · split <;> exact nearestRank_le _ _

def ofDecimal (x : Decimal) : Binary64 where
  negative := false
  rank := decimalRank x
  rank_lt := Nat.lt_of_le_of_lt (decimalRank_le x) (by decide)

end Binary64
end TemplateBinding
