/-!
# Magnitudes of binary64 numbers

The bit patterns without a sign, from zero up to infinity, are numbered in the order of their
values. `units` is the value of a pattern on an integer scale, `index` finds the last pattern that
is not above a point of that scale, and `nearest` rounds a fraction to the closest pattern, a tie
going to the even one. Products and quotients of finite patterns are rounded the same way.
-/

namespace Reckoner.Binary64

/-- The pattern of infinity. The patterns below it are those of the finite numbers. -/
def infinityBits : Nat := 0x7FF0000000000000

/-- The number of patterns that share an exponent, which is `2 ^ 52`. -/
def binade : Nat := 0x10000000000000

/-- The number of units in the number one, which is `2 ^ 1074`. -/
def unitsPerOne : Nat := Nat.pow 2 1074

/-- The value of a pattern in multiples of `2 ^ -1074`, the smallest positive number. The pattern of
infinity is given the value `2 ^ 1024`, where the next finite number would stand. -/
def units (bits : Nat) : Nat :=
  if bits < binade then bits
  else (binade + bits % binade) * Nat.pow 2 (bits / binade - 1)

/-- The last pattern whose value is at most `n` units. -/
def index (n : Nat) : Nat :=
  let shift := n.log2 - 52
  shift * binade + n / Nat.pow 2 shift

/-- The pattern whose value is nearest to a fraction. Of two equally near patterns the even one is
taken, and fractions from halfway above the largest finite number on give infinity. -/
def nearest (numerator denominator : Nat) : Nat :=
  let scaled := numerator * unitsPerOne
  let low := index (scaled / denominator)
  let middle := (units low + units (low + 1)) * denominator
  if 2 * scaled < middle || (2 * scaled == middle && low % 2 == 0) then min low infinityBits
  else min (low + 1) infinityBits

/-- The pattern nearest to the product of two finite patterns. -/
def product (left right : Nat) : Nat :=
  nearest (units left * units right) (unitsPerOne * unitsPerOne)

/-- The pattern nearest to the quotient of two finite patterns, the second of which is not zero. -/
def quotient (left right : Nat) : Nat := nearest (units left) (units right)

end Reckoner.Binary64
