import Reckoner.Binary64.Magnitude

/-!
# Decimal fractions

A decimal fraction is a coefficient times a power of ten. `Decimal.nearest` rounds it to binary64.
Powers that are certain to overflow or to vanish are decided without being computed, so that the
size of an exponent does not matter.
-/

namespace Reckoner

/-- The number `coefficient * 10 ^ exponent`. -/
structure Decimal where
  coefficient : Nat
  exponent : Int
  deriving DecidableEq, Repr

namespace Decimal

/-- The decimal fraction with the given digits before and after the point, times a power of ten. -/
def ofDigits (whole fraction : List Char) (exponent : Int) : Decimal :=
  ⟨Nat.ofDigitChars 10 (whole ++ fraction) 0, exponent - fraction.length⟩

/-- The magnitude nearest to a decimal fraction. The number is at least `10 ^ exponent`, which is
infinite from `10 ^ 310` on, and it is below `10 ^ (exponent + bits)` for a coefficient of that many
bits, which is nothing up to `10 ^ -324`. -/
def nearest (number : Decimal) : Nat :=
  if number.coefficient = 0 then 0
  else if 310 ≤ number.exponent then Binary64.infinityBits
  else if number.exponent + (number.coefficient.log2 + 1) ≤ -324 then 0
  else if 0 ≤ number.exponent then
    Binary64.nearest (number.coefficient * Nat.pow 10 number.exponent.toNat) 1
  else Binary64.nearest number.coefficient (Nat.pow 10 (-number.exponent).toNat)

end Decimal

end Reckoner
