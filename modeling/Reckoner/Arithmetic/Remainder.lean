import Reckoner.Binary64.Signed

/-!
# Exact remainder

The remainder of a truncated division has the sign of the dividend and is never rounded, for the
remainder of two numbers of units is itself the value of a pattern. It is undefined for an infinite
dividend and for the divisor zero, and an infinite divisor leaves the dividend as it is.
-/

namespace Reckoner

/-- The remainder of the truncated division of two numbers. -/
def remainder (x y : Float) : Float :=
  if x.isNaN || y.isNaN || x.isInf || Binary64.magnitude y == 0 then Binary64.undefined
  else if y.isInf then x
  else
    let dividend := Binary64.units (Binary64.magnitude x)
    let divisor := Binary64.units (Binary64.magnitude y)
    Binary64.ofMagnitude (Binary64.isNegative x) (Binary64.index (dividend % divisor))

end Reckoner
