import Reckoner.Binary64.Magnitude

/-!
# Signed binary64 numbers

A number is a magnitude, which is a bit pattern without a sign, together with a sign bit.
-/

namespace Reckoner.Binary64

/-- The sign bit as a pattern, which is `2 ^ 63`. -/
def signBit : Nat := 0x8000000000000000

/-- The bit pattern of a number without its sign. -/
def magnitude (x : Float) : Nat := x.toBits.toNat % signBit

/-- Is the sign bit set? It is for negative zero. -/
def isNegative (x : Float) : Bool := signBit ≤ x.toBits.toNat

/-- The number with a given sign and magnitude. -/
def ofMagnitude (negative : Bool) (bits : Nat) : Float :=
  .ofBits (.ofNat (if negative then signBit + bits else bits))

/-- Zero with the sign bit set. -/
def negativeZero : Float := ofMagnitude true 0

/-- Only the sign bit of negative zero is set. -/
theorem toBits_negativeZero : negativeZero.toBits = 0x8000000000000000 := rfl

/-- The result of an undefined operation. -/
def undefined : Float := .ofBits 0x7FF8000000000000

end Reckoner.Binary64
