import Reckoner.Binary64.Signed
import Reckoner.Decimal.Numeral

/-!
# Numbers of JSON

A number of JSON is a decimal fraction with an optional minus. It has no superfluous zeros at its
beginning and at least one digit after its point. Its value is found in three steps: the leading
digits that make a coefficient below `2 ^ 64` are taken, the coefficient is rounded to binary64, and
the result is multiplied by a power of ten or divided by one. Every step rounds for itself, so the
value can be a neighbour of the nearest one, which `Numeral.read` gives. A number that is too large
to be finite has no value.
-/

namespace Reckoner.Json.Number

/-- Does a number without a sign start with a digit, with no zero before another digit, and does a
digit follow the point? -/
def isStrict (digits : List Char) : Bool :=
  let whole := digits.takeWhile Char.isDigit
  whole ≠ [] && (whole.length = 1 || whole.head? ≠ some '0') &&
    match digits.drop whole.length with
    | ['.'] => false
    | '.' :: c :: _ => c.isDigit
    | _ => true

/-- The first number that is too large for a coefficient, which is `2 ^ 64`. -/
def coefficientBound : Nat := 0x10000000000000000

/-- Appends decimal digits to a coefficient until one would make it too large. The second component
tells how many digits are left over then. -/
def appendDigits (coefficient : Nat) : List Char → Nat × Nat
  | [] => (coefficient, 0)
  | c :: rest =>
    let longer := Nat.ofDigitChars 10 [c] coefficient
    if longer < coefficientBound then appendDigits longer rest else (coefficient, rest.length + 1)

/-- The decimal fraction that counts. Digits of the whole part that are left over still have their
places before the point. The digits after the point are appended to those that were taken before
it, even if others stand between them. -/
def leading (parts : Numeral.Parts) : Decimal :=
  let (whole, skipped) := appendDigits 0 parts.whole
  let (coefficient, ignored) := appendDigits whole parts.fraction
  ⟨coefficient, parts.exponent + skipped - (parts.fraction.length - ignored : Nat)⟩

/-- The exponent of the largest power of ten that is finite. -/
def largestPower : Nat := 308

/-- The magnitude nearest to a power of ten. -/
def power (exponent : Nat) : Nat := Binary64.nearest (Nat.pow 10 exponent) 1

/-- Divides a magnitude by a power of ten, in two steps if the power is not finite. After two
divisions by the largest power nothing is left of a coefficient. -/
def divide (bits exponent : Nat) : Nat :=
  if exponent ≤ largestPower then Binary64.quotient bits (power exponent)
  else if exponent ≤ 2 * largestPower then
    let reduced := Binary64.quotient bits (power largestPower)
    Binary64.quotient reduced (power (exponent - largestPower))
  else 0

/-- Multiplies a magnitude by a power of ten, if the result is finite. -/
def multiply? (bits exponent : Nat) : Option Nat :=
  if bits = 0 then some 0
  else if exponent ≤ largestPower then
    let product := Binary64.product bits (power exponent)
    if product < Binary64.infinityBits then some product else none
  else none

/-- The magnitude of a decimal fraction with a coefficient below the bound, if it is finite. -/
def magnitude? (number : Decimal) : Option Nat :=
  let bits := Binary64.nearest number.coefficient 1
  if number.exponent < 0 then some (divide bits (-number.exponent).toNat)
  else multiply? bits number.exponent.toNat

/-- The number that a text without a sign stands for, given its sign. -/
def unsigned? (negative : Bool) (digits : List Char) : Option Float := do
  let parts ← if isStrict digits then Numeral.parts? digits else none
  let bits ← magnitude? (leading parts)
  some (Binary64.ofMagnitude negative bits)

/-- The number that a text stands for. Only a minus is a sign. -/
def read? : List Char → Option Float
  | '-' :: digits => unsigned? true digits
  | digits => unsigned? false digits

/-- The coefficient of `9007199254740993.0` is rounded up, and so is a tenth of it. -/
example : magnitude? ⟨90071992547409930, -1⟩ = some 0x4340000000000001 := by decide +kernel

/-- The nearest magnitude is the one before it. -/
example : Decimal.nearest ⟨90071992547409930, -1⟩ = 0x4340000000000000 := by decide +kernel

end Reckoner.Json.Number
