import Reckoner.Binary64.Signed
import Reckoner.Decimal.Shortest

/-!
# Writing numbers

A number is written with the fewest digits that read back as the same number. A `Style` fixes the
rest: where positional writing ends and an exponent begins, what marks a whole number, which way
ties go, and the names of infinity and of undefined results.
-/

namespace Reckoner

/-- How numbers are written. -/
structure Style where
  /-- Of two shortest decimal fractions that are equally near, is the even one written? Otherwise
  the larger one is. -/
  tieToEven : Bool
  /-- The powers of ten of a leading digit that is written without an exponent. -/
  positional : Int → Bool
  /-- What ends a whole number that is written without an exponent. -/
  wholeMark : String
  infinity : String
  negativeInfinity : String
  undefined : String

namespace Style

/-- The style of results: always positional, and whole numbers have no point. -/
def plain : Style where
  tieToEven := false
  positional _ := true
  wholeMark := ""
  infinity := "inf"
  negativeInfinity := "-inf"
  undefined := "NaN"

/-- The style of stored programs: an exponent from `10 ^ 16` on and below `10 ^ -5`, and always a
point or an exponent. Numbers that are not finite cannot be stored. -/
def stored : Style where
  tieToEven := true
  positional power := -5 ≤ power && power < 16
  wholeMark := ".0"
  infinity := "null"
  negativeInfinity := "null"
  undefined := "null"

/-- Digits written out in full: zeros fill the places up to the point on either side. -/
def writePositional (style : Style) (digits : List Char) (exponent : Int) : List Char :=
  if 0 ≤ exponent then
    digits ++ List.replicate exponent.toNat '0' ++ style.wholeMark.toList
  else
    let places := (-exponent).toNat
    if places < digits.length then
      digits.take (digits.length - places) ++ '.' :: digits.drop (digits.length - places)
    else '0' :: '.' :: List.replicate (places - digits.length) '0' ++ digits

/-- A leading digit, the others after a point, and the power of ten of the leading digit with its
sign. -/
def writeScientific (digits : List Char) (power : Int) : List Char :=
  let fraction := digits.drop 1
  let sign := if power < 0 then '-' else '+'
  digits.take 1 ++ (if fraction = [] then [] else '.' :: fraction) ++
    'e' :: sign :: Nat.toDigits 10 power.natAbs

/-- A decimal fraction in a style. -/
def writeDecimal (style : Style) (number : Decimal) : List Char :=
  let digits := Nat.toDigits 10 number.coefficient
  let power := number.exponent + digits.length - 1
  if style.positional power then style.writePositional digits number.exponent
  else writeScientific digits power

/-- A finite number in a style. -/
def writeFinite (style : Style) (x : Float) : List Char :=
  let unsigned := style.writeDecimal (.shortest style.tieToEven (Binary64.magnitude x))
  if Binary64.isNegative x then '-' :: unsigned else unsigned

/-- A number in a style. -/
def write (style : Style) (x : Float) : String :=
  if Binary64.magnitude x < Binary64.infinityBits then .ofList (style.writeFinite x)
  else if Binary64.magnitude x = Binary64.infinityBits then
    if Binary64.isNegative x then style.negativeInfinity else style.infinity
  else style.undefined

end Style

end Reckoner
