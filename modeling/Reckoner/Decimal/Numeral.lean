import Reckoner.Binary64.Signed
import Reckoner.Decimal.Basic

/-!
# Numerals

A numeral is an optional sign followed by a decimal fraction or by one of the words `inf`,
`infinity` and `nan` in any case. A decimal fraction has digits with at most one point among them,
at least one digit, and possibly an exponent. `Numeral.read` gives the nearest binary64 number.
-/

namespace Reckoner

/-- Why a text is not a numeral. -/
inductive NumeralError where
  | empty
  | invalid
  deriving DecidableEq, Repr

/-- The wording of a failure to read a numeral. -/
def NumeralError.message : NumeralError → String
  | empty => "cannot parse float from empty string"
  | invalid => "invalid float literal"

namespace Numeral

/-- Splits off a leading sign. The flag tells whether it is a minus. -/
def splitSign : List Char → Bool × List Char
  | '+' :: rest => (false, rest)
  | '-' :: rest => (true, rest)
  | text => (false, text)

/-- The exponent that ends a numeral: nothing, or the letter `e` and an integer. -/
def exponent? : List Char → Option Int
  | [] => some 0
  | c :: rest =>
    if c = 'e' ∨ c = 'E' then
      let (negative, digits) := splitSign rest
      if digits ≠ [] ∧ digits.all Char.isDigit then
        let size : Int := Nat.ofDigitChars 10 digits 0
        some (if negative then -size else size)
      else none
    else none

/-- The digits after the point, if the text goes on with one, and what follows them. -/
def splitFraction : List Char → List Char × List Char
  | '.' :: rest =>
    let digits := rest.takeWhile Char.isDigit
    (digits, rest.drop digits.length)
  | rest => ([], rest)

/-- A decimal fraction as it is written, without a sign. -/
structure Parts where
  /-- The digits before the point. -/
  whole : List Char
  /-- The digits after the point. -/
  fraction : List Char
  exponent : Int
  deriving DecidableEq

/-- The parts of a text without a sign. -/
def parts? (text : List Char) : Option Parts :=
  let whole := text.takeWhile Char.isDigit
  let (fraction, rest) := splitFraction (text.drop whole.length)
  if whole = [] ∧ fraction = [] then none
  else (exponent? rest).map fun exponent => ⟨whole, fraction, exponent⟩

/-- The decimal fraction that a text without a sign stands for. -/
def decimal? (text : List Char) : Option Decimal :=
  (parts? text).map fun parts => .ofDigits parts.whole parts.fraction parts.exponent

/-- The number that a text without a sign stands for, given its sign. -/
def unsigned? (negative : Bool) (text : List Char) : Option Float :=
  match text.map Char.toLower with
  | ['i', 'n', 'f'] | ['i', 'n', 'f', 'i', 'n', 'i', 't', 'y'] =>
    some (Binary64.ofMagnitude negative Binary64.infinityBits)
  | ['n', 'a', 'n'] => some Binary64.undefined
  | _ => (decimal? text).map fun number => Binary64.ofMagnitude negative number.nearest

/-- The number that a text stands for. -/
def read (text : String) : Except NumeralError Float :=
  if text.isEmpty then .error .empty
  else
    let (negative, digits) := splitSign text.toList
    match unsigned? negative digits with
    | some number => .ok number
    | none => .error .invalid

end Numeral

end Reckoner
