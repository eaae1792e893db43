import Reckoner.Decimal.Numeral

/-!
# The grammar of numerals

Which texts are numerals, told without reading them.
-/

namespace Reckoner.Numeral

/-- A sign or nothing. -/
def IsSign (text : List Char) : Prop := text ∈ [[], ['+'], ['-']]

/-- A word for infinity or for an undefined result, in any case. -/
def IsWord (text : List Char) : Prop :=
  text.map Char.toLower ∈ ["inf".toList, "infinity".toList, "nan".toList]

/-- Digits with at most one point among them, and at least one digit. -/
structure IsMantissa (text : List Char) : Prop where
  chars : ∀ c ∈ text, c.isDigit ∨ c = '.'
  exists_digit : ∃ c ∈ text, c.isDigit
  count_point : text.count '.' ≤ 1

/-- Nothing, or the letter `e` in any case, a sign if need be, and digits. -/
inductive IsExponent : List Char → Prop where
  | nil : IsExponent []
  | cons {letter sign digits} : letter = 'e' ∨ letter = 'E' → IsSign sign → digits ≠ [] →
      (∀ c ∈ digits, c.isDigit) → IsExponent (letter :: (sign ++ digits))

/-- A sign if need be, and a word or a decimal fraction. -/
inductive IsNumeral : List Char → Prop where
  | word {sign word} : IsSign sign → IsWord word → IsNumeral (sign ++ word)
  | fraction {sign mantissa exponent} : IsSign sign → IsMantissa mantissa →
      IsExponent exponent → IsNumeral (sign ++ (mantissa ++ exponent))

end Reckoner.Numeral
