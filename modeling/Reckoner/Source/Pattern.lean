import Reckoner.Source.Category

/-!
# Lexical patterns

A pattern matches one character of a class, or as many characters of the class in a row as there
are. At every place of a text several patterns may match, and the one with the longest match counts.
`Pattern.all` lists the patterns, each with the category of its characters and with what becomes of
the text that it matches.
-/

namespace Reckoner

/-- A class of characters, given by ranges: the characters in them, or all the others. -/
structure CharClass where
  complemented : Bool
  ranges : List (Char × Char)
  deriving DecidableEq

namespace CharClass

/-- Is a character in one of several ranges? -/
def inRanges (ranges : List (Char × Char)) (c : Char) : Bool :=
  ranges.any fun range => range.1 ≤ c && c ≤ range.2

/-- Does a character belong to a class? -/
def contains (members : CharClass) (c : Char) : Bool :=
  if members.complemented then !inRanges members.ranges c else inRanges members.ranges c

/-- The ranges of single characters. -/
def singles (chars : List Char) : List (Char × Char) := chars.map fun c => (c, c)

end CharClass

/-- What becomes of the text that a pattern matches. -/
inductive Effect where
  /-- It is a lexeme. -/
  | emit
  /-- It is dropped. -/
  | skip
  /-- It is dropped, and a row starts behind it. -/
  | startRow
  deriving DecidableEq, Repr

/-- A lexical pattern. -/
structure Pattern where
  category : Category
  members : CharClass
  /-- Does the pattern match as many characters as there are? -/
  repeats : Bool
  effect : Effect
  deriving DecidableEq

namespace Pattern

/-- The patterns of expressions. -/
def all : List Pattern :=
  [⟨.letter, ⟨true, ('0', '9') :: CharClass.singles
      ['.', '+', '-', '*', '/', '%', '(', ')', ',', '\t', ' ', '\n']⟩, true, .emit⟩,
    ⟨.number, ⟨false, ('0', '9') :: CharClass.singles ['.']⟩, true, .emit⟩,
    ⟨.operator, ⟨false, CharClass.singles ['+', '-', '*', '/', '%']⟩, false, .emit⟩,
    ⟨.parenthesis, ⟨false, CharClass.singles ['(', ')']⟩, false, .emit⟩,
    ⟨.whitespace, ⟨false, CharClass.singles [' ', '\t']⟩, true, .skip⟩,
    ⟨.whitespace, ⟨false, CharClass.singles ['\n']⟩, false, .startRow⟩,
    ⟨.comma, ⟨false, CharClass.singles [',']⟩, false, .emit⟩]

/-- The characters that a pattern matches behind a first one, if it matches at all. -/
def tail? (pattern : Pattern) (first : Char) (rest : List Char) : Option (List Char) :=
  if pattern.members.contains first then
    some (if pattern.repeats then rest.takeWhile pattern.members.contains else [])
  else none

/-- The pattern with the longest match, and what it matches behind the first character. Of patterns
with equally long matches the first one counts. -/
def longest? (first : Char) (rest : List Char) : List Pattern → Option (Pattern × List Char)
  | [] => none
  | pattern :: others =>
    match pattern.tail? first rest, longest? first rest others with
    | none, best? => best?
    | some tail, none => some (pattern, tail)
    | some tail, some (other, otherTail) =>
      if tail.length < otherTail.length then some (other, otherTail) else some (pattern, tail)

end Pattern

end Reckoner
