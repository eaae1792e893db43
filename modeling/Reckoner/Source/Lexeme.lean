import Reckoner.Source.Category
import Reckoner.Source.Position

/-!
# Lexemes

A lexeme is a piece of source text with the category of its characters and the position of the
first one. `Lexeme.scan` cuts a text into maximal runs of one category, leaves the characters that
stand alone by themselves, and drops the white space.
-/

namespace Reckoner

/-- A run of characters of one category in a source text. -/
structure Lexeme where
  text : String
  category : Category
  position : Position
  deriving DecidableEq, Repr

namespace Lexeme

/-- The lexemes of a text whose first character stands at the given position. -/
def scanFrom (position : Position) : List Char → List Lexeme
  | [] => []
  | c :: rest =>
    let category := Category.ofChar c
    let tail := category.extent rest
    let following := scanFrom (position.after (c :: tail)) (rest.drop tail.length)
    if category = .whitespace then following
    else ⟨String.ofList (c :: tail), category, position⟩ :: following
  termination_by text => text.length
  decreasing_by simp only [List.length_drop, List.length_cons]; omega

/-- The lexemes of a source text, in order. -/
def scan (source : String) : List Lexeme :=
  scanFrom .start source.toList

end Lexeme

end Reckoner
