/-!
# Positions in a source text

A position counts columns and rows from one. Scanning past a newline starts the next row, and
scanning past any other character moves one column to the right. `Position.after` is the position
reached by scanning a whole text.
-/

namespace Reckoner

/-- A place in a source text. -/
structure Position where
  column : Nat
  row : Nat
  deriving DecidableEq, Repr, Inhabited

namespace Position

/-- The first character of a text. -/
def start : Position := ⟨1, 1⟩

/-- The position that follows a character. -/
def next (position : Position) (c : Char) : Position :=
  if c = '\n' then ⟨1, position.row + 1⟩ else ⟨position.column + 1, position.row⟩

/-- The position that follows a text. -/
def after (position : Position) (text : List Char) : Position :=
  text.foldl next position

/-- Positions are compared by column first and by row among equal columns. -/
instance : Ord Position where
  compare p q := (compare p.column q.column).then (compare p.row q.row)

instance : LT Position := ltOfOrd

/-- A position as it is named in messages. -/
def text (position : Position) : String :=
  s!"column {position.column}, row {position.row}"

@[simp]
theorem after_nil (position : Position) : position.after [] = position := rfl

@[simp]
theorem after_cons (position : Position) (c : Char) (text : List Char) :
    position.after (c :: text) = (position.next c).after text := rfl

/-- Scanning two texts in a row is scanning their concatenation. -/
theorem after_append (position : Position) (first second : List Char) :
    position.after (first ++ second) = (position.after first).after second :=
  List.foldl_append

end Position

end Reckoner
