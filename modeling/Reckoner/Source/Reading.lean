import Reckoner.CompileError
import Reckoner.Source.Lexeme
import Reckoner.Source.Pattern
import Reckoner.Text.Bytes

/-!
# Reading lexemes

A source text is read from left to right, by the longest match of the lexical patterns at every
place. Places are byte offsets, and the row is known with the offset at which it starts, so that the
column of a lexeme is the number of characters between the two. `Lexeme.scan` describes the same
lexemes without patterns and offsets.
-/

namespace Reckoner

/-- The row that is being read, and the byte offset of its first character. -/
structure Row where
  number : Nat
  start : Nat
  deriving DecidableEq, Repr

namespace Row

/-- The first row of a text. -/
def first : Row := ⟨1, 0⟩

/-- The position at a byte offset of a text. -/
def position (row : Row) (source : List Char) (offset : Nat) : Position :=
  ⟨(Text.slice source row.start offset).length + 1, row.number⟩

end Row

namespace Lexeme

/-- The lexemes of the part of a source text that starts at a byte offset. -/
def readFrom (source : List Char) (row : Row) (offset : Nat) :
    List Char → Except CompileError (List Lexeme)
  | [] => .ok []
  | first :: rest =>
    let position := row.position source offset
    match Pattern.longest? first rest Pattern.all with
    | none =>
      .error (.fault (.malformed (.unclassifiable (String.ofList [first]))) position)
    | some (pattern, tail) =>
      let stop := offset + Text.byteCount (first :: tail)
      let following := rest.drop tail.length
      match pattern.effect with
      | .emit => do
        let lexemes ← readFrom source row stop following
        .ok (⟨String.ofList (first :: tail), pattern.category, position⟩ :: lexemes)
      | .skip => readFrom source row stop following
      | .startRow => readFrom source ⟨row.number + 1, stop⟩ stop following
  termination_by text => text.length
  decreasing_by all_goals simp only [List.length_drop, List.length_cons]; omega

/-- The lexemes of a source text. -/
def ofSource (source : String) : Except CompileError (List Lexeme) :=
  readFrom source.toList .first 0 source.toList

end Lexeme

end Reckoner
