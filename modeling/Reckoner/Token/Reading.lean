import Reckoner.CompileError
import Reckoner.Decimal.Numeral
import Reckoner.Source.Reading
import Reckoner.Text.Uppercase

/-!
# Reading tokens

The first character of a lexeme decides what it is. Text that starts like a number has to be a
numeral, a name with an uppercase initial has to be in the catalog of built-in functions, and every
other name is kept as it stands.
-/

namespace Reckoner.Token

/-- The meaning of a lexeme that starts with the given character, or what is wrong with it. -/
def Kind.ofText (first : Char) (text : String) : Except Fault Kind :=
  match Category.ofChar first with
  | .number =>
    match Numeral.read text with
    | .ok value => .ok (.number value)
    | .error _ => .error (.invalidNumeral text)
  | .operator =>
    match Operator.ofSymbol? first with
    | some op => .ok (.operator op)
    | none => .error (.malformed (.unknownOperator first))
  | .parenthesis => .ok (if first = '(' then .openParen else .closeParen)
  | .comma => .ok .comma
  | .letter =>
    if Text.isUppercase first then
      match Builtin.ofName? text with
      | some function => .ok (.builtin function)
      | none => .error (.unknownFunction text)
    else .ok (.name text)
  | .whitespace => .error (.malformed .blankLexeme)

/-- The token that a lexeme stands for. -/
def ofLexeme (lexeme : Lexeme) : Except CompileError Token :=
  match lexeme.text.toList with
  | [] => .error (.fault (.malformed .emptyLexeme) lexeme.position)
  | first :: _ =>
    match Kind.ofText first lexeme.text with
    | .ok kind => .ok ⟨kind, lexeme.position⟩
    | .error cause => .error (.fault cause lexeme.position)

/-- The tokens that lexemes stand for, or the error of the first one that stands for none. -/
def ofLexemes (lexemes : List Lexeme) : Except CompileError (List Token) :=
  lexemes.mapM ofLexeme

/-- The tokens of a source text. -/
def ofSource (source : String) : Except CompileError (List Token) := do
  let lexemes ← Lexeme.ofSource source
  ofLexemes lexemes

end Reckoner.Token
