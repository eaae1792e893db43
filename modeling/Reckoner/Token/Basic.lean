import Reckoner.Arithmetic.Builtin
import Reckoner.Arithmetic.Operator
import Reckoner.Decimal.Style
import Reckoner.Source.Position

/-!
# Tokens

A token is a lexeme whose meaning is known: a number, an operator, the name of a built-in function,
any other name, or punctuation.
-/

namespace Reckoner

namespace Token

/-- What a token means. -/
inductive Kind where
  | number (value : Float)
  | operator (op : Operator)
  | builtin (function : Builtin)
  | name (name : String)
  | openParen
  | closeParen
  | comma
  deriving DecidableEq

/-- A token kind as it is shown to the user. -/
def Kind.text : Kind → String
  | number value => "Number: " ++ Style.plain.write value
  | operator op => "Operator: " ++ op.text
  | builtin function => "Function: " ++ function.name
  | name text => "Variable: " ++ text
  | openParen => "Open paren"
  | closeParen => "Close paren"
  | comma => "Comma"

end Token

/-- A token of a source text, with the position of its first character. -/
structure Token where
  kind : Token.Kind
  position : Position
  deriving DecidableEq

end Reckoner
