import Reckoner.Arithmetic.Remainder

/-!
# Operators

The five binary operators, their symbols, how tightly they bind, and what they compute.
-/

namespace Reckoner

/-- A binary operator. -/
inductive Operator where
  | add
  | sub
  | mul
  | div
  | mod
  deriving DecidableEq, Repr

namespace Operator

/-- The operator that a character stands for. -/
def ofSymbol? : Char → Option Operator
  | '+' => some add
  | '-' => some sub
  | '*' => some mul
  | '/' => some div
  | '%' => some mod
  | _ => none

/-- The character that stands for an operator. -/
def symbol : Operator → Char
  | add => '+'
  | sub => '-'
  | mul => '*'
  | div => '/'
  | mod => '%'

/-- The symbol of an operator as a text. -/
def text (operator : Operator) : String := operator.symbol.toString

/-- How tightly an operator binds: multiplication, division and remainder more than the others. -/
def precedence : Operator → Nat
  | add | sub => 0
  | mul | div | mod => 1

/-- May the operator stand as a sign in front of an operand? -/
def actsAsSign : Operator → Bool
  | add | sub => true
  | mul | div | mod => false

/-- The result of an operator. Division and remainder by zero are defined, as infinite or undefined
numbers. -/
def apply : Operator → Float → Float → Float
  | add, x, y => x + y
  | sub, x, y => x - y
  | mul, x, y => x * y
  | div, x, y => x / y
  | mod, x, y => remainder x y

/-- An operator is the one that its symbol stands for. -/
theorem ofSymbol?_symbol (operator : Operator) : ofSymbol? operator.symbol = some operator := by
  cases operator <;> rfl

end Operator

end Reckoner
