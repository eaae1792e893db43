import Reckoner.Arithmetic.Builtin
import Reckoner.Arithmetic.Operator

/-!
# Operations

What a program applies to its operands: an operator, which takes two of them, or a built-in
function, which takes as many as its arity says.
-/

namespace Reckoner

/-- An operator or a built-in function. -/
inductive Operation where
  | operator (op : Operator)
  | builtin (function : Builtin)
  deriving DecidableEq, Repr

namespace Operation

/-- The number of operands of an operation. -/
def arity : Operation → Nat
  | operator _ => 2
  | builtin function => function.arity

/-- An operation as it is written in a program. -/
def text : Operation → String
  | operator op => op.text
  | builtin function => function.name

/-- The result of an operation, unless the number of operands is wrong. -/
def result? : Operation → List Float → Option Float
  | operator op, [x, y] => some (op.apply x y)
  | operator _, _ => none
  | builtin function, operands => function.result? operands

/-- An operation has a result exactly when it gets as many operands as it takes. -/
theorem result?_isSome (operation : Operation) (operands : List Float) :
    (operation.result? operands).isSome = (operands.length == operation.arity) := by
  match operation, operands with
  | .operator _, [] | .operator _, [_] | .operator _, [_, _] => rfl
  | .operator _, _ :: _ :: _ :: _ => simp [result?, arity]
  | .builtin function, [] | .builtin function, [_] | .builtin function, [_, _] =>
    cases function <;> rfl
  | .builtin function, _ :: _ :: _ :: _ => cases function <;> simp [result?, arity, Builtin.result?,
      Builtin.arity]

end Operation

end Reckoner
