import Reckoner.Arithmetic.Operation

/-!
# Errors of evaluation

A program fails on a name without a value, on an operation with too few operands, or because it
does not leave exactly one number.
-/

namespace Reckoner

/-- Why a program has no result. -/
inductive EvaluationError where
  | missingVariable (name : String)
  /-- An operation, as it is written in a program, takes more operands than there are. -/
  | insufficientOperands (operation : String) (required available : Nat)
  /-- The number of values that are left at the end. -/
  | unexpectedDepth (depth : Nat)
  deriving DecidableEq, Repr

/-- The wording of an error. -/
def EvaluationError.message : EvaluationError → String
  | missingVariable name => "Evaluation error: Missing required variable '" ++ name ++ "'."
  | insufficientOperands operation required available =>
    "Evaluation error: '" ++ operation ++ "' needs " ++ toString required ++
      " operand(s), but only " ++ toString available ++ " available."
  | unexpectedDepth depth =>
    "Evaluation error: Program left " ++ toString depth ++
      " value(s) on the stack instead of exactly one."

/-- The result of an operation on any list of operands. -/
def Operation.apply (operation : Operation) (operands : List Float) :
    Except EvaluationError Float :=
  match operation.result? operands with
  | some result => .ok result
  | none => .error (.insufficientOperands operation.text operation.arity operands.length)

end Reckoner
