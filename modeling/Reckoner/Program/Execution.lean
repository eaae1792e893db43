import Reckoner.Arithmetic.Constant
import Reckoner.Bindings
import Reckoner.EvaluationError
import Reckoner.Program.Basic

/-!
# Execution of programs

A program runs on a stack of numbers that is empty at first, and its result is the only number left
at the end. An operation takes the topmost numbers as its operands, the topmost one last. They are
counted before they are taken, hence `Operation.apply` never refuses them.
-/

namespace Reckoner

/-- The value of a name: its binding, or else the constant of that name. -/
def Bindings.resolve? (bindings : Bindings) (name : String) : Option Float :=
  (bindings.value? name).or (Constant.value? name)

/-- The stack after an instruction, the topmost number first. -/
def Instruction.run (bindings : Bindings) (stack : List Float) :
    Instruction → Except EvaluationError (List Float)
  | push value => .ok (value :: stack)
  | load name =>
    match bindings.resolve? name with
    | some value => .ok (value :: stack)
    | none => .error (.missingVariable name)
  | apply operation =>
    if stack.length < operation.arity then
      .error (.insufficientOperands operation.text operation.arity stack.length)
    else do
      let result ← operation.apply (stack.take operation.arity).reverse
      .ok (result :: stack.drop operation.arity)

namespace Program

/-- The stack after a list of instructions. -/
def runFrom (bindings : Bindings) (stack : List Float) (instructions : List Instruction) :
    Except EvaluationError (List Float) :=
  instructions.foldlM (Instruction.run bindings) stack

/-- The result of a program. -/
def execute (program : Program) (bindings : Bindings) : Except EvaluationError Float := do
  match ← runFrom bindings [] program.instructions with
  | [result] => .ok result
  | stack => .error (.unexpectedDepth stack.length)

end Program

end Reckoner
