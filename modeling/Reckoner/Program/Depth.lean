import Reckoner.Program.Execution

/-!
# Depth of the stack

How many numbers are on the stack in front of an instruction is known without running the program,
and so is what goes wrong there. `Program.depth` counts what the instructions add and take away, and
`Program.defectAt?` is what is wrong with an instruction at this depth. Neither looks at a number.
-/

namespace Reckoner

namespace Instruction

/-- The numbers that an instruction adds to the stack, less those that it takes away. -/
def gain : Instruction → Int
  | push _ | load _ => 1
  | apply operation => 1 - operation.arity

/-- What is wrong with an instruction that finds so many numbers on the stack: a name is neither
bound nor that of a constant, or an operation takes more numbers than there are. -/
def defect? (bindings : Bindings) (depth : Int) : Instruction → Option EvaluationError
  | push _ => none
  | load name =>
    if (bindings.value? name).isNone ∧ (Constant.value? name).isNone then
      some (.missingVariable name)
    else none
  | apply operation =>
    if depth < operation.arity then
      some (.insufficientOperands operation.text operation.arity depth.toNat)
    else none

/-- An instruction with its number, if it has one, replaced by zero. -/
def withoutNumber : Instruction → Instruction
  | push _ => push 0
  | instruction => instruction

end Instruction

namespace Program

/-- The number of numbers on the stack in front of an instruction, and behind the last one if the
index is the length of the program. -/
def depth (program : Program) (index : Nat) : Int :=
  (program.instructions.take index).foldl (fun depth instruction => depth + instruction.gain) 0

/-- What is wrong with the instruction at an index. -/
def defectAt? (program : Program) (bindings : Bindings) (index : Nat) : Option EvaluationError :=
  program.instructions[index]?.bind (Instruction.defect? bindings (program.depth index))

end Program

end Reckoner
