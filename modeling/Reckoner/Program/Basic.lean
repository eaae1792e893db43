import Reckoner.Arithmetic.Operation
import Reckoner.Decimal.Style

/-!
# Programs

A program is a list of instructions for a stack of numbers, which is the postfix form of an
expression.
-/

namespace Reckoner

/-- One step of a program. -/
inductive Instruction where
  /-- Pushes a number. -/
  | push (value : Float)
  /-- Pushes the value of a name. -/
  | load (name : String)
  /-- Replaces the topmost numbers by the result of an operation on them. -/
  | apply (operation : Operation)
  deriving DecidableEq

namespace Instruction

/-- An instruction as it is written in a program. -/
def text : Instruction → String
  | push value => Style.plain.write value
  | load name => name
  | apply operation => operation.text

/-- The name whose value an instruction needs. -/
def name? : Instruction → Option String
  | load name => some name
  | _ => none

/-- Is the number that an instruction pushes finite? The others push none. -/
def isFinite : Instruction → Bool
  | push value => value.isFinite
  | _ => true

/-- Are two instructions alike? Values are compared as numbers: the two zeros are alike, and an
undefined value is not even like itself. -/
def alike : Instruction → Instruction → Bool
  | push x, push y => x == y
  | first, second => first = second

end Instruction

/-- A sequence of instructions. -/
structure Program where
  instructions : List Instruction
  deriving DecidableEq

namespace Program

/-- The postfix form of a program: its instructions with a space between any two. -/
def text (program : Program) : String :=
  " ".intercalate (program.instructions.map Instruction.text)

/-- The names that a program needs, each once, in the order of their first use. -/
def names (program : Program) : List String :=
  (program.instructions.filterMap Instruction.name?).foldl
    (fun names name => if name ∈ names then names else names ++ [name]) []

/-- All numbers of a program are finite. -/
def IsFinite (program : Program) : Prop :=
  ∀ instruction ∈ program.instructions, instruction.isFinite

instance (program : Program) : Decidable program.IsFinite :=
  inferInstanceAs (Decidable (∀ instruction ∈ program.instructions, instruction.isFinite))

/-- Are two programs alike, instruction by instruction? -/
def alike (first second : Program) : Bool :=
  first.instructions.length = second.instructions.length &&
    (first.instructions.zip second.instructions).all fun pair => pair.1.alike pair.2

end Program

end Reckoner
