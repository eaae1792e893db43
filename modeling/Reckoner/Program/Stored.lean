import Reckoner.Json.Mark
import Reckoner.Json.Number
import Reckoner.Program.Basic

/-!
# Stored programs

A program is stored as a JSON list. Each instruction is an object with one key, which tells what
kind of instruction it is. `Program.store` writes the list without blanks and `Program.restore?`
reads it. The name of an operation may also be given as the only key of an object with the value
`null`. `Program.restoreWith?` leaves open how the text of a number is read.
-/

namespace Reckoner

open Json

/-- The name of an operator in a stored program. -/
def Operator.name : Operator → String
  | add => "Add"
  | sub => "Sub"
  | mul => "Mul"
  | div => "Div"
  | mod => "Mod"

/-- The operator with a given name. -/
def Operator.ofName? (name : String) : Option Operator :=
  [add, sub, mul, div, mod].find? fun op => op.name = name

namespace Instruction

/-- The key and the value that stand for an instruction. -/
def field : Instruction → String × Mark
  | push value => ("Value", .number value)
  | load name => ("Variable", .text name)
  | apply (.operator op) => ("Operator", .text op.name)
  | apply (.builtin function) => ("Function", .text function.name)

/-- The instruction that a key and a value stand for. -/
def ofField? : String × Mark → Option Instruction
  | ("Value", .number value) => some (push value)
  | ("Variable", .text name) => some (load name)
  | ("Operator", .text name) => (Operator.ofName? name).map fun op => apply (.operator op)
  | ("Function", .text name) =>
    (Builtin.ofName? name).map fun function => apply (.builtin function)
  | _ => none

/-- The marks of a stored instruction. -/
def marks (instruction : Instruction) : List Mark :=
  let (key, value) := instruction.field
  [.openBrace, .text key, .colon, value, .closeBrace]

/-- The instruction that a mark sequence stands for. The long form of a name is meant for the names
of operations only. -/
def ofMarks? : List Mark → Option Instruction
  | [.openBrace, .text key, .colon, value, .closeBrace] => ofField? (key, value)
  | [.openBrace, .text key, .colon, .openBrace, .text name, .colon, .null, .closeBrace,
      .closeBrace] =>
    if key = "Operator" ∨ key = "Function" then ofField? (key, .text name) else none
  | _ => none

end Instruction

namespace Program

/-- The marks of a stored program. -/
def marks (program : Program) : List Mark :=
  .openBracket :: [.comma].intercalate (program.instructions.map Instruction.marks) ++
    [.closeBracket]

/-- The instructions between the brackets of a stored program. -/
def instructions? (body : List Mark) : Option (List Instruction) :=
  if body = [] then some [] else (Mark.pieces body).mapM Instruction.ofMarks?

/-- The program that a mark sequence stands for. -/
def ofMarks? : List Mark → Option Program
  | .openBracket :: rest =>
    if rest.getLast? = some .closeBracket then (instructions? rest.dropLast).map .mk else none
  | _ => none

/-- The JSON text of a program. -/
def store (program : Program) : String := .ofList (Mark.writeAll program.marks)

/-- The program of a JSON text, given how the texts of numbers are read. -/
def restoreWith? (readNumber : List Char → Option Float) (text : String) : Option Program :=
  (Mark.scan readNumber text.toList).bind ofMarks?

/-- The program of a JSON text. -/
def restore? (text : String) : Option Program := restoreWith? Number.read? text

end Program

end Reckoner
