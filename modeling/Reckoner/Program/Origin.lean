import Reckoner.Program.Basic
import Reckoner.Token.Basic

/-!
# Origin of instructions

Every instruction of a program that is made of tokens stems from one of them. `Sourced.operands` are
the instructions that put numbers on the stack and `Sourced.operations` those that apply operations,
both in the order of the tokens. Where in the program an operation stands is left open.
-/

namespace Reckoner

/-- Does an instruction put a number on the stack, rather than apply an operation? -/
def Instruction.isOperand : Instruction → Bool
  | push _ | load _ => true
  | apply _ => false

namespace Token

/-- Does an operand come next after these tokens, so that an operator there would be a sign? It does
at the start, and directly behind an opening parenthesis or a comma. -/
def expectsOperand (left : List Token) : Bool :=
  left.getLast?.all fun last => last.kind = .openParen ∨ last.kind = .comma

/-- The operand that a token behind the given ones stands for. That of a sign is negative zero. -/
def operand? (left : List Token) (token : Token) : Option Instruction :=
  match token.kind with
  | .number value => some (.push value)
  | .name text => some (.load text)
  | .operator _ => if expectsOperand left then some (.push Binary64.negativeZero) else none
  | _ => none

/-- The operation that a token stands for. -/
def operation? (token : Token) : Option Instruction :=
  match token.kind with
  | .operator op => some (.apply (.operator op))
  | .builtin function => some (.apply (.builtin function))
  | _ => none

end Token

/-- An instruction with the index of the token that it stems from. -/
structure Sourced where
  index : Nat
  instruction : Instruction
  deriving DecidableEq

namespace Sourced

/-- Does the instruction put a number on the stack? -/
def isOperand (sourced : Sourced) : Bool := sourced.instruction.isOperand

/-- The instruction that stems from a token, if there is one. -/
def ofToken (index : Nat) (instruction : Option Instruction) : List Sourced :=
  (instruction.map (Sourced.mk index)).toList

/-- The instructions that a rule gives for each token behind those to its left. -/
def collect (rule : List Token → Token → Option Instruction) (left : List Token) :
    List Token → List Sourced
  | [] => []
  | token :: rest =>
    ofToken left.length (rule left token) ++ collect rule (left ++ [token]) rest

/-- The operands of a token sequence. -/
def operands (tokens : List Token) : List Sourced := collect Token.operand? [] tokens

/-- The operations of a token sequence. -/
def operations (tokens : List Token) : List Sourced :=
  collect (fun _ => Token.operation?) [] tokens

end Sourced

end Reckoner
