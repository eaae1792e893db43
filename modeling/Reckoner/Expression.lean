import Reckoner.Program.Execution
import Reckoner.Program.Yard
import Reckoner.Source.Balance
import Reckoner.Token.Reading
import Reckoner.Token.Shape

/-!
# Expressions

An expression is a source text together with its program. A text compiles if its parentheses
balance, it has a lexeme, every lexeme has a meaning, and its tokens form an expression; the first
of these that fails is the error.
-/

namespace Reckoner

/-- Refuses a source text whose parentheses do not balance. -/
def checkBalance (source : String) : Except CompileError Unit :=
  match unbalancedAt? source with
  | some position => .error (.fault .unbalancedParentheses position)
  | none => .ok ()

/-- The program of a source text. -/
def Program.compile (source : String) : Except CompileError Program := do
  checkBalance source
  match ← Lexeme.ofSource source with
  | [] => .error .emptyExpression
  | lexemes =>
    let tokens ← Token.ofLexemes lexemes
    Token.check tokens
    Program.ofTokens tokens

/-- A source text and its program. -/
structure Expression where
  source : String
  program : Program
  deriving DecidableEq

namespace Expression

/-- Compiles a source text. -/
def compile (source : String) : Except CompileError Expression := do
  let program ← Program.compile source
  .ok ⟨source, program⟩

/-- The value of an expression under bindings. -/
def evaluate (expression : Expression) (bindings : Bindings) : Except EvaluationError Float :=
  expression.program.execute bindings

/-- The names that an expression depends on, in the order of their first use. -/
def names (expression : Expression) : List String := expression.program.names

/-- Do two expressions have the same source text and programs that are alike? -/
def alike (first second : Expression) : Bool :=
  first.source = second.source && first.program.alike second.program

end Expression

end Reckoner
