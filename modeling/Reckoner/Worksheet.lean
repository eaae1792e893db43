import Reckoner.Expression

/-!
# Worksheets

A worksheet keeps compiled expressions under names and one table of bindings for all of them.
-/

namespace Reckoner

/-- Named expressions with their common bindings. -/
structure Worksheet where
  expressions : List (String × Expression)
  bindings : Bindings
  deriving DecidableEq

namespace Worksheet

/-- A worksheet without expressions and bindings. -/
def empty : Worksheet := ⟨[], .empty⟩

/-- The expression under a name. -/
def expression? (sheet : Worksheet) (name : String) : Option Expression :=
  sheet.expressions.lookup name

/-- Compiles a text and keeps the expression under a name, in place of an earlier one. If the text
does not compile, there is no new worksheet. -/
def define (sheet : Worksheet) (name source : String) :
    Except CompileError (Expression × Worksheet) := do
  let expression ← Expression.compile source
  let others := sheet.expressions.filter fun entry => entry.1 ≠ name
  .ok (expression, { sheet with expressions := (name, expression) :: others })

/-- Binds a name to a value. The first component is the value that it had before. -/
def bind (sheet : Worksheet) (name : String) (value : Float) : Option Float × Worksheet :=
  (sheet.bindings.value? name, { sheet with bindings := sheet.bindings.bind name value })

/-- Frees a name. The first component is the value that it had before. -/
def unbind (sheet : Worksheet) (name : String) : Option Float × Worksheet :=
  (sheet.bindings.value? name, { sheet with bindings := sheet.bindings.unbind name })

/-- The value of an expression under the bindings of the worksheet. -/
def evaluate (sheet : Worksheet) (expression : Expression) : Except EvaluationError Float :=
  expression.evaluate sheet.bindings

end Worksheet

end Reckoner
