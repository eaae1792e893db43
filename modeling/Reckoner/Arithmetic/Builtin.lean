/-!
# Built-in functions

The catalog of built-in functions: their names, the number of arguments each takes, and what they
compute. Only `Atan` takes two arguments, the ordinate before the abscissa.
-/

namespace Reckoner

/-- A built-in function. -/
inductive Builtin where
  | sin
  | cos
  | tan
  | asin
  | acos
  | atan
  | sqrt
  | abs
  deriving DecidableEq, Repr

namespace Builtin

/-- All built-in functions, in the order of the catalog. -/
def all : List Builtin := [sin, cos, tan, asin, acos, atan, sqrt, abs]

/-- The name of a built-in function. -/
def name : Builtin → String
  | sin => "Sin"
  | cos => "Cos"
  | tan => "Tan"
  | asin => "Asin"
  | acos => "Acos"
  | atan => "Atan"
  | sqrt => "Sqrt"
  | abs => "Abs"

/-- The number of arguments of a built-in function. -/
def arity : Builtin → Nat
  | atan => 2
  | _ => 1

/-- The built-in function with a given name, letter case included. -/
def ofName? (name : String) : Option Builtin :=
  all.find? fun function => function.name = name

/-- The result of a built-in function, unless the number of arguments is wrong. -/
def result? : Builtin → List Float → Option Float
  | sin, [x] => some x.sin
  | cos, [x] => some x.cos
  | tan, [x] => some x.tan
  | asin, [x] => some x.asin
  | acos, [x] => some x.acos
  | atan, [y, x] => some (Float.atan2 y x)
  | sqrt, [x] => some x.sqrt
  | abs, [x] => some x.abs
  | _, _ => none

/-- A built-in function is the one that its name stands for. -/
theorem ofName?_name (function : Builtin) : ofName? function.name = some function := by
  cases function <;> decide

end Builtin

end Reckoner
