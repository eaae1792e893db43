import Reckoner.Program.Execution

/-!
# Expression trees

A tree says what an expression means, without regard to how it is written or computed: its leaves
are numbers and names, and its inner nodes apply an operation to their operands. `Tree.evaluate`
computes the operands from left to right, and `Tree.postorder` lists a tree as a program.
-/

namespace Reckoner

/-- An expression as a tree. -/
inductive Tree where
  | value (x : Float)
  | name (name : String)
  | apply (operation : Operation) (operands : List Tree)

namespace Tree

mutual
/-- The instructions of a tree: those of the operands in order, and then the operation. -/
def postorder : Tree → List Instruction
  | value x => [.push x]
  | name n => [.load n]
  | apply operation operands => postorderAll operands ++ [.apply operation]

/-- The instructions of several trees in a row. -/
def postorderAll : List Tree → List Instruction
  | [] => []
  | tree :: rest => postorder tree ++ postorderAll rest
end

mutual
/-- The value of a tree under bindings, or the first error on the way to it. A binding of a name
comes before the constant of that name. -/
def evaluate (bindings : Bindings) : Tree → Except EvaluationError Float
  | value x => .ok x
  | name n =>
    match bindings.value? n, Constant.value? n with
    | some x, _ => .ok x
    | none, some x => .ok x
    | none, none => .error (.missingVariable n)
  | apply operation operands => do
    let values ← evaluateAll bindings operands
    operation.apply values

/-- The values of several trees, computed from left to right. -/
def evaluateAll (bindings : Bindings) : List Tree → Except EvaluationError (List Float)
  | [] => .ok []
  | tree :: rest => do
    let x ← evaluate bindings tree
    let xs ← evaluateAll bindings rest
    .ok (x :: xs)
end

mutual
/-- Does every operation of the tree have as many operands as it takes? -/
def IsSaturated : Tree → Prop
  | value _ | name _ => True
  | apply operation operands => operands.length = operation.arity ∧ AllSaturated operands

/-- Is each of several trees saturated? -/
def AllSaturated : List Tree → Prop
  | [] => True
  | tree :: rest => IsSaturated tree ∧ AllSaturated rest
end

end Tree

end Reckoner
