import Reckoner.Tree.Basic

/-!
# Running the program of a tree

The program of a saturated tree computes the value of the tree. Read `runFrom_postorder` first: on
any stack, the instructions of the tree push its value or stop with its error, and never touch what
lies below.
-/

namespace Reckoner.Tree

/-- The values of several trees are as many as the trees. -/
theorem length_of_evaluateAll {bindings : Bindings} {trees : List Tree} {values : List Float}
    (h : evaluateAll bindings trees = .ok values) : values.length = trees.length := by
  induction trees generalizing values with
  | nil =>
      cases h
      rfl
  | cons tree rest ih =>
      simp only [evaluateAll] at h
      cases hhead : evaluate bindings tree with
      | error error => simp [hhead, bind, Except.bind] at h
      | ok x =>
          cases htail : evaluateAll bindings rest with
          | error error => simp [hhead, htail, bind, Except.bind] at h
          | ok xs =>
              simp only [hhead, htail, bind, Except.bind, Except.ok.injEq] at h
              subst h
              simp [ih htail]

/-- Running two lists of instructions in a row. -/
theorem runFrom_append (bindings : Bindings) (stack : List Float)
    (first second : List Instruction) :
    Program.runFrom bindings stack (first ++ second) =
      Program.runFrom bindings stack first >>= fun next =>
        Program.runFrom bindings next second := by
  simp [Program.runFrom, List.foldlM_append]

/-- An operation finds its operands on top of the stack. -/
theorem runFrom_apply (bindings : Bindings) (stack : List Float) (operation : Operation)
    (values : List Float) (h : values.length = operation.arity) :
    Program.runFrom bindings (values.reverse ++ stack) [.apply operation] =
      (operation.apply values).map (· :: stack) := by
  have hlength : values.reverse.length = operation.arity := by simpa using h
  have henough : ¬ (values.reverse ++ stack).length < operation.arity := by
    rw [List.length_append, hlength]
    omega
  simp only [Program.runFrom, List.foldlM_cons, List.foldlM_nil, Instruction.run, if_neg henough,
    List.take_left' hlength, List.drop_left' hlength, List.reverse_reverse]
  cases operation.apply values <;> rfl

mutual
/-- The instructions of a saturated tree push its value on any stack, or stop with its error. -/
theorem runFrom_postorder (bindings : Bindings) (stack : List Float) (tree : Tree)
    (h : tree.IsSaturated) :
    Program.runFrom bindings stack tree.postorder =
      (tree.evaluate bindings).map (· :: stack) := by
  cases tree with
  | value x => rfl
  | name n =>
      simp only [postorder, evaluate, Program.runFrom, List.foldlM_cons, List.foldlM_nil,
        Instruction.run, Bindings.resolve?]
      cases bindings.value? n <;> cases Constant.value? n <;> rfl
  | apply operation operands =>
      simp only [IsSaturated] at h
      rw [postorder, runFrom_append, runFrom_postorderAll bindings stack operands h.2, evaluate]
      cases heval : evaluateAll bindings operands with
      | error error => rfl
      | ok values =>
          have hlength : values.length = operation.arity := by
            rw [length_of_evaluateAll heval, h.1]
          exact runFrom_apply bindings stack operation values hlength

/-- The instructions of saturated trees push their values on any stack, the last one on top. -/
theorem runFrom_postorderAll (bindings : Bindings) (stack : List Float) (trees : List Tree)
    (h : AllSaturated trees) :
    Program.runFrom bindings stack (postorderAll trees) =
      (evaluateAll bindings trees).map fun values => values.reverse ++ stack := by
  cases trees with
  | nil => rfl
  | cons tree rest =>
      simp only [AllSaturated] at h
      rw [postorderAll, runFrom_append, runFrom_postorder bindings stack tree h.1, evaluateAll]
      cases hhead : evaluate bindings tree with
      | error error => rfl
      | ok x =>
          have htail := runFrom_postorderAll bindings (x :: stack) rest h.2
          simp only [bind, Except.bind, Except.map, htail]
          cases evaluateAll bindings rest with
          | error error => rfl
          | ok xs => simp
end

end Reckoner.Tree
