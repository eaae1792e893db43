import Reckoner.Proofs.Fallible
import Reckoner.Tree.Execution

/-!
# When an expression has a value

Whether a saturated tree has a value depends on its names alone. Read `Bindings.Decides` first: if
some of the names in order have no value, the first of these is the error, and otherwise there is a
value. The program of the tree has the same result as the tree, which is `Tree.execute_postorder`.
Which value it is depends on the names that the program loads (`Program.execute_congr`).
-/

namespace Reckoner

namespace Bindings

/-- The first of several names that is neither bound nor the name of a constant. -/
def firstUnbound? (bindings : Bindings) (names : List String) : Option String :=
  names.find? fun name => (bindings.value? name).isNone && (Constant.value? name).isNone

/-- A computation fails exactly if some of the names that it needs in order have no value, and then
on the first of them. -/
def Decides {α : Type} (bindings : Bindings) (names : List String)
    (result : Except EvaluationError α) : Prop :=
  match bindings.firstUnbound? names with
  | none => ∃ value, result = .ok value
  | some name => result = .error (.missingVariable name)

variable {α β : Type} {bindings : Bindings}

/-- A value that needs no names. -/
theorem decides_ok (value : α) : bindings.Decides [] (.ok value) := ⟨value, rfl⟩

/-- Two computations in a row need the names of the first and then those of the second. -/
theorem Decides.bind {first second : List String} {x : Except EvaluationError α}
    {f : α → Except EvaluationError β} (hx : bindings.Decides first x)
    (hf : ∀ a, x = .ok a → bindings.Decides second (f a)) :
    bindings.Decides (first ++ second) (x >>= f) := by
  have happend : bindings.firstUnbound? (first ++ second) =
      (bindings.firstUnbound? first).or (bindings.firstUnbound? second) := List.find?_append
  simp only [Decides] at hx ⊢
  rw [happend]
  cases hfirst : bindings.firstUnbound? first with
  | none =>
      simp only [hfirst] at hx
      obtain ⟨a, ha⟩ := hx
      rw [Option.none_or, ha, ok_bind]
      exact hf a ha
  | some name =>
      simp only [hfirst] at hx
      rw [hx]
      rfl

/-- Without unbound names there is a value. -/
theorem Decides.exists_ok {names : List String} {result : Except EvaluationError α}
    (h : bindings.Decides names result) (hnames : bindings.firstUnbound? names = none) :
    ∃ value, result = .ok value := by
  rw [Decides, hnames] at h
  exact h

/-- The first unbound name is the error. -/
theorem Decides.eq_error {names : List String} {result : Except EvaluationError α} {name : String}
    (h : bindings.Decides names result) (hname : bindings.firstUnbound? names = some name) :
    result = .error (.missingVariable name) := by
  rw [Decides, hname] at h
  exact h

/-- The first unbound name is neither bound nor the name of a constant. -/
theorem eq_none_of_firstUnbound? {names : List String} {name : String}
    (h : bindings.firstUnbound? names = some name) :
    bindings.value? name = none ∧ Constant.value? name = none := by
  have hname := List.find?_some h
  simpa only [Bool.and_eq_true, Option.isNone_iff_eq_none] using hname

/-- Every error is a missing variable, which is neither bound nor a constant. -/
theorem Decides.exists_name {names : List String} {error : EvaluationError}
    (h : bindings.Decides names (.error error : Except EvaluationError α)) :
    ∃ name, bindings.value? name = none ∧ Constant.value? name = none ∧
      error = .missingVariable name := by
  cases hnames : bindings.firstUnbound? names with
  | none =>
      obtain ⟨value, hvalue⟩ := h.exists_ok hnames
      cases hvalue
  | some name =>
      obtain ⟨hbinding, hconstant⟩ := eq_none_of_firstUnbound? hnames
      exact ⟨name, hbinding, hconstant, Except.error.inj (h.eq_error hnames)⟩

end Bindings

/-- Bindings that agree on the names that a program loads give it the same result. -/
theorem Program.execute_congr {program : Program} {bindings other : Bindings}
    (h : ∀ name, .load name ∈ program.instructions →
      bindings.resolve? name = other.resolve? name) :
    program.execute bindings = program.execute other := by
  have hrun : ∀ instructions stack, instructions ⊆ program.instructions →
      runFrom bindings stack instructions = runFrom other stack instructions := by
    intro instructions
    induction instructions with
    | nil => exact fun _ _ => rfl
    | cons instruction rest ih =>
        intro stack hsubset
        obtain ⟨hfirst, hrest⟩ := List.cons_subset.1 hsubset
        have hstep : instruction.run bindings stack = instruction.run other stack := by
          cases instruction with
          | load name => rw [Instruction.run, Instruction.run, h name hfirst]
          | push | apply => rfl
        rw [runFrom, runFrom, List.foldlM_cons, List.foldlM_cons, hstep]
        exact bind_congr fun next => ih next hrest
  rw [execute, execute, hrun _ _ (List.Subset.refl _)]

/-- An operation on as many operands as it takes has a result. -/
theorem Operation.exists_apply_eq_ok {operation : Operation} {operands : List Float}
    (h : operands.length = operation.arity) : ∃ result, operation.apply operands = .ok result := by
  have hsome : (operation.result? operands).isSome := by
    rw [operation.result?_isSome, h, beq_self_eq_true]
  obtain ⟨result, hresult⟩ := Option.isSome_iff_exists.1 hsome
  exact ⟨result, by rw [apply, hresult]⟩

namespace Tree

variable {bindings : Bindings}

mutual
/-- The names of its instructions decide whether a saturated tree has a value. -/
theorem decides_evaluate (tree : Tree) (h : tree.IsSaturated) :
    bindings.Decides (tree.postorder.filterMap Instruction.name?) (tree.evaluate bindings) := by
  match tree with
  | .value x => exact Bindings.decides_ok x
  | .name n =>
      simp only [postorder, evaluate, Bindings.Decides, Bindings.firstUnbound?]
      cases hbinding : bindings.value? n <;> cases hconstant : Constant.value? n <;>
        simp [Instruction.name?, hbinding, hconstant]
  | .apply operation operands =>
      rw [IsSaturated] at h
      have hoperands := decides_evaluateAll operands h.2
      rw [postorder, List.filterMap_append, evaluate]
      refine hoperands.bind fun values hvalues => ?_
      have hlength := (length_of_evaluateAll hvalues).trans h.1
      obtain ⟨result, hresult⟩ := Operation.exists_apply_eq_ok hlength
      rw [hresult]
      exact Bindings.decides_ok result

/-- The names of their instructions decide whether saturated trees have values. -/
theorem decides_evaluateAll (trees : List Tree) (h : AllSaturated trees) :
    bindings.Decides ((postorderAll trees).filterMap Instruction.name?)
      (evaluateAll bindings trees) := by
  match trees with
  | [] => exact Bindings.decides_ok []
  | tree :: rest =>
      rw [AllSaturated] at h
      rw [postorderAll, List.filterMap_append, evaluateAll]
      refine (decides_evaluate tree h.1).bind fun x _ => ?_
      have hrest := decides_evaluateAll rest h.2
      -- the pair of a value and further ones needs no names of its own
      rw [← List.append_nil (List.filterMap _ _)]
      exact hrest.bind fun xs _ => Bindings.decides_ok (x :: xs)
end

/-- The program of a saturated tree has the value or the error of the tree. -/
theorem execute_postorder (bindings : Bindings) {tree : Tree} (h : tree.IsSaturated) :
    Program.execute ⟨tree.postorder⟩ bindings = tree.evaluate bindings := by
  rw [Program.execute, runFrom_postorder bindings [] tree h]
  cases tree.evaluate bindings <;> rfl

end Tree

end Reckoner
