import Reckoner.Proofs.Evaluation
import Reckoner.Proofs.Grammar.Acceptance
import Reckoner.Proofs.Grammar.Postfix

/-!
# The meaning of a token sequence

The program of an expression means what the tree of the expression means: `execute_ofTokens` says so
for every derivation of the grammar. The tokens that pass the check have such a derivation, hence
their program always exists and fails for no other reason than a name without a value, which is
`execute_of_check`.
-/

namespace Reckoner.Grammar

open Token (Kind)

/-- The program of the tokens of an expression consists of the instructions of its tree in
postorder, and under all bindings it has the value or the error of the tree. The only errors are
names that are neither bound nor those of constants. -/
theorem execute_ofTokens {tokens : List Token} {tree : Tree}
    (h : IsSum (tokens.map Token.kind) tree) :
    Program.ofTokens tokens = .ok ⟨tree.postorder⟩ ∧
      (∀ bindings, Program.execute ⟨tree.postorder⟩ bindings = tree.evaluate bindings) ∧
      ∀ bindings error, tree.evaluate bindings = .error error →
        ∃ name, bindings.value? name = none ∧ Constant.value? name = none ∧
          error = .missingVariable name := by
  have hsaturated := h.isSaturated
  refine ⟨?_, fun bindings => tree.execute_postorder bindings hsaturated, ?_⟩
  · obtain ⟨phrase, hkinds, rfl⟩ := isSum_iff.1 h
    exact phrase.ofTokens_eq hkinds
  · intro bindings error herror
    have hdecides : bindings.Decides _ (tree.evaluate bindings) := tree.decides_evaluate hsaturated
    rw [herror] at hdecides
    exact hdecides.exists_name

/-- The sign of `-pi * Sqrt(x)` belongs to the whole product. If `pi` is bound to 3 and `x` to 4, it
is `-6`. If only `x` is bound, `pi` is the constant, and if `x` is not bound, it is the error. -/
theorem execute_ofTokens_signed_product :
    let tokens : List Token := [⟨.operator .sub, ⟨1, 1⟩⟩, ⟨.name "pi", ⟨2, 1⟩⟩,
      ⟨.operator .mul, ⟨5, 1⟩⟩, ⟨.builtin .sqrt, ⟨7, 1⟩⟩, ⟨.openParen, ⟨11, 1⟩⟩,
      ⟨.name "x", ⟨12, 1⟩⟩, ⟨.closeParen, ⟨13, 1⟩⟩]
    let tree := binary .sub (.value Binary64.negativeZero)
      (binary .mul (.name "pi") (.apply (.builtin .sqrt) [.name "x"]))
    let program : Program := ⟨[.push Binary64.negativeZero, .load "pi", .load "x",
      .apply (.builtin .sqrt), .apply (.operator .mul), .apply (.operator .sub)]⟩
    IsSum (tokens.map Token.kind) tree ∧ Program.ofTokens tokens = .ok program ∧
      (∀ bindings, program.execute bindings = tree.evaluate bindings) ∧
      (∀ bindings error, tree.evaluate bindings = .error error →
        ∃ name, bindings.value? name = none ∧ Constant.value? name = none ∧
          error = .missingVariable name) ∧
      program.execute (.ofList [("pi", 3), ("x", 4)]) = .ok (-6) ∧
      program.execute (.ofList [("x", 4)]) = .ok (.ofBits 0xC01921FB54442D18) ∧
      program.execute (.ofList [("pi", 3)]) = .error (.missingVariable "x") := by
  intro tokens tree program
  have hcall : IsFactor [.builtin .sqrt, .openParen, .name "x", .closeParen]
      (.apply (.builtin .sqrt) [.name "x"]) :=
    .call (.single (.single (.single (.name "x")))) rfl
  have hproduct : IsProduct
      [.name "pi", .operator .mul, .builtin .sqrt, .openParen, .name "x", .closeParen]
      (binary .mul (.name "pi") (.apply (.builtin .sqrt) [.name "x"])) :=
    .step (by decide) (.single (.name "pi")) hcall
  have hsum : IsSum (tokens.map Token.kind) tree := .signed rfl hproduct
  obtain ⟨hprogram, hexecute, herrors⟩ := execute_ofTokens hsum
  -- the three values are those of the tree, which is evaluated
  refine ⟨hsum, hprogram, hexecute, herrors, ?_, ?_, ?_⟩ <;>
    exact (hexecute _).trans (by decide +kernel)

/-- The tokens that pass the check have a program. If every name among the tokens is bound or the
name of a constant, the program has a result, and otherwise it fails on the first name in the order
of the tokens that is neither. -/
theorem execute_of_check {tokens : List Token} (hne : tokens ≠ [])
    (hcheck : Token.check tokens = .ok ()) :
    ∃ program, Program.ofTokens tokens = .ok program ∧ ∀ bindings : Bindings,
      (bindings.firstUnbound? (tokens.filterMap fun token => token.kind.name?) = none →
        ∃ value, program.execute bindings = .ok value) ∧
      ∀ name, bindings.firstUnbound? (tokens.filterMap fun token => token.kind.name?) = some name →
        program.execute bindings = .error (.missingVariable name) := by
  obtain ⟨phrase, hkinds⟩ := (check_eq_ok_iff hne).1 hcheck
  have hnames : phrase.tree.postorder.filterMap Instruction.name? =
      tokens.filterMap fun token => token.kind.name? := by
    rw [phrase.isSum.names, hkinds, List.filterMap_map]
    rfl
  have hsaturated := phrase.isSum.isSaturated
  refine ⟨_, phrase.ofTokens_eq hkinds, fun bindings => ?_⟩
  have hdecides : bindings.Decides _ (phrase.tree.evaluate bindings) :=
    phrase.tree.decides_evaluate hsaturated
  rw [hnames] at hdecides
  rw [phrase.tree.execute_postorder bindings hsaturated]
  exact ⟨hdecides.exists_ok, fun _ => hdecides.eq_error⟩

/-- Without bindings, `Abs(-x) + pi` fails on `x`. It has a value if `x` is bound, because `pi` is a
constant, and a binding of `pi` hides the constant. -/
theorem execute_of_check_unbound :
    let tokens : List Token := [⟨.builtin .abs, ⟨1, 1⟩⟩, ⟨.openParen, ⟨4, 1⟩⟩,
      ⟨.operator .sub, ⟨5, 1⟩⟩, ⟨.name "x", ⟨6, 1⟩⟩, ⟨.closeParen, ⟨7, 1⟩⟩,
      ⟨.operator .add, ⟨9, 1⟩⟩, ⟨.name "pi", ⟨11, 1⟩⟩]
    let program : Program := ⟨[.push Binary64.negativeZero, .load "x", .apply (.operator .sub),
      .apply (.builtin .abs), .load "pi", .apply (.operator .add)]⟩
    tokens ≠ [] ∧ Token.check tokens = .ok () ∧ Program.ofTokens tokens = .ok program ∧
      program.execute .empty = .error (.missingVariable "x") ∧
      (∃ value, program.execute (.ofList [("x", 4)]) = .ok value) ∧
      program.execute (.ofList [("pi", 3), ("x", 4)]) = .ok 7 := by
  intro tokens program
  have hne : tokens ≠ [] := List.cons_ne_nil _ _
  have hcheck : Token.check tokens = .ok () := rfl
  have hprogram : Program.ofTokens tokens = .ok program := rfl
  obtain ⟨_, hother, hexecute⟩ := execute_of_check hne hcheck
  cases Except.ok.inj (hprogram.symm.trans hother)
  exact ⟨hne, hcheck, hprogram, (hexecute .empty).2 "x" (by decide),
    (hexecute (.ofList [("x", 4)])).1 (by decide), by decide +kernel⟩

end Reckoner.Grammar
