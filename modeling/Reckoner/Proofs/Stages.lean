import Reckoner.Proofs.Compilation
import Reckoner.Proofs.Source.Parentheses

/-!
# Stages of the compiler

Compilation sees a source text through its lexemes only (`compile_eq_ofLexemes`): the count of the
parentheses, which reads the characters, is the count of the lexemes that are parentheses. The last
stage never fails, because the stage before it accepts expressions only (`ofTokens_of_check`).
-/

namespace Reckoner.Program

/-- The program of lexemes. -/
def ofLexemes (lexemes : List Lexeme) : Except CompileError Program :=
  match (lexemes.foldl Balance.noteLexeme .empty).culprit? with
  | some position => .error (.fault .unbalancedParentheses position)
  | none =>
    if lexemes = [] then .error .emptyExpression
    else do
      let tokens ← Token.ofLexemes lexemes
      Token.check tokens
      ofTokens tokens

/-- The program of a source text is that of its lexemes. -/
theorem compile_eq_ofLexemes (source : String) :
    compile source = ofLexemes (Lexeme.scan source) := by
  unfold compile checkBalance unbalancedAt? ofLexemes
  rw [Balance.scan_eq_foldl, ← Lexeme.scan, Lexeme.ofSource_eq_scan, ok_bind]
  cases (List.foldl Balance.noteLexeme .empty (Lexeme.scan source)).culprit? with
  | some position => rfl
  | none =>
      rw [ok_bind]
      cases Lexeme.scan source with
      | nil => rfl
      | cons lexeme rest => simp

/-- A text whose parentheses do not balance does not compile for this reason. -/
theorem compile_of_unbalanced {source : String} {error : CompileError}
    (h : checkBalance source = .error error) : compile source = .error error := by
  rw [compile, h, error_bind]

/-- A text without tokens whose parentheses balance does not compile for this reason. -/
theorem compile_of_refused {source : String} {error : CompileError}
    (hbalance : checkBalance source = .ok ()) (h : Token.ofSource source = .error error) :
    compile source = .error error := by
  rw [Token.ofSource_eq_ofLexemes] at h
  rw [compile, hbalance, ok_bind, Lexeme.ofSource_eq_scan, ok_bind]
  cases hlexemes : Lexeme.scan source with
  | nil =>
      rw [hlexemes] at h
      cases h
  | cons lexeme rest =>
      rw [hlexemes] at h
      simp [h]

/-- Lexemes have tokens if there are any lexemes. -/
theorem ne_nil_of_ofLexemes {lexemes : List Lexeme} {tokens : List Token}
    (h : Token.ofLexemes lexemes = .ok tokens) (hne : lexemes ≠ []) : tokens ≠ [] := by
  intro htokens
  subst htokens
  exact hne (List.forall₂_nil_right_iff.1 (mapM_eq_ok_iff.1 h))

/-- Tokens that are checked have a program, which depends on their kinds only. -/
theorem ofTokens_of_check {tokens : List Token} (hne : tokens ≠ [])
    (h : Token.check tokens = .ok ()) :
    ∃ program, ∀ others : List Token, others.map Token.kind = tokens.map Token.kind →
      ofTokens others = .ok program := by
  obtain ⟨phrase, hkinds⟩ := (Grammar.check_eq_ok_iff hne).1 h
  exact ⟨_, fun others hothers => phrase.ofTokens_eq (hkinds.trans hothers.symm)⟩

end Reckoner.Program
