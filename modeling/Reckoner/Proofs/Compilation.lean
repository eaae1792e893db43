import Reckoner.Proofs.Grammar.Acceptance
import Reckoner.Proofs.Grammar.Postfix
import Reckoner.Proofs.Source.Nesting

/-!
# The language of the compiler

A source text compiles exactly if its tokens form an expression, and then its program is that of the
only phrase with these tokens. Read `compile_iff_isSum` first for the program and
`compile_iff_phrase` for the language: the count of the parentheses and the translation of the
tokens refuse nothing that the check of the tokens accepts.
-/

namespace Reckoner

/-- A text compiles if its parentheses balance, it has tokens, they pass the check, and they have a
program. -/
theorem Program.compile_eq_ok_iff {source : String} {program : Program} :
    compile source = .ok program ↔
      checkBalance source = .ok () ∧ ∃ tokens, Token.ofSource source = .ok tokens ∧ tokens ≠ [] ∧
        Token.check tokens = .ok () ∧ ofTokens tokens = .ok program := by
  have htokens : ∀ tokens, Token.ofSource source = .ok tokens →
      (tokens ≠ [] ↔ Lexeme.scan source ≠ []) := by
    intro tokens h
    rw [Token.ofSource_eq_ofLexemes] at h
    have hlength := (mapM_eq_ok_iff.1 h).length_eq
    rw [ne_eq, ne_eq, ← List.length_eq_zero_iff, ← List.length_eq_zero_iff, hlength]
  unfold compile
  simp only [bind_eq_ok_iff, Lexeme.ofSource_eq_scan, Except.ok.injEq, exists_eq_left']
  constructor
  · rintro ⟨_, hbalance, h⟩
    split at h
    · cases h
    · rename_i hne
      simp only [bind_eq_ok_iff, ← Token.ofSource_eq_ofLexemes] at h
      obtain ⟨tokens, hsource, _, hcheck, hprogram⟩ := h
      exact ⟨hbalance, tokens, hsource, (htokens tokens hsource).2 hne, hcheck, hprogram⟩
  · rintro ⟨hbalance, tokens, hsource, hne, hcheck, hprogram⟩
    refine ⟨(), hbalance, ?_⟩
    split
    · rename_i hnil
      exact absurd hnil ((htokens tokens hsource).1 hne)
    · simp only [bind_eq_ok_iff, ← Token.ofSource_eq_ofLexemes]
      exact ⟨tokens, hsource, (), hcheck, hprogram⟩

namespace Grammar

open Token (HasKinds Kind)

/-- Tokens that form an expression pass every stage of the compiler. -/
theorem SumPhrase.compile_eq {source : String} {tokens : List Token} (phrase : SumPhrase)
    (htokens : Token.ofSource source = .ok tokens) (h : phrase.kinds = tokens.map Token.kind) :
    Program.compile source = .ok ⟨phrase.tree.postorder⟩ := by
  have hkinds : HasKinds source.toList phrase.kinds := h ▸ Token.hasKinds_of_ofSource htokens
  have hne : tokens ≠ [] := by
    rintro rfl
    exact phrase.kinds_ne_nil h
  rw [Program.compile_eq_ok_iff]
  exact ⟨hkinds.checkBalance phrase.sum_nesting, tokens, htokens, hne,
    (check_eq_ok_iff hne).2 ⟨phrase, h⟩, phrase.ofTokens_eq h⟩

/-- A source text compiles if its token kinds form an expression, to the program of the tree. -/
theorem compile_iff_isSum {source : String} {program : Program} :
    Program.compile source = .ok program ↔
      ∃ kinds tree, HasKinds source.toList kinds ∧ IsSum kinds tree ∧
        program = ⟨tree.postorder⟩ := by
  constructor
  · intro h
    obtain ⟨-, tokens, htokens, hne, hcheck, hprogram⟩ := Program.compile_eq_ok_iff.1 h
    obtain ⟨phrase, hkinds⟩ := (check_eq_ok_iff hne).1 hcheck
    rw [phrase.ofTokens_eq hkinds] at hprogram
    exact ⟨_, phrase.tree, Token.hasKinds_of_ofSource htokens, hkinds ▸ phrase.isSum,
      (Except.ok.inj hprogram).symm⟩
  · rintro ⟨kinds, tree, hkinds, hsum, rfl⟩
    obtain ⟨tokens, htokens, rfl⟩ := Token.hasKinds_iff_ofSource.1 hkinds
    obtain ⟨phrase, hphrase, rfl⟩ := isSum_iff.1 hsum
    exact phrase.compile_eq htokens hphrase

/-- The check accepts exactly the tokens of phrases, no two phrases have the same tokens, and a
source text compiles exactly if its tokens are those of a phrase. Neither the count of the
parentheses nor the translation refuses the tokens of a phrase. -/
theorem compile_iff_phrase :
    (∀ tokens : List Token, tokens ≠ [] →
      (Token.check tokens = .ok () ↔
        ∃ phrase : SumPhrase, phrase.kinds = tokens.map Token.kind)) ∧
    (∀ first second : SumPhrase, first.kinds = second.kinds → first = second) ∧
    (∀ source, (∃ program, Program.compile source = .ok program) ↔
      ∃ tokens, Token.ofSource source = .ok tokens ∧ tokens ≠ [] ∧
        ∃ phrase : SumPhrase, phrase.kinds = tokens.map Token.kind) ∧
    ∀ source tokens, Token.ofSource source = .ok tokens →
      ∀ phrase : SumPhrase, phrase.kinds = tokens.map Token.kind →
        checkBalance source = .ok () ∧ Program.ofTokens tokens = .ok ⟨phrase.tree.postorder⟩ := by
  refine ⟨fun tokens => check_eq_ok_iff, fun first second => SumPhrase.kinds_inj, ?_, ?_⟩
  · intro source
    constructor
    · rintro ⟨program, h⟩
      obtain ⟨-, tokens, htokens, hne, hcheck, -⟩ := Program.compile_eq_ok_iff.1 h
      exact ⟨tokens, htokens, hne, (check_eq_ok_iff hne).1 hcheck⟩
    · rintro ⟨tokens, htokens, -, phrase, hkinds⟩
      exact ⟨_, phrase.compile_eq htokens hkinds⟩
  · intro source tokens htokens phrase hkinds
    obtain ⟨hbalance, -⟩ := Program.compile_eq_ok_iff.1 (phrase.compile_eq htokens hkinds)
    exact ⟨hbalance, phrase.ofTokens_eq hkinds⟩

/-- The text `-Atan(x, y)` is a call with a sign and nothing else. -/
theorem compile_iff_phrase_signed_call :
    let source := "-Atan(x, y)"
    let tokens : List Token := [⟨.operator .sub, ⟨1, 1⟩⟩, ⟨.builtin .atan, ⟨2, 1⟩⟩,
      ⟨.openParen, ⟨6, 1⟩⟩, ⟨.name "x", ⟨7, 1⟩⟩, ⟨.comma, ⟨8, 1⟩⟩, ⟨.name "y", ⟨10, 1⟩⟩,
      ⟨.closeParen, ⟨11, 1⟩⟩]
    let phrase : SumPhrase := .signed .sub rfl (.factor (.call .atan
      (.step .nil (.term (.factor (.name "x")))) (.term (.factor (.name "y"))) rfl))
    Token.ofSource source = .ok tokens ∧ phrase.kinds = tokens.map Token.kind ∧
      Token.check tokens = .ok () ∧
      (∀ other : SumPhrase, other.kinds = phrase.kinds → other = phrase) ∧
      (∃ program, Program.compile source = .ok program) ∧ checkBalance source = .ok () ∧
      Program.ofTokens tokens = .ok ⟨phrase.tree.postorder⟩ := by
  intro source tokens phrase
  have hne : tokens ≠ [] := List.cons_ne_nil _ _
  have htokens : Token.ofSource source = .ok tokens := by cbv
  have hkinds : phrase.kinds = tokens.map Token.kind := rfl
  obtain ⟨hcheck, hunique, hcompile, hpasses⟩ := compile_iff_phrase
  refine ⟨htokens, hkinds, (hcheck tokens hne).2 ⟨phrase, hkinds⟩, ?_, ?_,
    hpasses source tokens htokens phrase hkinds⟩
  · exact fun other => hunique other phrase
  · exact (hcompile source).2 ⟨tokens, htokens, hne, phrase, hkinds⟩

end Grammar

end Reckoner
