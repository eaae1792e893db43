import Reckoner.Proofs.Source.Kinds

/-!
# Meanings of lexemes

What a lexeme is read as, or why it is not read, in terms of its category and its text. The lexemes
of a text are proper, and for these `IsProper.ofLexeme_spec` says all that later proofs need to know
about the reading: no lexeme is refused but for a numeral or the name of a function.
-/

namespace Reckoner

namespace Category

/-- The characters of the category of operators are the symbols of operators. -/
theorem exists_symbol {c : Char} (h : ofChar c = .operator) :
    ∃ op : Operator, op.symbol = c := by
  unfold ofChar at h
  split at h
  · cases h
  split at h
  · rename_i hsymbol
    simp only [Bool.or_eq_true, beq_iff_eq] at hsymbol
    rcases hsymbol with (((rfl | rfl) | rfl) | rfl) | rfl
    exacts [⟨.add, rfl⟩, ⟨.sub, rfl⟩, ⟨.mul, rfl⟩, ⟨.div, rfl⟩, ⟨.mod, rfl⟩]
  · repeat' split at h
    all_goals cases h

end Category

namespace Lexeme

/-- Does the text of a lexeme start with an uppercase character? -/
def isCapitalized (lexeme : Lexeme) : Bool := lexeme.text.toList.head?.any Text.isUppercase

/-- The lexeme is read as this kind of token. -/
def IsReadAs (lexeme : Lexeme) : Token.Kind → Prop
  | .number x => lexeme.category = .number ∧ Numeral.read lexeme.text = .ok x
  | .operator op => lexeme.category = .operator ∧ lexeme.text = op.text
  | .builtin function =>
    lexeme.category = .letter ∧ lexeme.isCapitalized ∧ lexeme.text = function.name
  | .name text => lexeme.category = .letter ∧ ¬ lexeme.isCapitalized ∧ lexeme.text = text
  | .openParen => lexeme.category = .parenthesis ∧ lexeme.text = "("
  | .closeParen => lexeme.category = .parenthesis ∧ lexeme.text ≠ "("
  | .comma => lexeme.category = .comma

/-- The lexeme is refused for this fault. -/
def IsRefused (lexeme : Lexeme) : Fault → Prop
  | .invalidNumeral text =>
    lexeme.category = .number ∧ lexeme.text = text ∧ ∃ error, Numeral.read text = .error error
  | .unknownFunction name =>
    lexeme.category = .letter ∧ lexeme.isCapitalized ∧ lexeme.text = name ∧
      ∀ function : Builtin, function.name ≠ name
  | _ => False

variable {lexeme : Lexeme}

/-- The first character of a lexeme. -/
theorem IsProper.exists_cons (h : lexeme.IsProper) :
    ∃ c tail, lexeme.text.toList = c :: tail ∧ Category.ofChar c = lexeme.category ∧
      (lexeme.category.isSingle → lexeme.text = String.ofList [c]) := by
  obtain ⟨c, tail, htext, -, hsingle⟩ := h.isRun
  have hc : Category.ofChar c = lexeme.category := h.ofChar_eq c (by simp [htext])
  refine ⟨c, tail, htext, hc, fun hone => ?_⟩
  rw [← hsingle (hc ▸ hone), ← htext, String.ofList_toList]

/-- The text of a proper lexeme is read as a kind of token or refused for a fault. -/
theorem IsProper.ofString_spec (h : lexeme.IsProper) :
    match Token.Kind.ofString lexeme.text with
    | .ok kind => lexeme.IsReadAs kind
    | .error cause => lexeme.IsRefused cause := by
  obtain ⟨c, tail, htext, hc, hsingle⟩ := h.exists_cons
  have hcapital : lexeme.isCapitalized = Text.isUppercase c := by
    unfold isCapitalized
    rw [htext]
    rfl
  unfold Token.Kind.ofString Token.Kind.ofText
  simp only [htext, hc]
  cases hcategory : lexeme.category with
  | number =>
      cases hread : Numeral.read lexeme.text with
      | ok value => exact ⟨hcategory, hread⟩
      | error failure => exact ⟨hcategory, rfl, failure, hread⟩
  | operator =>
      obtain ⟨op, rfl⟩ := Category.exists_symbol (hc.trans hcategory)
      simp only [Operator.ofSymbol?_symbol]
      exact ⟨hcategory, hsingle (by rw [hcategory]; rfl)⟩
  | parenthesis =>
      have hone := hsingle (by rw [hcategory]; rfl)
      by_cases hopen : c = '('
      · subst hopen
        exact ⟨hcategory, hone⟩
      · rw [if_neg hopen]
        refine ⟨hcategory, ?_⟩
        intro heq
        rw [hone] at heq
        exact hopen (by simpa using congrArg String.toList heq)
  | comma => exact hcategory
  | whitespace => exact absurd hcategory h.category_ne
  | letter =>
      by_cases hupper : Text.isUppercase c
      · simp only [hupper, if_true]
        cases hfunction : Builtin.ofName? lexeme.text with
        | some function =>
            have hname := List.find?_some hfunction
            exact ⟨hcategory, hcapital.trans hupper, (of_decide_eq_true hname).symm⟩
        | none =>
            refine ⟨hcategory, hcapital.trans hupper, rfl, ?_⟩
            intro function hname
            rw [← hname, Builtin.ofName?_name] at hfunction
            cases hfunction
      · simp only [hupper]
        exact ⟨hcategory, by rwa [hcapital], rfl⟩

/-- A proper lexeme has a token that it is read as, or it is refused for the fault of its error. -/
theorem IsProper.ofLexeme_spec (h : lexeme.IsProper) :
    match Token.ofLexeme lexeme with
    | .ok token => lexeme.IsReadAs token.kind
    | .error error => ∃ cause, error = .fault cause lexeme.position ∧ lexeme.IsRefused cause := by
  have hspec := h.ofString_spec
  obtain ⟨c, tail, htext, -, -⟩ := h.exists_cons
  unfold Token.Kind.ofString at hspec
  unfold Token.ofLexeme
  simp only [htext] at hspec ⊢
  cases hkind : Token.Kind.ofText c lexeme.text with
  | ok kind =>
      rw [hkind] at hspec
      exact hspec
  | error cause =>
      rw [hkind] at hspec
      exact ⟨cause, rfl, hspec⟩

end Lexeme

end Reckoner
