import Reckoner.Proofs.Faults.Shape
import Reckoner.Proofs.Stages

/-!
# Faults of a source text

Every error of the compiler is genuine and stands at a lexeme of the source text, which is
`compile_blames`: the fault suits the role of this lexeme among its neighbours, and a text that the
fault reports is the text of the lexeme. Only white space has an error without a position.
-/

namespace Reckoner

namespace Lexeme

/-- The error is at a lexeme that its fault suits, and a text that the fault reports is that of the
lexeme. -/
def Blames (lexemes : List Lexeme) (error : CompileError) : Prop :=
  ∃ cause left lexeme right, lexemes = left ++ lexeme :: right ∧
    error = .fault cause lexeme.position ∧
      cause.Suits (left.map role) lexeme.role (right.map role) ∧
        ∀ text, cause.reported? = some text → lexeme.text = text

variable {lexemes : List Lexeme} {tokens : List Token} {error : CompileError}

/-- The tokens of proper lexemes play the same roles. -/
theorem map_role_eq (hproper : ∀ lexeme ∈ lexemes, lexeme.IsProper)
    (h : List.Forall₂ (fun lexeme token => Token.ofLexeme lexeme = .ok token) lexemes tokens) :
    lexemes.map role = tokens.map Token.role := by
  induction h with
  | nil => rfl
  | cons htoken _ ih =>
      have hspec := (hproper _ List.mem_cons_self).ofLexeme_spec
      rw [htoken] at hspec
      rw [List.map_cons, List.map_cons, hspec.role_eq,
        ih fun l hl => hproper l (List.mem_cons_of_mem _ hl)]

/-- An error at a token is an error at its lexeme. -/
theorem blames_of_tokens (hproper : ∀ lexeme ∈ lexemes, lexeme.IsProper)
    (htokens : Token.ofLexemes lexemes = .ok tokens) (h : Token.Blames tokens error) :
    Blames lexemes error := by
  obtain ⟨cause, left, token, right, rfl, rfl, hsuits, hreported⟩ := h
  have hlexemes := mapM_eq_ok_iff.1 htokens
  have hfront := List.forall₂_take_append _ _ _ hlexemes
  obtain ⟨lexeme, back, hlexeme, hback, hdrop⟩ :=
    List.forall₂_cons_right_iff.1 (List.forall₂_drop_append _ _ _ hlexemes)
  have hsplit := List.take_append_drop left.length lexemes
  rw [hdrop] at hsplit
  generalize lexemes.take left.length = front at hfront hsplit
  subst hsplit
  have hmem : lexeme ∈ front ++ lexeme :: back := by simp
  have hspec := (hproper lexeme hmem).ofLexeme_spec
  rw [hlexeme] at hspec
  refine ⟨cause, front, lexeme, back, rfl, ?_, ?_, fun text htext => ?_⟩
  · rw [(Token.ofLexeme_eq_ok_iff.1 hlexeme).2]
  · rwa [map_role_eq (fun l hl => hproper l (by simp [hl])) hfront, hspec.role_eq,
      map_role_eq (fun l hl => hproper l (by simp [hl])) hback]
  · obtain ⟨function, hfunction, rfl⟩ := hreported text htext
    have hname : lexeme.IsReadAs token.kind := hspec
    rw [hfunction] at hname
    exact hname.2.2

/-- Parentheses that do not balance are blamed on one of them. -/
theorem blames_of_culprit? {position : Position} (hproper : ∀ lexeme ∈ lexemes, lexeme.IsProper)
    (h : (lexemes.foldl Balance.noteLexeme .empty).culprit? = some position) :
    Blames lexemes (.fault .unbalancedParentheses position) := by
  have hsound := (Balance.IsSound.empty lexemes).foldl (List.Subset.refl lexemes) hproper
  obtain ⟨lexeme, hmem, hcategory, rfl⟩ := hsound.exists_of_culprit? h
  obtain ⟨left, right, hsplit⟩ := List.append_of_mem hmem
  refine ⟨_, left, lexeme, right, hsplit, rfl, ?_, by simp [Fault.reported?]⟩
  show lexeme.role = .opening ∨ lexeme.role = .closing
  unfold role
  rw [hcategory]
  by_cases hopen : lexeme.text = "("
  · exact .inl (if_pos hopen)
  · exact .inr (if_neg hopen)

/-- A lexeme without a token is blamed itself. -/
theorem blames_of_refused (hproper : ∀ lexeme ∈ lexemes, lexeme.IsProper)
    (h : Token.ofLexemes lexemes = .error error) : Blames lexemes error := by
  obtain ⟨left, lexeme, right, rfl, -, hlexeme⟩ := exists_of_mapM_eq_error h
  have hspec := (hproper lexeme (by simp)).ofLexeme_spec
  rw [hlexeme] at hspec
  obtain ⟨cause, rfl, hrefused⟩ := hspec
  obtain ⟨hsuits, hreported⟩ := hrefused.suits
  exact ⟨cause, left, lexeme, right, rfl, rfl, hsuits _ _, hreported⟩

/-- Lexemes without a program are none at all, or the error is at one of them. -/
theorem blames_of_ofLexemes (hproper : ∀ lexeme ∈ lexemes, lexeme.IsProper)
    (h : Program.ofLexemes lexemes = .error error) :
    error = .emptyExpression ∧ lexemes = [] ∨ Blames lexemes error := by
  unfold Program.ofLexemes at h
  split at h
  · next position hculprit =>
      cases h
      exact .inr (blames_of_culprit? hproper hculprit)
  · split at h
    · next hnil =>
        cases h
        exact .inl ⟨rfl, hnil⟩
    · next hnil =>
        refine .inr ?_
        cases htokens : Token.ofLexemes lexemes with
        | error failure =>
            rw [htokens] at h
            cases h
            exact blames_of_refused hproper htokens
        | ok tokens =>
            rw [htokens, ok_bind] at h
            cases hcheck : Token.check tokens with
            | error failure =>
                rw [hcheck] at h
                cases h
                exact blames_of_tokens hproper htokens (Token.blames_of_check hcheck)
            | ok =>
                -- the last stage accepts what the check does
                have hne := Program.ne_nil_of_ofLexemes htokens hnil
                obtain ⟨program, hprogram⟩ := Program.ofTokens_of_check hne hcheck
                rw [hcheck, ok_bind, hprogram tokens rfl] at h
                cases h

/-- A source text has no lexemes if it consists of spaces, tabs and newlines. -/
theorem scan_eq_nil_iff (source : String) :
    scan source = [] ↔ ∀ c ∈ source.toList, c = ' ' ∨ c = '\t' ∨ c = '\n' := by
  rw [scan, scanFrom_eq_nil_iff]
  simp only [Category.ofChar_eq_whitespace_iff, or_left_comm]

end Lexeme

namespace Program

/-- A text does not compile for want of an expression exactly if it is white space. Any other error
stands at a lexeme of the text. Its fault suits the role of this lexeme among those of its
neighbours, which no malformation does, and what the fault reports is the text of the lexeme. -/
theorem compile_blames (source : String) :
    (compile source = .error .emptyExpression ↔
      ∀ c ∈ source.toList, c = ' ' ∨ c = '\t' ∨ c = '\n') ∧
    ∀ cause position, compile source = .error (.fault cause position) →
      (∀ reason, cause ≠ .malformed reason) ∧
      ∃ left lexeme right, Lexeme.ofSource source = .ok (left ++ lexeme :: right) ∧
        lexeme.position = position ∧
        (∀ text, cause.reported? = some text → lexeme.text = text) ∧
        cause.Suits (left.map Lexeme.role) lexeme.role (right.map Lexeme.role) := by
  have hproper : ∀ lexeme ∈ Lexeme.scan source, lexeme.IsProper :=
    fun _ hlexeme => Lexeme.isProper_of_mem_scanFrom hlexeme
  rw [compile_eq_ofLexemes]
  constructor
  · rw [← Lexeme.scan_eq_nil_iff]
    constructor
    · intro h
      rcases Lexeme.blames_of_ofLexemes hproper h with ⟨-, hnil⟩ | hblames
      · exact hnil
      · obtain ⟨_, _, _, _, _, herror, _⟩ := hblames
        cases herror
    · intro hnil
      rw [hnil]
      rfl
  · intro cause position h
    rcases Lexeme.blames_of_ofLexemes hproper h with ⟨herror, -⟩ | hblames
    · cases herror
    · obtain ⟨_, left, lexeme, right, hsplit, herror, hsuits, htext⟩ := hblames
      cases herror
      refine ⟨?_, left, lexeme, right, ?_, rfl, htext, hsuits⟩
      · rintro reason rfl
        exact hsuits
      · rw [Lexeme.ofSource_eq_scan, hsplit]

/-- Two arguments of a function that takes one are blamed on its name, and the comma inside of the
nested call is none of theirs. -/
theorem compile_blames_argument_count :
    let source := "a*\nSin(x, Atan(y, z))"
    let cause : Fault := .argumentCount .sin 1 2
    compile source = .error (.fault cause ⟨1, 2⟩) ∧ (∀ reason, cause ≠ .malformed reason) ∧
      ∃ left lexeme right, Lexeme.ofSource source = .ok (left ++ lexeme :: right) ∧
        lexeme.position = ⟨1, 2⟩ ∧ (∀ text, cause.reported? = some text → lexeme.text = text) ∧
        cause.Suits (left.map Lexeme.role) lexeme.role (right.map Lexeme.role) := by
  intro source cause
  have hcompile : compile source = .error (.fault cause ⟨1, 2⟩) := by cbv
  exact ⟨hcompile, (compile_blames source).2 cause ⟨1, 2⟩ hcompile⟩

end Program

end Reckoner
