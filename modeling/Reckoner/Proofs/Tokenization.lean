import Reckoner.Proofs.Decompilation
import Reckoner.Proofs.Number.Grammar

/-!
# Which source texts have tokens

Numerals admit signs, exponents and words, but no lexeme brings them together: only plain decimal
fractions are read as numbers. Read `Token.ofLexemes_exact` first. It says for every source text
whether it has tokens, which error it has otherwise, and what the tokens are like.
-/

namespace Reckoner

namespace Lexeme

/-- Digits with a point at most, the name of a built-in function, or what needs no check. -/
def IsPlain (lexeme : Lexeme) : Prop :=
  match lexeme.category with
  | .number => (∃ c ∈ lexeme.text.toList, c.isDigit) ∧ lexeme.text.toList.count '.' ≤ 1
  | .letter => lexeme.isCapitalized → ∃ function : Builtin, function.name = lexeme.text
  | _ => True

/-- What is wrong with a lexeme that is not plain. -/
def flaw (lexeme : Lexeme) : Fault :=
  if lexeme.category = .number then .invalidNumeral lexeme.text else .unknownFunction lexeme.text

variable {lexeme : Lexeme}

/-- A number is read exactly if it is plain. -/
theorem IsProper.isPlain_iff_of_number (h : lexeme.IsProper)
    (hcategory : lexeme.category = .number) :
    lexeme.IsPlain ↔ ∃ x, Numeral.read lexeme.text = .ok x := by
  have hchars : ∀ c ∈ lexeme.text.toList, Category.ofChar c = .number := by
    intro c hc
    rw [h.ofChar_eq c hc, hcategory]
  rw [Numeral.exists_read_iff_of_ofChar hchars, IsPlain, hcategory]

/-- A lexeme that is read as a token is plain. -/
theorem IsReadAs.isPlain {kind : Token.Kind} (h : lexeme.IsProper) (hkind : lexeme.IsReadAs kind) :
    lexeme.IsPlain := by
  cases kind with
  | number x =>
      obtain ⟨hcategory, hread⟩ := hkind
      exact (h.isPlain_iff_of_number hcategory).2 ⟨x, hread⟩
  | builtin function =>
      obtain ⟨hcategory, -, htext⟩ := hkind
      rw [IsPlain, hcategory]
      exact fun _ => ⟨function, htext.symm⟩
  | name text =>
      obtain ⟨hcategory, hcapital, -⟩ := hkind
      rw [IsPlain, hcategory]
      exact fun hupper => absurd hupper hcapital
  | operator | openParen | closeParen =>
      rw [IsPlain, hkind.1]
      trivial
  | comma =>
      rw [IsPlain, show lexeme.category = .comma from hkind]
      trivial

/-- A lexeme that is refused is not plain, and the fault is its flaw. -/
theorem IsRefused.eq_flaw {cause : Fault} (h : lexeme.IsProper) (hcause : lexeme.IsRefused cause) :
    ¬ lexeme.IsPlain ∧ cause = lexeme.flaw := by
  cases cause with
  | invalidNumeral text =>
      obtain ⟨hcategory, rfl, error, hread⟩ := hcause
      refine ⟨fun hplain => ?_, by rw [flaw, if_pos hcategory]⟩
      obtain ⟨x, hx⟩ := (h.isPlain_iff_of_number hcategory).1 hplain
      cases hx.symm.trans hread
  | unknownFunction name =>
      obtain ⟨hcategory, hcapital, rfl, hname⟩ := hcause
      refine ⟨fun hplain => ?_, by rw [flaw, hcategory]; rfl⟩
      rw [IsPlain, hcategory] at hplain
      obtain ⟨function, hfunction⟩ := hplain hcapital
      exact hname function hfunction
  | _ => exact hcause.elim

end Lexeme

namespace Token

/-- What the token of a lexeme is like: it stands where the lexeme stands, a number is neither
undefined nor negative, and a name is the text of the lexeme, which is not empty and free of digits
and marks. -/
structure IsTokenOf (token : Token) (lexeme : Lexeme) : Prop where
  position_eq : token.position = lexeme.position
  number : ∀ x, token.kind = .number x → x.isNaN = false ∧ Binary64.isNegative x = false
  name : ∀ text, token.kind = .name text → text = lexeme.text ∧ text ≠ "" ∧
    ∀ c ∈ text.toList, c.isDigit = false ∧ c ∉ Category.marks

/-- A lexeme that has a token is plain. -/
theorem isPlain_of_ofLexeme {lexeme : Lexeme} {token : Token} (h : lexeme.IsProper)
    (htoken : ofLexeme lexeme = .ok token) : lexeme.IsPlain ∧ token.IsTokenOf lexeme := by
  have hread : lexeme.IsReadAs token.kind := by
    simpa only [htoken] using h.ofLexeme_spec
  have hleaf := Kind.isLeaf_of_isReadAs h hread
  refine ⟨hread.isPlain h, (ofLexeme_eq_ok_iff.1 htoken).2.symm, fun x hx => ?_,
    fun text htext => ?_⟩
  · rw [hx] at hleaf
    exact hleaf
  · rw [htext] at hleaf hread
    obtain ⟨-, -, heq⟩ := hread
    exact ⟨heq.symm, hleaf.ne_empty, fun c hc =>
      Category.not_mem_marks_of_ofChar (hleaf.ofChar_eq c hc)⟩

/-- A lexeme that has no token is not plain, and its flaw is the error. -/
theorem eq_flaw_of_ofLexeme {lexeme : Lexeme} {error : CompileError} (h : lexeme.IsProper)
    (herror : ofLexeme lexeme = .error error) :
    ¬ lexeme.IsPlain ∧ error = .fault lexeme.flaw lexeme.position := by
  obtain ⟨cause, rfl, hcause⟩ : ∃ cause, error = .fault cause lexeme.position ∧
      lexeme.IsRefused cause := by
    simpa only [herror] using h.ofLexeme_spec
  obtain ⟨hplain, rfl⟩ := hcause.eq_flaw h
  exact ⟨hplain, rfl⟩

/-- Lexemes that have tokens are plain. -/
theorem isPlain_of_ofLexemes {lexemes : List Lexeme} {tokens : List Token}
    (hproper : ∀ lexeme ∈ lexemes, lexeme.IsProper) (h : ofLexemes lexemes = .ok tokens) :
    (∀ lexeme ∈ lexemes, lexeme.IsPlain) ∧ tokens.Forall₂ IsTokenOf lexemes := by
  have hall := mapM_eq_ok_iff.1 h
  clear h
  induction hall with
  | nil => exact ⟨by simp, .nil⟩
  | cons htoken _ ih =>
      obtain ⟨hfirst, hrest⟩ := List.forall_mem_cons.1 hproper
      obtain ⟨hplain, hof⟩ := isPlain_of_ofLexeme hfirst htoken
      obtain ⟨hplains, hofs⟩ := ih hrest
      exact ⟨List.forall_mem_cons.2 ⟨hplain, hplains⟩, .cons hof hofs⟩

/-- Every source text has lexemes. They have tokens exactly if all of them are plain, and otherwise
the flaw of the first lexeme that is not plain is the error, at its position. The tokens are those
of the lexemes, one by one: no number among them is undefined or negative, and their names are free
of digits and marks. -/
theorem ofLexemes_exact (source : String) : ∃ lexemes, Lexeme.ofSource source = .ok lexemes ∧
    ((∃ tokens, ofLexemes lexemes = .ok tokens) ↔ ∀ lexeme ∈ lexemes, lexeme.IsPlain) ∧
    (∀ error, ofLexemes lexemes = .error error → ∃ front lexeme back,
      lexemes = front ++ lexeme :: back ∧ (∀ earlier ∈ front, earlier.IsPlain) ∧
        ¬ lexeme.IsPlain ∧ error = .fault lexeme.flaw lexeme.position) ∧
    ∀ tokens, ofLexemes lexemes = .ok tokens → tokens.Forall₂ IsTokenOf lexemes := by
  refine ⟨Lexeme.scan source, Lexeme.ofSource_eq_scan source, ?_⟩
  have hproper : ∀ lexeme ∈ Lexeme.scan source, lexeme.IsProper := fun _ hlexeme =>
    Lexeme.isProper_of_mem_scanFrom hlexeme
  generalize Lexeme.scan source = lexemes at hproper
  have hfails : ∀ error, ofLexemes lexemes = .error error → ∃ front lexeme back,
      lexemes = front ++ lexeme :: back ∧ (∀ earlier ∈ front, earlier.IsPlain) ∧
        ¬ lexeme.IsPlain ∧ error = .fault lexeme.flaw lexeme.position := by
    intro error herror
    obtain ⟨front, lexeme, back, rfl, hfront, hlexeme⟩ := exists_of_mapM_eq_error herror
    refine ⟨front, lexeme, back, rfl, fun earlier hearlier => ?_,
      eq_flaw_of_ofLexeme (hproper lexeme (by simp)) hlexeme⟩
    obtain ⟨token, htoken⟩ := hfront earlier hearlier
    exact (isPlain_of_ofLexeme (hproper earlier (by simp [hearlier])) htoken).1
  refine ⟨⟨?_, fun hplain => ?_⟩, hfails, fun tokens h => (isPlain_of_ofLexemes hproper h).2⟩
  · rintro ⟨tokens, h⟩
    exact (isPlain_of_ofLexemes hproper h).1
  · cases hresult : ofLexemes lexemes with
    | ok tokens => exact ⟨tokens, rfl⟩
    | error error =>
        obtain ⟨front, lexeme, back, rfl, -, hnot, -⟩ := hfails error hresult
        exact absurd (hplain lexeme (by simp)) hnot

/-- The second point of `1.2.3` is one too many. -/
example : ofSource "x*1.2.3" = .error (.fault (.invalidNumeral "1.2.3") ⟨3, 1⟩) := by
  cbv

end Token

end Reckoner
