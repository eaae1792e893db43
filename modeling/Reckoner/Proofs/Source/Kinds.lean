import Reckoner.Expression
import Reckoner.Proofs.Fallible
import Reckoner.Proofs.Source.Lexing

/-!
# Token kinds of a source text

`HasKinds` says which token kinds a text has, without regard to their positions. Texts with a border
between them have the kinds of the one and then those of the other (`HasKinds.append`), and
`exists_of_ofSource` finds the texts around a token. The parentheses among the tokens are those
among the characters, so that a text balances if its token kinds do (`HasKinds.checkBalance`).
-/

namespace Reckoner.Token

/-- The meaning of the text of a lexeme, or what is wrong with it. -/
def Kind.ofString (text : String) : Except Fault Kind :=
  match text.toList with
  | [] => .error (.malformed .emptyLexeme)
  | first :: _ => Kind.ofText first text

/-- A name stands for itself. -/
theorem Kind.eq_of_ofString_name {text name : String} (h : Kind.ofString text = .ok (.name name)) :
    text = name := by
  unfold Kind.ofString at h
  split at h
  · cases h
  · unfold Kind.ofText at h
    repeat' split at h
    all_goals cases h
    rfl

/-- A lexeme stands for a token if its text has the kind of the token and stands at its position. -/
theorem ofLexeme_eq_ok_iff {lexeme : Lexeme} {token : Token} :
    ofLexeme lexeme = .ok token ↔
      Kind.ofString lexeme.text = .ok token.kind ∧ lexeme.position = token.position := by
  unfold ofLexeme Kind.ofString
  cases lexeme.text.toList with
  | nil => simp
  | cons first _ =>
      cases token
      dsimp only
      cases Kind.ofText first lexeme.text <;> simp

/-- The text has tokens of these kinds. -/
def HasKinds (text : List Char) (kinds : List Kind) : Prop :=
  List.Forall₂ (fun piece kind => Kind.ofString piece = .ok kind)
    ((Lexeme.scanFrom .start text).map Lexeme.text) kinds

/-- The kinds of a text do not depend on its position. -/
theorem hasKinds_iff (position : Position) {text : List Char} {kinds : List Kind} :
    HasKinds text kinds ↔
      List.Forall₂ (fun lexeme kind => Kind.ofString lexeme.text = .ok kind)
        (Lexeme.scanFrom position text) kinds := by
  rw [HasKinds, Lexeme.map_text_scanFrom .start position, List.forall₂_map_left_iff]

/-- The tokens of a text have its kinds. -/
theorem hasKinds_of_ofLexemes {position : Position} {text : List Char} {tokens : List Token}
    (h : ofLexemes (Lexeme.scanFrom position text) = .ok tokens) :
    HasKinds text (tokens.map Token.kind) := by
  rw [hasKinds_iff position, List.forall₂_map_right_iff]
  exact (mapM_eq_ok_iff.1 h).imp fun _ _ hlexeme => (ofLexeme_eq_ok_iff.1 hlexeme).1

/-- A text that has kinds has tokens. -/
theorem HasKinds.exists_ofLexemes (position : Position) {text : List Char} {kinds : List Kind}
    (h : HasKinds text kinds) :
    ∃ tokens, ofLexemes (Lexeme.scanFrom position text) = .ok tokens ∧
      tokens.map Token.kind = kinds := by
  rw [hasKinds_iff position] at h
  generalize Lexeme.scanFrom position text = lexemes at h
  unfold ofLexemes
  induction h with
  | nil => exact ⟨[], rfl, rfl⟩
  | @cons lexeme kind _ _ hlexeme _ ih =>
      obtain ⟨tokens, htokens, rfl⟩ := ih
      refine ⟨⟨kind, lexeme.position⟩ :: tokens, ?_, rfl⟩
      rw [mapM_eq_ok_iff] at htokens ⊢
      exact .cons (ofLexeme_eq_ok_iff.2 ⟨hlexeme, rfl⟩) htokens

/-- The tokens of a source text are those of its lexemes. -/
theorem ofSource_eq_ofLexemes (source : String) :
    ofSource source = ofLexemes (Lexeme.scan source) := by
  rw [ofSource, Lexeme.ofSource_eq_scan, ok_bind]

/-- A source text has the kinds of its tokens. -/
theorem hasKinds_iff_ofSource {source : String} {kinds : List Kind} :
    HasKinds source.toList kinds ↔
      ∃ tokens, ofSource source = .ok tokens ∧ tokens.map Token.kind = kinds := by
  rw [ofSource_eq_ofLexemes]
  constructor
  · exact fun h => h.exists_ofLexemes .start
  · rintro ⟨tokens, htokens, rfl⟩
    exact hasKinds_of_ofLexemes htokens

/-- The tokens of a source text have its kinds. -/
theorem hasKinds_of_ofSource {source : String} {tokens : List Token}
    (h : ofSource source = .ok tokens) : HasKinds source.toList (tokens.map Token.kind) :=
  hasKinds_iff_ofSource.2 ⟨tokens, h, rfl⟩

/-- A text without characters has no kinds. -/
theorem hasKinds_nil : HasKinds [] [] := by
  rw [hasKinds_iff .start, Lexeme.scanFrom_nil]
  exact .nil

/-- A text has one sequence of kinds at most. -/
theorem HasKinds.unique {text : List Char} {kinds others : List Kind} (h : HasKinds text kinds)
    (hothers : HasKinds text others) : kinds = others := by
  refine List.right_unique_forall₂' ?_ h hothers
  intro piece kind other hkind hother
  exact Except.ok.inj (hkind.symm.trans hother)

/-- The kinds of two texts in a row. -/
theorem HasKinds.append {first second : List Char} {kinds others : List Kind}
    (h : HasKinds first kinds) (hsecond : HasKinds second others)
    (hborder : Separated first second) : HasKinds (first ++ second) (kinds ++ others) := by
  rw [hasKinds_iff .start] at h ⊢
  rw [hasKinds_iff (Position.start.after first)] at hsecond
  rw [Lexeme.scanFrom_append _ hborder]
  exact List.rel_append h hsecond

/-- A character that stands alone is a token by itself. -/
theorem HasKinds.cons {c : Char} {text : List Char} {kind : Kind} {kinds : List Kind}
    (hsingle : (Category.ofChar c).isSingle) (hkind : Kind.ofString (String.ofList [c]) = .ok kind)
    (h : HasKinds text kinds) : HasKinds (c :: text) (kind :: kinds) := by
  have hrun : (Category.ofChar c).extent ([] ++ text) = [] := if_pos hsingle
  have hblank : Category.ofChar c ≠ .whitespace := by
    intro hblank
    rw [hblank] at hsingle
    cases hsingle
  rw [hasKinds_iff (Position.start.after [c])] at h
  rw [hasKinds_iff .start, ← List.nil_append text, Lexeme.scanFrom_run _ hrun, Lexeme.ofRun,
    if_neg hblank]
  exact .cons hkind h

/-- A run of characters that do not stand alone is a token. -/
theorem HasKinds.run {category : Category} {text : List Char} {kind : Kind} (hne : text ≠ [])
    (hmany : ¬ category.isSingle) (hblank : category ≠ .whitespace)
    (hchars : ∀ c ∈ text, Category.ofChar c = category)
    (hkind : Kind.ofString (String.ofList text) = .ok kind) : HasKinds text [kind] := by
  obtain ⟨c, tail, rfl⟩ := List.exists_cons_of_ne_nil hne
  have hc := hchars c List.mem_cons_self
  have hrun : (Category.ofChar c).extent (tail ++ []) = tail := by
    refine Category.extent_append_eq_left_iff.2 ⟨fun hone => absurd (hc ▸ hone) hmany, ?_, by simp⟩
    intro d hd
    rw [hchars d (List.mem_cons_of_mem _ hd), hc]
  rw [hasKinds_iff .start, ← List.append_nil tail, Lexeme.scanFrom_run _ hrun, Lexeme.ofRun,
    if_neg (hc ▸ hblank), Lexeme.scanFrom_nil]
  exact .cons hkind .nil

/-- A text in parentheses has the token kinds of the text in parentheses, whatever follows. -/
theorem HasKinds.parenthesized {inner after : List Char} {kinds others : List Kind}
    (h : HasKinds inner kinds) (hafter : HasKinds after others) :
    HasKinds ('(' :: (inner ++ ')' :: after)) (.openParen :: (kinds ++ .closeParen :: others)) := by
  have hclose : HasKinds (')' :: after) (.closeParen :: others) := hafter.cons rfl rfl
  exact (h.append hclose (separated_cons rfl)).cons rfl rfl

/-- The source text around a token. -/
theorem exists_of_ofSource {source : String} {left right : List Token} {token : Token}
    (h : ofSource source = .ok (left ++ token :: right)) :
    ∃ before text after, source.toList = before ++ (text.toList ++ after) ∧
      Kind.ofString text = .ok token.kind ∧ token.position = Position.start.after before ∧
        HasKinds before (left.map Token.kind) ∧ HasKinds after (right.map Token.kind) := by
  -- the lexemes are split where the tokens are, and then the text where the lexemes are
  rw [ofSource_eq_ofLexemes] at h
  have hlexemes := mapM_eq_ok_iff.1 h
  have hfront := List.forall₂_take_append _ _ _ hlexemes
  obtain ⟨lexeme, back, hlexeme, hback, hdrop⟩ :=
    List.forall₂_cons_right_iff.1 (List.forall₂_drop_append _ _ _ hlexemes)
  have hscan := List.take_append_drop left.length (Lexeme.scan source)
  rw [hdrop] at hscan
  obtain ⟨before, after, htext, hposition, hbefore, hafter, -⟩ :=
    Lexeme.scanFrom_split hscan.symm
  rw [← hbefore, ← mapM_eq_ok_iff] at hfront
  rw [← hafter, ← mapM_eq_ok_iff] at hback
  obtain ⟨hkind, hsame⟩ := ofLexeme_eq_ok_iff.1 hlexeme
  exact ⟨before, lexeme.text, after, htext, hkind, hsame ▸ hposition,
    hasKinds_of_ofLexemes hfront, hasKinds_of_ofLexemes hback⟩

end Reckoner.Token
