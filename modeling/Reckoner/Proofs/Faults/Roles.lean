import Reckoner.Proofs.Source.Meaning

/-!
# Roles of tokens

A role is what a token is to its neighbours. The category and the text of a lexeme tell its role
before it is read, and its token plays the same role (`Lexeme.IsReadAs.role_eq`). In terms of roles,
`Fault.Suits` says at which place among its neighbours a fault is genuine.
-/

namespace Reckoner

/-- What a token is to its neighbours. -/
inductive Role where
  | number
  /-- A name whose value is looked up. -/
  | name
  /-- The name of a built-in function. -/
  | function
  /-- An operator that may stand in front of an operand. -/
  | sign
  /-- Any other operator. -/
  | operator
  | opening
  | closing
  | comma
  deriving DecidableEq

namespace Role

/-- The number of commas between an opening parenthesis, behind which the roles stand, and the
parenthesis that closes it, without those inside of further parentheses. The depth is the number of
further parentheses that are open. -/
def directCommas? : Nat → List Role → Option Nat
  | _, [] => none
  | depth, .opening :: rest => directCommas? (depth + 1) rest
  | 0, .closing :: _ => some 0
  | depth + 1, .closing :: rest => directCommas? depth rest
  | 0, .comma :: rest => (directCommas? 0 rest).map (· + 1)
  | depth, _ :: rest => directCommas? depth rest

/-- The roles stand inside of parentheses, closing those that they open, with as many commas
directly inside. -/
inductive IsInterior : List Role → Nat → Prop where
  | nil : IsInterior [] 0
  | plain {inner commas role} : IsInterior inner commas → role ≠ .opening → role ≠ .closing →
      role ≠ .comma → IsInterior (inner ++ [role]) commas
  | comma {inner commas} : IsInterior inner commas → IsInterior (inner ++ [.comma]) (commas + 1)
  | group {inner commas nested others} : IsInterior inner commas → IsInterior nested others →
      IsInterior (inner ++ .opening :: nested ++ [.closing]) commas

/-- Counting goes on behind an interior, and its commas count if no further parentheses are open. -/
theorem IsInterior.directCommas?_append {inner : List Role} {commas : Nat}
    (h : IsInterior inner commas) (depth : Nat) (rest : List Role) :
    directCommas? depth (inner ++ rest) =
      (directCommas? depth rest).map (· + if depth = 0 then commas else 0) := by
  induction h generalizing depth rest with
  | nil => simp
  | @plain inner commas role _ hopening hclosing hcomma ih =>
      rw [List.append_assoc, ih]
      cases role <;> cases depth <;> simp [directCommas?] at hopening hclosing hcomma ⊢
  | comma _ ih =>
      rw [List.append_assoc, ih]
      cases depth with
      | zero => simp [directCommas?, Function.comp_def, Nat.add_comm, Nat.add_left_comm]
      | succ depth => simp [directCommas?]
  | group _ _ ih ihNested =>
      have hskip : ∀ behind, directCommas? depth (.opening :: behind) =
          directCommas? (depth + 1) behind := by
        intro behind
        cases depth <;> rfl
      rw [List.append_assoc, List.append_assoc, ih, List.cons_append, hskip, ihNested]
      simp [directCommas?]

/-- The commas directly inside of parentheses that are closed. -/
theorem IsInterior.directCommas?_eq {inner : List Role} {commas : Nat}
    (h : IsInterior inner commas) (rest : List Role) :
    directCommas? 0 (inner ++ .closing :: rest) = some commas := by
  rw [h.directCommas?_append]
  simp [directCommas?]

/-- No interior ends with an opening parenthesis, and one without commas does not end with a
comma. -/
theorem IsInterior.getLast?_ne {inner : List Role} (h : IsInterior inner 0) :
    inner.getLast? ≠ some .opening ∧ inner.getLast? ≠ some .comma := by
  cases h with
  | nil => simp
  | plain _ hopening _ hcomma => simp [hopening, hcomma]
  | group =>
      rw [List.getLast?_concat]
      constructor <;> intro h <;> cases h

end Role

/-- The role of a lexeme, which is never white space. -/
def Lexeme.role (lexeme : Lexeme) : Role :=
  match lexeme.category with
  | .number => .number
  | .operator => if lexeme.text = "+" ∨ lexeme.text = "-" then .sign else .operator
  | .parenthesis => if lexeme.text = "(" then .opening else .closing
  | .comma => .comma
  | .letter | .whitespace => if lexeme.isCapitalized then .function else .name

/-- The role of a token. -/
def Token.role (token : Token) : Role :=
  match token.kind with
  | .number _ => .number
  | .operator op => if op.actsAsSign then .sign else .operator
  | .builtin _ => .function
  | .name _ => .name
  | .openParen => .opening
  | .closeParen => .closing
  | .comma => .comma

/-- The text that a fault reports. -/
def Fault.reported? : Fault → Option String
  | .invalidNumeral text => some text
  | .unknownFunction name => some name
  | .argumentCount function _ _ | .missingArguments function => some function.name
  | _ => none

/-- The fault is what is wrong at a token with the given role, among the roles of the tokens to its
left and to its right. -/
def Fault.Suits (left : List Role) (role : Role) (right : List Role) : Fault → Prop
  | .unbalancedParentheses => role = .opening ∨ role = .closing
  | .invalidNumeral text => role = .number ∧ ∃ error, Numeral.read text = .error error
  | .unknownFunction name => role = .function ∧ ∀ function : Builtin, function.name ≠ name
  | .danglingOperator =>
    (∃ before ∈ left.getLast?, before ∈ [.sign, .operator]) ∧
        role ∈ [.sign, .operator, .closing, .comma] ∨
      role ∈ [.sign, .operator] ∧ right = []
  | .emptyParentheses => role = .opening ∧ right.head? = some .closing
  | .misplacedComma => role = .comma
  | .argumentCount function expected found =>
    role = .function ∧ expected = function.arity ∧ found ≠ expected ∧ ∃ arguments commas,
      right = .opening :: arguments ∧ Role.directCommas? 0 arguments = some commas ∧
        found = 1 + commas
  | .missingArguments _ => role = .function ∧ right.head? ≠ some .opening
  | .missingOperand =>
    role = .closing ∧ left.getLast? = some .comma ∨
      role = .comma ∧ (left.getLast? = some .opening ∨ left.getLast? = some .comma) ∨
      role = .operator ∧
        (left = [] ∨ left.getLast? = some .opening ∨ left.getLast? = some .comma)
  | .missingOperator =>
    role ∈ [.number, .name, .function, .opening] ∧
      ∃ before ∈ left.getLast?, before ∈ [.number, .name, .closing]
  | .malformed _ => False

namespace Lexeme

variable {lexeme : Lexeme}

/-- A token plays the role of the lexeme that is read as it. -/
theorem IsReadAs.role_eq {token : Token} (h : lexeme.IsReadAs token.kind) :
    lexeme.role = token.role := by
  obtain ⟨kind, position⟩ := token
  unfold role Token.role
  cases kind with
  | number x => rw [h.1]
  | operator op =>
      rw [h.1, h.2]
      cases op <;> rfl
  | builtin function => simp only [h.1, h.2.1, if_true]
  | name text => simp only [h.1, if_neg h.2.1]
  | openParen => simp only [h.1, h.2, if_true]
  | closeParen => simp only [h.1, h.2, if_false]
  | comma => rw [h]

/-- The fault that a lexeme is refused for suits it, whatever its neighbours are, and reports the
text of the lexeme. -/
theorem IsRefused.suits {cause : Fault} (h : lexeme.IsRefused cause) :
    (∀ left right, cause.Suits left lexeme.role right) ∧
      ∀ text, cause.reported? = some text → lexeme.text = text := by
  cases cause with
  | invalidNumeral text =>
      obtain ⟨hcategory, htext, hread⟩ := h
      refine ⟨?_, by simp [Fault.reported?, htext]⟩
      intro left right
      refine ⟨?_, hread⟩
      unfold role
      rw [hcategory]
  | unknownFunction name =>
      obtain ⟨hcategory, hcapital, htext, hname⟩ := h
      refine ⟨?_, by simp [Fault.reported?, htext]⟩
      intro left right
      refine ⟨?_, hname⟩
      unfold role
      rw [hcategory]
      exact if_pos hcapital
  | _ => exact h.elim

end Lexeme

end Reckoner
