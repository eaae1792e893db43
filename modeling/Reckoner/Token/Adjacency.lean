import Reckoner.CompileError

/-!
# Neighbouring tokens

Two checks that look at pairs of neighbours only: an operator has to be followed by something that
can start an operand, and an opening parenthesis must not be closed at once.
-/

namespace Reckoner.Token

/-- Can a token of this kind not follow an operator? -/
def Kind.endsOperand : Kind → Bool
  | .operator _ | .closeParen | .comma => true
  | _ => false

/-- Is a token of this kind an operator? -/
def Kind.isOperator : Kind → Bool
  | .operator _ => true
  | _ => false

/-- Refuses the first operator that no operand can follow. The fault is at the token that stands in
place of the operand, or at the operator itself if it is the last token. -/
def checkOperators : List Token → Except CompileError Unit
  | [] => .ok ()
  | [last] =>
    if last.kind.isOperator then .error (.fault .danglingOperator last.position) else .ok ()
  | first :: second :: rest =>
    if first.kind.isOperator && second.kind.endsOperand then
      .error (.fault .danglingOperator second.position)
    else checkOperators (second :: rest)

/-- Refuses the first opening parenthesis that is closed at once. -/
def checkGroups : List Token → Except CompileError Unit
  | first :: second :: rest =>
    if first.kind = .openParen ∧ second.kind = .closeParen then
      .error (.fault .emptyParentheses first.position)
    else checkGroups (second :: rest)
  | _ => .ok ()

end Reckoner.Token
