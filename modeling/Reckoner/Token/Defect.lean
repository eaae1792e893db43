import Reckoner.Token.Adjacency

/-!
# Defects of a token sequence

What is wrong with the shape of a token sequence, told without a state from the neighbours of the
tokens and from the partners of the parentheses. `defect?` is what is wrong with one token behind
those to its left, where the first rule that applies counts. `shapeDefect?` is what is wrong with a
whole sequence: the defect of its first defective token, or else one of its end.
-/

namespace Reckoner.Token

/-- Does an operand begin with a token of this kind? -/
def Kind.beginsOperand : Kind → Bool
  | .number _ | .name _ | .builtin _ | .openParen => true
  | _ => false

/-- Is an operand complete with a token of this kind? -/
def Kind.completesOperand : Kind → Bool
  | .number _ | .name _ | .closeParen => true
  | _ => false

/-- Does a token of this kind need an operand behind it? -/
def Kind.needsOperand : Kind → Bool
  | .operator _ | .openParen | .comma => true
  | _ => false

/-- The function that a token is the name of, with the position of the name. -/
def function? : Option Token → Option (Builtin × Position)
  | some ⟨.builtin function, name⟩ => some (function, name)
  | _ => none

/-- A parenthesis that has no partner among the tokens behind it. -/
structure Opening where
  /-- The function whose name stands directly in front of the parenthesis. -/
  call : Option (Builtin × Position)
  /-- The number of commas behind the parenthesis, not counting those behind further ones. -/
  commas : Nat
  deriving DecidableEq

/-- The last parenthesis without a partner in a sequence whose tokens are given the last one first.
The depth is the number of closing parentheses whose partners are still to come, and the commas are
those met outside of these. -/
def opening? (depth commas : Nat) : List Token → Option Opening
  | [] => none
  | token :: earlier =>
    match token.kind, depth with
    | .closeParen, _ => opening? (depth + 1) commas earlier
    | .openParen, 0 => some ⟨function? earlier.head?, commas⟩
    | .openParen, depth + 1 => opening? depth commas earlier
    | .comma, 0 => opening? 0 (commas + 1) earlier
    | _, _ => opening? depth commas earlier

/-- The innermost parenthesis that is open behind the tokens. -/
def innermost? (left : List Token) : Option Opening := opening? 0 0 left.reverse

/-- Is a parenthesis in front of the tokens closed by one of them? The depth is the number of
further parentheses that are open. -/
def closes (depth : Nat) : List Token → Bool
  | [] => false
  | token :: rest =>
    match token.kind, depth with
    | .openParen, _ => closes (depth + 1) rest
    | .closeParen, 0 => true
    | .closeParen, depth + 1 => closes depth rest
    | _, _ => closes depth rest

/-- The opening parentheses that are never closed, in order. -/
def unclosed : List Token → List Token
  | [] => []
  | token :: rest =>
    if token.kind = .openParen ∧ closes 0 rest = false then token :: unclosed rest
    else unclosed rest

theorem unclosed_cons (token : Token) (rest : List Token) : unclosed (token :: rest) =
    if token.kind = .openParen ∧ closes 0 rest = false then token :: unclosed rest
    else unclosed rest := rfl

/-- The first opening parenthesis that is never closed. -/
def unclosed? (tokens : List Token) : Option Token := (unclosed tokens).head?

section Rules

variable (left : List Token) (token : Token)

/-- The name of a function is followed by something else than an opening parenthesis. -/
def callDefect? : Option CompileError :=
  match function? left.getLast? with
  | some (function, name) =>
    if token.kind = .openParen then none else some (.fault (.missingArguments function) name)
  | none => none

/-- One operand follows another one. -/
def operandDefect? : Option CompileError :=
  if token.kind.beginsOperand ∧ left.getLast?.any (·.kind.completesOperand) then
    some (.fault .missingOperator token.position)
  else none

/-- A closing parenthesis has no partner, or stands in place of an operand, or ends a call with the
wrong number of arguments, which is one more than the commas between them. -/
def closingDefect? : Option CompileError :=
  if token.kind ≠ .closeParen then none
  else
    match innermost? left with
    | none => some (.fault .unbalancedParentheses token.position)
    | some opening =>
      if left.getLast?.any (·.kind.needsOperand) then some (.fault .missingOperand token.position)
      else
        match opening.call with
        | some (function, name) =>
          if 1 + opening.commas = function.arity then none
          else some (.fault (.argumentCount function function.arity (1 + opening.commas)) name)
        | none => none

/-- A comma is not directly inside the parentheses of a call, or stands in place of an operand. -/
def commaDefect? : Option CompileError :=
  if token.kind ≠ .comma then none
  else if ((innermost? left).bind Opening.call).isNone then
    some (.fault .misplacedComma token.position)
  else if left.getLast?.any (·.kind.needsOperand) then
    some (.fault .missingOperand token.position)
  else none

/-- An operator that is no sign has nothing to its left, or stands in place of an operand. -/
def operatorDefect? : Option CompileError :=
  match token.kind with
  | .operator op =>
    if op.actsAsSign = false ∧ left.getLast?.all (·.kind.needsOperand) then
      some (.fault .missingOperand token.position)
    else none
  | _ => none

/-- What is wrong with a token behind those to its left. The first rule that applies counts. -/
def defect? : Option CompileError :=
  (callDefect? left token).or <| (operandDefect? left token).or <| (closingDefect? left token).or <|
    (commaDefect? left token).or <| operatorDefect? left token

end Rules

/-- What is wrong at the end of tokens that have no defect: the name of a function is the last one,
or a parenthesis is never closed, of which the first one is blamed, or an operand is missing. -/
def endDefect? (tokens : List Token) : Option CompileError :=
  match function? tokens.getLast?, unclosed? tokens, tokens.getLast? with
  | some (function, name), _, _ => some (.fault (.missingArguments function) name)
  | none, some opening, _ => some (.fault .unbalancedParentheses opening.position)
  | none, none, some last =>
    if last.kind.needsOperand then some (.fault .missingOperand last.position) else none
  | none, none, none => none

/-- The defect of the first token of a sequence that has one. -/
def firstDefect? (tokens : List Token) : Option CompileError :=
  (List.range tokens.length).findSome? fun index =>
    tokens[index]?.bind (defect? (tokens.take index))

/-- What is wrong with the shape of a token sequence. -/
def shapeDefect? (tokens : List Token) : Option CompileError :=
  (firstDefect? tokens).or (endDefect? tokens)

end Reckoner.Token
