import Reckoner.Token.Adjacency

/-!
# Shape of a token sequence

One walk over the tokens decides whether they form an expression. Its state is the stack of open
groups and what has to come next. A sign may stand where an operand is expected, a comma only
directly inside the arguments of a function, and a call needs as many arguments as its function
takes. `Token.check` is the whole check of a token sequence.
-/

namespace Reckoner.Token

/-- What has to come next. -/
inductive Expected where
  | operand
  | operator
  /-- The opening parenthesis after the name of a function. -/
  | arguments (function : Builtin) (position : Position)
  deriving DecidableEq

/-- An open pair of parentheses. -/
structure Group where
  /-- The function whose arguments the group holds, with the position of its name. -/
  call : Option (Builtin × Position)
  /-- The number of arguments that have been started. -/
  arguments : Nat
  /-- The position of the opening parenthesis. -/
  opened : Position
  deriving DecidableEq

/-- The state of the walk: the open groups, the innermost first, and what has to come next. -/
structure Walk where
  groups : List Group
  expected : Expected
  deriving DecidableEq

namespace Walk

/-- The state before the first token. -/
def start : Walk := ⟨[], .operand⟩

/-- The end of a group. -/
def close (position : Position) : Walk → Except CompileError Walk
  | ⟨[], _⟩ => .error (.fault .unbalancedParentheses position)
  | ⟨_ :: _, .operand⟩ => .error (.fault .missingOperand position)
  | ⟨group :: groups, _⟩ =>
    match group.call with
    | some (function, name) =>
      if group.arguments = function.arity then .ok ⟨groups, .operator⟩
      else .error (.fault (.argumentCount function function.arity group.arguments) name)
    | none => .ok ⟨groups, .operator⟩

/-- The end of an argument that is followed by another one. -/
def separate (position : Position) : Walk → Except CompileError Walk
  | ⟨⟨some call, arguments, opened⟩ :: groups, expected⟩ =>
    if expected = .operand then .error (.fault .missingOperand position)
    else .ok ⟨⟨some call, arguments + 1, opened⟩ :: groups, .operand⟩
  | _ => .error (.fault .misplacedComma position)

section Inversion

variable {position : Position} {walk next : Walk} {error : CompileError}

/-- Only an open group ends, not in place of an operand, and with as many arguments as its function
takes. -/
theorem close_eq_ok (h : walk.close position = .ok next) :
    ∃ group, walk.groups = group :: next.groups ∧ next.expected = .operator ∧
      walk.expected ≠ .operand ∧
        ∀ function name, group.call = some (function, name) → group.arguments = function.arity := by
  unfold close at h
  split at h
  · cases h
  · cases h
  · next group groups expected hne =>
      refine ⟨group, ?_⟩
      split at h
      · next function name hcall =>
          split at h
          · next hcount =>
              cases h
              refine ⟨rfl, rfl, hne, fun other name' hother => ?_⟩
              cases hcall.symm.trans hother
              exact hcount
          · cases h
      · next hcall =>
          cases h
          exact ⟨rfl, rfl, hne, fun function name hother => by simp [hcall] at hother⟩

/-- The end of a group fails if no group is open, in place of an operand, or for the number of
arguments. -/
theorem close_eq_error (h : walk.close position = .error error) :
    walk.groups = [] ∧ error = .fault .unbalancedParentheses position ∨
    walk.groups ≠ [] ∧ walk.expected = .operand ∧ error = .fault .missingOperand position ∨
    ∃ function name arguments opened groups,
      walk.groups = ⟨some (function, name), arguments, opened⟩ :: groups ∧
        arguments ≠ function.arity ∧
          error = .fault (.argumentCount function function.arity arguments) name := by
  unfold close at h
  split at h
  · cases h
    exact .inl ⟨rfl, rfl⟩
  · cases h
    exact .inr (.inl ⟨List.cons_ne_nil _ _, rfl, rfl⟩)
  · next group groups expected _ =>
      split at h
      · next function name hcall =>
          split at h
          · cases h
          · next hcount =>
              cases h
              obtain ⟨call, arguments, opened⟩ := group
              cases hcall
              exact .inr (.inr ⟨function, name, arguments, opened, groups, rfl, hcount, rfl⟩)
      · cases h

/-- A comma starts a further argument of the innermost call, behind an operand. -/
theorem separate_eq_ok (h : walk.separate position = .ok next) :
    ∃ call arguments opened groups, walk.groups = ⟨some call, arguments, opened⟩ :: groups ∧
      next = ⟨⟨some call, arguments + 1, opened⟩ :: groups, .operand⟩ ∧
        walk.expected ≠ .operand := by
  unfold separate at h
  split at h
  · next call arguments opened groups expected =>
      split at h
      · cases h
      · next hne =>
          cases h
          exact ⟨call, arguments, opened, groups, rfl, rfl, hne⟩
  · cases h

/-- A comma fails outside of the arguments of calls, or in place of an operand. -/
theorem separate_eq_error (h : walk.separate position = .error error) :
    error = .fault .misplacedComma position ∨
    walk.groups ≠ [] ∧ walk.expected = .operand ∧ error = .fault .missingOperand position := by
  unfold separate at h
  split at h
  · split at h
    · next hoperand =>
        cases h
        exact .inr ⟨List.cons_ne_nil _ _, hoperand, rfl⟩
    · cases h
  · cases h
    exact .inl rfl

end Inversion

/-- The state after a token. -/
def step (walk : Walk) (token : Token) : Except CompileError Walk :=
  match walk.expected, token.kind with
  | .arguments function name, .openParen =>
    .ok ⟨⟨some (function, name), 1, token.position⟩ :: walk.groups, .operand⟩
  | .arguments function name, _ => .error (.fault (.missingArguments function) name)
  | .operand, .number _ | .operand, .name _ => .ok { walk with expected := .operator }
  | .operand, .builtin function =>
    .ok { walk with expected := .arguments function token.position }
  | .operand, .openParen => .ok ⟨⟨none, 1, token.position⟩ :: walk.groups, .operand⟩
  | .operator, .number _ | .operator, .name _ | .operator, .builtin _ | .operator, .openParen =>
    .error (.fault .missingOperator token.position)
  | _, .closeParen => walk.close token.position
  | _, .comma => walk.separate token.position
  | .operand, .operator op =>
    if op.actsAsSign then .ok walk else .error (.fault .missingOperand token.position)
  | .operator, .operator _ => .ok { walk with expected := .operand }

/-- The verdict after the last token. The outermost open group is blamed before a missing
operand. -/
def finish (walk : Walk) (last? : Option Token) : Except CompileError Unit :=
  match walk.expected, walk.groups.getLast?, last? with
  | .arguments function name, _, _ => .error (.fault (.missingArguments function) name)
  | _, some group, _ => .error (.fault .unbalancedParentheses group.opened)
  | .operand, none, some last => .error (.fault .missingOperand last.position)
  | _, none, _ => .ok ()

end Walk

/-- Refuses a token sequence that is not an expression. -/
def checkShape (tokens : List Token) : Except CompileError Unit := do
  let walk ← tokens.foldlM Walk.step .start
  walk.finish tokens.getLast?

/-- The whole check of a token sequence. The first failure counts: that of the operators, then that
of the empty groups, then that of the shape. -/
def check (tokens : List Token) : Except CompileError Unit := do
  checkOperators tokens
  checkGroups tokens
  checkShape tokens

end Reckoner.Token
