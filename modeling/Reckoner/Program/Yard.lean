import Reckoner.CompileError
import Reckoner.Program.Basic

/-!
# Yard of tokens into a program

Tokens in infix order become instructions in postfix order. A number or a name becomes an
instruction at once. An operator waits until an operator that does not bind more tightly arrives or
its group ends, and the name of a function waits until its arguments end. A sign in front of an
operand is an operator whose left operand is negative zero, which keeps the sign of a zero.

The tokens need not have been checked: those that do not nest are refused.
-/

namespace Reckoner

/-- A token that waits for its operands or for its end. -/
inductive Pending where
  | operator (op : Operator) (position : Position)
  | builtin (function : Builtin) (position : Position)
  | openParen (position : Position)
  deriving DecidableEq

namespace Pending

/-- The kind of the token that waits. -/
def kind : Pending → Token.Kind
  | operator op _ => .operator op
  | builtin function _ => .builtin function
  | openParen _ => .openParen

/-- The position of the token that waits. -/
def position : Pending → Position
  | operator _ position | builtin _ position | openParen position => position

/-- Releases the waiting operators that bind at least as tightly as the given one, up to the first
token that is no such operator. -/
def release (precedence : Nat) : List Pending → List Instruction × List Pending
  | operator top position :: rest =>
    if precedence ≤ top.precedence then
      let (released, left) := release precedence rest
      (.apply (.operator top) :: released, left)
    else ([], operator top position :: rest)
  | pending => ([], pending)

/-- Releases the waiting operators of the innermost group, which the given token ends. What is left
starts with the opening parenthesis of the group. -/
def releaseGroup (token : Token) :
    List Pending → Except CompileError (List Instruction × List Pending)
  | [] => .error (.fault (.malformed (.unopened token.kind)) token.position)
  | openParen position :: rest => .ok ([], openParen position :: rest)
  | operator top _ :: rest => do
    let (released, left) ← releaseGroup token rest
    .ok (.apply (.operator top) :: released, left)
  | builtin function position :: _ =>
    .error (.fault (.malformed (.unappliedInGroup (.builtin function))) position)

/-- Releases everything that waits after the last token. Only operators may be left. -/
def releaseAll : List Pending → Except CompileError (List Instruction)
  | [] => .ok []
  | operator top _ :: rest => do
    let released ← releaseAll rest
    .ok (.apply (.operator top) :: released)
  | top :: _ => .error (.fault (.malformed (.unfinished top.kind)) top.position)

/-- Ends a group: removes its opening parenthesis and releases the function whose arguments it
holds, if there is one. -/
def closeGroup : List Pending → List Instruction × List Pending
  | openParen _ :: builtin function _ :: rest => ([.apply (.builtin function)], rest)
  | openParen _ :: rest => ([], rest)
  | pending => ([], pending)

end Pending

/-- The state of the yard between two tokens. -/
structure Yard where
  /-- The tokens that wait, the latest first. -/
  pending : List Pending
  /-- Would an operator be a sign, because no operand stands before it? -/
  atStart : Bool
  deriving DecidableEq

namespace Yard

/-- The state before the first token. -/
def start : Yard := ⟨[], true⟩

/-- The instructions that a token brings forth, and the state after it. -/
def step (yard : Yard) (token : Token) :
    Except CompileError (List Instruction × Yard) :=
  match token.kind with
  | .number value => .ok ([.push value], ⟨yard.pending, false⟩)
  | .name text => .ok ([.load text], ⟨yard.pending, false⟩)
  | .builtin function => .ok ([], ⟨.builtin function token.position :: yard.pending, false⟩)
  | .openParen => .ok ([], ⟨.openParen token.position :: yard.pending, true⟩)
  | .operator op =>
    let zero := if yard.atStart then [.push Binary64.negativeZero] else []
    let (released, left) := Pending.release op.precedence yard.pending
    .ok (zero ++ released, ⟨.operator op token.position :: left, false⟩)
  | .comma => do
    let (released, left) ← Pending.releaseGroup token yard.pending
    .ok (released, ⟨left, true⟩)
  | .closeParen => do
    let (released, left) ← Pending.releaseGroup token yard.pending
    let (call, rest) := Pending.closeGroup left
    .ok (released ++ call, ⟨rest, false⟩)

/-- The instructions of the tokens that follow a yard. -/
def run (yard : Yard) : List Token → Except CompileError (List Instruction)
  | [] => Pending.releaseAll yard.pending
  | token :: rest => do
    let (instructions, next) ← yard.step token
    let following ← next.run rest
    .ok (instructions ++ following)

end Yard

/-- The program of a token sequence. -/
def Program.ofTokens (tokens : List Token) : Except CompileError Program := do
  let instructions ← Yard.start.run tokens
  .ok ⟨instructions⟩

end Reckoner
