import Reckoner.Token.Adjacency

/-!
# Levels of a token sequence

Parentheses divide a token sequence into levels: the sequence itself, and the inside of every pair
of parentheses. A pair that is nested in a level is one item of it, whatever it holds. Within a
level, the name of a function waits for such a pair, and a pair serves one of the names that wait.
`IsShuntable` says which token sequences, well-formed or not, can be put into postfix order.
-/

namespace Reckoner.Token

/-- What a token adds to the depth. -/
def Kind.nesting : Kind → Int
  | openParen => 1
  | closeParen => -1
  | _ => 0

/-- The opening parentheses of a token sequence, less the closing ones. -/
def depth : List Token → Int
  | [] => 0
  | token :: rest => token.kind.nesting + depth rest

/-- The parentheses nest properly: each closing one finds an opening one before it that is still
open, and none is left open. -/
structure IsNested (tokens : List Token) : Prop where
  depth_nonneg : ∀ front, front <+: tokens → 0 ≤ depth front
  depth_eq_zero : depth tokens = 0

/-- The levels of a token sequence: the sequence itself, and what stands between the two parentheses
of a pair. -/
inductive IsLevel (tokens : List Token) : List Token → Prop where
  | top : IsLevel tokens tokens
  | inside {before level after opening closing} :
      tokens = before ++ opening :: (level ++ closing :: after) → opening.kind = .openParen →
      closing.kind = .closeParen → IsNested level → IsLevel tokens level

/-- What is known behind some tokens of a level. -/
structure Tally where
  /-- The nested parentheses that are open. -/
  nested : Nat
  /-- The names of functions that wait for a pair of parentheses. -/
  waiting : Nat
  deriving DecidableEq

/-- Takes note of a token. What stands inside of nested parentheses does not count, and the end of
the outermost ones serves a name, if one waits. -/
def Tally.note (tally : Tally) (token : Token) : Tally :=
  match token.kind with
  | .openParen => ⟨tally.nested + 1, tally.waiting⟩
  | .closeParen =>
    ⟨tally.nested - 1, if tally.nested = 1 then tally.waiting - 1 else tally.waiting⟩
  | .builtin _ => ⟨tally.nested, if tally.nested = 0 then tally.waiting + 1 else tally.waiting⟩
  | _ => tally

/-- The number of names that wait behind some tokens of a level. -/
def waiting (front : List Token) : Nat := (front.foldl Tally.note ⟨0, 0⟩).waiting

/-- No name waits at the end of a level, nor at an operator or a comma that stands directly in
it. -/
structure IsSettled (level : List Token) : Prop where
  waiting_eq_zero : waiting level = 0
  waiting_front : ∀ front token back, level = front ++ token :: back → depth front = 0 →
    token.kind.isOperator ∨ token.kind = .comma → waiting front = 0

/-- The parentheses of a token sequence nest properly, every comma stands inside of a pair, and all
levels are settled. -/
structure IsShuntable (tokens : List Token) : Prop where
  isNested : IsNested tokens
  depth_comma : ∀ front comma back, tokens = front ++ comma :: back → comma.kind = .comma →
    0 < depth front
  isSettled : ∀ level, IsLevel tokens level → IsSettled level

end Reckoner.Token
