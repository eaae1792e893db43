import Reckoner.Source.Position

/-!
# Balance of parentheses

Parentheses are counted on the text itself, before it is cut into lexemes. The text is balanced when
it has as many closing parentheses as opening ones, in whatever order. `unbalancedAt?` gives the
place to blame otherwise: the first opening parenthesis that no closing one answers, or the last
closing parenthesis if there are too many of them.
-/

namespace Reckoner

/-- The parentheses met while scanning a text. -/
structure Balance where
  /-- The opening parentheses less the closing ones. -/
  depth : Int
  /-- The opening parentheses that are not answered yet, the latest first. -/
  unanswered : List Position
  /-- The latest closing parenthesis. -/
  lastClose : Option Position
  deriving DecidableEq, Repr

namespace Balance

/-- Nothing has been scanned. -/
def empty : Balance := ⟨0, [], none⟩

/-- Takes note of a character. A closing parenthesis answers the latest opening one that is still
unanswered, if there is any. -/
def note (balance : Balance) (position : Position) (c : Char) : Balance :=
  if c = '(' then ⟨balance.depth + 1, position :: balance.unanswered, balance.lastClose⟩
  else if c = ')' then ⟨balance.depth - 1, balance.unanswered.tail, some position⟩
  else balance

/-- Takes note of a text whose first character stands at the given position. -/
def scan (balance : Balance) (position : Position) : List Char → Balance
  | [] => balance
  | c :: rest => (balance.note position c).scan (position.next c) rest

/-- The parenthesis to blame, if the counts differ. The first place of the text stands in for one
that has not been met. -/
def culprit? (balance : Balance) : Option Position :=
  if balance.depth = 0 then none
  else if 0 < balance.depth then some (balance.unanswered.getLast?.getD .start)
  else some (balance.lastClose.getD .start)

end Balance

/-- The place to blame if the parentheses of a source text do not balance. -/
def unbalancedAt? (source : String) : Option Position :=
  (Balance.empty.scan .start source.toList).culprit?

end Reckoner
