/-!
# Pairs of parentheses

Which parentheses of a sequence of texts belong together: each closing one goes with the nearest
opening one before it that goes with no earlier closing one, and with nothing if there is none.
Parentheses are given by their indices in the sequence.
-/

namespace Reckoner.Parenthesis

/-- At this index before a place stands an opening parenthesis, and no closing one before the place
goes with it. -/
def IsFree (texts : List String) (partner? : Nat → Option Nat) (place index : Nat) : Prop :=
  index < place ∧ texts[index]? = some "(" ∧ ∀ earlier < place, partner? earlier ≠ some index

/-- The partner of a closing parenthesis is the nearest opening one before it that is still free.
Nothing else has a partner. -/
def IsPairing (texts : List String) (partner? : Nat → Option Nat) : Prop :=
  ∀ place index, partner? place = some index ↔
    texts[place]? = some ")" ∧ IsFree texts partner? place index ∧
      ∀ other, IsFree texts partner? place other → other ≤ index

end Reckoner.Parenthesis
