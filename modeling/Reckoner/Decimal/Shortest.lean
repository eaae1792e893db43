import Reckoner.Decimal.Basic

/-!
# Shortest decimal fractions

The shortest decimal fraction that rounds to a given magnitude comes from the exact decimal
expansion of its value by dropping as many digits as possible. At each length only the two
neighbours of the value are tried, for if any decimal fraction of that length rounds to the
magnitude, then so does one of these. The result has no zero at its end, because a candidate with
one is also a candidate of the length before.
-/

namespace Reckoner.Decimal

/-- The value of a magnitude in multiples of `10 ^ -1074`, which is always whole. -/
def expansion (bits : Nat) : Nat := Binary64.units bits * Nat.pow 5 1074

/-- The candidate that leaves out the last digits of an expansion and rounds to the magnitude: the
lower or the upper neighbour, the nearer one if both do. A tie goes to the even coefficient if
`tieToEven` is set and to the upper one otherwise. -/
def candidate? (tieToEven : Bool) (bits dropped : Nat) : Option Decimal :=
  let step := Nat.pow 10 dropped
  let lower := expansion bits / step
  let below : Decimal := ⟨lower, dropped - 1074⟩
  let above : Decimal := ⟨lower + 1, dropped - 1074⟩
  if below.nearest = bits then
    if above.nearest = bits then
      match compare (2 * (expansion bits % step)) step with
      | .lt => some below
      | .gt => some above
      | .eq => some (if tieToEven && lower % 2 == 0 then below else above)
    else some below
  else if above.nearest = bits then some above
  else none

/-- The first candidate that leaves out at most the given number of digits. The whole expansion is
exact and stands in if there is none. -/
def shortestFrom (tieToEven : Bool) (bits limit : Nat) : Decimal :=
  let candidate := (List.range limit).reverse.findSome? fun dropped =>
    candidate? tieToEven bits (dropped + 1)
  candidate.getD ⟨expansion bits, -1074⟩

/-- A bound on the number of decimal digits of `n`. A binary digit is worth less than `0.30103`
decimal ones. -/
def digitBound (n : Nat) : Nat := (n.log2 + 1) * 30103 / 100000 + 1

/-- The shortest decimal fraction that rounds to a finite magnitude, and of several the nearest. To
leave out more digits than there are does no harm, since zero and a number that is ten times as
large do not round to the magnitude. -/
def shortest (tieToEven : Bool) (bits : Nat) : Decimal :=
  if bits = 0 then ⟨0, 0⟩
  else shortestFrom tieToEven bits (digitBound (expansion bits))

end Reckoner.Decimal
