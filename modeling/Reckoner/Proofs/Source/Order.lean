import Reckoner.Proofs.Source.Lexing

/-!
# The comparison of positions and the order of reading

Positions are compared by their columns first, so a lexeme at the start of a row is less than one
further to the right in the row above it. Read `Lexeme.ofSource_order` first: it says for any two
lexemes of a text, the one read first on the left, which of them is less. The comparison agrees with
the order of reading within a row, and between rows as long as the columns do not fall.
-/

namespace Reckoner

namespace Position

variable {first second : Position}

/-- A position is less than another one if its column is, or if the columns are the same and its row
is. -/
theorem lt_iff : first < second ↔
    first.column < second.column ∨ first.column = second.column ∧ first.row < second.row := by
  show (compare first.column second.column).then (compare first.row second.row) = .lt ↔ _
  rw [Ordering.then_eq_lt, Nat.compare_eq_lt, Nat.compare_eq_eq, Nat.compare_eq_lt]

/-- What is read first is less unless its column is greater. -/
theorem Precedes.lt_iff_column_le (h : first.Precedes second) :
    first < second ↔ first.column ≤ second.column := by
  unfold Precedes at h
  rw [lt_iff]
  omega

/-- What is read last is less if its column is. -/
theorem Precedes.gt_iff_column_lt (h : first.Precedes second) :
    second < first ↔ second.column < first.column := by
  unfold Precedes at h
  rw [lt_iff]
  omega

end Position

namespace Lexeme

/-- Of any two lexemes of a source text, the first one stands in an earlier row, or in the same row
at a smaller column. The comparison of their positions tells so exactly if the column of the first
one is not greater than that of the second one, as it always is within a row. Otherwise it tells the
reverse. -/
theorem ofSource_order (source : String) :
    ∃ lexemes, ofSource source = .ok lexemes ∧ lexemes.Pairwise fun first second =>
      first.position.Precedes second.position ∧
      (first.position < second.position ↔ first.position.column ≤ second.position.column) ∧
      (second.position < first.position ↔ second.position.column < first.position.column) ∧
      (first.position.row = second.position.row → first.position < second.position) := by
  refine ⟨scan source, ofSource_eq_scan source, ?_⟩
  refine (pairwise_precedes .start source.toList).imp fun {first second} h => ?_
  refine ⟨h, h.lt_iff_column_le, h.gt_iff_column_lt, fun hrow => ?_⟩
  have hcolumn : first.position.column < second.position.column := by
    unfold Position.Precedes at h
    omega
  exact h.lt_iff_column_le.2 (Nat.le_of_lt hcolumn)

/-- In this text of two rows, the operator is read behind the first name, but its position is
less. -/
theorem ofSource_order_reversed :
    let first : Lexeme := ⟨"x", .letter, ⟨2, 1⟩⟩
    let operator : Lexeme := ⟨"+", .operator, ⟨1, 2⟩⟩
    let second : Lexeme := ⟨"y", .letter, ⟨2, 2⟩⟩
    ofSource " x\n+y" = .ok [first, operator, second] ∧
      ¬ first.position < operator.position ∧ operator.position < first.position := by
  intro first operator second
  have hlexemes : ofSource " x\n+y" = .ok [first, operator, second] := by decide +kernel
  refine ⟨hlexemes, ?_, ?_⟩
  · rw [Position.lt_iff]
    decide
  · exact Position.lt_iff.2 (.inl (by decide))

end Lexeme

end Reckoner
