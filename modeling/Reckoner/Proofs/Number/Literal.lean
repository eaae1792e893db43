import Reckoner.Binary64.Order
import Reckoner.Decimal.Shortest
import Reckoner.Proofs.Number.Bits
import Reckoner.Proofs.Number.Spelling

/-!
# Literals

The numbers that digits and a point can stand for are those that are neither undefined nor negative.
Such a text never has a sign and is never the name of a number, which gives `exists_of_read`.
Conversely `literal` writes down the exact decimal expansion of a magnitude, and `read_literal` says
that it is read as this magnitude.
-/

namespace Reckoner

namespace Binary64

/-- Rounding does not go beyond infinity. -/
theorem nearest_le (numerator denominator : Nat) :
    nearest numerator denominator ≤ infinityBits := by
  unfold nearest
  dsimp only
  split <;> exact Nat.min_le_right _ _

/-- A fraction that is the value of a magnitude is rounded to it. -/
theorem nearest_eq {bits numerator denominator : Nat} (hbits : bits ≤ infinityBits)
    (hpos : 0 < denominator) (h : numerator * unitsPerOne = units bits * denominator) :
    nearest numerator denominator = bits := by
  have hlt := Nat.mul_lt_mul_of_pos_right (units_lt_succ bits) hpos
  have hmiddle : 2 * (units bits * denominator) <
      (units bits + units (bits + 1)) * denominator := by
    rw [Nat.add_mul]
    omega
  unfold nearest
  dsimp only
  rw [h, Nat.mul_div_cancel _ hpos, index_units, decide_eq_true hmiddle, Bool.true_or, if_pos rfl]
  exact Nat.min_eq_left hbits

end Binary64

namespace Decimal

open Binary64 (infinityBits)

/-- Rounding a decimal fraction does not go beyond infinity. -/
theorem nearest_le (number : Decimal) : number.nearest ≤ infinityBits := by
  unfold nearest
  split
  · exact Nat.zero_le _
  split
  · exact Nat.le_refl _
  split
  · exact Nat.zero_le _
  split <;> exact Binary64.nearest_le _ _

/-- A multiple of a power of five has so many digits that its fraction does not vanish. -/
theorem le_log2_mul_pow {value places : Nat} (h : value ≠ 0) :
    places ≤ (value * Nat.pow 5 places).log2 := by
  have hpow : 2 ^ places ≤ 5 ^ places := Nat.pow_le_pow_left (by decide) places
  have hle : 2 ^ places ≤ value * 5 ^ places :=
    hpow.trans (Nat.le_mul_of_pos_left _ (Nat.pos_of_ne_zero h))
  have hne : value * 5 ^ places ≠ 0 := Nat.ne_of_gt (Nat.lt_of_lt_of_le (Nat.two_pow_pos _) hle)
  exact (Nat.le_log2 hne).2 hle

/-- Only zero has no value. -/
theorem units_ne_zero {bits : Nat} (h : bits ≠ 0) : Binary64.units bits ≠ 0 := by
  intro hzero
  have hle : Binary64.units bits ≤ 0 := Nat.le_of_eq hzero
  rw [Binary64.units_le_iff, Binary64.index_eq_self (by decide)] at hle
  omega

/-- The value of a magnitude in multiples of a negative power of ten is rounded to it. -/
theorem nearest_units {bits places : Nat} (hbits : bits ≤ infinityBits)
    (hone : Binary64.unitsPerOne = Nat.pow 2 places) (hplaces : 0 < places) :
    nearest ⟨Binary64.units bits * Nat.pow 5 places, -places⟩ = bits := by
  by_cases hzero : bits = 0
  · rw [hzero, Binary64.units_eq_self (by decide), Nat.zero_mul]
    rfl
  · have hlog : places ≤ (Binary64.units bits * Nat.pow 5 places).log2 :=
      le_log2_mul_pow (units_ne_zero hzero)
    have hne : Binary64.units bits * Nat.pow 5 places ≠ 0 :=
      Nat.mul_ne_zero (units_ne_zero hzero) (Nat.ne_of_gt (Nat.pow_pos (by decide)))
    have hscale : Nat.pow 5 places * Nat.pow 2 places = Nat.pow 10 places :=
      (Nat.mul_pow 5 2 places).symm
    unfold nearest
    dsimp only
    rw [if_neg hne, if_neg (by omega), if_neg (by omega), if_neg (by omega)]
    refine Binary64.nearest_eq hbits (Nat.pow_pos (by decide)) ?_
    rw [hone, Nat.mul_assoc, hscale, Int.neg_neg, Int.toNat_natCast]

/-- The decimal expansion of a magnitude is rounded to it. -/
theorem nearest_expansion {bits : Nat} (h : bits ≤ infinityBits) :
    nearest ⟨expansion bits, -1074⟩ = bits := by
  -- the exponent stays a variable, for no step should compute the power
  have hunits : ∀ places, places = 1074 →
      nearest ⟨Binary64.units bits * Nat.pow 5 places, -places⟩ = bits := by
    intro places hplaces
    have hone : Binary64.unitsPerOne = Nat.pow 2 places := by
      unfold Binary64.unitsPerOne
      exact congrArg _ hplaces.symm
    exact nearest_units h hone (by omega)
  exact hunits 1074 rfl

end Decimal

namespace Numeral

open Binary64 (infinityBits ofMagnitude)

/-- What digits and points are read as is a magnitude up to infinity. -/
theorem exists_of_read {text : String} {x : Float}
    (hchars : ∀ c ∈ text.toList, Category.ofChar c = .number) (h : read text = .ok x) :
    ∃ bits ≤ infinityBits, x = ofMagnitude false bits := by
  unfold read at h
  split at h
  · cases h
  rename_i hne
  cases htext : text.toList with
  | nil => exact absurd (String.isEmpty_iff.2 (String.toList_eq_nil_iff.1 htext)) hne
  | cons c rest =>
      have hc : Category.ofChar c = .number := hchars c (by simp [htext])
      simp only [htext, splitSign_of_ofChar hc, unsigned?_of_ofChar hc] at h
      cases hdecimal : decimal? (c :: rest) with
      | none => simp [hdecimal] at h
      | some number =>
          simp only [hdecimal, Option.map_some, Except.ok.injEq] at h
          exact ⟨number.nearest, number.nearest_le, h.symm⟩

/-- A number of multiples of `10 ^ -places` with the point where it belongs. Zeros in front make
room for the point. -/
def fixedPoint (places n : Nat) : List Char :=
  let digits := List.replicate (places + 1) '0' ++ Nat.toDigits 10 n
  digits.take (digits.length - places) ++ '.' :: digits.drop (digits.length - places)

/-- A number with a fixed point spells itself. -/
theorem exists_fixedPoint_eq {places : Nat} (h : 0 < places) (n : Nat) :
    ∃ spelling : Spelling, fixedPoint places n = spelling.text ∧ spelling.ending = [] ∧
      spelling.decimal = ⟨n, -places⟩ := by
  let digits := List.replicate (places + 1) '0' ++ Nat.toDigits 10 n
  have hdigits : ∀ c ∈ digits, c.isDigit := by
    intro c hc
    rcases List.mem_append.1 hc with hc | hc
    exacts [isDigit_of_mem_zeros hc, isDigit_of_mem_toDigits hc]
  have hlength : places < digits.length := by
    rw [List.length_append, List.length_replicate]
    omega
  have hvalue : Nat.ofDigitChars 10 digits 0 = n := by
    rw [Nat.ofDigitChars_append, Nat.ofDigitChars_replicate_zero, Nat.mul_zero,
      Nat.ofDigitChars_toDigits (by decide) (by decide)]
  obtain ⟨spelling, htext, hending, hdecimal⟩ := Spelling.exists_pointed hdigits h hlength
  exact ⟨spelling, htext, hending, by rw [hdecimal, hvalue]⟩

/-- The decimal expansion of a magnitude as a text. -/
def literal (bits : Nat) : List Char := fixedPoint 1074 (Decimal.expansion bits)

/-- The literal of a magnitude spells its decimal expansion. -/
theorem exists_literal_eq (bits : Nat) :
    ∃ spelling : Spelling, literal bits = spelling.text ∧ spelling.ending = [] ∧
      spelling.decimal = ⟨Decimal.expansion bits, -1074⟩ :=
  exists_fixedPoint_eq (by decide) (Decimal.expansion bits)

/-- The literal of a magnitude is read as this magnitude. -/
theorem read_literal {bits : Nat} (h : bits ≤ infinityBits) :
    read (String.ofList (literal bits)) = .ok (ofMagnitude false bits) := by
  obtain ⟨spelling, htext, -, hdecimal⟩ := exists_literal_eq bits
  have hread := spelling.read_text false
  rw [hdecimal, Decimal.nearest_expansion h, if_neg Bool.false_ne_true] at hread
  rw [htext, hread]

/-- A literal consists of the characters of numbers. -/
theorem ofChar_of_mem_literal {bits : Nat} {c : Char} (h : c ∈ literal bits) :
    Category.ofChar c = .number := by
  obtain ⟨spelling, htext, hending, -⟩ := exists_literal_eq bits
  rw [htext] at h
  rcases spelling.of_mem_text h with hc | rfl | hc
  · exact ofChar_of_isDigit hc
  · rfl
  · rw [hending] at hc
    cases hc

/-- A literal is no empty text. -/
theorem literal_ne_nil (bits : Nat) : literal bits ≠ [] :=
  List.append_ne_nil_of_right_ne_nil _ (List.cons_ne_nil _ _)

end Numeral

end Reckoner
