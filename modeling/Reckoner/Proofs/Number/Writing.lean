import Reckoner.Decimal.Style
import Reckoner.Proofs.Number.Literal

/-!
# Written numbers

A finite number is read back from its text, in either of the two styles, which is `read_write`. In
the style of results this holds of infinity and the undefined result, too (`read_write_plain`). The
text of a decimal fraction is that of a `Spelling`: digits with a point between them and possibly an
exponent. It need not spell the fraction that is written, but one that rounds to the same magnitude
(`exists_spelling`), and the shortest fraction of a magnitude rounds to it (`nearest_shortest`).
-/

namespace Reckoner

namespace Binary64

/-- Rounding does not depend on common factors of the numerator and the denominator. -/
theorem nearest_mul_mul (numerator denominator : Nat) {factor : Nat} (h : 0 < factor) :
    nearest (numerator * factor) (denominator * factor) = nearest numerator denominator := by
  have hscaled : numerator * factor * unitsPerOne = numerator * unitsPerOne * factor :=
    Nat.mul_right_comm _ _ _
  have hdouble : ∀ n, 2 * (n * factor) = 2 * n * factor := fun n => (Nat.mul_assoc _ _ _).symm
  have hmiddle : ∀ n, n * (denominator * factor) = n * denominator * factor :=
    fun n => (Nat.mul_assoc _ _ _).symm
  have hlt : ∀ m n, m * factor < n * factor ↔ m < n := fun m n => Nat.mul_lt_mul_right h
  have heq : ∀ m n, m * factor = n * factor ↔ m = n := fun m n =>
    Nat.mul_left_inj (Nat.ne_of_gt h)
  have hbeq : ∀ m n, (m * factor == n * factor) = (m == n) := fun m n => by
    rw [Bool.eq_iff_iff, beq_iff_eq, beq_iff_eq, heq]
  unfold nearest
  dsimp only
  simp only [hscaled, Nat.mul_div_mul_right _ _ h, hdouble, hmiddle, hlt, hbeq]

/-- A number has its sign and its magnitude. -/
theorem ofMagnitude_magnitude (x : Float) : ofMagnitude (isNegative x) (magnitude x) = x := by
  have hlt := x.toBits.toNat_lt
  have hbits : (if isNegative x then signBit + magnitude x else magnitude x) = x.toBits.toNat := by
    unfold isNegative magnitude
    simp only [decide_eq_true_eq]
    unfold signBit
    split <;> omega
  rw [ofMagnitude, hbits, UInt64.ofNat_toNat, Float.ofBits_toBits]

end Binary64

namespace Decimal

open Binary64 (infinityBits)

section Powers

variable {coefficient : Nat} {exponent : Int}

/-- A multiple of a power of ten that is not certain to overflow. -/
theorem nearest_of_nonneg (hne : coefficient ≠ 0) (hpos : 0 ≤ exponent) (hlt : exponent < 310) :
    nearest ⟨coefficient, exponent⟩ =
      Binary64.nearest (coefficient * Nat.pow 10 exponent.toNat) 1 := by
  unfold nearest
  dsimp only
  rw [if_neg hne, if_neg (by omega), if_neg (by omega), if_pos hpos]

/-- A fraction with a power of ten that is not certain to vanish. -/
theorem nearest_of_neg (hne : coefficient ≠ 0) (hneg : exponent < 0)
    (hlt : -324 < exponent + (coefficient.log2 + 1)) :
    nearest ⟨coefficient, exponent⟩ =
      Binary64.nearest coefficient (Nat.pow 10 (-exponent).toNat) := by
  unfold nearest
  dsimp only
  rw [if_neg hne, if_neg (by omega), if_neg (by omega), if_neg (by omega)]

/-- Zero is rounded to zero. -/
theorem nearest_zero (exponent : Int) : nearest ⟨0, exponent⟩ = 0 := if_pos rfl

/-- A fraction that is finite has no power of ten that is certain to overflow. -/
theorem exponent_lt (hne : coefficient ≠ 0) (h : nearest ⟨coefficient, exponent⟩ < infinityBits) :
    exponent < 310 := by
  by_contra hge
  unfold nearest at h
  dsimp only at h
  rw [if_neg hne, if_pos (by omega)] at h
  exact Nat.lt_irrefl _ h

/-- The product of a coefficient and a power of ten is rounded like the two of them. -/
theorem nearest_mul_pow (hpos : 0 ≤ exponent)
    (h : nearest ⟨coefficient, exponent⟩ < infinityBits) :
    nearest ⟨coefficient * Nat.pow 10 exponent.toNat, 0⟩ = nearest ⟨coefficient, exponent⟩ := by
  by_cases hzero : coefficient = 0
  · rw [hzero, Nat.zero_mul, nearest_zero, nearest_zero]
  · have hpow : Nat.pow 10 exponent.toNat ≠ 0 := Nat.ne_of_gt (Nat.pow_pos (by decide))
    rw [nearest_of_nonneg hzero hpos (exponent_lt hzero h),
      nearest_of_nonneg (Nat.mul_ne_zero hzero hpow) (by decide) (by decide)]
    exact congrArg (fun n => Binary64.nearest n 1) (Nat.mul_one _)

/-- A zero behind the point does not count. -/
theorem nearest_mul_ten (coefficient : Nat) :
    nearest ⟨coefficient * 10, -1⟩ = nearest ⟨coefficient, 0⟩ := by
  by_cases hzero : coefficient = 0
  · rw [hzero, Nat.zero_mul, nearest_zero, nearest_zero]
  · have hten : Nat.pow 10 (-(-1 : Int)).toNat = 1 * 10 := rfl
    have hone : coefficient * Nat.pow 10 (0 : Int).toNat = coefficient := Nat.mul_one _
    rw [nearest_of_neg (Nat.mul_ne_zero hzero (by decide)) (by decide) (by omega),
      nearest_of_nonneg hzero (by decide) (by decide), hten, hone,
      Binary64.nearest_mul_mul _ _ (by decide)]

end Powers

/-- A candidate rounds to its magnitude. -/
theorem nearest_of_candidate? {tieToEven : Bool} {bits dropped : Nat} {number : Decimal}
    (h : candidate? tieToEven bits dropped = some number) : number.nearest = bits := by
  unfold candidate? at h
  dsimp only at h
  split at h
  · next hbelow =>
      split at h
      · next habove =>
          split at h
          · cases h
            exact hbelow
          · cases h
            exact habove
          · cases h
            split
            · exact hbelow
            · exact habove
      · cases h
        exact hbelow
  · split at h
    · next habove =>
        cases h
        exact habove
    · cases h

/-- The shortest fraction of a magnitude rounds to it. -/
theorem nearest_shortest (tieToEven : Bool) {bits : Nat} (h : bits ≤ infinityBits) :
    (shortest tieToEven bits).nearest = bits := by
  unfold shortest
  split
  · next hzero =>
      rw [hzero]
      exact nearest_zero 0
  · unfold shortestFrom
    cases hsearch : (List.range (digitBound (expansion bits))).reverse.findSome?
        fun dropped => candidate? tieToEven bits (dropped + 1) with
    | none => exact nearest_expansion h
    | some number =>
        obtain ⟨dropped, -, hcandidate⟩ := List.exists_of_findSome?_eq_some hsearch
        exact nearest_of_candidate? hcandidate

end Decimal

namespace Style

open Binary64 (infinityBits magnitude isNegative)
open Numeral (Spelling isDigit_of_mem_toDigits isDigit_of_mem_zeros)

/-- The texts of whole numbers without an exponent can be read: they end with nothing, or with a
point and a zero. -/
def IsReadable (style : Style) : Prop := style.wholeMark = "" ∨ style.wholeMark = ".0"

variable {style : Style} {number : Decimal}

/-- The digits of a whole number with the mark of the style spell a number that is rounded alike. -/
theorem exists_whole_eq (hstyle : style.IsReadable) {digits : List Char} (hne : digits ≠ [])
    (hdigits : ∀ c ∈ digits, c.isDigit) :
    ∃ spelling : Spelling, digits ++ style.wholeMark.toList = spelling.text ∧
      spelling.ending = [] ∧
        spelling.decimal.nearest = Decimal.nearest ⟨Nat.ofDigitChars 10 digits 0, 0⟩ := by
  rcases hstyle with hmark | hmark
  · refine ⟨⟨digits, [], [], 0, hne, hdigits, by simp, rfl⟩, ?_, rfl, ?_⟩
    · simp [hmark, Spelling.text]
    · simp [Spelling.decimal, Decimal.ofDigits]
  · refine ⟨⟨digits, ['0'], [], 0, hne, hdigits, by simp, rfl⟩, ?_, rfl, ?_⟩
    · simp [hmark, Spelling.text]
    · rw [← Decimal.nearest_mul_ten, Spelling.decimal, Decimal.ofDigits,
        Nat.ofDigitChars_append, Nat.ofDigitChars_cons]
      simp [Nat.mul_comm]

/-- The positional text of a decimal fraction spells one that is rounded alike. -/
theorem exists_positional_eq (hstyle : style.IsReadable) (hfinite : number.nearest < infinityBits) :
    ∃ spelling : Spelling,
      style.writePositional (Nat.toDigits 10 number.coefficient) number.exponent = spelling.text ∧
        spelling.ending = [] ∧ spelling.decimal.nearest = number.nearest := by
  obtain ⟨coefficient, exponent⟩ := number
  have hvalue : Nat.ofDigitChars 10 (Nat.toDigits 10 coefficient) 0 = coefficient :=
    Nat.ofDigitChars_toDigits (by decide) (by decide)
  have hdigits : ∀ c ∈ Nat.toDigits 10 coefficient, c.isDigit := fun c => isDigit_of_mem_toDigits
  have hne : Nat.toDigits 10 coefficient ≠ [] := Nat.toDigits_ne_nil
  dsimp only
  generalize Nat.toDigits 10 coefficient = digits at *
  unfold writePositional
  by_cases hexponent : 0 ≤ exponent
  · have hzeros : ∀ c ∈ digits ++ List.replicate exponent.toNat '0', c.isDigit := by
      intro c hc
      rcases List.mem_append.1 hc with hc | hc
      exacts [hdigits c hc, isDigit_of_mem_zeros hc]
    have hproduct : Nat.ofDigitChars 10 (digits ++ List.replicate exponent.toNat '0') 0 =
        coefficient * Nat.pow 10 exponent.toNat := by
      rw [Nat.ofDigitChars_append, hvalue, Nat.ofDigitChars_replicate_zero, Nat.mul_comm]
      rfl
    rw [if_pos hexponent, ← Decimal.nearest_mul_pow hexponent hfinite, ← hproduct]
    exact exists_whole_eq hstyle (List.append_ne_nil_of_left_ne_nil hne _) hzeros
  · have hback : -((-exponent).toNat : Int) = exponent := by omega
    have hpos : 0 < (-exponent).toNat := by omega
    rw [if_neg hexponent]
    by_cases hplaces : (-exponent).toNat < digits.length
    · obtain ⟨spelling, htext, hending, hdecimal⟩ :=
        Spelling.exists_pointed hdigits hpos hplaces
      rw [if_pos hplaces]
      exact ⟨spelling, htext, hending, by rw [hdecimal, hvalue, hback]⟩
    · obtain ⟨spelling, htext, hending, hdecimal⟩ :=
        Spelling.exists_pointed_zeros hdigits hpos (Nat.le_of_not_lt hplaces)
      rw [if_neg hplaces]
      exact ⟨spelling, htext, hending, by rw [hdecimal, hvalue, hback]⟩

/-- A power of ten with its sign is read as this power. -/
theorem exponent?_sign (power : Int) : Numeral.exponent?
    ('e' :: (if power < 0 then '-' else '+') :: Nat.toDigits 10 power.natAbs) = some power := by
  have hall : (Nat.toDigits 10 power.natAbs).all Char.isDigit :=
    List.all_eq_true.2 fun c => isDigit_of_mem_toDigits
  have hsize : Nat.ofDigitChars 10 (Nat.toDigits 10 power.natAbs) 0 = power.natAbs :=
    Nat.ofDigitChars_toDigits (by decide) (by decide)
  have hne : Nat.toDigits 10 power.natAbs ≠ [] := Nat.toDigits_ne_nil
  rw [Numeral.exponent?, if_pos (.inl rfl)]
  by_cases hneg : power < 0
  · rw [if_pos hneg, Numeral.splitSign]
    dsimp only
    rw [if_pos ⟨hne, hall⟩, if_pos rfl, hsize]
    exact congrArg some (by omega)
  · rw [if_neg hneg, Numeral.splitSign]
    dsimp only
    rw [if_pos ⟨hne, hall⟩, if_neg Bool.false_ne_true, hsize]
    exact congrArg some (by omega)

/-- The text of a decimal fraction with an exponent spells this fraction. -/
theorem exists_scientific_eq (number : Decimal) : ∃ spelling : Spelling,
    writeScientific (Nat.toDigits 10 number.coefficient)
        (number.exponent + (Nat.toDigits 10 number.coefficient).length - 1) = spelling.text ∧
      (∀ c ∈ spelling.ending, c.isDigit ∨ c ∈ ['e', '+', '-']) ∧ spelling.decimal = number := by
  obtain ⟨coefficient, exponent⟩ := number
  have hdigits : Nat.ofDigitChars 10 (Nat.toDigits 10 coefficient) 0 = coefficient :=
    Nat.ofDigitChars_toDigits (by decide) (by decide)
  have hdigit : ∀ c ∈ Nat.toDigits 10 coefficient, c.isDigit := fun c => isDigit_of_mem_toDigits
  have hne : Nat.toDigits 10 coefficient ≠ [] := Nat.toDigits_ne_nil
  obtain ⟨first, fraction, hcons⟩ := List.exists_cons_of_ne_nil hne
  dsimp only
  rw [hcons] at hdigits hdigit ⊢
  generalize hpower : exponent + (first :: fraction).length - 1 = power
  have hexponent := exponent?_sign power
  refine ⟨⟨[first], fraction, _, power, by simp, ?_, ?_, hexponent⟩, ?_, ?_, ?_⟩
  · intro c hc
    exact hdigit c (List.mem_cons.2 (.inl (List.mem_singleton.1 hc)))
  · intro c hc
    exact hdigit c (List.mem_cons_of_mem _ hc)
  · simp [writeScientific, Spelling.text]
  · intro c hc
    rcases List.mem_cons.1 hc with rfl | hc
    · exact .inr (by decide)
    · rcases List.mem_cons.1 hc with rfl | hc
      · right
        split <;> decide
      · exact .inl (isDigit_of_mem_toDigits hc)
  · have hback : power - (fraction.length : Int) = exponent := by
      rw [← hpower, List.length_cons]
      omega
    rw [Spelling.decimal, Decimal.ofDigits, List.singleton_append, hdigits, hback]

/-- A style without exponents. -/
def IsPositional (style : Style) : Prop := ∀ power, style.positional power = true

/-- The text of a decimal fraction spells one that is rounded alike. It has an exponent in some
styles only. -/
theorem exists_spelling (hstyle : style.IsReadable) (hfinite : number.nearest < infinityBits) :
    ∃ spelling : Spelling, style.writeDecimal number = spelling.text ∧
      spelling.decimal.nearest = number.nearest ∧
        (∀ c ∈ spelling.ending, ¬ style.IsPositional ∧ (c.isDigit ∨ c ∈ ['e', '+', '-'])) := by
  unfold writeDecimal
  dsimp only
  split
  · obtain ⟨spelling, htext, hending, hround⟩ := exists_positional_eq hstyle hfinite
    exact ⟨spelling, htext, hround, by simp [hending]⟩
  · next hpower =>
      obtain ⟨spelling, htext, hending, hdecimal⟩ := exists_scientific_eq number
      exact ⟨spelling, htext, congrArg _ hdecimal, fun c hc =>
        ⟨fun hpositional => hpower (hpositional _), hending c hc⟩⟩

section Write

variable {x : Float}

/-- The text of a finite number is that of a spelling, behind a minus if the number is negative. -/
theorem exists_write_eq (hstyle : style.IsReadable) (hfinite : x.isFinite) :
    ∃ spelling : Spelling,
      style.write x =
          .ofList (if isNegative x then '-' :: spelling.text else spelling.text) ∧
        spelling.decimal.nearest = magnitude x ∧
          (∀ c ∈ spelling.ending, ¬ style.IsPositional ∧ (c.isDigit ∨ c ∈ ['e', '+', '-'])) := by
  have hlt := (Binary64.isFinite_iff x).1 hfinite
  have hround := Decimal.nearest_shortest style.tieToEven (Nat.le_of_lt hlt)
  obtain ⟨spelling, htext, hnearest, hending⟩ := exists_spelling hstyle (hround.trans_lt hlt)
  refine ⟨spelling, ?_, hnearest.trans hround, hending⟩
  rw [write, if_pos hlt, writeFinite, htext]

/-- A finite number is read back from its text. -/
theorem read_write (hstyle : style.IsReadable) (hfinite : x.isFinite) :
    Numeral.read (style.write x) = .ok x := by
  obtain ⟨spelling, hwrite, hnearest, -⟩ := exists_write_eq hstyle hfinite
  rw [hwrite, spelling.read_text, hnearest, Binary64.ofMagnitude_magnitude]

/-- The text of a finite number starts with a digit, or with a minus and a digit. -/
theorem exists_toList_write (hstyle : style.IsReadable) (hfinite : x.isFinite) :
    ∃ c rest, c.isDigit ∧
      ((style.write x).toList = c :: rest ∨ (style.write x).toList = '-' :: c :: rest) := by
  obtain ⟨spelling, hwrite, -, -⟩ := exists_write_eq hstyle hfinite
  obtain ⟨c, rest, htext, hc⟩ := spelling.exists_text_eq
  refine ⟨c, rest, hc, ?_⟩
  rw [hwrite, String.toList_ofList, htext]
  cases isNegative x with
  | false => exact .inl rfl
  | true => exact .inr rfl

/-- The text of a finite number consists of digits, points, minus signs and the characters of
exponents, if the style has any. -/
theorem of_mem_write (hstyle : style.IsReadable) (hfinite : x.isFinite) {c : Char}
    (h : c ∈ (style.write x).toList) :
    c.isDigit ∨ c = '.' ∨ c = '-' ∨ ¬ style.IsPositional ∧ c ∈ ['e', '+'] := by
  obtain ⟨spelling, hwrite, -, hending⟩ := exists_write_eq hstyle hfinite
  rw [hwrite, String.toList_ofList] at h
  have hcases : c = '-' ∨ c ∈ spelling.text := by
    cases hsign : isNegative x with
    | false => simpa [hsign] using Or.inr h
    | true => simpa [hsign] using h
  rcases hcases with hminus | htext
  · exact .inr (.inr (.inl hminus))
  · rcases spelling.of_mem_text htext with hdigit | hpoint | hc
    · exact .inl hdigit
    · exact .inr (.inl hpoint)
    · obtain ⟨hpositional, hdigit | hletter⟩ := hending c hc
      · exact .inl hdigit
      · simp only [List.mem_cons, List.not_mem_nil, or_false] at hletter
        rcases hletter with rfl | rfl | rfl
        · exact .inr (.inr (.inr ⟨hpositional, by decide⟩))
        · exact .inr (.inr (.inr ⟨hpositional, by decide⟩))
        · exact .inr (.inr (.inl rfl))

end Write

/-- The texts of results can be read. -/
theorem isReadable_plain : plain.IsReadable := .inl rfl

/-- The texts of stored numbers can be read. -/
theorem isReadable_stored : stored.IsReadable := .inr rfl

/-- Every number is read back from its text in the style of results. -/
theorem read_write_plain (x : Float) : Numeral.read (plain.write x) = .ok x := by
  by_cases hfinite : x.isFinite
  · exact read_write isReadable_plain hfinite
  have hnot := mt (Binary64.isFinite_iff x).2 hfinite
  unfold write
  rw [if_neg hnot]
  split
  · rename_i hinfinite
    have hback := Binary64.ofMagnitude_magnitude x
    rw [hinfinite] at hback
    split
    · rename_i hnegative
      rw [← hback, hnegative]
      rfl
    · rename_i hpositive
      rw [← hback, Bool.eq_false_iff.2 hpositive]
      rfl
  · rename_i hne
    have hlt := Nat.lt_of_le_of_ne (Nat.le_of_not_lt hnot) (Ne.symm hne)
    rw [Binary64.eq_undefined_of_lt hlt]
    rfl

/-- The text of a result consists of digits, a point, a minus and the letters of words. -/
theorem of_mem_write_plain {x : Float} {c : Char} (h : c ∈ (plain.write x).toList) :
    c.isDigit ∨ c ∈ ['.', '-', 'i', 'n', 'f', 'N', 'a'] := by
  by_cases hfinite : x.isFinite
  · rcases of_mem_write isReadable_plain hfinite h with hc | rfl | rfl | ⟨hpositional, -⟩
    · exact .inl hc
    · exact .inr (by decide)
    · exact .inr (by decide)
    · exact absurd (fun _ => rfl) hpositional
  · have hwords : ∀ word ∈ ["inf", "-inf", "NaN"],
        word.toList.all fun c => c ∈ ['.', '-', 'i', 'n', 'f', 'N', 'a'] := by decide
    have hword : plain.write x ∈ ["inf", "-inf", "NaN"] := by
      unfold write
      rw [if_neg (mt (Binary64.isFinite_iff x).2 hfinite)]
      split
      · split <;> decide
      · decide
    exact .inr (of_decide_eq_true (List.all_eq_true.1 (hwords _ hword) c h))

/-- The text of a result has no white space. -/
theorem ofChar_ne_whitespace_of_mem_write {x : Float} {c : Char}
    (h : c ∈ (plain.write x).toList) : Category.ofChar c ≠ .whitespace := by
  have hmarks : ['.', '-', 'i', 'n', 'f', 'N', 'a'].all fun d =>
      Category.ofChar d ≠ .whitespace := by decide
  rcases of_mem_write_plain h with hc | hc
  · rw [Numeral.ofChar_of_isDigit hc]
    decide
  · exact of_decide_eq_true (List.all_eq_true.1 hmarks c hc)

end Style

end Reckoner
