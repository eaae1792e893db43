import Reckoner.Decimal.Numeral
import Reckoner.Source.Category

/-!
# Spelled numbers

A text of digits, with a point between them and an exponent behind them if need be, is read as the
number nearest to the decimal fraction that it spells, which is `Spelling.read_text`. The sign is a
minus or nothing. Every number that is written is the text of a spelling.
-/

namespace Reckoner

/-- The characters of a kind that a text starts with, if the text goes on with another character. -/
theorem takeWhile_append_eq {p : Char → Bool} {front rest : List Char} (hfront : ∀ c ∈ front, p c)
    (hrest : ∀ c ∈ rest.head?, p c = false) : (front ++ rest).takeWhile p = front := by
  rw [List.takeWhile_append_of_pos hfront]
  cases rest with
  | nil => simp
  | cons c rest => simp [hrest c rfl]

namespace Numeral

open Binary64 (ofMagnitude)

/-- The characters of numbers. -/
theorem isDigit_or_eq_point {c : Char} (h : Category.ofChar c = .number) :
    c.isDigit ∨ c = '.' := by
  unfold Category.ofChar at h
  split at h
  · rename_i hnumber
    simpa using hnumber
  · repeat' split at h
    all_goals cases h

/-- A digit has no case. -/
theorem toLower_of_isDigit {c : Char} (h : c.isDigit) : c.toLower = c := by
  unfold Char.toLower
  rw [dif_neg]
  simp only [Char.isDigit, Bool.and_eq_true, decide_eq_true_eq, UInt32.le_iff_toNat_le,
    ge_iff_le] at h ⊢
  have hnine : '9'.val.toNat = 57 := rfl
  have hcapital : 'A'.val.toNat = 65 := rfl
  omega

/-- Text that starts like a number has no sign. -/
theorem splitSign_of_ofChar {c : Char} {rest : List Char} (h : Category.ofChar c = .number) :
    splitSign (c :: rest) = (false, c :: rest) := by
  unfold splitSign
  split
  · rename_i heq
    cases heq
    cases h
  · rename_i heq
    cases heq
    cases h
  · rfl

/-- Text that starts like a number is a decimal fraction or nothing. -/
theorem unsigned?_of_ofChar {negative : Bool} {c : Char} {rest : List Char}
    (h : Category.ofChar c = .number) :
    unsigned? negative (c :: rest) =
      (decimal? (c :: rest)).map fun number => ofMagnitude negative number.nearest := by
  have hlower : c.toLower = c := by
    rcases isDigit_or_eq_point h with hdigit | rfl
    · exact toLower_of_isDigit hdigit
    · rfl
  have hi : c ≠ 'i' := by
    rintro rfl
    cases h
  have hn : c ≠ 'n' := by
    rintro rfl
    cases h
  unfold unsigned?
  rw [List.map_cons, hlower]
  split
  · rename_i heq
    exact absurd (List.cons.inj heq).1 hi
  · rename_i heq
    exact absurd (List.cons.inj heq).1 hi
  · rename_i heq
    exact absurd (List.cons.inj heq).1 hn
  · rfl

/-- A digit can be part of a number. -/
theorem ofChar_of_isDigit {c : Char} (h : c.isDigit) : Category.ofChar c = .number := by
  unfold Category.ofChar
  rw [h, Bool.true_or, if_pos rfl]

/-- The digits of a coefficient are digits. -/
theorem isDigit_of_mem_toDigits {coefficient : Nat} {c : Char}
    (h : c ∈ Nat.toDigits 10 coefficient) : c.isDigit :=
  Nat.isDigit_of_mem_toDigits (by decide) (by decide) h

/-- Zeros are digits. -/
theorem isDigit_of_mem_zeros {count : Nat} {c : Char} (h : c ∈ List.replicate count '0') :
    c.isDigit := by
  rw [(List.mem_replicate.1 h).2]
  rfl

/-- The digits behind a point. -/
theorem splitFraction_point {fraction ending : List Char} (hfraction : ∀ c ∈ fraction, c.isDigit)
    (hending : ∀ c ∈ ending.head?, c.isDigit = false) :
    splitFraction ('.' :: (fraction ++ ending)) = (fraction, ending) := by
  rw [splitFraction, takeWhile_append_eq hfraction hending, List.drop_left]

/-- Without a point there are no digits behind it. -/
theorem splitFraction_of_head? {text : List Char} (h : ∀ c ∈ text.head?, c ≠ '.') :
    splitFraction text = ([], text) := by
  unfold splitFraction
  split
  · exact absurd rfl (h '.' rfl)
  · rfl

/-- The parts of a text that starts with certain digits. -/
theorem parts?_append {whole rest : List Char} (hwhole : ∀ c ∈ whole, c.isDigit)
    (hrest : ∀ c ∈ rest.head?, c.isDigit = false) :
    parts? (whole ++ rest) =
      if whole = [] ∧ (splitFraction rest).1 = [] then none
      else (exponent? (splitFraction rest).2).map fun exponent =>
        ⟨whole, (splitFraction rest).1, exponent⟩ := by
  unfold parts?
  simp only [takeWhile_append_eq hwhole hrest, List.drop_left]

/-- A text without a sign that spells a decimal fraction: digits, those behind a point if there are
any, and possibly an exponent. -/
structure Spelling where
  whole : List Char
  fraction : List Char
  /-- What follows the digits. -/
  ending : List Char
  exponent : Int
  whole_ne_nil : whole ≠ []
  isDigit_whole : ∀ c ∈ whole, c.isDigit
  isDigit_fraction : ∀ c ∈ fraction, c.isDigit
  exponent?_ending : exponent? ending = some exponent

/-- An exponent starts with its letter. -/
theorem eq_of_exponent? {text : List Char} {exponent : Int} (h : exponent? text = some exponent) :
    ∀ c ∈ text.head?, c = 'e' ∨ c = 'E' := by
  intro c hc
  obtain ⟨rest, rfl⟩ := List.head?_eq_some_iff.1 hc
  rw [exponent?] at h
  split at h
  · next hletter => exact hletter
  · cases h

namespace Spelling

variable (spelling : Spelling)

/-- The text of a spelling. -/
def text : List Char :=
  spelling.whole ++ ((if spelling.fraction = [] then [] else '.' :: spelling.fraction) ++
    spelling.ending)

/-- The decimal fraction that is spelled. -/
def decimal : Decimal := .ofDigits spelling.whole spelling.fraction spelling.exponent

/-- Neither a digit nor a point follows the digits. -/
theorem ending_head? :
    ∀ c ∈ spelling.ending.head?, c.isDigit = false ∧ c ≠ '.' := by
  intro c hc
  rcases eq_of_exponent? spelling.exponent?_ending c hc with rfl | rfl <;> decide

/-- A text is read as the decimal fraction that it spells. -/
theorem decimal?_text : decimal? spelling.text = some spelling.decimal := by
  have hending := spelling.ending_head?
  obtain ⟨whole, fraction, ending, exponent, hne, hwhole, hfraction, hexponent⟩ := spelling
  simp only at hending
  unfold decimal? text decimal
  dsimp only
  by_cases hnil : fraction = []
  · rw [if_pos hnil, List.nil_append, parts?_append hwhole fun c hc => (hending c hc).1,
      splitFraction_of_head? fun c hc => (hending c hc).2]
    simp [hne, hexponent, hnil]
  · rw [if_neg hnil, List.cons_append, parts?_append hwhole (by simp),
      splitFraction_point hfraction fun c hc => (hending c hc).1]
    simp [hne, hexponent]

/-- The text of a spelling starts with a digit. -/
theorem exists_text_eq : ∃ c rest, spelling.text = c :: rest ∧ c.isDigit := by
  obtain ⟨c, rest, hwhole⟩ := List.exists_cons_of_ne_nil spelling.whole_ne_nil
  refine ⟨c, _, by rw [text, hwhole, List.cons_append], spelling.isDigit_whole c ?_⟩
  simp [hwhole]

/-- The characters of a spelling are digits, points and those of its exponent. -/
theorem of_mem_text {c : Char} (h : c ∈ spelling.text) :
    c.isDigit ∨ c = '.' ∨ c ∈ spelling.ending := by
  unfold text at h
  rcases List.mem_append.1 h with hc | hc
  · exact .inl (spelling.isDigit_whole c hc)
  · rcases List.mem_append.1 hc with hc | hc
    · split at hc
      · cases hc
      · rcases List.mem_cons.1 hc with rfl | hc
        · exact .inr (.inl rfl)
        · exact .inl (spelling.isDigit_fraction c hc)
    · exact .inr (.inr hc)

/-- Digits with a point in front of the last ones spell a multiple of a power of ten. -/
theorem exists_pointed {digits : List Char} (hdigits : ∀ c ∈ digits, c.isDigit) {places : Nat}
    (hpos : 0 < places) (hlt : places < digits.length) :
    ∃ spelling : Spelling,
      digits.take (digits.length - places) ++ '.' :: digits.drop (digits.length - places) =
          spelling.text ∧
        spelling.ending = [] ∧ spelling.decimal = ⟨Nat.ofDigitChars 10 digits 0, -places⟩ := by
  have hback : digits.length - (digits.length - places) = places := by omega
  refine ⟨⟨digits.take (digits.length - places), digits.drop (digits.length - places), [], 0,
    ?_, ?_, ?_, rfl⟩, ?_, rfl, ?_⟩
  · intro hnil
    have hlength := congrArg List.length hnil
    rw [List.length_take, List.length_nil] at hlength
    omega
  · intro c hc
    exact hdigits c (List.mem_of_mem_take hc)
  · intro c hc
    exact hdigits c (List.mem_of_mem_drop hc)
  · have hne : digits.drop (digits.length - places) ≠ [] := by
      rw [Ne, List.drop_eq_nil_iff]
      omega
    rw [text, if_neg hne, List.append_nil]
  · rw [decimal, Decimal.ofDigits, List.take_append_drop, List.length_drop, hback, Int.zero_sub]

/-- Digits with zeros in front of them, all behind a point, spell a multiple of a power of ten. -/
theorem exists_pointed_zeros {digits : List Char} (hdigits : ∀ c ∈ digits, c.isDigit)
    {places : Nat} (hpos : 0 < places) (hle : digits.length ≤ places) :
    ∃ spelling : Spelling,
      '0' :: '.' :: (List.replicate (places - digits.length) '0' ++ digits) = spelling.text ∧
        spelling.ending = [] ∧ spelling.decimal = ⟨Nat.ofDigitChars 10 digits 0, -places⟩ := by
  -- the zero in front of the point is one more digit
  let padded := '0' :: (List.replicate (places - digits.length) '0' ++ digits)
  have hpadded : ∀ c ∈ padded, c.isDigit := by
    intro c hc
    rcases List.mem_cons.1 hc with rfl | hc
    · rfl
    · rcases List.mem_append.1 hc with hc | hc
      · exact isDigit_of_mem_zeros hc
      · exact hdigits c hc
  have hlength : padded.length = places + 1 := by
    rw [List.length_cons, List.length_append, List.length_replicate]
    omega
  have hvalue : Nat.ofDigitChars 10 padded 0 = Nat.ofDigitChars 10 digits 0 := by
    rw [Nat.ofDigitChars_cons, Nat.ofDigitChars_append, Nat.ofDigitChars_replicate_zero]
    rfl
  have hlt : places < padded.length := by omega
  obtain ⟨spelling, htext, hending, hdecimal⟩ := exists_pointed hpadded hpos hlt
  rw [hlength, Nat.add_sub_cancel_left] at htext
  exact ⟨spelling, htext, hending, by rw [hdecimal, hvalue]⟩

/-- A text with or without a minus is read as the number nearest to the fraction that it spells. -/
theorem read_text (negative : Bool) :
    read (.ofList (if negative then '-' :: spelling.text else spelling.text)) =
      .ok (ofMagnitude negative spelling.decimal.nearest) := by
  obtain ⟨c, rest, htext, hc⟩ := spelling.exists_text_eq
  have hnumber := ofChar_of_isDigit hc
  have hdecimal := spelling.decimal?_text
  unfold read
  rw [htext] at hdecimal ⊢
  cases negative with
  | false =>
      rw [if_neg (by simp [String.isEmpty_iff, ← String.toList_eq_nil_iff])]
      simp [splitSign_of_ofChar hnumber, unsigned?_of_ofChar hnumber, hdecimal]
  | true =>
      rw [if_neg (by simp [String.isEmpty_iff, ← String.toList_eq_nil_iff])]
      simp [splitSign, unsigned?_of_ofChar hnumber, hdecimal]

end Spelling

end Numeral

end Reckoner
