import Mathlib.Data.List.TakeWhile
import Reckoner.Decimal.Grammar
import Reckoner.Proofs.Number.Spelling

/-!
# Reading what the grammar allows

A text is read as a number exactly if it is a numeral of the grammar, which is `exists_read_iff`. Of
the characters of numbers alone only mantissas can be made (`exists_read_iff_of_ofChar`): the signs,
the words and the exponents need others.
-/

namespace Reckoner.Numeral

variable {text sign rest : List Char}

/-- What starts with a digit or a point, or like a word, has no sign in front. -/
theorem IsSign.exists_splitSign (h : IsSign sign) (hrest : ∀ c ∈ rest.head?, c ≠ '+' ∧ c ≠ '-') :
    ∃ negative, splitSign (sign ++ rest) = (negative, rest) := by
  simp only [IsSign, List.mem_cons, List.not_mem_nil, or_false] at h
  rcases h with rfl | rfl | rfl
  · refine ⟨false, ?_⟩
    rw [List.nil_append]
    unfold splitSign
    split
    · exact absurd rfl (hrest '+' rfl).1
    · exact absurd rfl (hrest '-' rfl).2
    · rfl
  · exact ⟨false, rfl⟩
  · exact ⟨true, rfl⟩

/-- Every text is a sign if need be and what follows it. -/
theorem exists_sign (text : List Char) :
    ∃ sign, IsSign sign ∧ text = sign ++ (splitSign text).2 := by
  unfold splitSign
  split
  · exact ⟨['+'], by simp [IsSign], rfl⟩
  · exact ⟨['-'], by simp [IsSign], rfl⟩
  · exact ⟨[], by simp [IsSign], rfl⟩

/-- Every text is some digits and what follows them. -/
theorem exists_digits (text : List Char) : ∃ digits rest, text = digits ++ rest ∧
    (∀ c ∈ digits, c.isDigit) ∧ ∀ c ∈ rest.head?, c.isDigit = false := by
  refine ⟨text.takeWhile Char.isDigit, text.dropWhile Char.isDigit,
    List.takeWhile_append_dropWhile.symm, fun c hc => List.mem_takeWhile_imp hc, fun c hc => ?_⟩
  have hhead := List.head?_dropWhile_not Char.isDigit text
  rw [Option.mem_def.1 hc] at hhead
  exact hhead

/-- A digit is no mark. -/
theorem ne_of_isDigit {c : Char} (h : c.isDigit) : c ≠ '.' ∧ c ≠ '+' ∧ c ≠ '-' := by
  refine ⟨?_, ?_, ?_⟩ <;>
  · rintro rfl
    cases h

/-- The endings of the grammar are those that have an exponent. -/
theorem exists_exponent?_iff : (∃ exponent, exponent? text = some exponent) ↔ IsExponent text := by
  constructor
  · rintro ⟨exponent, h⟩
    cases text with
    | nil => exact .nil
    | cons letter rest =>
        obtain ⟨sign, hsign, hrest⟩ := exists_sign rest
        rw [exponent?] at h
        generalize splitSign rest = split at h hrest
        obtain ⟨negative, digits⟩ := split
        dsimp only at h hrest
        split at h
        · rename_i hletter
          split at h
          · rename_i hdigits
            rw [hrest]
            exact .cons hletter hsign hdigits.1 (List.all_eq_true.1 hdigits.2)
          · cases h
        · cases h
  · rintro (_ | ⟨hletter, hsign, hne, hdigits⟩)
    · exact ⟨0, rfl⟩
    · obtain ⟨negative, hsplit⟩ := hsign.exists_splitSign fun c hc =>
        (ne_of_isDigit (hdigits c (List.mem_of_mem_head? hc))).2
      rw [exponent?]
      simpa [hletter, hsplit, hne] using hdigits

/-- A mantissa is made of digits, or of digits, a point and further digits. -/
theorem isMantissa_iff : IsMantissa text ↔ ∃ whole fraction : List Char,
    (∀ c ∈ whole, c.isDigit) ∧ (∀ c ∈ fraction, c.isDigit) ∧ ¬ (whole = [] ∧ fraction = []) ∧
      (text = whole ∧ fraction = [] ∨ text = whole ++ '.' :: fraction) := by
  have hcount : ∀ digits : List Char, (∀ c ∈ digits, c.isDigit) → digits.count '.' = 0 :=
    fun digits hdigits => List.count_eq_zero.2 fun hmem => (ne_of_isDigit (hdigits _ hmem)).1 rfl
  constructor
  · rintro ⟨hchars, ⟨digit, hmem, hdigit⟩, hpoint⟩
    obtain ⟨whole, rest, rfl, hwhole, hrest⟩ := exists_digits text
    cases rest with
    | nil =>
        refine ⟨whole, [], hwhole, by simp, ?_, .inl ⟨by simp, rfl⟩⟩
        rintro ⟨rfl, -⟩
        cases hmem
    | cons point fraction =>
        obtain rfl : point = '.' := by
          rcases hchars point (by simp) with hpointDigit | heq
          · rw [hrest point rfl] at hpointDigit
            cases hpointDigit
          · exact heq
        have hfraction : ∀ c ∈ fraction, c.isDigit := by
          intro c hc
          rcases hchars c (by simp [hc]) with hdigit | rfl
          · exact hdigit
          · have hpos := List.count_pos_iff.2 hc
            rw [List.count_append, List.count_cons_self] at hpoint
            omega
        refine ⟨whole, fraction, hwhole, hfraction, ?_, .inr rfl⟩
        rintro ⟨rfl, rfl⟩
        rw [List.mem_singleton.1 (show digit ∈ ['.'] from hmem)] at hdigit
        cases hdigit
  · rintro ⟨whole, fraction, hwhole, hfraction, hne, ⟨rfl, rfl⟩ | rfl⟩
    · obtain ⟨c, rest, rfl⟩ := List.exists_cons_of_ne_nil fun hnil => hne ⟨hnil, rfl⟩
      exact ⟨fun d hd => .inl (hwhole d hd), ⟨c, by simp, hwhole c (by simp)⟩, by
        rw [hcount _ hwhole]
        exact Nat.zero_le 1⟩
    · refine ⟨?_, ?_, ?_⟩
      · intro c hc
        rcases List.mem_append.1 hc with hc | hc
        · exact .inl (hwhole c hc)
        · rcases List.mem_cons.1 hc with rfl | hc
          · exact .inr rfl
          · exact .inl (hfraction c hc)
      · rcases not_and_or.1 hne with hne | hne
        · obtain ⟨c, rest, rfl⟩ := List.exists_cons_of_ne_nil hne
          exact ⟨c, by simp, hwhole c (by simp)⟩
        · obtain ⟨c, rest, rfl⟩ := List.exists_cons_of_ne_nil hne
          exact ⟨c, by simp, hfraction c (by simp)⟩
      · rw [List.count_append, List.count_cons_self, hcount _ hwhole, hcount _ hfraction]

/-- The texts that have parts are the mantissas with an ending. -/
theorem exists_parts?_iff : (∃ parts, parts? text = some parts) ↔ ∃ mantissa exponent,
    text = mantissa ++ exponent ∧ IsMantissa mantissa ∧ IsExponent exponent := by
  constructor
  · rintro ⟨parts, h⟩
    obtain ⟨whole, rest, rfl, hwhole, hrest⟩ := exists_digits text
    rw [parts?_append hwhole hrest] at h
    split at h
    · cases h
    rename_i hne
    obtain ⟨exponent, hexponent, -⟩ := Option.map_eq_some_iff.1 h
    -- only a point directly behind the first digits starts a fraction
    by_cases hpoint : ∃ tail, rest = '.' :: tail
    · obtain ⟨tail, rfl⟩ := hpoint
      obtain ⟨fraction, ending, rfl, hfraction, hending⟩ := exists_digits tail
      rw [splitFraction_point hfraction hending] at hne hexponent
      exact ⟨whole ++ '.' :: fraction, ending, by simp,
        isMantissa_iff.2 ⟨whole, fraction, hwhole, hfraction, hne, .inr rfl⟩,
        exists_exponent?_iff.1 ⟨exponent, hexponent⟩⟩
    · have hhead : ∀ c ∈ rest.head?, c ≠ '.' := by
        rintro c hc rfl
        exact hpoint (List.head?_eq_some_iff.1 hc)
      rw [splitFraction_of_head? hhead] at hne hexponent
      exact ⟨whole, rest, rfl,
        isMantissa_iff.2 ⟨whole, [], hwhole, by simp, hne, .inl ⟨rfl, rfl⟩⟩,
        exists_exponent?_iff.1 ⟨exponent, hexponent⟩⟩
  · rintro ⟨mantissa, ending, rfl, hmantissa, hending⟩
    obtain ⟨exponent, hexponent⟩ := exists_exponent?_iff.2 hending
    have hhead : ∀ c ∈ ending.head?, c.isDigit = false ∧ c ≠ '.' := by
      intro c hc
      rcases eq_of_exponent? hexponent c hc with rfl | rfl <;> decide
    obtain ⟨whole, fraction, hwhole, hfraction, hne, ⟨rfl, rfl⟩ | rfl⟩ :=
      isMantissa_iff.1 hmantissa
    · rw [parts?_append hwhole fun c hc => (hhead c hc).1,
        splitFraction_of_head? fun c hc => (hhead c hc).2, if_neg hne, hexponent]
      exact ⟨_, rfl⟩
    · rw [List.append_assoc, List.cons_append, parts?_append hwhole (by simp),
        splitFraction_point hfraction fun c hc => (hhead c hc).1, if_neg hne, hexponent]
      exact ⟨_, rfl⟩

/-- A text without a sign is a number exactly if it is a word or a mantissa with an ending. -/
theorem exists_unsigned?_iff (negative : Bool) : (∃ x, unsigned? negative text = some x) ↔
    IsWord text ∨ ∃ mantissa exponent, text = mantissa ++ exponent ∧ IsMantissa mantissa ∧
      IsExponent exponent := by
  have hword : IsWord text ↔ text.map Char.toLower = ['i', 'n', 'f'] ∨
      text.map Char.toLower = ['i', 'n', 'f', 'i', 'n', 'i', 't', 'y'] ∨
        text.map Char.toLower = ['n', 'a', 'n'] := by
    simp [IsWord]
  rw [← exists_parts?_iff, hword]
  unfold unsigned?
  split
  · rename_i h
    simp [h]
  · rename_i h
    simp [h]
  · rename_i h
    simp [h]
  · rename_i hinf hinfinity hnan
    rw [or_iff_right (by rintro (h | h | h); exacts [hinf h, hinfinity h, hnan h])]
    simp only [decimal?, Option.map_map, Option.map_eq_some_iff]
    constructor
    · rintro ⟨_, parts, hparts, -⟩
      exact ⟨parts, hparts⟩
    · rintro ⟨parts, hparts⟩
      exact ⟨_, parts, hparts, rfl⟩

/-- A word starts with one of two letters. -/
theorem IsWord.exists_cons (h : IsWord text) :
    ∃ c rest, text = c :: rest ∧ (c.toLower = 'i' ∨ c.toLower = 'n') := by
  cases text with
  | nil => simp [IsWord] at h
  | cons c rest =>
      refine ⟨c, rest, rfl, ?_⟩
      simp only [IsWord, List.mem_cons, List.map_cons, List.not_mem_nil, or_false] at h
      rcases h with h | h | h
      · exact .inl (List.cons.inj h).1
      · exact .inl (List.cons.inj h).1
      · exact .inr (List.cons.inj h).1

/-- A mantissa starts with a digit or a point. -/
theorem IsMantissa.exists_cons (h : IsMantissa text) :
    ∃ c rest, text = c :: rest ∧ (c.isDigit ∨ c = '.') := by
  cases text with
  | nil =>
      obtain ⟨c, hc, -⟩ := h.exists_digit
      cases hc
  | cons c rest => exact ⟨c, rest, rfl, h.chars c (by simp)⟩

/-- A text is read as a number exactly if it is a numeral. -/
theorem exists_read_iff {text : String} : (∃ x, read text = .ok x) ↔ IsNumeral text.toList := by
  have hread : ∀ {sign rest : List Char}, text.toList = sign ++ rest → IsSign sign → rest ≠ [] →
      (∀ c ∈ rest.head?, c ≠ '+' ∧ c ≠ '-') → (∀ negative, ∃ x, unsigned? negative rest = some x) →
        ∃ x, read text = .ok x := by
    intro sign rest htext hsign hne hhead hnumber
    obtain ⟨negative, hsplit⟩ := hsign.exists_splitSign hhead
    obtain ⟨x, hx⟩ := hnumber negative
    have hempty : ¬ text.isEmpty := by
      rw [String.isEmpty_iff, ← String.toList_eq_nil_iff, htext]
      exact List.append_ne_nil_of_right_ne_nil _ hne
    refine ⟨x, ?_⟩
    unfold read
    simp [hempty, htext, hsplit, hx]
  constructor
  · rintro ⟨x, h⟩
    obtain ⟨sign, hsign, htext⟩ := exists_sign text.toList
    unfold read at h
    split at h
    · cases h
    dsimp only at h
    split at h
    · rename_i number hnumber
      rw [htext]
      obtain hword | ⟨mantissa, exponent, hrest, hmantissa, hexponent⟩ :=
        (exists_unsigned?_iff _).1 ⟨number, hnumber⟩
      · exact .word hsign hword
      · rw [hrest]
        exact .fraction hsign hmantissa hexponent
    · cases h
  · intro h
    generalize htext : text.toList = chars at h
    cases h with
    | @word sign word hsign hword =>
        obtain ⟨c, rest, rfl, hc⟩ := hword.exists_cons
        refine hread htext hsign (List.cons_ne_nil c rest) ?_ fun negative =>
          (exists_unsigned?_iff negative).2 (.inl hword)
        rintro d hd
        cases hd
        constructor <;>
        · rintro rfl
          revert hc
          decide
    | @fraction sign mantissa exponent hsign hmantissa hexponent =>
        have hnumber : ∀ negative, ∃ x, unsigned? negative (mantissa ++ exponent) = some x :=
          fun negative => (exists_unsigned?_iff negative).2
            (.inr ⟨mantissa, exponent, rfl, hmantissa, hexponent⟩)
        obtain ⟨c, rest, rfl, hc⟩ := hmantissa.exists_cons
        refine hread htext hsign (List.cons_ne_nil c _) ?_ hnumber
        rintro d hd
        cases hd
        rcases hc with hc | rfl
        · exact (ne_of_isDigit hc).2
        · decide

/-- The characters of numbers are read as a number exactly if they have a digit and at most one
point. -/
theorem exists_read_iff_of_ofChar {text : String}
    (hchars : ∀ c ∈ text.toList, Category.ofChar c = .number) :
    (∃ x, read text = .ok x) ↔
      (∃ c ∈ text.toList, c.isDigit) ∧ text.toList.count '.' ≤ 1 := by
  rw [exists_read_iff]
  constructor
  · intro h
    generalize text.toList = chars at h hchars
    cases h with
    | word _ hword =>
        obtain ⟨c, rest, rfl, hlower⟩ := hword.exists_cons
        rcases isDigit_or_eq_point (hchars c (by simp)) with hdigit | rfl
        · rw [toLower_of_isDigit hdigit] at hlower
          rcases hlower with rfl | rfl <;> cases hdigit
        · exact absurd hlower (by decide)
    | @fraction sign _ _ hsign hmantissa hexponent =>
        obtain rfl : sign = [] := by
          simp only [IsSign, List.mem_cons, List.not_mem_nil, or_false] at hsign
          rcases hsign with rfl | rfl | rfl
          · rfl
          · cases hchars '+' (by simp)
          · cases hchars '-' (by simp)
        cases hexponent with
        | nil =>
            rw [List.nil_append, List.append_nil]
            exact ⟨hmantissa.exists_digit, hmantissa.count_point⟩
        | @cons letter _ _ hletter =>
            have hnumber := hchars letter (by simp)
            rcases hletter with rfl | rfl <;> cases hnumber
  · rintro ⟨hdigit, hpoint⟩
    have hmantissa : IsMantissa text.toList :=
      ⟨fun c hc => isDigit_or_eq_point (hchars c hc), hdigit, hpoint⟩
    have hsign : IsSign [] := by simp [IsSign]
    simpa using IsNumeral.fraction hsign hmantissa .nil

end Reckoner.Numeral
