import Mathlib.Order.Basic
import Mathlib.Data.Char
import Reckoner.Source.Pattern

/-!
# Patterns and categories

The classes of the lexical patterns are the categories of characters, except that a pattern of its
own matches the newline. This is `contains_iff`. Hence some pattern matches at every character, and
what it matches is told by the category (`eq_extent_of_emit`), by blanks (`isBlank_of_skip`) or by a
newline (`eq_newline_of_startRow`).
-/

namespace Reckoner

namespace CharClass

/-- The ranges of single characters hold these characters. -/
theorem inRanges_singles {chars : List Char} {c : Char} :
    inRanges (singles chars) c = true ↔ c ∈ chars := by
  simp only [inRanges, singles, List.any_map, List.any_eq_true, Function.comp_apply,
    Bool.and_eq_true, decide_eq_true_eq, ← le_antisymm_iff]
  simp

/-- A further range. -/
theorem inRanges_cons {range : Char × Char} {ranges : List (Char × Char)} {c : Char} :
    inRanges (range :: ranges) c = true ↔
      (range.1 ≤ c ∧ c ≤ range.2) ∨ inRanges ranges c = true := by
  simp [inRanges]

/-- The digits are a range. -/
theorem isDigit_iff {c : Char} : c.isDigit = true ↔ '0' ≤ c ∧ c ≤ '9' := by
  simp [Char.isDigit, Char.le_def]

end CharClass

namespace Category

/-- The characters that are neither letters nor digits. -/
def marks : List Char := ['.', '+', '-', '*', '/', '%', '(', ')', ',', '\t', ' ', '\n']

/-- The category of digits and letters. -/
theorem ofChar_of_not_mem_marks {c : Char} (h : c ∉ marks) :
    ofChar c = if c.isDigit then .number else .letter := by
  simp only [marks, List.mem_cons, List.not_mem_nil, or_false, not_or] at h
  simp [ofChar, h]

/-- A letter is neither a digit nor a mark. -/
theorem not_mem_marks_of_ofChar {c : Char} (h : ofChar c = .letter) :
    c.isDigit = false ∧ c ∉ marks := by
  constructor
  · rw [Bool.eq_false_iff]
    intro hdigit
    rw [ofChar, hdigit, Bool.true_or, if_pos rfl] at h
    cases h
  · intro hmark
    revert h
    simp only [marks, List.mem_cons, List.not_mem_nil, or_false] at hmark
    rcases hmark with rfl | rfl | rfl | rfl | rfl | rfl | rfl | rfl | rfl | rfl | rfl | rfl <;>
      decide

/-- White space is made of tabs, spaces and newlines. -/
theorem ofChar_eq_whitespace_iff {c : Char} :
    ofChar c = .whitespace ↔ c = '\t' ∨ c = ' ' ∨ c = '\n' := by
  constructor
  · intro h
    by_cases hc : c ∈ marks
    · revert h
      simp only [marks, List.mem_cons, List.not_mem_nil, or_false] at hc
      rcases hc with rfl | rfl | rfl | rfl | rfl | rfl | rfl | rfl | rfl | rfl | rfl | rfl <;>
        decide
    · rw [ofChar_of_not_mem_marks hc] at h
      split at h <;> cases h
  · rintro (rfl | rfl | rfl) <;> rfl

end Category

namespace Pattern

open Category CharClass

/-- A pattern matches the characters of its category, but the newline is matched by the pattern that
starts a row and by no other one. -/
theorem contains_iff {pattern : Pattern} (h : pattern ∈ all) (c : Char) :
    pattern.members.contains c ↔
      ofChar c = pattern.category ∧ (pattern.effect = .startRow ↔ c = '\n') := by
  by_cases hc : c ∈ marks
  · revert pattern
    simp only [marks, List.mem_cons, List.not_mem_nil, or_false] at hc
    rcases hc with rfl | rfl | rfl | rfl | rfl | rfl | rfl | rfl | rfl | rfl | rfl | rfl <;> decide
  · rw [ofChar_of_not_mem_marks hc]
    simp only [marks, List.mem_cons, List.not_mem_nil, or_false, not_or] at hc
    simp only [all, List.mem_cons, List.not_mem_nil, or_false] at h
    by_cases hdigit : c.isDigit <;>
      rcases h with rfl | rfl | rfl | rfl | rfl | rfl | rfl <;>
        simp [contains, ← Bool.not_eq_true, inRanges_cons, inRanges_singles, ← isDigit_iff, hc,
          hdigit]

/-- Some pattern matches at every character. -/
theorem exists_contains (c : Char) : ∃ pattern ∈ all, pattern.members.contains c := by
  have hall : ∀ category : Category,
      ∃ pattern ∈ all, category = pattern.category ∧ pattern.effect ≠ .startRow := by
    intro category
    cases category <;> decide
  by_cases hblank : ofChar c = .whitespace
  · rcases ofChar_eq_whitespace_iff.1 hblank with rfl | rfl | rfl <;> decide
  · obtain ⟨pattern, hmem, hcategory, heffect⟩ := hall (ofChar c)
    refine ⟨pattern, hmem, (contains_iff hmem c).2 ⟨hcategory, ?_⟩⟩
    have hnewline : c ≠ '\n' := by
      rintro rfl
      exact hblank rfl
    simp [heffect, hnewline]

/-- The longest match is a match of one of the patterns. -/
theorem mem_of_longest? {first : Char} {rest tail : List Char} {patterns : List Pattern}
    {pattern : Pattern} (h : longest? first rest patterns = some (pattern, tail)) :
    pattern ∈ patterns ∧ pattern.tail? first rest = some tail := by
  induction patterns with
  | nil => simp [longest?] at h
  | cons head others ih =>
      have hothers : longest? first rest others = some (pattern, tail) →
          pattern ∈ head :: others ∧ pattern.tail? first rest = some tail := by
        intro hbest
        exact ⟨List.mem_cons_of_mem _ (ih hbest).1, (ih hbest).2⟩
      unfold longest? at h
      split at h
      · exact hothers h
      · rename_i htail _
        cases h
        exact ⟨List.mem_cons_self, htail⟩
      · rename_i htail hbest
        split at h <;> cases h
        · exact hothers hbest
        · exact ⟨List.mem_cons_self, htail⟩

/-- There is a longest match if a pattern matches. -/
theorem exists_longest? {first : Char} (rest : List Char) {patterns : List Pattern}
    {pattern : Pattern} (hmem : pattern ∈ patterns) (h : pattern.members.contains first) :
    ∃ best, longest? first rest patterns = some best := by
  induction patterns with
  | nil => simp at hmem
  | cons head others ih =>
      unfold longest?
      split
      · rename_i hnone
        rcases List.mem_cons.1 hmem with rfl | hmem
        · simp [tail?, h] at hnone
        · exact ih hmem
      · exact ⟨_, rfl⟩
      · split <;> exact ⟨_, rfl⟩

/-- The patterns of the categories other than white space make lexemes, and those of white space do
not. -/
theorem effect_of_mem_all {pattern : Pattern} (h : pattern ∈ all) :
    (pattern.effect = .emit →
      pattern.category ≠ .whitespace ∧ pattern.repeats = !pattern.category.isSingle) ∧
    (pattern.effect = .skip → pattern.category = .whitespace ∧ pattern.repeats = true) ∧
    (pattern.effect = .startRow → pattern.repeats = false) := by
  revert pattern
  decide

section

variable {pattern : Pattern} {first : Char} {rest tail : List Char}

/-- A pattern that matches at all matches the first character. -/
theorem contains_of_tail? (h : pattern.tail? first rest = some tail) :
    pattern.members.contains first ∧
      tail = if pattern.repeats then rest.takeWhile pattern.members.contains else [] := by
  unfold tail? at h
  split at h
  · rename_i hfirst
    exact ⟨hfirst, (Option.some.inj h).symm⟩
  · cases h

/-- A pattern that makes a lexeme matches a run of the category of its first character. -/
theorem eq_extent_of_emit (hmem : pattern ∈ all) (heffect : pattern.effect = .emit)
    (h : pattern.tail? first rest = some tail) :
    pattern.category = ofChar first ∧ ofChar first ≠ .whitespace ∧
      tail = (ofChar first).extent rest := by
  obtain ⟨hfirst, htail⟩ := contains_of_tail? h
  obtain ⟨hblank, hrepeats⟩ := (effect_of_mem_all hmem).1 heffect
  have hcategory := ((contains_iff hmem first).1 hfirst).1
  have hsame : pattern.members.contains = fun c => decide (ofChar c = ofChar first) := by
    funext c
    rw [Bool.eq_iff_iff, contains_iff hmem, decide_eq_true_eq, hcategory, heffect]
    refine and_iff_left_of_imp fun hc => ⟨fun hstart => Effect.noConfusion hstart, ?_⟩
    rintro rfl
    exact absurd hc.symm hblank
  refine ⟨hcategory.symm, hcategory ▸ hblank, ?_⟩
  rw [htail, hsame, hrepeats, extent, ← hcategory]
  cases (ofChar first).isSingle <;> rfl

/-- A pattern that is dropped without starting a row matches blanks. -/
theorem isBlank_of_skip (hmem : pattern ∈ all) (heffect : pattern.effect = .skip)
    (h : pattern.tail? first rest = some tail) :
    (∃ following, rest = tail ++ following) ∧
      ∀ c ∈ first :: tail, ofChar c = .whitespace ∧ c ≠ '\n' := by
  obtain ⟨hfirst, htail⟩ := contains_of_tail? h
  obtain ⟨hcategory, hrepeats⟩ := (effect_of_mem_all hmem).2.1 heffect
  have hblank : ∀ c, pattern.members.contains c → ofChar c = .whitespace ∧ c ≠ '\n' := by
    intro c hc
    obtain ⟨hsame, hnewline⟩ := (contains_iff hmem c).1 hc
    rw [heffect] at hnewline
    exact ⟨hsame.trans hcategory, fun hc => Effect.noConfusion (hnewline.2 hc)⟩
  rw [hrepeats, if_pos rfl] at htail
  subst htail
  refine ⟨⟨_, List.takeWhile_append_dropWhile.symm⟩, fun c hc => ?_⟩
  rcases List.mem_cons.1 hc with rfl | hc
  · exact hblank _ hfirst
  · exact hblank _ (List.all_eq_true.1 List.all_takeWhile c hc)

/-- A pattern that starts a row matches a newline. -/
theorem eq_newline_of_startRow (hmem : pattern ∈ all) (heffect : pattern.effect = .startRow)
    (h : pattern.tail? first rest = some tail) : first = '\n' ∧ tail = [] := by
  obtain ⟨hfirst, htail⟩ := contains_of_tail? h
  have hnewline := ((contains_iff hmem first).1 hfirst).2
  rw [(effect_of_mem_all hmem).2.2 heffect, if_neg Bool.false_ne_true] at htail
  exact ⟨hnewline.1 heffect, htail⟩

end

end Pattern

end Reckoner
