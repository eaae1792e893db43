/-!
# Categories of characters

Every character belongs to exactly one category. Digits and the point form numbers, the five
arithmetic signs are operators, and only tab, space and newline are white space: all that is left,
every other control character included, counts as a letter.
-/

namespace Reckoner

/-- What a character can be part of. -/
inductive Category where
  | letter
  | number
  | operator
  | parenthesis
  | whitespace
  | comma
  deriving DecidableEq, Repr

namespace Category

/-- The category of a character. -/
def ofChar (c : Char) : Category :=
  if c.isDigit || c == '.' then number
  else if c == '+' || c == '-' || c == '*' || c == '/' || c == '%' then operator
  else if c == '(' || c == ')' then parenthesis
  else if c == '\t' || c == ' ' || c == '\n' then whitespace
  else if c == ',' then comma
  else letter

/-- Does every character of this category stand alone? -/
def isSingle : Category → Bool
  | operator | parenthesis | comma => true
  | letter | number | whitespace => false

/-- The characters after a first one of this category that stay together with it. -/
def extent (category : Category) (text : List Char) : List Char :=
  if category.isSingle then [] else text.takeWhile fun c => ofChar c = category

/-- The extent of a category is taken from the front of a text. -/
theorem extent_append_drop (category : Category) (text : List Char) :
    category.extent text ++ text.drop (category.extent text).length = text := by
  unfold extent
  split
  · rfl
  · induction text with
    | nil => rfl
    | cons c rest ih => by_cases h : ofChar c = category <;> simp_all

/-- The characters of an extent are all of its category. -/
theorem ofChar_of_mem_extent {category : Category} {text : List Char} {c : Char}
    (h : c ∈ category.extent text) : ofChar c = category := by
  unfold extent at h
  split at h
  · simp at h
  · simpa using List.all_eq_true.1 List.all_takeWhile c h

end Category

end Reckoner
