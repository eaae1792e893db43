import Reckoner.Decimal.Style
import Reckoner.Json.Quoted

/-!
# Marks of JSON

A JSON text is a sequence of marks: punctuation, quoted texts, numbers and the word `null`. Blanks
between them mean nothing. Numbers have to be finite, so one that is not is written as `null`. What
the text of a number is read as is left to the caller.
-/

namespace Reckoner.Json

/-- A mark of a JSON text. -/
inductive Mark where
  | openBracket
  | closeBracket
  | openBrace
  | closeBrace
  | colon
  | comma
  | null
  | text (value : String)
  | number (value : Float)
  deriving DecidableEq

namespace Mark

/-- A mark as it is written. -/
def write : Mark → List Char
  | openBracket => ['[']
  | closeBracket => [']']
  | openBrace => ['\x7b']
  | closeBrace => ['\x7d']
  | colon => [':']
  | comma => [',']
  | null => ['n', 'u', 'l', 'l']
  | text value => '"' :: Quoted.encode value.toList ++ ['"']
  | number value => (Style.stored.write value).toList

/-- A JSON text without blanks. -/
def writeAll (marks : List Mark) : List Char := marks.flatMap write

/-- The mark that a character is by itself. -/
def single? : Char → Option Mark
  | '[' => some openBracket
  | ']' => some closeBracket
  | '\x7b' => some openBrace
  | '\x7d' => some closeBrace
  | ':' => some colon
  | ',' => some comma
  | _ => none

/-- Does a character separate marks without being one? -/
def isBlank (c : Char) : Bool := c == ' ' || c == '\t' || c == '\n' || c == '\r'

/-- Can a character be part of a number? -/
def isNumeric (c : Char) : Bool :=
  c.isDigit || c == '.' || c == '-' || c == '+' || c == 'e' || c == 'E'

section Reading

variable (readNumber : List Char → Option Float)

/-- The first mark of a text that starts with a character other than a blank, and what follows. -/
def first? (c : Char) (rest : List Char) : Option (Mark × List Char) :=
  match single? c with
  | some mark => some (mark, rest)
  | none =>
    if c = '"' then
      match Quoted.split? rest with
      | some (inside, after) =>
        (Quoted.decode inside).map fun chars => (text (.ofList chars), after)
      | none => none
    else if c = 'n' then
      if rest.take 3 = ['u', 'l', 'l'] then some (null, rest.drop 3) else none
    else
      let tail := rest.takeWhile isNumeric
      (readNumber (c :: tail)).map fun value => (number value, rest.drop tail.length)

/-- What follows the first mark is no longer than what follows its first character. -/
theorem length_of_first? {c : Char} {rest after : List Char} {mark : Mark}
    (h : first? readNumber c rest = some (mark, after)) : after.length ≤ rest.length := by
  unfold first? at h
  split at h
  · obtain ⟨-, rfl⟩ := Prod.mk.inj (Option.some.inj h)
    exact Nat.le_refl _
  · split at h
    · split at h
      · next hsplit =>
        obtain ⟨chars, -, heq⟩ := Option.map_eq_some_iff.1 h
        obtain ⟨-, rfl⟩ := Prod.mk.inj heq
        exact Nat.le_of_lt (Quoted.length_of_split? hsplit)
      · simp at h
    · split at h
      · split at h
        · obtain ⟨-, rfl⟩ := Prod.mk.inj (Option.some.inj h)
          simp
        · simp at h
      · obtain ⟨value, -, heq⟩ := Option.map_eq_some_iff.1 h
        obtain ⟨-, rfl⟩ := Prod.mk.inj heq
        simp

/-- The marks of a JSON text, if it consists of marks and blanks. -/
def scan (text : List Char) : Option (List Mark) :=
  match text with
  | [] => some []
  | c :: rest =>
    if isBlank c then scan rest
    else
      match h : first? readNumber c rest with
      | some (mark, after) =>
        have := length_of_first? readNumber h
        (scan after).map (mark :: ·)
      | none => none
  termination_by text.length

/-- A text that starts with no blank is its first mark and the marks of what follows. -/
theorem scan_cons {c : Char} {rest : List Char} (h : isBlank c = false) :
    scan readNumber (c :: rest) = (first? readNumber c rest).bind fun (mark, after) =>
      (scan readNumber after).map (mark :: ·) := by
  rw [scan, if_neg (by simp [h])]
  split
  · next hfirst => simp only [hfirst, Option.bind_some]
  · next hfirst => simp only [hfirst, Option.bind_none]

end Reading

/-- The pieces of a mark sequence between its commas. There is always at least one. -/
def pieces : List Mark → List (List Mark)
  | [] => [[]]
  | comma :: rest => [] :: pieces rest
  | mark :: rest =>
    match pieces rest with
    | piece :: others => (mark :: piece) :: others
    | [] => [[mark]]

end Mark

end Reckoner.Json
