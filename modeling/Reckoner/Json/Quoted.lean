/-!
# Quoted texts in JSON

A quoted text has the quote, the backslash and the control characters escaped. `encode` writes each
of them in its shortest way and leaves every other character as it is, while `decode` reads every
escape of the format, with pairs of surrogates for the characters beyond the first plane.
-/

namespace Reckoner.Json.Quoted

/-- The letter that stands for a character after a backslash, if there is one. -/
def letter? : Char → Option Char
  | '"' => some '"'
  | '\\' => some '\\'
  | '\x08' => some 'b'
  | '\x0c' => some 'f'
  | '\n' => some 'n'
  | '\r' => some 'r'
  | '\t' => some 't'
  | _ => none

/-- A character inside quotes. -/
def encodeChar (c : Char) : List Char :=
  match letter? c with
  | some letter => ['\\', letter]
  | none =>
    if c.toNat < 0x20 then
      ['\\', 'u', '0', '0', Nat.digitChar (c.toNat / 16), Nat.digitChar (c.toNat % 16)]
    else [c]

/-- A text inside quotes. -/
def encode (text : List Char) : List Char := text.flatMap encodeChar

/-- The value of a hexadecimal digit. -/
def hexDigit? (c : Char) : Option Nat :=
  if c.isDigit then some (c.toNat - '0'.toNat)
  else if 'a' ≤ c ∧ c ≤ 'f' then some (c.toNat - 'a'.toNat + 10)
  else if 'A' ≤ c ∧ c ≤ 'F' then some (c.toNat - 'A'.toNat + 10)
  else none

/-- The value of four hexadecimal digits. -/
def hex? (a b c d : Char) : Option Nat := do
  let a ← hexDigit? a
  let b ← hexDigit? b
  let c ← hexDigit? c
  let d ← hexDigit? d
  some (((a * 16 + b) * 16 + c) * 16 + d)

/-- The character that a letter after a backslash stands for. -/
def escaped? : Char → Option Char
  | '"' => some '"'
  | '\\' => some '\\'
  | '/' => some '/'
  | 'b' => some '\x08'
  | 'f' => some '\x0c'
  | 'n' => some '\n'
  | 'r' => some '\r'
  | 't' => some '\t'
  | _ => none

/-- The character of a pair of surrogates, the high one first. -/
def surrogates? (high low : Nat) : Option Char :=
  if 0xD800 ≤ high ∧ high < 0xDC00 ∧ 0xDC00 ≤ low ∧ low < 0xE000 then
    some (.ofNat (0x10000 + (high - 0xD800) * 0x400 + (low - 0xDC00)))
  else none

/-- The text that stands inside quotes. Control characters and surrogates without a partner are
refused. -/
def decode : List Char → Option (List Char)
  | [] => some []
  | '\\' :: 'u' :: a :: b :: c :: d :: rest =>
    match hex? a b c d with
    | none => none
    | some unit =>
      if unit < 0xD800 ∨ 0xE000 ≤ unit then (decode rest).map (.ofNat unit :: ·)
      else
        match rest with
        | '\\' :: 'u' :: e :: f :: g :: h :: rest => do
          let low ← hex? e f g h
          let c ← surrogates? unit low
          (decode rest).map (c :: ·)
        | _ => none
  | '\\' :: letter :: rest => do
    let c ← escaped? letter
    (decode rest).map (c :: ·)
  | c :: rest => if c = '\\' ∨ c.toNat < 0x20 then none else (decode rest).map (c :: ·)

/-- Splits a text that follows a quote at the closing quote, which no backslash precedes. -/
def split? : List Char → Option (List Char × List Char)
  | [] => none
  | '"' :: rest => some ([], rest)
  | '\\' :: c :: rest => (split? rest).map fun (inside, after) => ('\\' :: c :: inside, after)
  | c :: rest => (split? rest).map fun (inside, after) => (c :: inside, after)

/-- What follows the closing quote is shorter than the whole. -/
theorem length_of_split? {text inside after : List Char} (h : split? text = some (inside, after)) :
    after.length < text.length := by
  fun_induction split? text generalizing inside after with
  | case1 => simp at h
  | case2 => simp_all
  | case3 c rest ih =>
    obtain ⟨⟨first, second⟩, hsplit, heq⟩ := Option.map_eq_some_iff.1 h
    obtain ⟨-, rfl⟩ := Prod.mk.inj heq
    exact Nat.lt_succ_of_lt (Nat.lt_succ_of_lt (ih hsplit))
  | case4 c rest _ _ ih =>
    obtain ⟨⟨first, second⟩, hsplit, heq⟩ := Option.map_eq_some_iff.1 h
    obtain ⟨-, rfl⟩ := Prod.mk.inj heq
    exact Nat.lt_succ_of_lt (ih hsplit)

/-- A hexadecimal digit has the value that it is written for. -/
theorem hexDigit?_digitChar {n : Nat} (h : n < 16) : hexDigit? (Nat.digitChar n) = some n := by
  revert n
  decide

/-- A control character is the value of its four digits. -/
theorem hex?_control {n : Nat} (h : n < 0x20) :
    hex? '0' '0' (Nat.digitChar (n / 16)) (Nat.digitChar (n % 16)) = some n := by
  have hzero : hexDigit? '0' = some 0 := rfl
  have hhigh := hexDigit?_digitChar (show n / 16 < 16 by omega)
  have hlow := hexDigit?_digitChar (show n % 16 < 16 by omega)
  simp only [hex?, hzero, hhigh, hlow, Option.bind_eq_bind, Option.bind_some, Option.some.injEq]
  omega

/-- The letter after a backslash is read as the character that it is written for. -/
theorem escaped?_of_letter? {c letter : Char} (h : letter? c = some letter) :
    escaped? letter = some c := by
  unfold letter? at h
  split at h <;> cases h <;> rfl

/-- Reading undoes the escape of one character, whatever follows. -/
theorem decode_encodeChar_append (c : Char) (rest : List Char) :
    decode (encodeChar c ++ rest) = (decode rest).map (c :: ·) := by
  unfold encodeChar
  split
  · next letter hletter =>
    have hescaped := escaped?_of_letter? hletter
    have hne : letter ≠ 'u' := by
      rintro rfl
      simp [escaped?] at hescaped
    simp only [List.cons_append, List.nil_append]
    rw [decode]
    · simp [hescaped]
    · exact fun _ _ _ _ _ h ↦ absurd h hne
  · split
    · next hlow =>
      have hbound : c.toNat < 0xD800 := by omega
      simp [decode, hex?_control hlow, hbound]
    · next hletter hlow =>
      have hslash : c ≠ '\\' := by
        rintro rfl
        simp [letter?] at hletter
      simp only [List.cons_append, List.nil_append]
      rw [decode]
      · simp [hslash, hlow]
      · exact fun _ _ _ _ _ h ↦ absurd h hslash
      · exact fun _ _ h ↦ absurd h hslash

/-- Reading gives back the text that was written. -/
theorem decode_encode (text : List Char) : decode (encode text) = some text := by
  induction text with
  | nil => rfl
  | cons c rest ih =>
    have hcons : encode (c :: rest) = encodeChar c ++ encode rest := rfl
    rw [hcons, decode_encodeChar_append, ih, Option.map_some]

/-- The digit of a value below sixteen is neither a quote nor a backslash. -/
theorem digitChar_ne {n : Nat} (h : n < 16) :
    Nat.digitChar n ≠ '"' ∧ Nat.digitChar n ≠ '\\' := by
  revert n
  decide

/-- The closing quote is not among the characters of an escaped one. -/
theorem split?_encodeChar_append (c : Char) (rest : List Char) :
    split? (encodeChar c ++ rest) =
      (split? rest).map fun (inside, after) => (encodeChar c ++ inside, after) := by
  unfold encodeChar
  split
  · rfl
  · next hletter =>
    have hquote : c ≠ '"' := by
      rintro rfl
      cases hletter
    have hslash : c ≠ '\\' := by
      rintro rfl
      cases hletter
    split
    · next hlow =>
      obtain ⟨hhigh, hhigh'⟩ := digitChar_ne (show c.toNat / 16 < 16 by omega)
      obtain ⟨hlast, hlast'⟩ := digitChar_ne (show c.toNat % 16 < 16 by omega)
      simp [split?, hhigh', hlast', Function.comp_def]
    · simp [split?, hslash]

/-- A written text ends at its closing quote. -/
theorem split?_encode_append (text rest : List Char) :
    split? (encode text ++ '"' :: rest) = some (encode text, rest) := by
  induction text with
  | nil => rfl
  | cons c text ih =>
    have hcons : encode (c :: text) = encodeChar c ++ encode text := rfl
    rw [hcons, List.append_assoc, split?_encodeChar_append, ih, Option.map_some]

end Reckoner.Json.Quoted
