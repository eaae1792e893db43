/-!
# Byte offsets

Places in a text can be counted in bytes of its UTF-8 form. `slice` gives the characters between two
such offsets.
-/

namespace Reckoner.Text

/-- The number of bytes of a text. -/
def byteCount : List Char → Nat
  | [] => 0
  | c :: rest => c.utf8Size + byteCount rest

/-- The characters from a byte offset on. -/
def dropBytes : Nat → List Char → List Char
  | 0, text => text
  | _, [] => []
  | offset, c :: rest => dropBytes (offset - c.utf8Size) rest

/-- The characters before a byte offset. -/
def takeBytes : Nat → List Char → List Char
  | 0, _ => []
  | _, [] => []
  | offset, c :: rest => c :: takeBytes (offset - c.utf8Size) rest

/-- The characters between two byte offsets. -/
def slice (text : List Char) (start stop : Nat) : List Char :=
  takeBytes (stop - start) (dropBytes start text)

@[simp]
theorem byteCount_nil : byteCount [] = 0 := rfl

@[simp]
theorem byteCount_cons (c : Char) (text : List Char) :
    byteCount (c :: text) = c.utf8Size + byteCount text := rfl

@[simp]
theorem byteCount_append (first second : List Char) :
    byteCount (first ++ second) = byteCount first + byteCount second := by
  induction first with
  | nil => rw [List.nil_append, byteCount_nil, Nat.zero_add]
  | cons c rest ih => rw [List.cons_append, byteCount_cons, byteCount_cons, ih, Nat.add_assoc]

/-- Dropping goes on behind a character that is dropped. -/
theorem dropBytes_cons (c : Char) (rest : List Char) (offset : Nat) :
    dropBytes (c.utf8Size + offset) (c :: rest) = dropBytes offset rest := by
  obtain ⟨size, hsize⟩ := Nat.exists_eq_succ_of_ne_zero (Nat.ne_of_gt c.utf8Size_pos)
  have hpos : c.utf8Size + offset = size + offset + 1 := by omega
  rw [hpos, dropBytes, ← hpos, Nat.add_sub_cancel_left]
  simp

/-- Taking goes on behind a character that is taken. -/
theorem takeBytes_cons (c : Char) (rest : List Char) (offset : Nat) :
    takeBytes (c.utf8Size + offset) (c :: rest) = c :: takeBytes offset rest := by
  obtain ⟨size, hsize⟩ := Nat.exists_eq_succ_of_ne_zero (Nat.ne_of_gt c.utf8Size_pos)
  have hpos : c.utf8Size + offset = size + offset + 1 := by omega
  rw [hpos, takeBytes, ← hpos, Nat.add_sub_cancel_left]
  simp

/-- The characters behind a text. -/
theorem dropBytes_byteCount (first second : List Char) :
    dropBytes (byteCount first) (first ++ second) = second := by
  induction first with
  | nil => rw [byteCount_nil, List.nil_append, dropBytes]
  | cons c first ih => rw [byteCount_cons, List.cons_append, dropBytes_cons, ih]

/-- The characters of a text in front of another one. -/
theorem takeBytes_byteCount (first second : List Char) :
    takeBytes (byteCount first) (first ++ second) = first := by
  induction first with
  | nil => rw [byteCount_nil, takeBytes]
  | cons c first ih => rw [byteCount_cons, List.cons_append, takeBytes_cons, ih]

/-- The characters between two other texts. -/
theorem slice_byteCount (front line back : List Char) :
    slice (front ++ (line ++ back)) (byteCount front) (byteCount front + byteCount line) =
      line := by
  rw [slice, dropBytes_byteCount, Nat.add_sub_cancel_left, takeBytes_byteCount]

end Reckoner.Text
