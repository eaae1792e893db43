import Reckoner.Program.Stored
import Reckoner.Proofs.Fallible
import Reckoner.Proofs.Number.Writing

/-!
# Programs restored from storage

A stored program comes back exactly if its numbers are finite, which is
`restoreWith?_store_of_reads`. The marks of its text are read one by one (`scan_writeAll`), for no
number stands right behind another one, and every instruction comes back by itself
(`bind_ofMarks?`). What the text of a number is read as is left open until the end:
`restoreWith?_store` says which program comes back for any reader of numbers, and
`restore?_store_eq_some_iff` what this means for the reader in use, which does not give back every
number.
-/

namespace Reckoner

open Style (stored)

variable (readNumber : List Char → Option Float)

namespace Json.Mark

/-- What a mark is read as: an infinite or undefined number as `null`, a finite one as the number
that its text stands for, and every other mark as itself. -/
def reread? : Mark → Option Mark
  | number value =>
    if value.isFinite then (readNumber (stored.write value).toList).map number else some null
  | mark => some mark

/-- Is the mark a number? -/
def isNumber : Mark → Bool
  | number _ => true
  | _ => false

/-- The characters of a stored number can be part of a number. -/
theorem isNumeric_of_mem_write {value : Float} (h : value.isFinite) {c : Char}
    (hc : c ∈ (stored.write value).toList) : isNumeric c := by
  rcases Style.of_mem_write Style.isReadable_stored h hc with hc | rfl | rfl | ⟨-, hc⟩
  · simp [isNumeric, hc]
  · rfl
  · rfl
  · rcases List.mem_pair.1 hc with rfl | rfl <;> rfl

/-- A stored number that is infinite or undefined is written like `null`. -/
theorem write_number_eq {value : Float} (h : value.isFinite = false) :
    (number value).write = null.write := by
  have hlt : ¬ Binary64.magnitude value < Binary64.infinityBits := by
    rw [← Binary64.isFinite_iff, h]
    exact Bool.false_ne_true
  show (stored.write value).toList = ['n', 'u', 'l', 'l']
  unfold Style.write
  rw [if_neg hlt]
  split
  · split <;> rfl
  · rfl

/-- Only a number starts with a character of numbers. -/
theorem exists_write_eq {mark : Mark} (h : mark.isNumber = false) :
    ∃ c tail, mark.write = c :: tail ∧ isNumeric c = false := by
  cases mark with
  | number => cases h
  | _ => exact ⟨_, _, rfl, rfl⟩

/-- The number at the front of a text is the longest run of the characters of numbers. -/
theorem scan_number_append {c : Char} {tail rest : List Char} (hc : c.isDigit ∨ c = '-')
    (htail : ∀ d ∈ tail, isNumeric d) (hrest : ∀ d ∈ rest.head?, isNumeric d = false) :
    scan readNumber (c :: tail ++ rest) =
      (readNumber (c :: tail)).bind fun value =>
        (scan readNumber rest).map (number value :: ·) := by
  have hplain : ∀ d : Char, d.isDigit = false → d ≠ '-' → c ≠ d := by
    rintro d hdigit hminus rfl
    simp [hdigit, hminus] at hc
  have hblank : isBlank c = false := by
    simp [isBlank, hplain ' ' rfl, hplain '\t' rfl, hplain '\n' rfl, hplain '\r' rfl]
  have hsingle : single? c = none := by
    unfold single?
    split
    all_goals first | rfl | exact absurd rfl (hplain _ rfl (by decide))
  have hfirst : first? readNumber c (tail ++ rest) =
      (readNumber (c :: tail)).map fun value => (number value, rest) := by
    unfold first?
    simp only [hsingle, hplain '"' rfl (by decide), hplain 'n' rfl (by decide), if_false,
      takeWhile_append_eq htail hrest, List.drop_left]
  rw [List.cons_append, scan_cons readNumber hblank, hfirst, Option.bind_map]
  rfl

/-- The mark at the front of a text, unless it is a number that goes on. -/
theorem scan_write_append {mark : Mark} {rest : List Char}
    (hrest : mark.isNumber → ∀ d ∈ rest.head?, isNumeric d = false) :
    scan readNumber (mark.write ++ rest) =
      (mark.reread? readNumber).bind fun mark => (scan readNumber rest).map (mark :: ·) := by
  have hnull : scan readNumber (null.write ++ rest) = (scan readNumber rest).map (null :: ·) :=
    scan_cons readNumber rfl
  cases mark with
  | text value =>
      have hsplit := Quoted.split?_encode_append value.toList rest
      have hdecode := Quoted.decode_encode value.toList
      have hwrite : (text value).write ++ rest =
          '"' :: (Quoted.encode value.toList ++ '"' :: rest) := by simp [write]
      rw [hwrite, scan_cons readNumber rfl]
      simp [first?, single?, hsplit, hdecode, reread?]
  | number value =>
      cases hfinite : value.isFinite with
      | true =>
          have hnumeric : ∀ d ∈ (stored.write value).toList, isNumeric d :=
            fun d => isNumeric_of_mem_write hfinite
          obtain ⟨c, tail, htext, hc⟩ :
              ∃ c tail, (stored.write value).toList = c :: tail ∧ (c.isDigit ∨ c = '-') := by
            obtain ⟨c, tail, hc, htext | htext⟩ :=
              Style.exists_toList_write Style.isReadable_stored hfinite
            exacts [⟨c, tail, htext, .inl hc⟩, ⟨'-', c :: tail, htext, .inr rfl⟩]
          rw [write, reread?, if_pos hfinite]
          rw [htext] at hnumeric ⊢
          rw [scan_number_append readNumber hc (fun d hd => hnumeric d (List.mem_cons_of_mem _ hd))
            (hrest rfl), Option.bind_map]
          rfl
      | false =>
          rw [write_number_eq hfinite, hnull, reread?, if_neg (by simp [hfinite])]
          rfl
  | null => exact hnull
  | _ => exact scan_cons readNumber rfl

/-- No number stands right behind another number. -/
def Apart (first second : Mark) : Prop := first.isNumber → second.isNumber = false

/-- A mark that is no number keeps two texts apart. -/
theorem isChain_append_cons {front back : List Mark} {mark : Mark} (hmark : mark.isNumber = false)
    (hfront : front.IsChain Apart) (hback : back.IsChain Apart) :
    (front ++ mark :: back).IsChain Apart := by
  refine List.isChain_append.2 ⟨hfront, List.isChain_cons.2 ⟨?_, hback⟩, ?_⟩
  · intro _ _ hnumber
    rw [hmark] at hnumber
    cases hnumber
  · intro _ _ second hsecond _
    cases hsecond
    exact hmark

/-- Commas keep the pieces between them apart. -/
theorem isChain_intercalate {lists : List (List Mark)} (h : ∀ piece ∈ lists, piece.IsChain Apart) :
    ([comma].intercalate lists).IsChain Apart := by
  induction lists with
  | nil => exact .nil
  | cons piece rest ih =>
      obtain ⟨hpiece, hrest⟩ := List.forall_mem_cons.1 h
      cases rest with
      | nil => rwa [List.intercalate_singleton]
      | cons second rest =>
          rw [List.intercalate_cons_cons, List.append_assoc, List.singleton_append]
          exact isChain_append_cons rfl hpiece (ih hrest)

/-- The marks of a written text are read one by one, if no number stands right behind another. -/
theorem scan_writeAll {marks : List Mark} (h : marks.IsChain Apart) :
    scan readNumber (writeAll marks) = marks.mapM (reread? readNumber) := by
  induction marks with
  | nil => rw [writeAll, List.flatMap_nil, scan, List.mapM_nil]; rfl
  | cons mark rest ih =>
      obtain ⟨hapart, hrest⟩ := List.isChain_cons.1 h
      have hcons : writeAll (mark :: rest) = mark.write ++ writeAll rest := rfl
      rw [hcons, scan_write_append, ih hrest, List.mapM_cons]
      · cases mark.reread? readNumber with
        | none => rfl
        | some mark => cases rest.mapM (reread? readNumber) <;> rfl
      · intro hnumber d hd
        cases rest with
        | nil => cases hd
        | cons second rest =>
            obtain ⟨c, tail, hwrite, hc⟩ := exists_write_eq (hapart second rfl hnumber)
            have hhead : writeAll (second :: rest) = c :: (tail ++ writeAll rest) := by
              rw [writeAll, List.flatMap_cons, hwrite, List.cons_append]
              rfl
            rw [hhead] at hd
            cases hd
            exact hc

/-- Lists that are put together with commas are read one by one. -/
theorem mapM_reread?_intercalate (lists : List (List Mark)) :
    ([comma].intercalate lists).mapM (reread? readNumber) =
      (lists.mapM (List.mapM (reread? readNumber))).map ([comma].intercalate ·) := by
  induction lists with
  | nil => rfl
  | cons piece rest ih =>
      cases rest with
      | nil =>
          rw [List.intercalate_singleton, List.mapM_cons]
          cases piece.mapM (reread? readNumber) <;> simp
      | cons second rest =>
          have hcomma : reread? readNumber comma = some comma := rfl
          rw [List.intercalate_cons_cons, List.append_assoc, List.singleton_append,
            List.mapM_append, List.mapM_cons, ih, hcomma]
          simp only [List.mapM_cons]
          cases piece.mapM (reread? readNumber) with
          | none => rfl
          | some front =>
              cases second.mapM (reread? readNumber) with
              | none => rfl
              | some middle =>
                  cases rest.mapM (List.mapM (reread? readNumber)) with
                  | none => rfl
                  | some back => simp [List.intercalate_cons_cons]

/-- Nothing is cut at the commas of a piece that has none. -/
theorem pieces_append {piece : List Mark} (h : comma ∉ piece) (rest : List Mark) :
    pieces (piece ++ comma :: rest) = piece :: pieces rest := by
  induction piece with
  | nil => rfl
  | cons mark piece ih =>
      obtain ⟨hmark, hpiece⟩ := not_or.1 (mt List.mem_cons.2 h)
      rw [List.cons_append, pieces, ih hpiece]
      exact fun heq => hmark heq.symm

/-- Marks without a comma are one piece. -/
theorem pieces_of_notMem {piece : List Mark} (h : comma ∉ piece) : pieces piece = [piece] := by
  induction piece with
  | nil => rfl
  | cons mark piece ih =>
      obtain ⟨hmark, hpiece⟩ := not_or.1 (mt List.mem_cons.2 h)
      rw [pieces, ih hpiece]
      exact fun heq => hmark heq.symm

/-- Pieces without a comma are cut apart at the commas between them. -/
theorem pieces_intercalate {lists : List (List Mark)} (hne : lists ≠ [])
    (h : ∀ piece ∈ lists, comma ∉ piece) : pieces ([comma].intercalate lists) = lists := by
  induction lists with
  | nil => exact absurd rfl hne
  | cons piece rest ih =>
      obtain ⟨hpiece, hrest⟩ := List.forall_mem_cons.1 h
      cases rest with
      | nil => rw [List.intercalate_singleton, pieces_of_notMem hpiece]
      | cons second rest =>
          rw [List.intercalate_cons_cons, List.append_assoc, List.singleton_append,
            pieces_append hpiece, ih (List.cons_ne_nil _ _) hrest]

end Json.Mark

open Json Json.Mark

namespace Instruction

/-- What an instruction comes back as: a number that is infinite or undefined not at all, a finite
one as the number that its text stands for, and every other instruction as itself. -/
def reread? : Instruction → Option Instruction
  | push value =>
    if value.isFinite then (readNumber (stored.write value).toList).map push else none
  | instruction => some instruction

/-- A number comes back exactly if it is finite and its text is read as this number. -/
theorem reread?_push_eq_some_iff (value : Float) :
    (push value).reread? readNumber = some (push value) ↔
      value.isFinite ∧ readNumber (stored.write value).toList = some value := by
  simp [reread?]

/-- An infinite or undefined number does not come back. -/
theorem reread?_eq_none {instruction : Instruction} (h : ¬ instruction.isFinite) :
    instruction.reread? readNumber = none := by
  cases instruction with
  | push value => exact if_neg h
  | _ => exact absurd rfl h

/-- No number stands right behind another one in the marks of an instruction. -/
theorem isChain_marks (instruction : Instruction) : instruction.marks.IsChain Apart := by
  cases instruction with
  | apply operation => cases operation <;> simp [marks, field, Apart, isNumber]
  | _ => simp [marks, field, Apart, isNumber]

/-- The marks of an instruction are read as the marks of an object with the same key. -/
theorem mapM_reread?_marks (instruction : Instruction) :
    instruction.marks.mapM (Mark.reread? readNumber) =
      (instruction.field.2.reread? readNumber).map fun value =>
        [.openBrace, .text instruction.field.1, .colon, value, .closeBrace] := by
  unfold marks
  generalize instruction.field = field
  obtain ⟨key, value⟩ := field
  have hbrace : Mark.reread? readNumber .openBrace = some .openBrace := rfl
  have hkey : Mark.reread? readNumber (.text key) = some (.text key) := rfl
  have hcolon : Mark.reread? readNumber .colon = some .colon := rfl
  have hend : Mark.reread? readNumber .closeBrace = some .closeBrace := rfl
  simp only [List.mapM_cons, List.mapM_nil, hbrace, hkey, hcolon, hend]
  cases Mark.reread? readNumber value <;> rfl

/-- The value of an instruction is not read as a comma. -/
theorem ne_comma_of_reread? {instruction : Instruction} {value : Mark}
    (h : instruction.field.2.reread? readNumber = some value) : .comma ≠ value := by
  rintro rfl
  cases instruction with
  | push value =>
      simp only [field, Mark.reread?] at h
      split at h
      · obtain ⟨x, -, hx⟩ := Option.map_eq_some_iff.1 h
        cases hx
      · cases h
  | load name => cases h
  | apply operation => cases operation <;> cases h

/-- What the marks of an instruction are read as is not cut at commas. -/
theorem ne_nil_and_comma_notMem {instruction : Instruction} {piece : List Mark}
    (h : instruction.marks.mapM (Mark.reread? readNumber) = some piece) :
    piece ≠ [] ∧ .comma ∉ piece := by
  rw [mapM_reread?_marks] at h
  obtain ⟨value, hvalue, rfl⟩ := Option.map_eq_some_iff.1 h
  exact ⟨List.cons_ne_nil _ _, by simp [ne_comma_of_reread? readNumber hvalue]⟩

/-- An instruction is restored from what its marks are read as, if they stand for one at all. -/
theorem bind_ofMarks? (instruction : Instruction) :
    (instruction.marks.mapM (Mark.reread? readNumber)).bind ofMarks? =
      instruction.reread? readNumber := by
  rw [mapM_reread?_marks]
  cases instruction with
  | push value =>
      simp only [field, Mark.reread?, reread?]
      split
      · cases readNumber (stored.write value).toList <;> rfl
      · rfl
  | load name => rfl
  | apply operation =>
      cases operation with
      | operator op => cases op <;> rfl
      | builtin function => cases function <;> rfl

end Instruction

namespace Program

/-- No number stands right behind another one in the marks of a program. -/
theorem isChain_marks (program : Program) : program.marks.IsChain Apart := by
  have hinstructions : ∀ piece ∈ program.instructions.map Instruction.marks,
      piece.IsChain Apart := by
    intro piece hpiece
    obtain ⟨instruction, -, rfl⟩ := List.mem_map.1 hpiece
    exact instruction.isChain_marks
  have hbody : ([Mark.comma].intercalate (program.instructions.map Instruction.marks) ++
      [Mark.closeBracket]).IsChain Apart :=
    isChain_append_cons rfl (isChain_intercalate hinstructions) .nil
  have hfront : List.IsChain Apart [] := .nil
  rw [marks, List.cons_append]
  exact isChain_append_cons rfl hfront hbody

/-- The marks of a program are read instruction by instruction. -/
theorem mapM_reread?_marks (program : Program) :
    program.marks.mapM (Mark.reread? readNumber) =
      (program.instructions.mapM fun instruction : Instruction =>
        instruction.marks.mapM (Mark.reread? readNumber)).map fun lists =>
          .openBracket :: [.comma].intercalate lists ++ [.closeBracket] := by
  rw [marks, List.cons_append, List.mapM_cons, List.mapM_append, mapM_reread?_intercalate,
    List.mapM_map]
  show _ = (program.instructions.mapM
    (List.mapM (Mark.reread? readNumber) ∘ Instruction.marks)).map _
  cases program.instructions.mapM (List.mapM (Mark.reread? readNumber) ∘ Instruction.marks) <;> rfl

/-- A program is restored instruction by instruction from the marks between brackets and commas. -/
theorem ofMarks?_intercalate {lists : List (List Mark)}
    (h : ∀ piece ∈ lists, piece ≠ [] ∧ .comma ∉ piece) :
    ofMarks? (.openBracket :: [.comma].intercalate lists ++ [.closeBracket]) =
      (lists.mapM Instruction.ofMarks?).map .mk := by
  rw [List.cons_append, ofMarks?, if_pos (by simp), List.dropLast_concat]
  by_cases hne : lists = []
  · subst hne
    rfl
  · have hbody : [Mark.comma].intercalate lists ≠ [] := by
      obtain ⟨piece, rest, rfl⟩ := List.exists_cons_of_ne_nil hne
      have hpiece := (h piece List.mem_cons_self).1
      cases rest with
      | nil => rwa [List.intercalate_singleton]
      | cons second rest => simp [List.intercalate_cons_cons]
    rw [instructions?, if_neg hbody, pieces_intercalate hne fun piece hpiece => (h piece hpiece).2]

/-- A program is restored instruction by instruction from its text. -/
theorem restoreWith?_store (program : Program) :
    restoreWith? readNumber program.store =
      (program.instructions.mapM (Instruction.reread? readNumber)).map .mk := by
  rw [restoreWith?, store, String.toList_ofList, scan_writeAll readNumber program.isChain_marks,
    mapM_reread?_marks, Option.bind_map]
  have hread := mapM_bind_mapM (f := fun instruction : Instruction =>
    instruction.marks.mapM (Mark.reread? readNumber)) (g := Instruction.ofMarks?)
    program.instructions
  simp only [Instruction.bind_ofMarks?] at hread
  rw [← hread]
  cases hlists : program.instructions.mapM fun instruction : Instruction =>
      instruction.marks.mapM (Mark.reread? readNumber) with
  | none => rfl
  | some lists =>
      rw [Option.bind_some, Option.bind_some]
      refine ofMarks?_intercalate fun piece hpiece => ?_
      obtain ⟨instruction, -, hread⟩ := exists_of_mem_mapM hlists hpiece
      exact Instruction.ne_nil_and_comma_notMem readNumber hread

/-- A program comes back from its text exactly if its numbers are finite and the text of each is
read as this number. -/
theorem restoreWith?_store_eq_some_iff (program : Program) :
    restoreWith? readNumber program.store = some program ↔
      ∀ value, .push value ∈ program.instructions →
        value.isFinite ∧ readNumber (stored.write value).toList = some value := by
  obtain ⟨instructions⟩ := program
  rw [restoreWith?_store]
  simp only [Option.map_eq_some_iff, mk.injEq, exists_eq_right, mapM_eq_some_self_iff]
  constructor
  · intro h value hmem
    exact (Instruction.reread?_push_eq_some_iff readNumber value).1 (h _ hmem)
  · intro h instruction hmem
    cases instruction with
    | push value => exact (Instruction.reread?_push_eq_some_iff readNumber value).2 (h value hmem)
    | _ => rfl

/-- A program with an infinite or undefined number does not come back, whatever the reader. -/
theorem restoreWith?_store_eq_none {program : Program} (h : ¬ program.IsFinite) :
    restoreWith? readNumber program.store = none := by
  obtain ⟨instruction, hmem, hinstruction⟩ :
      ∃ instruction ∈ program.instructions, ¬ instruction.isFinite := by
    simpa [IsFinite] using h
  rw [restoreWith?_store, mapM_eq_none hmem (Instruction.reread?_eq_none _ hinstruction)]
  rfl

/-- Which programs the reader of numbers in use gives back. -/
theorem restore?_store_eq_some_iff (program : Program) :
    restore? program.store = some program ↔
      ∀ value, .push value ∈ program.instructions →
        value.isFinite ∧ Number.read? (stored.write value).toList = some value :=
  restoreWith?_store_eq_some_iff Number.read? program

/-- The reader in use reads `1.602176634e-19` as the neighbour of the number that is written so. -/
example : let program : Program := ⟨[.push (Float.ofBits 0x3C07A4DA290C1653)]⟩
    program.store = "[\x7b\"Value\":1.602176634e-19\x7d]" ∧
      restore? program.store ≠ some program := by
  intro program
  refine ⟨by decide +kernel, fun h => ?_⟩
  have hread := ((restore?_store_eq_some_iff program).1 h _ List.mem_cons_self).2
  revert hread
  decide +kernel

/-- A reader of numbers that gives back every finite number from its text gives back every program
of finite numbers, and no other program. -/
theorem restoreWith?_store_of_reads
    (hread : ∀ value : Float, value.isFinite →
      readNumber (stored.write value).toList = some value) (program : Program) :
    restoreWith? readNumber program.store = if program.IsFinite then some program else none := by
  split
  · next hfinite =>
      refine (restoreWith?_store_eq_some_iff readNumber program).2 fun value hmem => ?_
      exact ⟨hfinite _ hmem, hread value (hfinite _ hmem)⟩
  · next hinfinite => exact restoreWith?_store_eq_none readNumber hinfinite

/-- A program with a negative zero, a number with an exponent and a name that needs escapes. The
reader of numerals gives back every finite number, and agrees with the reader in use on these. -/
theorem restoreWith?_store_of_reads_escapes :
    let readNumber := fun text => (Numeral.read (.ofList text)).toOption
    let program : Program := ⟨[.push (Float.ofBits 0x8000000000000000),
      .push (Float.ofBits 0x4480F0CF064DD592), .load "q\"\\\n\x01é", .apply (.operator .mul),
      .apply (.builtin .atan)]⟩
    let infinite : Program := ⟨[.load "x", .push (Float.ofBits 0x7FF0000000000000)]⟩
    (∀ value : Float, value.isFinite →
      readNumber (stored.write value).toList = some value) ∧
    (∀ instruction ∈ program.instructions, instruction.reread? readNumber =
      instruction.reread? Number.read?) ∧
    program.store = "[\x7b\"Value\":-0.0\x7d,\x7b\"Value\":1e+22\x7d," ++
      "\x7b\"Variable\":\"q\\\"\\\\\\n\\u0001é\"\x7d,\x7b\"Operator\":\"Mul\"\x7d," ++
      "\x7b\"Function\":\"Atan\"\x7d]" ∧
    restoreWith? readNumber program.store = some program ∧
    restoreWith? readNumber infinite.store = none := by
  intro readNumber program infinite
  have hread : ∀ value : Float, value.isFinite →
      readNumber (stored.write value).toList = some value := by
    intro value h
    simp only [readNumber, String.ofList_toList, Style.read_write Style.isReadable_stored h]
    rfl
  refine ⟨hread, by decide +kernel, by decide +kernel, ?_, ?_⟩
  · rw [restoreWith?_store_of_reads readNumber hread program, if_pos (by decide)]
  · rw [restoreWith?_store_of_reads readNumber hread infinite, if_neg (by decide)]

end Program

end Reckoner
