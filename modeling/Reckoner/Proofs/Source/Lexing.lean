import Reckoner.Proofs.Fallible
import Reckoner.Proofs.Source.Cutting
import Reckoner.Source.Reading

/-!
# Reading by patterns

Reading a source text by its lexical patterns never fails and finds the runs of the text at their
positions. Read `readFrom_eq` first: the byte offset and the start of the row are always those of a
part of the source, so that the column that is computed from them is the one that a scan over the
characters counts. `ofSource_isCutting` puts everything together that is true of the lexemes of a
text.
-/

namespace Reckoner

namespace Position

/-- Without newlines only the column grows. -/
theorem after_of_not_newline (position : Position) {text : List Char} (h : '\n' ∉ text) :
    position.after text = ⟨position.column + text.length, position.row⟩ := by
  induction text generalizing position with
  | nil => rfl
  | cons c rest ih =>
      have hc : c ≠ '\n' := fun hc => h (hc ▸ List.mem_cons_self)
      have hrest : '\n' ∉ rest := fun hrest => h (List.mem_cons_of_mem _ hrest)
      rw [after_cons, ih _ hrest, next, if_neg hc, List.length_cons]
      simp only [mk.injEq, and_true]
      omega

end Position

namespace Lexeme

/-- A character of white space is skipped. -/
theorem scanFrom_cons_whitespace (position : Position) {c : Char} {text : List Char}
    (h : Category.ofChar c = .whitespace) :
    scanFrom position (c :: text) = scanFrom (position.next c) text := by
  induction text generalizing position c with
  | nil =>
      have hrun : (Category.ofChar c).extent ([] ++ []) = [] := by rw [h]; rfl
      rw [← List.nil_append [], scanFrom_run position hrun, ofRun, if_pos h]
      rfl
  | cons d rest ih =>
      by_cases hd : Category.ofChar d = .whitespace
      · -- the run of the white space behind is one shorter
        have hlong : (Category.ofChar c).extent (d :: rest) =
            d :: (Category.ofChar d).extent rest := by
          rw [h, hd, Category.extent, Category.extent, List.takeWhile_cons, hd]
          rfl
        rw [scanFrom, scanFrom, hlong, if_pos h, if_pos hd]
        rfl
      · have hshort : (Category.ofChar c).extent (d :: rest) = [] := by
          rw [h, Category.extent, List.takeWhile_cons]
          simp [hd, Category.isSingle]
        rw [scanFrom, hshort, if_pos h]
        rfl

/-- White space is skipped. -/
theorem scanFrom_append_whitespace (position : Position) {blanks text : List Char}
    (h : ∀ c ∈ blanks, Category.ofChar c = .whitespace) :
    scanFrom position (blanks ++ text) = scanFrom (position.after blanks) text := by
  induction blanks generalizing position with
  | nil => rfl
  | cons c rest ih =>
      rw [List.cons_append, scanFrom_cons_whitespace position (h c List.mem_cons_self),
        ih _ fun d hd => h d (List.mem_cons_of_mem _ hd)]
      rfl

open Text (byteCount slice_byteCount)

/-- Reading goes on behind the start of a row and a part of this row, and finds the lexemes of what
is left at their positions. -/
theorem readFrom_eq (front line text : List Char) (row : Nat) (h : '\n' ∉ line) :
    readFrom (front ++ (line ++ text)) ⟨row, byteCount front⟩
        (byteCount front + byteCount line) text =
      .ok (scanFrom ⟨line.length + 1, row⟩ text) := by
  match text with
  | [] => rw [readFrom, scanFrom_nil]
  | c :: rest =>
      obtain ⟨matching, hmatching, hcontains⟩ := Pattern.exists_contains c
      obtain ⟨⟨pattern, tail⟩, hbest⟩ := Pattern.exists_longest? rest hmatching hcontains
      obtain ⟨hmem, htail⟩ := Pattern.mem_of_longest? hbest
      have hposition : Row.position ⟨row, byteCount front⟩ (front ++ (line ++ c :: rest))
          (byteCount front + byteCount line) = ⟨line.length + 1, row⟩ := by
        rw [Row.position, slice_byteCount]
      -- a part of the row that is read without a newline belongs to the line
      have hline : ∀ {following : List Char}, rest = tail ++ following → '\n' ∉ c :: tail →
          readFrom (front ++ (line ++ c :: rest)) ⟨row, byteCount front⟩
              (byteCount front + byteCount line + byteCount (c :: tail)) following =
            .ok (scanFrom (Position.after ⟨line.length + 1, row⟩ (c :: tail)) following) := by
        intro following hrest hnewline
        have hlong : '\n' ∉ line ++ c :: tail := by simp_all
        have hread := readFrom_eq front _ following row hlong
        rw [Position.after_of_not_newline _ hnewline]
        simpa [hrest, Nat.add_assoc, Nat.add_comm, Nat.add_left_comm] using hread
      rw [readFrom, hbest]
      cases heffect : pattern.effect with
      | emit =>
          obtain ⟨hcategory, hblank, rfl⟩ := Pattern.eq_extent_of_emit hmem heffect htail
          have hrest := Category.extent_append_drop (Category.ofChar c) rest
          have hnewline : '\n' ∉ c :: (Category.ofChar c).extent rest := by
            intro hmem
            rcases List.mem_cons.1 hmem with rfl | hmem
            · exact hblank rfl
            · exact hblank (Category.ofChar_of_mem_extent hmem).symm
          simp only [heffect, hposition, hline hrest.symm hnewline, ok_bind]
          rw [scanFrom, if_neg hblank, hcategory]
      | skip =>
          obtain ⟨⟨following, rfl⟩, hblank⟩ := Pattern.isBlank_of_skip hmem heffect htail
          have hnewline : '\n' ∉ c :: tail := fun hmem => (hblank _ hmem).2 rfl
          simp only [heffect, List.drop_left, hline rfl hnewline]
          rw [← List.cons_append, scanFrom_append_whitespace _ fun d hd => (hblank d hd).1]
      | startRow =>
          obtain ⟨rfl, rfl⟩ := Pattern.eq_newline_of_startRow hmem heffect htail
          have hread := readFrom_eq (front ++ (line ++ ['\n'])) [] rest (row + 1)
            List.not_mem_nil
          rw [scanFrom_cons_whitespace _ rfl]
          simpa [heffect, Position.next, Nat.add_assoc] using hread
  termination_by text.length
  decreasing_by
    · simp only [hrest, List.length_append, List.length_cons]; omega
    · simp

/-- Reading a source text never fails and finds the lexemes that a scan of its characters does. -/
@[simp]
theorem ofSource_eq_scan (source : String) : ofSource source = .ok (scan source) :=
  readFrom_eq [] [] source.toList 1 List.not_mem_nil

/-- The lexemes of a source text are the pieces of its only cutting without those of white space,
each at the position that a scan of the characters before it reaches. Their texts make up the source
without tabs, spaces and newlines, their characters are of their categories, and white space stands
between two neighbours that are both letters or both numbers. -/
theorem ofSource_isCutting (source : String) :
    ∃ lexemes pieces, ofSource source = .ok lexemes ∧ IsCutting source.toList pieces ∧
      (∀ others, IsCutting source.toList others → others = pieces) ∧
      lexemes = ofPieces .start pieces ∧
      lexemes.flatMap (fun lexeme => lexeme.text.toList) =
        source.toList.filter (fun c => c ∉ ['\t', ' ', '\n']) ∧
      (∀ lexeme ∈ lexemes, lexeme.text.toList ≠ [] ∧ lexeme.category ≠ .whitespace ∧
        ∀ c ∈ lexeme.text.toList, Category.ofChar c = lexeme.category) ∧
      (∀ front lexeme back, lexemes = front ++ lexeme :: back → ∃ before after,
        source.toList = before ++ (lexeme.text.toList ++ after) ∧
        lexeme.position = Position.start.after before ∧
        front.flatMap (fun earlier => earlier.text.toList) =
          before.filter (fun c => c ∉ ['\t', ' ', '\n'])) ∧
      ∀ front first second back, lexemes = front ++ first :: second :: back →
        first.category = second.category →
        first.category = .letter ∨ first.category = .number → ∃ before gap after,
          source.toList =
            before ++ (first.text.toList ++ (gap ++ (second.text.toList ++ after))) ∧
          first.position = Position.start.after before ∧
          second.position = Position.start.after (before ++ first.text.toList ++ gap) ∧
          gap ≠ [] ∧ ∀ c ∈ gap, c ∈ ['\t', ' ', '\n'] := by
  obtain ⟨pieces, hcutting⟩ := exists_isCutting source.toList
  have hblank : ∀ c, c ∈ ['\t', ' ', '\n'] ↔ Category.ofChar c = .whitespace := by
    intro c
    rw [Category.ofChar_eq_whitespace_iff]
    simp
  have htexts : ∀ position text, (scanFrom position text).flatMap (fun l => l.text.toList) =
      text.filter (fun c => c ∉ ['\t', ' ', '\n']) := by
    intro position text
    simp only [flatMap_text_scanFrom, hblank]
  refine ⟨scan source, pieces, ofSource_eq_scan source, hcutting, ?_,
    scanFrom_eq_ofPieces .start hcutting, htexts .start _, ?_, ?_, ?_⟩
  · intro others hothers
    exact hothers.unique hcutting
  · intro lexeme hlexeme
    have hproper : lexeme.IsProper := isProper_of_mem_scanFrom hlexeme
    obtain ⟨c, tail, htext, -⟩ := hproper.isRun
    exact ⟨htext ▸ List.cons_ne_nil c tail, hproper.category_ne, hproper.ofChar_eq⟩
  · intro front lexeme back h
    obtain ⟨before, after, hsource, hposition, hfront, -⟩ := scanFrom_split h
    exact ⟨before, after, hsource, hposition, by rw [← hfront, htexts]⟩
  · intro front first second back h hsame hcategory
    obtain ⟨before, gap, after, hsource, hfirst, hsecond, hgap, hne⟩ := exists_gap h
    have hmany : ¬ first.category.isSingle := by
      rcases hcategory with hcategory | hcategory <;> rw [hcategory] <;> decide
    exact ⟨before, gap, after, hsource, hfirst, hsecond, hne hsame hmany,
      fun c hc => (hblank c).2 (hgap c hc)⟩

end Lexeme

end Reckoner
