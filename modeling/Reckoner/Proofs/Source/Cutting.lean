import Mathlib.Data.List.Chain
import Reckoner.Proofs.Source.Border
import Reckoner.Proofs.Source.Patterns

/-!
# Cutting a text into runs

A cutting of a text is a list of pieces that make up the text, each a run of one category, with no
run crossing from one piece to the next. Every text has exactly one cutting (`exists_isCutting`,
`IsCutting.unique`), and the lexemes of the text are its pieces without those of white space, each
at the position that follows the pieces before it (`Lexeme.scanFrom_eq_ofPieces`). Hence every
lexeme is a proper one, and only white space is lost.
-/

namespace Reckoner

/-- A run: some characters of one category, and only one if they stand alone. -/
def IsRun (piece : List Char) : Prop :=
  ∃ c tail, piece = c :: tail ∧ (∀ d ∈ tail, Category.ofChar d = Category.ofChar c) ∧
    ((Category.ofChar c).isSingle → tail = [])

/-- The pieces are runs that make up the text, and none of them goes on in the next one. -/
structure IsCutting (text : List Char) (pieces : List (List Char)) : Prop where
  flatten_eq : pieces.flatten = text
  isRun : ∀ piece ∈ pieces, IsRun piece
  isChain : pieces.IsChain Separated

namespace IsCutting

/-- The first piece reaches as far as the characters of its category. -/
theorem extent_eq {text : List Char} {c : Char} {tail : List Char} {pieces : List (List Char)}
    (h : IsCutting text ((c :: tail) :: pieces)) :
    (Category.ofChar c).extent (tail ++ pieces.flatten) = tail := by
  obtain ⟨c', tail', heq, hsame, hsingle⟩ := h.isRun _ List.mem_cons_self
  obtain ⟨rfl, rfl⟩ := List.cons.inj heq
  refine Category.extent_append_eq_left_iff.2 ⟨hsingle, hsame, fun hmany d hd hcategory => ?_⟩
  cases pieces with
  | nil => simp at hd
  | cons next others =>
      obtain ⟨e, rest, rfl, -⟩ := h.isRun next (List.mem_cons_of_mem _ List.mem_cons_self)
      obtain rfl : e = d := by simpa using hd
      have hborder := (List.isChain_cons.1 h.isChain).1 _ rfl
      obtain ⟨last, hlast⟩ : ∃ last, last ∈ (c :: tail).getLast? :=
        Option.isSome_iff_exists.1 (by simp)
      have hlastCategory := Category.ofChar_of_mem_getLast? hsame hlast
      have hone := hborder last hlast e rfl (hlastCategory.trans hcategory.symm)
      exact hmany (hlastCategory ▸ hone)

/-- The pieces behind the first one are a cutting of the text behind it. -/
theorem tail {text piece : List Char} {pieces : List (List Char)}
    (h : IsCutting text (piece :: pieces)) : IsCutting pieces.flatten pieces where
  flatten_eq := rfl
  isRun := fun next hnext => h.isRun next (List.mem_cons_of_mem _ hnext)
  isChain := h.isChain.tail

/-- A text has one cutting at most. -/
theorem unique {text : List Char} {pieces others : List (List Char)} (h : IsCutting text pieces)
    (hothers : IsCutting text others) : pieces = others := by
  have hne : ∀ {piece : List Char} {rest : List (List Char)}, IsCutting [] (piece :: rest) →
      False := by
    intro piece rest hcut
    obtain ⟨c, tail, rfl, -⟩ := hcut.isRun piece List.mem_cons_self
    simpa using hcut.flatten_eq
  induction pieces generalizing text others with
  | nil =>
      obtain rfl : [] = text := h.flatten_eq
      cases others with
      | nil => rfl
      | cons other rest => exact (hne hothers).elim
  | cons piece pieces ih =>
      cases others with
      | nil =>
          obtain rfl : [] = text := hothers.flatten_eq
          exact (hne h).elim
      | cons other others =>
          obtain ⟨c, tail, rfl, -⟩ := h.isRun piece List.mem_cons_self
          obtain ⟨d, back, rfl, -⟩ := hothers.isRun other List.mem_cons_self
          have hflatten := h.flatten_eq.trans hothers.flatten_eq.symm
          simp only [List.flatten_cons, List.cons_append, List.cons.injEq] at hflatten
          obtain ⟨rfl, hrest⟩ := hflatten
          -- both first pieces are the first run of the same text
          have htail : tail = back := by rw [← h.extent_eq, hrest, hothers.extent_eq]
          subst htail
          have hfollowing := List.append_cancel_left hrest
          rw [ih h.tail (hfollowing ▸ hothers.tail)]

end IsCutting

/-- Every text has a cutting. -/
theorem exists_isCutting (text : List Char) : ∃ pieces, IsCutting text pieces := by
  induction text using Category.runInduction with
  | nil => exact ⟨[], rfl, by simp, .nil⟩
  | run c tail following hrun ih =>
      obtain ⟨pieces, rfl, hruns, hchain⟩ := ih
      obtain ⟨hsingle, hsame, -⟩ := Category.extent_append_eq_left_iff.1 hrun
      refine ⟨(c :: tail) :: pieces, rfl, ?_, List.isChain_cons.2 ⟨fun next hnext => ?_, hchain⟩⟩
      · intro piece hpiece
        rcases List.mem_cons.1 hpiece with rfl | hpiece
        · exact ⟨c, tail, rfl, hsame, hsingle⟩
        · exact hruns piece hpiece
      · obtain ⟨others, rfl⟩ := List.head?_eq_some_iff.1 hnext
        obtain ⟨d, back, rfl, -⟩ := hruns next List.mem_cons_self
        intro e he d' hd'
        exact Category.separated_of_extent hrun e he d' hd'

namespace Lexeme

/-- The lexeme of a piece, which white space has none of. -/
def ofPiece (position : Position) : List Char → List Lexeme
  | [] => []
  | c :: tail => ofRun position c tail

/-- The lexemes of pieces, the first of which stands at the given position. -/
def ofPieces (position : Position) : List (List Char) → List Lexeme
  | [] => []
  | piece :: rest => ofPiece position piece ++ ofPieces (position.after piece) rest

/-- A lexeme that is a run of characters of its category, which is not white space. -/
structure IsProper (lexeme : Lexeme) : Prop where
  isRun : IsRun lexeme.text.toList
  ofChar_eq : ∀ c ∈ lexeme.text.toList, Category.ofChar c = lexeme.category
  category_ne : lexeme.category ≠ .whitespace

/-- The lexemes of a text are those of its cutting. -/
theorem scanFrom_eq_ofPieces (position : Position) {text : List Char} {pieces : List (List Char)}
    (h : IsCutting text pieces) : scanFrom position text = ofPieces position pieces := by
  induction pieces generalizing position text with
  | nil =>
      obtain rfl : [] = text := h.flatten_eq
      exact scanFrom_nil position
  | cons piece pieces ih =>
      obtain ⟨c, tail, rfl, -⟩ := h.isRun piece List.mem_cons_self
      rw [← h.flatten_eq, List.flatten_cons, List.cons_append, scanFrom_run position h.extent_eq,
        ih _ h.tail]
      rfl

/-- The lexeme of a run is proper. -/
theorem isProper_of_mem_ofRun {position : Position} {c : Char} {tail following : List Char}
    {lexeme : Lexeme} (hrun : (Category.ofChar c).extent (tail ++ following) = tail)
    (h : lexeme ∈ ofRun position c tail) : lexeme.IsProper := by
  obtain ⟨hsingle, hsame, -⟩ := Category.extent_append_eq_left_iff.1 hrun
  unfold ofRun at h
  split at h
  · simp at h
  · rename_i hblank
    rw [List.mem_singleton.1 h]
    refine ⟨⟨c, tail, String.toList_ofList, hsame, hsingle⟩, fun d hd => ?_, hblank⟩
    rw [String.toList_ofList] at hd
    rcases List.mem_cons.1 hd with rfl | hd
    · rfl
    · exact hsame d hd

/-- The lexemes of a text are proper. -/
theorem isProper_of_mem_scanFrom {position : Position} {text : List Char} {lexeme : Lexeme}
    (h : lexeme ∈ scanFrom position text) : lexeme.IsProper := by
  induction text using Category.runInduction generalizing position with
  | nil => simp at h
  | run c tail following hrun ih =>
      rw [scanFrom_run position hrun, List.mem_append] at h
      rcases h with h | h
      · exact isProper_of_mem_ofRun hrun h
      · exact ih h

/-- The texts of the lexemes are the text without its white space. -/
theorem flatMap_text_scanFrom (position : Position) (text : List Char) :
    (scanFrom position text).flatMap (fun lexeme => lexeme.text.toList) =
      text.filter fun c => Category.ofChar c ≠ .whitespace := by
  induction text using Category.runInduction generalizing position with
  | nil => simp
  | run c tail following hrun ih =>
      obtain ⟨-, hsame, -⟩ := Category.extent_append_eq_left_iff.1 hrun
      rw [scanFrom_run position hrun, List.flatMap_append, ih, ← List.cons_append,
        List.filter_append]
      congr 1
      unfold ofRun
      split
      · rename_i hblank
        symm
        rw [List.flatMap_nil, List.filter_eq_nil_iff]
        intro d hd
        rcases List.mem_cons.1 hd with rfl | hd
        · simp [hblank]
        · simp [hsame d hd, hblank]
      · rename_i hblank
        symm
        rw [List.flatMap_singleton, String.toList_ofList, List.filter_eq_self]
        intro d hd
        rcases List.mem_cons.1 hd with rfl | hd
        · simp [hblank]
        · simp [hsame d hd, hblank]

/-- A text without lexemes is white space. -/
theorem scanFrom_eq_nil_iff (position : Position) {text : List Char} :
    scanFrom position text = [] ↔ ∀ c ∈ text, Category.ofChar c = .whitespace := by
  have hfilter : text.filter (fun c => Category.ofChar c ≠ .whitespace) = [] ↔
      ∀ c ∈ text, Category.ofChar c = .whitespace := by simp
  rw [← hfilter, ← flatMap_text_scanFrom position]
  constructor
  · intro h
    rw [h, List.flatMap_nil]
  · intro h
    cases hscan : scanFrom position text with
    | nil => rfl
    | cons lexeme rest =>
        have hproper : lexeme.IsProper :=
          isProper_of_mem_scanFrom (hscan ▸ List.mem_cons_self : lexeme ∈ scanFrom position text)
        obtain ⟨c, tail, htext, -⟩ := hproper.isRun
        simp [hscan, htext] at h

/-- Two neighbouring lexemes of a text have only white space between them, and they have some if
they are of one category whose characters do not stand alone. -/
theorem exists_gap {position : Position} {text : List Char} {first second : Lexeme}
    {front back : List Lexeme} (h : scanFrom position text = front ++ first :: second :: back) :
    ∃ before gap after,
      text = before ++ (first.text.toList ++ (gap ++ (second.text.toList ++ after))) ∧
      first.position = position.after before ∧
      second.position = position.after (before ++ first.text.toList ++ gap) ∧
      (∀ c ∈ gap, Category.ofChar c = .whitespace) ∧
      (first.category = second.category → ¬ first.category.isSingle → gap ≠ []) := by
  obtain ⟨before, rest, htext, hfirst, -, hrest, hborder⟩ := scanFrom_split h
  rw [← List.nil_append (second :: back)] at hrest
  obtain ⟨gap, after, rfl, hsecond, hgap, -⟩ := scanFrom_split hrest
  refine ⟨before, gap, after, htext, hfirst, ?_, (scanFrom_eq_nil_iff _).1 hgap, ?_⟩
  · rw [hsecond, ← Position.after_append]
  · rintro hsame hmany rfl
    have hproper : ∀ lexeme ∈ [first, second], lexeme.IsProper := by
      intro lexeme hmem
      have hscan : lexeme ∈ scanFrom position text := by
        rw [h]
        simp only [List.mem_cons, List.not_mem_nil, or_false] at hmem
        rcases hmem with rfl | rfl <;> simp
      exact isProper_of_mem_scanFrom hscan
    have hproperFirst := hproper first (by simp)
    have hproperSecond := hproper second (by simp)
    obtain ⟨c, tail, hc, -⟩ := hproperFirst.isRun
    obtain ⟨d, others, hd, -⟩ := hproperSecond.isRun
    obtain ⟨e, he⟩ : ∃ e, e ∈ first.text.toList.getLast? :=
      Option.isSome_iff_exists.1 (by simp [hc])
    have hlast := hproperFirst.ofChar_eq e (List.mem_of_getLast? he)
    have hnext := hproperSecond.ofChar_eq d (by simp [hd])
    have hone := hborder e he d (by simp [hd]) (by rw [hlast, hnext, hsame])
    exact hmany (hlast ▸ hone)

end Lexeme

end Reckoner
