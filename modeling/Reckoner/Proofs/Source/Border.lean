import Reckoner.Source.Lexeme

/-!
# Borders in a source text

A text can be cut in two at a border that no run of characters crosses: the lexemes of the whole are
those of the first part and then those of the second, which is `scanFrom_append`. Conversely
`scanFrom_split` finds the text before and behind a lexeme. Both are inductions on the runs of the
text. Positions only grow along a text, hence they identify its places (`after_inj`).
-/

namespace Reckoner

namespace Position

/-- Does a position come before another one in the order of reading? -/
def Precedes (first second : Position) : Prop :=
  first.row < second.row ∨ first.row = second.row ∧ first.column < second.column

/-- The order of reading is transitive. -/
theorem Precedes.trans {first second third : Position} (h : first.Precedes second)
    (h' : second.Precedes third) : first.Precedes third := by
  unfold Precedes at *
  omega

/-- A character stands before what follows it. -/
theorem precedes_next (position : Position) (c : Char) : position.Precedes (position.next c) := by
  unfold next
  split
  · exact .inl (Nat.lt_succ_self _)
  · exact .inr ⟨rfl, Nat.lt_succ_self _⟩

/-- A text stands before what follows it. -/
theorem precedes_after (position : Position) {text : List Char} (h : text ≠ []) :
    position.Precedes (position.after text) := by
  induction text generalizing position with
  | nil => exact absurd rfl h
  | cons c rest ih =>
      cases rest with
      | nil => exact position.precedes_next c
      | cons d rest => exact (position.precedes_next c).trans (ih _ (List.cons_ne_nil d rest))

/-- Two beginnings of a text are the same if the same position follows them. -/
theorem after_inj (position : Position) {first second firstRest secondRest : List Char}
    (htext : first ++ firstRest = second ++ secondRest)
    (hafter : position.after first = position.after second) : first = second := by
  have hirrefl : ∀ rest : List Char, ∀ start : Position, start = start.after rest → rest = [] := by
    intro rest start hstart
    by_cases hrest : rest = []
    · exact hrest
    · have hlt := start.precedes_after hrest
      rw [← hstart] at hlt
      unfold Precedes at hlt
      omega
  rcases List.append_eq_append_iff.1 htext with ⟨rest, rfl, -⟩ | ⟨rest, rfl, -⟩
  · rw [after_append] at hafter
    rw [hirrefl rest _ hafter, List.append_nil]
  · rw [after_append] at hafter
    rw [hirrefl rest _ hafter.symm, List.append_nil]

end Position

/-- No run of characters crosses the border between two texts. -/
def Separated (first second : List Char) : Prop :=
  ∀ c ∈ first.getLast?, ∀ d ∈ second.head?,
    Category.ofChar c = Category.ofChar d → (Category.ofChar c).isSingle

/-- A character that stands alone makes a border behind any text. -/
theorem separated_cons {first second : List Char} {d : Char}
    (h : (Category.ofChar d).isSingle) : Separated first (d :: second) := by
  intro c _ e he hsame
  cases he
  rw [hsame, h]

/-- A border depends on the end of the first text only. -/
theorem Separated.of_append {front first second : List Char}
    (h : Separated (front ++ first) second) : Separated first second := by
  intro c hc
  refine h c ?_
  rw [Option.mem_def] at hc ⊢
  rw [List.getLast?_append, hc]
  rfl

namespace Category

/-- Where the extent of a category ends. -/
theorem extent_append_eq_left_iff {category : Category} {tail following : List Char} :
    category.extent (tail ++ following) = tail ↔
      (category.isSingle → tail = []) ∧ (∀ e ∈ tail, ofChar e = category) ∧
        (¬ category.isSingle → ∀ d ∈ following.head?, ofChar d ≠ category) := by
  unfold extent
  split
  · rename_i hsingle
    constructor
    · rintro rfl
      simp [hsingle]
    · exact fun h => (h.1 hsingle).symm
  · rename_i hsingle
    induction tail with
    | nil => cases following <;> simp [hsingle, List.takeWhile_cons]
    | cons e tail ih => by_cases he : ofChar e = category <;> simp_all

/-- A text consists of runs. -/
@[elab_as_elim]
theorem runInduction {motive : List Char → Prop} (nil : motive [])
    (run : ∀ c tail following, (ofChar c).extent (tail ++ following) = tail → motive following →
      motive (c :: (tail ++ following))) (text : List Char) : motive text := by
  match text with
  | [] => exact nil
  | c :: rest =>
      have hrest := extent_append_drop (ofChar c) rest
      have hfollowing := runInduction nil run (rest.drop ((ofChar c).extent rest).length)
      rw [← hrest]
      exact run c _ _ (by rw [hrest]) hfollowing
  termination_by text.length

/-- A run stays the same if the text behind it ends earlier. -/
theorem extent_of_append {category : Category} {tail following back : List Char}
    (hrun : category.extent (tail ++ (following ++ back)) = tail) :
    category.extent (tail ++ following) = tail := by
  rw [extent_append_eq_left_iff] at *
  refine ⟨hrun.1, hrun.2.1, fun hsingle d hd => hrun.2.2 hsingle d ?_⟩
  rw [Option.mem_def] at *
  rw [List.head?_append, hd]
  rfl

/-- The last character of a run is of the category of the first one. -/
theorem ofChar_of_mem_getLast? {c e : Char} {tail : List Char}
    (htail : ∀ d ∈ tail, ofChar d = ofChar c) (he : e ∈ (c :: tail).getLast?) :
    ofChar e = ofChar c := by
  rcases List.mem_cons.1 (List.mem_of_getLast? he) with rfl | hmem
  · rfl
  · exact htail e hmem

/-- A run ends at a border. -/
theorem separated_of_extent {c : Char} {tail following : List Char}
    (hrun : (ofChar c).extent (tail ++ following) = tail) : Separated (c :: tail) following := by
  obtain ⟨-, hsame, hends⟩ := extent_append_eq_left_iff.1 hrun
  intro e he d hd heq
  rw [ofChar_of_mem_getLast? hsame he] at heq ⊢
  exact Decidable.byContradiction fun hsingle => hends hsingle d hd heq.symm

/-- A run stays the same if a border follows. -/
theorem extent_append {c : Char} {tail following second : List Char}
    (hrun : (ofChar c).extent (tail ++ following) = tail)
    (h : Separated (c :: (tail ++ following)) second) :
    (ofChar c).extent (tail ++ (following ++ second)) = tail := by
  rw [extent_append_eq_left_iff] at *
  obtain ⟨hlone, hsame, hends⟩ := hrun
  refine ⟨hlone, hsame, fun hsingle d hd hd' => ?_⟩
  cases following with
  | cons _ _ => exact hends hsingle d hd hd'
  | nil =>
      -- the run reaches up to the border, so that its last character decides
      obtain ⟨e, he⟩ : ∃ e, e ∈ (c :: tail).getLast? := Option.isSome_iff_exists.1 (by simp)
      rw [← ofChar_of_mem_getLast? hsame he] at hsingle hd'
      rw [List.append_nil] at h
      exact hsingle (h e he d hd hd'.symm)

end Category

namespace Lexeme

/-- The lexemes of a text without characters. -/
@[simp]
theorem scanFrom_nil (position : Position) : scanFrom position [] = [] := by
  rw [scanFrom]

/-- The lexeme of a run of characters, which white space has none of. -/
def ofRun (position : Position) (c : Char) (tail : List Char) : List Lexeme :=
  if Category.ofChar c = .whitespace then []
  else [⟨String.ofList (c :: tail), Category.ofChar c, position⟩]

/-- The lexeme of the first run of a text and the lexemes behind it. -/
theorem scanFrom_run (position : Position) {c : Char} {tail following : List Char}
    (hrun : (Category.ofChar c).extent (tail ++ following) = tail) :
    scanFrom position (c :: (tail ++ following)) =
      ofRun position c tail ++ scanFrom (position.after (c :: tail)) following := by
  rw [scanFrom, hrun, List.drop_left, ofRun]
  split <;> rfl

/-- The lexemes of two texts in a row. -/
theorem scanFrom_append (position : Position) {first second : List Char}
    (h : Separated first second) :
    scanFrom position (first ++ second) =
      scanFrom position first ++ scanFrom (position.after first) second := by
  induction first using Category.runInduction generalizing position with
  | nil => simp
  | run c tail following hrun ih =>
      have hwhole : Separated ((c :: tail) ++ following) second := h
      rw [List.cons_append, List.append_assoc,
        scanFrom_run position (Category.extent_append hrun h), ih _ hwhole.of_append,
        scanFrom_run position hrun, List.append_assoc, ← Position.after_append, List.cons_append]

/-- A lexeme of a text is that of the first run or stands behind it. -/
theorem ofRun_append_eq {position : Position} {c : Char} {tail : List Char} {lexeme : Lexeme}
    {following front back : List Lexeme}
    (h : ofRun position c tail ++ following = front ++ lexeme :: back) :
    (∃ rest, front = ofRun position c tail ++ rest ∧ following = rest ++ lexeme :: back) ∨
      front = [] ∧ lexeme = ⟨String.ofList (c :: tail), Category.ofChar c, position⟩ ∧
        following = back := by
  unfold ofRun at *
  split at h
  · rename_i hblank
    rw [if_pos hblank]
    exact .inl ⟨front, rfl, h⟩
  · rename_i hblank
    rw [if_neg hblank]
    rcases List.cons_eq_append_iff.1 h with ⟨hfront, hback⟩ | ⟨rest, hfront, hrest⟩
    · obtain ⟨hlexeme, hback⟩ := List.cons.inj hback
      exact .inr ⟨hfront, hlexeme, hback.symm⟩
    · exact .inl ⟨rest, hfront, hrest⟩

/-- Every lexeme of a text stands between the texts of the lexemes before and behind it, and ends at
a border. -/
theorem scanFrom_split {position : Position} {text : List Char} {lexeme : Lexeme}
    {front back : List Lexeme} (h : scanFrom position text = front ++ lexeme :: back) :
    ∃ before after, text = before ++ (lexeme.text.toList ++ after) ∧
      lexeme.position = position.after before ∧ scanFrom position before = front ∧
        scanFrom (position.after (before ++ lexeme.text.toList)) after = back ∧
          Separated lexeme.text.toList after := by
  induction text using Category.runInduction generalizing position front with
  | nil => simp at h
  | run c tail following hrun ih =>
      rw [scanFrom_run position hrun] at h
      rcases ofRun_append_eq h with ⟨rest, rfl, hrest⟩ | ⟨rfl, rfl, hback⟩
      · obtain ⟨before, after, rfl, hposition, hbefore, hafter, hborder⟩ := ih hrest
        refine ⟨c :: (tail ++ before), after, by simp, ?_, ?_, ?_, hborder⟩
        · rw [hposition, ← Position.after_append, List.cons_append]
        · rw [scanFrom_run position (Category.extent_of_append hrun), hbefore]
        · rw [← hafter, ← Position.after_append]
          simp
      · refine ⟨[], following, by simp, rfl, scanFrom_nil position, ?_, ?_⟩
        · rw [List.nil_append, String.toList_ofList]
          exact hback
        · rw [String.toList_ofList]
          exact Category.separated_of_extent hrun

/-- The lexemes of a text stand one behind the other. -/
theorem pairwise_precedes (position : Position) (text : List Char) :
    (scanFrom position text).Pairwise fun first second =>
      first.position.Precedes second.position := by
  induction text using Category.runInduction generalizing position with
  | nil => simp
  | run c tail following hrun ih =>
      rw [scanFrom_run position hrun, List.pairwise_append]
      refine ⟨?_, ih _, ?_⟩
      · unfold ofRun
        split
        · exact .nil
        · exact List.pairwise_singleton _ _
      · intro first hfirst second hsecond
        obtain ⟨front, back, hscan⟩ := List.append_of_mem hsecond
        obtain ⟨before, -, -, hposition, -⟩ := scanFrom_split hscan
        have hstart : first.position = position := by
          unfold ofRun at hfirst
          split at hfirst
          · cases hfirst
          · rw [List.mem_singleton.1 hfirst]
        rw [hstart, hposition, ← Position.after_append]
        exact position.precedes_after (List.cons_ne_nil c _)

/-- The texts of the lexemes do not depend on the position of the text. -/
theorem map_text_scanFrom (first second : Position) (text : List Char) :
    (scanFrom first text).map Lexeme.text = (scanFrom second text).map Lexeme.text := by
  induction text using Category.runInduction generalizing first second with
  | nil => simp
  | run c tail following hrun ih =>
      have hfirst : (ofRun first c tail).map Lexeme.text =
          (ofRun second c tail).map Lexeme.text := by
        unfold ofRun
        split <;> rfl
      rw [scanFrom_run first hrun, scanFrom_run second hrun, List.map_append, List.map_append,
        hfirst, ih]

end Lexeme

end Reckoner
