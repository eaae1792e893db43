import Reckoner.Proofs.Source.Cutting
import Reckoner.Proofs.Source.Nesting

/-!
# Parentheses among lexemes

The balance of a text is noted on its characters. Parentheses stand alone, hence it is the balance
that is noted on its lexemes, which is `scan_eq_foldl`. The parentheses that it holds are lexemes,
and there is one of them to blame whenever the counts differ (`IsSound`).
-/

namespace Reckoner

namespace Lexeme.IsProper

variable {lexeme : Lexeme}

/-- A parenthesis is a lexeme by itself. -/
theorem exists_parenthesis (h : lexeme.IsProper) (hcategory : lexeme.category = .parenthesis) :
    ∃ c, lexeme.text.toList = [c] ∧ (c = '(' ∨ c = ')') := by
  obtain ⟨c, tail, htext, -, hsingle⟩ := h.isRun
  have hc : Category.ofChar c = .parenthesis := by
    rw [h.ofChar_eq c (by simp [htext]), hcategory]
  rw [hsingle (by rw [hc]; rfl)] at htext
  exact ⟨c, htext, Token.eq_of_ofChar_parenthesis hc⟩

/-- A lexeme whose text is a parenthesis has this category. -/
theorem category_eq_parenthesis (h : lexeme.IsProper) {c : Char}
    (hc : Category.ofChar c = .parenthesis) (htext : lexeme.text = String.ofList [c]) :
    lexeme.category = .parenthesis :=
  (h.ofChar_eq c (by simp [htext])).symm.trans hc

end Lexeme.IsProper

namespace Balance

/-- The balance of two texts in a row. -/
theorem scan_append (balance : Balance) (position : Position) (first second : List Char) :
    balance.scan position (first ++ second) =
      (balance.scan position first).scan (position.after first) second := by
  induction first generalizing balance position with
  | nil => rfl
  | cons c rest ih => exact ih _ _

/-- Text without parentheses leaves the balance as it was. -/
theorem scan_of_forall_ne (balance : Balance) (position : Position) {text : List Char}
    (h : ∀ c ∈ text, Category.ofChar c ≠ .parenthesis) : balance.scan position text = balance := by
  induction text generalizing position with
  | nil => rfl
  | cons c rest ih =>
      have hc : c ≠ '(' ∧ c ≠ ')' := by
        constructor <;> rintro rfl <;> exact h _ List.mem_cons_self rfl
      rw [scan, note, if_neg hc.1, if_neg hc.2]
      exact ih _ fun d hd => h d (List.mem_cons_of_mem _ hd)

/-- Takes note of a lexeme. -/
def noteLexeme (balance : Balance) (lexeme : Lexeme) : Balance :=
  balance.scan lexeme.position lexeme.text.toList

/-- The balance of a text is that of its lexemes. -/
theorem scan_eq_foldl (balance : Balance) (position : Position) (text : List Char) :
    balance.scan position text = (Lexeme.scanFrom position text).foldl noteLexeme balance := by
  induction text using Category.runInduction generalizing balance position with
  | nil => simp [scan]
  | run c tail following hrun ih =>
      have hsame := (Category.extent_append_eq_left_iff.1 hrun).2.1
      rw [Lexeme.scanFrom_run position hrun, List.foldl_append, ← List.cons_append, scan_append, ih]
      congr 1
      unfold Lexeme.ofRun
      split
      · rename_i hblank
        refine scan_of_forall_ne _ _ fun d hd => ?_
        rcases List.mem_cons.1 hd with rfl | hd
        · rw [hblank]
          decide
        · rw [hsame d hd, hblank]
          decide
      · simp [noteLexeme]

/-- A proper lexeme is noted if it is a parenthesis, and changes nothing otherwise. -/
theorem noteLexeme_eq (balance : Balance) {lexeme : Lexeme} (h : lexeme.IsProper) :
    balance.noteLexeme lexeme =
      if lexeme.text = "(" then
        ⟨balance.depth + 1, lexeme.position :: balance.unanswered, balance.lastClose⟩
      else if lexeme.text = ")" then
        ⟨balance.depth - 1, balance.unanswered.tail, some lexeme.position⟩
      else balance := by
  by_cases hcategory : lexeme.category = .parenthesis
  · obtain ⟨c, htext, hc⟩ := h.exists_parenthesis hcategory
    have hone : lexeme.text = String.ofList [c] := by rw [← htext, String.ofList_toList]
    rcases hc with rfl | rfl <;> simp [noteLexeme, scan, note, hone]
  · rw [if_neg fun htext => hcategory (h.category_eq_parenthesis (c := '(') rfl htext),
      if_neg fun htext => hcategory (h.category_eq_parenthesis (c := ')') rfl htext)]
    exact balance.scan_of_forall_ne _ fun c hc => h.ofChar_eq c hc ▸ hcategory

/-- Nothing is to blame exactly if the counts agree. -/
theorem culprit?_eq_none_iff {balance : Balance} : balance.culprit? = none ↔ balance.depth = 0 := by
  unfold culprit?
  split
  · next hzero => simp [hzero]
  · next hne => split <;> simp [hne]

theorem culprit?_of_pos {balance : Balance} (h : 0 < balance.depth) :
    balance.culprit? = some (balance.unanswered.getLast?.getD .start) := by
  rw [culprit?, if_neg (Int.ne_of_gt h), if_pos h]

theorem culprit?_of_neg {balance : Balance} (h : balance.depth < 0) :
    balance.culprit? = some (balance.lastClose.getD .start) := by
  rw [culprit?, if_neg (Int.ne_of_lt h), if_neg (Int.not_lt.2 (Int.le_of_lt h))]

/-- The balance holds positions of parentheses among the lexemes, and enough of them to blame one
if the counts differ. -/
structure IsSound (lexemes : List Lexeme) (balance : Balance) : Prop where
  exists_unanswered : ∀ position ∈ balance.unanswered,
    ∃ lexeme ∈ lexemes, lexeme.category = .parenthesis ∧ lexeme.position = position
  exists_lastClose : ∀ position ∈ balance.lastClose,
    ∃ lexeme ∈ lexemes, lexeme.category = .parenthesis ∧ lexeme.position = position
  depth_le : balance.depth ≤ balance.unanswered.length
  isSome_lastClose : balance.depth < 0 → balance.lastClose.isSome

namespace IsSound

variable {lexemes : List Lexeme} {balance : Balance}

/-- A sound balance stays sound when it takes note of a lexeme. -/
theorem noteLexeme (h : IsSound lexemes balance) {lexeme : Lexeme} (hmem : lexeme ∈ lexemes)
    (hproper : lexeme.IsProper) : IsSound lexemes (balance.noteLexeme lexeme) := by
  rw [balance.noteLexeme_eq hproper]
  split
  · next hopening =>
      refine ⟨fun position hposition => ?_, h.exists_lastClose, ?_, fun hlt => ?_⟩
      · rcases List.mem_cons.1 hposition with rfl | hposition
        · exact ⟨lexeme, hmem, hproper.category_eq_parenthesis (c := '(') rfl hopening, rfl⟩
        · exact h.exists_unanswered position hposition
      · have hle := h.depth_le
        simp only [List.length_cons]
        omega
      · exact h.isSome_lastClose (by simp only at hlt; omega)
  · split
    · next hclosing =>
        refine ⟨fun position hposition => ?_, fun position hposition => ?_, ?_, fun _ => rfl⟩
        · exact h.exists_unanswered position (List.mem_of_mem_tail hposition)
        · cases hposition
          exact ⟨lexeme, hmem, hproper.category_eq_parenthesis (c := ')') rfl hclosing, rfl⟩
        · have hle := h.depth_le
          simp only [List.length_tail]
          omega
    · exact h

/-- The balance of lexemes is sound. -/
theorem foldl (h : IsSound lexemes balance) {rest : List Lexeme} (hrest : rest ⊆ lexemes)
    (hproper : ∀ lexeme ∈ lexemes, lexeme.IsProper) :
    IsSound lexemes (rest.foldl Balance.noteLexeme balance) := by
  induction rest generalizing balance with
  | nil => exact h
  | cons lexeme rest ih =>
      have hmem : lexeme ∈ lexemes := hrest List.mem_cons_self
      exact ih (h.noteLexeme hmem (hproper lexeme hmem)) (List.subset_of_cons_subset hrest)

/-- Nothing to be blamed is there at the start. -/
theorem empty (lexemes : List Lexeme) : IsSound lexemes .empty := by
  constructor <;> simp [Balance.empty]

/-- If there are more opening parentheses, one of them is unanswered. -/
theorem exists_getLast?_eq (h : IsSound lexemes balance) (hpos : 0 < balance.depth) :
    ∃ position, balance.unanswered.getLast? = some position := by
  refine Option.ne_none_iff_exists'.1 fun hnone => ?_
  have hle := h.depth_le
  rw [List.getLast?_eq_none_iff.1 hnone, List.length_nil] at hle
  omega

/-- If there are more closing parentheses, one of them is the last one. -/
theorem exists_lastClose_eq (h : IsSound lexemes balance) (hneg : balance.depth < 0) :
    ∃ position, balance.lastClose = some position :=
  Option.isSome_iff_exists.1 (h.isSome_lastClose hneg)

/-- The parenthesis to blame is one of those that are held. -/
theorem exists_of_culprit? (h : IsSound lexemes balance) {position : Position}
    (hculprit : balance.culprit? = some position) :
    ∃ lexeme ∈ lexemes, lexeme.category = .parenthesis ∧ lexeme.position = position := by
  rcases Int.lt_trichotomy balance.depth 0 with hneg | hzero | hpos
  · obtain ⟨last, hlast⟩ := h.exists_lastClose_eq hneg
    rw [culprit?_of_neg hneg, hlast] at hculprit
    cases hculprit
    exact h.exists_lastClose _ hlast
  · rw [culprit?_eq_none_iff.2 hzero] at hculprit
    cases hculprit
  · obtain ⟨last, hlast⟩ := h.exists_getLast?_eq hpos
    rw [culprit?_of_pos hpos, hlast] at hculprit
    cases hculprit
    exact h.exists_unanswered _ (List.mem_of_getLast? hlast)

end IsSound

end Balance

end Reckoner
