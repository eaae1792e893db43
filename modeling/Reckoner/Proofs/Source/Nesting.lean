import Mathlib
import Reckoner.Proofs.Grammar.Phrase
import Reckoner.Proofs.Source.Kinds
import Reckoner.Token.Level

/-!
# Nesting of parentheses

The parentheses of a source text are counted on its characters, while the grammar pairs those among
its tokens. Both counts are the same for every text that has tokens, which is
`HasKinds.sum_nesting`, and the parentheses of an expression are as many closing as opening ones.
The count hence refuses no text whose tokens form an expression (`HasKinds.checkBalance`,
`SumPhrase.sum_nesting`).
-/

namespace Reckoner

namespace Balance

/-- What a character adds to the depth. -/
def nesting (c : Char) : Int := if c = '(' then 1 else if c = ')' then -1 else 0

/-- A character changes the depth by its nesting. -/
theorem depth_note (balance : Balance) (position : Position) (c : Char) :
    (balance.note position c).depth = balance.depth + nesting c := by
  unfold note nesting
  split
  · rfl
  · split
    · exact Int.sub_eq_add_neg
    · exact (Int.add_zero _).symm

/-- A text changes the depth by the nesting of its characters. -/
theorem depth_scan (balance : Balance) (position : Position) (text : List Char) :
    (balance.scan position text).depth = balance.depth + (text.map nesting).sum := by
  induction text generalizing balance position with
  | nil => exact (Int.add_zero _).symm
  | cons c rest ih =>
      rw [scan, ih, depth_note, List.map_cons, List.sum_cons, Int.add_assoc]

/-- Only parentheses change the depth. -/
theorem nesting_eq_zero {c : Char} (h : Category.ofChar c ≠ .parenthesis) : nesting c = 0 := by
  unfold nesting
  rw [if_neg, if_neg]
  all_goals rintro rfl; exact h rfl

end Balance

namespace Token

/-- The characters of the category of parentheses. -/
theorem eq_of_ofChar_parenthesis {c : Char} (h : Category.ofChar c = .parenthesis) :
    c = '(' ∨ c = ')' := by
  unfold Category.ofChar at h
  split at h
  · cases h
  split at h
  · cases h
  split at h
  · rename_i hparen
    simpa using hparen
  · repeat' split at h
    all_goals cases h

/-- Text that does not start with a parenthesis is no parenthesis. -/
theorem Kind.nesting_of_ofText {c : Char} {text : String} {kind : Kind}
    (hc : Category.ofChar c ≠ .parenthesis) (h : ofText c text = .ok kind) : kind.nesting = 0 := by
  unfold ofText at h
  repeat' split at h
  all_goals first | cases h; rfl | contradiction

/-- The characters of a run that is no parenthesis do not change the depth. -/
theorem sum_nesting_of_run {c : Char} {tail following : List Char}
    (hc : Category.ofChar c ≠ .parenthesis)
    (hrun : (Category.ofChar c).extent (tail ++ following) = tail) :
    ((c :: tail).map Balance.nesting).sum = 0 := by
  refine List.sum_eq_zero fun n hn => ?_
  obtain ⟨d, hd, rfl⟩ := List.mem_map.1 hn
  refine Balance.nesting_eq_zero ?_
  rcases List.mem_cons.1 hd with rfl | hmem
  · exact hc
  · rw [(Category.extent_append_eq_left_iff.1 hrun).2.1 d hmem]
    exact hc

/-- A lexeme changes the depth by the nesting of its characters. -/
theorem Kind.nesting_of_run {c : Char} {tail following : List Char} {kind : Kind}
    (hrun : (Category.ofChar c).extent (tail ++ following) = tail)
    (h : ofString (String.ofList (c :: tail)) = .ok kind) :
    kind.nesting = ((c :: tail).map Balance.nesting).sum := by
  unfold ofString at h
  rw [String.toList_ofList] at h
  by_cases hc : Category.ofChar c = .parenthesis
  · -- parentheses stand alone
    have htail : tail = [] := (Category.extent_append_eq_left_iff.1 hrun).1 (by rw [hc]; rfl)
    subst htail
    rcases eq_of_ofChar_parenthesis hc with rfl | rfl
    · cases h
      rfl
    · cases h
      rfl
  · rw [sum_nesting_of_run hc hrun]
    exact nesting_of_ofText hc h

/-- The tokens of a text change the depth by the nesting of its characters. -/
theorem HasKinds.sum_nesting {text : List Char} {kinds : List Kind} (h : HasKinds text kinds) :
    (kinds.map Kind.nesting).sum = (text.map Balance.nesting).sum := by
  induction text using Category.runInduction generalizing kinds with
  | nil =>
      rw [hasKinds_iff .start, Lexeme.scanFrom_nil, List.forall₂_nil_left_iff] at h
      rw [h]
      rfl
  | run c tail following hrun ih =>
      rw [hasKinds_iff .start, Lexeme.scanFrom_run _ hrun] at h
      rw [← List.cons_append, List.map_append, List.sum_append]
      unfold Lexeme.ofRun at h
      split at h
      · rename_i hblank
        rw [List.nil_append, ← hasKinds_iff] at h
        rw [ih h, sum_nesting_of_run (by rw [hblank]; decide) hrun, Int.zero_add]
      · rw [List.singleton_append] at h
        obtain ⟨kind, rest, hkind, hrest, rfl⟩ := List.forall₂_cons_left_iff.1 h
        rw [← hasKinds_iff] at hrest
        rw [List.map_cons, List.sum_cons, ih hrest, Kind.nesting_of_run hrun hkind]

/-- A source text balances if its tokens do. -/
theorem HasKinds.checkBalance {source : String} {kinds : List Kind}
    (h : HasKinds source.toList kinds) (hsum : (kinds.map Kind.nesting).sum = 0) :
    checkBalance source = .ok () := by
  have hdepth : (Balance.empty.scan .start source.toList).depth = 0 := by
    rw [Balance.depth_scan, ← h.sum_nesting, hsum]
    rfl
  unfold Reckoner.checkBalance unbalancedAt? Balance.culprit?
  rw [if_pos hdepth]

end Token

namespace Grammar

open Token (Kind)

mutual
/-- An expression leaves the depth as it was. -/
theorem SumPhrase.sum_nesting (phrase : SumPhrase) : (phrase.kinds.map Kind.nesting).sum = 0 := by
  match phrase with
  | .term product => exact product.sum_nesting
  | .signed _ _ product => simpa [SumPhrase.kinds, Kind.nesting] using product.sum_nesting
  | .step left _ _ right =>
      simp [SumPhrase.kinds, Kind.nesting, left.sum_nesting, right.sum_nesting]

/-- A term leaves the depth as it was. -/
theorem ProductPhrase.sum_nesting (phrase : ProductPhrase) :
    (phrase.kinds.map Kind.nesting).sum = 0 := by
  match phrase with
  | .factor factor => exact factor.sum_nesting
  | .step left _ _ right =>
      simp [ProductPhrase.kinds, Kind.nesting, left.sum_nesting, right.sum_nesting]

/-- A factor closes the parentheses that it opens. -/
theorem FactorPhrase.sum_nesting (phrase : FactorPhrase) :
    (phrase.kinds.map Kind.nesting).sum = 0 := by
  match phrase with
  | .number _ => rfl
  | .name _ => rfl
  | .group inner => simp [FactorPhrase.kinds, Kind.nesting, inner.sum_nesting]
  | .call _ earlier last _ =>
      simp [FactorPhrase.kinds, Kind.nesting, earlier.sum_nesting, last.sum_nesting]

/-- Arguments leave the depth as it was. -/
theorem ArgumentPhrases.sum_nesting {count : Nat} (phrases : ArgumentPhrases count) :
    (phrases.kinds.map Kind.nesting).sum = 0 := by
  match phrases with
  | .nil => rfl
  | .step earlier argument =>
      simp [ArgumentPhrases.kinds, Kind.nesting, earlier.sum_nesting, argument.sum_nesting]
end

end Grammar

end Reckoner
