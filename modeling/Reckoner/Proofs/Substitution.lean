import Reckoner.Proofs.Compilation
import Reckoner.Proofs.Grammar.Names

/-!
# Substitution in a source text

An expression in parentheses can stand for a name in a source text. Its tokens neither run into
those around it nor change how they are read, so that its program takes the place of the instruction
that loads the name, which is `compile_substitute`.
-/

namespace Reckoner.Grammar

open Token (HasKinds Kind)

/-- The token kinds of the source text before and behind a name. -/
theorem hasKinds_of_ofSource_name {before name after : String} {left right : List Token}
    (h : Token.ofSource (before ++ name ++ after) =
      .ok (left ++ ⟨.name name, Position.start.after before.toList⟩ :: right)) :
    HasKinds before.toList (left.map Token.kind) ∧
      HasKinds after.toList (right.map Token.kind) := by
  obtain ⟨front, text, back, hsource, hname, hposition, hfront, hback⟩ :=
    Token.exists_of_ofSource h
  obtain rfl := Kind.eq_of_ofString_name hname
  rw [String.toList_append, String.toList_append, List.append_assoc] at hsource
  have hsame : before.toList = front := Position.start.after_inj hsource hposition
  rw [hsame] at hsource
  rw [hsame, List.append_cancel_left (List.append_cancel_left hsource)]
  exact ⟨hfront, hback⟩

/-- A compilable text in parentheses can stand for a name anywhere in a compilable text. Its
instructions take the place of the one that loads this name, which comes after those that load the
names of the tokens to the left, and all other instructions stay the same. The parentheses alone
change nothing. -/
theorem compile_substitute {inserted : String} {program : Program}
    (h : Program.compile inserted = .ok program) :
    (∀ (before name after : String) (whole : Program) (left right : List Token),
      Program.compile (before ++ name ++ after) = .ok whole →
      Token.ofSource (before ++ name ++ after) =
        .ok (left ++ ⟨.name name, Position.start.after before.toList⟩ :: right) →
      ∃ first last, whole.instructions = first ++ .load name :: last ∧
        first.filterMap Instruction.name? = left.filterMap (fun token => token.kind.name?) ∧
        Program.compile (before ++ "(" ++ inserted ++ ")" ++ after) =
          .ok ⟨first ++ program.instructions ++ last⟩) ∧
    Program.compile ("(" ++ inserted ++ ")") = .ok program := by
  obtain ⟨kinds, inner, hkinds, hinner, rfl⟩ := compile_iff_isSum.1 h
  have hgroup : IsFactor (.openParen :: kinds ++ [.closeParen]) inner := .group hinner
  constructor
  · intro before name after whole left right hwhole hsource
    obtain ⟨hbefore, hafter⟩ := hasKinds_of_ofSource_name hsource
    obtain ⟨wholeKinds, outer, hwholeKinds, houter, rfl⟩ := compile_iff_isSum.1 hwhole
    obtain rfl := hwholeKinds.unique (Token.hasKinds_of_ofSource hsource)
    rw [List.map_append, List.map_cons] at houter
    obtain ⟨result, hresult, first, last, hcode, hreplaced, hnames⟩ :=
      houter.replace hgroup rfl
    refine ⟨first, last, hcode, ?_, compile_iff_isSum.2 ⟨_, result, ?_, hresult, ?_⟩⟩
    · rw [hnames, List.filterMap_map]
      rfl
    · have htext := hbefore.append (hkinds.parenthesized hafter) (separated_cons rfl)
      simpa using htext
    · rw [hreplaced]
  · refine compile_iff_isSum.2 ⟨_, inner, ?_, .single (.single hgroup), rfl⟩
    have htext := hkinds.parenthesized Token.hasKinds_nil
    simpa using htext

/-- In `a*x-x` a difference can stand for the first `x`. -/
theorem compile_substitute_difference :
    let program : Program := ⟨[.push Binary64.negativeZero, .load "y",
      .apply (.operator .sub), .load "z", .apply (.operator .sub)]⟩
    let whole : Program := ⟨[.load "a", .load "x", .apply (.operator .mul), .load "x",
      .apply (.operator .sub)]⟩
    let left : List Token := [⟨.name "a", ⟨1, 1⟩⟩, ⟨.operator .mul, ⟨2, 1⟩⟩]
    let right : List Token := [⟨.operator .sub, ⟨4, 1⟩⟩, ⟨.name "x", ⟨5, 1⟩⟩]
    Program.compile "-y-z" = .ok program ∧ Program.compile ("a*" ++ "x" ++ "-x") = .ok whole ∧
      Token.ofSource ("a*" ++ "x" ++ "-x") =
        .ok (left ++ ⟨.name "x", Position.start.after "a*".toList⟩ :: right) ∧
      (∃ first last, whole.instructions = first ++ .load "x" :: last ∧
        first.filterMap Instruction.name? = ["a"] ∧
        Program.compile ("a*" ++ "(" ++ "-y-z" ++ ")" ++ "-x") =
          .ok ⟨first ++ program.instructions ++ last⟩) ∧
      Program.compile ("(" ++ "-y-z" ++ ")") = .ok program := by
  intro program whole left right
  have hinserted : Program.compile "-y-z" = .ok program := by cbv
  have hwhole : Program.compile ("a*" ++ "x" ++ "-x") = .ok whole := by cbv
  have hsource : Token.ofSource ("a*" ++ "x" ++ "-x") =
      .ok (left ++ ⟨.name "x", Position.start.after "a*".toList⟩ :: right) := by cbv
  obtain ⟨hreplace, hgroup⟩ := compile_substitute hinserted
  exact ⟨hinserted, hwhole, hsource, hreplace _ _ _ whole left right hwhole hsource, hgroup⟩

end Reckoner.Grammar
