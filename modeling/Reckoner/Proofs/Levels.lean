import Mathlib.Data.List.Infix
import Mathlib.Data.List.Induction
import Mathlib.Tactic.Common
import Reckoner.Token.Level

/-!
# Nesting and levels

What properly nested parentheses say about the levels of a token sequence. A place in a sequence
lies in one level only (`IsNested.unique`), the parenthesis that ends a level exists
(`exists_closing`), and a pair of parentheses changes the names that wait by one, whatever it holds
(`IsNested.waiting_group`).
-/

namespace Reckoner.Token

variable {tokens level inner rest : List Token} {token opening closing : Token}

@[simp]
theorem depth_nil : depth [] = 0 := rfl

@[simp]
theorem depth_cons (token : Token) (rest : List Token) :
    depth (token :: rest) = token.kind.nesting + depth rest := rfl

@[simp]
theorem depth_append (first second : List Token) :
    depth (first ++ second) = depth first + depth second := by
  induction first with
  | nil => simp
  | cons token rest ih => rw [List.cons_append, depth_cons, depth_cons, ih, Int.add_assoc]

/-- A token changes the depth by one at most. -/
theorem neg_one_le_nesting (kind : Kind) : -1 ≤ kind.nesting := by
  cases kind <;> simp [Kind.nesting]

/-- Only a closing parenthesis takes depth away. -/
theorem eq_closeParen_of_nesting {kind : Kind} (h : kind.nesting < 0) : kind = .closeParen := by
  cases kind <;> simp [Kind.nesting] at h ⊢

/-- The depth stays as it should over two token sequences if it does over each of them. -/
theorem depth_nonneg_append {first second : List Token}
    (hfirst : ∀ front, front <+: first → 0 ≤ depth front)
    (hsecond : ∀ front, front <+: second → 0 ≤ depth first + depth front) :
    ∀ front, front <+: first ++ second → 0 ≤ depth front := by
  rintro front ⟨back, h⟩
  rcases List.append_eq_append_iff.1 h with ⟨middle, rfl, -⟩ | ⟨middle, rfl, rfl⟩
  · exact hfirst front (List.prefix_append front middle)
  · rw [depth_append]
    exact hsecond middle (List.prefix_append middle back)

namespace IsNested

theorem nil : IsNested [] where
  depth_nonneg := by
    intro front hfront
    simp [List.prefix_nil.1 hfront]
  depth_eq_zero := rfl

/-- Two nested sequences in a row. -/
theorem append (h : IsNested level) (hrest : IsNested rest) : IsNested (level ++ rest) where
  depth_nonneg := by
    refine depth_nonneg_append h.depth_nonneg fun front hfront => ?_
    rw [h.depth_eq_zero, Int.zero_add]
    exact hrest.depth_nonneg front hfront
  depth_eq_zero := by rw [depth_append, h.depth_eq_zero, hrest.depth_eq_zero, Int.zero_add]

/-- A token that is no parenthesis. -/
theorem singleton (h : token.kind.nesting = 0) : IsNested [token] where
  depth_nonneg := by
    intro front hfront
    rcases List.prefix_concat_iff.1 (show front <+: [] ++ [token] from hfront) with rfl | hnil
    · simp [h]
    · simp [List.prefix_nil.1 hnil]
  depth_eq_zero := by simp [h]

/-- A pair of parentheses around a nested sequence. -/
theorem group (h : IsNested inner) (hopening : opening.kind = .openParen)
    (hclosing : closing.kind = .closeParen) : IsNested (opening :: (inner ++ [closing])) where
  depth_nonneg := by
    intro front hfront
    rcases List.prefix_cons_iff.1 hfront with rfl | ⟨behind, rfl, hbehind⟩
    · simp
    · rw [depth_cons, hopening, Kind.nesting]
      rcases List.prefix_concat_iff.1 hbehind with rfl | hinner
      · simp [h.depth_eq_zero, hclosing, Kind.nesting]
      · have hnonneg := h.depth_nonneg behind hinner
        omega
  depth_eq_zero := by
    rw [depth_cons, depth_append, h.depth_eq_zero, depth_cons, hopening, hclosing]
    rfl

/-- A front part that leaves no parenthesis open is nested. -/
theorem of_append (h : IsNested (level ++ rest)) (hdepth : depth level = 0) : IsNested level where
  depth_nonneg := fun front hfront =>
    h.depth_nonneg front (hfront.trans (List.prefix_append level rest))
  depth_eq_zero := hdepth

/-- What stands in front of a part that starts with a parenthesis of its own is no part of a nested
sequence. -/
theorem eq_nil_of_append (h : IsNested (level ++ rest)) (hrest : IsNested rest)
    (hlast : ∀ opening ∈ level.getLast?, opening.kind = .openParen) : level = [] := by
  rcases List.eq_nil_or_concat' level with rfl | ⟨front, opening, rfl⟩
  · rfl
  · have hopening := hlast opening (by simp)
    have hfront : 0 ≤ depth front := by
      refine h.depth_nonneg front ?_
      rw [List.append_assoc]
      exact List.prefix_append front _
    have htotal := h.depth_eq_zero
    rw [depth_append, depth_append, depth_cons, depth_nil, hopening, hrest.depth_eq_zero,
      Kind.nesting] at htotal
    omega

/-- A place in a token sequence lies in one level only. The level starts behind an opening
parenthesis, or at the start of the sequence. -/
theorem unique {before other otherLevel : List Token} (h : IsNested level)
    (hother : IsNested otherLevel)
    (hbefore : ∀ opening ∈ before.getLast?, opening.kind = .openParen)
    (hotherBefore : ∀ opening ∈ other.getLast?, opening.kind = .openParen)
    (heq : before ++ level = other ++ otherLevel) : other = before ∧ otherLevel = level := by
  have hlast : ∀ {front middle : List Token},
      (∀ opening ∈ (front ++ middle).getLast?, opening.kind = .openParen) →
        ∀ opening ∈ middle.getLast?, opening.kind = .openParen := by
    intro front middle hall opening hmem
    refine hall opening ?_
    rw [List.getLast?_append, hmem]
    rfl
  rcases List.append_eq_append_iff.1 heq with ⟨middle, rfl, rfl⟩ | ⟨middle, rfl, rfl⟩
  · obtain rfl := h.eq_nil_of_append hother (hlast hotherBefore)
    simp
  · obtain rfl := hother.eq_nil_of_append h (hlast hbefore)
    simp

end IsNested

/-- The depth does not fall below zero but at a closing parenthesis without a partner, and what
stands in front of the first such parenthesis is nested. -/
theorem exists_closing (h : depth tokens < 0) :
    ∃ inner closing after, tokens = inner ++ closing :: after ∧ closing.kind = .closeParen ∧
      IsNested inner := by
  suffices hfrom : ∀ rest front, (∀ part, part <+: front → 0 ≤ depth part) →
      depth (front ++ rest) < 0 → ∃ inner closing after,
        front ++ rest = inner ++ closing :: after ∧ closing.kind = .closeParen ∧
          IsNested inner by
    refine hfrom tokens [] (fun part hpart => ?_) h
    simp [List.prefix_nil.1 hpart]
  -- over the tokens behind a front part in which the depth never falls below zero
  intro rest
  induction rest with
  | nil =>
      intro front hfront hdepth
      rw [List.append_nil] at hdepth
      have hnonneg := hfront front (List.prefix_refl front)
      omega
  | cons token rest ih =>
      intro front hfront hdepth
      by_cases hnext : 0 ≤ depth front + token.kind.nesting
      · have hlonger : ∀ part, part <+: front ++ [token] → 0 ≤ depth part := by
          intro part hpart
          rcases List.prefix_concat_iff.1 hpart with rfl | hpart
          · simpa using hnext
          · exact hfront part hpart
        rw [List.append_cons] at hdepth ⊢
        exact ih (front ++ [token]) hlonger hdepth
      · have hnonneg := hfront front (List.prefix_refl front)
        have hclose : token.kind = .closeParen := eq_closeParen_of_nesting (by omega)
        refine ⟨front, token, rest, rfl, hclose, hfront, ?_⟩
        have hnesting := neg_one_le_nesting token.kind
        omega

/-- Every level has an end: the end of the tokens or a closing parenthesis. -/
theorem exists_isLevel {before : List Token} (h : IsNested (before ++ level ++ rest))
    (hlevel : IsNested level) (hbefore : ∀ opening ∈ before.getLast?, opening.kind = .openParen) :
    ∃ inner after, rest = inner ++ after ∧ IsNested (level ++ inner) ∧
      IsLevel (before ++ level ++ rest) (level ++ inner) ∧
        ∀ closing ∈ after.head?, closing.kind = .closeParen := by
  rcases List.eq_nil_or_concat' before with rfl | ⟨front, opening, rfl⟩
  · exact ⟨rest, [], (List.append_nil rest).symm, h, .top, by simp⟩
  · have hopening := hbefore opening (by simp)
    have hrest : depth rest < 0 := by
      have hfront := h.depth_nonneg front (by simp)
      have htotal := h.depth_eq_zero
      simp only [depth_append, depth_cons, depth_nil, hopening, Kind.nesting,
        hlevel.depth_eq_zero] at htotal
      omega
    obtain ⟨inner, closing, after, rfl, hclosing, hinner⟩ := exists_closing hrest
    have hwhole := hlevel.append hinner
    have hsplit : front ++ [opening] ++ level ++ (inner ++ closing :: after) =
        front ++ opening :: (level ++ inner ++ closing :: after) := by simp
    exact ⟨inner, closing :: after, rfl, hwhole, .inside hsplit hopening hclosing hwhole,
      by simpa using hclosing⟩

section Waiting

/-- The tally knows the depth. -/
theorem nested_foldl_note (tally : Tally)
    (h : ∀ front, front <+: tokens → 0 ≤ tally.nested + depth front) :
    ((tokens.foldl Tally.note tally).nested : Int) = tally.nested + depth tokens := by
  induction tokens using List.reverseRecOn with
  | nil => simp
  | append_singleton front token ih =>
      have hfront := ih fun part hpart => h part (hpart.trans (List.prefix_append front _))
      have hnext := h (front ++ [token]) (List.prefix_refl _)
      rw [depth_append, depth_cons, depth_nil] at hnext ⊢
      rw [List.foldl_append, List.foldl_cons, List.foldl_nil, Tally.note]
      cases hkind : token.kind <;> simp only [hkind, Kind.nesting] at hnext ⊢ <;> omega

/-- Inside of nested parentheses the names that wait stay the same. -/
theorem waiting_foldl_note (tally : Tally)
    (h : ∀ front, front <+: tokens → 0 < tally.nested + depth front) :
    (tokens.foldl Tally.note tally).waiting = tally.waiting := by
  induction tokens using List.reverseRecOn with
  | nil => rfl
  | append_singleton front token ih =>
      have hbefore : ∀ part, part <+: front → 0 < tally.nested + depth part := fun part hpart =>
        h part (hpart.trans (List.prefix_append front _))
      have hnested := nested_foldl_note tally fun part hpart => Int.le_of_lt (hbefore part hpart)
      have hhere := hbefore front (List.prefix_refl front)
      have hnext := h (front ++ [token]) (List.prefix_refl _)
      rw [depth_append, depth_cons, depth_nil] at hnext
      rw [List.foldl_append, List.foldl_cons, List.foldl_nil, Tally.note]
      cases hkind : token.kind <;> simp only [hkind, Kind.nesting] at hnext ⊢
      case closeParen => rw [if_neg (by omega), ih hbefore]
      case builtin => rw [if_neg (by omega), ih hbefore]
      all_goals exact ih hbefore

namespace IsNested

/-- Behind a nested part of a level no nested parenthesis is open. -/
theorem foldl_note (h : IsNested level) : level.foldl Tally.note ⟨0, 0⟩ = ⟨0, waiting level⟩ := by
  have hinside : ∀ front, front <+: level → 0 ≤ (0 : Int) + depth front := by
    simpa using h.depth_nonneg
  have hnested := nested_foldl_note ⟨0, 0⟩ hinside
  rw [h.depth_eq_zero, Int.add_zero] at hnested
  have hzero : (level.foldl Tally.note ⟨0, 0⟩).nested = 0 := Int.ofNat_inj.1 hnested
  exact congrArg (Tally.mk · (waiting level)) hzero

/-- A further token of a level. -/
theorem waiting_concat (h : IsNested level) (token : Token) :
    waiting (level ++ [token]) = (Tally.note ⟨0, waiting level⟩ token).waiting := by
  rw [waiting, List.foldl_append, h.foldl_note]
  rfl

/-- A pair of parentheses serves one of the names that wait. -/
theorem waiting_group (h : IsNested level) (hinner : IsNested inner)
    (hopening : opening.kind = .openParen) (hclosing : closing.kind = .closeParen) :
    waiting (level ++ opening :: (inner ++ [closing])) = waiting level - 1 := by
  have hinside : ∀ front, front <+: inner → 0 < (1 : Int) + depth front := by
    intro front hfront
    have hnonneg := hinner.depth_nonneg front hfront
    omega
  have hnested := nested_foldl_note ⟨1, waiting level⟩ fun front hfront =>
    Int.le_of_lt (hinside front hfront)
  have hwaiting := waiting_foldl_note ⟨1, waiting level⟩ hinside
  have hone : (inner.foldl Tally.note ⟨1, waiting level⟩).nested = 1 := by
    rw [hinner.depth_eq_zero, Int.add_zero] at hnested
    exact Int.ofNat_inj.1 hnested
  have hstart : Tally.note ⟨0, waiting level⟩ opening = ⟨1, waiting level⟩ := by
    simp [Tally.note, hopening]
  rw [waiting, List.foldl_append, h.foldl_note, List.foldl_cons, hstart, List.foldl_append,
    List.foldl_cons, List.foldl_nil]
  simp [Tally.note, hclosing, hone, hwaiting]

end IsNested

end Waiting

end Reckoner.Token
