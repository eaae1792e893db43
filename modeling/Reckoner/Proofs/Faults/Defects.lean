import Reckoner.Proofs.Faults.Shape

/-!
# The walk finds the defects

The walk over a token sequence refuses it for exactly what the rule without a state says is wrong
with it, which is `checkShape_eq`. What the walk expects is told by the last token that was read,
and its open groups are the parentheses without a partner, so a step fails for the defect of its
token (`Walk.Follows.step_defect`) and the end of the walk for the defect of the end.
-/

namespace Reckoner.Token

open Role (IsInterior)

/-- An operand is expected at the start and behind a token that needs one. -/
theorem Expected.all_needsOperand (last? : Option Token) :
    last?.all (·.kind.needsOperand) = decide (.after last? = operand) := by
  rcases last? with _ | ⟨kind, position⟩
  · rfl
  · cases kind <;> rfl

/-- An operator is expected behind the end of an operand. -/
theorem Expected.any_completesOperand (last? : Option Token) :
    last?.any (·.kind.completesOperand) = decide (.after last? = operator) := by
  rcases last? with _ | ⟨kind, position⟩
  · rfl
  · cases kind <;> rfl

/-- Only an opening parenthesis plays the role of one. -/
theorem role_eq_opening_iff {token : Token} : token.role = .opening ↔ token.kind = .openParen := by
  obtain ⟨kind, position⟩ := token
  cases kind <;> simp [role]
  split <;> simp

/-- Only a closing parenthesis plays the role of one. -/
theorem role_eq_closing_iff {token : Token} : token.role = .closing ↔ token.kind = .closeParen := by
  obtain ⟨kind, position⟩ := token
  cases kind <;> simp [role]
  split <;> simp

/-- Only a comma plays the role of one. -/
theorem role_eq_comma_iff {token : Token} : token.role = .comma ↔ token.kind = .comma := by
  obtain ⟨kind, position⟩ := token
  cases kind <;> simp [role]
  split <;> simp

/-- The tokens stand inside of parentheses, closing those that they open, with as many commas
directly inside. -/
inductive IsInside : List Token → Nat → Prop where
  | nil : IsInside [] 0
  | plain {inner commas token} : IsInside inner commas → token.kind ≠ .openParen →
      token.kind ≠ .closeParen → token.kind ≠ .comma → IsInside (inner ++ [token]) commas
  | comma {inner commas token} : IsInside inner commas → token.kind = .comma →
      IsInside (inner ++ [token]) (commas + 1)
  | group {inner commas opening nested others closing} : IsInside inner commas →
      IsInside nested others → opening.kind = .openParen → closing.kind = .closeParen →
      IsInside (inner ++ opening :: (nested ++ [closing])) commas

/-- Tokens that play the roles of an interior are one. -/
theorem IsInside.of_isInterior {inner : List Token} {commas : Nat}
    (h : IsInterior (inner.map role) commas) : IsInside inner commas := by
  generalize hroles : inner.map role = roles at h
  induction h generalizing inner with
  | nil =>
      cases List.map_eq_nil_iff.1 hroles
      exact .nil
  | plain _ hopening hclosing hcomma ih =>
      obtain ⟨front, last, rfl, rfl, hlast⟩ := List.map_eq_append_iff.1 hroles
      obtain ⟨token, rfl, rfl⟩ := List.map_eq_singleton_iff.1 hlast
      exact .plain (ih rfl) (mt role_eq_opening_iff.2 hopening)
        (mt role_eq_closing_iff.2 hclosing) (mt role_eq_comma_iff.2 hcomma)
  | comma _ ih =>
      obtain ⟨front, last, rfl, rfl, hlast⟩ := List.map_eq_append_iff.1 hroles
      obtain ⟨token, rfl, htoken⟩ := List.map_eq_singleton_iff.1 hlast
      exact .comma (ih rfl) (role_eq_comma_iff.1 htoken)
  | group _ _ ih ihNested =>
      obtain ⟨front, last, rfl, hfront, hlast⟩ := List.map_eq_append_iff.1 hroles
      obtain ⟨outer, behind, rfl, rfl, hbehind⟩ := List.map_eq_append_iff.1 hfront
      obtain ⟨opening, nested, rfl, hopening, rfl⟩ := List.map_eq_cons_iff.1 hbehind
      obtain ⟨closing, rfl, hclosing⟩ := List.map_eq_singleton_iff.1 hlast
      rw [List.append_assoc, List.cons_append]
      exact .group (ih rfl) (ihNested rfl) (role_eq_opening_iff.1 hopening)
        (role_eq_closing_iff.1 hclosing)

namespace IsInside

variable {inner : List Token} {commas : Nat}

/-- The commas of an interior count for the parenthesis in front of it, and nothing else of it
does. -/
theorem opening?_append (h : IsInside inner commas) (depth found : Nat) (earlier : List Token) :
    opening? depth found (inner.reverse ++ earlier) =
      opening? depth (found + if depth = 0 then commas else 0) earlier := by
  induction h generalizing depth found earlier with
  | nil => simp
  | @plain inner commas token _ hopening hclosing hcomma ih =>
      have hskip : ∀ behind, opening? depth found (token :: behind) =
          opening? depth found behind := by
        intro behind
        obtain ⟨kind, position⟩ := token
        cases kind <;> cases depth <;> simp [opening?] at hopening hclosing hcomma ⊢
      rw [List.reverse_concat, List.cons_append, hskip, ih]
  | comma _ hcomma ih =>
      rw [List.reverse_concat, List.cons_append]
      cases depth with
      | zero => simp [opening?, hcomma, ih, Nat.add_comm, Nat.add_left_comm]
      | succ depth => simp [opening?, hcomma, ih]
  | group _ _ hopening hclosing ih ihNested =>
      simp [opening?, hopening, hclosing, ih, ihNested]

/-- An interior does not close the parenthesis in front of it. -/
theorem closes_append (h : IsInside inner commas) (depth : Nat) (rest : List Token) :
    closes depth (inner ++ rest) = closes depth rest := by
  induction h generalizing depth rest with
  | nil => rfl
  | @plain inner commas token _ hopening hclosing _ ih =>
      rw [List.append_assoc, ih]
      obtain ⟨kind, position⟩ := token
      cases kind <;> simp [closes] at hopening hclosing ⊢
  | comma _ hcomma ih => simp [closes, hcomma, ih]
  | group _ _ hopening hclosing ih ihNested => simp [closes, hopening, hclosing, ih, ihNested]

/-- Every parenthesis of an interior is closed. -/
theorem unclosed_append (h : IsInside inner commas) (rest : List Token) :
    unclosed (inner ++ rest) = unclosed rest := by
  induction h generalizing rest with
  | nil => rfl
  | plain _ hopening _ _ ih => simp [unclosed_cons, hopening, ih]
  | comma _ hcomma ih => simp [unclosed_cons, hcomma, ih]
  | group _ hnested hopening hclosing ih ihNested =>
      simp [unclosed_cons, closes, hopening, hclosing, hnested.closes_append, ih, ihNested]

end IsInside

namespace Nested

variable {read : List Token} {group : Group} {groups : List Group}

/-- No parenthesis is open outside of all groups. -/
theorem innermost?_eq_none (h : Nested read []) : innermost? read = none := by
  cases h with
  | outside hread =>
      have hskip := (IsInside.of_isInterior hread).opening?_append 0 0 []
      rw [List.append_nil] at hskip
      exact hskip

/-- The innermost group is that of the innermost parenthesis that is open. -/
theorem exists_innermost?_eq (h : Nested read (group :: groups)) :
    ∃ commas, group.arguments = 1 + commas ∧ innermost? read = some ⟨group.call, commas⟩ := by
  cases h with
  | @inside front groups inner commas opening call _ hopening hinner hcall =>
      refine ⟨commas, Nat.add_comm commas 1, ?_⟩
      rw [innermost?, List.reverse_append, List.reverse_cons, List.append_assoc,
        (IsInside.of_isInterior hinner).opening?_append]
      simp [opening?, hopening, hcall]

/-- The outermost group is that of the first parenthesis that is never closed, if what follows
closes none of the groups. -/
theorem unclosed?_append (h : Nested read groups) (rest : List Token)
    (hrest : ∀ depth, closes depth rest = false) :
    (unclosed? (read ++ rest)).map position =
      (groups.getLast?.map Group.opened).or ((unclosed? rest).map position) := by
  induction h generalizing rest with
  | outside hread =>
      rw [unclosed?, (IsInside.of_isInterior hread).unclosed_append]
      rfl
  | @inside read groups inner commas opening call _ hopening hinner _ ih =>
      have hinside := IsInside.of_isInterior hinner
      have hbehind : ∀ depth, closes depth (opening :: (inner ++ rest)) = false := by
        intro depth
        cases depth <;> simp [closes, hopening, hinside.closes_append, hrest]
      rw [List.append_assoc, List.cons_append, ih _ hbehind, List.getLast?_cons]
      cases groups.getLast? <;>
        simp [unclosed?, unclosed_cons, hopening, hinside.closes_append, hrest]

end Nested

namespace Walk.Follows

variable {read : List Token} {walk : Walk} {token : Token}

/-- Something was read last if a group is open, and whether it needs an operand tells whether one is
expected. -/
theorem any_needsOperand (h : Follows read walk) (hopen : walk.groups ≠ []) :
    read.getLast?.any (·.kind.needsOperand) = decide (walk.expected = .operand) := by
  have hne := h.nested.read_ne_nil hopen
  have hall := Expected.all_needsOperand read.getLast?
  rw [h.expected_eq]
  rw [List.getLast?_eq_some_getLast hne] at hall ⊢
  exact hall

/-- The end of a group fails for the defect of the parenthesis that ends it. -/
theorem failure?_close (h : Follows read walk) (hkind : token.kind = .closeParen) :
    failure? (walk.close token.position) = closingDefect? read token := by
  have hneeds := h.any_needsOperand
  obtain ⟨groups, expected⟩ := walk
  obtain ⟨-, hnested⟩ := h
  unfold closingDefect?
  rw [if_neg (not_not_intro hkind)]
  cases groups with
  | nil =>
      rw [hnested.innermost?_eq_none]
      rfl
  | cons group groups =>
      obtain ⟨call, arguments, opened⟩ := group
      obtain ⟨commas, rfl, hinnermost⟩ := hnested.exists_innermost?_eq
      simp only [hinnermost, hneeds (List.cons_ne_nil _ _), decide_eq_true_eq]
      cases expected with
      | operand => rfl
      | operator | arguments =>
          cases call with
          | none => rfl
          | some call =>
              simp only [Walk.close, reduceCtorEq, if_false]
              split <;> rfl

/-- A comma fails for its defect. -/
theorem failure?_separate (h : Follows read walk) (hkind : token.kind = .comma) :
    failure? (walk.separate token.position) = commaDefect? read token := by
  have hneeds := h.any_needsOperand
  obtain ⟨groups, expected⟩ := walk
  obtain ⟨-, hnested⟩ := h
  unfold commaDefect?
  rw [if_neg (not_not_intro hkind)]
  cases groups with
  | nil =>
      rw [hnested.innermost?_eq_none]
      rfl
  | cons group groups =>
      obtain ⟨call, arguments, opened⟩ := group
      obtain ⟨commas, -, hinnermost⟩ := hnested.exists_innermost?_eq
      simp only [hinnermost, hneeds (List.cons_ne_nil _ _), decide_eq_true_eq]
      cases call with
      | none => rfl
      | some call =>
          simp only [Walk.separate, Option.bind_some, Option.isNone_some, Bool.false_eq_true,
            if_false]
          split <;> rfl

/-- A step fails for the defect of its token, and for nothing else. -/
theorem failure?_step (h : Follows read walk) :
    failure? (walk.step token) = defect? read token := by
  have hclose : token.kind = .closeParen →
      failure? (walk.close token.position) = closingDefect? read token := h.failure?_close
  have hseparate : token.kind = .comma →
      failure? (walk.separate token.position) = commaDefect? read token := h.failure?_separate
  have hcall := Expected.function?_eq read.getLast?
  have hoperator := Expected.any_completesOperand read.getLast?
  have hoperand := Expected.all_needsOperand read.getLast?
  rw [← h.expected_eq] at hcall hoperator hoperand
  obtain ⟨kind, position⟩ := token
  obtain ⟨groups, expected⟩ := walk
  unfold defect? callDefect? operandDefect?
  rw [hcall, hoperator]
  cases expected with
  | arguments function name =>
      cases kind <;> simp [Walk.step, closingDefect?, commaDefect?, operatorDefect?]
  | operator =>
      cases kind with
      | number | name | builtin | openParen => simp [Walk.step, Kind.beginsOperand]
      | closeParen => simp [Walk.step, Kind.beginsOperand, commaDefect?, operatorDefect?, hclose]
      | comma => simp [Walk.step, Kind.beginsOperand, closingDefect?, operatorDefect?, hseparate]
      | operator op =>
          simp [Walk.step, Kind.beginsOperand, closingDefect?, commaDefect?, operatorDefect?,
            hoperand]
  | operand =>
      cases kind with
      | number | name | builtin | openParen =>
          simp [Walk.step, closingDefect?, commaDefect?, operatorDefect?]
      | closeParen => simp [Walk.step, commaDefect?, operatorDefect?, hclose]
      | comma => simp [Walk.step, closingDefect?, operatorDefect?, hseparate]
      | operator op =>
          cases hop : op.actsAsSign <;>
            simp [Walk.step, closingDefect?, commaDefect?, operatorDefect?, hoperand, hop]

/-- The end of the walk fails for the defect of the end. -/
theorem failure?_finish (h : Follows read walk) :
    failure? (walk.finish read.getLast?) = endDefect? read := by
  have hcall := Expected.function?_eq read.getLast?
  have hoperand := Expected.all_needsOperand read.getLast?
  have hunclosed : (unclosed? read).map position = walk.groups.getLast?.map Group.opened := by
    have hnothing : (unclosed? []).map position = none := rfl
    simpa [hnothing] using h.nested.unclosed?_append [] fun _ => rfl
  rw [← h.expected_eq] at hcall hoperand
  obtain ⟨groups, expected⟩ := walk
  unfold endDefect? Walk.finish
  rw [hcall]
  cases hlast : groups.getLast? with
  | some group =>
      cases hopening : unclosed? read with
      | some opening =>
          have hposition : group.opened = opening.position := by
            simpa [hlast, hopening, eq_comm] using hunclosed
          cases expected <;> simp [hposition]
      | none => simp [hlast, hopening] at hunclosed
  | none =>
      cases hopening : unclosed? read with
      | some opening => simp [hlast, hopening] at hunclosed
      | none =>
          cases hread : read.getLast? with
          | none => cases expected <;> rfl
          | some last =>
              rw [hread] at hoperand
              cases expected <;> simp at hoperand ⊢ <;> simp [hoperand]

end Walk.Follows

/-- What the last token adds to a sequence is its own defect. -/
theorem firstDefect?_concat (tokens : List Token) (token : Token) :
    firstDefect? (tokens ++ [token]) = (firstDefect? tokens).or (defect? tokens token) := by
  let defectAt := fun (tokens : List Token) (index : Nat) =>
    tokens[index]?.bind (defect? (tokens.take index))
  have hfront : (List.range tokens.length).map (defectAt (tokens ++ [token])) =
      (List.range tokens.length).map (defectAt tokens) := by
    refine List.map_congr_left fun index hindex => ?_
    have hlt := List.mem_range.1 hindex
    simp only [defectAt, List.getElem?_append_left hlt,
      List.take_append_of_le_length (Nat.le_of_lt hlt)]
  have hsearch : ∀ tokens : List Token, firstDefect? tokens =
      ((List.range tokens.length).map (defectAt tokens)).findSome? id := by
    intro tokens
    rw [List.findSome?_map, Function.id_comp]
    rfl
  rw [hsearch, hsearch, List.length_append, List.length_singleton, List.range_succ,
    List.map_append, hfront, List.findSome?_append]
  simp [defectAt]

/-- The walk over tokens fails for the first defect among them. If there is none, it has read
them. -/
theorem walk_spec (tokens : List Token) :
    failure? (tokens.foldlM Walk.step .start) = firstDefect? tokens ∧
      ∀ walk, tokens.foldlM Walk.step .start = .ok walk → Walk.Follows tokens walk := by
  induction tokens using List.reverseRecOn with
  | nil =>
      refine ⟨rfl, fun walk hwalk => ?_⟩
      cases hwalk
      exact ⟨rfl, .outside .nil⟩
  | append_singleton tokens token ih =>
      obtain ⟨hfailure, hfollows⟩ := ih
      rw [firstDefect?_concat, ← hfailure, List.foldlM_append]
      cases hrun : tokens.foldlM Walk.step .start with
      | error error =>
        refine ⟨rfl, fun _ h => ?_⟩
        cases h
      | ok walk =>
          have hwalk := hfollows walk hrun
          simp only [List.foldlM_cons, List.foldlM_nil, bind_pure, ok_bind, failure?_ok,
            Option.none_or]
          exact ⟨hwalk.failure?_step, fun _ => hwalk.step⟩

/-- The check of the shape refuses a token sequence for what the rule without a state says is wrong
with it, and accepts it if this is nothing. -/
theorem checkShape_eq (tokens : List Token) :
    checkShape tokens = (shapeDefect? tokens).elim (.ok ()) .error := by
  obtain ⟨hfailure, hfollows⟩ := walk_spec tokens
  rw [eq_elim_failure? (checkShape tokens), checkShape, shapeDefect?, ← hfailure]
  cases hrun : tokens.foldlM Walk.step .start with
  | error error => rfl
  | ok walk => rw [ok_bind, (hfollows walk hrun).failure?_finish, failure?_ok, Option.none_or]

/-- In `Sin)`, the name without arguments comes before the parenthesis without a partner. -/
example : shapeDefect? [⟨.builtin .sin, ⟨1, 1⟩⟩, ⟨.closeParen, ⟨4, 1⟩⟩] =
    some (.fault (.missingArguments .sin) ⟨1, 1⟩) := by
  decide

end Reckoner.Token
