import Reckoner.Proofs.Faults.Roles
import Reckoner.Proofs.Grammar.Acceptance
import Reckoner.Token.Defect

/-!
# Faults of a token sequence

The check of a token sequence blames a token that the fault suits, which is `blames_of_check`. The
walk over the tokens keeps two things that explain its faults: what it expects is told by the last
token that was read, and its groups are the parentheses that are open, with one more argument than
commas directly inside (`Nested`). Both are in `Walk.Follows`, which a step preserves.
-/

namespace Reckoner.Token

open Role (IsInterior)

/-- The error is at a token that its fault suits, and a text that the fault reports is the name of
the function that this token stands for. -/
def Blames (tokens : List Token) (error : CompileError) : Prop :=
  ∃ cause left token right, tokens = left ++ token :: right ∧
    error = .fault cause token.position ∧
      cause.Suits (left.map role) token.role (right.map role) ∧
        ∀ text, cause.reported? = some text →
          ∃ function, token.kind = .builtin function ∧ function.name = text

/-- A fault that reports no text is blamed on a token that it suits. -/
theorem Blames.of_suits {cause : Fault} {left right : List Token} {token : Token}
    (hreported : cause.reported? = none)
    (h : cause.Suits (left.map role) token.role (right.map role)) :
    Blames (left ++ token :: right) (.fault cause token.position) := by
  refine ⟨cause, left, token, right, rfl, rfl, h, ?_⟩
  intro text htext
  rw [hreported] at htext
  cases htext

/-- A fault that reports a function is blamed on its name. -/
theorem Blames.of_builtin {cause : Fault} {left right : List Token} {function : Builtin}
    {name : Position} (hreported : cause.reported? = some function.name)
    (h : cause.Suits (left.map role) .function (right.map role)) :
    Blames (left ++ ⟨.builtin function, name⟩ :: right) (.fault cause name) := by
  refine ⟨cause, left, ⟨.builtin function, name⟩, right, rfl, rfl, h, ?_⟩
  intro text htext
  exact ⟨function, rfl, Option.some.inj (hreported.symm.trans htext)⟩

/-- An operator plays the role of a sign or of an operator. -/
theorem role_mem_of_isOperator {token : Token} (h : token.kind.isOperator) :
    token.role ∈ [Role.sign, .operator] := by
  obtain ⟨kind, position⟩ := token
  cases kind <;> simp [Kind.isOperator] at h
  unfold role
  dsimp only
  split <;> simp

/-- What cannot follow an operator is another one, a closing parenthesis or a comma. -/
theorem role_mem_of_endsOperand {token : Token} (h : token.kind.endsOperand) :
    token.role ∈ [Role.sign, .operator, .closing, .comma] := by
  obtain ⟨kind, position⟩ := token
  cases kind <;> simp [Kind.endsOperand, role] at h ⊢
  split <;> simp

/-- The check of operators blames a token that stands in place of an operand, or an operator at the
end. -/
theorem blames_of_checkOperators (front : List Token) {tokens : List Token} {error : CompileError}
    (h : checkOperators tokens = .error error) : Blames (front ++ tokens) error := by
  fun_induction checkOperators tokens generalizing front with
  | case1 | case3 => cases h
  | case2 last hlast =>
      cases h
      exact .of_suits rfl (.inr ⟨role_mem_of_isOperator hlast, rfl⟩)
  | case4 first second rest hpair =>
      cases h
      obtain ⟨hfirst, hsecond⟩ := Bool.and_eq_true_iff.1 hpair
      rw [List.append_cons]
      refine .of_suits rfl (.inl ⟨⟨first.role, by simp, ?_⟩, ?_⟩)
      · exact role_mem_of_isOperator hfirst
      · exact role_mem_of_endsOperand hsecond
  | case5 first second rest _ ih => simpa using ih (front ++ [first]) h

/-- The check of groups blames an opening parenthesis that is closed at once. -/
theorem blames_of_checkGroups (front : List Token) {tokens : List Token} {error : CompileError}
    (h : checkGroups tokens = .error error) : Blames (front ++ tokens) error := by
  fun_induction checkGroups tokens generalizing front with
  | case1 first second rest hpair =>
      cases h
      refine .of_suits rfl ?_
      simp [Fault.Suits, role, hpair]
  | case2 first second rest _ ih => simpa using ih (front ++ [first]) h
  | case3 => cases h

/-- The check of operators passes for the tokens behind any others if it passes for all of them. -/
theorem checkOperators_of_append {front rest : List Token}
    (h : checkOperators (front ++ rest) = .ok ()) : checkOperators rest = .ok () := by
  induction front with
  | nil => exact h
  | cons first front ih => exact ih (checkOperators_cons.1 h).2

/-- The check of groups passes for the tokens behind any others if it passes for all of them. -/
theorem checkGroups_of_append {front rest : List Token}
    (h : checkGroups (front ++ rest) = .ok ()) : checkGroups rest = .ok () := by
  induction front with
  | nil => exact h
  | cons first front ih => exact ih (checkGroups_cons.1 h).2

/-- Behind an operator stands something that can start an operand. -/
theorem endsOperand_eq_false {read rest : List Token} {before token : Token}
    (h : checkOperators (read ++ token :: rest) = .ok ()) (hbefore : read.getLast? = some before)
    (hoperator : before.kind.isOperator) : token.kind.endsOperand = false := by
  obtain ⟨front, rfl⟩ := List.getLast?_eq_some_iff.1 hbefore
  rw [List.append_assoc] at h
  obtain ⟨second, hsecond, hends⟩ :=
    (checkOperators_cons.1 (checkOperators_of_append h)).1 hoperator
  cases hsecond
  exact hends

/-- No operator stands at the end. -/
theorem isOperator_eq_false {tokens : List Token} {last : Token}
    (h : checkOperators tokens = .ok ()) (hlast : tokens.getLast? = some last) :
    last.kind.isOperator = false := by
  obtain ⟨front, rfl⟩ := List.getLast?_eq_some_iff.1 hlast
  simpa using (checkOperators_cons.1 (checkOperators_of_append h)).1

/-- Behind an opening parenthesis stands no closing one. -/
theorem kind_ne_closeParen {read rest : List Token} {before token : Token}
    (h : checkGroups (read ++ token :: rest) = .ok ()) (hbefore : read.getLast? = some before)
    (hopen : before.kind = .openParen) : token.kind ≠ .closeParen := by
  obtain ⟨front, rfl⟩ := List.getLast?_eq_some_iff.1 hbefore
  rw [List.append_assoc] at h
  exact (checkGroups_cons.1 (checkGroups_of_append h)).1 hopen token rfl

/-- What has to come after a token, or at the start. -/
def Expected.after : Option Token → Expected
  | none => .operand
  | some token =>
    match token.kind with
    | .number _ | .name _ | .closeParen => .operator
    | .builtin function => .arguments function token.position
    | .operator _ | .openParen | .comma => .operand

/-- The last token is the name of the function that is called. -/
theorem eq_of_function? {last? : Option Token} {function : Builtin} {name : Position}
    (h : function? last? = some (function, name)) : last? = some ⟨.builtin function, name⟩ := by
  rcases last? with _ | ⟨kind, position⟩
  · cases h
  · cases kind <;> cases h
    rfl

/-- The function whose arguments are expected next is the one that the last token is the name of. -/
theorem Expected.function?_eq (last? : Option Token) :
    function? last? = match after last? with
      | arguments function name => some (function, name)
      | _ => none := by
  rcases last? with _ | ⟨kind, position⟩
  · rfl
  · cases kind <;> rfl

/-- Arguments are expected behind the name of their function only. -/
theorem Expected.eq_of_after_arguments {last? : Option Token} {function : Builtin}
    {name : Position} (h : .after last? = arguments function name) :
    last? = some ⟨.builtin function, name⟩ :=
  eq_of_function? (by rw [Expected.function?_eq, h])

/-- An operator is expected behind the end of an operand only. -/
theorem Expected.exists_of_after_operator {last? : Option Token} (h : .after last? = operator) :
    ∃ before, last? = some before ∧ before.role ∈ [Role.number, .name, .closing] := by
  rcases last? with _ | ⟨kind, position⟩
  · cases h
  · cases kind <;> cases h
    all_goals exact ⟨_, rfl, by simp [role]⟩

/-- Unless an operator was read last, an operand is expected at the start, behind an opening
parenthesis and behind a comma only. -/
theorem Expected.kind_of_after_operand {last? : Option Token} (h : .after last? = operand)
    (hoperator : ∀ before, last? = some before → before.kind.isOperator = false) :
    last? = none ∨ ∃ before, last? = some before ∧
      (before.kind = .openParen ∨ before.kind = .comma) := by
  rcases last? with _ | ⟨kind, position⟩
  · exact .inl rfl
  · have hkind := hoperator _ rfl
    refine .inr ⟨_, rfl, ?_⟩
    cases kind with
    | number | name | closeParen | builtin => cases h
    | operator => cases hkind
    | openParen => exact .inl rfl
    | comma => exact .inr rfl

/-- What ends an operand but is not preceded by one stands at the start, behind an opening
parenthesis or behind a comma. -/
theorem kind_of_missing_operand {read rest : List Token} {token : Token}
    (hoperators : checkOperators (read ++ token :: rest) = .ok ())
    (hends : token.kind.endsOperand) (h : Expected.operand = .after read.getLast?) :
    read.getLast? = none ∨ ∃ before, read.getLast? = some before ∧
      (before.kind = .openParen ∨ before.kind = .comma) := by
  refine Expected.kind_of_after_operand h.symm fun before hbefore => ?_
  refine Bool.eq_false_iff.2 fun hoperator => ?_
  rw [endsOperand_eq_false hoperators hbefore hoperator] at hends
  cases hends

/-- The groups are the parentheses that the tokens leave open, the innermost first. Each has one
more argument than there are commas directly inside so far, and the group of a call stands behind
the name of its function. -/
inductive Nested : List Token → List Group → Prop where
  | outside {read} : IsInterior (read.map role) 0 → Nested read []
  | inside {read groups inner commas opening call} : Nested read groups →
      opening.kind = .openParen → IsInterior (inner.map role) commas →
      call = function? read.getLast? →
      Nested (read ++ opening :: inner) (⟨call, commas + 1, opening.position⟩ :: groups)

namespace Nested

variable {read : List Token} {group : Group} {groups : List Group} {token : Token}

/-- A token that is neither a parenthesis nor a comma changes no group. -/
theorem plain (h : Nested read groups) (hopening : token.role ≠ .opening)
    (hclosing : token.role ≠ .closing) (hcomma : token.role ≠ .comma) :
    Nested (read ++ [token]) groups := by
  cases h with
  | outside hread =>
      refine .outside ?_
      rw [List.map_append]
      exact hread.plain hopening hclosing hcomma
  | inside hread hopen hinner hcall =>
      rw [List.append_assoc, List.cons_append]
      refine .inside hread hopen ?_ hcall
      rw [List.map_append]
      exact hinner.plain hopening hclosing hcomma

/-- A group that is closed belongs to the inside of the one around it. -/
theorem close (h : Nested read (group :: groups)) (hclose : token.kind = .closeParen) :
    Nested (read ++ [token]) groups := by
  have hrole : token.role = .closing := by simp [role, hclose]
  cases h with
  | @inside front _ inner _ opening _ hfront hopen hinner _ =>
      have hopening : opening.role = .opening := by simp [role, hopen]
      cases hfront with
      | outside hread =>
          refine .outside ?_
          simpa [hrole, hopening] using hread.group hinner
      | inside hread hopen' hinner' hcall =>
          rw [List.append_assoc, List.append_assoc, List.cons_append]
          refine .inside hread hopen' ?_ hcall
          simpa [hrole, hopening] using hinner'.group hinner

/-- A comma starts a further argument. -/
theorem separate {call : Option (Builtin × Position)} {arguments : Nat} {opened : Position}
    (h : Nested read (⟨call, arguments, opened⟩ :: groups)) (hcomma : token.kind = .comma) :
    Nested (read ++ [token]) (⟨call, arguments + 1, opened⟩ :: groups) := by
  have hrole : token.role = .comma := by simp [role, hcomma]
  cases h with
  | inside hread hopen hinner hcall =>
      rw [List.append_assoc, List.cons_append]
      refine .inside hread hopen ?_ hcall
      rw [List.map_append, List.map_singleton, hrole]
      exact hinner.comma

/-- Every group was opened by a parenthesis. -/
theorem exists_opened (h : Nested read groups) (hgroup : group ∈ groups) :
    ∃ left opening right, read = left ++ opening :: right ∧ opening.kind = .openParen ∧
      opening.position = group.opened := by
  induction h with
  | outside => cases hgroup
  | @inside read groups inner commas opening call hread hopen _ _ ih =>
      rcases List.mem_cons.1 hgroup with rfl | hgroup
      · exact ⟨read, opening, inner, rfl, hopen, rfl⟩
      · obtain ⟨left, earlier, right, rfl, hearlier, hopened⟩ := ih hgroup
        exact ⟨left, earlier, right ++ opening :: inner, by simp, hearlier, hopened⟩

/-- The arguments of the innermost group, if they belong to a call. -/
theorem exists_call {function : Builtin} {name opened : Position} {arguments : Nat}
    (h : Nested read (⟨some (function, name), arguments, opened⟩ :: groups)) :
    ∃ left opening inner commas, read = left ++ ⟨.builtin function, name⟩ :: opening :: inner ∧
      opening.kind = .openParen ∧ IsInterior (inner.map role) commas ∧ arguments = commas + 1 := by
  cases h with
  | @inside front _ inner commas opening _ _ hopen hinner hcall =>
      obtain ⟨left, rfl⟩ := List.getLast?_eq_some_iff.1 (eq_of_function? hcall.symm)
      exact ⟨left, opening, inner, commas, by simp, hopen, hinner, rfl⟩

/-- Something was read if a group is open. -/
theorem read_ne_nil (h : Nested read groups) (hopen : groups ≠ []) : read ≠ [] := by
  cases h with
  | outside => exact absurd rfl hopen
  | inside => simp

end Nested

/-- A walk that has read these tokens. -/
structure Walk.Follows (read : List Token) (walk : Walk) : Prop where
  expected_eq : walk.expected = .after read.getLast?
  nested : Nested read walk.groups

namespace Walk.Follows

variable {read rest : List Token} {walk next : Walk} {token : Token} {error : CompileError}

/-- A step of the walk reads a token. -/
theorem step (h : Follows read walk) (hstep : walk.step token = .ok next) :
    Follows (read ++ [token]) next := by
  obtain ⟨kind, position⟩ := token
  obtain ⟨groups, expected⟩ := walk
  obtain ⟨hexpected, hnested⟩ := h
  cases kind with
  | number | name | builtin =>
      cases expected with
      | operand =>
          cases hstep
          refine ⟨by simp [Expected.after], hnested.plain ?_ ?_ ?_⟩ <;> simp [role]
      | operator | arguments => cases hstep
  | openParen =>
      cases expected with
      | operand =>
          cases hstep
          refine ⟨by simp [Expected.after], .inside hnested rfl .nil ?_⟩
          rw [Expected.function?_eq, ← hexpected]
      | operator => cases hstep
      | arguments function name =>
          cases hstep
          refine ⟨by simp [Expected.after], .inside hnested rfl .nil ?_⟩
          rw [Expected.function?_eq, ← hexpected]
  | closeParen =>
      have hclose : (⟨groups, expected⟩ : Walk).close position = .ok next := by
        cases expected with
        | operand | operator => exact hstep
        | arguments => cases hstep
      obtain ⟨group, hgroups, hnext, -⟩ := Walk.close_eq_ok hclose
      cases hgroups
      exact ⟨by simp [Expected.after, hnext], hnested.close rfl⟩
  | comma =>
      have hseparate : (⟨groups, expected⟩ : Walk).separate position = .ok next := by
        cases expected with
        | operand | operator => exact hstep
        | arguments => cases hstep
      obtain ⟨call, arguments, opened, groups, hgroups, rfl, -⟩ := Walk.separate_eq_ok hseparate
      cases hgroups
      exact ⟨by simp [Expected.after], hnested.separate rfl⟩
  | operator op =>
      have hnext : next = ⟨groups, .operand⟩ := by
        cases expected <;> simp only [Walk.step] at hstep
        repeat' split at hstep
        all_goals cases hstep
        all_goals rfl
      have hrole : ∀ other, other ∉ [Role.sign, .operator] →
          role ⟨.operator op, position⟩ ≠ other := by
        rintro _ hother rfl
        exact hother (role_mem_of_isOperator rfl)
      rw [hnext]
      refine ⟨by simp [Expected.after], hnested.plain (hrole _ ?_) (hrole _ ?_) (hrole _ ?_)⟩ <;>
        decide

/-- The end of a group that fails blames the parenthesis that ends it or the function whose
arguments the group holds. -/
theorem blames_of_close (h : Follows read walk) (hkind : token.kind = .closeParen)
    (hclose : walk.close token.position = .error error)
    (hoperators : checkOperators (read ++ token :: rest) = .ok ())
    (hgroups : checkGroups (read ++ token :: rest) = .ok ()) :
    Blames (read ++ token :: rest) error := by
  have hrole : token.role = .closing := by simp [role, hkind]
  obtain ⟨groups, expected⟩ := walk
  obtain ⟨hexpected, hnested⟩ := h
  rcases Walk.close_eq_error hclose with ⟨-, rfl⟩ | ⟨hopen, hoperand, rfl⟩ |
    ⟨function, name, arguments, opened, outer, hopen, hcount, rfl⟩
  · exact .of_suits rfl (.inr hrole)
  · refine .of_suits rfl (.inl ⟨hrole, ?_⟩)
    have hends : token.kind.endsOperand := by rw [hkind]; rfl
    have hlast : Expected.operand = .after read.getLast? := hoperand.symm.trans hexpected
    rcases kind_of_missing_operand hoperators hends hlast with
      hnil | ⟨before, hbefore, hopening | hcomma⟩
    · exact absurd (List.getLast?_eq_none_iff.1 hnil) (hnested.read_ne_nil hopen)
    · exact absurd hkind (kind_ne_closeParen hgroups hbefore hopening)
    · simp [hbefore, role, hcomma]
  · cases hopen
    obtain ⟨left, opening, inner, commas, rfl, hopening, hinner, rfl⟩ := hnested.exists_call
    rw [List.append_assoc, List.cons_append, List.cons_append]
    refine .of_builtin rfl
      ⟨rfl, rfl, hcount, (inner ++ token :: rest).map role, commas, ?_, ?_, Nat.add_comm commas 1⟩
    · simp [role, hopening]
    · rw [List.map_append, List.map_cons, hrole, hinner.directCommas?_eq]

/-- The end of an argument that fails blames the comma that ends it. -/
theorem blames_of_separate (h : Follows read walk) (hkind : token.kind = .comma)
    (hseparate : walk.separate token.position = .error error)
    (hoperators : checkOperators (read ++ token :: rest) = .ok ()) :
    Blames (read ++ token :: rest) error := by
  have hrole : token.role = .comma := by simp [role, hkind]
  obtain ⟨hexpected, hnested⟩ := h
  rcases Walk.separate_eq_error hseparate with rfl | ⟨hopen, hoperand, rfl⟩
  · exact .of_suits rfl hrole
  · refine .of_suits rfl (.inr (.inl ⟨hrole, ?_⟩))
    have hends : token.kind.endsOperand := by rw [hkind]; rfl
    have hlast : Expected.operand = .after read.getLast? := hoperand.symm.trans hexpected
    rcases kind_of_missing_operand hoperators hends hlast with
      hnil | ⟨before, hbefore, hopening | hcomma⟩
    · exact absurd (List.getLast?_eq_none_iff.1 hnil) (hnested.read_ne_nil hopen)
    · exact .inl (by simp [hbefore, role, hopening])
    · exact .inr (by simp [hbefore, role, hcomma])

/-- A step that fails blames the last token that was read, the function of the innermost group, or
the token that cannot be read. -/
theorem blames_of_step (h : Follows read walk) (hstep : walk.step token = .error error)
    (hoperators : checkOperators (read ++ token :: rest) = .ok ())
    (hgroups : checkGroups (read ++ token :: rest) = .ok ()) :
    Blames (read ++ token :: rest) error := by
  obtain ⟨kind, position⟩ := token
  obtain ⟨groups, expected⟩ := walk
  obtain ⟨hexpected, hnested⟩ := id h
  cases expected with
  | arguments function name =>
      obtain ⟨left, rfl⟩ :=
        List.getLast?_eq_some_iff.1 (Expected.eq_of_after_arguments hexpected.symm)
      have hne : kind ≠ .openParen := by
        rintro rfl
        cases hstep
      have herror : error = .fault (.missingArguments function) name := by
        cases kind <;> cases hstep <;> rfl
      rw [herror, List.append_assoc, List.singleton_append]
      refine .of_builtin rfl ⟨rfl, ?_⟩
      cases kind <;> simp [role] at hne ⊢
      split <;> simp
  | operator =>
      obtain ⟨before, hbefore, hrole⟩ := Expected.exists_of_after_operator hexpected.symm
      cases kind with
      | number | name | builtin | openParen =>
          cases hstep
          refine .of_suits rfl ⟨?_, before.role, by simp [hbefore], hrole⟩
          simp [role]
      | closeParen => exact h.blames_of_close rfl hstep hoperators hgroups
      | comma => exact h.blames_of_separate rfl hstep hoperators
      | operator => cases hstep
  | operand =>
      cases kind with
      | number | name | builtin | openParen => cases hstep
      | closeParen => exact h.blames_of_close rfl hstep hoperators hgroups
      | comma => exact h.blames_of_separate rfl hstep hoperators
      | operator op =>
          have herror : op.actsAsSign = false ∧ error = .fault .missingOperand position := by
            cases op <;> cases hstep <;> exact ⟨rfl, rfl⟩
          obtain ⟨hsign, rfl⟩ := herror
          refine .of_suits rfl (.inr (.inr ⟨by simp [role, hsign], ?_⟩))
          rcases kind_of_missing_operand hoperators rfl hexpected with
            hnil | ⟨before, hbefore, hopen | hcomma⟩
          · exact .inl (by simp [List.getLast?_eq_none_iff.1 hnil])
          · exact .inr (.inl (by simp [hbefore, role, hopen]))
          · exact .inr (.inr (by simp [hbefore, role, hcomma]))

/-- A walk over tokens that pass the other checks blames one of them if it fails. -/
theorem blames_of_run {tokens : List Token} (h : Follows read walk)
    (hrun : tokens.foldlM Walk.step walk = .error error)
    (hoperators : checkOperators (read ++ tokens) = .ok ())
    (hgroups : checkGroups (read ++ tokens) = .ok ()) : Blames (read ++ tokens) error := by
  induction tokens generalizing read walk with
  | nil => cases hrun
  | cons token rest ih =>
      rw [List.foldlM_cons] at hrun
      cases hstep : walk.step token with
      | error failure =>
          rw [hstep] at hrun
          cases hrun
          exact h.blames_of_step hstep hoperators hgroups
      | ok next =>
          rw [hstep, ok_bind] at hrun
          rw [List.append_cons] at hoperators hgroups ⊢
          exact ih (h.step hstep) hrun hoperators hgroups

/-- A walk has read all tokens if it does not fail. -/
theorem run {tokens : List Token} (h : Follows read walk)
    (hrun : tokens.foldlM Walk.step walk = .ok next) : Follows (read ++ tokens) next := by
  induction tokens generalizing read walk with
  | nil =>
      cases hrun
      rwa [List.append_nil]
  | cons token rest ih =>
      rw [List.foldlM_cons, bind_eq_ok_iff] at hrun
      obtain ⟨after, hstep, hrun⟩ := hrun
      rw [List.append_cons]
      exact ih (h.step hstep) hrun

/-- The end of a walk blames a function without arguments or a parenthesis that is not closed. That
an operand is missing there is ruled out by the check of operators. -/
theorem blames_of_finish (h : Follows read walk)
    (hfinish : walk.finish read.getLast? = .error error)
    (hoperators : checkOperators read = .ok ()) : Blames read error := by
  obtain ⟨groups, expected⟩ := walk
  obtain ⟨hexpected, hnested⟩ := h
  by_cases harguments : ∃ function name, expected = .arguments function name
  · obtain ⟨function, name, rfl⟩ := harguments
    obtain ⟨left, rfl⟩ :=
      List.getLast?_eq_some_iff.1 (Expected.eq_of_after_arguments hexpected.symm)
    cases hfinish
    exact .of_builtin rfl ⟨rfl, by simp⟩
  rcases List.eq_nil_or_concat groups with rfl | ⟨inner, group, rfl⟩
  · have hoperand : expected = .operand := by
      cases expected with
      | operand => rfl
      | operator => cases hfinish
      | arguments function name => exact absurd ⟨function, name, rfl⟩ harguments
    subst hoperand
    cases hnested with
    | outside hread =>
        -- what was read has no comma outside of groups and does not end with a parenthesis that
        -- opens one
        have hlast := hread.getLast?_ne
        rw [List.getLast?_map] at hlast
        rcases Expected.kind_of_after_operand hexpected.symm
          (fun before hbefore => isOperator_eq_false hoperators hbefore) with
          hnil | ⟨before, hbefore, hopen | hcomma⟩
        · simp [hnil, Walk.finish] at hfinish
        · simp [hbefore, role, hopen] at hlast
        · simp [hbefore, role, hcomma] at hlast
  · have herror : error = .fault .unbalancedParentheses group.opened := by
      cases expected with
      | arguments function name => exact absurd ⟨function, name, rfl⟩ harguments
      | _ => simpa [Walk.finish] using hfinish.symm
    have hgroup : group ∈ inner.concat group := by simp
    obtain ⟨left, opening, right, rfl, hopen, hopened⟩ := hnested.exists_opened hgroup
    rw [herror, ← hopened]
    exact .of_suits rfl (.inl (by simp [role, hopen]))

end Walk.Follows

/-- The check of a token sequence blames a token that the fault suits. -/
theorem blames_of_check {tokens : List Token} {error : CompileError}
    (h : check tokens = .error error) : Blames tokens error := by
  unfold check at h
  cases hoperators : checkOperators tokens with
  | error failure =>
      rw [hoperators] at h
      cases h
      exact blames_of_checkOperators [] hoperators
  | ok =>
      cases hgroups : checkGroups tokens with
      | error failure =>
          rw [hoperators, ok_bind, hgroups] at h
          cases h
          exact blames_of_checkGroups [] hgroups
      | ok =>
          rw [hoperators, ok_bind, hgroups, ok_bind, checkShape] at h
          have hstart : Walk.Follows [] .start := ⟨rfl, .outside .nil⟩
          cases hrun : tokens.foldlM Walk.step .start with
          | error failure =>
              rw [hrun] at h
              cases h
              exact hstart.blames_of_run hrun hoperators hgroups
          | ok walk =>
              rw [hrun, ok_bind] at h
              exact (hstart.run hrun).blames_of_finish h hoperators

end Reckoner.Token
