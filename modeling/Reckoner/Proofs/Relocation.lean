import Reckoner.Proofs.Faults

/-!
# Relocation of lexemes

The compiler carries positions along but never looks at them: if the lexemes are moved to other
positions, the program stays the same and the position of an error moves along with its lexeme. This
is `Program.ofLexemes_relocate`. Every stage commutes with the move, which `relocated` states for
computations that may fail.
-/

namespace Reckoner

/-- The move of an error. -/
def CompileError.relocate (move : Position → Position) : CompileError → CompileError
  | emptyExpression => emptyExpression
  | fault cause position => fault cause (move position)

/-- The move of a computation that may fail, given that of its result. -/
def relocated {α β : Type} (move : Position → Position) (f : α → β) :
    Except CompileError α → Except CompileError β
  | .ok a => .ok (f a)
  | .error error => .error (error.relocate move)

section Relocated

variable {α β γ δ : Type} {move : Position → Position}

/-- Two computations in a row move if both of them do. -/
theorem relocated_bind {f : α → β} {g : γ → δ} {x : Except CompileError α}
    {next : α → Except CompileError γ} {next' : β → Except CompileError δ}
    (h : ∀ a, next' (f a) = relocated move g (next a)) :
    relocated move f x >>= next' = relocated move g (x >>= next) := by
  cases x with
  | ok a => exact h a
  | error error => rfl

/-- A computation on every member of a list moves if it does on each of them. -/
theorem mapM_relocated {f : α → β} {g : γ → δ} {next : α → Except CompileError γ}
    {next' : β → Except CompileError δ} (h : ∀ a, next' (f a) = relocated move g (next a))
    (xs : List α) :
    (xs.map f).mapM next' = relocated move (List.map g) (xs.mapM next) := by
  induction xs with
  | nil => rfl
  | cons x rest ih =>
      rw [List.map_cons, List.mapM_cons, List.mapM_cons, h]
      refine relocated_bind fun c => ?_
      rw [ih]
      exact relocated_bind fun cs => rfl

/-- A computation along a list moves if it does at every member. -/
theorem foldlM_relocated {f : α → β} {g : γ → δ} {next : γ → α → Except CompileError γ}
    {next' : δ → β → Except CompileError δ}
    (h : ∀ c a, next' (g c) (f a) = relocated move g (next c a)) (xs : List α) (c : γ) :
    (xs.map f).foldlM next' (g c) = relocated move g (xs.foldlM next c) := by
  induction xs generalizing c with
  | nil => rfl
  | cons x rest ih =>
      rw [List.map_cons, List.foldlM_cons, List.foldlM_cons, h]
      exact relocated_bind ih

end Relocated

variable (move : Position → Position)

/-- The move of a lexeme. -/
def Lexeme.relocate (lexeme : Lexeme) : Lexeme := { lexeme with position := move lexeme.position }

namespace Balance

/-- The move of a balance. -/
def relocate (balance : Balance) : Balance :=
  ⟨balance.depth, balance.unanswered.map move, balance.lastClose.map move⟩

/-- A lexeme that moves is noted at its new position. -/
theorem noteLexeme_relocate (balance : Balance) {lexeme : Lexeme} (h : lexeme.IsProper) :
    (balance.relocate move).noteLexeme (lexeme.relocate move) =
      (balance.noteLexeme lexeme).relocate move := by
  have hmoved : (lexeme.relocate move).IsProper := ⟨h.isRun, h.ofChar_eq, h.category_ne⟩
  rw [noteLexeme_eq _ hmoved, noteLexeme_eq _ h]
  by_cases hopening : lexeme.text = "("
  · simp [Lexeme.relocate, relocate, hopening]
  · by_cases hclosing : lexeme.text = ")" <;> simp [Lexeme.relocate, relocate, hopening, hclosing]

/-- The balance of lexemes that move. -/
theorem foldl_relocate (balance : Balance) {lexemes : List Lexeme}
    (h : ∀ lexeme ∈ lexemes, lexeme.IsProper) :
    (lexemes.map (Lexeme.relocate move)).foldl noteLexeme (balance.relocate move) =
      (lexemes.foldl noteLexeme balance).relocate move := by
  induction lexemes generalizing balance with
  | nil => rfl
  | cons lexeme rest ih =>
      rw [List.map_cons, List.foldl_cons, noteLexeme_relocate move balance (h _ List.mem_cons_self)]
      exact ih _ fun l hl => h l (List.mem_cons_of_mem _ hl)

/-- The parenthesis to blame moves along. -/
theorem IsSound.culprit?_relocate {lexemes : List Lexeme} {balance : Balance}
    (h : IsSound lexemes balance) :
    (balance.relocate move).culprit? = balance.culprit?.map move := by
  have hdepth : (balance.relocate move).depth = balance.depth := rfl
  rcases Int.lt_trichotomy balance.depth 0 with hneg | hzero | hpos
  · obtain ⟨last, hlast⟩ := h.exists_lastClose_eq hneg
    rw [culprit?_of_neg hneg, culprit?_of_neg (hdepth ▸ hneg)]
    simp [relocate, hlast]
  · rw [culprit?_eq_none_iff.2 hzero, culprit?_eq_none_iff.2 (hdepth.trans hzero)]
    rfl
  · obtain ⟨last, hlast⟩ := h.exists_getLast?_eq hpos
    rw [culprit?_of_pos hpos, culprit?_of_pos (hdepth ▸ hpos)]
    simp [relocate, hlast]

end Balance

namespace Token

/-- The move of a token. -/
def relocate (token : Token) : Token := { token with position := move token.position }

/-- The move of what is expected. -/
def Expected.relocate : Expected → Expected
  | arguments function position => arguments function (move position)
  | expected => expected

/-- The move of a group. -/
def Group.relocate (group : Group) : Group :=
  ⟨group.call.map fun call => (call.1, move call.2), group.arguments, move group.opened⟩

/-- The move of a walk. -/
def Walk.relocate (walk : Walk) : Walk :=
  ⟨walk.groups.map (Group.relocate move), walk.expected.relocate move⟩

/-- A lexeme that moves has the token that moves. -/
theorem ofLexeme_relocate (lexeme : Lexeme) :
    ofLexeme (lexeme.relocate move) = relocated move (relocate move) (ofLexeme lexeme) := by
  unfold ofLexeme Lexeme.relocate
  dsimp only
  cases lexeme.text.toList with
  | nil => rfl
  | cons first _ =>
      dsimp only
      cases Kind.ofText first lexeme.text <;> rfl

/-- The kinds of tokens do not move. -/
theorem map_kind_relocate (tokens : List Token) :
    (tokens.map (relocate move)).map Token.kind = tokens.map Token.kind := by
  rw [List.map_map]
  rfl

/-- The check of operators moves along. -/
theorem checkOperators_relocate (tokens : List Token) :
    checkOperators (tokens.map (relocate move)) = relocated move id (checkOperators tokens) := by
  fun_induction checkOperators tokens with
  | case1 => rfl
  | case2 last hlast | case3 last hlast =>
      simp [checkOperators, relocate, hlast, relocated, CompileError.relocate]
  | case4 first second rest hpair =>
      simp [checkOperators, relocate, hpair, relocated, CompileError.relocate]
  | case5 first second rest hpair ih =>
      rw [← ih]
      simp [checkOperators, relocate, hpair]

/-- The check of groups moves along. -/
theorem checkGroups_relocate (tokens : List Token) :
    checkGroups (tokens.map (relocate move)) = relocated move id (checkGroups tokens) := by
  fun_induction checkGroups tokens with
  | case1 first second rest hpair =>
      simp [checkGroups, relocate, hpair, relocated, CompileError.relocate]
  | case2 first second rest hpair ih =>
      rw [← ih]
      simp only [List.map_cons, checkGroups, relocate, if_neg hpair]
  | case3 tokens hshort =>
      rcases tokens with _ | ⟨first, _ | ⟨second, rest⟩⟩
      · rfl
      · rfl
      · exact absurd rfl (hshort first second rest)

namespace Walk

/-- The end of a group moves along. -/
theorem close_relocate (walk : Walk) (position : Position) :
    (walk.relocate move).close (move position) =
      relocated move (relocate move) (walk.close position) := by
  obtain ⟨groups, expected⟩ := walk
  rcases groups with _ | ⟨⟨_ | ⟨function, name⟩, arguments, opened⟩, groups⟩
  · rfl
  · cases expected <;> rfl
  · cases expected with
    | operand => rfl
    | operator | arguments =>
        simp only [relocate, List.map_cons, Group.relocate, Option.map_some, Expected.relocate,
          close]
        split <;> rfl

/-- The end of an argument moves along. -/
theorem separate_relocate (walk : Walk) (position : Position) :
    (walk.relocate move).separate (move position) =
      relocated move (relocate move) (walk.separate position) := by
  obtain ⟨groups, expected⟩ := walk
  rcases groups with _ | ⟨⟨_ | call, arguments, opened⟩, groups⟩
  · rfl
  · rfl
  · cases expected <;> rfl

/-- A step of the walk moves along. -/
theorem step_relocate (walk : Walk) (token : Token) :
    (walk.relocate move).step (token.relocate move) =
      relocated move (relocate move) (walk.step token) := by
  obtain ⟨groups, expected⟩ := walk
  obtain ⟨kind, position⟩ := token
  cases kind with
  | number | name | builtin | openParen => cases expected <;> rfl
  | closeParen =>
      cases expected with
      | operand | operator => exact close_relocate move _ position
      | arguments => rfl
  | comma =>
      cases expected with
      | operand | operator => exact separate_relocate move _ position
      | arguments => rfl
  | operator op =>
      cases expected with
      | operand => cases op <;> rfl
      | operator | arguments => rfl

/-- The verdict at the end moves along. -/
theorem finish_relocate (walk : Walk) (last? : Option Token) :
    (walk.relocate move).finish (last?.map (Token.relocate move)) =
      relocated move id (walk.finish last?) := by
  obtain ⟨groups, expected⟩ := walk
  rcases List.eq_nil_or_concat groups with rfl | ⟨inner, group, rfl⟩ <;> cases expected <;>
    cases last? <;> simp [finish, relocate, Expected.relocate, Group.relocate, Token.relocate,
      relocated, CompileError.relocate]

end Walk

/-- The whole check moves along. -/
theorem check_relocate (tokens : List Token) :
    check (tokens.map (relocate move)) = relocated move id (check tokens) := by
  unfold check checkShape
  rw [checkOperators_relocate, checkGroups_relocate, List.getLast?_map]
  refine relocated_bind fun _ => relocated_bind fun _ => ?_
  have hrun : (tokens.map (relocate move)).foldlM Walk.step .start =
      relocated move (Walk.relocate move) (tokens.foldlM Walk.step .start) :=
    foldlM_relocated (Walk.step_relocate move) tokens .start
  rw [hrun]
  exact relocated_bind fun walk => walk.finish_relocate move _

end Token

/-- Lexemes that move have the same program, or the same error, which moves with them. -/
theorem Program.ofLexemes_relocate {lexemes : List Lexeme}
    (h : ∀ lexeme ∈ lexemes, lexeme.IsProper) :
    ofLexemes (lexemes.map (Lexeme.relocate move)) = relocated move id (ofLexemes lexemes) := by
  have hsound := (Balance.IsSound.empty lexemes).foldl (List.Subset.refl lexemes) h
  have hempty : Balance.empty.relocate move = .empty := rfl
  unfold ofLexemes
  rw [← hempty, Balance.foldl_relocate move _ h, hempty, hsound.culprit?_relocate]
  cases (lexemes.foldl Balance.noteLexeme .empty).culprit? with
  | some position => rfl
  | none =>
      simp only [Option.map_none, List.map_eq_nil_iff]
      split
      · rfl
      · rename_i hne
        have htokens : Token.ofLexemes (lexemes.map (Lexeme.relocate move)) =
            relocated move (List.map (Token.relocate move)) (Token.ofLexemes lexemes) :=
          mapM_relocated (Token.ofLexeme_relocate move) lexemes
        rw [htokens]
        cases hread : Token.ofLexemes lexemes with
        | error failure => rfl
        | ok tokens =>
            simp only [relocated, ok_bind, Token.check_relocate]
            cases hcheck : Token.check tokens with
            | error failure => rfl
            | ok =>
                obtain ⟨program, hprogram⟩ :=
                  ofTokens_of_check (ne_nil_of_ofLexemes hread hne) hcheck
                simp only [ok_bind, id]
                rw [hprogram _ (Token.map_kind_relocate move tokens), hprogram tokens rfl]

end Reckoner
