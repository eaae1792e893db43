import Mathlib.Data.List.Chain
import Reckoner.Proofs.Grammar.Postfix
import Reckoner.Proofs.Levels

/-!
# Token sequences with a postfix form

The yard accepts token sequences that are no expressions. Read `Program.ofTokens_eq_ok_iff` first:
it accepts exactly the shuntable ones, and refuses the others at one of their tokens. Two facts
carry the proof. As long as every token is admitted, the yard holds a row of waiting tokens for
each level that is open, the names of functions on top (`Waits`). An operator on top of a name keeps
it from its arguments, and nothing that follows mends this (`Yard.isClear_of_step`), so that the run
fails at the latest behind the last token.
-/

namespace Reckoner

open Token (Kind IsNested IsLevel IsSettled IsShuntable depth waiting)

/-- The upper one of two waiting tokens keeps the lower one from its arguments. -/
def Token.Kind.Blocks (upper lower : Kind) : Prop :=
  upper.isOperator = true ∧ ∃ function, lower = .builtin function

namespace Pending

/-- No waiting token blocks the one below. -/
def IsClear (kinds : List Kind) : Prop := kinds.IsChain fun upper lower => ¬ upper.Blocks lower

section Clear

variable {kinds : List Kind} {ops : List Operator}

/-- What is not an operator blocks nothing. -/
theorem isClear_cons {top : Kind} (htop : top.isOperator = false) (h : IsClear kinds) :
    IsClear (top :: kinds) := by
  refine List.isChain_cons.2 ⟨fun lower _ hblocks => ?_, h⟩
  cases htop.symm.trans hblocks.1

/-- Operators block nothing but a name directly below them. -/
theorem isClear_operators (h : IsClear kinds)
    (hhead : ∀ function, kinds.head? ≠ some (.builtin function)) :
    IsClear (ops.map Kind.operator ++ kinds) := by
  induction ops with
  | nil => exact h
  | cons op ops ih =>
      refine List.isChain_cons.2 ⟨?_, ih⟩
      rintro lower hlower ⟨-, function, rfl⟩
      cases ops with
      | nil => exact hhead function hlower
      | cons => cases hlower

/-- An operator that blocks nothing does not stand on a name. -/
theorem head?_ne_of_isClear {op : Operator} (h : IsClear (.operator op :: kinds)) :
    ∀ function, kinds.head? ≠ some (.builtin function) := fun function hhead =>
  (List.isChain_cons.1 h).1 _ hhead ⟨rfl, function, rfl⟩

end Clear

section Release

variable {pending left : List Pending} {released : List Instruction} {token : Token}

/-- An operator takes away a front part of what waits, and operators only. -/
theorem exists_release_eq (precedence : Nat) (pending : List Pending) :
    ∃ (taken : List Pending) (ops : List Operator), taken.map kind = ops.map Kind.operator ∧
      pending = taken ++ (release precedence pending).2 := by
  induction pending with
  | nil => exact ⟨[], [], rfl, rfl⟩
  | cons top rest ih =>
      cases top with
      | operator op position =>
          obtain ⟨taken, ops, hops, hsplit⟩ := ih
          by_cases hbinds : precedence ≤ op.precedence
          · refine ⟨operator op position :: taken, op :: ops, by simp [hops, kind], ?_⟩
            simpa [release, hbinds] using hsplit
          · exact ⟨[], [], rfl, by simp [release, hbinds]⟩
      | builtin | openParen => exact ⟨[], [], rfl, rfl⟩

/-- Of the operators on top, an operator leaves some or none. -/
theorem exists_release_of_kinds (precedence : Nat) {ops : List Operator} {below : List Kind}
    (h : pending.map kind = ops.map Kind.operator ++ below)
    (hbelow : ∀ op, below.head? ≠ some (.operator op)) :
    ∃ others : List Operator,
      (release precedence pending).2.map kind = others.map Kind.operator ++ below := by
  induction ops generalizing pending with
  | nil =>
      refine ⟨[], ?_⟩
      match pending with
      | [] | builtin _ _ :: _ | openParen _ :: _ => exact h
      | operator op _ :: _ =>
          refine absurd ?_ (hbelow op)
          rw [← List.nil_append below]
          exact h ▸ rfl
  | cons op ops ih =>
      obtain ⟨top, rest, rfl, htop, hrest⟩ := List.map_eq_cons_iff.1 h
      obtain ⟨position, rfl⟩ := eq_operator_of_kind htop
      by_cases hbinds : precedence ≤ op.precedence
      · obtain ⟨others, hothers⟩ := ih hrest
        exact ⟨others, by simp [release, hbinds, hothers]⟩
      · exact ⟨op :: ops, by simp [release, hbinds, hrest, kind]⟩

/-- The end of an argument takes away the operators on top of an opening parenthesis. -/
theorem exists_of_releaseGroup (h : releaseGroup token pending = .ok (released, left)) :
    ∃ (taken : List Pending) (ops : List Operator), taken.map kind = ops.map Kind.operator ∧
      pending = taken ++ left ∧ ∃ position rest, left = openParen position :: rest := by
  induction pending generalizing released left with
  | nil => cases h
  | cons top rest ih =>
      cases top with
      | operator op position =>
          obtain ⟨⟨further, below⟩, hrest, heq⟩ := bind_eq_ok_iff.1 h
          cases heq
          obtain ⟨taken, ops, hops, rfl, hleft⟩ := ih hrest
          exact ⟨operator op position :: taken, op :: ops, by simp [hops, kind], rfl, hleft⟩
      | builtin => cases h
      | openParen position =>
          cases h
          exact ⟨[], [], rfl, rfl, position, rest, rfl⟩

/-- The end of a group takes away one name at most. -/
theorem exists_closeGroup_eq (position : Position) (rest : List Pending) :
    ∃ functions : List Builtin, rest.map kind =
      functions.map Kind.builtin ++ (closeGroup (openParen position :: rest)).2.map kind := by
  match rest with
  | [] | operator _ _ :: _ | openParen _ :: _ => exact ⟨[], rfl⟩
  | builtin function _ :: _ => exact ⟨[function], rfl⟩

/-- Only operators may be left at the end. -/
theorem exists_of_releaseAll (h : releaseAll pending = .ok released) :
    ∃ ops : List Operator, pending.map kind = ops.map Kind.operator := by
  induction pending generalizing released with
  | nil => exact ⟨[], rfl⟩
  | cons top rest ih =>
      cases top with
      | operator op position =>
          obtain ⟨further, hrest, -⟩ := bind_eq_ok_iff.1 h
          obtain ⟨ops, hops⟩ := ih hrest
          exact ⟨op :: ops, by rw [List.map_cons, hops]; rfl⟩
      | builtin | openParen => cases h

end Release

end Pending

open Pending (IsClear)

namespace Yard

variable {yard next : Yard} {token : Token} {tokens : List Token} {instructions : List Instruction}

/-- A token that blocks a name does so for good. -/
theorem isClear_of_step (h : yard.step token = .ok (instructions, next))
    (hclear : IsClear (next.pending.map Pending.kind)) :
    IsClear (yard.pending.map Pending.kind) := by
  obtain ⟨kind, position⟩ := token
  cases kind with
  | number | name =>
      cases h
      exact hclear
  | builtin | openParen =>
      cases h
      exact (List.isChain_cons.1 hclear).2
  | operator op =>
      cases h
      obtain ⟨taken, ops, hops, hsplit⟩ := Pending.exists_release_eq op.precedence yard.pending
      rw [hsplit, List.map_append, hops]
      exact Pending.isClear_operators (List.isChain_cons.1 hclear).2
        (Pending.head?_ne_of_isClear hclear)
  | comma =>
      obtain ⟨⟨released, left⟩, hreleased, heq⟩ := bind_eq_ok_iff.1 h
      cases heq
      obtain ⟨taken, ops, hops, hsplit, opened, rest, rfl⟩ :=
        Pending.exists_of_releaseGroup hreleased
      rw [hsplit, List.map_append, hops]
      exact Pending.isClear_operators hclear (by simp [Pending.kind])
  | closeParen =>
      obtain ⟨⟨released, left⟩, hreleased, heq⟩ := bind_eq_ok_iff.1 h
      cases heq
      obtain ⟨taken, ops, hops, hsplit, opened, rest, rfl⟩ :=
        Pending.exists_of_releaseGroup hreleased
      obtain ⟨functions, hfunctions⟩ := Pending.exists_closeGroup_eq opened rest
      rw [hsplit, List.map_append, hops, List.map_cons, hfunctions]
      -- the operators of the group lie on its parenthesis, and this on the name if there is one
      refine Pending.isClear_operators (Pending.isClear_cons rfl ?_) (by simp [Pending.kind])
      clear hfunctions
      induction functions with
      | nil => exact hclear
      | cons function functions ih => exact Pending.isClear_cons rfl ih

/-- Nothing is blocked in front of tokens that the yard accepts. -/
theorem isClear_of_run (h : yard.run tokens = .ok instructions) :
    IsClear (yard.pending.map Pending.kind) := by
  induction tokens generalizing yard instructions with
  | nil =>
      obtain ⟨ops, hops⟩ := Pending.exists_of_releaseAll h
      rw [hops, ← List.append_nil (ops.map Kind.operator)]
      exact Pending.isClear_operators .nil (by simp)
  | cons token rest ih =>
      obtain ⟨⟨first, next⟩, hstep, h⟩ := bind_eq_ok_iff.1 h
      obtain ⟨following, hrun, -⟩ := bind_eq_ok_iff.1 h
      exact isClear_of_step hstep (ih hrun)

end Yard

/-- The tokens of a level that wait behind a part of it: the names without parentheses so far, and
below them operators. -/
structure IsRow (level : List Token) (row : List Kind) : Prop where
  isNested : IsNested level
  exists_eq : ∃ (functions : List Builtin) (ops : List Operator),
    row = functions.map Kind.builtin ++ ops.map Kind.operator ∧ functions.length = waiting level

namespace IsRow

variable {level inner : List Token} {row : List Kind} {token opening closing : Token}

theorem nil : IsRow [] [] := ⟨.nil, [], [], rfl, rfl⟩

/-- No parenthesis waits in a row. -/
theorem openParen_notMem (h : IsRow level row) : Kind.openParen ∉ row := by
  obtain ⟨functions, ops, rfl, -⟩ := h.exists_eq
  simp

/-- No name waits in a row that does not start with one. -/
theorem waiting_eq_zero (h : IsRow level row)
    (hhead : ∀ function, row.head? ≠ some (.builtin function)) : waiting level = 0 := by
  obtain ⟨functions, ops, rfl, hlength⟩ := h.exists_eq
  cases functions with
  | nil => exact hlength.symm
  | cons function functions => exact absurd rfl (hhead function)

/-- Where no name waits, operators do. -/
theorem exists_operators (h : IsRow level row) (hwaiting : waiting level = 0) :
    ∃ ops : List Operator, row = ops.map Kind.operator := by
  obtain ⟨functions, ops, rfl, hlength⟩ := h.exists_eq
  obtain rfl := List.eq_nil_of_length_eq_zero (hlength.trans hwaiting)
  exact ⟨ops, rfl⟩

/-- A number or a name does not wait. -/
theorem operand (h : IsRow level row) (hnesting : token.kind.nesting = 0)
    (hwaiting : waiting (level ++ [token]) = waiting level) : IsRow (level ++ [token]) row where
  isNested := h.isNested.append (.singleton hnesting)
  exists_eq := by simpa only [hwaiting] using h.exists_eq

/-- The name of a function waits. -/
theorem builtin {function : Builtin} (h : IsRow level row)
    (hkind : token.kind = .builtin function) :
    IsRow (level ++ [token]) (.builtin function :: row) where
  isNested := h.isNested.append (.singleton (by rw [hkind]; rfl))
  exists_eq := by
    obtain ⟨functions, ops, rfl, hlength⟩ := h.exists_eq
    refine ⟨function :: functions, ops, rfl, ?_⟩
    rw [h.isNested.waiting_concat, Token.Tally.note, hkind]
    simp [hlength]

/-- An operator or a comma where no name waits leaves operators. -/
theorem operators (h : IsRow level row) (hnesting : token.kind.nesting = 0)
    (hwaiting : waiting (level ++ [token]) = 0) (ops : List Operator) :
    IsRow (level ++ [token]) (ops.map Kind.operator) where
  isNested := h.isNested.append (.singleton hnesting)
  exists_eq := ⟨[], ops, rfl, hwaiting.symm⟩

/-- A pair of parentheses takes away the name on top, if there is one. -/
theorem group (h : IsRow level row) (hinner : IsNested inner) (hopening : opening.kind = .openParen)
    (hclosing : closing.kind = .closeParen) :
    ∃ rest, IsRow (level ++ opening :: (inner ++ [closing])) rest ∧
      ((∀ function, row.head? ≠ some (.builtin function)) ∧ row = rest ∨
        ∃ function, row = .builtin function :: rest) := by
  have hnested := h.isNested.append (hinner.group hopening hclosing)
  have hwaiting := h.isNested.waiting_group hinner hopening hclosing
  obtain ⟨functions, ops, rfl, hlength⟩ := h.exists_eq
  cases functions with
  | nil =>
      refine ⟨ops.map Kind.operator, ⟨hnested, [], ops, rfl, ?_⟩, .inl ⟨?_, rfl⟩⟩
      · rw [hwaiting, ← hlength]
        rfl
      · cases ops <;> simp
  | cons function functions =>
      refine ⟨functions.map Kind.builtin ++ ops.map Kind.operator,
        ⟨hnested, functions, ops, rfl, ?_⟩, .inr ⟨function, rfl⟩⟩
      rw [hwaiting, ← hlength]
      rfl

end IsRow

/-- What waits below a level that starts behind these tokens: for each opening parenthesis without a
partner, the parenthesis and the row of the level in which it stands. -/
inductive IsBelow : List Token → List Kind → Prop where
  | nil : IsBelow [] []
  | group {before level below row opening} : IsBelow before below → IsRow level row →
      opening.kind = .openParen →
      IsBelow (before ++ level ++ [opening]) (.openParen :: (row ++ below))

namespace IsBelow

variable {before : List Token} {below : List Kind}

/-- A level starts behind an opening parenthesis or at the start of the tokens. -/
theorem kind_getLast? (h : IsBelow before below) :
    ∀ opening ∈ before.getLast?, opening.kind = .openParen := by
  cases h with
  | nil => simp
  | group _ _ hopening => simpa using hopening

/-- Only an opening parenthesis waits directly below a level. -/
theorem eq_openParen (h : IsBelow before below) : ∀ top ∈ below.head?, top = .openParen := by
  cases h <;> simp

/-- In front of every level but the top level some parenthesis is open. -/
theorem depth_pos (h : IsBelow before below) (hne : before ≠ []) : 0 < depth before := by
  induction h with
  | nil => exact absurd rfl hne
  | @group before level below row opening _ hrow hopening ih =>
      have hbefore : 0 ≤ depth before := by
        by_cases hnil : before = []
        · rw [hnil]
          exact Int.le_refl 0
        · exact Int.le_of_lt (ih hnil)
      simp only [Token.depth_append, Token.depth_cons, Token.depth_nil, hopening, Kind.nesting,
        hrow.isNested.depth_eq_zero]
      omega

end IsBelow

/-- What waits behind a part of a level, given what stands before the level. -/
structure Waits (before level : List Token) (kinds : List Kind) : Prop where
  exists_eq : ∃ row below, kinds = row ++ below ∧ IsRow level row ∧ IsBelow before below

/-- The token can follow this part of a level, given what stands before the level. -/
def Admits (before level : List Token) (token : Token) : Prop :=
  match token.kind with
  | .operator _ => waiting level = 0
  | .comma | .closeParen => before ≠ [] ∧ waiting level = 0
  | _ => True

namespace Waits

variable {before level : List Token} {kinds : List Kind} {yard next : Yard} {token : Token}
  {instructions : List Instruction}

theorem start : Waits [] [] [] := ⟨[], [], rfl, .nil, .nil⟩

/-- If the name of a function does not wait on top, none waits in the level. -/
theorem waiting_eq_zero (h : Waits before level kinds)
    (hhead : ∀ function, kinds.head? ≠ some (.builtin function)) : waiting level = 0 := by
  obtain ⟨row, below, rfl, hrow, -⟩ := h.exists_eq
  refine hrow.waiting_eq_zero fun function hfunction => hhead function ?_
  rw [List.head?_append, hfunction]
  rfl

/-- A level that does not start with the tokens has an open parenthesis below. -/
theorem ne_nil (h : Waits before level kinds) (hmem : .openParen ∈ kinds) : before ≠ [] := by
  rintro rfl
  obtain ⟨row, below, rfl, hrow, hbelow⟩ := h.exists_eq
  generalize hbefore : ([] : List Token) = before at hbelow
  cases hbelow with
  | nil => exact hrow.openParen_notMem (by simpa using hmem)
  | group => simp at hbefore

/-- The end of a level in which operators wait. What follows belongs to the level outside, which
gets the pair of parentheses as one more item. -/
theorem exists_step_closeParen (position : Position) {outer : List Token} {opening : Token}
    {ops : List Operator} {row below : List Kind}
    (hkinds : yard.pending.map Pending.kind =
      ops.map Kind.operator ++ .openParen :: (row ++ below))
    (hlevel : IsNested level) (houter : IsRow outer row) (hbelow : IsBelow before below)
    (hopening : opening.kind = .openParen) :
    ∃ instructions next, yard.step ⟨.closeParen, position⟩ = .ok (instructions, next) ∧
      Waits before (outer ++ opening :: (level ++ [⟨.closeParen, position⟩]))
        (next.pending.map Pending.kind) := by
  have hclosing : (Token.mk .closeParen position).kind = .closeParen := rfl
  obtain ⟨rest, hrest, ⟨hhead, rfl⟩ | ⟨function, rfl⟩⟩ := houter.group hlevel hopening hclosing
  · have hfree : ∀ function, (row ++ below).head? ≠ some (.builtin function) := by
      intro function hfunction
      rw [List.head?_append] at hfunction
      rcases Option.or_eq_some_iff.1 hfunction with hrow | ⟨-, hfunction⟩
      · exact hhead function hrow
      · cases hbelow.eq_openParen _ hfunction
    obtain ⟨next, hstep, hnext, -⟩ := Yard.step_closeGroup position hkinds hfree
    exact ⟨_, next, hstep, row, below, hnext, hrest, hbelow⟩
  · obtain ⟨next, hstep, hnext, -⟩ := Yard.step_closeCall position hkinds
    exact ⟨_, next, hstep, rest, below, hnext, hrest, hbelow⟩

/-- The yard takes what is admitted. -/
theorem exists_step (h : Waits before level (yard.pending.map Pending.kind))
    (hadmits : Admits before level token) :
    ∃ instructions next nextBefore nextLevel, yard.step token = .ok (instructions, next) ∧
      Waits nextBefore nextLevel (next.pending.map Pending.kind) ∧
        nextBefore ++ nextLevel = before ++ level ++ [token] := by
  obtain ⟨row, below, hkinds, hrow, hbelow⟩ := h.exists_eq
  obtain ⟨kind, position⟩ := token
  have hconcat := hrow.isNested.waiting_concat ⟨kind, position⟩
  cases kind with
  | number | name =>
      exact ⟨_, _, before, level ++ [_], rfl,
        ⟨row, below, hkinds, hrow.operand rfl hconcat, hbelow⟩, (List.append_assoc _ _ _).symm⟩
  | builtin function =>
      exact ⟨_, _, before, level ++ [_], rfl,
        ⟨.builtin function :: row, below, by rw [List.map_cons, hkinds]; rfl, hrow.builtin rfl,
          hbelow⟩, (List.append_assoc _ _ _).symm⟩
  | openParen =>
      exact ⟨_, _, before ++ level ++ [_], [], rfl,
        ⟨[], _, by rw [List.map_cons, hkinds]; rfl, .nil, hbelow.group hrow rfl⟩,
        List.append_nil _⟩
  | operator op =>
      have hzero : waiting level = 0 := hadmits
      obtain ⟨ops, rfl⟩ := hrow.exists_operators hzero
      obtain ⟨others, hothers⟩ := Pending.exists_release_of_kinds op.precedence hkinds
        fun top htop => by cases hbelow.eq_openParen _ htop
      exact ⟨_, _, before, level ++ [_], rfl,
        ⟨(op :: others).map Kind.operator, below, by rw [List.map_cons, hothers]; rfl,
          hrow.operators rfl (hconcat.trans hzero) _, hbelow⟩, (List.append_assoc _ _ _).symm⟩
  | comma =>
      obtain ⟨hne, hzero⟩ : before ≠ [] ∧ waiting level = 0 := hadmits
      obtain ⟨ops, rfl⟩ := hrow.exists_operators hzero
      cases hbelow with
      | nil => exact absurd rfl hne
      | group hbelow houter hopening =>
          obtain ⟨after, hstep, hafter, -⟩ := Yard.step_comma position hkinds
          exact ⟨_, _, _, level ++ [_], hstep,
            ⟨[], _, hafter, hrow.operators rfl (hconcat.trans hzero) [],
              hbelow.group houter hopening⟩, (List.append_assoc _ _ _).symm⟩
  | closeParen =>
      obtain ⟨hne, hzero⟩ : before ≠ [] ∧ waiting level = 0 := hadmits
      obtain ⟨ops, rfl⟩ := hrow.exists_operators hzero
      cases hbelow with
      | nil => exact absurd rfl hne
      | @group before outer below row opening hbelow houter hopening =>
          obtain ⟨_, _, hstep, hwaits⟩ :=
            exists_step_closeParen position hkinds hrow.isNested houter hbelow hopening
          exact ⟨_, _, _, _, hstep, hwaits, by simp⟩

/-- The yard blocks no name by what is admitted only. -/
theorem admits (h : Waits before level (yard.pending.map Pending.kind))
    (hstep : yard.step token = .ok (instructions, next))
    (hclear : IsClear (next.pending.map Pending.kind)) : Admits before level token := by
  have hoperators : ∀ (ops : List Operator) (kinds : List Kind),
      (∀ function, kinds.head? ≠ some (.builtin function)) →
        ∀ function, (ops.map Kind.operator ++ kinds).head? ≠ some (.builtin function) := by
    intro ops kinds hkinds
    cases ops with
    | nil => exact hkinds
    | cons => simp
  obtain ⟨kind, position⟩ := token
  cases kind with
  | number | name | builtin | openParen => trivial
  | operator op =>
      cases hstep
      obtain ⟨taken, ops, hops, hsplit⟩ := Pending.exists_release_eq op.precedence yard.pending
      rw [hsplit, List.map_append, hops] at h
      exact h.waiting_eq_zero (hoperators _ _ (Pending.head?_ne_of_isClear hclear))
  | comma | closeParen =>
      obtain ⟨⟨released, left⟩, hreleased, -⟩ := bind_eq_ok_iff.1 hstep
      obtain ⟨taken, ops, hops, hsplit, opened, rest, rfl⟩ :=
        Pending.exists_of_releaseGroup hreleased
      rw [hsplit, List.map_append, hops] at h
      exact ⟨h.ne_nil (by simp [Pending.kind]),
        h.waiting_eq_zero (hoperators _ _ (by simp [Pending.kind]))⟩

/-- At the end nothing but operators of the top level may wait. -/
theorem releaseAll_eq_ok_iff {pending : List Pending}
    (h : Waits before level (pending.map Pending.kind)) :
    (∃ released, Pending.releaseAll pending = .ok released) ↔ before = [] ∧ waiting level = 0 := by
  constructor
  · rintro ⟨released, hreleased⟩
    obtain ⟨ops, hops⟩ := Pending.exists_of_releaseAll hreleased
    rw [hops] at h
    refine ⟨?_, h.waiting_eq_zero (by cases ops <;> simp)⟩
    obtain ⟨row, below, heq, -, hbelow⟩ := h.exists_eq
    cases hbelow with
    | nil => rfl
    | @group _ _ below row =>
        have hmem : Kind.openParen ∈ ops.map Kind.operator := by simp [heq]
        simp at hmem
  · rintro ⟨rfl, hzero⟩
    obtain ⟨row, below, hkinds, hrow, hbelow⟩ := h.exists_eq
    obtain ⟨ops, rfl⟩ := hrow.exists_operators hzero
    generalize hbefore : ([] : List Token) = before at hbelow
    cases hbelow with
    | nil => exact ⟨_, Pending.releaseAll_of_kinds (by simpa using hkinds)⟩
    | group => simp at hbefore

end Waits

/-- The tokens can follow this part of a level as far as the first of them is concerned. -/
def AdmitsFirst (before level : List Token) : List Token → Prop
  | [] => before = [] ∧ waiting level = 0
  | token :: _ => Admits before level token

/-- At every place of tokens that the yard accepts, what follows is admitted. -/
theorem Yard.exists_waits_of_run {yard : Yard} {before level tokens : List Token}
    {instructions : List Instruction} (h : Waits before level (yard.pending.map Pending.kind))
    (hrun : yard.run tokens = .ok instructions) (front back : List Token)
    (hsplit : tokens = front ++ back) :
    ∃ nextBefore nextLevel kinds, Waits nextBefore nextLevel kinds ∧
      nextBefore ++ nextLevel = before ++ level ++ front ∧
        AdmitsFirst nextBefore nextLevel back := by
  induction tokens generalizing yard before level instructions front with
  | nil =>
      obtain ⟨rfl, rfl⟩ := List.nil_eq_append_iff.1 hsplit
      exact ⟨before, level, _, h, (List.append_nil _).symm,
        h.releaseAll_eq_ok_iff.1 ⟨instructions, hrun⟩⟩
  | cons token rest ih =>
      obtain ⟨⟨first, next⟩, hstep, hrun⟩ := bind_eq_ok_iff.1 hrun
      obtain ⟨following, hrun, -⟩ := bind_eq_ok_iff.1 hrun
      -- the rest of the run succeeds, so this token has blocked nothing
      have hadmits := h.admits hstep (Yard.isClear_of_run hrun)
      cases front with
      | nil =>
          rw [List.nil_append] at hsplit
          subst hsplit
          exact ⟨before, level, _, h, (List.append_nil _).symm, hadmits⟩
      | cons head front =>
          obtain ⟨rfl, rfl⟩ := List.cons.inj hsplit
          obtain ⟨_, _, nextBefore, nextLevel, hother, hwaits, hparts⟩ := h.exists_step hadmits
          cases hother.symm.trans hstep
          obtain ⟨lastBefore, lastLevel, kinds, hlast, hlastParts, hfirst⟩ :=
            ih hwaits hrun front rfl
          refine ⟨lastBefore, lastLevel, kinds, hlast, ?_, hfirst⟩
          rw [hlastParts, hparts, List.append_assoc, List.singleton_append]

/-- Tokens are accepted if at every place what follows is admitted. -/
theorem Yard.exists_run_eq_ok {yard : Yard} {before level tokens : List Token}
    (h : Waits before level (yard.pending.map Pending.kind))
    (hadmits : ∀ nextBefore nextLevel front back kinds, tokens = front ++ back →
      Waits nextBefore nextLevel kinds → nextBefore ++ nextLevel = before ++ level ++ front →
        AdmitsFirst nextBefore nextLevel back) :
    ∃ instructions, yard.run tokens = .ok instructions := by
  induction tokens generalizing yard before level with
  | nil =>
      exact h.releaseAll_eq_ok_iff.2 (hadmits before level [] [] _ rfl h (List.append_nil _).symm)
  | cons token rest ih =>
      have hfirst := hadmits before level [] (token :: rest) _ rfl h (List.append_nil _).symm
      obtain ⟨instructions, next, nextBefore, nextLevel, hstep, hwaits, hparts⟩ :=
        h.exists_step hfirst
      obtain ⟨following, hrun⟩ := ih hwaits fun lastBefore lastLevel front back kinds hsplit hlast
          hlastParts => hadmits lastBefore lastLevel (token :: front) back kinds
            (by rw [hsplit, List.cons_append]) hlast
            (by rw [hlastParts, hparts, List.append_assoc, List.singleton_append])
      exact ⟨instructions ++ following, by simp [run, hstep, hrun]⟩

namespace Token.IsShuntable

variable {tokens before level rest : List Token}

/-- No name waits in the front part of a level if it is the whole level, or if an operator or a
comma follows. -/
theorem waiting_eq_zero (h : IsShuntable (before ++ level ++ rest)) (hlevel : IsNested level)
    (hbefore : ∀ opening ∈ before.getLast?, opening.kind = .openParen)
    (hrest : ∀ token ∈ rest.head?,
      token.kind.isOperator ∨ token.kind = .comma ∨ token.kind = .closeParen) :
    waiting level = 0 := by
  obtain ⟨inner, after, rfl, hnested, hwhole, -⟩ := exists_isLevel h.isNested hlevel hbefore
  have hsettled := h.isSettled _ hwhole
  cases inner with
  | nil => simpa using hsettled.waiting_eq_zero
  | cons token inner =>
      have hzero := hlevel.depth_eq_zero
      rcases hrest token (by simp) with hkind | hkind | hkind
      · exact hsettled.waiting_front level token inner rfl hzero (.inl hkind)
      · exact hsettled.waiting_front level token inner rfl hzero (.inr hkind)
      · -- a closing parenthesis would be the end of the level
        have hnonneg := hnested.depth_nonneg (level ++ [token]) (by simp)
        rw [depth_append, depth_cons, depth_nil, hkind, hzero, Kind.nesting] at hnonneg
        omega

/-- At every place of shuntable tokens what follows is admitted. -/
theorem admitsFirst {kinds : List Kind} (h : IsShuntable (before ++ level ++ rest))
    (hwaits : Waits before level kinds) : AdmitsFirst before level rest := by
  obtain ⟨row, below, rfl, hrow, hbelow⟩ := hwaits.exists_eq
  have hzero := hrow.isNested.depth_eq_zero
  have hwaiting := h.waiting_eq_zero hrow.isNested hbelow.kind_getLast?
  cases rest with
  | nil =>
      refine ⟨by_contra fun hne => ?_, hwaiting (by simp)⟩
      have hpos := hbelow.depth_pos hne
      have htotal := h.isNested.depth_eq_zero
      rw [List.append_nil, depth_append] at htotal
      omega
  | cons token rest =>
      obtain ⟨kind, position⟩ := token
      cases kind with
      | number | name | builtin | openParen => trivial
      | operator op => exact hwaiting (by simp [Kind.isOperator])
      | comma =>
          refine ⟨?_, hwaiting (by simp)⟩
          rintro rfl
          have hpos := h.depth_comma level _ rest rfl rfl
          omega
      | closeParen =>
          refine ⟨?_, hwaiting (by simp)⟩
          rintro rfl
          have hnonneg := h.isNested.depth_nonneg (level ++ [⟨.closeParen, position⟩]) (by simp)
          rw [depth_append, depth_cons, depth_nil, hzero, Kind.nesting] at hnonneg
          omega

end Token.IsShuntable

/-- No name waits where an operator, a comma or a closing parenthesis is admitted. -/
theorem Admits.waiting_eq_zero {before level : List Token} {token : Token}
    (h : Admits before level token)
    (hkind : token.kind.isOperator ∨ token.kind = .comma ∨ token.kind = .closeParen) :
    waiting level = 0 := by
  obtain ⟨kind, position⟩ := token
  cases kind with
  | operator op => exact h
  | comma | closeParen => exact h.2
  | _ => simp [Kind.isOperator] at hkind

/-- Behind every front part of tokens that the yard accepts, it stands somewhere in a level. -/
theorem Yard.exists_waits_of_start {tokens : List Token} {instructions : List Instruction}
    (hrun : Yard.start.run tokens = .ok instructions) (front back : List Token)
    (hsplit : tokens = front ++ back) : ∃ before level kinds, Waits before level kinds ∧
      before ++ level = front ∧ AdmitsFirst before level back :=
  @Yard.exists_waits_of_run .start [] [] tokens instructions .start hrun front back hsplit

/-- The part of a level that ends at a place is the only one that does. So what follows is admitted
behind it, wherever the level is looked for. -/
theorem Yard.admitsFirst_of_run {before level back : List Token} {instructions : List Instruction}
    (hrun : Yard.start.run (before ++ level ++ back) = .ok instructions) (hlevel : IsNested level)
    (hbefore : ∀ opening ∈ before.getLast?, opening.kind = .openParen) :
    AdmitsFirst before level back := by
  obtain ⟨otherBefore, otherLevel, kinds, hwaits, hparts, hfirst⟩ :=
    exists_waits_of_start hrun (before ++ level) back rfl
  obtain ⟨row, below, -, hrow, hbelow⟩ := hwaits.exists_eq
  obtain ⟨rfl, rfl⟩ := hlevel.unique hrow.isNested hbefore hbelow.kind_getLast? hparts.symm
  exact hfirst

/-- Tokens that the yard accepts are shuntable. -/
theorem Token.isShuntable_of_run {tokens : List Token} {instructions : List Instruction}
    (hrun : Yard.start.run tokens = .ok instructions) : IsShuntable tokens := by
  have hend : IsNested tokens ∧ waiting tokens = 0 := by
    obtain ⟨before, level, kinds, hwaits, rfl, rfl, hzero⟩ :=
      Yard.exists_waits_of_start hrun tokens [] (List.append_nil tokens).symm
    obtain ⟨row, below, -, hrow, -⟩ := hwaits.exists_eq
    exact ⟨hrow.isNested, hzero⟩
  refine ⟨hend.1, ?_, ?_⟩
  · intro front comma back hsplit hcomma
    obtain ⟨before, level, kinds, hwaits, rfl, hfirst⟩ :=
      Yard.exists_waits_of_start hrun front (comma :: back) hsplit
    obtain ⟨row, below, -, hrow, hbelow⟩ := hwaits.exists_eq
    obtain ⟨hne, -⟩ : before ≠ [] ∧ waiting level = 0 := by
      simpa only [AdmitsFirst, Admits, hcomma] using hfirst
    rw [depth_append, hrow.isNested.depth_eq_zero, Int.add_zero]
    exact hbelow.depth_pos hne
  · intro level hlevel
    cases hlevel with
    | top =>
        refine ⟨hend.2, ?_⟩
        rintro front token back rfl hdepth hkind
        have hfront := hend.1.of_append hdepth
        have hadmits := @Yard.admitsFirst_of_run [] front (token :: back) _ hrun hfront (by simp)
        exact Admits.waiting_eq_zero hadmits (hkind.imp_right .inl)
    | @inside before level after opening closing hsplit hopening hclosing hnested =>
        have hbefore : ∀ last ∈ (before ++ [opening]).getLast?, last.kind = .openParen := by
          simpa
        have hwhole : tokens = (before ++ [opening]) ++ level ++ closing :: after := by
          simp [hsplit]
        rw [hwhole] at hrun
        have hadmits := Yard.admitsFirst_of_run hrun hnested hbefore
        refine ⟨Admits.waiting_eq_zero hadmits (.inr (.inr hclosing)), ?_⟩
        rintro front token back rfl hdepth hkind
        have hfront : (before ++ [opening]) ++ (front ++ token :: back) ++ closing :: after =
            (before ++ [opening]) ++ front ++ token :: (back ++ closing :: after) := by simp
        rw [hfront] at hrun
        have hadmits := Yard.admitsFirst_of_run hrun (hnested.of_append hdepth) hbefore
        exact Admits.waiting_eq_zero hadmits (hkind.imp_right .inl)

section Positions

variable {pending left : List Pending} {released : List Instruction} {token : Token}
  {error : CompileError}

namespace Pending

/-- What the end of a group leaves was below what it takes away. -/
theorem closeGroup_suffix (pending : List Pending) : (closeGroup pending).2 <:+ pending := by
  match pending with
  | openParen _ :: builtin _ _ :: rest =>
      exact (List.suffix_cons _ rest).trans (List.suffix_cons _ _)
  | openParen _ :: [] | openParen _ :: operator _ _ :: _ | openParen _ :: openParen _ :: _ =>
      exact List.suffix_cons _ _
  | [] | operator _ _ :: _ | builtin _ _ :: _ => exact List.suffix_refl _

/-- The end of an argument is refused at its own token or at one that waits. -/
theorem exists_of_releaseGroup_error (h : releaseGroup token pending = .error error) :
    ∃ reason position, error = .fault (.malformed reason) position ∧
      (position = token.position ∨ ∃ top ∈ pending, top.position = position) := by
  induction pending with
  | nil =>
      cases h
      exact ⟨_, _, rfl, .inl rfl⟩
  | cons top rest ih =>
      cases top with
      | operator op position =>
          obtain hrest | ⟨_, -, hnone⟩ := bind_eq_error_iff.1 h
          · obtain ⟨reason, place, rfl, hplace⟩ := ih hrest
            exact ⟨reason, place, rfl, hplace.imp_right fun ⟨below, hmem, hbelow⟩ =>
              ⟨below, List.mem_cons_of_mem _ hmem, hbelow⟩⟩
          · cases hnone
      | builtin function position =>
          cases h
          exact ⟨_, position, rfl, .inr ⟨_, List.mem_cons_self, rfl⟩⟩
      | openParen => cases h

/-- The end of the tokens is refused at one that waits. -/
theorem exists_of_releaseAll_error (h : releaseAll pending = .error error) :
    ∃ reason position, error = .fault (.malformed reason) position ∧
      ∃ top ∈ pending, top.position = position := by
  induction pending with
  | nil => cases h
  | cons top rest ih =>
      cases top with
      | operator op position =>
          obtain hrest | ⟨_, -, hnone⟩ := bind_eq_error_iff.1 h
          · obtain ⟨reason, place, rfl, below, hmem, hbelow⟩ := ih hrest
            exact ⟨reason, place, rfl, below, List.mem_cons_of_mem _ hmem, hbelow⟩
          · cases hnone
      | builtin | openParen =>
          cases h
          exact ⟨_, _, rfl, _, List.mem_cons_self, rfl⟩

end Pending

namespace Yard

variable {yard next : Yard} {tokens : List Token} {instructions : List Instruction}

/-- What waits behind a token is the token or has waited before. -/
theorem mem_pending_of_step (h : yard.step token = .ok (instructions, next)) {top : Pending}
    (htop : top ∈ next.pending) : top.position = token.position ∨ top ∈ yard.pending := by
  obtain ⟨kind, position⟩ := token
  cases kind with
  | number | name =>
      cases h
      exact .inr htop
  | builtin | openParen =>
      cases h
      rcases List.mem_cons.1 htop with rfl | hmem
      · exact .inl rfl
      · exact .inr hmem
  | operator op =>
      cases h
      rcases List.mem_cons.1 htop with rfl | hmem
      · exact .inl rfl
      · obtain ⟨taken, -, -, hsplit⟩ := Pending.exists_release_eq op.precedence yard.pending
        rw [hsplit]
        exact .inr (List.mem_append_right taken hmem)
  | comma =>
      obtain ⟨⟨released, left⟩, hreleased, heq⟩ := bind_eq_ok_iff.1 h
      cases heq
      obtain ⟨taken, -, -, hsplit, -⟩ := Pending.exists_of_releaseGroup hreleased
      rw [hsplit]
      exact .inr (List.mem_append_right taken htop)
  | closeParen =>
      obtain ⟨⟨released, left⟩, hreleased, heq⟩ := bind_eq_ok_iff.1 h
      cases heq
      obtain ⟨taken, -, -, hsplit, -⟩ := Pending.exists_of_releaseGroup hreleased
      rw [hsplit]
      exact .inr (List.mem_append_right taken ((Pending.closeGroup_suffix left).subset htop))

/-- A token is refused at its own position or at that of one that waits. -/
theorem exists_of_step_error (h : yard.step token = .error error) :
    ∃ reason position, error = .fault (.malformed reason) position ∧
      (position = token.position ∨ ∃ top ∈ yard.pending, top.position = position) := by
  obtain ⟨kind, position⟩ := token
  cases kind with
  | number | name | builtin | openParen | operator => cases h
  | comma | closeParen =>
      obtain hreleased | ⟨_, -, hnone⟩ := bind_eq_error_iff.1 h
      · exact Pending.exists_of_releaseGroup_error hreleased
      · cases hnone

/-- Tokens are refused at one of them or at one that waits. -/
theorem exists_of_run_error (h : yard.run tokens = .error error) :
    ∃ reason position, error = .fault (.malformed reason) position ∧
      ((∃ token ∈ tokens, token.position = position) ∨
        ∃ top ∈ yard.pending, top.position = position) := by
  induction tokens generalizing yard with
  | nil =>
      obtain ⟨reason, position, rfl, htop⟩ := Pending.exists_of_releaseAll_error h
      exact ⟨reason, position, rfl, .inr htop⟩
  | cons token rest ih =>
      obtain hstep | ⟨⟨first, next⟩, hstep, h⟩ := bind_eq_error_iff.1 h
      · obtain ⟨reason, position, rfl, hposition⟩ := exists_of_step_error hstep
        exact ⟨reason, position, rfl, hposition.imp_left fun heq =>
          ⟨token, List.mem_cons_self, heq.symm⟩⟩
      · obtain hrun | ⟨_, -, hnone⟩ := bind_eq_error_iff.1 h
        · obtain ⟨reason, position, rfl, ⟨other, hmem, hother⟩ | ⟨top, hmem, htop⟩⟩ := ih hrun
          · exact ⟨reason, position, rfl, .inl ⟨other, List.mem_cons_of_mem _ hmem, hother⟩⟩
          · rcases mem_pending_of_step hstep hmem with hposition | hmem
            · exact ⟨reason, position, rfl,
                .inl ⟨token, List.mem_cons_self, hposition.symm.trans htop⟩⟩
            · exact ⟨reason, position, rfl, .inr ⟨top, hmem, htop⟩⟩
        · cases hnone

end Yard

end Positions

namespace Program

/-- The yard accepts exactly the shuntable token sequences. It refuses all others as malformed, at
the position of one of their tokens. -/
theorem ofTokens_eq_ok_iff (tokens : List Token) :
    ((∃ program, ofTokens tokens = .ok program) ↔ IsShuntable tokens) ∧
      (¬ IsShuntable tokens → ∃ reason, ∃ token ∈ tokens,
        ofTokens tokens = .error (.fault (.malformed reason) token.position)) := by
  have haccepts : (∃ program, ofTokens tokens = .ok program) ↔ IsShuntable tokens := by
    constructor
    · rintro ⟨program, h⟩
      obtain ⟨instructions, hrun, -⟩ := bind_eq_ok_iff.1 h
      exact Token.isShuntable_of_run hrun
    · intro h
      have hadmits : ∀ before level front back kinds, tokens = front ++ back →
          Waits before level kinds → before ++ level = [] ++ [] ++ front →
            AdmitsFirst before level back := by
        intro before level front back kinds hsplit hwaits hparts
        refine Token.IsShuntable.admitsFirst ?_ hwaits
        rw [hparts, List.nil_append, List.nil_append, ← hsplit]
        exact h
      obtain ⟨instructions, hrun⟩ := @Yard.exists_run_eq_ok .start [] [] tokens .start hadmits
      exact ⟨⟨instructions⟩, by simp [ofTokens, hrun]⟩
  refine ⟨haccepts, fun hnot => ?_⟩
  cases hprogram : ofTokens tokens with
  | ok program => exact absurd (haccepts.1 ⟨program, hprogram⟩) hnot
  | error error =>
      obtain hrun | ⟨_, -, hnone⟩ := bind_eq_error_iff.1 hprogram
      · obtain ⟨reason, position, rfl, ⟨token, hmem, rfl⟩ | ⟨top, hmem, -⟩⟩ :=
          Yard.exists_of_run_error hrun
        · exact ⟨reason, token, hmem, rfl⟩
        · cases hmem
      · cases hnone

/-- In `Sin + (x)`, the operator keeps the name from the parentheses. -/
example : ofTokens [⟨.builtin .sin, ⟨1, 1⟩⟩, ⟨.operator .add, ⟨5, 1⟩⟩, ⟨.openParen, ⟨7, 1⟩⟩,
    ⟨.name "x", ⟨8, 1⟩⟩, ⟨.closeParen, ⟨9, 1⟩⟩] =
      .error (.fault (.malformed (.unfinished (.builtin .sin))) ⟨1, 1⟩) := by
  rfl

end Program

end Reckoner
