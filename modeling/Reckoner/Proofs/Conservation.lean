import Reckoner.Program.Origin
import Reckoner.Program.Yard
import Reckoner.Proofs.Fallible

/-!
# Conservation of instructions

What the yard does to the tokens it reads, well-formed or not. Read `Program.ofTokens_conserves`
first: the instructions of a program stem from its tokens, one for each operand and one for each
operation, the operands keep their order, and no operation stands in front of an operand that its
token follows. The operations that wait in the yard carry the proof: a token adds its own to them,
and what it releases is taken from their top (`Yard.exists_of_step`).
-/

namespace Reckoner

namespace Pending

/-- The operation of a token that waits. A parenthesis has none. -/
def operation? : Pending → Option Instruction
  | operator op _ => some (.apply (.operator op))
  | builtin function _ => some (.apply (.builtin function))
  | openParen _ => none

/-- The operations that wait, the latest first. -/
def held (pending : List Pending) : List Instruction := pending.filterMap operation?

@[simp]
theorem held_operator (op : Operator) (position : Position) (rest : List Pending) :
    held (operator op position :: rest) = .apply (.operator op) :: held rest := rfl

@[simp]
theorem held_builtin (function : Builtin) (position : Position) (rest : List Pending) :
    held (builtin function position :: rest) = .apply (.builtin function) :: held rest := rfl

@[simp]
theorem held_openParen (position : Position) (rest : List Pending) :
    held (openParen position :: rest) = held rest := rfl

/-- Nothing that waits is an operand. -/
theorem isOperand_of_mem_held {pending : List Pending} {instruction : Instruction}
    (h : instruction ∈ held pending) : instruction.isOperand = false := by
  obtain ⟨top, -, htop⟩ := List.mem_filterMap.1 h
  cases top with
  | operator | builtin =>
      cases htop
      rfl
  | openParen => cases htop

/-- The operators that an operator releases were the latest to wait. -/
theorem held_release (precedence : Nat) (pending : List Pending) :
    held pending = (release precedence pending).1 ++ held (release precedence pending).2 := by
  induction pending with
  | nil => rfl
  | cons top rest ih =>
      cases top with
      | operator op position =>
          by_cases hbinds : precedence ≤ op.precedence
          · simp [release, hbinds, ih]
          · simp [release, hbinds]
      | builtin | openParen => rfl

/-- The operators that the end of a group releases were the latest to wait. -/
theorem held_of_releaseGroup {token : Token} {pending left : List Pending}
    {released : List Instruction} (h : releaseGroup token pending = .ok (released, left)) :
    held pending = released ++ held left := by
  induction pending generalizing released left with
  | nil => cases h
  | cons top rest ih =>
      cases top with
      | operator op position =>
          obtain ⟨⟨further, below⟩, hrest, heq⟩ := bind_eq_ok_iff.1 h
          cases heq
          simp [ih hrest]
      | builtin => cases h
      | openParen position =>
          cases h
          rfl

/-- The function that the end of a group releases was the latest to wait. -/
theorem held_closeGroup (pending : List Pending) :
    held pending = (closeGroup pending).1 ++ held (closeGroup pending).2 := by
  fun_cases closeGroup pending <;> simp

/-- At the end everything that waits is released. -/
theorem held_of_releaseAll {pending : List Pending} {released : List Instruction}
    (h : releaseAll pending = .ok released) : held pending = released := by
  induction pending generalizing released with
  | nil =>
      cases h
      rfl
  | cons top rest ih =>
      cases top with
      | operator op position =>
          obtain ⟨further, hrest, heq⟩ := bind_eq_ok_iff.1 h
          cases heq
          simp [ih hrest]
      | builtin | openParen => cases h

end Pending

namespace Yard

/-- What a token brings forth is its operand, in front of what was the latest to wait. Its operation
waits from then on. -/
theorem exists_of_step {yard next : Yard} {token : Token} {instructions : List Instruction}
    (h : yard.step token = .ok (instructions, next)) {left : List Token}
    (hstart : yard.atStart = Token.expectsOperand left) :
    ∃ released kept, instructions = (token.operand? left).toList ++ released ∧
      Pending.held yard.pending = released ++ kept ∧
      Pending.held next.pending = token.operation?.toList ++ kept ∧
      next.atStart = Token.expectsOperand (left ++ [token]) := by
  obtain ⟨kind, position⟩ := token
  have hnext : Token.expectsOperand (left ++ [⟨kind, position⟩]) =
      decide (kind = .openParen ∨ kind = .comma) := by
    simp [Token.expectsOperand]
  rw [hnext]
  cases kind with
  | number | name | builtin | openParen =>
      cases h
      exact ⟨[], _, rfl, rfl, rfl, rfl⟩
  | operator op =>
      cases h
      refine ⟨_, _, ?_, Pending.held_release op.precedence yard.pending, rfl, rfl⟩
      rw [hstart]
      cases hsign : Token.expectsOperand left <;> simp [Token.operand?, hsign]
  | comma =>
      obtain ⟨⟨released, below⟩, hreleased, heq⟩ := bind_eq_ok_iff.1 h
      cases heq
      exact ⟨_, _, rfl, Pending.held_of_releaseGroup hreleased, rfl, rfl⟩
  | closeParen =>
      obtain ⟨⟨released, below⟩, hreleased, heq⟩ := bind_eq_ok_iff.1 h
      cases heq
      refine ⟨released ++ (Pending.closeGroup below).1, Pending.held (Pending.closeGroup below).2,
        rfl, ?_, rfl, rfl⟩
      rw [Pending.held_of_releaseGroup hreleased, Pending.held_closeGroup below, List.append_assoc]

end Yard

namespace Token

/-- What a token stands for as an operand is one. -/
theorem isOperand_of_operand? {left : List Token} {token : Token} {instruction : Instruction}
    (h : token.operand? left = some instruction) : instruction.isOperand = true := by
  obtain ⟨kind, position⟩ := token
  cases kind with
  | number | name =>
      cases h
      rfl
  | operator =>
      obtain ⟨-, hzero⟩ := Option.ite_none_right_eq_some.1 h
      cases hzero
      rfl
  | builtin | openParen | closeParen | comma => cases h

end Token

namespace Sourced

@[simp]
theorem map_ofToken (index : Nat) (instruction : Option Instruction) :
    (ofToken index instruction).map Sourced.instruction = instruction.toList := by
  cases instruction <;> rfl

theorem mem_ofToken {index : Nat} {instruction : Option Instruction} {sourced : Sourced} :
    sourced ∈ ofToken index instruction ↔
      sourced.index = index ∧ instruction = some sourced.instruction := by
  cases instruction with
  | none => simp [ofToken]
  | some instruction =>
      cases sourced
      simp [ofToken, eq_comm]

/-- No instruction of a collection stems from a token before its start. -/
theorem le_index_of_mem_collect {rule : List Token → Token → Option Instruction}
    {left tokens : List Token} {sourced : Sourced} (h : sourced ∈ collect rule left tokens) :
    left.length ≤ sourced.index := by
  induction tokens generalizing left with
  | nil => cases h
  | cons token rest ih =>
      rcases List.mem_append.1 h with h | h
      · exact Nat.le_of_eq (mem_ofToken.1 h).1.symm
      · have hlength := ih h
        rw [List.length_append] at hlength
        omega

/-- Of two instructions, an operation does not stand in front of an operand unless its token does
so, too. -/
def InOrder (first second : Sourced) : Prop :=
  first.isOperand = false → second.isOperand = true → first.index < second.index

theorem InOrder.of_operand {first second : Sourced} (h : first.isOperand = true) :
    InOrder first second := fun hfirst => absurd (h.symm.trans hfirst) Bool.noConfusion

theorem InOrder.of_operation {first second : Sourced} (h : second.isOperand = false) :
    InOrder first second := fun _ hsecond => absurd (h.symm.trans hsecond) Bool.noConfusion

/-- Behind an operation no operand stands whose token does not follow that of the operation. -/
theorem mem_front_of_inOrder {front back : List Sourced} {operation operand : Sourced}
    (h : (front ++ operation :: back).Pairwise InOrder) (hoperation : operation.isOperand = false)
    (hmem : operand ∈ front ++ operation :: back) (hoperand : operand.isOperand = true)
    (hindex : operand.index ≤ operation.index) : operand ∈ front := by
  rcases List.mem_append.1 hmem with hfront | hmem
  · exact hfront
  · rcases List.mem_cons.1 hmem with rfl | hback
    · rw [hoperand] at hoperation
      cases hoperation
    · have hafter := (List.pairwise_append.1 h).2.1
      have hlt := (List.pairwise_cons.1 hafter).1 operand hback hoperation hoperand
      exact absurd hindex (Nat.not_le_of_lt hlt)

/-- The instructions that the tokens behind those to their left bring forth, when these operations
wait. -/
structure Accounts (waiting : List Sourced) (left tokens : List Token)
    (traced : List Sourced) : Prop where
  operands : traced.filter isOperand = collect Token.operand? left tokens
  operations : (traced.filter fun sourced => !sourced.isOperand).Perm
    (waiting ++ collect (fun _ => Token.operation?) left tokens)
  inOrder : traced.Pairwise InOrder

/-- After the last token the operations that wait are brought forth. -/
theorem Accounts.nil {waiting : List Sourced} {left : List Token}
    (hwaiting : ∀ sourced ∈ waiting, sourced.isOperand = false) :
    Accounts waiting left [] waiting where
  operands := by simpa [collect] using hwaiting
  operations := by rw [List.filter_eq_self.2 (by simpa using hwaiting), collect, List.append_nil]
  inOrder := List.pairwise_of_forall_mem_list fun _ _ second hsecond =>
    .of_operation (hwaiting second hsecond)

/-- A token brings forth its operand and some of the operations that wait, and its own operation
waits from then on. -/
theorem Accounts.cons {released kept traced : List Sourced} {left rest : List Token} {token : Token}
    (hoperations : ∀ sourced ∈ released, sourced.isOperand = false)
    (hindices : ∀ sourced ∈ released, sourced.index < left.length)
    (h : Accounts (ofToken left.length token.operation? ++ kept) (left ++ [token]) rest traced) :
    Accounts (released ++ kept) left (token :: rest)
      (ofToken left.length (token.operand? left) ++ (released ++ traced)) := by
  have hoperand : ∀ sourced ∈ ofToken left.length (token.operand? left),
      sourced.isOperand = true := fun sourced hmem =>
    Token.isOperand_of_operand? (mem_ofToken.1 hmem).2
  constructor
  · simp only [List.filter_append, h.operands, collect]
    rw [List.filter_eq_self.2 hoperand, List.filter_eq_nil_iff.2 (by simpa using hoperations),
      List.nil_append]
  · simp only [List.filter_append, collect]
    rw [List.filter_eq_nil_iff.2 (by simpa using hoperand),
      List.filter_eq_self.2 (by simpa using hoperations), List.nil_append, List.append_assoc]
    refine (h.operations.append_left released).trans (List.Perm.append_left released ?_)
    simpa only [List.append_assoc] using List.perm_append_comm.append_right
      (collect (fun _ => Token.operation?) (left ++ [token]) rest)
  · refine List.pairwise_append.2 ⟨?_, List.pairwise_append.2 ⟨?_, h.inOrder, ?_⟩, ?_⟩
    · exact List.pairwise_of_forall_mem_list fun first hfirst _ _ =>
        .of_operand (hoperand first hfirst)
    · exact List.pairwise_of_forall_mem_list fun _ _ second hsecond =>
        .of_operation (hoperations second hsecond)
    · -- The operand is that of a later token, and what is released has waited since an earlier one.
      intro first hfirst second hsecond _ hsecondOperand
      have hmem := List.mem_filter.2 ⟨hsecond, hsecondOperand⟩
      rw [h.operands] at hmem
      have hlater := le_index_of_mem_collect hmem
      rw [List.length_append] at hlater
      have hearlier := hindices first hfirst
      omega
    · exact fun first hfirst _ _ => .of_operand (hoperand first hfirst)

/-- The operations that wait in the yard are no operands. -/
theorem isOperand_of_mem_waiting {waiting : List Sourced} {pending : List Pending}
    (h : waiting.map Sourced.instruction = Pending.held pending) :
    ∀ sourced ∈ waiting, sourced.isOperand = false := fun _ hmem =>
  Pending.isOperand_of_mem_held (h ▸ List.mem_map_of_mem hmem)

end Sourced

/-- The instructions that a yard brings forth account for the tokens it reads and for the operations
that wait in it. -/
theorem Yard.exists_accounts_of_run {yard : Yard} {tokens : List Token}
    {instructions : List Instruction} (h : yard.run tokens = .ok instructions) {left : List Token}
    (hstart : yard.atStart = Token.expectsOperand left) {waiting : List Sourced}
    (hwaiting : waiting.map Sourced.instruction = Pending.held yard.pending)
    (hindices : ∀ sourced ∈ waiting, sourced.index < left.length) :
    ∃ traced, traced.map Sourced.instruction = instructions ∧
      Sourced.Accounts waiting left tokens traced := by
  induction tokens generalizing yard instructions left waiting with
  | nil =>
      exact ⟨waiting, hwaiting.trans (Pending.held_of_releaseAll h),
        .nil (Sourced.isOperand_of_mem_waiting hwaiting)⟩
  | cons token rest ih =>
      obtain ⟨⟨first, next⟩, hstep, h⟩ := bind_eq_ok_iff.1 h
      obtain ⟨following, hrun, h⟩ := bind_eq_ok_iff.1 h
      cases h
      obtain ⟨_, _, rfl, hheld, hnext, hnextStart⟩ := Yard.exists_of_step hstep hstart
      -- what waits is split where the token stops to release, with the indices on both parts
      have hoperations := Sourced.isOperand_of_mem_waiting hwaiting
      obtain ⟨released, kept, rfl, rfl, rfl⟩ := List.map_eq_append_iff.1 (hwaiting.trans hheld)
      rw [List.forall_mem_append] at hindices hoperations
      have hnextIndices : ∀ sourced ∈ Sourced.ofToken left.length token.operation? ++ kept,
          sourced.index < (left ++ [token]).length := by
        rw [List.length_append, List.forall_mem_append]
        exact ⟨fun _ hmem => Nat.lt_succ_of_le (Nat.le_of_eq (Sourced.mem_ofToken.1 hmem).1),
          fun sourced hmem => Nat.lt_succ_of_lt (hindices.2 sourced hmem)⟩
      obtain ⟨traced, rfl, htraced⟩ := ih hrun hnextStart (by simp [hnext]) hnextIndices
      exact ⟨_, by simp, htraced.cons hoperations.1 hindices.1⟩

/-- Nothing is lost, doubled or put out of order between the tokens and the program, whether the
tokens are well-formed or not. The instructions of the program stem from the tokens such that the
operands are those of the tokens in their order, the operations are those of the tokens in some
order, and each operation stands behind all operands of its own token and of those before it. -/
theorem Program.ofTokens_conserves {tokens : List Token} {program : Program}
    (h : Program.ofTokens tokens = .ok program) :
    ∃ traced : List Sourced, traced.map Sourced.instruction = program.instructions ∧
      traced.filter Sourced.isOperand = Sourced.operands tokens ∧
      (traced.filter fun sourced => !sourced.isOperand).Perm (Sourced.operations tokens) ∧
      ∀ front operation back, traced = front ++ operation :: back →
        operation.isOperand = false →
        ∀ operand ∈ Sourced.operands tokens, operand.index ≤ operation.index →
          operand ∈ front := by
  obtain ⟨instructions, hrun, heq⟩ := bind_eq_ok_iff.1 h
  cases heq
  have hstart : Yard.start.atStart = Token.expectsOperand [] := rfl
  have hwaiting : [].map Sourced.instruction = Pending.held Yard.start.pending := rfl
  obtain ⟨traced, hmap, htraced⟩ :=
    Yard.exists_accounts_of_run hrun hstart hwaiting (List.forall_mem_nil _)
  refine ⟨traced, hmap, htraced.operands, htraced.operations, ?_⟩
  rintro front operation back rfl hoperation operand hmem hindex
  rw [Sourced.operands, ← htraced.operands] at hmem
  obtain ⟨hmem, hoperand⟩ := List.mem_filter.1 hmem
  exact Sourced.mem_front_of_inOrder htraced.inOrder hoperation hmem hoperand hindex

/-- The tokens of `( - , 2 ) x +` are no expression, yet they make a program: `-0 - 2 x +`. The zero
in front of the sign has its own sign bit set. -/
theorem Program.ofTokens_conserves_stray_comma :
    let tokens : List Token := [⟨.openParen, ⟨1, 1⟩⟩, ⟨.operator .sub, ⟨2, 1⟩⟩, ⟨.comma, ⟨3, 1⟩⟩,
      ⟨.number 2, ⟨4, 1⟩⟩, ⟨.closeParen, ⟨5, 1⟩⟩, ⟨.name "x", ⟨6, 1⟩⟩, ⟨.operator .add, ⟨7, 1⟩⟩]
    let program : Program := ⟨[.push Binary64.negativeZero, .apply (.operator .sub), .push 2,
      .load "x", .apply (.operator .add)]⟩
    Program.ofTokens tokens = .ok program ∧
      (∃ zero, program.instructions.head? = some (.push zero) ∧
        zero.toBits = 0x8000000000000000) ∧
      ∃ traced : List Sourced, traced.map Sourced.instruction = program.instructions ∧
        traced.filter Sourced.isOperand = Sourced.operands tokens ∧
        (traced.filter fun sourced => !sourced.isOperand).Perm (Sourced.operations tokens) ∧
        ∀ front operation back, traced = front ++ operation :: back →
          operation.isOperand = false →
          ∀ operand ∈ Sourced.operands tokens, operand.index ≤ operation.index →
            operand ∈ front :=
  ⟨rfl, ⟨_, rfl, Binary64.toBits_negativeZero⟩, Program.ofTokens_conserves rfl⟩

end Reckoner
