import Reckoner.Expression
import Reckoner.Proofs.Execution
import Reckoner.Proofs.Number.Zeros

/-!
# Execution of programs that are alike

Programs that are alike differ at most in the signs of the zeros that they push, so they fail for
the same reason or not at all. Their results have the same value unless the runs part
(`Program.PartsAt`): an operation finds zeros of different signs and tells them apart. Read
`Program.execute_of_alike` first. One instruction keeps the values on the two stacks the same, or
the runs part there (`Instruction.run_of_alike`).
-/

namespace Reckoner

open Binary64

/-- An operation returns the result that it has. -/
theorem Operation.apply_eq_ok_iff {operation : Operation} {operands : List Float} {x : Float} :
    operation.apply operands = .ok x ↔ operation.result? operands = some x := by
  rw [apply]
  cases operation.result? operands <;> simp

/-- An operation tells apart the operands on two stacks whose numbers have the same values. -/
structure Operation.TellsApart (operation : Operation) (stack other : List Float) : Prop where
  sameValue : List.Forall₂ SameValue stack other
  meetsZeros : operation.MeetsZeros (stack.take operation.arity).reverse
    (other.take operation.arity).reverse
  results : ∃ x y, operation.apply (stack.take operation.arity).reverse = .ok x ∧
    operation.apply (other.take operation.arity).reverse = .ok y ∧ ¬ SameValue x y

namespace Instruction

variable {bindings : Bindings} {first second : Instruction}

/-- Instructions that are alike push numbers that are equal, or are the same. -/
theorem alike_iff : first.alike second ↔
    (∃ x y, first = push x ∧ second = push y ∧ x == y) ∨
      (∀ x, first ≠ push x) ∧ first = second := by
  cases first <;> cases second <;> simp [alike]

/-- Instructions that are alike differ in their numbers only. -/
theorem withoutNumber_of_alike (h : first.alike second) :
    first.withoutNumber = second.withoutNumber := by
  obtain ⟨x, y, rfl, rfl, -⟩ | ⟨-, rfl⟩ := alike_iff.1 h
  · rfl
  · rfl

/-- Instructions that are alike keep the values on two stacks the same, unless they are an operation
that tells its operands apart. -/
theorem run_of_alike (h : first.alike second) {stack other next otherNext : List Float}
    (hstack : List.Forall₂ SameValue stack other) (hfirst : first.run bindings stack = .ok next)
    (hsecond : second.run bindings other = .ok otherNext) :
    List.Forall₂ SameValue next otherNext ∨
      ∃ operation, first = apply operation ∧ second = apply operation ∧
        operation.TellsApart stack other := by
  obtain ⟨x, y, rfl, rfl, hvalue⟩ | ⟨hpush, rfl⟩ := alike_iff.1 h
  · cases hfirst
    cases hsecond
    exact .inl (.cons (.inl hvalue) hstack)
  · cases first with
    | push x => exact absurd rfl (hpush x)
    | load name =>
        obtain ⟨value, hvalue, rfl⟩ := exists_of_run_load hfirst
        obtain ⟨otherValue, hother, rfl⟩ := exists_of_run_load hsecond
        obtain rfl := Option.some.inj (hvalue.symm.trans hother)
        exact .inl (.cons (.refl value) hstack)
    | apply operation =>
        obtain ⟨x, hx, hrun⟩ := exists_run_apply_eq bindings (arity_le_length hfirst)
        obtain ⟨y, hy, hotherRun⟩ := exists_run_apply_eq bindings (arity_le_length hsecond)
        obtain rfl := Except.ok.inj (hfirst.symm.trans hrun)
        obtain rfl := Except.ok.inj (hsecond.symm.trans hotherRun)
        have hoperands : List.Forall₂ SameValue (stack.take operation.arity).reverse
            (other.take operation.arity).reverse :=
          List.forall₂_reverse_iff.2 (List.forall₂_take _ hstack)
        by_cases hvalue : SameValue x y
        · exact .inl (.cons hvalue (List.forall₂_drop _ hstack))
        · have hzeros := (Operation.sameValue_or_meetsZeros hoperands
            (Operation.apply_eq_ok_iff.1 hx) (Operation.apply_eq_ok_iff.1 hy)).resolve_left hvalue
          exact .inr ⟨operation, rfl, rfl, hstack, hzeros, x, y, hx, hy, hvalue⟩

end Instruction

namespace Program

variable {bindings : Bindings} {first second : Program} {index : Nat}

/-- The runs of two programs part at an index: so far, the numbers on their stacks have the same
values, and the operation that both apply there tells its operands apart. -/
structure PartsAt (first second : Program) (bindings : Bindings) (index : Nat)
    (operation : Operation) (stack other : List Float) : Prop where
  first_instruction : first.instructions[index]? = some (.apply operation)
  second_instruction : second.instructions[index]? = some (.apply operation)
  first_stack : runFrom bindings [] (first.instructions.take index) = .ok stack
  second_stack : runFrom bindings [] (second.instructions.take index) = .ok other
  tellsApart : operation.TellsApart stack other

/-- Programs that are alike consist of instructions that are. -/
theorem forall₂_of_alike (h : first.alike second) :
    List.Forall₂ (fun x y : Instruction => x.alike y) first.instructions second.instructions := by
  rw [alike, Bool.and_eq_true, decide_eq_true_eq, List.all_eq_true] at h
  exact List.forall₂_iff_zip.2 ⟨h.1, fun hmem => h.2 _ hmem⟩

/-- A run that goes as far as behind an instruction consists of a run in front of it and a step. -/
theorem exists_of_runFrom_take_succ {program : Program} {instruction : Instruction}
    {stack : List Float} (hget : program.instructions[index]? = some instruction)
    (h : runFrom bindings [] (program.instructions.take (index + 1)) = .ok stack) :
    ∃ before, runFrom bindings [] (program.instructions.take index) = .ok before ∧
      instruction.run bindings before = .ok stack := by
  rw [List.take_add_one, hget, Tree.runFrom_append, bind_eq_ok_iff] at h
  obtain ⟨before, hbefore, hstep⟩ := h
  exact ⟨before, hbefore, by simpa [runFrom] using hstep⟩

/-- As far as two programs that are alike have run, the numbers on their stacks have the same
values, unless the runs have parted before. -/
theorem sameValue_or_partsAt (h : first.alike second) {stack other : List Float}
    (hle : index ≤ first.instructions.length)
    (hfirst : runFrom bindings [] (first.instructions.take index) = .ok stack)
    (hsecond : runFrom bindings [] (second.instructions.take index) = .ok other) :
    List.Forall₂ SameValue stack other ∨ ∃ earlier < index, ∃ operation stack other,
      first.PartsAt second bindings earlier operation stack other := by
  have halike := forall₂_of_alike h
  induction index generalizing stack other with
  | zero =>
      cases hfirst
      cases hsecond
      exact .inl .nil
  | succ index ih =>
      have hget := List.getElem?_eq_getElem hle
      have hotherGet := List.getElem?_eq_getElem (halike.length_eq ▸ hle)
      obtain ⟨before, hbefore, hstep⟩ := exists_of_runFrom_take_succ hget hfirst
      obtain ⟨otherBefore, hotherBefore, hotherStep⟩ :=
        exists_of_runFrom_take_succ hotherGet hsecond
      obtain hstack | ⟨earlier, hearlier, hparts⟩ := ih (Nat.le_of_lt hle) hbefore hotherBefore
      · have hinstruction := halike.get hle (halike.length_eq ▸ hle)
        obtain hnext | ⟨operation, happly, hotherApply, hparts⟩ :=
          Instruction.run_of_alike hinstruction hstack hstep hotherStep
        · exact .inl hnext
        · refine .inr ⟨index, Nat.lt_succ_self index, operation, before, otherBefore, ?_⟩
          exact ⟨hget.trans (congrArg some happly), hotherGet.trans (congrArg some hotherApply),
            hbefore, hotherBefore, hparts⟩
      · exact .inr ⟨earlier, Nat.lt_succ_of_lt hearlier, hparts⟩

/-- Programs that are alike fail for the same reason, or both have a result. Their results have the
same value, unless their runs part somewhere. -/
theorem execute_of_alike (h : first.alike second) (bindings : Bindings) :
    failure? (first.execute bindings) = failure? (second.execute bindings) ∧
      ∀ x y, first.execute bindings = .ok x → second.execute bindings = .ok y →
        SameValue x y ∨ ∃ index operation stack other,
          first.PartsAt second bindings index operation stack other := by
  have halike := forall₂_of_alike h
  constructor
  · refine failure?_execute_congr ?_ fun _ => rfl
    rw [← List.forall₂_eq_eq_eq, List.forall₂_map_left_iff, List.forall₂_map_right_iff]
    exact halike.imp fun _ _ => Instruction.withoutNumber_of_alike
  · intro x y hx hy
    have hfirst := runFrom_of_execute hx
    have hsecond := runFrom_of_execute hy
    rw [← List.take_length (l := first.instructions)] at hfirst
    rw [← List.take_length (l := second.instructions), ← halike.length_eq] at hsecond
    obtain hstack | ⟨index, -, hparts⟩ := sameValue_or_partsAt h (Nat.le_refl _) hfirst hsecond
    · cases hstack with
      | cons hvalue => exact .inl hvalue
    · exact .inr ⟨index, hparts⟩

/-- The programs of `0-x` and `-x` are alike. If `x` is bound to zero, their results are the two
zeros, which have the same value. -/
theorem execute_of_alike_negation :
    let first : Program := ⟨[.push 0, .load "x", .apply (.operator .sub)]⟩
    let second : Program := ⟨[.push (-0), .load "x", .apply (.operator .sub)]⟩
    let bindings := Bindings.ofList [("x", 0)]
    compile "0-x" = .ok first ∧ compile "-x" = .ok second ∧ first.alike second ∧
      first.execute bindings = .ok 0 ∧ second.execute bindings = .ok (-0) ∧
      failure? (first.execute bindings) = failure? (second.execute bindings) ∧
      ∀ x y, first.execute bindings = .ok x → second.execute bindings = .ok y →
        SameValue x y ∨ ∃ index operation stack other,
          first.PartsAt second bindings index operation stack other := by
  intro first second bindings
  have halike : first.alike second := by decide
  have hfirst : compile "0-x" = .ok first := by decide +kernel
  have hsecond : compile "-x" = .ok second := by decide +kernel
  exact ⟨hfirst, hsecond, halike, by decide, by decide, execute_of_alike halike bindings⟩

/-- The programs of these two quotients are alike, but their results are the two infinities: the
divisors are the two zeros. -/
theorem reciprocals_alike_and_apart :
    let first : Program := ⟨[.push 1, .push (-0), .push 0, .apply (.operator .sub),
      .apply (.operator .div)]⟩
    let second : Program := ⟨[.push 1, .push 0, .push 0, .apply (.operator .sub),
      .apply (.operator .div)]⟩
    compile "1/(-0)" = .ok first ∧ compile "1/(0-0)" = .ok second ∧ first.alike second ∧
      first.execute .empty = .ok (ofMagnitude true infinityBits) ∧
      second.execute .empty = .ok (ofMagnitude false infinityBits) ∧
      ¬ SameValue (ofMagnitude true infinityBits) (ofMagnitude false infinityBits) := by
  intro first second
  have hfirst : compile "1/(-0)" = .ok first := by decide +kernel
  have hsecond : compile "1/(0-0)" = .ok second := by decide +kernel
  refine ⟨hfirst, hsecond, by decide, by decide, by decide, ?_⟩
  unfold SameValue
  decide

end Program

end Reckoner
