import Mathlib.Data.Nat.Find
import Reckoner.Program.Depth
import Reckoner.Proofs.Evaluation

/-!
# The stack of a running program

What an instruction does to the stack is told in three lemmas: it fails for its defect at the depth
of the stack (`failure?_run`), it changes the depth by its gain (`length_run`), and it never touches
the numbers below those that it takes (`run_append`). The first two give `execute_by_depth`: the
depths, which are known beforehand, decide whether a program has a result and which error it has
otherwise. The third gives `execute_replace`: a part of a program that has a result by itself can be
replaced by this result.
-/

namespace Reckoner

namespace Instruction

variable {bindings : Bindings} {stack next : List Float} {instruction : Instruction}

/-- An operation that finds as many numbers as it takes has a result, which replaces them. -/
theorem exists_run_apply_eq (bindings : Bindings) {operation : Operation}
    (h : operation.arity ≤ stack.length) :
    ∃ result, operation.apply (stack.take operation.arity).reverse = .ok result ∧
      (apply operation).run bindings stack = .ok (result :: stack.drop operation.arity) := by
  have hlength : (stack.take operation.arity).reverse.length = operation.arity := by
    rw [List.length_reverse, List.length_take, Nat.min_eq_left h]
  obtain ⟨result, hresult⟩ := Operation.exists_apply_eq_ok hlength
  exact ⟨result, hresult, by rw [run, if_neg (Nat.not_lt.2 h), hresult, ok_bind]⟩

/-- An instruction fails for its defect at the depth of the stack, and for nothing else. -/
theorem failure?_run (bindings : Bindings) (stack : List Float) (instruction : Instruction) :
    failure? (instruction.run bindings stack) = instruction.defect? bindings stack.length := by
  cases instruction with
  | push value => rfl
  | load name =>
      rw [run, defect?, Bindings.resolve?]
      cases bindings.value? name with
      | some value => rfl
      | none => cases Constant.value? name <;> rfl
  | apply operation =>
      rw [defect?]
      by_cases h : stack.length < operation.arity
      · rw [run, if_pos h, if_pos (Int.ofNat_lt.2 h)]
        rfl
      · obtain ⟨result, -, hrun⟩ := exists_run_apply_eq bindings (Nat.not_lt.1 h)
        rw [hrun, if_neg (mt Int.ofNat_lt.1 h)]
        rfl

/-- An operation that has run has found as many numbers as it takes. -/
theorem arity_le_length {operation : Operation}
    (h : (apply operation).run bindings stack = .ok next) : operation.arity ≤ stack.length := by
  refine Nat.not_lt.1 fun hlt => ?_
  rw [run, if_pos hlt] at h
  cases h

/-- The numbers that are on the stack of a name that has run. -/
theorem exists_of_run_load {name : String} (h : (load name).run bindings stack = .ok next) :
    ∃ value, bindings.resolve? name = some value ∧ next = value :: stack := by
  rw [run] at h
  cases hvalue : bindings.resolve? name with
  | none => simp [hvalue] at h
  | some value => exact ⟨value, rfl, by simpa [hvalue, eq_comm] using h⟩

/-- An instruction that has run has changed the depth of the stack by its gain. -/
theorem length_run (h : instruction.run bindings stack = .ok next) :
    (next.length : Int) = stack.length + instruction.gain := by
  cases instruction with
  | push value =>
      cases h
      simp [gain]
  | load name =>
      obtain ⟨value, -, rfl⟩ := exists_of_run_load h
      simp [gain]
  | apply operation =>
      have hle := arity_le_length h
      obtain ⟨result, -, hrun⟩ := exists_run_apply_eq bindings hle
      rw [h, Except.ok.injEq] at hrun
      subst hrun
      simp only [List.length_cons, List.length_drop, gain]
      omega

/-- An instruction that has run does the same to a stack with further numbers below. -/
theorem run_append (h : instruction.run bindings stack = .ok next) (below : List Float) :
    instruction.run bindings (stack ++ below) = .ok (next ++ below) := by
  cases instruction with
  | push value =>
      cases h
      rfl
  | load name =>
      obtain ⟨value, hvalue, rfl⟩ := exists_of_run_load h
      simp [run, hvalue]
  | apply operation =>
      have hle := arity_le_length h
      have hmore : ¬ (stack ++ below).length < operation.arity := by
        rw [List.length_append]
        omega
      obtain ⟨result, hresult, hrun⟩ := exists_run_apply_eq bindings hle
      rw [h, Except.ok.injEq] at hrun
      subst hrun
      rw [run, if_neg hmore, List.take_append_of_le_length hle, List.drop_append_of_le_length hle,
        hresult]
      rfl

/-- The number of an instruction does not change its gain. -/
@[simp]
theorem gain_withoutNumber (instruction : Instruction) :
    instruction.withoutNumber.gain = instruction.gain := by
  cases instruction <;> rfl

/-- The number of an instruction does not change its defect. -/
theorem defect?_withoutNumber (bindings : Bindings) (depth : Int) (instruction : Instruction) :
    instruction.withoutNumber.defect? bindings depth = instruction.defect? bindings depth := by
  cases instruction <;> rfl

end Instruction

namespace Program

variable {bindings : Bindings} {program : Program} {index : Nat}

section Depth

/-- The depth behind an instruction. -/
theorem depth_succ {instruction : Instruction}
    (h : program.instructions[index]? = some instruction) :
    program.depth (index + 1) = program.depth index + instruction.gain := by
  simp [depth, List.take_add_one, h]

/-- A program without defects up to an index runs so far, and the depth of the stack is the one that
is known beforehand. -/
theorem exists_runFrom_take (hle : index ≤ program.instructions.length)
    (h : ∀ earlier < index, program.defectAt? bindings earlier = none) :
    ∃ stack, runFrom bindings [] (program.instructions.take index) = .ok stack ∧
      program.depth index = stack.length := by
  induction index with
  | zero => exact ⟨[], rfl, rfl⟩
  | succ index ih =>
      obtain ⟨stack, hrun, hdepth⟩ := ih (by omega) fun earlier hlt => h earlier (by omega)
      have hget := List.getElem?_eq_getElem hle
      have hdefect := h index (by omega)
      rw [defectAt?, hget, Option.bind_some, hdepth, ← Instruction.failure?_run] at hdefect
      cases hstep : program.instructions[index].run bindings stack with
      | error error => simp [hstep] at hdefect
      | ok next =>
          refine ⟨next, ?_, ?_⟩
          · rw [List.take_add_one, hget, Tree.runFrom_append, hrun, ok_bind]
            simpa [runFrom] using hstep
          · rw [depth_succ hget, hdepth, Instruction.length_run hstep]

/-- A program fails for its first defect, in front of which the depth is that of a stack. -/
theorem execute_of_defectAt? {error : EvaluationError}
    (h : ∀ earlier < index, program.defectAt? bindings earlier = none)
    (herror : program.defectAt? bindings index = some error) :
    0 ≤ program.depth index ∧ program.execute bindings = .error error := by
  obtain ⟨instruction, hget, hdefect⟩ := Option.bind_eq_some_iff.1 herror
  obtain ⟨hlt, rfl⟩ := List.getElem?_eq_some_iff.1 hget
  obtain ⟨stack, hrun, hdepth⟩ := exists_runFrom_take (Nat.le_of_lt hlt) h
  refine ⟨by omega, ?_⟩
  rw [hdepth, ← Instruction.failure?_run] at hdefect
  rw [execute, ← List.take_append_drop index program.instructions, Tree.runFrom_append, hrun,
    ok_bind, List.drop_eq_getElem_cons hlt, runFrom, List.foldlM_cons]
  cases hstep : program.instructions[index].run bindings stack with
  | ok next => simp [hstep] at hdefect
  | error failure =>
      rw [hstep] at hdefect
      cases hdefect
      rfl

/-- A program without defects has a result exactly if the last depth is one. -/
theorem execute_of_forall_eq_none (h : ∀ index, program.defectAt? bindings index = none) :
    ∃ depth : Nat, program.depth program.instructions.length = depth ∧
      (depth = 1 → ∃ value, program.execute bindings = .ok value) ∧
      (depth ≠ 1 → program.execute bindings = .error (.unexpectedDepth depth)) := by
  obtain ⟨stack, hrun, hdepth⟩ := exists_runFrom_take (Nat.le_refl _) fun earlier _ => h earlier
  rw [List.take_length] at hrun
  refine ⟨stack.length, hdepth, ?_, ?_⟩
  · intro hone
    obtain ⟨value, rfl⟩ := List.length_eq_one_iff.1 hone
    exact ⟨value, by rw [execute, hrun, ok_bind]⟩
  · intro hmany
    rw [execute, hrun, ok_bind]
    cases stack with
    | nil => rfl
    | cons first rest =>
        cases rest with
        | nil => exact absurd rfl hmany
        | cons => rfl

/-- The defects of a program depend neither on its numbers nor on the values of bound names. -/
theorem defectAt?_congr {other : Program} {otherBindings : Bindings}
    (h : other.instructions.map Instruction.withoutNumber =
      program.instructions.map Instruction.withoutNumber)
    (hbindings : ∀ name, (otherBindings.value? name).isSome = (bindings.value? name).isSome) :
    other.depth = program.depth ∧
      other.defectAt? otherBindings = program.defectAt? bindings := by
  have hdepth : ∀ program : Program, ∀ index, program.depth index =
      ((program.instructions.map Instruction.withoutNumber).take index).foldl
        (fun depth instruction => depth + instruction.gain) 0 := by
    intro program index
    rw [← List.map_take, List.foldl_map]
    simp [depth]
  have hdefect : ∀ program : Program, ∀ bindings index, program.defectAt? bindings index =
      (program.instructions.map Instruction.withoutNumber)[index]?.bind
        (Instruction.defect? bindings (program.depth index)) := by
    intro program bindings index
    have hcomp : Instruction.defect? bindings (program.depth index) ∘ Instruction.withoutNumber =
        Instruction.defect? bindings (program.depth index) :=
      funext (Instruction.defect?_withoutNumber bindings _)
    rw [List.getElem?_map, Option.bind_map, hcomp, defectAt?]
  have hsame : other.depth = program.depth := by
    funext index
    rw [hdepth, hdepth, h]
  have hunbound : ∀ name, (otherBindings.value? name).isNone = (bindings.value? name).isNone := by
    intro name
    rw [← Option.not_isSome, hbindings, Option.not_isSome]
  have hkind : ∀ depth, Instruction.defect? otherBindings depth =
      Instruction.defect? bindings depth := by
    intro depth
    funext instruction
    cases instruction with
    | load name => rw [Instruction.defect?, Instruction.defect?, hunbound]
    | _ => rfl
  refine ⟨hsame, ?_⟩
  funext index
  rw [hdefect, hdefect, h, hsame, hkind]

/-- A program that has a defect has a first one. -/
theorem exists_first_defect (h : ¬ ∀ index, program.defectAt? bindings index = none) :
    ∃ index error, (∀ earlier < index, program.defectAt? bindings earlier = none) ∧
      program.defectAt? bindings index = some error := by
  have hexists : ∃ index, program.defectAt? bindings index ≠ none := not_forall.1 h
  obtain ⟨error, herror⟩ := Option.ne_none_iff_exists'.1 (Nat.find_spec hexists)
  exact ⟨Nat.find hexists, error, fun _ hlt => not_not.1 (Nat.find_min hexists hlt), herror⟩

/-- Whether a program fails, and for what, depends neither on its numbers nor on the values of bound
names. -/
theorem failure?_execute_congr {other : Program} {otherBindings : Bindings}
    (h : other.instructions.map Instruction.withoutNumber =
      program.instructions.map Instruction.withoutNumber)
    (hbindings : ∀ name, (otherBindings.value? name).isSome = (bindings.value? name).isSome) :
    failure? (other.execute otherBindings) = failure? (program.execute bindings) := by
  obtain ⟨hdepths, hdefects⟩ := defectAt?_congr h hbindings
  by_cases hnone : ∀ index, program.defectAt? bindings index = none
  · have hlength : other.instructions.length = program.instructions.length := by
      simpa using congrArg List.length h
    obtain ⟨depth, hdepth, hone, hmany⟩ := execute_of_forall_eq_none hnone
    have hotherNone : ∀ index, other.defectAt? otherBindings index = none := by
      intro index
      rw [hdefects, hnone]
    obtain ⟨last, hlast, honeLast, hmanyLast⟩ := execute_of_forall_eq_none hotherNone
    obtain rfl : last = depth := by
      rw [hdepths, hlength, hdepth] at hlast
      exact (Int.ofNat_inj.1 hlast).symm
    by_cases hdepth : last = 1
    · obtain ⟨value, hvalue⟩ := hone hdepth
      obtain ⟨otherValue, hotherValue⟩ := honeLast hdepth
      rw [hvalue, hotherValue]
      rfl
    · rw [hmany hdepth, hmanyLast hdepth]
  · obtain ⟨index, error, hfirst, herror⟩ := exists_first_defect hnone
    rw [(execute_of_defectAt? hfirst herror).2]
    rw [← hdefects] at hfirst herror
    rw [(execute_of_defectAt? hfirst herror).2]

/-- A program fails for the defect of the first instruction that has one, and the depth in front of
this instruction is that of the stack. Without defects, it has a result if the last depth is one,
and fails on this depth otherwise. So neither the numbers of a program nor the values of bound names
decide whether it fails, and for what. A run that comes to an operation with as many numbers as it
takes goes on, for the operation itself refuses none of them. -/
theorem execute_by_depth (program : Program) (bindings : Bindings) :
    (∀ index error, (∀ earlier < index, program.defectAt? bindings earlier = none) →
      program.defectAt? bindings index = some error →
        0 ≤ program.depth index ∧ program.execute bindings = .error error) ∧
    ((∀ index, program.defectAt? bindings index = none) →
      ∃ depth : Nat, program.depth program.instructions.length = depth ∧
        (depth = 1 → ∃ value, program.execute bindings = .ok value) ∧
        (depth ≠ 1 → program.execute bindings = .error (.unexpectedDepth depth))) ∧
    (∀ (other : Program) (otherBindings : Bindings),
      other.instructions.map Instruction.withoutNumber =
        program.instructions.map Instruction.withoutNumber →
      (∀ name, (otherBindings.value? name).isSome = (bindings.value? name).isSome) →
        failure? (other.execute otherBindings) = failure? (program.execute bindings)) ∧
    ∀ left operation stack, runFrom bindings [] left = .ok stack →
      operation.arity ≤ stack.length →
        ∃ result, operation.apply (stack.take operation.arity).reverse = .ok result ∧
          runFrom bindings [] (left ++ [.apply operation]) =
            .ok (result :: stack.drop operation.arity) := by
  refine ⟨fun _ _ => execute_of_defectAt?, execute_of_forall_eq_none,
    fun _ _ => failure?_execute_congr, ?_⟩
  intro left operation stack hrun harity
  obtain ⟨result, hresult, hstep⟩ := Instruction.exists_run_apply_eq bindings harity
  refine ⟨result, hresult, ?_⟩
  rw [Tree.runFrom_append, hrun, ok_bind]
  simpa [runFrom] using hstep

/-- In `x 2 Atan + y`, the operator finds the result of the function only, whatever `x` is. -/
example (x : Float) :
    execute ⟨[.load "x", .push 2, .apply (.builtin .atan), .apply (.operator .add), .load "y"]⟩
      (.ofList [("x", x)]) = .error (.insufficientOperands "+" 2 1) := by
  rfl

end Depth

/-- Instructions that run do the same to a stack with further numbers below. -/
theorem runFrom_append_stack {stack next : List Float} {instructions : List Instruction}
    (h : runFrom bindings stack instructions = .ok next) (below : List Float) :
    runFrom bindings (stack ++ below) instructions = .ok (next ++ below) := by
  induction instructions generalizing stack with
  | nil =>
      cases h
      rfl
  | cons instruction rest ih =>
      rw [runFrom, List.foldlM_cons] at h ⊢
      obtain ⟨middle, hstep, hrest⟩ := bind_eq_ok_iff.1 h
      rw [Instruction.run_append hstep, ok_bind]
      exact ih hrest

/-- A program that has a result leaves it alone on the stack. -/
theorem runFrom_of_execute {value : Float} (h : program.execute bindings = .ok value) :
    runFrom bindings [] program.instructions = .ok [value] := by
  rw [execute] at h
  obtain ⟨stack, hrun, hstack⟩ := bind_eq_ok_iff.1 h
  cases stack with
  | nil => cases hstack
  | cons first rest =>
      cases rest with
      | nil =>
          cases hstack
          exact hrun
      | cons => cases hstack

/-- A part of a program that has a result by itself can be replaced by this result, whatever stands
before it and behind it. -/
theorem execute_replace {value : Float} (h : program.execute bindings = .ok value)
    (front back : List Instruction) :
    execute ⟨front ++ program.instructions ++ back⟩ bindings =
      execute ⟨front ++ [.push value] ++ back⟩ bindings := by
  have hpart : ∀ stack, runFrom bindings stack program.instructions =
      runFrom bindings stack [.push value] := by
    intro stack
    exact runFrom_append_stack (runFrom_of_execute h) stack
  simp only [execute, Tree.runFrom_append, hpart]

/-- The difference in `x 3 2 - * +` can be replaced by its result, and so can it be where the
operator behind it has too few operands. -/
theorem execute_replace_difference :
    let difference : Program := ⟨[.push 3, .push 2, .apply (.operator .sub)]⟩
    let value : Float := 3 - 2
    difference.execute .empty = .ok value ∧
      execute ⟨[.push 5] ++ difference.instructions ++
          [.apply (.operator .mul), .apply (.operator .add)]⟩ .empty =
        execute ⟨[.push 5] ++ [.push value] ++
          [.apply (.operator .mul), .apply (.operator .add)]⟩ .empty := by
  intro difference value
  have hvalue : difference.execute .empty = .ok value := rfl
  exact ⟨hvalue, execute_replace hvalue _ _⟩

end Program

end Reckoner
