import Reckoner.Proofs.Decompilation
import Reckoner.Proofs.Number.Writing

/-!
# Programs told by their text

The text of a compiled program whose numbers are finite tells which program it is, which is
`Program.eq_of_text_eq`. The reason is that the text can be read back, instruction by
instruction (`ofText?_text`). No instruction of a compiled program has a space in its text, and the
first character tells what kind of instruction it is, except for a minus, which is an operator if it
stands alone and the sign of a number otherwise. An infinite number would have the text of a name.
-/

namespace Reckoner

open Style (plain)

namespace Instruction

/-- The instruction with a given text. -/
def ofText? (text : List Char) : Option Instruction :=
  let number := (Numeral.read (.ofList text)).toOption.map push
  match text with
  | [] => none
  | first :: rest =>
    match Category.ofChar first with
    | .number => number
    | .operator =>
      if rest = [] then (Operator.ofSymbol? first).map fun op => apply (.operator op) else number
    | .letter =>
      if Text.isUppercase first then
        (Builtin.ofName? (.ofList text)).map fun function => apply (.builtin function)
      else some (load (.ofList text))
    | _ => none

/-- An instruction that can be told by its text: its number is finite and its name is that of a
variable, if it has one. -/
def IsLegible : Instruction → Prop
  | push value => value.isFinite
  | load name => IsVariable name
  | apply _ => True

/-- A finite number can be told by its text. -/
theorem ofText?_push {value : Float} (h : value.isFinite) :
    ofText? (plain.write value).toList = some (push value) := by
  obtain ⟨c, rest, hc, htext⟩ := Style.exists_toList_write Style.isReadable_plain h
  have hread : Numeral.read (.ofList (plain.write value).toList) = .ok value := by
    rw [String.ofList_toList]
    exact Style.read_write Style.isReadable_plain h
  unfold ofText?
  rw [hread]
  rcases htext with htext | htext
  · rw [htext]
    simp only [Numeral.ofChar_of_isDigit hc]
    rfl
  · rw [htext]
    rfl

/-- A variable can be told by its text. -/
theorem ofText?_load {name : String} (h : IsVariable name) :
    ofText? name.toList = some (load name) := by
  obtain ⟨c, tail, htext⟩ := List.exists_cons_of_ne_nil (mt String.toList_eq_nil_iff.1 h.ne_empty)
  have hc : Category.ofChar c = .letter := h.ofChar_eq c (by simp [htext])
  have hupper : Text.isUppercase c = false := h.not_isUppercase c (by simp [htext])
  unfold ofText?
  rw [String.ofList_toList, htext]
  simp only [hc, hupper, Bool.false_eq_true, if_false]

/-- An operation can be told by its text. -/
theorem ofText?_apply (operation : Operation) :
    ofText? operation.text.toList = some (apply operation) := by
  cases operation with
  | operator op => cases op <;> rfl
  | builtin function =>
      obtain ⟨c, tail, htext, hupper, hchars⟩ := function.exists_name_eq
      have hc : Category.ofChar c = .letter := hchars c (by simp [htext])
      unfold ofText?
      rw [Operation.text, String.ofList_toList, htext]
      simp only [hc, hupper, if_true, Builtin.ofName?_name, Option.map_some]

variable {instruction : Instruction}

/-- A legible instruction can be told by its text. -/
theorem ofText?_text (h : instruction.IsLegible) :
    ofText? instruction.text.toList = some instruction := by
  cases instruction with
  | push value => exact ofText?_push h
  | load name => exact ofText?_load h
  | apply operation => exact ofText?_apply operation

/-- The text of an operation has no white space. -/
theorem ofChar_ne_whitespace_of_mem_operation {operation : Operation} {c : Char}
    (h : c ∈ operation.text.toList) : Category.ofChar c ≠ .whitespace := by
  have hall : operation.text.toList.all fun c => Category.ofChar c ≠ .whitespace := by
    cases operation with
    | operator op => cases op <;> decide
    | builtin function => cases function <;> decide
  exact of_decide_eq_true (List.all_eq_true.1 hall c h)

/-- The text of an instruction has no white space, if a name that it loads is a variable. -/
theorem ofChar_ne_whitespace (hname : ∀ name, instruction = load name → IsVariable name) {c : Char}
    (h : c ∈ instruction.text.toList) : Category.ofChar c ≠ .whitespace := by
  cases instruction with
  | push value => exact Style.ofChar_ne_whitespace_of_mem_write h
  | load name =>
      rw [(hname name rfl).ofChar_eq c h]
      decide
  | apply operation => exact ofChar_ne_whitespace_of_mem_operation h

/-- A legible instruction has no space in its text. -/
theorem space_notMem_text (h : instruction.IsLegible) : ' ' ∉ instruction.text.toList := by
  intro hspace
  refine ofChar_ne_whitespace ?_ hspace rfl
  rintro name rfl
  exact h

end Instruction

namespace Program

/-- The program with a given text. -/
def ofText? (text : String) : Option Program :=
  if text.isEmpty then some ⟨[]⟩
  else ((text.toList.splitOn ' ').mapM Instruction.ofText?).map .mk

/-- The texts of instructions are the pieces of the text of a program. -/
theorem splitOn_text {program : Program} (hne : program.instructions ≠ [])
    (h : ∀ instruction ∈ program.instructions, instruction.IsLegible) :
    program.text.toList.splitOn ' ' =
      program.instructions.map fun instruction => instruction.text.toList := by
  rw [text, String.toList_intercalate, List.map_map]
  refine List.splitOn_intercalate ' ' ?_ (by simpa using hne)
  intro piece hpiece
  obtain ⟨instruction, hmem, rfl⟩ := List.mem_map.1 hpiece
  exact Instruction.space_notMem_text (h instruction hmem)

/-- A program of legible instructions can be told by its text. -/
theorem ofText?_text {program : Program}
    (h : ∀ instruction ∈ program.instructions, instruction.IsLegible) :
    ofText? program.text = some program := by
  obtain ⟨instructions⟩ := program
  by_cases hne : instructions = []
  · subst hne
    rfl
  · have hread : ((mk instructions).text.toList.splitOn ' ').mapM Instruction.ofText? =
        some instructions := by
      rw [splitOn_text hne h, List.mapM_map]
      exact mapM_eq_some_self_iff.2 fun instruction hmem =>
        Instruction.ofText?_text (h instruction hmem)
    have hempty : ¬ (mk instructions).text.isEmpty := by
      intro hempty
      rw [String.isEmpty_iff.1 hempty] at hread
      cases hread
    rw [ofText?, if_neg hempty, hread, Option.map_some]

/-- The instructions of a compiled program with finite numbers are legible. -/
theorem isLegible_of_compile {source : String} {program : Program}
    (h : compile source = .ok program) (hfinite : program.IsFinite) :
    ∀ instruction ∈ program.instructions, instruction.IsLegible := by
  intro instruction hmem
  cases instruction with
  | push value => exact hfinite _ hmem
  | load name => exact isVariable_of_compile h hmem
  | apply operation => trivial

/-- Two compiled programs of finite numbers that have the same text are the same program, and no
bindings tell them apart. -/
theorem eq_of_text_eq {firstSource secondSource : String} {first second : Program}
    (hfirst : compile firstSource = .ok first) (hsecond : compile secondSource = .ok second)
    (hfinite : first.IsFinite) (hfinite' : second.IsFinite) (htext : first.text = second.text) :
    first = second ∧ ∀ bindings, first.execute bindings = second.execute bindings := by
  have hread := ofText?_text (isLegible_of_compile hfirst hfinite)
  have hread' := ofText?_text (isLegible_of_compile hsecond hfinite')
  rw [htext, hread'] at hread
  obtain rfl := Option.some.inj hread
  exact ⟨rfl, fun _ => rfl⟩

/-- The sources `-0*x` and `- (0.) * x` both have the text `-0 0 x * -`. -/
theorem eq_of_text_eq_signed_product :
    ∃ first second : Program, compile "-0*x" = .ok first ∧ compile "- (0.) * x" = .ok second ∧
      first.IsFinite ∧ second.IsFinite ∧ first.text = "-0 0 x * -" ∧ first.text = second.text ∧
        first = second ∧ ∀ bindings, first.execute bindings = second.execute bindings := by
  let program : Program := ⟨[.push (Float.ofBits 0x8000000000000000), .push (Float.ofBits 0),
    .load "x", .apply (.operator .mul), .apply (.operator .sub)]⟩
  have hfirst : compile "-0*x" = .ok program := by cbv
  have hsecond : compile "- (0.) * x" = .ok program := by cbv
  have hfinite : program.IsFinite := by decide
  have htext : program.text = "-0 0 x * -" := by cbv
  exact ⟨program, program, hfirst, hsecond, hfinite, hfinite, htext, rfl,
    eq_of_text_eq hfirst hsecond hfinite hfinite rfl⟩

end Program

end Reckoner
