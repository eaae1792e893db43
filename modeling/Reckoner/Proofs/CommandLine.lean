import Reckoner.CommandLine.Outcome
import Reckoner.Proofs.Evaluation
import Reckoner.Proofs.Legibility
import Reckoner.Proofs.Stages

/-!
# Runs on the command line

The flags of a run decide what is shown, and not whether the run succeeds, which is `run_spec`. A
run reads the tokens for itself if they are to be shown, before the compiler counts the parentheses
and reads the tokens again. So there is one exception: if both fail, the flag decides which of the
two errors is reported. The bindings count through the last binding of each name only
(`value?_ofList`). The log of a run is no part of its outcome: with `Flag.debug`, what is said of
the error output holds of the report on it.
-/

namespace Reckoner

/-- Of the bindings of a list, the last one of a name gives its value. -/
theorem Bindings.value?_ofList (entries : List (String × Float)) (name : String) :
    (ofList entries).value? name = entries.reverse.lookup name := by
  induction entries using List.reverseRecOn with
  | nil => rfl
  | append_singleton front entry ih =>
      have hlast : ofList (front ++ [entry]) = (ofList front).bind entry.1 entry.2 := by
        rw [ofList, List.foldl_append]
        rfl
      rw [hlast, value?_bind, ih, List.reverse_concat, List.lookup_cons]
      by_cases hname : name = entry.1
      · simp [hname]
      · rw [if_neg hname, beq_eq_false_iff_ne.2 hname]

/-- The value of a source text under bindings, or the wording of the error that it has instead. -/
def Program.result (source : String) (bindings : Bindings) : Except String Float :=
  match compile source with
  | .error error => .error error.message
  | .ok program =>
    match program.execute bindings with
    | .error error => .error error.message
    | .ok value => .ok value

namespace CommandLine

/-- The given lines, each with its end. -/
def lines (texts : List String) : String := String.join (texts.map (· ++ "\n"))

/-- One list of lines follows another. -/
theorem lines_append (first second : List String) :
    lines (first ++ second) = lines first ++ lines second := by
  rw [lines, List.map_append, String.join_append]
  rfl

@[simp]
theorem lines_nil : lines [] = "" := rfl

@[simp]
theorem lines_singleton (text : String) : lines [text] = text ++ "\n" := by
  rw [lines, List.map_singleton, String.join_cons, String.join_nil, String.append_empty]

/-- What the line of a token shows. -/
def tokenText (token : Token) : String :=
  alignRight 3 token.position.row ++ ":" ++ alignLeft 3 token.position.column ++ " " ++
    token.kind.text

namespace Request

variable (request : Request)

/-- The token lines that are shown: none, if they are not asked for or the tokens cannot be read. -/
def tokenTexts : List String :=
  match Token.ofSource request.expression with
  | .error _ => []
  | .ok tokens => if .tokens ∈ request.flags then tokens.map tokenText else []

/-- The program line that is shown: none, if it is not asked for or there is no program. -/
def programTexts : List String :=
  match Program.compile request.expression with
  | .error _ => []
  | .ok program => if .program ∈ request.flags then [program.text] else []

/-- The line of the value, if there is one. -/
def valueTexts : List String :=
  match Program.result request.expression (.ofList request.bindings) with
  | .error _ => []
  | .ok value => [Style.plain.write value]

/-- The wording of the error that is reported, given that of the error that the expression has. It
is another one only if neither the parentheses balance nor the tokens can be read: then it depends
on whether the tokens are asked for. -/
def reported (message : String) : String :=
  match unbalancedAt? request.expression, Token.ofSource request.expression with
  | some position, .error error =>
    if .tokens ∈ request.flags then error.message
    else (CompileError.fault .unbalancedParentheses position).message
  | _, _ => message

/-- What a run leaves behind, regardless of the order in which it finds it out. -/
def outcome : Outcome :=
  let shown := lines (request.tokenTexts ++ request.programTexts ++ request.valueTexts)
  match Program.result request.expression (.ofList request.bindings) with
  | .ok _ => ⟨0, shown, ""⟩
  | .error message => ⟨1, shown, lines [request.reported message]⟩

variable {request}

/-- Without tokens there is no program, and the error is that of the parentheses or, if these
balance, that of the tokens. -/
theorem exists_of_refused {error : CompileError}
    (h : Token.ofSource request.expression = .error error) :
    ∃ failure, Program.compile request.expression = .error failure ∧
      request.reported failure.message =
        if .tokens ∈ request.flags then error.message else failure.message := by
  cases hbalance : unbalancedAt? request.expression with
  | some position =>
      have hcheck : checkBalance request.expression =
          .error (.fault .unbalancedParentheses position) := by rw [checkBalance, hbalance]
      refine ⟨_, Program.compile_of_unbalanced hcheck, ?_⟩
      rw [reported, hbalance, h]
  | none =>
      have hcheck : checkBalance request.expression = .ok () := by rw [checkBalance, hbalance]
      refine ⟨error, Program.compile_of_refused hcheck h, ?_⟩
      rw [reported, hbalance, h, ite_self]

/-- A run without tokens shows nothing. -/
theorem run_of_refused {error : CompileError}
    (h : Token.ofSource request.expression = .error error) : request.run = request.outcome := by
  obtain ⟨failure, hcompile, hreported⟩ := exists_of_refused h
  have hresult : Program.result request.expression (.ofList request.bindings) =
      .error failure.message := by rw [Program.result, hcompile]
  have htexts : request.tokenTexts ++ request.programTexts ++ request.valueTexts = [] := by
    rw [tokenTexts, programTexts, valueTexts, h, hcompile, hresult]
    rfl
  have houtcome : request.outcome = .failure ""
      (if .tokens ∈ request.flags then error.message else failure.message) := by
    rw [outcome, hresult]
    simp only [htexts, hreported, lines_nil, lines_singleton, Outcome.failure]
  rw [houtcome, run, tokenLines, h]
  by_cases hflag : .tokens ∈ request.flags
  · rw [if_pos hflag, if_pos hflag]
    rfl
  · rw [if_neg hflag, if_neg hflag]
    simp only [Expression.compile, hcompile, error_bind]

/-- A run with tokens shows them if they are asked for, and then goes on. -/
theorem run_of_tokens {tokens : List Token}
    (h : Token.ofSource request.expression = .ok tokens) : request.run = request.outcome := by
  have htokens : request.tokenLines = .ok (lines request.tokenTexts) := by
    rw [tokenLines, tokenTexts, h]
    by_cases hflag : .tokens ∈ request.flags
    · simp only [if_pos hflag, lines, List.map_map]
      rfl
    · simp only [if_neg hflag, lines_nil]
  have hreported : ∀ message, request.reported message = message := by
    intro message
    rw [reported, h]
    cases unbalancedAt? request.expression <;> rfl
  rw [run, htokens, outcome, valueTexts, Program.result]
  cases hcompile : Program.compile request.expression with
  | error failure =>
      have hprogram : request.programTexts = [] := by rw [programTexts, hcompile]
      simp only [Expression.compile, hcompile, error_bind, hprogram, hreported, List.append_nil,
        lines_singleton, Outcome.failure]
  | ok program =>
      have hprogram : request.programLine program = lines request.programTexts := by
        rw [programLine, programTexts, hcompile]
        by_cases hflag : .program ∈ request.flags
        · simp only [if_pos hflag, lines_singleton]
        · simp only [if_neg hflag, lines_nil]
      simp only [Expression.compile, hcompile, ok_bind, Expression.evaluate, hprogram]
      cases program.execute (.ofList request.bindings) with
      | error failure =>
          simp only [hreported, lines_append, lines_nil, String.append_empty, lines_singleton,
            Outcome.failure]
      | ok value =>
          simp only [lines_append, lines_singleton, Outcome.success, String.append_assoc]

/-- What a run leaves behind does not depend on the order in which it finds it out. -/
theorem run_eq_outcome (request : Request) : request.run = request.outcome := by
  cases h : Token.ofSource request.expression with
  | error error => exact run_of_refused h
  | ok tokens => exact run_of_tokens h

/-- A run succeeds exactly if its expression has a value. -/
theorem code_eq_zero_iff (request : Request) :
    request.run.code = 0 ↔
      ∃ program value, Program.compile request.expression = .ok program ∧
        program.execute (.ofList request.bindings) = .ok value := by
  rw [run_eq_outcome, outcome, Program.result]
  cases Program.compile request.expression with
  | error failure => simp
  | ok program => cases hexecute : program.execute (.ofList request.bindings) <;> simp [hexecute]

/-- The flags do not decide whether a run succeeds. -/
theorem code_run_eq_of_flags (request : Request) (flags : List Flag) :
    { request with flags := flags }.run.code = request.run.code := by
  rw [run_eq_outcome, run_eq_outcome, outcome, outcome]
  cases Program.result request.expression (.ofList request.bindings) <;> rfl

/-- Of the bindings of each name, a run looks at the last one only. -/
theorem run_congr (request : Request) {bindings : List (String × Float)}
    (h : ∀ name, bindings.reverse.lookup name = request.bindings.reverse.lookup name) :
    { request with bindings := bindings }.run = request.run := by
  have hvalues : ∀ name, (Bindings.ofList bindings).resolve? name =
      (Bindings.ofList request.bindings).resolve? name := by
    intro name
    rw [Bindings.resolve?, Bindings.resolve?, Bindings.value?_ofList, Bindings.value?_ofList, h]
  have hexecute : ∀ program : Program, program.execute (.ofList bindings) =
      program.execute (.ofList request.bindings) :=
    fun program => Program.execute_congr fun name _ => hvalues name
  simp only [run, tokenLines, programLine, Expression.evaluate, hexecute]

end Request

section Lines

/-- A text without white space is one line. -/
theorem newline_notMem {text : List Char} (h : ∀ c ∈ text, Category.ofChar c ≠ .whitespace) :
    '\n' ∉ text :=
  fun hnewline => h '\n' hnewline rfl

/-- The text of a number is one line. -/
theorem newline_notMem_write (x : Float) : '\n' ∉ (Style.plain.write x).toList :=
  newline_notMem fun _ => Style.ofChar_ne_whitespace_of_mem_write

/-- A number in a field is one line. -/
theorem newline_notMem_align (width number : Nat) :
    '\n' ∉ (alignRight width number).toList ∧ '\n' ∉ (alignLeft width number).toList := by
  have hdigits : '\n' ∉ Nat.toDigits 10 number := by
    intro hnewline
    cases Numeral.isDigit_of_mem_toDigits hnewline
  simp [alignRight, alignLeft, hdigits]

/-- A text between others is one of them or what separates them. -/
theorem mem_of_mem_intercalate {α : Type} {separator member : α} {texts : List (List α)}
    (h : member ∈ [separator].intercalate texts) :
    member = separator ∨ ∃ text ∈ texts, member ∈ text := by
  induction texts with
  | nil => cases h
  | cons text rest ih =>
      cases rest with
      | nil => exact .inr ⟨text, List.mem_cons_self, by simpa using h⟩
      | cons second rest =>
          rw [List.intercalate_cons_cons, List.append_assoc, List.singleton_append] at h
          rcases List.mem_append.1 h with htext | h
          · exact .inr ⟨text, List.mem_cons_self, htext⟩
          · rcases List.mem_cons.1 h with rfl | h
            · exact .inl rfl
            · obtain rfl | ⟨other, hother, hmember⟩ := ih h
              · exact .inl rfl
              · exact .inr ⟨other, List.mem_cons_of_mem _ hother, hmember⟩

/-- The text of a compiled program is one line. -/
theorem newline_notMem_program {source : String} {program : Program}
    (h : Program.compile source = .ok program) : '\n' ∉ program.text.toList := by
  intro hnewline
  rw [Program.text, String.toList_intercalate, List.map_map] at hnewline
  obtain hspace | ⟨text, htext, hnewline⟩ := mem_of_mem_intercalate hnewline
  · cases hspace
  · obtain ⟨instruction, hmem, rfl⟩ := List.mem_map.1 htext
    refine Instruction.ofChar_ne_whitespace ?_ hnewline rfl
    rintro name rfl
    exact Program.isVariable_of_compile h hmem

/-- What is shown of a token of a source text is one line. -/
theorem newline_notMem_token {source : String} {tokens : List Token}
    (h : Token.ofSource source = .ok tokens) :
    ∀ token ∈ tokens, '\n' ∉ (tokenText token).toList := by
  intro token htoken
  have hleaf := (Token.hasKinds_of_ofSource h).isLeaf token.kind (List.mem_map_of_mem htoken)
  have hkind : '\n' ∉ token.kind.text.toList := by
    cases hkind : token.kind with
    | number value => simp [Token.Kind.text, newline_notMem_write]
    | operator op => cases op <;> decide
    | builtin function => cases function <;> decide
    | name name =>
        rw [hkind] at hleaf
        have hname : '\n' ∉ name.toList := newline_notMem fun c hc => by
          rw [hleaf.ofChar_eq c hc]
          decide
        simpa [Token.Kind.text] using hname
    | _ => decide
  simp [tokenText, newline_notMem_align, hkind]

/-- What a run shows consists of lines. -/
theorem newline_notMem_texts (request : Request) :
    ∀ text ∈ request.tokenTexts ++ request.programTexts ++ request.valueTexts,
      '\n' ∉ text.toList := by
  have htokens : ∀ text ∈ request.tokenTexts, '\n' ∉ text.toList := by
    intro text htext
    unfold Request.tokenTexts at htext
    split at htext
    · cases htext
    · next tokens hsource =>
        split at htext
        · obtain ⟨token, htoken, rfl⟩ := List.mem_map.1 htext
          exact newline_notMem_token hsource token htoken
        · cases htext
  have hprogram : ∀ text ∈ request.programTexts, '\n' ∉ text.toList := by
    intro text htext
    unfold Request.programTexts at htext
    split at htext
    · cases htext
    · next program hcompile =>
        split at htext
        · rw [List.mem_singleton.1 htext]
          exact newline_notMem_program hcompile
        · cases htext
  have hvalue : ∀ text ∈ request.valueTexts, '\n' ∉ text.toList := by
    intro text htext
    unfold Request.valueTexts at htext
    split at htext
    · cases htext
    · rw [List.mem_singleton.1 htext]
      exact newline_notMem_write _
  intro text htext
  rcases List.mem_append.1 htext with htext | htext
  · rcases List.mem_append.1 htext with htext | htext
    exacts [htokens text htext, hprogram text htext]
  · exact hvalue text htext

end Lines

/-- The flags of a run decide what it shows, and the last binding of each name decides on its value:
what a run leaves behind is its `outcome`, its code tells whether the expression has a value, and
each text that is shown is one line. A run that succeeds can read the tokens. With `Flag.debug` a
log is also written to the error output, which is not modelled: `errors` is the report alone. -/
theorem run_spec (request : Request) :
    request.run = request.outcome ∧
    (request.run.code = 0 ↔
      ∃ program value, Program.compile request.expression = .ok program ∧
        program.execute (.ofList request.bindings) = .ok value) ∧
    (request.run.code = 0 → ∃ tokens, Token.ofSource request.expression = .ok tokens) ∧
    (∀ name, (Bindings.ofList request.bindings).value? name =
      request.bindings.reverse.lookup name) ∧
    (∀ bindings, (∀ name, bindings.reverse.lookup name = request.bindings.reverse.lookup name) →
      { request with bindings := bindings }.run = request.run) ∧
    (∀ flags, { request with flags := flags }.run.code = request.run.code) ∧
    ∀ text ∈ request.tokenTexts ++ request.programTexts ++ request.valueTexts,
      '\n' ∉ text.toList := by
  refine ⟨request.run_eq_outcome, request.code_eq_zero_iff, ?_, ?_, ?_, ?_,
    newline_notMem_texts request⟩
  · intro hcode
    obtain ⟨program, value, hcompile, -⟩ := request.code_eq_zero_iff.1 hcode
    obtain ⟨-, tokens, htokens, -⟩ := Program.compile_eq_ok_iff.1 hcompile
    exact ⟨tokens, htokens⟩
  · exact Bindings.value?_ofList request.bindings
  · exact fun bindings => request.run_congr
  · exact request.code_run_eq_of_flags

/-- The earlier binding of `x` makes no difference to the value of `-x`. -/
theorem run_spec_shadowed_binding :
    let three := Float.ofBits 0x4008000000000000
    let request : Request :=
      ⟨"-x", [("x", Float.ofBits 0), ("y", three), ("x", three)], [.tokens, .program]⟩
    let bindings := [("y", three), ("x", three)]
    let text := "  1:2   Variable: x"
    request.run = ⟨0, "  1:1   Operator: -\n  1:2   Variable: x\n-0 x -\n-3\n", ""⟩ ∧
      (∃ tokens, Token.ofSource request.expression = .ok tokens) ∧
      (∀ name, bindings.reverse.lookup name = request.bindings.reverse.lookup name) ∧
      { request with bindings := bindings }.run = request.run ∧
      text ∈ request.tokenTexts ++ request.programTexts ++ request.valueTexts ∧
      '\n' ∉ text.toList := by
  intro three request bindings text
  have hrun : request.run =
      ⟨0, "  1:1   Operator: -\n  1:2   Variable: x\n-0 x -\n-3\n", ""⟩ := by decide +kernel
  have hbindings : ∀ name, bindings.reverse.lookup name = request.bindings.reverse.lookup name := by
    intro name
    by_cases hx : name = "x"
    · subst hx
      rfl
    · have hne : (name == "x") = false := by simpa using hx
      simp [bindings, request, List.lookup_cons, hne]
  have htext : text ∈ request.tokenTexts ++ request.programTexts ++ request.valueTexts := by
    decide +kernel
  obtain ⟨-, -, htokens, -, hcongr, -, hlines⟩ := run_spec request
  exact ⟨hrun, htokens (by rw [hrun]), hbindings, hcongr bindings hbindings, htext,
    hlines text htext⟩

/-- Neither the parentheses of this text balance nor does it have tokens. -/
example : let request : Request := ⟨"Foo(", [], []⟩
    request.run = ⟨1, "", "Error at column 4, row 1: Mismatched parentheses.\n"⟩ ∧
      { request with flags := [.tokens] }.run =
        ⟨1, "", "Error at column 1, row 1: Unknown function 'Foo'.\n"⟩ := by
  decide +kernel

end CommandLine

end Reckoner
