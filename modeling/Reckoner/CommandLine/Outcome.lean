import Reckoner.CommandLine.Request
import Reckoner.Expression

/-!
# The outcome of a run

A run shows, in this order and as far as it is asked to and gets, the tokens of the expression, its
postfix form and its value. The first failure ends it: its wording goes to the error output, and
what has been shown before stays. A log that is asked for goes to the error output as well, in
front of that wording. It is left out here, so that `Outcome.errors` holds the report of the failure
and nothing else, whatever the flags are.
-/

namespace Reckoner.CommandLine

/-- What a run leaves behind: its exit code and the texts on its two outputs, without the log. -/
structure Outcome where
  code : Nat
  output : String
  /-- The report of the failure, if there is one. -/
  errors : String
  deriving DecidableEq, Repr

/-- The outcome of a run that succeeds. -/
def Outcome.success (output : String) : Outcome := ⟨0, output, ""⟩

/-- The outcome of a run that fails after it has shown something. -/
def Outcome.failure (output message : String) : Outcome := ⟨1, output, message ++ "\n"⟩

/-- A number at the right end of a field. -/
def alignRight (width number : Nat) : String :=
  let digits := toString number
  String.ofList (List.replicate (width - digits.length) ' ') ++ digits

/-- A number at the left end of a field. -/
def alignLeft (width number : Nat) : String :=
  let digits := toString number
  digits ++ String.ofList (List.replicate (width - digits.length) ' ')

/-- The line that shows a token: its row, its column, and what it is. -/
def tokenLine (token : Token) : String :=
  alignRight 3 token.position.row ++ ":" ++ alignLeft 3 token.position.column ++ " " ++
    token.kind.text ++ "\n"

/-- The lines that show the tokens, if they are asked for. -/
def Request.tokenLines (request : Request) : Except CompileError String :=
  if .tokens ∈ request.flags then
    (Token.ofSource request.expression).map fun tokens => String.join (tokens.map tokenLine)
  else .ok ""

/-- The line that shows the program, if it is asked for. -/
def Request.programLine (request : Request) (program : Program) : String :=
  if .program ∈ request.flags then program.text ++ "\n" else ""

/-- Carries out a request, without the log that `Flag.debug` asks for. -/
def Request.run (request : Request) : Outcome :=
  match request.tokenLines with
  | .error error => .failure "" error.message
  | .ok tokenLines =>
    match Expression.compile request.expression with
    | .error error => .failure tokenLines error.message
    | .ok expression =>
      let shown := tokenLines ++ request.programLine expression.program
      match expression.evaluate (.ofList request.bindings) with
      | .error error => .failure shown error.message
      | .ok value => .success (shown ++ Style.plain.write value ++ "\n")

/-- The outcome of a run with the given arguments, unless they are refused. -/
def run? (arguments : List String) : Option Outcome :=
  (Request.ofArguments? arguments).map Request.run

end Reckoner.CommandLine
