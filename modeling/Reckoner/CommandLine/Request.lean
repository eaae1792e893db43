import Reckoner.CommandLine.Binding

/-!
# Requests on the command line

The arguments of a run are one expression and any number of options before or after it: `-v` or
`--var` with a binding, and the flags `-r` or `--rpn`, `-t` or `--tokens` and `-d` or `--debug`,
each at most once. Short options can be joined. As long as the expression is missing, an argument
that starts with a minus and is neither a long option nor joined short options is read like one
without a minus, and everything after `--` is an expression. `Request.ofArguments?` refuses all
other arguments.
-/

namespace Reckoner.CommandLine

/-- An option without a value. -/
inductive Flag where
  /-- Show the postfix form of the program. -/
  | program
  /-- Show the tokens of the expression. -/
  | tokens
  /-- Log what happens. The log goes to the error output and is not modelled. -/
  | debug
  deriving DecidableEq, Repr

/-- What a run is asked to do. -/
structure Request where
  expression : String
  bindings : List (String × Float)
  flags : List Flag
  deriving DecidableEq

/-- The arguments read so far. -/
structure Reading where
  expression? : Option String
  bindings : List (String × Float)
  flags : List Flag
  /-- Has an option been given whose binding is still to come? -/
  awaitsBinding : Bool

namespace Reading

/-- No argument has been read. -/
def start : Reading := ⟨none, [], [], false⟩

/-- Sets a flag that has not been set before. -/
def setFlag (reading : Reading) (flag : Flag) : Option Reading :=
  if flag ∈ reading.flags then none else some { reading with flags := flag :: reading.flags }

/-- Adds the binding that a text stands for. -/
def addBinding (reading : Reading) (argument : String) : Option Reading :=
  match readBinding argument with
  | .ok binding =>
    some { reading with bindings := reading.bindings ++ [binding], awaitsBinding := false }
  | .error _ => none

/-- Reads an argument that is no option: a binding if one is awaited, or else the expression. -/
def readPlain (reading : Reading) (argument : String) : Option Reading :=
  if reading.awaitsBinding then reading.addBinding argument
  else if reading.expression?.isNone then some { reading with expression? := some argument }
  else none

/-- The letters of the short options, those for help and version included. -/
def shortLetters : List Char := ['v', 'r', 't', 'd', 'h', 'V']

/-- The names of the long options, those for help and version included. -/
def longNames : List String := ["var", "rpn", "tokens", "debug", "help", "version"]

/-- Does an argument, given without its first minus, name only options that exist? The name of a
long option follows a second minus and ends before an equals sign. -/
def areOptions : List Char → Bool
  | '-' :: option => .ofList (option.takeWhile (· ≠ '=')) ∈ longNames
  | letters => letters.all (· ∈ shortLetters)

/-- Reads joined short options. A binding takes the rest of the argument, without an equals sign in
front of it, or the next argument if nothing is left. -/
def readShort (reading : Reading) : List Char → Option Reading
  | [] => some reading
  | 'r' :: rest => (reading.setFlag .program).bind (·.readShort rest)
  | 't' :: rest => (reading.setFlag .tokens).bind (·.readShort rest)
  | 'd' :: rest => (reading.setFlag .debug).bind (·.readShort rest)
  | ['v'] => some { reading with awaitsBinding := true }
  | 'v' :: '=' :: binding => reading.addBinding (.ofList binding)
  | 'v' :: binding => reading.addBinding (.ofList binding)
  | _ => none

/-- Reads a long option, with a value after an equals sign if there is one. -/
def readLong (reading : Reading) (option : List Char) : Option Reading :=
  let name := option.takeWhile (· ≠ '=')
  match String.ofList name, option.drop name.length with
  | "var", _ :: binding => reading.addBinding (.ofList binding)
  | "var", [] => some { reading with awaitsBinding := true }
  | "rpn", [] => reading.setFlag .program
  | "tokens", [] => reading.setFlag .tokens
  | "debug", [] => reading.setFlag .debug
  | _, _ => none

/-- Reads the options of an argument without its first minus. -/
def readOptions (reading : Reading) : List Char → Option Reading
  | '-' :: option => reading.readLong option
  | letters => reading.readShort letters

/-- Reads an argument other than `--`. An option is refused where a binding is awaited. -/
def readArgument (reading : Reading) (argument : String) : Option Reading :=
  match argument.toList with
  | '-' :: first :: rest =>
    if reading.expression?.isNone && !areOptions (first :: rest) then reading.readPlain argument
    else if reading.awaitsBinding then none
    else reading.readOptions (first :: rest)
  | _ => reading.readPlain argument

/-- Reads all arguments. -/
def readAll (reading : Reading) : List String → Option Reading
  | [] => some reading
  | argument :: rest =>
    if argument = "--" then
      if reading.awaitsBinding then none else rest.foldlM readPlain reading
    else (reading.readArgument argument).bind (·.readAll rest)

/-- The request that is complete after the last argument. -/
def finish? (reading : Reading) : Option Request :=
  if reading.awaitsBinding then none
  else reading.expression?.map fun expression => ⟨expression, reading.bindings, reading.flags⟩

end Reading

/-- The request that the arguments of a run stand for. -/
def Request.ofArguments? (arguments : List String) : Option Request :=
  (Reading.start.readAll arguments).bind Reading.finish?

end Reckoner.CommandLine
