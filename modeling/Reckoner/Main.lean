import Reckoner.CommandLine.Outcome

/-!
# The program

Compiles and evaluates the expression given on the command line.
-/

namespace Reckoner.CommandLine

/-- What the arguments look like. -/
def usage : String :=
  "usage: reckoner [-v NAME=VALUE]... [-r] [-t] [-d] EXPRESSION"

end Reckoner.CommandLine

open Reckoner.CommandLine

/-- Prints the outcome of a run and ends with its exit code, which is 2 for refused arguments. No
log is written. -/
def main (arguments : List String) : IO UInt32 := do
  match run? arguments with
  | some outcome =>
    IO.print outcome.output
    IO.eprint outcome.errors
    return outcome.code.toUInt32
  | none =>
    IO.eprintln usage
    return 2
