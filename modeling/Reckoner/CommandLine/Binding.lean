import Reckoner.Decimal.Numeral
import Reckoner.Text.Blank

/-!
# Bindings on the command line

A binding is written `name=value`. White space around the name and around the value does not count.
-/

namespace Reckoner.CommandLine

/-- Why a text is not a binding. -/
inductive BindingError where
  | noEqualsSign (argument : String)
  | invalidValue (name : String) (cause : NumeralError)
  deriving DecidableEq, Repr

/-- The wording of an error. The name is shown with the white space around it. -/
def BindingError.message : BindingError → String
  | noEqualsSign argument => "expected name=value, found '" ++ argument ++ "'"
  | invalidValue name cause => "invalid value for '" ++ name ++ "': " ++ cause.message

/-- The texts before and after the first equals sign. -/
def splitEquals? (argument : String) : Option (String × String) :=
  let name := argument.toList.takeWhile (· ≠ '=')
  match argument.toList.drop name.length with
  | [] => none
  | _ :: value => some (.ofList name, .ofList value)

/-- The name and the value of a binding. -/
def readBinding (argument : String) : Except BindingError (String × Float) :=
  match splitEquals? argument with
  | none => .error (.noEqualsSign argument)
  | some (name, value) =>
    match Numeral.read (Text.trim value) with
    | .ok number => .ok (Text.trim name, number)
    | .error cause => .error (.invalidValue name cause)

end Reckoner.CommandLine
