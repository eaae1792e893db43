/-!
# Named constants

The names that have a value without being bound.
-/

namespace Reckoner.Constant

/-- The named constants with their values: the circle number and the base of natural logarithms. -/
def table : List (String × Float) :=
  [("pi", .ofBits 0x400921FB54442D18), ("e", .ofBits 0x4005BF0A8B145769)]

/-- The value of a named constant. -/
def value? (name : String) : Option Float := table.lookup name

end Reckoner.Constant
