/-!
# Bindings

A table of names with their values. A later binding of a name replaces the earlier one.
-/

namespace Reckoner

/-- Values of names, the latest binding first. -/
structure Bindings where
  entries : List (String × Float)
  deriving DecidableEq

namespace Bindings

/-- No name is bound. -/
def empty : Bindings := ⟨[]⟩

/-- The value that a name is bound to. -/
def value? (bindings : Bindings) (name : String) : Option Float :=
  bindings.entries.lookup name

/-- Frees a name. -/
def unbind (bindings : Bindings) (name : String) : Bindings :=
  ⟨bindings.entries.filter fun entry => entry.1 != name⟩

/-- Binds a name to a value. -/
def bind (bindings : Bindings) (name : String) (value : Float) : Bindings :=
  ⟨(name, value) :: (bindings.unbind name).entries⟩

/-- The bindings of a list, of which the last one of a name counts. -/
def ofList (entries : List (String × Float)) : Bindings :=
  entries.foldl (fun bindings entry => bindings.bind entry.1 entry.2) empty

/-- Freeing a name takes its value away and leaves the other names alone. -/
theorem value?_unbind (bindings : Bindings) (name other : String) :
    (bindings.unbind name).value? other = if other = name then none else bindings.value? other := by
  obtain ⟨entries⟩ := bindings
  simp only [value?, unbind]
  induction entries with
  | nil => simp
  | cons entry rest ih =>
    obtain ⟨key, value⟩ := entry
    rw [List.filter_cons, List.lookup_cons]
    by_cases hkey : key = name
    · subst hkey
      by_cases hother : other = key
      · subst hother
        simpa using ih
      · have hne : (other == key) = false := by simpa using hother
        simpa [hne, hother] using ih
    · have hbne : (key != name) = true := by simpa using hkey
      by_cases hother : other = key
      · subst hother
        simp [hbne, hkey]
      · have hne : (other == key) = false := by simpa using hother
        simpa [hbne, List.lookup_cons, hne] using ih

/-- Binding a name gives it the value and leaves the other names alone. -/
theorem value?_bind (bindings : Bindings) (name other : String) (value : Float) :
    (bindings.bind name value).value? other =
      if other = name then some value else bindings.value? other := by
  have hrest := value?_unbind bindings name other
  by_cases h : other = name
  · simp [value?, bind, h]
  · have hne : (other == name) = false := by simpa using h
    simp only [value?, bind, List.lookup_cons, hne, h, if_false] at hrest ⊢
    exact hrest

end Bindings

end Reckoner
