import Mathlib.Data.List.DropRight
import Reckoner.Proofs.CommandLine
import Reckoner.Proofs.Dependencies
import Reckoner.Proofs.Number.Grammar

/-!
# Reading bindings

What a text on the command line binds, and which names can be bound. Read
`CommandLine.readBinding_exact` first. A binding is split at its first equals sign, and the white
space around both parts is dropped: so a name with an equals sign in it, or with white space at one
of its ends, cannot be bound, though a source text may use it. Every other name can be bound to
every number, by the text of the number.
-/

namespace Reckoner

namespace Text

/-- White space and nothing else. -/
def IsBlankText (text : String) : Prop := ∀ c ∈ text.toList, isBlank c

/-- A text that neither starts nor ends with white space. -/
structure IsTrimmed (text : String) : Prop where
  head : ∀ c ∈ text.toList.head?, isBlank c = false
  last : ∀ c ∈ text.toList.getLast?, isBlank c = false

/-- The characters of a text without the white space at both ends. -/
theorem toList_trim (text : String) :
    (trim text).toList = (text.toList.dropWhile isBlank).rdropWhile isBlank :=
  String.toList_ofList

/-- White space in front of something else is dropped. -/
theorem dropWhile_append_eq {blank rest : List Char} (hblank : ∀ c ∈ blank, isBlank c)
    (hrest : ∀ c ∈ rest.head?, isBlank c = false) :
    (blank ++ rest).dropWhile isBlank = rest := by
  rw [List.dropWhile_append_of_pos hblank]
  cases rest with
  | nil => rfl
  | cons c rest => exact List.dropWhile_cons_of_neg (by simp [hrest c rfl])

/-- What is left is trimmed. -/
theorem isTrimmed_trim (text : String) : IsTrimmed (trim text) where
  head := by
    intro c hc
    rw [toList_trim] at hc
    obtain ⟨back, hback⟩ := List.rdropWhile_prefix isBlank (text.toList.dropWhile isBlank)
    have hhead := List.head?_dropWhile_not isBlank text.toList
    rw [← hback, List.head?_append, Option.mem_def.1 hc] at hhead
    exact hhead
  last := by
    intro c hc
    rw [toList_trim, List.rdropWhile, List.getLast?_reverse] at hc
    have hlast := List.head?_dropWhile_not isBlank (text.toList.dropWhile isBlank).reverse
    rw [Option.mem_def.1 hc] at hlast
    exact hlast

/-- White space around a trimmed text is dropped. -/
theorem trim_append {before text after : String} (hbefore : IsBlankText before)
    (hafter : IsBlankText after) (h : IsTrimmed text) : trim (before ++ text ++ after) = text := by
  rw [← String.toList_inj, toList_trim, String.toList_append, String.toList_append,
    List.append_assoc]
  by_cases hempty : text.toList = []
  · have hall : ∀ c ∈ before.toList ++ (text.toList ++ after.toList), isBlank c := by
      rw [hempty, List.nil_append, List.forall_mem_append]
      exact ⟨hbefore, hafter⟩
    rw [List.dropWhile_eq_nil_iff.2 hall, hempty]
    rfl
  · -- the ends of the text stop the removal on either side
    have hhead : ∀ c ∈ (text.toList ++ after.toList).head?, isBlank c = false := by
      rw [List.head?_append_of_ne_nil _ hempty]
      exact h.head
    have hlast : ∀ c ∈ text.toList.reverse.head?, isBlank c = false := by
      rw [List.head?_reverse]
      exact h.last
    have hback : ∀ c ∈ after.toList.reverse, isBlank c := fun c hc =>
      hafter c (List.mem_reverse.1 hc)
    rw [dropWhile_append_eq hbefore hhead, List.rdropWhile, List.reverse_append,
      dropWhile_append_eq hback hlast, List.reverse_reverse]

/-- A text without white space is trimmed. -/
theorem isTrimmed_of_forall {text : String} (h : ∀ c ∈ text.toList, isBlank c = false) :
    IsTrimmed text :=
  ⟨fun c hc => h c (List.mem_of_mem_head? hc), fun c hc => h c (List.mem_of_getLast? hc)⟩

/-- The text of a result is trimmed. -/
theorem isTrimmed_write (x : Float) : IsTrimmed (Style.plain.write x) := by
  have hmarks : ['.', '-', 'i', 'n', 'f', 'N', 'a'].all fun c => !isBlank c := by decide
  refine isTrimmed_of_forall fun c hc => ?_
  rcases Style.of_mem_write_plain hc with hdigit | hmark
  · simp only [Char.isDigit, Bool.and_eq_true, decide_eq_true_eq, UInt32.le_iff_toNat_le,
      ge_iff_le] at hdigit
    have hvalue : c.toNat = c.val.toNat := rfl
    have hzero : '0'.val.toNat = 48 := rfl
    have hnine : '9'.val.toNat = 57 := rfl
    simp only [isBlank, Bool.or_eq_false_iff, Bool.and_eq_false_iff, decide_eq_false_iff_not,
      beq_eq_false_iff_ne]
    omega
  · simpa using List.all_eq_true.1 hmarks c hmark

/-- What is left was there before. -/
theorem mem_of_mem_trim {text : String} {c : Char} (h : c ∈ (trim text).toList) :
    c ∈ text.toList := by
  rw [toList_trim] at h
  exact (List.dropWhile_suffix isBlank).subset ((List.rdropWhile_prefix isBlank _).subset h)

end Text

namespace CommandLine

/-- A name that can be bound: it has no equals sign in it and no white space at its ends. -/
structure IsBindable (name : String) : Prop where
  notMem : '=' ∉ name.toList
  isTrimmed : Text.IsTrimmed name

section Reading

variable {argument name value : String}

/-- Without an equals sign, all characters are other ones. -/
theorem forall_ne_equals {text : List Char} (h : '=' ∉ text) :
    ∀ c ∈ text, decide (c ≠ '=') := by
  intro c hc
  rw [decide_eq_true_iff]
  rintro rfl
  exact h hc

/-- A text is split at its first equals sign. -/
theorem splitEquals?_append (h : '=' ∉ name.toList) :
    splitEquals? (name ++ "=" ++ value) = some (name, value) := by
  have htext : (name ++ "=" ++ value).toList = name.toList ++ '=' :: value.toList := by simp
  unfold splitEquals?
  rw [htext, takeWhile_append_eq (forall_ne_equals h) (by simp)]
  simp

/-- A text without an equals sign is not split. -/
theorem splitEquals?_eq_none (h : '=' ∉ argument.toList) : splitEquals? argument = none := by
  unfold splitEquals?
  rw [List.takeWhile_eq_self_iff.2 (forall_ne_equals h)]
  simp

/-- A text with an equals sign has a first one. -/
theorem exists_eq_append (h : '=' ∈ argument.toList) :
    ∃ name value : String, argument = name ++ "=" ++ value ∧ '=' ∉ name.toList := by
  obtain ⟨front, back, hsplit, hfront⟩ := List.eq_append_cons_of_mem h
  refine ⟨.ofList front, .ofList back, ?_, by rwa [String.toList_ofList]⟩
  rw [← String.toList_inj, hsplit]
  simp

/-- The bindings that a text stands for. -/
theorem readBinding_eq_ok_iff {x : Float} : readBinding argument = .ok (name, x) ↔
    ∃ before after : String, argument = before ++ "=" ++ after ∧ '=' ∉ before.toList ∧
      name = Text.trim before ∧ Numeral.read (Text.trim after) = .ok x := by
  constructor
  · intro h
    by_cases hmem : '=' ∈ argument.toList
    · obtain ⟨before, after, rfl, hbefore⟩ := exists_eq_append hmem
      rw [readBinding, splitEquals?_append hbefore] at h
      dsimp only at h
      split at h
      · rename_i number hread
        cases h
        exact ⟨before, after, rfl, hbefore, rfl, hread⟩
      · cases h
    · rw [readBinding, splitEquals?_eq_none hmem] at h
      cases h
  · rintro ⟨before, after, rfl, hbefore, rfl, hread⟩
    rw [readBinding, splitEquals?_append hbefore]
    simp [hread]

/-- A name that is bound can be bound. -/
theorem isBindable_of_readBinding {binding : String × Float}
    (h : readBinding argument = .ok binding) : IsBindable binding.1 := by
  obtain ⟨before, after, -, hbefore, hname, -⟩ := readBinding_eq_ok_iff.1 h
  rw [hname]
  exact ⟨fun hmem => hbefore (Text.mem_of_mem_trim hmem), Text.isTrimmed_trim before⟩

/-- A name that can be bound is bound to a number by the text of the number, with any white space
around the name and around the text. -/
theorem readBinding_write (h : IsBindable name) (x : Float) {before after left right : String}
    (hbefore : Text.IsBlankText before) (hafter : Text.IsBlankText after)
    (hleft : Text.IsBlankText left) (hright : Text.IsBlankText right) :
    readBinding (before ++ name ++ after ++ "=" ++ (left ++ Style.plain.write x ++ right)) =
      .ok (name, x) := by
  have hequals : ∀ blank : String, Text.IsBlankText blank → '=' ∉ blank.toList :=
    fun blank hblank hmem => by cases hblank '=' hmem
  refine readBinding_eq_ok_iff.2 ⟨before ++ name ++ after, _, rfl, ?_, ?_, ?_⟩
  · simp [hequals before hbefore, hequals after hafter, h.notMem]
  · exact (Text.trim_append hbefore hafter h.isTrimmed).symm
  · rw [Text.trim_append hleft hright (Text.isTrimmed_write x)]
    exact Style.read_write_plain x

end Reading

namespace Reading

/-- The names that have been bound can be bound. -/
def BindsBindable (reading : Reading) : Prop := ∀ binding ∈ reading.bindings, IsBindable binding.1

variable {reading next : Reading} {argument : String}

/-- A binding that is read has a name that can be bound. -/
theorem BindsBindable.addBinding (h : reading.BindsBindable)
    (hnext : reading.addBinding argument = some next) : next.BindsBindable := by
  unfold Reading.addBinding at hnext
  split at hnext
  · rename_i binding hbinding
    cases hnext
    intro other hother
    rcases List.mem_append.1 hother with hmem | hmem
    · exact h other hmem
    · rw [List.mem_singleton.1 hmem]
      exact isBindable_of_readBinding hbinding
  · cases hnext

/-- A flag binds nothing. -/
theorem BindsBindable.setFlag {flag : Flag} (h : reading.BindsBindable)
    (hnext : reading.setFlag flag = some next) : next.BindsBindable := by
  unfold Reading.setFlag at hnext
  split at hnext
  · cases hnext
  · cases hnext
    exact h

/-- An argument that is no option is a binding or binds nothing. -/
theorem BindsBindable.readPlain (h : reading.BindsBindable)
    (hnext : reading.readPlain argument = some next) : next.BindsBindable := by
  unfold Reading.readPlain at hnext
  split at hnext
  · exact h.addBinding hnext
  split at hnext
  · cases hnext
    exact h
  · cases hnext

/-- Short options bind what their bindings do. -/
theorem BindsBindable.readShort {letters : List Char} (h : reading.BindsBindable)
    (hnext : reading.readShort letters = some next) : next.BindsBindable := by
  fun_induction Reading.readShort reading letters with
  | case1 =>
      cases hnext
      exact h
  | case2 reading rest ih | case3 reading rest ih | case4 reading rest ih =>
      obtain ⟨flagged, hflag, hrest⟩ := Option.bind_eq_some_iff.1 hnext
      exact ih flagged (h.setFlag hflag) hrest
  | case5 =>
      cases hnext
      exact h
  | case6 | case7 => exact h.addBinding hnext
  | case8 => cases hnext

/-- A long option binds what its binding does. -/
theorem BindsBindable.readLong {option : List Char} (h : reading.BindsBindable)
    (hnext : reading.readLong option = some next) : next.BindsBindable := by
  unfold Reading.readLong at hnext
  dsimp only at hnext
  split at hnext
  · exact h.addBinding hnext
  · cases hnext
    exact h
  · exact h.setFlag hnext
  · exact h.setFlag hnext
  · exact h.setFlag hnext
  · cases hnext

/-- An argument is one of these. -/
theorem BindsBindable.readArgument (h : reading.BindsBindable)
    (hnext : reading.readArgument argument = some next) : next.BindsBindable := by
  unfold Reading.readArgument at hnext
  split at hnext
  · split at hnext
    · exact h.readPlain hnext
    split at hnext
    · cases hnext
    unfold readOptions at hnext
    split at hnext
    · exact h.readLong hnext
    · exact h.readShort hnext
  · exact h.readPlain hnext

/-- The same holds of all arguments that are no options. -/
theorem BindsBindable.foldlM_readPlain {arguments : List String} (h : reading.BindsBindable)
    (hnext : arguments.foldlM Reading.readPlain reading = some next) : next.BindsBindable := by
  induction arguments generalizing reading with
  | nil =>
      cases hnext
      exact h
  | cons argument rest ih =>
      obtain ⟨middle, hmiddle, hrest⟩ := Option.bind_eq_some_iff.1 hnext
      exact ih (h.readPlain hmiddle) hrest

/-- Reading arguments binds no other names than those that can be bound. -/
theorem BindsBindable.readAll {arguments : List String} (h : reading.BindsBindable)
    (hnext : reading.readAll arguments = some next) : next.BindsBindable := by
  induction arguments generalizing reading with
  | nil =>
      cases hnext
      exact h
  | cons argument rest ih =>
      rw [Reading.readAll] at hnext
      split at hnext
      · split at hnext
        · cases hnext
        · exact h.foldlM_readPlain hnext
      · obtain ⟨middle, hmiddle, hrest⟩ := Option.bind_eq_some_iff.1 hnext
        exact ih (h.readArgument hmiddle) hrest

/-- An argument that does not start with a minus is no option. -/
theorem readArgument_eq_readPlain (reading : Reading)
    (h : ∀ c ∈ argument.toList.head?, c ≠ '-') :
    reading.readArgument argument = reading.readPlain argument := by
  unfold readArgument
  split
  · rename_i htext
    rw [htext] at h
    exact absurd rfl (h '-' rfl)
  · rfl

end Reading

namespace Request

variable {name : String}

/-- A request binds no other names than those that can be bound. -/
theorem isBindable {arguments : List String} {request : Request}
    (h : ofArguments? arguments = some request) {x : Float}
    (hvalue : (Bindings.ofList request.bindings).value? name = some x) : IsBindable name := by
  obtain ⟨reading, hread, hfinish⟩ := Option.bind_eq_some_iff.1 h
  have hstart : Reading.start.BindsBindable := by
    intro binding hbinding
    cases hbinding
  have hbindable := hstart.readAll hread
  unfold Reading.finish? at hfinish
  split at hfinish
  · cases hfinish
  obtain ⟨source, -, rfl⟩ := Option.map_eq_some_iff.1 hfinish
  rw [Bindings.value?_ofList] at hvalue
  obtain ⟨front, back, hsplit, -⟩ := List.lookup_eq_some_iff.1 hvalue
  have hmem : (name, x) ∈ reading.bindings.reverse := by simp [hsplit]
  exact hbindable _ (List.mem_reverse.1 hmem)

/-- An option that binds a name to a number by the text of the number, in front of any source
text. -/
theorem ofArguments?_bind (h : IsBindable name) (hhead : ∀ c ∈ name.toList.head?, c ≠ '-')
    (x : Float) (source : String) :
    ofArguments? ["-v", name ++ "=" ++ Style.plain.write x, "--", source] =
      some ⟨source, [(name, x)], []⟩ := by
  have hempty : Text.IsBlankText "" := by
    intro c hc
    cases hc
  have hbinding : readBinding (name ++ "=" ++ Style.plain.write x) = .ok (name, x) := by
    simpa using readBinding_write h x hempty hempty hempty hempty
  -- an argument that starts with a minus might be read as an option
  have htext : ∀ c ∈ (name ++ "=" ++ Style.plain.write x).toList.head?, c ≠ '-' := by
    rw [String.toList_append, String.toList_append]
    cases hname : name.toList with
    | nil => simp
    | cons c rest =>
        rw [hname] at hhead
        simpa using hhead
  have hne : name ++ "=" ++ Style.plain.write x ≠ "--" := by
    intro heq
    rw [heq] at htext
    exact htext '-' rfl rfl
  have hoption : Reading.start.readArgument "-v" =
      some { Reading.start with awaitsBinding := true } := rfl
  have hread : Reading.readArgument { Reading.start with awaitsBinding := true }
      (name ++ "=" ++ Style.plain.write x) =
        some { Reading.start with bindings := [(name, x)] } := by
    rw [Reading.readArgument_eq_readPlain _ htext, Reading.readPlain, if_pos rfl,
      Reading.addBinding, hbinding]
    rfl
  rw [ofArguments?, Reading.readAll, if_neg (by decide), hoption, Option.bind_some,
    Reading.readAll, if_neg hne, hread, Option.bind_some]
  rfl

end Request

/-- The names of an expression are those of variables. -/
theorem isVariable_of_mem_names {source : String} {expression : Expression}
    (h : Expression.compile source = .ok expression) {name : String}
    (hname : name ∈ expression.names) : IsVariable name := by
  obtain ⟨tokens, tree, htokens, -, hprogram, htexts⟩ := Expression.exists_isSum h
  rw [Expression.names, Program.names_eq_foldl, hprogram, htexts,
    (ListsOnce.foldl_noteText _).mem_iff] at hname
  obtain ⟨⟨kind, position⟩, hmem, hkind⟩ := List.mem_filterMap.1 hname
  have hleaf := (Token.hasKinds_of_ofSource htokens).isLeaf kind (List.mem_map_of_mem hmem)
  cases kind with
  | name text =>
      cases hkind
      exact hleaf
  | _ => cases hkind

/-- A text is a binding exactly if it has an equals sign and what follows the first one, without the
white space around it, is a numeral. The name is what stands before the equals sign, without the
white space around it. A name that has no equals sign in it and no white space at its ends is bound
to any number by the text of the number, with any white space around both, and such names are the
only ones of an expression that can be bound. -/
theorem readBinding_exact :
    (∀ argument, (∃ binding, readBinding argument = .ok binding) ↔ ∃ before after : String,
      argument = before ++ "=" ++ after ∧ '=' ∉ before.toList ∧
        Numeral.IsNumeral (Text.trim after).toList) ∧
    (∀ argument name x, readBinding argument = .ok (name, x) → IsBindable name ∧
      ∃ before after : String, argument = before ++ "=" ++ after ∧ '=' ∉ before.toList ∧
        name = Text.trim before ∧ Numeral.read (Text.trim after) = .ok x) ∧
    (∀ name, IsBindable name → ∀ x before after left right, Text.IsBlankText before →
      Text.IsBlankText after → Text.IsBlankText left → Text.IsBlankText right →
        readBinding (before ++ name ++ after ++ "=" ++ (left ++ Style.plain.write x ++ right)) =
          .ok (name, x)) ∧
    ∀ source expression, Expression.compile source = .ok expression →
      ∀ name ∈ expression.names, ∀ x,
        (∃ arguments request, Request.ofArguments? arguments = some request ∧
          request.expression = source ∧
            (Bindings.ofList request.bindings).value? name = some x) ↔ IsBindable name := by
  refine ⟨fun argument => ?_, fun argument name x h => ?_, ?_, ?_⟩
  · constructor
    · rintro ⟨⟨name, x⟩, h⟩
      obtain ⟨before, after, rfl, hbefore, -, hread⟩ := readBinding_eq_ok_iff.1 h
      exact ⟨before, after, rfl, hbefore, Numeral.exists_read_iff.1 ⟨x, hread⟩⟩
    · rintro ⟨before, after, rfl, hbefore, hnumeral⟩
      obtain ⟨x, hread⟩ := Numeral.exists_read_iff.2 hnumeral
      exact ⟨_, readBinding_eq_ok_iff.2 ⟨before, after, rfl, hbefore, rfl, hread⟩⟩
  · exact ⟨isBindable_of_readBinding h, readBinding_eq_ok_iff.1 h⟩
  · intro name h x before after left right
    exact readBinding_write h x
  · intro source expression hcompile name hname x
    constructor
    · rintro ⟨arguments, request, hrequest, -, hvalue⟩
      exact Request.isBindable hrequest hvalue
    · intro h
      have hvariable := isVariable_of_mem_names hcompile hname
      have hhead : ∀ c ∈ name.toList.head?, c ≠ '-' := by
        rintro c hc rfl
        cases hvariable.ofChar_eq '-' (List.mem_of_mem_head? hc)
      exact ⟨_, _, Request.ofArguments?_bind h hhead x source, rfl, by
        simp [Bindings.value?_ofList]⟩

/-- The name `a=b` of a source text cannot be bound: the binding ends up as one of `a`. -/
example : readBinding "a=b=1" = .error (.invalidValue "a" .invalid) := by
  rfl

end CommandLine

end Reckoner
