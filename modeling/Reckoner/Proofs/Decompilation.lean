import Reckoner.Proofs.Compilation
import Reckoner.Proofs.Number.Literal
import Reckoner.Proofs.Source.Meaning

/-!
# Programs that have a source text

A program has a source text exactly if it is the postfix form of an expressible tree, which is
`compile_image`. That no other program has one follows from the grammar and from what numbers and
names among the tokens of a text can be. Conversely `Tree.source` writes a text for every
expressible tree, with parentheses around each operation, and `compile_source` says that it compiles
to the postfix form of the tree.
-/

namespace Reckoner

/-- A name that a source text can have: letters, the first of which is not uppercase. -/
structure IsVariable (name : String) : Prop where
  ne_empty : name ≠ ""
  ofChar_eq : ∀ c ∈ name.toList, Category.ofChar c = .letter
  not_isUppercase : ∀ c ∈ name.toList.head?, Text.isUppercase c = false

/-- The name of a built-in function consists of letters, the first of which is uppercase. -/
theorem Builtin.exists_name_eq (function : Builtin) :
    ∃ c tail, function.name.toList = c :: tail ∧ Text.isUppercase c ∧
      ∀ d ∈ function.name.toList, Category.ofChar d = .letter := by
  have hletters : function.name.toList.all fun c => Category.ofChar c = .letter := by
    cases function <;> decide
  have hupper : function.name.toList.head?.any Char.isUpper := by
    cases function <;> decide
  obtain ⟨c, hhead, hcapital⟩ := (Option.any_eq_true _ _).1 hupper
  obtain ⟨tail, htext⟩ := List.head?_eq_some_iff.1 hhead
  exact ⟨c, tail, htext, Text.isUppercase_of_isUpper hcapital, by simpa using hletters⟩

namespace Tree

open Grammar (binary)

/-- A tree that a source text can stand for. Its numbers are neither undefined nor negative, except
for the negative zeros to the left of signs, and operations have as many operands as they take. -/
inductive IsExpressible : Tree → Prop where
  | value {x} : x.isNaN = false → Binary64.isNegative x = false → IsExpressible (.value x)
  | name {text} : IsVariable text → IsExpressible (.name text)
  | signed {op right} : op.actsAsSign → IsExpressible right →
      IsExpressible (binary op (.value Binary64.negativeZero) right)
  | binary {op left right} : IsExpressible left → IsExpressible right →
      IsExpressible (binary op left right)
  | call {function operands} : operands.length = function.arity →
      (∀ operand ∈ operands, IsExpressible operand) →
      IsExpressible (.apply (.builtin function) operands)

mutual
/-- A source text for a tree. Negative numbers are left out, since a sign implies a negative zero to
its left. -/
def source : Tree → List Char
  | value x => if Binary64.isNegative x then [] else Numeral.literal (Binary64.magnitude x)
  | name text => text.toList
  | apply (.operator op) operands => '(' :: (sourceAll op.symbol operands ++ [')'])
  | apply (.builtin function) operands =>
    function.name.toList ++ '(' :: (sourceAll ',' operands ++ [')'])

/-- Source texts for several trees, with a character between any two. -/
def sourceAll (separator : Char) : List Tree → List Char
  | [] => []
  | tree :: rest => source tree ++ (if rest = [] then [] else separator :: sourceAll separator rest)
end

/-- The source text of an operation between two operands. -/
theorem source_binary (op : Operator) (left right : Tree) :
    (binary op left right).source = '(' :: (left.source ++ op.symbol :: right.source ++ [')']) := by
  simp [Grammar.binary, source, sourceAll]

end Tree

namespace Token

/-- What a number or a name among the tokens of a text is like. -/
def Kind.IsLeaf : Kind → Prop
  | number x => x.isNaN = false ∧ Binary64.isNegative x = false
  | name text => IsVariable text
  | _ => True

/-- A lexeme is read as a number that is neither undefined nor negative, or as a variable, if it is
read as a number or a name at all. -/
theorem Kind.isLeaf_of_isReadAs {lexeme : Lexeme} {kind : Kind} (h : lexeme.IsProper)
    (hkind : lexeme.IsReadAs kind) : kind.IsLeaf := by
  cases kind with
  | number x =>
      obtain ⟨hcategory, hread⟩ := hkind
      refine Binary64.exists_ofMagnitude_iff.2 (Numeral.exists_of_read ?_ hread)
      intro c hc
      rw [h.ofChar_eq c hc, hcategory]
  | name text =>
      obtain ⟨hcategory, hcapital, rfl⟩ := hkind
      obtain ⟨c, tail, htext, -⟩ := h.exists_cons
      refine ⟨?_, ?_, ?_⟩
      · intro hempty
        rw [hempty] at htext
        cases htext
      · intro d hd
        rw [h.ofChar_eq d hd, hcategory]
      · intro d hd
        rw [Lexeme.isCapitalized, hd] at hcapital
        simpa using hcapital
  | _ => trivial

/-- The numbers among the tokens of a text are neither undefined nor negative, and the names are
variables. -/
theorem HasKinds.isLeaf {text : List Char} {kinds : List Kind} (h : HasKinds text kinds) :
    ∀ kind ∈ kinds, kind.IsLeaf := by
  have hproper : ∀ lexeme ∈ Lexeme.scanFrom .start text, lexeme.IsProper :=
    fun _ hlexeme => Lexeme.isProper_of_mem_scanFrom hlexeme
  rw [hasKinds_iff .start] at h
  generalize Lexeme.scanFrom .start text = lexemes at h hproper
  induction h with
  | nil => simp
  | cons hkind _ ih =>
      obtain ⟨hlexeme, hrest⟩ := List.forall_mem_cons.1 hproper
      have hspec := hlexeme.ofString_spec
      rw [hkind] at hspec
      exact List.forall_mem_cons.2 ⟨Kind.isLeaf_of_isReadAs hlexeme hspec, ih hrest⟩

end Token

namespace Grammar

open Token (Kind HasKinds)

mutual
/-- An expression over the numbers and names of a text has an expressible tree. -/
theorem IsSum.isExpressible {kinds : List Kind} {tree : Tree} (h : IsSum kinds tree)
    (hleaves : ∀ kind ∈ kinds, kind.IsLeaf) : tree.IsExpressible := by
  match h with
  | .single hproduct => exact hproduct.isExpressible hleaves
  | .signed hop hproduct =>
      exact .signed hop (hproduct.isExpressible fun k hk => hleaves k (List.mem_cons_of_mem _ hk))
  | .step _ hleft hright =>
      refine .binary (hleft.isExpressible fun k hk => hleaves k ?_)
        (hright.isExpressible fun k hk => hleaves k ?_)
      · exact List.mem_append_left _ hk
      · exact List.mem_append_right _ (List.mem_cons_of_mem _ hk)

/-- A term over the numbers and names of a text has an expressible tree. -/
theorem IsProduct.isExpressible {kinds : List Kind} {tree : Tree} (h : IsProduct kinds tree)
    (hleaves : ∀ kind ∈ kinds, kind.IsLeaf) : tree.IsExpressible := by
  match h with
  | .single hfactor => exact hfactor.isExpressible hleaves
  | .step _ hleft hright =>
      refine .binary (hleft.isExpressible fun k hk => hleaves k ?_)
        (hright.isExpressible fun k hk => hleaves k ?_)
      · exact List.mem_append_left _ hk
      · exact List.mem_append_right _ (List.mem_cons_of_mem _ hk)

/-- A factor over the numbers and names of a text has an expressible tree. -/
theorem IsFactor.isExpressible {kinds : List Kind} {tree : Tree} (h : IsFactor kinds tree)
    (hleaves : ∀ kind ∈ kinds, kind.IsLeaf) : tree.IsExpressible := by
  match h with
  | .number x =>
      obtain ⟨hdefined, hsign⟩ := hleaves (.number x) List.mem_cons_self
      exact .value hdefined hsign
  | .name text => exact .name (hleaves (.name text) List.mem_cons_self)
  | .group hsum => exact hsum.isExpressible fun k hk => hleaves k (by simp [hk])
  | .call harguments hlength =>
      exact .call hlength (harguments.isExpressible fun k hk => hleaves k (by simp [hk]))

/-- Arguments over the numbers and names of a text have expressible trees. -/
theorem AreArguments.isExpressible {kinds : List Kind} {trees : List Tree}
    (h : AreArguments kinds trees) (hleaves : ∀ kind ∈ kinds, kind.IsLeaf) :
    ∀ tree ∈ trees, tree.IsExpressible := by
  match h with
  | .single hsum => simpa using hsum.isExpressible hleaves
  | .step hfirst hrest =>
      have hone := hfirst.isExpressible fun k hk => hleaves k (List.mem_append_left _ hk)
      have hothers := hrest.isExpressible fun k hk =>
        hleaves k (List.mem_append_right _ (List.mem_cons_of_mem _ hk))
      exact List.forall_mem_cons.2 ⟨hone, hothers⟩
end

/-- An operation between two factors. -/
theorem IsSum.binary {op : Operator} {left right : List Kind} {leftTree rightTree : Tree}
    (hleft : IsFactor left leftTree) (hright : IsFactor right rightTree) :
    IsSum (left ++ .operator op :: right) (binary op leftTree rightTree) := by
  by_cases hop : op.actsAsSign
  · exact .step hop (.single (.single hleft)) (.single hright)
  · exact .single (.step hop (.single hleft) hright)

/-- The text of an operator is its token. -/
theorem hasKinds_operator (op : Operator) {text : List Char} {kinds : List Kind}
    (h : HasKinds text kinds) : HasKinds (op.symbol :: text) (.operator op :: kinds) := by
  refine h.cons ?_ ?_ <;> cases op <;> rfl

/-- The literal of a number is its token. -/
theorem hasKinds_literal {bits : Nat} (h : bits ≤ Binary64.infinityBits) :
    HasKinds (Numeral.literal bits) [.number (Binary64.ofMagnitude false bits)] := by
  have hchars : ∀ c ∈ Numeral.literal bits, Category.ofChar c = .number := by
    intro c hc
    exact Numeral.ofChar_of_mem_literal hc
  have hne := Numeral.literal_ne_nil bits
  have hread := Numeral.read_literal h
  generalize Numeral.literal bits = text at hchars hne hread ⊢
  refine HasKinds.run hne (by decide) (by decide) hchars ?_
  obtain ⟨c, tail, rfl⟩ := List.exists_cons_of_ne_nil hne
  unfold Kind.ofString Kind.ofText
  simp only [String.toList_ofList, hchars c List.mem_cons_self, hread]

/-- A variable is its token. -/
theorem hasKinds_variable {text : String} (h : IsVariable text) :
    HasKinds text.toList [.name text] := by
  have hne : text.toList ≠ [] := mt String.toList_eq_nil_iff.1 h.ne_empty
  obtain ⟨c, tail, htext⟩ := List.exists_cons_of_ne_nil hne
  have hupper : Text.isUppercase c = false := h.not_isUppercase c (by simp [htext])
  have hc : Category.ofChar c = .letter := h.ofChar_eq c (by simp [htext])
  refine HasKinds.run hne (by decide) (by decide) h.ofChar_eq ?_
  rw [String.ofList_toList]
  unfold Kind.ofString Kind.ofText
  simp only [htext, hc, hupper, Bool.false_eq_true, if_false]

/-- The name of a function is its token. -/
theorem hasKinds_builtin (function : Builtin) :
    HasKinds function.name.toList [.builtin function] := by
  obtain ⟨c, tail, htext, hupper, hchars⟩ := function.exists_name_eq
  have hc : Category.ofChar c = .letter := hchars c (by simp [htext])
  refine HasKinds.run (by simp [htext]) (by decide) (by decide) hchars ?_
  rw [String.ofList_toList]
  unfold Kind.ofString Kind.ofText
  simp only [htext, hc, hupper, if_true, Builtin.ofName?_name]

/-- The source texts of trees have the kinds of arguments if those of each tree are a factor. -/
theorem exists_areArguments {trees : List Tree} (hne : trees ≠ [])
    (h : ∀ tree ∈ trees, ∃ kinds, HasKinds tree.source kinds ∧ IsFactor kinds tree) :
    ∃ kinds, HasKinds (Tree.sourceAll ',' trees) kinds ∧ AreArguments kinds trees := by
  induction trees with
  | nil => exact absurd rfl hne
  | cons tree rest ih =>
      obtain ⟨hfirst, hrest⟩ := List.forall_mem_cons.1 h
      obtain ⟨kinds, hkinds, hfactor⟩ := hfirst
      by_cases hlast : rest = []
      · subst hlast
        refine ⟨kinds, ?_, .single (.single (.single hfactor))⟩
        rwa [Tree.sourceAll, if_pos rfl, List.append_nil]
      · obtain ⟨others, hothers, harguments⟩ := ih hlast hrest
        refine ⟨kinds ++ .comma :: others, ?_, .step (.single (.single hfactor)) harguments⟩
        rw [Tree.sourceAll, if_neg hlast]
        exact hkinds.append (hothers.cons rfl rfl) (separated_cons rfl)

/-- The source text of an expressible tree has the kinds of a factor with this tree. -/
theorem exists_isFactor {tree : Tree} (h : tree.IsExpressible) :
    ∃ kinds, HasKinds tree.source kinds ∧ IsFactor kinds tree := by
  induction h with
  | value hdefined hsign =>
      obtain ⟨bits, hbits, rfl⟩ := Binary64.exists_ofMagnitude_iff.1 ⟨hdefined, hsign⟩
      refine ⟨_, ?_, .number _⟩
      rw [Tree.source, if_neg (by simp [hsign]), Binary64.magnitude_ofMagnitude hbits]
      exact hasKinds_literal hbits
  | name hname => exact ⟨_, hasKinds_variable hname, .name _⟩
  | @signed op right hop _ ih =>
      obtain ⟨kinds, hkinds, hfactor⟩ := ih
      refine ⟨_, ?_, .group (.signed hop (.single hfactor))⟩
      have hzero : Tree.source (.value Binary64.negativeZero) = [] := by
        rw [Tree.source, if_pos (by decide)]
      have htext := (hasKinds_operator op hkinds).parenthesized Token.hasKinds_nil
      rwa [Tree.source_binary, hzero]
  | @binary op left right _ _ ihleft ihright =>
      obtain ⟨leftKinds, hleft, hleftFactor⟩ := ihleft
      obtain ⟨rightKinds, hright, hrightFactor⟩ := ihright
      refine ⟨_, ?_, .group (.binary hleftFactor hrightFactor)⟩
      have hborder : Separated left.source (op.symbol :: right.source) :=
        separated_cons (by cases op <;> rfl)
      rw [Tree.source_binary]
      exact (hleft.append (hasKinds_operator op hright) hborder).parenthesized Token.hasKinds_nil
  | @call function operands hlength _ ih =>
      have hne : operands ≠ [] := by
        rintro rfl
        cases function <;> cases hlength
      obtain ⟨kinds, hkinds, harguments⟩ := exists_areArguments hne ih
      refine ⟨_, ?_, .call harguments hlength⟩
      rw [Tree.source]
      exact (hasKinds_builtin function).append (hkinds.parenthesized Token.hasKinds_nil)
        (separated_cons rfl)

end Grammar

namespace Program

/-- The names in a compiled program are variables. -/
theorem isVariable_of_compile {source : String} {program : Program} {name : String}
    (h : compile source = .ok program) (hname : .load name ∈ program.instructions) :
    IsVariable name := by
  obtain ⟨kinds, tree, hkinds, hsum, rfl⟩ := Grammar.compile_iff_isSum.1 h
  have hloaded : name ∈ tree.postorder.filterMap Instruction.name? :=
    List.mem_filterMap.2 ⟨_, hname, rfl⟩
  rw [hsum.names] at hloaded
  obtain ⟨kind, hkind, hcarried⟩ := List.mem_filterMap.1 hloaded
  have hleaf := hkinds.isLeaf kind hkind
  cases kind <;> cases hcarried
  exact hleaf

/-- The source text of an expressible tree compiles to its postfix form. -/
theorem compile_source {tree : Tree} (h : tree.IsExpressible) :
    compile (String.ofList tree.source) = .ok ⟨tree.postorder⟩ := by
  obtain ⟨kinds, hkinds, hfactor⟩ := Grammar.exists_isFactor h
  refine Grammar.compile_iff_isSum.2 ⟨kinds, tree, ?_, .single (.single hfactor), rfl⟩
  rwa [String.toList_ofList]

/-- The programs of source texts are the postfix forms of expressible trees. -/
theorem compile_image {program : Program} :
    (∃ source, compile source = .ok program) ↔
      ∃ tree : Tree, tree.IsExpressible ∧ program = ⟨tree.postorder⟩ := by
  constructor
  · rintro ⟨source, h⟩
    obtain ⟨kinds, tree, hkinds, hsum, rfl⟩ := Grammar.compile_iff_isSum.1 h
    exact ⟨tree, hsum.isExpressible hkinds.isLeaf, rfl⟩
  · rintro ⟨tree, htree, rfl⟩
    exact ⟨_, compile_source htree⟩

end Program

end Reckoner
