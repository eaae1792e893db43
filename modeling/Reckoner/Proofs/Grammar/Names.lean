import Reckoner.Token.Grammar

/-!
# Names in an expression

The program of an expression loads the names of its tokens in the order of the tokens, and a name
can be replaced by any other factor. Read `IsSum.replace` first: the tokens of the factor stand in
for that of the name, the instructions of the factor stand in for the one that loads the name, and
nothing else changes.
-/

namespace Reckoner

/-- The name whose value a token needs. -/
def Token.Kind.name? : Token.Kind → Option String
  | name text => some text
  | _ => none

/-- The instruction that applies an operator. -/
def Operator.instruction (op : Operator) : Instruction := .apply (.operator op)

/-- The instructions of two lists of trees in a row. -/
theorem Tree.postorderAll_append (first second : List Tree) :
    postorderAll (first ++ second) = postorderAll first ++ postorderAll second := by
  induction first with
  | nil => rfl
  | cons tree rest ih => rw [List.cons_append, postorderAll, ih, postorderAll, List.append_assoc]

namespace Grammar

open Token (Kind)

/-- The instructions of an operator between two operands. -/
theorem postorder_binary (op : Operator) (left right : Tree) :
    (binary op left right).postorder =
      left.postorder ++ right.postorder ++ [op.instruction] := by
  simp [binary, Tree.postorder, Tree.postorderAll, Operator.instruction]

mutual
/-- An expression loads the names of its tokens in order. -/
theorem IsSum.names {kinds : List Kind} {tree : Tree} (h : IsSum kinds tree) :
    tree.postorder.filterMap Instruction.name? = kinds.filterMap Kind.name? := by
  match h with
  | .single hproduct => exact hproduct.names
  | .signed _ hproduct =>
      simp [postorder_binary, Tree.postorder, Operator.instruction, Instruction.name?, Kind.name?,
        hproduct.names, List.filterMap_cons]
  | .step _ hleft hright =>
      simp [postorder_binary, Operator.instruction, Instruction.name?, Kind.name?, hleft.names,
        hright.names, List.filterMap_cons]

/-- A term loads the names of its tokens in order. -/
theorem IsProduct.names {kinds : List Kind} {tree : Tree} (h : IsProduct kinds tree) :
    tree.postorder.filterMap Instruction.name? = kinds.filterMap Kind.name? := by
  match h with
  | .single hfactor => exact hfactor.names
  | .step _ hleft hright =>
      simp [postorder_binary, Operator.instruction, Instruction.name?, Kind.name?, hleft.names,
        hright.names, List.filterMap_cons]

/-- A factor loads the names of its tokens in order. -/
theorem IsFactor.names {kinds : List Kind} {tree : Tree} (h : IsFactor kinds tree) :
    tree.postorder.filterMap Instruction.name? = kinds.filterMap Kind.name? := by
  match h with
  | .number _ | .name _ => rfl
  | .group hinner => simp [Kind.name?, hinner.names, List.filterMap_cons]
  | .call harguments _ =>
      simp [Tree.postorder, Instruction.name?, Kind.name?, harguments.names, List.filterMap_cons]

/-- Arguments load the names of their tokens in order. -/
theorem AreArguments.names {kinds : List Kind} {trees : List Tree} (h : AreArguments kinds trees) :
    (Tree.postorderAll trees).filterMap Instruction.name? = kinds.filterMap Kind.name? := by
  match h with
  | .single hlast => simp [Tree.postorderAll, hlast.names]
  | .step hfirst hrest =>
      simp [Tree.postorderAll, Kind.name?, hfirst.names, hrest.names, List.filterMap_cons]
end

/-- Instructions that are the same as others but for one that loads a name, after those that load
the given names: in its place stand the given instructions. -/
def Replaces (names : List String) (text : String) (inserted code result : List Instruction) :
    Prop :=
  ∃ first last, code = first ++ .load text :: last ∧ result = first ++ inserted ++ last ∧
    first.filterMap Instruction.name? = names

section

variable {names : List String} {text : String} {inserted code result : List Instruction}

/-- Instructions in front stay as they are. -/
theorem Replaces.append_left (h : Replaces names text inserted code result)
    (front : List Instruction) :
    Replaces (front.filterMap Instruction.name? ++ names) text inserted (front ++ code)
      (front ++ result) := by
  obtain ⟨first, last, rfl, rfl, rfl⟩ := h
  exact ⟨front ++ first, last, by simp, by simp, by simp⟩

/-- Instructions behind stay as they are. -/
theorem Replaces.append_right (h : Replaces names text inserted code result)
    (back : List Instruction) :
    Replaces names text inserted (code ++ back) (result ++ back) := by
  obtain ⟨first, last, rfl, rfl, rfl⟩ := h
  exact ⟨first, last ++ back, by simp, by simp, rfl⟩

/-- The right operand of an operator stays as it is. -/
theorem Replaces.binary_left {left result : Tree}
    (h : Replaces names text inserted left.postorder result.postorder) (op : Operator)
    (right : Tree) :
    Replaces names text inserted (binary op left right).postorder
      (binary op result right).postorder := by
  simp only [postorder_binary, List.append_assoc]
  exact h.append_right _

/-- The left operand of an operator stays as it is, and the names of its tokens come first. -/
theorem Replaces.binary_right {left right result : Tree} {leftKinds before : List Kind}
    (h : Replaces (before.filterMap Kind.name?) text inserted right.postorder result.postorder)
    (op : Operator)
    (hleft : left.postorder.filterMap Instruction.name? = leftKinds.filterMap Kind.name?) :
    Replaces ((leftKinds ++ .operator op :: before).filterMap Kind.name?) text inserted
      (binary op left right).postorder (binary op left result).postorder := by
  have hall := (h.append_right [op.instruction]).append_left left.postorder
  rw [hleft] at hall
  simpa [postorder_binary, Kind.name?, List.filterMap_cons] using hall

end

/-- A member of a list that is split at another one lies in front of it or behind it. -/
theorem append_cons_eq_append_cons {α : Type} {left right before after : List α} {middle x : α}
    (h : left ++ middle :: right = before ++ x :: after) (hne : middle ≠ x) :
    (∃ rest, left = before ++ x :: rest ∧ after = rest ++ middle :: right) ∨
      ∃ rest, before = left ++ middle :: rest ∧ right = rest ++ x :: after := by
  rcases List.append_eq_append_iff.1 h with ⟨rest, hbefore, hright⟩ | ⟨rest, hleft, hafter⟩
  · cases rest with
    | nil => exact absurd (List.cons.inj hright).1 hne
    | cons y rest =>
        obtain ⟨rfl, rfl⟩ := List.cons.inj hright
        exact .inr ⟨rest, hbefore, rfl⟩
  · cases rest with
    | nil => exact absurd (List.cons.inj hafter).1.symm hne
    | cons y rest =>
        obtain ⟨rfl, rfl⟩ := List.cons.inj hafter
        exact .inl ⟨rest, hleft, rfl⟩

/-- A member of a list that is not the first one lies behind it. -/
theorem cons_eq_append_cons {α : Type} {right before after : List α} {first x : α}
    (h : first :: right = before ++ x :: after) (hne : first ≠ x) :
    ∃ rest, before = first :: rest ∧ right = rest ++ x :: after := by
  cases before with
  | nil => exact absurd (List.cons.inj h).1 hne
  | cons y rest =>
      obtain ⟨rfl, rfl⟩ := List.cons.inj h
      exact ⟨rest, rfl, rfl⟩

section

variable {insertedKinds : List Kind} {text : String} {inner : Tree}

mutual
/-- In an expression, a name can be replaced by another factor. -/
theorem IsSum.replace {kinds before after : List Kind} {tree : Tree} (h : IsSum kinds tree)
    (hinner : IsFactor insertedKinds inner) (hkinds : kinds = before ++ .name text :: after) :
    ∃ result, IsSum (before ++ insertedKinds ++ after) result ∧
      Replaces (before.filterMap Kind.name?) text inner.postorder tree.postorder
        result.postorder := by
  match h with
  | .single hproduct =>
      obtain ⟨result, hresult, hreplaces⟩ := hproduct.replace hinner hkinds
      exact ⟨result, .single hresult, hreplaces⟩
  | .signed hop hproduct =>
      obtain ⟨before, rfl, hproductKinds⟩ := cons_eq_append_cons hkinds (by simp)
      obtain ⟨result, hresult, hreplaces⟩ := hproduct.replace hinner hproductKinds
      have hzero : (Tree.value Binary64.negativeZero).postorder.filterMap Instruction.name? =
          ([] : List Kind).filterMap Kind.name? := rfl
      exact ⟨_, .signed hop hresult, hreplaces.binary_right _ hzero⟩
  | @IsSum.step op _ _ leftTree _ hop hleft hright =>
      -- the name is a token of the left operand or of the right one
      obtain ⟨rest, hrest, rfl⟩ | ⟨rest, rfl, hrest⟩ := append_cons_eq_append_cons hkinds (by simp)
      · obtain ⟨result, hresult, hreplaces⟩ := hleft.replace hinner hrest
        refine ⟨binary _ result _, ?_, hreplaces.binary_left _ _⟩
        rw [← List.append_assoc]
        exact .step hop hresult hright
      · obtain ⟨result, hresult, hreplaces⟩ := hright.replace hinner hrest
        refine ⟨binary op leftTree result, ?_, hreplaces.binary_right op hleft.names⟩
        simpa using IsSum.step hop hleft hresult

/-- In a term, a name can be replaced by another factor. -/
theorem IsProduct.replace {kinds before after : List Kind} {tree : Tree}
    (h : IsProduct kinds tree) (hinner : IsFactor insertedKinds inner)
    (hkinds : kinds = before ++ .name text :: after) :
    ∃ result, IsProduct (before ++ insertedKinds ++ after) result ∧
      Replaces (before.filterMap Kind.name?) text inner.postorder tree.postorder
        result.postorder := by
  match h with
  | .single hfactor =>
      obtain ⟨result, hresult, hreplaces⟩ := hfactor.replace hinner hkinds
      exact ⟨result, .single hresult, hreplaces⟩
  | @IsProduct.step op _ _ leftTree _ hop hleft hright =>
      obtain ⟨rest, hrest, rfl⟩ | ⟨rest, rfl, hrest⟩ := append_cons_eq_append_cons hkinds (by simp)
      · obtain ⟨result, hresult, hreplaces⟩ := hleft.replace hinner hrest
        refine ⟨binary _ result _, ?_, hreplaces.binary_left _ _⟩
        rw [← List.append_assoc]
        exact .step hop hresult hright
      · obtain ⟨result, hresult, hreplaces⟩ := hright.replace hinner hrest
        refine ⟨binary op leftTree result, ?_, hreplaces.binary_right op hleft.names⟩
        simpa using IsProduct.step hop hleft hresult

/-- In a factor, a name can be replaced by another factor. -/
theorem IsFactor.replace {kinds before after : List Kind} {tree : Tree} (h : IsFactor kinds tree)
    (hinner : IsFactor insertedKinds inner) (hkinds : kinds = before ++ .name text :: after) :
    ∃ result, IsFactor (before ++ insertedKinds ++ after) result ∧
      Replaces (before.filterMap Kind.name?) text inner.postorder tree.postorder
        result.postorder := by
  match h with
  | .number x =>
      obtain ⟨rest, -, hrest⟩ := cons_eq_append_cons hkinds (by simp)
      simp at hrest
  | .name other =>
      cases before with
      | nil =>
          obtain ⟨rfl, rfl⟩ : other = text ∧ after = [] := by simpa [eq_comm] using hkinds
          refine ⟨inner, by simpa using hinner, [], [], rfl, by simp, rfl⟩
      | cons kind before => simp at hkinds
  | .group hsum =>
      obtain ⟨before, rfl, hclosed⟩ := cons_eq_append_cons hkinds (by simp)
      obtain ⟨rest, hrest, rfl⟩ | ⟨rest, -, hnil⟩ := append_cons_eq_append_cons hclosed (by simp)
      · obtain ⟨result, hresult, hreplaces⟩ := hsum.replace hinner hrest
        exact ⟨result, by simpa using IsFactor.group hresult, hreplaces⟩
      · simp at hnil
  | .call harguments hlength =>
      -- the name lies between the parentheses, since neither they nor the function are names
      obtain ⟨_, rfl, hopened⟩ := cons_eq_append_cons hkinds (by simp)
      obtain ⟨before, rfl, hclosed⟩ := cons_eq_append_cons hopened (by simp)
      obtain ⟨rest, hrest, rfl⟩ | ⟨rest, -, hnil⟩ := append_cons_eq_append_cons hclosed (by simp)
      · obtain ⟨results, hresults, hsame, hreplaces⟩ := harguments.replace hinner hrest
        refine ⟨_, by simpa using IsFactor.call hresults (hsame.trans hlength), ?_⟩
        exact hreplaces.append_right _
      · simp at hnil

/-- In arguments, a name can be replaced by another factor. -/
theorem AreArguments.replace {kinds before after : List Kind} {trees : List Tree}
    (h : AreArguments kinds trees) (hinner : IsFactor insertedKinds inner)
    (hkinds : kinds = before ++ .name text :: after) :
    ∃ results, AreArguments (before ++ insertedKinds ++ after) results ∧
      results.length = trees.length ∧
      Replaces (before.filterMap Kind.name?) text inner.postorder (Tree.postorderAll trees)
        (Tree.postorderAll results) := by
  match h with
  | .single hlast =>
      obtain ⟨result, hresult, hreplaces⟩ := hlast.replace hinner hkinds
      exact ⟨[result], .single hresult, rfl, hreplaces.append_right []⟩
  | @AreArguments.step _ _ tree _ hfirst hrest =>
      obtain ⟨rest, hrest', rfl⟩ | ⟨rest, rfl, hrest'⟩ :=
        append_cons_eq_append_cons hkinds (by simp)
      · obtain ⟨result, hresult, hreplaces⟩ := hfirst.replace hinner hrest'
        refine ⟨_, by simpa using AreArguments.step hresult hrest, by simp, ?_⟩
        exact hreplaces.append_right _
      · obtain ⟨results, hresults, hsame, hreplaces⟩ := hrest.replace hinner hrest'
        have hall := hreplaces.append_left tree.postorder
        rw [hfirst.names] at hall
        refine ⟨tree :: results, ?_, by simp [hsame], ?_⟩
        · simpa using AreArguments.step hfirst hresults
        · simpa [Kind.name?, List.filterMap_cons, Tree.postorderAll] using hall
end

end

end Grammar

end Reckoner
