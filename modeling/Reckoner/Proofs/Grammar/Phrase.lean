import Reckoner.Token.Grammar

/-!
# Phrases

A phrase is a derivation of the grammar of expressions as a piece of data, with one constructor for
every rule. `kinds` lists the token kinds that a phrase derives and `tree` gives the tree that it
stands for. `isSum_iff` says that the phrases are exactly the derivations of `IsSum`: token kinds
form an expression with a given tree just when some phrase has these kinds and this tree.
-/

namespace Reckoner.Grammar

open Token (Kind)

mutual
/-- An expression: a term with or without a sign, or an expression and a term. -/
inductive SumPhrase where
  | term (product : ProductPhrase)
  | signed (op : Operator) (hop : op.actsAsSign) (product : ProductPhrase)
  | step (left : SumPhrase) (op : Operator) (hop : op.actsAsSign) (right : ProductPhrase)

/-- A term: a factor, or a term and a factor. -/
inductive ProductPhrase where
  | factor (factor : FactorPhrase)
  | step (left : ProductPhrase) (op : Operator) (hop : ¬ op.actsAsSign) (right : FactorPhrase)

/-- A factor. The last argument of a call stands apart from the earlier ones, and together they are
as many as the function takes. -/
inductive FactorPhrase where
  | number (value : Float)
  | name (text : String)
  | group (inner : SumPhrase)
  | call (function : Builtin) {count : Nat} (earlier : ArgumentPhrases count) (last : SumPhrase)
      (hcount : count + 1 = function.arity)

/-- A number of arguments, each of which is followed by a comma. -/
inductive ArgumentPhrases : Nat → Type where
  | nil : ArgumentPhrases 0
  | step {count : Nat} (earlier : ArgumentPhrases count) (argument : SumPhrase) :
      ArgumentPhrases (count + 1)
end

mutual
/-- The token kinds of an expression. -/
def SumPhrase.kinds : SumPhrase → List Kind
  | .term product => product.kinds
  | .signed op _ product => .operator op :: product.kinds
  | .step left op _ right => left.kinds ++ .operator op :: right.kinds

/-- The token kinds of a term. -/
def ProductPhrase.kinds : ProductPhrase → List Kind
  | .factor factor => factor.kinds
  | .step left op _ right => left.kinds ++ .operator op :: right.kinds

/-- The token kinds of a factor. -/
def FactorPhrase.kinds : FactorPhrase → List Kind
  | .number value => [.number value]
  | .name text => [.name text]
  | .group inner => .openParen :: inner.kinds ++ [.closeParen]
  | .call function earlier last _ =>
    .builtin function :: .openParen :: (earlier.kinds ++ last.kinds) ++ [.closeParen]

/-- The token kinds of arguments, with the comma after each of them. -/
def ArgumentPhrases.kinds {count : Nat} : ArgumentPhrases count → List Kind
  | .nil => []
  | .step earlier argument => earlier.kinds ++ argument.kinds ++ [.comma]
end

mutual
/-- The tree of an expression. -/
def SumPhrase.tree : SumPhrase → Tree
  | .term product => product.tree
  | .signed op _ product => binary op (.value Binary64.negativeZero) product.tree
  | .step left op _ right => binary op left.tree right.tree

/-- The tree of a term. -/
def ProductPhrase.tree : ProductPhrase → Tree
  | .factor factor => factor.tree
  | .step left op _ right => binary op left.tree right.tree

/-- The tree of a factor. -/
def FactorPhrase.tree : FactorPhrase → Tree
  | .number value => .value value
  | .name text => .name text
  | .group inner => inner.tree
  | .call function earlier last _ => .apply (.builtin function) (earlier.trees ++ [last.tree])

/-- The trees of arguments. -/
def ArgumentPhrases.trees {count : Nat} : ArgumentPhrases count → List Tree
  | .nil => []
  | .step earlier argument => earlier.trees ++ [argument.tree]
end

/-- A factor has a token. -/
theorem FactorPhrase.kinds_ne_nil (phrase : FactorPhrase) : phrase.kinds ≠ [] := by
  cases phrase <;> exact List.cons_ne_nil _ _

/-- A term has a token. -/
theorem ProductPhrase.kinds_ne_nil (phrase : ProductPhrase) : phrase.kinds ≠ [] := by
  cases phrase with
  | factor factor => exact factor.kinds_ne_nil
  | step left op hop right => exact List.append_ne_nil_of_right_ne_nil _ (List.cons_ne_nil _ _)

/-- An expression has a token. -/
theorem SumPhrase.kinds_ne_nil (phrase : SumPhrase) : phrase.kinds ≠ [] := by
  cases phrase with
  | term product => exact product.kinds_ne_nil
  | signed op hop product => exact List.cons_ne_nil _ _
  | step left op hop right => exact List.append_ne_nil_of_right_ne_nil _ (List.cons_ne_nil _ _)

/-- There are as many trees as arguments. -/
theorem ArgumentPhrases.length_trees {count : Nat} (arguments : ArgumentPhrases count) :
    arguments.trees.length = count := by
  match arguments with
  | .nil => rfl
  | .step earlier argument =>
      rw [trees, List.length_append, earlier.length_trees]
      rfl

/-- An argument can be put in front of others. -/
theorem ArgumentPhrases.exists_cons {count : Nat} (first : SumPhrase)
    (arguments : ArgumentPhrases count) :
    ∃ all : ArgumentPhrases (count + 1),
      all.kinds = first.kinds ++ .comma :: arguments.kinds ∧
        all.trees = first.tree :: arguments.trees := by
  match arguments with
  | .nil => exact ⟨.step .nil first, by simp [kinds], by simp [trees]⟩
  | .step earlier argument =>
      obtain ⟨all, hkinds, htrees⟩ := exists_cons first earlier
      exact ⟨.step all argument, by simp [kinds, hkinds], by simp [trees, htrees]⟩

/-- Arguments can be followed by another one. -/
theorem AreArguments.append {kinds others : List Kind} {trees : List Tree} {tree : Tree}
    (h : AreArguments kinds trees) (hlast : IsSum others tree) :
    AreArguments (kinds ++ .comma :: others) (trees ++ [tree]) := by
  cases h with
  | single hfirst => exact .step hfirst (.single hlast)
  | step hfirst hrest =>
      rw [List.append_assoc, List.cons_append]
      exact .step hfirst (hrest.append hlast)

mutual
/-- A phrase of an expression is a derivation of its tree. -/
theorem SumPhrase.isSum (phrase : SumPhrase) : IsSum phrase.kinds phrase.tree := by
  match phrase with
  | .term product => exact .single product.isProduct
  | .signed op hop product => exact .signed hop product.isProduct
  | .step left op hop right => exact .step hop left.isSum right.isProduct

/-- A phrase of a term is a derivation of its tree. -/
theorem ProductPhrase.isProduct (phrase : ProductPhrase) :
    IsProduct phrase.kinds phrase.tree := by
  match phrase with
  | .factor factor => exact .single factor.isFactor
  | .step left op hop right => exact .step hop left.isProduct right.isFactor

/-- A phrase of a factor is a derivation of its tree. -/
theorem FactorPhrase.isFactor (phrase : FactorPhrase) : IsFactor phrase.kinds phrase.tree := by
  match phrase with
  | .number value => exact .number value
  | .name text => exact .name text
  | .group inner => exact .group inner.isSum
  | .call function earlier last hcount =>
      refine .call (earlier.areArguments last.isSum) ?_
      rw [List.length_append, earlier.length_trees]
      exact hcount

/-- Arguments and a last expression are the arguments of a call. -/
theorem ArgumentPhrases.areArguments {count : Nat} (arguments : ArgumentPhrases count)
    {last : List Kind} {tree : Tree} (hlast : IsSum last tree) :
    AreArguments (arguments.kinds ++ last) (arguments.trees ++ [tree]) := by
  match arguments with
  | .nil => exact .single hlast
  | .step earlier argument =>
      have hearlier := earlier.areArguments argument.isSum
      simpa [ArgumentPhrases.kinds, ArgumentPhrases.trees] using hearlier.append hlast
end

mutual
/-- Every derivation of an expression is a phrase. -/
theorem IsSum.exists_phrase {kinds : List Kind} {tree : Tree} (h : IsSum kinds tree) :
    ∃ phrase : SumPhrase, phrase.kinds = kinds ∧ phrase.tree = tree := by
  match h with
  | .single hproduct =>
      obtain ⟨product, rfl, rfl⟩ := hproduct.exists_phrase
      exact ⟨.term product, rfl, rfl⟩
  | .signed hop hproduct =>
      obtain ⟨product, rfl, rfl⟩ := hproduct.exists_phrase
      exact ⟨.signed _ hop product, rfl, rfl⟩
  | .step hop hleft hright =>
      obtain ⟨left, rfl, rfl⟩ := hleft.exists_phrase
      obtain ⟨right, rfl, rfl⟩ := hright.exists_phrase
      exact ⟨.step left _ hop right, rfl, rfl⟩

/-- Every derivation of a term is a phrase. -/
theorem IsProduct.exists_phrase {kinds : List Kind} {tree : Tree} (h : IsProduct kinds tree) :
    ∃ phrase : ProductPhrase, phrase.kinds = kinds ∧ phrase.tree = tree := by
  match h with
  | .single hfactor =>
      obtain ⟨factor, rfl, rfl⟩ := hfactor.exists_phrase
      exact ⟨.factor factor, rfl, rfl⟩
  | .step hop hleft hright =>
      obtain ⟨left, rfl, rfl⟩ := hleft.exists_phrase
      obtain ⟨right, rfl, rfl⟩ := hright.exists_phrase
      exact ⟨.step left _ hop right, rfl, rfl⟩

/-- Every derivation of a factor is a phrase. -/
theorem IsFactor.exists_phrase {kinds : List Kind} {tree : Tree} (h : IsFactor kinds tree) :
    ∃ phrase : FactorPhrase, phrase.kinds = kinds ∧ phrase.tree = tree := by
  match h with
  | .number value => exact ⟨.number value, rfl, rfl⟩
  | .name text => exact ⟨.name text, rfl, rfl⟩
  | .group hinner =>
      obtain ⟨inner, rfl, rfl⟩ := hinner.exists_phrase
      exact ⟨.group inner, rfl, rfl⟩
  | @IsFactor.call function _ _ harguments hlength =>
      obtain ⟨count, earlier, last, rfl, rfl⟩ := harguments.exists_phrases
      rw [List.length_append, earlier.length_trees] at hlength
      exact ⟨.call function earlier last hlength, rfl, rfl⟩

/-- Every derivation of arguments is a number of phrases. -/
theorem AreArguments.exists_phrases {kinds : List Kind} {trees : List Tree}
    (h : AreArguments kinds trees) :
    ∃ (count : Nat) (earlier : ArgumentPhrases count) (last : SumPhrase),
      earlier.kinds ++ last.kinds = kinds ∧ earlier.trees ++ [last.tree] = trees := by
  match h with
  | .single hlast =>
      obtain ⟨last, rfl, rfl⟩ := hlast.exists_phrase
      exact ⟨0, .nil, last, rfl, rfl⟩
  | .step hfirst hrest =>
      obtain ⟨first, rfl, rfl⟩ := hfirst.exists_phrase
      obtain ⟨count, earlier, last, rfl, rfl⟩ := hrest.exists_phrases
      obtain ⟨all, hkinds, htrees⟩ := earlier.exists_cons first
      exact ⟨count + 1, all, last, by simp [hkinds], by simp [htrees]⟩
end

/-- Token kinds form an expression with a given tree just when a phrase has these kinds and this
tree. -/
theorem isSum_iff {kinds : List Kind} {tree : Tree} :
    IsSum kinds tree ↔ ∃ phrase : SumPhrase, phrase.kinds = kinds ∧ phrase.tree = tree := by
  constructor
  · intro h
    exact h.exists_phrase
  · rintro ⟨phrase, rfl, rfl⟩
    exact phrase.isSum

end Reckoner.Grammar
