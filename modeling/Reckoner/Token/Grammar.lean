import Reckoner.Token.Basic
import Reckoner.Tree.Basic

/-!
# The grammar of expressions

An expression is a sum of terms, the first of which may have a sign; a term is a product of factors;
and a factor is a number, a name, an expression in parentheses or a call of a built-in function.
`IsSum`, `IsProduct` and `IsFactor` relate the kinds of a token sequence to the tree that it stands
for. Operators associate to the left, and a sign is an operator whose left operand is negative zero.
-/

namespace Reckoner.Grammar

open Token (Kind)

/-- The tree of an operator between two operands. -/
def binary (op : Operator) (left right : Tree) : Tree := .apply (.operator op) [left, right]

mutual
/-- The token kinds form an expression with the given tree. -/
inductive IsSum : List Kind → Tree → Prop where
  | single {kinds tree} : IsProduct kinds tree → IsSum kinds tree
  | signed {op kinds tree} : op.actsAsSign → IsProduct kinds tree →
      IsSum (.operator op :: kinds) (binary op (.value Binary64.negativeZero) tree)
  | step {op left right leftTree rightTree} : op.actsAsSign → IsSum left leftTree →
      IsProduct right rightTree →
      IsSum (left ++ .operator op :: right) (binary op leftTree rightTree)

/-- The token kinds form a term with the given tree. -/
inductive IsProduct : List Kind → Tree → Prop where
  | single {kinds tree} : IsFactor kinds tree → IsProduct kinds tree
  | step {op left right leftTree rightTree} : ¬ op.actsAsSign → IsProduct left leftTree →
      IsFactor right rightTree →
      IsProduct (left ++ .operator op :: right) (binary op leftTree rightTree)

/-- The token kinds form a factor with the given tree. -/
inductive IsFactor : List Kind → Tree → Prop where
  | number (x) : IsFactor [.number x] (.value x)
  | name (text) : IsFactor [.name text] (.name text)
  | group {kinds tree} : IsSum kinds tree → IsFactor (.openParen :: kinds ++ [.closeParen]) tree
  | call {function kinds trees} : AreArguments kinds trees → trees.length = function.arity →
      IsFactor (.builtin function :: .openParen :: kinds ++ [.closeParen])
        (.apply (.builtin function) trees)

/-- The token kinds form expressions with the given trees, separated by commas. -/
inductive AreArguments : List Kind → List Tree → Prop where
  | single {kinds tree} : IsSum kinds tree → AreArguments kinds [tree]
  | step {first rest tree trees} : IsSum first tree → AreArguments rest trees →
      AreArguments (first ++ .comma :: rest) (tree :: trees)
end

mutual
/-- The tree of an expression has as many operands everywhere as its operations take. -/
theorem IsSum.isSaturated {kinds : List Kind} {tree : Tree} : IsSum kinds tree → tree.IsSaturated
  | .single h => h.isSaturated
  | .signed _ h => ⟨rfl, trivial, h.isSaturated, trivial⟩
  | .step _ hleft hright => ⟨rfl, hleft.isSaturated, hright.isSaturated, trivial⟩

/-- The tree of a term is saturated. -/
theorem IsProduct.isSaturated {kinds : List Kind} {tree : Tree} :
    IsProduct kinds tree → tree.IsSaturated
  | .single h => h.isSaturated
  | .step _ hleft hright => ⟨rfl, hleft.isSaturated, hright.isSaturated, trivial⟩

/-- The tree of a factor is saturated. -/
theorem IsFactor.isSaturated {kinds : List Kind} {tree : Tree} :
    IsFactor kinds tree → tree.IsSaturated
  | .number _ => trivial
  | .name _ => trivial
  | .group h => h.isSaturated
  | .call harguments hlength => ⟨hlength, harguments.allSaturated⟩

/-- The trees of arguments are saturated. -/
theorem AreArguments.allSaturated {kinds : List Kind} {trees : List Tree} :
    AreArguments kinds trees → Tree.AllSaturated trees
  | .single h => ⟨h.isSaturated, trivial⟩
  | .step hfirst hrest => ⟨hfirst.isSaturated, hrest.allSaturated⟩
end

end Reckoner.Grammar
