import Reckoner.Proofs.Grammar.Phrase

/-!
# Reading phrases from left to right

A reader takes token kinds one after the other and keeps the phrases that it has completed, together
with the places where they stand in the expression around them. Its steps lose nothing: `Step.kinds`
says that a reader still has all the kinds that it has read. Read `SumPhrase.run` first: over the
kinds of an expression, a reader goes from its start to the state that has completed this
expression. Since a reader has no choice, no two phrases have the same kinds, which is
`SumPhrase.kinds_inj`.
-/

namespace Reckoner.Grammar

open Token (Kind)

/-- What stands before a term in its expression: nothing, a sign, or an expression and an
operator. -/
inductive SumContext where
  | empty
  | signed (op : Operator) (hop : op.actsAsSign)
  | after (left : SumPhrase) (op : Operator) (hop : op.actsAsSign)

/-- What stands before a factor in its term: nothing, or a term and an operator. -/
inductive ProductContext where
  | empty
  | after (left : ProductPhrase) (op : Operator) (hop : ¬ op.actsAsSign)

namespace SumContext

/-- The expression that ends with the given term. -/
def fill : SumContext → ProductPhrase → SumPhrase
  | empty, product => .term product
  | signed op hop, product => .signed op hop product
  | after left op hop, product => .step left op hop product

/-- The token kinds before the term. -/
def kinds : SumContext → List Kind
  | empty => []
  | signed op _ => [.operator op]
  | after left op _ => left.kinds ++ [.operator op]

theorem kinds_fill (context : SumContext) (product : ProductPhrase) :
    (context.fill product).kinds = context.kinds ++ product.kinds := by
  cases context <;> simp [fill, kinds, SumPhrase.kinds]

end SumContext

namespace ProductContext

/-- The term that ends with the given factor. -/
def fill : ProductContext → FactorPhrase → ProductPhrase
  | empty, factor => .factor factor
  | after left op hop, factor => .step left op hop factor

/-- The token kinds before the factor. -/
def kinds : ProductContext → List Kind
  | empty => []
  | after left op _ => left.kinds ++ [.operator op]

theorem kinds_fill (context : ProductContext) (factor : FactorPhrase) :
    (context.fill factor).kinds = context.kinds ++ factor.kinds := by
  cases context <;> simp [fill, kinds, ProductPhrase.kinds]

end ProductContext

/-- A place for a factor. -/
structure Spot where
  sum : SumContext
  product : ProductContext

/-- The place of the first factor of an expression. -/
abbrev Spot.start : Spot := ⟨.empty, .empty⟩

/-- The token kinds of the expression before a place. -/
def Spot.kinds (spot : Spot) : List Kind := spot.sum.kinds ++ spot.product.kinds

/-- What an open parenthesis belongs to: a group, or a call with the arguments read so far. -/
inductive Opening where
  | group
  | call (function : Builtin) {count : Nat} (earlier : ArgumentPhrases count)

/-- The token kinds from the beginning of a group or a call. -/
def Opening.kinds : Opening → List Kind
  | group => [.openParen]
  | call function earlier => .builtin function :: .openParen :: earlier.kinds

/-- An open group or call and its place in the expression around it. -/
structure Enclosure where
  spot : Spot
  opening : Opening

/-- The token kinds before the innermost expression of nested enclosures, the innermost first. -/
def Enclosure.allKinds : List Enclosure → List Kind
  | [] => []
  | enclosure :: rest => allKinds rest ++ enclosure.spot.kinds ++ enclosure.opening.kinds

/-- The state between two tokens, which says what has to come next: a factor, an operator or the
end of the expression, or the opening parenthesis after the name of a function. -/
inductive Reader where
  | operand (spot : Spot) (enclosures : List Enclosure)
  | operator (sum : SumContext) (product : ProductPhrase) (enclosures : List Enclosure)
  | arguments (function : Builtin) (spot : Spot) (enclosures : List Enclosure)

namespace Reader

/-- The state before the first token. -/
abbrev start : Reader := .operand .start []

/-- The token kinds that have been read. -/
def kinds : Reader → List Kind
  | operand spot enclosures => Enclosure.allKinds enclosures ++ spot.kinds
  | operator sum product enclosures => Enclosure.allKinds enclosures ++ sum.kinds ++ product.kinds
  | arguments function spot enclosures =>
    Enclosure.allKinds enclosures ++ spot.kinds ++ [.builtin function]

/-- The state after a token of some kind. -/
inductive Step : Reader → Kind → Reader → Prop where
  | number (spot enclosures value) :
      Step (.operand spot enclosures) (.number value)
        (.operator spot.sum (spot.product.fill (.number value)) enclosures)
  | name (spot enclosures text) :
      Step (.operand spot enclosures) (.name text)
        (.operator spot.sum (spot.product.fill (.name text)) enclosures)
  | builtin (spot enclosures function) :
      Step (.operand spot enclosures) (.builtin function) (.arguments function spot enclosures)
  | openGroup (spot enclosures) :
      Step (.operand spot enclosures) .openParen (.operand .start (⟨spot, .group⟩ :: enclosures))
  | openCall (function spot enclosures) :
      Step (.arguments function spot enclosures) .openParen
        (.operand .start (⟨spot, .call function .nil⟩ :: enclosures))
  | sign (enclosures op) (hop : Operator.actsAsSign op) :
      Step (.operand .start enclosures) (.operator op)
        (.operand ⟨.signed op hop, .empty⟩ enclosures)
  | sumOperator (sum product enclosures op) (hop : Operator.actsAsSign op) :
      Step (.operator sum product enclosures) (.operator op)
        (.operand ⟨.after (sum.fill product) op hop, .empty⟩ enclosures)
  | productOperator (sum product enclosures op) (hop : ¬ Operator.actsAsSign op) :
      Step (.operator sum product enclosures) (.operator op)
        (.operand ⟨sum, .after product op hop⟩ enclosures)
  | closeGroup (sum product spot enclosures) :
      Step (.operator sum product (⟨spot, .group⟩ :: enclosures)) .closeParen
        (.operator spot.sum (spot.product.fill (.group (sum.fill product))) enclosures)
  | closeCall (sum product spot function) {count : Nat} (earlier : ArgumentPhrases count)
      (enclosures) (hcount : count + 1 = Builtin.arity function) :
      Step (.operator sum product (⟨spot, .call function earlier⟩ :: enclosures)) .closeParen
        (.operator spot.sum
          (spot.product.fill (.call function earlier (sum.fill product) hcount)) enclosures)
  | comma (sum product spot function) {count : Nat} (earlier : ArgumentPhrases count)
      (enclosures) :
      Step (.operator sum product (⟨spot, .call function earlier⟩ :: enclosures)) .comma
        (.operand .start (⟨spot, .call function (earlier.step (sum.fill product))⟩ :: enclosures))

/-- The state after tokens of some kinds. -/
inductive Run : Reader → List Kind → Reader → Prop where
  | nil (reader) : Run reader [] reader
  | cons {reader next final kind kinds} :
      Step reader kind next → Run next kinds final → Run reader (kind :: kinds) final

variable {reader next other final : Reader} {kind : Kind}

/-- A reader keeps the kinds that it reads. -/
theorem Step.kinds (h : Step reader kind next) : next.kinds = reader.kinds ++ [kind] := by
  cases h <;>
    simp [Reader.kinds, Enclosure.allKinds, Spot.kinds, Opening.kinds, SumContext.kinds,
      ProductContext.kinds, SumContext.kinds_fill, ProductContext.kinds_fill,
      FactorPhrase.kinds, ArgumentPhrases.kinds]

/-- Over a run, a reader keeps all the kinds that it reads. -/
theorem Run.kinds {kinds : List Kind} (h : Run reader kinds final) :
    final.kinds = reader.kinds ++ kinds := by
  induction h with
  | nil => simp
  | cons hstep _ ih => rw [ih, hstep.kinds, List.append_assoc, List.singleton_append]

/-- A reader has at most one state after a token. -/
theorem Step.unique (h : Step reader kind next) (hother : Step reader kind other) :
    next = other := by
  -- only the two steps over an operator start in the same state, and they exclude each other
  cases h <;> cases hother
  case sumOperator.productOperator hop hnot => exact absurd hop hnot
  case productOperator.sumOperator hnot hop => exact absurd hop hnot
  all_goals rfl

/-- A reader has at most one state after a run. -/
theorem Run.unique {kinds : List Kind} (h : Run reader kinds next)
    (hother : Run reader kinds other) : next = other := by
  induction h with
  | nil =>
      cases hother
      rfl
  | cons hstep _ ih =>
      cases hother with
      | cons hstep' hrun =>
          cases hstep.unique hstep'
          exact ih hrun

/-- A run can be followed by another one. -/
theorem Run.append {first second : List Kind} (hfirst : Run reader first next)
    (hsecond : Run next second final) : Run reader (first ++ second) final := by
  induction hfirst with
  | nil => exact hsecond
  | cons hstep _ ih => exact .cons hstep (ih hsecond)

/-- A run over some kinds and then over others consists of two runs. -/
theorem Run.exists_of_append {first second : List Kind} (h : Run reader (first ++ second) final) :
    ∃ next, Run reader first next ∧ Run next second final := by
  induction first generalizing reader with
  | nil => exact ⟨reader, .nil reader, h⟩
  | cons kind first ih =>
      cases h with
      | cons hstep hrest =>
          obtain ⟨next, hfirst, hsecond⟩ := ih hrest
          exact ⟨next, .cons hstep hfirst, hsecond⟩

/-- A run can be followed by a single step. -/
theorem Run.snoc {kinds : List Kind} (hrun : Run reader kinds next)
    (hstep : Step next kind final) : Run reader (kinds ++ [kind]) final :=
  hrun.append (.cons hstep (.nil _))

end Reader

open Reader (Run Step)

/-- What stands before the last term of an expression. -/
def SumPhrase.context : SumPhrase → SumContext
  | .term _ => .empty
  | .signed op hop _ => .signed op hop
  | .step left op hop _ => .after left op hop

/-- The last term of an expression. -/
def SumPhrase.lastTerm : SumPhrase → ProductPhrase
  | .term product | .signed _ _ product | .step _ _ _ product => product

@[simp]
theorem SumPhrase.fill_lastTerm (phrase : SumPhrase) :
    phrase.context.fill phrase.lastTerm = phrase := by
  cases phrase <;> rfl

mutual
/-- A reader completes an expression where one can start. -/
theorem SumPhrase.run (phrase : SumPhrase) (enclosures : List Enclosure) :
    Run (.operand .start enclosures) phrase.kinds
      (.operator phrase.context phrase.lastTerm enclosures) := by
  match phrase with
  | .term product => exact product.run .empty enclosures
  | .signed op hop product => exact .cons (.sign _ op hop) (product.run (.signed op hop) enclosures)
  | .step left op hop right =>
      have hleft := left.run enclosures
      have hop' := Step.sumOperator left.context left.lastTerm enclosures op hop
      rw [left.fill_lastTerm] at hop'
      exact hleft.append (.cons hop' (right.run (.after left op hop) enclosures))

/-- A reader completes a term behind any context. -/
theorem ProductPhrase.run (phrase : ProductPhrase) (sum : SumContext)
    (enclosures : List Enclosure) :
    Run (.operand ⟨sum, .empty⟩ enclosures) phrase.kinds (.operator sum phrase enclosures) := by
  match phrase with
  | .factor factor => exact factor.run ⟨sum, .empty⟩ enclosures
  | .step left op hop right =>
      have hright := right.run ⟨sum, .after left op hop⟩ enclosures
      exact (left.run sum enclosures).append
        (.cons (.productOperator sum left enclosures op hop) hright)

/-- A reader completes a factor at any place. -/
theorem FactorPhrase.run (phrase : FactorPhrase) (spot : Spot) (enclosures : List Enclosure) :
    Run (.operand spot enclosures) phrase.kinds
      (.operator spot.sum (spot.product.fill phrase) enclosures) := by
  match phrase with
  | .number value => exact .cons (.number spot enclosures value) (.nil _)
  | .name text => exact .cons (.name spot enclosures text) (.nil _)
  | .group inner =>
      have hclose := Step.closeGroup inner.context inner.lastTerm spot enclosures
      rw [inner.fill_lastTerm] at hclose
      have hinner := inner.run (⟨spot, .group⟩ :: enclosures)
      exact .cons (.openGroup spot enclosures) (hinner.snoc hclose)
  | .call function earlier last hcount =>
      have hearlier := earlier.run function spot enclosures
      have hlast := last.run (⟨spot, .call function earlier⟩ :: enclosures)
      have hclose :=
        Step.closeCall last.context last.lastTerm spot function earlier enclosures hcount
      rw [last.fill_lastTerm] at hclose
      exact .cons (.builtin spot enclosures function)
        (.cons (.openCall function spot enclosures) ((hearlier.append hlast).snoc hclose))

/-- A reader collects the arguments of a call. -/
theorem ArgumentPhrases.run {count : Nat} (phrases : ArgumentPhrases count) (function : Builtin)
    (spot : Spot) (enclosures : List Enclosure) :
    Run (.operand .start (⟨spot, .call function .nil⟩ :: enclosures)) phrases.kinds
      (.operand .start (⟨spot, .call function phrases⟩ :: enclosures)) := by
  match phrases with
  | .nil => exact .nil _
  | .step earlier argument =>
      have hearlier := earlier.run function spot enclosures
      have hargument := argument.run (⟨spot, .call function earlier⟩ :: enclosures)
      have hcomma := Step.comma argument.context argument.lastTerm spot function earlier enclosures
      rw [argument.fill_lastTerm] at hcomma
      exact (hearlier.append hargument).snoc hcomma
end

/-- The kinds of an expression determine the expression. -/
theorem SumPhrase.kinds_inj {first second : SumPhrase} (h : first.kinds = second.kinds) :
    first = second := by
  have hfirst := first.run []
  rw [h] at hfirst
  have heq := hfirst.unique (second.run [])
  simp only [Reader.operator.injEq, and_true] at heq
  rw [← first.fill_lastTerm, ← second.fill_lastTerm, heq.1, heq.2]

/-- Kinds over which a reader completes an expression are those of this expression. -/
theorem Reader.Run.kinds_fill {kinds : List Kind} {sum : SumContext} {product : ProductPhrase}
    (h : Run .start kinds (.operator sum product [])) : (sum.fill product).kinds = kinds := by
  simpa [Reader.kinds, Enclosure.allKinds, Spot.kinds, SumContext.kinds, ProductContext.kinds,
    SumContext.kinds_fill] using h.kinds

end Reckoner.Grammar
