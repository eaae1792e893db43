import Reckoner.Program.Yard
import Reckoner.Proofs.Fallible
import Reckoner.Proofs.Grammar.Names
import Reckoner.Proofs.Grammar.Reader

/-!
# The program of an expression

The yard turns the tokens of an expression into the instructions of its tree. Between two tokens, it
holds the tokens that a reader has read and that still wait, and the instructions so far are those
of the phrases that the reader has completed. Read `Holds` and `Holds.step` first: every step of a
reader is a step of the yard that keeps this. At the end of an expression the waiting operators are
all that is missing, which gives `SumPhrase.ofTokens_eq`.
-/

namespace Reckoner

/-- The operators that may be signs bind less tightly than the others. -/
theorem Operator.precedence_eq (op : Operator) :
    op.precedence = if op.actsAsSign then 0 else 1 := by
  cases op <;> rfl

namespace Pending

open Token (Kind)

/-- What waits is an operator if its kind is. -/
theorem eq_operator_of_kind {top : Pending} {op : Operator} (h : top.kind = .operator op) :
    ∃ position, top = operator op position := by
  cases top <;> simp [kind] at h
  exact ⟨_, by rw [h]⟩

/-- What waits is an opening parenthesis if its kind is. -/
theorem eq_openParen_of_kind {top : Pending} (h : top.kind = .openParen) :
    ∃ position, top = openParen position := by
  cases top <;> simp [kind] at h
  exact ⟨_, rfl⟩

/-- What waits is the name of a function if its kind is. -/
theorem eq_builtin_of_kind {top : Pending} {function : Builtin}
    (h : top.kind = .builtin function) : ∃ position, top = builtin function position := by
  cases top <;> simp [kind] at h
  exact ⟨_, by rw [h]⟩

/-- Exactly the operators on top that bind tightly enough are released. -/
theorem release_of_kinds {precedence : Nat} {pending : List Pending} {ops : List Operator}
    {rest : List Kind} (h : pending.map kind = ops.map Kind.operator ++ rest)
    (hops : ∀ op ∈ ops, precedence ≤ op.precedence)
    (hrest : ∀ op, rest.head? = some (.operator op) → op.precedence < precedence) :
    ∃ left, release precedence pending = (ops.map Operator.instruction, left) ∧
      left.map kind = rest := by
  induction ops generalizing pending with
  | nil =>
      refine ⟨pending, ?_, h⟩
      match pending with
      | [] | builtin _ _ :: _ | openParen _ :: _ => rfl
      | operator top position :: below =>
          have hlt := hrest top (by rw [← List.nil_append rest, ← List.map_nil, ← h]; rfl)
          simp [release, Nat.not_le.2 hlt]
  | cons op ops ih =>
      obtain ⟨top, below, rfl, htop, hbelow⟩ := List.map_eq_cons_iff.1 h
      obtain ⟨position, rfl⟩ := eq_operator_of_kind htop
      obtain ⟨left, hleft, hkinds⟩ := ih hbelow fun op hop => hops op (List.mem_cons_of_mem _ hop)
      have hle := hops op List.mem_cons_self
      exact ⟨left, by simp [release, hle, hleft, Operator.instruction], hkinds⟩

/-- At the end of a group, its operators are released. -/
theorem releaseGroup_of_kinds (token : Token) {pending : List Pending} {ops : List Operator}
    {rest : List Kind} (h : pending.map kind = ops.map Kind.operator ++ .openParen :: rest) :
    ∃ position left,
      releaseGroup token pending = .ok (ops.map Operator.instruction, openParen position :: left) ∧
        left.map kind = rest := by
  induction ops generalizing pending with
  | nil =>
      obtain ⟨top, below, rfl, htop, hbelow⟩ := List.map_eq_cons_iff.1 h
      obtain ⟨position, rfl⟩ := eq_openParen_of_kind htop
      exact ⟨position, below, rfl, hbelow⟩
  | cons op ops ih =>
      obtain ⟨top, below, rfl, htop, hbelow⟩ := List.map_eq_cons_iff.1 h
      obtain ⟨_, rfl⟩ := eq_operator_of_kind htop
      obtain ⟨position, left, hleft, hkinds⟩ := ih hbelow
      exact ⟨position, left, by simp [releaseGroup, hleft, Operator.instruction], hkinds⟩

/-- At the end, all operators are released. -/
theorem releaseAll_of_kinds {pending : List Pending} {ops : List Operator}
    (h : pending.map kind = ops.map Kind.operator) :
    releaseAll pending = .ok (ops.map Operator.instruction) := by
  induction ops generalizing pending with
  | nil =>
      rw [List.map_eq_nil_iff.1 h]
      rfl
  | cons op ops ih =>
      obtain ⟨top, below, rfl, htop, hbelow⟩ := List.map_eq_cons_iff.1 h
      obtain ⟨_, rfl⟩ := eq_operator_of_kind htop
      simp [releaseAll, ih hbelow, Operator.instruction]

/-- The end of a group that does not belong to a function. -/
theorem closeGroup_of_kinds {position : Position} {left : List Pending}
    (h : ∀ function, (left.map kind).head? ≠ some (.builtin function)) :
    closeGroup (openParen position :: left) = ([], left) := by
  match left with
  | [] | operator _ _ :: _ | openParen _ :: _ => rfl
  | builtin function _ :: _ => exact absurd rfl (h function)

end Pending

namespace Yard

open Token (Kind)

/-- The instructions of some tokens and the state after them. -/
def advance (yard : Yard) : List Token → Except CompileError (List Instruction × Yard)
  | [] => .ok ([], yard)
  | token :: rest => do
    let (instructions, next) ← yard.step token
    let (following, last) ← next.advance rest
    .ok (instructions ++ following, last)

/-- The yard runs over some tokens and then over the others. -/
theorem run_append (yard : Yard) (first second : List Token) :
    yard.run (first ++ second) = (do
      let (instructions, next) ← yard.advance first
      let following ← next.run second
      .ok (instructions ++ following)) := by
  induction first generalizing yard with
  | nil => cases h : yard.run second <;> simp [advance, h]
  | cons token rest ih =>
      rw [List.cons_append, run, advance]
      cases yard.step token with
      | error error => rfl
      | ok result =>
          obtain ⟨instructions, next⟩ := result
          simp only [ok_bind, ih]
          cases next.advance rest with
          | error error => rfl
          | ok result =>
              obtain ⟨following, last⟩ := result
              cases h : last.run second <;> simp [h]

variable {yard : Yard} {ops : List Operator} {rest : List Kind}

/-- An operator releases those on top that bind at least as tightly, and waits in their place. -/
theorem step_operator (op : Operator) (position : Position)
    (h : yard.pending.map Pending.kind = ops.map Kind.operator ++ rest)
    (hops : ∀ top ∈ ops, op.precedence ≤ top.precedence)
    (hrest : ∀ top, rest.head? = some (.operator top) → top.precedence < op.precedence) :
    ∃ after, yard.step ⟨.operator op, position⟩ =
        .ok ((if yard.atStart then [.push Binary64.negativeZero] else []) ++
          ops.map Operator.instruction, after) ∧
      after.pending.map Pending.kind = .operator op :: rest ∧ after.atStart = false := by
  obtain ⟨left, hleft, hkinds⟩ := Pending.release_of_kinds h hops hrest
  refine ⟨⟨.operator op position :: left, false⟩, ?_, ?_, rfl⟩
  · simp [step, hleft]
  · simp [Pending.kind, hkinds]

/-- A comma releases the operators of its argument. -/
theorem step_comma (position : Position)
    (h : yard.pending.map Pending.kind = ops.map Kind.operator ++ .openParen :: rest) :
    ∃ after, yard.step ⟨.comma, position⟩ = .ok (ops.map Operator.instruction, after) ∧
      after.pending.map Pending.kind = .openParen :: rest ∧ after.atStart = true := by
  obtain ⟨opened, left, hleft, hkinds⟩ := Pending.releaseGroup_of_kinds ⟨.comma, position⟩ h
  refine ⟨⟨.openParen opened :: left, true⟩, ?_, ?_, rfl⟩
  · simp [step, hleft]
  · simp [Pending.kind, hkinds]

/-- The end of a group that does not belong to a function releases its operators. -/
theorem step_closeGroup (position : Position)
    (h : yard.pending.map Pending.kind = ops.map Kind.operator ++ .openParen :: rest)
    (hrest : ∀ function, rest.head? ≠ some (.builtin function)) :
    ∃ after, yard.step ⟨.closeParen, position⟩ = .ok (ops.map Operator.instruction, after) ∧
      after.pending.map Pending.kind = rest ∧ after.atStart = false := by
  obtain ⟨opened, left, hleft, rfl⟩ :=
    Pending.releaseGroup_of_kinds ⟨.closeParen, position⟩ h
  refine ⟨⟨left, false⟩, ?_, rfl, rfl⟩
  simp [step, hleft, Pending.closeGroup_of_kinds hrest]

/-- The end of the arguments of a function releases their operators and then the function. -/
theorem step_closeCall {function : Builtin} (position : Position)
    (h : yard.pending.map Pending.kind =
      ops.map Kind.operator ++ .openParen :: .builtin function :: rest) :
    ∃ after, yard.step ⟨.closeParen, position⟩ =
        .ok (ops.map Operator.instruction ++ [.apply (.builtin function)], after) ∧
      after.pending.map Pending.kind = rest ∧ after.atStart = false := by
  obtain ⟨opened, left, hleft, hkinds⟩ :=
    Pending.releaseGroup_of_kinds ⟨.closeParen, position⟩ h
  obtain ⟨top, below, rfl, htop, hbelow⟩ := List.map_eq_cons_iff.1 hkinds
  obtain ⟨name, rfl⟩ := Pending.eq_builtin_of_kind htop
  refine ⟨⟨below, false⟩, ?_, hbelow, rfl⟩
  simp [step, hleft, Pending.closeGroup]

end Yard

namespace Grammar

open Token (Kind)
open Reader (Run Step)

/-- The operators that wait for the term. -/
def SumContext.waiting : SumContext → List Operator
  | empty => []
  | signed op _ | after _ op _ => [op]

/-- The instructions before those of the term. -/
def SumContext.emitted : SumContext → List Instruction
  | empty => []
  | signed _ _ => [.push Binary64.negativeZero]
  | after left _ _ => left.tree.postorder

/-- The operators that wait for the factor. -/
def ProductContext.waiting : ProductContext → List Operator
  | empty => []
  | after _ op _ => [op]

/-- The instructions before those of the factor. -/
def ProductContext.emitted : ProductContext → List Instruction
  | empty => []
  | after left _ _ => left.tree.postorder

/-- The operators of a term that still wait behind its last factor. -/
def ProductPhrase.waiting : ProductPhrase → List Operator
  | factor _ => []
  | step _ op _ _ => [op]

/-- The instructions of a term up to those of its last factor. -/
def ProductPhrase.emitted : ProductPhrase → List Instruction
  | factor last => last.tree.postorder
  | step left _ _ right => left.tree.postorder ++ right.tree.postorder

/-- The function that waits for the end of its arguments. -/
def Opening.waiting : Opening → List Kind
  | group => []
  | call function _ => [.builtin function]

/-- The instructions of the arguments that are complete. -/
def Opening.emitted : Opening → List Instruction
  | group => []
  | call _ earlier => Tree.postorderAll earlier.trees

/-- The kinds of the tokens that wait at a place, the latest first. -/
def Spot.waiting (spot : Spot) : List Operator := spot.product.waiting ++ spot.sum.waiting

/-- The instructions before those of the factor at a place. -/
def Spot.emitted (spot : Spot) : List Instruction := spot.sum.emitted ++ spot.product.emitted

@[simp]
theorem Spot.waiting_start : Spot.start.waiting = [] := rfl

@[simp]
theorem Spot.emitted_start : Spot.start.emitted = [] := rfl

namespace Enclosure

/-- The kinds of the tokens that wait for the end of nested enclosures, the latest first. -/
def allWaiting : List Enclosure → List Kind
  | [] => []
  | enclosure :: rest =>
    .openParen :: enclosure.opening.waiting ++ enclosure.spot.waiting.map .operator ++
      allWaiting rest

/-- The instructions before those of the innermost expression of nested enclosures. -/
def allEmitted : List Enclosure → List Instruction
  | [] => []
  | enclosure :: rest => allEmitted rest ++ enclosure.spot.emitted ++ enclosure.opening.emitted

/-- Nothing but an opening parenthesis waits on top of what enclosures make wait. -/
theorem eq_openParen_of_head? {enclosures : List Enclosure} {kind : Kind}
    (h : (allWaiting enclosures).head? = some kind) : kind = .openParen := by
  cases enclosures with
  | nil => simp [allWaiting] at h
  | cons enclosure rest => exact (Option.some.inj h).symm

/-- No operator waits on top of what enclosures make wait. -/
theorem head?_ne_operator (enclosures : List Enclosure) (op : Operator) :
    (allWaiting enclosures).head? ≠ some (.operator op) := by
  intro h
  cases eq_openParen_of_head? h

end Enclosure

namespace Reader

/-- The kinds of the tokens that wait, the latest first. -/
def waiting : Reader → List Kind
  | operand spot enclosures => spot.waiting.map .operator ++ Enclosure.allWaiting enclosures
  | operator sum product enclosures =>
    (product.waiting ++ sum.waiting).map .operator ++ Enclosure.allWaiting enclosures
  | arguments function spot enclosures =>
    .builtin function :: spot.waiting.map .operator ++ Enclosure.allWaiting enclosures

/-- The instructions of what has been read, without those that wait. -/
def emitted : Reader → List Instruction
  | operand spot enclosures => Enclosure.allEmitted enclosures ++ spot.emitted
  | operator sum product enclosures =>
    Enclosure.allEmitted enclosures ++ sum.emitted ++ product.emitted
  | arguments _ spot enclosures => Enclosure.allEmitted enclosures ++ spot.emitted

/-- Would an operator be a sign? -/
def atStart : Reader → Bool
  | operand ⟨.empty, .empty⟩ _ => true
  | _ => false

end Reader

/-- The instructions of an expression are those before its last term, those of this term, and the
operator that has waited for it. -/
theorem SumContext.postorder_fill (context : SumContext) (product : ProductPhrase) :
    (context.fill product).tree.postorder =
      context.emitted ++ product.tree.postorder ++ context.waiting.map Operator.instruction := by
  cases context <;>
    simp [fill, emitted, waiting, SumPhrase.tree, postorder_binary, Tree.postorder]

/-- The instructions of a term are those up to its last factor and the operator that waits. -/
theorem ProductPhrase.postorder_tree (product : ProductPhrase) :
    product.tree.postorder = product.emitted ++ product.waiting.map Operator.instruction := by
  cases product <;> simp [emitted, waiting, ProductPhrase.tree, postorder_binary]

@[simp]
theorem ProductContext.waiting_fill (context : ProductContext) (factor : FactorPhrase) :
    (context.fill factor).waiting = context.waiting := by
  cases context <;> rfl

@[simp]
theorem ProductContext.emitted_fill (context : ProductContext) (factor : FactorPhrase) :
    (context.fill factor).emitted = context.emitted ++ factor.tree.postorder := by
  cases context <;> rfl

/-- A factor changes nothing about what waits at its place. -/
theorem Reader.waiting_fill (spot : Spot) (factor : FactorPhrase) (enclosures : List Enclosure) :
    (operator spot.sum (spot.product.fill factor) enclosures).waiting =
      (operand spot enclosures).waiting := by
  simp [waiting, Spot.waiting]

/-- A factor adds its instructions. -/
theorem Reader.emitted_fill (spot : Spot) (factor : FactorPhrase) (enclosures : List Enclosure) :
    (operator spot.sum (spot.product.fill factor) enclosures).emitted =
      (operand spot enclosures).emitted ++ factor.tree.postorder := by
  simp [emitted, Spot.emitted]

/-- The instructions of an expression are those that a reader has emitted for it and the operators
that wait behind it. -/
theorem Reader.emitted_append_waiting (sum : SumContext) (product : ProductPhrase)
    (enclosures : List Enclosure) :
    (operator sum product enclosures).emitted ++
        (product.waiting ++ sum.waiting).map Operator.instruction =
      Enclosure.allEmitted enclosures ++ (sum.fill product).tree.postorder := by
  simp [emitted, sum.postorder_fill, product.postorder_tree]

/-- The operators that wait behind a term bind tightly. -/
theorem ProductPhrase.precedence_of_mem_waiting {product : ProductPhrase} {op : Operator}
    (h : op ∈ product.waiting) : op.precedence = 1 := by
  cases product with
  | factor => simp [waiting] at h
  | step left op' hop right =>
      rw [List.mem_singleton.1 h, op'.precedence_eq, if_neg hop]

/-- An operator on top of what waits behind an expression binds loosely. -/
theorem SumContext.precedence_lt_of_head? (context : SumContext) {enclosures : List Enclosure}
    {op : Operator}
    (h : (context.waiting.map Kind.operator ++ Enclosure.allWaiting enclosures).head? =
      some (.operator op)) : op.precedence < 1 := by
  cases context with
  | empty => exact absurd h (Enclosure.head?_ne_operator enclosures op)
  | signed other hop | after left other hop =>
      obtain rfl : other = op := by simpa [waiting] using h
      simp [Operator.precedence_eq, hop]

/-- No function waits on top of what waits at a place. -/
theorem Spot.head?_waiting_ne_builtin (spot : Spot) (enclosures : List Enclosure)
    (function : Builtin) :
    (spot.waiting.map Kind.operator ++ Enclosure.allWaiting enclosures).head? ≠
      some (.builtin function) := by
  intro h
  cases hwaiting : spot.waiting with
  | nil =>
      rw [hwaiting] at h
      cases Enclosure.eq_openParen_of_head? h
  | cons op ops => simp [hwaiting] at h

/-- The yard holds what waits in the reader. -/
structure Holds (yard : Yard) (reader : Reader) : Prop where
  pending : yard.pending.map Pending.kind = reader.waiting
  atStart : yard.atStart = reader.atStart

/-- The yard follows every step of a reader and emits the instructions that the reader does. -/
theorem Holds.step {yard : Yard} {reader next : Reader} {token : Token}
    (h : Holds yard reader) (hstep : Step reader token.kind next) :
    ∃ instructions after, yard.step token = .ok (instructions, after) ∧ Holds after next ∧
      next.emitted = reader.emitted ++ instructions := by
  obtain ⟨kind, position⟩ := token
  obtain ⟨hpending, hatStart⟩ := h
  cases hstep with
  | number spot enclosures value =>
      refine ⟨_, _, rfl, ⟨?_, rfl⟩, Reader.emitted_fill ..⟩
      rw [Reader.waiting_fill, ← hpending]
  | name spot enclosures text =>
      refine ⟨_, _, rfl, ⟨?_, rfl⟩, Reader.emitted_fill ..⟩
      rw [Reader.waiting_fill, ← hpending]
  | builtin spot enclosures function =>
      refine ⟨[], _, rfl, ⟨?_, rfl⟩, by simp [Reader.emitted]⟩
      simp [Pending.kind, Reader.waiting, hpending]
  | openGroup spot enclosures =>
      refine ⟨[], _, rfl, ⟨?_, rfl⟩, ?_⟩
      · simp [Pending.kind, Reader.waiting, Enclosure.allWaiting, Opening.waiting, hpending]
      · simp [Reader.emitted, Enclosure.allEmitted, Opening.emitted]
  | openCall function spot enclosures =>
      refine ⟨[], _, rfl, ⟨?_, rfl⟩, ?_⟩
      · simp [Pending.kind, Reader.waiting, Enclosure.allWaiting, Opening.waiting, hpending]
      · simp [Reader.emitted, Enclosure.allEmitted, Opening.emitted, ArgumentPhrases.trees,
          Tree.postorderAll]
  | sign enclosures op hop =>
      have hops : yard.pending.map Pending.kind =
          [].map .operator ++ Enclosure.allWaiting enclosures := hpending
      obtain ⟨after, hstep, hafter, hatStart'⟩ :=
        Yard.step_operator op position hops (by simp)
          fun top htop => absurd htop (Enclosure.head?_ne_operator enclosures top)
      rw [hatStart] at hstep
      refine ⟨[.push Binary64.negativeZero], after, hstep, ⟨hafter, hatStart'⟩, ?_⟩
      simp [Reader.emitted, Spot.emitted, SumContext.emitted, ProductContext.emitted]
  | sumOperator sum product enclosures op hop =>
      obtain ⟨after, hstep, hafter, hatStart'⟩ :=
        Yard.step_operator op position hpending (by simp [op.precedence_eq, hop])
          fun top htop => absurd htop (Enclosure.head?_ne_operator enclosures top)
      rw [hatStart] at hstep
      refine ⟨_, after, hstep, ⟨hafter, hatStart'⟩, ?_⟩
      -- both the last product and the sum before it are complete
      show _ = _ ++ (product.waiting ++ sum.waiting).map Operator.instruction
      rw [Reader.emitted_append_waiting]
      simp [Reader.emitted, Spot.emitted, SumContext.emitted, ProductContext.emitted]
  | productOperator sum product enclosures op hop =>
      have hops : yard.pending.map Pending.kind = product.waiting.map .operator ++
          (sum.waiting.map .operator ++ Enclosure.allWaiting enclosures) := by
        rw [← List.append_assoc, ← List.map_append]
        exact hpending
      obtain ⟨after, hstep, hafter, hatStart'⟩ :=
        Yard.step_operator op position hops
          (fun top htop => Nat.le_of_eq <| by
            rw [ProductPhrase.precedence_of_mem_waiting htop, op.precedence_eq, if_neg hop])
          (fun top htop => by
            rw [op.precedence_eq, if_neg hop]
            exact sum.precedence_lt_of_head? htop)
      rw [hatStart] at hstep
      refine ⟨_, after, hstep, ⟨hafter, by cases sum <;> exact hatStart'⟩, ?_⟩
      -- the product is complete, but the sum before it goes on waiting
      show _ = _ ++ product.waiting.map Operator.instruction
      simp [Reader.emitted, Spot.emitted, ProductContext.emitted, product.postorder_tree]
  | closeGroup sum product spot enclosures =>
      have hops : yard.pending.map Pending.kind = (product.waiting ++ sum.waiting).map .operator ++
          .openParen :: (spot.waiting.map .operator ++ Enclosure.allWaiting enclosures) := hpending
      obtain ⟨after, hstep, hafter, hatStart'⟩ :=
        Yard.step_closeGroup position hops (spot.head?_waiting_ne_builtin enclosures)
      refine ⟨_, after, hstep, ⟨?_, hatStart'⟩, ?_⟩
      · rw [Reader.waiting_fill, hafter]
        rfl
      · rw [Reader.emitted_fill, Reader.emitted_append_waiting]
        simp [Reader.emitted, Enclosure.allEmitted, Opening.emitted, FactorPhrase.tree]
  | closeCall sum product spot function earlier enclosures hcount =>
      have hops : yard.pending.map Pending.kind = (product.waiting ++ sum.waiting).map .operator ++
          .openParen :: .builtin function ::
            (spot.waiting.map .operator ++ Enclosure.allWaiting enclosures) := hpending
      obtain ⟨after, hstep, hafter, hatStart'⟩ :=
        Yard.step_closeCall position hops
      refine ⟨_, after, hstep, ⟨?_, hatStart'⟩, ?_⟩
      · rw [Reader.waiting_fill, hafter]
        rfl
      · rw [Reader.emitted_fill, ← List.append_assoc, Reader.emitted_append_waiting]
        simp [Reader.emitted, Enclosure.allEmitted, Opening.emitted, FactorPhrase.tree,
          Tree.postorder, Tree.postorderAll_append, Tree.postorderAll]
  | comma sum product spot function earlier enclosures =>
      obtain ⟨after, hstep, hafter, hatStart'⟩ :=
        Yard.step_comma position hpending
      refine ⟨_, after, hstep, ⟨hafter, hatStart'⟩, ?_⟩
      rw [Reader.emitted_append_waiting]
      simp [Reader.emitted, Enclosure.allEmitted, Opening.emitted, ArgumentPhrases.trees,
        Tree.postorderAll_append, Tree.postorderAll]

/-- The yard follows every run of a reader and emits the instructions that the reader does. -/
theorem Holds.run {yard : Yard} {reader final : Reader} {tokens : List Token}
    (h : Holds yard reader) (hrun : Run reader (tokens.map Token.kind) final) :
    ∃ instructions last, yard.advance tokens = .ok (instructions, last) ∧ Holds last final ∧
      final.emitted = reader.emitted ++ instructions := by
  induction tokens generalizing yard reader with
  | nil =>
      cases hrun
      exact ⟨[], yard, rfl, h, (List.append_nil _).symm⟩
  | cons token rest ih =>
      cases hrun with
      | cons hstep hrest =>
          obtain ⟨instructions, after, hafter, hholds, hemitted⟩ := h.step hstep
          obtain ⟨following, last, hlast, hfinal, hemitted'⟩ := ih hholds hrest
          refine ⟨instructions ++ following, last, ?_, hfinal, ?_⟩
          · simp [Yard.advance, hafter, hlast]
          · rw [hemitted', hemitted, List.append_assoc]

/-- The program of the tokens of an expression consists of the instructions of its tree. -/
theorem SumPhrase.ofTokens_eq {tokens : List Token} (phrase : SumPhrase)
    (h : phrase.kinds = tokens.map Token.kind) :
    Program.ofTokens tokens = .ok ⟨phrase.tree.postorder⟩ := by
  have hstart : Holds .start .start := ⟨rfl, rfl⟩
  have hrun := phrase.run []
  rw [h] at hrun
  obtain ⟨instructions, last, hadvance, hlast, hemitted⟩ := hstart.run hrun
  have hwaiting : last.pending.map Pending.kind =
      (phrase.lastTerm.waiting ++ phrase.context.waiting).map .operator := by
    rw [hlast.pending, Reader.waiting, Enclosure.allWaiting, List.append_nil]
  have hall := Reader.emitted_append_waiting phrase.context phrase.lastTerm []
  rw [hemitted, phrase.fill_lastTerm] at hall
  -- the yard stops after the last token and releases what waits
  have hend := Yard.run_append .start tokens []
  simp only [List.append_nil, hadvance, ok_bind, Yard.run, Pending.releaseAll_of_kinds hwaiting]
    at hend
  rw [Program.ofTokens, hend]
  simpa [Reader.emitted, Enclosure.allEmitted, Spot.emitted, SumContext.emitted,
    ProductContext.emitted] using hall

end Grammar

end Reckoner
