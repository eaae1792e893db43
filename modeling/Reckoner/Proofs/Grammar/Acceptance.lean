import Reckoner.Proofs.Fallible
import Reckoner.Proofs.Grammar.Reader
import Reckoner.Token.Shape

/-!
# The check accepts the grammar

The check of a token sequence passes exactly if the kinds of the tokens are those of an expression.
The walk over the tokens agrees with a reader in everything but the positions, so that it can take a
step whenever the reader can (`Agrees.step`). The converse holds as long as no operator follows
another one, because the walk does not tell such an operator from a sign (`Agrees.exists_step`);
this is what the check of neighbouring tokens is for. Read `check_eq_ok_iff` first.
-/

namespace Reckoner.Token

/-- What the check of operators says about the first token. -/
theorem checkOperators_cons {first : Token} {rest : List Token} :
    checkOperators (first :: rest) = .ok () ↔
      (first.kind.isOperator →
        ∃ second, rest.head? = some second ∧ second.kind.endsOperand = false) ∧
        checkOperators rest = .ok () := by
  cases rest with
  | nil => simp [checkOperators]
  | cons second rest =>
      by_cases hfirst : first.kind.isOperator <;> by_cases hsecond : second.kind.endsOperand <;>
        simp [checkOperators, hfirst, hsecond]

/-- What the check of groups says about the first token. -/
theorem checkGroups_cons {first : Token} {rest : List Token} :
    checkGroups (first :: rest) = .ok () ↔
      (first.kind = .openParen → ∀ second, rest.head? = some second → second.kind ≠ .closeParen) ∧
        checkGroups rest = .ok () := by
  cases rest with
  | nil => simp [checkGroups]
  | cons second rest =>
      by_cases hfirst : first.kind = .openParen <;> by_cases hsecond : second.kind = .closeParen <;>
        simp [checkGroups, hfirst, hsecond]

/-- What does not end an operand is no operator. -/
theorem Kind.not_isOperator {kind : Kind} (h : kind.endsOperand = false) : ¬ kind.isOperator := by
  cases kind <;> simp [endsOperand, isOperator] at h ⊢

/-- A walk whose end is accepted has closed all groups and completed an operand. -/
theorem Walk.eq_of_finish {walk : Walk} {last : Token} (h : walk.finish (some last) = .ok ()) :
    walk = ⟨[], .operator⟩ := by
  obtain ⟨groups, expected⟩ := walk
  rcases List.eq_nil_or_concat groups with rfl | ⟨_, group, rfl⟩ <;> cases expected <;>
    simp [finish] at h ⊢

end Reckoner.Token

namespace Reckoner.Grammar

open Token (Kind Group Walk checkOperators checkGroups checkShape check checkOperators_cons
  checkGroups_cons)

/-- The function of a call with the number of its arguments up to the current one. -/
def Opening.call? : Opening → Option (Builtin × Nat)
  | group => none
  | @call function count _ => some (function, count + 1)

/-- The function whose arguments a group holds with the number of arguments that have been
started. -/
def Group.call? (group : Group) : Option (Builtin × Nat) :=
  group.call.map fun call => (call.1, group.arguments)

/-- A group outside of calls. -/
theorem Group.call?_eq_none {group : Group} (h : Group.call? group = none) : group.call = none := by
  simpa [Group.call?] using h

/-- A group that holds the arguments of a call. -/
theorem Group.call?_eq_some {group : Group} {function : Builtin} {count : Nat}
    (h : Group.call? group = some (function, count)) :
    ∃ name, group.call = some (function, name) ∧ group.arguments = count := by
  simp only [Group.call?, Option.map_eq_some_iff, Prod.mk.injEq] at h
  obtain ⟨⟨_, name⟩, hcall, rfl, hcount⟩ := h
  exact ⟨name, hcall, hcount⟩

/-- A reader and a walk expect the same and have the same open groups. -/
inductive Agrees : Reader → Walk → Prop where
  | operand {spot enclosures groups} :
      groups.map Group.call? = enclosures.map (fun enclosure => enclosure.opening.call?) →
      Agrees (.operand spot enclosures) ⟨groups, .operand⟩
  | operator {sum product enclosures groups} :
      groups.map Group.call? = enclosures.map (fun enclosure => enclosure.opening.call?) →
      Agrees (.operator sum product enclosures) ⟨groups, .operator⟩
  | arguments {function spot enclosures groups position} :
      groups.map Group.call? = enclosures.map (fun enclosure => enclosure.opening.call?) →
      Agrees (.arguments function spot enclosures) ⟨groups, .arguments function position⟩

/-- Is the last token that was read an operator? -/
def Reader.followsOperator : Reader → Prop
  | operand spot _ => spot ≠ .start
  | operator .. | arguments .. => False

namespace Reader

variable {reader next final : Reader} {kind : Kind}

/-- After an operator, a reader follows an operator. -/
theorem Step.followsOperator (h : Step reader kind next) (hkind : kind.isOperator) :
    next.followsOperator := by
  cases h <;> simp [Kind.isOperator, Reader.followsOperator] at hkind ⊢

/-- A reader that follows an operator has just read one. -/
theorem Step.isOperator (h : Step reader kind next) (hnext : next.followsOperator) :
    kind.isOperator := by
  cases h <;> simp [Kind.isOperator, Reader.followsOperator] at hnext ⊢

/-- After an operator, a reader takes nothing that ends an operand. -/
theorem Step.not_endsOperand (h : Step reader kind next) (hreader : reader.followsOperator) :
    kind.endsOperand = false := by
  cases h <;> simp [Kind.endsOperand, Reader.followsOperator] at hreader ⊢

end Reader

open Reader (Run Step)

/-- A walk can follow every step of a reader. -/
theorem Agrees.step {reader next : Reader} {walk : Walk} {token : Token}
    (h : Agrees reader walk) (hstep : Step reader token.kind next) :
    ∃ after, walk.step token = .ok after ∧ Agrees next after := by
  obtain ⟨kind, position⟩ := token
  cases hstep with
  | number | name | builtin =>
      cases h with
      | operand hgroups => exact ⟨_, rfl, by constructor; exact hgroups⟩
  | openGroup =>
      cases h with
      | operand hgroups => exact ⟨_, rfl, .operand (by simp [hgroups, Group.call?, Opening.call?])⟩
  | openCall =>
      cases h with
      | arguments hgroups =>
          exact ⟨_, rfl, .operand (by simp [hgroups, Group.call?, Opening.call?])⟩
  | sign _ op hop =>
      cases h with
      | operand hgroups => exact ⟨_, by simp [Walk.step, hop], .operand hgroups⟩
  | sumOperator | productOperator =>
      cases h with
      | operator hgroups => exact ⟨_, rfl, .operand hgroups⟩
  | closeGroup =>
      cases h with
      | operator hgroups =>
          obtain ⟨group, groups, rfl, hgroup, hrest⟩ := List.map_eq_cons_iff.1 hgroups
          have hcall := Group.call?_eq_none hgroup
          exact ⟨⟨groups, .operator⟩, by simp [Walk.step, Walk.close, hcall], .operator hrest⟩
  | closeCall sum product spot function earlier enclosures hcount =>
      cases h with
      | operator hgroups =>
          obtain ⟨group, groups, rfl, hgroup, hrest⟩ := List.map_eq_cons_iff.1 hgroups
          obtain ⟨name, hcall, harguments⟩ := Group.call?_eq_some hgroup
          refine ⟨⟨groups, .operator⟩, ?_, .operator hrest⟩
          simp [Walk.step, Walk.close, hcall, harguments, hcount]
  | comma sum product spot function earlier enclosures =>
      cases h with
      | operator hgroups =>
          obtain ⟨⟨call, started, opened⟩, groups, rfl, hgroup, hrest⟩ :=
            List.map_eq_cons_iff.1 hgroups
          obtain ⟨name, rfl, rfl⟩ := Group.call?_eq_some hgroup
          exact ⟨_, rfl, .operand (by simp [hrest, Group.call?, Opening.call?])⟩

/-- A reader can follow every step of a walk that does not put an operator behind another one. -/
theorem Agrees.exists_step {reader : Reader} {walk after : Walk} {token : Token}
    (h : Agrees reader walk) (hwalk : walk.step token = .ok after)
    (hoperator : reader.followsOperator → ¬ token.kind.isOperator) :
    ∃ next, Step reader token.kind next := by
  obtain ⟨kind, position⟩ := token
  cases h with
  | @operand spot enclosures groups hgroups =>
      cases kind with
      | number value => exact ⟨_, .number ..⟩
      | name text => exact ⟨_, .name ..⟩
      | builtin function => exact ⟨_, .builtin ..⟩
      | openParen => exact ⟨_, .openGroup ..⟩
      | operator op =>
          -- the walk takes a sign anywhere, so only the neighbour before it can rule this out
          have hstart : spot = .start := by
            simpa [Reader.followsOperator, Kind.isOperator] using hoperator
          subst hstart
          by_cases hop : op.actsAsSign
          · exact ⟨_, .sign _ op hop⟩
          · simp [Walk.step, hop] at hwalk
      | closeParen =>
          obtain ⟨-, -, -, hne, -⟩ := Walk.close_eq_ok hwalk
          exact absurd rfl hne
      | comma =>
          obtain ⟨-, -, -, -, -, -, hne⟩ := Walk.separate_eq_ok hwalk
          exact absurd rfl hne
  | @operator sum product enclosures groups hgroups =>
      cases kind with
      | number | name | builtin | openParen => simp [Walk.step] at hwalk
      | operator op =>
          by_cases hop : op.actsAsSign
          · exact ⟨_, .sumOperator _ _ _ op hop⟩
          · exact ⟨_, .productOperator _ _ _ op hop⟩
      | closeParen =>
          obtain ⟨group, rfl, -, -, hcount⟩ := Walk.close_eq_ok hwalk
          obtain ⟨⟨spot, opening⟩, enclosures, rfl, hopening, -⟩ :=
            List.map_eq_cons_iff.1 hgroups.symm
          cases opening with
          | group => exact ⟨_, .closeGroup ..⟩
          | call function earlier =>
              obtain ⟨name, hcall, harguments⟩ := Group.call?_eq_some hopening.symm
              have harity := hcount function name hcall
              exact ⟨_, .closeCall _ _ _ _ _ _ (harguments.symm.trans harity)⟩
      | comma =>
          obtain ⟨call, arguments, opened, groups, rfl, -, -⟩ := Walk.separate_eq_ok hwalk
          obtain ⟨⟨spot, opening⟩, enclosures, rfl, hopening, -⟩ :=
            List.map_eq_cons_iff.1 hgroups.symm
          cases opening with
          | group => cases hopening
          | call function earlier => exact ⟨_, .comma ..⟩
  | arguments hgroups =>
      cases kind with
      | openParen => exact ⟨_, .openCall ..⟩
      | _ => simp [Walk.step] at hwalk

/-- A walk can follow every run of a reader. -/
theorem Agrees.run {reader final : Reader} {walk : Walk} {tokens : List Token}
    (h : Agrees reader walk) (hrun : Run reader (tokens.map Token.kind) final) :
    ∃ last, tokens.foldlM Walk.step walk = .ok last ∧ Agrees final last := by
  induction tokens generalizing reader walk with
  | nil =>
      cases hrun
      exact ⟨walk, rfl, h⟩
  | cons token rest ih =>
      cases hrun with
      | cons hstep hrest =>
          obtain ⟨after, hafter, hagrees⟩ := h.step hstep
          obtain ⟨last, hlast, hfinal⟩ := ih hagrees hrest
          exact ⟨last, by rw [List.foldlM_cons, hafter, ok_bind, hlast], hfinal⟩

/-- A reader can follow a walk over tokens that pass the check of operators. -/
theorem Agrees.exists_run {reader : Reader} {walk last : Walk} {tokens : List Token}
    (h : Agrees reader walk) (hwalk : tokens.foldlM Walk.step walk = .ok last)
    (hoperators : checkOperators tokens = .ok ())
    (hfirst : reader.followsOperator → ∀ token ∈ tokens.head?, ¬ token.kind.isOperator) :
    ∃ final, Run reader (tokens.map Token.kind) final ∧ Agrees final last := by
  induction tokens generalizing reader walk with
  | nil =>
      cases hwalk
      exact ⟨reader, .nil reader, h⟩
  | cons token rest ih =>
      obtain ⟨hsecond, hoperators⟩ := checkOperators_cons.1 hoperators
      rw [List.foldlM_cons, bind_eq_ok_iff] at hwalk
      obtain ⟨after, hafter, hwalk⟩ := hwalk
      obtain ⟨next, hstep⟩ := h.exists_step hafter fun hreader => hfirst hreader token rfl
      obtain ⟨_, hafter', hnext⟩ := h.step hstep
      cases hafter.symm.trans hafter'
      -- the assumption about the first token has to hold again for the tokens that are left
      have hsecondFirst : next.followsOperator →
          ∀ second ∈ rest.head?, ¬ second.kind.isOperator := by
        intro hnextOperator second hhead
        obtain ⟨_, hhead', hends⟩ := hsecond (hstep.isOperator hnextOperator)
        cases hhead.symm.trans hhead'
        exact Kind.not_isOperator hends
      obtain ⟨final, hrun, hfinal⟩ := ih hnext hwalk hoperators hsecondFirst
      exact ⟨final, .cons hstep hrun, hfinal⟩

/-- No operator is followed by the end of an operand while a reader completes an expression. -/
theorem checkOperators_of_run {reader : Reader} {sum : SumContext} {product : ProductPhrase}
    {enclosures : List Enclosure} {tokens : List Token}
    (h : Run reader (tokens.map Token.kind) (.operator sum product enclosures)) :
    checkOperators tokens = .ok () := by
  induction tokens generalizing reader with
  | nil => rfl
  | cons token rest ih =>
      cases h with
      | cons hstep hrest =>
          refine checkOperators_cons.2 ⟨fun hoperator => ?_, ih hrest⟩
          have hnext := hstep.followsOperator hoperator
          cases rest with
          | nil =>
              cases hrest
              exact hnext.elim
          | cons second rest =>
              cases hrest with
              | cons hstep' _ => exact ⟨second, rfl, hstep'.not_endsOperand hnext⟩

/-- A reader closes no group at once. -/
theorem checkGroups_of_run {reader final : Reader} {tokens : List Token}
    (h : Run reader (tokens.map Token.kind) final) : checkGroups tokens = .ok () := by
  induction tokens generalizing reader with
  | nil => rfl
  | cons token rest ih =>
      cases h with
      | cons hstep hrest =>
          refine checkGroups_cons.2 ⟨fun hopen second hhead hclose => ?_, ih hrest⟩
          obtain ⟨rest, rfl⟩ := List.head?_eq_some_iff.1 hhead
          rw [hopen] at hstep
          -- a reader that has just opened a group waits for an operand
          cases hrest with
          | cons hstep' _ =>
              rw [hclose] at hstep'
              cases hstep <;> cases hstep'

/-- The walk over the kinds of an expression ends outside of all groups and with a complete operand,
and no other walk is accepted. -/
theorem checkShape_eq_ok_iff {tokens : List Token} (h : tokens ≠ []) :
    checkShape tokens = .ok () ↔ tokens.foldlM Walk.step .start = .ok ⟨[], .operator⟩ := by
  obtain ⟨last, hlast⟩ := Option.ne_none_iff_exists'.1 (mt List.getLast?_eq_none_iff.1 h)
  rw [checkShape, bind_eq_ok_iff, hlast]
  constructor
  · rintro ⟨walk, hwalk, hfinish⟩
    rw [hwalk, Walk.eq_of_finish hfinish]
  · intro hwalk
    exact ⟨_, hwalk, rfl⟩

/-- The check passes exactly for the token sequences that are expressions. -/
theorem check_eq_ok_iff {tokens : List Token} (h : tokens ≠ []) :
    check tokens = .ok () ↔ ∃ phrase : SumPhrase, phrase.kinds = tokens.map Token.kind := by
  have hstart : Agrees .start .start := .operand rfl
  simp only [check, bind_eq_ok_iff, checkShape_eq_ok_iff h]
  constructor
  · rintro ⟨_, hoperators, _, -, hwalk⟩
    obtain ⟨final, hrun, hagrees⟩ := hstart.exists_run hwalk hoperators fun hne => absurd rfl hne
    cases hagrees with
    | @operator sum product enclosures _ hgroups =>
        have hnil : enclosures = [] := List.map_eq_nil_iff.1 hgroups.symm
        subst hnil
        exact ⟨sum.fill product, hrun.kinds_fill⟩
  · rintro ⟨phrase, hkinds⟩
    have hrun := phrase.run []
    rw [hkinds] at hrun
    obtain ⟨last, hwalk, hagrees⟩ := hstart.run hrun
    cases hagrees with
    | operator hgroups =>
        rw [List.map_nil, List.map_eq_nil_iff] at hgroups
        subst hgroups
        exact ⟨(), checkOperators_of_run hrun, (), checkGroups_of_run hrun, hwalk⟩

end Reckoner.Grammar
